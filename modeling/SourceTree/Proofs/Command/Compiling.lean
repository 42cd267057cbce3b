import SourceTree.Proofs.Command.Footprint
import SourceTree.Proofs.Command.Priming

/-!
# What comes of a compiler

Whatever a compiler does, if it is started at all, either its output is the tree of a new session, or what
went wrong is reported with the compiler that was tried. One thing is not provided for: no system takes a
path with the character zero in it, and such a path ends the run before anything is started.
-/
namespace SourceTree

/-- The path has the character zero in it. -/
def Path.HoldsNul (path : Path) : Prop := path.text.toList.contains '\x00' = true

instance (path : Path) : Decidable path.HoldsNul := inferInstanceAs (Decidable (_ = true))

namespace Command

/-- The compiler that is tried: the one that is given, or the first one along the search path. -/
def compiler? (files : Files) (searchPath : SearchPath) : Option Path → Option Path
  | some compiler => some compiler
  | none => (files.which searchPath compilerName).map Path.ofString

/-- What a compiler is told to do. -/
def compilerArguments (source : Path) : List String := ["-frontend", "-emit-syntax", source.text]

/-- The machine once the attempt is on record. -/
def trying (host : Host) (compiler source : Path) (m : Machine) : Machine :=
  m.log (record host.clock Run.compilerSource
    ("Running " ++ " ".intercalate (compiler.text :: compilerArguments source)))

/-- A compiler is found, and the attempt to start it comes to this end. -/
structure Starts (host : Host) (searchPath : SearchPath) (given : Option Path) (source : Path) (m : Machine)
    (compiler : Path) (result : Except SystemError Ending) : Prop where
  found : compiler? m.files searchPath given = some compiler
  compilerPath : ¬ compiler.HoldsNul
  sourcePath : ¬ source.HoldsNul
  launched : (trying host compiler source m).files.launch host.programs searchPath compiler
    (compilerArguments source) = result

/-- What is said of a compiler that gives no tree. -/
inductive Complains (host : Host) (searchPath : SearchPath) (given : Option Path) (source : Path) (m : Machine)
    (compiler : Path) : Text → Prop
  | notStarted {cause : SystemError} (h : Starts host searchPath given source m compiler (.error cause)) :
      Complains host searchPath given source m compiler ("Failed to run parser: [Errno " ++
        toString cause.number ++ "] " ++ cause.message ++ ": " ++ Text.quoted compiler.text)
  | badExit {ending : Ending} (h : Starts host searchPath given source m compiler (.ok ending))
      (hexit : ending.exit ≠ 0) :
      Complains host searchPath given source m compiler ("Parsing " ++ source.text ++
        " failed with exit code " ++ toString ending.exit ++ ": " ++
        Text.strip (Text.Utf8.decodeReplacing ending.stderr))
  | badTree {ending : Ending} {cause : Fault}
      (h : Starts host searchPath given source m compiler (.ok ending)) (hexit : ending.exit = 0)
      (hread : (Session.empty.deserialize .json ending.stdout).1 = .error cause)
      (hexpected : cause.isExpected = true) :
      Complains host searchPath given source m compiler
        ("Parser produced an invalid syntax tree: " ++ cause.message)

/-- What comes of a compiler, and when. -/
inductive Compiles (host : Host) (searchPath : SearchPath) (given : Option Path) (source : Path) (m : Machine) :
    Except Stop Tree → Prop
  | tree {compiler : Path} {ending : Ending} {t : Tree}
      (h : Starts host searchPath given source m compiler (.ok ending)) (hexit : ending.exit = 0)
      (hread : (Session.empty.deserialize .json ending.stdout).1 = .ok t) :
      Compiles host searchPath given source m (.ok t)
  | missing (h : compiler? m.files searchPath given = none) : Compiles host searchPath given source m
      (.error (.failure (.tooling ("Could not find swiftc in PATH (" ++ searchPath.getD "" ++ ")"))))
  | complaint {compiler : Path} {text : Text} (h : Complains host searchPath given source m compiler text) :
      Compiles host searchPath given source m
        (.error (.failure (.tooling (text ++ " (swiftc: " ++ compiler.text ++ ")"))))
  | nul {compiler : Path} (h : compiler? m.files searchPath given = some compiler)
      (hnul : compiler.HoldsNul ∨ source.HoldsNul) :
      Compiles host searchPath given source m (.error (.escape .nulInPath))
  | unexpected {compiler : Path} {ending : Ending} {cause : Fault}
      (h : Starts host searchPath given source m compiler (.ok ending)) (hexit : ending.exit = 0)
      (hread : (Session.empty.deserialize .json ending.stdout).1 = .error cause)
      (hunexpected : cause.isExpected = false) :
      Compiles host searchPath given source m (.error (.escape (.fault cause)))

namespace Run

variable {host : Host} {searchPath : SearchPath} {given : Option Path} {source compiler : Path} {m : Machine}
  {ending : Ending}

theorem run_findCompiler (searchPath : SearchPath) (given : Option Path) (m : Machine) :
    (findCompiler searchPath given).run.run m =
      match compiler? m.files searchPath given with
      | some compiler => (.ok compiler, m)
      | none => (.error (.failure (.tooling (CompilerError.notFound searchPath).message)), m) := by
  cases given with
  | some compiler => rfl
  | none =>
    change ((get >>= _ : Run Path).run.run m) = _
    rw [run_get, compiler?]
    cases m.files.which searchPath compilerName <;> rfl

theorem checkPath_of_nul {path : Path} (h : path.HoldsNul) : checkPath path = escape .nulInPath := if_pos h

theorem checkPath_of_not_nul {path : Path} (h : ¬ path.HoldsNul) : checkPath path = pure () := if_neg h

/-- Without a compiler the run fails before anything is on record. -/
theorem compile_of_none (h : compiler? m.files searchPath given = none) :
    (compile host searchPath given source).run.run m =
      (.error (.failure (.tooling (CompilerError.notFound searchPath).message)), m) := by
  rw [compile, run_bind, run_findCompiler, h]

/-- A path that no system takes ends the run. -/
theorem compile_of_nul (h : compiler? m.files searchPath given = some compiler)
    (hnul : compiler.HoldsNul ∨ source.HoldsNul) :
    (compile host searchPath given source).run.run m =
      (.error (.escape .nulInPath), trying host compiler source m) := by
  rw [compile, run_bind, run_findCompiler, h]
  dsimp only
  rw [run_bind, run_log]
  by_cases hcompiler : compiler.HoldsNul
  · rw [checkPath_of_nul hcompiler]
    rfl
  · rw [checkPath_of_not_nul hcompiler, checkPath_of_nul (hnul.resolve_left hcompiler)]
    rfl

/-- The machine that a compiler leaves behind. -/
def leaving (host : Host) (compiler source : Path) (ending : Ending) (m : Machine) : Machine :=
  ⟨ending.files, (trying host compiler source m).runs, (trying host compiler source m).sinks⟩

/-- A compiler that is not started is reported, as is one that ends badly; of one that ends well the output is
read. -/
theorem compile_of_starts {result : Except SystemError Ending}
    (h : Starts host searchPath given source m compiler result) :
    (compile host searchPath given source).run.run m =
      match result with
      | .error cause => (.error (.failure (.tooling (CompilerError.notStarted compiler cause).message)),
          trying host compiler source m)
      | .ok ending =>
        if ending.exit = 0 then
          (readPayload host (fun cause => (CompilerError.badTree compiler cause).message) .empty .json
            ending.stdout >>= fun read => pure read.1).run.run (leaving host compiler source ending m)
        else (.error (.failure (.tooling
            (CompilerError.badExit compiler source ending.exit ending.stderr).message)),
          leaving host compiler source ending m) := by
  have hlaunched := h.launched
  unfold trying compilerArguments at hlaunched
  rw [compile, run_bind, run_findCompiler, h.found]
  dsimp only
  rw [run_bind, run_log]
  dsimp only
  rw [checkPath_of_not_nul h.compilerPath, checkPath_of_not_nul h.sourcePath, pure_bind, pure_bind, run_get,
    hlaunched]
  cases result with
  | error cause => rfl
  | ok ending =>
    -- its files are in place, and its exit status decides
    change (ite (ending.exit != 0) _ _ : Run Tree).run.run (leaving host compiler source ending m) = _
    by_cases hexit : ending.exit = 0
    · rw [if_neg (by rw [hexit]; decide)]
      exact (if_pos hexit).symm
    · rw [if_pos (bne_iff_ne.mpr hexit)]
      exact (if_neg hexit).symm

/-- What a compiler prints that ends well is the tree of a new session, or it is at fault. -/
theorem compile_of_ended (h : Starts host searchPath given source m compiler (.ok ending))
    (hexit : ending.exit = 0) :
    ((compile host searchPath given source).run.run m).1 =
      match (Session.empty.deserialize .json ending.stdout).1 with
      | .ok t => .ok t
      | .error cause => .error (if cause.isExpected
          then .failure (.tooling (CompilerError.badTree compiler cause).message)
          else .escape (.fault cause)) := by
  rw [compile_of_starts h]
  dsimp only
  rw [if_pos hexit, run_bind]
  rcases hcall : Session.empty.deserialize .json ending.stdout with ⟨cause | t, last⟩
  · rw [run_readPayload_error (by rw [hcall])]
  · obtain ⟨text, hread⟩ := run_readPayload_ok hcall host
      (fun cause => (CompilerError.badTree compiler cause).message) (leaving host compiler source ending m)
    rw [hread]
    rfl

/-- One of the things that may come of a compiler comes of it. -/
theorem compiles_compile (host : Host) (searchPath : SearchPath) (given : Option Path) (source : Path)
    (m : Machine) :
    Compiles host searchPath given source m ((compile host searchPath given source).run.run m).1 := by
  cases hfound : compiler? m.files searchPath given with
  | none =>
    rw [compile_of_none hfound]
    exact .missing hfound
  | some compiler =>
    by_cases hnul : compiler.HoldsNul ∨ source.HoldsNul
    · rw [compile_of_nul hfound hnul]
      exact .nul hfound hnul
    obtain ⟨hcompiler, hsource⟩ := not_or.mp hnul
    -- both paths can be taken, so whatever comes of the start is what the system says of it
    have hstarts : Starts host searchPath given source m compiler _ := ⟨hfound, hcompiler, hsource, rfl⟩
    cases hlaunched : (trying host compiler source m).files.launch host.programs searchPath compiler
        (compilerArguments source) with
    | error cause =>
      rw [hlaunched] at hstarts
      rw [compile_of_starts hstarts]
      exact .complaint (.notStarted hstarts)
    | ok ending =>
      rw [hlaunched] at hstarts
      by_cases hexit : ending.exit = 0
      · rw [compile_of_ended hstarts hexit]
        cases hread : (Session.empty.deserialize .json ending.stdout).1 with
        | ok t => exact .tree hstarts hexit hread
        | error cause =>
          dsimp only
          cases hexpected : cause.isExpected with
          | true => exact .complaint (.badTree hstarts hexit hread hexpected)
          | false => exact .unexpected hstarts hexit hread hexpected
      · rw [compile_of_starts hstarts]
        dsimp only
        rw [if_neg hexit]
        exact .complaint (.badExit hstarts hexit)

/-- Nothing else comes of the compiler. -/
theorem compile_of_compiles {result : Except Stop Tree} (h : Compiles host searchPath given source m result) :
    ((compile host searchPath given source).run.run m).1 = result := by
  cases h with
  | tree h hexit hread => rw [compile_of_ended h hexit, hread]
  | missing h => rw [compile_of_none h]; rfl
  | complaint h =>
    cases h with
    | notStarted h => rw [compile_of_starts h]; rfl
    | badExit h hexit =>
      rw [compile_of_starts h]
      dsimp only
      rw [if_neg hexit]
      rfl
    | badTree h hexit hread hexpected =>
      rw [compile_of_ended h hexit, hread]
      dsimp only
      rw [if_pos hexpected]
      rfl
  | nul h hnul => rw [compile_of_nul h hnul]
  | unexpected h hexit hread hunexpected =>
    rw [compile_of_ended h hexit, hread]
    dsimp only
    rw [if_neg (by rw [hunexpected]; decide)]

/-- There is a tree exactly if a compiler is started, ends well, and what it prints is a tree. -/
theorem compile_ok_iff {t : Tree} :
    ((compile host searchPath given source).run.run m).1 = .ok t ↔
      ∃ compiler ending, Starts host searchPath given source m compiler (.ok ending) ∧ ending.exit = 0 ∧
        (Session.empty.deserialize .json ending.stdout).1 = .ok t := by
  constructor
  · intro h
    have hcompiles := compiles_compile host searchPath given source m
    rw [h] at hcompiles
    cases hcompiles with
    | tree hstarts hexit hread => exact ⟨_, _, hstarts, hexit, hread⟩
  · rintro ⟨compiler, ending, hstarts, hexit, hread⟩
    exact compile_of_compiles (.tree hstarts hexit hread)

/-- What is reported is that there is no compiler, or what went wrong with the one that was tried. -/
theorem compile_failure_iff {cause : Failure} :
    ((compile host searchPath given source).run.run m).1 = .error (.failure cause) ↔
      ∃ message : Text, cause = .tooling message ∧
        (compiler? m.files searchPath given = none ∧
            message = "Could not find swiftc in PATH (" ++ searchPath.getD "" ++ ")" ∨
          ∃ compiler text, Complains host searchPath given source m compiler text ∧
            message = text ++ " (swiftc: " ++ compiler.text ++ ")") := by
  constructor
  · intro h
    have hcompiles := compiles_compile host searchPath given source m
    rw [h] at hcompiles
    cases hcompiles with
    | missing hnone => exact ⟨_, rfl, .inl ⟨hnone, rfl⟩⟩
    | complaint hcomplains => exact ⟨_, rfl, .inr ⟨_, _, hcomplains, rfl⟩⟩
  · rintro ⟨message, rfl, ⟨hnone, rfl⟩ | ⟨compiler, text, hcomplains, rfl⟩⟩
    · exact compile_of_compiles (.missing hnone)
    · exact compile_of_compiles (.complaint hcomplains)

/-- Nobody provides for a path that no system takes, and for a fault that is not expected. -/
theorem compile_escape_iff {cause : Escape} :
    ((compile host searchPath given source).run.run m).1 = .error (.escape cause) ↔
      (cause = .nulInPath ∧ ∃ compiler, compiler? m.files searchPath given = some compiler ∧
          (compiler.HoldsNul ∨ source.HoldsNul)) ∨
        ∃ compiler ending fault, cause = .fault fault ∧
          Starts host searchPath given source m compiler (.ok ending) ∧ ending.exit = 0 ∧
          (Session.empty.deserialize .json ending.stdout).1 = .error fault ∧ fault.isExpected = false := by
  constructor
  · intro h
    have hcompiles := compiles_compile host searchPath given source m
    rw [h] at hcompiles
    cases hcompiles with
    | nul hfound hnul => exact .inl ⟨rfl, _, hfound, hnul⟩
    | unexpected hstarts hexit hread hunexpected =>
      exact .inr ⟨_, _, _, rfl, hstarts, hexit, hread, hunexpected⟩
  · rintro (⟨rfl, compiler, hfound, hnul⟩ |
      ⟨compiler, ending, fault, rfl, hstarts, hexit, hread, hunexpected⟩)
    · exact compile_of_compiles (.nul hfound hnul)
    · exact compile_of_compiles (.unexpected hstarts hexit hread hunexpected)

end Run

/-! ### Runs that have a source compiled -/

/-- A run has come to its compiler: its log is open, its flags are read, and its source can be read. -/
structure Prepares (host : Host) (call : Call) (m opened : Machine) (action : Action) (flags : Flags)
    (source : Path) (here : Machine) : Prop where
  logged : (match (Settings.ofEnvironment call.environment).logFile with
    | some path => Run.openLog path
    | none => pure ()).run.run (m.beginRun (Settings.ofEnvironment call.environment).level) = (.ok (), opened)
  parsed : Flags.parse call.arguments = .ok flags
  selected : Action.select flags = .ok action
  compiles : action = .classifySyntaxColoring ∨ action = .printTreeStructure
  named : flags.requirePath Flag.sourceFile = .ok source
  readable : (Run.ensureReadable source).run.run
    (opened.log (record host.clock Run.actionSource ("Running action " ++ action.flag))) = (.ok (), here)

open Run (Reaches compile body)

variable {host : Host} {call : Call} {m opened here last : Machine} {action : Action} {flags : Flags}
  {source : Path}

theorem Prepares.reaches (h : Prepares host call m opened action flags source here) :
    Reaches (compile host call.searchPath (flags.path? Flag.swiftc) source) here
      (body host call (Settings.ofEnvironment call.environment))
      (m.beginRun (Settings.ofEnvironment call.environment).level) := by
  have hlogged := h.logged
  have hact : Reaches (compile host call.searchPath (flags.path? Flag.swiftc) source) here
      (Run.act host call.searchPath flags action)
      (opened.log (record host.clock Run.actionSource ("Running action " ++ action.flag))) := by
    rcases h.compiles with rfl | rfl
    · exact (Run.reaches_of_compile h.named h.readable .self).1
    · exact (Run.reaches_of_compile h.named h.readable .self).2
  have hopen : ∀ path, (Settings.ofEnvironment call.environment).logFile = some path →
      (Run.openLog path).run.run (m.beginRun (Settings.ofEnvironment call.environment).level) =
        (.ok (), opened) := by
    intro path hlog
    rw [hlog] at hlogged
    exact hlogged
  have hclosed : (Settings.ofEnvironment call.environment).logFile = none →
      m.beginRun (Settings.ofEnvironment call.environment).level = opened := by
    intro hlog
    rw [hlog] at hlogged
    exact (Prod.mk.inj hlogged).2
  exact Run.reaches_body hopen hclosed h.parsed h.selected rfl hact

/-- A run that comes to its compiler reports what the compiler's run fails with, and nothing else. -/
theorem Prepares.reports (h : Prepares host call m opened action flags source here) {message : Text}
    (hcompile : (compile host call.searchPath (flags.path? Flag.swiftc) source).run.run here =
      (.error (.failure (.tooling message)), last)) :
    m.run host call = (.exit 1, last.report host (.tooling message)) ∧
      (m.run host call).2.lastStreams.stdout = "" ∧ ∃ records,
        (m.run host call).2.lastStreams.stderr = records ++ (message.shown ++ "\n" ++ helpHint ++ "\n") := by
  have hstop := h.reaches.stops hcompile
  have hrun : m.run host call = (.exit 1, last.report host (.tooling message)) := by rw [Machine.run, hstop]
  obtain ⟨hstdout, hstderr⟩ := streams_of_stop hstop
  obtain ⟨cause, records, hcause, hreport⟩ := hstderr (by rw [hrun])
  cases hcause
  exact ⟨hrun, hstdout, records, hreport⟩

/-- What nobody provides for ends the run that comes to its compiler as it is. -/
theorem Prepares.escapes (h : Prepares host call m opened action flags source here) {cause : Escape}
    (hcompile : (compile host call.searchPath (flags.path? Flag.swiftc) source).run.run here =
      (.error (.escape cause), last)) : m.run host call = (.escaped cause, last) := by
  rw [Machine.run, h.reaches.stops hcompile]

/-- **What comes of a compiler.** There is a tree exactly if a compiler is found and started, ends with status
zero, and what it prints is the tree of a new session, whatever else the compiler does and whatever was there
before. Otherwise there is a failure: no compiler is found along the search path; or the one that is tried is
not started, ends with another status, or prints no tree, and the message says so and names it at the end. Both
actions that have a source compiled report that message as the error stream shows it, with status one. There are
two exceptions: a fault that is not expected of payloads, and a path with the character zero in it, end the run
without a report. -/
theorem compile_split (host : Host) :
    (∀ searchPath given source m,
      let result := ((compile host searchPath given source).run.run m).1
      (∀ t, result = .ok t ↔
        ∃ compiler ending, Starts host searchPath given source m compiler (.ok ending) ∧ ending.exit = 0 ∧
          (Session.empty.deserialize .json ending.stdout).1 = .ok t) ∧
      (∀ cause, result = .error (.failure cause) ↔
        ∃ message : Text, cause = .tooling message ∧
          (compiler? m.files searchPath given = none ∧
              message = "Could not find swiftc in PATH (" ++ searchPath.getD "" ++ ")" ∨
            ∃ compiler text, Complains host searchPath given source m compiler text ∧
              message = text ++ " (swiftc: " ++ compiler.text ++ ")")) ∧
      ∀ cause, result = .error (.escape cause) ↔
        (cause = .nulInPath ∧ ∃ compiler, compiler? m.files searchPath given = some compiler ∧
            (compiler.HoldsNul ∨ source.HoldsNul)) ∨
          ∃ compiler ending fault, cause = .fault fault ∧
            Starts host searchPath given source m compiler (.ok ending) ∧ ending.exit = 0 ∧
            (Session.empty.deserialize .json ending.stdout).1 = .error fault ∧ fault.isExpected = false) ∧
    ∀ call m opened action flags source here, Prepares host call m opened action flags source here →
      ∀ stop last, (compile host call.searchPath (flags.path? Flag.swiftc) source).run.run here =
        (.error stop, last) →
      (∀ message, stop = .failure (.tooling message) →
        m.run host call = (.exit 1, last.report host (.tooling message)) ∧
          (m.run host call).2.lastStreams.stdout = "" ∧ ∃ records,
            (m.run host call).2.lastStreams.stderr =
              records ++ (message.shown ++ "\n" ++ helpHint ++ "\n")) ∧
      ∀ cause, stop = .escape cause → m.run host call = (.escaped cause, last) := by
  constructor
  · intro searchPath given source m result
    exact ⟨fun _ => Run.compile_ok_iff, fun _ => Run.compile_failure_iff, fun _ => Run.compile_escape_iff⟩
  · intro call m opened action flags source here hprepares stop last hcompile
    constructor
    · rintro message rfl
      exact hprepares.reports hcompile
    · rintro cause rfl
      exact hprepares.escapes hcompile

/-- A compiler that a signal ends is reported with what it complained about; one whose name holds the character
zero is not. -/
theorem compile_split_killed :
    let m : Machine := .fresh ⟨[], [(["a.swift"], .file [] false), (["bin"], .directory),
      (["bin", "swiftc"], .file [1] true)]⟩
    let boom : Bytes := [0x62, 0x6f, 0x6f, 0x6d, 0xff, 0x0a]
    let host : Host := ⟨fun _ => some fun _ files => ⟨-9, [], boom, files⟩, ""⟩
    let call (compiler : String) : Call :=
      ⟨["-print-source", "-source-file", "a.swift", "-swiftc", compiler], []⟩
    ((m.run host (call "bin/swiftc")).1 = .exit 1 ∧ ∃ records,
      (m.run host (call "bin/swiftc")).2.lastStreams.stderr = records ++
        ("Parsing a.swift failed with exit code -9: boom\uFFFD (swiftc: bin/swiftc)" ++ "\n" ++ helpHint ++
          "\n")) ∧
      (m.run host (call "a\x00b")).1 = .escaped .nulInPath := by
  intro m boom host call
  let here : Machine := (m.beginRun Settings.defaultLevel).log
    (record host.clock Run.actionSource ("Running action " ++ Action.printTreeStructure.flag))
  obtain ⟨hsplit, hruns⟩ := compile_split host
  constructor
  · have hprepares : Prepares host (call "bin/swiftc") m _ .printTreeStructure _ (.ofString "a.swift") here :=
      ⟨rfl, rfl, rfl, .inr rfl, rfl, rfl⟩
    have hstarts : Starts host (call "bin/swiftc").searchPath (some (.ofString "bin/swiftc"))
        (.ofString "a.swift") here _ (.ok ⟨-9, [], boom, _⟩) :=
      ⟨rfl, by decide +kernel, by decide +kernel, rfl⟩
    let message := (CompilerError.badExit (.ofString "bin/swiftc") (.ofString "a.swift") (-9) boom).message
    have hresult := ((hsplit _ _ _ _).2.1 _).mpr
      ⟨message, rfl, .inr ⟨_, _, .badExit hstarts (by decide), rfl⟩⟩
    obtain ⟨hrun, -, records, hstderr⟩ :=
      (hruns _ _ _ _ _ _ _ hprepares _ _ (Prod.ext hresult rfl)).1 _ rfl
    have hmessage : message.shown =
        "Parsing a.swift failed with exit code -9: boom\uFFFD (swiftc: bin/swiftc)" := by decide +kernel
    rw [hmessage] at hstderr
    exact ⟨congrArg Prod.fst hrun, records, hstderr⟩
  · have hprepares : Prepares host (call "a\x00b") m _ .printTreeStructure _ (.ofString "a.swift") here :=
      ⟨rfl, rfl, rfl, .inr rfl, rfl, rfl⟩
    have hresult := ((hsplit (call "a\x00b").searchPath (some (.ofString "a\x00b")) (.ofString "a.swift")
      here).2.2 _).mpr (.inl ⟨rfl, _, rfl, .inl (by decide +kernel)⟩)
    exact congrArg Prod.fst ((hruns _ _ _ _ _ _ _ hprepares _ _ (Prod.ext hresult rfl)).2 _ rfl)

end Command
end SourceTree
