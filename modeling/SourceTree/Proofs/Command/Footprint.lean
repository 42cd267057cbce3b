import SourceTree.Proofs.Command.Streams
import SourceTree.Proofs.System.Files

/-!
# What runs leave behind

A run opens its log, logs records, has the compiler dump a file at most once, and writes its output last of
all. So a run that fails has written no output: the files are as they were, but for its log and for what the
compiler did, and what it fails with is the last thing on its error stream. There is one exception. A text with
surrogates that stand alone is found out only when the output file is open, and that file is empty then.
-/
namespace SourceTree.Command

open Machine (Recorded)

theorem Machine.Recorded.refl (m : Machine) : m.Recorded m := ⟨[], rfl⟩

/-- The compiler dumps a source file, and leaves these files behind. -/
def Dumps (host : Host) (searchPath : SearchPath) (files files' : Files) : Prop :=
  ∃ (compiler source : Path) (ending : Ending),
    files.launch host.programs searchPath compiler ["-frontend", "-emit-syntax", source.text] = .ok ending ∧
      files' = ending.files

/-- Records are all that was done, but that the compiler may have dumped a file between them. -/
def Machine.Compiled (host : Host) (searchPath : SearchPath) (m last : Machine) : Prop :=
  m.Recorded last ∨ ∃ (before : Machine) (files : Files), m.Recorded before ∧
    Dumps host searchPath before.files files ∧ Recorded ⟨files, before.runs, before.sinks⟩ last

/-- The output was given these contents, and then there were records alone. -/
def Machine.Written (out : Option Path) (contents : Bytes) (m last : Machine) : Prop :=
  ∃ (path : Path) (files : Files), out = some path ∧ m.files.write path.text contents = .ok files ∧
    Recorded ⟨files, m.runs, m.sinks⟩ last

namespace Run

open Machine (Compiled Written)

/-! ### Runs that keep to a relation -/

/-- The run was stopped by a text that has no UTF-8 form. -/
def Unencoded {α : Type} (result : Except Stop α) : Prop :=
  ∃ cause, result = .error (.escape (.unencodable cause))

/-- What the run does to a machine is of this kind, whether it stops or not, and no text is in its way. -/
def Within {α : Type} (kept : Machine → Machine → Prop) (x : Run α) : Prop :=
  ∀ m, kept m (x.run.run m).2 ∧ ¬ Unencoded (x.run.run m).1

/-- What the run does is of this kind, but that it may write its output at the end. Then it does not stop, or
it is a text without a UTF-8 form that stops it, and the output is empty. -/
def Ends {α : Type} (out : Option Path) (kept : Machine → Machine → Prop) (x : Run α) : Prop :=
  ∀ m, (kept m (x.run.run m).2 ∧ (Unencoded (x.run.run m).1 → out = none)) ∨
    ∃ (mid : Machine) (contents : Bytes), kept m mid ∧ mid.Written out contents (x.run.run m).2 ∧
      ((∃ a, (x.run.run m).1 = .ok a) ∨ Unencoded (x.run.run m).1 ∧ contents = [])

/-- Something of one kind and then something of another kind is of a third kind, as the first alone is. -/
structure Joins (first next both : Machine → Machine → Prop) : Prop where
  alone : ∀ {m mid}, first m mid → both m mid
  join : ∀ {m mid last}, first m mid → next mid last → both m last

variable {host : Host} {searchPath : SearchPath} {out : Option Path}

theorem joins_recorded : Joins Recorded Recorded Recorded := ⟨id, Recorded.trans⟩

theorem joins_recorded_compiled :
    Joins Recorded (Compiled host searchPath) (Compiled host searchPath) := by
  refine ⟨.inl, ?_⟩
  rintro m mid last hm (hlast | ⟨before, files, hbefore, hdumps, hlast⟩)
  · exact .inl (hm.trans hlast)
  · exact .inr ⟨before, files, hm.trans hbefore, hdumps, hlast⟩

theorem joins_compiled : Joins (Compiled host searchPath) Recorded (Compiled host searchPath) := by
  refine ⟨id, ?_⟩
  rintro m mid last (hm | ⟨before, files, hbefore, hdumps, hmid⟩) hlast
  · exact .inl (hm.trans hlast)
  · exact .inr ⟨before, files, hbefore, hdumps, hmid.trans hlast⟩

section

variable {α β : Type} {first next both : Machine → Machine → Prop} {x : Run α} {f : α → Run β}

/-- A stop is what it is, whatever was to come of it. -/
theorem unencoded_error {stop : Stop} (h : Unencoded (.error stop : Except Stop β)) :
    Unencoded (.error stop : Except Stop α) := by
  obtain ⟨cause, hcause⟩ := h
  exact ⟨cause, congrArg Except.error (Except.error.inj hcause)⟩

theorem Within.bind (h : Joins first next both) (hx : Within first x) (hf : ∀ a, Within next (f a)) :
    Within both (x >>= f) := by
  intro m
  obtain ⟨hm, hencoded⟩ := hx m
  rw [run_bind]
  rcases hrun : x.run.run m with ⟨stop | a, mid⟩ <;> rw [hrun] at hm hencoded
  · exact ⟨h.alone hm, fun hstop => hencoded (unencoded_error hstop)⟩
  · obtain ⟨hmid, hnext⟩ := hf a mid
    exact ⟨h.join hm hmid, hnext⟩

theorem Ends.bind (h : Joins first next both) (hx : Within first x) (hf : ∀ a, Ends out next (f a)) :
    Ends out both (x >>= f) := by
  intro m
  obtain ⟨hm, hencoded⟩ := hx m
  rw [run_bind]
  rcases hrun : x.run.run m with ⟨stop | a, mid⟩ <;> rw [hrun] at hm hencoded
  · exact .inl ⟨h.alone hm, fun hstop => absurd (unencoded_error hstop) hencoded⟩
  · rcases hf a mid with ⟨hkept, hout⟩ | ⟨last, contents, hlast, hwritten, hresult⟩
    · exact .inl ⟨h.join hm hkept, hout⟩
    · exact .inr ⟨last, contents, h.join hm hlast, hwritten, hresult⟩

end

/-! ### Single steps -/

section

variable {α : Type}

theorem within_pure (a : α) : Within Recorded (pure a) := fun m => ⟨.refl m, nofun⟩

theorem within_fail (cause : Failure) : Within Recorded (fail cause : Run α) := fun m => ⟨.refl m, nofun⟩

theorem within_ofRendering (x : Except Obstacle α) : Within Recorded (ofRendering x) := by
  rcases x with (_ | kind) | a <;> exact fun m => ⟨.refl m, nofun⟩

theorem within_log (host : Host) (source message : String) : Within Recorded (log host source message) :=
  fun m => ⟨Machine.recorded_log m _, nofun⟩

theorem within_checkPath (path : Path) : Within Recorded (checkPath path) := by
  intro m
  unfold checkPath
  split <;> exact ⟨.refl m, nofun⟩

theorem within_readFile (host : Host) (path : Path) : Within Recorded (readFile host path) := by
  intro m
  rw [run_readFile]
  split
  · exact ⟨.refl m, nofun⟩
  · split
    · exact ⟨Machine.recorded_log m _, nofun⟩
    · exact ⟨.refl m, nofun⟩

theorem within_ensureReadable (path : Path) : Within Recorded (ensureReadable path) := by
  intro m
  have hrun := run_accessing path (fun files => files.read path.text) (fun _ => (pure () : Run Unit)) m
  rw [show (ensureReadable path).run.run m = _ from hrun]
  split
  · exact ⟨.refl m, nofun⟩
  · split <;> exact ⟨.refl m, nofun⟩

theorem within_readPayload (host : Host) (explain : Fault → Text) (s : Session) (format : Format)
    (payload : Bytes) : Within Recorded (readPayload host explain s format payload) := by
  unfold readPayload
  split
  · exact .bind joins_recorded (within_log host _ _) fun _ => within_pure _
  · split
    · exact within_fail _
    · exact fun m => ⟨.refl m, nofun⟩

theorem within_findCompiler (searchPath : SearchPath) (given : Option Path) :
    Within Recorded (findCompiler searchPath given) := by
  cases given with
  | some compiler => exact within_pure compiler
  | none =>
    intro m
    change Recorded m ((get >>= _ : Run Path).run.run m).2 ∧ ¬ Unencoded ((get >>= _ : Run Path).run.run m).1
    rw [run_get]
    split
    · exact within_pure _ m
    · exact within_fail _ m

theorem within_compile (host : Host) (searchPath : SearchPath) (given : Option Path) (source : Path) :
    Within (Compiled host searchPath) (compile host searchPath given source) := by
  refine .bind joins_recorded_compiled (within_findCompiler searchPath given) fun compiler =>
    .bind joins_recorded_compiled (within_log host _ _) fun _ =>
      .bind joins_recorded_compiled (within_checkPath compiler) fun _ =>
        .bind joins_recorded_compiled (within_checkPath source) fun _ => ?_
  intro m
  rw [run_get]
  split
  · next ending hlaunch =>
    have hread : Within Recorded (readPayload host (fun cause => (CompilerError.badTree compiler cause).message)
        .empty .json ending.stdout >>= fun result => pure result.1) :=
      .bind joins_recorded (within_readPayload host _ _ _ _) fun _ => within_pure _
    have hrest : Within Recorded (if ending.exit != 0 then
        fail (.tooling (CompilerError.badExit compiler source ending.exit ending.stderr).message) else
        readPayload host (fun cause => (CompilerError.badTree compiler cause).message)
          .empty .json ending.stdout >>= fun result => pure result.1) := by
      split
      · exact within_fail _
      · exact hread
    obtain ⟨hrecorded, hencoded⟩ := hrest ⟨ending.files, m.runs, m.sinks⟩
    have hdumps : Dumps host searchPath m.files ending.files := ⟨compiler, source, ending, hlaunch, rfl⟩
    exact ⟨.inr ⟨m, ending.files, .refl m, hdumps, hrecorded⟩, hencoded⟩
  · exact ⟨.inl (.refl m), nofun⟩

/-- The output has the text, or nothing if the text cannot be encoded. -/
theorem ends_writeFile (host : Host) (path : Path) (text : Text) :
    Ends (some path) Recorded (writeFile host path text >>= fun _ => pure "") := by
  intro m
  rw [run_bind, run_writeFile]
  by_cases hnul : path.text.toList.contains '\x00'
  · rw [if_pos hnul]
    exact .inl ⟨.refl m, nofun⟩
  · rw [if_neg hnul]
    cases Text.encodable text with
    | ok s =>
      dsimp only
      cases hwrite : m.files.write path.text (Text.Utf8.encode s) with
      | error cause => exact .inl ⟨.refl m, nofun⟩
      | ok files =>
        exact .inr ⟨m, _, .refl m, ⟨path, files, rfl, hwrite, Machine.recorded_log _ _⟩, .inl ⟨"", rfl⟩⟩
    | error unencodable =>
      dsimp only
      cases hwrite : m.files.write path.text [] with
      | error cause => exact .inl ⟨.refl m, nofun⟩
      | ok files =>
        exact .inr ⟨m, [], .refl m, ⟨path, files, rfl, hwrite, .refl _⟩, .inr ⟨⟨unencodable, rfl⟩, rfl⟩⟩

theorem ends_ofText (text : Text) : Ends none Recorded (ofText text) := by
  intro m
  unfold ofText
  split <;> exact .inl ⟨.refl m, fun _ => rfl⟩

theorem Ends.mono {kept kept' : Machine → Machine → Prop} {x : Run α}
    (h : ∀ {m last}, kept m last → kept' m last) (hx : Ends out kept x) : Ends out kept' x := by
  intro m
  rcases hx m with ⟨hkept, hout⟩ | ⟨mid, contents, hmid, hwritten, hresult⟩
  · exact .inl ⟨h hkept, hout⟩
  · exact .inr ⟨mid, contents, h hmid, hwritten, hresult⟩

/-- A run goes on with a result that it has. -/
theorem Ends.ofExcept {β : Type} {x : Except Failure β} {f : β → Run α}
    (h : ∀ b, x = .ok b → Ends out (Compiled host searchPath) (f b)) :
    Ends out (Compiled host searchPath) (Run.ofExcept x >>= f) := by
  cases x with
  | ok b => exact h b rfl
  | error cause => exact fun m => .inl ⟨.inl (.refl m), nofun⟩

theorem Ends.after {β : Type} {x : Run β} {f : β → Run α} (hx : Within Recorded x)
    (hf : ∀ b, Ends out (Compiled host searchPath) (f b)) :
    Ends out (Compiled host searchPath) (x >>= f) :=
  .bind joins_recorded_compiled hx hf

end

theorem path?_of_requirePath {flags : Flags} {flag : String} {path : Path}
    (h : flags.requirePath flag = .ok path) : flags.path? flag = some path := by
  rw [Flags.requirePath, Flags.require] at h
  rw [Flags.path?]
  cases hvalue : flags.get? flag with
  | none =>
    rw [hvalue] at h
    cases h
  | some value =>
    rw [hvalue] at h
    exact congrArg some (Except.ok.inj h)

end Run

/-! ### Actions -/

/-- The file that an action writes its result to. Some show it on the output stream alone. -/
def Action.output? (flags : Flags) : Action → Option Path
  | deserialize => flags.path? Flag.out
  | incrementalRoundTrip => flags.path? Flag.out
  | classifySyntaxColoring => flags.path? Flag.out
  | printTreeStructure => none
  | help => none

/-- The output file that the arguments name. -/
def Call.output? (call : Call) : Option Path :=
  match Flags.parse call.arguments with
  | .ok flags =>
    match Action.select flags with
    | .ok action => action.output? flags
    | .error _ => none
  | .error _ => none

namespace Run

open Machine (Compiled Written)

variable {host : Host} {searchPath : SearchPath} {out : Option Path}

/-- Every action writes its output last of all. -/
theorem ends_act (host : Host) (searchPath : SearchPath) (flags : Flags) (action : Action) :
    Ends (action.output? flags) (Compiled host searchPath) (act host searchPath flags action) := by
  have hwrite : ∀ path text, flags.path? Flag.out = some path →
      Ends (flags.path? Flag.out) (Compiled host searchPath)
        (writeFile host path text >>= fun _ => pure "") := by
    intro path text hpath
    rw [hpath]
    exact (ends_writeFile host path text).mono .inl
  cases action with
  | deserialize =>
    exact .ofExcept fun tree _ => .ofExcept fun path hpath => .ofExcept fun format _ =>
      .after (within_readFile host tree) fun payload =>
      .after (within_readPayload host _ _ _ _) fun _ => .after (within_ofRendering _) fun text =>
        hwrite path text (path?_of_requirePath hpath)
  | incrementalRoundTrip =>
    exact .ofExcept fun tree _ => .ofExcept fun incremental _ => .ofExcept fun path hpath =>
      .ofExcept fun format _ => .after (within_readFile host tree) fun first =>
      .after (within_readFile host incremental) fun second =>
      .after (within_readPayload host _ _ _ _) fun _ => .after (within_log host _ _) fun _ =>
      .after (within_readPayload host _ _ _ _) fun _ => .after (within_ofRendering _) fun text =>
        hwrite path text (path?_of_requirePath hpath)
  | classifySyntaxColoring =>
    refine .ofExcept fun source _ => .after (within_ensureReadable source) fun _ =>
      .bind joins_compiled (within_compile host searchPath _ source) fun tree =>
      .bind joins_recorded (within_ofRendering _) fun classes =>
      .bind joins_recorded (within_ofRendering _) fun text => ?_
    unfold Action.output?
    cases hpath : flags.path? Flag.out with
    | some path => exact ends_writeFile host path text
    | none => exact ends_ofText _
  | printTreeStructure =>
    exact .ofExcept fun source _ => .after (within_ensureReadable source) fun _ =>
      .bind joins_compiled (within_compile host searchPath _ source) fun tree =>
      .bind joins_recorded (within_ofRendering _) fun text => ends_ofText text
  | help => exact fun m => .inl ⟨.inl (.refl m), nofun⟩

theorem body_logged (host : Host) (call : Call) (level : Int) (path : Path) :
    body host call ⟨level, some path⟩ = openLog path >>= fun _ => body host call ⟨level, none⟩ := rfl

/-- A run without a log does what its action does. -/
theorem ends_body (host : Host) (call : Call) (level : Int) :
    Ends call.output? (Compiled host call.searchPath) (body host call ⟨level, none⟩) := by
  change Ends call.output? _ (ofExcept (Flags.parse call.arguments) >>= _)
  refine .ofExcept fun flags hflags => .ofExcept fun action haction => .after (within_log host _ _) fun _ => ?_
  have hout : call.output? = action.output? flags := by
    rw [Call.output?, hflags]
    dsimp only
    rw [haction]
  rw [hout]
  exact ends_act host call.searchPath flags action

end Run

/-! ### The log of a run -/

/-- The place of the file that a run logs to. -/
def IsLog (settings : Settings) (files : Files) (place : Place) : Prop :=
  ∃ path, settings.logFile = some path ∧ place = files.target (path.absolute files.cwd).text

/-- The places of the directories above the file that a run logs to, as its path goes through them. -/
def IsAboveLog (settings : Settings) (files : Files) (place : Place) : Prop :=
  ∃ path n, settings.logFile = some path ∧
    place = Files.placeOf (files.origin path.anchor) (path.parent.names.take n)

/-- Files after the log was opened on them, or was tried to: directories above it may have been made, and all
places but that of the log are as they were otherwise. -/
structure Opened (settings : Settings) (files opened : Files) : Prop where
  cwd : opened.cwd = files.cwd
  entries : ∀ place, ¬ IsLog settings files place → opened.entryAt place = files.entryAt place ∨
    IsAboveLog settings files place ∧ files.entryAt place = none ∧ opened.entryAt place = some .directory

namespace Machine

/-- All files that are logged to are at places of one kind. -/
def LogsTo (places : Place → Prop) (m : Machine) : Prop :=
  ∀ place offset, .file place offset ∈ m.sinks → places place

variable {places : Place → Prop} {m last : Machine}

theorem sameOutside_feedAll (text : String) {sinks : List Sink}
    (h : ∀ place offset, .file place offset ∈ sinks → places place) (m : Machine) :
    Files.SameOutside places m.files (m.feedAll text sinks).1.files ∧
      ∀ place offset, .file place offset ∈ (m.feedAll text sinks).2 → places place := by
  induction sinks generalizing m with
  | nil => exact ⟨.refl places m.files, nofun⟩
  | cons sink sinks ih =>
    obtain ⟨hfiles, hsinks⟩ := ih (fun place offset hmem => h place offset (List.mem_cons_of_mem _ hmem))
      (m.feed text sink).1
    rw [feedAll_cons]
    cases sink with
    | console run level =>
      have hfeed : (m.feed text (.console run level)).1.files = m.files := by
        rw [feed]
        split <;> rfl
      refine ⟨hfeed ▸ hfiles, fun place offset hmem => ?_⟩
      rcases List.mem_cons.mp hmem with heq | hmem
      · cases heq
      · exact hsinks place offset hmem
    | file place offset =>
      have hplace := h place offset List.mem_cons_self
      refine ⟨(Files.sameOutside_writeAt m.files offset _ hplace).trans hfiles, fun other offset' hmem => ?_⟩
      rcases List.mem_cons.mp hmem with heq | hmem
      · obtain ⟨rfl, -⟩ := Sink.file.inj heq
        exact hplace
      · exact hsinks other offset' hmem

theorem LogsTo.log (h : LogsTo places m) (text : String) :
    Files.SameOutside places m.files (m.log text).files ∧ LogsTo places (m.log text) :=
  sameOutside_feedAll text h m

/-- Records change nothing but the files that are logged to. -/
theorem LogsTo.recorded (h : LogsTo places m) (hrecorded : m.Recorded last) :
    Files.SameOutside places m.files last.files ∧ LogsTo places last := by
  obtain ⟨records, rfl⟩ := hrecorded
  induction records generalizing m with
  | nil => exact ⟨.refl places m.files, h⟩
  | cons text records ih =>
    obtain ⟨hfiles, hsinks⟩ := h.log text
    obtain ⟨hrest, hlast⟩ := ih hsinks
    exact ⟨hfiles.trans hrest, hlast⟩

/-- The files change where they are logged to, and where the compiler changes them. -/
theorem LogsTo.compiled (h : LogsTo places m) {host : Host} {searchPath : SearchPath}
    (hcompiled : Compiled host searchPath m last) :
    LogsTo places last ∧ ∃ before after : Files, Files.SameOutside places m.files before ∧
      (after = before ∨ Dumps host searchPath before after) ∧ Files.SameOutside places after last.files := by
  rcases hcompiled with hrecorded | ⟨before, files, hbefore, hdumps, hlast⟩
  · obtain ⟨hfiles, hsinks⟩ := h.recorded hrecorded
    exact ⟨hsinks, last.files, last.files, hfiles, .inl rfl, .refl places last.files⟩
  · obtain ⟨hfiles, hsinks⟩ := h.recorded hbefore
    have hdumped : LogsTo places ⟨files, before.runs, before.sinks⟩ := hsinks
    obtain ⟨hrest, hend⟩ := hdumped.recorded hlast
    exact ⟨hend, before.files, files, hfiles, .inr hdumps, hrest⟩

end Machine

namespace Run

open Machine (Compiled LogsTo Written)

/-- What is done to open a log. -/
theorem opened_openLog {path : Path} {settings : Settings} (hlog : settings.logFile = some path)
    (hproper : path.Proper) (hdots : "." ∉ path.names) {m : Machine}
    (h : LogsTo (IsLog settings m.files) m) :
    Opened settings m.files ((openLog path).run.run m).2.files ∧
      LogsTo (IsLog settings m.files) ((openLog path).run.run m).2 := by
  have hparent : "." ∉ path.parent.names := fun hmem => hdots (List.dropLast_subset _ hmem)
  have hmade := Files.extended_makeDirectories hproper.parent hparent m.files
  have hextended : ∀ files : Files, Files.Extended (fun place => ∃ n, place =
      Files.placeOf (m.files.origin path.parent.anchor) (path.parent.names.take n)) m.files files →
      Opened settings m.files files := by
    intro files hfiles
    refine ⟨hfiles.cwd, fun place _ => ?_⟩
    rcases hfiles.entries place with hsame | ⟨⟨n, hplace⟩, hnew⟩
    · exact .inl hsame
    · exact .inr ⟨⟨path, n, hlog, hplace⟩, hnew⟩
  rw [run_openLog]
  split
  · exact ⟨⟨rfl, fun _ _ => .inl rfl⟩, h⟩
  · rcases hattempt : m.files.makeDirectories path.parent with ⟨(cause | _) | _, files⟩ <;>
      rw [hattempt] at hmade
    · exact ⟨hextended files hmade, h⟩
    · exact ⟨hextended files hmade, h⟩
    · dsimp only
      cases htruncate : files.truncate (path.absolute files.cwd).text with
      | error cause => exact ⟨hextended files hmade, h⟩
      | ok opened =>
        obtain ⟨place, emptied⟩ := opened
        obtain ⟨hplace, hsame⟩ := Files.sameOutside_truncate htruncate
        have hcwd : files.cwd = m.files.cwd := hmade.cwd
        have hislog : IsLog settings m.files place := by
          refine ⟨path, hlog, ?_⟩
          rw [hplace, hcwd, Files.target_of_cwd hcwd]
        refine ⟨⟨hsame.cwd.trans hcwd, fun other hother => ?_⟩, fun other offset hmem => ?_⟩
        · have hne : other ≠ place := fun heq => hother (heq ▸ hislog)
          rw [hsame.entries other hne]
          exact (hextended files hmade).entries other hother
        · rcases List.mem_append.mp hmem with hmem | hmem
          · exact h other offset hmem
          · obtain ⟨rfl, -⟩ := Sink.file.inj (List.mem_singleton.mp hmem)
            exact hislog

/-- No text is encoded to open a log. -/
theorem not_unencoded_openLog (path : Path) (m : Machine) : ¬ Unencoded ((openLog path).run.run m).1 := by
  rw [run_openLog]
  split
  · nofun
  · rcases m.files.makeDirectories path.parent with ⟨(cause | _) | _, files⟩
    · nofun
    · nofun
    · dsimp only
      cases files.truncate (path.absolute files.cwd).text <;> nofun

theorem ofString_of_logFile {environment : Environment} {path : Path}
    (h : (Settings.ofEnvironment environment).logFile = some path) : ∃ text, path = Path.ofString text := by
  rw [Settings.ofEnvironment] at h
  dsimp only at h
  split at h
  · cases h
  · cases h
  · exact ⟨_, (Option.some.inj h).symm⟩

/-- A run opens its log and does what its action does; nothing is written to the output unless the run then
succeeds, or is stopped by a text that cannot be encoded. -/
theorem exists_footprint (m : Machine) (host : Host) (call : Call) :
    let settings := Settings.ofEnvironment call.environment
    let result := (body host call settings).run.run (m.beginRun settings.level)
    ∃ opened : Machine, Opened settings m.files opened.files ∧ LogsTo (IsLog settings m.files) opened ∧
      ((Compiled host call.searchPath opened result.2 ∧ (Unencoded result.1 → call.output? = none)) ∨
        ∃ (mid : Machine) (contents : Bytes), Compiled host call.searchPath opened mid ∧
          mid.Written call.output? contents result.2 ∧
          ((∃ output, result.1 = .ok output) ∨ Unencoded result.1 ∧ contents = [])) := by
  intro settings result
  have hbegun : LogsTo (IsLog settings m.files) (m.beginRun settings.level) := by
    intro place offset hmem
    cases List.mem_singleton.mp hmem
  cases hlog : settings.logFile with
  | none =>
    have hsettings : settings = ⟨settings.level, none⟩ := by rw [← hlog]
    refine ⟨m.beginRun settings.level, ⟨rfl, fun _ _ => .inl rfl⟩, hbegun, ?_⟩
    have hends := ends_body host call settings.level (m.beginRun settings.level)
    rw [← hsettings] at hends
    exact hends
  | some path =>
    have hsettings : settings = ⟨settings.level, some path⟩ := by rw [← hlog]
    obtain ⟨text, rfl⟩ := ofString_of_logFile hlog
    have hopen := opened_openLog hlog (Path.proper_ofString text) (Path.dot_notMem_ofString text) hbegun
    have hencoded := not_unencoded_openLog (.ofString text) (m.beginRun settings.level)
    have hresult : result = (openLog (Path.ofString text) >>= fun _ =>
        body host call ⟨settings.level, none⟩).run.run (m.beginRun settings.level) := by
      rw [← body_logged, ← hsettings]
    rw [run_bind] at hresult
    rcases hrun : (openLog (Path.ofString text)).run.run (m.beginRun settings.level) with ⟨stop | _, opened⟩ <;>
      rw [hrun] at hopen hresult hencoded
    · refine ⟨opened, hopen.1, hopen.2, .inl ?_⟩
      rw [hresult]
      exact ⟨.inl (.refl opened), fun hstop => absurd (unencoded_error hstop) hencoded⟩
    · refine ⟨opened, hopen.1, hopen.2, ?_⟩
      rw [hresult]
      exact ends_body host call settings.level opened

end Run

theorem Opened.trans {settings : Settings} {files opened before : Files} (h : Opened settings files opened)
    (hsame : Files.SameOutside (IsLog settings files) opened before) : Opened settings files before := by
  refine ⟨hsame.cwd.trans h.cwd, fun place hplace => ?_⟩
  rw [hsame.entries place hplace]
  exact h.entries place hplace

/-! ### Runs that fail -/

/-- A text without a UTF-8 form was to be written to the output file, and the run is stopped by it. -/
def Unwritable (m : Machine) (host : Host) (call : Call) : Prop :=
  (∃ out, call.output? = some out) ∧ ∃ cause, (m.run host call).1 = .escaped (.unencodable cause)

/-- The output file was opened and is left empty. Other changes are at places of one kind. -/
def Emptied (places : Place → Prop) (out : Option Path) (files last : Files) : Prop :=
  ∃ (path : Path) (before after : Files), out = some path ∧ Files.SameOutside places files before ∧
    before.write path.text [] = .ok after ∧ Files.SameOutside places after last

section

variable {m here : Machine} {host : Host} {call : Call}

/-- What is done after the body of a run changes nothing but its log. -/
theorem Machine.LogsTo.ending {places : Place → Prop} {result : Except Stop String} (h : here.LogsTo places)
    (hbody : (Run.body host call (Settings.ofEnvironment call.environment)).run.run
      (m.beginRun (Settings.ofEnvironment call.environment).level) = (result, here)) :
    Files.SameOutside places here.files (m.run host call).2.files := by
  rw [Machine.run, hbody]
  rcases result with (cause | cause) | output
  · exact (h.log _).1
  · exact .refl places here.files
  · exact .refl places here.files

/-- A run that fails has stopped on the way. -/
theorem exists_stop_of_failing (h : (m.run host call).1 ≠ .exit 0) :
    ∃ (stop : Stop) (here : Machine), (Run.body host call (Settings.ofEnvironment call.environment)).run.run
      (m.beginRun (Settings.ofEnvironment call.environment).level) = (.error stop, here) := by
  rcases hbody : (Run.body host call (Settings.ofEnvironment call.environment)).run.run
    (m.beginRun (Settings.ofEnvironment call.environment).level) with ⟨stop | output, here⟩
  · exact ⟨stop, here, rfl⟩
  · refine absurd ?_ h
    rw [Machine.run, hbody]

/-- A text without a UTF-8 form that stops a run is not reported. -/
theorem escaped_of_unencoded {stop : Stop}
    (hbody : (Run.body host call (Settings.ofEnvironment call.environment)).run.run
      (m.beginRun (Settings.ofEnvironment call.environment).level) = (.error stop, here))
    (h : Run.Unencoded (.error stop : Except Stop String)) :
    ∃ cause, (m.run host call).1 = .escaped (.unencodable cause) := by
  obtain ⟨cause, hcause⟩ := h
  obtain rfl := Except.error.inj hcause
  refine ⟨cause, ?_⟩
  rw [Machine.run, hbody]

theorem unencoded_of_escaped {stop : Stop} {cause : Text.Unencodable}
    (hbody : (Run.body host call (Settings.ofEnvironment call.environment)).run.run
      (m.beginRun (Settings.ofEnvironment call.environment).level) = (.error stop, here))
    (h : (m.run host call).1 = .escaped (.unencodable cause)) :
    Run.Unencoded (.error stop : Except Stop String) := by
  rw [Machine.run, hbody] at h
  cases stop with
  | failure _ => cases h
  | escape found => exact ⟨cause, congrArg (Except.error ∘ Stop.escape) (Outcome.escaped.inj h)⟩

/-- A run that fails has changed its log, and what the compiler changes; and it has emptied its output if it
could not encode what was to be written there. -/
theorem files_of_failing (h : (m.run host call).1 ≠ .exit 0) :
    ∃ before after : Files, Opened (Settings.ofEnvironment call.environment) m.files before ∧
      (after = before ∨ Dumps host call.searchPath before after) ∧
      (¬ Unwritable m host call →
        Files.SameOutside (IsLog (Settings.ofEnvironment call.environment) m.files) after
          (m.run host call).2.files) ∧
      (Unwritable m host call →
        Emptied (IsLog (Settings.ofEnvironment call.environment) m.files) call.output? after
          (m.run host call).2.files) := by
  obtain ⟨stop, here, hbody⟩ := exists_stop_of_failing h
  obtain ⟨opened, hopened, hlogs, hend⟩ := Run.exists_footprint m host call
  rw [hbody] at hend
  rcases hend with ⟨hcompiled, hnone⟩ |
    ⟨mid, contents, hcompiled, ⟨path, files, hout, hwrite, hrecorded⟩, ⟨_, hok⟩ | ⟨hstop, rfl⟩⟩
  · obtain ⟨hlast, before, after, hbefore, hdumps, hafter⟩ := hlogs.compiled hcompiled
    refine ⟨before, after, hopened.trans hbefore, hdumps, fun _ => hafter.trans (hlast.ending hbody), ?_⟩
    rintro ⟨⟨path, hout⟩, cause, hescaped⟩
    rw [hnone (unencoded_of_escaped hbody hescaped)] at hout
    nomatch hout
  · nomatch hok
  · obtain ⟨hmid, before, after, hbefore, hdumps, hafter⟩ := hlogs.compiled hcompiled
    have hwritten : Machine.LogsTo (IsLog (Settings.ofEnvironment call.environment) m.files)
        ⟨files, mid.runs, mid.sinks⟩ := hmid
    obtain ⟨hlast, hhere⟩ := hwritten.recorded hrecorded
    have hunwritable : Unwritable m host call := ⟨⟨path, hout⟩, escaped_of_unencoded hbody hstop⟩
    exact ⟨before, after, hopened.trans hbefore, hdumps, fun hwritable => absurd hunwritable hwritable,
      fun _ => ⟨path, mid.files, files, hout, hafter, hwrite, hlast.trans (hhere.ending hbody)⟩⟩

/-- A failure is reported after the records; what nobody provides for is not. -/
theorem streams_of_stop {stop : Stop}
    (hbody : (Run.body host call (Settings.ofEnvironment call.environment)).run.run
      (m.beginRun (Settings.ofEnvironment call.environment).level) = (.error stop, here)) :
    (m.run host call).2.lastStreams.stdout = "" ∧
      ((m.run host call).1 = .exit 1 → ∃ (cause : Failure) (records : String), stop = .failure cause ∧
        (m.run host call).2.lastStreams.stderr = records ++ (cause.message ++ "\n" ++ helpHint ++ "\n")) := by
  have hstdouts := Run.stdouts_body m host call (Settings.ofEnvironment call.environment)
    (Settings.ofEnvironment call.environment).level
  rw [hbody] at hstdouts
  rw [Machine.run, hbody]
  cases stop with
  | failure cause =>
    -- the report is one more record, and then the message on the error stream
    let logged := here.log (record host.clock Run.mainSource ("Action failed: " ++ cause.label))
    obtain ⟨hne, hstdout⟩ := Run.lastStreams_of_stdouts ((here.stdouts_log _).trans hstdouts :
      logged.runs.map Streams.stdout = _)
    have hstreams : (here.report host cause).lastStreams = ⟨logged.lastStreams.stdout,
        logged.lastStreams.stderr ++ (cause.message ++ "\n" ++ helpHint ++ "\n")⟩ :=
      Machine.lastStreams_writeError hne (cause.message ++ "\n" ++ helpHint ++ "\n")
    rw [hstreams]
    exact ⟨hstdout, fun _ => ⟨cause, logged.lastStreams.stderr, rfl, rfl⟩⟩
  | escape cause =>
    refine ⟨(Run.lastStreams_of_stdouts hstdouts).2, fun hexit => ?_⟩
    cases hexit

end

/-- The surrogates that a run was stopped by. -/
def Outcome.unencodable? : Outcome → Option Text.Unencodable
  | escaped (.unencodable cause) => some cause
  | _ => none

theorem Outcome.eq_escaped {outcome : Outcome} {cause : Text.Unencodable}
    (h : outcome.unencodable? = some cause) : outcome = .escaped (.unencodable cause) := by
  unfold unencodable? at h
  split at h
  · rw [Option.some.inj h]
  · nomatch h

/-- **A run that fails has no effect on the output, unless it cannot encode it.** Nothing is on its output
stream. The files are as they were but for the log (the file itself, and directories that were made above it)
and for what the compiler did, in one go, if it was started. Exactly if the run is stopped by a text for its
output file that has no UTF-8 form, that file is empty as well, whatever it held. If the exit status is one, the
error stream ends with the message of what the run failed with, on a line of its own, and the hint. -/
theorem run_failing (m : Machine) (host : Host) (call : Call) (h : (m.run host call).1 ≠ .exit 0) :
    let settings := Settings.ofEnvironment call.environment
    let last := (m.run host call).2
    last.lastStreams.stdout = "" ∧
      (∃ before after : Files, Opened settings m.files before ∧
        (after = before ∨ Dumps host call.searchPath before after) ∧
        (¬ Unwritable m host call → Files.SameOutside (IsLog settings m.files) after last.files) ∧
        (Unwritable m host call → Emptied (IsLog settings m.files) call.output? after last.files)) ∧
      ((m.run host call).1 = .exit 1 → ∃ cause here records,
        (Run.body host call settings).run.run (m.beginRun settings.level) =
          (.error (.failure cause), here) ∧
        last.lastStreams.stderr = records ++ (cause.message ++ "\n" ++ helpHint ++ "\n")) := by
  intro settings last
  obtain ⟨stop, here, hbody⟩ := exists_stop_of_failing h
  obtain ⟨hstdout, hstderr⟩ := streams_of_stop hbody
  refine ⟨hstdout, files_of_failing h, fun hexit => ?_⟩
  obtain ⟨cause, records, rfl, hreport⟩ := hstderr hexit
  exact ⟨cause, here, records, hbody, hreport⟩

/-- A payload spells a token whose text is half of a surrogate pair. The run is stopped while it writes the
token, and what the output file held is gone. -/
theorem run_failing_surrogate :
    let files : Files := ⟨[], [(["t.json"], .file (Text.Utf8.encode
      "\x7b\"tokenKind\":\x7b\"kind\":\"identifier\",\"text\":\"\\ud800\"\x7d\x7d") false),
      (["out"], .file (Text.Utf8.encode "old") false)]⟩
    let m : Machine := .fresh files
    let host : Host := ⟨fun _ => none, ""⟩
    let call : Call := ⟨["-deserialize", "-pre-edit-tree", "t.json", "-out", "out"], []⟩
    let last := (m.run host call).2
    (m.run host call).1 ≠ .exit 0 ∧ Unwritable m host call ∧ last.lastStreams.stdout = "" ∧
      (∃ before after : Files, Opened (Settings.ofEnvironment []) files before ∧
        (after = before ∨ Dumps host none before after) ∧
        Emptied (IsLog (Settings.ofEnvironment []) files) (some (.ofString "out")) after last.files) ∧
      files.entryAt ["out"] = some (.file (Text.Utf8.encode "old") false) ∧
      last.files.entryAt ["out"] = some (.file [] false) := by
  intro files m host call last
  have hescaped : (m.run host call).1 = .escaped (.unencodable ⟨0, 1, 0⟩) :=
    Outcome.eq_escaped (by decide +kernel)
  have hne : (m.run host call).1 ≠ .exit 0 := by
    rw [hescaped]
    nofun
  have hunwritable : Unwritable m host call := ⟨⟨.ofString "out", by decide +kernel⟩, _, hescaped⟩
  obtain ⟨hstdout, ⟨before, after, hopened, hdumps, -, hemptied⟩, -⟩ := run_failing m host call hne
  have houtput : last.files.entryAt ["out"] = some (.file [] false) := by decide +kernel
  exact ⟨hne, hunwritable, hstdout, ⟨before, after, hopened, hdumps, hemptied hunwritable⟩, rfl, houtput⟩

end SourceTree.Command
