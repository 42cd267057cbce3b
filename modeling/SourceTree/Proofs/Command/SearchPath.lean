import SourceTree.Proofs.Command.Steps
import SourceTree.Proofs.System.Path

/-!
# Compilers that are given

A run looks at the search path for two reasons only: to find a compiler if none is given, and to start one
that is given by a single name. What counts as a single name is the shortest spelling of the path that is
given, so a name in the working directory is one, however it is spelled; every other path is started where
it leads.
-/
namespace SourceTree.Command

/-- The environments differ in nothing but the directories in which programs are looked up. -/
def Environment.AgreeBesidePath (e e' : Environment) : Prop :=
  ∀ name, name ≠ "PATH" → e.lookup name = e'.lookup name

theorem Environment.AgreeBesidePath.settings {e e' : Environment} (h : e.AgreeBesidePath e') :
    Settings.ofEnvironment e = Settings.ofEnvironment e' := by
  rw [Settings.ofEnvironment, Settings.ofEnvironment, h Settings.levelVariable (by decide),
    h Settings.fileVariable (by decide)]

/-- The compiler starts in the same way along either search path, whatever the files are. -/
def SameLaunch (host : Host) (searchPath other : SearchPath) (compiler : Path) : Prop :=
  ∀ (files : Files) arguments, files.launch host.programs searchPath compiler arguments =
    files.launch host.programs other compiler arguments

namespace Run

variable {host : Host} {searchPath other : SearchPath} {compiler : Path} {flags : Flags}

theorem compile_congr (h : SameLaunch host searchPath other compiler) (source : Path) :
    compile host searchPath (some compiler) source = compile host other (some compiler) source := by
  simp only [compile, findCompiler, pure_bind, h _ _]

/-- An action that is given its compiler does not look at the search path but to start it. -/
theorem act_congr (hgiven : flags.path? Flag.swiftc = some compiler)
    (h : SameLaunch host searchPath other compiler) (action : Action) :
    act host searchPath flags action = act host other flags action := by
  cases action with
  | classifySyntaxColoring => simp only [act, classifySyntax, hgiven, compile_congr h]
  | printTreeStructure => simp only [act, printStructure, hgiven, compile_congr h]
  | deserialize => rfl
  | incrementalRoundTrip => rfl
  | help => rfl

theorem body_congr {call call' : Call} (harguments : call.arguments = call'.arguments)
    (hflags : Flags.parse call.arguments = .ok flags) (hgiven : flags.path? Flag.swiftc = some compiler)
    (h : SameLaunch host call.searchPath call'.searchPath compiler) (settings : Settings) :
    body host call settings = body host call' settings := by
  have hflags' : Flags.parse call'.arguments = .ok flags := harguments ▸ hflags
  have hact := act_congr hgiven h
  simp only [body, hflags, hflags', ofExcept, pure_bind, hact]

end Run

theorem Machine.run_congr (m : Machine) {host : Host} {call call' : Call} {flags : Flags} {compiler : Path}
    (harguments : call.arguments = call'.arguments)
    (henvironment : call.environment.AgreeBesidePath call'.environment)
    (hflags : Flags.parse call.arguments = .ok flags) (hgiven : flags.path? Flag.swiftc = some compiler)
    (h : SameLaunch host call.searchPath call'.searchPath compiler) :
    m.run host call = m.run host call' := by
  simp only [Machine.run, henvironment.settings, Run.body_congr harguments hflags hgiven h]

/-- A path that is more than a single name is started without a look at the search path. -/
theorem sameLaunch_of_not_bare {compiler : Path} (h : compiler.isBare = false) (host : Host)
    (searchPath other : SearchPath) : SameLaunch host searchPath other compiler := by
  intro files arguments
  rw [Files.launch, Files.launch, if_neg (by rw [h]; nofun), if_neg (by rw [h]; nofun)]

/-- **A given compiler.** Of two runs that differ in the search path only, and that are given a compiler,
both do the same if the shortest spelling of its path is more than a single name, and what they start is
what the path leads to as it was given. If the shortest spelling is a single name, the runs are the same
where the compiler starts in the same way along either search path; and there it is the first program of
that name along the search path that starts. -/
theorem run_given_compiler (m : Machine) (host : Host) {call call' : Call} {flags : Flags} {v : String}
    (harguments : call.arguments = call'.arguments)
    (henvironment : call.environment.AgreeBesidePath call'.environment)
    (hflags : Flags.parse call.arguments = .ok flags) (hgiven : flags.get? Flag.swiftc = some v) :
    ((Path.ofString v).isBare = false → m.run host call = m.run host call' ∧
      ∀ (files : Files) searchPath arguments spot, files.locate v = .ok spot →
        files.launch host.programs searchPath (Path.ofString v) arguments =
          files.start host.programs arguments v) ∧
    ((Path.ofString v).isBare = true →
      (SameLaunch host call.searchPath call'.searchPath (Path.ofString v) →
        m.run host call = m.run host call') ∧
      ∀ (files : Files) searchPath arguments ending,
        files.launch host.programs searchPath (Path.ofString v) arguments = .ok ending ↔
          ∃ before text after, Files.candidates searchPath (Path.ofString v).text = before ++ text :: after ∧
            files.start host.programs arguments text = .ok ending ∧
            ∀ earlier ∈ before, ∃ e, files.start host.programs arguments earlier = .error e) := by
  have hpath : flags.path? Flag.swiftc = some (Path.ofString v) := by
    rw [Flags.path?, hgiven]
    rfl
  have hruns : SameLaunch host call.searchPath call'.searchPath (Path.ofString v) →
      m.run host call = m.run host call' := m.run_congr harguments henvironment hflags hpath
  constructor
  · intro hlong
    refine ⟨hruns (sameLaunch_of_not_bare hlong host _ _), fun files searchPath arguments spot hspot => ?_⟩
    rw [Files.launch, if_neg (by rw [hlong]; nofun)]
    exact Files.start_text hspot
  · intro hbare
    refine ⟨hruns, fun files searchPath arguments ending => ?_⟩
    rw [Files.launch, if_pos hbare]
    exact Files.startFirst_ok_iff

/-- Of two compilers of one name, one in the working directory and one in a directory below it, the second
is the one that runs if its path is given, whatever the search path is. But the path of the first one is
shortened to its name, and then it is the search path that says which one runs. -/
theorem run_given_compiler_directory :
    let files : Files := ⟨[], [(["a.swift"], .file [] false), (["swiftc"], .file [1] true),
      (["bin"], .directory), (["bin", "swiftc"], .file [1, 1] true)]⟩
    let host : Host := ⟨fun contents => some fun _ files => ⟨contents.length, [], [], files⟩, ""⟩
    let call (searchPath v : String) : Call :=
      ⟨["-print-source", "-source-file", "a.swift", "-swiftc", v], [("PATH", searchPath)]⟩
    let run (searchPath v : String) := (Machine.fresh files).run host (call searchPath v)
    (∀ searchPath other, run searchPath "./bin/swiftc" = run other "./bin/swiftc") ∧
      (run "" "./swiftc").2.lastStreams ≠ (run "bin" "./swiftc").2.lastStreams := by
  intro files host call run
  constructor
  · intro searchPath other
    have hagree : (call searchPath "./bin/swiftc").environment.AgreeBesidePath
        (call other "./bin/swiftc").environment := by
      intro name hname
      change List.lookup name [("PATH", searchPath)] = List.lookup name [("PATH", other)]
      rw [List.lookup_cons, List.lookup_cons, beq_false_of_ne hname]
    have harguments : (call searchPath "./bin/swiftc").arguments =
        (call other "./bin/swiftc").arguments := rfl
    exact ((run_given_compiler (.fresh files) host harguments hagree rfl rfl).1 (by decide)).1
  · decide +kernel

end SourceTree.Command
