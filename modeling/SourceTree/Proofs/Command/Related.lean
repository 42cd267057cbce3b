import SourceTree.Proofs.Command.Steps

/-!
# Runs on related machines

A run sees nothing of its machine but the files. A relation of machines that have the same files, and that
is kept by records, by changes of the files and by a file sink that is attached, is kept by every run, and
the run comes to the same end on both machines. An invariant is such a relation of a machine to itself.
-/
namespace SourceTree.Command

/-- A relation of machines with the same files that every single step of a run keeps. -/
structure Machine.Congruence (host : Host) (related : Machine → Machine → Prop) : Prop where
  files : ∀ {m m'}, related m m' → m.files = m'.files
  log : ∀ {m m'} source message, related m m' →
    related (m.log (record host.clock source message)) (m'.log (record host.clock source message))
  setFiles : ∀ {m m'} files, related m m' → related ⟨files, m.runs, m.sinks⟩ ⟨files, m'.runs, m'.sinks⟩
  attach : ∀ {m m'} place, related m m' →
    related ⟨m.files, m.runs, m.sinks ++ [.file place 0]⟩ ⟨m'.files, m'.runs, m'.sinks ++ [.file place 0]⟩

namespace Run

/-- On related machines the run has the same result, and leaves related machines behind. -/
def Respects {α : Type} (related : Machine → Machine → Prop) (x : Run α) : Prop :=
  ∀ m m', related m m' →
    (x.run.run m).1 = (x.run.run m').1 ∧ related (x.run.run m).2 (x.run.run m').2

variable {host : Host} {related : Machine → Machine → Prop}

/-! ### Single steps -/

namespace Respects

variable {α β : Type}

theorem pure (a : α) : Respects related (pure a : Run α) := fun _ _ h => ⟨rfl, h⟩

theorem stop (cause : Stop) : Respects related (throw cause : Run α) := fun _ _ h => ⟨rfl, h⟩

/-- Nothing comes after a stop. -/
theorem stop_bind (cause : Stop) (f : α → Run β) : Respects related (throw cause >>= f) :=
  fun _ _ h => ⟨rfl, h⟩

theorem bind {x : Run α} {f : α → Run β} (hx : Respects related x) (hf : ∀ a, Respects related (f a)) :
    Respects related (x >>= f) := by
  intro m m' h
  obtain ⟨hresult, hlast⟩ := hx m m' h
  rw [run_bind, run_bind]
  rcases hm : x.run.run m with ⟨stop | a, mid⟩ <;> rcases hm' : x.run.run m' with ⟨stop' | a', mid'⟩ <;>
    rw [hm, hm'] at hresult hlast
  · exact ⟨congrArg Except.error (Except.error.inj hresult), hlast⟩
  · cases hresult
  · cases hresult
  · obtain rfl := Except.ok.inj hresult
    exact hf a mid mid' hlast

/-- What is done with the machine as it is, if it is a matter of the files alone. -/
theorem get (hrelated : Machine.Congruence host related) {f : Machine → Run β}
    (hfiles : ∀ m m', m.files = m'.files → f m = f m') (hf : ∀ m, Respects related (f m)) :
    Respects related (MonadState.get >>= f) := by
  intro m m' h
  have hm : (MonadState.get >>= f : Run β).run.run m = (f m).run.run m := rfl
  have hm' : (MonadState.get >>= f : Run β).run.run m' = (f m').run.run m' := rfl
  rw [hm, hm', ← hfiles m m' (hrelated.files h)]
  exact hf m m m' h

end Respects

section

variable (hrelated : Machine.Congruence host related) (path : Path)
include hrelated

theorem respects_log (source message : String) : Respects related (log host source message) :=
  fun _ _ h => ⟨rfl, hrelated.log source message h⟩

theorem respects_setFiles (files : Files) : Respects related (setFiles files) :=
  fun _ _ h => ⟨rfl, hrelated.setFiles files h⟩

omit hrelated in
theorem respects_ofExcept {α : Type} (x : Except Failure α) : Respects related (ofExcept x) := by
  cases x with
  | ok a => exact .pure a
  | error cause => exact .stop _

omit hrelated in
theorem respects_access {α : Type} (x : Except SystemError α) : Respects related (access path x) := by
  cases x with
  | ok a => exact .pure a
  | error cause => exact .stop _

omit hrelated in
theorem respects_checkPath : Respects related (checkPath path) := by
  unfold checkPath
  split
  · exact .stop _
  · exact .pure ()

omit hrelated in
theorem respects_ofRendering {α : Type} (x : Except Obstacle α) : Respects related (ofRendering x) := by
  rcases x with (_ | kind) | a
  · exact .stop _
  · exact .stop _
  · exact .pure a

/-! ### Files and payloads -/

theorem respects_openLog : Respects related (openLog path) := by
  intro m m' h
  rw [run_openLog, run_openLog, ← hrelated.files h]
  split
  · exact ⟨rfl, h⟩
  · rcases m.files.makeDirectories path.parent with ⟨(cause | _) | _, files⟩
    · exact ⟨rfl, hrelated.setFiles files h⟩
    · exact ⟨rfl, hrelated.setFiles files h⟩
    · dsimp only
      cases files.truncate (path.absolute files.cwd).text with
      | ok opened => exact ⟨rfl, hrelated.attach opened.1 (hrelated.setFiles opened.2 h)⟩
      | error cause => exact ⟨rfl, hrelated.setFiles files h⟩

theorem respects_readFile : Respects related (readFile host path) :=
  .bind (respects_checkPath path) fun _ => .get hrelated (fun _ _ h => by rw [h]) fun _ =>
    .bind (respects_access path _) fun bytes => .bind (respects_log hrelated _ _) fun _ => .pure bytes

theorem respects_ensureReadable : Respects related (ensureReadable path) :=
  .bind (respects_checkPath path) fun _ => .get hrelated (fun _ _ h => by rw [h]) fun _ =>
    .bind (respects_access path _) fun _ => .pure ()

theorem respects_writeFile (text : Text) : Respects related (writeFile host path text) := by
  refine .bind (respects_checkPath path) fun _ => ?_
  split
  · exact .get hrelated (fun _ _ h => by rw [h]) fun _ =>
      .bind (respects_access path _) fun files => .bind (respects_setFiles hrelated files) fun _ =>
        respects_log hrelated _ _
  · exact .get hrelated (fun _ _ h => by rw [h]) fun _ =>
      .bind (respects_access path _) fun files => .bind (respects_setFiles hrelated files) fun _ =>
        .stop _

omit hrelated in
theorem respects_ofText (text : Text) : Respects related (ofText text) := by
  unfold ofText
  split
  · exact .pure _
  · exact .stop _

theorem respects_readPayload (explain : Fault → Text) (s : Session) (format : Format) (payload : Bytes) :
    Respects related (readPayload host explain s format payload) := by
  unfold readPayload
  split
  · exact .bind (respects_log hrelated _ _) fun _ => .pure _
  · split
    · exact .stop _
    · exact .stop _

/-! ### The compiler -/

theorem respects_findCompiler (searchPath : SearchPath) (given : Option Path) :
    Respects related (findCompiler searchPath given) := by
  cases given with
  | some compiler => exact .pure compiler
  | none =>
    refine .get hrelated (fun _ _ h => by rw [h]) fun m => ?_
    split
    · exact .pure _
    · exact .stop _

theorem respects_compile (searchPath : SearchPath) (given : Option Path) :
    Respects related (compile host searchPath given path) := by
  refine .bind (respects_findCompiler hrelated searchPath given) fun compiler =>
    .bind (respects_log hrelated _ _) fun _ => .bind (respects_checkPath compiler) fun _ =>
      .bind (respects_checkPath path) fun _ => .get hrelated (fun _ _ h => by rw [h]) fun m => ?_
  split
  · refine .bind (.pure _) fun ending => .bind (respects_setFiles hrelated ending.files) fun _ => ?_
    dsimp only
    split
    · exact .stop_bind _ _
    · exact .bind (respects_readPayload hrelated _ _ _ _) fun _ => .pure _
  · exact .stop_bind _ _

/-! ### Whole runs -/

theorem respects_act (searchPath : SearchPath) (flags : Flags) (action : Action) :
    Respects related (act host searchPath flags action) := by
  cases action with
  | deserialize =>
    exact .bind (respects_ofExcept _) fun tree => .bind (respects_ofExcept _) fun out =>
      .bind (respects_ofExcept _) fun format => .bind (respects_readFile hrelated tree) fun payload =>
      .bind (respects_readPayload hrelated _ _ _ _) fun _ => .bind (respects_ofRendering _) fun _ =>
      .bind (respects_writeFile hrelated out _) fun _ => .pure _
  | incrementalRoundTrip =>
    exact .bind (respects_ofExcept _) fun tree => .bind (respects_ofExcept _) fun incremental =>
      .bind (respects_ofExcept _) fun out => .bind (respects_ofExcept _) fun format =>
      .bind (respects_readFile hrelated tree) fun first =>
      .bind (respects_readFile hrelated incremental) fun second =>
      .bind (respects_readPayload hrelated _ _ _ _) fun _ => .bind (respects_log hrelated _ _) fun _ =>
      .bind (respects_readPayload hrelated _ _ _ _) fun _ => .bind (respects_ofRendering _) fun _ =>
      .bind (respects_writeFile hrelated out _) fun _ => .pure _
  | classifySyntaxColoring =>
    refine .bind (respects_ofExcept _) fun source => .bind (respects_ensureReadable hrelated source) fun _ =>
      .bind (respects_compile hrelated source searchPath _) fun tree =>
      .bind (respects_ofRendering _) fun classes => .bind (respects_ofRendering _) fun text => ?_
    split
    · exact .bind (respects_writeFile hrelated _ _) fun _ => .pure _
    · exact respects_ofText _
  | printTreeStructure =>
    exact .bind (respects_ofExcept _) fun source => .bind (respects_ensureReadable hrelated source) fun _ =>
      .bind (respects_compile hrelated source searchPath _) fun tree =>
      .bind (respects_ofRendering _) fun _ => respects_ofText _
  | help => exact .pure _

/-- What every single step keeps, a run keeps. -/
theorem respects_body (call : Call) (settings : Settings) :
    Respects related (body host call settings) := by
  have hrest : Respects related (do
      let flags ← ofExcept (Flags.parse call.arguments)
      let action ← ofExcept (Action.select flags)
      log host actionSource ("Running action " ++ action.flag)
      act host call.searchPath flags action) :=
    .bind (respects_ofExcept _) fun flags => .bind (respects_ofExcept _) fun action =>
      .bind (respects_log hrelated _ _) fun _ => respects_act hrelated call.searchPath flags action
  unfold body
  split
  · exact .bind (respects_openLog hrelated _) fun _ => hrest
  · exact hrest

end

/-- What every single step keeps of a machine, a run keeps. -/
theorem keeps_body {kept : Machine → Prop}
    (hkept : Machine.Congruence host fun m m' => m = m' ∧ kept m) (call : Call) (settings : Settings)
    {m : Machine} (h : kept m) : kept ((body host call settings).run.run m).2 :=
  (respects_body hkept call settings m m ⟨rfl, h⟩).2.2

end Run
end SourceTree.Command
