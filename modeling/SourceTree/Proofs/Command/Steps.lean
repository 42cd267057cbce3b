import SourceTree.Command.Run

/-!
# Steps of a run

What a run is made of: a step after another one, records, and files that are read or written. Records
change no file unless they are written to one.
-/
namespace SourceTree.Command

/-! ### Records -/

namespace Machine

/-- The machine after some records were logged on it, and nothing else was done. -/
def Recorded (m here : Machine) : Prop := ∃ records : List String, here = records.foldl log m

theorem recorded_log (m : Machine) (text : String) : m.Recorded (m.log text) := ⟨[text], rfl⟩

theorem Recorded.trans {m mid here : Machine} (h : m.Recorded mid) (h' : mid.Recorded here) :
    m.Recorded here := by
  obtain ⟨records, rfl⟩ := h
  obtain ⟨more, rfl⟩ := h'
  exact ⟨records ++ more, List.foldl_append.symm⟩

/-- Records go to consoles, and to no file. -/
def Unfiled (m : Machine) : Prop := ∀ sink ∈ m.sinks, ∃ run level, sink = .console run level

theorem feedAll_cons (m : Machine) (text : String) (sink : Sink) (rest : List Sink) :
    m.feedAll text (sink :: rest) = (((m.feed text sink).1.feedAll text rest).1,
      (m.feed text sink).2 :: ((m.feed text sink).1.feedAll text rest).2) := rfl

theorem feedAll_consoles (text : String) {sinks : List Sink}
    (h : ∀ sink ∈ sinks, ∃ run level, sink = .console run level) (m : Machine) :
    (m.feedAll text sinks).1.files = m.files ∧ (m.feedAll text sinks).2 = sinks := by
  induction sinks generalizing m with
  | nil => exact ⟨rfl, rfl⟩
  | cons sink sinks ih =>
    obtain ⟨run, level, rfl⟩ := h sink List.mem_cons_self
    have hfeed : (m.feed text (.console run level)).1.files = m.files := by
      rw [feed]
      split <;> rfl
    obtain ⟨hfiles, hsinks⟩ := ih (fun other hmem => h other (List.mem_cons_of_mem _ hmem))
      (m.feed text (.console run level)).1
    rw [feedAll_cons]
    exact ⟨hfiles.trans hfeed, congrArg (List.cons _) hsinks⟩

theorem Unfiled.log {m : Machine} (h : m.Unfiled) (text : String) :
    (m.log text).files = m.files ∧ (m.log text).Unfiled := by
  obtain ⟨hfiles, hsinks⟩ := feedAll_consoles text h m
  refine ⟨hfiles, ?_⟩
  change ∀ sink ∈ (m.feedAll text m.sinks).2, _
  rw [hsinks]
  exact h

theorem Unfiled.recorded {m here : Machine} (h : m.Unfiled) (hrecorded : m.Recorded here) :
    here.files = m.files ∧ here.Unfiled := by
  obtain ⟨records, rfl⟩ := hrecorded
  induction records generalizing m with
  | nil => exact ⟨rfl, h⟩
  | cons text records ih =>
    obtain ⟨hfiles, hunfiled⟩ := h.log text
    obtain ⟨hrest, hlast⟩ := ih hunfiled
    exact ⟨hrest.trans hfiles, hlast⟩

/-- The machines have the same files, and records do not change them. -/
structure Beside (m m' : Machine) : Prop where
  files : m.files = m'.files
  unfiled : m.Unfiled
  unfiled' : m'.Unfiled

theorem Beside.recorded {m m' here here' : Machine} (h : m.Beside m') (hm : m.Recorded here)
    (hm' : m'.Recorded here') : here.Beside here' := by
  obtain ⟨hfiles, hunfiled⟩ := h.unfiled.recorded hm
  obtain ⟨hfiles', hunfiled'⟩ := h.unfiled'.recorded hm'
  exact ⟨hfiles.trans (h.files.trans hfiles'.symm), hunfiled, hunfiled'⟩

end Machine

namespace Run

/-! ### Steps -/

theorem run_bind {α β : Type} (x : Run α) (f : α → Run β) (m : Machine) :
    (x >>= f).run.run m =
      match x.run.run m with
      | (.ok a, m') => (f a).run.run m'
      | (.error stop, m') => (.error stop, m') := by
  rw [ExceptT.run_bind, StateT.run_bind]
  rcases x.run.run m with ⟨stop | a, m'⟩ <;> rfl

theorem run_get {β : Type} (f : Machine → Run β) (m : Machine) :
    (get >>= f).run.run m = (f m).run.run m := rfl

theorem run_log (host : Host) (source message : String) (m : Machine) :
    (log host source message).run.run m = (.ok (), m.log (record host.clock source message)) := rfl

/-- What is done to a file comes after its path was checked, and the next step only if it succeeds. -/
theorem run_accessing {α β : Type} (path : Path) (attempt : Files → Except SystemError α)
    (next : α → Run β) (m : Machine) :
    (do checkPath path; let a ← access path (attempt (← get).files); next a : Run β).run.run m =
      if path.text.toList.contains '\x00' then (.error (.escape .nulInPath), m)
      else match attempt m.files with
        | .ok a => (next a).run.run m
        | .error cause => (.error (.failure (.fileAccess path.text cause.message)), m) := by
  rw [run_bind]
  unfold checkPath
  by_cases hnul : path.text.toList.contains '\x00'
  · rw [if_pos hnul, if_pos hnul]
    rfl
  · rw [if_neg hnul, if_neg hnul]
    change (access path (attempt m.files) >>= next).run.run m = _
    rw [run_bind]
    cases attempt m.files <;> rfl

theorem run_readFile (host : Host) (path : Path) (m : Machine) :
    (readFile host path).run.run m =
      if path.text.toList.contains '\x00' then (.error (.escape .nulInPath), m)
      else match m.files.read path.text with
        | .ok bytes => (.ok bytes, m.log (record host.clock filesSource
            ("Read " ++ toString bytes.length ++ " bytes from " ++ path.text)))
        | .error cause => (.error (.failure (.fileAccess path.text cause.message)), m) := by
  refine (run_accessing path (fun files => files.read path.text) _ m).trans ?_
  cases m.files.read path.text <;> rfl

/-- A text is written to a file that can be opened; one that cannot be encoded leaves it empty. -/
theorem run_writeFile (host : Host) (path : Path) (text : Text) (m : Machine) :
    (writeFile host path text).run.run m =
      if path.text.toList.contains '\x00' then (.error (.escape .nulInPath), m)
      else match Text.encodable text with
        | .ok s =>
          match m.files.write path.text (Text.Utf8.encode s) with
          | .ok files => (.ok (), Machine.log ⟨files, m.runs, m.sinks⟩ (record host.clock filesSource
              ("Wrote " ++ toString text.length ++ " characters to " ++ path.text)))
          | .error cause => (.error (.failure (.fileAccess path.text cause.message)), m)
        | .error unencodable =>
          match m.files.write path.text [] with
          | .ok files => (.error (.escape (.unencodable unencodable)), ⟨files, m.runs, m.sinks⟩)
          | .error cause => (.error (.failure (.fileAccess path.text cause.message)), m) := by
  unfold writeFile
  cases Text.encodable text with
  | ok s =>
    refine (run_accessing path (fun files => files.write path.text (Text.Utf8.encode s)) _ m).trans ?_
    dsimp only
    cases m.files.write path.text (Text.Utf8.encode s) <;> rfl
  | error cause =>
    refine (run_accessing path (fun files => files.write path.text []) _ m).trans ?_
    dsimp only
    cases m.files.write path.text [] <;> rfl

/-- The log is opened in place of what the file holds, after the directories above it were made. Those stay
even if the file cannot be opened. -/
theorem run_openLog (path : Path) (m : Machine) :
    (openLog path).run.run m =
      if path.text.toList.contains '\x00' then (.error (.escape .nulInPath), m)
      else
        let (made, files) := m.files.makeDirectories path.parent
        match made with
        | .error .tooDeep => (.error (.escape .directoriesTooDeep), ⟨files, m.runs, m.sinks⟩)
        | .error (.refused cause) =>
          (.error (.failure (.fileAccess path.text cause.message)), ⟨files, m.runs, m.sinks⟩)
        | .ok () =>
          match files.truncate (path.absolute files.cwd).text with
          | .ok (place, files) => (.ok (), ⟨files, m.runs, m.sinks ++ [.file place 0]⟩)
          | .error cause =>
            (.error (.failure (.fileAccess path.text cause.message)), ⟨files, m.runs, m.sinks⟩) := by
  unfold openLog checkPath
  by_cases hnul : path.text.toList.contains '\x00'
  · rw [if_pos hnul, if_pos hnul]
    rfl
  · rw [if_neg hnul, if_neg hnul]
    rw [pure_bind, run_get]
    rcases m.files.makeDirectories path.parent with ⟨(cause | _) | _, files⟩
    · rfl
    · rfl
    · change (access path (files.truncate (path.absolute files.cwd).text) >>= _).run.run _ = _
      rw [run_bind]
      dsimp only
      cases files.truncate (path.absolute files.cwd).text <;> rfl

/-- A file that is read leaves a record and nothing else. -/
theorem recorded_of_readFile {host : Host} {path : Path} {bytes : Bytes} {m m' : Machine}
    (h : (readFile host path).run.run m = (.ok bytes, m')) : m.Recorded m' := by
  rw [run_readFile] at h
  split at h
  · nomatch h
  · cases hread : m.files.read path.text with
    | error cause =>
      rw [hread] at h
      nomatch h
    | ok found =>
      rw [hread] at h
      rw [← (Prod.mk.inj h).2]
      exact Machine.recorded_log m _

end Run
end SourceTree.Command
