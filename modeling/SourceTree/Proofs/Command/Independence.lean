import SourceTree.Proofs.Command.Footprint
import SourceTree.Proofs.Command.Priming
import SourceTree.Proofs.System.Contents

/-!
# Runs one after the other

What runs leave to the next one is the files. A run detaches the sinks of the runs before it, so on a machine on
which others have run it does what it does on a machine of its own with the same files: it ends in the same
way, writes the same to its streams and leaves the same files behind, and the streams of the runs before it
stay as they are.
-/
namespace SourceTree.Command

/-! ### A machine on which others have run -/

/-- The sink when other runs have begun before. -/
def Sink.after (earlier : Nat) : Sink → Sink
  | console run level => console (earlier + run) level
  | file place offset => file place offset

namespace Machine

/-- The machine as it is when other runs, with these streams, have begun before. -/
def after (earlier : List Streams) (m : Machine) : Machine :=
  ⟨m.files, earlier ++ m.runs, m.sinks.map (Sink.after earlier.length)⟩

variable (earlier : List Streams) (m : Machine)

theorem modify_after (run : Nat) (f : Streams → Streams) (runs : List Streams) :
    (earlier ++ runs).modify (earlier.length + run) f = earlier ++ runs.modify run f := by
  induction earlier with
  | nil => rw [List.length_nil, Nat.zero_add]; rfl
  | cons first earlier ih =>
    rw [List.length_cons, Nat.succ_add]
    exact congrArg (List.cons first) ih

theorem writeError_after (run : Nat) (text : String) :
    (m.after earlier).writeError (earlier.length + run) text = (m.writeError run text).after earlier := by
  rw [writeError, after, modify_after]
  rfl

theorem feed_after (text : String) (sink : Sink) :
    (m.after earlier).feed text (sink.after earlier.length) =
      ((m.feed text sink).1.after earlier, (m.feed text sink).2.after earlier.length) := by
  cases sink with
  | file place offset => rfl
  | console run level =>
    rw [Sink.after, feed, feed]
    split
    · rw [writeError_after]
      rfl
    · rfl

theorem feedAll_after (text : String) (sinks : List Sink) :
    (m.after earlier).feedAll text (sinks.map (Sink.after earlier.length)) =
      ((m.feedAll text sinks).1.after earlier, (m.feedAll text sinks).2.map (Sink.after earlier.length)) := by
  induction sinks generalizing m with
  | nil => rfl
  | cons sink sinks ih =>
    rw [List.map_cons, feedAll_cons, feed_after]
    dsimp only
    rw [ih]
    rfl

theorem log_after (text : String) : (m.after earlier).log text = (m.log text).after earlier := by
  have hlog : ∀ m : Machine, m.log text =
      ⟨(m.feedAll text m.sinks).1.files, (m.feedAll text m.sinks).1.runs, (m.feedAll text m.sinks).2⟩ :=
    fun _ => rfl
  have hfeed : (m.after earlier).feedAll text (m.after earlier).sinks = _ := feedAll_after earlier m text m.sinks
  rw [hlog, hlog m, hfeed]
  rfl

/-- Every single step of a run is the same when others have run before. -/
theorem congruence_after (host : Host) : Congruence host fun m alone => m = alone.after earlier where
  files h := by rw [h]; rfl
  log source message h := by rw [h, log_after]
  setFiles files h := by rw [h]; rfl
  attach place h := by rw [h, after, after, List.map_append]; rfl

theorem current_after (h : m.runs ≠ []) : (m.after earlier).current = earlier.length + m.current := by
  have hpos := List.length_pos_iff.mpr h
  rw [current, current, after, List.length_append]
  omega

theorem writeOutput_after (h : m.runs ≠ []) (text : String) :
    (m.after earlier).writeOutput (m.after earlier).current text =
      (m.writeOutput m.current text).after earlier := by
  rw [current_after earlier m h, writeOutput, after, modify_after]
  rfl

theorem report_after (h : m.runs ≠ []) (host : Host) (cause : Failure) :
    (m.after earlier).report host cause = (m.report host cause).after earlier := by
  have hlogged : ∀ text, (m.log text).runs ≠ [] := fun text hnil => by
    have hstdouts := m.stdouts_log text
    rw [hnil] at hstdouts
    exact h (List.map_eq_nil_iff.mp hstdouts.symm)
  rw [report, log_after]
  change writeError ((m.log _).after earlier) ((m.log _).after earlier).current _ = _
  rw [current_after earlier _ (hlogged _), writeError_after]
  rfl

/-- On a machine on which others have run, a run does what it does alone. -/
theorem run_after (host : Host) (call : Call) :
    m.run host call = (((fresh m.files).run host call).1, ((fresh m.files).run host call).2.after m.runs) := by
  have hbegun : ∀ level, m.beginRun level = ((fresh m.files).beginRun level).after m.runs := fun _ => rfl
  obtain ⟨hresult, hlast⟩ := Run.respects_body (congruence_after m.runs host) call
    (Settings.ofEnvironment call.environment) _ _ (hbegun (Settings.ofEnvironment call.environment).level)
  have hstdouts := Run.stdouts_body (fresh m.files) host call (Settings.ofEnvironment call.environment)
    (Settings.ofEnvironment call.environment).level
  have hne := (Run.lastStreams_of_stdouts hstdouts).1
  rw [run, run]
  rcases hrun : (Run.body host call (Settings.ofEnvironment call.environment)).run.run
    (m.beginRun (Settings.ofEnvironment call.environment).level) with ⟨result, last⟩
  rcases halone : (Run.body host call (Settings.ofEnvironment call.environment)).run.run
    ((fresh m.files).beginRun (Settings.ofEnvironment call.environment).level) with
    ⟨(cause | cause) | output, here⟩ <;> rw [hrun, halone] at hresult hlast <;> rw [halone] at hne <;>
    obtain rfl := hresult <;> obtain rfl := hlast
  · exact congrArg (Prod.mk _) (report_after m.runs here hne host cause)
  · rfl
  · exact congrArg (Prod.mk _) (writeOutput_after m.runs here hne output)

/-- A run adds its own streams to those of the runs before it. -/
theorem length_runs (host : Host) (call : Call) : (m.run host call).2.runs.length = m.runs.length + 1 := by
  have hstdouts := congrArg List.length (Run.stdouts_body m host call (Settings.ofEnvironment call.environment)
    (Settings.ofEnvironment call.environment).level)
  rw [List.length_map, List.length_append, List.length_map] at hstdouts
  rw [run]
  rcases hrun : (Run.body host call (Settings.ofEnvironment call.environment)).run.run
    (m.beginRun (Settings.ofEnvironment call.environment).level) with ⟨(cause | cause) | output, here⟩ <;>
    rw [hrun] at hstdouts
  · have hlogged := congrArg List.length (here.stdouts_log
      (record host.clock Run.mainSource ("Action failed: " ++ cause.label)))
    rw [List.length_map, List.length_map] at hlogged
    exact (List.length_modify _ _ _).trans (hlogged.trans hstdouts)
  · exact hstdouts
  · exact (List.length_modify _ _ _).trans hstdouts

/-- The streams of earlier runs stay, and those of a run are what it writes alone. -/
theorem runs_run (host : Host) (call : Call) :
    (m.run host call).2.runs = m.runs ++ [((fresh m.files).run host call).2.lastStreams] := by
  rw [run_after]
  have hlength : ((fresh m.files).run host call).2.runs.length = 1 := (fresh m.files).length_runs host call
  obtain ⟨streams, hruns⟩ := List.length_eq_one_iff.mp hlength
  change m.runs ++ _ = _
  rw [lastStreams, hruns]
  rfl

/-! ### Runs in a row -/

/-- Runs commands one after the other, each on the machine that the ones before it have left. -/
def runAll (m : Machine) : List (Host × Call) → List Outcome × Machine
  | [] => ([], m)
  | (host, call) :: calls =>
    let (outcome, mid) := m.run host call
    let (outcomes, last) := mid.runAll calls
    (outcome :: outcomes, last)

theorem runAll_cons (host : Host) (call : Call) (calls : List (Host × Call)) :
    m.runAll ((host, call) :: calls) = ((m.run host call).1 :: ((m.run host call).2.runAll calls).1,
      ((m.run host call).2.runAll calls).2) := rfl

theorem runAll_append (front back : List (Host × Call)) :
    m.runAll (front ++ back) = ((m.runAll front).1 ++ ((m.runAll front).2.runAll back).1,
      ((m.runAll front).2.runAll back).2) := by
  induction front generalizing m with
  | nil => rfl
  | cons first front ih =>
    obtain ⟨host, call⟩ := first
    rw [List.cons_append, runAll_cons, ih, runAll_cons]
    rfl

theorem length_outcomes (calls : List (Host × Call)) : (m.runAll calls).1.length = calls.length := by
  induction calls generalizing m with
  | nil => rfl
  | cons first calls ih => exact congrArg Nat.succ (ih (m.run first.1 first.2).2)

/-- No run writes to the streams of the runs before it. -/
theorem runs_runAll (calls : List (Host × Call)) :
    ∃ later, (m.runAll calls).2.runs = m.runs ++ later ∧ later.length = calls.length := by
  induction calls generalizing m with
  | nil => exact ⟨[], (List.append_nil _).symm, rfl⟩
  | cons first calls ih =>
    obtain ⟨later, hruns, hlength⟩ := ih (m.run first.1 first.2).2
    refine ⟨((fresh m.files).run first.1 first.2).2.lastStreams :: later, ?_, congrArg Nat.succ hlength⟩
    refine hruns.trans ?_
    rw [runs_run, List.append_assoc]
    rfl

end Machine

/-! ### Logs of runs in a row -/

namespace Run

/-- A log that can be opened is the same one, whatever the file held before. -/
theorem run_openLog_refill {path : Path} (hproper : path.Proper) (hdots : "." ∉ path.names) {m opened : Machine}
    (h : (openLog path).run.run m = (.ok (), opened)) {place : Place}
    (hplace : m.files.target (path.absolute m.files.cwd).text = place) (contents : Bytes) :
    (openLog path).run.run ⟨m.files.refill place contents, m.runs, m.sinks⟩ = (.ok (), opened) := by
  have hparent : "." ∉ path.parent.names := fun hmem => hdots (List.dropLast_subset _ hmem)
  have hmade := Files.extended_makeDirectories hproper.parent hparent m.files
  rw [run_openLog] at h ⊢
  split at h
  · nomatch h
  · next hnul =>
    rw [if_neg hnul, Files.makeDirectories_refill]
    rcases hattempt : m.files.makeDirectories path.parent with ⟨(cause | _) | _, files⟩ <;>
      rw [hattempt] at h hmade
    · nomatch h
    · nomatch h
    · dsimp only at h hmade ⊢
      have hcwd : files.cwd = m.files.cwd := hmade.cwd
      rw [Files.cwd_refill]
      cases htruncate : files.truncate (path.absolute files.cwd).text with
      | error cause =>
        rw [htruncate] at h
        nomatch h
      | ok emptied =>
        obtain ⟨there, emptied⟩ := emptied
        have hthere : there = place := by
          rw [(Files.sameOutside_truncate htruncate).1, Files.target_of_cwd hcwd, hcwd, hplace]
        subst hthere
        rw [htruncate] at h
        rw [Files.truncate_refill files there contents htruncate]
        exact h

end Run

/-! ### Files that runs change -/

/-- The place of the output file that the arguments name. -/
def IsOutput (call : Call) (files : Files) (place : Place) : Prop :=
  ∃ out, call.output? = some out ∧ place = files.target out.text

namespace Machine

variable (m : Machine) (host : Host) (call : Call)

/-- What the log held before a run is nothing to the run. -/
theorem run_refill {path : Path} (hlog : (Settings.ofEnvironment call.environment).logFile = some path)
    (hopen : ((Run.openLog path).run.run (m.beginRun (Settings.ofEnvironment call.environment).level)).1 = .ok ())
    (contents : Bytes) :
    run ⟨m.files.refill (m.files.target (path.absolute m.files.cwd).text) contents, m.runs, m.sinks⟩ host call =
      m.run host call := by
  rcases hsettings : Settings.ofEnvironment call.environment with ⟨level, logFile⟩
  rw [hsettings] at hlog hopen
  obtain rfl : logFile = some path := hlog
  obtain ⟨text, rfl⟩ := Run.ofString_of_logFile (congrArg Settings.logFile hsettings)
  rcases hopened : (Run.openLog (.ofString text)).run.run (m.beginRun level) with ⟨result, opened⟩
  rw [hopened] at hopen
  obtain rfl : result = .ok () := hopen
  let place := m.files.target ((Path.ofString text).absolute m.files.cwd).text
  let other : Machine := ⟨m.files.refill place contents, m.runs, m.sinks⟩
  have hbegun : other.beginRun level = ⟨(m.beginRun level).files.refill place contents, (m.beginRun level).runs,
      (m.beginRun level).sinks⟩ := by rw [beginRun, beginRun]
  have hother := Run.run_openLog_refill (Path.proper_ofString text) (Path.dot_notMem_ofString text) hopened
    (rfl : _ = place) contents
  have hbody : (Run.body host call ⟨level, some (.ofString text)⟩).run.run (other.beginRun level) =
      (Run.body host call ⟨level, some (.ofString text)⟩).run.run (m.beginRun level) := by
    rw [Run.body_logged, Run.run_bind, Run.run_bind, hbegun, hother, hopened]
  change other.run host call = _
  rw [run, run, hsettings]
  dsimp only
  rw [hbody]

theorem Unfiled.compiled {m last : Machine} (h : m.Unfiled) {searchPath : SearchPath}
    (hcompiled : Compiled host searchPath m last) :
    last.Unfiled ∧ (last.files = m.files ∨ Dumps host searchPath m.files last.files) := by
  rcases hcompiled with hrecorded | ⟨before, files, hbefore, hdumps, hlast⟩
  · obtain ⟨hfiles, hunfiled⟩ := h.recorded hrecorded
    exact ⟨hunfiled, .inl hfiles⟩
  · obtain ⟨hfiles, hunfiled⟩ := h.recorded hbefore
    obtain ⟨hdumped, hend⟩ := Unfiled.recorded (m := ⟨files, before.runs, before.sinks⟩) hunfiled hlast
    exact ⟨hend, .inr (hdumped ▸ hfiles ▸ hdumps)⟩

/-- A run without a log changes its output, and what the compiler changes. -/
theorem files_unlogged (hlog : (Settings.ofEnvironment call.environment).logFile = none) :
    ∃ after : Files, (after = m.files ∨ Dumps host call.searchPath m.files after) ∧
      Files.SameOutside (IsOutput call after) after (m.run host call).2.files := by
  rcases hsettings : Settings.ofEnvironment call.environment with ⟨level, logFile⟩
  rw [hsettings] at hlog
  obtain rfl : logFile = none := hlog
  have hbegun := m.unfiled_beginRun level
  have hend := Run.ends_body host call level (m.beginRun level)
  rcases hbody : (Run.body host call ⟨level, none⟩).run.run (m.beginRun level) with ⟨result, here⟩
  rw [hbody] at hend
  have hfiles : here.Unfiled → (m.run host call).2.files = here.files := fun hhere =>
    (Run.run_of_body (by rw [hsettings]; exact hbody) hhere).2
  rcases hend with ⟨hcompiled, -⟩ | ⟨mid, contents, hcompiled, ⟨path, files, hout, hwrite, hrecorded⟩, -⟩
  · obtain ⟨hhere, hdumps⟩ := hbegun.compiled host hcompiled
    refine ⟨here.files, hdumps, ?_⟩
    rw [hfiles hhere]
    exact .refl _ here.files
  · obtain ⟨hmid, hdumps⟩ := hbegun.compiled host hcompiled
    obtain ⟨hlast, hhere⟩ := Unfiled.recorded (m := ⟨files, mid.runs, mid.sinks⟩) hmid hrecorded
    refine ⟨mid.files, hdumps, ?_⟩
    rw [hfiles hhere, hlast]
    exact (Files.write_ok hwrite).2.mono fun place hplace => ⟨path, hout, hplace⟩

/-- A run changes its log and the directories above it, its output, and what the compiler changes. -/
theorem files_run :
    ∃ before after : Files, Opened (Settings.ofEnvironment call.environment) m.files before ∧
      (after = before ∨ Dumps host call.searchPath before after) ∧
      Files.SameOutside (fun place => IsLog (Settings.ofEnvironment call.environment) m.files place ∨
        IsOutput call after place) after (m.run host call).2.files := by
  obtain ⟨opened, hopened, hlogs, hend⟩ := Run.exists_footprint m host call
  rcases hbody : (Run.body host call (Settings.ofEnvironment call.environment)).run.run
    (m.beginRun (Settings.ofEnvironment call.environment).level) with ⟨result, here⟩
  rw [hbody] at hend
  rcases hend with ⟨hcompiled, -⟩ | ⟨mid, contents, hcompiled, ⟨path, files, hout, hwrite, hrecorded⟩, -⟩
  · obtain ⟨hhere, before, after, hbefore, hdumps, hafter⟩ := hlogs.compiled hcompiled
    exact ⟨before, after, hopened.trans hbefore, hdumps,
      (hafter.trans (hhere.ending hbody)).mono fun place => .inl⟩
  · obtain ⟨hmid, before, after, hbefore, hdumps, hafter⟩ := hlogs.compiled hcompiled
    have hwritten : LogsTo (IsLog (Settings.ofEnvironment call.environment) m.files)
        ⟨files, mid.runs, mid.sinks⟩ := hmid
    obtain ⟨hlast, hhere⟩ := hwritten.recorded hrecorded
    have houtput : Files.SameOutside (IsOutput call after) mid.files files := by
      refine (Files.write_ok hwrite).2.mono fun place hplace => ⟨path, hout, ?_⟩
      rw [← Files.target_of_cwd hafter.cwd]
      exact hplace
    refine ⟨before, after, hopened.trans hbefore, hdumps, ?_⟩
    exact (hafter.mono fun place => .inl).trans ((houtput.mono fun place => .inr).trans
      ((hlast.trans (hhere.ending hbody)).mono fun place => .inl))

end Machine

/-- **Runs in a row are independent.** Of runs that are made one after the other, on whatever machine they
begin, each ends, writes and leaves files behind as it does alone on the files that the runs before it have left,
and the streams of those runs stay as they are, whatever runs come after. The files that a run changes are its
log (with directories that it makes above it), its output, and those that the compiler changes; so a run
without a log leaves the logs of other runs alone. And a run whose log can be opened is the same run whatever
its log held before. -/
theorem run_independent (m : Machine) :
    (∀ (front : List (Host × Call)) (host : Host) (call : Call) (back : List (Host × Call)),
      let before := (m.runAll front).2
      let alone := (Machine.fresh before.files).run host call
      let all := m.runAll (front ++ (host, call) :: back)
      before.runs.length = m.runs.length + front.length ∧
        all.1[front.length]? = some alone.1 ∧
        before.runs ++ [alone.2.lastStreams] <+: all.2.runs ∧
        (m.runAll (front ++ [(host, call)])).2.files = alone.2.files) ∧
    ∀ (host : Host) (call : Call),
      let settings := Settings.ofEnvironment call.environment
      let last := (m.run host call).2
      (∃ before after : Files, Opened settings m.files before ∧
        (after = before ∨ Dumps host call.searchPath before after) ∧
        Files.SameOutside (fun place => IsLog settings m.files place ∨ IsOutput call after place) after
          last.files) ∧
      (settings.logFile = none →
        ∃ after : Files, (after = m.files ∨ Dumps host call.searchPath m.files after) ∧
          Files.SameOutside (IsOutput call after) after last.files) ∧
      ∀ path, settings.logFile = some path →
        ((Run.openLog path).run.run (m.beginRun settings.level)).1 = .ok () →
        ∀ contents, Machine.run ⟨m.files.refill (m.files.target (path.absolute m.files.cwd).text) contents,
          m.runs, m.sinks⟩ host call = m.run host call := by
  constructor
  · intro front host call back before alone all
    obtain ⟨later, hruns, hlength⟩ := m.runs_runAll front
    obtain ⟨rest, hrest, -⟩ := (before.run host call).2.runs_runAll back
    have hall : all = ((m.runAll front).1 ++ (before.run host call).1 ::
        ((before.run host call).2.runAll back).1, ((before.run host call).2.runAll back).2) :=
      m.runAll_append front ((host, call) :: back)
    refine ⟨?_, ?_, ⟨rest, ?_⟩, ?_⟩
    · rw [hruns, List.length_append, hlength]
    · rw [hall, ← m.length_outcomes front, List.getElem?_append_right (Nat.le_refl _), Nat.sub_self,
        before.run_after]
      rfl
    · rw [hall, hrest, before.runs_run]
    · rw [m.runAll_append]
      change (before.run host call).2.files = alone.2.files
      rw [before.run_after]
      rfl
  · intro host call settings last
    exact ⟨m.files_run host call, m.files_unlogged host call, fun path => m.run_refill host call⟩

/-- A run that fails and logs, one that does not log, and one that logs to the file of the first run. The second
run leaves that file as it is, and the third one starts it anew: it holds one record in the end, as it
would if it had held something else before, and the runs write what each of them writes alone. -/
theorem run_independent_log :
    let host : Host := ⟨fun _ => none, "now"⟩
    let logging (arguments : List String) : Call := ⟨arguments, [(Settings.fileVariable, "log")]⟩
    let silent : Call := ⟨["-help"], []⟩
    let first := ((Machine.fresh ⟨[], []⟩).runAll [(host, logging [])]).2
    let before := ((Machine.fresh ⟨[], []⟩).runAll [(host, logging []), (host, silent)]).2
    let all := (Machine.fresh ⟨[], []⟩).runAll ([(host, logging []), (host, silent)] ++ [(host, logging ["-help"])])
    (∃ after : Files, (after = first.files ∨ Dumps host silent.searchPath first.files after) ∧
        Files.SameOutside (IsOutput silent after) after (first.run host silent).2.files) ∧
      before.files.read "log" = first.files.read "log" ∧
      before.runs ++ [((Machine.fresh before.files).run host (logging ["-help"])).2.lastStreams] <+: all.2.runs ∧
      Machine.run ⟨before.files.refill ["log"] [0, 1, 2], before.runs, before.sinks⟩ host (logging ["-help"]) =
        before.run host (logging ["-help"]) ∧
      all.2.files.read "log" =
        .ok (Text.Utf8.encode (record "now" Run.actionSource "Running action -help")) := by
  intro host logging silent
  dsimp only
  let first := ((Machine.fresh ⟨[], []⟩).runAll [(host, logging [])]).2
  let before := ((Machine.fresh ⟨[], []⟩).runAll [(host, logging []), (host, silent)]).2
  obtain ⟨-, -, hstreams, -⟩ := (run_independent (.fresh ⟨[], []⟩)).1
    [(host, logging []), (host, silent)] host (logging ["-help"]) []
  obtain ⟨-, hunlogged, -⟩ := (run_independent first).2 host silent
  obtain ⟨-, -, hlogged⟩ := (run_independent before).2 host (logging ["-help"])
  have hopen : ((Run.openLog (.ofString "log")).run.run (before.beginRun Settings.defaultLevel)).1.isOk = true := by
    decide +kernel
  have htarget : before.files.target ((Path.ofString "log").absolute before.files.cwd).text = ["log"] := by
    decide +kernel
  refine ⟨?_, ?_, hstreams, ?_, ?_⟩
  · exact hunlogged rfl
  · decide +kernel
  · rw [← htarget]
    refine hlogged (.ofString "log") rfl ?_ [0, 1, 2]
    cases hresult : ((Run.openLog (.ofString "log")).run.run (before.beginRun Settings.defaultLevel)).1 with
    | ok _ => exact hresult
    | error stop =>
      rw [hresult] at hopen
      cases hopen
  · decide +kernel

end SourceTree.Command
