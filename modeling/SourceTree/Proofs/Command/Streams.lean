import SourceTree.Proofs.Command.Related

/-!
# The streams of a run

Records go to error streams alone, and above the level of records they go to no stream at all. What a run
reports, it reports at its end: its output if it succeeds, and what it failed with otherwise.
-/
namespace SourceTree.Command

namespace Machine

/-! ### What is written last -/

theorem getLast?_modify {α : Type} (f : α → α) (l : List α) :
    (l.modify (l.length - 1) f).getLast? = l.getLast?.map f := by
  rw [List.getLast?_eq_getElem?, List.getLast?_eq_getElem?, List.length_modify, List.getElem?_modify]
  simp

theorem lastStreams_writeError {m : Machine} (h : m.runs ≠ []) (text : String) :
    (m.writeError m.current text).lastStreams =
      ⟨m.lastStreams.stdout, m.lastStreams.stderr ++ text⟩ := by
  rw [lastStreams, lastStreams, writeError, current, getLast?_modify]
  cases hlast : m.runs.getLast? with
  | none => exact absurd (List.getLast?_eq_none_iff.mp hlast) h
  | some s => rfl

theorem lastStreams_writeOutput {m : Machine} (h : m.runs ≠ []) (text : String) :
    (m.writeOutput m.current text).lastStreams =
      ⟨m.lastStreams.stdout ++ text, m.lastStreams.stderr⟩ := by
  rw [lastStreams, lastStreams, writeOutput, current, getLast?_modify]
  cases hlast : m.runs.getLast? with
  | none => exact absurd (List.getLast?_eq_none_iff.mp hlast) h
  | some s => rfl

/-! ### Records and output streams -/

theorem stdouts_writeError (m : Machine) (run : Nat) (text : String) :
    (m.writeError run text).runs.map Streams.stdout = m.runs.map Streams.stdout := by
  apply List.ext_getElem?
  intro n
  rw [writeError, List.getElem?_map, List.getElem?_modify, List.getElem?_map]
  cases m.runs[n]? with
  | none => rfl
  | some s => by_cases hn : run = n <;> simp [hn]

theorem stdouts_feed (m : Machine) (text : String) (sink : Sink) :
    (m.feed text sink).1.runs.map Streams.stdout = m.runs.map Streams.stdout := by
  cases sink with
  | file place offset => rfl
  | console run level =>
    rw [feed]
    split
    · exact stdouts_writeError m run text
    · rfl

theorem stdouts_feedAll (text : String) (sinks : List Sink) (m : Machine) :
    (m.feedAll text sinks).1.runs.map Streams.stdout = m.runs.map Streams.stdout := by
  induction sinks generalizing m with
  | nil => rfl
  | cons sink sinks ih => exact (ih (m.feed text sink).1).trans (stdouts_feed m text sink)

theorem stdouts_log (m : Machine) (text : String) :
    (m.log text).runs.map Streams.stdout = m.runs.map Streams.stdout :=
  stdouts_feedAll text m.sinks m

/-- The output streams as they are: every single step of a run leaves them alone. -/
theorem congruence_stdouts (host : Host) (stdouts : List String) :
    Congruence host fun m m' => m = m' ∧ m.runs.map Streams.stdout = stdouts where
  files h := congrArg files h.1
  log source message h := ⟨congrArg (log · _) h.1, (stdouts_log _ _).trans h.2⟩
  setFiles _ h := ⟨by rw [h.1], h.2⟩
  attach _ h := ⟨by rw [h.1], h.2⟩

/-! ### Records below the level of the console -/

/-- No console shows records, and the streams are these. -/
structure Quiet (runs : List Streams) (m : Machine) : Prop where
  runs : m.runs = runs
  levels : ∀ run level, .console run level ∈ m.sinks → recordLevel < level

theorem quiet_feedAll (text : String) {sinks : List Sink} (m : Machine)
    (h : ∀ run level, .console run level ∈ sinks → recordLevel < level) :
    (m.feedAll text sinks).1.runs = m.runs ∧
      ∀ run level, .console run level ∈ (m.feedAll text sinks).2 → recordLevel < level := by
  induction sinks generalizing m with
  | nil => exact ⟨rfl, nofun⟩
  | cons sink sinks ih =>
    obtain ⟨hruns, hlevels⟩ := ih (m.feed text sink).1 fun run level hmem =>
      h run level (List.mem_cons_of_mem _ hmem)
    rw [feedAll_cons]
    cases sink with
    | file place offset =>
      refine ⟨hruns, fun run level hmem => ?_⟩
      rcases List.mem_cons.mp hmem with heq | hmem
      · cases heq
      · exact hlevels run level hmem
    | console run level =>
      have habove := h run level List.mem_cons_self
      have hfeed : (m.feed text (.console run level)).1 = m := by
        rw [feed, if_neg (Int.not_le.mpr habove)]
      refine ⟨hruns.trans (congrArg runs hfeed), fun run' level' hmem => ?_⟩
      rcases List.mem_cons.mp hmem with heq | hmem
      · obtain ⟨rfl, rfl⟩ := Sink.console.inj heq
        exact habove
      · exact hlevels run' level' hmem

theorem Quiet.log {runs : List Streams} {m : Machine} (h : Quiet runs m) (text : String) :
    Quiet runs (m.log text) := by
  obtain ⟨hruns, hlevels⟩ := quiet_feedAll text m h.levels
  exact ⟨hruns.trans h.runs, hlevels⟩

theorem congruence_quiet (host : Host) (runs : List Streams) :
    Congruence host fun m m' => m = m' ∧ Quiet runs m where
  files h := congrArg files h.1
  log source message h := ⟨congrArg (Machine.log · _) h.1, h.2.log _⟩
  setFiles _ h := ⟨by rw [h.1], h.2.runs, h.2.levels⟩
  attach place h := by
    refine ⟨by rw [h.1], h.2.runs, fun run level hmem => ?_⟩
    rcases List.mem_append.mp hmem with hmem | hmem
    · exact h.2.levels run level hmem
    · cases List.mem_singleton.mp hmem

/-! ### A console alone -/

/-- What a console shows of records, from a level on. -/
def shown (level : Int) (text : String) : String := if level ≤ recordLevel then text else ""

theorem shown_append (level : Int) (text more : String) :
    shown level (text ++ more) = shown level text ++ shown level more := by
  rw [shown, shown, shown]
  split <;> simp

/-- The run that has begun last has written these streams, and its records go to its error stream alone. -/
def onConsole (files : Files) (earlier : List Streams) (level : Int) (streams : Streams) : Machine :=
  ⟨files, earlier ++ [streams], [.console earlier.length level]⟩

section

variable (files : Files) (earlier : List Streams) (level : Int) (streams : Streams)

theorem modify_concat (f : Streams → Streams) :
    (earlier ++ [streams]).modify earlier.length f = earlier ++ [f streams] := by
  induction earlier with
  | nil => rfl
  | cons first earlier ih => exact congrArg (List.cons first) ih

theorem writeError_onConsole (text : String) :
    (onConsole files earlier level streams).writeError earlier.length text =
      onConsole files earlier level ⟨streams.stdout, streams.stderr ++ text⟩ := by
  rw [writeError, onConsole, modify_concat]
  rfl

theorem current_onConsole : (onConsole files earlier level streams).current = earlier.length := by
  rw [current, onConsole, List.length_append, List.length_singleton, Nat.add_sub_cancel]

theorem writeOutput_onConsole (text : String) :
    (onConsole files earlier level streams).writeOutput (onConsole files earlier level streams).current text =
      onConsole files earlier level ⟨streams.stdout ++ text, streams.stderr⟩ := by
  rw [current_onConsole, writeOutput, onConsole, modify_concat]
  rfl

/-- A record goes to the error stream of the run that has begun last as far as its console shows it. -/
theorem feed_console (sinks : List Sink) (text : String) :
    feed ⟨files, earlier ++ [streams], sinks⟩ text (.console earlier.length level) =
      (⟨files, earlier ++ [⟨streams.stdout, streams.stderr ++ shown level text⟩], sinks⟩,
        .console earlier.length level) := by
  rw [feed, shown]
  by_cases hlevel : level ≤ recordLevel
  · rw [if_pos hlevel, if_pos hlevel, writeError, modify_concat]
  · rw [if_neg hlevel, if_neg hlevel, String.append_empty]

theorem log_onConsole (text : String) :
    (onConsole files earlier level streams).log text =
      onConsole files earlier level ⟨streams.stdout, streams.stderr ++ shown level text⟩ := by
  have hlog : (onConsole files earlier level streams).log text =
      let fed := feed ⟨files, earlier ++ [streams], [.console earlier.length level]⟩ text
        (.console earlier.length level)
      ⟨fed.1.files, fed.1.runs, [fed.2]⟩ := rfl
  rw [hlog, feed_console]
  rfl

/-- Records that are logged one after the other stand one after the other. -/
theorem logs_onConsole (records : List String) :
    records.foldl log (onConsole files earlier level streams) =
      onConsole files earlier level ⟨streams.stdout, streams.stderr ++ shown level (String.join records)⟩ := by
  induction records generalizing streams with
  | nil => rw [String.join_nil, shown, ite_self, String.append_empty, List.foldl_nil]
  | cons text records ih =>
    rw [List.foldl_cons, log_onConsole, ih, String.append_assoc, ← shown_append, String.join_cons]

/-- A failure is reported after the records, in any case. -/
theorem report_onConsole (host : Host) (cause : Failure) :
    (onConsole files earlier level streams).report host cause =
      onConsole files earlier level ⟨streams.stdout, streams.stderr ++
        shown level (record host.clock Run.mainSource ("Action failed: " ++ cause.label)) ++
          (cause.message ++ "\n" ++ helpHint ++ "\n")⟩ := by
  rw [report, log_onConsole]
  simp only [current_onConsole, writeError_onConsole]

end

end Machine

/-- A run begins with a console and no file for its records. -/
theorem Machine.unfiled_beginRun (m : Machine) (level : Int) : (m.beginRun level).Unfiled :=
  fun _ hsink => ⟨_, _, List.mem_singleton.mp hsink⟩

/-! ### The end of a run -/

namespace Run

variable {m last : Machine} {host : Host} {call : Call} {settings : Settings}

/-- What a run does before it reports leaves its output stream empty. -/
theorem stdouts_body (m : Machine) (host : Host) (call : Call) (settings : Settings) (level : Int) :
    ((body host call settings).run.run (m.beginRun level)).2.runs.map Streams.stdout =
      m.runs.map Streams.stdout ++ [""] :=
  keeps_body (Machine.congruence_stdouts host _) call settings List.map_append

theorem lastStreams_of_stdouts {stdouts : List String}
    (h : last.runs.map Streams.stdout = stdouts ++ [""]) :
    last.runs ≠ [] ∧ last.lastStreams.stdout = "" := by
  have hne : last.runs ≠ [] := by
    intro hnil
    rw [hnil] at h
    exact List.append_ne_nil_of_right_ne_nil stdouts (List.cons_ne_nil _ _) h.symm
  refine ⟨hne, ?_⟩
  have hlast := congrArg List.getLast? h
  rw [List.getLast?_map, List.getLast?_concat] at hlast
  rw [Machine.lastStreams]
  cases hstreams : last.runs.getLast? with
  | none => rfl
  | some s =>
    rw [hstreams] at hlast
    exact Option.some.inj hlast

/-- Above the level of records a run writes nothing before it reports. -/
theorem runs_body_of_quiet (m : Machine) (host : Host) (call : Call) (settings : Settings) {level : Int}
    (h : recordLevel < level) :
    ((body host call settings).run.run (m.beginRun level)).2.runs = m.runs ++ [⟨"", ""⟩] := by
  have hbegun : Machine.Quiet (m.runs ++ [⟨"", ""⟩]) (m.beginRun level) := by
    refine ⟨rfl, fun run level' hmem => ?_⟩
    obtain ⟨-, rfl⟩ := Sink.console.inj (List.mem_singleton.mp hmem)
    exact h
  exact (keeps_body (Machine.congruence_quiet host _) call settings hbegun).runs

/-- A run ends well if it comes to a result. -/
theorem exit_zero_iff : (m.run host call).1 = .exit 0 ↔
    ∃ output, ((body host call (Settings.ofEnvironment call.environment)).run.run
      (m.beginRun (Settings.ofEnvironment call.environment).level)).1 = .ok output := by
  rw [Machine.run]
  rcases (body host call (Settings.ofEnvironment call.environment)).run.run
    (m.beginRun (Settings.ofEnvironment call.environment).level) with ⟨(cause | cause) | output, here⟩
  · exact iff_of_false nofun fun ⟨_, hok⟩ => nomatch hok
  · exact iff_of_false nofun fun ⟨_, hok⟩ => nomatch hok
  · exact iff_of_true rfl ⟨output, rfl⟩

/-- A run that ends well writes its result, and records at most. -/
theorem streams_of_ok {output : String}
    (hbody : (body host call (Settings.ofEnvironment call.environment)).run.run
      (m.beginRun (Settings.ofEnvironment call.environment).level) = (.ok output, last)) :
    (m.run host call).2.lastStreams.stdout = output ∧
      (recordLevel < (Settings.ofEnvironment call.environment).level →
        (m.run host call).2.lastStreams.stderr = "") := by
  have hstdouts := stdouts_body m host call (Settings.ofEnvironment call.environment)
    (Settings.ofEnvironment call.environment).level
  have hquiet : recordLevel < (Settings.ofEnvironment call.environment).level → _ :=
    runs_body_of_quiet m host call (Settings.ofEnvironment call.environment)
  rw [hbody] at hstdouts hquiet
  obtain ⟨hne, hstdout⟩ := lastStreams_of_stdouts hstdouts
  rw [Machine.run, hbody]
  dsimp only
  rw [Machine.lastStreams_writeOutput hne, hstdout]
  refine ⟨String.empty_append, fun habove => ?_⟩
  rw [Machine.lastStreams, hquiet habove, List.getLast?_concat]
  rfl

end Run
end SourceTree.Command
