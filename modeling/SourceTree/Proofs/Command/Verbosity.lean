import SourceTree.Proofs.Command.Streams

/-!
# How much of the log is shown

The level from which on records are shown is a matter of the error stream alone. Two runs that differ in their
level log the same records one after the other, between which the same is done to their files, so they come to
the same result; and of what they log the one shows all or nothing, as its level has it.
-/
namespace SourceTree.Command

/-! ### Environments that differ in the level -/

/-- The environments have the same variables with the same values, the one with the level left aside. -/
def Environment.AgreeBesideLevel (environment environment' : Environment) : Prop :=
  ∀ name, name ≠ Settings.levelVariable → environment.lookup name = environment'.lookup name

section

variable {environment environment' : Environment} (h : environment.AgreeBesideLevel environment')
include h

theorem Environment.AgreeBesideLevel.logFile :
    (Settings.ofEnvironment environment).logFile = (Settings.ofEnvironment environment').logFile := by
  have hfile := h Settings.fileVariable (by decide)
  simp only [Settings.ofEnvironment, hfile]

theorem Environment.AgreeBesideLevel.searchPath (arguments arguments' : List String) :
    Call.searchPath ⟨arguments, environment⟩ = Call.searchPath ⟨arguments', environment'⟩ := by
  have hpath := h "PATH" (by decide)
  simp only [Call.searchPath, hpath]

/-- What is to be done does not depend on the level. -/
theorem Environment.AgreeBesideLevel.body (host : Host) (arguments : List String) :
    Run.body host ⟨arguments, environment⟩ (Settings.ofEnvironment environment) =
      Run.body host ⟨arguments, environment'⟩ (Settings.ofEnvironment environment') := by
  rw [Run.body, Run.body, h.logFile, h.searchPath arguments arguments]

end

/-! ### Records -/

/-- What is logged: by whom, and what. -/
structure Record where
  source : String
  message : String

/-- The records as a stream shows them. -/
def lines (host : Host) (records : List Record) : String :=
  String.join (records.map fun r => record host.clock r.source r.message)

theorem lines_append (host : Host) (records more : List Record) :
    lines host (records ++ more) = lines host records ++ lines host more := by
  rw [lines, List.map_append, String.join_append]
  rfl

namespace Machine

/-- From the machine `m` one comes to another one by logging these records one after the other. In between
files may change, and log files may be attached. -/
inductive Logs (host : Host) (m : Machine) : List Record → Machine → Prop where
  | start : Logs host m [] m
  | log {records here} (source message : String) : Logs host m records here →
      Logs host m (records ++ [⟨source, message⟩]) (here.log (record host.clock source message))
  | setFiles {records here} (files : Files) : Logs host m records here →
      Logs host m records ⟨files, here.runs, here.sinks⟩
  | attach {records here} (place : Place) : Logs host m records here →
      Logs host m records ⟨here.files, here.runs, here.sinks ++ [.file place 0]⟩

/-- The machine of a run that has logged these records so far. The files of its log are written from these offsets
on. -/
def logging (host : Host) (earlier : List Streams) (level : Int) (files : Files) (logs : List (Place × Nat))
    (records : List Record) : Machine :=
  ⟨files, earlier ++ [⟨"", shown level (lines host records)⟩],
    .console earlier.length level :: logs.map fun (place, offset) => .file place offset⟩

/-- What goes to log files is the same, whatever the streams of the machine are. -/
theorem feedAll_logs (text : String) (files : Files) (logs : List (Place × Nat)) :
    ∃ (files' : Files) (logs' : List (Place × Nat)), ∀ runs sinks,
      feedAll ⟨files, runs, sinks⟩ text (logs.map fun (place, offset) => .file place offset) =
        (⟨files', runs, sinks⟩, logs'.map fun (place, offset) => .file place offset) := by
  induction logs generalizing files with
  | nil => exact ⟨files, [], fun _ _ => rfl⟩
  | cons first logs ih =>
    obtain ⟨place, offset⟩ := first
    let bytes := Text.Utf8.encode text
    obtain ⟨files', logs', hrest⟩ := ih (files.writeAt place offset bytes)
    refine ⟨files', (place, offset + bytes.length) :: logs', fun runs sinks => ?_⟩
    have hfeed : feed ⟨files, runs, sinks⟩ text (.file place offset) =
        (⟨files.writeAt place offset bytes, runs, sinks⟩, .file place (offset + bytes.length)) := rfl
    rw [List.map_cons, feedAll_cons, hfeed, hrest]
    rfl

section

variable (host : Host) (earlier : List Streams) (files : Files) (logs : List (Place × Nat))
  (records : List Record)

/-- A record goes to the log files in the same way at every level, and to the console as far as that shows it. -/
theorem log_logging (source message : String) :
    ∃ (files' : Files) (logs' : List (Place × Nat)), ∀ level,
      (logging host earlier level files logs records).log (record host.clock source message) =
        logging host earlier level files' logs' (records ++ [⟨source, message⟩]) := by
  let text := record host.clock source message
  obtain ⟨files', logs', hlogs⟩ := feedAll_logs text files logs
  refine ⟨files', logs', fun level => ?_⟩
  have hline : lines host [⟨source, message⟩] = text := by simp [lines, text]
  -- The console comes first, and what it shows is the difference between the levels.
  have hlog : (logging host earlier level files logs records).log text =
      let fed := (logging host earlier level files logs records).feed text (.console earlier.length level)
      let rest := fed.1.feedAll text (logs.map fun (place, offset) => .file place offset)
      ⟨rest.1.files, rest.1.runs, fed.2 :: rest.2⟩ := rfl
  rw [hlog, logging, feed_console]
  dsimp only
  rw [hlogs, ← shown_append, ← hline, ← lines_append]
  rfl

theorem current_logging (level : Int) :
    (logging host earlier level files logs records).current = earlier.length := by
  rw [current, logging, List.length_append, List.length_singleton, Nat.add_sub_cancel]

end

/-! ### Two levels -/

/-- The machines of two runs that show records from these levels on. Both runs have logged the same records so far,
and what those left on the error streams is all that the machines differ in. -/
def Paired (host : Host) (m : Machine) (level level' : Int) (here here' : Machine) : Prop :=
  ∃ files logs records, here = logging host m.runs level files logs records ∧
    here' = logging host m.runs level' files logs records ∧
    Logs host (m.beginRun level) records here ∧ Logs host (m.beginRun level') records here'

section

variable (host : Host) (m : Machine) (level level' : Int)

theorem paired_beginRun : Paired host m level level' (m.beginRun level) (m.beginRun level') := by
  have hbegun : ∀ level, m.beginRun level = logging host m.runs level m.files [] [] := fun level => by
    simp [beginRun, logging, lines, shown]
  exact ⟨m.files, [], [], hbegun level, hbegun level', .start, .start⟩

/-- Every single step of a run is the same at both levels. -/
theorem congruence_paired : Congruence host (Paired host m level level') where
  files := by
    rintro _ _ ⟨files, logs, records, rfl, rfl, -, -⟩
    rfl
  log := by
    rintro _ _ source message ⟨files, logs, records, rfl, rfl, h, h'⟩
    obtain ⟨files', logs', hlog⟩ := log_logging host m.runs files logs records source message
    exact ⟨files', logs', _, hlog level, hlog level', h.log source message, h'.log source message⟩
  setFiles := by
    rintro _ _ files ⟨_, logs, records, rfl, rfl, h, h'⟩
    exact ⟨files, logs, records, rfl, rfl, h.setFiles files, h'.setFiles files⟩
  attach := by
    rintro _ _ place ⟨files, logs, records, rfl, rfl, h, h'⟩
    refine ⟨files, logs ++ [(place, 0)], records, ?_, ?_, h.attach place, h'.attach place⟩ <;>
      simp [logging]

end

end Machine

/-! ### The end of a run -/

/-- What a run comes to before it reports: what goes to its output stream, or why it has stopped. -/
abbrev Result := Except Stop String

namespace Result

def outcome : Result → Outcome
  | .ok _ => .exit 0
  | .error (.failure _) => .exit 1
  | .error (.escape cause) => .escaped cause

def output : Result → String
  | .ok text => text
  | .error _ => ""

/-- What is reported on the error stream beside records: a failure, with a hint at the end, and nothing otherwise. -/
def diagnostic : Result → String
  | .error (.failure cause) => cause.message ++ "\n" ++ helpHint ++ "\n"
  | _ => ""

/-- What is logged of the result. -/
def records : Result → List Record
  | .error (.failure cause) => [⟨Run.mainSource, "Action failed: " ++ cause.label⟩]
  | _ => []

end Result

namespace Machine

variable (m : Machine) (host : Host)

/-- A run up to its report: its result, and the machine as it is then. -/
def unreported (call : Call) : Result × Machine :=
  let settings := Settings.ofEnvironment call.environment
  (Run.body host call settings).run.run (m.beginRun settings.level)

def result (call : Call) : Result := (m.unreported host call).1

/-- Reports a result. -/
def finish : Result → Machine
  | .ok output => m.writeOutput m.current output
  | .error (.failure cause) => m.report host cause
  | .error (.escape _) => m

theorem run_eq_finish (call : Call) :
    m.run host call =
      ((m.result host call).outcome, (m.unreported host call).2.finish host (m.result host call)) := by
  rw [result, run, ← unreported.eq_1]
  rcases m.unreported host call with ⟨(cause | cause) | output, here⟩ <;> rfl

/-- At every level the report leaves the same files, and writes the same after the records that are shown. -/
theorem finish_logging (earlier : List Streams) (files : Files) (logs : List (Place × Nat))
    (records : List Record) (result : Result) :
    ∃ files', ∀ level,
      let last := (logging host earlier level files logs records).finish host result
      last.files = files' ∧ last.runs = earlier ++
        [⟨result.output, shown level (lines host (records ++ result.records)) ++ result.diagnostic⟩] := by
  rcases result with (cause | cause) | text
  · obtain ⟨files', logs', hlog⟩ :=
      log_logging host earlier files logs records Run.mainSource ("Action failed: " ++ cause.label)
    refine ⟨files', fun level => ?_⟩
    dsimp only [finish, report]
    rw [hlog, current_logging]
    exact ⟨rfl, modify_concat _ _ _⟩
  · refine ⟨files, fun level => ⟨rfl, ?_⟩⟩
    simp [finish, logging, Result.output, Result.diagnostic, Result.records]
  · refine ⟨files, fun level => ⟨rfl, ?_⟩⟩
    have hwritten := modify_concat earlier ⟨"", shown level (lines host records)⟩
      fun s => ⟨s.stdout ++ text, s.stderr⟩
    rw [finish, current_logging]
    simpa [writeOutput, logging, Result.output, Result.diagnostic, Result.records] using hwritten

/-- What a run writes beside its files. Up to its report it has logged these records, one after the other. Its
output stream has its result, and its error stream the records and that of its result, if they are shown,
and then the diagnostic of its failure. -/
structure Reports (call : Call) (records : List Record) : Prop where
  outcome : (m.run host call).1 = (m.result host call).outcome
  logged : Logs host (m.beginRun (Settings.ofEnvironment call.environment).level) records
    (m.unreported host call).2
  earlier : (m.run host call).2.runs = m.runs ++ [(m.run host call).2.lastStreams]
  stdout : (m.run host call).2.lastStreams.stdout = (m.result host call).output
  quiet : recordLevel < (Settings.ofEnvironment call.environment).level →
    (m.run host call).2.lastStreams.stderr = (m.result host call).diagnostic
  verbose : (Settings.ofEnvironment call.environment).level ≤ recordLevel →
    (m.run host call).2.lastStreams.stderr =
      lines host (records ++ (m.result host call).records) ++ (m.result host call).diagnostic

theorem reports_of_logging {call : Call} {files : Files} {logs : List (Place × Nat)} {records : List Record}
    (hhere : (m.unreported host call).2 =
      logging host m.runs (Settings.ofEnvironment call.environment).level files logs records)
    (hlogs : Logs host (m.beginRun (Settings.ofEnvironment call.environment).level) records
      (m.unreported host call).2) :
    m.Reports host call records := by
  obtain ⟨_, hfinish⟩ := finish_logging host m.runs files logs records (m.result host call)
  have hruns := (hfinish (Settings.ofEnvironment call.environment).level).2
  rw [← hhere] at hruns
  have hlast := congrArg (fun runs => runs.getLast?.getD ⟨"", ""⟩) hruns
  rw [List.getLast?_concat] at hlast
  change lastStreams _ = _ at hlast
  constructor
  case logged => exact hlogs
  all_goals rw [run_eq_finish]
  case earlier =>
    rw [hlast, hruns]
    rfl
  case stdout =>
    rw [hlast]
    rfl
  case quiet =>
    intro habove
    rw [hlast, shown, if_neg (by omega)]
    exact String.empty_append
  case verbose =>
    intro hbelow
    rw [hlast, shown, if_pos hbelow]
    rfl

/-- Runs that differ in their level come to the same result on machines that differ in what is shown. -/
theorem paired_unreported {call call' : Call} (harguments : call.arguments = call'.arguments)
    (henvironment : call.environment.AgreeBesideLevel call'.environment) :
    m.result host call = m.result host call' ∧
      Paired host m (Settings.ofEnvironment call.environment).level
        (Settings.ofEnvironment call'.environment).level (m.unreported host call).2
        (m.unreported host call').2 := by
  obtain ⟨arguments, environment⟩ := call
  obtain ⟨_, environment'⟩ := call'
  obtain rfl : arguments = _ := harguments
  have hbody := henvironment.body host arguments
  have hbegun := paired_beginRun host m (Settings.ofEnvironment environment).level
    (Settings.ofEnvironment environment').level
  rw [result, result, unreported, unreported, ← hbody]
  exact Run.respects_body (congruence_paired host m _ _) _ _ _ _ hbegun

end Machine

/-- **The level of the log changes no result.** Two runs of the same arguments in environments that differ in
the level alone end in the same way, write the same output and leave the same files behind, the file of the log
among them. They log the same records, up to their report and with it; the one whose level shows them has them on
its error stream, before what it reports of a failure, and the other one has that report alone. -/
theorem run_verbosity (m : Machine) (host : Host) {call call' : Call}
    (harguments : call.arguments = call'.arguments)
    (henvironment : call.environment.AgreeBesideLevel call'.environment) :
    (m.run host call).1 = (m.run host call').1 ∧
      (m.run host call).2.lastStreams.stdout = (m.run host call').2.lastStreams.stdout ∧
      (m.run host call).2.files = (m.run host call').2.files ∧
      m.result host call = m.result host call' ∧
      ∃ records, m.Reports host call records ∧ m.Reports host call' records := by
  obtain ⟨hresult, files, logs, records, hhere, hhere', hlogs, hlogs'⟩ :=
    m.paired_unreported host harguments henvironment
  obtain ⟨_, hfinish⟩ := Machine.finish_logging host m.runs files logs records (m.result host call)
  have hreports := m.reports_of_logging host hhere hlogs
  have hreports' := m.reports_of_logging host hhere' hlogs'
  refine ⟨?_, ?_, ?_, hresult, records, hreports, hreports'⟩
  · rw [hreports.outcome, hreports'.outcome, hresult]
  · rw [hreports.stdout, hreports'.stdout, hresult]
  · rw [m.run_eq_finish host call, m.run_eq_finish host call', ← hresult, hhere, hhere']
    exact (hfinish _).1.trans (hfinish _).1.symm

/-- A command without an action, with a log file, at the level of records and at that of warnings: the log and the
report of the failure are the same, and at the level of records the error stream has the record first. -/
theorem run_verbosity_debug :
    let host : Host := ⟨fun _ => none, "now"⟩
    let loud : Call := ⟨[], [(Settings.levelVariable, " debug"), (Settings.fileVariable, "log")]⟩
    let silent : Call := ⟨[], [(Settings.fileVariable, "log")]⟩
    let m : Machine := .fresh ⟨[], []⟩
    let report := "No action specified.\n" ++ helpHint ++ "\n"
    let log := record "now" Run.mainSource "Action failed: NoActionSpecified('No action specified.')"
    loud.environment.AgreeBesideLevel silent.environment ∧
      (m.run host loud).1 = (m.run host silent).1 ∧
      (m.run host loud).2.files = (m.run host silent).2.files ∧
      (∃ records, m.Reports host loud records ∧ m.Reports host silent records) ∧
      (m.run host loud).2.lastStreams.stderr = log ++ report ∧
      (m.run host silent).2.lastStreams.stderr = report ∧
      (m.run host silent).2.contents = [(["log"], Text.Utf8.encode log)] := by
  intro host loud silent m report log
  have henvironment : loud.environment.AgreeBesideLevel silent.environment := by
    intro name hname
    rw [List.lookup_cons, beq_eq_false_iff_ne.mpr hname]
  have harguments : loud.arguments = silent.arguments := rfl
  obtain ⟨houtcome, -, hfiles, -, hreports⟩ := run_verbosity m host harguments henvironment
  refine ⟨henvironment, houtcome, hfiles, hreports, ?_, ?_, ?_⟩
  · decide +kernel
  · decide +kernel
  · decide +kernel

end SourceTree.Command
