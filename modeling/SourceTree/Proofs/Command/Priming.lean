import SourceTree.Proofs.Command.Reading
import SourceTree.Proofs.Outline.Written
import SourceTree.Proofs.Session.Agreement

/-!
# Trees that are read in a primed session

A run that reads a tree after another one, in the same session, comes to the end of a run that reads it in
a session of its own, if the tree refers to nothing: it writes the same source, or it stops in the same way.
On the way there both runs do nothing but log records.
-/
namespace SourceTree.Command

open Machine (Beside)

namespace Run

variable {host : Host} {m m' m₁ m₂ : Machine} {path out : Path} {bytes first payload : Bytes}

/-! ### The end of both runs -/

/-- Writes the source of a tree, or stops because of what there is instead of a tree. -/
def writeSource (host : Host) (out : Path) : Except Fault Tree → Run String
  | .ok tree => do
    writeFile host out (← ofRendering tree.renderSource)
    return ""
  | .error cause =>
    if cause.isExpected then fail (.tooling cause.message) else escape (.fault cause)

/-- The source of trees that are alike is the same. -/
theorem writeSource_of_sameOutcome {outcome outcome' : Except Fault Tree}
    (h : SameOutcome Tree.Alike outcome outcome') (host : Host) (out : Path) :
    writeSource host out outcome = writeSource host out outcome' := by
  cases h with
  | error cause => rfl
  | ok halike => rw [writeSource, writeSource, halike.renderSource]

theorem run_readPayload_ok {s last : Session} {format : Format} {tree : Tree}
    (h : s.deserialize format payload = (.ok tree, last)) (host : Host) (explain : Fault → Text)
    (m : Machine) :
    ∃ text, (readPayload host explain s format payload).run.run m = (.ok (tree, last), m.log text) := by
  unfold readPayload
  rw [h]
  exact ⟨_, rfl⟩

theorem run_writeSource_error (host : Host) (out : Path) (cause : Fault) (m : Machine) :
    (writeSource host out (.error cause)).run.run m =
      (.error (if cause.isExpected then .failure (.tooling cause.message) else .escape (.fault cause)),
        m) := by
  rw [writeSource]
  split <;> rfl

/-- What comes after a payload begins after one more record at most, and it depends on the outcome alone
if it does not look at the session. -/
theorem run_readPayload_bind {s : Session} {format : Format} {next : Tree × Session → Run String}
    (hnext : ∀ tree last, next (tree, last) = writeSource host out (.ok tree)) (h : m.Recorded m₁) :
    ∃ here, m.Recorded here ∧
      (readPayload host Fault.message s format payload >>= next).run.run m₁ =
        (writeSource host out (s.deserialize format payload).1).run.run here := by
  rcases hcall : s.deserialize format payload with ⟨cause | tree, last⟩
  · have hcause : (s.deserialize format payload).1 = .error cause := by rw [hcall]
    refine ⟨m₁, h, ?_⟩
    rw [run_bind, run_readPayload_error hcause, run_writeSource_error]
  · obtain ⟨text, hread⟩ := run_readPayload_ok hcall host Fault.message m₁
    refine ⟨m₁.log text, h.trans (Machine.recorded_log m₁ text), ?_⟩
    rw [run_bind, hread]
    change (next (tree, last)).run.run (m₁.log text) = _
    rw [hnext]

/-- What the flags of both actions name: the tree that is read first, the output, and the format. -/
structure Names (flags : Flags) (tree out : Path) (format : Format) : Prop where
  tree : flags.requirePath Flag.preEditTree = .ok tree
  out : flags.requirePath Flag.out = .ok out
  format : flags.format = .ok format

section

variable {flags : Flags} {tree incremental : Path} {format : Format}

theorem run_deserialize (hflags : Names flags tree out format)
    (hread : (readFile host tree).run.run m = (.ok payload, m₁)) :
    ∃ here, m.Recorded here ∧ (deserialize host flags).run.run m =
      (writeSource host out (Session.empty.deserialize format payload).1).run.run here := by
  unfold deserialize
  simp only [hflags.tree, hflags.out, hflags.format, ofExcept, pure_bind]
  rw [run_bind, hread]
  exact run_readPayload_bind (fun _ _ => rfl) (recorded_of_readFile hread)

theorem run_incrementalRoundTrip (hflags : Names flags tree out format)
    (hincremental : flags.requirePath Flag.incrTree = .ok incremental)
    (hfirst : (readFile host tree).run.run m = (.ok first, m₁))
    (hsecond : (readFile host incremental).run.run m₁ = (.ok payload, m₂)) {t : Tree} {s : Session}
    (hprimed : Session.empty.deserialize format first = (.ok t, s)) :
    ∃ here, m.Recorded here ∧ (incrementalRoundTrip host flags).run.run m =
      (writeSource host out (s.deserialize format payload).1).run.run here := by
  obtain ⟨text, hprime⟩ := run_readPayload_ok hprimed host Fault.message m₂
  have hread : m.Recorded m₂ := (recorded_of_readFile hfirst).trans (recorded_of_readFile hsecond)
  have hlogged : m.Recorded ((m₂.log text).log (record host.clock actionSource
      ("Primed deserializer with " ++ toString s.size ++ " nodes"))) :=
    hread.trans ((Machine.recorded_log m₂ text).trans (Machine.recorded_log _ _))
  -- all flags are there, so the run goes on to the two files and the first tree
  unfold incrementalRoundTrip
  simp only [hflags.tree, hincremental, hflags.out, hflags.format, ofExcept, pure_bind]
  rw [run_bind, hfirst]
  dsimp only
  rw [run_bind, hsecond]
  dsimp only
  rw [run_bind, hprime]
  dsimp only
  rw [run_bind, run_log]
  exact run_readPayload_bind (fun _ _ => rfl) hlogged

end

/-! ### Whole runs -/

/-- The end of both runs gives the same on machines with the same files. -/
theorem writeSource_beside (h : m.Beside m') (host : Host) (out : Path) (outcome : Except Fault Tree) :
    ((writeSource host out outcome).run.run m).1 = ((writeSource host out outcome).run.run m').1 ∧
      ((writeSource host out outcome).run.run m).2.Beside
        ((writeSource host out outcome).run.run m').2 := by
  cases outcome with
  | error cause =>
    rw [run_writeSource_error, run_writeSource_error]
    exact ⟨rfl, h⟩
  | ok tree =>
    rw [writeSource]
    rcases tree.renderSource with (_ | kind) | text
    · exact ⟨rfl, h⟩
    · exact ⟨rfl, h⟩
    · change ((writeFile host out text >>= _).run.run m).1 = ((writeFile host out text >>= _).run.run m').1 ∧
        ((writeFile host out text >>= _).run.run m).2.Beside ((writeFile host out text >>= _).run.run m').2
      rw [run_bind, run_bind, run_writeFile, run_writeFile, h.files]
      by_cases hnul : out.text.toList.contains '\x00'
      · rw [if_pos hnul, if_pos hnul]
        exact ⟨rfl, h⟩
      · rw [if_neg hnul, if_neg hnul]
        have hwritten : ∀ files, Beside ⟨files, m.runs, m.sinks⟩ ⟨files, m'.runs, m'.sinks⟩ :=
          fun _ => ⟨rfl, h.unfiled, h.unfiled'⟩
        cases Text.encodable text with
        | ok s =>
          dsimp only
          cases m'.files.write out.text (Text.Utf8.encode s) with
          | error cause => exact ⟨rfl, h⟩
          | ok files =>
            exact ⟨rfl, (hwritten files).recorded (Machine.recorded_log _ _) (Machine.recorded_log _ _)⟩
        | error cause =>
          dsimp only
          cases m'.files.write out.text [] with
          | error cause => exact ⟨rfl, h⟩
          | ok files => exact ⟨rfl, hwritten files⟩

/-- The call asks for an action with some flags, and for no file with its records. -/
structure Asks (call : Call) (action : Action) (flags : Flags) : Prop where
  parse : Flags.parse call.arguments = .ok flags
  action : Action.select flags = .ok action
  unfiled : (Settings.ofEnvironment call.environment).logFile = none

/-- The action is done on the files as they are when the run begins. -/
theorem run_body {call : Call} {action : Action} {flags : Flags} (h : Asks call action flags)
    (host : Host) (m : Machine) :
    ∃ start : Machine, start.files = m.files ∧ start.Unfiled ∧
      (body host call (Settings.ofEnvironment call.environment)).run.run
          (m.beginRun (Settings.ofEnvironment call.environment).level) =
        (act host call.searchPath flags action).run.run start := by
  have hbegun : (m.beginRun (Settings.ofEnvironment call.environment).level).Unfiled := by
    intro sink hsink
    exact ⟨_, _, List.mem_singleton.mp hsink⟩
  obtain ⟨hfiles, hunfiled⟩ := hbegun.log
    (record host.clock actionSource ("Running action " ++ action.flag))
  refine ⟨_, hfiles, hunfiled, ?_⟩
  unfold body
  rw [h.unfiled, h.parse]
  change (ofExcept (Action.select flags) >>= _).run.run _ = _
  rw [h.action]
  rfl

/-- The path leads to a file with these bytes. -/
def Offers (files : Files) (path : Path) (bytes : Bytes) : Prop :=
  path.text.toList.contains '\x00' = false ∧ files.read path.text = .ok bytes

theorem run_readFile_of_offers (h : Offers m.files path bytes) (host : Host) :
    ∃ text, (readFile host path).run.run m = (.ok bytes, m.log text) := by
  obtain ⟨hnul, hread⟩ := h
  rw [run_readFile, hnul, hread]
  exact ⟨_, rfl⟩

/-- The flags of a run that reads a tree in a primed session, and of a run that reads one in a session of
its own, for the same output and in the same format. -/
structure Paired (flags flags' : Flags) (old new tree out : Path) (format : Format) : Prop where
  primed : Names flags old out format
  incremental : flags.requirePath Flag.incrTree = .ok new
  plain : Names flags' tree out format

section

variable {flags flags' : Flags} {old new tree : Path} {format : Format} {t : Tree} {primed : Session}

/-- Both actions come to the same end after nothing but records. -/
theorem actions_of_not_refers (h : ∀ id, ¬ Session.Refers format payload id)
    (hflags : Paired flags flags' old new tree out format)
    (hprimed : Session.empty.deserialize format first = (.ok t, primed))
    (hold : (readFile host old).run.run m = (.ok first, m₁))
    (hnew : (readFile host new).run.run m₁ = (.ok payload, m₂)) {m₁' : Machine}
    (htree : (readFile host tree).run.run m' = (.ok payload, m₁')) :
    ∃ here here', m.Recorded here ∧ m'.Recorded here' ∧
      (incrementalRoundTrip host flags).run.run m =
        (writeSource host out (Session.empty.deserialize format payload).1).run.run here ∧
      (deserialize host flags').run.run m' =
        (writeSource host out (Session.empty.deserialize format payload).1).run.run here' := by
  obtain ⟨here, hhere, hrun⟩ :=
    run_incrementalRoundTrip hflags.primed hflags.incremental hold hnew hprimed
  obtain ⟨here', hhere', hrun'⟩ := run_deserialize hflags.plain htree
  -- the session of the one run is primed and that of the other is empty
  have hsame := (Session.agreeFor_of_not_refers h primed Session.empty).alike
  refine ⟨here, here', hhere, hhere', ?_, hrun'⟩
  rw [hrun, writeSource_of_sameOutcome hsame]

/-- The same of actions that are done on machines with the same files: both end alike, with the same
files. -/
theorem actions_beside (h : ∀ id, ¬ Session.Refers format payload id)
    (hflags : Paired flags flags' old new tree out format)
    (hprimed : Session.empty.deserialize format first = (.ok t, primed)) (hm : m.Beside m')
    (hold : Offers m.files old first) (hnew : Offers m.files new payload)
    (htree : Offers m.files tree payload) (host : Host) :
    ((incrementalRoundTrip host flags).run.run m).1 = ((deserialize host flags').run.run m').1 ∧
      ((incrementalRoundTrip host flags).run.run m).2.Beside
        ((deserialize host flags').run.run m').2 := by
  obtain ⟨text, hold⟩ := run_readFile_of_offers hold host
  have hlogged : (m.log text).files = m.files := (hm.unfiled.log text).1
  obtain ⟨_, hnew⟩ := run_readFile_of_offers (hlogged.symm ▸ hnew) host
  obtain ⟨_, htree⟩ := run_readFile_of_offers (hm.files ▸ htree) host
  obtain ⟨here, here', hhere, hhere', hrun, hrun'⟩ :=
    actions_of_not_refers h hflags hprimed hold hnew htree
  rw [hrun, hrun']
  exact writeSource_beside (hm.recorded hhere hhere') host out _

end

/-- How a run ends whose body comes to this. -/
def ending : Except Stop String → Outcome
  | .ok _ => .exit 0
  | .error (.failure _) => .exit 1
  | .error (.escape cause) => .escaped cause

/-- What is done after the body does not change the files. -/
theorem run_of_body {call : Call} {result : Except Stop String} {last : Machine}
    (hbody : (body host call (Settings.ofEnvironment call.environment)).run.run
      (m.beginRun (Settings.ofEnvironment call.environment).level) = (result, last))
    (hlast : last.Unfiled) :
    (m.run host call).1 = ending result ∧ (m.run host call).2.files = last.files := by
  rw [Machine.run, hbody]
  rcases result with (cause | cause) | output
  · exact ⟨rfl, (hlast.log _).1⟩
  · exact ⟨rfl, rfl⟩
  · exact ⟨rfl, rfl⟩

end Run

open Run (Asks Offers Paired incrementalRoundTrip deserialize readFile writeSource)
open Session (AgreeFor Refers)

/-- Both commands end alike, and leave the same files behind. -/
theorem runs_of_not_refers {format : Format} {payload first : Bytes} {flags flags' : Flags}
    {old new tree out : Path} {t : Tree} {primed : Session} (h : ∀ id, ¬ Refers format payload id)
    (hflags : Paired flags flags' old new tree out format)
    (hprimed : Session.empty.deserialize format first = (.ok t, primed)) {host : Host} {call call' : Call}
    (hcall : Asks call .incrementalRoundTrip flags) (hcall' : Asks call' .deserialize flags')
    {m m' : Machine} (hfiles : m.files = m'.files) (hold : Offers m.files old first)
    (hnew : Offers m.files new payload) (htree : Offers m.files tree payload) :
    (m.run host call).1 = (m'.run host call').1 ∧
      (m.run host call).2.files = (m'.run host call').2.files := by
  obtain ⟨start, hstart, hunfiled, hbody⟩ := Run.run_body hcall host m
  obtain ⟨start', hstart', hunfiled', hbody'⟩ := Run.run_body hcall' host m'
  have hbeside : start.Beside start' := ⟨hstart.trans (hfiles.trans hstart'.symm), hunfiled, hunfiled'⟩
  obtain ⟨hresult, hlast⟩ := Run.actions_beside h hflags hprimed hbeside (hstart.symm ▸ hold)
    (hstart.symm ▸ hnew) (hstart.symm ▸ htree) host
  obtain ⟨houtcome, hend⟩ := Run.run_of_body hbody hlast.unfiled
  obtain ⟨houtcome', hend'⟩ := Run.run_of_body hbody' hlast.unfiled'
  refine ⟨?_, hend.trans (hlast.files.trans hend'.symm)⟩
  rw [houtcome, houtcome']
  exact congrArg Run.ending hresult

/-- **What a payload sees of the session.** Sessions that hold nodes of the same structure, or none, under
every id that a payload refers to, make the same of it: trees of the same structure, or the same fault;
and so it is if ids belong to the structure too. If the payload refers to nothing, all sessions make the
same of it. An incremental run on it then comes to the end that a plain run comes to, whatever tree
the session is primed with, on any two machines; and where records go to no file and the files are the
same, both runs end in the same way and leave the same files behind. -/
theorem deserialize_agreement (format : Format) (payload : Bytes) :
    (∀ s s' : Session, AgreeFor Tree.SameShape format payload s s' →
      SameOutcome Tree.SameShape (s.deserialize format payload).1 (s'.deserialize format payload).1) ∧
    (∀ s s' : Session, AgreeFor Tree.Alike format payload s s' →
      SameOutcome Tree.Alike (s.deserialize format payload).1 (s'.deserialize format payload).1) ∧
    ((∀ id, ¬ Refers format payload id) →
      (∀ s s' : Session,
        SameOutcome Tree.Alike (s.deserialize format payload).1 (s'.deserialize format payload).1) ∧
      ∀ (host : Host) (flags flags' : Flags) (old new tree out : Path),
        Paired flags flags' old new tree out format →
      ∀ (first : Bytes) (t : Tree) (primed : Session),
        Session.empty.deserialize format first = (.ok t, primed) →
      (∀ m m₁ m₂ m' m₁' : Machine, (readFile host old).run.run m = (.ok first, m₁) →
        (readFile host new).run.run m₁ = (.ok payload, m₂) →
        (readFile host tree).run.run m' = (.ok payload, m₁') →
        ∃ here here', m.Recorded here ∧ m'.Recorded here' ∧
          (incrementalRoundTrip host flags).run.run m =
            (writeSource host out (Session.empty.deserialize format payload).1).run.run here ∧
          (deserialize host flags').run.run m' =
            (writeSource host out (Session.empty.deserialize format payload).1).run.run here') ∧
      ∀ (m m' : Machine) (call call' : Call), Asks call .incrementalRoundTrip flags →
        Asks call' .deserialize flags' → m.files = m'.files → Offers m.files old first →
        Offers m.files new payload → Offers m.files tree payload →
        (m.run host call).1 = (m'.run host call').1 ∧
          (m.run host call).2.files = (m'.run host call').2.files) := by
  refine ⟨fun _ _ => AgreeFor.sameShape, fun _ _ => AgreeFor.alike, ?_⟩
  intro hrefs
  refine ⟨fun s s' => (Session.agreeFor_of_not_refers hrefs s s').alike, ?_⟩
  intro host flags flags' old new tree out hflags first t primed hprimed
  constructor
  · intro m m₁ m₂ m' m₁' hold hnew htree
    exact Run.actions_of_not_refers hrefs hflags hprimed hold hnew htree
  · intro m m' call call' hcall hcall' hfiles hold hnew htree
    exact runs_of_not_refers hrefs hflags hprimed hcall hcall' hfiles hold hnew htree

/-- Two sessions number a comma differently and make the same of a reference to it. A period is written to
the same file by the run on it alone and by the run on it in a session that has read the comma. -/
theorem deserialize_agreement_comma :
    let comma : Token := ⟨"comma", ",", [], [], .present, some 1⟩
    let period : Token := ⟨"period", ".", [], [], .present, some 1⟩
    let list : Outline := .node "List" .present (some 2) [.reference 1]
    let s : Session := ⟨[(1, .token 0 comma)], 1⟩
    let s' : Session := ⟨[(5, .token 3 period), (1, .token 4 comma)], 5⟩
    let m : Machine := .fresh ⟨[], [(["old"], .file ((Outline.token comma).encode .json) false),
      (["new"], .file ((Outline.token period).encode .json) false)]⟩
    let host : Host := ⟨fun _ => none, ""⟩
    let call : Call := ⟨["-deserialize-incremental", "-pre-edit-tree", "old", "-incr-tree", "new", "-out",
      "source"], []⟩
    let call' : Call := ⟨["-deserialize", "-pre-edit-tree", "new", "-out", "source"], []⟩
    SameOutcome Tree.Alike (s.deserialize .json (list.encode .json)).1
        (s'.deserialize .json (list.encode .json)).1 ∧
      (m.run host call).1 = (m.run host call').1 ∧
      (m.run host call).2.files = (m.run host call').2.files := by
  intro comma period list s s' m host call call'
  have hcomma : (Outline.token comma).Faithful := ⟨hasWordId 1 (by decide), rfl, rfl, nofun, nofun⟩
  have hperiod : (Outline.token period).Faithful := ⟨hasWordId 1 (by decide), rfl, rfl, nofun, nofun⟩
  have hlist : list.Faithful := ⟨by decide, hasWordId 2 (by decide), hasWordId 1 (by decide), trivial⟩
  have hfirst : Outline.read .json ((Outline.token comma).encode .json) = .ok (.token comma) :=
    Outline.read_encode_json hcomma (by decide)
  have hpayload : Outline.read .json ((Outline.token period).encode .json) = .ok (.token period) :=
    Outline.read_encode_json hperiod (by decide)
  have hlistRead : Outline.read .json (list.encode .json) = .ok list :=
    Outline.read_encode_json hlist (by decide)
  constructor
  · obtain ⟨-, hagree, -⟩ := deserialize_agreement .json (list.encode .json)
    apply hagree s s'
    rintro id ⟨root, hread, hrefs⟩
    obtain rfl := Except.ok.inj (hlistRead.symm.trans hread)
    obtain rfl : id = 1 := List.mem_singleton.mp hrefs
    exact .some rfl
  · obtain ⟨-, -, hruns⟩ := deserialize_agreement .json ((Outline.token period).encode .json)
    have hrefs : ∀ id, ¬ Refers .json ((Outline.token period).encode .json) id := by
      rintro id ⟨root, hread, hmem⟩
      obtain rfl := Except.ok.inj (hpayload.symm.trans hread)
      nomatch hmem
    have hprimed := Session.deserialize_of_take (s := Session.empty) (t := .token 0 comma) hfirst rfl nofun
    have hflags : ∀ flags flags', Flags.parse call.arguments = .ok flags →
        Flags.parse call'.arguments = .ok flags' → Paired flags flags' (.ofString "old")
          (.ofString "new") (.ofString "new") (.ofString "source") .json := by
      intro flags flags' hparse hparse'
      obtain rfl := Except.ok.inj hparse
      obtain rfl := Except.ok.inj hparse'
      exact ⟨⟨rfl, rfl, rfl⟩, rfl, ⟨rfl, rfl, rfl⟩⟩
    obtain ⟨-, hsame⟩ := hruns hrefs
    exact (hsame host _ _ _ _ _ _ (hflags _ _ rfl rfl) _ _ _ hprimed).2 m m call call' ⟨rfl, rfl, rfl⟩
      ⟨rfl, rfl, rfl⟩ rfl ⟨rfl, rfl⟩ ⟨rfl, rfl⟩ ⟨rfl, rfl⟩

end SourceTree.Command
