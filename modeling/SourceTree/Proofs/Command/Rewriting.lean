import SourceTree.Proofs.Command.Priming
import SourceTree.Proofs.Command.Streams
import SourceTree.Proofs.Session.Runs
import SourceTree.Proofs.System.Files

/-!
# Trees that are written back

An action on payloads reads its inputs, then makes trees of what they hold, and writes the source of the last
one. It succeeds exactly if the files, as they are when the run begins, allow for each of these steps; and
what it writes is a matter of the contents that the inputs have by then, even if the output is one of them. A
source that has no UTF-8 form cannot be written, and nobody provides for that.
-/
namespace SourceTree.Command

namespace Run

/-! ### When runs succeed -/

/-- Where records go to no file, the run succeeds exactly in this way: on which files, with what result, and
with what files after it. -/
structure SucceedsAs {α : Type} (gives : Files → α → Files → Prop) (x : Run α) : Prop where
  unfiled : ∀ {m : Machine}, m.Unfiled → (x.run.run m).2.Unfiled
  iff : ∀ {m : Machine}, m.Unfiled → ∀ a files',
    gives m.files a files' ↔ (x.run.run m).1 = .ok a ∧ (x.run.run m).2.files = files'

namespace SucceedsAs

variable {α β : Type}

theorem pure (a : α) : SucceedsAs (fun files b files' => a = b ∧ files = files') (pure a) :=
  ⟨fun hm => hm, fun _ _ _ => and_congr_left' ⟨congrArg Except.ok, Except.ok.inj⟩⟩

/-- A run that stops wherever it is begun does not succeed. -/
theorem stop {gives : Files → α → Files → Prop} (cause : Stop) (h : ∀ files a files', ¬ gives files a files') :
    SucceedsAs gives (throw cause : Run α) :=
  ⟨fun hm => hm, fun _ _ _ => iff_of_false (h _ _ _) fun hok => nomatch hok.1⟩

theorem bind {gives : Files → α → Files → Prop} {next : α → Files → β → Files → Prop} {x : Run α}
    {f : α → Run β} (hx : SucceedsAs gives x) (hf : ∀ a, SucceedsAs (next a) (f a)) :
    SucceedsAs (fun files b files' => ∃ a mid, gives files a mid ∧ next a mid b files') (x >>= f) := by
  constructor
  · intro m hm
    have hmid := hx.unfiled hm
    rw [run_bind]
    rcases hrun : x.run.run m with ⟨stop | a, mid⟩ <;> rw [hrun] at hmid
    · exact hmid
    · exact (hf a).unfiled hmid
  · intro m hm b files'
    have hmid := hx.unfiled hm
    have hgives := hx.iff hm
    rw [run_bind]
    rcases hrun : x.run.run m with ⟨stop | a, mid⟩ <;> rw [hrun] at hmid hgives
    · refine ⟨?_, fun h => nomatch h.1⟩
      rintro ⟨a, files, hfirst, -⟩
      cases ((hgives _ _).mp hfirst).1
    · refine Iff.trans ?_ ((hf a).iff hmid b files')
      constructor
      · rintro ⟨other, files, hfirst, hnext⟩
        obtain ⟨hresult, rfl⟩ := (hgives _ _).mp hfirst
        obtain rfl := Except.ok.inj hresult
        exact hnext
      · exact fun hnext => ⟨a, mid.files, (hgives _ _).mpr ⟨rfl, rfl⟩, hnext⟩

theorem congr {gives gives' : Files → α → Files → Prop} {x : Run α} (hx : SucceedsAs gives x)
    (h : ∀ files a files', gives' files a files' ↔ gives files a files') : SucceedsAs gives' x :=
  ⟨hx.unfiled, fun hm a files' => (h _ _ _).trans (hx.iff hm a files')⟩

end SucceedsAs

section

variable {α : Type} (host : Host) (path : Path)

theorem succeedsAs_ofRendering (result : Except Obstacle α) :
    SucceedsAs (fun files a files' => result = .ok a ∧ files = files') (ofRendering result) := by
  rcases result with (_ | kind) | a
  · exact .stop _ fun _ _ _ h => nomatch h.1
  · exact .stop _ fun _ _ _ h => nomatch h.1
  · exact (SucceedsAs.pure a).congr fun _ _ _ => and_congr_left' (by rw [Except.ok.injEq])

theorem succeedsAs_log (source message : String) :
    SucceedsAs (fun files _ files' => files = files') (log host source message) := by
  constructor
  · exact fun hm => (hm.log _).2
  · intro m hm a files'
    rw [run_log, (hm.log _).1]
    exact (and_iff_right rfl).symm

theorem succeedsAs_readFile :
    SucceedsAs (fun files bytes files' => Offers files path bytes ∧ files = files') (readFile host path) := by
  constructor
  · intro m hm
    rw [run_readFile]
    split
    · exact hm
    · split
      · exact (hm.log _).2
      · exact hm
  · intro m hm bytes files'
    unfold Offers
    rw [run_readFile]
    cases path.text.toList.contains '\x00' with
    | true => exact iff_of_false (fun h => nomatch h.1.1) fun h => nomatch h.1
    | false =>
      cases m.files.read path.text with
      | error cause => exact iff_of_false (fun h => nomatch h.1.2) fun h => nomatch h.1
      | ok found =>
        rw [and_iff_right rfl, Except.ok.injEq]
        change _ ↔ Except.ok found = Except.ok bytes ∧ (m.log _).files = files'
        rw [(hm.log _).1, Except.ok.injEq]

theorem succeedsAs_readPayload (explain : Fault → Text) (s : Session) (format : Format) (payload : Bytes) :
    SucceedsAs (fun files result files' => s.deserialize format payload = (.ok result.1, result.2) ∧
      files = files') (readPayload host explain s format payload) := by
  unfold readPayload
  rcases s.deserialize format payload with ⟨cause | tree, last⟩
  · dsimp only
    split
    · exact .stop _ fun _ _ _ h => nomatch h.1
    · exact .stop _ fun _ _ _ h => nomatch h.1
  · refine ((succeedsAs_log host _ _).bind fun _ => .pure _).congr fun files result files' => ?_
    constructor
    · rintro ⟨hresult, rfl⟩
      obtain ⟨htree, rfl⟩ := Prod.mk.inj hresult
      exact ⟨(), files, rfl, by rw [Except.ok.inj htree], rfl⟩
    · rintro ⟨-, mid, rfl, rfl, rfl⟩
      exact ⟨rfl, rfl⟩

theorem succeedsAs_writeFile (text : Text) :
    SucceedsAs (fun files _ files' => path.text.toList.contains '\x00' = false ∧
      ∃ s : String, text = s ∧ files.write path.text (Text.Utf8.encode s) = .ok files')
      (writeFile host path text) := by
  have hwritten : ∀ {m : Machine} (files : Files), m.Unfiled → Machine.Unfiled ⟨files, m.runs, m.sinks⟩ :=
    fun _ hm => hm
  simp only [← Text.encodable_eq_ok_iff]
  constructor
  · intro m hm
    rw [run_writeFile]
    split
    · exact hm
    · split
      · split
        · exact ((hwritten _ hm).log _).2
        · exact hm
      · split <;> exact hm
  · intro m hm _ files'
    rw [run_writeFile]
    cases path.text.toList.contains '\x00' with
    | true => exact iff_of_false (fun h => nomatch h.1) fun h => nomatch h.1
    | false =>
      rw [if_neg Bool.false_ne_true, and_iff_right rfl]
      cases Text.encodable text with
      | error unencodable =>
        dsimp only
        refine iff_of_false (fun ⟨_, h, _⟩ => nomatch h) ?_
        cases m.files.write path.text [] <;> exact fun h => nomatch h.1
      | ok s =>
        simp only [Except.ok.injEq, exists_eq_left']
        cases m.files.write path.text (Text.Utf8.encode s) with
        | error cause => exact iff_of_false (fun h => nomatch h) fun h => nomatch h.1
        | ok files =>
          rw [Except.ok.injEq]
          change _ ↔ Except.ok () = Except.ok () ∧ (Machine.log _ _).files = files'
          rw [((hwritten files hm).log _).1]
          exact (and_iff_right rfl).symm

end

end Run

open Run (Asks Names Offers SucceedsAs)

/-! ### The source of what is read -/

/-- What the inputs hold gives a tree each, one after the other in a session of its own, and the text is the
source of the last one. -/
def Yields (files : Files) (format : Format) (inputs : List Path) (text : Text) : Prop :=
  ∃ (payloads : List Bytes) (trees : List Tree) (last : Tree), List.Forall₂ (Offers files) inputs payloads ∧
    (Session.empty.deserializeAll (payloads.map (Session.Call.mk format))).1 = trees.map .ok ∧
    trees.getLast? = some last ∧ last.renderSource = .ok text ∧ text = last.description

variable {files : Files} {format : Format} {tree incremental out : Path} {text : Text}

theorem description_of_renderSource {t : Tree} (h : t.renderSource = .ok text) : text = t.description := by
  rw [Tree.renderSource, Tree.rendered] at h
  split at h
  · cases h
  · exact (Except.ok.inj h).symm

theorem yields_one_iff :
    Yields files format [tree] text ↔ ∃ payload t s, Offers files tree payload ∧
      Session.empty.deserialize format payload = (.ok t, s) ∧ t.renderSource = .ok text := by
  constructor
  · rintro ⟨payloads, trees, last, hoffers, htrees, hlast, hsource, -⟩
    obtain ⟨payload, _, hoffer, hnil, rfl⟩ := List.forall₂_cons_left_iff.mp hoffers
    obtain rfl := List.forall₂_nil_left_iff.mp hnil
    rw [List.map_singleton, Session.deserializeAll_cons] at htrees
    obtain ⟨t, rest, rfl, ht, hrest⟩ := List.map_eq_cons_iff.mp htrees.symm
    obtain rfl := List.map_eq_nil_iff.mp hrest
    obtain rfl := Option.some.inj hlast
    exact ⟨payload, t, _, hoffer, Prod.ext ht.symm rfl, hsource⟩
  · rintro ⟨payload, t, s, hoffer, htree, hsource⟩
    refine ⟨[payload], [t], t, .cons hoffer .nil, ?_, rfl, hsource, description_of_renderSource hsource⟩
    rw [List.map_singleton, Session.deserializeAll_cons, htree]
    rfl

theorem yields_two_iff :
    Yields files format [tree, incremental] text ↔ ∃ first second t primed u s,
      Offers files tree first ∧ Offers files incremental second ∧
      Session.empty.deserialize format first = (.ok t, primed) ∧
      primed.deserialize format second = (.ok u, s) ∧ u.renderSource = .ok text := by
  constructor
  · rintro ⟨payloads, trees, last, hoffers, htrees, hlast, hsource, -⟩
    obtain ⟨first, _, hfirst, hrest, rfl⟩ := List.forall₂_cons_left_iff.mp hoffers
    obtain ⟨second, _, hsecond, hnil, rfl⟩ := List.forall₂_cons_left_iff.mp hrest
    obtain rfl := List.forall₂_nil_left_iff.mp hnil
    rw [List.map_cons, List.map_singleton, Session.deserializeAll_cons, Session.deserializeAll_cons] at htrees
    obtain ⟨t, rest, rfl, ht, hrest⟩ := List.map_eq_cons_iff.mp htrees.symm
    obtain ⟨u, rest, rfl, hu, hrest⟩ := List.map_eq_cons_iff.mp hrest
    obtain rfl := List.map_eq_nil_iff.mp hrest
    obtain rfl := Option.some.inj hlast
    exact ⟨first, second, t, _, u, _, hfirst, hsecond, Prod.ext ht.symm rfl, Prod.ext hu.symm rfl, hsource⟩
  · rintro ⟨first, second, t, primed, u, s, hfirst, hsecond, ht, hu, hsource⟩
    refine ⟨[first, second], [t, u], u, .cons hfirst (.cons hsecond .nil), ?_, rfl, hsource,
      description_of_renderSource hsource⟩
    rw [List.map_cons, List.map_singleton, Session.deserializeAll_cons, ht, Session.deserializeAll_cons, hu]
    rfl

/-- The output is written with the source of what the inputs hold. -/
def Rewritten (format : Format) (inputs : List Path) (out : Path) (files : Files) (output : String)
    (files' : Files) : Prop :=
  output = "" ∧ out.text.toList.contains '\x00' = false ∧ ∃ text : String, Yields files format inputs text ∧
    files.write out.text (Text.Utf8.encode text) = .ok files'

namespace Run

/-- The run makes the text of its inputs, and then writes it to the output. -/
def WritesWhat (host : Host) (out : Path) (yields : Files → Text → Prop) (x : Run String) : Prop :=
  ∃ source : Run Text, SucceedsAs (fun files text files' => yields files text ∧ files = files') source ∧
    x = source >>= fun text => writeFile host out text >>= fun _ => pure ""

variable {flags : Flags}

theorem writesWhat_deserialize (host : Host) (hflags : Names flags tree out format) :
    WritesWhat host out (fun files => Yields files format [tree]) (deserialize host flags) := by
  refine ⟨do
    let payload ← readFile host tree
    let result ← readPayload host Fault.message .empty format payload
    ofRendering result.1.renderSource, ?_, ?_⟩
  · refine (SucceedsAs.bind (succeedsAs_readFile host tree) fun payload =>
      .bind (succeedsAs_readPayload host Fault.message .empty format payload) fun result =>
      succeedsAs_ofRendering result.1.renderSource).congr fun files text files' => ?_
    dsimp only
    rw [yields_one_iff]
    constructor
    · rintro ⟨⟨payload, t, s, hoffer, htree, hsource⟩, rfl⟩
      exact ⟨payload, files, ⟨hoffer, rfl⟩, (t, s), files, ⟨htree, rfl⟩, hsource, rfl⟩
    · rintro ⟨payload, _, ⟨hoffer, rfl⟩, ⟨t, s⟩, _, ⟨htree, rfl⟩, hsource, rfl⟩
      exact ⟨⟨payload, t, s, hoffer, htree, hsource⟩, rfl⟩
  · unfold deserialize
    simp only [hflags.tree, hflags.out, hflags.format, ofExcept, pure_bind, bind_assoc]

theorem writesWhat_incrementalRoundTrip (host : Host) (hflags : Names flags tree out format)
    (hincremental : flags.requirePath Flag.incrTree = .ok incremental) :
    WritesWhat host out (fun files => Yields files format [tree, incremental])
      (incrementalRoundTrip host flags) := by
  refine ⟨do
    let first ← readFile host tree
    let second ← readFile host incremental
    let primed ← readPayload host Fault.message .empty format first
    log host actionSource ("Primed deserializer with " ++ toString primed.2.size ++ " nodes")
    let result ← readPayload host Fault.message primed.2 format second
    ofRendering result.1.renderSource, ?_, ?_⟩
  · refine (SucceedsAs.bind (succeedsAs_readFile host tree) fun first =>
      .bind (succeedsAs_readFile host incremental) fun second =>
      .bind (succeedsAs_readPayload host Fault.message .empty format first) fun primed =>
      .bind (succeedsAs_log host _ _) fun _ =>
      .bind (succeedsAs_readPayload host Fault.message primed.2 format second) fun result =>
      succeedsAs_ofRendering result.1.renderSource).congr fun files text files' => ?_
    dsimp only
    rw [yields_two_iff]
    constructor
    · rintro ⟨⟨first, second, t, primed, u, s, hfirst, hsecond, ht, hu, hsource⟩, rfl⟩
      exact ⟨first, files, ⟨hfirst, rfl⟩, second, files, ⟨hsecond, rfl⟩, (t, primed), files, ⟨ht, rfl⟩, (), files,
        rfl, (u, s), files, ⟨hu, rfl⟩, hsource, rfl⟩
    · rintro ⟨first, _, ⟨hfirst, rfl⟩, second, _, ⟨hsecond, rfl⟩, ⟨t, primed⟩, _, ⟨ht, rfl⟩, -, _, rfl, ⟨u, s⟩, _,
        ⟨hu, rfl⟩, hsource, rfl⟩
      exact ⟨⟨first, second, t, primed, u, s, hfirst, hsecond, ht, hu, hsource⟩, rfl⟩
  · unfold incrementalRoundTrip
    simp only [hflags.tree, hincremental, hflags.out, hflags.format, ofExcept, pure_bind, bind_assoc]

end Run

/-! ### Whole runs -/

/-- The call has trees read from these inputs, in this format and with no file for records, and the source of
the last one written to an output. -/
inductive Rewrites (call : Call) (format : Format) (out : Path) : List Path → Prop
  | plain {flags : Flags} {tree : Path} (hcall : Asks call .deserialize flags)
      (hflags : Names flags tree out format) : Rewrites call format out [tree]
  | incremental {flags : Flags} {tree incremental : Path} (hcall : Asks call .incrementalRoundTrip flags)
      (hflags : Names flags tree out format) (hincremental : flags.requirePath Flag.incrTree = .ok incremental) :
      Rewrites call format out [tree, incremental]

/-- The output can be opened. -/
def Openable (files : Files) (out : Path) : Prop :=
  out.text.toList.contains '\x00' = false ∧ ∃ spot, files.truncate out.text = .ok spot

section

variable {call : Call} {inputs : List Path}

theorem Run.writesWhat_body {yields : Files → Text → Prop} {action : Action} {flags : Flags} {host : Host}
    (hcall : Asks call action flags) (hact : WritesWhat host out yields (act host call.searchPath flags action)) :
    WritesWhat host out yields (body host call (Settings.ofEnvironment call.environment)) := by
  obtain ⟨source, hsource, heq⟩ := hact
  refine ⟨log host actionSource ("Running action " ++ action.flag) >>= fun _ => source, ?_, ?_⟩
  · refine (SucceedsAs.bind (succeedsAs_log host _ _) fun _ => hsource).congr fun files text files' => ?_
    exact ⟨fun hgives => ⟨(), files, rfl, hgives⟩, fun ⟨_, _, hfiles, hgives⟩ => hfiles ▸ hgives⟩
  · unfold body
    rw [hcall.unfiled, hcall.parse]
    change ofExcept (Action.select flags) >>= _ = _
    rw [hcall.action, bind_assoc, ← heq]
    rfl

theorem Rewrites.writesWhat (h : Rewrites call format out inputs) (host : Host) :
    Run.WritesWhat host out (fun files => Yields files format inputs)
      (Run.body host call (Settings.ofEnvironment call.environment)) := by
  cases h with
  | plain hcall hflags => exact Run.writesWhat_body hcall (Run.writesWhat_deserialize host hflags)
  | incremental hcall hflags hincremental =>
    exact Run.writesWhat_body hcall (Run.writesWhat_incrementalRoundTrip host hflags hincremental)

theorem Rewrites.succeedsAs (h : Rewrites call format out inputs) (host : Host) :
    SucceedsAs (Rewritten format inputs out)
      (Run.body host call (Settings.ofEnvironment call.environment)) := by
  obtain ⟨source, hsource, hbody⟩ := h.writesWhat host
  rw [hbody]
  refine (SucceedsAs.bind hsource fun text =>
    .bind (Run.succeedsAs_writeFile host out text) fun _ => .pure "").congr fun files output files' => ?_
  constructor
  · rintro ⟨rfl, hnul, text, hyields, hwrite⟩
    exact ⟨text, files, ⟨hyields, rfl⟩, (), files', ⟨hnul, text, rfl, hwrite⟩, rfl, rfl⟩
  · rintro ⟨_, _, ⟨hyields, rfl⟩, _, _, ⟨hnul, text, rfl, hwrite⟩, rfl, rfl⟩
    exact ⟨rfl, hnul, text, hyields, hwrite⟩

/-- A source that has no UTF-8 form ends the run once the output is open. -/
theorem Rewrites.escapes {m : Machine} (h : Rewrites call format out inputs) (host : Host)
    (hyields : Yields m.files format inputs text) (hopen : Openable m.files out) {cause : Text.Unencodable}
    (htext : Text.encodable text = .error cause) : (m.run host call).1 = .escaped (.unencodable cause) := by
  obtain ⟨source, hsource, hbody⟩ := h.writesWhat host
  have hbegun := m.unfiled_beginRun (Settings.ofEnvironment call.environment).level
  obtain ⟨hresult, hfiles⟩ := (hsource.iff hbegun text m.files).mp ⟨hyields, rfl⟩
  rcases hrun : source.run.run (m.beginRun (Settings.ofEnvironment call.environment).level) with ⟨result, mid⟩
  rw [hrun] at hresult hfiles
  obtain rfl : result = .ok text := hresult
  obtain ⟨files', hwrite⟩ : ∃ files', m.files.write out.text [] = .ok files' := Files.write_ok_iff.mpr hopen.2
  rw [← (hfiles : mid.files = m.files)] at hwrite
  rw [Machine.run, hbody, Run.run_bind, hrun]
  dsimp only
  rw [Run.run_bind, Run.run_writeFile, hopen.1, if_neg Bool.false_ne_true, htext]
  dsimp only
  rw [hwrite]

/-- There is something to write, and somewhere to write it to. -/
theorem exists_rewritten_iff :
    (∃ output files', Rewritten format inputs out files output files') ↔
      (∃ text : String, Yields files format inputs text) ∧ Openable files out := by
  constructor
  · rintro ⟨output, files', -, hnul, text, hyields, hwrite⟩
    exact ⟨⟨text, hyields⟩, hnul, Files.write_ok_iff.mp ⟨files', hwrite⟩⟩
  · rintro ⟨⟨text, hyields⟩, hnul, hopen⟩
    obtain ⟨files', hwrite⟩ := Files.write_ok_iff.mpr hopen
    exact ⟨"", files', rfl, hnul, text, hyields, hwrite⟩

/-- **Trees that are written back.** The run ends well exactly if, on the files as they are when it begins, the
inputs can be read, what they hold gives trees, one after the other in a session of its own, the last tree has
a source that is a string, and the output can be opened. Any source will do if nothing ends the run that nobody
provides for. If the run ends well it has written nothing to its streams, unless records are
shown; the output holds that source and nothing else, even if it is one of the inputs under another name or
the same one; and every other place is as it was. -/
theorem run_rewriting (m : Machine) (host : Host) (h : Rewrites call format out inputs) :
    let last := (m.run host call).2
    ((m.run host call).1 = .exit 0 ↔
        (∃ text : String, Yields m.files format inputs text) ∧ Openable m.files out) ∧
      ((∀ cause, (m.run host call).1 ≠ .escaped cause) → ((m.run host call).1 = .exit 0 ↔
        (∃ text, Yields m.files format inputs text) ∧ Openable m.files out)) ∧
      ∀ text : String, Yields m.files format inputs text → Openable m.files out →
        last.lastStreams.stdout = "" ∧
        (recordLevel < (Settings.ofEnvironment call.environment).level → last.lastStreams.stderr = "") ∧
        last.files.read out.text = .ok (Text.Utf8.encode text) ∧
        Files.SameOutside (· = m.files.target out.text) m.files last.files := by
  intro last
  have hbegun := m.unfiled_beginRun (Settings.ofEnvironment call.environment).level
  have hsucceeds := (h.succeedsAs host).iff hbegun
  have hexit : (m.run host call).1 = .exit 0 ↔
      (∃ text : String, Yields m.files format inputs text) ∧ Openable m.files out := by
    rw [Run.exit_zero_iff, ← exists_rewritten_iff]
    exact exists_congr fun output => ⟨fun hok => ⟨_, (hsucceeds output _).mpr ⟨hok, rfl⟩⟩,
      fun ⟨files', hrewritten⟩ => ((hsucceeds output files').mp hrewritten).1⟩
  refine ⟨hexit, ?_, ?_⟩
  · intro hends
    rw [hexit]
    refine and_congr_left fun hopen => ⟨fun ⟨text, hyields⟩ => ⟨text, hyields⟩, ?_⟩
    rintro ⟨text, hyields⟩
    cases htext : Text.encodable text with
    | ok s =>
      rw [Text.encodable_eq_ok_iff.mp htext] at hyields
      exact ⟨s, hyields⟩
    | error cause => exact absurd (h.escapes host hyields hopen htext) (hends _)
  · intro text hyields hopen
    obtain ⟨files', hwrite⟩ := Files.write_ok_iff.mpr hopen.2
    obtain ⟨hok, hfiles⟩ := (hsucceeds "" files').mp ⟨rfl, hopen.1, text, hyields, hwrite⟩
    have hunfiled := (h.succeedsAs host).unfiled hbegun
    rcases hbody : (Run.body host call (Settings.ofEnvironment call.environment)).run.run
      (m.beginRun (Settings.ofEnvironment call.environment).level) with ⟨result, here⟩
    rw [hbody] at hok hfiles hunfiled
    obtain rfl : result = .ok "" := hok
    obtain rfl : here.files = files' := hfiles
    obtain ⟨hstdout, hstderr⟩ := Run.streams_of_ok hbody
    obtain ⟨hread, hsame⟩ := Files.write_ok hwrite
    have hlast : last.files = here.files := (Run.run_of_body hbody hunfiled).2
    exact ⟨hstdout, hstderr, hlast ▸ hread, hlast ▸ hsame⟩

end

/-- The output is both inputs as well, under three spellings. It is read before it is written: what stands
there in the end is the source of the comma that stood there as a payload. -/
theorem run_rewriting_alias :
    let comma : Token := ⟨"comma", ",", [], [], .present, some 1⟩
    let payload := (Outline.token comma).encode .json
    let m : Machine := .fresh ⟨["home"], [(["home"], .directory), (["home", "a"], .file payload false),
      (["b"], .file payload false)]⟩
    let call : Call := ⟨["-out", "../home/a", "-pre-edit-tree", "a", "-deserialize-incremental",
      "-incr-tree", "/home/a"], []⟩
    let host : Host := ⟨fun _ => none, ""⟩
    let last := (m.run host call).2
    Rewrites call .json (.ofString "../home/a") [.ofString "a", .ofString "/home/a"] ∧
      (m.run host call).1 = .exit 0 ∧ last.lastStreams.stdout = "" ∧ last.lastStreams.stderr = "" ∧
      last.files.read "../home/a" = .ok (Text.Utf8.encode ",") ∧
      last.files.entryAt ["b"] = some (.file payload false) := by
  intro comma payload m call host last
  have hrewrites : Rewrites call .json (.ofString "../home/a") [.ofString "a", .ofString "/home/a"] :=
    .incremental ⟨rfl, rfl, rfl⟩ ⟨rfl, rfl, rfl⟩ rfl
  have hcomma : (Outline.token comma).Faithful := ⟨hasWordId 1 (by decide), rfl, rfl, nofun, nofun⟩
  have hread : Outline.read .json payload = .ok (.token comma) :=
    Outline.read_encode_json hcomma (by decide)
  have hfirst := Session.deserialize_of_take (s := Session.empty) (t := .token 0 comma) hread rfl nofun
  have hsecond := Session.deserialize_of_take (s := ⟨[(1, .token 0 comma)], 1⟩) (t := .token 1 comma) hread rfl
    nofun
  have hyields : Yields m.files .json [.ofString "a", .ofString "/home/a"] "," :=
    yields_two_iff.mpr ⟨payload, payload, _, _, _, _, ⟨rfl, rfl⟩, ⟨rfl, rfl⟩, hfirst, hsecond, rfl⟩
  have hopen : Openable m.files (.ofString "../home/a") := ⟨rfl, _, rfl⟩
  obtain ⟨hexit, -, hlast⟩ := run_rewriting m host hrewrites
  obtain ⟨hstdout, hstderr, hcontents, hsame⟩ := hlast "," hyields hopen
  refine ⟨hrewrites, hexit.mpr ⟨⟨",", hyields⟩, hopen⟩, hstdout, hstderr (by decide), hcontents, ?_⟩
  exact hsame.entries ["b"] (by decide)

end SourceTree.Command
