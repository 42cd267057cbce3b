import SourceTree.Proofs.Command.Steps
import SourceTree.Proofs.Json.Document
import SourceTree.Proofs.Outline.Faults
import SourceTree.Proofs.Session.Failing

/-!
# Payloads that a run reads

Whatever is wrong with a payload, the run that reads it reports the fault and ends with status one,
unless the payload overtaxes the reader. In that case nobody is ready for the fault, and it ends the run
without a report.
-/
namespace SourceTree

open Outline (Overtaxes)

namespace Session

/-- A call gives a tree, or it fails; and the fault is one that is not expected exactly if the payload
overtaxes the reader with it. -/
theorem deserialize_unexpected_iff {s : Session} {format : Format} {payload : List UInt8} {cause : Fault}
    (h : (s.deserialize format payload).1 = .error cause) :
    cause.isExpected = false ↔ Overtaxes format payload cause := by
  refine ⟨?_, Overtaxes.unexpected⟩
  intro hunexpected
  have hplain : cause.IsPlain → Overtaxes format payload cause := by
    intro hplain
    rw [hplain.expected] at hunexpected
    nomatch hunexpected
  rcases cause_of_deserialize_error h with hread | rfl | ⟨root, hread, hfault | ⟨id, -, rfl, -⟩⟩
  · exact (Outline.read_error hread).elim hplain id
  · nomatch hunexpected
  · exact (Outline.mem_faults_of_read hread hfault).elim hplain id
  · nomatch hunexpected

end Session

namespace Command
namespace Run

/-! ### Steps that a run comes to -/

/-- A run that begins on a machine comes to a step of it, on the machine `here`. -/
inductive Reaches {β : Type} (step : Run β) (here : Machine) : {α : Type} → Run α → Machine → Prop
  | self : Reaches step here step here
  | first {α γ : Type} {x : Run α} {m : Machine} (h : Reaches step here x m) (f : α → Run γ) :
      Reaches step here (x >>= f) m
  | next {α γ : Type} {x : Run α} {f : α → Run γ} {m m' : Machine} {a : α}
      (hx : x.run.run m = (.ok a, m')) (h : Reaches step here (f a) m') : Reaches step here (x >>= f) m

section

variable {β : Type} {step : Run β} {here m last : Machine}

/-- A run that comes to a step that stops, stops there. -/
theorem Reaches.stops {α : Type} {x : Run α} (h : Reaches step here x m) {stop : Stop}
    (hstep : step.run.run here = (.error stop, last)) : x.run.run m = (.error stop, last) := by
  induction h with
  | self => exact hstep
  | first h f ih => rw [run_bind, ih]
  | next hx h ih =>
    rw [run_bind, hx]
    exact ih

theorem Reaches.ofExcept {α γ : Type} {x : Except Failure α} {a : α} {f : α → Run γ} (hx : x = .ok a)
    (h : Reaches step here (f a) m) : Reaches step here (ofExcept x >>= f) m := by
  subst hx
  exact .next rfl h

end

/-! ### Where a payload is read -/

section

variable {host : Host} {flags : Flags} {m m₁ m₂ m₃ : Machine} {format : Format} {tree out : Path}
  {payload : Bytes}

theorem reaches_deserialize (htree : flags.requirePath Flag.preEditTree = .ok tree)
    (hout : flags.requirePath Flag.out = .ok out) (hformat : flags.format = .ok format)
    (hfile : (readFile host tree).run.run m = (.ok payload, m₁)) :
    Reaches (readPayload host Fault.message .empty format payload) m₁ (deserialize host flags) m :=
  .ofExcept htree (.ofExcept hout (.ofExcept hformat (.next hfile (.first .self _))))

variable {searchPath : SearchPath} {source : Path}

/-- What the compiler is run for comes to everything that the compiler's run comes to. -/
theorem reaches_of_compile {β : Type} {step : Run β} {here : Machine}
    (hsource : flags.requirePath Flag.sourceFile = .ok source)
    (hreadable : (ensureReadable source).run.run m = (.ok (), m₁))
    (h : Reaches step here (compile host searchPath (flags.path? Flag.swiftc) source) m₁) :
    Reaches step here (classifySyntax host searchPath flags) m ∧
      Reaches step here (printStructure host searchPath flags) m :=
  ⟨.ofExcept hsource (.next hreadable (.first h _)), .ofExcept hsource (.next hreadable (.first h _))⟩

/-- A run comes to everything that its action comes to. -/
theorem reaches_body {call : Call} {settings : Settings} {action : Action} {β : Type} {step : Run β}
    {here : Machine}
    (hopen : ∀ path, settings.logFile = some path → (openLog path).run.run m = (.ok (), m₁))
    (hclosed : settings.logFile = none → m = m₁) (hflags : Flags.parse call.arguments = .ok flags)
    (haction : Action.select flags = .ok action)
    (hlog : (log host actionSource ("Running action " ++ action.flag)).run.run m₁ = (.ok (), m₂))
    (h : Reaches step here (act host call.searchPath flags action) m₂) :
    Reaches step here (body host call settings) m := by
  unfold body
  cases hfile : settings.logFile with
  | some path => exact .next (hopen path hfile) (.ofExcept hflags (.ofExcept haction (.next hlog h)))
  | none =>
    rw [hclosed hfile]
    exact .ofExcept hflags (.ofExcept haction (.next hlog h))

end

/-! ### What becomes of the run -/

theorem run_readPayload_error {s : Session} {format : Format} {payload : Bytes} {cause : Fault}
    (h : (s.deserialize format payload).1 = .error cause) (host : Host) (explain : Fault → Text)
    (m : Machine) :
    (readPayload host explain s format payload).run.run m =
      (.error (if cause.isExpected then .failure (.tooling (explain cause)) else .escape (.fault cause)),
        m) := by
  unfold readPayload
  rcases hcall : s.deserialize format payload with ⟨found | t, last⟩
  · rw [hcall] at h
    obtain rfl := Except.error.inj h
    change (ite _ _ _ : Run _).run.run m = _
    split <;> rfl
  · rw [hcall] at h
    nomatch h

end Run

open Run (Reaches readPayload body)

/-- **What becomes of payloads.** Whatever the session and the bytes are, a call gives a tree, or it fails
with what the reading is stuck at; and that is a fault that nobody provides for exactly if the payload
overtaxes the reader with it. A run that comes to such a call reports the fault and ends with status one;
only if the payload overtaxes the reader does the fault end the run as it is. -/
theorem deserialize_reported (s : Session) (format : Format) (payload : Bytes) :
    (∃ t, (s.deserialize format payload).1 = .ok t ∧
      ∀ cause before, ¬ s.FailsAfter format payload cause before) ∨
      ∃ cause before, (s.deserialize format payload).1 = .error cause ∧
        s.FailsAfter format payload cause before ∧
        (cause.isExpected = false ↔ Overtaxes format payload cause) ∧
        ∀ (m : Machine) host (call : Call) explain here,
          let settings : Settings := Settings.ofEnvironment call.environment
          Reaches (readPayload host explain s format payload) here (body host call settings)
            (m.beginRun settings.level) →
          (¬ Overtaxes format payload cause →
            m.run host call = (.exit 1, here.report host (.tooling (explain cause)))) ∧
          (Overtaxes format payload cause → m.run host call = (.escaped (.fault cause), here)) := by
  cases hcall : (s.deserialize format payload).1 with
  | ok t =>
    refine .inl ⟨t, rfl, ?_⟩
    intro cause before hfails
    have herror := Session.deserialize_error_iff.mpr ⟨before, hfails⟩
    rw [hcall] at herror
    cases herror
  | error cause =>
    obtain ⟨before, hfails⟩ := Session.deserialize_error_iff.mp hcall
    have hunexpected := Session.deserialize_unexpected_iff hcall
    refine .inr ⟨cause, before, rfl, hfails, hunexpected, ?_⟩
    intro m host call explain here settings hreaches
    have hstop := hreaches.stops (Run.run_readPayload_error hcall host explain here)
    constructor
    · intro hordinary
      have hexpected : cause.isExpected = true := by
        rw [← Bool.not_eq_false, hunexpected]
        exact hordinary
      rw [hexpected] at hstop
      rw [Machine.run, hstop]
      rfl
    · intro hover
      rw [hunexpected.mpr hover] at hstop
      rw [Machine.run, hstop]
      rfl

/-- A file with a number in it is reported; one with a piece of trivia whose kind is an array is not. -/
theorem deserialize_reported_file :
    let number : Json := .int 7
    let piece : Json := .obj [("kind", .arr []), ("value", .int 1)]
    let comma : Json := .obj [("tokenKind", .obj [("kind", .str "comma")]), ("leadingTrivia", .arr [piece])]
    let machine (value : Json) : Machine := .fresh ⟨[], [(["tree"], .file (Json.encode value) false)]⟩
    let host : Host := ⟨fun _ => none, ""⟩
    let call : Call := ⟨["-deserialize", "-pre-edit-tree", "tree", "-out", "source"], []⟩
    (∃ here : Machine, (machine number).run host call =
      (.exit 1, here.report host (.tooling (Fault.notANode number).message))) ∧
      ∃ here, (machine comma).run host call =
        (.escaped (.fault (.compoundTriviaKind (.arr []))), here) := by
  intro number piece comma machine host call
  have hreaches : ∀ value, ∃ here, Reaches (readPayload host Fault.message .empty .json (Json.encode value))
      here (body host call (Settings.ofEnvironment call.environment))
      ((machine value).beginRun (Settings.ofEnvironment call.environment).level) := by
    intro value
    exact ⟨_, Run.reaches_body nofun (fun _ => rfl) rfl rfl rfl (Run.reaches_deserialize rfl rfl rfl rfl)⟩
  have hint : ∀ n : Nat, (Nat.toDigits 10 n).length ≤ 1 → (Json.int n).Plain :=
    fun n hdigits => Nat.le_trans hdigits (by decide)
  have hpiece : piece.Plain := ⟨by decide, trivial, hint 1 (by decide), trivial⟩
  have hnumber : (Session.empty.deserialize .json (Json.encode number)).1 = .error (.notANode number) := by
    have hwritable : number.Writable := ⟨hint 7 (by decide), by decide⟩
    rw [Session.deserialize, Outline.read, Json.read_encode hwritable]
    rfl
  have hcomma : (Session.empty.deserialize .json (Json.encode comma)).1 =
      .error (.compoundTriviaKind (.arr [])) := by
    have hwritable : comma.Writable :=
      ⟨⟨by decide, ⟨by decide, trivial, trivial⟩, ⟨hpiece, trivial⟩, trivial⟩, by decide⟩
    rw [Session.deserialize, Outline.read, Json.read_encode hwritable]
    rfl
  constructor
  · obtain ⟨here, h⟩ := hreaches number
    rcases deserialize_reported .empty .json (Json.encode number) with
      ⟨t, ht, -⟩ | ⟨cause, before, hcause, -, -, hruns⟩
    · rw [hnumber] at ht
      cases ht
    · obtain rfl := Except.error.inj (hnumber.symm.trans hcause)
      refine ⟨here, (hruns _ host call _ here h).1 ?_⟩
      intro hover
      cases hover.unexpected
  · obtain ⟨here, h⟩ := hreaches comma
    rcases deserialize_reported .empty .json (Json.encode comma) with
      ⟨t, ht, -⟩ | ⟨cause, before, hcause, -, hiff, hruns⟩
    · rw [hcomma] at ht
      cases ht
    · obtain rfl := Except.error.inj (hcomma.symm.trans hcause)
      exact ⟨here, (hruns _ host call _ here h).2 (hiff.mp rfl)⟩

end Command
end SourceTree
