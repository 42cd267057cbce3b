import Mathlib.Data.List.Forall2
import SourceTree.Proofs.Session.Runs

/-!
# Sessions that match

Two sessions that hold related nodes under certain ids make the same of every payload that refers to no
other ids: the trees are related in the same way, or the faults are equal. They go on to hold related
nodes under those ids, so that this is so of any number of calls. The relation can be any that goes from
what is in the slots to the nodes; one of them relates trees that match up to the serial numbers of tokens.
-/
namespace SourceTree

/-- Both are the same fault, or both are results and these are related. -/
inductive SameOutcome {α : Type} (related : α → α → Prop) : Except Fault α → Except Fault α → Prop
  | ok {a b : α} (h : related a b) : SameOutcome related (.ok a) (.ok b)
  | error (cause : Fault) : SameOutcome related (.error cause) (.error cause)

/-- The relation goes from what is in the slots to the nodes, and relates an empty slot to nothing else. -/
structure Tree.Congruence (related : Tree → Tree → Prop) : Prop where
  absent : related .absent .absent
  node : ∀ (kind : String) (presence : Presence) (id : Option Int) {ts us : List Tree},
    List.Forall₂ related ts us → related (.node kind presence id ts) (.node kind presence id us)
  absent_iff : ∀ {t u : Tree}, related t u → (t = .absent ↔ u = .absent)

namespace Session

/-- What the sessions hold under certain ids is related, and so are the tokens that they number next. -/
structure RelatedOn (related : Tree → Tree → Prop) (ids : Int → Prop) (s s' : Session) : Prop where
  tokens : ∀ (k : Nat) (t : Token), related (.token (s.nextSerial + k) t) (.token (s'.nextSerial + k) t)
  held : ∀ id, ids id → Option.Rel related (s.store.find? id) (s'.store.find? id)

/-- The payload, if it can be read, refers to no other ids. -/
def Call.RefersWithin (c : Call) (ids : Int → Prop) : Prop :=
  ∀ root, c.read = .ok root → ∀ id ∈ root.references, ids id

namespace RelatedOn

variable {related : Tree → Tree → Prop} {ids : Int → Prop} {s s' : Session}

theorem remember (h : RelatedOn related ids s s') (id : Option Int) {t u : Tree} (ht : related t u) :
    RelatedOn related ids (s.remember id t) (s'.remember id u) := by
  refine ⟨h.tokens, ?_⟩
  intro other hother
  change Option.Rel _ ((s.store.remember id t).find? other) ((s'.store.remember id u).find? other)
  rw [Store.find?_remember, Store.find?_remember]
  split
  · exact .some ht
  · exact h.held other hother

theorem takeToken (h : RelatedOn related ids s s') (t : Token) :
    related (s.takeToken t).1 (s'.takeToken t).1 ∧
      RelatedOn related ids (s.takeToken t).2 (s'.takeToken t).2 := by
  have htoken : related (.token s.nextSerial t) (.token s'.nextSerial t) := h.tokens 0 t
  refine ⟨htoken, ?_, (h.remember t.id htoken).held⟩
  intro k other
  have hlater := h.tokens (1 + k) other
  rwa [← Nat.add_assoc, ← Nat.add_assoc] at hlater

mutual

/-- An outline that refers to no other ids is taken in alike. -/
theorem take (hrelated : Tree.Congruence related) : ∀ (o : Outline) {s s' : Session},
    RelatedOn related ids s s' → (∀ id ∈ o.references, ids id) →
    SameOutcome related (s.take o).1 (s'.take o).1 ∧ RelatedOn related ids (s.take o).2 (s'.take o).2
  | .absent, _, _, h, _ => ⟨.ok hrelated.absent, h⟩
  | .fault cause, _, _, h, _ => ⟨.error cause, h⟩
  | .reference id, s, s', h, hrefs => by
    have hheld := h.held id (hrefs id (List.mem_singleton_self id))
    rw [Session.take, Session.take]
    generalize s.store.find? id = found at hheld
    generalize s'.store.find? id = found' at hheld
    cases hheld with
    | some ht => exact ⟨.ok ht, h⟩
    | none => exact ⟨.error _, h⟩
  | .token t, _, _, h, _ => by
    obtain ⟨ht, hafter⟩ := h.takeToken t
    exact ⟨.ok ht, hafter⟩
  | .node kind presence id slots, s, s', h, hrefs => by
    obtain ⟨houtcome, hafter⟩ := takeAll hrelated slots h hrefs
    rw [Session.take, Session.take]
    rcases hall : s.takeAll slots with ⟨outcome, mid⟩
    rcases hall' : s'.takeAll slots with ⟨outcome', mid'⟩
    rw [hall, hall'] at houtcome hafter
    cases houtcome with
    | error cause => exact ⟨.error cause, hafter⟩
    | ok hlayout =>
      have hnode := hrelated.node kind presence id hlayout
      exact ⟨.ok hnode, hafter.remember id hnode⟩

theorem takeAll (hrelated : Tree.Congruence related) : ∀ (slots : List Outline) {s s' : Session},
    RelatedOn related ids s s' → (∀ id ∈ Outline.referencesOfAll slots, ids id) →
    SameOutcome (List.Forall₂ related) (s.takeAll slots).1 (s'.takeAll slots).1 ∧
      RelatedOn related ids (s.takeAll slots).2 (s'.takeAll slots).2
  | [], _, _, h, _ => ⟨.ok .nil, h⟩
  | slot :: rest, s, s', h, hrefs => by
    obtain ⟨hfirst, hmid⟩ := take hrelated slot h fun id hid =>
      hrefs id (List.mem_append_left _ hid)
    rw [Session.takeAll, Session.takeAll]
    rcases hslot : s.take slot with ⟨outcome, mid⟩
    rcases hslot' : s'.take slot with ⟨outcome', mid'⟩
    rw [hslot, hslot'] at hfirst hmid
    cases hfirst with
    | error cause => exact ⟨.error cause, hmid⟩
    | ok ht =>
      obtain ⟨hmore, hlast⟩ := takeAll hrelated rest hmid fun id hid =>
        hrefs id (List.mem_append_right _ hid)
      rcases hrest : mid.takeAll rest with ⟨outcomes, last⟩
      rcases hrest' : mid'.takeAll rest with ⟨outcomes', last'⟩
      simp only [hrest, hrest'] at hmore hlast ⊢
      cases hmore with
      | error cause => exact ⟨.error cause, hlast⟩
      | ok htrees => exact ⟨.ok (.cons ht htrees), hlast⟩

end

/-! ### Calls and runs -/

theorem takeRoot (hrelated : Tree.Congruence related) {root : Outline}
    (h : RelatedOn related ids s s') (hrefs : ∀ id ∈ root.references, ids id) :
    SameOutcome related (s.takeRoot root).1 (s'.takeRoot root).1 ∧
      RelatedOn related ids (s.takeRoot root).2 (s'.takeRoot root).2 := by
  obtain ⟨houtcome, hafter⟩ := take hrelated root h hrefs
  rcases htake : s.take root with ⟨outcome, last⟩
  rcases htake' : s'.take root with ⟨outcome', last'⟩
  rw [htake, htake'] at houtcome hafter
  cases houtcome with
  | error cause =>
    rw [takeRoot_error htake, takeRoot_error htake']
    exact ⟨.error cause, hafter⟩
  | @ok t u ht =>
    -- either both roots are empty, and both calls fail, or neither is
    by_cases habsent : t = .absent
    · obtain rfl : u = .absent := (hrelated.absent_iff ht).mp habsent
      subst habsent
      rw [takeRoot_absent htake, takeRoot_absent htake']
      exact ⟨.error .noRoot, hafter⟩
    · have hother : u ≠ .absent := fun hu => habsent ((hrelated.absent_iff ht).mpr hu)
      rw [takeRoot_ok htake habsent, takeRoot_ok htake' hother]
      exact ⟨.ok ht, hafter⟩

/-- A call whose payload refers to no other ids gives the same in either session. -/
theorem deserialize (hrelated : Tree.Congruence related) {c : Call} (h : RelatedOn related ids s s')
    (hrefs : c.RefersWithin ids) :
    SameOutcome related (s.deserialize c.format c.payload).1 (s'.deserialize c.format c.payload).1 ∧
      RelatedOn related ids (s.deserialize c.format c.payload).2
        (s'.deserialize c.format c.payload).2 := by
  rw [Session.deserialize, Session.deserialize]
  cases hread : Outline.read c.format c.payload with
  | error cause => exact ⟨.error cause, h⟩
  | ok root => exact takeRoot hrelated h (hrefs root hread)

theorem deserializeAll (hrelated : Tree.Congruence related) {calls : List Call}
    (hrefs : ∀ c ∈ calls, c.RefersWithin ids) : ∀ {s s' : Session}, RelatedOn related ids s s' →
    List.Forall₂ (SameOutcome related) (s.deserializeAll calls).1 (s'.deserializeAll calls).1 ∧
      RelatedOn related ids (s.deserializeAll calls).2 (s'.deserializeAll calls).2 := by
  induction calls with
  | nil => exact fun h => ⟨.nil, h⟩
  | cons c calls ih =>
    intro s s' h
    obtain ⟨houtcome, hmid⟩ := deserialize hrelated h (hrefs c List.mem_cons_self)
    obtain ⟨hrest, hlast⟩ := ih (fun other hmem => hrefs other (List.mem_cons_of_mem c hmem)) hmid
    rw [deserializeAll_cons, deserializeAll_cons]
    exact ⟨.cons houtcome hrest, hlast⟩

end RelatedOn
end Session

/-! ### Trees that match -/

mutual

/-- The trees differ in nothing but serial numbers, and those are related. -/
inductive Tree.MatchedBy (r : Nat → Nat → Prop) : Tree → Tree → Prop
  | absent : MatchedBy r .absent .absent
  | token {m n : Nat} (hserial : r m n) (t : Token) : MatchedBy r (.token m t) (.token n t)
  | node (kind : String) (presence : Presence) (id : Option Int) {ts us : List Tree}
      (hlayout : AllMatchedBy r ts us) :
      MatchedBy r (.node kind presence id ts) (.node kind presence id us)

inductive Tree.AllMatchedBy (r : Nat → Nat → Prop) : List Tree → List Tree → Prop
  | nil : AllMatchedBy r [] []
  | cons {t u : Tree} {ts us : List Tree} (hfirst : MatchedBy r t u) (hrest : AllMatchedBy r ts us) :
      AllMatchedBy r (t :: ts) (u :: us)

end

namespace Tree

variable {r : Nat → Nat → Prop}

mutual

theorem MatchedBy.refl (hr : ∀ n, r n n) : ∀ t : Tree, t.MatchedBy r t
  | .absent => .absent
  | .token serial t => .token (hr serial) t
  | .node kind presence id layout => .node kind presence id (AllMatchedBy.refl hr layout)

theorem AllMatchedBy.refl (hr : ∀ n, r n n) : ∀ ts : List Tree, AllMatchedBy r ts ts
  | [] => .nil
  | t :: ts => .cons (MatchedBy.refl hr t) (AllMatchedBy.refl hr ts)

end

theorem AllMatchedBy.of_forall₂ {ts us : List Tree} (h : List.Forall₂ (MatchedBy r) ts us) :
    AllMatchedBy r ts us := by
  induction h with
  | nil => exact .nil
  | cons hfirst _ ih => exact .cons hfirst ih

theorem MatchedBy.congruence (r : Nat → Nat → Prop) : Congruence (MatchedBy r) where
  absent := .absent
  node kind presence id _ _ h := .node kind presence id (.of_forall₂ h)
  absent_iff h := by cases h <;> simp

end Tree

namespace Session

/-- The sessions hold the same under certain ids, and number the next tokens alike, up to related serial
numbers. -/
structure MatchedOn (r : Nat → Nat → Prop) (ids : Int → Prop) (s s' : Session) : Prop where
  serials : ∀ k, r (s.nextSerial + k) (s'.nextSerial + k)
  held : ∀ id, ids id → Option.Rel (Tree.MatchedBy r) (s.store.find? id) (s'.store.find? id)

theorem MatchedOn.related {r : Nat → Nat → Prop} {ids : Int → Prop} {s s' : Session}
    (h : MatchedOn r ids s s') : RelatedOn (Tree.MatchedBy r) ids s s' :=
  ⟨fun k t => .token (h.serials k) t, h.held⟩

theorem MatchedOn.deserializeAll {r : Nat → Nat → Prop} {ids : Int → Prop} {s s' : Session}
    {calls : List Call} (hrefs : ∀ c ∈ calls, c.RefersWithin ids) (h : MatchedOn r ids s s') :
    List.Forall₂ (SameOutcome (Tree.MatchedBy r)) (s.deserializeAll calls).1
        (s'.deserializeAll calls).1 ∧
      RelatedOn (Tree.MatchedBy r) ids (s.deserializeAll calls).2 (s'.deserializeAll calls).2 :=
  RelatedOn.deserializeAll (Tree.MatchedBy.congruence r) hrefs h.related

end Session
end SourceTree
