import SourceTree.Proofs.Outline.Sound
import SourceTree.Proofs.Session.Closure

/-!
# What trees inherit

A session makes its trees of what payloads say and of trees that it made before. So a property that
goes from what is in the slots to the nodes holds of every tree that a session holds or hands out, in any
mix of formats and calls that fail, if the payloads give the tokens and nodes that have it. The property
may depend on how many serial numbers have been given out, as long as giving out more does no harm.
-/
namespace SourceTree.Session

/-! ### Serial numbers that are given out -/

mutual

theorem nextSerial_le_take : ∀ (o : Outline) (s : Session), s.nextSerial ≤ (s.take o).2.nextSerial
  | .absent, s => Nat.le_refl _
  | .fault _, s => Nat.le_refl _
  | .reference id, s => by
    rw [take]
    split <;> exact Nat.le_refl _
  | .token _, s => Nat.le_succ _
  | .node kind presence id slots, s => by
    have hslots := nextSerial_le_takeAll slots s
    rw [take]
    rcases hall : s.takeAll slots with ⟨cause | layout, mid⟩
    · rw [hall] at hslots
      exact hslots
    · rw [hall] at hslots
      exact hslots

theorem nextSerial_le_takeAll : ∀ (slots : List Outline) (s : Session),
    s.nextSerial ≤ (s.takeAll slots).2.nextSerial
  | [], s => Nat.le_refl _
  | slot :: rest, s => by
    have hfirst := nextSerial_le_take slot s
    rw [takeAll]
    rcases hslot : s.take slot with ⟨cause | tree, mid⟩
    · rw [hslot] at hfirst
      exact hfirst
    · rw [hslot] at hfirst
      have hmore := nextSerial_le_takeAll rest mid
      rcases hrest : mid.takeAll rest with ⟨cause | more, last⟩
      · simp only [hrest] at hmore ⊢
        exact Nat.le_trans hfirst hmore
      · simp only [hrest] at hmore ⊢
        exact Nat.le_trans hfirst hmore

end

theorem nextSerial_le_deserialize (s : Session) (format : Format) (payload : List UInt8) :
    s.nextSerial ≤ (s.deserialize format payload).2.nextSerial := by
  rcases deserialize_snd s format payload with hsame | ⟨root, -, htaken⟩
  · rw [hsame]
  · rw [htaken]
    exact nextSerial_le_take root s

theorem nextSerial_le_deserializeAll (s : Session) (calls : List Call) :
    s.nextSerial ≤ (s.deserializeAll calls).2.nextSerial := by
  have hcall : ∀ (s' : Session) (format : Format) (payload : List UInt8),
      s.nextSerial ≤ s'.nextSerial → s.nextSerial ≤ (s'.deserialize format payload).2.nextSerial :=
    fun s' format payload h => Nat.le_trans h (nextSerial_le_deserialize s' format payload)
  exact deserializeAll_keeps hcall calls (Nat.le_refl _)

/-! ### Properties that are inherited -/

/-- A tree has the property, once serial numbers below the given one are given out, if what is in its
slots has it, and an outline that fits gives a token or a node of that kind. -/
structure Inherited (Has : Nat → Tree → Prop) (Fits : Outline → Prop) : Prop where
  absent : ∀ n, Has n .absent
  token : ∀ {n : Nat} {t : Token}, Fits (.token t) → Has (n + 1) (.token n t)
  node : ∀ {n : Nat} {kind : String} {presence : Presence} {id : Option Int} {slots : List Outline}
    {layout : List Tree}, Fits (.node kind presence id slots) → (∀ t ∈ layout, Has n t) →
    Has n (.node kind presence id layout)
  slots : ∀ {kind : String} {presence : Presence} {id : Option Int} {slots : List Outline},
    Fits (.node kind presence id slots) → ∀ slot ∈ slots, Fits slot
  later : ∀ {m n : Nat} {t : Tree}, m ≤ n → Has m t → Has n t

/-- Every tree that the session holds has the property. -/
def AllHave (s : Session) (Has : Nat → Tree → Prop) : Prop :=
  ∀ id t, s.store.find? id = some t → Has s.nextSerial t

variable {Has : Nat → Tree → Prop} {Fits : Outline → Prop} {s : Session}

theorem AllHave.remember (h : s.AllHave Has) (id : Option Int) {tree : Tree}
    (htree : Has s.nextSerial tree) : (s.remember id tree).AllHave Has := by
  intro other t ht
  change (s.store.remember id tree).find? other = some t at ht
  rw [Store.find?_remember] at ht
  split at ht
  · obtain rfl := Option.some.inj ht
    exact htree
  · exact h other t ht

theorem AllHave.skip (h : s.AllHave Has) (hlater : ∀ {m n : Nat} {t : Tree}, m ≤ n → Has m t → Has n t)
    {n : Nat} (hn : s.nextSerial ≤ n) : AllHave ⟨s.store, n⟩ Has :=
  fun id t ht => hlater hn (h id t ht)

namespace Inherited

variable (h : Inherited Has Fits)

include h

mutual

/-- What a session takes in keeps the property of what it holds, whatever the outcome, and gives it to
the tree. -/
theorem take : ∀ {o : Outline} {s : Session}, Fits o → s.AllHave Has →
    (s.take o).2.AllHave Has ∧ ∀ t, (s.take o).1 = .ok t → Has (s.take o).2.nextSerial t
  | .absent, s, _, hs => by
    refine ⟨hs, ?_⟩
    intro t ht
    obtain rfl := Except.ok.inj ht
    exact h.absent _
  | .fault cause, s, _, hs => ⟨hs, fun t ht => nomatch ht⟩
  | .reference id, s, _, hs => by
    rw [Session.take]
    cases hfound : s.store.find? id with
    | none => exact ⟨hs, fun t ht => nomatch ht⟩
    | some held =>
      refine ⟨hs, ?_⟩
      intro t ht
      obtain rfl := Except.ok.inj ht
      exact hs id _ hfound
  | .token t, s, hfits, hs => by
    have htoken : Has (s.nextSerial + 1) (.token s.nextSerial t) := h.token hfits
    refine ⟨(hs.skip h.later (Nat.le_succ _)).remember t.id htoken, ?_⟩
    intro tree htree
    obtain rfl := Except.ok.inj htree
    exact htoken
  | .node kind presence id slots, s, hfits, hs => by
    obtain ⟨hmid, hlayout⟩ := takeAll (h.slots hfits) hs
    rw [Session.take]
    rcases hall : s.takeAll slots with ⟨cause | layout, mid⟩
    · rw [hall] at hmid
      exact ⟨hmid, fun t ht => nomatch ht⟩
    · rw [hall] at hmid hlayout
      have hnode : Has mid.nextSerial (.node kind presence id layout) := h.node hfits (hlayout layout rfl)
      refine ⟨hmid.remember id hnode, ?_⟩
      intro t ht
      obtain rfl := Except.ok.inj ht
      exact hnode

theorem takeAll : ∀ {slots : List Outline} {s : Session}, (∀ slot ∈ slots, Fits slot) → s.AllHave Has →
    (s.takeAll slots).2.AllHave Has ∧
      ∀ trees, (s.takeAll slots).1 = .ok trees → ∀ t ∈ trees, Has (s.takeAll slots).2.nextSerial t
  | [], s, _, hs => by
    refine ⟨hs, ?_⟩
    intro trees htrees
    obtain rfl := Except.ok.inj htrees
    simp
  | slot :: rest, s, hfits, hs => by
    obtain ⟨hmid, htree⟩ := take (hfits slot List.mem_cons_self) hs
    rw [Session.takeAll]
    rcases hslot : s.take slot with ⟨cause | tree, mid⟩
    · rw [hslot] at hmid
      exact ⟨hmid, fun trees htrees => nomatch htrees⟩
    · rw [hslot] at hmid htree
      obtain ⟨hlast, hmore⟩ := takeAll (fun o ho => hfits o (List.mem_cons_of_mem _ ho)) hmid
      have hle := nextSerial_le_takeAll rest mid
      rcases hrest : mid.takeAll rest with ⟨cause | more, last⟩
      · simp only [hrest] at hlast ⊢
        exact ⟨hlast, fun trees htrees => nomatch htrees⟩
      · simp only [hrest] at hlast hmore hle ⊢
        refine ⟨hlast, ?_⟩
        intro trees htrees t ht
        obtain rfl := Except.ok.inj htrees
        rcases List.mem_cons.mp ht with rfl | ht
        · exact h.later hle (htree _ rfl)
        · exact hmore more rfl t ht

end

variable (hread : ∀ {format : Format} {payload : List UInt8} {root : Outline},
  Outline.read format payload = .ok root → Fits root)

include hread

theorem deserialize (hs : s.AllHave Has) (format : Format) (payload : List UInt8) :
    (s.deserialize format payload).2.AllHave Has ∧ ∀ t, (s.deserialize format payload).1 = .ok t →
      Has (s.deserialize format payload).2.nextSerial t := by
  constructor
  · rcases deserialize_snd s format payload with hsame | ⟨root, hroot, htaken⟩
    · rw [hsame]
      exact hs
    · rw [htaken]
      exact (h.take (hread hroot) hs).1
  · intro t ht
    obtain ⟨root, hroot, htake⟩ := exists_take_of_deserialize (Prod.ext ht rfl)
    have htree := (h.take (hread hroot) hs).2 t (congrArg Prod.fst htake)
    rwa [htake] at htree

theorem allHave_deserializeAll (calls : List Call) : (empty.deserializeAll calls).2.AllHave Has := by
  have hcall : ∀ (s : Session) (format : Format) (payload : List UInt8), s.AllHave Has →
      (s.deserialize format payload).2.AllHave Has :=
    fun _ format payload hs => (h.deserialize hread hs format payload).1
  have hempty : empty.AllHave Has := fun _ _ ht => nomatch ht
  exact deserializeAll_keeps hcall calls hempty

/-- Every tree that some call of a run hands out has the property when that call is done. -/
theorem of_mem_deserializeAll {calls : List Call} {t : Tree}
    (ht : .ok t ∈ (empty.deserializeAll calls).1) : ∃ n, Has n t := by
  obtain ⟨front, c, back, -, hc⟩ := exists_call_of_ok ht
  exact ⟨_, (h.deserialize hread (h.allHave_deserializeAll hread front) c.format c.payload).2 t hc⟩

end Inherited

/-! ### Sound trees -/

theorem inherited_sound : Inherited (fun _ t => (Outline.ofTree t).Sound) Outline.Sound where
  absent _ := trivial
  token h := h
  node h hlayout := ⟨h.1, h.2.1, Outline.allSound_ofTrees_iff.mpr hlayout⟩
  slots h _ hslot := Outline.allSound_iff.mp h.2.2 _ hslot
  later _ h := h

/-- What a session hands out can be said in a payload. -/
theorem sound_of_deserializeAll {calls : List Call} {t : Tree}
    (ht : .ok t ∈ (empty.deserializeAll calls).1) : (Outline.ofTree t).Sound := by
  obtain ⟨-, hsound⟩ := inherited_sound.of_mem_deserializeAll Outline.sound_of_read ht
  exact hsound

end SourceTree.Session
