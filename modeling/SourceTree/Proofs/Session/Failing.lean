import SourceTree.Proofs.Session.Resolution

/-!
# Calls that fail

A call fails because its bytes are no outline, because nothing stands at the root, or because the reading
comes to a place where it is stuck: a fault, or a reference for which nothing is held. What was completed
on the way to that place has been put into the store by then and stays there. Nothing else happens to
the store.
-/
namespace SourceTree.Session

/-! ### Where the reading is stuck -/

/-- What stands at a place keeps it from being read, with this cause. -/
def Stuck (here : Session) (cause : Fault) : Outline → Prop
  | .fault found => found = cause
  | .reference id => here.store.find? id = none ∧ cause = .unknownReference id
  | _ => False

theorem Stuck.ne_absent {here : Session} {cause : Fault} {o : Outline} (h : here.Stuck cause o) :
    o ≠ .absent := by
  rintro rfl
  exact h

theorem Stuck.take {here : Session} {cause : Fault} {o : Outline} (h : here.Stuck cause o) :
    here.take o = (.error cause, here) := by
  cases o with
  | fault found =>
    obtain rfl : found = cause := h
    rfl
  | reference id =>
    obtain ⟨hnone, rfl⟩ := h
    rw [Session.take, hnone]
  | absent => exact h.elim
  | token t => exact h.elim
  | node kind presence id slots => exact h.elim

theorem takeAll_cons_error {slot : Outline} {rest : List Outline} {s s' : Session} {cause : Fault}
    (h : s.takeAll (slot :: rest) = (.error cause, s')) :
    s.take slot = (.error cause, s') ∨
      ∃ tree mid, s.take slot = (.ok tree, mid) ∧ mid.takeAll rest = (.error cause, s') := by
  rw [takeAll] at h
  rcases hslot : s.take slot with ⟨cause' | tree, mid⟩
  · rw [hslot] at h
    obtain ⟨hcause, rfl⟩ := Prod.mk.inj h
    exact .inl (by rw [Except.error.inj hcause])
  · rcases hrest : mid.takeAll rest with ⟨cause' | trees, last⟩
    · simp only [hslot, hrest] at h
      exact .inr ⟨tree, mid, rfl, hrest.trans h⟩
    · simp only [hslot, hrest] at h
      nomatch h

theorem take_node_error {kind : String} {presence : Presence} {id : Option Int} {slots : List Outline}
    {s s' : Session} {cause : Fault} (h : s.take (.node kind presence id slots) = (.error cause, s')) :
    s.takeAll slots = (.error cause, s') := by
  rw [take] at h
  rcases hslots : s.takeAll slots with ⟨cause' | layout, mid⟩
  · rw [hslots] at h
    obtain ⟨hcause, rfl⟩ := Prod.mk.inj h
    rw [Except.error.inj hcause]
  · rw [hslots] at h
    nomatch h

mutual

/-- A reading that fails comes to a place where it is stuck, and leaves the session as it is there. -/
theorem stuck_of_take_error : ∀ {o : Outline} {s s' : Session} {cause : Fault},
    s.take o = (.error cause, s') →
    ∃ path before, s.reach o path = some (before, s') ∧ s'.Stuck cause (o.follow path)
  | .absent, _, _, _, h => nomatch h
  | .fault found, s, s', cause, h => by
    obtain ⟨hcause, rfl⟩ := Prod.mk.inj h
    exact ⟨[], [], rfl, Except.error.inj hcause⟩
  | .reference id, s, s', cause, h => by
    rw [take] at h
    cases hfound : s.store.find? id with
    | some held =>
      rw [hfound] at h
      nomatch h
    | none =>
      rw [hfound] at h
      obtain ⟨hcause, rfl⟩ := Prod.mk.inj h
      exact ⟨[], [], rfl, hfound, (Except.error.inj hcause).symm⟩
  | .token _, _, _, _, h => nomatch h
  | .node kind presence id slots, s, s', cause, h => by
    obtain ⟨slot, trees, mid, path, before, hfront, hreach, hstuck⟩ :=
      stuck_of_takeAll_error (take_node_error h)
    refine ⟨slot :: path, Outline.completionsOfAll (slots.take slot) trees ++ before, ?_, hstuck⟩
    rw [reach]
    simp only [Outline.slots, hfront]
    change (mid.reach ((slots[slot]?).getD .absent) path).map _ = _
    rw [hreach]
    rfl

/-- Of several slots, those before the one with the place have been taken in. -/
theorem stuck_of_takeAll_error : ∀ {slots : List Outline} {s s' : Session} {cause : Fault},
    s.takeAll slots = (.error cause, s') →
    ∃ slot trees mid path before, s.takeAll (slots.take slot) = (.ok trees, mid) ∧
      mid.reach ((slots[slot]?).getD .absent) path = some (before, s') ∧
      s'.Stuck cause (((slots[slot]?).getD .absent).follow path)
  | [], _, _, _, h => nomatch h
  | first :: rest, s, s', cause, h => by
    rcases takeAll_cons_error h with hfirst | ⟨tree, mid, hfirst, hrest⟩
    · obtain ⟨path, before, hreach, hstuck⟩ := stuck_of_take_error hfirst
      exact ⟨0, [], s, path, before, rfl, hreach, hstuck⟩
    · obtain ⟨slot, trees, here, path, before, hfront, hreach, hstuck⟩ := stuck_of_takeAll_error hrest
      refine ⟨slot + 1, tree :: trees, here, path, before, ?_, hreach, hstuck⟩
      rw [List.take_succ_cons, takeAll, hfirst]
      simp only [hfront]

end

theorem take_error_of_stuck {o : Outline} {s here : Session} {path : List Nat} {before : Completions}
    {cause : Fault} (hreach : s.reach o path = some (before, here))
    (hstuck : here.Stuck cause (o.follow path)) : (s.take o).1 = .error cause := by
  apply (turn_of_reach hstuck.ne_absent hreach).fault
  rw [hstuck.take]

/-- The cause is a fault of the outline, or a reference in it for which nothing was held at the
beginning. -/
theorem cause_of_take_error {o : Outline} {s : Session} {cause : Fault}
    (h : (s.take o).1 = .error cause) :
    cause ∈ o.faults ∨
      ∃ id ∈ o.references, cause = .unknownReference id ∧ s.store.find? id = none := by
  obtain ⟨path, before, hreach, hstuck⟩ := stuck_of_take_error (Prod.ext h rfl)
  have hturn := turn_of_reach hstuck.ne_absent hreach
  cases hplace : o.follow path with
  | fault found =>
    rw [hplace] at hstuck
    obtain rfl : found = cause := hstuck
    apply Or.inl
    apply o.faults_follow_subset path
    rw [hplace]
    exact List.mem_singleton_self found
  | reference id =>
    rw [hplace] at hstuck
    obtain ⟨hnone, hcause⟩ := hstuck
    -- what is not held there was not held before either
    rw [hturn.store, Store.find?_rememberAll, Option.or_eq_none_iff] at hnone
    refine .inr ⟨id, ?_, hcause, hnone.2⟩
    apply o.references_follow_subset path
    rw [hplace]
    exact List.mem_singleton_self id
  | absent => exact absurd hplace hstuck.ne_absent
  | token t =>
    rw [hplace] at hstuck
    exact hstuck.elim
  | node kind presence id slots =>
    rw [hplace] at hstuck
    exact hstuck.elim

/-- Whatever the outcome, the store is the one before with nodes put in. -/
theorem exists_store_take (o : Outline) (s : Session) :
    ∃ nodes, (s.take o).2.store = s.store.rememberAll nodes := by
  rcases htake : s.take o with ⟨cause | t, s'⟩
  · obtain ⟨path, before, hreach, hstuck⟩ := stuck_of_take_error htake
    exact ⟨before, (turn_of_reach hstuck.ne_absent hreach).store⟩
  · exact ⟨o.completions t, store_take htake⟩

theorem isSome_find?_take {o : Outline} {s : Session} {id : Int} (h : (s.store.find? id).isSome) :
    ((s.take o).2.store.find? id).isSome := by
  obtain ⟨nodes, hstore⟩ := exists_store_take o s
  rw [hstore, Store.find?_rememberAll, Option.isSome_or, h, Bool.or_true]

/-! ### Calls -/

/-- A call fails with this cause after these nodes were completed. -/
inductive FailsAfter (s : Session) (format : Format) (payload : List UInt8) (cause : Fault) :
    Completions → Prop
  /-- The bytes are no outline. -/
  | unread (hread : Outline.read format payload = .error cause) : FailsAfter s format payload cause []
  /-- Nothing stands at the root. -/
  | rootless {root : Outline} (hread : Outline.read format payload = .ok root)
      (hroot : (s.take root).1 = .ok .absent) (hcause : cause = .noRoot) :
      FailsAfter s format payload cause []
  /-- The reading comes to a place where it is stuck. -/
  | stuck {root : Outline} {path : List Nat} {before : Completions} {here : Session}
      (hread : Outline.read format payload = .ok root)
      (hreach : s.reach root path = some (before, here)) (hstuck : here.Stuck cause (root.follow path)) :
      FailsAfter s format payload cause before

variable {s s' : Session} {format : Format} {payload : List UInt8} {cause : Fault}

/-- A tree that is no tree comes from an empty slot or from a reference, and is not remembered. -/
theorem take_eq_absent {o : Outline} (h : (s.take o).1 = .ok .absent) : (s.take o).2 = s := by
  cases o with
  | absent => rfl
  | fault found => nomatch h
  | reference id =>
    obtain ⟨-, hsame⟩ := take_reference_ok (Prod.ext h rfl)
    exact hsame
  | token t => nomatch h
  | node kind presence id slots =>
    obtain ⟨layout, mid, -, htree, -⟩ := take_node_ok (Prod.ext h rfl)
    nomatch htree

/-- **How a call fails.** It does so after some nodes were completed, and exactly those are put in. -/
theorem failsAfter_of_deserialize (h : s.deserialize format payload = (.error cause, s')) :
    ∃ before, s.FailsAfter format payload cause before ∧ s'.store = s.store.rememberAll before := by
  cases hread : Outline.read format payload with
  | error found =>
    rw [deserialize, hread] at h
    obtain ⟨hcause, rfl⟩ := Prod.mk.inj h
    obtain rfl := Except.error.inj hcause
    exact ⟨[], .unread hread, rfl⟩
  | ok root =>
    rw [deserialize, hread] at h
    change s.takeRoot root = _ at h
    rcases htake : s.take root with ⟨found | t, last⟩
    · rw [takeRoot_error htake] at h
      obtain ⟨hcause, rfl⟩ := Prod.mk.inj h
      obtain rfl := Except.error.inj hcause
      obtain ⟨path, before, hreach, hstuck⟩ := stuck_of_take_error htake
      exact ⟨before, .stuck hread hreach hstuck, (turn_of_reach hstuck.ne_absent hreach).store⟩
    · by_cases habsent : t = .absent
      · rw [habsent] at htake
        rw [takeRoot_absent htake] at h
        obtain ⟨hcause, rfl⟩ := Prod.mk.inj h
        have hroot : (s.take root).1 = .ok .absent := congrArg Prod.fst htake
        refine ⟨[], .rootless hread hroot (Except.error.inj hcause).symm, ?_⟩
        have hsame : (s.take root).2 = s := take_eq_absent hroot
        rw [htake] at hsame
        exact congrArg store hsame
      · rw [takeRoot_ok htake habsent] at h
        cases h

/-- A call fails with a cause exactly if one of the three is the case. -/
theorem deserialize_error_iff : (s.deserialize format payload).1 = .error cause ↔
    ∃ before, s.FailsAfter format payload cause before := by
  constructor
  · intro h
    obtain ⟨before, hfails, -⟩ := failsAfter_of_deserialize (Prod.ext h rfl)
    exact ⟨before, hfails⟩
  · rintro ⟨before, hfails⟩
    cases hfails with
    | unread hread => rw [deserialize, hread]
    | @rootless root hread hroot hcause =>
      rw [deserialize, hread, hcause]
      exact congrArg Prod.fst (takeRoot_absent (Prod.ext hroot rfl))
    | stuck hread hreach hstuck =>
      exact deserialize_of_take_error hread (take_error_of_stuck hreach hstuck)

/-- The cause is that the payload cannot be read, that it has no root, a fault in it, or a reference in
it for which nothing was held when the call began. -/
theorem cause_of_deserialize_error (h : (s.deserialize format payload).1 = .error cause) :
    Outline.read format payload = .error cause ∨ cause = .noRoot ∨
      ∃ root, Outline.read format payload = .ok root ∧
        (cause ∈ root.faults ∨
          ∃ id ∈ root.references, cause = .unknownReference id ∧ s.store.find? id = none) := by
  obtain ⟨before, hfails, -⟩ := failsAfter_of_deserialize (Prod.ext h rfl)
  cases hfails with
  | unread hread => exact .inl hread
  | rootless hread hroot hcause => exact .inr (.inl hcause)
  | stuck hread hreach hstuck =>
    exact .inr (.inr ⟨_, hread, cause_of_take_error (take_error_of_stuck hreach hstuck)⟩)

end SourceTree.Session
