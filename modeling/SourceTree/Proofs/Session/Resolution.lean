import SourceTree.Proofs.Session.Incremental

/-!
# What a reference stands for

A reference stands for the node of its id that was completed last when its turn comes. Nodes of the
same payload that come before it count, nodes that come after it do not, and neither do the nodes
around it, which are not complete yet. So it stands for what the session held when the call began only
if nothing else was completed under its id on the way.
-/
namespace SourceTree.Session

/-! ### Slots in their order -/

theorem takeAll_append_ok {front back : List Outline} {s mid : Session} {trees : List Tree}
    (h : s.takeAll front = (.ok trees, mid)) : s.takeAll (front ++ back) =
      ((mid.takeAll back).1.map (trees ++ ·), (mid.takeAll back).2) := by
  induction front generalizing s trees with
  | nil =>
    obtain ⟨htrees, rfl⟩ := Prod.mk.inj h
    obtain rfl : [] = trees := Except.ok.inj htrees
    rcases hback : s.takeAll back with ⟨cause | more, last⟩ <;> simp [hback, Except.map]
  | cons slot front ih =>
    obtain ⟨tree, here, more, hslot, hfront, rfl⟩ := takeAll_cons_ok h
    rw [List.cons_append, takeAll, hslot]
    simp only [ih hfront]
    rcases mid.takeAll back with ⟨cause | last, s'⟩ <;> rfl

theorem takeAll_append_error {front : List Outline} (back : List Outline) {s mid : Session}
    {cause : Fault} (h : s.takeAll front = (.error cause, mid)) :
    s.takeAll (front ++ back) = (.error cause, mid) := by
  induction front generalizing s with
  | nil => cases h
  | cons slot front ih =>
    rw [takeAll] at h
    rw [List.cons_append, takeAll]
    rcases hslot : s.take slot with ⟨cause' | tree, here⟩
    · rw [hslot] at h
      exact h
    · rcases hfront : here.takeAll front with ⟨cause' | more, last⟩
      · simp only [hslot, hfront] at h
        simp only [ih (hfront.trans h)]
      · simp only [hslot, hfront] at h
        cases h

theorem length_takeAll {slots : List Outline} {s s' : Session} {trees : List Tree}
    (h : s.takeAll slots = (.ok trees, s')) : trees.length = slots.length := by
  induction slots generalizing s trees with
  | nil =>
    obtain rfl : [] = trees := Except.ok.inj (Prod.mk.inj h).1
    rfl
  | cons slot rest ih =>
    obtain ⟨tree, mid, more, -, hrest, rfl⟩ := takeAll_cons_ok h
    rw [List.length_cons, List.length_cons, ih hrest]

/-! ### The turn of a slot -/

/-- The nodes that are complete when the reading of an outline comes to the end of a path, and the
session at that moment; none if a fault ends the reading before. -/
def reach : Session → Outline → List Nat → Option (Completions × Session)
  | s, _, [] => some ([], s)
  | s, o, slot :: path =>
    match s.takeAll (o.slots.take slot) with
    | (.error _, _) => none
    | (.ok trees, mid) =>
      (mid.reach (o.slotAt slot) path).map fun (before, here) =>
        (Outline.completionsOfAll (o.slots.take slot) trees ++ before, here)

/-- What the reading of an outline is like at the end of a path. -/
structure Turn (s : Session) (o : Outline) (path : List Nat) (before : Completions) (here : Session) :
    Prop where
  /-- What was there, and what was completed on the way, is remembered. -/
  store : here.store = s.store.rememberAll before
  /-- What is read there is in its place in the tree. -/
  tree : ∀ t, (s.take o).1 = .ok t → (here.take (o.follow path)).1 = .ok (t.follow path)
  /-- A fault there is the fault of the whole. -/
  fault : ∀ cause, (here.take (o.follow path)).1 = .error cause → (s.take o).1 = .error cause

/-- The slots of a node, split where one of them begins. -/
theorem slots_eq {o : Outline} {slot : Nat} {path : List Nat}
    (hpresent : o.follow (slot :: path) ≠ .absent) :
    slot < o.slots.length ∧ o.slots = o.slots.take slot ++ o.slotAt slot :: o.slots.drop (slot + 1) := by
  have hslot : slot < o.slots.length := by
    by_contra hpast
    apply hpresent
    rw [Outline.follow, Outline.slotAt, List.getElem?_eq_none (Nat.not_lt.mp hpast)]
    exact Outline.follow_absent path
  refine ⟨hslot, ?_⟩
  rw [Outline.slotAt, List.getElem?_eq_getElem hslot, Option.getD_some, ← List.drop_eq_getElem_cons hslot,
    List.take_append_drop]

/-- If the reading does not come to a slot, that is for a fault before it. -/
theorem take_of_reach_none {path : List Nat} : ∀ {s : Session} {o : Outline},
    o.follow path ≠ .absent → s.reach o path = none → ∃ cause, (s.take o).1 = .error cause := by
  induction path with
  | nil =>
    intro s o _ h
    cases h
  | cons slot path ih =>
    intro s o hpresent h
    obtain ⟨hslot, hslots⟩ := slots_eq hpresent
    cases o with
    | node kind presence id slots =>
      change slots = slots.take slot ++ _ :: slots.drop (slot + 1) at hslots
      rcases hfront : s.takeAll (slots.take slot) with ⟨cause | trees, mid⟩
      · refine ⟨cause, ?_⟩
        rw [take, hslots, takeAll_append_error _ hfront]
      · rw [reach] at h
        simp only [Outline.slots, hfront, Option.map_eq_none_iff] at h
        obtain ⟨cause, hcause⟩ := ih hpresent h
        refine ⟨cause, ?_⟩
        rw [take, hslots, takeAll_append_ok hfront]
        rcases hturn : mid.take (Outline.slotAt (.node kind presence id slots) slot) with ⟨cause' | t, last⟩
        · rw [hturn] at hcause
          rw [takeAll, hturn]
          exact hcause
        · rw [hturn] at hcause
          nomatch hcause
    | absent => cases hslot
    | fault cause => cases hslot
    | reference id => cases hslot
    | token t => cases hslot

/-- If the reading comes to a slot, then it does so after everything before it and nothing else. -/
theorem turn_of_reach {path : List Nat} : ∀ {s here : Session} {o : Outline} {before : Completions},
    o.follow path ≠ .absent → s.reach o path = some (before, here) → Turn s o path before here := by
  induction path with
  | nil =>
    intro s here o before _ h
    obtain ⟨rfl, rfl⟩ := Prod.mk.inj (Option.some.inj h)
    exact ⟨rfl, fun _ ht => ht, fun _ hcause => hcause⟩
  | cons slot path ih =>
    intro s here o before hpresent h
    obtain ⟨hslot, hslots⟩ := slots_eq hpresent
    cases o with
    | node kind presence id slots =>
      change slots = slots.take slot ++ _ :: slots.drop (slot + 1) at hslots
      rcases hfront : s.takeAll (slots.take slot) with ⟨cause | trees, mid⟩
      · rw [reach] at h
        simp only [Outline.slots, hfront] at h
        cases h
      · rw [reach] at h
        simp only [Outline.slots, hfront, Option.map_eq_some_iff] at h
        obtain ⟨⟨before', here'⟩, hreach, hpair⟩ := h
        obtain ⟨rfl, rfl⟩ := Prod.mk.inj hpair
        have hturn : Turn mid _ path before' here' := ih hpresent hreach
        have hlength : trees.length = slot := by
          rw [length_takeAll hfront, List.length_take]
          exact Nat.min_eq_left (Nat.le_of_lt hslot)
        constructor
        case store =>
          rw [Store.rememberAll_append, ← store_takeAll hfront]
          exact hturn.store
        case tree =>
          intro t ht
          obtain ⟨layout, last, hall, rfl, -⟩ := take_node_ok (Prod.ext ht rfl)
          rw [hslots, takeAll_append_ok hfront] at hall
          rcases hback : (mid.takeAll (_ :: slots.drop (slot + 1))) with ⟨cause | back, last'⟩
          · rw [hback] at hall
            cases hall
          · rw [hback] at hall
            obtain rfl : trees ++ back = layout := Except.ok.inj (Prod.mk.inj hall).1
            obtain ⟨tree, mid', more, htake, -, rfl⟩ := takeAll_cons_ok hback
            have hfollow : Tree.follow (.node kind presence id (trees ++ tree :: more)) (slot :: path) =
                tree.follow path := by
              rw [Tree.follow, Tree.layout, ← hlength, List.getElem?_append_right (Nat.le_refl _),
                Nat.sub_self]
              rfl
            rw [hfollow]
            exact hturn.tree tree (congrArg Prod.fst htake)
        case fault =>
          intro cause hcause
          have hat := hturn.fault cause hcause
          rw [take, hslots, takeAll_append_ok hfront]
          rcases htake : mid.take (Outline.slotAt (.node kind presence id slots) slot) with ⟨cause' | t, last⟩
          · rw [htake] at hat
            rw [takeAll, htake]
            exact hat
          · rw [htake] at hat
            cases hat
    | absent => cases hslot
    | fault cause => cases hslot
    | reference id => cases hslot
    | token t => cases hslot

/-! ### References -/

variable {s : Session} {format : Format} {payload : List UInt8} {root : Outline}

/-- **What a reference stands for.** If the reading comes to a reference, then that is the node of
its id that was completed last on the way, or else the one that the session held when the call began;
if there is neither, the call fails with that. It is what the session held when the call began exactly
if nothing else was completed under the id on the way. -/
theorem deserialize_reference (hread : Outline.read format payload = .ok root) {path : List Nat}
    {id : Int} (href : root.follow path = .reference id) :
    match s.reach root path with
    | none => ∃ cause, (s.deserialize format payload).1 = .error cause
    | some (before, here) =>
      here.store.find? id = (before.last? id).or (s.store.find? id) ∧
      (∀ tree, (s.deserialize format payload).1 = .ok tree →
        here.store.find? id = some (tree.follow path)) ∧
      (here.store.find? id = none →
        (s.deserialize format payload).1 = .error (.unknownReference id)) ∧
      (here.store.find? id = s.store.find? id ↔
        ∀ node, before.last? id = some node → s.store.find? id = some node) := by
  have hpresent : root.follow path ≠ .absent := by
    rw [href]
    intro h
    cases h
  cases hreach : s.reach root path with
  | none =>
    obtain ⟨cause, hcause⟩ := take_of_reach_none hpresent hreach
    exact ⟨cause, deserialize_of_take_error hread hcause⟩
  | some turn =>
    obtain ⟨before, here⟩ := turn
    have hturn : Turn s root path before here := turn_of_reach hpresent hreach
    have hfound : here.store.find? id = (before.last? id).or (s.store.find? id) := by
      rw [hturn.store, Store.find?_rememberAll]
    refine ⟨hfound, ?_, ?_, ?_⟩
    · intro tree htree
      obtain ⟨htake, -⟩ := take_of_deserialize hread (Prod.ext htree rfl)
      have hhere := hturn.tree tree (congrArg Prod.fst htake)
      rw [href] at hhere
      exact (take_reference_ok (Prod.ext hhere rfl)).1
    · intro hnone
      apply deserialize_of_take_error hread
      apply hturn.fault
      rw [href, take, hnone]
    · rw [hfound]
      cases before.last? id with
      | none => exact ⟨fun _ _ h => (nomatch h), fun _ => rfl⟩
      | some last => exact ⟨fun h node hnode => h.symm.trans hnode, fun h => (h last rfl).symm⟩

/-- A session that holds a comma reads a node with a period of the same id and a reference to that id:
the reference stands for the period. -/
theorem deserialize_reference_reused :
    let comma : Token := ⟨"comma", ",", [], [], .present, some 1⟩
    let period : Token := ⟨"period", ".", [], [], .present, some 1⟩
    let earlier : Outline := .token comma
    let later : Outline := .node "A" .present (some 2) [.token period, .reference 1]
    let s : Session := (empty.deserialize .json (earlier.encode .json)).2
    ∃ tree, (s.deserialize .json (later.encode .json)).1 = .ok tree ∧
      s.store.find? 1 = some (.token 0 comma) ∧ tree.follow [1] = .token 1 period := by
  intro comma period earlier later s
  have hid : ∀ n : Nat, n < 2 ^ 32 → HasWordId (some (n : Int)) := fun n hn => ⟨n, hn, rfl⟩
  have hearlier : earlier.Faithful := ⟨hid 1 (by decide), rfl, rfl, nofun, nofun⟩
  have hperiod : period.Faithful := ⟨hid 1 (by decide), rfl, rfl, nofun, nofun⟩
  have hlater : later.Faithful := ⟨by decide, hid 2 (by decide), hperiod, hid 1 (by decide), trivial⟩
  have hread : Outline.read .json (later.encode .json) = .ok later :=
    Outline.read_encode_json hlater (by decide)
  have hs : s = ⟨[(1, .token 0 comma)], 1⟩ := congrArg Prod.snd
    (deserialize_of_take (Outline.read_encode_json hearlier (by decide)) rfl nofun)
  have htake : s.take later = (.ok (.node "A" .present (some 2) [.token 1 period, .token 1 period]),
      (s.take later).2) := by
    rw [hs]
    rfl
  have hresult := congrArg Prod.fst (deserialize_of_take hread htake nofun)
  refine ⟨_, hresult, by rw [hs]; rfl, ?_⟩
  have hturn := @deserialize_reference s .json _ _ hread [1] 1 rfl
  have hreach : s.reach later [1] = some ([(1, .token 1 period)], ⟨[(1, .token 1 period)], 2⟩) := by
    rw [hs]
    rfl
  rw [hreach] at hturn
  obtain ⟨hfound, htree, -, -⟩ := hturn
  exact (Option.some.inj ((htree _ hresult).symm.trans hfound))

end SourceTree.Session
