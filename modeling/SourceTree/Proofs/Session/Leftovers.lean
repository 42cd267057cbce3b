import SourceTree.Proofs.Session.LastCompleted
import SourceTree.Proofs.Session.Matching

/-!
# What a call that fails leaves behind

A call that fails is not undone: the nodes that were complete before the place where it is stuck stay in
the store, though no tree was handed out that they are part of. Later calls can tell only by a reference
to one of their ids.
-/
namespace SourceTree.Session

variable {s s' : Session} {format : Format} {payload : List UInt8} {cause : Fault}

/-- Two serial numbers are of one token: of an old one, or of one that is as new in either session. -/
def Renumbered (s s' : Session) (m n : Nat) : Prop :=
  m = n ∨ ∃ k, m = s.nextSerial + k ∧ n = s'.nextSerial + k

/-- Sessions match on the ids under which they hold the very same. -/
theorem matchedOn_of_find?_eq (s s' : Session) :
    MatchedOn (Renumbered s s') (fun id => s'.store.find? id = s.store.find? id) s s' := by
  refine ⟨fun k => .inr ⟨k, rfl, rfl⟩, ?_⟩
  intro id hsame
  rw [hsame]
  cases s.store.find? id with
  | none => exact .none
  | some held => exact .some (Tree.MatchedBy.refl (fun _ => .inl rfl) held)

/-- A node that a call of the run has given as part of its tree. -/
def Given (s : Session) (calls : List Call) (node : Tree) : Prop :=
  ∃ t path, .ok t ∈ (s.deserializeAll calls).1 ∧ t.follow path = node

/-- A node that a call of the run has completed under an id before it failed, the last one of the id. -/
def LeftBehind (s : Session) (calls : List Call) (id : Int) (node : Tree) : Prop :=
  ∃ front c back cause left, calls = front ++ c :: back ∧
    (s.deserializeAll front).2.FailsAfter c.format c.payload cause left ∧ left.last? id = some node

theorem LeftBehind.cons {c : Call} {calls : List Call} {id : Int} {node : Tree}
    (h : (s.deserialize c.format c.payload).2.LeftBehind calls id node) :
    s.LeftBehind (c :: calls) id node := by
  obtain ⟨front, other, back, cause, left, rfl, hfails, hlast⟩ := h
  exact ⟨c :: front, other, back, cause, left, rfl, hfails, hlast⟩

/-- What is held after a call is part of the tree that it gives, was left by it when it failed, or was
held before. -/
theorem origin_of_deserialize {id : Int} {node : Tree}
    (h : (s.deserialize format payload).2.store.find? id = some node) :
    (∃ t path, (s.deserialize format payload).1 = .ok t ∧ t.follow path = node) ∨
      (∃ cause left, s.FailsAfter format payload cause left ∧ left.last? id = some node) ∨
      s.store.find? id = some node := by
  rcases hcall : s.deserialize format payload with ⟨cause | t, last⟩
  · obtain ⟨left, hfails, hstore⟩ := failsAfter_of_deserialize hcall
    rw [hcall] at h
    change last.store.find? id = some node at h
    rw [hstore, Store.find?_rememberAll, Option.or_eq_some_iff] at h
    rcases h with hlast | ⟨-, hheld⟩
    · exact .inr (.inl ⟨cause, left, hfails, hlast⟩)
    · exact .inr (.inr hheld)
  · obtain ⟨root, -, htake⟩ := exists_take_of_deserialize hcall
    rw [hcall] at h
    change last.store.find? id = some node at h
    rw [store_take htake, Store.find?_rememberAll, Option.or_eq_some_iff] at h
    rcases h with hlast | ⟨-, hheld⟩
    · obtain ⟨-, path, -, hfollow⟩ := lastFresh_of_take htake hlast
      exact .inl ⟨t, path, rfl, hfollow⟩
    · exact .inr (.inr hheld)

/-- The same of a run: what is held after it was given, left behind, or held before. -/
theorem origin_of_deserializeAll {calls : List Call} {id : Int} {node : Tree} : ∀ {s : Session},
    (s.deserializeAll calls).2.store.find? id = some node →
    s.Given calls node ∨ s.LeftBehind calls id node ∨ s.store.find? id = some node := by
  induction calls with
  | nil => exact fun h => .inr (.inr h)
  | cons c calls ih =>
    intro s h
    rw [deserializeAll_cons] at h
    rcases ih h with ⟨t, path, hgiven, hfollow⟩ | hleft | hmid
    · exact .inl ⟨t, path, List.mem_cons_of_mem _ hgiven, hfollow⟩
    · exact .inr (.inl hleft.cons)
    · -- held when the first call was over: from that call, or from before it
      rcases origin_of_deserialize hmid with
        ⟨t, path, hok, hfollow⟩ | ⟨cause, left, hfails, hlast⟩ | hheld
      · refine .inl ⟨t, path, ?_, hfollow⟩
        rw [deserializeAll_cons, hok]
        exact List.mem_cons_self
      · exact .inr (.inl ⟨[], c, calls, cause, left, rfl, hfails, hlast⟩)
      · exact .inr (.inr hheld)

/-- **What a call that fails leaves behind.** It puts in the nodes that were completed before it failed
and nothing else, so an id is held as before exactly if none of them is another node of that id, and calls
that do not refer to the other ids go on as if it had never been made. What is held after any run
is part of a tree that some call gave, was left behind by one that failed, or was held before. -/
theorem deserialize_leftovers (h : s.deserialize format payload = (.error cause, s')) :
    ∃ left, s.FailsAfter format payload cause left ∧
      (∀ id, s'.store.find? id = (left.last? id).or (s.store.find? id)) ∧
      (∀ id, s'.store.find? id = s.store.find? id ↔
        ∀ node, left.last? id = some node → s.store.find? id = some node) ∧
      (∀ calls : List Call,
        (∀ c ∈ calls, c.RefersWithin fun id => s'.store.find? id = s.store.find? id) →
        List.Forall₂ (SameOutcome (Tree.MatchedBy (Renumbered s s')))
          (s.deserializeAll calls).1 (s'.deserializeAll calls).1) ∧
      ∀ calls id node, (s.deserializeAll calls).2.store.find? id = some node →
        s.Given calls node ∨ s.LeftBehind calls id node ∨ s.store.find? id = some node := by
  obtain ⟨left, hfails, hstore⟩ := failsAfter_of_deserialize h
  have hfound : ∀ id, s'.store.find? id = (left.last? id).or (s.store.find? id) := by
    intro id
    rw [hstore, Store.find?_rememberAll]
  refine ⟨left, hfails, hfound, ?_, ?_, fun _ _ _ => origin_of_deserializeAll⟩
  · intro id
    rw [hfound]
    cases left.last? id with
    | none => exact ⟨fun _ _ hnode => (nomatch hnode), fun _ => rfl⟩
    | some last => exact ⟨fun hsame node hnode => hsame.symm.trans hnode, fun hall => (hall last rfl).symm⟩
  · intro calls hrefs
    exact (MatchedOn.deserializeAll hrefs (matchedOn_of_find?_eq s s')).1

/-- A node with a comma and a reference that is not known: the comma is left behind, and only calls that
refer to it can tell. -/
theorem deserialize_leftovers_comma :
    let comma : Token := ⟨"comma", ",", [], [], .present, some 1⟩
    let list : Outline := .node "List" .present (some 2) [.token comma, .reference 3]
    let c : Call := ⟨.json, list.encode .json⟩
    let s' : Session := ⟨[(1, .token 0 comma)], 1⟩
    empty.deserialize c.format c.payload = (.error (.unknownReference 3), s') ∧
      empty.LeftBehind [c] 1 (.token 0 comma) ∧
      ∀ calls : List Call, (∀ other ∈ calls, other.RefersWithin (· ≠ 1)) →
        List.Forall₂ (SameOutcome (Tree.MatchedBy (Renumbered empty s')))
          (empty.deserializeAll calls).1 (s'.deserializeAll calls).1 := by
  intro comma list c s'
  have hid : ∀ n : Nat, n < 2 ^ 32 → HasWordId (some (n : Int)) := fun n hn => ⟨n, hn, rfl⟩
  have hcomma : comma.Faithful := ⟨hid 1 (by decide), rfl, rfl, nofun, nofun⟩
  have hlist : list.Faithful := ⟨by decide, hid 2 (by decide), hcomma, hid 3 (by decide), trivial⟩
  have hcall : empty.deserialize c.format c.payload = (.error (.unknownReference 3), s') := by
    rw [deserialize, Outline.read_encode_json hlist (by decide)]
    rfl
  have hrun : empty.deserializeAll [c] = ([.error (.unknownReference 3)], s') := by
    rw [deserializeAll_cons, hcall]
    rfl
  obtain ⟨left, -, -, -, hlater, horigin⟩ := deserialize_leftovers hcall
  refine ⟨hcall, ?_, ?_⟩
  · have hheld : (empty.deserializeAll [c]).2.store.find? 1 = some (.token 0 comma) := by
      rw [hrun]
      rfl
    rcases horigin [c] 1 (.token 0 comma) hheld with ⟨t, path, hgiven, -⟩ | hleft | hnew
    · rw [hrun] at hgiven
      cases List.mem_singleton.mp hgiven
    · exact hleft
    · cases hnew
  · intro calls hrefs
    apply hlater calls
    intro other hmem root hread id hin
    have hne : id ≠ 1 := hrefs other hmem root hread id hin
    change List.lookup id [(1, Tree.token 0 comma)] = none
    rw [List.lookup_cons, beq_false_of_ne hne]
    rfl

end SourceTree.Session
