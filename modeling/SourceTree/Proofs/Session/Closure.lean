import SourceTree.Proofs.Outline.Faults
import SourceTree.Proofs.Session.Runs
import SourceTree.Proofs.Tree.Places

/-!
# Sessions are closed under references

Whatever has an id in a tree that a session has handed out, or in a node that it holds, is held under
that id, though it may be another node of the same id by then. Calls that fail midway keep this up, since
a node is put in only after everything in its slots.
-/
namespace SourceTree

namespace Session

variable {s s' : Session}

/-- Every id in a tree is held. -/
def Knows (s : Session) (t : Tree) : Prop :=
  ∀ path id, (t.follow path).id = some id → (s.store.find? id).isSome

/-- Every node is held under its own id, and the session knows it. -/
def Closed (s : Session) : Prop :=
  ∀ id held, s.store.find? id = some held → held.id = some id ∧ s.Knows held

theorem closed_empty : empty.Closed := by
  intro id held hfound
  nomatch hfound

/-- The later session holds what the earlier one holds, and perhaps more. -/
def Extends (s s' : Session) : Prop :=
  ∀ id, (s.store.find? id).isSome → (s'.store.find? id).isSome

theorem Extends.knows (h : s.Extends s') {t : Tree} (hknows : s.Knows t) : s'.Knows t :=
  fun path id hid => h id (hknows path id hid)

theorem extends_take (o : Outline) (s : Session) : s.Extends (s.take o).2 :=
  fun _ h => isSome_find?_take h

/-- Slots are taken in as those of a node without an id are. -/
theorem snd_takeAll (slots : List Outline) (s : Session) :
    (s.takeAll slots).2 = (s.take (.node "" .present none slots)).2 := by
  rw [Session.take]
  rcases s.takeAll slots with ⟨cause | layout, mid⟩ <;> rfl

theorem extends_takeAll (slots : List Outline) (s : Session) : s.Extends (s.takeAll slots).2 := by
  rw [snd_takeAll]
  exact extends_take _ s

theorem extends_remember (id : Option Int) (tree : Tree) : s.Extends (s.remember id tree) := by
  intro other h
  change ((s.store.remember id tree).find? other).isSome
  rw [Store.find?_remember]
  split
  · rfl
  · exact h

/-- A node whose slots are known is known once it is remembered, and the session stays closed. -/
theorem Closed.remember (h : s.Closed) (tree : Tree)
    (hslots : ∀ slot path n, (tree.follow (slot :: path)).id = some n → (s.store.find? n).isSome) :
    (s.remember tree.id tree).Closed ∧ (s.remember tree.id tree).Knows tree := by
  have hextends : s.Extends (s.remember tree.id tree) := extends_remember tree.id tree
  have hfound : ∀ n, (s.remember tree.id tree).store.find? n =
      if tree.id = some n then some tree else s.store.find? n := Store.find?_remember s.store tree.id tree
  have hknows : (s.remember tree.id tree).Knows tree := by
    rintro (_ | ⟨slot, path⟩) n hn
    · have hid : tree.id = some n := hn
      rw [hfound, if_pos hid]
      rfl
    · exact hextends n (hslots slot path n hn)
  refine ⟨?_, hknows⟩
  intro n held hheld
  rw [hfound] at hheld
  split at hheld
  · next hn =>
    obtain rfl := Option.some.inj hheld
    exact ⟨hn, hknows⟩
  · obtain ⟨hown, hold⟩ := h n held hheld
    exact ⟨hown, hextends.knows hold⟩

mutual

/-- Whatever the outcome, a session that is closed stays so; it knows the tree if there is one. -/
theorem Closed.take : ∀ (o : Outline) {s : Session}, s.Closed →
    (s.take o).2.Closed ∧ ∀ t, (s.take o).1 = .ok t → (s.take o).2.Knows t
  | .absent, s, h => by
    refine ⟨h, ?_⟩
    rintro t ht
    obtain rfl := Except.ok.inj ht
    intro path id hid
    rw [Tree.follow_absent] at hid
    nomatch hid
  | .fault cause, s, h => ⟨h, fun t ht => nomatch ht⟩
  | .reference id, s, h => by
    rw [Session.take]
    cases hfound : s.store.find? id with
    | none => exact ⟨h, fun t ht => nomatch ht⟩
    | some held =>
      refine ⟨h, ?_⟩
      rintro t ht
      obtain rfl := Except.ok.inj ht
      exact (h id _ hfound).2
  | .token t, s, h => by
    have hslots : ∀ slot path n, ((Tree.token s.nextSerial t).follow (slot :: path)).id = some n →
        (s.store.find? n).isSome := by
      intro slot path n hn
      change (Tree.follow .absent path).id = some n at hn
      rw [Tree.follow_absent] at hn
      nomatch hn
    obtain ⟨hclosed, hknows⟩ := h.remember (.token s.nextSerial t) hslots
    refine ⟨hclosed, ?_⟩
    rintro u hu
    obtain rfl := Except.ok.inj hu
    exact hknows
  | .node kind presence id slots, s, h => by
    obtain ⟨hclosed, hknows⟩ := Closed.takeAll slots h
    rw [Session.take]
    rcases hall : s.takeAll slots with ⟨cause | layout, mid⟩
    · rw [hall] at hclosed
      exact ⟨hclosed, fun t ht => nomatch ht⟩
    · rw [hall] at hclosed hknows
      -- what lies beneath the node came with its slots, which are known by now
      have hslots : ∀ slot path n,
          ((Tree.node kind presence id layout).follow (slot :: path)).id = some n →
          (mid.store.find? n).isSome := by
        intro slot path n hn
        change (((layout[slot]?).getD .absent).follow path).id = some n at hn
        cases hfound : layout[slot]? with
        | none =>
          rw [hfound, Option.getD_none, Tree.follow_absent] at hn
          nomatch hn
        | some inner =>
          rw [hfound] at hn
          exact hknows layout rfl inner (List.mem_of_getElem? hfound) path n hn
      obtain ⟨hlast, hnode⟩ := hclosed.remember (.node kind presence id layout) hslots
      refine ⟨hlast, ?_⟩
      rintro t ht
      obtain rfl := Except.ok.inj ht
      exact hnode

theorem Closed.takeAll : ∀ (slots : List Outline) {s : Session}, s.Closed →
    (s.takeAll slots).2.Closed ∧
      ∀ trees, (s.takeAll slots).1 = .ok trees → ∀ t ∈ trees, (s.takeAll slots).2.Knows t
  | [], s, h => by
    refine ⟨h, ?_⟩
    rintro trees htrees t ht
    obtain rfl := Except.ok.inj htrees
    nomatch ht
  | slot :: rest, s, h => by
    obtain ⟨hclosed, hknows⟩ := Closed.take slot h
    rw [Session.takeAll]
    rcases hslot : s.take slot with ⟨cause | tree, mid⟩
    · rw [hslot] at hclosed
      exact ⟨hclosed, fun trees htrees => nomatch htrees⟩
    · rw [hslot] at hclosed hknows
      obtain ⟨hlast, hmore⟩ := Closed.takeAll rest hclosed
      have hextends := extends_takeAll rest mid
      rcases hrest : mid.takeAll rest with ⟨cause | more, last⟩
      · simp only [hrest] at hlast ⊢
        exact ⟨hlast, fun trees htrees => nomatch htrees⟩
      · simp only [hrest] at hlast hmore hextends ⊢
        refine ⟨hlast, ?_⟩
        rintro trees htrees t ht
        obtain rfl := Except.ok.inj htrees
        rcases List.mem_cons.mp ht with rfl | ht
        · exact Extends.knows hextends (hknows _ rfl)
        · exact hmore more rfl t ht

end

/-! ### Calls and runs -/

theorem deserialize_snd (s : Session) (format : Format) (payload : List UInt8) :
    (s.deserialize format payload).2 = s ∨
      ∃ root, Outline.read format payload = .ok root ∧
        (s.deserialize format payload).2 = (s.take root).2 := by
  rw [deserialize]
  cases hread : Outline.read format payload with
  | error cause => exact .inl rfl
  | ok root =>
    refine .inr ⟨root, rfl, ?_⟩
    change (s.takeRoot root).2 = _
    rw [takeRoot]
    split
    · next hroot => rw [hroot]
    · rfl

theorem Closed.deserialize (h : s.Closed) (format : Format) (payload : List UInt8) :
    (s.deserialize format payload).2.Closed := by
  rcases deserialize_snd s format payload with hsame | ⟨root, -, htaken⟩
  · rw [hsame]
    exact h
  · rw [htaken]
    exact (Closed.take root h).1

theorem extends_deserialize (s : Session) (format : Format) (payload : List UInt8) :
    s.Extends (s.deserialize format payload).2 := by
  rcases deserialize_snd s format payload with hsame | ⟨root, -, htaken⟩
  · rw [hsame]
    exact fun _ h => h
  · rw [htaken]
    exact extends_take root s

/-- What a call hands out, the session knows. -/
theorem Closed.knows (h : s.Closed) {format : Format} {payload : List UInt8} {t : Tree}
    (ht : (s.deserialize format payload).1 = .ok t) : (s.deserialize format payload).2.Knows t := by
  obtain ⟨root, -, htake⟩ := exists_take_of_deserialize (Prod.ext ht rfl)
  have hknows := (Closed.take root h).2 t (congrArg Prod.fst htake)
  rwa [htake] at hknows

theorem closed_deserializeAll (calls : List Call) : (empty.deserializeAll calls).2.Closed :=
  deserializeAll_keeps (fun _ format payload h => h.deserialize format payload) calls closed_empty

/-- What some call of a run has handed out, the session knows after the run. -/
theorem knows_of_mem_deserializeAll {calls : List Call} {t : Tree}
    (ht : .ok t ∈ (empty.deserializeAll calls).1) : (empty.deserializeAll calls).2.Knows t := by
  obtain ⟨front, c, back, rfl, hok⟩ := exists_call_of_ok ht
  have hkeeps : ∀ s format payload, Knows s t → Knows (s.deserialize format payload).2 t :=
    fun s format payload h => (extends_deserialize s format payload).knows h
  rw [deserializeAll_append, deserializeAll_cons]
  exact deserializeAll_keeps hkeeps back ((closed_deserializeAll front).knows hok)

/-- No call misses an id that is held when it begins. -/
theorem deserialize_ne_unknownReference {id : Int} (hid : (s.store.find? id).isSome) (format : Format)
    (payload : List UInt8) : (s.deserialize format payload).1 ≠ .error (.unknownReference id) := by
  intro herror
  rcases cause_of_deserialize_error herror with
    hread | hroot | ⟨root, hread, hfault | ⟨other, -, hother, hnone⟩⟩
  · exact Outline.ne_unknownReference_of_read (Outline.read_error hread) id rfl
  · nomatch hroot
  · exact Outline.ne_unknownReference_of_read (Outline.mem_faults_of_read hread hfault) id rfl
  · obtain rfl := Fault.unknownReference.inj hother
    rw [hnone] at hid
    nomatch hid

/-- **Sessions are closed under references.** After any calls, whether they fail or not, take a tree that
one of them gave or a node that is held: every id in it, however deep, is held, by a node of that very
id, and so no payload that is read then fails because a reference to it is not known. -/
theorem known_of_visible (calls : List Call) (t : Tree) :
    let s : Session := (empty.deserializeAll calls).2
    (.ok t ∈ (empty.deserializeAll calls).1 ∨ ∃ n, s.store.find? n = some t) →
    ∀ path id, (t.follow path).id = some id →
      (∃ held, s.store.find? id = some held ∧ held.id = some id) ∧
      ∀ format payload, (s.deserialize format payload).1 ≠ .error (.unknownReference id) := by
  intro s hvisible path id hid
  have hclosed : s.Closed := closed_deserializeAll calls
  have hknows : s.Knows t := by
    rcases hvisible with hgiven | ⟨n, hheld⟩
    · exact knows_of_mem_deserializeAll hgiven
    · exact (hclosed n t hheld).2
  have hfound : (s.store.find? id).isSome := hknows path id hid
  obtain ⟨held, hheld⟩ := Option.isSome_iff_exists.mp hfound
  exact ⟨⟨held, hheld, (hclosed id held hheld).1⟩, deserialize_ne_unknownReference hfound⟩

/-- A list with a comma in it, and after it a payload that fails once it has put another comma in the
place of the first one: the comma of the list can still be referred to. -/
theorem known_of_visible_list :
    let comma : Token := ⟨"comma", ",", [], [], .present, some 1⟩
    let first : Outline := .node "List" .present (some 2) [.token comma]
    let second : Outline := .node "List" .present (some 3) [.token comma, .reference 4]
    let calls : List Call := [⟨.byteTree, first.encode .byteTree⟩, ⟨.json, second.encode .json⟩]
    let t : Tree := .node "List" .present (some 2) [.token 0 comma]
    empty.deserializeAll calls =
        ([.ok t, .error (.unknownReference 4)], ⟨[(1, .token 1 comma), (2, t)], 2⟩) ∧
      ∀ format payload,
        ((empty.deserializeAll calls).2.deserialize format payload).1 ≠ .error (.unknownReference 1) := by
  intro comma first second calls t
  have hid : ∀ n : Nat, n < 2 ^ 32 → HasWordId (some (n : Int)) := fun n hn => ⟨n, hn, rfl⟩
  have hcomma : comma.Faithful := ⟨hid 1 (by decide), rfl, rfl, nofun, nofun⟩
  have hfirst : first.Faithful := ⟨by decide, hid 2 (by decide), hcomma, trivial⟩
  have hsecond : second.Faithful := ⟨by decide, hid 3 (by decide), hcomma, hid 4 (by decide), trivial⟩
  have hcallFirst : empty.deserialize .byteTree (first.encode .byteTree) =
      (.ok t, ⟨[(1, .token 0 comma), (2, t)], 1⟩) :=
    deserialize_of_take (Outline.read_encode_byteTree hfirst (by decide)) rfl nofun
  have hcallSecond : deserialize ⟨[(1, .token 0 comma), (2, t)], 1⟩ .json (second.encode .json) =
      (.error (.unknownReference 4), ⟨[(1, .token 1 comma), (2, t)], 2⟩) := by
    rw [deserialize, Outline.read_encode_json hsecond (by decide)]
    rfl
  have hrun : empty.deserializeAll calls =
      ([.ok t, .error (.unknownReference 4)], ⟨[(1, .token 1 comma), (2, t)], 2⟩) := by
    rw [deserializeAll_cons, hcallFirst, deserializeAll_cons, hcallSecond]
    rfl
  have hgiven : .ok t ∈ (empty.deserializeAll calls).1 := by
    rw [hrun]
    exact List.mem_cons_self
  exact ⟨hrun, (known_of_visible calls t (.inl hgiven) [0] 1 rfl).2⟩

end Session
end SourceTree
