import Mathlib.Data.List.Dedup
import SourceTree.Proofs.Session.Runs

/-!
# The node completed last

Places in payloads are completed in an order of their own: what lies beneath a place before the place
itself, and of two slots, or two calls, the first one before the second. After calls that all succeed
the session holds, under each id, the fresh node of that id whose place comes last in this order. Places
without an id and references do not count.
-/
namespace SourceTree

/-! ### Places in the order of completion -/

/-- The first place is completed before the second one. -/
def CompletedBefore : List Nat → List Nat → Prop
  | [], _ => False
  | _ :: _, [] => True
  | slot :: path, other :: rest => slot < other ∨ slot = other ∧ CompletedBefore path rest

theorem CompletedBefore.asymm {path : List Nat} :
    ∀ {other : List Nat}, CompletedBefore path other → ¬ CompletedBefore other path := by
  induction path with
  | nil => exact fun h => h.elim
  | cons slot path ih =>
    intro other h h'
    cases other with
    | nil => exact h'
    | cons first rest =>
      rcases h with hlt | ⟨rfl, h⟩
      · rcases h' with hlt' | ⟨heq, -⟩
        · omega
        · omega
      · rcases h' with hlt' | ⟨-, h'⟩
        · omega
        · exact ih h h'

namespace Outline

/-- The id that a fresh node or token brings. -/
def freshId : Outline → Option Int
  | .token t => t.id
  | .node _ _ id _ => id
  | _ => none

/-- What is found in slots: the first step says in which one. -/
def followIn (slots : List Outline) : List Nat → Outline
  | [] => .absent
  | slot :: path => ((slots[slot]?).getD .absent).follow path

/-- Of the fresh places of an id, this one is completed last. -/
structure LastFresh (o : Outline) (id : Int) (path : List Nat) : Prop where
  fresh : (o.follow path).freshId = some id
  last : ∀ other, (o.follow other).freshId = some id → other ≠ path → CompletedBefore other path

structure LastFreshIn (slots : List Outline) (id : Int) (place : List Nat) : Prop where
  fresh : (followIn slots place).freshId = some id
  last : ∀ other, (followIn slots other).freshId = some id → other ≠ place →
    CompletedBefore other place

theorem LastFreshIn.unique {slots : List Outline} {id : Int} {place other : List Nat}
    (h : LastFreshIn slots id place) (h' : LastFreshIn slots id other) : place = other := by
  by_contra hne
  exact (h'.last place h.fresh hne).asymm (h.last other h'.fresh (Ne.symm hne))

theorem mem_freshIds_of_freshId {o : Outline} {id : Int} (h : o.freshId = some id) :
    id ∈ o.freshIds := by
  cases o with
  | token t =>
    have ht : t.id = some id := h
    rw [freshIds, ht]
    exact List.mem_singleton_self id
  | node kind presence nodeId slots =>
    have hid : nodeId = some id := h
    rw [freshIds, hid]
    exact List.mem_append_right _ (List.mem_singleton_self id)
  | absent => nomatch h
  | fault cause => nomatch h
  | reference n => nomatch h

theorem mem_freshIds_of_follow {o : Outline} {id : Int} {path : List Nat}
    (h : (o.follow path).freshId = some id) : id ∈ o.freshIds :=
  o.freshIds_follow_subset path (mem_freshIds_of_freshId h)

theorem mem_freshIdsOfAll_of_followIn {slots : List Outline} {id : Int} {place : List Nat}
    (h : (followIn slots place).freshId = some id) : id ∈ freshIdsOfAll slots := by
  cases place with
  | nil => nomatch h
  | cons slot path =>
    have hmem : id ∈ ((slots[slot]?).getD .absent).freshIds := mem_freshIds_of_follow h
    cases hfound : slots[slot]? with
    | none =>
      rw [hfound] at hmem
      nomatch hmem
    | some inner =>
      rw [hfound] at hmem
      rw [freshIdsOfAll_eq]
      exact List.mem_flatMap.mpr ⟨inner, List.mem_of_getElem? hfound, hmem⟩

theorem LastFresh.head {first : Outline} {rest : List Outline} {id : Int} {path : List Nat}
    (h : first.LastFresh id path) (hrest : id ∉ freshIdsOfAll rest) :
    LastFreshIn (first :: rest) id (0 :: path) := by
  refine ⟨h.fresh, ?_⟩
  rintro (_ | ⟨_ | slot, other⟩) hother hne
  · nomatch hother
  · exact .inr ⟨rfl, h.last other hother fun heq => hne (by rw [heq])⟩
  · have hfresh : (followIn rest (slot :: other)).freshId = some id := hother
    exact absurd (mem_freshIdsOfAll_of_followIn hfresh) hrest

theorem LastFreshIn.tail {rest : List Outline} {id : Int} {slot : Nat} {path : List Nat}
    (first : Outline) (h : LastFreshIn rest id (slot :: path)) :
    LastFreshIn (first :: rest) id ((slot + 1) :: path) := by
  refine ⟨h.fresh, ?_⟩
  rintro (_ | ⟨_ | other, more⟩) hother hne
  · nomatch hother
  · exact .inl (Nat.succ_pos slot)
  · have hne' : other :: more ≠ slot :: path := by
      rintro heq
      obtain ⟨rfl, rfl⟩ := List.cons.inj heq
      exact hne rfl
    rcases h.last (other :: more) hother hne' with hlt | ⟨rfl, hbefore⟩
    · exact .inl (Nat.succ_lt_succ hlt)
    · exact .inr ⟨rfl, hbefore⟩

/-- A node is completed after all that lies beneath it. -/
theorem LastFresh.self (kind : String) (presence : Presence) (id : Int) (slots : List Outline) :
    LastFresh (.node kind presence (some id) slots) id [] := by
  refine ⟨rfl, ?_⟩
  rintro (_ | ⟨slot, other⟩) - hne
  · exact absurd rfl hne
  · exact trivial

theorem LastFreshIn.node {slots : List Outline} {id : Int} {place : List Nat}
    (h : LastFreshIn slots id place) (kind : String) (presence : Presence) {nodeId : Option Int}
    (hnode : nodeId ≠ some id) : LastFresh (.node kind presence nodeId slots) id place := by
  cases place with
  | nil => nomatch h.fresh
  | cons slot path =>
    refine ⟨h.fresh, ?_⟩
    rintro (_ | ⟨first, other⟩) hother hne
    · exact absurd hother hnode
    · exact h.last (first :: other) hother hne

end Outline

/-- What is found in trees: the first step says in which one. -/
def Tree.followIn (trees : List Tree) : List Nat → Tree
  | [] => .absent
  | slot :: path => ((trees[slot]?).getD .absent).follow path

/-! ### Completions in their order -/

namespace Completions

theorem last?_append (front back : Completions) (id : Int) :
    last? (front ++ back) id = (back.last? id).or (front.last? id) := by
  rw [last?, List.reverse_append, List.lookup_append]
  rfl

theorem isSome_last? (nodes : Completions) (id : Int) :
    (nodes.last? id).isSome ↔ id ∈ nodes.map Prod.fst := by
  rw [← Option.ne_none_iff_isSome, last?, Ne, List.lookup_eq_none_iff]
  simp

end Completions

namespace Session

open Outline (LastFresh LastFreshIn freshIds freshIdsOfAll)

mutual

theorem map_fst_completions_of_take : ∀ {o : Outline} {s s' : Session} {t : Tree},
    s.take o = (.ok t, s') → (o.completions t).map Prod.fst = o.freshIds
  | .absent, _, _, _, _ => rfl
  | .fault _, _, _, _, h => nomatch h
  | .reference _, _, _, _, _ => rfl
  | .token t, _, _, _, _ => Outline.map_fst_completion t.id _
  | .node kind presence id slots, _, _, _, h => by
    obtain ⟨layout, mid, hslots, rfl, -⟩ := take_node_ok h
    rw [Outline.completions, Outline.freshIds, List.map_append, Outline.map_fst_completion]
    exact congrArg (· ++ id.toList) (map_fst_completionsOfAll_of_takeAll hslots)

theorem map_fst_completionsOfAll_of_takeAll : ∀ {slots : List Outline} {s s' : Session}
    {trees : List Tree}, s.takeAll slots = (.ok trees, s') →
    (Outline.completionsOfAll slots trees).map Prod.fst = freshIdsOfAll slots
  | [], _, _, _, _ => rfl
  | slot :: rest, _, _, _, h => by
    obtain ⟨tree, mid, more, hslot, hrest, rfl⟩ := takeAll_cons_ok h
    rw [Outline.completionsOfAll, Outline.freshIdsOfAll, List.map_append,
      map_fst_completions_of_take hslot, map_fst_completionsOfAll_of_takeAll hrest]

end

mutual

/-- The node of an id that is completed last stands at the last of the fresh places of that id. -/
theorem lastFresh_of_take : ∀ {o : Outline} {s s' : Session} {t : Tree} {id : Int} {node : Tree},
    s.take o = (.ok t, s') → (o.completions t).last? id = some node →
    node.id = some id ∧ ∃ path, o.LastFresh id path ∧ t.follow path = node
  | .absent, _, _, _, _, _, _, hlast => nomatch hlast
  | .fault _, _, _, _, _, _, h, _ => nomatch h
  | .reference _, _, _, _, _, _, _, hlast => nomatch hlast
  | .token ⟨kind, text, leading, trailing, presence, tokenId⟩, s, _, _, id, node, h, hlast => by
    obtain ⟨htree, -⟩ := Prod.mk.inj h
    obtain rfl := Except.ok.inj htree
    cases tokenId with
    | none => nomatch hlast
    | some n =>
      change List.lookup id [(n, _)] = some node at hlast
      by_cases hid : id = n
      · subst hid
        rw [List.lookup_cons_self] at hlast
        obtain rfl := Option.some.inj hlast
        refine ⟨rfl, [], ⟨rfl, ?_⟩, rfl⟩
        rintro (_ | ⟨slot, other⟩) hother hne
        · exact absurd rfl hne
        · exact trivial
      · rw [List.lookup_cons, beq_false_of_ne hid] at hlast
        nomatch hlast
  | .node kind presence nodeId slots, s, _, _, id, node, h, hlast => by
    obtain ⟨layout, mid, hslots, rfl, -⟩ := take_node_ok h
    rw [Outline.completions, Completions.last?_append] at hlast
    -- the node comes after its slots, so they matter only if it has another id
    by_cases hnode : nodeId = some id
    · subst hnode
      have hself : (Outline.completion (some id) (.node kind presence (some id) layout)).last? id =
          some (.node kind presence (some id) layout) := List.lookup_cons_self
      rw [hself, Option.some_or] at hlast
      obtain rfl := Option.some.inj hlast
      exact ⟨rfl, [], .self kind presence id slots, rfl⟩
    · have hself : (Outline.completion nodeId (.node kind presence nodeId layout)).last? id = none := by
        rw [← Option.not_isSome_iff_eq_none, Completions.isSome_last?, Outline.map_fst_completion]
        simpa [Option.mem_toList] using hnode
      rw [hself, Option.none_or] at hlast
      obtain ⟨hid, place, hplace, hfollow⟩ := lastFreshIn_of_takeAll hslots hlast
      refine ⟨hid, place, hplace.node kind presence hnode, ?_⟩
      cases place with
      | nil => nomatch hplace.fresh
      | cons slot path => exact hfollow

theorem lastFreshIn_of_takeAll : ∀ {slots : List Outline} {s s' : Session} {trees : List Tree}
    {id : Int} {node : Tree}, s.takeAll slots = (.ok trees, s') →
    (Outline.completionsOfAll slots trees).last? id = some node →
    node.id = some id ∧ ∃ place, LastFreshIn slots id place ∧ Tree.followIn trees place = node
  | [], _, _, _, _, _, _, hlast => nomatch hlast
  | slot :: rest, _, _, _, id, node, h, hlast => by
    obtain ⟨tree, mid, more, hslot, hrest, rfl⟩ := takeAll_cons_ok h
    rw [Outline.completionsOfAll, Completions.last?_append] at hlast
    cases hlater : (Outline.completionsOfAll rest more).last? id with
    | some later =>
      rw [hlater, Option.some_or] at hlast
      obtain rfl := Option.some.inj hlast
      obtain ⟨hid, place, hplace, hfollow⟩ := lastFreshIn_of_takeAll hrest hlater
      cases place with
      | nil => nomatch hplace.fresh
      | cons n path => exact ⟨hid, (n + 1) :: path, hplace.tail slot, hfollow⟩
    | none =>
      rw [hlater, Option.none_or] at hlast
      obtain ⟨hid, path, hpath, hfollow⟩ := lastFresh_of_take hslot hlast
      have hnone : id ∉ freshIdsOfAll rest := by
        rw [← map_fst_completionsOfAll_of_takeAll hrest, ← Completions.isSome_last?, hlater]
        exact Bool.false_ne_true
      exact ⟨hid, 0 :: path, hpath.head hnone, hfollow⟩

end

theorem exists_lastFreshIn {slots : List Outline} {s s' : Session} {trees : List Tree} {id : Int}
    (h : s.takeAll slots = (.ok trees, s')) (hid : id ∈ freshIdsOfAll slots) :
    ∃ place, LastFreshIn slots id place ∧
      (Outline.completionsOfAll slots trees).last? id = some (Tree.followIn trees place) := by
  rw [← map_fst_completionsOfAll_of_takeAll h, ← Completions.isSome_last?] at hid
  obtain ⟨node, hlast⟩ := Option.isSome_iff_exists.mp hid
  obtain ⟨-, place, hplace, hfollow⟩ := lastFreshIn_of_takeAll h hlast
  exact ⟨place, hplace, by rw [hlast, hfollow]⟩

end Session

/-! ### Distinct ids -/

namespace Store

/-- Putting nodes into an empty store makes as many entries as there are different ids. -/
theorem length_rememberAll_nil (nodes : Completions) :
    (rememberAll [] nodes).length = (nodes.map Prod.fst).dedup.length := by
  have hkeys : (rememberAll [] nodes).keys.Perm (nodes.map Prod.fst).dedup := by
    have hdistinct : (rememberAll [] nodes).keys.Nodup := Keyed.nodup_keys_putAll [] nodes List.nodup_nil
    rw [List.perm_ext_iff_of_nodup hdistinct (List.nodup_dedup _)]
    intro id
    have hfound : (rememberAll [] nodes).lookup id = nodes.last? id := by
      have h := find?_rememberAll [] nodes id
      rwa [show find? [] id = none from rfl, Option.or_none] at h
    rw [← Keyed.isSome_lookup_iff, hfound, Completions.isSome_last?, List.mem_dedup]
  rw [← hkeys.length_eq, Keyed.keys, List.length_map]

end Store

/-! ### Runs -/

namespace Session

open Outline (LastFreshIn freshIds)

/-- **The node completed last wins.** After calls that all succeed, in whatever formats and with
whatever ids, a node is held under an id exactly if it stands at the last of the fresh places of that
id; it has that id itself. So an id is held exactly if some payload brings it, references and nodes
without an id add nothing, and there are as many entries as different ids. -/
theorem find?_last_completed {calls : List Call} {trees : List Tree} {s : Session}
    (h : empty.deserializeAll calls = (trees.map .ok, s)) :
    ∃ roots : List Outline, calls.map Call.read = roots.map .ok ∧
      (∀ id node, s.store.find? id = some node ↔
        ∃ place, LastFreshIn roots id place ∧ Tree.followIn trees place = node) ∧
      (∀ id node, s.store.find? id = some node → node.id = some id) ∧
      (∀ id, (s.store.find? id).isSome ↔ ∃ root ∈ roots, id ∈ root.freshIds) ∧
      s.size = (roots.flatMap freshIds).dedup.length := by
  obtain ⟨roots, hread, htake⟩ := takeAll_of_deserializeAll h
  have hstore : s.store = Store.rememberAll [] (Outline.completionsOfAll roots trees) :=
    store_takeAll htake
  have hids := map_fst_completionsOfAll_of_takeAll htake
  have hfound : ∀ id, s.store.find? id = (Outline.completionsOfAll roots trees).last? id := by
    intro id
    rw [hstore, Store.find?_rememberAll]
    exact Option.or_none
  refine ⟨roots, hread, ?_, ?_, ?_, ?_⟩
  · intro id node
    rw [hfound]
    constructor
    · intro hlast
      exact (lastFreshIn_of_takeAll htake hlast).2
    · rintro ⟨place, hplace, rfl⟩
      obtain ⟨other, hother, hlast⟩ :=
        exists_lastFreshIn htake (Outline.mem_freshIdsOfAll_of_followIn hplace.fresh)
      rw [hlast, hplace.unique hother]
  · intro id node hheld
    rw [hfound] at hheld
    exact (lastFreshIn_of_takeAll htake hheld).1
  · intro id
    rw [hfound, Completions.isSome_last?, hids, Outline.freshIdsOfAll_eq, List.mem_flatMap]
  · rw [size, hstore, Store.length_rememberAll_nil, hids, Outline.freshIdsOfAll_eq]

/-- A JSON payload brings two tokens of one id; a ByteTree payload brings the same id once more, for a
node around a reference to what the first one brought. -/
theorem find?_last_completed_mixed :
    let comma : Token := ⟨"comma", ",", [], [], .present, some 1⟩
    let period : Token := ⟨"period", ".", [], [], .present, some 1⟩
    let first : Outline := .node "A" .present (some 2) [.token comma, .token period]
    let second : Outline := .node "B" .present (some 1) [.reference 2]
    let a : Tree := .node "A" .present (some 2) [.token 0 comma, .token 1 period]
    let b : Tree := .node "B" .present (some 1) [a]
    ∃ s, empty.deserializeAll [⟨.json, first.encode .json⟩, ⟨.byteTree, second.encode .byteTree⟩] =
        ([a, b].map .ok, s) ∧
      s.store.find? 1 = some b ∧ s.store.find? 2 = some a ∧ s.size = 2 := by
  intro comma period first second a b
  have hid : ∀ n : Nat, n < 2 ^ 32 → HasWordId (some (n : Int)) := fun n hn => ⟨n, hn, rfl⟩
  have hcomma : comma.Faithful := ⟨hid 1 (by decide), rfl, rfl, nofun, nofun⟩
  have hperiod : period.Faithful := ⟨hid 1 (by decide), rfl, rfl, nofun, nofun⟩
  have hfirst : first.Faithful := ⟨by decide, hid 2 (by decide), hcomma, hperiod, trivial⟩
  have hsecond : second.Faithful := ⟨by decide, hid 1 (by decide), hid 2 (by decide), trivial⟩
  have hreadFirst : Outline.read .json (first.encode .json) = .ok first :=
    Outline.read_encode_json hfirst (by decide)
  have hreadSecond : Outline.read .byteTree (second.encode .byteTree) = .ok second :=
    Outline.read_encode_byteTree hsecond (by decide)
  have hcallFirst : empty.deserialize .json (first.encode .json) =
      (.ok a, ⟨[(1, .token 1 period), (2, a)], 2⟩) := deserialize_of_take hreadFirst rfl nofun
  have hcallSecond : deserialize ⟨[(1, .token 1 period), (2, a)], 2⟩ .byteTree
      (second.encode .byteTree) = (.ok b, ⟨[(1, b), (2, a)], 2⟩) :=
    deserialize_of_take hreadSecond rfl nofun
  have hrun : empty.deserializeAll
      [⟨.json, first.encode .json⟩, ⟨.byteTree, second.encode .byteTree⟩] =
        ([a, b].map .ok, ⟨[(1, b), (2, a)], 2⟩) := by
    rw [deserializeAll_cons, hcallFirst, deserializeAll_cons, hcallSecond]
    rfl
  obtain ⟨roots, hread, hfound, -, -, hsize⟩ := find?_last_completed hrun
  have hroots : roots = [first, second] := by
    have hreads : roots.map (Except.ok : Outline → Except Fault Outline) = [first, second].map .ok := by
      rw [← hread]
      change [Outline.read .json _, Outline.read .byteTree _] = _
      rw [hreadFirst, hreadSecond]
      rfl
    exact List.map_injective_iff.mpr (fun _ _ h => Except.ok.inj h) hreads
  subst hroots
  refine ⟨_, hrun, (hfound 1 b).mpr ⟨[1], ?_, rfl⟩, (hfound 2 a).mpr ⟨[0], ?_, rfl⟩, hsize⟩
  · exact ((Outline.LastFresh.self "B" .present 1 _).head List.not_mem_nil).tail first
  · exact (Outline.LastFresh.self "A" .present 2 _).head (by decide)

end Session
end SourceTree
