import Mathlib.Data.List.Induction
import SourceTree.Proofs.Keyed
import SourceTree.Proofs.Outline.References
import SourceTree.Proofs.Tree.Alike
import SourceTree.Session.Basic

/-!
# What a session takes in

The store after an outline was taken in is the store before it with the completed nodes put in, in the
order of their completion: a node after everything in its slots. So a session changes what it holds
under the ids that an outline brings and under no others, and that is so even if the outline turns out
to be wrong.
-/
namespace SourceTree

/-! ### Completed nodes -/

/-- Nodes with their ids, in the order in which they were completed. -/
abbrev Completions := List (Int × Tree)

namespace Completions

/-- The node of an id that was completed last. -/
def last? (nodes : Completions) (id : Int) : Option Tree := nodes.reverse.lookup id

theorem last?_append_singleton (nodes : Completions) (node : Int × Tree) (id : Int) :
    last? (nodes ++ [node]) id = if id == node.1 then some node.2 else nodes.last? id := by
  rw [last?, List.reverse_append, List.reverse_singleton, List.singleton_append, List.lookup_cons]
  cases id == node.1 <;> rfl

/-- Where no id comes twice, a node that was completed is the last of its id. -/
theorem last?_of_mem {nodes : Completions} (hdistinct : (nodes.map Prod.fst).Nodup) {id : Int}
    {tree : Tree} (hmem : (id, tree) ∈ nodes) : nodes.last? id = some tree := by
  induction nodes using List.reverseRecOn with
  | nil => cases hmem
  | append_singleton nodes node ih =>
    rw [List.map_append, List.nodup_append] at hdistinct
    obtain ⟨hnodes, -, hapart⟩ := hdistinct
    rw [last?_append_singleton]
    rcases List.mem_append.mp hmem with hearlier | hlast
    · have hne : id ≠ node.1 :=
        hapart id (List.mem_map_of_mem hearlier) node.1 (List.mem_singleton_self _)
      rw [beq_false_of_ne hne]
      exact ih hnodes hearlier
    · rw [← List.mem_singleton.mp hlast, beq_self_eq_true]
      rfl

end Completions

namespace Store

/-- Puts nodes in, one after the other. -/
def rememberAll (store : Store) (nodes : Completions) : Store :=
  nodes.foldl (fun store node => store.put node.1 node.2) store

theorem rememberAll_append (store : Store) (front back : Completions) :
    store.rememberAll (front ++ back) = (store.rememberAll front).rememberAll back :=
  List.foldl_append

/-- The node completed last is found; where there is none, the one that was there before. -/
theorem find?_rememberAll (store : Store) (nodes : Completions) (id : Int) :
    (store.rememberAll nodes).find? id = (nodes.last? id).or (store.find? id) :=
  Keyed.lookup_putAll store nodes id

end Store

namespace Outline

/-- A node with its id, if it has one. -/
def completion (id : Option Int) (tree : Tree) : Completions := id.toList.map fun id => (id, tree)

theorem rememberAll_completion (store : Store) (id : Option Int) (tree : Tree) :
    store.rememberAll (completion id tree) = store.remember id tree := by
  cases id <;> rfl

theorem map_fst_completion (id : Option Int) (tree : Tree) :
    (completion id tree).map Prod.fst = id.toList := by
  cases id <;> rfl

mutual

/-- The nodes that an outline brings, in the order of their completion, when it has become `tree`. -/
def completions : Outline → Tree → Completions
  | .absent, _ => []
  | .fault _, _ => []
  | .reference _, _ => []
  | .token t, tree => completion t.id tree
  | .node _ _ id slots, tree => completionsOfAll slots tree.layout ++ completion id tree

def completionsOfAll : List Outline → List Tree → Completions
  | slot :: slots, tree :: trees => slot.completions tree ++ completionsOfAll slots trees
  | _, _ => []

end

mutual

/-- A tree that leaves nothing out completes every node of it once. -/
theorem map_fst_completions_ofTree : ∀ t : Tree,
    ((ofTree t).completions t).map Prod.fst = (ofTree t).freshIds
  | .absent => rfl
  | .token _ t => map_fst_completion t.id _
  | .node _ _ id layout => by
    rw [ofTree, completions, freshIds, List.map_append, map_fst_completion]
    exact congrArg (· ++ id.toList) (map_fst_completionsOfAll_ofTrees layout)

theorem map_fst_completionsOfAll_ofTrees : ∀ ts : List Tree,
    (completionsOfAll (ofTrees ts) ts).map Prod.fst = freshIdsOfAll (ofTrees ts)
  | [] => rfl
  | t :: ts => by
    rw [ofTrees, completionsOfAll, freshIdsOfAll, List.map_append, map_fst_completions_ofTree t,
      map_fst_completionsOfAll_ofTrees ts]

end

/-- What stands in a slot is completed with the slots. -/
theorem completions_subset_completionsOfAll : ∀ {layout : List Tree} {t : Tree}, t ∈ layout →
    (ofTree t).completions t ⊆ completionsOfAll (ofTrees layout) layout
  | u :: _, t, ht => by
    rw [ofTrees, completionsOfAll]
    rcases List.mem_cons.mp ht with rfl | hrest
    · exact List.subset_append_left _ _
    · exact List.subset_append_of_subset_right _ (completions_subset_completionsOfAll hrest)

/-- Every node of a tree with an id is completed under that id. -/
theorem mem_completions_ofTree {id : Int} : ∀ (path : List Nat) (t : Tree),
    (t.follow path).id = some id → (id, t.follow path) ∈ (ofTree t).completions t
  | [], .absent, h => nomatch h
  | [], .token serial t, h => by
    have hid : t.id = some id := h
    rw [ofTree, completions, completion, hid]
    exact List.mem_singleton_self _
  | [], .node kind presence nodeId layout, h => by
    have hid : nodeId = some id := h
    rw [ofTree, completions, completion, hid]
    exact List.mem_append_right _ (List.mem_singleton_self _)
  | slot :: path, .absent, h => nomatch (mem_completions_ofTree path .absent h)
  | slot :: path, .token _ _, h => nomatch (mem_completions_ofTree path .absent h)
  | slot :: path, .node _ _ _ layout, h => by
    have hslot := mem_completions_ofTree path ((layout[slot]?).getD .absent) h
    rw [ofTree, completions]
    apply List.mem_append_left
    cases hfound : layout[slot]? with
    | none =>
      rw [hfound] at hslot
      nomatch hslot
    | some t =>
      have hmem : t ∈ layout := List.mem_of_getElem? hfound
      have hfollow : Tree.follow (.node ‹_› ‹_› ‹_› layout) (slot :: path) = t.follow path := by
        rw [Tree.follow, Tree.layout, hfound]
        rfl
      rw [hfound] at hslot
      rw [hfollow]
      exact completions_subset_completionsOfAll hmem hslot

end Outline

/-! ### Runs -/

namespace Session

variable {s s' : Session}

theorem take_reference_ok {id : Int} {t : Tree} (h : s.take (.reference id) = (.ok t, s')) :
    s.store.find? id = some t ∧ s' = s := by
  rw [take] at h
  cases hfound : s.store.find? id with
  | none =>
    rw [hfound] at h
    nomatch h
  | some held =>
    rw [hfound] at h
    obtain ⟨hheld, hsame⟩ := Prod.mk.inj h
    exact ⟨congrArg some (Except.ok.inj hheld), hsame.symm⟩

theorem take_node_ok {kind : String} {presence : Presence} {id : Option Int} {slots : List Outline}
    {t : Tree} (h : s.take (.node kind presence id slots) = (.ok t, s')) :
    ∃ layout mid, s.takeAll slots = (.ok layout, mid) ∧ t = .node kind presence id layout ∧
      s' = mid.remember id t := by
  rw [take] at h
  rcases hslots : s.takeAll slots with ⟨cause | layout, mid⟩
  · rw [hslots] at h
    nomatch h
  · rw [hslots] at h
    obtain ⟨htree, hsession⟩ := Prod.mk.inj h
    have ht : t = .node kind presence id layout := (Except.ok.inj htree).symm
    exact ⟨layout, mid, rfl, ht, by rw [ht, hsession]⟩

theorem takeAll_cons_ok {slot : Outline} {rest : List Outline} {trees : List Tree}
    (h : s.takeAll (slot :: rest) = (.ok trees, s')) :
    ∃ tree mid more, s.take slot = (.ok tree, mid) ∧ mid.takeAll rest = (.ok more, s') ∧
      trees = tree :: more := by
  rw [takeAll] at h
  rcases hslot : s.take slot with ⟨cause | tree, mid⟩
  · rw [hslot] at h
    nomatch h
  · rw [hslot] at h
    rcases hrest : mid.takeAll rest with ⟨cause | more, last⟩
    · simp only [hrest] at h
      nomatch h
    · simp only [hrest] at h
      obtain ⟨htrees, hsession⟩ := Prod.mk.inj h
      exact ⟨tree, mid, more, rfl, hrest.trans (by rw [hsession]), (Except.ok.inj htrees).symm⟩

mutual

/-- What a session holds under an id that an outline does not bring stays, whatever the outcome. -/
theorem find?_take {id : Int} : ∀ (o : Outline) (s : Session), id ∉ o.freshIds →
    (s.take o).2.store.find? id = s.store.find? id
  | .absent, _, _ => rfl
  | .fault _, _, _ => rfl
  | .reference n, s, _ => by
    rw [take]
    split <;> rfl
  | .token t, s, hid => by
    have hother : t.id ≠ some id := fun h => hid (by simp [Outline.freshIds, h])
    change (s.store.remember t.id _).find? id = _
    rw [Store.find?_remember, if_neg hother]
  | .node kind presence nodeId slots, s, hid => by
    rw [Outline.freshIds, List.mem_append, not_or] at hid
    obtain ⟨hslots, hnode⟩ := hid
    have hother : nodeId ≠ some id := fun h => hnode (by simp [h])
    have hmid := find?_takeAll slots s hslots
    rw [take]
    rcases hall : s.takeAll slots with ⟨cause | layout, mid⟩
    · rw [hall] at hmid
      exact hmid
    · rw [hall] at hmid
      change (mid.store.remember nodeId _).find? id = _
      rw [Store.find?_remember, if_neg hother]
      exact hmid

theorem find?_takeAll {id : Int} : ∀ (slots : List Outline) (s : Session),
    id ∉ Outline.freshIdsOfAll slots → (s.takeAll slots).2.store.find? id = s.store.find? id
  | [], _, _ => rfl
  | slot :: rest, s, hid => by
    rw [Outline.freshIdsOfAll, List.mem_append, not_or] at hid
    have hmid := find?_take slot s hid.1
    rw [takeAll]
    rcases hslot : s.take slot with ⟨cause | tree, mid⟩
    · rw [hslot] at hmid
      exact hmid
    · have hlast := find?_takeAll rest mid hid.2
      rw [hslot] at hmid
      rcases hrest : mid.takeAll rest with ⟨cause | more, last⟩
      · simp only [hrest] at hlast ⊢
        exact hlast.trans hmid
      · simp only [hrest] at hlast ⊢
        exact hlast.trans hmid

end

mutual

/-- An outline that is taken in puts its nodes into the store in the order of their completion. -/
theorem store_take : ∀ {o : Outline} {s s' : Session} {t : Tree}, s.take o = (.ok t, s') →
    s'.store = s.store.rememberAll (o.completions t)
  | .absent, _, _, _, h => congrArg store (Prod.mk.inj h).2.symm
  | .fault _, _, _, _, h => nomatch h
  | .reference _, _, _, _, h => congrArg store (take_reference_ok h).2
  | .token t, s, _, _, h => by
    obtain ⟨htree, hsession⟩ := Prod.mk.inj h
    rw [← hsession, ← Except.ok.inj htree, Outline.completions, Outline.rememberAll_completion]
  | .node kind presence id slots, s, s', t, h => by
    obtain ⟨layout, mid, hslots, rfl, rfl⟩ := take_node_ok h
    have hmid := store_takeAll hslots
    rw [Outline.completions, Store.rememberAll_append, Outline.rememberAll_completion]
    change mid.store.remember id _ = _
    rw [hmid]
    rfl

theorem store_takeAll : ∀ {slots : List Outline} {s s' : Session} {trees : List Tree},
    s.takeAll slots = (.ok trees, s') →
    s'.store = s.store.rememberAll (Outline.completionsOfAll slots trees)
  | [], _, _, _, h => congrArg store (Prod.mk.inj h).2.symm
  | slot :: rest, s, s', _, h => by
    obtain ⟨tree, mid, more, hslot, hrest, rfl⟩ := takeAll_cons_ok h
    have hmid := store_take hslot
    have hlast := store_takeAll hrest
    rw [Outline.completionsOfAll, Store.rememberAll_append, hlast, hmid]

end

mutual

/-- Where nothing is left out, the tree says what the outline says. -/
theorem ofTree_of_take : ∀ {o : Outline} {s s' : Session} {t : Tree}, o.references = [] →
    s.take o = (.ok t, s') → Outline.ofTree t = o
  | .absent, _, _, _, _, h => by
    rw [← Except.ok.inj (Prod.mk.inj h).1]
    rfl
  | .fault _, _, _, _, _, h => nomatch h
  | .reference _, _, _, _, hrefs, _ => nomatch hrefs
  | .token _, _, _, _, _, h => by
    rw [← Except.ok.inj (Prod.mk.inj h).1]
    rfl
  | .node kind presence id slots, _, _, _, hrefs, h => by
    obtain ⟨layout, mid, hslots, rfl, -⟩ := take_node_ok h
    rw [Outline.ofTree, ofTrees_of_takeAll hrefs hslots]

theorem ofTrees_of_takeAll : ∀ {slots : List Outline} {s s' : Session} {trees : List Tree},
    Outline.referencesOfAll slots = [] → s.takeAll slots = (.ok trees, s') →
    Outline.ofTrees trees = slots
  | [], _, _, _, _, h => by
    rw [← Except.ok.inj (Prod.mk.inj h).1]
    rfl
  | slot :: rest, _, _, _, hrefs, h => by
    obtain ⟨tree, mid, more, hslot, hrest, rfl⟩ := takeAll_cons_ok h
    obtain ⟨hslotRefs, hrestRefs⟩ := List.append_eq_nil_iff.mp hrefs
    rw [Outline.ofTrees, ofTree_of_take hslotRefs hslot, ofTrees_of_takeAll hrestRefs hrest]

end

/-- After an outline that leaves nothing out and brings no id twice, the session holds every node of
its tree under the node's id. -/
theorem find?_of_take {o : Outline} {t : Tree} (hrefs : o.references = []) (hdistinct : o.freshIds.Nodup)
    (h : s.take o = (.ok t, s')) {path : List Nat} {id : Int} (hid : (t.follow path).id = some id) :
    s'.store.find? id = some (t.follow path) := by
  have hmeans : Outline.ofTree t = o := ofTree_of_take hrefs h
  have hstore := store_take h
  rw [← hmeans] at hstore hdistinct
  rw [← Outline.map_fst_completions_ofTree] at hdistinct
  have hlast := Completions.last?_of_mem hdistinct (Outline.mem_completions_ofTree path t hid)
  rw [hstore, Store.find?_rememberAll, hlast]
  rfl

/-! ### References that are held -/

/-- The session holds, under an id, a node that says `said`. -/
def Holds (s : Session) (id : Int) (said : Outline) : Prop :=
  ∃ held, s.store.find? id = some held ∧ Outline.ofTree held = said

mutual

/-- If the session holds what an outline leaves out, and the outline itself brings none of the ids
that it refers to, then it becomes the tree that says all of it. -/
theorem take_of_resolved {standing : Int → Outline} : ∀ {o : Outline} {s : Session} {f : Tree},
    (∀ id ∈ o.references, s.Holds id (standing id)) →
    (∀ id ∈ o.references, id ∉ o.freshIds) →
    o.resolved standing = Outline.ofTree f → ∃ t s', s.take o = (.ok t, s') ∧ t.Alike f
  | .absent, s, f, _, _, hmeans => ⟨.absent, s, rfl, hmeans⟩
  | .fault _, _, f, _, _, hmeans => by
    cases f <;> nomatch hmeans
  | .reference id, s, f, hholds, _, hmeans => by
    obtain ⟨held, hfound, hsaid⟩ := hholds id (List.mem_singleton_self id)
    refine ⟨held, s, ?_, hsaid.trans hmeans⟩
    rw [take, hfound]
  | .token t, s, f, _, _, hmeans => ⟨.token s.nextSerial t, _, rfl, hmeans⟩
  | .node kind presence id slots, s, f, hholds, hapart, hmeans => by
    cases f with
    | absent => nomatch hmeans
    | token _ _ => nomatch hmeans
    | node fkind fpresence fid layout =>
      obtain ⟨rfl, rfl, rfl, hslots⟩ := Outline.node.inj hmeans
      have hapartSlots : ∀ n ∈ Outline.referencesOfAll slots, n ∉ Outline.freshIdsOfAll slots :=
        fun n hn hfresh => hapart n hn (List.mem_append_left _ hfresh)
      obtain ⟨trees, mid, htake, halike⟩ := takeAll_of_resolved hholds hapartSlots hslots
      refine ⟨.node kind presence id trees, mid.remember id (.node kind presence id trees), ?_, ?_⟩
      · rw [take, htake]
      · change Outline.node kind presence id _ = Outline.node kind presence id _
        rw [halike]

theorem takeAll_of_resolved {standing : Int → Outline} :
    ∀ {slots : List Outline} {s : Session} {fs : List Tree},
    (∀ id ∈ Outline.referencesOfAll slots, s.Holds id (standing id)) →
    (∀ id ∈ Outline.referencesOfAll slots, id ∉ Outline.freshIdsOfAll slots) →
    Outline.resolvedAll standing slots = Outline.ofTrees fs →
    ∃ trees s', s.takeAll slots = (.ok trees, s') ∧ Outline.ofTrees trees = Outline.ofTrees fs
  | [], s, fs, _, _, hmeans => ⟨[], s, rfl, hmeans⟩
  | slot :: rest, s, [], _, _, hmeans => nomatch hmeans
  | slot :: rest, s, f :: fs, hholds, hapart, hmeans => by
    obtain ⟨hmeansSlot, hmeansRest⟩ := List.cons.inj hmeans
    have hinSlot : ∀ n ∈ slot.references, n ∈ Outline.referencesOfAll (slot :: rest) :=
      fun n hn => List.mem_append_left _ hn
    have hinRest : ∀ n ∈ Outline.referencesOfAll rest,
        n ∈ Outline.referencesOfAll (slot :: rest) :=
      fun n hn => List.mem_append_right _ hn
    obtain ⟨tree, mid, hslot, halike⟩ := take_of_resolved (fun n hn => hholds n (hinSlot n hn))
      (fun n hn hfresh => hapart n (hinSlot n hn) (List.mem_append_left _ hfresh)) hmeansSlot
    -- the slot brings none of the ids that the rest refers to, so they are held as before
    have hmid : ∀ n ∈ Outline.referencesOfAll rest, mid.Holds n (standing n) := by
      intro n hn
      obtain ⟨held, hfound, hsaid⟩ := hholds n (hinRest n hn)
      have hkept := find?_take slot s fun hfresh =>
        hapart n (hinRest n hn) (List.mem_append_left _ hfresh)
      rw [hslot] at hkept
      exact ⟨held, hkept.trans hfound, hsaid⟩
    obtain ⟨trees, s', hrest, halikeRest⟩ := takeAll_of_resolved hmid
      (fun n hn hfresh => hapart n (hinRest n hn) (List.mem_append_right _ hfresh)) hmeansRest
    refine ⟨tree :: trees, s', ?_, ?_⟩
    · simp only [takeAll, hslot, hrest]
    · rw [Outline.ofTrees, Outline.ofTrees, halikeRest]
      exact congrArg (· :: _) halike

end

/-! ### Payloads -/

variable {format : Format} {payload : List UInt8} {root : Outline} {t : Tree} {cause : Fault}

theorem takeRoot_absent (h : s.take root = (.ok .absent, s')) :
    s.takeRoot root = (.error .noRoot, s') := by
  rw [takeRoot, h]

theorem takeRoot_error (h : s.take root = (.error cause, s')) :
    s.takeRoot root = (.error cause, s') := by
  rw [takeRoot, h]

theorem takeRoot_ok (h : s.take root = (.ok t, s')) (ht : t ≠ .absent) :
    s.takeRoot root = (.ok t, s') := by
  cases t with
  | absent => exact absurd rfl ht
  | token serial token => simp only [takeRoot, h]
  | node kind presence id layout => simp only [takeRoot, h]

/-- A payload that gives a tree is taken in, and something stands at its root. -/
theorem take_of_deserialize (hread : Outline.read format payload = .ok root)
    (h : s.deserialize format payload = (.ok t, s')) : s.take root = (.ok t, s') ∧ t ≠ .absent := by
  rw [deserialize, hread] at h
  change s.takeRoot root = _ at h
  rcases hroot : s.take root with ⟨cause | t', mid⟩
  · rw [takeRoot_error hroot] at h
    nomatch h
  · by_cases habsent : t' = .absent
    · rw [habsent] at hroot
      rw [takeRoot_absent hroot] at h
      nomatch h
    · rw [takeRoot_ok hroot habsent] at h
      obtain ⟨ht, rfl⟩ := Prod.mk.inj h
      obtain rfl := Except.ok.inj ht
      exact ⟨rfl, habsent⟩

theorem exists_take_of_deserialize (h : s.deserialize format payload = (.ok t, s')) :
    ∃ root, Outline.read format payload = .ok root ∧ s.take root = (.ok t, s') := by
  cases hread : Outline.read format payload with
  | error cause =>
    rw [deserialize, hread] at h
    cases h
  | ok root => exact ⟨root, rfl, (take_of_deserialize hread h).1⟩

/-- A payload that is taken in gives its tree if something stands at its root. -/
theorem deserialize_of_take (hread : Outline.read format payload = .ok root)
    (h : s.take root = (.ok t, s')) (hroot : t ≠ .absent) :
    s.deserialize format payload = (.ok t, s') := by
  rw [deserialize, hread]
  exact takeRoot_ok h hroot

theorem deserialize_of_take_error (hread : Outline.read format payload = .ok root)
    (h : (s.take root).1 = .error cause) : (s.deserialize format payload).1 = .error cause := by
  rw [deserialize, hread]
  exact congrArg Prod.fst (takeRoot_error (Prod.ext h rfl))

end Session
end SourceTree
