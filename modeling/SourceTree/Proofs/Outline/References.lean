import SourceTree.Outline.OfTree

/-!
# References, fresh nodes and faults of an outline

What a payload leaves out and what it brings, as ids in the order of the payload, what is wrong in it,
and the outline that is left when every reference is replaced by what it stands for.
-/
namespace SourceTree.Outline

mutual

/-- The ids of the nodes that are left out. -/
def references : Outline → List Int
  | .absent => []
  | .fault _ => []
  | .reference id => [id]
  | .token _ => []
  | .node _ _ _ slots => referencesOfAll slots

def referencesOfAll : List Outline → List Int
  | [] => []
  | slot :: rest => slot.references ++ referencesOfAll rest

end

mutual

/-- The ids of the nodes and tokens that are not left out, a node after what is in its slots. -/
def freshIds : Outline → List Int
  | .absent => []
  | .fault _ => []
  | .reference _ => []
  | .token t => t.id.toList
  | .node _ _ id slots => freshIdsOfAll slots ++ id.toList

def freshIdsOfAll : List Outline → List Int
  | [] => []
  | slot :: rest => slot.freshIds ++ freshIdsOfAll rest

end

mutual

/-- What is wrong, in the order of the payload. -/
def faults : Outline → List Fault
  | .absent => []
  | .fault cause => [cause]
  | .reference _ => []
  | .token _ => []
  | .node _ _ _ slots => faultsOfAll slots

def faultsOfAll : List Outline → List Fault
  | [] => []
  | slot :: slots => slot.faults ++ faultsOfAll slots

end

mutual

/-- The outline with what its references stand for in their place. -/
def resolved (standing : Int → Outline) : Outline → Outline
  | .absent => .absent
  | .fault cause => .fault cause
  | .reference id => standing id
  | .token t => .token t
  | .node kind presence id slots => .node kind presence id (resolvedAll standing slots)

def resolvedAll (standing : Int → Outline) : List Outline → List Outline
  | [] => []
  | slot :: rest => slot.resolved standing :: resolvedAll standing rest

end

/-- The slots; nothing but a node has any. -/
def slots : Outline → List Outline
  | .node _ _ _ slots => slots
  | _ => []

/-- What stands in a slot; nothing does past the end. -/
def slotAt (o : Outline) (slot : Nat) : Outline := (o.slots[slot]?).getD .absent

/-- What is found by following slots from the root. -/
def follow : Outline → List Nat → Outline
  | o, [] => o
  | o, slot :: path => follow (o.slotAt slot) path

/-- There is nothing beneath an empty slot. -/
theorem follow_absent (path : List Nat) : follow .absent path = .absent := by
  induction path with
  | nil => rfl
  | cons slot path ih => exact ih

theorem mem_slots_of_slotAt {o : Outline} {slot : Nat} (h : o.slotAt slot ≠ .absent) :
    o.slotAt slot ∈ o.slots := by
  unfold slotAt at h ⊢
  cases hfound : o.slots[slot]? with
  | none =>
    rw [hfound] at h
    exact absurd rfl h
  | some inner => exact List.mem_of_getElem? hfound

/-- What is listed of the slots is listed of the node, and so what is listed of a place is listed of
the whole. -/
theorem subset_of_follow {α : Type} {listed : Outline → List α} (hnone : listed .absent = [])
    (hnode : ∀ kind presence id slots,
      slots.flatMap listed ⊆ listed (.node kind presence id slots)) (path : List Nat) :
    ∀ o : Outline, listed (o.follow path) ⊆ listed o := by
  induction path with
  | nil => exact fun o => List.Subset.refl _
  | cons slot path ih =>
    intro o
    have hslot : listed (o.slotAt slot) ⊆ listed o := by
      by_cases habsent : o.slotAt slot = .absent
      · rw [habsent, hnone]
        exact List.nil_subset _
      · have hmem : o.slotAt slot ∈ o.slots := mem_slots_of_slotAt habsent
        cases o with
        | node kind presence id slots =>
          intro a ha
          exact hnode kind presence id slots (List.mem_flatMap.mpr ⟨_, hmem, ha⟩)
        | absent => nomatch hmem
        | fault cause => nomatch hmem
        | reference id => nomatch hmem
        | token t => nomatch hmem
    exact List.Subset.trans (ih (o.slotAt slot)) hslot

theorem referencesOfAll_eq (slots : List Outline) :
    referencesOfAll slots = slots.flatMap references := by
  induction slots with
  | nil => rfl
  | cons slot rest ih => rw [referencesOfAll, ih, List.flatMap_cons]

theorem freshIdsOfAll_eq (slots : List Outline) : freshIdsOfAll slots = slots.flatMap freshIds := by
  induction slots with
  | nil => rfl
  | cons slot rest ih => rw [freshIdsOfAll, ih, List.flatMap_cons]

theorem freshIdsOfAll_slots_subset (o : Outline) : freshIdsOfAll o.slots ⊆ o.freshIds := by
  cases o with
  | node kind presence id slots => exact List.subset_append_left _ _
  | _ => exact List.nil_subset _

theorem faultsOfAll_eq (slots : List Outline) : faultsOfAll slots = slots.flatMap faults := by
  induction slots with
  | nil => rfl
  | cons slot rest ih => rw [faultsOfAll, ih, List.flatMap_cons]

theorem references_follow_subset (o : Outline) (path : List Nat) :
    (o.follow path).references ⊆ o.references := by
  refine subset_of_follow rfl (fun kind presence id slots => ?_) path o
  rw [references, referencesOfAll_eq]
  exact List.Subset.refl _

theorem freshIds_follow_subset (o : Outline) (path : List Nat) :
    (o.follow path).freshIds ⊆ o.freshIds := by
  refine subset_of_follow rfl (fun kind presence id slots => ?_) path o
  rw [freshIds, freshIdsOfAll_eq]
  exact List.subset_append_left _ _

theorem faults_follow_subset (o : Outline) (path : List Nat) :
    (o.follow path).faults ⊆ o.faults := by
  refine subset_of_follow rfl (fun kind presence id slots => ?_) path o
  rw [faults, faultsOfAll_eq]
  exact List.Subset.refl _

mutual

/-- Where nothing is left out there is nothing to resolve. -/
theorem resolved_of_references_eq_nil (standing : Int → Outline) :
    ∀ o : Outline, o.references = [] → o.resolved standing = o
  | .absent, _ => rfl
  | .fault _, _ => rfl
  | .reference _, h => nomatch h
  | .token _, _ => rfl
  | .node _ _ _ slots, h => by
    rw [resolved, resolvedAll_of_references_eq_nil standing slots h]

theorem resolvedAll_of_references_eq_nil (standing : Int → Outline) :
    ∀ slots : List Outline, referencesOfAll slots = [] → resolvedAll standing slots = slots
  | [], _ => rfl
  | slot :: rest, h => by
    obtain ⟨hslot, hrest⟩ := List.append_eq_nil_iff.mp h
    rw [resolvedAll, resolved_of_references_eq_nil standing slot hslot,
      resolvedAll_of_references_eq_nil standing rest hrest]

end

mutual

/-- A tree leaves nothing out. -/
theorem references_ofTree : ∀ t : Tree, (ofTree t).references = []
  | .absent => rfl
  | .token _ _ => rfl
  | .node _ _ _ layout => by
    rw [ofTree, references, referencesOfAll_ofTrees layout]

theorem referencesOfAll_ofTrees : ∀ ts : List Tree, referencesOfAll (ofTrees ts) = []
  | [] => rfl
  | t :: rest => by
    rw [ofTrees, referencesOfAll, references_ofTree t, referencesOfAll_ofTrees rest, List.nil_append]

end

mutual

/-- Nothing is wrong in a tree. -/
theorem faults_ofTree : ∀ t : Tree, (ofTree t).faults = []
  | .absent => rfl
  | .token _ _ => rfl
  | .node _ _ _ layout => by
    rw [ofTree, faults, faultsOfAll_ofTrees layout]

theorem faultsOfAll_ofTrees : ∀ ts : List Tree, faultsOfAll (ofTrees ts) = []
  | [] => rfl
  | t :: rest => by
    rw [ofTrees, faultsOfAll, faults_ofTree t, faultsOfAll_ofTrees rest, List.nil_append]

end

end SourceTree.Outline
