import SourceTree.Markup
import SourceTree.Proofs.Tree.Places
import SourceTree.Tree.Pruning

/-!
# What is missing

A node or token that is missing is as good as an empty slot, with everything beneath it: the tokens, the
walks, the classes and every rendering are those of the tree with empty slots in the place of all that is
missing. The slots after it keep their numbers, so the contexts of their tokens do not shift.
-/
namespace SourceTree.Tree

/-! ### The tree without what is missing -/

theorem getElem?_withoutMissingAll (ts : List Tree) (slot : Nat) :
    (withoutMissingAll ts)[slot]? = (ts[slot]?).map withoutMissing := by
  induction ts generalizing slot with
  | nil => rfl
  | cons t ts ih =>
    cases slot with
    | zero => rfl
    | succ slot => simp only [withoutMissingAll, List.getElem?_cons_succ, ih]

theorem withoutMissing_of_not_isPresent {t : Tree} (h : ¬ t.isPresent) : t.withoutMissing = .absent := by
  cases t with
  | absent => rfl
  | token serial t => exact if_neg h
  | node kind presence id layout => exact if_neg h

theorem slotAt_withoutMissing {t : Tree} (h : t.isPresent) (slot : Nat) :
    t.withoutMissing.slotAt slot = (t.slotAt slot).withoutMissing := by
  cases t with
  | absent => rfl
  | token serial t =>
    have hkept : (Tree.token serial t).withoutMissing = .token serial t := if_pos h
    rw [hkept]
    rfl
  | node kind presence id slots =>
    have hkept : (Tree.node kind presence id slots).withoutMissing =
        .node kind presence id (withoutMissingAll slots) := if_pos h
    rw [hkept]
    simp only [slotAt, layout, getElem?_withoutMissingAll]
    cases slots[slot]? <;> rfl

/-- A place that is shown is still there; any other place is empty. -/
theorem follow_withoutMissing (path : List Nat) : ∀ t : Tree,
    (t.Shows path → t.withoutMissing.follow path = (t.follow path).withoutMissing) ∧
      (¬ t.Shows path → t.withoutMissing.follow path = .absent) := by
  induction path with
  | nil => exact fun t => ⟨fun _ => rfl, withoutMissing_of_not_isPresent⟩
  | cons slot path ih =>
    intro t
    by_cases h : t.isPresent
    · rw [follow_cons, slotAt_withoutMissing h, Shows]
      simp only [h, true_and]
      exact ih (t.slotAt slot)
    · rw [Shows, withoutMissing_of_not_isPresent h, follow_absent]
      simp [h]

/-! ### Walks -/

mutual

theorem tokens_withoutMissing : ∀ t : Tree, t.withoutMissing.tokens = t.tokens
  | .absent => rfl
  | .token _ t => by
    by_cases h : t.isPresent <;> simp [withoutMissing, tokens, h]
  | .node _ presence _ layout => by
    by_cases h : presence.isPresent <;>
      simp [withoutMissing, tokens, h, tokensOfAll_withoutMissingAll layout]

theorem tokensOfAll_withoutMissingAll : ∀ ts : List Tree,
    tokensOfAll (withoutMissingAll ts) = tokensOfAll ts
  | [] => rfl
  | t :: ts => by
    rw [withoutMissingAll, tokensOfAll, tokensOfAll, tokens_withoutMissing t,
      tokensOfAll_withoutMissingAll ts]

end

mutual

theorem events_withoutMissing (skips : List String) : ∀ t : Tree,
    t.withoutMissing.events skips = t.events skips
  | .absent => rfl
  | .token _ t => by
    by_cases h : t.isPresent <;> simp [withoutMissing, events, h]
  | .node _ presence _ layout => by
    by_cases h : presence.isPresent <;>
      simp [withoutMissing, events, h, eventsOfAll_withoutMissingAll skips layout]

theorem eventsOfAll_withoutMissingAll (skips : List String) : ∀ ts : List Tree,
    eventsOfAll skips (withoutMissingAll ts) = eventsOfAll skips ts
  | [] => rfl
  | t :: ts => by
    rw [withoutMissingAll, eventsOfAll, eventsOfAll, events_withoutMissing skips t,
      eventsOfAll_withoutMissingAll skips ts]

end

mutual

theorem walkDepth_withoutMissing (skips : List String) : ∀ t : Tree,
    t.withoutMissing.walkDepth skips = t.walkDepth skips
  | .absent => rfl
  | .token _ t => by
    by_cases h : t.isPresent <;> simp [withoutMissing, walkDepth, h]
  | .node _ presence _ layout => by
    by_cases h : presence.isPresent <;>
      simp [withoutMissing, walkDepth, h, walkDepthOfAll_withoutMissingAll skips layout]

theorem walkDepthOfAll_withoutMissingAll (skips : List String) : ∀ ts : List Tree,
    walkDepthOfAll skips (withoutMissingAll ts) = walkDepthOfAll skips ts
  | [] => rfl
  | t :: ts => by
    rw [withoutMissingAll, walkDepthOfAll, walkDepthOfAll, walkDepth_withoutMissing skips t,
      walkDepthOfAll_withoutMissingAll skips ts]

end

/-! ### Classes and obstacles -/

mutual

theorem classified_withoutMissing (context : Option Context) : ∀ t : Tree,
    t.withoutMissing.classified context = t.classified context
  | .absent => rfl
  | .token _ t => by
    by_cases h : t.isPresent <;> simp [withoutMissing, classified, h]
  | .node kind presence _ layout => by
    by_cases h : presence.isPresent <;>
      simp [withoutMissing, classified, h, classifiedFrom_withoutMissingAll context kind 0 layout]

theorem classifiedFrom_withoutMissingAll (context : Option Context) (kind : String) :
    ∀ (slot : Nat) (ts : List Tree),
      classifiedFrom context kind slot (withoutMissingAll ts) = classifiedFrom context kind slot ts
  | _, [] => rfl
  | slot, t :: ts => by
    rw [withoutMissingAll, classifiedFrom, classifiedFrom, classified_withoutMissing _ t,
      classifiedFrom_withoutMissingAll context kind (slot + 1) ts]

end

theorem classes_withoutMissing (t : Tree) : t.withoutMissing.classes = t.classes := by
  rw [classes, classes, classified_withoutMissing]

mutual

theorem firstObstacle_withoutMissing : ∀ (room : Nat) (t : Tree),
    t.withoutMissing.firstObstacle room = t.firstObstacle room
  | _, .absent => rfl
  | 0, .token _ t => by
    by_cases h : t.isPresent <;> simp [withoutMissing, firstObstacle, h]
  | _ + 1, .token _ t => by
    by_cases h : t.isPresent <;> simp [withoutMissing, firstObstacle, h]
  | 0, .node _ presence _ _ => by
    by_cases h : presence.isPresent <;> simp [withoutMissing, firstObstacle, h]
  | room + 1, .node _ presence _ layout => by
    by_cases h : presence.isPresent <;>
      simp [withoutMissing, firstObstacle, h, firstObstacleOfAll_withoutMissingAll room layout]

theorem firstObstacleOfAll_withoutMissingAll : ∀ (room : Nat) (ts : List Tree),
    firstObstacleOfAll room (withoutMissingAll ts) = firstObstacleOfAll room ts
  | _, [] => rfl
  | room, t :: ts => by
    rw [withoutMissingAll, firstObstacleOfAll, firstObstacleOfAll, firstObstacle_withoutMissing room t,
      firstObstacleOfAll_withoutMissingAll room ts]

end

/-! ### What is shown -/

/-- Nothing that is shown of the two trees tells them apart. -/
structure SameViews (t u : Tree) : Prop where
  tokens : t.tokens = u.tokens
  source : t.renderSource = u.renderSource
  events : ∀ skips, t.renderEvents skips = u.renderEvents skips
  classes : t.renderClasses = u.renderClasses
  classified : ∀ classes, t.renderClassified classes = u.renderClassified classes
  nodes : t.renderStructure = u.renderStructure

theorem rendered_withoutMissing {α : Type} {result : Tree → α} {t : Tree}
    (h : result t.withoutMissing = result t) : t.withoutMissing.rendered result = t.rendered result := by
  rw [rendered, rendered, walkDepth_withoutMissing, h]

theorem sameViews_withoutMissing (t : Tree) : t.withoutMissing.SameViews t where
  tokens := tokens_withoutMissing t
  source := rendered_withoutMissing (by rw [description, description, tokens_withoutMissing])
  events skips := by
    rw [renderEvents, renderEvents, walkDepth_withoutMissing, events_withoutMissing]
  classes := rendered_withoutMissing (classes_withoutMissing t)
  classified classes :=
    rendered_withoutMissing (by rw [classifiedText, classifiedText, events_withoutMissing])
  nodes := by
    rw [renderStructure, renderStructure, firstObstacle_withoutMissing, structureText, structureText,
      events_withoutMissing]

/-- **What is missing is as good as an empty slot.** Take the tree in which every missing node or token
has become an empty slot, with everything beneath it: the places that are shown are still there, all other
places are empty, and nothing that is shown of the tree has changed, unknown nodes that keep its structure
from being written included. Of a tree whose root is missing nothing is shown at all. -/
theorem views_withoutMissing (t : Tree) :
    (∀ path, (t.Shows path → t.withoutMissing.follow path = (t.follow path).withoutMissing) ∧
      (¬ t.Shows path → t.withoutMissing.follow path = .absent)) ∧
    t.withoutMissing.SameViews t ∧
    (t.isPresent = false →
      t.tokens = [] ∧ (∀ skips, t.renderEvents skips = .ok []) ∧ t.renderClasses = .ok [] ∧
      (∀ classes, t.renderClassified classes = .ok "") ∧ t.renderStructure = .ok "") := by
  refine ⟨fun path => follow_withoutMissing path t, sameViews_withoutMissing t, ?_⟩
  intro hmissing
  have hviews : SameViews .absent t := by
    have h := sameViews_withoutMissing t
    rwa [withoutMissing_of_not_isPresent (by simp [hmissing])] at h
  exact ⟨hviews.tokens.symm, fun skips => (hviews.events skips).symm, hviews.classes.symm,
    fun classes => (hviews.classified classes).symm, hviews.nodes.symm⟩

/-- A missing node hides an unknown node and a comma in the first slot of an attribute; the identifier in
the second slot is classified by its slot all the same. Nothing is shown of the missing node alone. -/
theorem views_withoutMissing_attribute :
    let comma : Tree := .token 0 ⟨"comma", ",", [], [], .present, some 1⟩
    let name : Tree := .token 1 ⟨"identifier", "a", [], [], .present, some 2⟩
    let hidden : Tree := .node "List" .missing none [.node "Unknown" .present none [comma]]
    let t : Tree := .node "Attribute" .present none [hidden, name]
    t.withoutMissing.follow [0] = .absent ∧
      t.withoutMissing.renderStructure = .ok "<AttributeSyntax>a</AttributeSyntax>" ∧
      t.withoutMissing.classes.classOf 1 = .builtinAttribute ∧ hidden.renderStructure = .ok "" := by
  intro comma name hidden t
  obtain ⟨hplaces, hviews, -⟩ := views_withoutMissing t
  obtain ⟨-, -, hhidden⟩ := views_withoutMissing hidden
  refine ⟨?_, ?_, ?_, (hhidden rfl).2.2.2.2⟩
  · have hnot : ¬ t.Shows [0] := fun h => nomatch h.2
    exact (hplaces [0]).2 hnot
  · rw [hviews.nodes]
    rfl
  · rw [Except.ok.inj hviews.classes]
    rfl

end SourceTree.Tree
