import Mathlib.Data.List.Lex
import SourceTree.Markup
import SourceTree.Proofs.Tree.Walk

/-!
# Node structure

The node structure of a tree is written on one walk: tags for every node that is shown, around what is in
it, and the full text of the tokens. The walk stops at the first place that cannot be written, an unknown
node or a place too far down, and there is nothing to show for the places before it.
-/
namespace SourceTree.Tree

/-! ### Obstacles -/

/-- A node that the parser could not make sense of is refused. -/
def refusal? : Tree → Option Obstacle
  | .node kind _ _ _ => if unknownKinds.contains kind then some (.unknownNode kind) else none
  | _ => none

/-- What keeps the place at the end of a path from being written, if the paths to the places that are
written are shorter than `room`. -/
def obstacleAt (room : Nat) (t : Tree) (path : List Nat) : Option Obstacle :=
  if room ≤ path.length then some .tooDeep else (t.follow path).refusal?

mutual

theorem firstObstacle_eq : ∀ (room : Nat) (t : Tree),
    t.firstObstacle room = t.shownPaths.findSome? (t.obstacleAt room)
  | room, .absent => by cases room <;> rfl
  | 0, .token _ t => by
    rw [firstObstacle, shownPaths]
    split <;> rfl
  | room + 1, .token _ t => by
    rw [firstObstacle, shownPaths]
    split <;> rfl
  | 0, .node _ presence _ _ => by
    rw [firstObstacle, shownPaths]
    split <;> rfl
  | room + 1, .node kind presence id layout => by
    rw [firstObstacle, shownPaths]
    cases presence with
    | missing => rfl
    | present =>
      have hroot : (Tree.node kind .present id layout).obstacleAt (room + 1) [] =
          if unknownKinds.contains kind then some (.unknownNode kind) else none := rfl
      simp only [Presence.isPresent, Bool.not_true, Bool.false_eq_true, if_false, if_true,
        List.findSome?_cons, hroot]
      split
      · rfl
      · exact firstObstacleOfAll_eq room (holdsFrom_layout kind .present id layout)

theorem firstObstacleOfAll_eq (room : Nat) {t : Tree} : ∀ {slot : Nat} {ts : List Tree},
    t.HoldsFrom slot ts →
      firstObstacleOfAll room ts = (shownPathsFrom slot ts).findSome? (t.obstacleAt (room + 1))
  | _, [], _ => rfl
  | slot, first :: rest, h => by
    -- one step down there is one less to go
    have hslot : t.obstacleAt (room + 1) ∘ (slot :: ·) = first.obstacleAt room := by
      funext path
      simp only [Function.comp_apply, obstacleAt, follow_cons, h.head, List.length_cons,
        Nat.add_le_add_iff_right]
    rw [firstObstacleOfAll, shownPathsFrom, List.findSome?_append, List.findSome?_map, hslot,
      firstObstacleOfAll_eq room h.tail, firstObstacle_eq room first]
    cases first.shownPaths.findSome? (first.obstacleAt room) <;> rfl

end

/-- The first value in a list in order is that of the first item that has one. -/
theorem findSome?_eq_some_iff_first {α β : Type} [Preorder α] {items : List α} {f : α → Option β} {b : β}
    (h : items.Pairwise (· < ·)) :
    items.findSome? f = some b ↔ ∃ a ∈ items, f a = some b ∧ ∀ other ∈ items, other < a → f other = none := by
  rw [List.findSome?_eq_some_iff]
  constructor
  · rintro ⟨before, a, after, rfl, hvalue, hnone⟩
    refine ⟨a, by simp, hvalue, fun other hother hlt => hnone other ?_⟩
    obtain ⟨-, hafter, -⟩ := List.pairwise_append.mp h
    rcases List.mem_append.mp hother with hbefore | hcons
    · exact hbefore
    · rcases List.mem_cons.mp hcons with rfl | hlater
      · exact absurd hlt (lt_irrefl _)
      · exact absurd hlt (lt_asymm (List.rel_of_pairwise_cons hafter hlater))
  · rintro ⟨a, ha, hvalue, hnone⟩
    obtain ⟨before, after, rfl⟩ := List.append_of_mem ha
    refine ⟨before, a, after, rfl, hvalue, fun other hother => ?_⟩
    refine hnone other (List.mem_append_left _ hother) ?_
    exact (List.pairwise_append.mp h).2.2 other hother a List.mem_cons_self

/-- The first obstacle is that of the first place that has one. -/
theorem firstObstacle_eq_some_iff {room : Nat} {t : Tree} {obstacle : Obstacle} :
    t.firstObstacle room = some obstacle ↔ ∃ path, t.Shows path ∧ t.obstacleAt room path = some obstacle ∧
      ∀ other, t.Shows other → other < path → t.obstacleAt room other = none := by
  rw [firstObstacle_eq, findSome?_eq_some_iff_first (pairwise_shownPaths t)]
  simp only [mem_shownPaths]

theorem firstObstacle_eq_none_iff {room : Nat} {t : Tree} :
    t.firstObstacle room = none ↔ ∀ path, t.Shows path → t.obstacleAt room path = none := by
  rw [firstObstacle_eq, List.findSome?_eq_none_iff]
  simp only [mem_shownPaths]

/-! ### Unknown nodes -/

/-- At the end of the path a node is shown, of a kind that the parser could not make sense of. -/
structure ShowsUnknown (t : Tree) (path : List Nat) (kind : String) : Prop where
  shown : t.Shows path
  isNode : ∃ presence id layout, t.follow path = .node kind presence id layout
  unknown : kind ∈ unknownKinds

/-- Of the unknown nodes that are shown, the one at the end of the path comes first. -/
structure FirstUnknown (t : Tree) (path : List Nat) (kind : String) : Prop where
  unknown : t.ShowsUnknown path kind
  first : ∀ other kind', t.ShowsUnknown other kind' → other ≠ path → path < other

theorem refusal?_eq_some_iff {t : Tree} {obstacle : Obstacle} :
    t.refusal? = some obstacle ↔ ∃ kind, obstacle = .unknownNode kind ∧ kind ∈ unknownKinds ∧
      ∃ presence id layout, t = .node kind presence id layout := by
  cases t with
  | absent => simp [refusal?]
  | token serial t => simp [refusal?]
  | node kind presence id layout => by_cases h : kind ∈ unknownKinds <;> simp [refusal?, h, eq_comm]

theorem obstacleAt_eq_tooDeep_iff {room : Nat} {t : Tree} {path : List Nat} :
    t.obstacleAt room path = some .tooDeep ↔ room ≤ path.length := by
  rw [obstacleAt]
  split
  · next h => simp [h]
  · next h => simp [h, refusal?_eq_some_iff]

theorem obstacleAt_eq_unknown_iff {room : Nat} {t : Tree} {path : List Nat} {kind : String}
    (hshown : t.Shows path) :
    t.obstacleAt room path = some (.unknownNode kind) ↔ path.length < room ∧ t.ShowsUnknown path kind := by
  rw [obstacleAt]
  split
  · next h => simp [Nat.not_lt.mpr h]
  · next h =>
    rw [refusal?_eq_some_iff]
    constructor
    · rintro ⟨_, hkind, hunknown, hnode⟩
      obtain rfl := Obstacle.unknownNode.inj hkind
      exact ⟨Nat.not_le.mp h, hshown, hnode, hunknown⟩
    · rintro ⟨-, -, hnode, hunknown⟩
      exact ⟨kind, rfl, hunknown, hnode⟩

theorem obstacleAt_eq_none_iff {room : Nat} {t : Tree} {path : List Nat} (hshown : t.Shows path) :
    t.obstacleAt room path = none ↔ path.length < room ∧ ∀ kind, ¬ t.ShowsUnknown path kind := by
  constructor
  · intro hnone
    have hroom : path.length < room := by
      rw [← Nat.not_le, ← obstacleAt_eq_tooDeep_iff (t := t), hnone]
      nofun
    refine ⟨hroom, fun kind hunknown => ?_⟩
    have hsome := (obstacleAt_eq_unknown_iff hshown).mpr ⟨hroom, hunknown⟩
    rw [hnone] at hsome
    nomatch hsome
  · rintro ⟨hroom, hknown⟩
    cases hobstacle : t.obstacleAt room path with
    | none => rfl
    | some obstacle =>
      cases obstacle with
      | tooDeep => exact absurd (obstacleAt_eq_tooDeep_iff.mp hobstacle) (Nat.not_le.mpr hroom)
      | unknownNode kind => exact absurd ((obstacleAt_eq_unknown_iff hshown).mp hobstacle).2 (hknown kind)

theorem renderStructure_eq_error_iff {t : Tree} {obstacle : Obstacle} :
    t.renderStructure = .error obstacle ↔ t.firstObstacle maxRenderDepth = some obstacle := by
  rw [renderStructure]
  cases t.firstObstacle maxRenderDepth <;> simp

theorem firstUnknown_iff {t : Tree} {path : List Nat} {kind : String} :
    t.FirstUnknown path kind ↔ t.ShowsUnknown path kind ∧
      ∀ other, t.Shows other → other < path → ∀ kind', ¬ t.ShowsUnknown other kind' := by
  constructor
  · rintro ⟨hunknown, hfirst⟩
    refine ⟨hunknown, fun other _ hlt kind' hother => ?_⟩
    exact lt_asymm hlt (hfirst other kind' hother hlt.ne)
  · rintro ⟨hunknown, hbefore⟩
    refine ⟨hunknown, fun other kind' hother hne => ?_⟩
    refine lt_of_le_of_ne (le_of_not_gt fun hlt => ?_) hne.symm
    exact hbefore other hother.shown hlt kind' hother

/-- All places too far down come after a place exactly if neither it nor any place before it is one. -/
theorem deep_after_iff {room : Nat} {t : Tree} {path : List Nat} (hshown : t.Shows path) :
    (∀ deep, t.Shows deep → room ≤ deep.length → path < deep) ↔
      path.length < room ∧ ∀ other, t.Shows other → other < path → other.length < room := by
  constructor
  · intro hdeep
    have hshallow : ∀ other, t.Shows other → ¬ path < other → other.length < room := by
      intro other hother hnot
      by_contra hlength
      exact hnot (hdeep other hother (Nat.not_lt.mp hlength))
    exact ⟨hshallow path hshown (lt_irrefl path), fun other hother hlt => hshallow other hother (lt_asymm hlt)⟩
  · rintro ⟨hroom, hbefore⟩ deep hdeep hlength
    refine lt_of_le_of_ne (le_of_not_gt fun hlt => ?_) ?_
    · exact absurd hlength (Nat.not_le.mpr (hbefore deep hdeep hlt))
    · rintro rfl
      exact absurd hlength (Nat.not_le.mpr hroom)

/-- An unknown node is what is reported exactly if it is the first one and comes before all places that
are too far down. -/
theorem renderStructure_unknown_iff {t : Tree} {kind : String} :
    t.renderStructure = .error (.unknownNode kind) ↔ ∃ path, t.FirstUnknown path kind ∧
      ∀ deep, t.Shows deep → maxRenderDepth ≤ deep.length → path < deep := by
  rw [renderStructure_eq_error_iff, firstObstacle_eq_some_iff]
  constructor
  · rintro ⟨path, hshown, hobstacle, hbefore⟩
    obtain ⟨hroom, hunknown⟩ := (obstacleAt_eq_unknown_iff hshown).mp hobstacle
    have hclear := fun other hother hlt => (obstacleAt_eq_none_iff hother).mp (hbefore other hother hlt)
    refine ⟨path, firstUnknown_iff.mpr ⟨hunknown, ?_⟩, (deep_after_iff hshown).mpr ⟨hroom, ?_⟩⟩
    · exact fun other hother hlt => (hclear other hother hlt).2
    · exact fun other hother hlt => (hclear other hother hlt).1
  · rintro ⟨path, hfirst, hdeep⟩
    obtain ⟨hunknown, hknown⟩ := firstUnknown_iff.mp hfirst
    obtain ⟨hroom, hshallow⟩ := (deep_after_iff hunknown.shown).mp hdeep
    refine ⟨path, hunknown.shown, (obstacleAt_eq_unknown_iff hunknown.shown).mpr ⟨hroom, hunknown⟩, ?_⟩
    intro other hother hlt
    exact (obstacleAt_eq_none_iff hother).mpr ⟨hshallow other hother hlt, hknown other hother hlt⟩

/-- Depth is what is reported exactly if a place too far down has no unknown node before it. -/
theorem renderStructure_tooDeep_iff {t : Tree} :
    t.renderStructure = .error .tooDeep ↔ ∃ deep, t.Shows deep ∧ maxRenderDepth ≤ deep.length ∧
      ∀ path kind, t.ShowsUnknown path kind → ¬ path < deep := by
  constructor
  · intro herror
    rw [renderStructure_eq_error_iff, firstObstacle_eq_some_iff] at herror
    obtain ⟨deep, hshown, hobstacle, hbefore⟩ := herror
    refine ⟨deep, hshown, obstacleAt_eq_tooDeep_iff.mp hobstacle, fun path kind hunknown hlt => ?_⟩
    have hnone := hbefore path hunknown.shown hlt
    exact ((obstacleAt_eq_none_iff hunknown.shown).mp hnone).2 kind hunknown
  · rintro ⟨deep, hshown, hlength, hbefore⟩
    rw [renderStructure_eq_error_iff]
    cases hfirst : t.firstObstacle maxRenderDepth with
    | none =>
      have hnone := firstObstacle_eq_none_iff.mp hfirst deep hshown
      exact absurd hlength (Nat.not_le.mpr ((obstacleAt_eq_none_iff hshown).mp hnone).1)
    | some obstacle =>
      cases obstacle with
      | tooDeep => rfl
      | unknownNode kind =>
        have herror := renderStructure_eq_error_iff.mpr hfirst
        obtain ⟨path, hunknown, hdeep⟩ := renderStructure_unknown_iff.mp herror
        exact absurd (hdeep deep hshown hlength) (hbefore path kind hunknown.unknown)

theorem renderStructure_ok_iff {t : Tree} {text : Text} :
    t.renderStructure = .ok text ↔ t.walkDepth [] ≤ maxRenderDepth ∧
      (∀ path kind, ¬ t.ShowsUnknown path kind) ∧ text = t.structureText := by
  have hok : t.renderStructure = .ok text ↔
      t.firstObstacle maxRenderDepth = none ∧ text = t.structureText := by
    rw [renderStructure]
    cases t.firstObstacle maxRenderDepth <;> simp [eq_comm]
  rw [hok, firstObstacle_eq_none_iff, walkDepth_le_iff, ← and_assoc]
  apply and_congr_left'
  constructor
  · intro hnone
    refine ⟨fun path hshown => ((obstacleAt_eq_none_iff hshown).mp (hnone path hshown)).1, ?_⟩
    intro path kind hunknown
    exact ((obstacleAt_eq_none_iff hunknown.shown).mp (hnone path hunknown.shown)).2 kind hunknown
  · rintro ⟨hshallow, hknown⟩ path hshown
    exact (obstacleAt_eq_none_iff hshown).mpr ⟨hshallow path hshown, hknown path⟩

/-! ### What is written -/

mutual

/-- The source with every node that is shown between tags of its name: what is in it, slot by slot, and
the full text of the tokens. -/
def structured : Tree → Text
  | .absent => []
  | .token _ t => t.fullText
  | .node kind presence _ layout =>
    if presence.isPresent then
      "<" ++ nodeName kind ++ ">" ++ structuredAll layout ++ "</" ++ nodeName kind ++ ">"
    else []

def structuredAll : List Tree → Text
  | [] => []
  | t :: rest => t.structured ++ structuredAll rest

end

mutual

theorem structureText_eq : ∀ t : Tree, t.structureText = t.structured
  | .absent => rfl
  | .token _ t => by
    rw [structureText, events, structured]
    split
    · rw [List.flatMap_singleton]
      rfl
    · next h => simp [Token.fullText, h]
  | .node kind presence id layout => by
    rw [structureText, structured]
    split
    · next h =>
      rw [events_node h, List.flatMap_append, List.flatMap_cons, structureText_eqAll layout,
        List.flatMap_singleton]
      simp only [Markup.structureStep, List.append_assoc]
    · next h =>
      rw [events, if_neg h]
      rfl

theorem structureText_eqAll : ∀ ts : List Tree,
    (eventsOfAll [] ts).flatMap Markup.structureStep = structuredAll ts
  | [] => rfl
  | t :: ts => by
    rw [eventsOfAll, structuredAll, List.flatMap_append, structureText_eqAll ts, ← structureText_eq t,
      structureText]

end

/-- The text is made up of tags and tokens. The tags are nested, each pair around what it was opened for;
what is not a tag makes up the source; and one pair of tags or one token is there for every place that is
shown, in the order of the places. -/
structure WrittenBy (t : Tree) (text : Text) (steps : List Event) : Prop where
  joined : text = steps.flatMap Markup.structureStep
  source : t.renderSource = .ok ((steps.filterMap Event.met?).flatMap (·.token.fullText))
  nested : Event.Nested steps
  places : ∃ paths : List (List Nat), paths.Pairwise (· < ·) ∧ (∀ path, path ∈ paths ↔ t.Shows path) ∧
    List.Forall₂ (fun path step => (t.follow path).arrival? = some step) paths
      (steps.filter Event.arrives)

theorem writtenBy_events {t : Tree} (h : t.walkDepth [] ≤ maxRenderDepth) :
    t.WrittenBy t.structureText (t.events []) := by
  constructor
  · rfl
  · rw [renderSource, rendered, if_neg (Nat.not_lt.mpr h), filterMap_met_events]
    rfl
  · exact nested_events [] t
  · exact ⟨t.shownPaths, pairwise_shownPaths t, fun _ => mem_shownPaths, arrivals_events t⟩

/-- **Node structure.** An unknown node is reported exactly if it is the first one that is shown and all
places too far down come after it, and it is reported by the name of what is found in its place. Depth is
reported exactly if a place too far down has no unknown node before it. Otherwise, and so exactly if the
walk goes no deeper than trees are rendered and shows no unknown node, the node structure is written: the
source, with nested tags around what is in each node that is shown. -/
theorem structure_exact (t : Tree) :
    (∀ kind, t.renderStructure = .error (.unknownNode kind) ↔ ∃ path, t.FirstUnknown path kind ∧
      ∀ deep, t.Shows deep → maxRenderDepth ≤ deep.length → path < deep) ∧
    (∀ path kind, t.FirstUnknown path kind → (Obstacle.unknownNode kind).message =
      "Unexpected unknown node " ++ (t.follow path).kindName ++ " in syntax tree") ∧
    (t.renderStructure = .error .tooDeep ↔ ∃ deep, t.Shows deep ∧ maxRenderDepth ≤ deep.length ∧
      ∀ path kind, t.ShowsUnknown path kind → ¬ path < deep) ∧
    (∀ text, t.renderStructure = .ok text ↔ t.walkDepth [] ≤ maxRenderDepth ∧
      (∀ path kind, ¬ t.ShowsUnknown path kind) ∧ text = t.structured) ∧
    (∀ text, t.renderStructure = .ok text → ∃ steps, t.WrittenBy text steps) ∧
    (t.walkDepth [] ≤ maxRenderDepth →
      ((∃ kind, t.renderStructure = .error (.unknownNode kind)) ↔
        ∃ path kind, t.ShowsUnknown path kind)) := by
  refine ⟨fun _ => renderStructure_unknown_iff, ?_, renderStructure_tooDeep_iff, ?_, ?_, ?_⟩
  · intro path kind hfirst
    obtain ⟨presence, id, layout, hnode⟩ := hfirst.unknown.isNode
    rw [hnode]
    rfl
  · intro text
    rw [renderStructure_ok_iff, structureText_eq]
  · intro text hok
    obtain ⟨hdepth, -, rfl⟩ := renderStructure_ok_iff.mp hok
    exact ⟨t.events [], writtenBy_events hdepth⟩
  · intro hdepth
    constructor
    · rintro ⟨kind, herror⟩
      obtain ⟨path, hfirst, -⟩ := renderStructure_unknown_iff.mp herror
      exact ⟨path, kind, hfirst.unknown⟩
    · rintro ⟨path, kind, hunknown⟩
      cases hresult : t.renderStructure with
      | ok text => exact absurd hunknown ((renderStructure_ok_iff.mp hresult).2.1 path kind)
      | error obstacle =>
        cases obstacle with
        | unknownNode found => exact ⟨found, rfl⟩
        | tooDeep =>
          obtain ⟨deep, hshown, hlength, -⟩ := renderStructure_tooDeep_iff.mp hresult
          exact absurd hlength (Nat.not_le.mpr (walkDepth_le_iff.mp hdepth deep hshown))

/-! ### Unknown nodes too far down -/

theorem follow_nested (t : Tree) (lists : Nat) :
    (t.nested lists).follow (List.replicate lists 0) = t := by
  induction lists with
  | zero => rfl
  | succ lists ih => exact ih

theorem shows_nested {t : Tree} (h : t.isPresent) (lists : Nat) :
    (t.nested lists).Shows (List.replicate lists 0) := by
  induction lists with
  | zero => exact h
  | succ lists ih => exact ⟨rfl, ih⟩

theorem firstObstacle_nested (t : Tree) (room lists : Nat) :
    (t.nested lists).firstObstacle (room + lists) = t.firstObstacle room := by
  induction lists with
  | zero => rfl
  | succ lists ih =>
    have hlist : (t.nested (lists + 1)).firstObstacle (room + (lists + 1)) =
        firstObstacleOfAll (room + lists) [t.nested lists] := rfl
    rw [hlist, firstObstacleOfAll, ih]
    cases t.firstObstacle room <;> rfl

/-- An unknown node in as many lists as a walk goes down is shown, but it is not what is reported. -/
theorem structure_unknown_nested :
    let t := (Tree.node "Unknown" .present none []).nested maxRenderDepth
    t.ShowsUnknown (List.replicate maxRenderDepth 0) "Unknown" ∧
      ¬ ∃ kind, t.renderStructure = .error (.unknownNode kind) := by
  intro t
  constructor
  · exact ⟨shows_nested rfl _, ⟨.present, none, [], follow_nested _ _⟩, by decide⟩
  · have hdeep : t.renderStructure = .error .tooDeep := by
      have hfirst := firstObstacle_nested (Tree.node "Unknown" .present none []) 0 maxRenderDepth
      rw [Nat.zero_add] at hfirst
      exact renderStructure_eq_error_iff.mpr hfirst
    rintro ⟨kind, herror⟩
    rw [hdeep] at herror
    nomatch herror

end SourceTree.Tree
