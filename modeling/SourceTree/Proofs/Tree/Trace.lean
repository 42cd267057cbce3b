import SourceTree.Markup
import SourceTree.Proofs.Tree.Walk
import SourceTree.Tree.Pruning

/-!
# Traces

What a walk leaves behind that skips some kinds of nodes. Of its steps, each one that enters a node has one
partner that leaves it again, and each one that leaves a node has one partner that has entered it. Skipping
nodes comes to the same as taking their slots away beforehand.
-/
namespace SourceTree

/-! ### Partners -/

namespace Event

/-- From the step on that enters a node, these steps come before the one that leaves it. -/
def ClosesAfter (kind : String) (rest inner : List Event) : Prop :=
  Nested inner ∧ ∃ after, rest = inner ++ .leave kind :: after

/-- Up to the step that leaves a node, these steps come after the one that has entered it. -/
def OpensBefore (kind : String) (before inner : List Event) : Prop :=
  Nested inner ∧ ∃ front, before = front ++ .enter kind :: inner

/-- Wherever a node is entered, there is one place where it is left, and the other way round: between the two
stand the steps for what is in the node. -/
structure Partnered (steps : List Event) : Prop where
  entered : ∀ before kind rest, steps = before ++ .enter kind :: rest →
    ∃! inner, ClosesAfter kind rest inner
  left : ∀ before kind rest, steps = before ++ .leave kind :: rest →
    ∃! inner, OpensBefore kind before inner

/-- Nested steps end where the first node is left that they have not entered. -/
theorem Nested.inner_unique {inner other : List Event} (h : Nested inner) (h' : Nested other)
    {kind kind' : String} {after after' : List Event}
    (hsteps : inner ++ .leave kind :: after = other ++ .leave kind' :: after') : inner = other := by
  induction h generalizing other kind kind' after after' with
  | nil =>
    cases h' with
    | nil => rfl
    | token _ => cases hsteps
    | node _ _ => cases hsteps
  | token _ ih =>
    cases h' with
    | nil => cases hsteps
    | token hrest' =>
      obtain ⟨hfirst, hsteps⟩ := List.cons.inj hsteps
      rw [hfirst, ih hrest' hsteps]
    | node _ _ => cases hsteps
  | @node entered inner rest hinner hrest ihInner ihRest =>
    cases h' with
    | nil => cases hsteps
    | token _ => cases hsteps
    | @node entered' inner' rest' hinner' hrest' =>
      simp only [List.cons_append, List.append_assoc, List.cons.injEq, Event.enter.injEq] at hsteps
      obtain ⟨rfl, hsteps⟩ := hsteps
      -- first what is in the node is the same, and then what comes after it
      obtain rfl := ihInner hinner' hsteps
      obtain ⟨-, hsteps⟩ := List.cons.inj (List.append_cancel_left hsteps)
      rw [ihRest hrest' hsteps]

/-- Every node that is entered is left again, with nested steps between. -/
theorem Nested.exists_closesAfter {steps : List Event} (h : Nested steps) :
    ∀ {before rest : List Event} {kind : String}, steps = before ++ .enter kind :: rest →
      ∃ inner, ClosesAfter kind rest inner := by
  induction h with
  | nil =>
    intro before rest kind hsteps
    cases before <;> cases hsteps
  | token _ ih =>
    intro before rest kind hsteps
    cases before with
    | nil => cases hsteps
    | cons _ before => exact ih (List.cons.inj hsteps).2
  | @node entered inner more hinner _ ihInner ihMore =>
    intro before rest kind hsteps
    cases before with
    | nil =>
      obtain ⟨hkind, rfl⟩ := List.cons.inj hsteps
      obtain rfl := Event.enter.inj hkind
      exact ⟨inner, hinner, more, rfl⟩
    | cons _ before =>
      obtain ⟨-, hsteps⟩ := List.cons.inj hsteps
      rcases List.append_eq_append_iff.mp hsteps with ⟨middle, rfl, hmore⟩ | ⟨middle, rfl, hrest⟩
      · -- the node is entered after this one is left
        cases middle with
        | nil => cases hmore
        | cons _ middle => exact ihMore (List.cons.inj hmore).2
      · -- it is entered in this one
        cases middle with
        | nil => cases hrest
        | cons _ middle =>
          obtain ⟨hfirst, rfl⟩ := List.cons.inj hrest
          obtain ⟨deeper, hdeeper, after, rfl⟩ := ihInner (congrArg (before ++ · :: middle) hfirst.symm)
          exact ⟨deeper, hdeeper, after ++ .leave entered :: more, by simp⟩

/-- The step taken the other way. -/
def turned : Event → Event
  | .enter kind => .leave kind
  | .token serial t => .token serial t
  | .leave kind => .enter kind

/-- The steps taken backwards. -/
def mirrored (steps : List Event) : List Event := (steps.map turned).reverse

theorem mirrored_mirrored (steps : List Event) : mirrored (mirrored steps) = steps := by
  have hturned : turned ∘ turned = id := by
    funext step
    cases step <;> rfl
  rw [mirrored, mirrored, List.map_reverse, List.reverse_reverse, List.map_map, hturned, List.map_id]

theorem mirrored_append_cons (before rest : List Event) (step : Event) :
    mirrored (before ++ step :: rest) = mirrored rest ++ step.turned :: mirrored before := by
  simp [mirrored]

/-- Nested steps are nested backwards too. -/
theorem Nested.mirrored {steps : List Event} (h : Nested steps) : Nested (mirrored steps) := by
  induction h with
  | nil => exact .nil
  | @token serial t rest _ ih =>
    have hsteps : Event.mirrored (.token serial t :: rest) = Event.mirrored rest ++ [.token serial t] :=
      mirrored_append_cons [] rest (.token serial t)
    rw [hsteps]
    exact ih.append (.token .nil)
  | @node kind inner rest _ _ ihInner ihRest =>
    have hsteps : Event.mirrored (.enter kind :: inner ++ .leave kind :: rest) =
        Event.mirrored rest ++ (.enter kind :: Event.mirrored inner ++ [.leave kind]) := by
      rw [mirrored_append_cons, ← List.nil_append (.enter kind :: inner), mirrored_append_cons]
      rfl
    rw [hsteps]
    exact ihRest.append (.node ihInner .nil)

theorem opensBefore_iff_mirrored {kind : String} {before inner : List Event} :
    OpensBefore kind before inner ↔ ClosesAfter kind (mirrored before) (mirrored inner) := by
  constructor
  · rintro ⟨hinner, front, rfl⟩
    exact ⟨hinner.mirrored, mirrored front, mirrored_append_cons front inner (.enter kind)⟩
  · rintro ⟨hinner, after, hbefore⟩
    have hback := congrArg mirrored hbefore
    rw [mirrored_append_cons, mirrored_mirrored, mirrored_mirrored] at hback
    have hnested := hinner.mirrored
    rw [mirrored_mirrored] at hnested
    exact ⟨hnested, mirrored after, hback⟩

theorem Nested.existsUnique_closesAfter {steps before rest : List Event} {kind : String} (h : Nested steps)
    (hsteps : steps = before ++ .enter kind :: rest) : ∃! inner, ClosesAfter kind rest inner := by
  obtain ⟨inner, hinner, after, rfl⟩ := h.exists_closesAfter hsteps
  refine ⟨inner, ⟨hinner, after, rfl⟩, ?_⟩
  rintro other ⟨hother, after', hrest⟩
  exact hother.inner_unique hinner hrest.symm

/-- In nested steps everything has its one partner. -/
theorem Nested.partnered {steps : List Event} (h : Nested steps) : Partnered steps where
  entered _ _ _ hsteps := h.existsUnique_closesAfter hsteps
  left before kind rest hsteps := by
    have hback : Event.mirrored steps = Event.mirrored rest ++ .enter kind :: Event.mirrored before := by
      rw [hsteps, mirrored_append_cons]
      rfl
    obtain ⟨inner, hinner, hunique⟩ := h.mirrored.existsUnique_closesAfter hback
    refine ⟨Event.mirrored inner, ?_, fun other hother => ?_⟩
    · beta_reduce
      rw [opensBefore_iff_mirrored, mirrored_mirrored]
      exact hinner
    · have hmirrored := hunique _ (opensBefore_iff_mirrored.mp hother)
      rw [← hmirrored, mirrored_mirrored]

/-- The kind of the node that is entered. -/
def entered? : Event → Option String
  | .enter kind => some kind
  | _ => none

end Event

namespace Tree

/-! ### Skipping -/

mutual

/-- Nodes that are skipped are as good as nodes without slots. -/
theorem events_emptied (skips : List String) : ∀ t : Tree, (t.emptied skips).events [] = t.events skips
  | .absent => rfl
  | .token _ _ => rfl
  | .node kind presence id layout => by
    rw [emptied]
    by_cases hpresent : presence.isPresent
    · rw [events_node hpresent, events, if_pos hpresent]
      by_cases hskip : skips.contains (nodeName kind)
      · rw [if_pos hskip, if_pos hskip]
        rfl
      · rw [if_neg hskip, if_neg hskip, eventsOfAll_emptiedAll skips layout]
    · rw [events, events, if_neg hpresent, if_neg hpresent]

theorem eventsOfAll_emptiedAll (skips : List String) : ∀ ts : List Tree,
    eventsOfAll [] (emptiedAll skips ts) = eventsOfAll skips ts
  | [] => rfl
  | t :: ts => by
    rw [emptiedAll, eventsOfAll, eventsOfAll, events_emptied skips t, eventsOfAll_emptiedAll skips ts]

end

mutual

theorem walkDepth_emptied (skips : List String) : ∀ t : Tree,
    (t.emptied skips).walkDepth [] = t.walkDepth skips
  | .absent => rfl
  | .token _ _ => rfl
  | .node kind presence id layout => by
    rw [emptied, walkDepth, walkDepth]
    by_cases hskip : skips.contains (nodeName kind)
    · rw [if_pos hskip, if_pos hskip]
      rfl
    · rw [if_neg hskip, if_neg hskip, walkDepthOfAll_emptiedAll skips layout]
      rfl

theorem walkDepthOfAll_emptiedAll (skips : List String) : ∀ ts : List Tree,
    walkDepthOfAll [] (emptiedAll skips ts) = walkDepthOfAll skips ts
  | [] => rfl
  | t :: ts => by
    rw [emptiedAll, walkDepthOfAll, walkDepthOfAll, walkDepth_emptied skips t,
      walkDepthOfAll_emptiedAll skips ts]

end

/-! ### Nodes that are entered -/

/-- A node of the kind stands at the end of the path. -/
def HasNodeAt (t : Tree) (path : List Nat) (kind : String) : Prop :=
  ∃ presence id layout, t.follow path = .node kind presence id layout

/-- The tokens that are met are those of the tree, and a node is entered for each path to a node on which
everything stands in the source, in the order of the paths. -/
structure TracedBy (t : Tree) (steps : List Event) : Prop where
  tokens : steps.filterMap Event.met? = t.tokens
  nodes : ∃ paths : List (List Nat), paths.Pairwise (· < ·) ∧
    (∀ path, path ∈ paths ↔ t.Shows path ∧ ∃ kind, t.HasNodeAt path kind) ∧
    List.Forall₂ t.HasNodeAt paths (steps.filterMap Event.entered?)

/-- There is a node, and no token. -/
def isNode : Tree → Bool
  | .node _ _ _ _ => true
  | _ => false

theorem isNode_follow_iff {t : Tree} {path : List Nat} :
    (t.follow path).isNode = true ↔ ∃ kind, t.HasNodeAt path kind := by
  unfold HasNodeAt
  cases t.follow path <;> simp [isNode]

/-- Of the places that a walk comes to, it enters those of nodes. -/
theorem hasNodeAt_of_arrivals {t : Tree} {paths : List (List Nat)} {steps : List Event}
    (h : List.Forall₂ (fun path step => (t.follow path).arrival? = some step) paths steps) :
    List.Forall₂ t.HasNodeAt (paths.filter fun path => (t.follow path).isNode)
      (steps.filterMap Event.entered?) := by
  induction h with
  | nil => exact .nil
  | @cons path step paths steps harrival _ ih =>
    cases hfound : t.follow path with
    | absent =>
      rw [hfound] at harrival
      cases harrival
    | token serial token =>
      rw [hfound] at harrival
      obtain rfl := Option.some.inj harrival
      rw [List.filter_cons_of_neg (by rw [hfound]; nofun), List.filterMap_cons_none rfl]
      exact ih
    | node kind presence id layout =>
      rw [hfound] at harrival
      obtain rfl := Option.some.inj harrival
      have hentered : Event.entered? (.enter kind) = some kind := rfl
      rw [List.filter_cons_of_pos (by rw [hfound]; rfl), List.filterMap_cons_some hentered]
      exact .cons ⟨presence, id, layout, hfound⟩ ih

theorem tracedBy_events (t : Tree) : t.TracedBy (t.events []) where
  tokens := filterMap_met_events t
  nodes := by
    have harrives : ∀ step : Event, (if step.arrives = true then step.entered? else none) = step.entered? := by
      intro step
      cases step <;> rfl
    have hsteps : ((t.events []).filter Event.arrives).filterMap Event.entered? =
        (t.events []).filterMap Event.entered? := by
      rw [List.filterMap_filter]
      exact List.filterMap_congr fun step _ => harrives step
    refine ⟨t.shownPaths.filter fun path => (t.follow path).isNode, (pairwise_shownPaths t).filter _, ?_, ?_⟩
    · intro path
      rw [List.mem_filter, mem_shownPaths, isNode_follow_iff]
    · rw [← hsteps]
      exact hasNodeAt_of_arrivals (arrivals_events t)

/-! ### Traces -/

theorem renderEvents_emptied (skips : List String) (t : Tree) :
    (t.emptied skips).renderEvents [] = t.renderEvents skips := by
  rw [renderEvents, renderEvents, walkDepth_emptied, events_emptied]

/-- **Traces.** A walk that skips some kinds of nodes is the walk through the tree without the slots of these
nodes; so it is also if the walk goes too deep. If it does not, its steps are nested, and each step that enters a
node has one partner that leaves it, and the other way round. If nothing is skipped, the tokens that are met are
those of the tree, and one node is entered for each that stands in the source with everything above it. -/
theorem trace_exact (skips : List String) (t : Tree) :
    t.renderEvents skips = (t.emptied skips).renderEvents [] ∧
    (t.walkDepth skips ≤ maxRenderDepth → ∃ steps, t.renderEvents skips = .ok steps ∧ Event.Nested steps ∧
      Event.Partnered steps ∧ (skips = [] → t.TracedBy steps)) ∧
    (maxRenderDepth < t.walkDepth skips → t.renderEvents skips = .error .tooDeep) := by
  refine ⟨(renderEvents_emptied skips t).symm, fun hshallow => ?_, fun hdeep => if_pos hdeep⟩
  have hnested := nested_events skips t
  refine ⟨t.events skips, if_neg (Nat.not_lt.mpr hshallow), hnested, hnested.partnered, ?_⟩
  rintro rfl
  exact tracedBy_events t

/-- Of a name in as many lists as a walk goes down there is no trace. -/
theorem not_traced_nested :
    let name : Tree := .token 0 ⟨"identifier", "x", [], [], .present, some 7⟩
    let t := name.nested maxRenderDepth
    ¬ ∃ steps, t.renderEvents [] = .ok steps ∧ Event.Nested steps := by
  intro name t
  rintro ⟨steps, hsteps, -⟩
  have hdeep : maxRenderDepth < t.walkDepth [] := lt_walkDepth_nested (by decide) maxRenderDepth
  rw [renderEvents, if_pos hdeep] at hsteps
  cases hsteps

end Tree
end SourceTree
