import Mathlib.Data.List.Forall2
import SourceTree.Proofs.Tree.Places
import SourceTree.Tree.Events

/-!
# What a walk comes to

A walk that skips nothing enters a node or meets a token in every place that is shown, in the order of
the places, and does so nowhere else. Every node that is entered is left again after what is in it, so the
steps are nested as the tree is; the tokens that are met are the tokens of the tree.
-/
namespace SourceTree

namespace Event

/-- Every node that is entered is left again, after the steps for what is in it. -/
inductive Nested : List Event → Prop
  | nil : Nested []
  | token {serial : Nat} {t : Token} {rest : List Event} (hrest : Nested rest) :
      Nested (.token serial t :: rest)
  | node {kind : String} {inner rest : List Event} (hinner : Nested inner) (hrest : Nested rest) :
      Nested (.enter kind :: inner ++ .leave kind :: rest)

theorem Nested.append {steps rest : List Event} (h : Nested steps) (hrest : Nested rest) :
    Nested (steps ++ rest) := by
  induction h with
  | nil => exact hrest
  | token _ ih => exact .token ih
  | @node kind inner more hinner hmore _ ih =>
    have hsteps : Nested (.enter kind :: inner ++ .leave kind :: (more ++ rest)) := .node hinner ih
    simpa using hsteps

/-- The token that is met. -/
def met? : Event → Option Tree.Occurrence
  | .token serial t => some ⟨serial, t⟩
  | _ => none

/-- The step comes to a place, which leaving one does not. -/
def arrives : Event → Bool
  | .leave _ => false
  | _ => true

end Event

namespace Tree

mutual

theorem nested_events (skips : List String) : ∀ t : Tree, Event.Nested (t.events skips)
  | .absent => .nil
  | .token _ t => by
    rw [events]
    split
    · exact .token .nil
    · exact .nil
  | .node kind _ _ layout => by
    rw [events]
    split
    · refine .node ?_ .nil
      split
      · exact .nil
      · exact nested_eventsOfAll skips layout
    · exact .nil

theorem nested_eventsOfAll (skips : List String) : ∀ ts : List Tree,
    Event.Nested (eventsOfAll skips ts)
  | [] => .nil
  | t :: ts => (nested_events skips t).append (nested_eventsOfAll skips ts)

end

/-- A walk that skips nothing enters the node and leaves it after all its slots. -/
theorem events_node {kind : String} {presence : Presence} (h : presence.isPresent) (id : Option Int)
    (layout : List Tree) : (Tree.node kind presence id layout).events [] =
      .enter kind :: eventsOfAll [] layout ++ [.leave kind] := by
  rw [events, if_pos h]
  rfl

mutual

/-- The tokens that a walk meets are those of the tree, in their order. -/
theorem filterMap_met_events : ∀ t : Tree, (t.events []).filterMap Event.met? = t.tokens
  | .absent => rfl
  | .token _ t => by
    rw [events, tokens]
    split <;> rfl
  | .node _ presence id layout => by
    rw [tokens]
    split
    · next h =>
      rw [events_node h, List.filterMap_append, List.filterMap_cons_none rfl,
        filterMap_met_eventsOfAll layout]
      exact List.append_nil _
    · next h =>
      rw [events, if_neg h]
      rfl

theorem filterMap_met_eventsOfAll : ∀ ts : List Tree,
    (eventsOfAll [] ts).filterMap Event.met? = tokensOfAll ts
  | [] => rfl
  | t :: ts => by
    rw [eventsOfAll, tokensOfAll, List.filterMap_append, filterMap_met_events t,
      filterMap_met_eventsOfAll ts]

end

mutual

/-- The tokens of a tree stand in the source. -/
theorem isPresent_of_mem_tokens {o : Occurrence} : ∀ {t : Tree}, o ∈ t.tokens → o.token.isPresent
  | .absent, h => nomatch h
  | .token _ t, h => by
    rw [tokens] at h
    split at h
    · next hpresent =>
      obtain rfl := List.mem_singleton.mp h
      exact hpresent
    · nomatch h
  | .node _ _ _ layout, h => by
    rw [tokens] at h
    split at h
    · exact isPresent_of_mem_tokensOfAll h
    · nomatch h

theorem isPresent_of_mem_tokensOfAll {o : Occurrence} : ∀ {ts : List Tree},
    o ∈ tokensOfAll ts → o.token.isPresent
  | [], h => nomatch h
  | _ :: _, h => (List.mem_append.mp h).elim isPresent_of_mem_tokens isPresent_of_mem_tokensOfAll

end

/-- What a walk says of its steps it says of the tokens, if it says nothing of nodes. -/
theorem flatMap_events {said : Event → Text} {told : Occurrence → Text}
    (htoken : ∀ serial token, said (.token serial token) = told ⟨serial, token⟩)
    (henter : ∀ kind, said (.enter kind) = []) (hleave : ∀ kind, said (.leave kind) = []) (t : Tree) :
    (t.events []).flatMap said = t.tokens.flatMap told := by
  rw [← filterMap_met_events]
  induction t.events [] with
  | nil => rfl
  | cons step steps ih => cases step <;> simp [List.filterMap_cons, Event.met?, htoken, henter, hleave, ih]

/-! ### Places -/

/-- The step by which a walk comes to a tree. -/
def arrival? : Tree → Option Event
  | .absent => none
  | .token serial t => some (.token serial t)
  | .node kind _ _ _ => some (.enter kind)

mutual

/-- The steps by which a walk comes to a place are those of the places that are shown. -/
theorem arrivals_events : ∀ t : Tree,
    List.Forall₂ (fun path step => (t.follow path).arrival? = some step) t.shownPaths
      ((t.events []).filter Event.arrives)
  | .absent => .nil
  | .token _ t => by
    rw [shownPaths, events]
    split
    · exact .cons rfl .nil
    · exact .nil
  | .node kind presence id layout => by
    rw [shownPaths]
    split
    · next h =>
      rw [events_node h, List.filter_append, List.filter_cons_of_pos rfl]
      refine .cons rfl ?_
      have hslots := arrivals_eventsOfAll (holdsFrom_layout kind presence id layout)
      simpa [Event.arrives] using hslots
    · next h =>
      rw [events, if_neg h]
      exact .nil

theorem arrivals_eventsOfAll {t : Tree} : ∀ {slot : Nat} {ts : List Tree}, t.HoldsFrom slot ts →
    List.Forall₂ (fun path step => (t.follow path).arrival? = some step) (shownPathsFrom slot ts)
      ((eventsOfAll [] ts).filter Event.arrives)
  | _, [], _ => .nil
  | _, first :: rest, h => by
    rw [shownPathsFrom, eventsOfAll, List.filter_append]
    refine List.rel_append (List.forall₂_map_left_iff.mpr ?_) (arrivals_eventsOfAll h.tail)
    refine (arrivals_events first).imp fun path step harrival => ?_
    rw [follow_cons, h.head]
    exact harrival

end

mutual

theorem walkDepth_le_iff_paths : ∀ {n : Nat} {t : Tree},
    t.walkDepth [] ≤ n ↔ ∀ path ∈ t.shownPaths, path.length < n
  | n, .absent => by simp [walkDepth, shownPaths]
  | n, .token _ t => by
    by_cases h : t.isPresent <;> simp [walkDepth, shownPaths, h, Nat.succ_le_iff]
  | n, .node _ presence _ layout => by
    by_cases h : presence.isPresent
    · rw [walkDepth, shownPaths, if_pos h, if_pos h]
      simp only [List.contains_nil, Bool.false_eq_true, if_false, List.forall_mem_cons, List.length_nil]
      cases n with
      | zero => simp
      | succ n =>
        simp only [Nat.add_le_add_iff_right, Nat.zero_lt_succ, true_and]
        exact walkDepthOfAll_le_iff_paths 0
    · simp [walkDepth, shownPaths, h]

theorem walkDepthOfAll_le_iff_paths : ∀ {n : Nat} {ts : List Tree} (slot : Nat),
    walkDepthOfAll [] ts ≤ n ↔ ∀ path ∈ shownPathsFrom slot ts, path.length < n + 1
  | n, [], _ => by simp [walkDepthOfAll, shownPathsFrom]
  | n, t :: ts, slot => by
    rw [walkDepthOfAll, shownPathsFrom, Nat.max_le, List.forall_mem_append, List.forall_mem_map,
      walkDepth_le_iff_paths, walkDepthOfAll_le_iff_paths (slot + 1)]
    simp only [List.length_cons, Nat.add_lt_add_iff_right]

end

/-- A walk goes no deeper than a number of nodes and tokens exactly if the paths to all places that are
shown are shorter. -/
theorem walkDepth_le_iff {n : Nat} {t : Tree} :
    t.walkDepth [] ≤ n ↔ ∀ path, t.Shows path → path.length < n := by
  simp only [walkDepth_le_iff_paths, mem_shownPaths]

/-! ### Deep trees -/

/-- The tree in the only slot of a list, and so on, in so many lists. -/
def nested (t : Tree) : Nat → Tree
  | 0 => t
  | lists + 1 => .node "List" .present none [t.nested lists]

theorem walkDepth_nested (t : Tree) (lists : Nat) :
    (t.nested lists).walkDepth [] = t.walkDepth [] + lists := by
  induction lists with
  | zero => rfl
  | succ lists ih =>
    have hlist : (t.nested (lists + 1)).walkDepth [] = walkDepthOfAll [] [t.nested lists] + 1 := rfl
    rw [hlist, walkDepthOfAll, walkDepthOfAll, Nat.max_zero, ih, Nat.add_assoc]

/-- What is shown in so many lists is deeper than they are. -/
theorem lt_walkDepth_nested {t : Tree} (h : 0 < t.walkDepth []) (lists : Nat) :
    lists < (t.nested lists).walkDepth [] := by
  rw [walkDepth_nested]
  omega

end Tree
end SourceTree
