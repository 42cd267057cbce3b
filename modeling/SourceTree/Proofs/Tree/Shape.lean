import SourceTree.Proofs.Tree.Places
import SourceTree.Tree.Events

/-!
# Trees of the same shape

What the source consists of is the same in trees of the same shape: kinds, presence, texts, trivia and
layout, empty slots included. The ids of nodes and the serial numbers of tokens need not be the same, so
trees of the same shape can share tokens between their places in different ways.
-/
namespace SourceTree

/-- The token without its id. -/
def Token.bare (t : Token) : Token := { t with id := none }

namespace Tree

mutual

/-- The tree without ids, and with the serial number zero on every token. -/
def bare : Tree → Tree
  | .absent => .absent
  | .token _ t => .token 0 t.bare
  | .node kind presence _ layout => .node kind presence none (bareAll layout)

def bareAll : List Tree → List Tree
  | [] => []
  | t :: rest => t.bare :: bareAll rest

end

/-- The trees differ in nothing but ids and serial numbers. -/
def SameShape (t u : Tree) : Prop := t.bare = u.bare

/-- What depends on neither ids nor serial numbers is the same of trees of the same shape. -/
theorem SameShape.same {α : Type} {f : Tree → α} (hf : ∀ t, f t.bare = f t) {t u : Tree}
    (h : t.SameShape u) : f t = f u := by
  rw [← hf t, ← hf u, h]

theorem bare_eq_absent_iff (t : Tree) : t.bare = .absent ↔ t = .absent := by
  cases t <;> simp [bare]

/-! ### Places -/

theorem getElem?_bareAll (ts : List Tree) (slot : Nat) : (bareAll ts)[slot]? = (ts[slot]?).map bare := by
  induction ts generalizing slot with
  | nil => rfl
  | cons t ts ih =>
    cases slot with
    | zero => rfl
    | succ slot => simp only [bareAll, List.getElem?_cons_succ, ih]

theorem slotAt_bare (t : Tree) (slot : Nat) : t.bare.slotAt slot = (t.slotAt slot).bare := by
  cases t with
  | absent => rfl
  | token serial t => rfl
  | node kind presence id slots =>
    simp only [slotAt, bare, layout, getElem?_bareAll]
    cases slots[slot]? <;> rfl

theorem follow_bare (path : List Nat) : ∀ t : Tree, t.bare.follow path = (t.follow path).bare := by
  induction path with
  | nil => exact fun _ => rfl
  | cons slot path ih =>
    intro t
    rw [follow_cons, follow_cons, slotAt_bare, ih]

mutual

theorem tokenPaths_bare : ∀ t : Tree, t.bare.tokenPaths = t.tokenPaths
  | .absent => rfl
  | .token _ _ => rfl
  | .node _ _ _ layout => by rw [bare, tokenPaths, tokenPaths, tokenPathsFrom_bareAll 0 layout]

theorem tokenPathsFrom_bareAll : ∀ (slot : Nat) (ts : List Tree),
    tokenPathsFrom slot (bareAll ts) = tokenPathsFrom slot ts
  | _, [] => rfl
  | slot, t :: ts => by
    rw [bareAll, tokenPathsFrom, tokenPathsFrom, tokenPaths_bare t, tokenPathsFrom_bareAll (slot + 1) ts]

end

mutual

theorem walkDepth_bare (skips : List String) : ∀ t : Tree, t.bare.walkDepth skips = t.walkDepth skips
  | .absent => rfl
  | .token _ _ => rfl
  | .node _ _ _ layout => by
    rw [bare, walkDepth, walkDepth, walkDepthOfAll_bareAll skips layout]

theorem walkDepthOfAll_bareAll (skips : List String) : ∀ ts : List Tree,
    walkDepthOfAll skips (bareAll ts) = walkDepthOfAll skips ts
  | [] => rfl
  | t :: ts => by
    rw [bareAll, walkDepthOfAll, walkDepthOfAll, walkDepth_bare skips t, walkDepthOfAll_bareAll skips ts]

end

end Tree
end SourceTree
