import Mathlib.Data.List.Lex
import SourceTree.Tree.Tokens

/-!
# Places in a tree

The paths from the root of a tree on which everything stands in the source, and among them those to its
tokens, both in the order of the source: that is the lexicographic order of paths, in which a node comes
before what is in it.
-/
namespace SourceTree.Tree

/-- What stands in a slot; nothing does past the end. -/
def slotAt (t : Tree) (slot : Nat) : Tree := (t.layout[slot]?).getD .absent

theorem follow_cons (t : Tree) (slot : Nat) (path : List Nat) :
    t.follow (slot :: path) = (t.slotAt slot).follow path := rfl

theorem follow_absent (path : List Nat) : follow .absent path = .absent := by
  induction path with
  | nil => rfl
  | cons slot path ih => exact ih

/-- From the given slot on, the trees stand in the slots of the tree. -/
def HoldsFrom (t : Tree) (slot : Nat) (ts : List Tree) : Prop :=
  ∀ n, t.slotAt (slot + n) = (ts[n]?).getD .absent

theorem holdsFrom_layout (kind : String) (presence : Presence) (id : Option Int) (layout : List Tree) :
    (Tree.node kind presence id layout).HoldsFrom 0 layout := by
  intro n
  rw [Nat.zero_add]
  rfl

section

variable {t first : Tree} {slot : Nat} {rest : List Tree}

theorem HoldsFrom.head (h : t.HoldsFrom slot (first :: rest)) : t.slotAt slot = first := h 0

theorem HoldsFrom.tail (h : t.HoldsFrom slot (first :: rest)) : t.HoldsFrom (slot + 1) rest := by
  intro n
  rw [Nat.add_right_comm]
  exact h (n + 1)

end

/-- Everything on the path stands in the source, from the root to what is found at the end. -/
def Shows (t : Tree) : List Nat → Prop
  | [] => t.isPresent
  | slot :: path => t.isPresent ∧ (t.slotAt slot).Shows path

theorem not_shows_absent (path : List Nat) : ¬ Shows .absent path := by
  cases path <;> simp [Shows, isPresent]

/-! ### All places -/

mutual

/-- The paths on which everything stands in the source, from first to last. -/
def shownPaths : Tree → List (List Nat)
  | .absent => []
  | .token _ t => if t.isPresent then [[]] else []
  | .node _ presence _ layout => if presence.isPresent then [] :: shownPathsFrom 0 layout else []

/-- The same for the slots of a node from the given one on. -/
def shownPathsFrom (slot : Nat) : List Tree → List (List Nat)
  | [] => []
  | t :: rest => t.shownPaths.map (slot :: ·) ++ shownPathsFrom (slot + 1) rest

end

theorem mem_shownPathsFrom {ts : List Tree} {slot : Nat} {path : List Nat} :
    path ∈ shownPathsFrom slot ts ↔
      ∃ n inner, path = (slot + n) :: inner ∧ inner ∈ ((ts[n]?).getD .absent).shownPaths := by
  induction ts generalizing slot with
  | nil => simp [shownPathsFrom, shownPaths]
  | cons t ts ih =>
    rw [shownPathsFrom, List.mem_append, List.mem_map, ih]
    constructor
    · rintro (⟨inner, hinner, rfl⟩ | ⟨n, inner, rfl, hinner⟩)
      · exact ⟨0, inner, rfl, hinner⟩
      · exact ⟨n + 1, inner, by rw [Nat.add_assoc, Nat.add_comm 1 n], hinner⟩
    · rintro ⟨_ | n, inner, rfl, hinner⟩
      · exact .inl ⟨inner, hinner, rfl⟩
      · exact .inr ⟨n, inner, by rw [Nat.add_assoc, Nat.add_comm 1 n], hinner⟩

/-- A path is listed exactly if everything on it is shown. -/
theorem mem_shownPaths {path : List Nat} : ∀ {t : Tree}, path ∈ t.shownPaths ↔ t.Shows path := by
  induction path with
  | nil =>
    intro t
    cases t with
    | absent => simp [shownPaths, Shows, isPresent]
    | token serial t => by_cases h : t.isPresent <;> simp [shownPaths, Shows, isPresent, h]
    | node kind presence id layout =>
      by_cases h : presence.isPresent <;> simp [shownPaths, Shows, isPresent, h]
  | cons slot path ih =>
    intro t
    cases t with
    | absent => simp [shownPaths, not_shows_absent]
    | token serial t =>
      have hbelow : (Tree.token serial t).slotAt slot = .absent := rfl
      by_cases h : t.isPresent <;> simp [shownPaths, Shows, hbelow, not_shows_absent, h]
    | node kind presence id layout =>
      have hslot : ((layout[slot]?).getD .absent) = (Tree.node kind presence id layout).slotAt slot := rfl
      by_cases h : presence.isPresent
      · rw [shownPaths, if_pos h]
        simp only [List.mem_cons, reduceCtorEq, false_or, mem_shownPathsFrom, Nat.zero_add,
          List.cons.injEq]
        constructor
        · rintro ⟨n, inner, ⟨rfl, rfl⟩, hinner⟩
          rw [hslot, ih] at hinner
          exact ⟨h, hinner⟩
        · rintro ⟨-, hshows⟩
          exact ⟨slot, path, ⟨rfl, rfl⟩, ih.mpr hshows⟩
      · simp [shownPaths, Shows, isPresent, h]

mutual

/-- The order of the source is the order of paths. -/
theorem pairwise_shownPaths : ∀ t : Tree, t.shownPaths.Pairwise (· < ·)
  | .absent => List.Pairwise.nil
  | .token _ t => by
    rw [shownPaths]
    split
    · exact List.pairwise_singleton _ _
    · exact List.Pairwise.nil
  | .node _ presence _ layout => by
    rw [shownPaths]
    split
    · refine List.Pairwise.cons ?_ (pairwise_shownPathsFrom 0 layout)
      intro path hpath
      obtain ⟨n, inner, rfl, -⟩ := mem_shownPathsFrom.mp hpath
      exact List.nil_lt_cons _ _
    · exact List.Pairwise.nil

theorem pairwise_shownPathsFrom : ∀ (slot : Nat) (ts : List Tree),
    (shownPathsFrom slot ts).Pairwise (· < ·)
  | _, [] => List.Pairwise.nil
  | slot, t :: ts => by
    rw [shownPathsFrom, List.pairwise_append]
    refine ⟨?_, pairwise_shownPathsFrom (slot + 1) ts, ?_⟩
    · rw [List.pairwise_map]
      apply (pairwise_shownPaths t).imp
      intro path other h
      exact List.cons_lt_cons_self.mpr h
    · intro path hpath other hother
      obtain ⟨inner, -, rfl⟩ := List.mem_map.mp hpath
      obtain ⟨n, rest, rfl, -⟩ := mem_shownPathsFrom.mp hother
      apply List.cons_lt_cons_iff.mpr
      left
      omega

end

/-! ### Places of tokens -/

/-- There is a token at the end of the path, of this serial number. -/
def HasTokenAt (t : Tree) (path : List Nat) (serial : Nat) : Prop :=
  t.Shows path ∧ ∃ token, t.follow path = .token serial token

mutual

/-- The paths to the tokens that stand in the source, from first to last. -/
def tokenPaths : Tree → List (List Nat)
  | .absent => []
  | .token _ t => if t.isPresent then [[]] else []
  | .node _ presence _ layout => if presence.isPresent then tokenPathsFrom 0 layout else []

/-- The same for the slots of a node from the given one on. -/
def tokenPathsFrom (slot : Nat) : List Tree → List (List Nat)
  | [] => []
  | t :: rest => t.tokenPaths.map (slot :: ·) ++ tokenPathsFrom (slot + 1) rest

end

def isToken : Tree → Bool
  | .token _ _ => true
  | _ => false

mutual

/-- The places of tokens are those of all places at which there is a token. -/
theorem tokenPaths_eq : ∀ t : Tree, t.tokenPaths = t.shownPaths.filter fun path => (t.follow path).isToken
  | .absent => rfl
  | .token _ t => by
    rw [tokenPaths, shownPaths]
    split <;> rfl
  | .node kind presence id layout => by
    rw [tokenPaths, shownPaths]
    split
    · rw [List.filter_cons_of_neg Bool.false_ne_true]
      exact tokenPathsFrom_eq (holdsFrom_layout kind presence id layout)
    · rfl

theorem tokenPathsFrom_eq {t : Tree} : ∀ {slot : Nat} {ts : List Tree}, t.HoldsFrom slot ts →
    tokenPathsFrom slot ts = (shownPathsFrom slot ts).filter fun path => (t.follow path).isToken
  | _, [], _ => rfl
  | slot, first :: rest, h => by
    rw [tokenPathsFrom, shownPathsFrom, List.filter_append, tokenPathsFrom_eq h.tail, tokenPaths_eq first,
      List.filter_map]
    simp only [Function.comp_def, follow_cons, h.head]

end

/-- A path is listed exactly if it shows a token. -/
theorem mem_tokenPaths {path : List Nat} {t : Tree} :
    path ∈ t.tokenPaths ↔ ∃ serial, t.HasTokenAt path serial := by
  rw [tokenPaths_eq, List.mem_filter, mem_shownPaths]
  unfold HasTokenAt
  cases t.follow path <;> simp [isToken]

theorem pairwise_tokenPaths (t : Tree) : t.tokenPaths.Pairwise (· < ·) := by
  rw [tokenPaths_eq]
  exact (pairwise_shownPaths t).filter _

/-! ### The last place of a token -/

/-- Of the places of a token, this is the last one. -/
structure LastPlace (t : Tree) (serial : Nat) (path : List Nat) : Prop where
  shown : t.HasTokenAt path serial
  last : ∀ other, t.HasTokenAt other serial → other ≠ path → other < path

theorem LastPlace.unique {t : Tree} {serial : Nat} {path other : List Nat}
    (h : t.LastPlace serial path) (h' : t.LastPlace serial other) : path = other := by
  by_contra hne
  exact lt_asymm (h'.last path h.shown hne) (h.last other h'.shown (Ne.symm hne))

end SourceTree.Tree
