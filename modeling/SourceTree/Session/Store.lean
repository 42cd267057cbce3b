import SourceTree.Keyed
import SourceTree.Tree.Basic

/-!
# The store of a session

The nodes that a session has read, by id. The last one of an id is the one that is found.
-/
namespace SourceTree

/-- Nodes by id, in the order in which the ids were first met. -/
abbrev Store := Keyed Int Tree

namespace Store

/-- The node of an id. -/
def find? (store : Store) (id : Int) : Option Tree := store.lookup id

/-- Puts a node in under its id, if it has one. -/
def remember (store : Store) (id : Option Int) (tree : Tree) : Store :=
  match id with
  | some id => store.put id tree
  | none => store

/-- The node that was put in last is the one that is found. -/
theorem find?_put (store : Store) (id other : Int) (tree : Tree) :
    find? (store.put id tree) other = if other == id then some tree else store.find? other :=
  Keyed.lookup_put store id other tree

/-- Remembering a node changes what is found under its own id and under no other. -/
theorem find?_remember (store : Store) (id : Option Int) (tree : Tree) (other : Int) :
    (store.remember id tree).find? other =
      if id = some other then some tree else store.find? other := by
  cases id with
  | none => simp [remember]
  | some id =>
    rw [remember, find?_put]
    by_cases h : other = id
    · simp [h]
    · simp [beq_false_of_ne h, Ne.symm h]

end Store
end SourceTree
