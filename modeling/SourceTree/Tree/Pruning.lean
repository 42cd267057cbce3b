import SourceTree.Tree.Basic

/-!
# Pruned trees

Trees without what a walk does not look at: with empty slots in place of what is missing, and with the
slots of some kinds of nodes taken away.
-/
namespace SourceTree.Tree

mutual

/-- The tree with an empty slot for everything that does not stand in the source. -/
def withoutMissing : Tree → Tree
  | .absent => .absent
  | .token serial t => if t.isPresent then .token serial t else .absent
  | .node kind presence id layout =>
    if presence.isPresent then .node kind presence id (withoutMissingAll layout) else .absent

def withoutMissingAll : List Tree → List Tree
  | [] => []
  | t :: rest => t.withoutMissing :: withoutMissingAll rest

end

mutual

/-- The tree with no slots in nodes of the given names. -/
def emptied (names : List String) : Tree → Tree
  | .absent => .absent
  | .token serial t => .token serial t
  | .node kind presence id layout =>
    .node kind presence id (if names.contains (nodeName kind) then [] else emptiedAll names layout)

def emptiedAll (names : List String) : List Tree → List Tree
  | [] => []
  | t :: rest => t.emptied names :: emptiedAll names rest

end

end SourceTree.Tree
