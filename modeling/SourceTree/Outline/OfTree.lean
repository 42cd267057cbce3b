import SourceTree.Outline.Basic
import SourceTree.Tree.Basic

/-!
# Outlines of trees

The outline that says all of a tree and leaves nothing out. Two trees have the same outline if they are
alike in everything but the serial numbers of their tokens.
-/
namespace SourceTree.Outline

mutual

/-- What a payload has to say to give the tree. -/
def ofTree : Tree → Outline
  | .absent => .absent
  | .token _ t => .token t
  | .node kind presence id layout => .node kind presence id (ofTrees layout)

def ofTrees : List Tree → List Outline
  | [] => []
  | t :: rest => ofTree t :: ofTrees rest

end

end SourceTree.Outline
