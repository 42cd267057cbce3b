import SourceTree.Token.Basic

/-!
# Trees

The tree of a source text. Tokens hold the text; nodes have a kind and numbered slots, some of which
may be empty. Every token that is read gets a serial number, so two tokens can be told apart even if
they are alike; a token that is used again keeps its number.
-/
namespace SourceTree

/-- One slot of a tree. -/
inductive Tree where
  /-- Nothing stands in the slot. -/
  | absent
  | token (serial : Nat) (t : Token)
  | node (kind : String) (presence : Presence) (id : Option Int) (layout : List Tree)

namespace Tree

/-- Something stands in the slot, and it stands in the source. -/
def isPresent : Tree → Bool
  | absent => false
  | token _ t => t.isPresent
  | node _ presence _ _ => presence.isPresent

/-- What stands in the slot has this id. -/
def id : Tree → Option Int
  | absent => none
  | token _ t => t.id
  | node _ _ id _ => id

/-- The slots; a token has none. -/
def layout : Tree → List Tree
  | absent => []
  | token _ _ => []
  | node _ _ _ layout => layout

/-- The name under which a node of a kind is printed. -/
def nodeName (kind : String) : String := kind ++ "Syntax"

/-- The name under which a tree is printed. -/
def kindName : Tree → String
  | absent => ""
  | token _ _ => nodeName "Token"
  | node kind _ _ _ => nodeName kind

/-- The slots that stand in the source. -/
def children (t : Tree) : List Tree := t.layout.filter isPresent

/-- The kinds of nodes that the parser could not make sense of. -/
def unknownKinds : List String :=
  ["Unknown", "UnknownDecl", "UnknownExpr", "UnknownStmt", "UnknownType", "UnknownPattern"]

/-- A node that the parser could not make sense of. -/
def isUnknown : Tree → Bool
  | node kind _ _ _ => unknownKinds.contains kind
  | _ => false

/-- One line that names the tree. -/
def label : Tree → Text
  | absent => []
  | token _ t => t.label
  | node kind _ _ layout =>
    "SyntaxNode(" ++ kind ++ ", " ++ toString layout.length ++ " slots)"

/-- What is found by following slots from the root; a slot past the end is empty. -/
def follow : Tree → List Nat → Tree
  | t, [] => t
  | t, slot :: path => follow ((t.layout[slot]?).getD .absent) path

end Tree
end SourceTree
