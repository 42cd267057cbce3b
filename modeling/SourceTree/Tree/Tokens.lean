import SourceTree.Tree.Basic

/-!
# Tokens of a tree

The tokens that stand in the source, in its order, and the text that they make up.
-/
namespace SourceTree.Tree

/-- A token where it occurs, with its serial number. -/
structure Occurrence where
  serial : Nat
  token : Token

mutual

/-- The tokens that stand in the source, from first to last. What is missing hides all beneath it. -/
def tokens : Tree → List Occurrence
  | .absent => []
  | .token serial t => if t.isPresent then [⟨serial, t⟩] else []
  | .node _ presence _ layout => if presence.isPresent then tokensOfAll layout else []

def tokensOfAll : List Tree → List Occurrence
  | [] => []
  | t :: rest => t.tokens ++ tokensOfAll rest

end

/-- The source text of the tree. -/
def description (t : Tree) : Text := t.tokens.flatMap fun o => o.token.fullText

end SourceTree.Tree
