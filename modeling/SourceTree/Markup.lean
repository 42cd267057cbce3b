import SourceTree.Classification.Context
import SourceTree.Tree.Events

/-!
# Trees as text

Renderings of a tree: its source text, the source with classified tokens and comments between tags,
and the source with every node between tags that name its kind. A tree that is too deep is not
rendered, and neither are the tags of nodes that the parser could not make sense of.
-/
namespace SourceTree

/-- How many nodes and tokens may lie on the way down through a tree that is rendered. -/
def maxRenderDepth : Nat := 990

/-- Why a tree is not rendered. -/
inductive Obstacle where
  | tooDeep
  | unknownNode (kind : String)
  deriving DecidableEq

def Obstacle.message : Obstacle → String
  | .tooDeep => "Syntax tree nesting too deep to render"
  | .unknownNode kind => "Unexpected unknown node " ++ Tree.nodeName kind ++ " in syntax tree"

namespace Markup

/-- A text between the tags of its class. Empty and plain texts have no tags. -/
def wrap (text : Text) (c : Classification) : Text :=
  if c == .plain || text.isEmpty then text
  else "<" ++ c.tag ++ ">" ++ text ++ "</" ++ c.tag ++ ">"

/-- Trivia with the comments between tags. -/
def trivia (pieces : List Trivia) : Text :=
  pieces.flatMap fun piece => wrap piece.text (.ofTrivia piece)

/-- A token between tags, with its trivia around it. -/
def token (classes : Classes) (serial : Nat) (t : Token) : Text :=
  trivia t.leading ++ wrap t.text (classes.classOf serial) ++ trivia t.trailing

/-- What a step of a walk adds to the classified source. -/
def classifiedStep (classes : Classes) : Event → Text
  | .token serial t => token classes serial t
  | .enter _ => []
  | .leave _ => []

/-- What a step of a walk adds to the node structure. -/
def structureStep : Event → Text
  | .enter kind => "<" ++ Tree.nodeName kind ++ ">"
  | .token _ t => t.fullText
  | .leave kind => "</" ++ Tree.nodeName kind ++ ">"

end Markup

namespace Tree

/-- The source with each token between the tags of its class. -/
def classifiedText (classes : Classes) (t : Tree) : Text :=
  (t.events []).flatMap (Markup.classifiedStep classes)

/-- The source with each node between tags that name its kind. -/
def structureText (t : Tree) : Text := (t.events []).flatMap Markup.structureStep

mutual

/-- The first thing, in the order of the walk, that keeps the node structure from being written:
an unknown node, or one further down than `room` allows. -/
def firstObstacle : Nat → Tree → Option Obstacle
  | _, .absent => none
  | 0, .token _ t => if t.isPresent then some .tooDeep else none
  | _ + 1, .token _ _ => none
  | 0, .node _ presence _ _ => if presence.isPresent then some .tooDeep else none
  | room + 1, .node kind presence _ layout =>
    if !presence.isPresent then none
    else if unknownKinds.contains kind then some (.unknownNode kind)
    else firstObstacleOfAll room layout

def firstObstacleOfAll : Nat → List Tree → Option Obstacle
  | _, [] => none
  | room, t :: rest =>
    match firstObstacle room t with
    | some obstacle => some obstacle
    | none => firstObstacleOfAll room rest

end

/-- What is computed on a walk through the tree, unless the walk goes too deep. -/
def rendered {α : Type} (t : Tree) (result : Tree → α) : Except Obstacle α :=
  if maxRenderDepth < t.walkDepth [] then .error .tooDeep else .ok (result t)

/-- The source text. -/
def renderSource (t : Tree) : Except Obstacle Text := t.rendered description

/-- The classes of the tokens. -/
def renderClasses (t : Tree) : Except Obstacle Classes := t.rendered classes

/-- The source with each token between the tags of its class. -/
def renderClassified (classes : Classes) (t : Tree) : Except Obstacle Text :=
  t.rendered (classifiedText classes)

/-- The source with each node between tags that name its kind. -/
def renderStructure (t : Tree) : Except Obstacle Text :=
  match t.firstObstacle maxRenderDepth with
  | some obstacle => .error obstacle
  | none => .ok t.structureText

/-- The steps of the walk that skips nodes of the given names. -/
def renderEvents (skips : List String) (t : Tree) : Except Obstacle (List Event) :=
  if maxRenderDepth < t.walkDepth skips then .error .tooDeep else .ok (t.events skips)

end Tree
end SourceTree
