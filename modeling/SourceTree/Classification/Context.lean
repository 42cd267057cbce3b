import SourceTree.Classification.Basic
import SourceTree.Keyed
import SourceTree.Tree.Tokens

/-!
# Classes of tokens in a tree

Some slots say what the tokens beneath them are. A context that is forced holds for all of them and is
not replaced further down; one that is not forced holds for plain identifiers, up to the next context.
A token that occurs several times has the class of its last occurrence.
-/
namespace SourceTree

/-- What a slot says about the tokens beneath it. -/
structure Context where
  classification : Classification
  forced : Bool
  deriving DecidableEq

namespace Context

/-- The slots that say something: the kind of the node and the number of the slot. -/
def ofSlots : List ((String × Nat) × Context) := [
  (("SimpleTypeIdentifier", 0), ⟨.typeIdentifier, false⟩),
  (("MemberTypeIdentifier", 2), ⟨.typeIdentifier, false⟩),
  (("Attribute", 0), ⟨.builtinAttribute, true⟩),
  (("Attribute", 1), ⟨.builtinAttribute, true⟩),
  (("IfConfigClause", 1), ⟨.buildConfigId, false⟩),
  (("ExpressionSegment", 1), ⟨.stringInterpolationAnchor, true⟩),
  (("ExpressionSegment", 3), ⟨.stringInterpolationAnchor, true⟩),
  (("ObjectLiteralExpr", 0), ⟨.objectLiteral, true⟩)]

/-- What a slot says. -/
def ofSlot? (kind : String) (slot : Nat) : Option Context := ofSlots.lookup (kind, slot)

/-- The context beneath a slot, given the one above it. -/
def enter (context : Option Context) (kind : String) (slot : Nat) : Option Context :=
  match context with
  | some ⟨classification, true⟩ => some ⟨classification, true⟩
  | _ =>
    match ofSlot? kind slot with
    | some inner => some inner
    | none => context

/-- The class of a token in a context. -/
def apply (context : Option Context) (base : Classification) : Classification :=
  match context with
  | none => base
  | some context =>
    if context.forced || base == .identifier then context.classification else base

end Context

/-- Tokens with their classes, by serial number, in the order in which the tokens were first met. -/
abbrev Classes := Keyed Nat (Token × Classification)

/-- The class of the token of a serial number; plain if it has none. -/
def Classes.classOf (classes : Classes) (serial : Nat) : Classification :=
  ((classes.lookup serial).map Prod.snd).getD .plain

namespace Tree

mutual

/-- The tokens that stand in the source, each with the class that its place gives it. -/
def classified (context : Option Context) : Tree → List (Occurrence × Classification)
  | .absent => []
  | .token serial t =>
    if t.isPresent then [(⟨serial, t⟩, Context.apply context (.ofToken t))] else []
  | .node kind presence _ layout =>
    if presence.isPresent then classifiedFrom context kind 0 layout else []

/-- The same for the slots of a node from the given one on. -/
def classifiedFrom (context : Option Context) (kind : String) (slot : Nat) :
    List Tree → List (Occurrence × Classification)
  | [] => []
  | t :: rest =>
    t.classified (Context.enter context kind slot) ++ classifiedFrom context kind (slot + 1) rest

end

/-- The classes of all tokens of the tree. -/
def classes (t : Tree) : Classes :=
  (t.classified none).foldl (fun classes (o, c) => classes.put o.serial (o.token, c)) []

end Tree
end SourceTree
