import SourceTree.Outline.Fault
import SourceTree.Token.Basic
import SourceTree.Token.Spelling

/-!
# Outlines

What a payload says, slot by slot, before the nodes that it leaves out are looked up: both formats are
read into this one shape. A fault stands in the slot where the payload is wrong, so what precedes it in
the payload is still there to be taken in.

The rules that both formats share are here too: how a node's kind is spelled, what text a token has,
and what a piece of trivia may be.
-/
namespace SourceTree

/-- One slot of a payload. -/
inductive Outline where
  /-- Nothing stands in the slot. -/
  | absent
  /-- The payload is wrong here. -/
  | fault (cause : Fault)
  /-- A node that is left out, named by its id. -/
  | reference (id : Int)
  | token (t : Token)
  | node (kind : String) (presence : Presence) (id : Option Int) (slots : List Outline)

namespace Outline

/-- The outline that was read, or the fault in its place. -/
def ofExcept : Except Fault Outline → Outline
  | .ok outline => outline
  | .error cause => .fault cause

def isKindStart (c : Char) : Bool := c.isAlpha || c == '_'

def isKindRest (c : Char) : Bool := c.isAlphanum || c == '_'

/-- A kind is a letter or underscore and then letters, digits and underscores. One line break at its
end is let through. -/
def isKind (kind : String) : Bool :=
  match kind.toList with
  | [] => false
  | c :: rest => isKindStart c && (rest.all isKindRest ||
      (rest.getLast? == some '\n' && rest.dropLast.all isKindRest))

/-- The text of a token whose payload gives none: the one spelling of its kind. -/
def fixedText (kind : Text) : Except Fault Text :=
  match Spelling.fixed? kind with
  | some text => .ok text
  | none =>
    if Spelling.isKnown kind then .error (.missingText kind) else .error (.unknownTokenKind kind)

/-- A piece of white space of the given spelling, a number of times. -/
def countedPiece (kind spelling : String) (count : Nat) : Except Fault Trivia :=
  match Trivia.repeat? spelling count with
  | .ok text => .ok ⟨kind, text⟩
  | .error cause => .error (.repetition cause)

/-- The elements read one by one, up to the first fault. -/
def readAll {α β : Type} (read : α → Except Fault β) : List α → Except Fault (List β)
  | [] => .ok []
  | a :: rest =>
    match read a with
    | .error cause => .error cause
    | .ok b =>
      match readAll read rest with
      | .error cause => .error cause
      | .ok bs => .ok (b :: bs)

end Outline
end SourceTree
