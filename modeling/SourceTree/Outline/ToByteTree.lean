import SourceTree.ByteTree.Writer
import SourceTree.Outline.ToJson

/-!
# Writing outlines as ByteTree

A node is an object of its type, its id, its presence, its kind and its slots, or its text and trivia
if it is a token. Ids and counts are words, so the form is faithful for ids that are there and fit in
one. An object without fields stands for an empty slot.
-/
namespace SourceTree.Outline

open ByteTree (Field word)

/-- A text. Surrogates are let through, so one that holds some is not read back. -/
def textField (text : Text) : Field := .scalar (Text.Utf8.encodePassing text)

def wordField (n : Nat) : Field := .scalar (word n)

def byteField (b : UInt8) : Field := .scalar [b]

def presenceField : Presence → Field
  | .present => byteField 1
  | .missing => byteField 0

/-- An id; one that is not there is written as zero. -/
def idField (id : Option Int) : Field := wordField (id.getD 0).toNat

def pieceToFields (piece : Trivia) : Field :=
  match Trivia.spelling? piece.kind with
  | some spelling =>
    .object [textField piece.kind, wordField (repetitions spelling piece.text)]
  | none => .object [textField piece.kind, textField piece.text]

def tokenToFields (t : Token) : Field :=
  .object [byteField 1, idField t.id, presenceField t.presence, textField t.kind, textField t.text,
    .object (t.leading.map pieceToFields), .object (t.trailing.map pieceToFields)]

mutual

/-- The written form. A fault has none, and is written like an empty slot. -/
def toField : Outline → Field
  | .absent => .object []
  | .fault _ => .object []
  | .reference id => .object [byteField 2, idField (some id)]
  | .token t => tokenToFields t
  | .node kind presence id slots =>
    .object [byteField 0, idField id, presenceField presence, textField kind,
      .object (slotsToFields slots)]

def slotsToFields : List Outline → List Field
  | [] => []
  | slot :: rest => toField slot :: slotsToFields rest

end

end SourceTree.Outline
