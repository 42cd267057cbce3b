import SourceTree.Outline.Basic

/-!
# Outlines from ByteTree

A node is an object whose first fields are its type and its id; an object without fields is an empty
slot. The presence is the third field. A token has its kind, its text and two lists of trivia after
that, a node with slots its kind and the list of its slots. Fields that come later are not looked at.
-/
namespace SourceTree.Outline

open ByteTree (Field Fields FieldError)

/-- The first field of a node. -/
inductive NodeType where
  | layout
  | token
  | leftOut

def NodeType.ofNat? : Nat → Option NodeType
  | 0 => some .layout
  | 1 => some .token
  | 2 => some .leftOut
  | _ => none

/-- A field that was asked for, or the fault that it is not there. -/
def fieldOf {α : Type} : Except FieldError α → Except Fault α
  | .ok a => .ok a
  | .error cause => .error (.field cause)

/-- A piece of trivia from its kind and a count or a text. -/
def pieceOfFields (piece : Fields) : Except Fault Trivia := do
  let kind ← fieldOf (piece.stringAt 0)
  match Trivia.spelling? kind with
  | some spelling =>
    let count ← fieldOf (piece.uintAt 1)
    countedPiece kind spelling count
  | none =>
    let text ← fieldOf (piece.stringAt 1)
    if Trivia.textKinds.contains kind then return ⟨kind, text⟩
    else .error (.unknownTriviaKind (.str kind))

/-- The pieces of trivia from the one at `index` on. -/
def triviaFrom : Nat → Fields → Except Fault (List Trivia)
  | _, [] => .ok []
  | index, .scalar _ :: _ => .error (.field (.notAnObject index))
  | index, .object piece :: rest =>
    match pieceOfFields piece with
    | .error cause => .error cause
    | .ok trivia =>
      match triviaFrom (index + 1) rest with
      | .error cause => .error cause
      | .ok more => .ok (trivia :: more)

/-- A token from its fields. An empty text stands for the one spelling of the kind. -/
def tokenOfFields (fields : Fields) (presence : Presence) (id : Nat) : Except Fault Token := do
  let kind ← fieldOf (fields.stringAt 3)
  let written ← fieldOf (fields.stringAt 4)
  let text ← if written == "" then fixedText kind else .ok (Text.ofString written)
  let leading ← fieldOf (fields.objectAt 5)
  let leading ← triviaFrom 0 leading
  let trailing ← fieldOf (fields.objectAt 6)
  let trailing ← triviaFrom 0 trailing
  return ⟨kind, text, leading, trailing, presence, some id⟩

/-- A node from its fields and the outlines of its slots. -/
def ofNodeFields (fields : Fields) (slots : List Outline) : Except Fault Outline := do
  let type ← fieldOf (fields.uintAt 0)
  let id ← fieldOf (fields.uintAt 1)
  if let some .leftOut := NodeType.ofNat? type then
    return .reference id
  let mark ← fieldOf (fields.uintAt 2)
  let presence := if mark == 0 then Presence.missing else .present
  match NodeType.ofNat? type with
  | some .token =>
    let token ← tokenOfFields fields presence id
    return .token token
  | some .layout =>
    let _ ← fieldOf (fields.objectAt 4)
    let kind ← fieldOf (fields.stringAt 3)
    if isKind kind then return .node kind presence (some (id : Int)) slots
    else .error (.invalidKind (.str kind))
  | _ => .error (.unknownNodeType type id)

mutual

/-- The outline of the field at `index` of a list of slots. -/
def ofField (index : Nat) : Field → Outline
  | .scalar _ => .fault (.field (.notAnObject index))
  | .object [] => .absent
  | .object (first :: more) =>
    ofExcept (ofNodeFields (first :: more) (slotsAfter 3 more))

/-- The outlines of the slots that an object lists, after so many more fields. -/
def slotsAfter : Nat → List Field → List Outline
  | _, [] => []
  | 0, field :: _ => slotsOfField field
  | n + 1, _ :: rest => slotsAfter n rest

def slotsOfField : Field → List Outline
  | .scalar _ => []
  | .object slots => slotsFrom 0 slots

def slotsFrom : Nat → List Field → List Outline
  | _, [] => []
  | index, field :: rest => ofField index field :: slotsFrom (index + 1) rest

end

/-- The outline of the root of a document. -/
def ofRoot (root : Fields) : Outline := ofField 0 (.object root)

end SourceTree.Outline
