import SourceTree.Outline.Basic

/-!
# Outlines from JSON

A node is an object, an empty slot is null. The members are checked in a fixed order: the id, whether
the node is left out, the presence, and then what makes it a token or a node with slots. The slots
come last, so a fault in a node itself comes before any in its slots.
-/
namespace SourceTree.Outline

/-- The id of a node, if it has one. -/
def nodeId (members : Json.Members) : Except Fault (Option Int) :=
  match Json.member? members "id" with
  | none | some .null => .ok none
  | some (.int id) => .ok (some id)
  | some found => .error (.idNotInteger found)

/-- What a node may say of its presence. -/
def presences : List (String × Presence) := [("Present", .present), ("Missing", .missing)]

/-- A node is there unless it says otherwise. -/
def nodePresence (members : Json.Members) : Except Fault Presence :=
  match Json.member? members "presence" with
  | none => .ok .present
  | some (.str mark) =>
    match mark.lookupIn presences with
    | some presence => .ok presence
    | none => .error (.invalidPresence (.str mark))
  | some found => .error (.invalidPresence found)

/-- The node is left out. -/
def isLeftOut (members : Json.Members) : Bool :=
  match Json.member? members "omitted" with
  | some mark => mark.isTruthy
  | none => false

/-- A piece of trivia: a count for white space, a text for comments. -/
def pieceOfKind (kind : String) (value : Json) : Except Fault Trivia :=
  match Trivia.spelling? kind with
  | some spelling =>
    match value with
    | .int count =>
      if count < 0 then .error (.badCount kind value) else countedPiece kind spelling count.toNat
    | _ => .error (.badCount kind value)
  | none =>
    if Trivia.textKinds.contains kind then
      match value with
      | .str text => .ok ⟨kind, text⟩
      | _ => .error (.badTriviaText kind value)
    else .error (.unknownTriviaKind (.str kind))

/-- A piece of trivia from its members. -/
def pieceOfJson : Json → Except Fault Trivia
  | .obj members =>
    match (Json.member? members "kind").getD .null with
    | .str kind =>
      match kind.plain? with
      | some name => pieceOfKind name ((Json.member? members "value").getD .null)
      | none => .error (.unknownTriviaKind (.str kind))
    | .arr items => .error (.compoundTriviaKind (.arr items))
    | .obj inner => .error (.compoundTriviaKind (.obj inner))
    | found => .error (.unknownTriviaKind found)
  | _ => .error .pieceNotObject

/-- The trivia of a token; none if the payload does not mention it. -/
def triviaOfJson : Option Json → Except Fault (List Trivia)
  | none => .ok []
  | some (.arr pieces) => readAll pieceOfJson pieces
  | some _ => .error .triviaNotArray

/-- The text of a token: what the payload gives, or the one spelling of its kind. -/
def textOfJson (kind : Text) : Option Json → Except Fault Text
  | none | some .null => fixedText kind
  | some (.str text) => .ok text
  | some _ => .error (.textNotString kind)

/-- A token from what its `tokenKind` says and the other members. -/
def tokenOfJson (tokenKind : Json) (members : Json.Members) (presence : Presence)
    (id : Option Int) : Except Fault Token :=
  match tokenKind with
  | .obj inner =>
    match Json.member? inner "kind" with
    | some (.str kind) => do
      let text ← textOfJson kind (Json.member? inner "text")
      let leading ← triviaOfJson (Json.member? members "leadingTrivia")
      let trailing ← triviaOfJson (Json.member? members "trailingTrivia")
      return ⟨kind, text, leading, trailing, presence, id⟩
    | _ => .error (.malformedTokenKind id)
  | _ => .error (.malformedTokenKind id)

/-- The kind of a node with slots. -/
def kindOfJson : Json → Except Fault String
  | .str kind =>
    match kind.plain? with
    | some name => if isKind name then .ok name else .error (.invalidKind (.str kind))
    | none => .error (.invalidKind (.str kind))
  | found => .error (.invalidKind found)

/-- A node from its members and the outlines of its slots. -/
def ofMembers (members : Json.Members) (slots : List Outline) : Except Fault Outline := do
  let id ← nodeId members
  if isLeftOut members then
    match id with
    | some id => return .reference id
    | none => .error .referenceWithoutId
  else
    let presence ← nodePresence members
    match Json.member? members "tokenKind", Json.member? members "kind" with
    | some tokenKind, _ =>
      let token ← tokenOfJson tokenKind members presence id
      return .token token
    | none, some kind =>
      match Json.member? members "layout" with
      | some (.arr _) =>
        let kind ← kindOfJson kind
        return .node kind presence id slots
      | _ => .error (.noLayout id)
    | none, none => .error (.neitherTokenNorNode id)

mutual

/-- The outline of a value in the place of a node. -/
def ofJson : Json → Outline
  | .null => .absent
  | .obj members => ofExcept (ofMembers members (slotsOfMembers members))
  | .bool b => .fault (.notANode (.bool b))
  | .int n => .fault (.notANode (.int n))
  | .float x => .fault (.notANode (.float x))
  | .str s => .fault (.notANode (.str s))
  | .arr items => .fault (.notANode (.arr items))

/-- The outlines of the slots that the member `layout` lists. -/
def slotsOfMembers : List (Text × Json) → List Outline
  | [] => []
  | (name, value) :: rest => if name == "layout" then slotsOfJson value else slotsOfMembers rest

def slotsOfJson : Json → List Outline
  | .arr items => slotsOfItems items
  | _ => []

def slotsOfItems : List Json → List Outline
  | [] => []
  | item :: rest => ofJson item :: slotsOfItems rest

end

end SourceTree.Outline
