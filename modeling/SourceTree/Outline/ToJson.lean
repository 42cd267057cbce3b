import SourceTree.Outline.Basic

/-!
# Writing outlines as JSON

The documented form of a payload: every token carries its text, every counted piece of trivia its
count, and null stands for an empty slot.
-/
namespace SourceTree.Outline

/-- How often a spelling is repeated in a text. -/
def repetitions (spelling : String) (text : Text) : Nat := text.length / spelling.length

def pieceToJson (piece : Trivia) : Json :=
  match Trivia.spelling? piece.kind with
  | some spelling =>
    .obj [("kind", .str piece.kind), ("value", .int (repetitions spelling piece.text))]
  | none => .obj [("kind", .str piece.kind), ("value", .str piece.text)]

def triviaToJson (pieces : List Trivia) : Json := .arr (pieces.map pieceToJson)

def presenceToJson : Presence → Json
  | .present => .str "Present"
  | .missing => .str "Missing"

/-- The member for an id, if there is one. -/
def idMembers : Option Int → Json.Members
  | none => []
  | some id => [("id", .int id)]

def tokenToJson (t : Token) : Json :=
  .obj (idMembers t.id ++ ([
    ("tokenKind", .obj [("kind", .str t.kind), ("text", .str t.text)]),
    ("leadingTrivia", triviaToJson t.leading),
    ("trailingTrivia", triviaToJson t.trailing),
    ("presence", presenceToJson t.presence)] : Json.Members))

mutual

/-- The written form. A fault has none, and is written like an empty slot. -/
def toJson : Outline → Json
  | .absent => .null
  | .fault _ => .null
  | .reference id => .obj [("id", .int id), ("omitted", .bool true)]
  | .token t => tokenToJson t
  | .node kind presence id slots =>
    .obj (idMembers id ++ ([("kind", .str kind), ("layout", .arr (slotsToJson slots)),
      ("presence", presenceToJson presence)] : Json.Members))

def slotsToJson : List Outline → List Json
  | [] => []
  | slot :: rest => toJson slot :: slotsToJson rest

end

end SourceTree.Outline
