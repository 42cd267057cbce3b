import SourceTree.ByteTree.Reader
import SourceTree.Json.Reader
import SourceTree.Json.Text
import SourceTree.Token.Trivia

/-!
# Faults of payloads

Everything that keeps a payload from being read as a tree, by cause. Most faults are expected of a bad
payload; some go past what the reading of payloads provides for, and whoever asked for the tree does
not recover from those.
-/
namespace SourceTree

/-- Why a payload gives no tree. -/
inductive Fault where
  /-- The payload is no JSON text. -/
  | json (cause : Json.ReadError)
  /-- The payload is no ByteTree document. -/
  | byteTree (cause : ByteTree.ReadError)
  /-- The payload, of so many bytes, is nested too deep to be read. -/
  | tooDeep (bytes : Nat)
  | unsupportedFormat (name : String)
  | noRoot
  | notANode (found : Json)
  | idNotInteger (found : Json)
  | referenceWithoutId
  /-- A node is left out, and no node of its id has been read. -/
  | unknownReference (id : Int)
  | invalidPresence (found : Json)
  | malformedTokenKind (id : Option Int)
  | textNotString (kind : Text)
  | missingText (kind : Text)
  | unknownTokenKind (kind : Text)
  | triviaNotArray
  | pieceNotObject
  | badCount (kind : String) (found : Json)
  | badTriviaText (kind : String) (found : Json)
  | unknownTriviaKind (found : Json)
  | noLayout (id : Option Int)
  | invalidKind (found : Json)
  | neitherTokenNorNode (id : Option Int)
  | unknownNodeType (type id : Nat)
  | field (cause : ByteTree.FieldError)
  /-- The kind of a piece of trivia is an array or an object. -/
  | compoundTriviaKind (found : Json)
  /-- A counted piece of trivia cannot be built. -/
  | repetition (cause : Trivia.RepeatError)
  /-- An integer is written with more digits than are read. -/
  | integerTooLong (digits : Nat)

namespace Fault

/-- How a fault is met: as one of the payload, or as one that nobody provides for. -/
inductive Category where
  | payload
  | type
  | overflow
  | memory
  | value
  deriving DecidableEq

def category : Fault → Category
  | .compoundTriviaKind _ => .type
  | .repetition .outOfMemory => .memory
  | .repetition _ => .overflow
  | .integerTooLong _ => .value
  | _ => .payload

/-- The fault is one that is expected of a bad payload. -/
def isExpected (fault : Fault) : Bool := fault.category == .payload

/-- An id in a message. -/
def idText : Option Int → String
  | none => "None"
  | some id => toString id

/-- The wording of a JSON text that cannot be read. The two limits have faults of their own. -/
def jsonMessage : Json.ReadError → String
  | .undecodable cause => cause.message
  | .mistake what place => what.message ++ ": " ++ place.text
  | .tooDeep => "nesting too deep"
  | .longInteger digits => "integer of " ++ toString digits ++ " digits"

def message : Fault → Text
  | .json cause => "Invalid JSON syntax tree: " ++ jsonMessage cause
  | .byteTree cause => cause.message
  | .tooDeep bytes =>
    "Syntax tree nesting too deep to deserialize (" ++ toString bytes ++ " bytes)"
  | .unsupportedFormat name => "Unsupported serialization format: " ++ name
  | .noRoot => "Serialized syntax tree has no root node"
  | .notANode found => "Expected a syntax node object, found " ++ found.typeName
  | .idNotInteger found => "Node id must be an integer, found " ++ found.text
  | .referenceWithoutId => "Omitted node has no id"
  | .unknownReference id =>
    "Omitted node " ++ toString id ++ " was not part of a previously deserialized tree"
  | .invalidPresence found => "Invalid presence: " ++ found.text
  | .malformedTokenKind id => "Token " ++ idText id ++ " has a malformed tokenKind"
  | .textNotString kind => "Text of " ++ kind ++ " token must be a string"
  | .missingText kind => "Token of kind " ++ kind ++ " is missing its text"
  | .unknownTokenKind kind => "Unknown token kind: " ++ kind
  | .triviaNotArray => "Trivia must be an array"
  | .pieceNotObject => "Trivia piece must be an object"
  | .badCount kind found =>
    kind ++ " trivia needs a non-negative count, found " ++ found.text
  | .badTriviaText kind found => kind ++ " trivia needs text, found " ++ found.text
  | .unknownTriviaKind found => "Unknown trivia kind: " ++ found.text
  | .noLayout id => "Node " ++ idText id ++ " has no layout array"
  | .invalidKind found => "Invalid syntax kind: " ++ found.text
  | .neitherTokenNorNode id =>
    "Node " ++ idText id ++ " is neither a token nor a layout node"
  | .unknownNodeType type id =>
    "Unknown ByteTree node type " ++ toString type ++ " for node " ++ toString id
  | .field cause => cause.message
  | .compoundTriviaKind found => "unhashable type: '" ++ found.typeName ++ "'"
  | .repetition cause => cause.message
  | .integerTooLong digits =>
    "Exceeds the limit (" ++ toString Json.maxIntegerDigits ++
      " digits) for integer string conversion: value has " ++ toString digits ++
      " digits; use sys.set_int_max_str_digits() to increase the limit"

end Fault
end SourceTree
