import SourceTree.Json.Number
import SourceTree.Text.Encoding
import SourceTree.Text.Ends

/-!
# Reading JSON

A reader that says what it missed first and where. Beside the standard grammar it takes `NaN`,
`Infinity` and `-Infinity`; a name that is written twice in an object keeps its first place and its
last value. Two limits stop it at once, whatever comes later in the text: how deep arrays and objects
may be nested, and how many digits an integer may have.
-/
namespace SourceTree.Json

/-- How many arrays and objects may be open at a time. -/
def maxNesting : Nat := 990

/-- How many digits an integer may have, its sign not counted. -/
def maxIntegerDigits : Nat := 4300

/-- What is wrong with a text that is not JSON. -/
inductive Mistake where
  | expectedValue
  | expectedName
  | expectedColon
  | expectedComma
  | unterminatedString
  | badEscape
  | badUnicodeEscape
  | controlCharacter
  | extraData
  deriving DecidableEq

def Mistake.message : Mistake → String
  | .expectedValue => "Expecting value"
  | .expectedName => "Expecting property name enclosed in double quotes"
  | .expectedColon => "Expecting ':' delimiter"
  | .expectedComma => "Expecting ',' delimiter"
  | .unterminatedString => "Unterminated string starting at"
  | .badEscape => "Invalid \\escape"
  | .badUnicodeEscape => "Invalid \\uXXXX escape"
  | .controlCharacter => "Invalid control character at"
  | .extraData => "Extra data"

/-- Why reading stopped. A mistake comes with the text from its place on. -/
inductive Stop where
  | mistake (what : Mistake) (rest : Text)
  | tooDeep
  | longInteger (digits : Nat)

/-- A value read from the front of a text, and the rest. -/
abbrev Read (α : Type) := Except Stop (α × Text)

def isSpace : Code → Bool
  | .char c => c == ' ' || c == '\t' || c == '\n' || c == '\r'
  | .lone _ => false

def skipSpace (text : Text) : Text := text.dropWhile isSpace

/-- The value of a hexadecimal digit. -/
def hexDigit? (c : Char) : Option Nat :=
  if c.isDigit then some (c.toNat - 48)
  else if 'a' ≤ c && c ≤ 'f' then some (c.toNat - 87)
  else if 'A' ≤ c && c ≤ 'F' then some (c.toNat - 55)
  else none

/-- The code unit of four hexadecimal digits. -/
def hexUnit? (a b c d : Char) : Option Nat := do
  let a ← hexDigit? a
  let b ← hexDigit? b
  let c ← hexDigit? c
  let d ← hexDigit? d
  return ((a * 16 + b) * 16 + c) * 16 + d

/-- What stands after a backslash for a single character. -/
def unescape? (c : Char) : Option Char :=
  if c == '\x22' || c == '\x5c' || c == '/' then some c
  else if c == 'b' then some '\x08'
  else if c == 'f' then some '\x0c'
  else if c == 'n' then some '\n'
  else if c == 'r' then some '\r'
  else if c == 't' then some '\t'
  else none

/-- Reads a string on after its opening quote, where `opening` is the text from that quote on. A
high surrogate that is escaped is held back for the low one that may follow; `acc` holds the code points
read so far, the last one first. -/
def stringFrom (opening : Text) : Text → Option Nat → Text → Read Text
  | [], _, _ => .error (.mistake .unterminatedString opening)
  | .lone offset :: rest, held, acc =>
    stringFrom opening rest none (.lone offset :: Text.flushUnits held acc)
  | .char c :: rest, held, acc =>
    if c == '\x22' then .ok ((Text.flushUnits held acc).reverse, rest)
    else if c == '\x5c' then
      match rest with
      | [] => .error (.mistake .unterminatedString opening)
      | .lone _ :: _ => .error (.mistake .badEscape (.char c :: rest))
      | .char e :: body =>
        if e == 'u' then
          match body with
          | .char h1 :: .char h2 :: .char h3 :: .char h4 :: after =>
            match hexUnit? h1 h2 h3 h4, after with
            | some unit, _ :: _ =>
              let (held, acc) := Text.pushUnit unit held acc
              stringFrom opening after held acc
            | _, _ => .error (.mistake .badUnicodeEscape rest)
          | _ => .error (.mistake .badUnicodeEscape rest)
        else
          match unescape? e with
          | some c => stringFrom opening body none (.char c :: Text.flushUnits held acc)
          | none => .error (.mistake .badEscape (.char c :: rest))
    else if c.toNat < 0x20 then .error (.mistake .controlCharacter (.char c :: rest))
    else stringFrom opening rest none (.char c :: Text.flushUnits held acc)

/-- A character that may stand in a number. -/
def isNumeric (c : Char) : Bool :=
  c.isDigit || c == '-' || c == '+' || c == '.' || c == 'e' || c == 'E'

/-- Reads the number or the named value at the front of a text. -/
def scalar (text : Text) : Read Json :=
  let named : List (String × Json) := [("null", .null), ("true", .bool true),
    ("false", .bool false), ("NaN", .float .nan), ("Infinity", .float (.infinite false)),
    ("-Infinity", .float (.infinite true))]
  match named.find? fun entry => Text.begins entry.1 text with
  | some (name, value) => .ok (value, text.drop name.length)
  | none =>
    let (front, rest) := text.splitFront isNumeric
    match scanNumber front with
    | none => .error (.mistake .expectedValue text)
    | some (numeral, left) =>
      let rest := Text.ofChars left ++ rest
      if !numeral.isInteger then .ok (.float numeral.toBinary64, rest)
      else if maxIntegerDigits < numeral.whole.length then
        .error (.longInteger numeral.whole.length)
      else .ok (.int numeral.toInt, rest)

/-- Reads the elements of an array up to its bracket. Each takes at least one character, so the
length of the text is a bound on their number. -/
def elements (value : Text → Read Json) : Nat → Text → List Json → Read (List Json)
  | 0, text, _ => .error (.mistake .expectedValue text)
  | bound + 1, text, acc =>
    match value text with
    | .error stop => .error stop
    | .ok (v, rest) =>
      match skipSpace rest with
      | .char ']' :: rest => .ok ((v :: acc).reverse, rest)
      | .char ',' :: rest => elements value bound (skipSpace rest) (v :: acc)
      | rest => .error (.mistake .expectedComma rest)

/-- Reads the members of an object up to its brace, with the same bound on their number. -/
def members (value : Text → Read Json) : Nat → Text → Members → Read Members
  | 0, text, _ => .error (.mistake .expectedName text)
  | bound + 1, text, acc =>
    match text with
    | .char '\x22' :: rest =>
      match stringFrom text rest none [] with
      | .error stop => .error stop
      | .ok (name, rest) =>
        match skipSpace rest with
        | .char ':' :: rest =>
          match value (skipSpace rest) with
          | .error stop => .error stop
          | .ok (v, rest) =>
            match skipSpace rest with
            | .char '\x7d' :: rest => .ok (acc.put name v, rest)
            | .char ',' :: rest => members value bound (skipSpace rest) (acc.put name v)
            | rest => .error (.mistake .expectedComma rest)
        | rest => .error (.mistake .expectedColon rest)
    | _ => .error (.mistake .expectedName text)

/-- Reads the value at the front of a text that has no space in front. `bound` is at least the
length of the text; the second number says how many arrays and objects may still be opened. -/
def value (bound : Nat) : Nat → Text → Read Json
  | room, text =>
    match text with
    | .char '\x22' :: rest => (stringFrom text rest none []).map fun (s, rest) => (.str s, rest)
    | .char '[' :: rest =>
      match room with
      | 0 => .error .tooDeep
      | room + 1 =>
        match skipSpace rest with
        | .char ']' :: rest => .ok (.arr [], rest)
        | rest => (elements (value bound room) bound rest []).map fun (vs, rest) => (.arr vs, rest)
    | .char '\x7b' :: rest =>
      match room with
      | 0 => .error .tooDeep
      | room + 1 =>
        match skipSpace rest with
        | .char '\x7d' :: rest => .ok (.obj [], rest)
        | rest => (members (value bound room) bound rest []).map fun (ms, rest) => (.obj ms, rest)
    | text => scalar text

/-- Reads a text that holds one value and nothing else but space. -/
def document (text : Text) : Except Stop Json :=
  match value text.length maxNesting (skipSpace text) with
  | .error stop => .error stop
  | .ok (v, rest) =>
    match skipSpace rest with
    | [] => .ok v
    | rest => .error (.mistake .extraData rest)

/-- A place in a text: its line and column from one on, and how many code points stand before it. -/
structure Place where
  line : Nat
  column : Nat
  offset : Nat
  deriving DecidableEq

/-- The place where `rest` begins in `text`. -/
def Place.of (text rest : Text) : Place :=
  let offset := text.length - rest.length
  let before := text.take offset
  ⟨before.count (.char '\n') + 1, (before.reverse.takeWhile (· != .char '\n')).length + 1, offset⟩

def Place.text (p : Place) : String :=
  "line " ++ toString p.line ++ " column " ++ toString p.column ++ " (char " ++
    toString p.offset ++ ")"

/-- Why bytes are not read as a JSON value. -/
inductive ReadError where
  | undecodable (cause : Text.Malformed)
  | mistake (what : Mistake) (place : Place)
  | tooDeep
  | longInteger (digits : Nat)
  deriving DecidableEq

/-- Reads the value that the bytes spell. -/
def read (bytes : List UInt8) : Except ReadError Json :=
  match Text.decodeAnnounced bytes with
  | .error cause => .error (.undecodable cause)
  | .ok text =>
    match document text with
    | .ok v => .ok v
    | .error (.mistake what rest) => .error (.mistake what (Place.of text rest))
    | .error .tooDeep => .error .tooDeep
    | .error (.longInteger digits) => .error (.longInteger digits)

end SourceTree.Json
