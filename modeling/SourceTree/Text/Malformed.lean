import SourceTree.Text.Quoted

/-!
# Bytes that are no text, and texts without bytes

What a decoder says about the first bytes that it cannot read: which encoding it was reading, which
bytes they are, and why. And what the encoder says about a text that is no string: where the first
surrogates stand that have no UTF-8 form.
-/
namespace SourceTree.Text

/-- The encodings of Unicode text. -/
inductive Codec where
  | utf8
  | utf16le
  | utf16be
  | utf32le
  | utf32be
  deriving DecidableEq

def Codec.name : Codec → String
  | .utf8 => "utf-8"
  | .utf16le => "utf-16-le"
  | .utf16be => "utf-16-be"
  | .utf32le => "utf-32-le"
  | .utf32be => "utf-32-be"

/-- Why bytes are no text. -/
inductive Malformation where
  /-- The byte begins no sequence. -/
  | startByte
  /-- The sequence breaks off before a byte that does not continue it. -/
  | continuationByte
  /-- The input ends inside a sequence. -/
  | unexpectedEnd
  /-- The input ends inside a code unit. -/
  | truncated
  /-- The code unit is above U+10FFFF. -/
  | outOfRange
  deriving DecidableEq

def Malformation.message : Malformation → String
  | .startByte => "invalid start byte"
  | .continuationByte => "invalid continuation byte"
  | .unexpectedEnd => "unexpected end of data"
  | .truncated => "truncated data"
  | .outOfRange => "code point not in range(0x110000)"

/-- The first bytes that cannot be read: `count` bytes from `start` on, the first of them `byte`. -/
structure Malformed where
  codec : Codec
  reason : Malformation
  start : Nat
  count : Nat
  byte : UInt8
  deriving DecidableEq

/-- A single byte is named by its value, several by their positions. -/
def Malformed.message (m : Malformed) : String :=
  let place :=
    if m.count == 1 then
      "byte 0x" ++ String.ofList (hex 2 m.byte.toNat) ++ " in position " ++ toString m.start
    else
      "bytes in position " ++ toString m.start ++ "-" ++ toString (m.start + m.count - 1)
  "'" ++ m.codec.name ++ "' codec can't decode " ++ place ++ ": " ++ m.reason.message

/-- The first surrogates that have no bytes: `count` of them from `start` on, the first of them
U+D800 + `offset`. -/
structure Unencodable where
  start : Nat
  count : Nat
  offset : Fin 0x800
  deriving DecidableEq

/-- A single surrogate is named, several are told by their positions. -/
def Unencodable.message (u : Unencodable) : String :=
  let place :=
    if u.count == 1 then
      "character '" ++ String.ofList (surrogateName u.offset) ++ "' in position " ++ toString u.start
    else
      "characters in position " ++ toString u.start ++ "-" ++ toString (u.start + u.count - 1)
  "'" ++ Codec.utf8.name ++ "' codec can't encode " ++ place ++ ": surrogates not allowed"

/-- The first surrogates of a text, if it has some; `start` code points stand before it. -/
def Unencodable.first? (start : Nat) : Text → Option Unencodable
  | [] => none
  | .char _ :: rest => first? (start + 1) rest
  | .lone offset :: rest =>
    some ⟨start, (rest.takeWhile fun code => !code.isChar).length + 1, offset⟩

theorem Unencodable.first?_eq_none_iff (text : Text) (start : Nat) :
    first? start text = none ↔ text.isPlain = true := by
  induction text generalizing start with
  | nil => exact ⟨fun _ => rfl, fun _ => rfl⟩
  | cons code text ih =>
    cases code with
    | char c => exact ih (start + 1)
    | lone offset => exact ⟨nofun, nofun⟩

/-- The string that has the bytes of the text, or why there is none. -/
def encodable (text : Text) : Except Unencodable String :=
  match Unencodable.first? 0 text with
  | some cause => .error cause
  | none => .ok (String.ofList text.chars)

/-- Exactly the strings can be encoded. -/
theorem encodable_eq_ok_iff {text : Text} {s : String} : encodable text = .ok s ↔ text = ofString s := by
  rw [← plain?_eq_some_iff, encodable, plain?]
  cases hfirst : Unencodable.first? 0 text with
  | none =>
    rw [if_pos ((Unencodable.first?_eq_none_iff text 0).mp hfirst)]
    exact ⟨fun h => congrArg some (Except.ok.inj h), fun h => congrArg Except.ok (Option.some.inj h)⟩
  | some cause =>
    have hplain : ¬ text.isPlain = true := by
      rw [← Unencodable.first?_eq_none_iff text 0, hfirst]
      exact Option.some_ne_none cause
    rw [if_neg hplain]
    constructor <;> intro h <;> cases h

end SourceTree.Text
