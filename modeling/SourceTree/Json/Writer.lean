import SourceTree.Json.Text
import SourceTree.Text.Utf8

/-!
# Writing JSON

Characters that are not ASCII are escaped by their code units. A surrogate that stands alone is written
as it is, for two of them that are escaped side by side would be read as one character. An integer is
written in full. A number with a point is written as messages show it, which does not read back for
the values that are no numbers.
-/
namespace SourceTree.Json

/-- The four hexadecimal digits of a code unit. -/
def unitDigits (unit : Nat) : List Char :=
  [unit / 4096, unit / 256, unit / 16, unit].map fun n => Nat.digitChar (n % 16)

def escapeUnit (unit : Nat) : List Char := '\x5c' :: 'u' :: unitDigits unit

/-- One character of a string. -/
def escapeChar (c : Char) : List Char :=
  if c == '\x22' || c == '\x5c' then ['\x5c', c]
  else if c == '\n' then ['\x5c', 'n']
  else if c == '\r' then ['\x5c', 'r']
  else if c == '\t' then ['\x5c', 't']
  else if c == '\x08' then ['\x5c', 'b']
  else if c == '\x0c' then ['\x5c', 'f']
  else if 0x20 ≤ c.toNat && c.toNat < 0x7f then [c]
  else if c.toNat < 0x10000 then escapeUnit c.toNat
  else
    escapeUnit (0xd800 + (c.toNat - 0x10000) / 0x400) ++
      escapeUnit (0xdc00 + (c.toNat - 0x10000) % 0x400)

/-- One code point of a string. -/
def escapeCode : Code → Text
  | .char c => Text.ofChars (escapeChar c)
  | .lone offset => [.lone offset]

/-- A string between its quotes. -/
def writtenString (s : Text) : Text :=
  .char '\x22' :: (s.flatMap escapeCode ++ [.char '\x22'])

def writtenInt (n : Int) : List Char :=
  if n < 0 then '-' :: Nat.toDigits 10 n.natAbs else Nat.toDigits 10 n.natAbs

mutual

/-- The written form. -/
def written : Json → Text
  | .null => Text.ofChars ['n', 'u', 'l', 'l']
  | .bool true => Text.ofChars ['t', 'r', 'u', 'e']
  | .bool false => Text.ofChars ['f', 'a', 'l', 's', 'e']
  | .int n => Text.ofChars (writtenInt n)
  | .float x => Json.text (.float x)
  | .str s => writtenString s
  | .arr [] => [.char '[', .char ']']
  | .arr (item :: items) => .char '[' :: (item.written ++ writtenItems items)
  | .obj [] => [.char '\x7b', .char '\x7d']
  | .obj ((name, value) :: members) =>
    .char '\x7b' :: (writtenString name ++ .char ':' :: .char ' ' ::
      (value.written ++ writtenMembers members))

/-- The items of an array after the first one, and its bracket. -/
def writtenItems : List Json → Text
  | [] => [.char ']']
  | item :: items => .char ',' :: .char ' ' :: (item.written ++ writtenItems items)

/-- The members of an object after the first one, and its brace. -/
def writtenMembers : List (Text × Json) → Text
  | [] => [.char '\x7d']
  | (name, value) :: members =>
    .char ',' :: .char ' ' :: (writtenString name ++ .char ':' :: .char ' ' ::
      (value.written ++ writtenMembers members))

end

/-- The bytes of the written form. -/
def encode (v : Json) : List UInt8 := Text.Utf8.encodePassing v.written

end SourceTree.Json
