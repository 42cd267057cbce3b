import SourceTree.Text.Utf8

/-!
# Finding out the encoding of a text

A text announces its encoding by a byte order mark or, as its first characters are ASCII, by the
place of the zero bytes among its first four. Offsets in what is reported count the mark of the wide
encodings in and the mark of UTF-8 out.
-/
namespace SourceTree.Text

/-- The order of the bytes in a code unit. -/
inductive ByteOrder where
  | little
  | big

def ByteOrder.utf16 : ByteOrder → Codec
  | .little => .utf16le
  | .big => .utf16be

def ByteOrder.utf32 : ByteOrder → Codec
  | .little => .utf32le
  | .big => .utf32be

/-- The code unit of two bytes. -/
def ByteOrder.unit16 : ByteOrder → UInt8 → UInt8 → Nat
  | .little, a, b => b.toNat * 256 + a.toNat
  | .big, a, b => a.toNat * 256 + b.toNat

/-- The code unit of four bytes. -/
def ByteOrder.unit32 : ByteOrder → UInt8 → UInt8 → UInt8 → UInt8 → Nat
  | .little, a, b, c, d => ((d.toNat * 256 + c.toNat) * 256 + b.toNat) * 256 + a.toNat
  | .big, a, b, c, d => ((a.toNat * 256 + b.toNat) * 256 + c.toNat) * 256 + d.toNat

def isHighSurrogate (unit : Nat) : Bool := 0xd800 ≤ unit && unit < 0xdc00

def isLowSurrogate (unit : Nat) : Bool := 0xdc00 ≤ unit && unit < 0xe000

/-- The character of a pair of surrogates. -/
def joinSurrogates (high low : Nat) : Char :=
  Char.ofNat (0x10000 + (high - 0xd800) * 0x400 + (low - 0xdc00))

/-- Adds one code unit to the code points read so far, the last one first. A high surrogate is held
back until the next unit shows whether it is the first of a pair or stands alone. -/
def pushUnit (unit : Nat) (held : Option Nat) (acc : Text) : Option Nat × Text :=
  match held, isLowSurrogate unit with
  | some high, true => (none, .char (joinSurrogates high unit) :: acc)
  | none, true => (none, Code.ofNat unit :: acc)
  | some high, false =>
    if isHighSurrogate unit then (some unit, Code.ofNat high :: acc)
    else (none, Code.ofNat unit :: Code.ofNat high :: acc)
  | none, false =>
    if isHighSurrogate unit then (some unit, acc) else (none, Code.ofNat unit :: acc)

/-- The code points once no unit follows. -/
def flushUnits (held : Option Nat) (acc : Text) : Text :=
  match held with
  | some high => Code.ofNat high :: acc
  | none => acc

/-- Reads UTF-16 on from the byte at `pos`. -/
def decodeUtf16From (order : ByteOrder) :
    List UInt8 → Nat → Option Nat → Text → Except Malformed Text
  | [], _, held, acc => .ok (flushUnits held acc).reverse
  | [a], pos, _, _ => .error ⟨order.utf16, .truncated, pos, 1, a⟩
  | a :: b :: rest, pos, held, acc =>
    let (held, acc) := pushUnit (order.unit16 a b) held acc
    decodeUtf16From order rest (pos + 2) held acc

/-- Reads UTF-32 on from the byte at `pos`. -/
def decodeUtf32From (order : ByteOrder) : List UInt8 → Nat → Text → Except Malformed Text
  | [], _, acc => .ok acc.reverse
  | a :: b :: c :: d :: rest, pos, acc =>
    let unit := order.unit32 a b c d
    if 0x110000 ≤ unit then .error ⟨order.utf32, .outOfRange, pos, 4, a⟩
    else decodeUtf32From order rest (pos + 4) (Code.ofNat unit :: acc)
  | a :: rest, pos, _ => .error ⟨order.utf32, .truncated, pos, rest.length + 1, a⟩

/-- How a text announces that it is written. -/
inductive Announced where
  | utf8
  | markedUtf8
  | utf16 (order : ByteOrder)
  | markedUtf16 (order : ByteOrder)
  | utf32 (order : ByteOrder)
  | markedUtf32 (order : ByteOrder)

/-- The mark, if there is one, decides; then the zeros among the first four bytes, or among the two
that there are. -/
def Announced.of (bytes : List UInt8) : Announced :=
  if [0x00, 0x00, 0xfe, 0xff].isPrefixOf bytes then .markedUtf32 .big
  else if [0xff, 0xfe, 0x00, 0x00].isPrefixOf bytes then .markedUtf32 .little
  else if [0xfe, 0xff].isPrefixOf bytes then .markedUtf16 .big
  else if [0xff, 0xfe].isPrefixOf bytes then .markedUtf16 .little
  else if [0xef, 0xbb, 0xbf].isPrefixOf bytes then .markedUtf8
  else
    match bytes with
    | [a, b] => if a == 0 then .utf16 .big else if b == 0 then .utf16 .little else .utf8
    | a :: b :: c :: d :: _ =>
      if a == 0 then (if b == 0 then .utf32 .big else .utf16 .big)
      else if b == 0 then (if c == 0 && d == 0 then .utf32 .little else .utf16 .little)
      else .utf8
    | _ => .utf8

/-- The code points of a text that announces its encoding. Surrogates are let through. -/
def decodeAnnounced (bytes : List UInt8) : Except Malformed Text :=
  match Announced.of bytes with
  | .utf8 => Utf8.decodeFrom Utf8.surrogatePassing bytes 0 none []
  | .markedUtf8 => Utf8.decodeFrom Utf8.surrogatePassing (bytes.drop 3) 0 none []
  | .utf16 order => decodeUtf16From order bytes 0 none []
  | .markedUtf16 order => decodeUtf16From order (bytes.drop 2) 2 none []
  | .utf32 order => decodeUtf32From order bytes 0 []
  | .markedUtf32 order => decodeUtf32From order (bytes.drop 4) 4 []

end SourceTree.Text
