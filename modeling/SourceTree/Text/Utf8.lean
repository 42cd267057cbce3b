import SourceTree.Text.Malformed

/-!
# UTF-8

A decoder that reads one byte at a time and names the first bytes it cannot read. A malformed
sequence ends before the first byte that cannot continue it, so it is known how many bytes one
replacement character stands for.
-/
namespace SourceTree.Text.Utf8

/-- What becomes of bytes that are no text. -/
structure Policy where
  /-- A malformed sequence is read as U+FFFD; otherwise it ends the reading. -/
  replaces : Bool
  /-- The three bytes of a surrogate are read as that surrogate. -/
  surrogates : Bool

/-- Nothing but well-formed text is read. -/
def strict : Policy := ⟨false, false⟩

/-- Every input is read. -/
def replacing : Policy := ⟨true, false⟩

/-- Surrogates are let through, and nothing else. -/
def surrogatePassing : Policy := ⟨false, true⟩

/-- A sequence that has begun: its first byte, how many bytes it has and how many it still needs,
the bounds of the next byte, and the bits read so far. -/
structure Sequence where
  lead : UInt8
  count : Nat
  more : Nat
  low : UInt8
  high : UInt8
  bits : Nat

/-- What the first byte of a sequence says. The bounds of the second byte keep out overlong forms,
what is above U+10FFFF and, unless they are let through, surrogates. -/
def Sequence.start (policy : Policy) (byte : UInt8) : Option Sequence :=
  let two (low high : UInt8) : Sequence := ⟨byte, 1, 2, low, high, byte.toNat % 16⟩
  let three (low high : UInt8) : Sequence := ⟨byte, 1, 3, low, high, byte.toNat % 8⟩
  if byte < 0xc2 then none
  else if byte < 0xe0 then some ⟨byte, 1, 1, 0x80, 0xbf, byte.toNat % 32⟩
  else if byte == 0xe0 then some (two 0xa0 0xbf)
  else if byte == 0xed then some (two 0x80 (if policy.surrogates then 0xbf else 0x9f))
  else if byte < 0xf0 then some (two 0x80 0xbf)
  else if byte == 0xf0 then some (three 0x90 0xbf)
  else if byte < 0xf4 then some (three 0x80 0xbf)
  else if byte == 0xf4 then some (three 0x80 0x8f)
  else none

/-- Takes one more byte in. -/
def Sequence.push (s : Sequence) (byte : UInt8) : Sequence :=
  ⟨s.lead, s.count + 1, s.more - 1, 0x80, 0xbf, s.bits * 64 + byte.toNat % 64⟩

/-- The first two of the three bytes of a surrogate. -/
def Sequence.isSurrogate (s : Sequence) : Bool :=
  s.count == 2 && s.more == 1 && 0x360 ≤ s.bits && s.bits < 0x380

/-- The code point of a sequence that needs no more bytes. -/
def Sequence.code (s : Sequence) : Code := Code.ofNat s.bits

/-- The sequence breaks off before `pos`. An unfinished surrogate is malformed from its second byte
on. -/
def Sequence.broken (s : Sequence) (reason : Malformation) (pos : Nat) : Malformed :=
  if s.isSurrogate then ⟨.utf8, .continuationByte, pos - s.count, 1, s.lead⟩
  else ⟨.utf8, reason, pos - s.count, s.count, s.lead⟩

/-- What a byte outside a sequence is. -/
inductive Opening where
  | char (c : Char)
  | sequence (s : Sequence)
  | malformed

def Opening.of (policy : Policy) (byte : UInt8) : Opening :=
  if byte < 0x80 then .char (Char.ofNat byte.toNat)
  else
    match Sequence.start policy byte with
    | some s => .sequence s
    | none => .malformed

/-- The code point that is read for a malformed sequence. -/
def replacement : Code := .char '\ufffd'

/-- Reads on from the byte at `pos`, inside `open?` if a sequence has begun; `acc` holds the code
points read so far, the last one first. -/
def decodeFrom (policy : Policy) :
    List UInt8 → Nat → Option Sequence → Text → Except Malformed Text
  | [], _, none, acc => .ok acc.reverse
  | [], pos, some s, acc =>
    if policy.replaces then .ok (replacement :: acc).reverse
    else .error (s.broken .unexpectedEnd pos)
  | byte :: rest, pos, none, acc =>
    match Opening.of policy byte with
    | .char c => decodeFrom policy rest (pos + 1) none (.char c :: acc)
    | .sequence s => decodeFrom policy rest (pos + 1) (some s) acc
    | .malformed =>
      if policy.replaces then decodeFrom policy rest (pos + 1) none (replacement :: acc)
      else .error ⟨.utf8, .startByte, pos, 1, byte⟩
  | byte :: rest, pos, some s, acc =>
    if s.low ≤ byte && byte ≤ s.high then
      let s := s.push byte
      if s.more == 0 then decodeFrom policy rest (pos + 1) none (s.code :: acc)
      else decodeFrom policy rest (pos + 1) (some s) acc
    else if policy.replaces then
      match Opening.of policy byte with
      | .char c => decodeFrom policy rest (pos + 1) none (.char c :: replacement :: acc)
      | .sequence s => decodeFrom policy rest (pos + 1) (some s) (replacement :: acc)
      | .malformed => decodeFrom policy rest (pos + 1) none (replacement :: replacement :: acc)
    else .error (s.broken .continuationByte pos)

/-- The text that the bytes spell, if they are well formed. -/
def decode (bytes : List UInt8) : Except Malformed String :=
  (decodeFrom strict bytes 0 none []).map fun text => String.ofList text.chars

/-- The text that the bytes spell, with U+FFFD for each malformed sequence. -/
def decodeReplacing (bytes : List UInt8) : String :=
  match decodeFrom replacing bytes 0 none [] with
  | .ok text => String.ofList text.chars
  | .error _ => ""

/-- The bytes of a text. -/
def encode (text : String) : List UInt8 := text.toList.flatMap String.utf8EncodeChar

/-- The bytes of a code point where surrogates are let through. -/
def encodeCode : Code → List UInt8
  | .char c => String.utf8EncodeChar c
  | .lone offset =>
    let n := Code.surrogate offset
    [0xed, UInt8.ofNat (n / 64 % 0x40 + 0x80), UInt8.ofNat (n % 0x40 + 0x80)]

/-- The bytes of a text where surrogates are let through. -/
def encodePassing (text : Text) : List UInt8 := text.flatMap encodeCode

end SourceTree.Text.Utf8
