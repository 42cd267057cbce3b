import SourceTree.ByteTree.Basic

/-!
# Reading ByteTree documents

A document is the version of the format and one object. Every field begins with a word of four bytes,
lowest first: with the top bit set it announces an object of that many fields, otherwise a scalar of
that many bytes. A field takes at least its word, so no announced number makes the reader go past its
input.
-/
namespace SourceTree.ByteTree

/-- The version of the format. -/
def version : Nat := 1

/-- The top bit of a word. -/
def objectBit : Nat := 1 <<< 31

/-- How many objects may be open at a time. -/
def maxNesting : Nat := 490

/-- Why bytes are not read as a document. -/
inductive ReadError where
  | unexpectedEnd (offset needed : Nat)
  | unsupportedVersion (found : Nat)
  | rootIsScalar
  | trailingData (bytes : Nat)
  | tooDeep
  deriving DecidableEq

/-- The wording of all but the nesting limit, which is reported with the length of the payload. -/
def ReadError.message : ReadError → String
  | .unexpectedEnd offset needed =>
    "Unexpected end of ByteTree data at offset " ++ toString offset ++ " (needed " ++
      toString needed ++ " bytes)"
  | .unsupportedVersion found =>
    "Unsupported ByteTree protocol version " ++ toString found ++ " (expected " ++
      toString version ++ ")"
  | .rootIsScalar => "ByteTree root is not an object"
  | .trailingData bytes => "Trailing data after ByteTree root (" ++ toString bytes ++ " bytes)"
  | .tooDeep => "ByteTree nesting too deep"

/-- How far the reading has come: how many bytes were taken, how many words were among them, and
what is left. -/
structure Cursor where
  offset : Nat
  words : Nat
  rest : List UInt8

/-- The outcome of a step, and how far the reading came in either case. -/
abbrev Step (α : Type) := Except ReadError α × Cursor

/-- The first `count` bytes and the rest, if there are so many. -/
def splitAt? : Nat → List UInt8 → List UInt8 → Option (List UInt8 × List UInt8)
  | 0, rest, acc => some (acc.reverse, rest)
  | _ + 1, [], _ => none
  | count + 1, b :: rest, acc => splitAt? count rest (b :: acc)

/-- The bytes are split exactly if there are enough of them, and none is lost. -/
theorem splitAt?_eq (count : Nat) (bytes acc : List UInt8) :
    splitAt? count bytes acc =
      if count ≤ bytes.length then some (acc.reverse ++ bytes.take count, bytes.drop count)
      else none := by
  induction count generalizing bytes acc with
  | zero => simp [splitAt?]
  | succ count ih =>
    cases bytes with
    | nil => simp [splitAt?]
    | cons b rest =>
      rw [splitAt?, ih]
      simp

/-- Takes `count` bytes; if there are fewer, it takes none. -/
def takeBytes (count : Nat) (c : Cursor) : Step (List UInt8) :=
  match splitAt? count c.rest [] with
  | some (bytes, rest) => (.ok bytes, ⟨c.offset + count, c.words, rest⟩)
  | none => (.error (.unexpectedEnd c.offset count), c)

/-- Takes a word of four bytes. -/
def takeWord (c : Cursor) : Step Nat :=
  match takeBytes 4 c with
  | (.ok bytes, c) => (.ok (uintOfBytes bytes), ⟨c.offset, c.words + 1, c.rest⟩)
  | (.error e, c) => (.error e, c)

/-- Takes `count` fields, one after the other. -/
def takeFields (field : Cursor → Step Field) : Nat → Cursor → List Field → Step (List Field)
  | 0, c, acc => (.ok acc.reverse, c)
  | count + 1, c, acc =>
    match field c with
    | (.ok f, c) => takeFields field count c (f :: acc)
    | (.error e, c) => (.error e, c)

/-- What the word of a field announces: a scalar of so many bytes, or an object of so many fields. -/
inductive Header where
  | scalar (bytes : Nat)
  | object (fields : Nat)

def Header.ofWord (word : Nat) : Header :=
  if word < objectBit then .scalar word else .object (word - objectBit)

/-- Takes a field; the number says how many objects may still be opened. -/
def takeField : Nat → Cursor → Step Field
  | room, c =>
    match takeWord c with
    | (.error e, c) => (.error e, c)
    | (.ok word, c) =>
      match Header.ofWord word with
      | .scalar count =>
        match takeBytes count c with
        | (.ok bytes, c) => (.ok (.scalar bytes), c)
        | (.error e, c) => (.error e, c)
      | .object count =>
        match room with
        | 0 => (.error .tooDeep, c)
        | room + 1 =>
          match takeFields (takeField room) count c [] with
          | (.ok fields, c) => (.ok (.object fields), c)
          | (.error e, c) => (.error e, c)

/-- Takes the version and the root, and checks that nothing follows. -/
def takeDocument (c : Cursor) : Step Fields :=
  match takeWord c with
  | (.error e, c) => (.error e, c)
  | (.ok found, c) =>
    if found != version then (.error (.unsupportedVersion found), c)
    else
      match takeField maxNesting c with
      | (.error e, c) => (.error e, c)
      | (.ok (.scalar _), c) => (.error .rootIsScalar, c)
      | (.ok (.object fields), c) =>
        if c.rest.isEmpty then (.ok fields, c) else (.error (.trailingData c.rest.length), c)

/-- Reads a document: the fields of its root, or why there are none, and how far the reading came. -/
def readDocument (bytes : List UInt8) : Step Fields := takeDocument ⟨0, 0, bytes⟩

end SourceTree.ByteTree
