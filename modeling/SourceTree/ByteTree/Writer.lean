import SourceTree.ByteTree.Reader

/-!
# Writing ByteTree documents

Every tree of fields has one written form. It is faithful as long as no scalar and no object is as
large as the top bit of a word.
-/
namespace SourceTree.ByteTree

/-- The lowest `count` bytes of a number, lowest first. -/
def bytesOfUInt : (count n : Nat) → List UInt8
  | 0, _ => []
  | count + 1, n => UInt8.ofNat n :: bytesOfUInt count (n / 256)

/-- A word of four bytes. -/
def word (n : Nat) : List UInt8 := bytesOfUInt 4 n

mutual

/-- The written form of a field. -/
def Field.encode : Field → List UInt8
  | .scalar bytes => word bytes.length ++ bytes
  | .object fields => word (objectBit + fields.length) ++ encodeAll fields

/-- The written forms of fields, one after the other. -/
def encodeAll : List Field → List UInt8
  | [] => []
  | field :: rest => field.encode ++ encodeAll rest

end

/-- The written form of a document with the given root. -/
def encodeDocument (root : Fields) : List UInt8 := word version ++ (Field.object root).encode

end SourceTree.ByteTree
