import SourceTree.Text.Utf8

/-!
# ByteTree fields

A ByteTree document is a tree of fields: a scalar holds bytes, an object holds fields. What a scalar
means, an integer or a text, is up to whoever asks for it.
-/
namespace SourceTree.ByteTree

/-- A scalar or an object. -/
inductive Field where
  | scalar (bytes : List UInt8)
  | object (fields : List Field)

/-- Why a field of an object is not what was asked for. -/
inductive FieldError where
  | missing (index count : Nat)
  | notAnObject (index : Nat)
  | notAScalar (index : Nat)
  | width (index bytes : Nat)
  | notText (index : Nat) (cause : Text.Malformed)
  deriving DecidableEq

def FieldError.message : FieldError → String
  | .missing index count =>
    "ByteTree object has " ++ toString count ++ " fields, field " ++ toString index ++ " requested"
  | .notAnObject index =>
    "ByteTree field " ++ toString index ++ " is a scalar, expected an object"
  | .notAScalar index =>
    "ByteTree field " ++ toString index ++ " is an object, expected a scalar"
  | .width index bytes =>
    "ByteTree field " ++ toString index ++ " has invalid integer width " ++ toString bytes
  | .notText index cause =>
    "ByteTree field " ++ toString index ++ " is not valid UTF-8: " ++ cause.message

/-- The number whose lowest eight bits come first. -/
def uintOfBytes : List UInt8 → Nat
  | [] => 0
  | b :: rest => b.toNat + 256 * uintOfBytes rest

/-- The fields of an object. -/
abbrev Fields := List Field

namespace Fields

/-- The field at an index. -/
def fieldAt (fields : Fields) (index : Nat) : Except FieldError Field :=
  match fields[index]? with
  | some field => .ok field
  | none => .error (.missing index fields.length)

def objectAt (fields : Fields) (index : Nat) : Except FieldError Fields :=
  match fields.fieldAt index with
  | .ok (.object inner) => .ok inner
  | .ok (.scalar _) => .error (.notAnObject index)
  | .error e => .error e

def scalarAt (fields : Fields) (index : Nat) : Except FieldError (List UInt8) :=
  match fields.fieldAt index with
  | .ok (.scalar bytes) => .ok bytes
  | .ok (.object _) => .error (.notAScalar index)
  | .error e => .error e

/-- The integer of a scalar of one, two, four or eight bytes. -/
def uintAt (fields : Fields) (index : Nat) : Except FieldError Nat :=
  match fields.scalarAt index with
  | .ok bytes =>
    if [1, 2, 4, 8].contains bytes.length then .ok (uintOfBytes bytes)
    else .error (.width index bytes.length)
  | .error e => .error e

/-- The text of a scalar. -/
def stringAt (fields : Fields) (index : Nat) : Except FieldError String :=
  match fields.scalarAt index with
  | .ok bytes =>
    match Text.Utf8.decode bytes with
    | .ok text => .ok text
    | .error cause => .error (.notText index cause)
  | .error e => .error e

end Fields
end SourceTree.ByteTree
