import SourceTree.Outline.OfByteTree
import SourceTree.Proofs.Outline.Written

/-!
# Recoded documents

The type, the id and the counts of a ByteTree document may be written in any of four widths, every mark but
zero says that a node is present, and objects may have more fields than are looked at. A document is recoded
by any of these changes, at any depth and in any number; its outline stays what it is.
-/
namespace SourceTree

open ByteTree (Field Fields)

namespace ByteTree

/-- The bytes are an integer, in one of the four widths. -/
structure IsUInt (n : Nat) (bytes : List UInt8) : Prop where
  width : bytes.length ∈ [1, 2, 4, 8]
  value : uintOfBytes bytes = n

instance (n : Nat) (bytes : List UInt8) : Decidable (IsUInt n bytes) :=
  decidable_of_iff (bytes.length ∈ [1, 2, 4, 8] ∧ uintOfBytes bytes = n)
    ⟨fun h => ⟨h.1, h.2⟩, fun h => ⟨h.width, h.value⟩⟩

/-- Both are marks of nodes that are present, or both of nodes that are missing. -/
def SameMark (mark mark' : List UInt8) : Prop :=
  ∃ m n, IsUInt m mark ∧ IsUInt n mark' ∧ (m = 0 ↔ n = 0)

/-- The second piece of trivia has the kind of the first one and its text or count, the count in any width,
and whatever fields after that. -/
inductive Field.PieceRecoded : Field → Field → Prop
  | text (kind text : Field) (more more' : Fields) :
      Field.PieceRecoded (.object (kind :: text :: more)) (.object (kind :: text :: more'))
  | counted {kind : List UInt8} {name spelling : String} {n : Nat} {count count' : List UInt8}
      (hkind : Text.Utf8.decode kind = .ok name) (hspelling : Trivia.spelling? name = some spelling)
      (hcount : IsUInt n count) (hcount' : IsUInt n count') (more more' : Fields) :
      Field.PieceRecoded (.object (.scalar kind :: .scalar count :: more))
        (.object (.scalar kind :: .scalar count' :: more'))

mutual

/-- The second node is the first one with its type, its id and its counts in any width, with another mark
of the same meaning, and with whatever fields after those that are looked at, down to the innermost slot.
An empty slot stays empty, and the lists of slots and of trivia keep their lengths. -/
inductive Field.Recoded : Field → Field → Prop
  | kept (field : Field) : Field.Recoded field field
  | leftOut {type type' id id' : List UInt8} {n : Nat} (htype : IsUInt 2 type) (htype' : IsUInt 2 type')
      (hid : IsUInt n id) (hid' : IsUInt n id') (more more' : Fields) :
      Field.Recoded (.object (.scalar type :: .scalar id :: more))
        (.object (.scalar type' :: .scalar id' :: more'))
  | token {type type' id id' mark mark' : List UInt8} {n : Nat} (htype : IsUInt 1 type)
      (htype' : IsUInt 1 type') (hid : IsUInt n id) (hid' : IsUInt n id') (hmark : SameMark mark mark')
      (kind text : Field) {leading leading' trailing trailing' : Fields}
      (hleading : List.Forall₂ Field.PieceRecoded leading leading')
      (htrailing : List.Forall₂ Field.PieceRecoded trailing trailing') (more more' : Fields) :
      Field.Recoded
        (.object (.scalar type :: .scalar id :: .scalar mark :: kind :: text :: .object leading ::
          .object trailing :: more))
        (.object (.scalar type' :: .scalar id' :: .scalar mark' :: kind :: text :: .object leading' ::
          .object trailing' :: more'))
  | layout {type type' id id' mark mark' : List UInt8} {n : Nat} (htype : IsUInt 0 type)
      (htype' : IsUInt 0 type') (hid : IsUInt n id) (hid' : IsUInt n id') (hmark : SameMark mark mark')
      (kind : Field) {slots slots' : Fields} (hslots : AllRecoded slots slots') (more more' : Fields) :
      Field.Recoded
        (.object (.scalar type :: .scalar id :: .scalar mark :: kind :: .object slots :: more))
        (.object (.scalar type' :: .scalar id' :: .scalar mark' :: kind :: .object slots' :: more'))

inductive AllRecoded : Fields → Fields → Prop
  | nil : AllRecoded [] []
  | cons {slot slot' : Field} {slots slots' : Fields} (h : Field.Recoded slot slot')
      (hrest : AllRecoded slots slots') : AllRecoded (slot :: slots) (slot' :: slots')

end

/-! ### What is looked at -/

variable {fields fields' : Fields} {index : Nat}

theorem uintAt_of_isUInt {n : Nat} {bytes : List UInt8} (h : fields[index]? = some (.scalar bytes))
    (hn : IsUInt n bytes) : fields.uintAt index = .ok n := by
  have hwidth : [1, 2, 4, 8].contains bytes.length = true := List.contains_iff_mem.mpr hn.width
  simp only [Fields.uintAt, Fields.scalarAt, Fields.fieldAt, h, hwidth, if_true, hn.value]

/-- The text of a field does not depend on the other fields. -/
theorem stringAt_congr {field : Field} (h : fields[index]? = some field)
    (h' : fields'[index]? = some field) : fields.stringAt index = fields'.stringAt index := by
  simp only [Fields.stringAt, Fields.scalarAt, Fields.fieldAt, h, h']

end ByteTree

/-! ### Outlines -/

namespace Outline

open ByteTree

theorem pieceOfFields_counted {kind count : List UInt8} {name spelling : String} {n : Nat} (more : Fields)
    (hkind : Text.Utf8.decode kind = .ok name) (hspelling : Trivia.spelling? name = some spelling)
    (hcount : IsUInt n count) :
    pieceOfFields (.scalar kind :: .scalar count :: more) = countedPiece name spelling n := by
  have hname : Fields.stringAt (.scalar kind :: .scalar count :: more) 0 = .ok name := by
    simp only [Fields.stringAt, Fields.scalarAt, Fields.fieldAt, List.getElem?_cons_zero, hkind]
  have hread : Fields.uintAt (.scalar kind :: .scalar count :: more) 1 = .ok n :=
    uintAt_of_isUInt rfl hcount
  simp only [pieceOfFields, hname, hread, fieldOf, bind, Except.bind, hspelling]

/-- Recoded trivia is read as the same trivia, fault by fault. -/
theorem triviaFrom_recoded {pieces pieces' : Fields} (h : List.Forall₂ Field.PieceRecoded pieces pieces') :
    ∀ index : Nat, triviaFrom index pieces = triviaFrom index pieces' := by
  induction h with
  | nil => exact fun _ => rfl
  | cons hpiece _ ih =>
    intro index
    cases hpiece with
    | text kind text more more' =>
      have hsame : pieceOfFields (kind :: text :: more) = pieceOfFields (kind :: text :: more') := rfl
      rw [triviaFrom, triviaFrom, hsame, ih (index + 1)]
    | counted hkind hspelling hcount hcount' more more' =>
      rw [triviaFrom, triviaFrom, pieceOfFields_counted more hkind hspelling hcount,
        pieceOfFields_counted more' hkind hspelling hcount', ih (index + 1)]

/-- A token that is recoded has the same kind, the same text and the same trivia. -/
theorem tokenOfFields_recoded {fields fields' leading leading' trailing trailing' : Fields}
    {kind text : Field} (hkind : fields[3]? = some kind) (hkind' : fields'[3]? = some kind)
    (htext : fields[4]? = some text) (htext' : fields'[4]? = some text)
    (hleading : fields[5]? = some (.object leading)) (hleading' : fields'[5]? = some (.object leading'))
    (htrailing : fields[6]? = some (.object trailing))
    (htrailing' : fields'[6]? = some (.object trailing'))
    (hbefore : List.Forall₂ Field.PieceRecoded leading leading')
    (hafter : List.Forall₂ Field.PieceRecoded trailing trailing') (presence : Presence) (n : Nat) :
    tokenOfFields fields presence n = tokenOfFields fields' presence n := by
  simp only [tokenOfFields, stringAt_congr hkind hkind', stringAt_congr htext htext',
    objectAt_object hleading, objectAt_object hleading', objectAt_object htrailing,
    objectAt_object htrailing', fieldOf, bind, Except.bind, triviaFrom_recoded hbefore,
    triviaFrom_recoded hafter]

/-- Whatever precedes the kind of a node says the same after it is recoded. -/
theorem opens_recoded {type type' id id' mark mark' : List UInt8} {k n : Nat} (htype : IsUInt k type)
    (htype' : IsUInt k type') (hid : IsUInt n id) (hid' : IsUInt n id') (hmark : SameMark mark mark')
    (more more' : Fields) :
    ∃ presence, Opens (.scalar type :: .scalar id :: .scalar mark :: more) k n presence ∧
      Opens (.scalar type' :: .scalar id' :: .scalar mark' :: more') k n presence := by
  obtain ⟨m, m', hm, hm', hzero⟩ := hmark
  have hsame : (m' == 0) = (m == 0) := by
    rw [Bool.eq_iff_iff, beq_iff_eq, beq_iff_eq]
    exact hzero.symm
  refine ⟨if m == 0 then .missing else .present, ?_, ?_⟩
  · exact ⟨uintAt_of_isUInt rfl htype, uintAt_of_isUInt rfl hid, m, uintAt_of_isUInt rfl hm, rfl⟩
  · exact ⟨uintAt_of_isUInt rfl htype', uintAt_of_isUInt rfl hid', m', uintAt_of_isUInt rfl hm', by
      rw [hsame]⟩

/-- Of a node with slots only the kind and the list of its slots are looked at after the mark. -/
theorem ofNodeFields_layout {fields inner : Fields} {n : Nat} {presence : Presence}
    (slots : List Outline) (h : Opens fields 0 n presence) (hinner : fields[4]? = some (.object inner)) :
    ofNodeFields fields slots = fieldOf (fields.stringAt 3) >>= fun kind =>
      if isKind kind then .ok (.node kind presence (some (n : Int)) slots)
      else .error (.invalidKind (.str kind)) := by
  obtain ⟨mark, hmark, hpresence⟩ := h.presence
  simp only [ofNodeFields, h.type, h.id, hmark, hpresence, fieldOf, bind, Except.bind,
    NodeType.ofNat?, objectAt_object hinner]
  rfl

end Outline

namespace ByteTree

mutual

/-- A recoded field has the same outline. -/
theorem Field.Recoded.ofField : ∀ {field field' : Field} (index : Nat), Field.Recoded field field' →
    Outline.ofField index field = Outline.ofField index field'
  | _, _, _, .kept _ => rfl
  | _, _, _, @Field.Recoded.leftOut _ _ _ _ n htype htype' hid hid' more more' => by
    rw [Outline.ofField, Outline.ofField,
      Outline.ofNodeFields_reference _ (uintAt_of_isUInt rfl htype) (uintAt_of_isUInt rfl hid),
      Outline.ofNodeFields_reference _ (uintAt_of_isUInt rfl htype') (uintAt_of_isUInt rfl hid')]
  | _, _, _, .token htype htype' hid hid' hmark kind text hleading htrailing more more' => by
    obtain ⟨presence, hopens, hopens'⟩ := Outline.opens_recoded htype htype' hid hid' hmark
      (kind :: text :: .object _ :: .object _ :: more) (kind :: text :: .object _ :: .object _ :: more')
    rw [Outline.ofField, Outline.ofField, Outline.ofNodeFields_token _ hopens rfl,
      Outline.ofNodeFields_token _ hopens' rfl]
    refine congrArg (fun token => Outline.ofExcept (Except.map .token token)) ?_
    exact Outline.tokenOfFields_recoded rfl rfl rfl rfl rfl rfl rfl rfl hleading htrailing _ _
  | _, _, _, .layout htype htype' hid hid' hmark kind hslots more more' => by
    obtain ⟨presence, hopens, hopens'⟩ := Outline.opens_recoded htype htype' hid hid' hmark
      (kind :: .object _ :: more) (kind :: .object _ :: more')
    have hlisted := AllRecoded.slotsFrom 0 hslots
    rw [Outline.ofField, Outline.ofField, Outline.ofNodeFields_layout _ hopens rfl,
      Outline.ofNodeFields_layout _ hopens' rfl]
    simp only [Outline.slotsAfter, Outline.slotsOfField, hlisted]
    rfl

theorem AllRecoded.slotsFrom : ∀ {slots slots' : Fields} (index : Nat), AllRecoded slots slots' →
    Outline.slotsFrom index slots = Outline.slotsFrom index slots'
  | _, _, _, .nil => rfl
  | _, _, index, .cons h hrest => by
    rw [Outline.slotsFrom, Outline.slotsFrom, Field.Recoded.ofField index h,
      AllRecoded.slotsFrom (index + 1) hrest]

end

end ByteTree
end SourceTree
