import SourceTree.Proofs.Outline.Recoded
import SourceTree.Session.Basic

/-!
# Sessions and recoded documents

A document that is recoded gives the same tree in the same session, and leaves the same session behind. What
a session remembers is found under the number of the id, whatever width the id is written in. Only the
nesting of what is added matters: past the limit of the reader there is no document.
-/
namespace SourceTree.Session

open ByteTree (Field Fields IsUInt Writable encodeDocument maxNesting)

/-- The outcome for a document whose root fits. -/
theorem deserialize_encodeDocument (s : Session) {root : Fields} (hfits : (Field.object root).Fits) :
    s.deserialize .byteTree (encodeDocument root) =
      if (Field.object root).nesting ≤ maxNesting then s.takeRoot (Outline.ofRoot root)
      else (.error (.tooDeep (encodeDocument root).length), s) := by
  rw [deserialize, Outline.read, ByteTree.readDocument_of_fits hfits]
  by_cases hnested : (Field.object root).nesting ≤ maxNesting
  · rw [if_pos hnested, if_pos hnested]
  · rw [if_neg hnested, if_neg hnested]

/-- A node that is remembered is found by its id in any width. -/
theorem deserialize_leftOut {s : Session} {n : Nat} {node : Tree} (hfound : s.store.find? n = some node)
    (hnode : node ≠ .absent) {type id : List UInt8} {more : Fields} (htype : IsUInt 2 type)
    (hid : IsUInt n id) (hdocument : Writable (.scalar type :: .scalar id :: more)) :
    s.deserialize .byteTree (encodeDocument (.scalar type :: .scalar id :: more)) = (.ok node, s) := by
  have houtline : Outline.ofRoot (.scalar type :: .scalar id :: more) = .reference n := by
    rw [Outline.ofRoot, Outline.ofField, Outline.ofNodeFields_reference _
      (ByteTree.uintAt_of_isUInt rfl htype) (ByteTree.uintAt_of_isUInt rfl hid)]
    rfl
  rw [deserialize_encodeDocument s hdocument.fits, if_pos hdocument.nested, houtline, takeRoot, take,
    hfound]
  cases node with
  | absent => exact absurd rfl hnode
  | token => rfl
  | node => rfl

/-- **Recoded documents say the same.** A document that a session reads has a root, and whatever root that is
recoded to, its document gives the same tree in the same session and leaves the same session behind, unless
what was added to it is nested too deep. A node that is remembered then is found by a document that names its
id in any width and has whatever fields after that. -/
theorem deserialize_recoded {s after : Session} {payload : List UInt8} {t : Tree}
    (h : s.deserialize .byteTree payload = (.ok t, after)) :
    (∃ root, payload = encodeDocument root ∧ Writable root ∧
      ∀ other : Fields, Field.Recoded (.object root) (.object other) → (Field.object other).Fits →
        s.deserialize .byteTree (encodeDocument other) =
          if (Field.object other).nesting ≤ maxNesting then (.ok t, after)
          else (.error (.tooDeep (encodeDocument other).length), s)) ∧
    ∀ (n : Nat) (node : Tree), after.store.find? n = some node → node ≠ .absent →
      ∀ (type id : List UInt8) (more : Fields), IsUInt 2 type → IsUInt n id →
        Writable (.scalar type :: .scalar id :: more) →
        after.deserialize .byteTree (encodeDocument (.scalar type :: .scalar id :: more)) =
          (.ok node, after) := by
  refine ⟨?_, fun n node hfound hnode type id more => deserialize_leftOut hfound hnode⟩
  cases hread : (ByteTree.readDocument payload).1 with
  | error cause =>
    rw [deserialize, Outline.read, hread] at h
    cases cause <;> cases h
  | ok root =>
    obtain ⟨hwritable, hpayload⟩ := (ByteTree.readDocument_ok_iff payload root).mp hread
    refine ⟨root, hpayload, hwritable, ?_⟩
    intro other hrecoded hfits
    have houtline : Outline.ofRoot root = Outline.ofRoot other := hrecoded.ofField 0
    rw [hpayload, deserialize_encodeDocument s hwritable.fits, if_pos hwritable.nested, houtline] at h
    rw [deserialize_encodeDocument s hfits, h]

/-- A list of a token, an empty slot and the token again, with every number in one byte. In the other
document numbers of two, four and eight bytes stand for them and each object but the empty one has a field
more; what was written with an id of one byte is found by one of eight. -/
theorem deserialize_recoded_list :
    let root : Fields :=
      [.scalar [0], .scalar [9], .scalar [1], .scalar [76], .object [
        .object [.scalar [1], .scalar [7], .scalar [1], .scalar [99, 111, 109, 109, 97], .scalar [],
          .object [.object [.scalar [84, 97, 98], .scalar [2]]], .object []],
        .object [],
        .object [.scalar [2], .scalar [7]]]]
    let other : Fields :=
      [.scalar [0, 0], .scalar [9, 0, 0, 0], .scalar [0, 1], .scalar [76], .object [
        .object [.scalar [1, 0, 0, 0, 0, 0, 0, 0], .scalar [7, 0], .scalar [255],
          .scalar [99, 111, 109, 109, 97], .scalar [],
          .object [.object [.scalar [84, 97, 98], .scalar [2, 0, 0, 0], .scalar []]], .object [], .object []],
        .object [],
        .object [.scalar [2, 0], .scalar [7, 0, 0, 0, 0, 0, 0, 0], .object [.object []]]],
        .scalar [1, 2, 3]]
    let comma : Tree := .token 0 ⟨"comma", ",", [⟨"Tab", "\t\t"⟩], [], .present, some 7⟩
    let list : Tree := .node "L" .present (some 9) [comma, .absent, comma]
    let after : Session := ⟨[(7, comma), (9, list)], 1⟩
    empty.deserialize .byteTree (encodeDocument root) = (.ok list, after) ∧
      Field.Recoded (.object root) (.object other) ∧ Writable other ∧
      empty.deserialize .byteTree (encodeDocument other) = (.ok list, after) ∧
      after.deserialize .byteTree (encodeDocument [.scalar [2], .scalar [7, 0, 0, 0, 0, 0, 0, 0]]) =
        (.ok comma, after) := by
  intro root other comma list after
  have hwritable : Writable root := by decide
  have hread : empty.deserialize .byteTree (encodeDocument root) = (.ok list, after) := by
    rw [deserialize_encodeDocument empty hwritable.fits, if_pos hwritable.nested]
    rfl
  have hother : Writable other := by decide
  have hmark (mark mark' : List UInt8) (m n : Nat) (hm : IsUInt (m + 1) mark) (hn : IsUInt (n + 1) mark') :
      ByteTree.SameMark mark mark' := ⟨_, _, hm, hn, by simp⟩
  have hpiece : Field.PieceRecoded (.object [.scalar [84, 97, 98], .scalar [2]])
      (.object [.scalar [84, 97, 98], .scalar [2, 0, 0, 0], .scalar []]) := by
    have hkind : Text.Utf8.decode [84, 97, 98] = .ok "Tab" := by rfl
    exact .counted (n := 2) hkind rfl (by decide) (by decide) [] [.scalar []]
  have hrecoded : Field.Recoded (.object root) (.object other) := by
    refine .layout (n := 9) (by decide) (by decide) (by decide) (by decide)
      (hmark _ _ 0 255 (by decide) (by decide)) _ (.cons ?_ (.cons (.kept _) (.cons ?_ .nil))) _ _
    · exact .token (n := 7) (by decide) (by decide) (by decide) (by decide)
        (hmark _ _ 0 254 (by decide) (by decide)) _ _ (.cons hpiece .nil) .nil _ _
    · exact .leftOut (n := 7) (by decide) (by decide) (by decide) (by decide) _ _
  obtain ⟨⟨found, hpayload, hfound, hsame⟩, href⟩ := deserialize_recoded hread
  have hroot : found = root := by
    have hdocument := (ByteTree.readDocument_ok_iff (encodeDocument root) found).mpr ⟨hfound, hpayload⟩
    rw [ByteTree.readDocument_encodeDocument hwritable] at hdocument
    exact (Except.ok.inj hdocument).symm
  subst hroot
  have hsecond := hsame other hrecoded hother.fits
  rw [if_pos hother.nested] at hsecond
  exact ⟨hread, hrecoded, hother, hsecond,
    href 7 comma rfl nofun [2] [7, 0, 0, 0, 0, 0, 0, 0] [] (by decide) (by decide) (by decide)⟩

/-- So many objects, each in the one before it. -/
def boxed : Nat → Field
  | 0 => .scalar []
  | n + 1 => .object [boxed n]

theorem nesting_boxed (n : Nat) : (boxed n).nesting = n := by
  induction n with
  | zero => rfl
  | succ n ih => simp only [boxed, Field.nesting, ByteTree.nestingOfAll, ih, Nat.max_zero]

theorem fits_boxed (n : Nat) : (boxed n).Fits := by
  induction n with
  | zero => exact (by decide : 0 < ByteTree.objectBit)
  | succ n ih => exact ⟨(by decide : 1 < ByteTree.objectBit), ih, trivial⟩

/-- Past the limit of the reader there is no document, whatever the field is that is nested so deep. -/
theorem deserialize_deep (s : Session) {front : Fields} {deep : Field}
    (hfits : (Field.object (front ++ [deep])).Fits) (hdeep : maxNesting ≤ deep.nesting) :
    s.deserialize .byteTree (encodeDocument (front ++ [deep])) =
      (.error (.tooDeep (encodeDocument (front ++ [deep])).length), s) := by
  have hinner : deep.nesting ≤ ByteTree.nestingOfAll (front ++ [deep]) := by
    induction front with
    | nil => exact Nat.le_max_left _ _
    | cons first front ih =>
      have hfront : (Field.object (front ++ [deep])).Fits := ⟨Nat.lt_of_succ_lt hfits.1, hfits.2.2⟩
      exact Nat.le_trans (ih hfront) (Nat.le_max_right _ _)
  rw [deserialize_encodeDocument s hfits, if_neg]
  rw [Field.nesting]
  omega

/-- A token that is read, and the same token with three thousand objects in one another added at its end,
which is not read. -/
theorem not_deserialize_recoded_boxed :
    let root : Fields := [.scalar [1], .scalar [7], .scalar [1], .scalar [99, 111, 109, 109, 97],
      .scalar [], .object [], .object []]
    let other : Fields := root ++ [boxed 3000]
    let comma : Tree := .token 0 ⟨"comma", ",", [], [], .present, some 7⟩
    Field.Recoded (.object root) (.object other) ∧ (Field.object other).Fits ∧
      empty.deserialize .byteTree (encodeDocument root) = (.ok comma, ⟨[(7, comma)], 1⟩) ∧
      empty.deserialize .byteTree (encodeDocument other) =
        (.error (.tooDeep (encodeDocument other).length), empty) := by
  intro root other comma
  have hrecoded : Field.Recoded (.object root) (.object other) :=
    .token (n := 7) (by decide) (by decide) (by decide) (by decide)
      ⟨1, 1, by decide, by decide, Iff.rfl⟩ _ _ .nil .nil [] [boxed 3000]
  have hfits : (Field.object other).Fits :=
    ⟨by decide, by decide, by decide, by decide, by decide, by decide, by decide, by decide,
      fits_boxed 3000, trivial⟩
  have hwritable : Writable root := by decide
  have hdeep : maxNesting ≤ (boxed 3000).nesting := by
    rw [nesting_boxed]
    decide
  refine ⟨hrecoded, hfits, ?_, deserialize_deep empty hfits hdeep⟩
  rw [deserialize_encodeDocument empty hwritable.fits, if_pos hwritable.nested]
  rfl

end SourceTree.Session
