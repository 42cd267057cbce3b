import Mathlib.Algebra.Group.Nat.Defs
import SourceTree.ByteTree.Writer

/-!
# Documents and their bytes

What is written is read back, and nothing else is read: a document has one tree of fields, a tree has
one document. Both directions follow a field from its word to its last byte and leave whatever comes
after it alone, so they hold at any offset and before any further bytes.
-/
namespace SourceTree.ByteTree

/-! ### Words -/

theorem objectBit_add_objectBit : objectBit + objectBit = 2 ^ 32 := by decide

theorem length_bytesOfUInt (count n : Nat) : (bytesOfUInt count n).length = count := by
  induction count generalizing n with
  | zero => rfl
  | succ count ih => rw [bytesOfUInt, List.length_cons, ih]

theorem uintOfBytes_bytesOfUInt (count n : Nat) :
    uintOfBytes (bytesOfUInt count n) = n % 256 ^ count := by
  induction count generalizing n with
  | zero => simp [bytesOfUInt, uintOfBytes, Nat.mod_one]
  | succ count ih =>
    have hlow : (UInt8.ofNat n).toNat = n % 256 := UInt8.toNat_ofNat'
    rw [bytesOfUInt, uintOfBytes, ih, hlow, Nat.pow_succ', Nat.mod_mul]

theorem uintOfBytes_lt (bytes : List UInt8) : uintOfBytes bytes < 256 ^ bytes.length := by
  induction bytes with
  | nil => simp [uintOfBytes]
  | cons b rest ih =>
    have hb : b.toNat < 256 := b.toNat_lt
    rw [uintOfBytes, List.length_cons, Nat.pow_succ']
    omega

/-- A number has one form of a given width. -/
theorem bytesOfUInt_uintOfBytes (bytes : List UInt8) :
    bytesOfUInt bytes.length (uintOfBytes bytes) = bytes := by
  induction bytes with
  | nil => rfl
  | cons b rest ih =>
    have hb : b.toNat < 256 := b.toNat_lt
    have hlow : (b.toNat + 256 * uintOfBytes rest) % 256 = b.toNat := by omega
    have hhigh : (b.toNat + 256 * uintOfBytes rest) / 256 = uintOfBytes rest := by omega
    have hfirst : UInt8.ofNat (b.toNat + 256 * uintOfBytes rest) = b := by
      apply UInt8.toNat_inj.mp
      rw [UInt8.toNat_ofNat', hlow]
    rw [List.length_cons, uintOfBytes, bytesOfUInt, hfirst, hhigh, ih]

theorem length_word (n : Nat) : (word n).length = 4 := length_bytesOfUInt 4 n

theorem uintOfBytes_word {n : Nat} (h : n < 2 ^ 32) : uintOfBytes (word n) = n := by
  rw [word, uintOfBytes_bytesOfUInt]
  exact Nat.mod_eq_of_lt h

theorem word_uintOfBytes {bytes : List UInt8} (h : bytes.length = 4) :
    word (uintOfBytes bytes) = bytes := by
  rw [word, ← h, bytesOfUInt_uintOfBytes]

/-- The word of a scalar is its length. -/
theorem Header.ofWord_of_lt {n : Nat} (h : n < objectBit) : Header.ofWord n = .scalar n :=
  if_pos h

/-- The word of an object is its length above the top bit. -/
theorem Header.ofWord_objectBit_add (n : Nat) : Header.ofWord (objectBit + n) = .object n := by
  have hnot : ¬ objectBit + n < objectBit := by omega
  rw [Header.ofWord, if_neg hnot, Nat.add_sub_cancel_left]

/-! ### Which fields have a written form -/

mutual

/-- No scalar and no object is as large as the top bit of a word. -/
def Field.Fits : Field → Prop
  | .scalar bytes => bytes.length < objectBit
  | .object fields => fields.length < objectBit ∧ AllFit fields

def AllFit : List Field → Prop
  | [] => True
  | field :: rest => field.Fits ∧ AllFit rest

end

mutual

instance Field.decidableFits : (field : Field) → Decidable field.Fits
  | .scalar bytes => inferInstanceAs (Decidable (bytes.length < objectBit))
  | .object fields =>
    @instDecidableAnd _ _ (inferInstanceAs (Decidable (fields.length < objectBit)))
      (decidableAllFit fields)

instance decidableAllFit : (fields : List Field) → Decidable (AllFit fields)
  | [] => .isTrue trivial
  | field :: rest => @instDecidableAnd _ _ field.decidableFits (decidableAllFit rest)

end

mutual

/-- How many objects are open at a time on the way to the innermost field. -/
def Field.nesting : Field → Nat
  | .scalar _ => 0
  | .object fields => nestingOfAll fields + 1

def nestingOfAll : List Field → Nat
  | [] => 0
  | field :: rest => max field.nesting (nestingOfAll rest)

end

mutual

/-- How many words announce the field and what is in it. -/
def Field.words : Field → Nat
  | .scalar _ => 1
  | .object fields => wordsOfAll fields + 1

def wordsOfAll : List Field → Nat
  | [] => 0
  | field :: rest => field.words + wordsOfAll rest

end

/-- A root whose document can be written and read. -/
structure Writable (root : Fields) : Prop where
  fits : (Field.object root).Fits
  nested : (Field.object root).nesting ≤ maxNesting

instance (root : Fields) : Decidable (Writable root) :=
  decidable_of_iff ((Field.object root).Fits ∧ (Field.object root).nesting ≤ maxNesting)
    ⟨fun h => ⟨h.1, h.2⟩, fun h => ⟨h.fits, h.nested⟩⟩

/-! ### From fields to bytes -/

theorem takeBytes_append (bytes rest : List UInt8) (offset words : Nat) :
    takeBytes bytes.length ⟨offset, words, bytes ++ rest⟩ =
      (.ok bytes, ⟨offset + bytes.length, words, rest⟩) := by
  have hsplit : splitAt? bytes.length (bytes ++ rest) [] = some (bytes, rest) := by
    rw [splitAt?_eq, if_pos (by simp), List.take_left' rfl, List.drop_left' rfl]
    rfl
  simp only [takeBytes, hsplit]

theorem takeWord_word {n : Nat} (h : n < 2 ^ 32) (rest : List UInt8) (offset words : Nat) :
    takeWord ⟨offset, words, word n ++ rest⟩ = (.ok n, ⟨offset + 4, words + 1, rest⟩) := by
  have hbytes := takeBytes_append (word n) rest offset words
  rw [length_word] at hbytes
  simp only [takeWord, hbytes, uintOfBytes_word h]

mutual

/-- A written field is read back, wherever it stands. The induction is on the field; the room only
has to cover its nesting. -/
theorem takeField_encode : ∀ (field : Field) (room : Nat) (rest : List UInt8) (offset words : Nat),
    field.Fits → field.nesting ≤ room →
    takeField room ⟨offset, words, field.encode ++ rest⟩ =
      (.ok field, ⟨offset + field.encode.length, words + field.words, rest⟩)
  | .scalar bytes, room, rest, offset, words, hfits, _ => by
    have hlen : bytes.length < objectBit := hfits
    have hword : bytes.length < 2 ^ 32 := by
      have := objectBit_add_objectBit
      omega
    rw [Field.encode, List.append_assoc, takeField, takeWord_word hword]
    simp only [Header.ofWord_of_lt hlen, takeBytes_append, Field.words, List.length_append,
      length_word, Nat.add_assoc]
  | .object fields, room, rest, offset, words, hfits, hnested => by
    obtain ⟨hlen, hall⟩ := hfits
    rw [Field.nesting] at hnested
    obtain ⟨room, rfl⟩ : ∃ inner, room = inner + 1 := ⟨room - 1, by omega⟩
    have hword : objectBit + fields.length < 2 ^ 32 := by
      have := objectBit_add_objectBit
      omega
    have hfields := takeFields_encodeAll fields room rest (offset + 4) (words + 1) [] hall
      (by omega)
    rw [Field.encode, List.append_assoc, takeField, takeWord_word hword]
    simp only [Header.ofWord_objectBit_add, hfields, List.reverse_nil, List.nil_append,
      Field.words, List.length_append, length_word, Nat.add_assoc, Nat.add_comm 1]

theorem takeFields_encodeAll : ∀ (fields : List Field) (room : Nat) (rest : List UInt8)
    (offset words : Nat) (acc : List Field), AllFit fields → nestingOfAll fields ≤ room →
    takeFields (takeField room) fields.length ⟨offset, words, encodeAll fields ++ rest⟩ acc =
      (.ok (acc.reverse ++ fields),
        ⟨offset + (encodeAll fields).length, words + wordsOfAll fields, rest⟩)
  | [], room, rest, offset, words, acc, _, _ => by simp [takeFields, encodeAll, wordsOfAll]
  | field :: more, room, rest, offset, words, acc, hfits, hnested => by
    obtain ⟨hfield, hmore⟩ := hfits
    rw [nestingOfAll] at hnested
    have hfirst := takeField_encode field room (encodeAll more ++ rest) offset words hfield
      (by omega)
    have hrest := takeFields_encodeAll more room rest (offset + field.encode.length)
      (words + field.words) (field :: acc) hmore (by omega)
    rw [List.length_cons, encodeAll, List.append_assoc, takeFields, hfirst]
    simp only [hrest, List.reverse_cons, List.append_assoc, List.cons_append, List.nil_append,
      List.length_append, wordsOfAll, Nat.add_assoc]

end

/-! ### From bytes to fields -/

/-- The cursor `d` stands behind `c`, with these bytes and so many words between them. -/
structure Cursor.Passes (c : Cursor) (bytes : List UInt8) (words : Nat) (d : Cursor) : Prop where
  rest : c.rest = bytes ++ d.rest
  offset : d.offset = c.offset + bytes.length
  words : d.words = c.words + words

theorem Cursor.Passes.nil (c : Cursor) : c.Passes [] 0 c := ⟨rfl, rfl, rfl⟩

theorem Cursor.Passes.append {c d e : Cursor} {front back : List UInt8} {m n : Nat}
    (hcd : c.Passes front m d) (hde : d.Passes back n e) : c.Passes (front ++ back) (m + n) e where
  rest := by rw [hcd.rest, hde.rest, List.append_assoc]
  offset := by rw [hde.offset, hcd.offset, List.length_append, Nat.add_assoc]
  words := by rw [hde.words, hcd.words, Nat.add_assoc]

theorem takeBytes_ok {count : Nat} {c d : Cursor} {bytes : List UInt8}
    (h : takeBytes count c = (.ok bytes, d)) : bytes.length = count ∧ c.Passes bytes 0 d := by
  rw [takeBytes, splitAt?_eq] at h
  by_cases hlen : count ≤ c.rest.length
  · rw [if_pos hlen] at h
    obtain ⟨hbytes, rfl⟩ := Prod.mk.inj h
    obtain rfl : c.rest.take count = bytes := by simpa using hbytes
    have hcount : (c.rest.take count).length = count := List.length_take_of_le hlen
    exact ⟨hcount, ⟨(List.take_append_drop _ _).symm, by rw [hcount], rfl⟩⟩
  · rw [if_neg hlen] at h
    cases h

theorem takeWord_ok {c d : Cursor} {n : Nat} (h : takeWord c = (.ok n, d)) :
    n < 2 ^ 32 ∧ c.Passes (word n) 1 d := by
  unfold takeWord at h
  split at h
  · rename_i bytes e htaken
    obtain ⟨hlen, hpasses⟩ := takeBytes_ok htaken
    obtain ⟨hn, rfl⟩ := Prod.mk.inj h
    obtain rfl : uintOfBytes bytes = n := by simpa using hn
    have hbound := uintOfBytes_lt bytes
    rw [hlen] at hbound
    rw [word_uintOfBytes hlen]
    exact ⟨hbound, hpasses.rest, hpasses.offset, by rw [hpasses.words]⟩
  · cases h

/-- The announced kind and number give the word back. -/
theorem Header.ofWord_cases {n : Nat} (h : n < 2 ^ 32) :
    (n < objectBit ∧ Header.ofWord n = .scalar n) ∨
      ∃ count, count < objectBit ∧ n = objectBit + count ∧ Header.ofWord n = .object count := by
  by_cases hn : n < objectBit
  · exact .inl ⟨hn, ofWord_of_lt hn⟩
  · have hbit := objectBit_add_objectBit
    obtain ⟨count, rfl⟩ : ∃ count, n = objectBit + count := ⟨n - objectBit, by omega⟩
    exact .inr ⟨count, by omega, rfl, ofWord_objectBit_add count⟩

/-- What holds of every field that `field` takes holds of all fields that are taken one by one. The
fields in `acc` have been taken before. -/
theorem takeFields_ok {field : Cursor → Step Field} {room : Nat}
    (hfield : ∀ {c d : Cursor} {f : Field}, field c = (.ok f, d) →
      f.Fits ∧ f.nesting ≤ room ∧ c.Passes f.encode f.words d)
    {count : Nat} {c d : Cursor} {acc fields : List Field}
    (h : takeFields field count c acc = (.ok fields, d)) :
    ∃ more, fields = acc.reverse ++ more ∧ more.length = count ∧ AllFit more ∧
      nestingOfAll more ≤ room ∧ c.Passes (encodeAll more) (wordsOfAll more) d := by
  induction count generalizing c acc with
  | zero =>
    obtain ⟨hfields, rfl⟩ := Prod.mk.inj h
    obtain rfl : acc.reverse = fields := by simpa using hfields
    exact ⟨[], by simp, rfl, trivial, Nat.zero_le _, .nil c⟩
  | succ count ih =>
    rw [takeFields] at h
    split at h
    · rename_i f e htaken
      obtain ⟨hfits, hnested, hpasses⟩ := hfield htaken
      obtain ⟨more, hmore, hcount, hallFit, hallNested, hallPass⟩ := ih h
      refine ⟨f :: more, ?_, ?_, ⟨hfits, hallFit⟩, ?_, hpasses.append hallPass⟩
      · rw [hmore, List.reverse_cons, List.append_assoc, List.singleton_append]
      · rw [List.length_cons, hcount]
      · rw [nestingOfAll]
        exact Nat.max_le.2 ⟨hnested, hallNested⟩
    · cases h

/-- A field that is read has passed exactly its written form. The induction is on the room, as every
object that is opened takes some of it. -/
theorem takeField_ok {room : Nat} {c d : Cursor} {field : Field}
    (h : takeField room c = (.ok field, d)) :
    field.Fits ∧ field.nesting ≤ room ∧ c.Passes field.encode field.words d := by
  induction room using Nat.strongRecOn generalizing c d field with
  | ind room ih =>
    rw [takeField] at h
    split at h
    · cases h
    · rename_i n e hword
      obtain ⟨hn, hpasses⟩ := takeWord_ok hword
      rcases Header.ofWord_cases hn with ⟨hlow, hheader⟩ | ⟨count, hcount, rfl, hheader⟩
      · rw [hheader] at h
        dsimp only at h
        split at h
        · rename_i bytes e' hbytes
          obtain ⟨hlen, hpasses'⟩ := takeBytes_ok hbytes
          obtain ⟨hfield, rfl⟩ := Prod.mk.inj h
          obtain rfl : Field.scalar bytes = field := by simpa using hfield
          rw [← hlen] at hlow hpasses
          exact ⟨hlow, Nat.zero_le _, hpasses.append hpasses'⟩
        · cases h
      · rw [hheader] at h
        cases room with
        | zero => cases h
        | succ room =>
          dsimp only at h
          split at h
          · rename_i fields e' hfields
            obtain ⟨more, hmore, hlen, hfits, hnested, hpasses'⟩ :=
              takeFields_ok (ih room (Nat.lt_succ_self room)) hfields
            obtain rfl : fields = more := by simpa using hmore
            obtain ⟨hfield, rfl⟩ := Prod.mk.inj h
            obtain rfl : Field.object fields = field := by simpa using hfield
            subst hlen
            refine ⟨⟨hcount, hfits⟩, Nat.succ_le_succ hnested, ?_⟩
            rw [Field.words, Nat.add_comm]
            exact hpasses.append hpasses'
          · cases h

/-! ### Documents -/

theorem version_lt : version < 2 ^ 32 := by decide

/-- A written document is read to its end. -/
theorem readDocument_encodeDocument {root : Fields} (h : Writable root) :
    readDocument (encodeDocument root) =
      (.ok root, ⟨(encodeDocument root).length, (Field.object root).words + 1, []⟩) := by
  have hfield := takeField_encode (.object root) maxNesting [] 4 1 h.fits h.nested
  rw [List.append_nil] at hfield
  have hversion := takeWord_word version_lt (Field.object root).encode 0 0
  rw [readDocument, takeDocument, encodeDocument, hversion]
  simp [hfield, length_word, Nat.add_comm]

mutual

/-- A written field with more nesting than there is room for is given up where the room ends, whatever
follows. -/
theorem takeField_encode_deep : ∀ (field : Field) (room : Nat) (rest : List UInt8)
    (offset words : Nat), field.Fits → room < field.nesting →
    ∃ c, takeField room ⟨offset, words, field.encode ++ rest⟩ = (.error .tooDeep, c)
  | .scalar _, _, _, _, _, _, hdeep => absurd hdeep (Nat.not_lt_zero _)
  | .object fields, room, rest, offset, words, hfits, hdeep => by
    obtain ⟨hlen, hall⟩ := hfits
    have hword : objectBit + fields.length < 2 ^ 32 := by
      have := objectBit_add_objectBit
      omega
    rw [Field.encode, List.append_assoc, takeField, takeWord_word hword]
    simp only [Header.ofWord_objectBit_add]
    cases room with
    | zero => exact ⟨_, rfl⟩
    | succ room =>
      obtain ⟨c, hfields⟩ := takeFields_encodeAll_deep fields room rest (offset + 4) (words + 1) []
        hall (Nat.lt_of_succ_lt_succ hdeep)
      exact ⟨c, by simp only [hfields]⟩

theorem takeFields_encodeAll_deep : ∀ (fields : List Field) (room : Nat) (rest : List UInt8)
    (offset words : Nat) (acc : List Field), AllFit fields → room < nestingOfAll fields →
    ∃ c, takeFields (takeField room) fields.length ⟨offset, words, encodeAll fields ++ rest⟩ acc =
      (.error .tooDeep, c)
  | [], _, _, _, _, _, _, hdeep => absurd hdeep (Nat.not_lt_zero _)
  | field :: more, room, rest, offset, words, acc, hfits, hdeep => by
    obtain ⟨hfield, hmore⟩ := hfits
    rw [nestingOfAll] at hdeep
    rw [List.length_cons, encodeAll, List.append_assoc, takeFields]
    by_cases hfirst : field.nesting ≤ room
    · rw [takeField_encode field room _ offset words hfield hfirst]
      exact takeFields_encodeAll_deep more room rest _ _ _ hmore (by omega)
    · obtain ⟨c, hdeepest⟩ := takeField_encode_deep field room (encodeAll more ++ rest) offset words
        hfield (by omega)
      exact ⟨c, by simp only [hdeepest]⟩

end

/-- A root that fits is read back from its document, unless it is nested too deep. -/
theorem readDocument_of_fits {root : Fields} (h : (Field.object root).Fits) :
    (readDocument (encodeDocument root)).1 =
      if (Field.object root).nesting ≤ maxNesting then .ok root else .error .tooDeep := by
  by_cases hnested : (Field.object root).nesting ≤ maxNesting
  · rw [readDocument_encodeDocument ⟨h, hnested⟩, if_pos hnested]
  · obtain ⟨c, hfield⟩ :=
      takeField_encode_deep (.object root) maxNesting [] 4 1 h (Nat.not_le.mp hnested)
    rw [List.append_nil] at hfield
    have hversion := takeWord_word version_lt (Field.object root).encode 0 0
    rw [readDocument, takeDocument, encodeDocument, hversion, if_neg hnested]
    simp [hfield]

/-- A document that is read is the written form of its root, and has been read to its end. -/
theorem readDocument_ok {bytes : List UInt8} {root : Fields} {c : Cursor}
    (h : readDocument bytes = (.ok root, c)) :
    Writable root ∧ bytes = encodeDocument root ∧ c.offset = bytes.length := by
  rw [readDocument, takeDocument] at h
  split at h
  · cases h
  · rename_i found d hword
    obtain ⟨_, hpasses⟩ := takeWord_ok hword
    by_cases hversion : found = version
    · subst hversion
      rw [bne_self_eq_false, if_neg Bool.false_ne_true] at h
      split at h
      · cases h
      · cases h
      · rename_i fields e hfield
        obtain ⟨hfits, hnested, hpasses'⟩ := takeField_ok hfield
        split at h
        · rename_i hend
          obtain ⟨hroot, rfl⟩ := Prod.mk.inj h
          obtain rfl : fields = root := by simpa using hroot
          have hall := hpasses.append hpasses'
          have hbytes : bytes = encodeDocument fields := by
            have hrest := hall.rest
            rw [List.isEmpty_iff.mp hend, List.append_nil] at hrest
            exact hrest
          refine ⟨⟨hfits, hnested⟩, hbytes, ?_⟩
          rw [hall.offset, hbytes, Nat.zero_add]
          rfl
        · cases h
    · rw [if_pos (bne_iff_ne.mpr hversion)] at h
      cases h

/-- The documents that are read are the written forms of roots, one for each. -/
theorem readDocument_ok_iff (bytes : List UInt8) (root : Fields) :
    (readDocument bytes).1 = .ok root ↔ Writable root ∧ bytes = encodeDocument root := by
  constructor
  · intro h
    obtain ⟨hroot, hbytes, _⟩ := readDocument_ok (c := (readDocument bytes).2) (Prod.ext h rfl)
    exact ⟨hroot, hbytes⟩
  · rintro ⟨hroot, rfl⟩
    rw [readDocument_encodeDocument hroot]

/-- **Documents and roots correspond one to one.** Every root that fits is read back from its written
form, to the last byte; every document that is read is the written form of the root it gives; so no two
documents have one root. -/
theorem readDocument_bijection :
    (∀ root : Fields, Writable root →
      (readDocument (encodeDocument root)).1 = .ok root ∧
        (readDocument (encodeDocument root)).2.offset = (encodeDocument root).length) ∧
    (∀ (bytes : List UInt8) (root : Fields), (readDocument bytes).1 = .ok root →
      encodeDocument root = bytes ∧ Writable root) ∧
    ∀ (bytes other : List UInt8) (root : Fields),
      (readDocument bytes).1 = .ok root → (readDocument other).1 = .ok root → bytes = other := by
  refine ⟨?_, ?_, ?_⟩
  · intro root hroot
    rw [readDocument_encodeDocument hroot]
    exact ⟨rfl, rfl⟩
  · intro bytes root h
    obtain ⟨hroot, hbytes⟩ := (readDocument_ok_iff bytes root).mp h
    exact ⟨hbytes.symm, hroot⟩
  · intro bytes other root h h'
    rw [((readDocument_ok_iff bytes root).mp h).2, ((readDocument_ok_iff other root).mp h').2]

/-- A root with a scalar, an empty object and an object in an object is written and read back; the
eight bytes of an empty root are read and written back. -/
theorem readDocument_bijection_nested :
    let root : Fields := [.scalar [7, 0], .object [], .object [.object [.scalar []]]]
    let empty : List UInt8 := [1, 0, 0, 0, 0, 0, 0, 128]
    (Writable root ∧ (readDocument (encodeDocument root)).1 = .ok root ∧
      (readDocument (encodeDocument root)).2.offset = 30) ∧
    (readDocument empty).1 = .ok [] ∧ encodeDocument [] = empty := by
  have hroot : Writable [.scalar [7, 0], .object [], .object [.object [.scalar []]]] := by decide
  have hempty : (readDocument [1, 0, 0, 0, 0, 0, 0, 128]).1 = .ok [] := by rfl
  exact ⟨⟨hroot, readDocument_bijection.1 _ hroot⟩, hempty,
    (readDocument_bijection.2.1 _ _ hempty).1⟩

end SourceTree.ByteTree
