import SourceTree.Text.Encoding

/-!
# Text and its UTF-8 form

Every policy reads back the strings that were written, and the one that lets surrogates through reads
back every text. A character is followed from its first byte to its last; the
bounds of a second byte, which differ from one first byte to the next, never keep out a byte that was
written.
-/
namespace SourceTree.Text.Utf8

variable {policy : Policy} {n : Nat}

theorem toNat_ofNat_of_lt (h : n < 256) : (UInt8.ofNat n).toNat = n := by
  rw [UInt8.toNat_ofNat']
  exact Nat.mod_eq_of_lt h

/-! ### First bytes -/

/-- A byte below 0x80 is a character. -/
theorem opening_char (h : n < 0x80) : Opening.of policy (UInt8.ofNat n) = .char (Char.ofNat n) := by
  have hn := toNat_ofNat_of_lt (show n < 256 by omega)
  have hlow : UInt8.ofNat n < 0x80 := by
    rw [UInt8.lt_iff_toNat_lt, hn]
    exact h
  rw [Opening.of, if_pos hlow, hn]

/-- A byte that starts a sequence opens it. -/
theorem decodeFrom_open {s : Sequence} (rest : List UInt8) (pos : Nat) (acc : Text)
    (h : 0x80 ≤ n) (hlt : n < 256) (hs : Sequence.start policy (UInt8.ofNat n) = some s) :
    decodeFrom policy (UInt8.ofNat n :: rest) pos none acc =
      decodeFrom policy rest (pos + 1) (some s) acc := by
  have hlow : ¬ UInt8.ofNat n < 0x80 := by
    rw [UInt8.lt_iff_toNat_lt, toNat_ofNat_of_lt hlt]
    exact Nat.not_lt.mpr h
  have hopen : Opening.of policy (UInt8.ofNat n) = .sequence s := by
    rw [Opening.of, if_neg hlow, hs]
  rw [decodeFrom, hopen]

theorem start_two (policy : Policy) (h : 0xc2 ≤ n) (hlt : n < 0xe0) :
    Sequence.start policy (UInt8.ofNat n) = some ⟨UInt8.ofNat n, 1, 1, 0x80, 0xbf, n % 32⟩ := by
  have hn := toNat_ofNat_of_lt (show n < 256 by omega)
  simp [Sequence.start, UInt8.lt_iff_toNat_lt, hn, hlt, Nat.not_lt.mpr h]

theorem start_three (policy : Policy) (h : 0xe0 ≤ n) (hlt : n < 0xf0) :
    ∃ low high, Sequence.start policy (UInt8.ofNat n) = some ⟨UInt8.ofNat n, 1, 2, low, high, n % 16⟩ ∧
      low.toNat = (if n = 0xe0 then 0xa0 else 0x80) ∧
      (if n = 0xed then 0x9f else 0xbf) ≤ high.toNat := by
  have hn := toNat_ofNat_of_lt (show n < 256 by omega)
  have hlow : ¬ n < 0xc2 := by omega
  have htwo : ¬ n < 0xe0 := by omega
  simp only [Sequence.start, UInt8.lt_iff_toNat_lt, hn, beq_iff_eq, ← UInt8.toNat_inj,
    UInt8.reduceToNat, hlow, htwo, hlt, ↓reduceIte]
  split
  · rename_i heq
    subst heq
    exact ⟨_, _, rfl, rfl, by decide⟩
  · split
    · rename_i heq
      subst heq
      refine ⟨_, _, rfl, rfl, ?_⟩
      split <;> decide
    · exact ⟨_, _, rfl, by decide, by decide⟩

theorem start_four (policy : Policy) (h : 0xf0 ≤ n) (hlt : n ≤ 0xf4) :
    ∃ low high, Sequence.start policy (UInt8.ofNat n) = some ⟨UInt8.ofNat n, 1, 3, low, high, n % 8⟩ ∧
      low.toNat = (if n = 0xf0 then 0x90 else 0x80) ∧
      (if n = 0xf4 then 0x8f else 0xbf) ≤ high.toNat := by
  have hn := toNat_ofNat_of_lt (show n < 256 by omega)
  have hlow : ¬ n < 0xc2 := by omega
  have htwo : ¬ n < 0xe0 := by omega
  have hthree : ¬ n < 0xf0 := by omega
  have hfirst : n ≠ 0xe0 := by omega
  have hsurrogate : n ≠ 0xed := by omega
  simp only [Sequence.start, UInt8.lt_iff_toNat_lt, hn, beq_iff_eq, ← UInt8.toNat_inj,
    UInt8.reduceToNat, hlow, htwo, hthree, hfirst, hsurrogate, ↓reduceIte]
  split
  · rename_i heq
    subst heq
    exact ⟨_, _, rfl, rfl, by decide⟩
  · split
    · rename_i hmiddle
      exact ⟨_, _, rfl, by decide, by rw [if_neg (by omega)]; decide⟩
    · obtain rfl : n = 0xf4 := by omega
      exact ⟨_, _, rfl, rfl, by decide⟩

/-! ### Later bytes

A later byte holds six bits of the character above 0x80, here those of `n`.
-/

/-- Where no first byte narrows the bounds, every later byte is within them. -/
theorem later_within (n : Nat) :
    (0x80 : UInt8).toNat ≤ n % 0x40 + 0x80 ∧ n % 0x40 + 0x80 ≤ (0xbf : UInt8).toNat := by
  have hlow : (0x80 : UInt8).toNat = 0x80 := rfl
  have hhigh : (0xbf : UInt8).toNat = 0xbf := rfl
  omega

theorem bounds_of_within {low high : UInt8}
    (h : low.toNat ≤ n % 0x40 + 0x80 ∧ n % 0x40 + 0x80 ≤ high.toNat) :
    (low ≤ UInt8.ofNat (n % 0x40 + 0x80) && UInt8.ofNat (n % 0x40 + 0x80) ≤ high) = true := by
  have hn := toNat_ofNat_of_lt (show n % 0x40 + 0x80 < 256 by omega)
  simp only [UInt8.le_iff_toNat_le, hn, Bool.and_eq_true, decide_eq_true_eq]
  exact h

theorem later_bits (n : Nat) : (UInt8.ofNat (n % 0x40 + 0x80)).toNat % 64 = n % 64 := by
  rw [toNat_ofNat_of_lt (by omega)]
  omega

/-- A later byte is let in where at least one more is to come. -/
theorem decodeFrom_push {lead low high : UInt8} {count more bits : Nat} (rest : List UInt8) (pos : Nat)
    (acc : Text) (h : low.toNat ≤ n % 0x40 + 0x80 ∧ n % 0x40 + 0x80 ≤ high.toNat) :
    decodeFrom policy (UInt8.ofNat (n % 0x40 + 0x80) :: rest) pos
        (some ⟨lead, count, more + 2, low, high, bits⟩) acc =
      decodeFrom policy rest (pos + 1)
        (some ⟨lead, count + 1, more + 1, 0x80, 0xbf, bits * 64 + n % 64⟩) acc := by
  have hopen : ¬ (more + 2 - 1 == 0) = true := by
    rw [beq_iff_eq]
    omega
  rw [decodeFrom, if_pos (bounds_of_within h)]
  simp only [Sequence.push, later_bits, if_neg hopen]
  rfl

/-- The last byte completes the code point. -/
theorem decodeFrom_finish {lead low high : UInt8} {count bits : Nat} {code : Code} (rest : List UInt8)
    (pos : Nat) (acc : Text) (h : low.toNat ≤ n % 0x40 + 0x80 ∧ n % 0x40 + 0x80 ≤ high.toNat)
    (hcode : Code.ofNat (bits * 64 + n % 64) = code) :
    decodeFrom policy (UInt8.ofNat (n % 0x40 + 0x80) :: rest) pos
        (some ⟨lead, count, 1, low, high, bits⟩) acc =
      decodeFrom policy rest (pos + 1) none (code :: acc) := by
  rw [decodeFrom, if_pos (bounds_of_within h)]
  simp only [Sequence.push, later_bits, Nat.sub_self, BEq.rfl, ↓reduceIte, Sequence.code, hcode]

/-! ### Code points and texts -/

/-- A written character is read back, wherever it stands. -/
theorem decodeFrom_encodeChar (policy : Policy) (c : Char) (rest : List UInt8) (pos : Nat)
    (acc : Text) :
    decodeFrom policy (String.utf8EncodeChar c ++ rest) pos none acc =
      decodeFrom policy rest (pos + (String.utf8EncodeChar c).length) none (.char c :: acc) := by
  have hvalid := c.valid
  have hcode : ∀ n, n = c.val.toNat → Code.ofNat n = .char c := by
    rintro _ rfl
    exact Code.ofNat_toNat c
  rw [UInt32.isValidChar, Nat.isValidChar] at hvalid
  unfold String.utf8EncodeChar
  generalize hv : c.val.toNat = v at hvalid hcode ⊢
  dsimp only
  split
  · rename_i hone
    have hc : Char.ofNat v = c := by
      rw [← hv]
      exact Char.ofNat_toNat c
    simp only [List.cons_append, List.nil_append, decodeFrom, opening_char (show v < 0x80 by omega), hc,
      List.length_singleton]
  split
  · have hstart := start_two policy (n := v / 64 % 0x20 + 0xc0) (by omega) (by omega)
    simp only [List.cons_append, List.nil_append]
    rw [decodeFrom_open _ _ _ (by omega) (by omega) hstart,
      decodeFrom_finish _ _ _ (later_within v) (hcode _ (by omega))]
    rfl
  split
  · obtain ⟨low, high, hstart, hlow, hhigh⟩ :=
      start_three policy (n := v / 4096 % 0x10 + 0xe0) (by omega) (by omega)
    have hsecond : low.toNat ≤ v / 64 % 0x40 + 0x80 ∧ v / 64 % 0x40 + 0x80 ≤ high.toNat := by
      split at hlow <;> split at hhigh <;> omega
    simp only [List.cons_append, List.nil_append]
    rw [decodeFrom_open _ _ _ (by omega) (by omega) hstart, decodeFrom_push _ _ _ hsecond,
      decodeFrom_finish _ _ _ (later_within v) (hcode _ (by omega))]
    rfl
  · obtain ⟨low, high, hstart, hlow, hhigh⟩ :=
      start_four policy (n := v / 262144 % 0x08 + 0xf0) (by omega) (by omega)
    have hsecond : low.toNat ≤ v / 4096 % 0x40 + 0x80 ∧ v / 4096 % 0x40 + 0x80 ≤ high.toNat := by
      split at hlow <;> split at hhigh <;> omega
    simp only [List.cons_append, List.nil_append]
    rw [decodeFrom_open _ _ _ (by omega) (by omega) hstart, decodeFrom_push _ _ _ hsecond,
      decodeFrom_push _ _ _ (later_within (v / 64)),
      decodeFrom_finish _ _ _ (later_within v) (hcode _ (by omega))]
    rfl

/-- A surrogate that was written is read back where surrogates are let through. -/
theorem decodeFrom_encodeLone (offset : Fin 0x800) (rest : List UInt8) (pos : Nat) (acc : Text) :
    decodeFrom surrogatePassing (encodeCode (.lone offset) ++ rest) pos none acc =
      decodeFrom surrogatePassing rest (pos + 3) none (.lone offset :: acc) := by
  let n := Code.surrogate offset
  have hn : n = 0xd800 + offset := rfl
  have hstart : Sequence.start surrogatePassing (UInt8.ofNat 0xed) =
      some ⟨UInt8.ofNat 0xed, 1, 2, 0x80, 0xbf, 0xed % 16⟩ := rfl
  have hcode : Code.ofNat ((0xed % 16 * 64 + n / 64 % 64) * 64 + n % 64) = .lone offset := by
    have hbits : (0xed % 16 * 64 + n / 64 % 64) * 64 + n % 64 = n := by omega
    rw [hbits]
    exact Code.ofNat_surrogate offset
  have hbytes : encodeCode (.lone offset) ++ rest =
      UInt8.ofNat 0xed :: UInt8.ofNat (n / 64 % 0x40 + 0x80) :: UInt8.ofNat (n % 0x40 + 0x80) :: rest := rfl
  rw [hbytes, decodeFrom_open _ _ _ (by decide) (by decide) hstart,
    decodeFrom_push _ _ _ (later_within (n / 64)), decodeFrom_finish _ _ _ (later_within n) hcode]

/-- A written string is read back, wherever it stands. -/
theorem decodeFrom_encodeChars (policy : Policy) (chars : List Char) (pos : Nat) (acc : Text) :
    decodeFrom policy (chars.flatMap String.utf8EncodeChar) pos none acc =
      .ok (acc.reverse ++ ofChars chars) := by
  induction chars generalizing pos acc with
  | nil => simp [decodeFrom]
  | cons c chars ih =>
    rw [List.flatMap_cons, decodeFrom_encodeChar, ih, List.reverse_cons, List.append_assoc,
      List.singleton_append, ofChars_cons]

/-- Every written text is read back where surrogates are let through. -/
theorem decodeFrom_encodePassing (text : Text) (pos : Nat) (acc : Text) :
    decodeFrom surrogatePassing (encodePassing text) pos none acc = .ok (acc.reverse ++ text) := by
  induction text generalizing pos acc with
  | nil => simp [encodePassing, decodeFrom]
  | cons code text ih =>
    have hbytes : encodePassing (code :: text) = encodeCode code ++ encodePassing text := rfl
    rw [hbytes]
    cases code with
    | char c =>
      rw [encodeCode, decodeFrom_encodeChar, ih, List.reverse_cons, List.append_assoc,
        List.singleton_append]
    | lone offset =>
      rw [decodeFrom_encodeLone, ih, List.reverse_cons, List.append_assoc, List.singleton_append]

/-- What was encoded is decoded. -/
theorem decode_encode (text : String) : decode (encode text) = .ok text := by
  rw [decode, encode, decodeFrom_encodeChars, List.reverse_nil, List.nil_append, Except.map,
    chars_ofChars, String.ofList_toList]

/-- The bytes of a string are the same whether surrogates are let through or not. -/
theorem encodePassing_ofString (s : String) : encodePassing (ofString s) = encode s := by
  rw [encodePassing, ofString, ofChars, List.flatMap_map, encode]
  rfl

/-! ### Texts that announce nothing -/

theorem encodeChar_ascii {c : Char} (h : c.toNat < 0x80) :
    String.utf8EncodeChar c = [UInt8.ofNat c.toNat] := by
  unfold String.utf8EncodeChar
  exact if_pos (Nat.le_of_lt_succ h)

/-- Bytes without zeros of which the first one is ASCII announce nothing but themselves. -/
theorem announced_of_ascii {first : UInt8} {rest : List UInt8} (hfirst : first < 0x80)
    (h : ∀ b ∈ first :: rest, b ≠ 0) : Announced.of (first :: rest) = .utf8 := by
  have hzero : ∀ b ∈ first :: rest, ((0 : UInt8) == b) = false ∧ (b == (0 : UInt8)) = false := fun b hb =>
    ⟨beq_false_of_ne (h b hb).symm, beq_false_of_ne (h b hb)⟩
  have hmark : ∀ mark : UInt8, ¬ mark < 0x80 → (mark == first) = false :=
    fun mark hm => beq_false_of_ne fun heq => hm (heq ▸ hfirst)
  have hff := hmark 0xff (by decide)
  have hfe := hmark 0xfe (by decide)
  have hef := hmark 0xef (by decide)
  match rest with
  | [] => simp_all [Announced.of, List.isPrefixOf]
  | [b] => simp_all [Announced.of, List.isPrefixOf]
  | [b, c] => simp_all [Announced.of, List.isPrefixOf]
  | b :: c :: d :: rest => simp_all [Announced.of, List.isPrefixOf]

/-- A surrogate, or an ASCII character other than the zero. -/
def Unmarked : Code → Prop
  | .char c => 0 < c.toNat ∧ c.toNat < 0x80
  | .lone _ => True

theorem ne_zero_of_unmarked {code : Code} (h : Unmarked code) : ∀ b ∈ encodeCode code, b ≠ 0 := by
  intro b hb hzero
  cases code with
  | char c =>
    rw [encodeCode, encodeChar_ascii h.2] at hb
    have hn := toNat_ofNat_of_lt (show c.toNat < 256 from Nat.lt_trans h.2 (by decide))
    rw [← List.mem_singleton.mp hb, hzero] at hn
    exact absurd hn.symm (Nat.ne_of_gt h.1)
  | lone offset =>
    have hlater : ∀ n, UInt8.ofNat (n % 0x40 + 0x80) ≠ 0 := by
      intro n hlater
      have hn := toNat_ofNat_of_lt (show n % 0x40 + 0x80 < 256 by omega)
      rw [hlater] at hn
      exact absurd hn (by simp)
    simp only [encodeCode, List.mem_cons, List.not_mem_nil, or_false] at hb
    rcases hb with rfl | rfl | rfl
    · exact absurd hzero (by decide)
    · exact hlater _ hzero
    · exact hlater _ hzero

/-- A text of ASCII and surrogates is read back without a word about its encoding, if it begins with a
character. -/
theorem decodeAnnounced_unmarked {c : Char} {rest : Text} (h : ∀ code ∈ .char c :: rest, Unmarked code) :
    decodeAnnounced (encodePassing (.char c :: rest)) = .ok (.char c :: rest) := by
  have hc : Unmarked (.char c) := h _ List.mem_cons_self
  have hbytes : encodePassing (.char c :: rest) = UInt8.ofNat c.toNat :: encodePassing rest := by
    rw [encodePassing, List.flatMap_cons, encodeCode, encodeChar_ascii hc.2]
    rfl
  have hzero : ∀ b ∈ UInt8.ofNat c.toNat :: encodePassing rest, b ≠ 0 := by
    rw [← hbytes]
    intro b hb
    obtain ⟨code, hcode, hbcode⟩ := List.mem_flatMap.mp hb
    exact ne_zero_of_unmarked (h code hcode) b hbcode
  have hfirst : UInt8.ofNat c.toNat < 0x80 := by
    rw [UInt8.lt_iff_toNat_lt, toNat_ofNat_of_lt (show c.toNat < 256 from Nat.lt_trans hc.2 (by decide))]
    exact hc.2
  have hannounced : Announced.of (encodePassing (.char c :: rest)) = .utf8 := by
    rw [hbytes, announced_of_ascii hfirst hzero]
  rw [decodeAnnounced, hannounced]
  exact decodeFrom_encodePassing (.char c :: rest) 0 []

end SourceTree.Text.Utf8
