import Mathlib.Data.List.TakeWhile
import SourceTree.Json.Reader
import SourceTree.Json.Writer

/-!
# Written numbers and strings

An integer and a string are read back from their written forms, whatever text follows a string and
whatever may follow a value an integer.
-/
namespace SourceTree.Json

/-! ### Integers -/

/-- What may follow a value that is written. -/
def Closed (rest : Text) : Prop :=
  ∀ code more, rest = code :: more → code = .char ',' ∨ code = .char ']' ∨ code = .char '\x7d'

variable {rest : Text}

theorem ofDigits_toDigits (n : Nat) : ofDigits (Nat.toDigits 10 n) = n := by
  have hstep : (fun (n : Nat) (c : Char) => n * 10 + (c.toNat - 48)) =
      fun n c => 10 * n + (c.toNat - '0'.toNat) := by
    funext n c
    rw [Nat.mul_comm]
    rfl
  rw [ofDigits, hstep]
  exact Nat.ofDigitChars_ten_toDigits

theorem isDigit_of_mem_toDigits {n : Nat} {c : Char} (h : c ∈ Nat.toDigits 10 n) : c.isDigit :=
  Nat.isDigit_of_mem_toDigits (by decide) (by decide) h

/-- Only zero is written with a zero in front, and nothing follows it there. -/
theorem toDigits_eq_cons (n : Nat) : ∃ d more, Nat.toDigits 10 n = d :: more ∧ d.isDigit = true ∧
    (d = '0' → more = [] ∧ n = 0) := by
  induction n using Nat.strongRecOn with
  | _ n ih =>
    by_cases hn : n < 10
    · have hdigits : Nat.toDigits 10 n = [n.digitChar] := Nat.toDigits_of_lt_base hn
      refine ⟨n.digitChar, [], hdigits, ?_, fun hzero => ⟨rfl, ?_⟩⟩
      · apply isDigit_of_mem_toDigits (n := n)
        rw [hdigits]
        exact List.mem_cons_self
      · have hcode : n.digitChar.toNat = 48 + n := Nat.toNat_digitChar_of_lt_ten hn
        rw [hzero] at hcode
        have h48 : '0'.toNat = 48 := rfl
        omega
    · obtain ⟨d, more, hdigits, hd, hzero⟩ := ih (n / 10) (by omega)
      -- the number without its last digit is not zero, so it does not begin with one
      have hfirst : d ≠ '0' := by
        intro h
        have := (hzero h).2
        omega
      refine ⟨d, more ++ [(n % 10).digitChar], ?_, hd, fun h => absurd h hfirst⟩
      rw [Nat.toDigits_of_base_le (by decide) (by omega), hdigits, List.cons_append]

/-- What follows a value does not go on with a number. -/
theorem Closed.splitFront (h : Closed rest) : rest.splitFront isNumeric = ([], rest) := by
  cases rest with
  | nil => rfl
  | cons code more => rcases h code more rfl with rfl | rfl | rfl <;> rfl

/-- The front of a text goes on as long as a number may. -/
theorem splitFront_ofChars (h : Closed rest) {chars : List Char} (hchars : ∀ c ∈ chars, isNumeric c = true) :
    (Text.ofChars chars ++ rest).splitFront isNumeric = (chars, rest) := by
  induction chars with
  | nil => exact h.splitFront
  | cons c chars ih =>
    have hrest := ih fun d hd => hchars d (List.mem_cons_of_mem _ hd)
    rw [Text.ofChars_cons, List.cons_append, Text.splitFront, if_pos (hchars c List.mem_cons_self), hrest]

/-- The numeral that a written integer is. -/
def numeralOf (n : Int) : Numeral := ⟨decide (n < 0), Nat.toDigits 10 n.natAbs, [], none⟩

theorem toInt_numeralOf (n : Int) : (numeralOf n).toInt = n := by
  by_cases hn : n < 0
  · simp only [numeralOf, Numeral.toInt, ofDigits_toDigits, hn, decide_true, ↓reduceIte]
    omega
  · simp only [numeralOf, Numeral.toInt, ofDigits_toDigits, hn, decide_false, Bool.false_eq_true,
      ↓reduceIte]
    omega

/-- A written integer begins with its sign or a digit. -/
theorem writtenInt_eq_cons (n : Int) :
    ∃ c more, writtenInt n = c :: more ∧ (c = '-' ∨ c.isDigit = true) := by
  obtain ⟨d, more, hdigits, hd, -⟩ := toDigits_eq_cons n.natAbs
  by_cases hn : n < 0
  · exact ⟨'-', d :: more, by rw [writtenInt, if_pos hn, hdigits], .inl rfl⟩
  · exact ⟨d, more, by rw [writtenInt, if_neg hn, hdigits], .inr hd⟩

theorem isDigit_ne {c d : Char} (hc : c.isDigit) (hd : d.isDigit = false) : c ≠ d := by
  rintro rfl
  rw [hc] at hd
  nomatch hd

theorem isNumeric_of_isDigit {c : Char} (h : c.isDigit = true) : isNumeric c = true := by
  simp only [isNumeric, h, Bool.true_or]

theorem isNumeric_writtenInt (n : Int) : ∀ c ∈ writtenInt n, isNumeric c = true := by
  intro c hc
  unfold writtenInt at hc
  split at hc
  · rcases List.mem_cons.mp hc with rfl | hc
    · rfl
    · exact isNumeric_of_isDigit (isDigit_of_mem_toDigits hc)
  · exact isNumeric_of_isDigit (isDigit_of_mem_toDigits hc)

/-- A written integer is a number, to its end. -/
theorem scanNumber_writtenInt (n : Int) : scanNumber (writtenInt n) = some (numeralOf n, []) := by
  obtain ⟨d, more, hdigits, hd, hzero⟩ := toDigits_eq_cons n.natAbs
  have hall : ∀ c ∈ d :: more, c.isDigit := by
    rw [← hdigits]
    exact fun c => isDigit_of_mem_toDigits
  have hmore : ∀ c ∈ more, c.isDigit := fun c hc => hall c (List.mem_cons_of_mem _ hc)
  have htake : (if d = '0' then [] else more.takeWhile Char.isDigit) = more := by
    split
    · rename_i heq
      exact (hzero heq).1.symm
    · exact List.takeWhile_eq_self_iff.mpr hmore
  have hdrop : (if d = '0' then more else more.dropWhile Char.isDigit) = [] := by
    split
    · rename_i heq
      exact (hzero heq).1
    · exact List.dropWhile_eq_nil_iff.mpr hmore
  have hdash : d ≠ '-' := isDigit_ne hd rfl
  unfold scanNumber writtenInt
  by_cases hn : n < 0
  · simp [hn, hdigits, hd, htake, hdrop, scanFraction, scanExponent, numeralOf]
  · simp [hn, hdigits, hdash, hd, htake, hdrop, scanFraction, scanExponent, numeralOf]

theorem isInteger_numeralOf (n : Int) : (numeralOf n).isInteger = true := rfl

/-- A written integer is read, unless it has too many digits. No name begins like one. -/
theorem scalar_writtenInt_eq (n : Int) (h : Closed rest) : scalar (Text.ofChars (writtenInt n) ++ rest) =
    if maxIntegerDigits < (Nat.toDigits 10 n.natAbs).length then
      .error (.longInteger (Nat.toDigits 10 n.natAbs).length)
    else .ok (.int n, rest) := by
  obtain ⟨d, more, hdigits, hd, -⟩ := toDigits_eq_cons n.natAbs
  have hname : ∀ c : Char, c.isDigit = false → (Code.char c == Code.char d) = false :=
    fun c hc => beq_false_of_ne fun heq => isDigit_ne hd hc (Code.char.inj heq).symm
  have hfront := splitFront_ofChars h (isNumeric_writtenInt n)
  have hwhole : (numeralOf n).whole = Nat.toDigits 10 n.natAbs := rfl
  unfold scalar
  simp only [hfront, scanNumber_writtenInt, isInteger_numeralOf, hwhole, toInt_numeralOf]
  by_cases hn : n < 0
  · have htext : Text.ofChars (writtenInt n) ++ rest = .char '-' :: .char d :: (Text.ofChars more ++ rest) := by
      simp [writtenInt, hn, hdigits]
    simp [htext, hname, Text.begins, Text.ofString, List.isPrefixOf]
  · have htext : Text.ofChars (writtenInt n) ++ rest = .char d :: (Text.ofChars more ++ rest) := by
      simp [writtenInt, hn, hdigits]
    simp [htext, hname, Text.begins, Text.ofString, List.isPrefixOf]

theorem scalar_writtenInt (n : Int) (hlength : (Nat.toDigits 10 n.natAbs).length ≤ maxIntegerDigits)
    (h : Closed rest) : scalar (Text.ofChars (writtenInt n) ++ rest) = .ok (.int n, rest) := by
  rw [scalar_writtenInt_eq n h, if_neg (Nat.not_lt.mpr hlength)]

/-! ### Strings -/

theorem hexDigit?_digitChar : ∀ n < 16, hexDigit? n.digitChar = some n := by decide

theorem hexUnit?_unitDigits {unit : Nat} (h : unit < 0x10000) :
    hexUnit? ((unit / 4096) % 16).digitChar ((unit / 256) % 16).digitChar
      ((unit / 16) % 16).digitChar (unit % 16).digitChar = some unit := by
  have hdigit : ∀ n, hexDigit? (n % 16).digitChar = some (n % 16) :=
    fun n => hexDigit?_digitChar _ (Nat.mod_lt n (by decide))
  have hunit : (((unit / 4096) % 16 * 16 + (unit / 256) % 16) * 16 + (unit / 16) % 16) * 16 +
      unit % 16 = unit := by omega
  unfold hexUnit?
  rw [hdigit, hdigit, hdigit, hdigit]
  exact congrArg some hunit

variable {opening acc : Text} {held : Option Nat}

theorem stringFrom_quote : stringFrom opening (.char '\x22' :: rest) none acc =
    .ok (acc.reverse, rest) := by
  rw [stringFrom.eq_def]
  rfl

theorem stringFrom_escapeUnit {unit : Nat} (h : unit < 0x10000) (next : Code) :
    stringFrom opening (Text.ofChars (escapeUnit unit) ++ next :: rest) held acc =
      stringFrom opening (next :: rest) (Text.pushUnit unit held acc).1
        (Text.pushUnit unit held acc).2 := by
  rw [stringFrom.eq_def]
  simp [escapeUnit, unitDigits, hexUnit?_unitDigits h]

/-- A character of one code unit is not held back. -/
theorem pushUnit_char {c : Char} (hbmp : c.toNat < 0x10000) :
    Text.pushUnit c.toNat none acc = (none, .char c :: acc) := by
  have hvalid : c.toNat < 0xd800 ∨ 0xdfff < c.toNat := by
    rcases c.valid with h | h
    · exact .inl h
    · exact .inr h.1
  have hlow : Text.isLowSurrogate c.toNat = false := by
    simp only [Text.isLowSurrogate, Bool.and_eq_false_iff, decide_eq_false_iff_not]
    omega
  have hhigh : Text.isHighSurrogate c.toNat = false := by
    simp only [Text.isHighSurrogate, Bool.and_eq_false_iff, decide_eq_false_iff_not]
    omega
  simp [Text.pushUnit, hlow, hhigh, Code.ofNat_toNat]

theorem pushUnit_high {unit : Nat} (hhigh : Text.isHighSurrogate unit = true)
    (hlow : Text.isLowSurrogate unit = false) :
    Text.pushUnit unit none acc = (some unit, acc) := by
  simp [Text.pushUnit, hlow, hhigh]

theorem pushUnit_low {unit high : Nat} (hlow : Text.isLowSurrogate unit = true) :
    Text.pushUnit unit (some high) acc = (none, .char (Text.joinSurrogates high unit) :: acc) := by
  simp [Text.pushUnit, hlow]

/-- The two code units of a character beyond U+FFFF make that character. -/
theorem pushUnit_pair (acc : Text) {c : Char} (hbeyond : 0x10000 ≤ c.toNat) :
    let high := 0xd800 + (c.toNat - 0x10000) / 0x400
    let low := 0xdc00 + (c.toNat - 0x10000) % 0x400
    Text.pushUnit high none acc = (some high, acc) ∧
      Text.pushUnit low (some high) acc = (none, .char c :: acc) ∧ high < 0x10000 ∧ low < 0x10000 := by
  intro high low
  have hmax : c.toNat < 0x110000 := by
    rcases c.valid with h | h
    · exact Nat.lt_trans h (by decide)
    · exact h.2
  have hhigh : Text.isHighSurrogate high = true := by
    simp only [Text.isHighSurrogate, Bool.and_eq_true, decide_eq_true_eq]
    omega
  have hnotLow : Text.isLowSurrogate high = false := by
    simp only [Text.isLowSurrogate, Bool.and_eq_false_iff, decide_eq_false_iff_not]
    omega
  have hlow : Text.isLowSurrogate low = true := by
    simp only [Text.isLowSurrogate, Bool.and_eq_true, decide_eq_true_eq]
    omega
  have hjoin : Text.joinSurrogates high low = c := by
    have hcode : 0x10000 + (high - 0xd800) * 0x400 + (low - 0xdc00) = c.toNat := by omega
    rw [Text.joinSurrogates, hcode, Char.ofNat_toNat]
  refine ⟨pushUnit_high hhigh hnotLow, ?_, by omega, by omega⟩
  rw [pushUnit_low hlow, hjoin]

theorem stringFrom_short {e c : Char} (h : unescape? e = some c) (hunit : (e == 'u') = false) :
    stringFrom opening (.char '\x5c' :: .char e :: rest) none acc =
      stringFrom opening rest none (.char c :: acc) := by
  rw [stringFrom.eq_def]
  simp [hunit, h, Text.flushUnits]

/-- A written character is read as itself, and none is held back. -/
theorem stringFrom_escapeChar (c : Char) (next : Code) :
    stringFrom opening (Text.ofChars (escapeChar c) ++ next :: rest) none acc =
      stringFrom opening (next :: rest) none (.char c :: acc) := by
  unfold escapeChar
  split
  · rename_i h
    rcases Bool.or_eq_true_iff.mp h with h | h <;> obtain rfl := eq_of_beq h <;>
      exact stringFrom_short rfl (by decide)
  split
  · rename_i h
    obtain rfl := eq_of_beq h
    exact stringFrom_short rfl (by decide)
  split
  · rename_i h
    obtain rfl := eq_of_beq h
    exact stringFrom_short rfl (by decide)
  split
  · rename_i h
    obtain rfl := eq_of_beq h
    exact stringFrom_short rfl (by decide)
  split
  · rename_i h
    obtain rfl := eq_of_beq h
    exact stringFrom_short rfl (by decide)
  split
  · rename_i h
    obtain rfl := eq_of_beq h
    exact stringFrom_short rfl (by decide)
  split
  · rename_i hquote _ _ _ _ _ hplain
    obtain ⟨hq, hb⟩ := Bool.or_eq_false_iff.mp (Bool.eq_false_iff.mpr hquote)
    have hcontrol : ¬ c.toNat < 0x20 := by
      simp only [Bool.and_eq_true, decide_eq_true_eq] at hplain
      omega
    rw [Text.ofChars_cons, Text.ofChars_nil, List.singleton_append, stringFrom.eq_def]
    simp [hq, hb, hcontrol, Text.flushUnits]
  split
  · rename_i hbmp
    rw [stringFrom_escapeUnit hbmp, pushUnit_char hbmp]
  · rename_i hbmp
    obtain ⟨hhigh, hlow, hhighLt, hlowLt⟩ := pushUnit_pair acc (Nat.not_lt.mp hbmp)
    rw [Text.ofChars_append, List.append_assoc]
    -- the second unit begins with a backslash, so something follows the first one
    change stringFrom opening (Text.ofChars (escapeUnit _) ++
      .char '\x5c' :: (Text.ofChars ('u' :: unitDigits _) ++ next :: rest)) _ _ = _
    rw [stringFrom_escapeUnit hhighLt, hhigh]
    change stringFrom opening (Text.ofChars (escapeUnit _) ++ next :: rest) _ _ = _
    rw [stringFrom_escapeUnit hlowLt, hlow]

/-- A surrogate that stands alone is read as itself. -/
theorem stringFrom_lone (offset : Fin 0x800) :
    stringFrom opening (.lone offset :: rest) none acc = stringFrom opening rest none (.lone offset :: acc) := by
  rw [stringFrom.eq_def]
  rfl

theorem stringFrom_escapeCode (code next : Code) :
    stringFrom opening (escapeCode code ++ next :: rest) none acc =
      stringFrom opening (next :: rest) none (code :: acc) := by
  cases code with
  | char c => exact stringFrom_escapeChar c next
  | lone offset => exact stringFrom_lone offset

theorem stringFrom_written (text : Text) :
    stringFrom opening (text.flatMap escapeCode ++ .char '\x22' :: rest) none acc =
      .ok (acc.reverse ++ text, rest) := by
  induction text generalizing acc with
  | nil =>
    rw [List.append_nil]
    exact stringFrom_quote
  | cons code text ih =>
    have hnext : ∃ next more, text.flatMap escapeCode ++ .char '\x22' :: rest = next :: more := by
      cases text.flatMap escapeCode with
      | nil => exact ⟨_, _, rfl⟩
      | cons d more => exact ⟨_, _, rfl⟩
    obtain ⟨next, more, hnext⟩ := hnext
    have ih' := @ih (code :: acc)
    rw [hnext] at ih'
    rw [List.flatMap_cons, List.append_assoc, hnext, stringFrom_escapeCode, ih', List.reverse_cons,
      List.append_assoc, List.singleton_append]

/-- A written string is read on from its opening quote. -/
theorem stringFrom_writtenString (s : Text) :
    stringFrom opening (s.flatMap escapeCode ++ .char '\x22' :: rest) none [] = .ok (s, rest) := by
  rw [stringFrom_written, List.reverse_nil, List.nil_append]

end SourceTree.Json
