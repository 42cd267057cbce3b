/-!
# Texts

What a payload may hold between quotes: characters and, where a payload spells half of a surrogate
pair, that half by itself. A text without such halves is a string, and only a string has a UTF-8 form.
-/
namespace SourceTree

/-- A code point of a text. -/
inductive Code where
  | char (c : Char)
  /-- The surrogate U+D800 + `offset`, standing alone. -/
  | lone (offset : Fin 0x800)
  deriving DecidableEq

/-- A text, code point by code point. -/
abbrev Text := List Code

namespace Code

/-- The code point of a number. -/
def ofNat (n : Nat) : Code :=
  if h : 0xd800 ≤ n ∧ n < 0xe000 then .lone ⟨n - 0xd800, by omega⟩ else .char (Char.ofNat n)

/-- The number of a surrogate. -/
def surrogate (offset : Fin 0x800) : Nat := 0xd800 + offset

def char? : Code → Option Char
  | .char c => some c
  | .lone _ => none

def isChar : Code → Bool
  | .char _ => true
  | .lone _ => false

/-- A character is the code point of its number. -/
theorem ofNat_toNat (c : Char) : ofNat c.toNat = .char c := by
  have hvalid : c.toNat < 0xd800 ∨ 0xdfff < c.toNat := by
    rcases c.valid with h | h
    · exact .inl h
    · exact .inr h.1
  have hrange : ¬ (0xd800 ≤ c.toNat ∧ c.toNat < 0xe000) := by omega
  rw [ofNat, dif_neg hrange, Char.ofNat_toNat]

/-- A surrogate is the code point of its number. -/
theorem ofNat_surrogate (offset : Fin 0x800) : ofNat (surrogate offset) = .lone offset := by
  have hrange : 0xd800 ≤ surrogate offset ∧ surrogate offset < 0xe000 := by
    unfold surrogate
    omega
  rw [ofNat, dif_pos hrange]
  exact congrArg lone (Fin.ext (Nat.add_sub_cancel_left 0xd800 offset))

end Code

namespace Text

def ofChars (chars : List Char) : Text := chars.map .char

/-- A string as a text. -/
def ofString (s : String) : Text := ofChars s.toList

instance : Coe String Text := ⟨ofString⟩

/-- No surrogate stands alone in the text. -/
def isPlain (text : Text) : Bool := text.all Code.isChar

/-- The characters of the text, surrogates that stand alone left out. -/
def chars (text : Text) : List Char := text.filterMap Code.char?

/-- The string that the text is, if it is one. -/
def plain? (text : Text) : Option String :=
  if text.isPlain then some (String.ofList text.chars) else none

/-- The text is one of the names. -/
def isIn (names : List String) (text : Text) : Bool := text.plain?.any names.contains

/-- The value of the name that the text is. -/
def lookupIn {α : Type} (table : List (String × α)) (text : Text) : Option α :=
  text.plain?.bind fun name => table.lookup name

/-- The characters at the front that satisfy `p`, and the rest. -/
def splitFront (p : Char → Bool) : Text → List Char × Text
  | .char c :: rest =>
    if p c then
      match splitFront p rest with
      | (front, rest) => (c :: front, rest)
    else ([], .char c :: rest)
  | text => ([], text)

/-! ### Strings as texts -/

@[simp] theorem ofChars_nil : ofChars [] = [] := rfl

@[simp] theorem ofChars_cons (c : Char) (chars : List Char) :
    ofChars (c :: chars) = .char c :: ofChars chars := rfl

@[simp] theorem ofChars_append (front back : List Char) :
    ofChars (front ++ back) = ofChars front ++ ofChars back := List.map_append

@[simp] theorem ofString_append (front back : String) :
    ofString (front ++ back) = ofString front ++ ofString back := by
  rw [ofString, String.toList_append, ofChars_append]
  rfl

@[simp] theorem ofString_ofList (chars : List Char) : ofString (String.ofList chars) = ofChars chars := by
  rw [ofString, String.toList_ofList]

@[simp] theorem length_ofString (s : String) : (ofString s).length = s.length := by
  rw [ofString, ofChars, List.length_map, String.length_toList]

theorem chars_ofChars (chars : List Char) : Text.chars (ofChars chars) = chars := by
  induction chars with
  | nil => rfl
  | cons c chars ih => exact congrArg (List.cons c) ih

theorem isPlain_ofChars (chars : List Char) : isPlain (ofChars chars) = true := by
  induction chars with
  | nil => rfl
  | cons c chars ih => exact ih

/-- A string is the string that it is. -/
@[simp] theorem plain?_ofString (s : String) : (ofString s).plain? = some s := by
  rw [plain?, ofString, isPlain_ofChars, if_pos rfl, chars_ofChars, String.ofList_toList]

/-- A text of characters is made of its characters. -/
theorem ofChars_chars {text : Text} (h : text.isPlain = true) : ofChars text.chars = text := by
  induction text with
  | nil => rfl
  | cons code text ih =>
    cases code with
    | char c => exact congrArg (List.cons (.char c)) (ih h)
    | lone offset => nomatch h

/-- Exactly the strings are plain. -/
theorem plain?_eq_some_iff {text : Text} {s : String} : text.plain? = some s ↔ text = ofString s := by
  constructor
  · intro h
    unfold plain? at h
    split at h
    · rename_i hplain
      obtain rfl := Option.some.inj h
      rw [ofString_ofList, ofChars_chars hplain]
    · nomatch h
  · rintro rfl
    exact plain?_ofString s

theorem lookupIn_eq_some_iff {α : Type} {table : List (String × α)} {text : Text} {a : α} :
    text.lookupIn table = some a ↔ ∃ name : String, text = ofString name ∧ table.lookup name = some a := by
  simp only [lookupIn, Option.bind_eq_some_iff, plain?_eq_some_iff]

/-- Exactly the strings are without surrogates that stand alone. -/
theorem isPlain_iff {text : Text} : text.isPlain = true ↔ ∃ s : String, text = ofString s := by
  constructor
  · intro h
    exact ⟨String.ofList text.chars, by rw [ofString_ofList, ofChars_chars h]⟩
  · rintro ⟨s, rfl⟩
    exact isPlain_ofChars s.toList

@[simp] theorem ofString_inj {s s' : String} : ofString s = ofString s' ↔ s = s' := by
  constructor
  · intro h
    have hplain := plain?_ofString s
    rw [h, plain?_ofString] at hplain
    exact (Option.some.inj hplain).symm
  · rintro rfl
    rfl

@[simp] theorem ofString_beq (s s' : String) : (ofString s == ofString s') = (s == s') := by
  rw [Bool.eq_iff_iff, beq_iff_eq, beq_iff_eq, ofString_inj]

@[simp] theorem ofString_eq_nil_iff {s : String} : ofString s = [] ↔ s = "" :=
  @ofString_inj s ""

end Text
end SourceTree
