import SourceTree.Text.Basic

/-!
# Trivia

White space and comments that belong to a token. A piece of white space is a spelling repeated a
number of times; a comment has its own text.
-/
namespace SourceTree

/-- A piece of white space or a comment. -/
structure Trivia where
  kind : String
  text : Text
  deriving DecidableEq

namespace Trivia

/-- Kinds that a payload counts, with the spelling of one repetition. -/
def counted : List (String × String) := [
  ("Space", " "), ("Tab", "\t"), ("VerticalTab", "\x0b"), ("Formfeed", "\x0c"), ("Newline", "\n"),
  ("CarriageReturn", "\r"), ("CarriageReturnLineFeed", "\r\n"), ("Backtick", "\x60")]

/-- Kinds that carry their own text. -/
def textKinds : List String :=
  ["LineComment", "BlockComment", "DocLineComment", "DocBlockComment", "GarbageText"]

/-- The spelling of one repetition of a counted kind. -/
def spelling? (kind : String) : Option String := counted.lookup kind

/-- The text `count` times over. -/
def repeated (text : String) (count : Nat) : String := Nat.repeat (· ++ text) count ""

/-- No repetition is the empty text. -/
theorem repeated_zero (text : String) : repeated text 0 = "" := rfl

/-- One repetition more comes last. -/
theorem repeated_succ (text : String) (count : Nat) :
    repeated text (count + 1) = repeated text count ++ text := rfl

/-- Every repetition has all the characters of the text. -/
theorem length_repeated (text : String) (count : Nat) :
    (repeated text count).length = count * text.length := by
  induction count with
  | zero => simp [repeated_zero]
  | succ count ih => rw [repeated_succ, String.length_append, ih, Nat.succ_mul]

/-- Counts and lengths lie below this bound. A count may also be negative, down to the bound's
opposite. -/
def countBound : Nat := 1 <<< 63

/-- The longest repeated text that fits in memory, by its characters: each takes a byte, and there
are 64 GiB. -/
def maxRepeated : Nat := 1 <<< 36

/-- Why a text is not repeated. -/
inductive RepeatError where
  /-- The count is out of the range of counts. -/
  | outOfRange
  /-- The length of the result is out of that range. -/
  | tooLong
  /-- The result does not fit in memory. -/
  | outOfMemory
  deriving DecidableEq

/-- The wording of an error. There is none for a lack of memory. -/
def RepeatError.message : RepeatError → String
  | .outOfRange => "cannot fit 'int' into an index-sized integer"
  | .tooLong => "repeated string is too long"
  | .outOfMemory => ""

/-- The text so many times over, if it can be built; a negative count gives no text. -/
def repeat? (text : String) (count : Int) : Except RepeatError String :=
  if count < -countBound || (countBound : Int) ≤ count then .error .outOfRange
  else if countBound ≤ count.toNat * text.length then .error .tooLong
  else if maxRepeated < count.toNat * text.length then .error .outOfMemory
  else .ok (repeated text count.toNat)

/-- A text that fits in memory is built. -/
theorem repeat?_natCast {text : String} {count : Nat} (h : count < countBound)
    (fits : count * text.length ≤ maxRepeated) :
    repeat? text count = .ok (repeated text count) := by
  have hmax : maxRepeated < countBound := by decide
  have hrange : ¬ ((count : Int) < -countBound) := by omega
  have hupper : ¬ ((countBound : Int) ≤ count) := by omega
  unfold repeat?
  rw [Int.toNat_natCast]
  simp [hrange, hupper, Nat.not_le.2 (Nat.lt_of_le_of_lt fits hmax), Nat.not_lt.2 fits]

/-- Why a piece cannot be built from a kind and a count. -/
inductive CountError where
  | unknownKind (kind : String)
  | repetition (cause : RepeatError)
  deriving DecidableEq

/-- The piece of a counted kind. -/
def ofCount (kind : String) (count : Int) : Except CountError Trivia :=
  match spelling? kind with
  | none => .error (.unknownKind kind)
  | some text =>
    match repeat? text count with
    | .error cause => .error (.repetition cause)
    | .ok text => .ok ⟨kind, text⟩

end Trivia
end SourceTree
