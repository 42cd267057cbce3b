import SourceTree.Text.Basic
import SourceTree.Text.Printable

/-!
# Quoted text

A text between quotes, on one line and in printable characters. The quotes are single, unless the
text holds single quotes and no double ones. The error stream shows a text as it is, but for surrogates
that stand alone.
-/
namespace SourceTree.Text

/-- The number in hexadecimal, with zeros in front up to `width` digits. -/
def hex (width n : Nat) : List Char :=
  let digits := Nat.toDigits 16 n
  List.replicate (width - digits.length) '0' ++ digits

/-- The quote that goes around the text: the single one if it need not be escaped for that. -/
def quoteFor (text : Text) : Char :=
  if text.contains (.char '\x27') && !text.contains (.char '\x22') then '\x22' else '\x27'

/-- How a surrogate that stands alone is named. -/
def surrogateName (offset : Fin 0x800) : List Char := '\x5c' :: 'u' :: hex 4 (Code.surrogate offset)

/-- One character between quotes. A backslash and the quote in use get a backslash in front; what is
not printable is named by its code point in two, four or eight digits. -/
def escape (quote c : Char) : List Char :=
  if c == quote || c == '\x5c' then ['\x5c', c]
  else if c == '\t' then ['\x5c', 't']
  else if c == '\n' then ['\x5c', 'n']
  else if c == '\r' then ['\x5c', 'r']
  else if isPrintable c then [c]
  else if c.toNat < 0x100 then '\x5c' :: 'x' :: hex 2 c.toNat
  else if c.toNat < 0x10000 then '\x5c' :: 'u' :: hex 4 c.toNat
  else '\x5c' :: 'U' :: hex 8 c.toNat

/-- One code point between quotes. -/
def escapeCode (quote : Char) : Code → List Char
  | .char c => escape quote c
  | .lone offset => surrogateName offset

/-- The text between quotes. -/
def quoted (text : Text) : String :=
  let quote := quoteFor text
  String.ofList (quote :: text.flatMap (escapeCode quote) ++ [quote])

def shownCode : Code → List Char
  | .char c => [c]
  | .lone offset => surrogateName offset

/-- The text as the error stream shows it: surrogates that stand alone are named. -/
def shown (text : Text) : String := String.ofList (text.flatMap shownCode)

end SourceTree.Text
