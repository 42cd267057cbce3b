import SourceTree.Json.Basic

/-!
# JSON numbers

A number is an integer, unless a fraction or an exponent follows it. What follows an integer but is
no complete fraction or exponent is left for the reader to complain about.
-/
namespace SourceTree.Json

/-- The parts of a number as they are written. -/
structure Numeral where
  negative : Bool
  whole : List Char
  fraction : List Char
  /-- The sign and the digits of the exponent. -/
  exponent : Option (Bool × List Char)

/-- The number that the digits write. -/
def ofDigits (digits : List Char) : Nat :=
  digits.foldl (fun n c => n * 10 + (c.toNat - 48)) 0

/-- The fraction at the front: a point and at least one digit. -/
def scanFraction : List Char → List Char × List Char
  | '.' :: rest =>
    let digits := rest.takeWhile Char.isDigit
    if digits.isEmpty then ([], '.' :: rest) else (digits, rest.dropWhile Char.isDigit)
  | text => ([], text)

/-- The exponent at the front: its letter, a sign if there is one, and at least one digit. -/
def scanExponent : List Char → Option (Bool × List Char) × List Char
  | [] => (none, [])
  | e :: rest =>
    if e == 'e' || e == 'E' then
      let (negative, body) :=
        match rest with
        | '-' :: body => (true, body)
        | '+' :: body => (false, body)
        | body => (false, body)
      let digits := body.takeWhile Char.isDigit
      if digits.isEmpty then (none, e :: rest)
      else (some (negative, digits), body.dropWhile Char.isDigit)
    else (none, e :: rest)

/-- The number at the front of a text and what follows it, if there is one. The whole part has no
zeros in front. -/
def scanNumber (text : List Char) : Option (Numeral × List Char) :=
  let (negative, body) :=
    match text with
    | '-' :: body => (true, body)
    | body => (false, body)
  match body with
  | [] => none
  | d :: rest =>
    if d.isDigit then
      let more := if d == '0' then [] else rest.takeWhile Char.isDigit
      let rest := if d == '0' then rest else rest.dropWhile Char.isDigit
      let (fraction, rest) := scanFraction rest
      let (exponent, rest) := scanExponent rest
      some (⟨negative, d :: more, fraction, exponent⟩, rest)
    else none

/-- The number has neither fraction nor exponent. -/
def Numeral.isInteger (n : Numeral) : Bool := n.fraction.isEmpty && n.exponent.isNone

/-- The integer, fraction and exponent apart. Minus zero is zero. -/
def Numeral.toInt (n : Numeral) : Int :=
  if n.negative then -(ofDigits n.whole : Int) else ofDigits n.whole

/-- The number nearest to what is written. -/
def Numeral.toBinary64 (n : Numeral) : Decimal.Binary64 :=
  let exponent : Int :=
    match n.exponent with
    | none => 0
    | some (negative, digits) =>
      if negative then -(ofDigits digits : Int) else ofDigits digits
  .ofDecimal n.negative (ofDigits (n.whole ++ n.fraction)) (exponent - n.fraction.length)

end SourceTree.Json
