/-!
# Binary64 numbers

Floating point numbers of 53 significant bits as exact values, and the one of them that is nearest to
a decimal. All arithmetic is on natural numbers, so nothing is lost on the way.
-/
namespace SourceTree.Decimal

/-- A binary64 number. A finite one is `significand * 2 ^ exponent`; its significand has 53 bits,
or fewer if the exponent is the least one, -1074. -/
inductive Binary64 where
  | finite (negative : Bool) (significand : Nat) (exponent : Int)
  | infinite (negative : Bool)
  | nan
  deriving DecidableEq

/-- The number is zero, of either sign. -/
def Binary64.isZero : Binary64 → Bool
  | .finite _ significand _ => significand == 0
  | _ => false

/-- The integer nearest to `num / den`; a tie goes to the even one. -/
def divEven (num den : Nat) : Nat :=
  let q := num / den
  let r := num % den
  if 2 * r < den then q
  else if den < 2 * r then q + 1
  else if q % 2 == 0 then q else q + 1

/-- Numerator and denominator of `num / den * base ^ (-exponent)`. -/
def unscale (base num den : Nat) (exponent : Int) : Nat × Nat :=
  if 0 ≤ exponent then (num, den * base.pow exponent.toNat)
  else (num * base.pow (-exponent).toNat, den)

/-- The number nearest to the quotient of two positive numbers. Above the largest finite number comes
infinity. -/
def Binary64.ofQuotient (negative : Bool) (num den : Nat) : Binary64 :=
  let guess : Int := (num.log2 : Int) - den.log2 - 53
  let (n, d) := unscale 2 num den guess
  let exponent := max (-1074) (if n / d < 1 <<< 53 then guess else guess + 1)
  let (n, d) := unscale 2 num den exponent
  let significand := divEven n d
  let (significand, exponent) :=
    if significand == 1 <<< 53 then (1 <<< 52, exponent + 1) else (significand, exponent)
  if 971 < exponent then .infinite negative else .finite negative significand exponent

/-- The number of decimal digits. -/
def digitCount (n : Nat) : Nat := (Nat.toDigits 10 n).length

/-- The number nearest to `digits * 10 ^ exponent`. From 10 ^ 310 on that is infinity, below
10 ^ -330 it is zero, and no power is formed to find that out. -/
def Binary64.ofDecimal (negative : Bool) (digits : Nat) (exponent : Int) : Binary64 :=
  let magnitude := exponent + digitCount digits
  if digits == 0 || magnitude < -330 then .finite negative 0 (-1074)
  else if 311 < magnitude then .infinite negative
  else
    let (num, den) := unscale 10 digits 1 (-exponent)
    .ofQuotient negative num den

end SourceTree.Decimal
