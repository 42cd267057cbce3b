import SourceTree.Decimal.Binary64

/-!
# Shortest decimals

The decimal with the fewest digits that reads back as a given binary64 number, and among those the
one nearest to it. The reals that read back as a number form an interval around it; for one digit,
two digits and so on the number's two neighbours on that decimal grid are tried until one lies inside.
-/
namespace SourceTree.Decimal

/-- A decimal `digits * 10 ^ exponent`. -/
structure Scaled where
  digits : Nat
  exponent : Int
  deriving DecidableEq

/-- The interval of what reads back as a number: three numerators over one denominator. The ends
belong to it if the significand is even. -/
structure Interval where
  low : Nat
  value : Nat
  high : Nat
  den : Nat
  closed : Bool

/-- The interval around `significand * 2 ^ exponent`. Below a power of two the numbers lie twice as
close. -/
def Interval.around (significand : Nat) (exponent : Int) : Interval :=
  let below := if significand == 1 <<< 52 && -1074 < exponent then 1 else 2
  let (num, den) := unscale 2 1 1 (2 - exponent)
  ⟨(4 * significand - below) * num, 4 * significand * num, (4 * significand + 2) * num, den,
    significand % 2 == 0⟩

/-- The decimal lies inside. -/
def Interval.holds (i : Interval) (d : Scaled) : Bool :=
  let (num, den) := unscale 10 d.digits 1 (-d.exponent)
  let x := num * i.den
  if i.closed then i.low * den ≤ x && x ≤ i.high * den else i.low * den < x && x < i.high * den

/-- The neighbours of the value among the multiples of `10 ^ exponent`, the nearer one first; of two
equally near, the even one. -/
def Interval.neighbours (i : Interval) (exponent : Int) : List Scaled :=
  let (num, den) := unscale 10 i.value i.den exponent
  let below : Scaled := ⟨num / den, exponent⟩
  let above : Scaled := ⟨num / den + 1, exponent⟩
  if divEven num den == below.digits then [below, above] else [above, below]

/-- The exponent of the first digit of a value that is not zero. -/
def Interval.leadingExponent (i : Interval) : Int :=
  if i.den ≤ i.value then (digitCount (i.value / i.den) : Int) - 1
  else
    match (List.range 330).find? (fun k => i.den ≤ i.value * Nat.pow 10 (k + 1)) with
    | some k => -((k : Int) + 1)
    | none => -330

/-- The shortest decimal inside. Seventeen digits are enough for every number. -/
def Interval.shortest (i : Interval) : Scaled :=
  let lead := i.leadingExponent
  let grid (count : Nat) : Option Scaled := (i.neighbours (lead - count)).find? i.holds
  match (List.range 17).findSome? grid with
  | some d => d
  | none => ⟨i.value / i.den, 0⟩

/-- How numbers are written: which exponents of the first digit stand for positional writing, and how
many digits an exponent has at least. -/
structure Style where
  positionalFrom : Int
  positionalBelow : Int
  exponentWidth : Nat

/-- Digits with a point, positional or with an exponent. A number without a fraction gets `.0`. -/
def Style.write (style : Style) (d : Scaled) : String :=
  let all := Nat.toDigits 10 d.digits
  let digits := (all.reverse.dropWhile (· == '0')).reverse
  let lead : Int := d.exponent + all.length - 1
  let text :=
    if style.positionalFrom ≤ lead && lead < style.positionalBelow then
      if lead < 0 then '0' :: '.' :: List.replicate ((-lead).toNat - 1) '0' ++ digits
      else
        let whole := digits.take (lead.toNat + 1)
        let zeros := List.replicate (lead.toNat + 1 - digits.length) '0'
        let fraction := digits.drop (lead.toNat + 1)
        whole ++ zeros ++ '.' :: (if fraction.isEmpty then ['0'] else fraction)
    else
      let power := Nat.toDigits 10 lead.natAbs
      let zeros := List.replicate (style.exponentWidth - power.length) '0'
      let fraction := digits.drop 1
      digits.take 1 ++ (if fraction.isEmpty then [] else '.' :: fraction) ++
        'e' :: (if lead < 0 then '-' else '+') :: zeros ++ power
  String.ofList text

/-- The number in the shortest digits that read back. -/
def Style.render (style : Style) : Binary64 → String
  | .nan => "nan"
  | .infinite negative => if negative then "-inf" else "inf"
  | .finite negative significand exponent =>
    let text :=
      if significand == 0 then "0.0"
      else style.write (Interval.around significand exponent).shortest
    if negative then "-" ++ text else text

end SourceTree.Decimal
