import DiceNotation.Number.Arithmetic
import DiceNotation.Number.Basic

namespace DiceNotation
namespace Number

/-!
# How numbers are written

## The fewest digits that read back

A finite real stands for an interval: the values that round to it.  Its
shortest decimal is the decimal with the fewest digits in that interval, and
among those of equal length the one nearest to the real, an exact tie going to
the even digit.  All comparisons are made on integers.
-/

/-- The value `digits * 10 ^ exponent`. -/
structure Decimal where
  digits : Nat
  exponent : Int
  deriving DecidableEq, Repr

/-- Order of `a * 10 ^ i` and `n * 2 ^ j`. -/
def compareScaled (a : Nat) (i : Int) (n : Nat) (j : Int) : Ordering :=
  compare (a * tenTo i.toNat * twoTo (-j).toNat) (n * twoTo j.toNat * tenTo (-i).toNat)

/-- Whether a decimal rounds to the real `mantissa * 2 ^ exponent`.  Halfway
points belong to the even mantissa.  Just above a power of two the gap below is
half as wide as the gap above. -/
def readsBack (mantissa : Nat) (exponent : Int) (d : Decimal) : Bool :=
  let narrow := mantissa == twoTo 52 && -1074 < exponent
  let low := if narrow then 4 * mantissa - 1 else 4 * mantissa - 2
  let high := 4 * mantissa + 2
  let closed := mantissa % 2 == 0
  let fromLow := compareScaled d.digits d.exponent low (exponent - 2)
  let fromHigh := compareScaled d.digits d.exponent high (exponent - 2)
  (fromLow == .gt || (closed && fromLow == .eq)) &&
    (fromHigh == .lt || (closed && fromHigh == .eq))

/-- The least `k` with `mantissa * 2 ^ exponent < 10 ^ k`, for a positive
mantissa.  The logarithm gives it up to one step either way. -/
def scale (mantissa : Nat) (exponent : Int) : Int :=
  let estimate := ((mantissa.log2 : Int) + exponent) * 1233 / 4096
  let fits : Int → Bool := fun k => compareScaled 1 k mantissa exponent == .gt
  if fits (estimate - 1) then estimate - 1
  else if fits estimate then estimate
  else if fits (estimate + 1) then estimate + 1
  else estimate + 2

/-- The greatest multiple of `10 ^ unit` that is not above the real, counted
in that unit. -/
def gridBelow (mantissa : Nat) (exponent unit : Int) : Nat :=
  (mantissa * twoTo exponent.toNat * tenTo (-unit).toNat) /
    (twoTo (-exponent).toNat * tenTo unit.toNat)

/-- The decimal on the grid of `10 ^ unit` that reads back, if there is one. -/
def gridHit (mantissa : Nat) (exponent unit : Int) : Option Decimal :=
  let low := gridBelow mantissa exponent unit
  let lower : Decimal := ⟨low, unit⟩
  let upper : Decimal := ⟨low + 1, unit⟩
  match readsBack mantissa exponent lower, readsBack mantissa exponent upper with
  | false, false => none
  | true, false => some lower
  | false, true => some upper
  | true, true =>
    match compareScaled (2 * low + 1) unit mantissa (exponent + 1) with
    | .gt => some lower
    | .lt => some upper
    | .eq => some (if low % 2 == 0 then lower else upper)

/-- The digits without the zeros at their end; at most `bound` are dropped. -/
def Decimal.strip : Nat → Decimal → Decimal
  | 0, d => d
  | bound + 1, d =>
    if d.digits % 10 == 0 && d.digits != 0 then strip bound ⟨d.digits / 10, d.exponent + 1⟩
    else d

/-- The shortest decimal of the positive real `mantissa * 2 ^ exponent`. -/
def shortest (mantissa : Nat) (exponent : Int) : Decimal :=
  let k := scale mantissa exponent
  let hit := (List.range 17).findSome? fun (n : Nat) => gridHit mantissa exponent (k - (n + 1))
  (hit.getD ⟨gridBelow mantissa exponent (k - 17), k - 17⟩).strip 18

/-!
## Digits with a point or an exponent

A real is written with the fewest digits that read back, always with a point
or an exponent, so that it cannot be taken for an integer.  In a formula and
in a result a real that is equal to an integer is written as that integer.
Statistics are written with a fixed number of places.
-/

/-- Which decimal exponents of the leading digit are written positionally. -/
structure Layout where
  plainFrom : Int
  plainBelow : Int

/-- Reals are positional from one ten-thousandth up to, but not including, ten
to the sixteenth.  Outside, the exponent has a sign and at least two digits. -/
def layout : Layout where
  plainFrom := -4
  plainBelow := 16

/-- A run of zeros. -/
def zeroRun (count : Int) : List Char := List.replicate count.toNat '0'

/-- An exponent with its sign and at least two digits. -/
def exponentText (e : Int) : List Char :=
  let digits := Nat.toDigits 10 e.natAbs
  'e' :: (if e < 0 then '-' else '+') :: (zeroRun (2 - digits.length) ++ digits)

/-- The text of a positive decimal. -/
def Decimal.text (d : Decimal) : List Char :=
  let digits := Nat.toDigits 10 d.digits
  let count : Int := digits.length
  let point := d.exponent + count
  if layout.plainFrom < point && point ≤ layout.plainBelow then
    if point ≤ 0 then '0' :: '.' :: (zeroRun (-point) ++ digits)
    else if count ≤ point then digits ++ zeroRun (point - count) ++ ['.', '0']
    else digits.take point.toNat ++ '.' :: digits.drop point.toNat
  else
    let fraction := digits.drop 1
    digits.take 1 ++ (if fraction.isEmpty then [] else '.' :: fraction) ++ exponentText (point - 1)

/-- A real with its sign and its shortest digits. -/
def realText (x : Float) : String :=
  let sign := if isNegative x then ['-'] else []
  match Exact.ofReal x with
  | .undefined => "nan"
  | .infinite _ => String.ofList (sign ++ ['i', 'n', 'f'])
  | .finite m e =>
    if m == 0 then String.ofList (sign ++ ['0', '.', '0'])
    else String.ofList (sign ++ (shortest m.natAbs e).text)

/-- The text that keeps the kind of a number apparent. -/
def text : Number → String
  | .int n => toString n
  | .real x => realText x

/-- The text of a number in a formula: a real equal to an integer is written
as the integer. -/
def plainText : Number → String
  | .int n => toString n
  | .real x =>
    match integral? x with
    | some n => toString n
    | none => realText x

/-- The integer nearest to `numerator / denominator`, ties to even. -/
def roundedQuotient (numerator denominator : Nat) : Nat :=
  let quotient := numerator / denominator
  match compare (2 * (numerator % denominator)) denominator with
  | .lt => quotient
  | .gt => quotient + 1
  | .eq => if quotient % 2 == 0 then quotient else quotient + 1

/-- A real with a fixed number of places, rounded from its exact value. -/
def fixedText (places : Nat) (x : Float) : String :=
  let sign := if isNegative x then ['-'] else []
  match Exact.ofReal x with
  | .undefined => "nan"
  | .infinite _ => String.ofList (sign ++ ['i', 'n', 'f'])
  | .finite m e =>
    let units := roundedQuotient (m.natAbs * twoTo e.toNat * tenTo places) (twoTo (-e).toNat)
    let digits := Nat.toDigits 10 units
    let padded := List.replicate (places + 1 - digits.length) '0' ++ digits
    let whole := padded.length - places
    String.ofList (sign ++ padded.take whole ++ '.' :: padded.drop whole)

/-- The number that `digits * 10 ^ exponent` denotes as a real.  Amounts far
outside the range of reals become an infinity or zero at once. -/
def realOfDecimal (digits : Nat) (exponent : Int) : Float :=
  if digits == 0 then 0.0
  else
    let size := (Nat.toDigits 10 digits).length + exponent
    if size > 400 then nearest false 1 2000
    else if size < -400 then 0.0
    else Float.ofScientific digits (exponent < 0) exponent.natAbs

end Number
end DiceNotation
