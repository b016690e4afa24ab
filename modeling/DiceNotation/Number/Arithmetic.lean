import DiceNotation.Number.Basic

namespace DiceNotation
namespace Number

/-!
# Arithmetic

Sums, differences and products of integers are exact.  As soon as one side is
a real, both are taken as reals and the result is rounded once.  A quotient is
rounded once from the exact fraction; if the divisor divides the dividend it
is turned back into an integer.  A remainder has the sign of the dividend.
-/

open Float.Model (UnpackedFloat Format)

/-- The real nearest to `mantissa * 2 ^ exponent`, ties to even. -/
def nearest (negative : Bool) (mantissa : Nat) (exponent : Int) : Float :=
  let sign : UnpackedFloat.Sign := if negative then .negative else .positive
  if mantissa == 0 then .ofModel (.pack (.zero sign))
  else .ofModel (.pack (UnpackedFloat.round Format.binary64 sign mantissa exponent))

/-- Whether the sign of a real is set; a zero has a sign too. -/
def isNegative (x : Float) : Bool := x.toBits >>> 63 == 1

def add : Number → Number → Except NumberFault Number
  | .int a, .int b => .ok (.int (a + b))
  | a, b => do
    let x ← a.toReal
    let y ← b.toReal
    return .real (x + y)

def sub : Number → Number → Except NumberFault Number
  | .int a, .int b => .ok (.int (a - b))
  | a, b => do
    let x ← a.toReal
    let y ← b.toReal
    return .real (x - y)

def mul : Number → Number → Except NumberFault Number
  | .int a, .int b => .ok (.int (a * b))
  | a, b => do
    let x ← a.toReal
    let y ← b.toReal
    return .real (x * y)

def neg : Number → Number
  | .int a => .int (-a)
  | .real x => .real (-x)

/-- Whether a number is zero, of either sign and kind. -/
def isZero (a : Number) : Bool := same a (.int 0)

/-- The real nearest to the fraction `a / b`. -/
def ratio (a b : Int) : Except NumberFault Float :=
  let sign : Int → UnpackedFloat.Sign := fun n => if n < 0 then .negative else .positive
  if above : 0 < a.natAbs then
    if below : 0 < b.natAbs then
      let x := Float.ofModel (.pack (UnpackedFloat.div Format.binary64
        (.finite (sign a) a.natAbs 0 above) (.finite (sign b) b.natAbs 0 below)))
      if x.isInf then .error .overflow else .ok x
    else .error .outsideDomain
  else .ok (if b < 0 then -0.0 else 0.0)

/-- The quotient by a number other than zero. -/
def divide : Number → Number → Except NumberFault Number
  | .int a, .int b => do
    let quotient ← ratio a b
    if a % b == 0 then return .int (← toInteger Exact.truncate quotient)
    return .real quotient
  | a, b => do
    let x ← a.toReal
    let y ← b.toReal
    return .real (x / y)

/-- The remainder of the division that rounds toward zero.  It is exact, so it
needs no rounding of its own. -/
def remainderReal (x y : Float) : Except NumberFault Float :=
  match Exact.ofReal x, Exact.ofReal y with
  | .undefined, _ => .ok x
  | _, .undefined => .ok y
  | .infinite _, _ => .error .outsideDomain
  | .finite _ _, .infinite _ => .ok x
  | .finite m e, .finite n f =>
    let least := min e f
    let sides := Exact.align m e n f
    if sides.2 == 0 then .error .outsideDomain
    else .ok (nearest (isNegative x) (sides.1.natAbs % sides.2.natAbs) least)

/-- The remainder by a number other than zero, with the sign of the dividend. -/
def remainder (a b : Number) : Except NumberFault Number := do
  let x ← a.toReal
  let y ← b.toReal
  let r ← remainderReal x y
  match a, b with
  | .int _, .int _ => return .int (← toInteger Exact.truncate r)
  | _, _ => return .real r

/-- Whether the number leaves the given rest modulo two.  A negative real is
brought into range by adding two. -/
def leavesModTwo (rest : Int) : Number → Bool
  | .int n => n % 2 == rest
  | .real x =>
    match remainderReal x 2.0 with
    | .error _ => false
    | .ok r => (if r < 0.0 then r + 2.0 else r) == Float.ofInt rest

/-- The sum of the numbers from the left, starting at the integer zero. -/
def total (numbers : List Number) : Except NumberFault Number :=
  numbers.foldlM add (.int 0)

/-- The first greatest number of `first :: rest`. -/
def greatest (first : Number) (rest : List Number) : Number :=
  rest.foldl (fun best n => if below best n then n else best) first

/-- The first least number of `first :: rest`. -/
def least (first : Number) (rest : List Number) : Number :=
  rest.foldl (fun best n => if below n best then n else best) first

/-- The absolute value. -/
def magnitude : Number → Number
  | .int n => .int n.natAbs
  | .real x => .real x.abs

/-- One, zero or minus one, as the number is above, at or below zero. -/
def signum (a : Number) : Number :=
  if below (.int 0) a then .int 1 else if below a (.int 0) then .int (-1) else .int 0

/-- An integer stays as it is; a real is read by `round`. -/
def integerPart (round : Int → Int → Int) : Number → Except NumberFault Number
  | .int n => .ok (.int n)
  | .real x => (toInteger round x).map .int

/-- The least integer that is not below `mantissa * 2 ^ exponent`. -/
def ceilingOf (mantissa exponent : Int) : Int := -Exact.floor (-mantissa) exponent

/-- The floor of the number plus one half, the sum taken as a real. -/
def roundHalfUp (a : Number) : Except NumberFault Number := do
  let x ← a.toReal
  return .int (← toInteger Exact.floor (x + 0.5))

/-- The square root, for a number that is not negative. -/
def squareRoot (a : Number) : Except NumberFault Number := do
  let x ← a.toReal
  if x < 0.0 then .error .outsideDomain else return .real x.sqrt

/-!
## The mean

The mean of many totals is taken from their exact sum as reals, which is
rounded once.  The sum is kept in parts that do not overlap, the smallest
first, so no digit is lost on the way.  It is refused if a part on the way
grows beyond all reals, even if later totals would have made it smaller.
-/

/-- The exact sum of the finite values among others, as a mantissa and an exponent. -/
def exactSum (values : List Exact) : Int × Int :=
  values.foldl (fun (m, e) value =>
    match value with
    | .finite n f =>
      let sides := Exact.align m e n f
      (sides.1 + sides.2, min e f)
    | _ => (m, e)) (0, 0)

/-- Adds a real to parts.  Each part is replaced by what is lost when it is
added; the last component is the sum that is left. -/
def addToParts (x : Float) : List Float → List Float × Float
  | [] => ([], x)
  | part :: rest =>
    let (large, small) := if x.abs < part.abs then (part, x) else (x, part)
    let sum := large + small
    let lost := small - (sum - large)
    let (others, last) := addToParts sum rest
    (if lost == 0.0 then others else lost :: others, last)

/-- A sum on the way: the parts of the finite values, and the infinite and
undefined ones. -/
structure PartialSum where
  parts : List Float := []
  others : List Exact := []

/-- Takes one more real into a sum. -/
def PartialSum.add (sum : PartialSum) (x : Float) : Except NumberFault PartialSum :=
  match Exact.ofReal x with
  | .finite _ _ =>
    let (parts, last) := addToParts x sum.parts
    match Exact.ofReal last with
    | .finite _ _ => .ok { sum with parts := if last == 0.0 then parts else parts ++ [last] }
    | _ => .error .overflow
  | special => .ok ⟨[], special :: sum.others⟩

/-- The sum, rounded once.  Infinities of both signs have no sum. -/
def PartialSum.value (sum : PartialSum) : Except NumberFault Float :=
  let up := sum.others.contains (.infinite false)
  let down := sum.others.contains (.infinite true)
  if up && down then .error .outsideDomain
  else if sum.others.contains .undefined then .ok (0.0 / 0.0)
  else if up then .ok (1.0 / 0.0)
  else if down then .ok (-1.0 / 0.0)
  else
    let (m, e) := exactSum (sum.parts.map Exact.ofReal)
    .ok (nearest (m < 0) m.natAbs e)

/-- The sum of numbers as reals.  The first number that cannot be taken in
decides about the failure. -/
def sumOfReals (numbers : List Number) : Except NumberFault Float := do
  let sum ← numbers.foldlM (fun sum n => do sum.add (← n.toReal)) ({} : PartialSum)
  sum.value

/-- The mean of numbers, of which there is at least one. -/
def mean (numbers : List Number) : Except NumberFault Float := do
  return (← sumOfReals numbers) / Float.ofInt numbers.length

end Number
end DiceNotation
