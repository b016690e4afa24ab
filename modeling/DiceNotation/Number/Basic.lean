namespace DiceNotation

/-!
# Numbers

A total is either an integer of any size or a real in double precision.  The
two stay apart: `4` and `4.0` are equal as amounts, but only the second one is
shown with a point where the kind of a number matters.

`Exact` is what a real stands for: an integer times a power of two, an
infinity, or no number at all.  Comparison, rounding to integers and the
remainder work on it, so they never lose a digit.
-/

/-- An amount: an integer of any size or a real in double precision. -/
inductive Number where
  | int (value : Int)
  | real (value : Float)

/-- Why an operation on numbers has no result. -/
inductive NumberFault where
  /-- An integer too large for a real, or an infinity that should become an integer. -/
  | overflow
  /-- An undefined real that should become an integer. -/
  | undefinedInteger
  /-- An argument for which the function has no value. -/
  | outsideDomain
  /-- An argument without elements, among which the function should choose. -/
  | emptyArgument (function : String)
  deriving DecidableEq, Repr

/-- How a message names the failure. -/
def NumberFault.message : NumberFault → String
  | .overflow => "number too large"
  | .undefinedInteger => "cannot convert float NaN to integer"
  | .outsideDomain => "math domain error"
  | .emptyArgument function => function ++ "() arg is an empty sequence"

namespace Number

/-- A power of two. -/
def twoTo (k : Nat) : Nat := Nat.pow 2 k

/-- A power of ten. -/
def tenTo (k : Nat) : Nat := Nat.pow 10 k

end Number

/-- What a real stands for. -/
inductive Exact where
  /-- The value `mantissa * 2 ^ exponent`. -/
  | finite (mantissa exponent : Int)
  | infinite (negative : Bool)
  | undefined
  deriving DecidableEq, Repr

namespace Exact

open Float.Model (UnpackedFloat Format)

/-- The exact meaning of a real.  Both zeros stand for zero. -/
def ofReal (x : Float) : Exact :=
  match x.toModel.unpack with
  | .notANumber => .undefined
  | .infinity .positive => .infinite false
  | .infinity .negative => .infinite true
  | .zero _ => .finite 0 0
  | .finite .positive mantissa exponent _ => .finite mantissa exponent
  | .finite .negative mantissa exponent _ => .finite (-mantissa) exponent

/-- The two values brought to a common exponent. -/
def align (m e n f : Int) : Int × Int :=
  let least := min e f
  (m * Number.twoTo (e - least).toNat, n * Number.twoTo (f - least).toNat)

/-- Order of two exact values; an undefined one is not comparable. -/
def compare? : Exact → Exact → Option Ordering
  | .undefined, _ => none
  | _, .undefined => none
  | .infinite true, .infinite true => some .eq
  | .infinite false, .infinite false => some .eq
  | .infinite true, _ => some .lt
  | .infinite false, _ => some .gt
  | _, .infinite true => some .gt
  | _, .infinite false => some .lt
  | .finite m e, .finite n f =>
    let sides := align m e n f
    some (compare sides.1 sides.2)

/-- The greatest integer that is not above `mantissa * 2 ^ exponent`. -/
def floor (mantissa exponent : Int) : Int :=
  if 0 ≤ exponent then mantissa * Number.twoTo exponent.toNat
  else mantissa.fdiv (Number.twoTo (-exponent).toNat)

/-- The integer next to `mantissa * 2 ^ exponent` on the side of zero. -/
def truncate (mantissa exponent : Int) : Int :=
  if 0 ≤ exponent then mantissa * Number.twoTo exponent.toNat
  else mantissa.tdiv (Number.twoTo (-exponent).toNat)

/-- Whether `mantissa * 2 ^ exponent` is an integer. -/
def isInteger (mantissa exponent : Int) : Bool :=
  0 ≤ exponent || mantissa % Number.twoTo (-exponent).toNat == 0

end Exact

namespace Number

/-- What a number stands for. -/
def exact : Number → Exact
  | .int n => .finite n 0
  | .real x => Exact.ofReal x

/-- The integer that a real is equal to, if it is one. -/
def integral? (x : Float) : Option Int :=
  match Exact.ofReal x with
  | .finite m e => if Exact.isInteger m e then some (Exact.truncate m e) else none
  | _ => none

/-- Reads a real by `round`, which works on its exact value. -/
def toInteger (round : Int → Int → Int) (x : Float) : Except NumberFault Int :=
  match Exact.ofReal x with
  | .finite m e => .ok (round m e)
  | .infinite _ => .error .overflow
  | .undefined => .error .undefinedInteger

/-- A number as a real.  An integer is rounded to nearest, ties to even, and
is refused if it rounds to an infinity. -/
def toReal : Number → Except NumberFault Float
  | .real x => .ok x
  | .int n =>
    let x := Float.ofInt n
    if x.isInf then .error .overflow else .ok x

/-- Order of two numbers by amount; an undefined one is not comparable. -/
def compare? (a b : Number) : Option Ordering := Exact.compare? a.exact b.exact

/-- Whether two numbers are the same amount. -/
def same (a b : Number) : Bool := compare? a b == some .eq

/-- Whether one number is below another. -/
def below (a b : Number) : Bool := compare? a b == some .lt

/-- Whether one number is below another or the same amount. -/
def atMost (a b : Number) : Bool := below a b || same a b

end Number
end DiceNotation
