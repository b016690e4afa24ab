import DiceNotation.Json.Amount

namespace DiceNotation

/-!
# Functions

Functions of one argument round it or change its sign or size.  The greatest
and the least take one argument or more, but they compare: a single argument
must have elements, and they choose among those.
-/

/-- A function of numbers. -/
inductive Function where
  | abs
  | ceil
  | floor
  | round
  | trunc
  | sign
  | sqrt
  | max
  | min
  deriving DecidableEq, Repr

namespace Function

def all : List Function := [abs, ceil, floor, round, trunc, sign, sqrt, max, min]

def name : Function → String
  | abs => "abs"
  | ceil => "ceil"
  | floor => "floor"
  | round => "round"
  | trunc => "trunc"
  | sign => "sign"
  | sqrt => "sqrt"
  | max => "max"
  | min => "min"

def ofName? (name : String) : Option Function := all.find? (·.name == name)

theorem ofName?_name (f : Function) : ofName? f.name = some f := by
  cases f <;> decide

/-- The number of arguments; none if it may be any number from one on. -/
def arity : Function → Option Nat
  | max => none
  | min => none
  | _ => some 1

/-- Whether a function takes that many arguments. -/
def takes (f : Function) (count : Nat) : Bool :=
  match f.arity with
  | none => count != 0
  | some n => count == n

/-- The function of a name, if it takes that many arguments.  Data that is no
name is the name of no function. -/
def select (name : Json) (count : Nat) : Except Fault Function :=
  match name with
  | .array _ => .error .wrongKind
  | .object _ => .error .wrongKind
  | name =>
    match ofData? name with
    | none => .error (.clauseData (.unknownFunction name.plainText) name)
    | some f =>
      if f.takes count then .ok f
      else .error (.clauseData (.argumentCount f.name f.arity count) name)
where
  /-- The function that a text names. -/
  ofData? : Json → Option Function
    | .string text => ofName? text
    | _ => none

/-- The value at one number. -/
def value1 : Function → Number → Except NumberFault Number
  | abs, a => .ok a.magnitude
  | ceil, a => a.integerPart Number.ceilingOf
  | floor, a => a.integerPart Exact.floor
  | round, a => a.roundHalfUp
  | trunc, a => a.integerPart Exact.truncate
  | sign, a => .ok a.signum
  | sqrt, a => a.squareRoot
  | max, a => .ok a
  | min, a => .ok a

/-- What a function that compares chooses among values. -/
def choose (f : Function) (first : Json) (rest : List Json) : Except Fault Json :=
  match f with
  | max => Json.greatest first rest
  | min => Json.least first rest
  | _ => .error .wrongKind

/-- What a function that compares chooses among the elements of a value. -/
def chooseWithin (f : Function) (argument : Json) : Except Fault Json := do
  match ← argument.elements with
  | [] => .error (.number (.emptyArgument f.name))
  | first :: rest => f.choose first rest

/-- The value at a list of arguments. -/
def value (f : Function) : List Json → Except Fault Json
  | [] => .error .wrongKind
  | [a] =>
    match f with
    | max => max.chooseWithin a
    | min => min.chooseWithin a
    | f =>
      match a.number? with
      | some n => (liftNumber (f.value1 n)).map .number
      | none => .error .wrongKind
  | a :: b :: rest => f.choose a (b :: rest)

end Function
end DiceNotation
