import DiceNotation.Formula.Operator
import DiceNotation.Roll.Total
import DiceNotation.Text.Classes

namespace DiceNotation

/-!
# Written arithmetic and its value

Arithmetic is written with whole numbers, round brackets and the five operators.
An expression keeps the characters it is written with: the signs in front of its
first operand and the row of operators in front of every other one.  Its value is
defined on these characters alone.  The definition splits a row of operands into
summands and each summand into factors, so it says what precedence and
association mean without any tree and without any stack.

The evaluation is defined for any kind of value.  With numbers it is the value
that a roll should have, and with integers it is exact.
-/

namespace Arithmetic

mutual

/-- A whole number, or an expression in round brackets. -/
inductive Operand where
  | literal (digits : List Char)
  | group (inner : Expression)

/-- Signs, a first operand, and operands each with the operators before it. -/
inductive Expression where
  | run (signs : List Char) (first : Operand) (rest : List (List Char × Operand))

end

/-! ## How expressions are written -/

/-- Each character as a token of its own. -/
def marks (row : List Char) : List (List Char) := row.map ([·])

mutual

/-- The tokens of an operand. -/
def Operand.tokens : Operand → List (List Char)
  | .literal digits => [digits]
  | .group inner => ['('] :: (inner.tokens ++ [[')']])

/-- The tokens of an expression. -/
def Expression.tokens : Expression → List (List Char)
  | .run signs first rest => marks signs ++ (first.tokens ++ joinedTokens rest)

/-- The tokens of the operands behind the first one. -/
def joinedTokens : List (List Char × Operand) → List (List Char)
  | [] => []
  | (row, next) :: rest => marks row ++ (next.tokens ++ joinedTokens rest)

end

/-- A text of tokens with any blanks before each of them. -/
inductive Spaced : List (List Char) → List Char → Prop
  | nil : Spaced [] []
  | cons {gap token : List Char} {tokens : List (List Char)} {text : List Char} :
      (∀ c ∈ gap, Text.isBlank c = true) → Spaced tokens text →
      Spaced (token :: tokens) (gap ++ (token ++ text))

/-- A formula is a text of an expression, with blanks between any two tokens and
at both ends. -/
def Expression.Writes (expression : Expression) (formula : String) : Prop :=
  ∃ text gap, Spaced expression.tokens text ∧ (∀ c ∈ gap, Text.isBlank c = true) ∧
    formula.toList = text ++ gap

/-! ## Which expressions make sense -/

/-- Whether a row of signs holds an odd number of minus signs. -/
def isOdd (signs : List Char) : Bool := signs.count '-' % 2 == 1

/-- The operator among the multiplicative ones that a character stands for. -/
def multiplicative? : Char → Option Operator
  | '*' => some .mul
  | '/' => some .div
  | '%' => some .rem
  | _ => none

/-- What a row of operators means: the operator that joins the two operands, and
whether the second one is negated.  A row has a meaning in two forms only: it is
made of signs, or it is a multiplicative operator with signs behind it. -/
def meaning? (row : List Char) : Option (Operator × Bool) :=
  if row.all isSign then some (if isOdd row then .sub else .add, false)
  else
    match row with
    | [] => none
    | c :: signs =>
      if signs.all isSign then (multiplicative? c).map fun op => (op, isOdd signs) else none

mutual

/-- Whether literals are made of digits and rows of operator characters, each
literal and each row between two operands being there. -/
def Operand.HasShape : Operand → Prop
  | .literal digits => digits ≠ [] ∧ ∀ c ∈ digits, Text.isDigit c = true
  | .group inner => inner.HasShape

def Expression.HasShape : Expression → Prop
  | .run signs first rest =>
    (∀ c ∈ signs, (Operator.ofChar? c).isSome = true) ∧ first.HasShape ∧ JoinedHaveShape rest

def JoinedHaveShape : List (List Char × Operand) → Prop
  | [] => True
  | (row, next) :: rest =>
    (row ≠ [] ∧ ∀ c ∈ row, (Operator.ofChar? c).isSome = true) ∧ next.HasShape ∧
      JoinedHaveShape rest

end

mutual

/-- Whether only signs stand before first operands and every row of operators
has a meaning, at every depth. -/
def Operand.IsMeaningful : Operand → Prop
  | .literal _ => True
  | .group inner => inner.IsMeaningful

def Expression.IsMeaningful : Expression → Prop
  | .run signs first rest =>
    (∀ c ∈ signs, isSign c = true) ∧ first.IsMeaningful ∧ JoinedAreMeaningful rest

def JoinedAreMeaningful : List (List Char × Operand) → Prop
  | [] => True
  | (row, next) :: rest =>
    (meaning? row).isSome = true ∧ next.IsMeaningful ∧ JoinedAreMeaningful rest

end

mutual

/-- How many brackets are open at once. -/
def Operand.depth : Operand → Nat
  | .literal _ => 0
  | .group inner => inner.depth + 1

def Expression.depth : Expression → Nat
  | .run _ first rest => max first.depth (joinedDepth rest)

def joinedDepth : List (List Char × Operand) → Nat
  | [] => 0
  | (_, next) :: rest => max next.depth (joinedDepth rest)

end

/-! ## What expressions amount to -/

/-- A kind of value that expressions can have.  Joining two values may fail. -/
structure Carrier (α : Type) where
  literal : Nat → α
  negate : α → α
  join : Operator → α → α → Option α

namespace Carrier

variable {α : Type} (carrier : Carrier α)

/-- The factors that belong to the operand in front of a row, and the summands
behind them, each with its own factors. -/
def summands : List (Operator × α) →
    List (Operator × α) × List (Operator × α × List (Operator × α))
  | [] => ([], [])
  | (op, value) :: rest =>
    if op.isMultiplicative then ((op, value) :: (summands rest).1, (summands rest).2)
    else ([], (op, value, (summands rest).1) :: (summands rest).2)

/-- A value with its factors joined from the left to the right. -/
def product (first : α) (factors : List (Operator × α)) : Option α :=
  factors.foldlM (fun value factor => carrier.join factor.1 value factor.2) first

/-- A value with its summands joined from the left to the right. -/
def sum (first : α) (rest : List (Operator × α × List (Operator × α))) : Option α :=
  rest.foldlM (fun value summand => do
    carrier.join summand.1 value (← carrier.product summand.2.1 summand.2.2)) first

/-- What a row of operands amounts to. -/
def total (first : α) (rest : List (Operator × α)) : Option α := do
  carrier.sum (← carrier.product first (summands rest).1) (summands rest).2

/-- A value, negated if that is asked for. -/
def signed (negative : Bool) (value : α) : α := if negative then carrier.negate value else value

mutual

/-- What an operand amounts to. -/
def ofOperand : Operand → Option α
  | .literal digits => some (carrier.literal (Text.natOfDigits digits))
  | .group inner => ofExpression inner

/-- What an expression amounts to. -/
def ofExpression : Expression → Option α
  | .run signs first rest => do
    let value ← ofOperand first
    carrier.total (carrier.signed (isOdd signs) value) (← ofJoined rest)

/-- What the operands behind the first one amount to, with the operators that
join them. -/
def ofJoined : List (List Char × Operand) → Option (List (Operator × α))
  | [] => some []
  | (row, next) :: rest => do
    let (op, negative) ← meaning? row
    let value ← ofOperand next
    return (op, carrier.signed negative value) :: (← ofJoined rest)

end

end Carrier

/-- Two numbers joined by an operator, if they can be joined. -/
def joinNumbers (op : Operator) (left right : Number) : Option Number :=
  match op.apply "" (.number left) (.number right) with
  | .ok (.number n) => some n
  | _ => none

/-- Numbers with the arithmetic of rolls. -/
def numbers : Carrier Number where
  literal n := .int n
  negate := Number.neg
  join := joinNumbers

/-- Integers with exact sums, differences and products, and nothing else. -/
def integers : Carrier Int where
  literal n := n
  negate n := -n
  join
    | .add, a, b => some (a + b)
    | .sub, a, b => some (a - b)
    | .mul, a, b => some (a * b)
    | _, _, _ => none

/-- The value of an expression, if it has one. -/
def Expression.value (expression : Expression) : Option Number := numbers.ofExpression expression

/-- The exact value of an expression without quotients and remainders. -/
def Expression.integer (expression : Expression) : Option Int := integers.ofExpression expression

mutual

/-- Whether an operand is written without the signs of division and remainder. -/
def Operand.IsPolynomial : Operand → Prop
  | .literal _ => True
  | .group inner => inner.IsPolynomial

def Expression.IsPolynomial : Expression → Prop
  | .run _ first rest => first.IsPolynomial ∧ JoinedArePolynomial rest

def JoinedArePolynomial : List (List Char × Operand) → Prop
  | [] => True
  | (row, next) :: rest =>
    ('/' ∉ row ∧ '%' ∉ row) ∧ next.IsPolynomial ∧ JoinedArePolynomial rest

end

end Arithmetic
end DiceNotation
