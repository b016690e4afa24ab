import DiceNotation.Formula.Reference
import DiceNotation.Proofs.Formula.SignedOperands

namespace DiceNotation

open Text

/-!
# Written arithmetic with references

Any operand of written arithmetic may be a reference to data.  Such an expression is open: it
has a value once each path has one.  Its value is defined on its characters and on the values
of the paths alone, and nothing is said about how the values are written.  The data, on the
other hand, say how they are written: an integer, a truth value, or a text that is written
arithmetic itself.
-/

namespace Arithmetic

mutual

/-- A whole number, a reference, or an open expression in round brackets. -/
inductive OpenOperand where
  | literal (digits : List Char)
  | reference (path : List Char)
  | group (inner : OpenExpression)

/-- Signs, a first operand, and operands each with the operators before it. -/
inductive OpenExpression where
  | run (signs : List Char) (first : OpenOperand) (rest : List (List Char × OpenOperand))

end

/-! ## How open expressions are written -/

/-- A token, or a reference by its path. -/
inductive Piece where
  | token (text : List Char)
  | reference (path : List Char)

/-- Each character as a piece of its own. -/
def markPieces (row : List Char) : List Piece := row.map fun c => .token [c]

mutual

/-- The pieces of an operand. -/
def OpenOperand.pieces : OpenOperand → List Piece
  | .literal digits => [.token digits]
  | .reference path => [.reference path]
  | .group inner => .token ['('] :: (inner.pieces ++ [.token [')']])

/-- The pieces of an expression. -/
def OpenExpression.pieces : OpenExpression → List Piece
  | .run signs first rest => markPieces signs ++ (first.pieces ++ openJoinedPieces rest)

/-- The pieces of the operands behind the first one. -/
def openJoinedPieces : List (List Char × OpenOperand) → List Piece
  | [] => []
  | (row, next) :: rest => markPieces row ++ (next.pieces ++ openJoinedPieces rest)

end

/-- Whether a reference ends before a text: it is empty, or it begins with a blank, a closing
bracket or one of two operators.  A minus sign would be read as a part of the path. -/
def EndsReference (text : List Char) : Prop :=
  ∀ c, text.head? = some c → isBlank c = true ∨ c = ')' ∨ c = '+' ∨ c = '*'

/-- A text of pieces with any blanks before each of them. -/
inductive SpacedPieces : List Piece → List Char → Prop
  | nil : SpacedPieces [] []
  | token {gap token : List Char} {pieces : List Piece} {text : List Char} :
      (∀ c ∈ gap, isBlank c = true) → SpacedPieces pieces text →
      SpacedPieces (.token token :: pieces) (gap ++ (token ++ text))
  | reference {gap path : List Char} {pieces : List Piece} {text : List Char} :
      (∀ c ∈ gap, isBlank c = true) → EndsReference text → SpacedPieces pieces text →
      SpacedPieces (.reference path :: pieces) (gap ++ ('@' :: path ++ text))

/-- A formula is a text of an open expression, with blanks between any two pieces and at both
ends. -/
def OpenExpression.Writes (expression : OpenExpression) (formula : String) : Prop :=
  ∃ text gap, SpacedPieces expression.pieces text ∧ (∀ c ∈ gap, isBlank c = true) ∧
    formula.toList = text ++ gap

mutual

/-- Whether literals are made of digits, references have a path, only signs stand before first
operands, and every row of operators makes sense without quotients and remainders. -/
def OpenOperand.IsProper : OpenOperand → Prop
  | .literal digits => digits ≠ [] ∧ ∀ c ∈ digits, isDigit c = true
  | .reference path => path ≠ [] ∧ ∀ c ∈ path, Reference.insidePath c = true
  | .group inner => inner.IsProper

def OpenExpression.IsProper : OpenExpression → Prop
  | .run signs first rest =>
    (∀ c ∈ signs, isSign c = true) ∧ first.IsProper ∧ OpenJoinedAreProper rest

def OpenJoinedAreProper : List (List Char × OpenOperand) → Prop
  | [] => True
  | (row, next) :: rest => IsRow row ∧ next.IsProper ∧ OpenJoinedAreProper rest

end

/-! ## What open expressions amount to -/

mutual

/-- The paths of the references of an operand. -/
def OpenOperand.paths : OpenOperand → List (List Char)
  | .literal _ => []
  | .reference path => [path]
  | .group inner => inner.paths

def OpenExpression.paths : OpenExpression → List (List Char)
  | .run _ first rest => first.paths ++ openJoinedPaths rest

def openJoinedPaths : List (List Char × OpenOperand) → List (List Char)
  | [] => []
  | (_, next) :: rest => next.paths ++ openJoinedPaths rest

end

section

variable (assignment : List Char → Int)

mutual

/-- What an operand amounts to if paths have the values that are assigned to them. -/
def OpenOperand.integer : OpenOperand → Option Int
  | .literal digits => some (natOfDigits digits)
  | .reference path => some (assignment path)
  | .group inner => inner.integer

/-- What an expression amounts to if paths have the values that are assigned to them. -/
def OpenExpression.integer : OpenExpression → Option Int
  | .run signs first rest => do
    let value ← first.integer
    integers.total (integers.signed (isOdd signs) value) (← openJoinedIntegers rest)

/-- What the operands behind the first one amount to, with the operators that join them. -/
def openJoinedIntegers : List (List Char × OpenOperand) → Option (List (Operator × Int))
  | [] => some []
  | (row, next) :: rest => do
    let (op, negative) ← meaning? row
    let value ← next.integer
    return (op, integers.signed negative value) :: (← openJoinedIntegers rest)

end

end

/-- Data that denote an integer. -/
inductive Denotes : Json → Int → Prop
  | integer (n : Int) : Denotes (.number (.int n)) n
  | truth (holds : Bool) : Denotes (.bool holds) (if holds then 1 else 0)
  | text {expression : Expression} {value : String} {n : Int} :
      expression.IsProper → expression.Writes value → expression.integer = some n →
      Denotes (.string value) n

/-- Whether data give each of some paths the value that is assigned to it. -/
def Assigns (data : Fields) (assignment : List Char → Int) (paths : List (List Char)) : Prop :=
  ∀ path ∈ paths, ∃ value, Reference.lookUp (.object data) (path.splitOn '.') = some value ∧
    Denotes value (assignment path)

/-- How many round brackets are open at once in a text, if some are open before it. -/
def bracketDepth (levels : Nat) : List Char → Nat
  | [] => levels
  | c :: rest =>
    if c = '(' then bracketDepth (levels + 1) rest
    else if c = ')' then max levels (bracketDepth (levels - 1) rest)
    else bracketDepth levels rest

end Arithmetic
end DiceNotation
