import DiceNotation.Formula.Tree
import DiceNotation.Number.Text

namespace DiceNotation

/-!
# Clauses

A clause is what stands between two operators: a number, dice, a function, a
pool, a bracketed formula or a word.  It keeps the stretch of text that it was
read from and its flavor, the note in square brackets behind it.
-/

/-- A number that is written out or computed by a bracketed formula. -/
inductive Amount (α : Type) where
  | known (n : Nat)
  | computed (inner : Tree α) (raw : String)

/-- The faces of dice: an amount, or a letter that names a kind of dice. -/
inductive Faces (α : Type) where
  | amount (a : Amount α)
  | letter (code : String)

/-- One operand of a formula as it was written. -/
inductive Clause where
  | numeric (value : Number) (flavor : Option String) (raw : String)
  | dice (number : Amount Clause) (faces : Faces Clause) (modifiers : String)
      (flavor : Option String) (raw : String)
  | function (name : String) (arguments : List (Tree Clause))
      (flavor : Option String) (raw : String)
  | pool (members : List (Tree Clause)) (modifiers : String)
      (flavor : Option String) (raw : String)
  | group (inner : Tree Clause) (flavor : Option String) (raw : String)
  | text (text : String) (flavor : Option String) (raw : String)

namespace Clause

/-- The text that a clause was read from. -/
def raw : Clause → String
  | numeric _ _ raw => raw
  | dice _ _ _ _ raw => raw
  | function _ _ _ raw => raw
  | pool _ _ _ raw => raw
  | group _ _ raw => raw
  | text _ _ raw => raw

/-- The flavor of a clause. -/
def flavor : Clause → Option String
  | numeric _ flavor _ => flavor
  | dice _ _ _ flavor _ => flavor
  | function _ _ flavor _ => flavor
  | pool _ _ flavor _ => flavor
  | group _ flavor _ => flavor
  | text _ flavor _ => flavor

end Clause

/-- A text with a flavor behind it, if there is one that is not empty. -/
def withFlavor (text : String) : Option String → String
  | none => text
  | some flavor => if flavor == "" then text else text ++ "[" ++ flavor ++ "]"

/-- The text of a tree of clauses. -/
def Tree.raw (tree : Tree Clause) : String := tree.text Clause.raw

/-- The number minus one, by which an operand is multiplied to negate it. -/
def minusOne : Clause := .numeric (.int (-1)) none "-1"

/-- The operand that is equal to minus the given one.  A number is negated
itself, anything else is multiplied by minus one inside brackets. -/
def Tree.negated : Tree Clause → Tree Clause
  | .leaf (.numeric value flavor _) =>
    let opposite := value.neg
    .leaf (.numeric opposite flavor (withFlavor opposite.plainText flavor))
  | tree =>
    let product := Tree.node .mul tree (.leaf minusOne)
    .leaf (.group product none ("(" ++ product.raw ++ ")"))

/-!
## Expressions as they are written

An expression is written as a run: leading signs, a first clause, and further
clauses each with a row of operators before it.  `Run.tree` reduces the signs
and operators and groups the clauses by precedence.
-/

/-- An expression in the order of its text. -/
structure Run where
  signs : List Char
  first : Clause
  rest : List (List Char × Clause)

namespace Run

/-- The operand joined by a row of operators, negated if the row says so. -/
def operand (operators : List Char) (clause : Clause) : Option (Operator × Tree Clause) :=
  (reduceRun operators).map fun (op, negative) =>
    (op, if negative then (Tree.leaf clause).negated else .leaf clause)

/-- The operands behind the first one, or the first row of operators that does
not reduce. -/
def operands : List (List Char × Clause) → Except (List Char) (List (Operator × Tree Clause))
  | [] => .ok []
  | (operators, clause) :: rest =>
    match operand operators clause with
    | none => .error operators
    | some joined =>
      match operands rest with
      | .error row => .error row
      | .ok more => .ok (joined :: more)

/-- The first operand with the leading signs applied. -/
def head (run : Run) : Tree Clause :=
  if negates run.signs then (Tree.leaf run.first).negated else .leaf run.first

/-- The tree of an expression, or the row of operators that makes it invalid. -/
def tree (run : Run) : Except (List Char) (Tree Clause) :=
  match operands run.rest with
  | .error row => .error row
  | .ok rest => .ok (Tree.ofRun run.head rest)

end Run
end DiceNotation
