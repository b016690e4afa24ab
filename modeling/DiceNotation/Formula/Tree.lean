import DiceNotation.Formula.Operator

namespace DiceNotation

/-!
# Operator trees

A formula is a row of operands with operators between them.  `Tree.ofItems`
turns such a row into the tree that precedence prescribes, operators of equal
precedence grouping to the left, and `Tree.flatten` writes a tree back as a
row.  A row that does not alternate is refused at its first misplaced item.
-/

/-- An operand or an operator, as it stands in a row.  An operator keeps the
text it is shown with. -/
inductive Item (α : Type) where
  | operand (a : α)
  | operator (symbol shown : String)

/-- Operands joined by operators. -/
inductive Tree (α : Type) where
  | leaf (a : α)
  | node (op : Operator) (left right : Tree α)

namespace Tree

variable {α β : Type}

/-- The row of a tree, from the left to the right. -/
def flatten : Tree α → List (Item α)
  | leaf a => [.operand a]
  | node op left right => flatten left ++ .operator op.symbol op.symbol :: flatten right

/-- The operands of a tree, from the left to the right. -/
def leaves : Tree α → List α
  | leaf a => [a]
  | node _ left right => leaves left ++ leaves right

/-- The text of a tree: its operands with spaced operators between them. -/
def text (textOf : α → String) : Tree α → String
  | leaf a => textOf a
  | node op left right => text textOf left ++ " " ++ op.symbol ++ " " ++ text textOf right

/-- Joins a pending sum to a finished product. -/
def close (pending : Option (Tree α × Operator)) (product : Tree α) : Tree α :=
  match pending with
  | none => product
  | some (sum, op) => node op sum product

/-- Builds the tree of the operands to the right, given the sum that waits for
the product now being built. -/
def group (pending : Option (Tree α × Operator)) (product : Tree α) :
    List (Operator × Tree α) → Tree α
  | [] => close pending product
  | (op, next) :: rest =>
    if op.isMultiplicative then group pending (node op product next) rest
    else group (some (close pending product, op)) next rest

/-- The tree of a first operand and the operands that operators join to it. -/
def ofRun (first : Tree α) (rest : List (Operator × Tree α)) : Tree α := group none first rest

end Tree

/-- Why a row of items is no formula: the first misplaced item. -/
inductive Misplaced (α : Type) where
  | nothing
  | noLeft (shown : String)
  | noSuchOperator (symbol shown : String)
  | noOperator (a : α)
  | noRight (shown : String)

namespace Item

variable {α : Type}

mutual

/-- Reads a row where an operand must stand, behind the operator shown. -/
def readOperand (behind : String) : List (Item α) → Except (Misplaced α) (α × List (Operator × α))
  | [] => .error (.noRight behind)
  | .operator _ shown :: _ => .error (.noLeft shown)
  | .operand a :: rest =>
    match readOperators rest with
    | .error misplaced => .error misplaced
    | .ok more => .ok (a, more)

/-- Reads a row where an operator must stand, if it does not end. -/
def readOperators : List (Item α) → Except (Misplaced α) (List (Operator × α))
  | [] => .ok []
  | .operand a :: _ => .error (.noOperator a)
  | .operator symbol shown :: rest =>
    match Operator.ofSymbol? symbol with
    | none => .error (.noSuchOperator symbol shown)
    | some op =>
      match readOperand shown rest with
      | .error misplaced => .error misplaced
      | .ok (a, more) => .ok ((op, a) :: more)

end

/-- Reads an alternating row as its first operand and the operands joined to it. -/
def alternating : List (Item α) → Except (Misplaced α) (α × List (Operator × α))
  | [] => .error .nothing
  | items => readOperand "" items

end Item

/-- The place of a part in a formula, if it is known and occurs there. -/
def placeIn (formula part : String) : Option Nat :=
  if formula == "" then none else Text.find? part.toList formula.toList

/-- The refusal of a row, placed in the formula where the item first occurs. -/
def Misplaced.fault {α : Type} (textOf : α → String) (formula : String) : Misplaced α → Fault
  | .nothing => .parse .emptyFormula formula (.string "") none
  | .noLeft shown => refuse .missingLeft shown
  | .noSuchOperator symbol shown => refuse (.unknownOperator symbol) shown
  | .noOperator a => refuse .missingOperator (textOf a)
  | .noRight shown => refuse .missingRight shown
where
  /-- A refusal that points at a part of the formula. -/
  refuse (reason : ParseReason) (shown : String) : Fault :=
    .parse reason formula (.string shown) (placeIn formula shown)

/-- The precedence tree of a row. -/
def Tree.ofItems {α : Type} (items : List (Item (Tree α))) :
    Except (Misplaced (Tree α)) (Tree α) :=
  match Item.alternating items with
  | .error misplaced => .error misplaced
  | .ok (first, rest) => .ok (Tree.ofRun first rest)

end DiceNotation
