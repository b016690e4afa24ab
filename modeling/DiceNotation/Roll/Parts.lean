import DiceNotation.Roll.Build
import DiceNotation.Roll.Total

namespace DiceNotation

/-!
# Rows of parts

A formula can be put together from clauses, from terms that exist already, and
from trees of both.  The clauses become terms, and the terms stay what they
are.
-/

/-- An operand of a formula that is put together. -/
inductive Part where
  | clause (c : Clause)
  | term (t : Term)

/-- The text of a part. -/
def Part.text : Part → String
  | clause c => c.raw
  | term t => t.formula

/-- The text of a part as data: the formula of a term need not be a text. -/
def Part.textData : Part → Json
  | clause c => .string c.raw
  | term t => t.formulaData

/-- Whether a part has a text. -/
def Part.hasText : Part → Bool
  | clause _ => true
  | term t => t.hasFormula

/-- The same tree with its operands changed. -/
def Tree.map {α β : Type} (f : α → β) : Tree α → Tree β
  | leaf a => leaf (f a)
  | node op left right => node op (map f left) (map f right)

theorem Tree.leaves_map {α β : Type} (f : α → β) (tree : Tree α) :
    (tree.map f).leaves = tree.leaves.map f := by
  induction tree with
  | leaf a => rfl
  | node op left right left_ih right_ih => simp [map, leaves, left_ih, right_ih]

/-- The refusal of an operand without an operator before it.  A part that is no
text cannot be looked for in a formula. -/
def refuseOperand (formula : String) : Tree Part → Fault
  | .leaf part =>
    if !part.hasText then .wrongKind
    else
      match part.textData with
      | .string shown => .parse .missingOperator formula (.string shown) (placeIn formula shown)
      | other => if formula == "" then .parse .missingOperator formula other none else .wrongKind
  | tree => (Misplaced.noOperator tree).fault (Tree.text Part.text) formula

/-- The refusal of a misplaced part or operator. -/
def refuseMisplaced (formula : String) : Misplaced (Tree Part) → Fault
  | .noOperator operand => refuseOperand formula operand
  | misplaced => misplaced.fault (Tree.text Part.text) formula

/-- The tree of a row of parts and operators.  Parts can be joined only if all
of them have a text. -/
def treeOfParts (formula : String) (items : List (Item (Tree Part))) :
    Except Fault (Tree Part) :=
  match Stacks.treeOf Part.hasText items with
  | .ok tree => .ok tree
  | .error halt => .error (halt.fault (refuseMisplaced formula))

/-- What stands in a row that is put together: a tree, a term that exists
already, or an operator. -/
inductive RowItem where
  | tree (t : Tree Part)
  | term (t : Term)
  | operator (symbol : String)

namespace RowItem

/-- A row item as an operand or an operator. -/
def item : RowItem → Item (Tree Part)
  | tree t => .operand t
  | operator symbol => .operator symbol symbol
  | term (.operator tag op) => .operator op.symbol (Term.operator tag op).formula
  | term t => .operand (.leaf (.term t))

/-- Whether a row item joins others. -/
def isOperator : RowItem → Bool
  | operator _ => true
  | term (.operator _ _) => true
  | _ => false

end RowItem

namespace Build

variable (setup : Setup)

/-- The terms of a tree of parts. -/
def partTerms : Tree Part → Build (List Term)
  | .leaf (.clause c) => do return [← clause setup c]
  | .leaf (.term t) => pure [t]
  | .node op left right => do
    let before ← partTerms left
    let joining ← operator [] op.symbol
    let after ← partTerms right
    return before ++ joining :: after

/-- The roll of a tree of parts. -/
def ofParts (tree : Tree Part) : Build Roll := do
  let terms ← partTerms setup tree
  roll [] [] terms

/-- A construction whose refusal of a clause has no clause to name. -/
def withoutClause {α : Type} (construction : Build α) : Build α := fun ledger =>
  match construction ledger with
  | .error (.parse _ _ _ _) => .error .notARecord
  | result => result

/-- The kind of dice and their faces, as the value of the faces tells them: a
number, or a text that is the letter of a kind. -/
def facesOf : Json → Build (DieKind × AmountInput)
  | .string code =>
    match DieKind.ofLetter? (String.ofList (Text.lower code.toList)) with
    | some kind => pure (kind, .data .null)
    | none => refuse .notARecord
  | .number (.int n) => pure (.numbered, .data (.ofInt n))
  | _ => refuse .notARecord

/-- Builds a term anew from what a clause would say about it.  Of terms only
operators and dice whose amounts have values say as much. -/
def rebuild : Term → Build Term
  | .operator _ op => operator [] op.symbol
  | .dice d => do
    match ← read (·.amount d.number) with
    | .number (.int number) => diceAnew d (.data (.ofInt number))
    | .bool number => diceAnew d (.data (.bool number))
    | _ => refuse (.clause .unknownClause "")
  | _ => refuse .notARecord
where
  /-- Dice like the given ones, with a number. -/
  diceAnew (d : Dice) (number : AmountInput) : Build Term := do
    let (kind, faces) ← facesOf (← read (·.amount d.faces))
    let options : Fields := match d.tag.flavor? with
      | some flavor => [("flavor", flavor)]
      | none => []
    return .dice (← withoutClause <| DiceInput.build setup {
      kind := kind, number := number, faces := faces, modifiers := .array d.modifiers,
      options := options })

/-- The term that a single row item stands for. -/
def ofItem : RowItem → Build Term
  | .operator symbol => operator [] symbol
  | .term t => rebuild setup t
  | .tree (.leaf (.clause c)) => clause setup c
  | .tree t => refuse (.clause .unknownClause (t.text Part.text))

/-- The roll of a row with a single item. -/
def ofSingle : RowItem → Build Roll
  | .tree t => ofParts setup t
  | .term t => roll [] [] [t]
  | .operator symbol => do
    let joining ← operator [] symbol
    roll [] [] [joining]

end Build
end DiceNotation
