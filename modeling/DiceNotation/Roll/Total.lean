import DiceNotation.Formula.Stacks
import DiceNotation.Roll.Ledger

namespace DiceNotation

/-!
# Totals

What an evaluated term and a row of evaluated terms amount to.  The total of a
row is read off its precedence tree: operands from the left to the right, and
each operator as soon as both of its sides are known.
-/

/-- Joins two totals.  Text takes no part in arithmetic, and nothing is divided
by zero. -/
def Operator.apply (op : Operator) (formula : String) (left right : Json) : Except Fault Json :=
  if left.isText || right.isText then .error (.use (.textInArithmetic formula))
  else
    match op with
    | .add => left.add right
    | .sub => left.sub right
    | .mul => left.mul right
    | .div => if right.isZero then .error (.use (.divisionByZero formula)) else left.divide right
    | .rem =>
      if right.isZero then .error (.use (.divisionByZero formula)) else left.remainder right

/-- The total of a tree, given the totals of its operands. -/
def Tree.total {α : Type} (totalOf : α → Except Fault Json) (formula : String) :
    Tree α → Except Fault Json
  | leaf a => totalOf a
  | node op left right => do
    let l ← total totalOf formula left
    let r ← total totalOf formula right
    op.apply formula l r

namespace Ledger

/-- The value of a function at the totals of its rolls. -/
def functionValue (ledger : Ledger) (fn : Function) (rolls : List Roll) : Except Fault Json :=
  fn.value (rolls.map ledger.rollTotal)

/-- The sum of the outcomes of a term. -/
def outcomeTotal (ledger : Ledger) (id : Identity) : Except Fault Json :=
  Outcome.total (ledger.outcomes id)

/-- What an evaluated term amounts to. -/
def totalOf (ledger : Ledger) : Term → Except Fault Json
  | .numeric _ value => .ok value
  | .operator _ op => .ok (.string op.symbol)
  | .text _ word => .ok word
  | .group _ roll => .ok (ledger.rollTotal roll)
  | .function _ fn rolls => ledger.functionValue fn rolls
  | .dice d => ledger.outcomeTotal d.tag.id
  | .pool p => ledger.outcomeTotal p.tag.id

/-- The total of a term, once it has been evaluated, and null before. -/
def total (ledger : Ledger) (term : Term) : Except Fault Json :=
  if ledger.isEvaluated term then ledger.totalOf term else .ok .null

end Ledger

/-- A term as it stands in a row. -/
def Term.item (term : Term) : Item (Tree Term) :=
  match term with
  | .operator tag op => .operator op.symbol (Term.operator tag op).formula
  | operand => .operand (.leaf operand)

/-- The text of a tree of terms. -/
def Tree.formula (tree : Tree Term) : String := tree.text Term.formula

/-- The precedence tree of a row of terms.  Their formula has been written, so none of
them is without a text. -/
def treeOfTerms (formula : String) (terms : List Term) : Except Fault (Tree Term) :=
  match Stacks.treeOf (fun _ => true) (terms.map Term.item) with
  | .ok tree => .ok tree
  | .error halt => .error (halt.fault (Misplaced.fault Tree.formula formula))

/-- What a row of evaluated terms amounts to. -/
def Ledger.totalOfTerms (ledger : Ledger) (terms : List Term) : Except Fault Json := do
  let formula := formulaOf terms
  let tree ← treeOfTerms formula terms
  tree.total ledger.total formula

/-!
## The range of dice

The least result of dice depends on their kind only.  The greatest result of
numbered dice is their number of faces, which may have to be evaluated first.
A uniform value between zero and one picks one of the results in the range,
each with an equal share.
-/

namespace Ledger

/-- The value of an amount of dice.  A real that is equal to an integer counts
as that integer. -/
def amount (ledger : Ledger) : Operand Term → Except Fault Json
  | .known n => .ok (.ofInt n)
  | .computed term => (ledger.total term).map Json.wholeNumber

/-- The greatest result of dice, as far as it is known. -/
def maximumValue (ledger : Ledger) (dice : Dice) : Except Fault Json :=
  match dice.kind.fixedMaximum? with
  | some n => .ok (.ofInt n)
  | none => ledger.amount dice.faces

/-- Whether dice can show a value.  Only integers can be shown. -/
def accepts (ledger : Ledger) (dice : Dice) : Json → Except Fault Bool
  | .number (.int n) =>
    if n < dice.kind.minimum then .ok false
    else do Json.atMost (.ofInt n) (← ledger.maximumValue dice)
  | _ => .ok false

end Ledger

/-- The result that a share of the range picks: `steps` above the least one,
but never above the greatest one. -/
def pickResult (minimum : Int) (size steps : Number) : Except NumberFault Number := do
  let last ← size.sub (.int 1)
  Number.add (.int minimum) (Number.least steps [last])

/-- The number of results in a range. -/
def rangeSize (minimum : Int) (maximum : Number) : Except NumberFault Number := do
  (← maximum.sub (.int minimum)).add (.int 1)

/-- The result of a range that a uniform value picks. -/
def pickUniform (minimum : Int) (maximum u : Number) : Except NumberFault Number := do
  let size ← rangeSize minimum maximum
  let steps ← (← u.mul size).integerPart Exact.truncate
  pickResult minimum size steps

/-- A uniform value that is given as data.  A text or a list can only be repeated
as often as the range has results, and that is no integer. -/
def uniformNumber (size : Number) : Json → Except Fault Number
  | .string _ => do
    let _ ← Json.repetitions (.number size)
    .error (.number .outsideDomain)
  | .array _ => do
    let _ ← Json.repetitions (.number size)
    .error .wrongKind
  | u =>
    match u.number? with
    | some n => .ok n
    | none => .error .wrongKind

namespace Ledger

/-- The result of dice that a uniform value picks. -/
def mapUniform (ledger : Ledger) (dice : Dice) (u : Json) : Except Fault Json := do
  let maximum ← ledger.maximumValue dice
  match maximum.number? with
  | none => .error .wrongKind
  | some maximum =>
    let minimum := dice.kind.minimum
    let u ← uniformNumber (← liftNumber (rangeSize minimum maximum)) u
    (liftNumber (pickUniform minimum maximum u)).map .number

/-- The key by which the outside names this kind of dice, such as `d20` or `dc`. -/
def denomination (ledger : Ledger) (dice : Dice) : Except Fault String :=
  match dice.kind with
  | .plain => .ok "dNone"
  | .coin => .ok "dc"
  | .fate => .ok "df"
  | .numbered => do return "d" ++ (← ledger.amount dice.faces).plainText

end Ledger

/-- Whether both amounts of dice are known without evaluating anything. -/
def DiceOf.isReady (dice : Dice) : Bool := dice.number.term?.isNone && dice.faces.term?.isNone

end DiceNotation
