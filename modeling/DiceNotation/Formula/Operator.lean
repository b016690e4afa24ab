import DiceNotation.Fault
import DiceNotation.Text.Find

namespace DiceNotation

/-!
# Operators and runs of signs

Five operators join two operands.  Products, quotients and remainders bind
tighter than sums and differences.  Where a formula has several operators in a
row they must reduce to one operator and perhaps a sign of the next operand: a
run of plus and minus signs is a minus if it holds an odd number of minus
signs, and a multiplicative operator may be followed by such a run only.
-/

/-- An operator between two operands. -/
inductive Operator where
  | add
  | sub
  | mul
  | div
  | rem
  deriving DecidableEq, Repr

namespace Operator

def symbol : Operator → String
  | .add => "+"
  | .sub => "-"
  | .mul => "*"
  | .div => "/"
  | .rem => "%"

/-- How tightly an operator binds. -/
def precedence : Operator → Nat
  | .add => 10
  | .sub => 10
  | .mul => 20
  | .div => 20
  | .rem => 20

/-- Whether the operator binds as tightly as a product. -/
def isMultiplicative (op : Operator) : Bool := op.precedence == 20

def ofChar? : Char → Option Operator
  | '+' => some .add
  | '-' => some .sub
  | '*' => some .mul
  | '/' => some .div
  | '%' => some .rem
  | _ => none

def ofSymbol? (symbol : String) : Option Operator :=
  match symbol.toList with
  | [c] => ofChar? c
  | _ => none

theorem ofSymbol?_symbol (op : Operator) : ofSymbol? op.symbol = some op := by
  cases op <;> decide

theorem eq_symbol_of_ofSymbol? {symbol : String} {op : Operator}
    (known : ofSymbol? symbol = some op) : symbol = op.symbol := by
  unfold ofSymbol? at known
  split at known
  · rename_i c single
    rw [← String.toList_inj, single]
    unfold ofChar? at known
    split at known <;> cases known <;> rfl
  · cases known

theorem precedence_of_multiplicative {op : Operator} (tight : op.isMultiplicative = true) :
    op.precedence = 20 := beq_iff_eq.1 tight

theorem precedence_of_additive {op : Operator} (loose : op.isMultiplicative = false) :
    op.precedence = 10 := by
  cases op with
  | add => rfl
  | sub => rfl
  | _ => cases loose

theorem precedence_bounds (op : Operator) : 10 ≤ op.precedence ∧ op.precedence ≤ 20 := by
  cases op <;> decide

/-- The operator that data names by its symbol.  Other data than a text names none. -/
def select : Json → Except Fault Operator
  | .array _ => .error .wrongKind
  | .object _ => .error .wrongKind
  | symbol =>
    match ofData? symbol with
    | some op => .ok op
    | none => .error (.clauseData (.unknownOperator symbol.plainText) symbol)
where
  /-- The operator that a text names. -/
  ofData? : Json → Option Operator
    | .string symbol => ofSymbol? symbol
    | _ => none

theorem select_symbol (op : Operator) : select (.string op.symbol) = .ok op := by
  simp [select, select.ofData?, ofSymbol?_symbol]

end Operator

/-- Whether a character is a plus or a minus sign. -/
def isSign (c : Char) : Bool := c == '+' || c == '-'

/-- Whether a run of signs negates: it holds an odd number of minus signs. -/
def negates (signs : List Char) : Bool :=
  signs.foldl (fun negative c => negative != (c == '-')) false

/-- The one sign that a run of signs amounts to. -/
def collapseSigns (signs : List Char) : Except Fault Operator :=
  match signs.find? (fun c => !isSign c) with
  | some c => .error (.clause (.notASign c.toString) c.toString)
  | none => .ok (if negates signs then .sub else .add)

/-- The operator that a run of operators amounts to, and whether the operand
after it is negated.  A run that does not reduce gives nothing. -/
def reduceRun (run : List Char) : Option (Operator × Bool) :=
  if run.all isSign then some (if negates run then .sub else .add, false)
  else
    match run with
    | [] => none
    | c :: signs =>
      match Operator.ofChar? c with
      | some op =>
      if op.isMultiplicative && signs.all isSign then some (op, negates signs) else none
      | none => none

end DiceNotation
