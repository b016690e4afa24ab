import DiceNotation.Formula.Tree

namespace DiceNotation

/-!
# Precedence with two stacks

The precedence tree of a row is built in one pass over its items, with a stack
of trees and a stack of operators.  An operator waits until one arrives that
binds no tighter, or until the row ends; then it joins the two trees on top of
the other stack.  The pass stops at the first item that is misplaced.
-/

/-- What stops the pass over a row: a misplaced item, a side of a join that has
no text, a stack without the tree or operator that is asked for, or an operator
on its stack whose precedence is not known. -/
inductive Halt (α : Type) where
  | misplaced (item : Misplaced (Tree α))
  | noText
  | emptyStack
  | noPrecedence (symbol : String)

/-- The stop of a pass as a fault, given the refusal of a misplaced item. -/
def Halt.fault {α : Type} (refusal : Misplaced (Tree α) → Fault) : Halt α → Fault
  | misplaced item => refusal item
  | noText => .wrongKind
  | emptyStack => .wrongLength
  | noPrecedence _ => .missingField

/-- Whether a tree has a text.  That of joined trees is made when they are joined. -/
def Tree.isShown {α : Type} (shows : α → Bool) : Tree α → Bool
  | leaf a => shows a
  | node _ _ _ => true

/-- The stacks in the middle of a pass, with their tops in front, and whether an
operand must come next.  An operator stands on its stack with the text it is
shown with. -/
structure Stacks (α : Type) where
  output : List (Tree α)
  operators : List (String × String)
  awaitsOperand : Bool

namespace Stacks

variable {α : Type} (shows : α → Bool)

/-- The precedence that a symbol has, if it is that of an operator. -/
def precedence? (symbol : String) : Option Nat :=
  (Operator.ofSymbol? symbol).map Operator.precedence

/-- Joins the two trees on top of the output by an operator. -/
def join (symbol : String) : List (Tree α) → Except (Halt α) (List (Tree α))
  | right :: left :: output =>
    if !(left.isShown shows && right.isShown shows) then .error .noText
    else
      match Operator.ofSymbol? symbol with
      | none => .error (.noPrecedence symbol)
      | some op => .ok (.node op left right :: output)
  | _ => .error .emptyStack

/-- Whether an operator gives way to one of the given precedence.  One of equal
precedence does, so that operators group to the left. -/
def givesWay (precedence : Nat) (symbol : String) : Except (Halt α) Bool :=
  match precedence? symbol with
  | none => .error (.noPrecedence symbol)
  | some other => .ok (decide (precedence ≤ other))

/-- Joins by the operators on top of their stack for as long as these give way. -/
def reduce (gives : String → Except (Halt α) Bool) :
    List (String × String) → List (Tree α) →
      Except (Halt α) (List (String × String) × List (Tree α))
  | [], output => .ok ([], output)
  | (symbol, shown) :: operators, output => do
    if ← gives symbol then
      let output ← join shows symbol output
      reduce gives operators output
    else return ((symbol, shown) :: operators, output)

/-- Reads an item. -/
def read (held : Stacks α) : Item (Tree α) → Except (Halt α) (Stacks α)
  | .operand tree =>
    if held.awaitsOperand then .ok ⟨tree :: held.output, held.operators, false⟩
    else .error (.misplaced (.noOperator tree))
  | .operator symbol shown =>
    if held.awaitsOperand then .error (.misplaced (.noLeft shown))
    else
      match precedence? symbol with
      | none => .error (.misplaced (.noSuchOperator symbol shown))
      | some precedence => do
        let (operators, output) ← reduce shows (givesWay precedence) held.operators held.output
        return ⟨output, (symbol, shown) :: operators, true⟩

/-- Ends a pass: joins by all operators that still wait. -/
def finish (held : Stacks α) : Except (Halt α) (Tree α) :=
  if held.awaitsOperand then
    match held.operators with
    | [] => .error .emptyStack
    | (_, shown) :: _ => .error (.misplaced (.noRight shown))
  else do
    let (_, output) ← reduce shows (fun _ => .ok true) held.operators held.output
    match output.getLast? with
    | none => .error .emptyStack
    | some tree => return tree

/-- Reads the items that are left, and ends the pass. -/
def run (held : Stacks α) : List (Item (Tree α)) → Except (Halt α) (Tree α)
  | [] => finish shows held
  | item :: rest => do
    let held ← read shows held item
    run held rest

/-- The tree of a row.  Operands are joined only if they have a text. -/
def treeOf (items : List (Item (Tree α))) : Except (Halt α) (Tree α) :=
  if items.isEmpty then .error (.misplaced .nothing) else run shows ⟨[], [], true⟩ items

end Stacks
end DiceNotation
