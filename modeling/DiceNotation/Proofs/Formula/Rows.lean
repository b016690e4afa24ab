import DiceNotation.Formula.Clause
import DiceNotation.Roll.Parts

namespace DiceNotation

/-!
# Rows of operator trees

The row of a tree is its first operand together with the operators and operands
behind it.  A tree is written as its row, and the tree that precedence builds
from a row has that row again.  So whatever reads a written tree depends on the
row alone, and not on the shape that the tree had.
-/

namespace Tree

variable {α β : Type}

/-- The first operand of a tree, and the operands behind it with their operators. -/
def row : Tree α → α × List (Operator × α)
  | leaf a => (a, [])
  | node op left right => ((row left).1, (row left).2 ++ (op, (row right).1) :: (row right).2)

/-- Operands that are single, as the operands of a run. -/
def singles (rest : List (Operator × α)) : List (Operator × Tree α) :=
  rest.map fun joined => (joined.1, leaf joined.2)

theorem row_map (f : α → β) (tree : Tree α) :
    (tree.map f).row = (f tree.row.1, tree.row.2.map fun joined => (joined.1, f joined.2)) := by
  induction tree with
  | leaf a => rfl
  | node op left right left_ih right_ih => simp [map, row, left_ih, right_ih]

/-- Grouping by precedence does not look at the operands. -/
theorem map_group (g : α → β) (pending : Option (Tree α × Operator)) (product : Tree α)
    (rest : List (Operator × Tree α)) :
    (group pending product rest).map g =
      group (pending.map fun waiting => (waiting.1.map g, waiting.2)) (product.map g)
        (rest.map fun next => (next.1, next.2.map g)) := by
  have closed (pending : Option (Tree α × Operator)) (product : Tree α) :
      (close pending product).map g =
        close (pending.map fun waiting => (waiting.1.map g, waiting.2)) (product.map g) := by
    cases pending <;> rfl
  induction rest generalizing pending product with
  | nil => exact closed pending product
  | cons next rest ih =>
    rcases next with ⟨op, tree⟩
    rw [group, List.map_cons, group]
    cases op.isMultiplicative with
    | true => exact ih _ _
    | false =>
      rw [if_neg Bool.false_ne_true, if_neg Bool.false_ne_true, ih, Option.map_some, closed]

/-- Grouping by precedence keeps the row. -/
theorem row_group (pending : Option (Tree α × Operator)) (product : Tree α)
    (rest : List (Operator × α)) :
    (group pending product (singles rest)).row =
      ((close pending product).row.1, (close pending product).row.2 ++ rest) := by
  induction rest generalizing pending product with
  | nil => simp [singles, group]
  | cons joined rest ih =>
    obtain ⟨op, a⟩ := joined
    change (group pending product ((op, leaf a) :: singles rest)).row = _
    rw [group]
    cases tight : op.isMultiplicative with
    | true =>
      rw [if_pos rfl, ih]
      cases pending <;> simp [close, row]
    | false =>
      rw [if_neg (by simp), ih]
      simp [close, row]

/-- The tree of a row of single operands has this row. -/
theorem row_ofRun (first : α) (rest : List (Operator × α)) :
    (ofRun (leaf first) (singles rest)).row = (first, rest) := by
  rw [ofRun, row_group]
  rfl

end Tree

namespace Item

variable {α : Type}

/-- Operators and operands as they are written behind a first operand. -/
def joined (rest : List (Operator × α)) : List (Item α) :=
  rest.flatMap fun next => [.operator next.1.symbol next.1.symbol, .operand next.2]

theorem joined_cons (op : Operator) (a : α) (rest : List (Operator × α)) :
    joined ((op, a) :: rest) = .operator op.symbol op.symbol :: .operand a :: joined rest := rfl

/-- What is written behind a first operand is read back. -/
theorem readOperators_joined (rest : List (Operator × α)) :
    readOperators (joined rest) = .ok rest := by
  induction rest with
  | nil => rfl
  | cons next rest ih =>
    obtain ⟨op, a⟩ := next
    rw [joined_cons, readOperators, Operator.ofSymbol?_symbol]
    simp only [readOperand, ih]

end Item

namespace Tree

variable {α : Type}

/-- A tree is written as its row. -/
theorem flatten_eq_row (tree : Tree α) :
    tree.flatten = .operand tree.row.1 :: Item.joined tree.row.2 := by
  induction tree with
  | leaf a => rfl
  | node op left right left_ih right_ih =>
    rw [flatten, left_ih, right_ih]
    simp [row, Item.joined]

/-- The tree of a written tree is the tree of its row. -/
theorem ofItems_flatten (tree : Tree α) :
    Tree.ofItems (tree.map leaf).flatten = .ok (ofRun (leaf tree.row.1) (singles tree.row.2)) := by
  have operands : Item.alternating (tree.map leaf).flatten =
      .ok (leaf tree.row.1, singles tree.row.2) := by
    rw [flatten_eq_row, row_map]
    change Item.readOperand "" _ = _
    rw [Item.readOperand, Item.readOperators_joined]
    rfl
  rw [Tree.ofItems, operands]

end Tree

namespace Clause

/-- The clause that is equal to minus the given one, as `Tree.negated` makes it. -/
def opposite : Clause → Clause
  | numeric value flavor _ => numeric value.neg flavor (withFlavor value.neg.plainText flavor)
  | clause =>
    let product := Tree.node .mul (.leaf clause) (.leaf minusOne)
    group product none ("(" ++ product.raw ++ ")")

/-- The clause itself, or the opposite one. -/
def signed (negative : Bool) (clause : Clause) : Clause :=
  if negative then clause.opposite else clause

end Clause

theorem Tree.negated_leaf (clause : Clause) : (Tree.leaf clause).negated = .leaf clause.opposite := by
  cases clause <;> rfl

namespace Run

/-- The operands behind the first one as clauses, if every row of operators reduces. -/
def joined : List (List Char × Clause) → Option (List (Operator × Clause))
  | [] => some []
  | (operators, clause) :: rest => do
    let (op, negative) ← reduceRun operators
    return (op, clause.signed negative) :: (← joined rest)

theorem signed_leaf (negative : Bool) (clause : Clause) :
    (if negative then (Tree.leaf clause).negated else .leaf clause) =
      .leaf (clause.signed negative) := by
  cases negative with
  | false => rfl
  | true => exact Tree.negated_leaf clause

theorem operand_of_reduceRun {operators : List Char} {op : Operator} {negative : Bool}
    (reduced : reduceRun operators = some (op, negative)) (clause : Clause) :
    operand operators clause = some (op, .leaf (clause.signed negative)) := by
  simp only [operand, reduced, Option.map_some, signed_leaf]

/-- If all rows of operators reduce, the operands of a run are single clauses. -/
theorem operands_of_joined {rest : List (List Char × Clause)}
    {clauses : List (Operator × Clause)} (reduces : joined rest = some clauses) :
    operands rest = .ok (Tree.singles clauses) := by
  induction rest generalizing clauses with
  | nil =>
    cases reduces
    rfl
  | cons next rest ih =>
    obtain ⟨operators, clause⟩ := next
    simp only [joined, Option.bind_eq_bind, Option.bind_eq_some_iff, Option.pure_def,
      Option.some.injEq] at reduces
    obtain ⟨⟨op, negative⟩, reduced, more, later, rfl⟩ := reduces
    simp only [operands, operand_of_reduceRun reduced, ih later]
    rfl

/-- A run is refused where a row of operators does not reduce. -/
theorem operands_of_not_joined {rest : List (List Char × Clause)} (stuck : joined rest = none) :
    ∃ row clause, (row, clause) ∈ rest ∧ reduceRun row = none ∧ operands rest = .error row := by
  induction rest with
  | nil => cases stuck
  | cons next rest ih =>
    obtain ⟨operators, clause⟩ := next
    cases reduced : reduceRun operators with
    | none =>
      refine ⟨operators, clause, List.mem_cons_self, reduced, ?_⟩
      simp [operands, operand, reduced]
    | some meaning =>
      obtain ⟨op, negative⟩ := meaning
      have later : joined rest = none := by
        cases more : joined rest with
        | none => rfl
        | some clauses => simp [joined, reduced, more] at stuck
      obtain ⟨row, other, member, irreducible, refused⟩ := ih later
      refine ⟨row, other, List.mem_cons_of_mem _ member, irreducible, ?_⟩
      simp only [operands, operand_of_reduceRun reduced, refused]

/-- The tree of a run whose rows of operators all reduce. -/
theorem tree_of_joined (run : Run) {clauses : List (Operator × Clause)}
    (reduces : joined run.rest = some clauses) :
    run.tree = .ok (Tree.ofRun (.leaf (run.first.signed (negates run.signs)))
      (Tree.singles clauses)) := by
  simp only [tree, operands_of_joined reduces, head, signed_leaf]

/-- A run with a row of operators that does not reduce has no tree. -/
theorem tree_of_not_joined (run : Run) (stuck : joined run.rest = none) :
    ∃ row clause, (row, clause) ∈ run.rest ∧ reduceRun row = none ∧ run.tree = .error row := by
  obtain ⟨row, clause, member, irreducible, refused⟩ := operands_of_not_joined stuck
  exact ⟨row, clause, member, irreducible, by simp [tree, refused]⟩

end Run
end DiceNotation
