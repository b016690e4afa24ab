import DiceNotation.Proofs.Formula.Grouping
import DiceNotation.Proofs.Roll.TermRows

namespace DiceNotation

/-!
# Totals read from the left to the right

The total of a row of evaluated terms is what its plain reading gives: the products are computed
from the left to the right, and each of them is added to or taken from what was computed so far
before the next one is looked at.  The value and the first fault are the same as those of the
precedence tree, whether the tree is computed by recursion or walked with a stack.
-/

variable {α : Type}

/-! ## The plain reading -/

/-- The factors behind the first operand of a row, and the further summands, each an operand with
the operator before it and the factors behind it.  The runs of factors are as long as can be. -/
def summands : List (Operator × α) →
    List (Operator × α) × List (Operator × α × List (Operator × α))
  | [] => ([], [])
  | (op, a) :: rest =>
    let (factors, others) := summands rest
    if op.isMultiplicative then ((op, a) :: factors, others) else ([], (op, a, factors) :: others)

section Reading

variable (totalOf : α → Except Fault Json) (formula : String)

/-- The product of an operand and the factors behind it, from the left to the right. -/
def plainProduct (first : α) (factors : List (Operator × α)) : Except Fault Json := do
  let value ← totalOf first
  factors.foldlM (fun product next => do next.1.apply formula product (← totalOf next.2)) value

/-- The total of an operand and the operands joined to it.  Each product is combined with what was
computed so far before the next one is read. -/
def plainTotal (first : α) (rest : List (Operator × α)) : Except Fault Json := do
  let (factors, others) := summands rest
  let value ← plainProduct totalOf formula first factors
  others.foldlM (fun sum next => do
    next.1.apply formula sum (← plainProduct totalOf formula next.2.1 next.2.2)) value

end Reading

/-! ## The tree of the plain reading -/

namespace Tree

/-- A tree to which further ones are joined, from the left to the right. -/
def chained (tree : Tree α) (rest : List (Operator × Tree α)) : Tree α :=
  rest.foldl (fun left next => node next.1 left next.2) tree

/-- The total of a chain is a fold over the totals of its parts. -/
theorem total_chained (totalOf : α → Except Fault Json) (formula : String) (tree : Tree α)
    (rest : List (Operator × Tree α)) :
    (tree.chained rest).total totalOf formula =
      tree.total totalOf formula >>= fun value => rest.foldlM (fun value next =>
        next.2.total totalOf formula >>= next.1.apply formula value) value := by
  induction rest generalizing tree with
  | nil => exact (bind_pure _).symm
  | cons next rest ih =>
    refine (ih (node next.1 tree next.2)).trans ?_
    simp only [total, bind_assoc, List.foldlM_cons]

/-- A run of factors as a tree. -/
def productOf (first : Tree α) (factors : List (Operator × α)) : Tree α :=
  first.chained (singles factors)

/-- What precedence builds is a chain of summands, each a chain of factors. -/
theorem group_eq_chained (pending : Option (Tree α × Operator)) (product : Tree α)
    (rest : List (Operator × α)) :
    group pending product (singles rest) =
      (close pending (product.productOf (summands rest).1)).chained
        ((summands rest).2.map fun next => (next.1, (leaf next.2.1).productOf next.2.2)) := by
  induction rest generalizing pending product with
  | nil => rfl
  | cons next rest ih =>
    rcases next with ⟨op, a⟩
    change group pending product ((op, leaf a) :: singles rest) = _
    rw [group]
    cases kind : op.isMultiplicative with
    | true =>
      rw [if_pos rfl, ih]
      simp only [summands, kind, if_true]
      rfl
    | false =>
      rw [if_neg Bool.false_ne_true, ih]
      simp only [summands, kind, Bool.false_eq_true, if_false]
      rfl

theorem total_productOf (totalOf : α → Except Fault Json) (formula : String) (first : α)
    (factors : List (Operator × α)) :
    ((leaf first).productOf factors).total totalOf formula =
      plainProduct totalOf formula first factors := by
  rw [productOf, total_chained]
  simp only [singles, List.foldlM_map]
  rfl

/-- The total of a row is that of its plain reading. -/
theorem total_ofRun (totalOf : α → Except Fault Json) (formula : String) (first : α)
    (rest : List (Operator × α)) :
    (ofRun (leaf first) (singles rest)).total totalOf formula =
      plainTotal totalOf formula first rest := by
  rw [ofRun, group_eq_chained, total_chained]
  simp only [close, total_productOf, List.foldlM_map]
  rfl

/-! ## The walk with a stack -/

/-- How many turns a tree takes. -/
def turns : Tree α → Nat
  | leaf _ => 1
  | node _ left right => left.turns + right.turns + 2

/-- The turns that a tree on the stack still takes. -/
def turnsLeft : Tree α × Bool → Nat
  | (_, true) => 1
  | (tree, false) => tree.turns

/-- The turns that a stack still takes. -/
def turnsAhead : List (Tree α × Bool) → Nat
  | [] => 0
  | entry :: stack => turnsLeft entry + turnsAhead stack

theorem turnsLeft_pos (entry : Tree α × Bool) : 0 < turnsLeft entry := by
  rcases entry with ⟨tree, _ | _⟩
  · cases tree with
    | leaf a => exact Nat.one_pos
    | node op left right => exact Nat.succ_pos _
  · exact Nat.one_pos

/-- Without its top a stack takes fewer turns. -/
theorem turnsAhead_pop (entry : Tree α × Bool) (stack : List (Tree α × Bool)) :
    turnsAhead stack < turnsAhead (entry :: stack) :=
  Nat.lt_add_of_pos_left (turnsLeft_pos entry)

/-- A tree takes more turns than its sides and itself after them. -/
theorem turnsAhead_push (op : Operator) (left right : Tree α) (stack : List (Tree α × Bool)) :
    turnsAhead ((left, false) :: (right, false) :: (node op left right, true) :: stack) <
      turnsAhead ((node op left right, false) :: stack) := by
  simp only [turnsAhead, turnsLeft, turns]
  omega

/-- Walks through trees on a stack, with the totals that are known on another one.  An operator is
put back under its two sides, and is applied when it comes up again.  There is no result if a
total is asked for that is not there. -/
def walk (totalOf : α → Except Fault Json) (formula : String) :
    List (Tree α × Bool) → List Json → Option (Except Fault Json)
  | [], values => values.getLast?.map .ok
  | (leaf a, _) :: stack, values =>
    match totalOf a with
    | .error fault => some (.error fault)
    | .ok value => walk totalOf formula stack (value :: values)
  | (node op left right, false) :: stack, values =>
    walk totalOf formula ((left, false) :: (right, false) :: (node op left right, true) :: stack)
      values
  | (node op _ _, true) :: stack, right :: left :: values =>
    match op.apply formula left right with
    | .error fault => some (.error fault)
    | .ok value => walk totalOf formula stack (value :: values)
  | (node _ _ _, true) :: _, _ => none
termination_by stack => turnsAhead stack
decreasing_by
  · exact turnsAhead_pop _ stack
  · exact turnsAhead_push op left right stack
  · exact turnsAhead_pop _ stack

/-- A tree on the stack gives way to its total, which stands on top of the other stack then. -/
theorem walk_cons (totalOf : α → Except Fault Json) (formula : String) (tree : Tree α)
    (stack : List (Tree α × Bool)) (values : List Json) :
    walk totalOf formula ((tree, false) :: stack) values =
      match tree.total totalOf formula with
      | .error fault => some (.error fault)
      | .ok value => walk totalOf formula stack (value :: values) := by
  induction tree generalizing stack values with
  | leaf a =>
    rw [walk]
    rfl
  | node op left right left_ih right_ih =>
    rw [walk, left_ih]
    cases first : left.total totalOf formula with
    | error fault =>
      rw [total, first]
      rfl
    | ok l =>
      dsimp only
      rw [right_ih]
      cases second : right.total totalOf formula with
      | error fault =>
        rw [total, first, second]
        rfl
      | ok r =>
        dsimp only
        rw [walk, total, first, second]
        rfl

/-- The walk through a tree ends with its total or with its first fault, and never asks for a
total that is not there. -/
theorem walk_eq_total (totalOf : α → Except Fault Json) (formula : String) (tree : Tree α) :
    walk totalOf formula [(tree, false)] [] = some (tree.total totalOf formula) := by
  rw [walk_cons]
  cases tree.total totalOf formula with
  | error fault => rfl
  | ok value =>
    dsimp only
    rw [walk]
    rfl

end Tree

/-! ## Totals of rows -/

/-- The total of a row of terms by stacks alone: the precedence tree is built with two of them, and
walked with two more unless it is a single operand. -/
def Ledger.stackTotal (ledger : Ledger) (terms : List Term) : Option (Except Fault Json) :=
  match treeOfTerms (formulaOf terms) terms with
  | .error fault => some (.error fault)
  | .ok (.leaf term) => some (ledger.total term)
  | .ok tree => Tree.walk ledger.total (formulaOf terms) [(tree, false)] []

theorem Ledger.stackTotal_eq (ledger : Ledger) (terms : List Term) :
    ledger.stackTotal terms = some (ledger.totalOfTerms terms) := by
  rw [stackTotal, totalOfTerms]
  cases treeOfTerms (formulaOf terms) terms with
  | error fault => rfl
  | ok tree =>
    cases tree with
    | leaf term => rfl
    | node op left right => exact Tree.walk_eq_total _ _ _

namespace TermRow

theorem isOperand_of_alternates {term : Term} {rest : List (Item (Tree Term))}
    (alternates : Item.Alternates (term.item :: rest)) : term.isOperand = true := by
  cases term with
  | operator tag op => cases alternates
  | _ => rfl

/-- Terms that alternate make a row. -/
theorem exists_of_alternates : (terms : List Term) → Item.Alternates (terms.map Term.item) →
    ∃ row : TermRow, terms = row.terms ∧ row.IsProper
  | [], alternates => nomatch alternates
  | [term], alternates => by
    refine ⟨⟨term, []⟩, rfl, fun other member => ?_⟩
    rw [List.mem_singleton.1 member]
    exact isOperand_of_alternates alternates
  | first :: second :: rest, alternates => by
    have operand := isOperand_of_alternates alternates
    rw [List.map_cons, List.map_cons, Term.item_of_isOperand operand] at alternates
    cases second with
    | operator tag op =>
      have later := (Item.alternates_join.1 alternates).2
      rcases exists_of_alternates rest later with ⟨row, rfl, proper⟩
      refine ⟨⟨first, (tag, op, row.first) :: row.rest⟩, rfl, fun other member => ?_⟩
      rcases List.mem_cons.1 member with rfl | member
      · exact operand
      · exact proper other member
    | _ => cases alternates

/-- The total of a row is that of its plain reading. -/
theorem totalOfTerms_eq {row : TermRow} (proper : row.IsProper) (ledger : Ledger) :
    ledger.totalOfTerms row.terms =
      plainTotal ledger.total (formulaOf row.terms) row.first row.joined := by
  rw [Ledger.totalOfTerms, treeOfTerms_terms proper, ← Tree.total_ofRun]
  rfl

end TermRow

/-- The total of a roll whose terms alternate is that of the plain reading: what was computed so
far is combined with the next maximal run of factors before anything behind it is read.  Value and
first fault are the same, and the stacks that build and walk the precedence tree are never found
empty.  The total of a single operand is what this operand amounts to, be it a text. -/
theorem totalOfTerms_eq_plainTotal (ledger : Ledger) (roll : Roll)
    (alternates : Item.Alternates (roll.terms.map Term.item)) :
    ∃ row : TermRow, roll.terms = row.terms ∧ row.IsProper ∧
      ledger.totalOfTerms roll.terms =
        plainTotal ledger.total roll.formula row.first row.joined ∧
      ledger.stackTotal roll.terms =
        some (plainTotal ledger.total roll.formula row.first row.joined) ∧
      (row.rest = [] → ledger.totalOfTerms roll.terms = ledger.total row.first) := by
  rcases TermRow.exists_of_alternates roll.terms alternates with ⟨row, same, proper⟩
  have total : ledger.totalOfTerms roll.terms =
      plainTotal ledger.total roll.formula row.first row.joined := by
    rw [RollOf.formula, same, TermRow.totalOfTerms_eq proper]
  refine ⟨row, same, proper, total, ?_, fun single => ?_⟩
  · rw [Ledger.stackTotal_eq, total]
  · rw [total, TermRow.joined, single]
    exact (bind_pure _).trans (bind_pure _)

/-- A roll of a word minus one divided by zero. -/
def wordRoll : Roll where
  id := 5
  options := []
  data := []
  terms := [.text ⟨0, []⟩ (.string "'x'"), .operator ⟨1, []⟩ .sub,
    .numeric ⟨2, []⟩ (.number (.int 1)), .operator ⟨3, []⟩ .div,
    .numeric ⟨4, []⟩ (.number (.int 0))]

/-- The ledger in which the terms of a roll are evaluated. -/
def RollOf.evaluatedTerms (roll : Roll) : Ledger :=
  roll.terms.foldl (fun ledger term =>
    ledger.updateTerm term.id fun state => { state with phase := .evaluated }) Ledger.empty

/-- The word stands in front, but its difference is taken only when the quotient is known, so the
division is what fails. -/
theorem wordRoll_fails_to_divide :
    Item.Alternates (wordRoll.terms.map Term.item) ∧
    (∀ term ∈ wordRoll.terms, wordRoll.evaluatedTerms.isEvaluated term = true) ∧
    wordRoll.evaluatedTerms.stackTotal wordRoll.terms =
      some (.error (.use (.divisionByZero "'x' - 1 / 0"))) := by
  have alternates : Item.Alternates (wordRoll.terms.map Term.item) :=
    .join _ .sub _ (.join _ .div _ (.single _))
  have computed : wordRoll.evaluatedTerms.totalOfTerms wordRoll.terms =
      .error (.use (.divisionByZero "'x' - 1 / 0")) := rfl
  rcases totalOfTerms_eq_plainTotal wordRoll.evaluatedTerms wordRoll alternates with
    ⟨row, _, _, total, byStacks, _⟩
  refine ⟨alternates, by decide, ?_⟩
  rw [byStacks, ← total, computed]

end DiceNotation
