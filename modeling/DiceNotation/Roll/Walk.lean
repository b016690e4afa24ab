import DiceNotation.Roll.Basic

namespace DiceNotation

/-!
# Visiting every die

All dice of a roll, nested ones included, are visited in the order of the
formula: a term before the terms inside it.  The walk keeps a list of the
terms still to be visited; each step takes one term off and puts its children
in front.  It ends because the terms inside a term are smaller than the term.
-/

namespace Term

mutual

/-- The number of terms that a term consists of, itself included. -/
def size : Term → Nat
  | numeric _ _ => 1
  | operator _ _ => 1
  | text _ _ => 1
  | group _ roll => 1 + sizes roll.terms
  | function _ _ rolls => 1 + rollSizes rolls
  | dice d => 1 + amountSize d.number + amountSize d.faces
  | pool p => 1 + rollSizes p.rolls

def sizes : List Term → Nat
  | [] => 0
  | term :: rest => size term + sizes rest

def rollSizes : List (RollOf Term) → Nat
  | [] => 0
  | roll :: rest => sizes roll.terms + rollSizes rest

def amountSize : Operand Term → Nat
  | .known _ => 0
  | .computed term => size term

end

theorem sizes_cons (term : Term) (rest : List Term) :
    sizes (term :: rest) = size term + sizes rest :=
  rfl

theorem sizes_append (first second : List Term) :
    sizes (first ++ second) = sizes first + sizes second := by
  induction first with
  | nil => exact (Nat.zero_add _).symm
  | cons term rest ih => simp only [List.cons_append, sizes_cons, ih]; omega

theorem sizes_flatMap_terms (rolls : List Roll) :
    sizes (rolls.flatMap (·.terms)) = rollSizes rolls := by
  induction rolls with
  | nil => simp [sizes, rollSizes]
  | cons roll rest ih => simp only [List.flatMap_cons, sizes_append, rollSizes, ih]

theorem sizes_term? (amount : Operand Term) : sizes amount.term?.toList = amountSize amount := by
  cases amount <;> rfl

/-- The children of a term are smaller than the term, taken together. -/
theorem sizes_children_lt (term : Term) : sizes term.children < size term := by
  cases term <;>
    simp only [children, size, sizes, sizes_append, sizes_flatMap_terms, sizes_term?] <;> omega

/-- The dice among the terms to be visited and inside them. -/
def diceFrom : List Term → List Dice
  | [] => []
  | term :: rest =>
    let more := diceFrom (term.children ++ rest)
    match term.dice? with
    | some d => d :: more
    | none => more
termination_by pending => sizes pending
decreasing_by
  have := sizes_children_lt term
  simp only [sizes_append, sizes]
  omega

end Term

/-- Every die of a roll in the order of its formula, nested ones included. -/
def RollOf.dice (roll : Roll) : List Dice := Term.diceFrom roll.terms

end DiceNotation
