import DiceNotation.Proofs.Roll.Made
import DiceNotation.Proofs.Roll.DiceInTurn
import Mathlib.Logic.Relation

namespace DiceNotation

/-!
# Visiting terms with a stack

The dice of a roll are collected with a stack.  Each turn takes the last term from it,
notes the term if it is dice, and puts its children on the stack, the last child first.
Both the terms of the roll and the children of a term are put there in reverse, so the
stack read from its end is always what is left of the traversal by recursion, which
visits a term before its children and the children from left to right.

The collection ends after as many turns as there are terms.  Nothing is assumed about the
identities of terms for that.  They only matter for what is said of a roll from a formula,
that no die is collected twice.
-/

/-! ## The loop -/

/-- Where the collection stands: the terms on the stack, the last one on top, and the dice
that were found. -/
structure Walk where
  stack : List Term
  found : List Dice

namespace Walk

/-- The stack before the first turn. -/
def start (terms : List Term) : Walk := ⟨terms.reverse, []⟩

/-- One turn: the term on top makes way for its children.  There is none if the stack is
empty. -/
def turn (walk : Walk) : Option Walk :=
  match walk.stack.getLast? with
  | none => none
  | some term =>
    some ⟨walk.stack.dropLast ++ term.children.reverse, walk.found ++ term.dice?.toList⟩

/-- The dice that were found when no turn is left, unless more turns than the given number
are needed. -/
def run : Nat → Walk → Option (List Dice)
  | 0, walk => if walk.turn.isNone then some walk.found else none
  | fuel + 1, walk =>
    match walk.turn with
    | none => some walk.found
    | some next => next.run fuel

/-- A walk whose stack is the reverse of the terms that are to be visited. -/
def pending (terms : List Term) (found : List Dice) : Walk := ⟨terms.reverse, found⟩

theorem turn_top (below : List Term) (term : Term) (found : List Dice) :
    (Walk.mk (below ++ [term]) found).turn =
      some ⟨below ++ term.children.reverse, found ++ term.dice?.toList⟩ := by
  simp only [turn, List.getLast?_concat, List.dropLast_concat]

/-- The two reversals cancel: the children come before the terms behind their parent. -/
theorem turn_pending_cons (term : Term) (rest : List Term) (found : List Dice) :
    (pending (term :: rest) found).turn =
      some (pending (term.children ++ rest) (found ++ term.dice?.toList)) := by
  rw [pending, List.reverse_cons, turn_top, ← List.reverse_append]
  rfl

/-- As many turns as there are terms suffice to find all dice among them. -/
theorem run_pending {fuel : Nat} {terms : List Term} (enough : Term.sizes terms ≤ fuel)
    (found : List Dice) : (pending terms found).run fuel = some (found ++ Term.diceFrom terms) := by
  induction fuel generalizing terms found with
  | zero =>
    cases terms with
    | nil =>
      rw [Term.diceFrom_nil, List.append_nil]
      rfl
    | cons term rest =>
      have smaller := Term.sizes_children_lt term
      rw [Term.sizes_cons] at enough
      omega
  | succ fuel ih =>
    cases terms with
    | nil =>
      rw [Term.diceFrom_nil, List.append_nil]
      rfl
    | cons term rest =>
      have smaller := Term.sizes_children_lt term
      have left : Term.sizes (term.children ++ rest) ≤ fuel := by
        rw [Term.sizes_cons] at enough
        rw [Term.sizes_append]
        omega
      rw [run, turn_pending_cons]
      change (pending (term.children ++ rest) _).run fuel = _
      rw [ih left, Term.diceFrom_cons, List.append_assoc]

end Walk

/-! ## The traversal by recursion -/

mutual

/-- A term and then everything inside it, from left to right. -/
def Term.preorder : Term → List Term
  | .numeric tag value => [.numeric tag value]
  | .operator tag op => [.operator tag op]
  | .text tag word => [.text tag word]
  | .group tag roll => .group tag roll :: rowPreorder roll.terms
  | .function tag fn rolls => .function tag fn rolls :: rollsPreorder rolls
  | .dice d => .dice d :: (amountPreorder d.number ++ amountPreorder d.faces)
  | .pool p => .pool p :: rollsPreorder p.rolls

/-- The terms of a row from left to right, each followed by everything inside it. -/
def rowPreorder : List Term → List Term
  | [] => []
  | term :: rest => term.preorder ++ rowPreorder rest

/-- Everything inside rolls from left to right. -/
def rollsPreorder : List (RollOf Term) → List Term
  | [] => []
  | roll :: rest => rowPreorder roll.terms ++ rollsPreorder rest

/-- The term of an amount and everything inside it. -/
def amountPreorder : Operand Term → List Term
  | .known _ => []
  | .computed term => term.preorder

end

theorem Term.partsFrom_single (term : Term) : partsFrom [term] = term :: partsFrom term.children := by
  rw [partsFrom_term, partsFrom_nil, List.append_nil]

theorem Term.partsFrom_leaf {term : Term} (leaf : term.children = []) : partsFrom [term] = [term] := by
  rw [partsFrom_single, leaf, partsFrom_nil]

mutual

/-- The parts of a term come in the order of the recursion. -/
theorem Term.partsFrom_eq_preorder : (term : Term) → Term.partsFrom [term] = term.preorder
  | .numeric _ _ => Term.partsFrom_leaf rfl
  | .operator _ _ => Term.partsFrom_leaf rfl
  | .text _ _ => Term.partsFrom_leaf rfl
  | .group _ roll => by
    rw [Term.partsFrom_single]
    exact congrArg (_ :: ·) (partsFrom_eq_rowPreorder roll.terms)
  | .function _ _ rolls => by
    rw [Term.partsFrom_single]
    exact congrArg (_ :: ·) (partsFrom_eq_rollsPreorder rolls)
  | .dice d => by
    rw [Term.partsFrom_single]
    change _ :: Term.partsFrom (d.number.term?.toList ++ d.faces.term?.toList) = _
    rw [Term.partsFrom_append, partsFrom_eq_amountPreorder d.number,
      partsFrom_eq_amountPreorder d.faces]
    rfl
  | .pool p => by
    rw [Term.partsFrom_single]
    exact congrArg (_ :: ·) (partsFrom_eq_rollsPreorder p.rolls)

theorem partsFrom_eq_rowPreorder : (terms : List Term) → Term.partsFrom terms = rowPreorder terms
  | [] => Term.partsFrom_nil
  | term :: rest => by
    have parts := Term.partsFrom_append [term] rest
    rwa [Term.partsFrom_eq_preorder term, partsFrom_eq_rowPreorder rest] at parts

theorem partsFrom_eq_rollsPreorder : (rolls : List Roll) →
    Term.partsFrom (rolls.flatMap (·.terms)) = rollsPreorder rolls
  | [] => Term.partsFrom_nil
  | roll :: rest => by
    rw [List.flatMap_cons, Term.partsFrom_append, partsFrom_eq_rowPreorder roll.terms,
      partsFrom_eq_rollsPreorder rest]
    rfl

theorem partsFrom_eq_amountPreorder : (amount : Operand Term) →
    Term.partsFrom amount.term?.toList = amountPreorder amount
  | .known _ => Term.partsFrom_nil
  | .computed term => Term.partsFrom_eq_preorder term

end

/-- The dice of a roll come in the order of the recursion. -/
theorem RollOf.dice_eq_preorder (roll : Roll) :
    roll.dice = (rowPreorder roll.terms).filterMap Term.dice? := by
  rw [RollOf.dice, Term.diceFrom_eq, partsFrom_eq_rowPreorder]

/-! ## What is visited -/

/-- A term is another one, or somewhere inside it. -/
def Term.Holds (outer inner : Term) : Prop :=
  Relation.ReflTransGen (fun term child => child ∈ term.children) outer inner

/-- The parts of a row are its terms and what is inside them, at any depth. -/
theorem Term.mem_partsFrom_iff {terms : List Term} {inner : Term} :
    inner ∈ partsFrom terms ↔ ∃ outer ∈ terms, outer.Holds inner := by
  constructor
  · intro member
    induction terms using partsFrom.induct with
    | case1 =>
      rw [partsFrom_nil] at member
      cases member
    | case2 term rest ih =>
      rw [partsFrom_cons] at member
      rcases List.mem_cons.1 member with rfl | further
      · exact ⟨inner, List.mem_cons_self, .refl⟩
      · rcases ih further with ⟨outer, among, holds⟩
        rcases List.mem_append.1 among with child | later
        · exact ⟨term, List.mem_cons_self, .head child holds⟩
        · exact ⟨outer, List.mem_cons_of_mem _ later, holds⟩
  · rintro ⟨outer, among, holds⟩
    induction holds with
    | refl => exact mem_partsFrom_of_mem among
    | tail _ child ih => exact mem_partsFrom_of_mem_children ih child

/-- The dice of a roll are those at any depth in its terms. -/
theorem RollOf.mem_dice_iff {roll : Roll} {dice : Dice} :
    dice ∈ roll.dice ↔ ∃ top ∈ roll.terms, top.Holds (.dice dice) := by
  rw [← Term.mem_partsFrom_iff]
  refine ⟨Term.mem_partsFrom_of_mem_diceFrom, fun member => ?_⟩
  rw [RollOf.dice, Term.diceFrom_eq]
  exact List.mem_filterMap.2 ⟨_, member, rfl⟩

/-- Afterwards all dice that were given a method have it. -/
theorem Ledger.method_withMethod_of_mem {method : Json} {dice : List Dice} {die : Dice}
    (member : die ∈ dice) (ledger : Ledger) :
    ((ledger.withMethod method dice).term die.tag.id).method = method := by
  induction dice generalizing ledger with
  | nil => cases member
  | cons first rest ih =>
    rw [withMethod_cons]
    rcases List.mem_cons.1 member with rfl | later
    · rcases (ledger.updateTerm die.tag.id fun state => { state with method := method })
        |>.method_withMethod method rest die.tag.id with given | kept
      · exact given
      · rw [kept, term_updateTerm, if_pos rfl]
    · exact ih later _

namespace Build

variable {setup : Setup}

/-- The loop finds the dice of a roll from a formula: it ends, and what it has found are all
dice at any depth, each once, in the order of the recursion.  So the method that is given
for a roll is the method of every die at any depth. -/
theorem dice_visited {input : RollInput} {ledger last : Ledger} {roll : Roll}
    (built : ofFormula setup input ledger = .ok (roll, last)) :
    (∀ fuel, Term.sizes roll.terms ≤ fuel → (Walk.start roll.terms).run fuel = some roll.dice) ∧
      roll.dice = (rowPreorder roll.terms).filterMap Term.dice? ∧
      (∀ dice, dice ∈ roll.dice ↔ ∃ top ∈ roll.terms, top.Holds (.dice dice)) ∧
      (roll.dice.map (·.tag.id)).Nodup ∧
      (input.method ≠ .null → ∀ top ∈ roll.terms, ∀ dice, top.Holds (.dice dice) →
        (last.term dice.tag.id).method = input.method) := by
  refine ⟨fun fuel enough => ?_, roll.dice_eq_preorder, fun _ => RollOf.mem_dice_iff,
    (ofFormula_isMade built).spans.dice_distinct, fun given top among dice holds => ?_⟩
  · exact Walk.run_pending enough []
  · rcases ofFormula_eq_ok.1 built with ⟨_, _, _, _, _, _, _, _, _, _, rfl⟩
    rw [withGivenMethod_of_ne given]
    exact Ledger.method_withMethod_of_mem (RollOf.mem_dice_iff.2 ⟨top, among, holds⟩) _

/-- A formula with dice in all kinds of places, of which all are to be rolled outside. -/
def nestedDice : RollInput where
  formula := "max((1d4)d(1d8), 2df) + \x7b1dc, (2d6)\x7dkh"
  method := .string "manual"

/-- Dice come before those in their number, and these before those in their faces. -/
theorem dice_visited_of_nestedDice : ∃ roll last,
    ofFormula usual nestedDice .empty = .ok (roll, last) ∧
    roll.dice.map DiceOf.formula = ["(1d4)d(1d8)", "1d4", "1d8", "2df", "1dc", "2d6"] ∧
    (Walk.start roll.terms).run (Term.sizes roll.terms) = some roll.dice ∧
    (roll.dice.map (·.tag.id)).Nodup ∧
    ∀ top ∈ roll.terms, ∀ dice, top.Holds (.dice dice) →
      (last.term dice.tag.id).method = .string "manual" := by
  have listed : (ofFormula usual nestedDice .empty).toOption.map
      (fun pair => pair.1.dice.map DiceOf.formula) =
        some ["(1d4)d(1d8)", "1d4", "1d8", "2df", "1dc", "2d6"] := by decide +kernel
  cases built : ofFormula usual nestedDice .empty with
  | error fault =>
    rw [built] at listed
    cases listed
  | ok pair =>
    rw [built] at listed
    rcases dice_visited built with ⟨ends, _, _, once, given⟩
    exact ⟨pair.1, pair.2, rfl, Option.some.inj listed, ends _ (Nat.le_refl _), once,
      given fun none => by cases none⟩

end Build
end DiceNotation
