import DiceNotation.Proofs.Roll.Ledgers
import DiceNotation.Proofs.Roll.Distinct

namespace DiceNotation

/-!
# Dice in the order of evaluation

The dice of a roll are rolled from left to right.  What is inside brackets, functions and
pools comes where they stand, and the dice in the number and in the faces of other dice
come before these.  In this order every die of the roll is listed once.
-/

mutual

/-- The dice in a term, in the order in which they are rolled. -/
def Term.diceInTurn : Term → List Dice
  | .numeric _ _ => []
  | .operator _ _ => []
  | .text _ _ => []
  | .group _ roll => rowDiceInTurn roll.terms
  | .function _ _ rolls => rollsDiceInTurn rolls
  | .dice d => amountDiceInTurn d.number ++ amountDiceInTurn d.faces ++ [d]
  | .pool p => rollsDiceInTurn p.rolls

/-- The dice in a row of terms, in the order in which they are rolled. -/
def rowDiceInTurn : List Term → List Dice
  | [] => []
  | term :: rest => term.diceInTurn ++ rowDiceInTurn rest

/-- The dice in rolls, in the order in which they are rolled. -/
def rollsDiceInTurn : List (RollOf Term) → List Dice
  | [] => []
  | roll :: rest => rowDiceInTurn roll.terms ++ rollsDiceInTurn rest

/-- The dice in an amount, in the order in which they are rolled. -/
def amountDiceInTurn : Operand Term → List Dice
  | .known _ => []
  | .computed term => term.diceInTurn

end

/-- The dice of a roll, in the order in which they are rolled. -/
def RollOf.diceInTurn (roll : Roll) : List Dice := rowDiceInTurn roll.terms

theorem Term.diceFrom_nil : diceFrom [] = [] := by
  rw [diceFrom]

theorem Term.diceFrom_append (front back : List Term) :
    diceFrom (front ++ back) = diceFrom front ++ diceFrom back := by
  rw [diceFrom_eq, diceFrom_eq, diceFrom_eq, partsFrom_append, List.filterMap_append]

theorem Term.diceFrom_term (term : Term) :
    diceFrom [term] = term.dice?.toList ++ diceFrom term.children := by
  rw [diceFrom_cons, List.append_nil]

/-! ## Every die once -/

mutual

/-- The order of evaluation lists the same dice as the order of the record. -/
theorem Term.diceInTurn_perm : (term : Term) → term.diceInTurn.Perm (Term.diceFrom [term])
  | .numeric _ _ => by
    rw [Term.diceFrom_term]
    exact Term.diceFrom_nil ▸ .nil
  | .operator _ _ => by
    rw [Term.diceFrom_term]
    exact Term.diceFrom_nil ▸ .nil
  | .text _ _ => by
    rw [Term.diceFrom_term]
    exact Term.diceFrom_nil ▸ .nil
  | .group tag roll => by
    rw [Term.diceFrom_term]
    exact rowDiceInTurn_perm roll.terms
  | .function tag fn rolls => by
    rw [Term.diceFrom_term]
    exact rollsDiceInTurn_perm rolls
  | .dice d => by
    rw [Term.diceFrom_term]
    change (amountDiceInTurn d.number ++ amountDiceInTurn d.faces ++ [d]).Perm
      ([d] ++ Term.diceFrom (d.number.term?.toList ++ d.faces.term?.toList))
    rw [Term.diceFrom_append]
    have amounts := (amountDiceInTurn_perm d.number).append (amountDiceInTurn_perm d.faces)
    exact (amounts.append_right [d]).trans List.perm_append_comm
  | .pool p => by
    rw [Term.diceFrom_term]
    exact rollsDiceInTurn_perm p.rolls

theorem rowDiceInTurn_perm : (terms : List Term) →
    (rowDiceInTurn terms).Perm (Term.diceFrom terms)
  | [] => Term.diceFrom_nil ▸ .nil
  | term :: rest => by
    have parts := (Term.diceInTurn_perm term).append (rowDiceInTurn_perm rest)
    rwa [← Term.diceFrom_append] at parts

theorem rollsDiceInTurn_perm : (rolls : List Roll) →
    (rollsDiceInTurn rolls).Perm (Term.diceFrom (rolls.flatMap (·.terms)))
  | [] => Term.diceFrom_nil ▸ .nil
  | roll :: rest => by
    rw [List.flatMap_cons, Term.diceFrom_append]
    exact (rowDiceInTurn_perm roll.terms).append (rollsDiceInTurn_perm rest)

theorem amountDiceInTurn_perm : (amount : Operand Term) →
    (amountDiceInTurn amount).Perm (Term.diceFrom amount.term?.toList)
  | .known _ => Term.diceFrom_nil ▸ .nil
  | .computed term => Term.diceInTurn_perm term

end

theorem RollOf.diceInTurn_perm (roll : Roll) : roll.diceInTurn.Perm roll.dice :=
  rowDiceInTurn_perm roll.terms

/-! ## Where the dice lie -/

/-- Dice lie in a range with all that is inside them. -/
def DiceLie (first stop : Nat) (dice : List Dice) : Prop :=
  ∀ d ∈ dice, ∃ low high, first ≤ low ∧ high ≤ stop ∧ (Term.dice d).Spans low high

namespace DiceLie

variable {first stop low high : Nat} {front back : List Dice}

theorem mono (lie : DiceLie low high front) (above : first ≤ low) (below : high ≤ stop) :
    DiceLie first stop front := by
  intro d member
  rcases lie d member with ⟨from_, upTo, lower, upper, spans⟩
  exact ⟨from_, upTo, Nat.le_trans above lower, Nat.le_trans upper below, spans⟩

theorem append (lie : DiceLie first stop front) (more : DiceLie first stop back) :
    DiceLie first stop (front ++ back) :=
  fun d member => (List.mem_append.1 member).elim (lie d) (more d)

end DiceLie

mutual

/-- The dice in a term lie in its range. -/
theorem Term.Spans.diceLie : {term : Term} → {first stop : Nat} → term.Spans first stop →
    DiceLie first stop term.diceInTurn
  | .numeric _ _, _, _, _ => nofun
  | .operator _ _, _, _, _ => nofun
  | .text _ _, _, _, _ => nofun
  | .group _ roll, _, stop, spans => by
    have ⟨row, _, _⟩ := spans
    have below : roll.id ≤ stop := by
      have ended := spans.2
      unfold Identity at *
      omega
    exact row.diceLie.mono (Nat.le_refl _) below
  | .function _ _ _, _, _, ⟨inside, ended⟩ =>
    inside.diceLie.mono (Nat.le_refl _) (ended ▸ Nat.le_succ _)
  | .dice d, first, stop, spans => by
    have ⟨⟨middle, number, faces⟩, ended⟩ := spans
    have before := amountSpans_le number
    have behind := amountSpans_le faces
    have below : d.tag.id ≤ stop := ended ▸ Nat.le_succ _
    refine ((number.diceLie.mono (Nat.le_refl _) (Nat.le_trans behind below)).append
      (faces.diceLie.mono before below)).append ?_
    intro own member
    obtain rfl := List.mem_singleton.1 member
    exact ⟨first, stop, Nat.le_refl _, Nat.le_refl _, spans⟩
  | .pool _, _, _, ⟨inside, ended⟩ =>
    inside.diceLie.mono (Nat.le_refl _) (ended ▸ Nat.le_succ _)

theorem RowSpans.diceLie : {terms : List Term} → {first stop : Nat} → RowSpans terms first stop →
    DiceLie first stop (rowDiceInTurn terms)
  | [], _, _, _ => nofun
  | _ :: _, _, _, ⟨_, here, later⟩ =>
    (here.diceLie.mono (Nat.le_refl _) (rowSpans_le later)).append
      (later.diceLie.mono (Nat.le_of_lt here.lt) (Nat.le_refl _))

theorem RollsSpan.diceLie : {rolls : List Roll} → {first stop : Nat} →
    RollsSpan rolls first stop → DiceLie first stop (rollsDiceInTurn rolls)
  | [], _, _, _ => nofun
  | _ :: _, _, _, ⟨here, later⟩ =>
    (here.diceLie.mono (Nat.le_refl _) (Nat.le_of_succ_le (rollsSpan_le later))).append
      (later.diceLie.mono (Nat.le_succ_of_le (rowSpans_le here)) (Nat.le_refl _))

theorem AmountSpans.diceLie : {amount : Operand Term} → {first stop : Nat} →
    AmountSpans amount first stop → DiceLie first stop (amountDiceInTurn amount)
  | .known _, _, _, _ => nofun
  | .computed _, _, _, spans => Term.Spans.diceLie spans

end

/-! ## The results of dice -/

namespace Ledger

/-- The results of dice, each with its die, in order. -/
def resultsOf (ledger : Ledger) (dice : List Dice) : List (Dice × Json) :=
  dice.flatMap fun d => (ledger.outcomes d.tag.id).map fun outcome => (d, outcome.value)

/-- Two ledgers have the same results of dice, and the dice have the same range in both. -/
def SameResults (ledger other : Ledger) (dice : List Dice) : Prop :=
  ∀ d ∈ dice, (ledger.outcomes d.tag.id).map (·.value) = (other.outcomes d.tag.id).map (·.value) ∧
    ledger.maximumValue d = other.maximumValue d

variable {ledger other : Ledger} {dice front back : List Dice}

theorem resultsOf_append (front back : List Dice) :
    ledger.resultsOf (front ++ back) = ledger.resultsOf front ++ ledger.resultsOf back :=
  List.flatMap_append

theorem resultsOf_single (d : Dice) : ledger.resultsOf [d] =
    ((ledger.outcomes d.tag.id).map (·.value)).map (d, ·) := by
  rw [resultsOf, List.flatMap_singleton, List.map_map]
  rfl

theorem SameResults.resultsOf (same : SameResults ledger other dice) :
    ledger.resultsOf dice = other.resultsOf dice := by
  induction dice with
  | nil => rfl
  | cons d rest ih =>
    have here := (same d List.mem_cons_self).1
    have later := ih fun other member => same other (List.mem_cons_of_mem d member)
    rw [← List.singleton_append, resultsOf_append, resultsOf_append, later, resultsOf_single,
      resultsOf_single, here]

theorem mapUniform_congr {d : Dice} (same : ledger.maximumValue d = other.maximumValue d)
    (u : Json) : ledger.mapUniform d u = other.mapUniform d u := by
  unfold mapUniform
  rw [same]

theorem SameOn.amount {first stop : Nat} (same : SameOn ledger other first stop)
    {amount : Operand Term} (spans : AmountSpans amount first stop) :
    ledger.amount amount = other.amount amount := by
  cases amount with
  | known n => rfl
  | computed term => exact congrArg (Except.map Json.wholeNumber) (same.total spans)

/-- What is the same about the faces of dice is the same about their range. -/
theorem SameOn.maximumValue {first stop : Nat} (same : SameOn ledger other first stop) {d : Dice}
    (faces : AmountSpans d.faces first stop) : ledger.maximumValue d = other.maximumValue d := by
  unfold Ledger.maximumValue
  rw [same.amount faces]

/-- Ledgers that are the same where dice lie have the same results of them. -/
theorem SameOn.sameResults {first stop : Nat} (same : SameOn ledger other first stop)
    (lie : DiceLie first stop dice) : SameResults ledger other dice := by
  intro d member
  rcases lie d member with ⟨low, high, above, below, spans⟩
  have within := same.mono above below
  have here := within d.tag.id spans.first_le spans.id_lt
  refine ⟨congrArg (fun state => state.outcomes.map (·.value)) here.term, ?_⟩
  rcases spans with ⟨⟨middle, number, faces⟩, rfl⟩
  exact (within.mono (amountSpans_le number) (Nat.le_succ _)).maximumValue faces

end Ledger
end DiceNotation
