import DiceNotation.Proofs.Roll.Built
import DiceNotation.Roll.Explanation
import DiceNotation.Roll.Walk

namespace DiceNotation

/-!
# Other identities

A term that is built a second time has the same parts with other identities.  What
a term says about itself, such as its formula and the order of its dice, does not
depend on identities.  What a ledger says about it does, but only as far as the
ledger knows something else about the new identities than about the old ones.
-/

def Tag.renumber (f : Identity → Identity) (tag : Tag) : Tag := { tag with id := f tag.id }

namespace Term

mutual

/-- The term in which every identity is replaced by another one. -/
def renumber (f : Identity → Identity) : Term → Term
  | numeric tag value => numeric (tag.renumber f) value
  | operator tag op => operator (tag.renumber f) op
  | text tag word => text (tag.renumber f) word
  | group tag roll => group (tag.renumber f)
      { id := f roll.id, options := roll.options, data := roll.data,
        terms := renumberRow f roll.terms }
  | function tag fn rolls => function (tag.renumber f) fn (renumberRolls f rolls)
  | dice d => dice
      { tag := d.tag.renumber f, kind := d.kind, number := renumberAmount f d.number,
        faces := renumberAmount f d.faces, modifiers := d.modifiers }
  | pool p => pool
      { tag := p.tag.renumber f, rolls := renumberRolls f p.rolls, modifiers := p.modifiers }

def renumberRow (f : Identity → Identity) : List Term → List Term
  | [] => []
  | term :: rest => renumber f term :: renumberRow f rest

def renumberRolls (f : Identity → Identity) : List (RollOf Term) → List (RollOf Term)
  | [] => []
  | roll :: rest =>
    { id := f roll.id, options := roll.options, data := roll.data,
      terms := renumberRow f roll.terms } :: renumberRolls f rest

def renumberAmount (f : Identity → Identity) : Operand Term → Operand Term
  | .known n => .known n
  | .computed term => .computed (renumber f term)

end

end Term

/-- The roll in which every identity is replaced by another one. -/
def RollOf.renumber (f : Identity → Identity) (roll : Roll) : Roll where
  id := f roll.id
  options := roll.options
  data := roll.data
  terms := Term.renumberRow f roll.terms

/-- The dice in which every identity is replaced by another one. -/
def DiceOf.renumber (f : Identity → Identity) (dice : Dice) : Dice where
  tag := dice.tag.renumber f
  kind := dice.kind
  number := Term.renumberAmount f dice.number
  faces := Term.renumberAmount f dice.faces
  modifiers := dice.modifiers

namespace Term

variable (f : Identity → Identity)

theorem renumberRow_eq_map (terms : List Term) : renumberRow f terms = terms.map (renumber f) := by
  induction terms with
  | nil => rfl
  | cons term rest ih =>
    rw [renumberRow, ih]
    rfl

theorem renumberRolls_eq_map (rolls : List Roll) :
    renumberRolls f rolls = rolls.map (RollOf.renumber f) := by
  induction rolls with
  | nil => rfl
  | cons roll rest ih =>
    rw [renumberRolls, ih]
    rfl

theorem id_renumber (term : Term) : (term.renumber f).id = f term.id := by
  cases term <;> rfl

theorem tag_renumber (term : Term) : (term.renumber f).tag = term.tag.renumber f := by
  cases term <;> rfl

theorem termClass_renumber (term : Term) : (term.renumber f).termClass = term.termClass := by
  cases term <;> rfl

theorem flavored_renumber (tag : Tag) (text : String) :
    (tag.renumber f).flavored text = tag.flavored text := rfl

/-! ## Formulas -/

mutual

theorem formula_renumber : (term : Term) → (term.renumber f).formula = term.formula
  | .numeric _ _ => rfl
  | .operator _ _ => rfl
  | .text _ _ => rfl
  | .group tag roll => by
    have inside := formulas_renumber roll.terms
    simp only [renumber, formula, inside, flavored_renumber]
  | .function tag fn rolls => by
    have inside := rollFormulas_renumber rolls
    simp only [renumber, formula, inside, flavored_renumber]
  | .dice d => by
    have number := amountFormula_renumber d.number
    have faces := amountFormula_renumber d.faces
    simp only [renumber, formula, number, faces, flavored_renumber]
  | .pool p => by
    have inside := rollFormulas_renumber p.rolls
    simp only [renumber, formula, inside, flavored_renumber]

theorem formulas_renumber : (terms : List Term) → formulas (renumberRow f terms) = formulas terms
  | [] => rfl
  | term :: rest => by
    rw [renumberRow, formulas, formulas, formula_renumber term, formulas_renumber rest]

theorem rollFormulas_renumber : (rolls : List (RollOf Term)) →
    rollFormulas (renumberRolls f rolls) = rollFormulas rolls
  | [] => rfl
  | roll :: rest => by
    rw [renumberRolls, rollFormulas, rollFormulas, formulas_renumber roll.terms,
      rollFormulas_renumber rest]

theorem amountFormula_renumber : (amount : Operand Term) →
    amountFormula (renumberAmount f amount) = amountFormula amount
  | .known _ => rfl
  | .computed term => formula_renumber term

end

mutual

theorem hasFormula_renumber : (term : Term) → (term.renumber f).hasFormula = term.hasFormula
  | .numeric _ _ => rfl
  | .operator _ _ => rfl
  | .text _ _ => rfl
  | .group _ _ => rfl
  | .function _ _ _ => rfl
  | .dice d => by
    have number := amountHasFormula_renumber d.number
    have faces := amountHasFormula_renumber d.faces
    simp only [renumber, hasFormula, number, faces]
  | .pool _ => rfl

theorem amountHasFormula_renumber : (amount : Operand Term) →
    hasFormula.amountHasFormula (renumberAmount f amount) = hasFormula.amountHasFormula amount
  | .known _ => rfl
  | .computed term => hasFormula_renumber term

end

theorem formulaData_renumber (term : Term) :
    (term.renumber f).formulaData = term.formulaData := by
  have same := formula_renumber f term
  cases term with
  | text tag word => rfl
  | _ => exact congrArg Json.string same

theorem isWritten_renumber (term : Term) : (term.renumber f).isWritten = term.isWritten := by
  rw [isWritten, isWritten, hasFormula_renumber, formulaData_renumber]

theorem isOperand_renumber (term : Term) : (term.renumber f).isOperand = term.isOperand := by
  cases term <;> rfl

end Term

theorem RollOf.formula_renumber (f : Identity → Identity) (roll : Roll) :
    (roll.renumber f).formula = roll.formula := by
  change " ".intercalate (Term.formulas (Term.renumberRow f roll.terms)) = _
  rw [Term.formulas_renumber]
  rfl

/-! ## Conditions on every part -/

section

variable {P : Term → Prop} {Q : Roll → Prop} {f : Identity → Identity}

mutual

/-- A condition holds in every part of a renumbered term if it holds for every part of
the term after it was renumbered. -/
theorem Term.Throughout.renumber : {term : Term} →
    term.Throughout (fun inner => P (inner.renumber f)) (fun roll => Q (roll.renumber f)) →
    (term.renumber f).Throughout P Q
  | .numeric _ _, holds => holds
  | .operator _ _, holds => holds
  | .text _ _, holds => holds
  | .group _ _, ⟨here, around, inside⟩ => ⟨here, around, RowThroughout.renumber inside⟩
  | .function _ _ _, ⟨here, inside⟩ => ⟨here, RollsThroughout.renumber inside⟩
  | .dice _, ⟨here, number, faces⟩ =>
    ⟨here, AmountThroughout.renumber number, AmountThroughout.renumber faces⟩
  | .pool _, ⟨here, inside⟩ => ⟨here, RollsThroughout.renumber inside⟩

theorem RowThroughout.renumber : {terms : List Term} →
    RowThroughout (fun inner => P (inner.renumber f)) (fun roll => Q (roll.renumber f)) terms →
    RowThroughout P Q (Term.renumberRow f terms)
  | [], _ => trivial
  | _ :: _, ⟨here, later⟩ => ⟨Term.Throughout.renumber here, RowThroughout.renumber later⟩

theorem RollsThroughout.renumber : {rolls : List Roll} →
    RollsThroughout (fun inner => P (inner.renumber f)) (fun roll => Q (roll.renumber f)) rolls →
    RollsThroughout P Q (Term.renumberRolls f rolls)
  | [], _ => trivial
  | _ :: _, ⟨around, row, later⟩ =>
    ⟨around, RowThroughout.renumber row, RollsThroughout.renumber later⟩

theorem AmountThroughout.renumber : {amount : Operand Term} →
    AmountThroughout (fun inner => P (inner.renumber f)) (fun roll => Q (roll.renumber f)) amount →
    AmountThroughout P Q (Term.renumberAmount f amount)
  | .known _, _ => trivial
  | .computed _, holds => Term.Throughout.renumber holds

end

mutual

/-- A condition that holds in every part of a renumbered term holds for every part of the
term after it was renumbered. -/
theorem Term.Throughout.of_renumber : {term : Term} → (term.renumber f).Throughout P Q →
    term.Throughout (fun inner => P (inner.renumber f)) (fun roll => Q (roll.renumber f))
  | .numeric _ _, holds => holds
  | .operator _ _, holds => holds
  | .text _ _, holds => holds
  | .group _ _, ⟨here, around, inside⟩ => ⟨here, around, RowThroughout.of_renumber inside⟩
  | .function _ _ _, ⟨here, inside⟩ => ⟨here, RollsThroughout.of_renumber inside⟩
  | .dice _, ⟨here, number, faces⟩ =>
    ⟨here, AmountThroughout.of_renumber number, AmountThroughout.of_renumber faces⟩
  | .pool _, ⟨here, inside⟩ => ⟨here, RollsThroughout.of_renumber inside⟩

theorem RowThroughout.of_renumber : {terms : List Term} →
    RowThroughout P Q (Term.renumberRow f terms) →
    RowThroughout (fun inner => P (inner.renumber f)) (fun roll => Q (roll.renumber f)) terms
  | [], _ => trivial
  | _ :: _, ⟨here, later⟩ => ⟨Term.Throughout.of_renumber here, RowThroughout.of_renumber later⟩

theorem RollsThroughout.of_renumber : {rolls : List Roll} →
    RollsThroughout P Q (Term.renumberRolls f rolls) →
    RollsThroughout (fun inner => P (inner.renumber f)) (fun roll => Q (roll.renumber f)) rolls
  | [], _ => trivial
  | _ :: _, ⟨around, row, later⟩ =>
    ⟨around, RowThroughout.of_renumber row, RollsThroughout.of_renumber later⟩

theorem AmountThroughout.of_renumber : {amount : Operand Term} →
    AmountThroughout P Q (Term.renumberAmount f amount) →
    AmountThroughout (fun inner => P (inner.renumber f)) (fun roll => Q (roll.renumber f)) amount
  | .known _, _ => trivial
  | .computed _, holds => Term.Throughout.of_renumber holds

end

end

/-! ## Dice in order -/

theorem Term.children_renumber (f : Identity → Identity) (term : Term) :
    (term.renumber f).children = term.children.map (Term.renumber f) := by
  have ofRolls (rolls : List Roll) :
      (Term.renumberRolls f rolls).flatMap (·.terms) =
        (rolls.flatMap (·.terms)).map (Term.renumber f) := by
    rw [Term.renumberRolls_eq_map, List.flatMap_map, List.map_flatMap]
    congr
    funext roll
    exact Term.renumberRow_eq_map f roll.terms
  have ofAmount (amount : Operand Term) :
      (Term.renumberAmount f amount).term?.toList = amount.term?.toList.map (Term.renumber f) := by
    cases amount <;> rfl
  cases term with
  | numeric tag value => rfl
  | operator tag op => rfl
  | text tag word => rfl
  | group tag roll => exact Term.renumberRow_eq_map f roll.terms
  | function tag fn rolls => exact ofRolls rolls
  | pool p => exact ofRolls p.rolls
  | dice d =>
    change (Term.renumberAmount f d.number).term?.toList ++
      (Term.renumberAmount f d.faces).term?.toList = _
    rw [ofAmount, ofAmount, ← List.map_append]
    rfl

theorem Term.dice?_renumber (f : Identity → Identity) (term : Term) :
    (term.renumber f).dice? = term.dice?.map (DiceOf.renumber f) := by
  cases term <;> rfl

theorem Term.diceFrom_renumber (f : Identity → Identity) (terms : List Term) :
    Term.diceFrom (terms.map (Term.renumber f)) =
      (Term.diceFrom terms).map (DiceOf.renumber f) := by
  have step (term : Term) (rest : List Term)
      (later : Term.diceFrom ((term.children ++ rest).map (Term.renumber f)) =
        (Term.diceFrom (term.children ++ rest)).map (DiceOf.renumber f)) :
      Term.diceFrom ((term :: rest).map (Term.renumber f)) =
        (Term.diceFrom (term :: rest)).map (DiceOf.renumber f) := by
    rw [List.map_cons, Term.diceFrom_cons, Term.diceFrom_cons, Term.children_renumber,
      ← List.map_append, later, Term.dice?_renumber, List.map_append]
    cases term.dice? <;> rfl
  induction terms using Term.diceFrom.induct with
  | case1 => simp [Term.diceFrom]
  | case2 term rest dice is ih => exact step term rest ih
  | case3 term rest is ih => exact step term rest ih

/-- The dice of a renumbered roll are the dice of the roll, renumbered. -/
theorem RollOf.dice_renumber (f : Identity → Identity) (roll : Roll) :
    (roll.renumber f).dice = roll.dice.map (DiceOf.renumber f) := by
  change Term.diceFrom (Term.renumberRow f roll.terms) = _
  rw [Term.renumberRow_eq_map, Term.diceFrom_renumber]
  rfl

end DiceNotation
