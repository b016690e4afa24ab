import DiceNotation.Proofs.Formula.Readable
import DiceNotation.Proofs.Roll.Built

namespace DiceNotation

/-!
# Formulas of terms that were built

The term that is built from a clause is written as the canonical clause, whatever the
text was that the clause was read from.  So the formula of a roll is the canonical text
of the tree that the roll was built from.
-/

theorem Tag.flavored_flavorOptions (id : Identity) (flavor : Option String) (text : String) :
    Tag.flavored ⟨id, flavorOptions flavor⟩ text = withFlavor text flavor := by
  cases flavor with
  | none => rfl
  | some flavor =>
    by_cases empty : flavor = ""
    · subst empty
      rfl
    · have options : flavorOptions (some flavor) = [("flavor", .string flavor)] := by
        simp [flavorOptions, empty]
      have found : Tag.flavor? ⟨id, flavorOptions (some flavor)⟩ = some (.string flavor) := by
        rw [options]
        simp [Tag.flavor?, Fields.get?, Json.isSet, empty]
      simp [Tag.flavored, found, withFlavor, empty, Json.plainText]

theorem formulas_append (before behind : List Term) :
    Term.formulas (before ++ behind) = Term.formulas before ++ Term.formulas behind := by
  induction before with
  | nil => rfl
  | cons term rest ih => rw [List.cons_append, Term.formulas, ih, Term.formulas, List.cons_append]

/-- The formula of two rows with an operator between them. -/
theorem formulaOf_joined {before behind : List Term} (first : before ≠ []) (last : behind ≠ [])
    (id : Identity) (op : Operator) :
    formulaOf (before ++ .operator ⟨id, []⟩ op :: behind) =
      formulaOf before ++ " " ++ op.symbol ++ " " ++ formulaOf behind := by
  have written (terms : List Term) (some : terms ≠ []) : Term.formulas terms ≠ [] := by
    cases terms with
    | nil => exact absurd rfl some
    | cons term rest => exact List.cons_ne_nil _ _
  have sign : Term.formula (.operator ⟨id, []⟩ op) = op.symbol := rfl
  have tail : " ".intercalate (op.symbol :: Term.formulas behind) =
      op.symbol ++ " " ++ " ".intercalate (Term.formulas behind) := by
    have joined := String.intercalate_append_of_ne_nil (s := " ") (List.cons_ne_nil op.symbol [])
      (written behind last)
    rw [List.singleton_append] at joined
    rw [joined]
    simp
  rw [formulaOf, formulas_append, Term.formulas, sign,
    String.intercalate_append_of_ne_nil (written before first) (List.cons_ne_nil _ _), tail]
  simp only [formulaOf, String.append_assoc]

namespace Build

variable {setup : Setup}

theorem terms_ne_nil {tree : Tree Clause} {ledger last : Ledger} {row : List Term}
    (built : terms setup tree ledger = .ok (row, last)) : row ≠ [] := by
  cases tree with
  | leaf part =>
    rcases leaf_eq_ok.1 built with ⟨term, _, rfl⟩
    exact List.cons_ne_nil _ _
  | node op left right =>
    rcases node_eq_ok.1 built with ⟨before, middle, behind, _, _, rfl⟩
    exact List.append_ne_nil_of_right_ne_nil _ (List.cons_ne_nil _ _)

/-- A known or computed amount is written as it was given. -/
theorem amountFormula_of_check {given : AmountInput} {P : Term → Prop} {Q : Roll → Prop}
    {first stop : Nat} (holds : given.Holds P Q first stop) {what : DiceAmount} {least : Nat}
    {operand : Operand Term} (checked : given.check what least = .ok operand) :
    Term.amountFormula operand = given.formula := by
  cases given with
  | data value =>
    rcases holds with ⟨⟨n, rfl⟩, _⟩
    rcases AmountInput.check_number_eq_ok checked with ⟨_, rfl⟩
    rfl
  | term inner =>
    cases checked
    rfl
  | roll inner => exact holds.elim

theorem letter?_of_ofLetter? {code : String} {kind : DieKind}
    (named : DieKind.ofLetter? code = some kind) : kind.letter? = some code := by
  unfold DieKind.ofLetter? at named
  split at named
  · rename_i coin
    cases named
    cases beq_iff_eq.1 coin
    rfl
  · split at named
    · rename_i fate
      cases named
      cases beq_iff_eq.1 fate
      rfl
    · cases named

/-- Dice are written as their amounts and modifiers are given. -/
theorem dice_written {input : DiceInput} {ledger last : Ledger} {dice : Dice} {modifiers : String}
    {flavor : Option String} (text : input.modifiers = .string modifiers)
    (options : input.options = flavorOptions flavor) {P : Term → Prop} {Q : Roll → Prop}
    {first stop : Nat} (number : input.number.Holds P Q first stop) {sides : String}
    (faces : ∀ operand, (∃ given, input.checkFaces = .ok given ∧ given.check .faces 1 = .ok operand) →
      input.kind.letter?.getD (Term.amountFormula operand) = sides)
    (built : DiceInput.build setup input ledger = .ok (dice, last)) :
    (Term.dice dice).formula =
      withFlavor (input.number.formula ++ "d" ++ sides ++ modifiers) flavor := by
  rcases dice_eq_ok.1 built with ⟨count, operand, commands, outcomes, method, accepts, rfl, rfl⟩
  have cut := accepts.modifiers_cut
  rw [text] at cut
  cases cut
  rw [← faces operand accepts.faces_checked, ← amountFormula_of_check number accepts.number_checked,
    Term.formula, options, Tag.flavored_flavorOptions, Command.modifierText_splitText]
  cases input.kind.letter? <;> rfl

mutual

/-- The term of a clause is written as the canonical clause, and its faces are known. -/
theorem clause_written : (part : Clause) → {ledger last : Ledger} → {term : Term} →
    clause setup part ledger = .ok (term, last) →
    term.formula = part.canonical.raw ∧ part.Throughout Clause.HasKnownFaces
  | .numeric value flavor _, ledger, last, term, built => by
    rcases numeric_eq_ok.1 built with ⟨rfl, rfl⟩
    exact ⟨Tag.flavored_flavorOptions _ _ _, trivial⟩
  | .text text flavor _, ledger, last, term, built => by
    rcases word_eq_ok.1 built with ⟨rfl, rfl⟩
    exact ⟨Tag.flavored_flavorOptions _ _ _, trivial⟩
  | .group inner flavor raw, ledger, last, term, built => by
    rcases group_eq_ok.1 built with ⟨row, middle, roll, later, inside, around, rfl, rfl⟩
    rcases terms_built inner inside with ⟨grown, spans, _⟩
    rcases roll_of_fresh grown spans around with ⟨rfl, rfl, _⟩
    rcases terms_written inner inside with ⟨written, known⟩
    refine ⟨?_, trivial, known⟩
    rw [Term.formula, Tag.flavored_flavorOptions]
    exact congrArg (fun text => withFlavor ("(" ++ text ++ ")") flavor) written
  | .function name arguments flavor raw, ledger, last, term, built => by
    rcases clauseFunction_eq_ok.1 built with ⟨rolls, middle, fn, inside, selected, rfl, rfl⟩
    rcases rolls_written arguments inside with ⟨written, known⟩
    refine ⟨?_, trivial, known⟩
    rw [Term.formula, Tag.flavored_flavorOptions, written, Function.name_of_select selected]
    rfl
  | .pool members modifiers flavor raw, ledger, last, term, built => by
    rcases clausePool_eq_ok.1 built with ⟨rolls, middle, inside, rfl, rfl⟩
    rcases rolls_written members inside with ⟨written, known⟩
    refine ⟨?_, trivial, known⟩
    rw [Term.formula, Tag.flavored_flavorOptions, written, Command.modifierText_splitText]
    rfl
  | .dice number (.letter code) modifiers flavor raw, ledger, last, term, built => by
    rcases clauseDice_eq_ok.1 built with ⟨given, middle, first, dice⟩
    rcases diceLetter_eq_ok.1 dice with ⟨kind, made, named, rolled, rfl⟩
    rcases amount_written number first with ⟨written, known⟩
    have letter := letter?_of_ofLetter? named
    have shown : ∀ operand,
        (∃ found, (letterInput kind given modifiers flavor).checkFaces = .ok found ∧
          found.check .faces 1 = .ok operand) →
        kind.letter?.getD (Term.amountFormula operand) = code := by
      intro operand _
      rw [letter]
      rfl
    refine ⟨?_, ⟨⟨kind, named⟩, known, trivial⟩⟩
    rw [dice_written rfl rfl (amount_built number first).2 shown rolled]
    exact congrArg (fun text => withFlavor (text ++ "d" ++ code ++ modifiers) flavor) written
  | .dice number (.amount faces) modifiers flavor raw, ledger, last, term, built => by
    rcases clauseDice_eq_ok.1 built with ⟨given, middle, first, dice⟩
    rcases diceAmount_eq_ok.1 dice with ⟨sides, later, made, second, rolled, rfl⟩
    rcases amount_written number first with ⟨written, known⟩
    rcases amount_written faces second with ⟨sided, knownToo⟩
    refine ⟨?_, ⟨trivial, known, knownToo⟩⟩
    have shown : ∀ operand, (∃ found, (facesInput given sides modifiers flavor).checkFaces = .ok found ∧
        found.check .faces 1 = .ok operand) →
        DieKind.numbered.letter?.getD (Term.amountFormula operand) = sides.formula := by
      rintro operand ⟨found, checked, accepted⟩
      cases checkFaces_of_not_fixed rfl checked
      exact amountFormula_of_check (amount_built faces second).2 accepted
    rw [dice_written rfl rfl (amount_built number first).2 shown rolled, sided]
    exact congrArg (fun text => withFlavor (text ++ "d" ++ _ ++ modifiers) flavor) written

/-- The terms of a tree are written as the canonical tree. -/
theorem terms_written : (tree : Tree Clause) → {ledger last : Ledger} → {row : List Term} →
    terms setup tree ledger = .ok (row, last) →
    formulaOf row = (canonicalTree tree).raw ∧ TreeThroughout Clause.HasKnownFaces tree
  | .leaf part, ledger, last, row, built => by
    rcases leaf_eq_ok.1 built with ⟨term, single, rfl⟩
    rcases clause_written part single with ⟨written, known⟩
    refine ⟨?_, known⟩
    rw [formulaOf, Term.formulas, Term.formulas, String.intercalate_singleton]
    exact written
  | .node op left right, ledger, last, row, built => by
    rcases node_eq_ok.1 built with ⟨before, middle, behind, first, second, rfl⟩
    rcases terms_written left first with ⟨written, known⟩
    rcases terms_written right second with ⟨writtenToo, knownToo⟩
    refine ⟨?_, known, knownToo⟩
    rw [formulaOf_joined (terms_ne_nil first) (terms_ne_nil second), written, writtenToo]
    rfl

/-- The rolls of trees are written as the canonical trees. -/
theorem rolls_written : (trees : List (Tree Clause)) → {ledger last : Ledger} →
    {built : List Roll} → rolls setup trees ledger = .ok (built, last) →
    Term.rollFormulas built = (canonicalTrees trees).map Tree.raw ∧
      TreesThroughout Clause.HasKnownFaces trees
  | [], ledger, last, built, given => by
    rcases rolls_nil_eq_ok.1 given with ⟨rfl, rfl⟩
    exact ⟨rfl, trivial⟩
  | tree :: rest, ledger, last, built, given => by
    rcases rolls_cons_eq_ok.1 given with
      ⟨row, middle, first, later, more, inside, around, others, rfl⟩
    rcases terms_built tree inside with ⟨grown, spans, _⟩
    rcases roll_of_fresh grown spans around with ⟨rfl, rfl, _⟩
    rcases terms_written tree inside with ⟨written, known⟩
    rcases rolls_written rest others with ⟨writtenToo, knownToo⟩
    refine ⟨?_, known, knownToo⟩
    rw [Term.rollFormulas, canonicalTrees, List.map_cons, writtenToo, ← written]
    rfl

/-- An amount is written as the canonical amount. -/
theorem amount_written : (given : Amount Clause) → {ledger last : Ledger} → {built : AmountInput} →
    amount setup given ledger = .ok (built, last) →
    built.formula = (canonicalAmount given).text ∧ WrittenThroughout Clause.HasKnownFaces given
  | .known n, ledger, last, built, given => by
    rcases known_eq_ok.1 given with ⟨rfl, rfl⟩
    exact ⟨rfl, trivial⟩
  | .computed inner raw, ledger, last, built, given => by
    rcases computed_eq_ok.1 given with ⟨row, middle, roll, later, inside, around, rfl, rfl⟩
    rcases terms_built inner inside with ⟨grown, spans, _⟩
    rcases roll_of_fresh grown spans around with ⟨rfl, rfl, _⟩
    rcases terms_written inner inside with ⟨written, known⟩
    refine ⟨?_, known⟩
    rw [AmountInput.formula, Term.formula]
    exact congrArg (fun text => "(" ++ text ++ ")") written

end

end Build
end DiceNotation
