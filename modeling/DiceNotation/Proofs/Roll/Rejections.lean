import DiceNotation.Proofs.Evaluation.Intrinsic
import DiceNotation.Proofs.Formula.Misreading
import DiceNotation.Proofs.Formula.References
import DiceNotation.Proofs.Roll.Made

namespace DiceNotation

/-!
# Formulas whose roll cannot be built

Once a formula has been read, building its roll fails only with faults that its writer is
told about: dice that do not exist, amounts out of range, unknown functions and methods,
or the wrong number of arguments.  The parts that were built before have formulas, so that
a row of them can always be checked.
-/

/-- A sound term can stand in a row. -/
theorem Term.IsSound.isWritten {term : Term} (sound : term.IsSound) : term.isWritten = true := by
  cases term with
  | text tag word =>
    rcases sound with ⟨text, rfl⟩
    change (if (Tag.flavor? tag).isSome = true then _ else _ : Json).isText = true
    split <;> rfl
  | dice d =>
    change ((Term.dice d).hasFormula && _) = true
    rw [DiceOf.IsSound.hasFormula sound]
    rfl
  | pool p =>
    change (p.modifiers.all Json.isText && _) = true
    rw [AreModifiers.areTexts sound]
    rfl
  | _ => rfl

theorem addressing_treeOfTerms (formula : String) (terms : List Term) :
    Addressing (treeOfTerms formula terms) := by
  rw [treeOfTerms_eq]
  split
  · exact .ok _
  · rename_i misplaced _
    refine .error ?_
    cases misplaced <;> rfl

/-! ## Single terms -/

theorem MethodTable.addressing_get (table : MethodTable) (name : String) :
    Addressing (table.get name) := by
  unfold get
  split
  · exact .ok _
  · exact .error rfl

theorem Function.addressing_select (name : String) (count : Nat) :
    Addressing (Function.select (.string name) count) := by
  simp only [select]
  split
  · exact .error rfl
  · exact .ite (.ok _) (.error rfl)

theorem AmountInput.addressing_check (given : AmountInput) (what : DiceAmount) (least : Nat) :
    Addressing (given.check what least) := by
  cases given with
  | data value =>
    unfold check
    dsimp only
    split
    · exact .ite (.error rfl) (.ok _)
    · exact .error rfl
  | term inner => exact .ok _
  | roll inner => exact .error rfl

namespace Build

variable {setup : Setup} {α β : Type} {kind : Fault → Prop} {ledger : Ledger}

theorem failsOnly_bind {first : Build α} {next : α → Build β}
    (one : FailsOnly kind (first ledger))
    (more : ∀ a middle, first ledger = .ok (a, middle) → FailsOnly kind (next a middle)) :
    FailsOnly kind ((first >>= next) ledger) := by
  change FailsOnly kind (first ledger >>= fun pair => next pair.1 pair.2)
  cases made : first ledger with
  | error fault => exact .error (one fault made)
  | ok pair => exact more pair.1 pair.2 made

theorem failsOnly_lift {result : Except Fault α} (given : FailsOnly kind result) :
    FailsOnly kind (lift result ledger) := by
  cases result with
  | error fault => exact .error (given fault rfl)
  | ok a => exact .ok _

theorem addressing_within {construction : Build α} (raw : String)
    (inside : Addressing (construction ledger)) : Addressing (within raw construction ledger) := by
  unfold within
  split
  · exact .error rfl
  · exact inside

theorem addressing_function (options : Fields) (name : String) (rolls : List Roll) :
    Addressing (function options name rolls ledger) :=
  failsOnly_bind (failsOnly_lift (Function.addressing_select name rolls.length))
    fun _ _ _ => .ok _

theorem addressing_pool (options : Fields) (rolls : List Roll) (modifiers : String) :
    Addressing (pool options rolls (.string modifiers) .null ledger) :=
  .ok _

/-- Dice are built, or their writer is told why not, as soon as their faces are accepted. -/
theorem addressing_dice {settings : Settings} (valid : setup.settings = .ok settings)
    {input : DiceInput} (faces : Addressing input.checkFaces) {modifiers : String}
    (text : input.modifiers = .string modifiers) (noResults : input.results = .null)
    (noMethod : input.method = .null) : Addressing (DiceInput.build setup input ledger) := by
  unfold DiceInput.build
  rw [text, noResults]
  refine failsOnly_bind (failsOnly_lift faces) fun given _ _ => ?_
  refine failsOnly_bind (failsOnly_lift (input.number.addressing_check _ _)) fun number _ _ => ?_
  refine failsOnly_bind (failsOnly_lift (given.addressing_check _ _)) fun sides _ _ => ?_
  refine failsOnly_bind (failsOnly_lift (.ok _)) fun _ _ _ => ?_
  refine failsOnly_bind (failsOnly_lift (.ok _)) fun _ _ _ => ?_
  have chosen : ∃ name, input.chooseMethod setup sides = .ok (.string name) := by
    unfold DiceInput.chooseMethod DiceInput.defaultMethod
    rw [noMethod, if_neg (by decide), valid]
    cases sides with
    | known n => exact ⟨_, rfl⟩
    | computed term => exact ⟨_, rfl⟩
  rcases chosen with ⟨name, chosen⟩
  rw [chosen]
  refine failsOnly_bind (failsOnly_lift (.ok _)) fun method _ named => ?_
  rcases lift_eq_ok.1 named with ⟨same, _⟩
  cases same
  refine failsOnly_bind (failsOnly_lift (setup.methods.addressing_get name)) fun _ _ _ => ?_
  exact .ok _

/-- A roll around sound terms is built, or its writer is told why not. -/
theorem addressing_roll {options data : Fields} {terms : List Term} {before : Ledger}
    (grown : Ledger.Grown before ledger) (spans : RowSpans terms before.next ledger.next)
    (parts : RowBuilt setup ledger terms) :
    Addressing (Build.roll options data terms ledger) := by
  have checks : Addressing (checkRow terms) := by
    have written : terms.all Term.isWritten = true :=
      List.all_eq_true.2 fun term member => (parts.of_mem member).here.1.isWritten
    unfold checkRow
    refine .ite (.error rfl) ?_
    rw [written, if_neg (by decide)]
    exact (addressing_treeOfTerms _ terms).map _
  refine failsOnly_bind (failsOnly_lift checks) fun _ _ lifted => ?_
  rcases lift_eq_ok.1 lifted with ⟨checked, rfl⟩
  have unevaluated := unevaluated_of_waits (.of_fresh grown.fresh (Nat.le_refl _)) spans
    (ne_nil_of_checkRow checked)
  rw [ofRow_of_unevaluated _ _ unevaluated]
  exact .ok _

/-! ## Clauses -/

/-- A roll around the terms of a tree is built as soon as the terms are. -/
theorem addressing_around {tree : Tree Clause} (options data : Fields)
    (inside : Addressing (terms setup tree ledger)) :
    Addressing ((terms setup tree >>= Build.roll options data) ledger) := by
  refine failsOnly_bind inside fun row middle built => ?_
  rcases terms_built tree built with ⟨grown, spans, parts⟩
  exact addressing_roll grown spans parts

/-- Operators are always built. -/
theorem addressing_operator (op : Operator) : Addressing (operator [] op.symbol ledger) := by
  unfold operator
  rw [Operator.select_symbol]
  exact .ok _

variable {settings : Settings}

mutual

/-- The term of a clause is built, or the writer is told why not. -/
theorem addressing_clause (valid : setup.settings = .ok settings) : (part : Clause) →
    (ledger : Ledger) → Addressing (clause setup part ledger)
  | .numeric value flavor _, ledger => .ok _
  | .text text flavor _, ledger => .ok _
  | .group inner flavor _, ledger => by
    have around := addressing_around [] [] (addressing_terms valid inner ledger)
    unfold clause
    rw [← bind_assoc]
    exact failsOnly_bind around fun _ _ _ => .ok _
  | .function name arguments flavor raw, ledger => by
    unfold clause
    refine addressing_within raw (failsOnly_bind (addressing_rolls valid arguments ledger) ?_)
    exact fun rolls _ _ => addressing_function _ name rolls
  | .pool members modifiers flavor _, ledger => by
    unfold clause
    refine failsOnly_bind (addressing_rolls valid members ledger) ?_
    exact fun rolls _ _ => addressing_pool _ rolls modifiers
  | .dice number (.letter code) modifiers flavor raw, ledger => by
    unfold clause
    refine failsOnly_bind (addressing_amount valid number ledger) fun given middle _ => ?_
    refine addressing_within raw ?_
    unfold diceClause
    cases named : DieKind.ofLetter? code with
    | none => exact .error rfl
    | some kind =>
      have faces : Addressing (letterInput kind given modifiers flavor).checkFaces := by
        rcases DieKind.fixed_of_ofLetter? named with ⟨count, fixed⟩
        have fixed : (letterInput kind given modifiers flavor).kind.fixedFaces? = some count :=
          fixed
        unfold DiceInput.checkFaces
        rw [fixed]
        exact .ok _
      exact failsOnly_bind (addressing_dice valid faces rfl rfl rfl) fun _ _ _ => .ok _
  | .dice number (.amount faces) modifiers flavor raw, ledger => by
    unfold clause
    refine failsOnly_bind (addressing_amount valid number ledger) fun given middle _ => ?_
    refine addressing_within raw ?_
    unfold diceClause
    refine failsOnly_bind (addressing_amount valid faces middle) fun found later built => ?_
    have accepted : Addressing (facesInput given found modifiers flavor).checkFaces := by
      have holds := (amount_built faces built).2
      cases found with
      | data value =>
        rcases holds with ⟨⟨n, rfl⟩, _⟩
        exact .ok _
      | term inner => exact .ok _
      | roll inner => exact holds.elim
    exact failsOnly_bind (addressing_dice valid accepted rfl rfl rfl) fun _ _ _ => .ok _

/-- The terms of a tree are built, or the writer is told why not. -/
theorem addressing_terms (valid : setup.settings = .ok settings) : (tree : Tree Clause) →
    (ledger : Ledger) → Addressing (terms setup tree ledger)
  | .leaf part, ledger => by
    unfold terms
    exact failsOnly_bind (addressing_clause valid part ledger) fun _ _ _ => .ok _
  | .node op left right, ledger => by
    unfold terms
    refine failsOnly_bind (addressing_terms valid left ledger) fun before middle _ => ?_
    refine failsOnly_bind (addressing_operator op) fun _ next _ => ?_
    exact failsOnly_bind (addressing_terms valid right next) fun _ _ _ => .ok _

/-- The rolls of trees are built, or the writer is told why not. -/
theorem addressing_rolls (valid : setup.settings = .ok settings) : (trees : List (Tree Clause)) →
    (ledger : Ledger) → Addressing (rolls setup trees ledger)
  | [], ledger => .ok _
  | tree :: rest, ledger => by
    have around := addressing_around [] [] (addressing_terms valid tree ledger)
    unfold rolls
    rw [← bind_assoc]
    refine failsOnly_bind around fun first later _ => ?_
    exact failsOnly_bind (addressing_rolls valid rest later) fun _ _ _ => .ok _

/-- An amount of dice is built, or the writer is told why not. -/
theorem addressing_amount (valid : setup.settings = .ok settings) : (given : Amount Clause) →
    (ledger : Ledger) → Addressing (amount setup given ledger)
  | .known n, ledger => .ok _
  | .computed inner _, ledger => by
    have around := addressing_around [] [] (addressing_terms valid inner ledger)
    unfold amount
    rw [← bind_assoc]
    exact failsOnly_bind around fun _ _ _ => .ok _

end

/-- If no roll can be built from a formula, its writer is told why, or a mark in the formula
counts as a digit but is none. -/
theorem blames_of_ofFormula (valid : setup.settings = .ok settings) {formula : String}
    {fault : Fault} (failed : ofFormula setup { formula := formula } ledger = .error fault) :
    fault.isAddressed = true ∨ fault = .notADigit ∧
      ∃ c ∈ formula.toList, Text.isDigitLike c = true ∧ Text.isDigit c = false := by
  let blamed : Fault → Prop := fun fault => fault.isAddressed = true ∨ fault = .notADigit ∧
    ∃ c ∈ formula.toList, Text.isDigitLike c = true ∧ Text.isDigit c = false
  suffices only : FailsOnly blamed (ofFormula setup { formula := formula } ledger) from
    only fault failed
  have told {α : Type} {result : Except Fault α} (addressing : Addressing result) :
      FailsOnly blamed result := fun fault failed => .inl (addressing fault failed)
  unfold ofFormula
  rw [Reference.replaceText_nothing]
  refine failsOnly_bind (failsOnly_lift (.ok _)) fun text _ same => ?_
  rcases lift_eq_ok.1 same with ⟨⟨⟩, rfl⟩
  have parses : FailsOnly blamed (parseFormula setup formula none) := by
    intro fault failed
    unfold parseFormula at failed
    rw [valid] at failed
    exact Source.blames_of_parse failed
  refine failsOnly_bind (failsOnly_lift parses) fun tree _ parsed => ?_
  rcases lift_eq_ok.1 parsed with ⟨_, rfl⟩
  rw [← bind_assoc]
  refine failsOnly_bind (told (addressing_around _ _ (addressing_terms valid tree _))) ?_
  exact fun _ _ _ => .ok _

end Build
end DiceNotation
