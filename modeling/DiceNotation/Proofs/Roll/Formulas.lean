import DiceNotation.Proofs.Roll.Built

namespace DiceNotation

/-!
# Rolls from formulas

The roll of a formula is built in four steps: references are replaced, the text is
parsed, the terms of its tree are built, and a roll is made around them.  If a
method is given, all dice of the roll get it at the end.
-/

namespace Ledger

/-- The ledger in which dice have a method. -/
def withMethod (method : Json) (dice : List Dice) (ledger : Ledger) : Ledger :=
  dice.foldl (fun ledger die =>
    ledger.updateTerm die.tag.id fun state => { state with method := method }) ledger

theorem withMethod_cons (method : Json) (die : Dice) (dice : List Dice) (ledger : Ledger) :
    ledger.withMethod method (die :: dice) =
      (ledger.updateTerm die.tag.id fun state => { state with method := method }).withMethod
        method dice := rfl

end Ledger

namespace Build

/-- The settings and methods where nothing was chosen. -/
def usual : Setup := ⟨.ok {}, .standard⟩

variable {setup : Setup}

theorem useMethod_eq_ok {method : Json} {roll : Roll} {ledger last : Ledger} {u : Unit} :
    useMethod method roll ledger = .ok (u, last) ↔ last = ledger.withMethod method roll.dice := by
  unfold useMethod
  induction roll.dice generalizing ledger with
  | nil =>
    change (pure () : Build Unit) ledger = _ ↔ _
    rw [pure_eq_ok]
    exact ⟨fun given => given.2, fun same => ⟨rfl, same⟩⟩
  | cons die dice ih =>
    change (Build.change _ >>= fun _ => dice.forM _) ledger = _ ↔ _
    rw [bind_eq_ok, Ledger.withMethod_cons]
    constructor
    · rintro ⟨_, _, changed, rest⟩
      rw [change_eq_ok] at changed
      subst changed
      exact ih.1 rest
    · intro same
      exact ⟨(), _, rfl, ih.2 same⟩

/-- The ledger after a method was given to a roll, if one was given. -/
def withGivenMethod (method : Json) (roll : Roll) (ledger : Ledger) : Ledger :=
  match method with
  | .null => ledger
  | name => ledger.withMethod name roll.dice

theorem withGivenMethod_of_ne {method : Json} (given : method ≠ .null) (roll : Roll)
    (ledger : Ledger) :
    withGivenMethod method roll ledger = ledger.withMethod method roll.dice := by
  cases method with
  | null => exact absurd rfl given
  | _ => rfl

/-- To give a roll a method is the last step. -/
theorem giveMethod_eq_ok {method : Json} {roll built : Roll} {ledger last : Ledger} :
    giveMethod setup method roll ledger = .ok (built, last) ↔
      built = roll ∧ (method ≠ .null → ∃ known, setup.methods.named method = .ok known) ∧
        last = withGivenMethod method roll ledger := by
  by_cases none : method = .null
  · subst none
    rw [giveMethod, pure_eq_ok]
    exact ⟨fun ⟨same, kept⟩ => ⟨same, fun given => absurd rfl given, kept⟩,
      fun ⟨same, _, kept⟩ => ⟨same, kept⟩⟩
  · have named : giveMethod setup method roll = (do
        let _ ← lift (setup.methods.named method)
        useMethod method roll
        return roll) := by
      cases method with
      | null => exact absurd rfl none
      | _ => rfl
    rw [named, lift_bind_eq_ok, withGivenMethod_of_ne none]
    simp only [bind_eq_ok, useMethod_eq_ok, pure_eq_ok]
    constructor
    · rintro ⟨known, found, _, _, rfl, rfl, rfl⟩
      exact ⟨rfl, fun _ => ⟨known, found⟩, rfl⟩
    · rintro ⟨rfl, known, rfl⟩
      obtain ⟨known, found⟩ := known none
      exact ⟨known, found, (), _, rfl, rfl, rfl⟩

theorem ofFormula_eq_ok {input : RollInput} {ledger last : Ledger} {roll : Roll} :
    ofFormula setup input ledger = .ok (roll, last) ↔
      ∃ text tree row middle later,
        Reference.replaceText input.formula input.data none = .ok text ∧
        parseFormula setup text none = .ok tree ∧
        terms setup tree ledger = .ok (row, middle) ∧
        Build.roll input.options input.data row middle = .ok (roll, later) ∧
        (input.method ≠ .null → ∃ known, setup.methods.named input.method = .ok known) ∧
        last = withGivenMethod input.method roll later := by
  unfold ofFormula
  simp only [lift_bind_eq_ok]
  simp only [bind_eq_ok, giveMethod_eq_ok]
  constructor
  · rintro ⟨text, replaced, tree, parsed, row, middle, built, _, later, made, rfl, known, rfl⟩
    exact ⟨text, tree, row, middle, later, replaced, parsed, built, made, known, rfl⟩
  · rintro ⟨text, tree, row, middle, later, replaced, parsed, built, made, known, rfl⟩
    exact ⟨text, replaced, tree, parsed, row, middle, built, roll, later, made, rfl, known, rfl⟩

theorem parseFormula_of_settings {settings : Settings} (valid : setup.settings = .ok settings)
    (formula : String) :
    parseFormula setup formula none =
      Source.parse ⟨formula.toList, settings.imputeNumber, settings.maxNesting⟩ := by
  rw [parseFormula, valid]
  rfl

/-- A formula that was parsed was parsed under valid settings. -/
theorem settings_of_parseFormula {setup : Setup} {text : String} {impute : Option Bool}
    {tree : Tree Clause} (parsed : parseFormula setup text impute = .ok tree) :
    ∃ settings, setup.settings = .ok settings := by
  cases given : setup.settings with
  | ok settings => exact ⟨settings, rfl⟩
  | error fault =>
    unfold parseFormula at parsed
    rw [given] at parsed
    cases parsed

/-- The settings are valid if a roll was built. -/
theorem settings_of_ofFormula {setup : Setup} {input : RollInput} {ledger made : Ledger}
    {roll : Roll} (built : ofFormula setup input ledger = .ok (roll, made)) :
    ∃ settings, setup.settings = .ok settings := by
  rcases ofFormula_eq_ok.1 built with ⟨_, _, _, _, _, _, parsed, _⟩
  exact settings_of_parseFormula parsed

end Build
end DiceNotation
