import DiceNotation.Proofs.Evaluation.Bonds
import DiceNotation.Proofs.Roll.MethodChoices

namespace DiceNotation

/-!
# Rolls in which chance plays no part

A roll whose dice all show their least or their greatest value takes nothing from chance,
and neither does a roll without dice and words.  No handler is asked either.  So the
uniform values, the known methods and the methods of the dice can be exchanged without any
effect on how the evaluation ends.
-/

/-! ## Rolls without dice -/

namespace Term

theorem allDeterministic_append (first second : List Term) :
    allDeterministic (first ++ second) = (allDeterministic first && allDeterministic second) := by
  induction first with
  | nil => rfl
  | cons term rest ih => simp only [List.cons_append, allDeterministic, ih, Bool.and_assoc]

theorem allDeterministic_flatMap (rolls : List Roll) :
    allDeterministic (rolls.flatMap (·.terms)) = allRollsDeterministic rolls := by
  induction rolls with
  | nil => rfl
  | cons roll rest ih =>
    simp only [List.flatMap_cons, allDeterministic_append, allRollsDeterministic, ih]

/-- What is inside a deterministic term is deterministic. -/
theorem allDeterministic_children {term : Term} (fixed : term.isDeterministic = true) :
    allDeterministic term.children = true := by
  cases term with
  | numeric tag value => rfl
  | operator tag op => rfl
  | text tag word => rfl
  | group tag roll => exact fixed
  | function tag fn rolls => exact (allDeterministic_flatMap rolls).trans fixed
  | dice d => cases fixed
  | pool p => exact (allDeterministic_flatMap p.rolls).trans fixed

/-- There are no dice in deterministic terms. -/
theorem diceFrom_of_deterministic {terms : List Term} (fixed : allDeterministic terms = true) :
    diceFrom terms = [] := by
  induction terms using diceFrom.induct with
  | case1 => rw [diceFrom]
  | case2 term rest dice is ih =>
    have here := (Bool.and_eq_true_iff.1 fixed).1
    cases term with
    | dice d => cases here
    | _ => cases is
  | case3 term rest is ih =>
    rcases Bool.and_eq_true_iff.1 fixed with ⟨here, later⟩
    rw [diceFrom_cons, is, Option.toList_none, List.nil_append]
    apply ih
    rw [allDeterministic_append, allDeterministic_children here, later]
    rfl

end Term

/-! ## Evaluations without chance -/

/-- Two evaluations have taken no uniform value and called no handler since they started,
and their ledgers are the same but for methods. -/
structure Progress.Chanceless (start startToo progress other : Progress) : Prop where
  ledgers : progress.ledger.SameButMethods other.ledger
  draws : progress.draws = start.draws
  calls : progress.calls = start.calls
  drawsToo : other.draws = startToo.draws
  callsToo : other.calls = startToo.calls

/-- The bond of two evaluations in which chance plays no part. -/
def Bond.chanceless (start startToo : Progress) : Bond where
  both := Progress.Chanceless start startToo
  alone _ := False
  ledgers holds := holds.ledgers
  updateTerm id _ holds ignores := { holds with ledgers := holds.ledgers.updateTerm id ignores }
  updateRoll id change holds := { holds with ledgers := holds.ledgers.updateRoll id change }
  report holds _ := ⟨holds.ledgers, holds.draws, holds.calls, holds.drawsToo, holds.callsToo⟩
  updateTermAlone _ _ none _ := none
  updateRollAlone _ _ none := none
  reportAlone _ _ := id

/-- Where the least or the greatest value is taken, the method of dice is not asked. -/
theorem Bond.chanceless_results {start startToo : Progress} {context other : Context}
    (lowest : context.minimize = other.minimize) (highest : context.maximize = other.maximize)
    (fixed : context.isFixed = true) (dice : Dice) :
    (chanceless start startToo).JoinsResults context other dice := by
  refine joins_results lowest highest fun free => ?_
  rw [fixed] at free
  cases free

namespace Options

/-- Settings that are the same but for methods give the same options. -/
theorem forRoll_matches (options : Options) {first second : Surroundings}
    {settings settingsToo : Settings}
    (alike : settings.withoutMethods = settingsToo.withoutMethods)
    (given : first.setup.settings = .ok settings)
    (givenToo : second.setup.settings = .ok settingsToo) :
    ∃ context other, options.forRoll first = .ok context ∧ options.forRoll second = .ok other ∧
      context.Matches other ∧ context.minimize = options.minimize ∧
      context.maximize = options.maximize ∧ other.minimize = options.minimize ∧
      other.maximize = options.maximize := by
  have lenient : settings.withoutMethods.lenientModifiers =
      settingsToo.withoutMethods.lenientModifiers := congrArg Settings.lenientModifiers alike
  have limit : settings.withoutMethods.maxChainRolls =
      settingsToo.withoutMethods.maxChainRolls := congrArg Settings.maxChainRolls alike
  refine ⟨_, _, options.forRoll_of_settings given, options.forRoll_of_settings givenToo,
    ⟨rfl, rfl, ?_, ?_⟩, rfl, rfl, rfl, rfl⟩
  · exact congrArg options.lenient.getD lenient
  · exact congrArg (fun n : Nat => options.maxChainRolls.getD (n : Int)) limit

end Options

namespace Build

/-- A roll is built twice from the same formula, under settings that may name other methods,
with other known methods and with another method for the roll.  Then both are the same
roll.  If the least or the greatest values are asked for, or if the roll is deterministic,
it can be evaluated in both ledgers, whatever methods its dice have got since: neither
evaluation takes a uniform value or calls a handler, and both end with the same fault or
without one, and with the same results and totals. -/
theorem chanceless_of_fixed {first second : Surroundings}
    (setups : first.setup.SameButMethods second.setup) (unaided : first.resolver = none)
    (unaidedToo : second.resolver = none) {input inputToo : RollInput}
    (formula : inputToo.formula = input.formula) (data : inputToo.data = input.data)
    (settled : inputToo.options = input.options) {ledger made madeToo : Ledger}
    {roll rollToo : Roll} (built : ofFormula first.setup input ledger = .ok (roll, made))
    (builtToo : ofFormula second.setup inputToo ledger = .ok (rollToo, madeToo))
    {options : Options}
    (fixed : options.minimize = true ∨ options.maximize = true ∨ roll.isDeterministic = true)
    {progress other : Progress} (begins : made.SameButMethods progress.ledger)
    (beginsToo : madeToo.SameButMethods other.ledger) :
    rollToo = roll ∧ ∃ result last lastToo,
      roll.attempt options first progress = .done result last ∧
      rollToo.attempt options second other = .done result lastToo ∧
      last.draws = progress.draws ∧ last.calls = progress.calls ∧
      lastToo.draws = other.draws ∧ lastToo.calls = other.calls ∧
      last.ledger.SameButMethods lastToo.ledger := by
  rcases ofFormula_same setups formula data settled built builtToo with ⟨rfl, ledgers⟩
  refine ⟨rfl, ?_⟩
  have isMade := ofFormula_isMade built
  have untouched : (progress.ledger.roll rollToo.id).phase = .unevaluated := by
    rw [← begins.roll rollToo.id]
    exact isMade.waits.rollPhase isMade.spans.bounds.1 isMade.spans.bounds.2
  rcases settings_of_ofFormula built with ⟨settings, given⟩
  rcases setups.settings given with ⟨settingsToo, givenToo, alike⟩
  rcases options.forRoll_matches alike given givenToo with
    ⟨context, contextToo, found, foundToo, matching, least, greatest, leastToo, greatestToo⟩
  have results : ∀ dice ∈ rollToo.dice,
      (Bond.chanceless progress other).JoinsResults context contextToo dice := by
    intro dice member
    by_cases deterministic : rollToo.isDeterministic = true
    · rw [RollOf.dice, Term.diceFrom_of_deterministic deterministic] at member
      cases member
    · apply Bond.chanceless_results (least.trans leastToo.symm) (greatest.trans greatestToo.symm)
      unfold Context.isFixed
      rw [least, greatest, Bool.or_eq_true]
      rcases fixed with low | high | certain
      · exact .inl low
      · exact .inr high
      · exact absurd certain deterministic
  have start : (Bond.chanceless progress other).both progress other :=
    ⟨begins.symm.trans (ledgers.trans beginsToo), rfl, rfl, rfl, rfl⟩
  cases RollOf.joined_attempts unaided unaidedToo found foundToo matching results start
    untouched with
  | @both result last lastToo run runToo _ kept =>
    exact ⟨result, last, lastToo, run, runToo, kept.draws, kept.calls, kept.drawsToo,
      kept.callsToo, kept.ledgers⟩
  | alone _ _ _ none => exact none.elim

/-- Settings under which the outside is asked for dice. -/
def asking : Setup := ⟨.ok { defaultMethod := "manual" }, .standard⟩

/-- Nested dice in a pool, with chains and a selection. -/
def nestedPool : RollInput where
  formula := "\x7b(1d2)d6x, 2d4r1\x7dkh1"

/-- The nested pool is rolled as low as can be, once where its dice are rolled by chance and
once where the outside would be asked for them. -/
theorem chanceless_of_nestedPool : ∃ roll made madeToo,
    ofFormula usual nestedPool .empty = .ok (roll, made) ∧
    ofFormula asking nestedPool .empty = .ok (roll, madeToo) ∧
    methodNames (roll, made) = ["random", "random", "random"] ∧
    methodNames (roll, madeToo) = ["manual", "manual", "manual"] ∧ ∃ result last lastToo,
      roll.attempt { minimize := true } (Service.quiet usual) (.ofLedger made) =
        .done result last ∧
      roll.attempt { minimize := true } ⟨asking, false, fun _ => 0.75, none⟩ (.ofLedger madeToo) =
        .done result lastToo ∧
      last.draws = 0 ∧ last.calls = [] ∧ lastToo.draws = 0 ∧ lastToo.calls = [] ∧
      last.ledger.SameButMethods lastToo.ledger := by
  have first : (ofFormula usual nestedPool .empty).toOption.map methodNames =
      some ["random", "random", "random"] := by decide +kernel
  have second : (ofFormula asking nestedPool .empty).toOption.map methodNames =
      some ["manual", "manual", "manual"] := by decide +kernel
  cases built : ofFormula usual nestedPool .empty with
  | error fault =>
    rw [built] at first
    cases first
  | ok pair =>
    cases builtToo : ofFormula asking nestedPool .empty with
    | error fault =>
      rw [builtToo] at second
      cases second
    | ok pairToo =>
      rw [built] at first
      rw [builtToo] at second
      rcases @chanceless_of_fixed (Service.quiet usual) ⟨asking, false, fun _ => 0.75, none⟩ rfl rfl
        rfl nestedPool nestedPool rfl rfl rfl .empty pair.2 pairToo.2 pair.1 pairToo.1 built builtToo
        { minimize := true } (.inl rfl) (.ofLedger pair.2) (.ofLedger pairToo.2) (.refl _) (.refl _)
        with ⟨same, result, last, lastToo, run, runToo, draws, calls, drawsToo, callsToo, ledgers⟩
      refine ⟨pair.1, pair.2, pairToo.2, rfl, ?_, Option.some.inj first, ?_, result, last, lastToo,
        run, same ▸ runToo, draws, calls, drawsToo, callsToo, ledgers⟩
      · rw [← same]
      · rw [← same]
        exact Option.some.inj second

end Build
end DiceNotation
