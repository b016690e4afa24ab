import DiceNotation.Proofs.Roll.Formulas
import DiceNotation.Proofs.Roll.Methods

namespace DiceNotation

/-!
# Rolls that are built with other methods

Which method dice get depends on the settings, on the known methods, and on the method that
is given for the whole roll.  Nothing else about a roll does: the same formula gives the
same roll, and ledgers that differ in the methods of dice only.
-/

/-- Settings without what they say about methods. -/
def Settings.withoutMethods (settings : Settings) : Settings :=
  { settings with defaultMethod := "", methods := [] }

/-- Two setups whose settings are the same but for methods.  The known methods may be any. -/
def Setup.SameButMethods (setup other : Setup) : Prop :=
  setup.settings.map Settings.withoutMethods = other.settings.map Settings.withoutMethods

theorem Setup.SameButMethods.settings {setup other : Setup} (same : setup.SameButMethods other)
    {settings : Settings} (given : setup.settings = .ok settings) :
    ∃ settingsToo, other.settings = .ok settingsToo ∧
      settings.withoutMethods = settingsToo.withoutMethods := by
  unfold SameButMethods at same
  rw [given] at same
  cases found : other.settings with
  | error fault =>
    rw [found] at same
    cases same
  | ok settingsToo =>
    rw [found] at same
    exact ⟨settingsToo, rfl, Except.ok.inj same⟩

namespace Build

variable {α β : Type} {values : α → α → Prop} {valuesToo : β → β → Prop}

/-- Two constructions, from ledgers that are the same but for methods, come to the same if
both succeed. -/
def Matches (values : α → α → Prop) (first second : Build α) : Prop :=
  ∀ ⦃ledger other : Ledger⦄, ledger.SameButMethods other → ∀ ⦃a b last lastToo⦄,
    first ledger = .ok (a, last) → second other = .ok (b, lastToo) →
      values a b ∧ last.SameButMethods lastToo

namespace Matches

variable {first second : Build α}

theorem pure {a b : α} (same : values a b) : Matches values (pure a) (pure b) := by
  intro ledger other ledgers _ _ _ _ run runToo
  cases run
  cases runToo
  exact ⟨same, ledgers⟩

theorem refuse (fault faultToo : Fault) : Matches values (refuse fault) (refuse faultToo) := by
  intro ledger other ledgers _ _ _ _ run
  exact absurd run refuse_ne_ok

theorem lift {result resultToo : Except Fault α}
    (same : ∀ a b, result = .ok a → resultToo = .ok b → values a b) :
    Matches values (lift result) (lift resultToo) := by
  intro ledger other ledgers _ _ _ _ run runToo
  obtain ⟨given, rfl⟩ := lift_eq_ok.1 run
  obtain ⟨givenToo, rfl⟩ := lift_eq_ok.1 runToo
  exact ⟨same _ _ given givenToo, ledgers⟩

/-- The same computation on both sides. -/
theorem lift_self (result : Except Fault α) :
    Matches Eq (Build.lift result) (Build.lift result) :=
  lift fun _ _ given givenToo => Except.ok.inj (given.symm.trans givenToo)

theorem change {f g : Ledger → Ledger}
    (same : ∀ ledger other : Ledger, ledger.SameButMethods other →
      (f ledger).SameButMethods (g other)) : Matches Eq (change f) (change g) := by
  intro ledger other ledgers _ _ _ _ run runToo
  cases run
  cases runToo
  exact ⟨rfl, same _ _ ledgers⟩

theorem fresh : Matches Eq fresh fresh := by
  intro ledger other ledgers _ _ _ _ run runToo
  cases run
  cases runToo
  exact ⟨ledgers.next, ledgers.allot⟩

theorem bind {next nextToo : α → Build β} (matching : Matches values first second)
    (further : ∀ a b, values a b → Matches valuesToo (next a) (nextToo b)) :
    Matches valuesToo (first >>= next) (second >>= nextToo) := by
  intro ledger other ledgers _ _ _ _ run runToo
  rcases bind_eq_ok.1 run with ⟨a, middle, begun, rest⟩
  rcases bind_eq_ok.1 runToo with ⟨b, middleToo, begunToo, restToo⟩
  rcases matching ledgers begun begunToo with ⟨same, between⟩
  exact further a b same between rest restToo

/-- The usual case: what comes second goes on with the same value on both sides. -/
theorem andThen {next nextToo : α → Build β} (matching : Matches Eq first second)
    (further : ∀ a, Matches valuesToo (next a) (nextToo a)) :
    Matches valuesToo (first >>= next) (second >>= nextToo) :=
  matching.bind fun a _ same => same ▸ further a

theorem within (raw : String) (matching : Matches values first second) :
    Matches values (within raw first) (within raw second) := by
  intro ledger other ledgers _ _ _ _ run runToo
  exact matching ledgers (within_eq_ok.1 run) (within_eq_ok.1 runToo)

end Matches

/-! ## Terms and rolls -/

theorem matches_tag (options : Fields) : Matches Eq (Build.tag options) (Build.tag options) :=
  Matches.fresh.andThen fun _ => .pure rfl

theorem matches_ofRow (options data : Fields) (terms : List Term) :
    Matches Eq (ofRow options data terms) (ofRow options data terms) := by
  have reads : Matches Ledger.SameButMethods (get : Build Ledger) get := by
    intro ledger other ledgers _ _ _ _ run runToo
    cases run
    cases runToo
    exact ⟨ledgers, ledgers⟩
  unfold ofRow
  refine reads.bind fun ledger other ledgers => Matches.fresh.andThen fun id => ?_
  have evaluated : terms.all ledger.isEvaluated = terms.all other.isEvaluated :=
    congrArg terms.all (funext ledgers.agrees.isEvaluated)
  rw [evaluated, ledgers.agrees.totalOfTerms]
  split
  · refine (Matches.lift_self _).andThen fun total => ?_
    exact (Matches.change fun _ _ same => same.updateRoll id _).andThen fun _ => .pure rfl
  · exact .pure rfl

theorem matches_roll (options data : Fields) (terms : List Term) :
    Matches Eq (roll options data terms) (roll options data terms) :=
  (Matches.lift_self _).andThen fun _ => matches_ofRow options data terms

variable {setup other : Setup}

/-- Dice get a method of each setup. -/
theorem matches_dice (input : DiceInput) :
    Matches Eq (input.build setup) (input.build other) := by
  unfold DiceInput.build
  refine (Matches.lift_self _).andThen fun given => (Matches.lift_self _).andThen fun number => ?_
  refine (Matches.lift_self _).andThen fun faces => ?_
  refine (Matches.lift_self _).andThen fun modifiers => ?_
  refine (Matches.lift_self _).andThen fun outcomes => ?_
  have chosen : Matches (fun _ _ : Json => True) (Build.lift (input.chooseMethod setup faces))
      (Build.lift (input.chooseMethod other faces)) := .lift fun _ _ _ _ => trivial
  refine chosen.bind fun method methodToo _ => ?_
  have named : Matches (fun _ _ : Method => True) (Build.lift (setup.methods.named method))
      (Build.lift (other.methods.named methodToo)) := .lift fun _ _ _ _ => trivial
  refine named.bind fun _ _ _ => Matches.fresh.andThen fun id => ?_
  have states : Matches Eq
      (Build.change (·.updateTerm id fun state =>
        { state with outcomes := outcomes, method := method }))
      (Build.change (·.updateTerm id fun state =>
        { state with outcomes := outcomes, method := methodToo })) := by
    refine .change fun _ _ same => same.updateTerms id fun _ _ alike => ?_
    exact congrArg (fun state : TermState => { state with outcomes := outcomes }) alike
  exact states.andThen fun _ => .pure rfl

theorem matches_function (options : Fields) (name : String) (rolls : List Roll) :
    Matches Eq (function options name rolls) (function options name rolls) :=
  (Matches.lift_self _).andThen fun _ => (matches_tag options).andThen fun _ => .pure rfl

theorem matches_pool (options : Fields) (rolls : List Roll) (modifiers results : Json) :
    Matches Eq (pool options rolls modifiers results) (pool options rolls modifiers results) := by
  refine (Matches.lift_self _).andThen fun commands => ?_
  refine (Matches.lift_self _).andThen fun outcomes => ?_
  refine (matches_tag options).andThen fun tag => ?_
  have states : Matches Eq
      (Build.change (·.updateTerm tag.id fun state => { state with outcomes := outcomes }))
      (Build.change (·.updateTerm tag.id fun state => { state with outcomes := outcomes })) :=
    .change fun _ _ same => same.updateTerms tag.id fun _ _ alike =>
      congrArg (fun state : TermState => { state with outcomes := outcomes }) alike
  exact states.andThen fun _ => .pure rfl

mutual

/-- The term of a clause is the same under both setups. -/
theorem matches_clause (setup other : Setup) : (part : Clause) →
    Matches Eq (clause setup part) (clause other part)
  | .numeric value flavor _ => (matches_tag _).andThen fun _ => .pure rfl
  | .text text flavor _ => (matches_tag _).andThen fun _ => .pure rfl
  | .group inner flavor _ => by
    unfold clause
    refine (matches_terms setup other inner).andThen fun terms => ?_
    refine (matches_roll [] [] terms).andThen fun inside => ?_
    exact (matches_tag _).andThen fun _ => .pure rfl
  | .function name arguments flavor raw => by
    unfold clause
    refine .within raw ((matches_rolls setup other arguments).andThen fun rolls => ?_)
    exact matches_function _ name rolls
  | .pool members modifiers flavor _ => by
    unfold clause
    exact (matches_rolls setup other members).andThen fun rolls => matches_pool _ rolls _ _
  | .dice number faces modifiers flavor raw => by
    unfold clause
    refine (matches_amount setup other number).andThen fun given => ?_
    exact .within raw (matches_diceClause setup other given faces modifiers flavor)

/-- The dice of a clause are the same under both setups. -/
theorem matches_diceClause (setup other : Setup) (number : AmountInput) :
    (faces : Faces Clause) → (modifiers : String) → (flavor : Option String) →
    Matches Eq (diceClause setup number faces modifiers flavor)
      (diceClause other number faces modifiers flavor)
  | .letter code, modifiers, flavor => by
    unfold diceClause
    cases DieKind.ofLetter? code with
    | none => exact .refuse _ _
    | some kind => exact (matches_dice _).andThen fun _ => .pure rfl
  | .amount given, modifiers, flavor => by
    unfold diceClause
    refine (matches_amount setup other given).andThen fun faces => ?_
    exact (matches_dice _).andThen fun _ => .pure rfl

/-- An amount is the same under both setups. -/
theorem matches_amount (setup other : Setup) : (given : Amount Clause) →
    Matches Eq (amount setup given) (amount other given)
  | .known n => by
    unfold amount
    exact .pure rfl
  | .computed inner _ => by
    unfold amount
    refine (matches_terms setup other inner).andThen fun terms => ?_
    refine (matches_roll [] [] terms).andThen fun inside => ?_
    exact (matches_tag _).andThen fun _ => .pure rfl

/-- The terms of a tree are the same under both setups. -/
theorem matches_terms (setup other : Setup) : (tree : Tree Clause) →
    Matches Eq (terms setup tree) (terms other tree)
  | .leaf part => by
    unfold terms
    exact (matches_clause setup other part).andThen fun _ => .pure rfl
  | .node op left right => by
    unfold terms
    refine (matches_terms setup other left).andThen fun before => ?_
    have operators : Matches Eq (operator [] op.symbol) (operator [] op.symbol) :=
      (Matches.lift_self _).andThen fun _ => (matches_tag _).andThen fun _ => .pure rfl
    refine operators.andThen fun joining => ?_
    exact (matches_terms setup other right).andThen fun _ => .pure rfl

/-- The rolls of trees are the same under both setups. -/
theorem matches_rolls (setup other : Setup) : (trees : List (Tree Clause)) →
    Matches Eq (rolls setup trees) (rolls other trees)
  | [] => by
    unfold rolls
    exact .pure rfl
  | tree :: rest => by
    unfold rolls
    refine (matches_terms setup other tree).andThen fun terms => ?_
    refine (matches_roll [] [] terms).andThen fun first => ?_
    exact (matches_rolls setup other rest).andThen fun _ => .pure rfl

end

/-! ## Formulas -/

/-- To give a roll a method changes no more than methods. -/
theorem sameButMethods_withGivenMethod (method : Json) (roll : Roll) (ledger : Ledger) :
    ledger.SameButMethods (withGivenMethod method roll ledger) := by
  have given (dice : List Dice) (start : Ledger) :
      start.SameButMethods (start.withMethod method dice) := by
    induction dice generalizing start with
    | nil => exact .refl start
    | cons die rest ih =>
      rw [Ledger.withMethod_cons]
      exact (Ledger.SameButMethods.giving start die.tag.id method).trans (ih _)
  by_cases none : method = .null
  · rw [none]
    exact .refl ledger
  · rw [withGivenMethod_of_ne none]
    exact given roll.dice ledger

/-- The tree of a formula does not depend on methods. -/
theorem parseFormula_same (same : setup.SameButMethods other) {text : String}
    {imputeNumber : Option Bool} {tree : Tree Clause}
    (parsed : parseFormula setup text imputeNumber = .ok tree) :
    parseFormula other text imputeNumber = .ok tree := by
  cases given : setup.settings with
  | error fault =>
    unfold parseFormula at parsed
    rw [given] at parsed
    cases parsed
  | ok settings =>
    rcases same.settings given with ⟨settingsToo, givenToo, alike⟩
    have impute : settings.withoutMethods.imputeNumber = settingsToo.withoutMethods.imputeNumber :=
      congrArg Settings.imputeNumber alike
    have nesting : settings.withoutMethods.maxNesting = settingsToo.withoutMethods.maxNesting :=
      congrArg Settings.maxNesting alike
    unfold parseFormula at parsed ⊢
    rw [given] at parsed
    rw [givenToo]
    change Source.parse {
      text := _
      imputeNumber := imputeNumber.getD settingsToo.withoutMethods.imputeNumber
      maxNesting := settingsToo.withoutMethods.maxNesting } = _
    rw [← impute, ← nesting]
    exact parsed

/-- The same formula gives the same roll, whatever the methods are. -/
theorem ofFormula_same (same : setup.SameButMethods other) {input inputToo : RollInput}
    (formula : inputToo.formula = input.formula) (data : inputToo.data = input.data)
    (options : inputToo.options = input.options) {ledger made madeToo : Ledger}
    {roll rollToo : Roll} (built : ofFormula setup input ledger = .ok (roll, made))
    (builtToo : ofFormula other inputToo ledger = .ok (rollToo, madeToo)) :
    rollToo = roll ∧ made.SameButMethods madeToo := by
  rcases ofFormula_eq_ok.1 built with
    ⟨text, tree, row, middle, later, replaced, parsed, inside, around, _, rfl⟩
  rcases ofFormula_eq_ok.1 builtToo with
    ⟨textToo, treeToo, rowToo, middleToo, laterToo, replacedToo, parsedToo, insideToo, aroundToo, _,
      rfl⟩
  rw [formula, data, replaced] at replacedToo
  cases replacedToo
  rw [parseFormula_same same parsed] at parsedToo
  cases parsedToo
  rcases matches_terms setup other tree (.refl ledger) inside insideToo with ⟨rfl, between⟩
  rw [options, data] at aroundToo
  rcases matches_roll _ _ row between around aroundToo with ⟨rfl, whole⟩
  refine ⟨rfl, (sameButMethods_withGivenMethod _ roll later).symm.trans (whole.trans ?_)⟩
  exact sameButMethods_withGivenMethod _ roll laterToo

end Build
end DiceNotation
