import DiceNotation.Proofs.Evaluation.Foretelling
import DiceNotation.Proofs.Service.Escapes

namespace DiceNotation

/-!
# Forecasts by checking

Checking a formula rolls it with the lowest faces.  If the formula can be told in advance,
the verdict forecasts all rolls: whether the evaluation succeeds is told by the modifiers and
words, and these are the same in every roll.  What cannot be told is whether a chain adds too
many dice, and whether an integer becomes too large for the decimals that it meets.
-/

section

variable {surroundings : Surroundings} {options : Options} {context : Context} {decimals : Bool}

/-- A roll that was made ends as its modifiers and words tell. -/
theorem RollOf.IsMade.foretold (synchronous : surroundings.synchronous = true)
    (found : options.forRoll surroundings = .ok context) (alone : context.IsAlone)
    (wordless : context.allowStrings = false) {first : Nat} {roll : Roll} {progress : Progress}
    (isMade : roll.IsMade surroundings.setup first progress.ledger)
    (foreseeable : RowThroughout (Term.IsForeseeable context.methods progress.ledger decimals)
      (fun _ => True) roll.terms) :
    Foretold (context.Untold decimals)
      (RowThroughout (Term.IsAcceptable context.lenient) (fun _ => True) roll.terms)
      (fun _ => True) (roll.run options surroundings progress).1
      (roll.run options surroundings progress).2 := by
  have tellable : RowThroughout (Term.IsTellable context.methods progress.ledger decimals)
      RollOf.IsSound roll.terms :=
    (isMade.row.and foreseeable).imp isMade.spans.1
      (fun _ _ _ ⟨restorable, foreseeable⟩ => ⟨restorable.sound, foreseeable⟩)
      fun _ _ _ ⟨sound, _⟩ => sound
  have intact : progress.ledger.IsIntact first progress.ledger.next progress.ledger :=
    ⟨isMade.fresh, Ledger.SameOn.refl progress.ledger, Nat.le_refl _⟩
  rcases Context.evaluateRoll_foretold alone wordless isMade.spans isMade.sound tellable intact with
    ⟨result, last, evaluated, ended⟩
  rw [RollOf.run_of_forRoll synchronous found roll progress, evaluated]
  cases result with
  | ok _ => exact ⟨ended.1, trivial⟩
  | error fault => exact ended

end

namespace Service

variable {setup : Setup} {settings : Settings} {formula : String} {decimals : Bool}

/-- Whether the roll of a formula, if there is one, can be told in advance. -/
def CanTell (setup : Setup) (formula : String) (decimals : Bool) : Prop :=
  ∀ rolled made, Build.ofFormula setup { formula := formula } .empty = .ok (rolled, made) →
    RowThroughout (Term.IsForeseeable setup.methods made decimals) (fun _ => True) rolled.terms

instance (setup : Setup) (formula : String) (decimals : Bool) :
    Decidable (CanTell setup formula decimals) :=
  match built : Build.ofFormula setup { formula := formula } .empty with
  | .ok (rolled, made) => decidable_of_iff
    (RowThroughout (Term.IsForeseeable setup.methods made decimals) (fun _ => True) rolled.terms)
    ⟨fun tells _ _ is => by
      obtain ⟨rfl, rfl⟩ := Prod.mk.inj (Except.ok.inj (built.symm.trans is))
      exact tells, fun tells => tells rolled made built⟩
  | .error _ => .isTrue fun _ _ is => nomatch built.symm.trans is

/-- Whether the modifiers and words of a roll tell that it succeeds. -/
def IsAcceptable (settings : Settings) (rolled : Roll) : Prop :=
  RowThroughout (Term.IsAcceptable settings.lenientModifiers) (fun _ => True) rolled.terms

/-- What cannot be told in advance: a chain would add too many dice, or an integer is too large
for decimals. -/
def IsUntold (settings : Settings) (decimals : Bool) : Refusal → Prop
  | .explained message => ∃ term command,
    (Fault.modifier (.tooManyRolls settings.maxChainRolls) term command).message? = some message
  | .fault fault => fault = .number .overflow ∧ decimals = true

/-- An answer bears a verdict out.  There is a record only if the formula is not refused, and
there is one then, unless something happens that cannot be told in advance. -/
def BearsOut (settings : Settings) (decimals : Bool) (verdict : Verdict) :
    Except Refusal Json → Prop
  | .ok _ => verdict.refusal = none
  | .error refusal => verdict.refusal ≠ none ∨ IsUntold settings decimals refusal

section

variable {surroundings : Surroundings} {options : Options} {progress : Progress}

/-- A formula that no roll can be built from is not rolled. -/
theorem roll_of_rejected {fault : Fault}
    (rejected : Build.ofFormula surroundings.setup { formula := formula } progress.ledger =
      .error fault) : (roll options surroundings formula progress).1 = .error fault := by
  unfold roll
  rw [rejected]

/-- A formula is rolled as its modifiers and words tell. -/
theorem roll_foretold {context : Context} (synchronous : surroundings.synchronous = true)
    (found : options.forRoll surroundings = .ok context) (alone : context.IsAlone)
    (wordless : context.allowStrings = false) {rolled : Roll} {made : Ledger}
    (built : Build.ofFormula surroundings.setup { formula := formula } progress.ledger =
      .ok (rolled, made))
    (foreseeable : RowThroughout (Term.IsForeseeable context.methods made decimals)
      (fun _ => True) rolled.terms) :
    Yields
      (fun fault =>
        ¬RowThroughout (Term.IsAcceptable context.lenient) (fun _ => True) rolled.terms ∨
          context.Untold decimals fault)
      (fun _ => RowThroughout (Term.IsAcceptable context.lenient) (fun _ => True) rolled.terms)
      (roll options surroundings formula progress).1 := by
  have foretold := @RollOf.IsMade.foretold surroundings options context decimals synchronous found
    alone wordless _ rolled { progress with ledger := made } (Build.ofFormula_isMade built)
    foreseeable
  unfold roll
  rw [built]
  dsimp only
  cases ran : rolled.run options surroundings { progress with ledger := made } with
  | mk result last =>
    rw [ran] at foretold
    cases result with
    | ok _ => exact foretold.1
    | error fault => exact foretold

end

section

variable {rolled : Roll} {made : Ledger}
  (built : Build.ofFormula setup { formula := formula } .empty = .ok (rolled, made))
  (foreseeable : RowThroughout (Term.IsForeseeable setup.methods made decimals) (fun _ => True)
    rolled.terms)

include built foreseeable

/-- A formula is refused exactly if its modifiers and words tell that it fails. -/
theorem judge_foretold (valid : setup.settings = .ok settings) {verdict : Verdict}
    (judged : judge setup formula = .ok verdict) :
    verdict.refusal = none ↔ IsAcceptable settings rolled := by
  have prompt := quiet_arePrompt valid
  have foretold := @roll_foretold _ decimals (quiet setup) checking (.ofLedger .empty) _ rfl
    (checking.forRoll_of_settings prompt.valid) ⟨rfl, rfl, prompt.range⟩ rfl _ _ built foreseeable
  rw [judge_eq] at judged
  cases ran : (roll checking (quiet setup) formula (.ofLedger .empty)).1 with
  | ok checked =>
    rw [ran] at foretold judged
    cases judged
    exact ⟨fun _ => foretold, fun _ => rfl⟩
  | error fault =>
    rw [ran] at foretold judged
    dsimp only at judged
    cases told : fault.message? with
    | none =>
      rw [told] at judged
      cases judged
    | some message =>
      rw [told] at judged
      cases judged
      refine ⟨nofun, fun accepted => ?_⟩
      -- nothing is left to chance, and an overflow is not told
      rcases foretold with refused | ⟨_, fixed, _⟩ | ⟨rfl, _⟩
      · exact absurd accepted refused
      · cases fixed
      · cases told

/-- A request bears a verdict out that is as its modifiers and words tell. -/
theorem request_foretold (valid : setup.settings = .ok settings) {uniform : Nat → Float}
    (range : ∀ k, 0 ≤ uniform k ∧ uniform k < 1) (progress : Progress) {verdict : Verdict}
    (tells : verdict.refusal = none ↔ IsAcceptable settings rolled) :
    BearsOut settings decimals verdict
      (request ⟨setup, true, uniform, none⟩ formula false false
        { progress with ledger := .empty }).1 := by
  have prompt : Surroundings.ArePrompt ⟨setup, true, uniform, none⟩ settings := ⟨valid, rfl, range⟩
  have foretold := @roll_foretold _ decimals ⟨setup, true, uniform, none⟩ { strict := false }
    { progress with ledger := .empty } _ rfl (Options.forRoll_of_settings _ prompt.valid)
    ⟨rfl, rfl, range⟩ rfl _ _ built foreseeable
  cases ran : (roll { strict := false } ⟨setup, true, uniform, none⟩ formula
      { progress with ledger := .empty }).1 with
  | ok _ =>
    rw [ran] at foretold
    rcases request_of_ok prompt rfl ran with ⟨fields, answered⟩
    rw [answered]
    exact tells.2 foretold
  | error fault =>
    rw [ran] at foretold
    have disclosed := foretold.imp_left fun refused (accepted : verdict.refusal = none) =>
      refused (tells.1 accepted)
    rw [request_of_error rfl ran]
    cases told : fault.message? with
    | some message =>
      refine disclosed.imp_right ?_
      rintro (⟨_, _, term, command, rfl⟩ | ⟨rfl, _⟩)
      · exact ⟨term, command, told⟩
      · cases told
    | none =>
      refine disclosed.imp_right ?_
      rintro (⟨_, _, term, command, rfl⟩ | overflow)
      · cases told
      · exact overflow

end

/-- The best three of four dice and one that explodes, doubled. -/
def keptAndExploded : String := "(4d6kh3 + 1d6x) * 2"

/-- A formula without data is built from its characters. -/
theorem ofFormula_of_toList (setup : Setup) {formula : String} {text : List Char}
    (written : formula.toList = text) (ledger : Ledger) :
    Build.ofFormula setup { formula := formula } ledger = (do
      let tree ← Build.lift (do
        let settings ← setup.settings
        Source.parse ⟨text, settings.imputeNumber, settings.maxNesting⟩)
      let row ← Build.terms setup tree
      let made ← Build.roll [] [] row
      Build.giveMethod setup .null made : Build Roll) ledger := by
  subst written
  unfold Build.ofFormula
  dsimp only
  rw [Reference.replaceText_nothing]
  rfl

/-- A roll can be told in advance if it can once it has been built. -/
theorem canTell_of_built {result : Except Fault (Roll × Ledger)}
    (built : Build.ofFormula setup { formula := formula } .empty = result)
    (tells : result.toOption.all (fun pair => decide (RowThroughout
      (Term.IsForeseeable setup.methods pair.2 decimals) (fun _ => True) pair.1.terms)) = true) :
    CanTell setup formula decimals := by
  intro rolled made is
  rw [built] at is
  rw [is] at tells
  exact of_decide_eq_true tells

/-- A formula is rolled as it was built. -/
theorem roll_of_built (options : Options) (surroundings : Surroundings) (formula : String)
    (progress : Progress) (result : Except Fault (Roll × Ledger)) :
    Build.ofFormula surroundings.setup { formula := formula } progress.ledger = result →
      roll options surroundings formula progress =
        match result with
        | .error fault => (.error fault, progress)
        | .ok (rolled, ledger) =>
          let (result, later) := rolled.run options surroundings { progress with ledger := ledger }
          (result.map fun _ => rolled, later) := by
  rintro rfl
  rfl

/-- A request without a choice of faces is granted if the formula is rolled and recorded. -/
theorem request_eq (surroundings : Surroundings) (formula : String) (progress : Progress) :
    request surroundings formula false false progress =
      match roll { strict := false } surroundings formula progress with
      | (.error fault, later) =>
        match fault.message? with
        | some message => (.error (.explained message), later)
        | none => (.error (.fault fault), later)
      | (.ok rolled, later) =>
        match auditRecord later.ledger rolled formula (sourceName false false) with
        | .ok record => (.ok record, later)
        | .error fault =>
          match fault.message? with
          | some message => (.error (.explained message), later)
          | none => (.error (.fault fault), later) := by
  unfold request audit
  rw [if_neg (by decide)]
  dsimp only
  cases roll { strict := false } surroundings formula progress with
  | mk result later =>
    cases result with
    | error fault => rfl
    | ok rolled =>
      dsimp only
      cases auditRecord later.ledger rolled formula (sourceName false false) with
      | error fault => rfl
      | ok record => rfl

/-- Two dice with vastly many faces, times nothing. -/
def vastTimesNothing : String := "2d1" ++ String.ofList (List.replicate 308 '0') ++ " * 0.0"

theorem toList_vastTimesNothing :
    vastTimesNothing.toList = "2d1".toList ++ List.replicate 308 '0' ++ " * 0.0".toList := by
  unfold vastTimesNothing
  rw [String.toList_append, String.toList_append, @String.toList_ofList (List.replicate 308 '0')]

end Service
end DiceNotation
