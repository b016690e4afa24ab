import DiceNotation.Proofs.Evaluation.Attempts
import DiceNotation.Proofs.Evaluation.Handling
import DiceNotation.Proofs.Evaluation.Intrinsic
import DiceNotation.Proofs.Evaluation.Rolling
import DiceNotation.Proofs.Roll.Methods

namespace DiceNotation

/-!
# Evaluations that are bound to each other

Two evaluations of the same roll go on side by side: one may wait and the other may not, or
chance decides in both but does not have to agree.  A bond says what holds between the two
as long as both go on, and what holds of the first one when the second has given up because
it must not wait.  What is bound in each single draw is bound in whole rolls, because
between two draws both do the same.
-/

/-- A message that evaluations report whatever decides about their dice. -/
inductive Message.IsRoutine : Message → Prop
  | total (text : String) : IsRoutine ⟨.debug, text⟩
  | skipping (term : Term) (raw : Json) (text : String) :
    IsRoutine ⟨.warning, Context.skipping term raw text⟩

/-- What holds between two evaluations, and of the first one when it goes on alone.  It is
not affected by what both do between two draws. -/
structure Bond where
  both : Progress → Progress → Prop
  alone : Progress → Prop
  ledgers : ∀ {progress other}, both progress other →
    progress.ledger.SameButMethods other.ledger
  updateTerm : ∀ {progress other} (id : Identity) {change : TermState → TermState},
    both progress other → TermState.IgnoresMethod change →
    both (progress.updateLedger (·.updateTerm id change))
      (other.updateLedger (·.updateTerm id change))
  updateRoll : ∀ {progress other} (id : Identity) (change : RollState → RollState),
    both progress other →
    both (progress.updateLedger (·.updateRoll id change))
      (other.updateLedger (·.updateRoll id change))
  report : ∀ {progress other} {level : Level} {text : String}, both progress other →
    Message.IsRoutine ⟨level, text⟩ → both (progress.report level text) (other.report level text)
  updateTermAlone : ∀ {progress} (id : Identity) {change : TermState → TermState},
    alone progress → TermState.IgnoresMethod change →
    alone (progress.updateLedger (·.updateTerm id change))
  updateRollAlone : ∀ {progress} (id : Identity) (change : RollState → RollState),
    alone progress → alone (progress.updateLedger (·.updateRoll id change))
  reportAlone : ∀ {progress} (level : Level) (text : String), alone progress →
    alone (progress.report level text)

variable {bond : Bond} {α β : Type}

/-- How two runs can stand to each other: they have ended alike, and if with a fault then not
with one that says so, or the second one has given up. -/
inductive Step.Joined (bond : Bond) (step other : Step α) : Prop
  | both {result : Except Fault α} {last lastToo : Progress} (run : step = .done result last)
    (runToo : other = .done result lastToo) (intrinsic : Intrinsic result)
    (holds : bond.both last lastToo)
  | alone {result : Except Fault α} {last lastToo : Progress} {reason : DeterminismReason}
    {formula : String} (run : step = .done result last)
    (gaveUp : other = .done (.error (.determinism reason formula)) lastToo)
    (intrinsic : Intrinsic result) (holds : bond.alone last)

/-- A bond joins two evaluations if it is kept by them, and by the first one alone. -/
structure Bond.Joins (bond : Bond) (first second : Evaluation α) : Prop where
  together : ∀ {progress other}, bond.both progress other →
    (first progress).Joined bond (second other)
  onward : ∀ {progress}, bond.alone progress → ∃ result last,
    first progress = .done result last ∧ Intrinsic result ∧ bond.alone last

namespace Bond.Joins

open Evaluation

variable {first second : Evaluation α}

/-- Evaluations that do not give up are joined if they end alike. -/
theorem of_done
    (together : ∀ progress other, bond.both progress other → ∃ result last lastToo,
      first progress = .done result last ∧ second other = .done result lastToo ∧
        Intrinsic result ∧ bond.both last lastToo)
    (onward : ∀ progress, bond.alone progress → ∃ result last,
      first progress = .done result last ∧ Intrinsic result ∧ bond.alone last) :
    bond.Joins first second where
  together holds := by
    rcases together _ _ holds with ⟨result, last, lastToo, run, runToo, intrinsic, kept⟩
    exact .both run runToo intrinsic kept
  onward holds := onward _ holds

theorem lift {result : Except Fault α} (intrinsic : Intrinsic result) :
    bond.Joins (lift result) (lift result) :=
  of_done (fun _ _ holds => ⟨result, _, _, rfl, rfl, intrinsic, holds⟩)
    fun _ holds => ⟨result, _, rfl, intrinsic, holds⟩

theorem pure (a : α) : bond.Joins (pure a) (pure a) := lift (.ok a)

theorem fail {fault : Fault} (is : fault.isIntrinsic = true) :
    bond.Joins (fail fault : Evaluation α) (fail fault) :=
  lift (.error is)

/-- What is read must not depend on methods. -/
theorem read {f : Ledger → Except Fault α} (intrinsic : ∀ ledger, Intrinsic (f ledger))
    (same : ∀ ledger other : Ledger, ledger.SameButMethods other → f ledger = f other) :
    bond.Joins (read f) (read f) :=
  of_done (fun _ _ holds => ⟨_, _, _, rfl,
      congrArg (Step.done · _) (same _ _ (bond.ledgers holds)).symm, intrinsic _, holds⟩)
    fun _ holds => ⟨_, _, rfl, intrinsic _, holds⟩

/-- What is always there can be read. -/
theorem look {f : Ledger → α}
    (same : ∀ ledger other : Ledger, ledger.SameButMethods other → f ledger = f other) :
    bond.Joins (Evaluation.read fun ledger => .ok (f ledger))
      (Evaluation.read fun ledger => .ok (f ledger)) :=
  read (fun _ => .ok _) fun ledger other alike => congrArg Except.ok (same ledger other alike)

theorem updateTerm (id : Identity) {f : TermState → TermState}
    (ignores : TermState.IgnoresMethod f) :
    bond.Joins (change fun ledger => ledger.updateTerm id f)
      (change fun ledger => ledger.updateTerm id f) :=
  of_done (fun _ _ holds => ⟨.ok (), _, _, rfl, rfl, .ok (), bond.updateTerm id holds ignores⟩)
    fun _ holds => ⟨.ok (), _, rfl, .ok (), bond.updateTermAlone id holds ignores⟩

theorem updateRoll (id : Identity) (f : RollState → RollState) :
    bond.Joins (change fun ledger => ledger.updateRoll id f)
      (change fun ledger => ledger.updateRoll id f) :=
  of_done (fun _ _ holds => ⟨.ok (), _, _, rfl, rfl, .ok (), bond.updateRoll id f holds⟩)
    fun _ holds => ⟨.ok (), _, rfl, .ok (), bond.updateRollAlone id f holds⟩

theorem report {level : Level} {text : String} (routine : Message.IsRoutine ⟨level, text⟩) :
    bond.Joins (Evaluation.report level text) (Evaluation.report level text) :=
  of_done (fun _ _ holds => ⟨.ok (), _, _, rfl, rfl, .ok (), bond.report holds routine⟩)
    fun _ holds => ⟨.ok (), _, rfl, .ok (), bond.reportAlone _ _ holds⟩

/-- What comes second goes on alone when the other one has given up before. -/
theorem bind {next nextToo : α → Evaluation β} (joins : bond.Joins first second)
    (further : ∀ a, bond.Joins (next a) (nextToo a)) :
    bond.Joins (first >>= next) (second >>= nextToo) where
  together holds := by
    cases joins.together holds with
    | @both result _ _ run runToo intrinsic kept =>
      cases result with
      | error fault =>
        exact .both (bind_failed run) (bind_failed runToo) (.error (intrinsic fault rfl)) kept
      | ok a =>
        rw [bind_done run, bind_done runToo]
        exact (further a).together kept
    | @alone result _ _ _ _ run gaveUp intrinsic kept =>
      cases result with
      | error fault =>
        exact .alone (bind_failed run) (bind_failed gaveUp) (.error (intrinsic fault rfl)) kept
      | ok a =>
        rcases (further a).onward kept with ⟨_, _, more, within, left⟩
        exact .alone ((bind_done run).trans more) (bind_failed gaveUp) within left
  onward holds := by
    rcases joins.onward holds with ⟨result, _, run, intrinsic, kept⟩
    cases result with
    | error fault => exact ⟨_, _, bind_failed run, .error (intrinsic fault rfl), kept⟩
    | ok a =>
      rcases (further a).onward kept with ⟨_, _, more, within, left⟩
      exact ⟨_, _, (bind_done run).trans more, within, left⟩

/-- What follows an evaluation may catch its fault, unless that is that it gave up. -/
theorem andThen {next nextToo : Except Fault α → Evaluation β} (joins : bond.Joins first second)
    (further : ∀ result, Intrinsic result → bond.Joins (next result) (nextToo result))
    (passes : ∀ reason formula, nextToo (.error (.determinism reason formula)) =
      Evaluation.fail (.determinism reason formula)) :
    bond.Joins (fun progress => (first progress).andThen next)
      fun progress => (second progress).andThen nextToo where
  together holds := by
    cases joins.together holds with
    | @both result _ _ run runToo intrinsic kept =>
      rw [run, runToo]
      exact (further result intrinsic).together kept
    | @alone result _ _ reason formula run gaveUp intrinsic kept =>
      rcases (further result intrinsic).onward kept with ⟨_, _, more, within, left⟩
      rw [run, gaveUp]
      exact .alone more (congrFun (passes reason formula) _) within left
  onward holds := by
    rcases joins.onward holds with ⟨result, _, run, intrinsic, kept⟩
    rw [run]
    exact (further result intrinsic).onward kept

theorem ite {condition : Prop} [Decidable condition] {third fourth : Evaluation α}
    (holds : bond.Joins first second) (fails : bond.Joins third fourth) :
    bond.Joins (if condition then first else third)
      (if condition then second else fourth) := by
  split
  · exact holds
  · exact fails

end Bond.Joins

/-- Two contexts differ at most in how single results are drawn. -/
structure Context.Matches (context other : Context) : Prop where
  fixed : context.isFixed = other.isFixed
  strings : context.allowStrings = other.allowStrings
  lenient : context.lenient = other.lenient
  limit : context.maxChainRolls = other.maxChainRolls

/-- A bond joins the single results of dice. -/
def Bond.JoinsResults (bond : Bond) (context other : Context) (dice : Dice) : Prop :=
  ∀ reroll explode, bond.Joins (context.nextResult dice reroll explode)
    (other.nextResult dice reroll explode)

/-- The results of dice are joined if what is drawn for them is. -/
theorem Bond.joins_results {bond : Bond} {context other : Context} {dice : Dice}
    (lowest : context.minimize = other.minimize) (highest : context.maximize = other.maximize)
    (draws : context.isFixed = false → ∀ reroll explode,
      bond.Joins (context.draw dice reroll explode) (other.draw dice reroll explode)) :
    bond.JoinsResults context other dice := by
  intro reroll explode
  unfold Context.isFixed at draws
  unfold Context.nextResult
  rw [lowest, highest] at *
  cases least : other.minimize with
  | true => exact .pure _
  | false =>
    cases greatest : other.maximize with
    | true =>
      exact .read (·.intrinsic_maximumValue dice) fun _ _ same => same.agrees.maximumValue dice
    | false =>
      rw [least, greatest] at draws
      exact draws rfl reroll explode

namespace Bond

open Evaluation

variable {context other : Context}

theorem joins_outcomes (id : Identity) {f : List Outcome → Except Fault α}
    (intrinsic : ∀ outcomes, Intrinsic (f outcomes)) :
    bond.Joins (read fun ledger => f (ledger.outcomes id))
      (read fun ledger => f (ledger.outcomes id)) :=
  .read (fun _ => intrinsic _) fun _ _ same => congrArg f (same.outcomes id)

theorem joins_count (id : Identity) :
    bond.Joins (read fun ledger => .ok (ledger.outcomes id).length)
      (read fun ledger => .ok (ledger.outcomes id).length) :=
  .look fun _ _ same => congrArg List.length (same.outcomes id)

theorem joins_refusal (dice : Dice) {fault : Fault} (is : fault.isIntrinsic = true) :
    bond.Joins (Context.naming dice (fail fault) : Evaluation α)
      (Context.naming dice (fail fault)) :=
  .ite (.fail is) (.fail rfl)

/-- A change of outcomes does not look at methods. -/
theorem ignoresMethod_outcomes (change : List Outcome → List Outcome) :
    TermState.IgnoresMethod fun state => { state with outcomes := change state.outcomes } :=
  fun _ _ => rfl

/-! ## Modifiers -/

theorem joins_tally (term : Term) (action : Action) (command : Command) :
    bond.Joins (Context.tally term action command) (Context.tally term action command) := by
  have tallies : bond.Joins (Context.tallyOf term.id) (Context.tallyOf term.id) := by
    refine .look fun ledger other same => ?_
    rw [same.outcomes, same.counting]
  refine tallies.bind fun before => (Joins.updateTerm _ fun _ _ => rfl).bind fun _ => ?_
  exact .lift (before.intrinsic_carryOut action command term.formula)

/-- A bond joins the chains of what modifiers work on. -/
def JoinsChains (bond : Bond) (modified : Context.Modified)
    (chains : Command → Bool → Bool → Evaluation Unit) : Prop :=
  ∀ command recursive explode,
    bond.Joins (modified.chain command recursive explode) (chains command recursive explode)

section

variable {modified : Context.Modified} {chains : Command → Bool → Bool → Evaluation Unit}

theorem joins_runModifier (joins : bond.JoinsChains modified chains) (raw : Json) :
    bond.Joins (Context.runModifier modified raw)
      (Context.runModifier { modified with chain := chains } raw) := by
  refine (Joins.lift (Command.intrinsic_ofData raw _)).bind fun command => ?_
  cases modified.table.action? command.name with
  | none => exact .fail rfl
  | some action =>
    cases action with
    | reroll once => exact joins _ _ _
    | explode once => exact joins _ _ _
    | _ => exact joins_tally modified.term _ command

/-- Both skip a modifier that fails, or none does. -/
theorem joins_afterModifier (lenient : context.lenient = other.lenient) (term : Term) (raw : Json)
    (outcomes : List Outcome) {result : Except Fault Unit} (intrinsic : Intrinsic result) :
    bond.Joins (context.afterModifier term raw outcomes result)
      (other.afterModifier term raw outcomes result) := by
  cases result with
  | ok done => exact .pure done
  | error fault =>
    cases fault with
    | modifier reason formula command =>
      unfold Context.afterModifier
      dsimp only
      rw [lenient]
      cases other.lenient with
      | false => exact .fail rfl
      | true =>
        have routine := Message.IsRoutine.skipping term raw
          ((Fault.modifier reason formula command).message?.getD "")
        exact (Joins.report routine).bind fun _ =>
          .updateTerm term.id (ignoresMethod_outcomes fun _ => outcomes)
    | _ => exact .fail (intrinsic _ rfl)

theorem joins_tryModifier (lenient : context.lenient = other.lenient)
    (joins : bond.JoinsChains modified chains) (raw : Json) :
    bond.Joins (context.tryModifier modified raw)
      (other.tryModifier { modified with chain := chains } raw) := by
  have here (outcomes : List Outcome) := (joins_runModifier joins raw).andThen
    (fun _ => joins_afterModifier lenient modified.term raw outcomes) fun _ _ => rfl
  refine ⟨fun {progress otherToo} holds => ?_, fun {progress} holds => ?_⟩
  · rw [Context.tryModifier_eq, Context.tryModifier_eq,
      ← (bond.ledgers holds).outcomes modified.term.id]
    exact (here _).together holds
  · rw [Context.tryModifier_eq]
    exact (here _).onward holds

theorem joins_runModifiers (lenient : context.lenient = other.lenient)
    (joins : bond.JoinsChains modified chains) (modifiers : List Json) :
    bond.Joins (context.runModifiers modified modifiers)
      (other.runModifiers { modified with chain := chains } modifiers) := by
  induction modifiers with
  | nil => exact .pure _
  | cons raw rest ih =>
    exact .ite ((joins_tryModifier lenient joins raw).bind fun _ => ih) (.fail rfl)

end

/-! ## Dice -/

section

variable {dice : Dice} (results : bond.JoinsResults context other dice)
include results

theorem joins_rollOne (reroll explode : Bool) :
    bond.Joins (context.rollOne dice reroll explode) (other.rollOne dice reroll explode) := by
  have evaluated : bond.Joins (read fun ledger => .ok (ledger.isEvaluated (.dice dice)))
      (read fun ledger => .ok (ledger.isEvaluated (.dice dice))) :=
    .look fun _ _ same => same.agrees.isEvaluated _
  refine evaluated.bind fun _ => .ite (joins_refusal dice rfl) ?_
  refine (results reroll explode).bind fun value => ?_
  have added : bond.Joins (change fun ledger => Resolver.addOutcome ledger dice value)
      (change fun ledger => Resolver.addOutcome ledger dice value) :=
    .updateTerm _ (ignoresMethod_outcomes (· ++ [{ value := value }]))
  exact added.bind fun _ => .pure _

theorem joins_rollUpTo (number rolls : Nat) :
    bond.Joins (context.rollUpTo dice number rolls) (other.rollUpTo dice number rolls) := by
  induction rolls with
  | zero => exact .pure _
  | succ rolls ih =>
    refine (joins_count dice.tag.id).bind fun present => ?_
    exact .ite ((joins_rollOne results false false).bind fun _ => ih) (.pure _)

theorem joins_runChain (limit : context.maxChainRolls = other.maxChainRolls) (command : Command)
    (chain : Context.Chain) (initial rolls checked : Nat) :
    bond.Joins (context.runChain dice command chain initial rolls checked)
      (other.runChain dice command chain initial rolls checked) := by
  have nexts {checked : Nat} (outcomes : List Outcome) :
      Intrinsic (chain.next? initial checked outcomes) := chain.intrinsic_firstFrom _ _
  induction rolls generalizing checked with
  | zero =>
    unfold Context.runChain
    refine (joins_outcomes dice.tag.id nexts).bind fun next => ?_
    cases next with
    | none => exact .pure _
    | some position =>
      rw [limit]
      exact .fail rfl
  | succ rolls ih =>
    unfold Context.runChain
    refine (joins_outcomes dice.tag.id nexts).bind fun next => ?_
    cases next with
    | none => exact .pure _
    | some position =>
      refine (Joins.updateTerm _ (ignoresMethod_outcomes _)).bind fun _ => ?_
      exact (joins_rollOne results _ _).bind fun _ => ih (position + 1)

theorem joins_chain (matching : context.Matches other) (command : Command)
    (recursive explode : Bool) :
    bond.Joins (context.chain dice command recursive explode)
      (other.chain dice command recursive explode) := by
  have targets : bond.Joins (read fun ledger => Context.chainTarget ledger dice command explode)
      (read fun ledger => Context.chainTarget ledger dice command explode) := by
    refine .read (fun _ => Context.intrinsic_chainTarget _ _ _ _) fun ledger other same => ?_
    unfold Context.chainTarget
    rw [same.agrees.maximumValue]
  unfold Context.chain
  rw [matching.fixed, matching.limit]
  refine targets.bind fun target => .ite (.pure _) ?_
  refine (joins_count dice.tag.id).bind fun initial => ?_
  exact joins_runChain results matching.limit command _ initial _ 0

omit results in
/-- An amount is the same in both evaluations, and so is its refusal. -/
theorem joins_requireInteger (what : DiceAmount) (least : Nat) (amount : Operand Term) :
    bond.Joins (Context.rollDice.requireInteger dice what least amount)
      (Context.rollDice.requireInteger dice what least amount) := by
  have amounts : bond.Joins (read (·.amount amount)) (read (·.amount amount)) :=
    .read (·.intrinsic_amount amount) fun _ _ same => same.agrees.amount amount
  refine amounts.bind fun value => ?_
  split
  · exact .ite (.pure _) (joins_refusal dice rfl)
  · exact joins_refusal dice rfl

theorem joins_rollDice (matching : context.Matches other) :
    bond.Joins (context.rollDice dice) (other.rollDice dice) := by
  refine (joins_requireInteger _ _ _).bind fun number => ?_
  refine (joins_requireInteger _ _ _).bind fun _ => ?_
  refine (joins_rollUpTo results number number).bind fun _ => ?_
  have chains : bond.JoinsChains (context.modifiedDice dice) fun command recursive explode =>
      other.chain dice command recursive explode := joins_chain results matching
  exact joins_runModifiers matching.lenient chains dice.modifiers

end

/-! ## What is done with terms and rolls -/

theorem joins_enter (term : Term) (phase : Phase) :
    bond.Joins (enter term phase) (enter term phase) :=
  .updateTerm _ fun _ _ => rfl

section

variable {work workToo : Evaluation Unit}

theorem joins_ofTerm (term : Term) (joins : bond.Joins work workToo) :
    bond.Joins (ofTerm term work) (ofTerm term workToo) := by
  have phases : bond.Joins (phaseOf term) (phaseOf term) :=
    .look fun _ _ same => same.phase term.id
  have blames (fault : Fault) (is : fault.isIntrinsic = true) :
      (term.blame fault).isIntrinsic = true := by
    unfold Term.blame
    split
    · exact is
    · rfl
  refine phases.bind fun phase => ?_
  cases phase with
  | unevaluated =>
    exact (joins_enter term _).bind fun _ => joins.bind fun _ => joins_enter term _
  | evaluating => exact .fail (blames _ rfl)
  | evaluated => exact .fail (blames _ rfl)

theorem joins_unlessEvaluated (term : Term) (joins : bond.Joins work workToo) :
    bond.Joins (unlessEvaluated term work) (unlessEvaluated term workToo) := by
  have evaluated : bond.Joins (read fun ledger => .ok (ledger.isEvaluated term))
      (read fun ledger => .ok (ledger.isEvaluated term)) :=
    .look fun _ _ same => same.agrees.isEvaluated term
  exact evaluated.bind fun _ => .ite (.pure _) joins

theorem joins_unlessRollEvaluated (roll : Roll) (joins : bond.Joins work workToo) :
    bond.Joins (unlessRollEvaluated roll work) (unlessRollEvaluated roll workToo) := by
  have evaluated : bond.Joins (read fun ledger => .ok (ledger.isRollEvaluated roll))
      (read fun ledger => .ok (ledger.isRollEvaluated roll)) :=
    .look fun _ _ same => same.agrees.isRollEvaluated roll
  exact evaluated.bind fun _ => .ite (.pure _) joins

theorem joins_ofRoll (roll : Roll) (joins : bond.Joins work workToo) :
    bond.Joins (ofRoll roll work) (ofRoll roll workToo) := by
  have phases : bond.Joins (read fun ledger => .ok (ledger.roll roll.id).phase)
      (read fun ledger => .ok (ledger.roll roll.id).phase) :=
    .look fun _ _ same => congrArg RollState.phase (same.roll roll.id)
  have totals : bond.Joins (read (·.totalOfTerms roll.terms)) (read (·.totalOfTerms roll.terms)) :=
    .read (·.intrinsic_totalOfTerms roll.terms) fun _ _ same => same.agrees.totalOfTerms roll.terms
  refine phases.bind fun phase => ?_
  cases phase with
  | unevaluated =>
    refine (Joins.updateRoll _ _).bind fun _ => joins.bind fun _ => ?_
    refine totals.bind fun total => (Joins.updateRoll _ _).bind fun _ => ?_
    exact .report (.total _)
  | evaluating => exact .fail rfl
  | evaluated => exact .fail rfl

end

theorem joins_totalButText (roll : Roll) {refusal : Fault} (is : refusal.isIntrinsic = true) :
    bond.Joins (totalButText roll refusal) (totalButText roll refusal) := by
  have totals : bond.Joins (read fun ledger => .ok (ledger.rollTotal roll))
      (read fun ledger => .ok (ledger.rollTotal roll)) :=
    .look fun _ _ same => same.agrees.rollTotal roll
  exact totals.bind fun _ => .ite (.fail is) (.pure _)

theorem joins_checkArgument (term : Term) (fn : Function) (roll : Roll) :
    bond.Joins (Context.checkArgument term fn roll) (Context.checkArgument term fn roll) :=
  (joins_totalButText roll rfl).bind fun _ => .pure _

theorem joins_collect (pool : Pool) (roll : Roll) :
    bond.Joins (Context.collect pool roll) (Context.collect pool roll) :=
  (joins_totalButText roll rfl).bind fun total =>
    .updateTerm _ (ignoresMethod_outcomes (· ++ [{ value := total }]))

theorem joins_compute (term : Term) (fn : Function) (rolls : List Roll) :
    bond.Joins (Context.compute term fn rolls) (Context.compute term fn rolls) := by
  have values (ledger : Ledger) := ledger.intrinsic_functionValue fn rolls
  refine .of_done (fun progress other holds => ?_) fun progress holds => ?_
  · unfold Context.compute
    rw [(bond.ledgers holds).agrees.functionValue]
    split
    · exact ⟨_, _, _, rfl, rfl, .ok (), holds⟩
    · exact ⟨_, _, _, rfl, rfl, .error rfl, holds⟩
    · exact ⟨_, _, _, rfl, rfl, .error rfl, holds⟩
    · rename_i fault _ _ failed
      exact ⟨_, _, _, rfl, rfl, .error (values _ fault failed), holds⟩
  · unfold Context.compute
    split
    · exact ⟨_, _, rfl, .ok (), holds⟩
    · exact ⟨_, _, rfl, .error rfl, holds⟩
    · exact ⟨_, _, rfl, .error rfl, holds⟩
    · rename_i fault _ _ failed
      exact ⟨_, _, rfl, .error (values _ fault failed), holds⟩

/-! ## Terms and rolls -/

/-- A bond joins the results of a term, if this is dice. -/
def JoinsTerm (bond : Bond) (context other : Context) (term : Term) : Prop :=
  ∀ dice, term = .dice dice → bond.JoinsResults context other dice

mutual

/-- The evaluations of a term are joined if the results of all dice in it are. -/
theorem joins_evaluateTerm (matching : context.Matches other) : (term : Term) →
    term.Throughout (bond.JoinsTerm context other) (fun _ => True) →
    bond.Joins (context.evaluateTerm term) (other.evaluateTerm term)
  | .numeric tag value, _ => by
    unfold Context.evaluateTerm
    exact joins_ofTerm _ (.pure _)
  | .operator tag op, _ => by
    unfold Context.evaluateTerm
    exact joins_ofTerm _ (.pure _)
  | .text tag word, _ => by
    unfold Context.evaluateTerm Context.allowWord
    rw [matching.strings]
    exact joins_ofTerm _ (.ite (.pure _) (.fail rfl))
  | .group tag roll, ⟨_, _, inside⟩ => by
    unfold Context.evaluateTerm
    exact joins_ofTerm _ (joins_unlessRollEvaluated roll
      (joins_ofRoll roll (joins_evaluateTerms matching roll.terms inside)))
  | .function tag fn rolls, ⟨_, parts⟩ => by
    unfold Context.evaluateTerm
    refine joins_ofTerm _ ?_
    exact (joins_evaluateRolls matching rolls parts fun roll => joins_checkArgument _ fn roll).bind
      fun _ => joins_compute _ fn rolls
  | .dice d, ⟨results, number, faces⟩ => by
    unfold Context.evaluateTerm
    refine joins_ofTerm _ ((joins_evaluateAmount matching d.number number).bind fun _ => ?_)
    exact (joins_evaluateAmount matching d.faces faces).bind fun _ =>
      joins_rollDice (results d rfl) matching
  | .pool p, ⟨_, parts⟩ => by
    have chains : bond.JoinsChains (Context.modifiedPool p) fun _ _ _ => pure () :=
      fun _ _ _ => .pure _
    unfold Context.evaluateTerm
    refine joins_ofTerm _ ?_
    exact (joins_evaluateRolls matching p.rolls parts fun roll => joins_collect p roll).bind
      fun _ => joins_runModifiers matching.lenient chains p.modifiers

/-- The evaluations of a row are joined. -/
theorem joins_evaluateTerms (matching : context.Matches other) : (terms : List Term) →
    RowThroughout (bond.JoinsTerm context other) (fun _ => True) terms →
    bond.Joins (context.evaluateTerms terms) (other.evaluateTerms terms)
  | [], _ => by
    unfold Context.evaluateTerms
    exact .pure _
  | term :: rest, ⟨head, tail⟩ => by
    unfold Context.evaluateTerms
    exact (joins_unlessEvaluated term (joins_evaluateTerm matching term head)).bind
      fun _ => joins_evaluateTerms matching rest tail

/-- The evaluations of rolls are joined if that is what is done with each of them. -/
theorem joins_evaluateRolls (matching : context.Matches other) : (rolls : List Roll) →
    RollsThroughout (bond.JoinsTerm context other) (fun _ => True) rolls →
    {use : Roll → Evaluation Unit} → (∀ roll, bond.Joins (use roll) (use roll)) →
    bond.Joins (context.evaluateRolls use rolls) (other.evaluateRolls use rolls)
  | [], _, _, _ => by
    unfold Context.evaluateRolls
    exact .pure _
  | roll :: rest, ⟨_, inside, tail⟩, use, used => by
    unfold Context.evaluateRolls
    have evaluates := joins_unlessRollEvaluated roll
      (joins_ofRoll roll (joins_evaluateTerms matching roll.terms inside))
    exact evaluates.bind fun _ => (used roll).bind fun _ =>
      joins_evaluateRolls matching rest tail used

/-- The evaluations of an amount are joined. -/
theorem joins_evaluateAmount (matching : context.Matches other) : (amount : Operand Term) →
    AmountThroughout (bond.JoinsTerm context other) (fun _ => True) amount →
    bond.Joins (context.evaluateAmount amount) (other.evaluateAmount amount)
  | .known _, _ => by
    unfold Context.evaluateAmount
    exact .pure _
  | .computed term, inside => by
    unfold Context.evaluateAmount
    exact joins_unlessEvaluated term (joins_evaluateTerm matching term inside)

end

/-- The evaluations of a roll are joined if the results of all its dice are. -/
theorem joins_evaluateRoll (matching : context.Matches other) {roll : Roll}
    (results : ∀ dice ∈ roll.dice, bond.JoinsResults context other dice) :
    bond.Joins (context.evaluateRoll roll) (other.evaluateRoll roll) :=
  joins_ofRoll roll (joins_evaluateTerms matching roll.terms (rowThroughout_of_dice results))

end Bond

/-! ## Attempts without a resolver -/

namespace RollOf

open Evaluation

variable {roll : Roll} {options optionsToo : Options} {surroundings surroundingsToo : Surroundings}

/-- Without a resolver it does not matter to the order of things whether one may wait. -/
theorem attempt_of_unevaluated {context : Context} (unaided : surroundings.resolver = none)
    (settled : options.forRoll surroundings = .ok context) {progress : Progress}
    (untouched : (progress.ledger.roll roll.id).phase = .unevaluated) :
    roll.attempt options surroundings progress = context.evaluateRoll roll progress := by
  have reads : lift (options.forRoll surroundings) progress = .done (.ok context) progress :=
    congrArg (Step.done · progress) settled
  unfold attempt
  split
  · unfold evaluateNow
    exact bind_done reads
  · rw [evaluate_of_unevaluated options surroundings untouched, bind_done reads]
    unfold evaluateWith
    rw [unaided]

/-- A bond joins the attempts to evaluate a roll if it joins the results of its dice. -/
theorem joined_attempts {context other : Context} (unaided : surroundings.resolver = none)
    (unaidedToo : surroundingsToo.resolver = none)
    (settled : options.forRoll surroundings = .ok context)
    (settledToo : optionsToo.forRoll surroundingsToo = .ok other)
    (matching : context.Matches other)
    (results : ∀ dice ∈ roll.dice, bond.JoinsResults context other dice)
    {progress progressToo : Progress} (holds : bond.both progress progressToo)
    (untouched : (progress.ledger.roll roll.id).phase = .unevaluated) :
    (roll.attempt options surroundings progress).Joined bond
      (roll.attempt optionsToo surroundingsToo progressToo) := by
  have untouchedToo : (progressToo.ledger.roll roll.id).phase = .unevaluated := by
    rw [← (bond.ledgers holds).roll roll.id]
    exact untouched
  rw [attempt_of_unevaluated unaided settled untouched,
    attempt_of_unevaluated unaidedToo settledToo untouchedToo]
  exact (bond.joins_evaluateRoll matching results).together holds

end RollOf
end DiceNotation
