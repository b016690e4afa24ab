import DiceNotation.Evaluation.Run
import DiceNotation.Proofs.Evaluation.Touched
import DiceNotation.Proofs.Fulfillment.FirstPass
import DiceNotation.Proofs.Roll.Throughout

namespace DiceNotation

/-!
# The frame of evaluation

Whatever the options say and however an evaluation ends, it touches the terms and
rolls that are evaluated, and leaves everything else alone.  This is shown for each
thing that evaluation does, from the single die up to the roll.
-/

variable {inside : Identity → Prop} {rule : FrameRule inside}

namespace Evaluation

theorem keeps_resolve {resolver : Resolver} {dice : Dice} (asks : rule.asks resolver dice)
    (method : Json) (reroll explode : Bool) :
    Keeps rule (resolver.resolve dice method reroll explode) := by
  intro progress
  unfold Resolver.resolve
  split
  · exact rule.refl progress
  · rename_i isOpen
    have asked := rule.ask asks (Bool.not_eq_true _ ▸ isOpen) method reroll explode
    refine ⟨asked, ?_⟩
    intro answer later meanwhile
    have whole := rule.resume asked meanwhile
    cases answer <;> exact whole

/-- The first pass asks for dice of its own accord.  It keeps to a rule under which
this does not matter. -/
theorem keeps_firstPass (resolver : Resolver) (methods : MethodTable)
    (byLedger : ∀ progress later : Progress, later.ledger = progress.ledger →
      rule.holds progress later ∧ ∀ request, rule.waits request progress later) :
    Keeps rule (resolver.firstPass methods) := by
  intro progress
  have asked := resolver.ledger_addAll methods resolver.roll.dice progress
  have passes := resolver.passes_firstPass methods progress
  generalize resolver.firstPass methods progress = step at passes
  cases passes with
  | closed => exact rule.refl progress
  | failed _ all =>
    rw [all] at asked
    exact (byLedger progress _ asked).1
  | ended _ all =>
    rw [all] at asked
    exact (byLedger progress _ ((resolver.ledger_checkDone _).trans asked)).1
  | @waiting between _ all =>
    rw [all] at asked
    have before := (byLedger progress (resolver.expecting between) asked).2 between.requests
    exact ⟨before, fun answer later meanwhile => rule.resume before meanwhile⟩

theorem keeps_totalButText (roll : Roll) (refusal : Fault) :
    Keeps rule (totalButText roll refusal) := by
  refine (Keeps.read _).bind fun total => ?_
  exact Keeps.ite (Keeps.fail _) (Keeps.pure _)

/-! ## The phases of terms and rolls -/

end Evaluation

theorem Progress.touched_entering {inside : Identity → Prop} {term : Term} (here : inside term.id)
    (progress : Progress) (phase : Phase) : progress.Touched inside (progress.entering term phase) :=
  Ledger.Touched.updateTerm here fun _ => rfl

theorem Progress.touched_starting {inside : Identity → Prop} {roll : Roll} (here : inside roll.id)
    (progress : Progress) : progress.Touched inside (progress.starting roll) :=
  Ledger.Touched.updateRoll here _

namespace Evaluation

theorem bind_done {α β : Type} {first : Evaluation α} {next : α → Evaluation β} {progress later : Progress}
    {a : α} (run : first progress = .done (.ok a) later) :
    (first >>= next) progress = next a later := by
  change (first progress).andThen _ = _
  rw [run]
  rfl

theorem bind_failed {α β : Type} {first : Evaluation α} {next : α → Evaluation β} {progress later : Progress}
    {fault : Fault} (run : first progress = .done (.error fault) later) :
    (first >>= next) progress = .done (.error fault) later := by
  change (first progress).andThen _ = _
  rw [run]
  rfl

theorem unlessEvaluated_of_not {term : Term} {progress : Progress}
    (not : progress.ledger.isEvaluated term = false) (work : Evaluation Unit) :
    unlessEvaluated term work progress = work progress := by
  change (if progress.ledger.isEvaluated term = true then pure () else work : Evaluation Unit)
    progress = _
  rw [not, if_neg Bool.false_ne_true]

theorem unlessRollEvaluated_of_not {roll : Roll} {progress : Progress}
    (not : progress.ledger.isRollEvaluated roll = false) (work : Evaluation Unit) :
    unlessRollEvaluated roll work progress = work progress := by
  change (if progress.ledger.isRollEvaluated roll = true then pure () else work : Evaluation Unit)
    progress = _
  rw [not, if_neg Bool.false_ne_true]

theorem phaseOf_eq {term : Term} {progress : Progress} {phase : Phase}
    (stands : (progress.ledger.term term.id).phase = phase) :
    phaseOf term progress = .done (.ok phase) progress := by
  rw [← stands]
  rfl

/-- A term that is not evaluated yet is evaluated by evaluating what is inside it. -/
theorem ofTerm_of_unevaluated {term : Term} {progress : Progress}
    (untouched : (progress.ledger.term term.id).phase = .unevaluated) (work : Evaluation Unit) :
    ofTerm term work progress =
      (work >>= fun _ => enter term .evaluated) (progress.entering term .evaluating) := by
  unfold ofTerm
  rw [bind_done (phaseOf_eq untouched)]
  rfl

theorem rollPhase_eq {roll : Roll} {progress : Progress} {phase : Phase}
    (stands : (progress.ledger.roll roll.id).phase = phase) :
    (read fun ledger => .ok (ledger.roll roll.id).phase) progress = .done (.ok phase) progress := by
  rw [← stands]
  rfl

/-- The total of the terms of a roll becomes the total of the roll. -/
def sumUp (roll : Roll) : Evaluation Unit := fun progress =>
  match progress.ledger.totalOfTerms roll.terms with
  | .ok total => .done (.ok ()) (progress.finishing roll total)
  | .error fault => .done (.error fault) progress

/-- A roll that is not evaluated yet is evaluated by evaluating its terms and summing
them up. -/
theorem ofRoll_of_unevaluated {roll : Roll} {progress : Progress}
    (untouched : (progress.ledger.roll roll.id).phase = .unevaluated) (work : Evaluation Unit) :
    ofRoll roll work progress = (work >>= fun _ => sumUp roll) (progress.starting roll) := by
  have last : (read (·.totalOfTerms roll.terms) >>= fun total =>
      change (fun ledger => ledger.updateRoll roll.id fun _ => ⟨.evaluated, total⟩) >>= fun _ =>
        report .debug ("Rolled '" ++ roll.formula ++ "' = " ++ total.plainText)) = sumUp roll := by
    funext later
    unfold sumUp
    cases sum : later.ledger.totalOfTerms roll.terms with
    | error fault =>
      have failed : read (·.totalOfTerms roll.terms) later = .done (.error fault) later :=
        congrArg (Step.done · later) sum
      rw [bind_failed failed]
    | ok total =>
      have found : read (·.totalOfTerms roll.terms) later = .done (.ok total) later :=
        congrArg (Step.done · later) sum
      rw [bind_done found]
      rfl
  rw [← last]
  unfold ofRoll
  rw [bind_done (rollPhase_eq untouched)]
  rfl

/-- What has begun or is done is not evaluated once more. -/
theorem ofTerm_of_begun {term : Term} {progress : Progress}
    (begun : (progress.ledger.term term.id).phase ≠ .unevaluated) (work : Evaluation Unit) :
    ofTerm term work progress =
      .done (.error (term.blame (.use (.termEvaluated term.formula)))) progress := by
  unfold ofTerm
  cases phase : (progress.ledger.term term.id).phase with
  | unevaluated => exact absurd phase begun
  | evaluating =>
    rw [bind_done (phaseOf_eq phase)]
    rfl
  | evaluated =>
    rw [bind_done (phaseOf_eq phase)]
    rfl

theorem ofRoll_of_begun {roll : Roll} {progress : Progress}
    (begun : (progress.ledger.roll roll.id).phase ≠ .unevaluated) (work : Evaluation Unit) :
    ofRoll roll work progress = .done (.error (.use (.rollEvaluated roll.formula))) progress := by
  unfold ofRoll
  cases phase : (progress.ledger.roll roll.id).phase with
  | unevaluated => exact absurd phase begun
  | evaluating =>
    rw [bind_done (rollPhase_eq phase)]
    rfl
  | evaluated =>
    rw [bind_done (rollPhase_eq phase)]
    rfl

theorem keeps_ofTerm {term : Term} (here : inside term.id) {work : Evaluation Unit}
    (keeps : work.Keeps rule) : Keeps rule (ofTerm term work) := by
  intro progress
  by_cases phase : (progress.ledger.term term.id).phase = .unevaluated
  · have leaves : Keeps rule (enter term .evaluated) := fun later => rule.leave here later
    rw [ofTerm_of_unevaluated phase]
    exact Step.Keeps.from (rule.enter here phase) (keeps.bind (fun _ => leaves) _)
  · rw [ofTerm_of_begun phase]
    exact rule.refl progress

theorem keeps_unlessEvaluated {term : Term} {work : Evaluation Unit}
    (keeps : work.Keeps rule) : Keeps rule (unlessEvaluated term work) :=
  (Keeps.read _).bind fun _ => Keeps.ite (Keeps.pure _) keeps

theorem keeps_ofRoll {roll : Roll} (here : inside roll.id) {work : Evaluation Unit}
    (keeps : work.Keeps rule) : Keeps rule (ofRoll roll work) := by
  intro progress
  by_cases phase : (progress.ledger.roll roll.id).phase = .unevaluated
  · have started := rule.start here phase
    rw [ofRoll_of_unevaluated phase]
    refine Step.Keeps.andThen_from (keeps _) started ?_
    intro result later since
    cases result with
    | error fault => exact rule.trans started since
    | ok done =>
      change (sumUp roll later).Keeps rule progress
      unfold sumUp
      split
      · exact rule.finish here phase since _
      · exact rule.trans started since
  · rw [ofRoll_of_begun phase]
    exact rule.refl progress

theorem keeps_unlessRollEvaluated {roll : Roll} {work : Evaluation Unit}
    (keeps : work.Keeps rule) : Keeps rule (unlessRollEvaluated roll work) :=
  (Keeps.read _).bind fun _ => Keeps.ite (Keeps.pure _) keeps

end Evaluation

namespace Context

open Evaluation

variable (context : Context)

/-- Whether the resolver of a context, if there is one, may be asked for dice. -/
def MayAsk (rule : FrameRule inside) (dice : Dice) : Prop :=
  ∀ resolver, context.resolver = some resolver → rule.asks resolver dice

/-! ## One die -/

theorem keeps_naming {α : Type} (dice : Dice) {work : Evaluation α}
    (keeps : work.Keeps rule) : Keeps rule (naming dice work) :=
  Keeps.ite keeps (Keeps.fail _)

theorem keeps_drawUniform (dice : Dice) : Keeps rule (context.drawUniform dice) :=
  fun _ => rule.aside ⟨rfl, rfl, rfl, rfl, rfl⟩

theorem keeps_call (method : String) (answers : List Json) (dice : Dice)
    (reroll explode : Bool) : Keeps rule (call method answers dice reroll explode) :=
  keeps_naming dice fun _ => rule.aside ⟨rfl, rfl, rfl, rfl, rfl⟩

theorem keeps_withoutWaiting (method : String) (dice : Dice) :
    Keeps rule (context.withoutWaiting method dice) :=
  Keeps.ite (keeps_naming dice (Keeps.fail _)) (Keeps.pure _)

theorem keeps_askHandler (dice : Dice) (method : String) (reroll explode : Bool)
    (handler : Handler) :
    Keeps rule (context.askHandler dice method reroll explode handler) := by
  cases handler with
  | lowest => exact Keeps.pure _
  | highest => exact Keeps.read (·.maximumValue dice)
  | prepared delivery answers =>
    cases delivery with
    | direct => exact keeps_call _ _ _ _ _
    | deferred =>
      exact Keeps.ite (context.keeps_withoutWaiting _ _) (keeps_call _ _ _ _ _)
    | promised =>
      refine (keeps_call _ _ _ _ _).bind fun answer => ?_
      exact Keeps.ite (context.keeps_withoutWaiting _ _) (Keeps.pure _)

theorem keeps_reportDigital (dice : Dice) (reason : String) :
    Keeps rule (reportDigital dice reason) :=
  keeps_naming dice ((Keeps.report _ _).bind fun _ => Keeps.pure _)

section

variable {context} {dice : Dice} (may : context.MayAsk rule dice)
include may

theorem keeps_askOutside (method : Json) (reroll explode : Bool) :
    Keeps rule (context.askOutside dice method reroll explode) := by
  refine Keeps.ite ?_ (Keeps.ite (Keeps.pure _) ?_)
  · exact Keeps.ite (keeps_naming dice (Keeps.fail _)) (keeps_reportDigital _ _)
  · cases given : context.resolver with
    | none => exact keeps_reportDigital _ _
    | some resolver =>
      exact (keeps_resolve (may resolver given) method reroll explode).bind fun _ => Keeps.pure _

theorem keeps_askMethod (name : Json) (reroll explode : Bool) :
    Keeps rule (context.askMethod dice name reroll explode) := by
  refine (Keeps.lift _).bind fun method => ?_
  refine Keeps.ite (keeps_askOutside may _ _ _) ?_
  cases method.handler with
  | none => exact Keeps.pure _
  | some handler => exact context.keeps_askHandler _ _ _ _ _

theorem keeps_draw (reroll explode : Bool) : Keeps rule (context.draw dice reroll explode) := by
  refine (Keeps.read _).bind fun name => ?_
  refine (keeps_askMethod may name reroll explode).bind fun given => ?_
  cases given with
  | null => exact context.keeps_drawUniform dice
  | _ =>
    refine (Keeps.read _).bind fun accepted => ?_
    refine Keeps.ite (Keeps.pure _) ?_
    exact (Keeps.read _).bind fun _ => keeps_naming dice (Keeps.fail _)

theorem keeps_nextResult (reroll explode : Bool) :
    Keeps rule (context.nextResult dice reroll explode) :=
  Keeps.ite (Keeps.pure _) (Keeps.ite (Keeps.read _) (keeps_draw may _ _))

variable (here : inside dice.tag.id)
include here

theorem keeps_rollOne (reroll explode : Bool) :
    Keeps rule (context.rollOne dice reroll explode) := by
  refine (Keeps.read _).bind fun evaluated => ?_
  refine Keeps.ite (keeps_naming dice (Keeps.fail _)) ?_
  refine (keeps_nextResult may reroll explode).bind fun value => ?_
  refine (Keeps.updateTerm here ?_).bind fun _ => Keeps.pure _
  exact fun _ => ⟨rfl, rfl⟩

theorem keeps_rollUpTo (number rolls : Nat) :
    Keeps rule (context.rollUpTo dice number rolls) := by
  induction rolls with
  | zero => exact Keeps.pure _
  | succ rolls ih =>
    refine (Keeps.read _).bind fun present => ?_
    refine Keeps.ite ?_ (Keeps.pure _)
    exact (keeps_rollOne may here false false).bind fun _ => ih

/-! ## Modifiers -/

theorem keeps_runChain (command : Command) (chain : Chain) (initial rolls checked : Nat) :
    Keeps rule (context.runChain dice command chain initial rolls checked) := by
  induction rolls generalizing checked with
  | zero =>
    unfold runChain
    refine (Keeps.read _).bind fun next => ?_
    cases next with
    | none => exact Keeps.pure _
    | some position => exact Keeps.fail _
  | succ rolls ih =>
    unfold runChain
    refine (Keeps.read _).bind fun next => ?_
    cases next with
    | none => exact Keeps.pure _
    | some position =>
      refine (Keeps.updateTerm here ?_).bind fun _ => ?_
      · exact fun _ => ⟨rfl, rfl⟩
      · exact (keeps_rollOne may here _ _).bind fun _ => ih (position + 1)

theorem keeps_chain (command : Command) (recursive explode : Bool) :
    Keeps rule (context.chain dice command recursive explode) := by
  refine (Keeps.read _).bind fun target => ?_
  refine Keeps.ite (Keeps.pure _) ?_
  exact (Keeps.read _).bind fun initial => keeps_runChain may here command _ initial _ 0

end

theorem keeps_tally {term : Term} (here : inside term.id) (action : Action) (command : Command) :
    Keeps rule (tally term action command) := by
  refine (Keeps.read _).bind fun before => ?_
  refine (Keeps.updateTerm here ?_).bind fun _ => Keeps.lift _
  exact fun _ => ⟨rfl, rfl⟩

/-- What modifiers work on is inside and keeps to a rule. -/
structure Modified.Keeps (rule : FrameRule inside) (modified : Modified) : Prop where
  here : inside modified.term.id
  chain : ∀ command recursive explode,
    Evaluation.Keeps rule (modified.chain command recursive explode)

theorem keeps_runModifier {modified : Modified} (keeps : modified.Keeps rule)
    (raw : Json) : Evaluation.Keeps rule (runModifier modified raw) := by
  refine (Keeps.lift _).bind fun command => ?_
  cases modified.table.action? command.name with
  | none => exact Keeps.fail _
  | some action =>
    cases action with
    | reroll once => exact keeps.chain _ _ _
    | explode once => exact keeps.chain _ _ _
    | _ => exact keeps_tally keeps.here _ command

theorem keeps_tryModifier {modified : Modified} (keeps : modified.Keeps rule)
    (raw : Json) : Evaluation.Keeps rule (context.tryModifier modified raw) := by
  intro progress
  refine (keeps_runModifier keeps raw progress).andThen fun result later => ?_
  split
  · simp only
    split
    · have restored := rule.term
        (fun state => { state with outcomes := (progress.ledger.term modified.term.id).outcomes })
        keeps.here (fun _ => ⟨rfl, rfl⟩)
      have aside (text : String) : rule.holds later (later.report .warning text) :=
        rule.aside ⟨rfl, rfl, rfl, rfl, rfl⟩
      exact rule.trans (aside _) (restored (later.report .warning _))
    · exact rule.refl later
  · exact rule.refl later

theorem keeps_runModifiers {modified : Modified} (keeps : modified.Keeps rule)
    (modifiers : List Json) : Evaluation.Keeps rule (context.runModifiers modified modifiers) := by
  induction modifiers with
  | nil => exact Keeps.pure _
  | cons raw rest ih =>
    refine Keeps.ite ?_ (Keeps.fail _)
    exact (context.keeps_tryModifier keeps raw).bind fun _ => ih

/-! ## Terms and rolls -/

theorem keeps_requireInteger (dice : Dice) (what : DiceAmount) (least : Nat)
    (amount : Operand Term) :
    Evaluation.Keeps rule (rollDice.requireInteger dice what least amount) := by
  refine (Keeps.read _).bind fun value => ?_
  split
  · exact Keeps.ite (Keeps.pure _) (keeps_naming dice (Keeps.fail _))
  · exact keeps_naming dice (Keeps.fail _)

/-- Dice are rolled until there are enough of them, and modified. -/
theorem keeps_rollUpTo_modified {dice : Dice} (may : context.MayAsk rule dice)
    (here : inside dice.tag.id) (number : Nat) :
    Evaluation.Keeps rule (context.rollUpTo dice number number >>= fun _ =>
      context.runModifiers (context.modifiedDice dice) dice.modifiers) := by
  refine (keeps_rollUpTo may here number number).bind fun _ => ?_
  refine context.keeps_runModifiers ⟨here, fun command recursive explode => ?_⟩ _
  exact keeps_chain may here command recursive explode

theorem keeps_rollDice {dice : Dice} (may : context.MayAsk rule dice) (here : inside dice.tag.id) :
    Evaluation.Keeps rule (context.rollDice dice) := by
  refine (keeps_requireInteger dice _ _ _).bind fun number => ?_
  refine (keeps_requireInteger dice _ _ _).bind fun _ => ?_
  exact context.keeps_rollUpTo_modified may here number

theorem keeps_compute (term : Term) (fn : Function) (rolls : List Roll) :
    Evaluation.Keeps rule (compute term fn rolls) := by
  intro progress
  unfold compute
  split <;> exact rule.refl progress

theorem keeps_collect {pool : Pool} (here : inside pool.tag.id) (roll : Roll) :
    Evaluation.Keeps rule (collect pool roll) := by
  refine (keeps_totalButText roll _).bind fun total => ?_
  exact Keeps.updateTerm here fun _ => ⟨rfl, rfl⟩

theorem keeps_checkArgument (term : Term) (fn : Function) (roll : Roll) :
    Evaluation.Keeps rule (checkArgument term fn roll) :=
  (keeps_totalButText roll _).bind fun _ => Keeps.pure _

/-- What must be known of all parts of a term for its evaluation to keep to a rule. -/
structure Follows (rule : FrameRule inside) (P : Term → Prop) (Q : Roll → Prop) : Prop where
  term : ∀ {term : Term}, P term → inside term.id
  roll : ∀ {roll : Roll}, Q roll → inside roll.id
  dice : ∀ {dice : Dice}, P (.dice dice) → Evaluation.Keeps rule (context.rollDice dice)

/-- All that is inside may be evaluated if no more than that is touched. -/
theorem follows_touched : context.Follows (FrameRule.touched inside)
    (fun inner => inside inner.id) fun roll => inside roll.id where
  term here := here
  roll here := here
  dice here := context.keeps_rollDice (fun _ _ => trivial) here

section

variable {context} {P : Term → Prop} {Q : Roll → Prop}

mutual

/-- The evaluation of a term keeps to a rule if each of its parts may be evaluated. -/
theorem keeps_evaluateTerm (follows : context.Follows rule P Q) :
    (term : Term) → term.Throughout P Q → Evaluation.Keeps rule (context.evaluateTerm term)
  | .numeric tag value, here => by
    unfold evaluateTerm
    exact keeps_ofTerm (follows.term here) (Keeps.pure _)
  | .operator tag op, here => by
    unfold evaluateTerm
    exact keeps_ofTerm (follows.term here) (Keeps.pure _)
  | .text tag word, here => by
    unfold evaluateTerm
    exact keeps_ofTerm (follows.term here) (Keeps.ite (Keeps.pure _) (Keeps.fail _))
  | .group tag roll, ⟨here, around, row⟩ => by
    unfold evaluateTerm
    exact keeps_ofTerm (follows.term here) (keeps_unlessRollEvaluated
      (keeps_ofRoll (follows.roll around) (keeps_evaluateTerms follows roll.terms row)))
  | .function tag fn rolls, ⟨here, parts⟩ => by
    unfold evaluateTerm
    refine keeps_ofTerm (follows.term here) ?_
    exact (keeps_evaluateRolls follows rolls parts fun roll => keeps_checkArgument _ fn roll).bind
      fun _ => keeps_compute _ fn rolls
  | .dice d, ⟨here, number, faces⟩ => by
    unfold evaluateTerm
    refine keeps_ofTerm (follows.term here)
      ((keeps_evaluateAmount follows d.number number).bind fun _ => ?_)
    exact (keeps_evaluateAmount follows d.faces faces).bind fun _ => follows.dice here
  | .pool p, ⟨here, parts⟩ => by
    have own : inside p.tag.id := follows.term here
    unfold evaluateTerm
    refine keeps_ofTerm own ?_
    refine (keeps_evaluateRolls follows p.rolls parts fun roll => keeps_collect own roll).bind fun _ => ?_
    exact context.keeps_runModifiers ⟨own, fun _ _ _ => Keeps.pure _⟩ _

theorem keeps_evaluateTerms (follows : context.Follows rule P Q) :
    (terms : List Term) → RowThroughout P Q terms → Evaluation.Keeps rule (context.evaluateTerms terms)
  | [], _ => by
    unfold evaluateTerms
    exact Keeps.pure _
  | term :: rest, ⟨here, later⟩ => by
    unfold evaluateTerms
    exact (keeps_unlessEvaluated (keeps_evaluateTerm follows term here)).bind
      fun _ => keeps_evaluateTerms follows rest later

theorem keeps_evaluateRolls (follows : context.Follows rule P Q) :
    (rolls : List Roll) → RollsThroughout P Q rolls →
    {use : Roll → Evaluation Unit} → (∀ roll, (use roll).Keeps rule) →
    Evaluation.Keeps rule (context.evaluateRolls use rolls)
  | [], _, use, _ => by
    unfold evaluateRolls
    exact Keeps.pure _
  | roll :: rest, ⟨around, row, later⟩, use, used => by
    unfold evaluateRolls
    refine (keeps_unlessRollEvaluated
      (keeps_ofRoll (follows.roll around) (keeps_evaluateTerms follows roll.terms row))).bind fun _ => ?_
    exact (used roll).bind fun _ => keeps_evaluateRolls follows rest later used

theorem keeps_evaluateAmount (follows : context.Follows rule P Q) :
    (amount : Operand Term) → AmountThroughout P Q amount → Evaluation.Keeps rule (context.evaluateAmount amount)
  | .known _, _ => by
    unfold evaluateAmount
    exact Keeps.pure _
  | .computed term, here => by
    unfold evaluateAmount
    exact keeps_unlessEvaluated (keeps_evaluateTerm follows term here)

end

/-- The evaluation of a roll keeps to a rule if each of its parts may be evaluated. -/
theorem keeps_evaluateRoll (follows : context.Follows rule P Q) {roll : Roll} (around : Q roll) (row : RowThroughout P Q roll.terms) :
    Evaluation.Keeps rule (context.evaluateRoll roll) :=
  keeps_ofRoll (follows.roll around) (keeps_evaluateTerms follows roll.terms row)

end

end Context

theorem RollOf.touches_evaluateNow (options : Options) (surroundings : Surroundings) {roll : Roll}
    (lies : roll.Inside inside) :
    Evaluation.Keeps (FrameRule.touched inside) (roll.evaluateNow options surroundings) :=
  (Evaluation.Keeps.lift _).bind fun context =>
    Context.keeps_evaluateRoll context.follows_touched lies.around lies.row

/-- The evaluation with a resolver, which is closed at the end, touches no more than
that. -/
theorem RollOf.touches_evaluate (options : Options) (surroundings : Surroundings) {roll : Roll}
    (lies : roll.Inside inside) :
    Evaluation.Keeps (FrameRule.touched inside) (roll.evaluate options surroundings) := by
  refine (Evaluation.Keeps.read _).bind fun phase => ?_
  cases phase with
  | unevaluated =>
    refine (Evaluation.Keeps.lift _).bind fun context => ?_
    have keeps := Context.keeps_evaluateRoll context.follows_touched lies.around lies.row
    cases surroundings.resolver with
    | none => exact keeps
    | some resolver =>
      refine Evaluation.Keeps.ending ?_ fun progress =>
        Progress.Touched.of_ledger (resolver.ledger_close progress)
      refine (Evaluation.keeps_firstPass resolver context.methods ?_).bind fun _ => keeps
      exact fun _ _ same => ⟨Progress.Touched.of_ledger same, fun _ => Progress.Touched.of_ledger same⟩
  | evaluating => exact Evaluation.Keeps.fail _
  | evaluated => exact Evaluation.Keeps.fail _

end DiceNotation
