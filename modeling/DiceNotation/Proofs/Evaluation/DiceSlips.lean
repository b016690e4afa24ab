import DiceNotation.Proofs.Evaluation.Rolling
import DiceNotation.Proofs.Evaluation.Intrinsic
import DiceNotation.Proofs.Evaluation.Modifying
import DiceNotation.Proofs.Evaluation.Slips
import DiceNotation.Proofs.Roll.DiceInTurn

namespace DiceNotation

/-!
# Dice where nothing can be waited for

While dice are rolled and modified, the values of their outcomes are numbers and it is known
what they can show at most.  So each of them shows a number, or the evaluation ends with a
fault that the writer of the formula is told about, unless decimals allow for others.
-/

/-- Whether nothing can be waited for, words are refused, and the uniform values are from the
half-open unit interval. -/
structure Context.IsPrompt (context : Context) : Prop where
  synchronous : context.synchronous = true
  wordless : context.allowStrings = false
  range : ∀ k, 0 ≤ context.uniform k ∧ context.uniform k < 1

/-- Dice are in the middle of their evaluation, and it is known what they can show at most. -/
structure Progress.Casts (made : Ledger) (decimals : Bool) (dice : Dice) (greatest : Json)
    (progress : Progress) : Prop where
  tallied : ∃ counting, progress.Tallies made dice.tag.id decimals counting
  range : progress.ledger.maximumValue dice = .ok greatest

/-- A condition holds where an evaluation succeeds, and it fails only in a way that is
allowed. -/
abbrev Fares (decimals single : Bool) (holds : Progress → Prop) :
    Except Fault Unit → Progress → Prop :=
  Concludes (fun fault _ => fault.IsAllowed decimals single) fun _ => holds

/-- An evaluation fails in a way that is allowed, and a condition holds all the same. -/
def Miscarries (decimals single : Bool) (holds : Progress → Prop) (fault : Fault)
    (last : Progress) : Prop :=
  fault.IsAllowed decimals single ∧ holds last

namespace Context

open Evaluation

variable {context : Context} {made : Ledger} {decimals single : Bool} {dice : Dice}
  {greatest : Json} {progress : Progress}

/-! ## Single results -/

theorem naming_finishes {α : Type} {work : Evaluation α} {ends : Except Fault α → Progress → Prop}
    (written : (Term.dice dice).hasFormula = true) (finishes : work.Finishes progress ends) :
    (naming dice work).Finishes progress ends :=
  finishes.of_eq (congrFun (naming_eq written work) progress)

/-- Whoever is asked for a value, the state of terms and rolls stays what it is. -/
abbrev Asks (decimals single : Bool) (ledger : Ledger) : Except Fault Json → Progress → Prop :=
  Concludes (Miscarries decimals single (·.ledger = ledger)) fun _ last => last.ledger = ledger

theorem withoutWaiting_asks (sound : dice.IsSound) (method : String) {ledger : Ledger}
    (same : progress.ledger = ledger) :
    (context.withoutWaiting method dice).Finishes progress (Asks decimals single ledger) := by
  unfold withoutWaiting
  refine concludes_ite ?_ (concludes_pure same)
  exact naming_finishes sound.hasFormula (concludes_fail ⟨rfl, same⟩)

section

variable (prompt : context.IsPrompt) (sound : dice.IsSound)
include prompt sound

theorem askHandler_asks (name : String) (reroll explode : Bool) (handler : Handler)
    (range : progress.ledger.maximumValue dice = .ok greatest) :
    (context.askHandler dice name reroll explode handler).Finishes progress
      (Asks decimals single progress.ledger) := by
  have calls (answers : List Json) : (call name answers dice reroll explode).Finishes progress
      (Asks decimals single progress.ledger) :=
    naming_finishes sound.hasFormula ⟨_, _, rfl, rfl⟩
  have promptly {yes no : Evaluation Json} :
      (if context.synchronous then yes else no : Evaluation Json) = yes :=
    if_pos prompt.synchronous
  cases handler with
  | lowest => exact concludes_pure rfl
  | highest =>
    change (read (·.maximumValue dice)).Finishes progress _
    refine concludes_read ?_
    rw [range]
    exact rfl
  | prepared delivery answers =>
    cases delivery with
    | direct => exact calls answers
    | deferred =>
      change (if context.synchronous then _ else _ : Evaluation Json).Finishes progress _
      rw [promptly]
      exact withoutWaiting_asks sound name rfl
    | promised =>
      refine concludes_bind (calls answers) fun answer later same => ?_
      rw [promptly]
      exact withoutWaiting_asks sound name same

theorem askOutside_asks (name : Json) (reroll explode : Bool) :
    (context.askOutside dice name reroll explode).Finishes progress
      (Asks decimals single progress.ledger) := by
  unfold askOutside
  rw [if_pos prompt.synchronous]
  refine concludes_ite ?_ ?_
  · exact naming_finishes sound.hasFormula (concludes_fail ⟨rfl, rfl⟩)
  · exact naming_finishes sound.hasFormula ⟨_, _, rfl, rfl⟩

theorem askMethod_asks {name : Json} {method : Method}
    (named : context.methods.named name = .ok method)
    (range : progress.ledger.maximumValue dice = .ok greatest) (reroll explode : Bool) :
    (context.askMethod dice name reroll explode).Finishes progress
      (Asks decimals single progress.ledger) := by
  have found : (lift (context.methods.named name) : Evaluation Method) progress =
      .done (.ok method) progress := congrArg (Step.done · progress) named
  unfold Finishes askMethod
  rw [bind_done found]
  cases method.interactive with
  | true => exact askOutside_asks prompt sound _ reroll explode
  | false =>
    cases method.handler with
    | none => exact ⟨_, _, rfl, rfl⟩
    | some handler => exact askHandler_asks prompt sound _ reroll explode handler range

variable (moderate : decimals = false → dice.HasModerateFaces) (among : greatest.IsAmong decimals)
include moderate among

/-- Where nobody gives a value, a share picks a number. -/
theorem drawUniform_concludes (range : progress.ledger.maximumValue dice = .ok greatest) :
    (context.drawUniform dice).Finishes progress
      (Concludes (Miscarries decimals single (·.ledger = progress.ledger)) fun value last =>
        value.IsAmong decimals ∧ last.ledger = progress.ledger) := by
  rcases prompt.range progress.draws with ⟨above, below⟩
  have picks := @Ledger.slips_mapUniform _ single _ _ _ sound range among moderate _ above below
  refine ⟨_, { progress with draws := progress.draws + 1 }, rfl, ?_⟩
  cases picked : progress.ledger.mapUniform dice
      (.number (.real (context.uniform progress.draws))) with
  | error fault =>
    rw [picked] at picks
    exact ⟨picks, rfl⟩
  | ok value =>
    rw [picked] at picks
    exact ⟨picks, rfl⟩

/-- The next result of dice is a number, and nothing else changes. -/
theorem nextResult_concludes {method : Method}
    (named : context.methods.named (progress.ledger.term dice.tag.id).method = .ok method)
    (range : progress.ledger.maximumValue dice = .ok greatest) (reroll explode : Bool) :
    (context.nextResult dice reroll explode).Finishes progress
      (Concludes (Miscarries decimals single (·.ledger = progress.ledger)) fun value last =>
        value.IsAmong decimals ∧ last.ledger = progress.ledger) := by
  have reads : methodOf dice progress =
      .done (.ok (progress.ledger.term dice.tag.id).method) progress := rfl
  unfold nextResult
  refine concludes_ite (concludes_pure ⟨Json.isAmong_ofInt _, rfl⟩) (concludes_ite ?_ ?_)
  · refine concludes_read ?_
    rw [range]
    exact ⟨among, rfl⟩
  · unfold Finishes draw
    rw [bind_done reads]
    refine concludes_bind (askMethod_asks prompt sound named range reroll explode)
      fun given later same => ?_
    rw [← same] at range ⊢
    rcases Ledger.accepts_ok range among given with ⟨answer, accepted, shows⟩
    have asked : read (·.accepts dice given) later = .done (.ok answer) later :=
      congrArg (Step.done · later) accepted
    have shown : (do
        if ← read (·.accepts dice given) then return given
        else
          let method ← methodOf dice
          naming dice (fail (.use (.impossibleResult given.quoted dice.formula method.plainText)))
        : Evaluation Json).Finishes later (Concludes
          (Miscarries decimals single (·.ledger = later.ledger)) fun value last =>
            value.IsAmong decimals ∧ last.ledger = later.ledger) := by
      unfold Finishes
      rw [bind_done asked]
      cases answer with
      | true => exact ⟨_, _, rfl, shows rfl, rfl⟩
      | false =>
        have kept : methodOf dice later =
          .done (.ok (later.ledger.term dice.tag.id).method) later := rfl
        rw [if_neg Bool.false_ne_true, bind_done kept]
        exact naming_finishes sound.hasFormula (concludes_fail ⟨rfl, rfl⟩)
    cases given with
    | null => exact drawUniform_concludes prompt sound moderate among range
    | _ => exact shown

end

end Context

/-! ## Modifiers -/

namespace Command

/-- A text that is no command is refused as a modifier. -/
theorem addressing_parse (raw term : String) : Addressing (parse raw term) := by
  unfold parse
  split
  · exact .error rfl
  · refine .ite (.ok _) ?_
    dsimp only
    split
    · exact .ok _
    · exact .error rfl

end Command

namespace Tally

variable {counting : Bool}

theorem addressing_comparing (command : Command) (formula : String)
    {next : (Json → Except Fault Bool) → Change} (more : ∀ test, Addressing (next test).2) :
    Addressing (comparing command formula ⟨[], counting⟩ next).2 := by
  unfold comparing Command.comparison
  split
  · rename_i failed
    split at failed
    · cases failed
      exact .error rfl
    · cases failed
  · exact more _

theorem addressing_select (command : Command) (formula : String) (keep highest : Bool) :
    Addressing (select command formula keep highest ⟨[], counting⟩).2 := by
  unfold select Command.amount
  split
  · rename_i failed
    split at failed
    · cases failed
      exact .error rfl
    · cases failed
  · rename_i number _
    have none : Outcome.AreNumbers [] := fun _ member => absurd member List.not_mem_nil
    rcases Selection.apply_ok none number keep highest with ⟨kept, applied⟩
    simp only [applied]
    exact .ok _

/-- Without outcomes, a modifier is refused only because of what is written in it. -/
theorem addressing_blank (action : Action) (command : Command) (formula : String) :
    Addressing (carryOut action command formula ⟨[], counting⟩).2 := by
  have deducts : Addressing (deductFailures command formula ⟨[], counting⟩).2 := by
    unfold deductFailures
    split
    · exact .ok _
    · exact addressing_comparing command formula fun _ => .ok _
  cases action with
  | keep => exact addressing_select command formula _ _
  | drop => exact addressing_select command formula _ _
  | countSuccesses =>
    exact @addressing_comparing counting command formula (countSuccesses ⟨[], counting⟩) fun _ =>
      .ok _
  | countFailures =>
    cases counting with
    | true => exact deducts
    | false =>
      exact @addressing_comparing false command formula
        (fun test => mapActive ⟨[], false⟩ (Outcome.markFailure test)) fun _ => .ok _
  | deductFailures => exact deducts
  | countParity odd =>
    unfold carryOut countParity
    dsimp only
    split
    · exact .error rfl
    · split
      · exact .error rfl
      · exact .ok _
  | call =>
    unfold carryOut call
    dsimp only
    split
    · exact .error rfl
    · split
      · exact .ok _
      · exact .error rfl
  | reroll once => exact .ok _
  | explode once => exact .ok _

end Tally

namespace Progress

variable {made : Ledger} {decimals single counting : Bool} {progress : Progress} {term : Term}

/-- A modifier that rolls nothing keeps what is known of the outcomes of its term. -/
theorem Tallies.tally (tallied : progress.Tallies made term.id decimals counting)
    (action : Action) (command : Command) :
    (Context.tally term action command).Finishes progress fun result last =>
      Addressing result ∧ last = progress.tallying term action command ∧
        ∃ after, last.Tallies made term.id decimals after := by
  rcases Context.tally_finishes action command tallied with ⟨result, last, run, told, still⟩
  refine ⟨result, last, run, ?_, ?_, _, still⟩
  · rw [told]
    exact Tally.addressing_blank action command term.formula
  · exact (Step.done.inj (run.symm.trans rfl)).2

end Progress

/-! ## Dice that are rolled and modified -/

/-- Whether dice are sound, have a method that is known, and have moderate faces if there are
no decimals. -/
structure DiceOf.IsRollable (methods : MethodTable) (made : Ledger) (decimals : Bool)
    (dice : Dice) : Prop where
  sound : dice.IsSound
  method : ∃ method, methods.named (made.term dice.tag.id).method = .ok method
  moderate : decimals = false → dice.HasModerateFaces

namespace Progress.Casts

variable {made : Ledger} {decimals : Bool} {low : Nat} {dice : Dice} {greatest : Json}
  {progress : Progress}

/-- What dice can show at most does not depend on their own state. -/
theorem change (casts : progress.Casts made decimals dice greatest)
    (faces : AmountSpans dice.faces low dice.tag.id) {f : TermState → TermState}
    (tallied : ∃ after, (progress.updateLedger (·.updateTerm dice.tag.id f)).Tallies made
      dice.tag.id decimals after) :
    (progress.updateLedger (·.updateTerm dice.tag.id f)).Casts made decimals dice greatest := by
  have before : Ledger.SameOn progress.ledger (progress.ledger.updateTerm dice.tag.id f) low
      dice.tag.id := Ledger.SameOn.updateTerm _ (Nat.le_refl _) f
  exact ⟨tallied, (before.maximumValue faces).symm.trans casts.range⟩

theorem of_ledger (casts : progress.Casts made decimals dice greatest) {later : Progress}
    (same : later.ledger = progress.ledger) : later.Casts made decimals dice greatest := by
  rcases casts with ⟨⟨counting, tallied⟩, range⟩
  unfold Progress.Tallies at tallied
  rw [← same] at tallied range
  exact ⟨⟨counting, tallied⟩, range⟩

end Progress.Casts

namespace Context

open Evaluation

variable {context : Context} {made : Ledger} {decimals single : Bool} {dice : Dice}
  {greatest : Json} {progress : Progress} {low : Nat}

/-- The modifiers of a term are texts, and their faults are told to the writer. -/
theorem upholds_modifiers {modified : Modified} {modifiers : List Json} {holds : Progress → Prop}
    (written : modified.term.hasFormula = true) (are : AreModifiers modifiers)
    (tallies : ∀ {progress} action command, holds progress →
      holds (progress.tallying modified.term action command) ∧
        (tally modified.term action command).Finishes progress fun result last =>
          Addressing result ∧ last = progress.tallying modified.term action command)
    (chains : ∀ {progress} command recursive explode, holds progress →
      (modified.chain command recursive explode).Finishes progress
        (Concludes (Miscarries decimals single holds) fun _ => holds))
    (skips : ∀ {progress later} raw message, holds progress → holds later →
      holds (later.undoing modified.term (progress.ledger.term modified.term.id).outcomes raw
        message)) :
    modified.Upholds context (Miscarries decimals single holds) holds modifiers where
  unnamed _ unwritten := by
    rw [written] at unwritten
    cases unwritten
  unread raw member here failed := by
    rcases are raw member with ⟨text, rfl, _⟩
    exact ⟨.of_addressed (Command.addressing_parse text _ _ failed), here⟩
  unknown _ here := ⟨rfl, here⟩
  tallies action command here := by
    rcases tallies action command here with ⟨after, finishes⟩
    refine finishes.imp fun result last => ?_
    rintro ⟨addressing, rfl⟩
    cases result with
    | error fault => exact ⟨.of_addressed (addressing fault rfl), after⟩
    | ok _ => exact after
  chains := chains
  skips raw _ _ _ message _ here failed := skips raw message here failed.2

section

variable (prompt : context.IsPrompt) (rollable : dice.IsRollable context.methods made decimals)
  (among : greatest.IsAmong decimals) (faces : AmountSpans dice.faces low dice.tag.id)
include prompt rollable among faces

theorem rollOne_casts (reroll explode : Bool)
    (casts : progress.Casts made decimals dice greatest) :
    (context.rollOne dice reroll explode).Finishes progress
      (Concludes (Miscarries decimals single (·.Casts made decimals dice greatest)) fun _ =>
        (·.Casts made decimals dice greatest)) := by
  have ⟨⟨counting, tallied⟩, range⟩ := casts
  rcases rollable.method with ⟨method, named⟩
  rw [← tallied.method] at named
  have unfinished : progress.ledger.isEvaluated (.dice dice) = false := by
    change ((progress.ledger.term dice.tag.id).phase == .evaluated) = false
    rw [tallied.phase]
    rfl
  have reads : (read fun ledger => .ok (ledger.isEvaluated (.dice dice))) progress =
      .done (.ok false) progress := by
    rw [← unfinished]
    rfl
  have next := @nextResult_concludes _ _ single _ _ _ prompt rollable.sound rollable.moderate among
    _ named range reroll explode
  unfold Finishes rollOne
  rw [bind_done reads, if_neg Bool.false_ne_true]
  refine next.bind (fun value later _ ⟨number, same⟩ => ?_) fun fault later ⟨allowed, same⟩ =>
    ⟨allowed, casts.of_ledger same⟩
  have there := casts.of_ledger same
  refine ⟨_, _, rfl, there.change faces ⟨counting, ?_⟩⟩
  have shown : later.Tallies made dice.tag.id decimals counting := by
    unfold Progress.Tallies
    rw [same]
    exact tallied
  unfold Progress.Tallies
  change ((later.ledger.updateTerm _ _).term _).IsTallied _ _ _
  rw [Ledger.term_updateTerm, if_pos rfl]
  exact shown.adding number

/-- A chain rolls on, or it is cut short. -/
theorem chain_casts (command : Command) (recursive explode : Bool)
    (casts : progress.Casts made decimals dice greatest) :
    (context.chain dice command recursive explode).Finishes progress
      (Concludes (Miscarries decimals single (·.Casts made decimals dice greatest)) fun _ =>
        (·.Casts made decimals dice greatest)) := by
  have aim : ∃ target : Number, chainTarget progress.ledger dice command explode =
      .ok (.number target) := by
    unfold chainTarget
    split
    · exact ⟨_, rfl⟩
    · split
      · rcases among with ⟨m, rfl, _⟩
        exact ⟨m, casts.range⟩
      · exact ⟨_, rfl⟩
  rcases aim with ⟨target, aimed⟩
  have reads : (read fun ledger => chainTarget ledger dice command explode) progress =
      .done (.ok (.number target)) progress := congrArg (Step.done · progress) aimed
  unfold Finishes chain
  rw [bind_done reads]
  split
  · exact ⟨_, _, rfl, casts⟩
  · let going : Chain := ⟨recursive, explode, command.comparator.getD .equal, .number target⟩
    refine runChain_concludes (rollOne_casts prompt rollable among faces) command going ?_ ?_ ?_
      _ _ 0 casts
    · intro progress initial checked fault still failed
      rcases still.tallied with ⟨counting, tallied⟩
      rcases @Chain.next?_ok going target rfl _ tallied.areNumbers initial checked with
        ⟨next, found⟩
      cases found.symm.trans failed
    · intro _ _ _ _ still found
      rcases still.tallied with ⟨counting, tallied⟩
      exact still.change faces ⟨counting, tallied.marking found⟩
    · exact fun still => ⟨rfl, still⟩

end

/-- The modifiers of dice keep what is known of them. -/
theorem upholds_dice (prompt : context.IsPrompt)
    (rollable : dice.IsRollable context.methods made decimals) (among : greatest.IsAmong decimals)
    (faces : AmountSpans dice.faces low dice.tag.id) :
    (context.modifiedDice dice).Upholds context
      (Miscarries decimals single (·.Casts made decimals dice greatest))
      (·.Casts made decimals dice greatest) dice.modifiers := by
  refine upholds_modifiers rollable.sound.hasFormula rollable.sound.modifiers ?_ ?_ ?_
  · intro progress action command casts
    rcases casts.tallied with ⟨counting, tallied⟩
    have finishes := @Progress.Tallies.tally _ _ _ _ (.dice dice) tallied action command
    have ⟨_, _, _, _, same, after⟩ := finishes
    rw [same] at after
    refine ⟨casts.change faces after, ?_⟩
    exact finishes.imp fun _ _ ⟨addressing, same, _⟩ => ⟨addressing, same⟩
  · exact fun command recursive explode => chain_casts prompt rollable among faces command
      recursive explode
  · intro progress later raw message casts still
    rcases casts.tallied with ⟨counting, tallied⟩
    rcases still.tallied with ⟨after, counted⟩
    have undone := @Progress.Tallies.undoing _ (.dice dice) _ _ _ _ _ tallied counted raw message
    have heard : (later.report .warning (skipping (.dice dice) raw message)).Casts made decimals
      dice greatest := still.of_ledger rfl
    exact heard.change faces ⟨after, undone⟩

/-- The modifiers of a pool keep what is known of its outcomes. -/
theorem upholds_pool {pool : Pool} (are : AreModifiers pool.modifiers) :
    (modifiedPool pool).Upholds context
      (Miscarries decimals single fun last => ∃ after, last.Tallies made pool.tag.id decimals after)
      (fun last => ∃ after, last.Tallies made pool.tag.id decimals after) pool.modifiers := by
  refine upholds_modifiers are.areTexts are ?_ ?_ ?_
  · rintro progress action command ⟨counting, tallied⟩
    have finishes := @Progress.Tallies.tally _ _ _ _ (.pool pool) tallied action command
    have ⟨_, _, _, _, same, after⟩ := finishes
    rw [same] at after
    refine ⟨after, ?_⟩
    exact finishes.imp fun _ _ ⟨addressing, same, _⟩ => ⟨addressing, same⟩
  · exact fun _ _ _ still => concludes_pure still
  · rintro progress later raw message ⟨counting, tallied⟩ ⟨after, counted⟩
    exact ⟨after, @Progress.Tallies.undoing _ (.pool pool) _ _ _ _ _ tallied counted raw message⟩

/-- An amount of dice is a number, or the writer is told that it is none. -/
theorem requireInteger_concludes (sound : dice.IsSound) (what : DiceAmount) (least : Nat)
    {amount : Operand Term} (slips : Slips decimals single (progress.ledger.amount amount)) :
    (rollDice.requireInteger dice what least amount).Finishes progress
      (Concludes (fun fault _ => fault.IsAllowed decimals single) fun _ last => last = progress ∧
        ∃ value, progress.ledger.amount amount = .ok value ∧ value.IsAmong decimals) := by
  have reads : (read (·.amount amount)).Finishes progress
      (Concludes (fun fault _ => fault.IsAllowed decimals single) fun value last =>
        last = progress ∧ progress.ledger.amount amount = .ok value ∧ value.IsAmong decimals) := by
    refine concludes_read ?_
    cases found : progress.ledger.amount amount with
    | error fault =>
      rw [found] at slips
      exact slips
    | ok value =>
      rw [found] at slips
      exact ⟨rfl, rfl, slips⟩
  refine concludes_bind reads fun value later ⟨same, found, among⟩ => ?_
  have refused : (rollDice.refuse dice what value least).Finishes later
      (Concludes (fun fault _ => fault.IsAllowed decimals single) fun _ last => last = progress ∧
        ∃ value, progress.ledger.amount amount = .ok value ∧ value.IsAmong decimals) :=
    naming_finishes sound.hasFormula (concludes_fail rfl)
  split
  · exact concludes_ite (concludes_pure ⟨same, _, found, among⟩) refused
  · exact refused

theorem maximumValue_among {ledger : Ledger} {value : Json}
    (found : ledger.amount dice.faces = .ok value) (among : value.IsAmong decimals) :
    ∃ greatest, ledger.maximumValue dice = .ok greatest ∧ greatest.IsAmong decimals := by
  unfold Ledger.maximumValue
  split
  · exact ⟨_, rfl, Json.isAmong_ofInt _⟩
  · exact ⟨value, found, among⟩

/-- Dice are rolled, or their evaluation fails in a way that is allowed. -/
theorem rollDice_concludes (prompt : context.IsPrompt)
    (rollable : dice.IsRollable context.methods made decimals)
    (spans : AmountSpans dice.faces low dice.tag.id)
    (number : Slips decimals single (progress.ledger.amount dice.number))
    (faces : Slips decimals single (progress.ledger.amount dice.faces)) {counting : Bool}
    (tallied : progress.Tallies made dice.tag.id decimals counting) :
    (context.rollDice dice).Finishes progress (Fares decimals single fun last =>
      ∃ after, last.Tallies made dice.tag.id decimals after) := by
  have counts := requireInteger_concludes rollable.sound .number 0 number
  refine concludes_bind counts fun count _ ⟨same, _⟩ => ?_
  subst same
  have sides := requireInteger_concludes rollable.sound .faces 1 faces
  refine concludes_bind sides fun _ _ ⟨same, value, found, among⟩ => ?_
  subst same
  rcases maximumValue_among found among with ⟨greatest, range, least⟩
  have rolls {progress : Progress} (reroll explode : Bool)
      (casts : progress.Casts made decimals dice greatest) :
      (context.rollOne dice reroll explode).Finishes progress
        (Concludes (Miscarries decimals single (·.Casts made decimals dice greatest)) fun _ =>
          (·.Casts made decimals dice greatest)) :=
    rollOne_casts prompt rollable least spans reroll explode casts
  have work := concludes_bind (rollUpTo_concludes rolls count count ⟨⟨counting, tallied⟩, range⟩)
    fun _ _ casts => runModifiers_concludes (upholds_dice prompt rollable least spans) casts
  refine work.imp fun result last ended => ?_
  cases result with
  | error fault => exact ended.1
  | ok _ => exact ended.tallied

end Context
end DiceNotation
