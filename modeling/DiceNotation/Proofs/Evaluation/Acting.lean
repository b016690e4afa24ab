import DiceNotation.Proofs.Evaluation.Acts
import DiceNotation.Proofs.Evaluation.Rolling
import DiceNotation.Proofs.Evaluation.Handling

namespace DiceNotation
namespace Context

open Evaluation

/-!
# Evaluations act

Whatever the options say, the evaluation of dice, terms and rolls is a row of acts.  This
is shown for each thing that evaluation does, from the single die up to the roll with a
resolver.
-/

variable {context : Context} {scope : Scope} {stack : List Pending}

/-! ## One die -/

theorem acts_naming {α : Type} (dice : Dice) {holds : α → Progress → Prop} {work : Evaluation α}
    (acts : work.Acts scope stack (EndsWith stack holds)) :
    (naming dice work).Acts scope stack (EndsWith stack holds) :=
  acts.ite (acts_fail _)

theorem acts_call (method : String) (answers : List Json) (dice : Dice) (reroll explode : Bool) :
    (call method answers dice reroll explode).Acts scope stack (Stays stack) :=
  acts_naming dice fun progress =>
    ⟨stack, .single (.aside ⟨rfl, rfl, rfl, rfl, rfl⟩ (List.suffix_refl progress.journal)), rfl,
      trivial⟩

theorem acts_withoutWaiting (method : String) (dice : Dice) :
    (context.withoutWaiting method dice).Acts scope stack (Stays stack) :=
  Acts.ite (acts_naming dice (acts_fail _)) (acts_pure fun _ => trivial)

theorem acts_askHandler (dice : Dice) (method : String) (reroll explode : Bool)
    (handler : Handler) :
    (context.askHandler dice method reroll explode handler).Acts scope stack
      (Stays stack) := by
  cases handler with
  | lowest => exact acts_pure fun _ => trivial
  | highest => exact (acts_read (·.maximumValue dice)).weaken fun _ _ _ => trivial
  | prepared delivery answers =>
    cases delivery with
    | direct => exact acts_call _ _ _ _ _
    | deferred => exact Acts.ite (acts_withoutWaiting _ _) (acts_call _ _ _ _ _)
    | promised =>
      refine (acts_call _ _ _ _ _).andThen fun answer => ?_
      exact Acts.ite (acts_withoutWaiting _ _) (acts_pure fun _ => trivial)

theorem acts_reportDigital (dice : Dice) (reason : String) :
    (reportDigital dice reason).Acts scope stack (Stays stack) :=
  acts_naming dice ((acts_report _ _).andThen fun _ => acts_pure fun _ => trivial)

section

variable {dice : Dice}

/-- One die that is rolled may be asked for. -/
theorem acts_resolve (resolver : Resolver) (method : Json) (reroll explode : Bool) :
    (resolver.resolve dice method reroll explode).Acts scope (.result dice :: stack)
      (Stays (.result dice :: stack)) := by
  intro progress
  unfold Resolver.resolve
  split
  · exact Step.acts_done (.refl _)
  · rename_i isOpen
    refine ⟨_, .single (.ask (Bool.eq_false_iff.2 isOpen) method reroll explode), ?_⟩
    intro answer later
    cases answer with
    | delivered value => exact Step.acts_done ⟨rfl, trivial⟩
    | released => exact Step.acts_done (.refl _)
    | cancelled => exact Step.acts_done (.refl _)

theorem acts_askOutside (method : Json) (reroll explode : Bool) :
    (context.askOutside dice method reroll explode).Acts scope (.result dice :: stack)
      (Stays (.result dice :: stack)) := by
  refine Acts.ite ?_ (Acts.ite (acts_pure fun _ => trivial) ?_)
  · exact Acts.ite (acts_naming dice (acts_fail _)) (acts_reportDigital _ _)
  · cases context.resolver with
    | none => exact acts_reportDigital _ _
    | some resolver =>
      refine (acts_resolve resolver method reroll explode).andThen fun _ => ?_
      exact acts_pure fun _ => trivial

theorem acts_askMethod (name : Json) (reroll explode : Bool) :
    (context.askMethod dice name reroll explode).Acts scope (.result dice :: stack)
      (Stays (.result dice :: stack)) := by
  refine (acts_lift _).andThen fun method => ?_
  refine Acts.ite (acts_askOutside _ _ _) ?_
  cases method.handler with
  | none => exact acts_pure fun _ => trivial
  | some handler => exact acts_askHandler _ _ _ _ _

section

variable (allowed : scope.context context)
include allowed

/-- A uniform value is mapped to a result that the die then has. -/
theorem acts_drawUniform : (context.drawUniform dice).Acts scope stack
    (EndsWith stack fun value later => scope.Gives later.ledger dice value) := by
  intro progress
  let u := Json.number (.real (context.uniform progress.draws))
  let later := { progress with draws := progress.draws + 1 }
  have aside : Leads scope ⟨stack, progress⟩ ⟨stack, later⟩ :=
    .single (.aside ⟨rfl, rfl, rfl, rfl, rfl⟩ (List.suffix_refl progress.journal))
  change (Step.done (progress.ledger.mapUniform dice u) later).Acts _ _ _
  cases picked : progress.ledger.mapUniform dice u with
  | error fault => exact ⟨stack, aside, .refl _⟩
  | ok value => exact ⟨stack, aside, rfl, .uniform allowed progress.draws picked⟩

theorem acts_draw (reroll explode : Bool) :
    (context.draw dice reroll explode).Acts scope (.result dice :: stack)
      (EndsWith (.result dice :: stack) fun value last => scope.Gives last.ledger dice value) := by
  have checked (value : Json) : Evaluation.Acts scope (.result dice :: stack)
      (EndsWith (.result dice :: stack) fun value later => scope.Gives later.ledger dice value) (do
        if ← .read (·.accepts dice value) then return value
        else
          let method ← methodOf dice
          naming dice
            (.fail (.use (.impossibleResult value.quoted dice.formula method.plainText)))) := by
    refine (acts_read _).bind fun accepted later known => ?_
    cases accepted with
    | true => exact Step.acts_done ⟨rfl, .accepted known⟩
    | false => exact Acts.andThen (acts_read _) (fun method => acts_naming dice (acts_fail _)) later
  refine (acts_read _).andThen fun name => ?_
  refine (acts_askMethod name reroll explode).andThen fun given => ?_
  cases given with
  | null => exact acts_drawUniform allowed
  | _ => exact checked _

theorem acts_nextResult (reroll explode : Bool) :
    (context.nextResult dice reroll explode).Acts scope (.result dice :: stack)
      (EndsWith (.result dice :: stack) fun value last => scope.Gives last.ledger dice value) := by
  refine Acts.ite (acts_pure fun _ => .lowest) (Acts.ite ?_ (acts_draw allowed _ _))
  exact (acts_read _).weaken fun _ _ greatest => .highest greatest

/-- One die is rolled, and then something else is pending. -/
theorem acts_rollOne_to {last : List Pending}
    (taken : ∀ {progress value}, scope.Gives progress.ledger dice value →
      Act scope ⟨.result dice :: stack, progress⟩
        ⟨last, progress.updateLedger fun ledger => Resolver.addOutcome ledger dice value⟩)
    (reroll explode : Bool) :
    (context.rollOne dice reroll explode).Acts scope (.result dice :: stack)
      (Ends stack last fun _ _ => True) := by
  have within : Above stack (.result dice :: stack) := .push rfl _
  intro progress
  refine Acts.bind_ends (acts_read _ progress) within fun evaluated later _ => ?_
  cases evaluated with
  | true =>
    rcases naming_of_fault dice (.use (.termNoLongerRolls dice.formula)) later with ⟨fault, failed⟩
    change Step.Acts _ _ (naming dice _ later) _
    rw [failed]
    exact Step.acts_done within
  | false =>
    refine Acts.bind_ends (acts_nextResult allowed reroll explode later) within ?_
    intro value last gives
    exact ⟨_, .single (taken gives), rfl, trivial⟩

/-- One die is rolled, and then it is not pending any more. -/
theorem acts_rollOne (reroll explode : Bool) :
    (context.rollOne dice reroll explode).Acts scope (.result dice :: stack)
      (Stays stack) :=
  acts_rollOne_to allowed (fun gives => .take gives) reroll explode

/-- Dice are rolled until there are enough of them. -/
theorem acts_rollUpTo (number faces left : Nat) :
    (context.rollUpTo dice number left).Acts scope (.dice dice number faces left :: stack)
      (Ends stack (.modified dice number faces :: stack) fun _ _ => True) := by
  induction left with
  | zero => exact fun progress => ⟨_, .single (.fill (.inr rfl)), rfl, trivial⟩
  | succ left ih =>
    have within : Above stack (.dice dice number faces (left + 1) :: stack) := .push rfl _
    intro progress
    refine Acts.bind_ends (acts_read _ progress) within fun present later counted => ?_
    cases counted
    split
    · rename_i short
      have rolled : (context.rollOne dice false false later).Acts scope
          (Ends (.dice dice number faces (left + 1) :: stack)
            (.dice dice number faces left :: stack) fun _ _ => True) _ :=
        (acts_rollOne_to allowed (fun gives => .takeMissing gives) false false later).from
          (.single (.lack short))
      exact Acts.bind_ends rolled (.push rfl _) fun _ last _ => ih last
    · rename_i enough
      exact ⟨_, .single (.fill (.inl (Nat.not_lt.1 enough))), rfl, trivial⟩

end

/-! ## Modifiers -/

theorem Chain.selected_of_firstFrom {chain : Chain} {position found : Nat} {outcomes : List Outcome}
    (first : chain.firstFrom position outcomes = .ok (some found)) :
    ∃ offset outcome, found = position + offset ∧ outcomes[offset]? = some outcome ∧
      chain.selects outcome = .ok true := by
  induction outcomes generalizing position with
  | nil => cases first
  | cons outcome rest ih =>
    unfold firstFrom at first
    split at first
    · cases first
    · rename_i selected
      cases first
      exact ⟨0, outcome, rfl, rfl, selected⟩
    · rcases ih first with ⟨offset, further, rfl, there, selected⟩
      exact ⟨offset + 1, further, by omega, there, selected⟩

/-- A chain goes on from an outcome that still counts. -/
theorem Chain.active_of_next? {chain : Chain} {initial checked position : Nat}
    {outcomes : List Outcome}
    (next : chain.next? initial checked outcomes = .ok (some position)) :
    ∃ outcome, outcomes[position]? = some outcome ∧ outcome.isActive = true := by
  unfold next? at next
  rcases selected_of_firstFrom next with ⟨offset, outcome, rfl, there, selected⟩
  rw [List.getElem?_drop] at there
  refine ⟨outcome, ?_, ?_⟩
  · split at there
    · exact there
    · rw [List.getElem?_take] at there
      split at there
      · exact there
      · cases there
  · unfold selects at selected
    split at selected
    · assumption
    · cases selected

section

variable (allowed : scope.context context)
include allowed

theorem acts_runChain {number faces : Nat} {outcomes : List Outcome} (command : Command)
    (chain : Chain) (initial rolls checked : Nat) :
    (context.runChain dice command chain initial rolls checked).Acts scope
      (.modifier (.dice dice) outcomes :: .modified dice number faces :: stack)
      (Stays (.modifier (.dice dice) outcomes :: .modified dice number faces :: stack)) := by
  induction rolls generalizing checked with
  | zero =>
    unfold runChain
    refine (acts_read _).andThen fun next => ?_
    cases next with
    | none => exact acts_pure fun _ => trivial
    | some position => exact acts_fail _
  | succ rolls ih =>
    unfold runChain
    refine (acts_read _).bind fun next later selected => ?_
    cases next with
    | none => exact Step.acts_done ⟨rfl, trivial⟩
    | some position =>
      rcases Chain.active_of_next? selected with ⟨outcome, found, active⟩
      let marked := later.updateLedger fun ledger => ledger.updateTerm dice.tag.id fun state =>
        { state with outcomes := state.outcomes.modify position chain.mark }
      have before : Leads scope
          ⟨.modifier (.dice dice) outcomes :: .modified dice number faces :: stack, later⟩
          ⟨.result dice :: .modifier (.dice dice) outcomes :: .modified dice number faces :: stack,
            marked⟩ :=
        .tail (.single (.mark chain found active)) (.again marked)
      have rolls : (context.rollOne dice (!chain.explode) chain.explode >>= fun _ =>
          context.runChain dice command chain initial rolls (position + 1)).Acts scope _ _ :=
        fun progress => Acts.bind_ends (acts_rollOne allowed _ _ progress) (.refl _)
          fun _ last _ => ih (position + 1) last
      exact (rolls marked).from before

theorem acts_chain {number faces : Nat} {outcomes : List Outcome} (command : Command)
    (recursive explode : Bool) :
    (context.chain dice command recursive explode).Acts scope
      (.modifier (.dice dice) outcomes :: .modified dice number faces :: stack)
      (Stays (.modifier (.dice dice) outcomes :: .modified dice number faces :: stack)) := by
  refine (acts_read _).andThen fun target => ?_
  refine Acts.ite (acts_pure fun _ => trivial) ?_
  exact (acts_read _).andThen fun initial => acts_runChain allowed command _ initial _ 0

end

end

theorem acts_tally {term : Term} {outcomes : List Outcome} (action : Action) (command : Command) :
    (tally term action command).Acts scope (.modifier term outcomes :: stack)
      (Stays (.modifier term outcomes :: stack)) := by
  intro progress
  let before : Tally := ⟨(progress.ledger.term term.id).outcomes,
    (progress.ledger.term term.id).counting⟩
  let after := progress.tallying term action command
  have tallied : Leads scope ⟨.modifier term outcomes :: stack, progress⟩
      ⟨.modifier term outcomes :: stack, after⟩ := .single (.tally progress action command)
  have lifted : (lift (before.carryOut action command term.formula).2).Acts scope
      (.modifier term outcomes :: stack) (Stays (.modifier term outcomes :: stack)) :=
    (acts_lift _).weaken fun _ _ _ => trivial
  exact (lifted after).from tallied

/-- What modifiers work on acts while a modifier is pending. -/
def Modified.Acts (scope : Scope) (pending : Pending)
    (modified : Modified) : Prop :=
  ∀ stack outcomes command recursive explode,
    (modified.chain command recursive explode).Acts scope
      (.modifier modified.term outcomes :: pending :: stack)
      (Stays (.modifier modified.term outcomes :: pending :: stack))

section

variable {modified : Modified} {pending : Pending} (acts : modified.Acts scope pending)
include acts

theorem acts_runModifier (outcomes : List Outcome) (raw : Json) :
    (runModifier modified raw).Acts scope (.modifier modified.term outcomes :: pending :: stack)
      (Stays (.modifier modified.term outcomes :: pending :: stack)) := by
  refine (acts_lift _).andThen fun command => ?_
  cases modified.table.action? command.name with
  | none => exact acts_fail _
  | some action =>
    cases action with
    | reroll once => exact acts _ _ _ _ _
    | explode once => exact acts _ _ _ _ _
    | _ => exact acts_tally _ command

theorem acts_tryModifier (allowed : scope.context context)
    (modifies : pending.Modifies modified.term) (raw : Json) :
    (context.tryModifier modified raw).Acts scope (pending :: stack)
      (Stays (pending :: stack)) := by
  intro progress
  let outcomes := (progress.ledger.term modified.term.id).outcomes
  have begun : (runModifier modified raw progress).Acts scope
      (Stays (.modifier modified.term outcomes :: pending :: stack)) ⟨pending :: stack, progress⟩ :=
    (acts_runModifier acts outcomes raw progress).from (.single (.begin modifies progress))
  have above : Above (pending :: stack) (.modifier modified.term outcomes :: pending :: stack) :=
    .push rfl _
  refine Step.Acts.andThen begun fun result moment ended => ?_
  rcases moment with ⟨reached, later⟩
  cases result with
  | ok done =>
    rcases ended with ⟨rfl, _⟩
    exact ⟨_, .single (.done later), rfl, trivial⟩
  | error fault =>
    split
    · simp only
      split
      · rename_i lenient
        rcases ended with ⟨upper, idle, rfl⟩
        exact ⟨_, .single (.undo allowed lenient idle later raw _), rfl, trivial⟩
      · exact Step.acts_done (above.trans ended)
    · exact Step.acts_done (above.trans ended)

theorem acts_runModifiers (allowed : scope.context context) {modifiers : List Json}
    (modifies : modifiers ≠ [] → pending.Modifies modified.term) :
    (context.runModifiers modified modifiers).Acts scope (pending :: stack)
      (Stays (pending :: stack)) := by
  induction modifiers with
  | nil => exact acts_pure fun _ => trivial
  | cons raw rest ih =>
    have here := modifies (List.cons_ne_nil raw rest)
    refine Acts.ite ?_ (acts_fail _)
    exact (acts_tryModifier acts allowed here raw).andThen fun _ => ih fun _ => here

end

/-! ## Terms and rolls -/

/-- Dice whose amounts have been evaluated are counted, rolled and modified. -/
def Modifies (stack : List Pending) (dice : Dice) : Except Fault Unit → Moment → Prop
  | .ok _, moment => ∃ number faces, moment.stack = .modified dice number faces :: stack
  | .error _, moment => Above stack moment.stack

theorem acts_rollDice (allowed : scope.context context) (dice : Dice) :
    (context.rollDice dice).Acts scope (.term (.dice dice) :: stack)
      (Modifies stack dice) := by
  intro progress
  rcases context.rollDice_cases dice progress with
    ⟨fault, fails⟩ | ⟨number, faces, numbered, sided, some, rolls⟩
  · rw [fails]
    exact Step.acts_done (.push rfl _)
  · rw [rolls]
    have counted : (context.rollUpTo dice number number progress).Acts scope
        (Ends stack (.modified dice number faces :: stack) fun _ _ => True)
        ⟨.term (.dice dice) :: stack, progress⟩ :=
      (acts_rollUpTo allowed number faces number progress).from
        (.single (.count numbered sided some))
    have modified : Modified.Acts scope (.modified dice number faces)
        (context.modifiedDice dice) :=
      fun _ _ command recursive explode => acts_chain allowed command recursive explode
    refine Acts.bind_from counted (fun _ later _ => ?_) fun _ _ above => above
    refine ((acts_runModifiers modified allowed fun some => .dice number faces some) later).imp ?_
    intro result moment ended
    cases result with
    | error fault => exact Above.trans (.push rfl _) ended
    | ok done => exact ⟨number, faces, ended.1⟩

theorem acts_compute (term : Term) (fn : Function) (rolls : List Roll) :
    (compute term fn rolls).Acts scope stack (Stays stack) := by
  intro progress
  unfold compute
  split
  · exact Step.acts_done ⟨rfl, trivial⟩
  · exact Step.acts_done (.refl _)
  · exact Step.acts_done (.refl _)
  · exact Step.acts_done (.refl _)

theorem acts_totalButText (roll : Roll) (refusal : Fault) :
    (totalButText roll refusal).Acts scope stack (Stays stack) :=
  (acts_read _).andThen fun _ => Acts.ite (acts_fail _) (acts_pure fun _ => trivial)

theorem acts_collect (pool : Pool) (roll : Roll) :
    (collect pool roll).Acts scope (.term (.pool pool) :: stack)
      (Stays (.term (.pool pool) :: stack)) :=
  (acts_totalButText roll _).andThen fun total progress =>
    ⟨_, .single (.collect progress total), rfl, trivial⟩

theorem acts_checkArgument (term : Term) (fn : Function) (roll : Roll) :
    (checkArgument term fn roll).Acts scope stack (Stays stack) :=
  (acts_totalButText roll _).andThen fun _ => acts_pure fun _ => trivial

theorem acts_ofTerm {term : Term} (known : scope.term term) (other : term.dice? = none)
    {work : Evaluation Unit}
    (acts : work.Acts scope (.term term :: stack) (Stays (.term term :: stack))) :
    (ofTerm term work).Acts scope stack (Stays stack) := by
  intro progress
  by_cases untouched : (progress.ledger.term term.id).phase = .unevaluated
  · rw [ofTerm_of_unevaluated untouched]
    have worked := (acts (progress.entering term .evaluating)).from
      (.single (.enter known untouched))
    refine Acts.bind_ends worked (.push rfl _) fun _ later _ => ?_
    exact ⟨stack, .single (.leave other later), rfl, trivial⟩
  · rw [ofTerm_of_begun untouched]
    exact Step.acts_done (.refl _)

/-- Dice are left when their modifiers have been carried out. -/
theorem acts_ofTerm_dice {dice : Dice} (known : scope.term (.dice dice)) {work : Evaluation Unit}
    (acts : work.Acts scope (.term (.dice dice) :: stack) (Modifies stack dice)) :
    (ofTerm (.dice dice) work).Acts scope stack (Stays stack) := by
  intro progress
  by_cases untouched : (progress.ledger.term (Term.dice dice).id).phase = .unevaluated
  · rw [ofTerm_of_unevaluated untouched]
    have worked := (acts (progress.entering (.dice dice) .evaluating)).from
      (.single (.enter known untouched))
    refine Step.Acts.andThen worked fun result moment ended => ?_
    rcases moment with ⟨reached, later⟩
    cases result with
    | error fault => exact Step.acts_done ended
    | ok done =>
      rcases ended with ⟨number, faces, rfl⟩
      exact ⟨stack, .single (.leaveDice later), rfl, trivial⟩
  · rw [ofTerm_of_begun untouched]
    exact Step.acts_done (.refl _)

theorem acts_unlessEvaluated {term : Term} {work : Evaluation Unit}
    (acts : work.Acts scope stack (Stays stack)) :
    (unlessEvaluated term work).Acts scope stack (Stays stack) :=
  (acts_read _).andThen fun _ => Acts.ite (acts_pure fun _ => trivial) acts

theorem acts_unlessRollEvaluated {roll : Roll} {work : Evaluation Unit}
    (acts : work.Acts scope stack (Stays stack)) :
    (unlessRollEvaluated roll work).Acts scope stack (Stays stack) :=
  (acts_read _).andThen fun _ => Acts.ite (acts_pure fun _ => trivial) acts

theorem acts_ofRoll {roll : Roll} (known : scope.roll roll) {work : Evaluation Unit}
    (acts : work.Acts scope (.roll roll :: stack) (Stays (.roll roll :: stack))) :
    (ofRoll roll work).Acts scope stack (Stays stack) := by
  intro progress
  by_cases untouched : (progress.ledger.roll roll.id).phase = .unevaluated
  · rw [ofRoll_of_unevaluated untouched]
    have worked := (acts (progress.starting roll)).from (.single (.start known untouched))
    refine Acts.bind_ends worked (.push rfl _) fun _ later _ => ?_
    unfold sumUp
    split
    · rename_i total sum
      exact ⟨stack, .single (.finish sum), rfl, trivial⟩
    · exact Step.acts_done (.push rfl _)
  · rw [ofRoll_of_begun untouched]
    exact Step.acts_done (.refl _)

mutual

/-- The evaluation of a term acts on its parts. -/
theorem acts_evaluateTerm (allowed : scope.context context) : (term : Term) →
    term.Throughout scope.term scope.roll → {stack : List Pending} →
    (context.evaluateTerm term).Acts scope stack (Stays stack)
  | .numeric tag value, here, _ => by
    unfold evaluateTerm
    exact acts_ofTerm here rfl (acts_pure fun _ => trivial)
  | .operator tag op, here, _ => by
    unfold evaluateTerm
    exact acts_ofTerm here rfl (acts_pure fun _ => trivial)
  | .text tag word, here, _ => by
    unfold evaluateTerm
    exact acts_ofTerm here rfl (Acts.ite (acts_pure fun _ => trivial) (acts_fail _))
  | .group tag roll, ⟨here, around, row⟩, _ => by
    unfold evaluateTerm
    exact acts_ofTerm here rfl (acts_unlessRollEvaluated
      (acts_ofRoll around (acts_evaluateTerms allowed roll.terms row)))
  | .function tag fn rolls, ⟨here, parts⟩, _ => by
    unfold evaluateTerm
    refine acts_ofTerm here rfl ?_
    exact (acts_evaluateRolls allowed rolls parts fun roll => acts_checkArgument _ fn roll).andThen
      fun _ => acts_compute _ fn rolls
  | .dice d, ⟨here, number, faces⟩, stack => by
    unfold evaluateTerm
    refine acts_ofTerm_dice here fun progress => ?_
    have fails (fault : Fault) (moment : Moment)
        (above : Above (.term (.dice d) :: stack) moment.stack) :
        Modifies stack d (.error fault) moment := Above.trans (.push rfl _) above
    refine Acts.bind_from (acts_evaluateAmount allowed d.number number progress) ?_ fails
    intro _ later _
    refine Acts.bind_from (acts_evaluateAmount allowed d.faces faces later) ?_ fails
    exact fun _ last _ => acts_rollDice allowed d last
  | .pool p, ⟨here, parts⟩, _ => by
    unfold evaluateTerm
    refine acts_ofTerm here rfl ?_
    refine (acts_evaluateRolls allowed p.rolls parts (acts_collect p)).andThen fun _ => ?_
    exact acts_runModifiers (fun _ _ _ _ _ => acts_pure fun _ => trivial) allowed fun _ => .pool p

theorem acts_evaluateTerms (allowed : scope.context context) : (terms : List Term) →
    RowThroughout scope.term scope.roll terms →
    {stack : List Pending} →
    (context.evaluateTerms terms).Acts scope stack (Stays stack)
  | [], _, _ => by
    unfold evaluateTerms
    exact acts_pure fun _ => trivial
  | term :: rest, ⟨here, later⟩, _ => by
    unfold evaluateTerms
    exact (acts_unlessEvaluated (acts_evaluateTerm allowed term here)).andThen
      fun _ => acts_evaluateTerms allowed rest later

theorem acts_evaluateRolls (allowed : scope.context context) : (rolls : List Roll) →
    RollsThroughout scope.term scope.roll rolls →
    {stack : List Pending} → {use : Roll → Evaluation Unit} →
    (∀ roll, (use roll).Acts scope stack (Stays stack)) →
    (context.evaluateRolls use rolls).Acts scope stack (Stays stack)
  | [], _, _, _, _ => by
    unfold evaluateRolls
    exact acts_pure fun _ => trivial
  | roll :: rest, ⟨around, row, later⟩, _, _, used => by
    unfold evaluateRolls
    refine (acts_unlessRollEvaluated
      (acts_ofRoll around (acts_evaluateTerms allowed roll.terms row))).andThen fun _ => ?_
    exact (used roll).andThen fun _ => acts_evaluateRolls allowed rest later used

theorem acts_evaluateAmount (allowed : scope.context context) : (amount : Operand Term) →
    AmountThroughout scope.term scope.roll amount →
    {stack : List Pending} →
    (context.evaluateAmount amount).Acts scope stack (Stays stack)
  | .known _, _, _ => by
    unfold evaluateAmount
    exact acts_pure fun _ => trivial
  | .computed term, here, _ => by
    unfold evaluateAmount
    exact acts_unlessEvaluated (acts_evaluateTerm allowed term here)

end

/-- The evaluation of a roll acts on its parts. -/
theorem acts_evaluateRoll (allowed : scope.context context) {roll : Roll}
    (around : scope.roll roll) (row : RowThroughout scope.term scope.roll roll.terms) :
    (context.evaluateRoll roll).Acts scope stack (Stays stack) :=
  acts_ofRoll around (acts_evaluateTerms allowed roll.terms row)

end Context

/-! ## Resolvers -/

section

variable {scope : Scope} {stack : List Pending} {resolver : Resolver}
  (known : scope.resolver resolver)
include known

/-- The dice of a roll are asked for one after another. -/
theorem Resolver.leads_addAll (methods : MethodTable) {dice : List Dice}
    (among : dice ⊆ resolver.roll.dice) (progress : Progress) :
    Leads scope ⟨stack, progress⟩
      ⟨stack, (resolver.addAll methods dice progress).2⟩ := by
  induction dice generalizing progress with
  | nil => exact .refl
  | cons first rest ih =>
    have rest_ := ih fun _ member => among (List.mem_cons_of_mem _ member)
    unfold Resolver.addAll
    simp only
    split
    · rename_i wanted
      rcases Bool.and_eq_true_iff.1 wanted with ⟨ready, unfinished⟩
      split
      · exact .refl
      · split
        · split
          · exact .refl
          · rename_i asked
            have unfinished : progress.ledger.isEvaluated (.dice first) = false :=
              beq_eq_false_iff_ne.2 (bne_iff_ne.1 unfinished)
            refine Relation.ReflTransGen.head ?_ (rest_ _)
            exact .book known (among List.mem_cons_self) ready unfinished asked
        · exact rest_ progress
    · exact rest_ progress

theorem Evaluation.acts_firstPass (methods : MethodTable) :
    (resolver.firstPass methods).Acts scope stack (Stays stack) := by
  intro progress
  have asks : Leads scope ⟨stack, progress⟩
      ⟨stack, (resolver.addAll methods resolver.roll.dice progress).2⟩ :=
    resolver.leads_addAll known methods (List.Subset.refl _) progress
  have passes := resolver.passes_firstPass methods progress
  generalize resolver.firstPass methods progress = step at passes
  cases passes with
  | closed => exact Step.acts_done (.refl _)
  | failed _ asked =>
    rw [asked] at asks
    exact ⟨stack, asks, .refl _⟩
  | @ended later _ asked =>
    rw [asked] at asks
    exact ⟨stack, asks.tail (.release known later), rfl, trivial⟩
  | @waiting later _ asked filled =>
    rw [asked] at asks
    refine ⟨stack, asks.tail (.expect known filled), fun answer resumed => ?_⟩
    cases answer with
    | cancelled => exact Step.acts_done (.refl _)
    | delivered value => exact Step.acts_done ⟨rfl, trivial⟩
    | released => exact Step.acts_done ⟨rfl, trivial⟩

end

/-! ## Attempts -/

namespace RollOf

open Evaluation

variable {scope : Scope} {stack : List Pending} {roll : Roll}

theorem acts_evaluateWith {context : Context} {surroundings : Surroundings}
    (allowed : scope.context context) (around : scope.roll roll)
    (row : RowThroughout scope.term scope.roll roll.terms)
    (asks : ∀ resolver, surroundings.resolver = some resolver → scope.resolver resolver) :
    (roll.evaluateWith surroundings context).Acts scope stack (Stays stack) := by
  have acts : (context.evaluateRoll roll).Acts scope stack (Stays stack) :=
    Context.acts_evaluateRoll allowed around row
  unfold evaluateWith
  cases given : surroundings.resolver with
  | none => exact acts
  | some resolver =>
    have passed : (resolver.firstPass context.methods).Acts scope stack (Stays stack) :=
      acts_firstPass (asks resolver given) context.methods
    intro progress
    refine Step.Acts.andThen ((passed.andThen fun _ => acts) progress) fun result moment ended => ?_
    rcases moment with ⟨reached, later⟩
    exact ⟨reached, .single (.close (asks resolver given) later), by cases result <;> exact ended⟩

/-- An attempt to evaluate a roll acts on its parts, and on what resolvers of known rolls
have outstanding. -/
theorem acts_attempt {options : Options} {surroundings : Surroundings}
    (allowed : ∀ context, options.forRoll surroundings = .ok context → scope.context context)
    (around : scope.roll roll) (row : RowThroughout scope.term scope.roll roll.terms)
    (asks : ∀ resolver, surroundings.resolver = some resolver → scope.resolver resolver) :
    (roll.attempt options surroundings).Acts scope stack (Stays stack) := by
  have fails (fault : Fault) (progress : Progress) : (Step.done (.error fault : Except Fault Unit)
      progress).Acts scope (Stays stack) ⟨stack, progress⟩ :=
    Step.acts_done (.refl stack)
  intro progress
  unfold attempt
  by_cases now : surroundings.synchronous = true
  · rw [if_pos now]
    unfold evaluateNow
    cases valid : options.forRoll surroundings with
    | error fault => exact fails fault progress
    | ok context => exact Context.acts_evaluateRoll (allowed context valid) around row progress
  · rw [if_neg now]
    by_cases untouched : (progress.ledger.roll roll.id).phase = .unevaluated
    · rw [evaluate_of_unevaluated options surroundings untouched]
      cases valid : options.forRoll surroundings with
      | error fault => exact fails fault progress
      | ok context => exact acts_evaluateWith (allowed context valid) around row asks progress
    · rw [evaluate_of_begun options surroundings untouched]
      exact fails _ progress

end RollOf

/-- The evaluation of a single term acts on its parts. -/
theorem Term.acts_evaluate {scope : Scope} {stack : List Pending} {options : Options}
    {surroundings : Surroundings} {term : Term}
    (allowed : ∀ context, options.forTerm surroundings = .ok context → scope.context context)
    (parts : term.Throughout scope.term scope.roll) :
    (term.evaluate options surroundings).Acts scope stack (Stays stack) := by
  intro progress
  unfold Term.evaluate
  cases valid : options.forTerm surroundings with
  | error fault => exact Step.acts_done (.refl stack)
  | ok context =>
    have acts : (context.evaluateTerm term).Acts scope stack (Stays stack) :=
      Context.acts_evaluateTerm (allowed context valid) term parts
    exact Evaluation.Acts.ite (Evaluation.acts_fail _) acts progress

/-- Dice that are rolled by themselves act while no evaluation of them is pending. -/
theorem Context.acts_rollOnce {context : Context} {scope : Scope} {stack : List Pending}
    (allowed : scope.context context) (dice : Dice) (reroll explode : Bool) :
    (context.rollOne dice reroll explode).Acts scope (.single dice :: stack)
      (Stays (.single dice :: stack)) := by
  intro progress
  by_cases evaluated : progress.ledger.isEvaluated (.dice dice) = true
  · rcases naming_of_fault dice (.use (.termNoLongerRolls dice.formula)) progress with
      ⟨fault, failed⟩
    have refused :
        context.rollOne dice reroll explode progress = .done (.error fault) progress := by
      change (if progress.ledger.isEvaluated (.dice dice) = true then _ else _ : Evaluation Outcome)
        progress = _
      rw [if_pos evaluated]
      exact failed
    rw [refused]
    exact Step.acts_done (.refl _)
  · have unfinished := Bool.eq_false_iff.2 evaluated
    exact (acts_rollOne allowed reroll explode progress).from (.single (.once unfinished))

end DiceNotation
