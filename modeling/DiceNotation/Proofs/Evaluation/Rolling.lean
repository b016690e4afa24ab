import DiceNotation.Proofs.Evaluation.Frame

namespace DiceNotation

/-!
# Rolling, one step at a time

What dice do next when they are rolled and modified: they draw unless the result is fixed,
they are rolled again as long as there are not enough of them, and a modifier that fails
may be skipped.
-/

/-- The progress in which a modifier was skipped, so that the outcomes of the term are what
they were before. -/
def Progress.undoing (progress : Progress) (term : Term) (outcomes : List Outcome) (raw : Json)
    (message : String) : Progress :=
  (progress.report .warning (Context.skipping term raw message)).updateLedger fun ledger =>
    ledger.updateTerm term.id fun state => { state with outcomes := outcomes }

/-- The progress in which the tally of a term is what a modifier made of it. -/
def Progress.tallying (progress : Progress) (term : Term) (action : Action) (command : Command) :
    Progress :=
  progress.updateLedger fun ledger => ledger.updateTerm term.id fun state =>
    let tally : Tally := ⟨(progress.ledger.term term.id).outcomes,
      (progress.ledger.term term.id).counting⟩
    let after := (tally.carryOut action command term.formula).1
    { state with outcomes := after.outcomes, counting := after.counting }

/-- The progress in which an outcome of dice is marked by a chain. -/
def Progress.marking (progress : Progress) (dice : Dice) (chain : Context.Chain)
    (position : Nat) : Progress :=
  progress.updateLedger fun ledger => ledger.updateTerm dice.tag.id fun state =>
    { state with outcomes := state.outcomes.modify position chain.mark }

/-- The progress in which dice have one more result. -/
def Progress.adding (progress : Progress) (dice : Dice) (value : Json) : Progress :=
  progress.updateLedger fun ledger => Resolver.addOutcome ledger dice value

namespace Context

open Evaluation

/-- Where the result is not fixed, it is drawn. -/
theorem nextResult_eq_draw (context : Context) (lowest : context.minimize = false)
    (highest : context.maximize = false) (dice : Dice) (reroll explode : Bool) :
    context.nextResult dice reroll explode = context.draw dice reroll explode := by
  unfold nextResult
  rw [lowest, highest]
  rfl

theorem rollUpTo_succ (context : Context) (dice : Dice) (number rolls : Nat)
    (progress : Progress) :
    context.rollUpTo dice number (rolls + 1) progress =
      (if (progress.ledger.outcomes dice.tag.id).length < number then
        context.rollOne dice false false >>= fun _ => context.rollUpTo dice number rolls
      else pure () : Evaluation Unit) progress := rfl

theorem rollUpTo_of_lt (context : Context) {dice : Dice} {number : Nat} (rolls : Nat)
    {progress : Progress} (less : (progress.ledger.outcomes dice.tag.id).length < number) :
    context.rollUpTo dice number (rolls + 1) progress =
      (context.rollOne dice false false >>= fun _ => context.rollUpTo dice number rolls)
        progress :=
  (context.rollUpTo_succ dice number rolls progress).trans (congrFun (if_pos less) progress)

theorem rollUpTo_of_le (context : Context) {dice : Dice} {number : Nat} (rolls : Nat)
    {progress : Progress} (enough : number ≤ (progress.ledger.outcomes dice.tag.id).length) :
    context.rollUpTo dice number rolls progress = .done (.ok ()) progress := by
  cases rolls with
  | zero => rfl
  | succ rolls =>
    rw [rollUpTo_succ]
    exact congrFun (if_neg (Nat.not_lt.2 enough)) progress

theorem requireInteger_of_known (dice : Dice) (what : DiceAmount) {least : Nat} {n : Int}
    (enough : (least : Int) ≤ n) (progress : Progress) :
    rollDice.requireInteger dice what least (.known n) progress = .done (.ok n.toNat) progress :=
  congrFun (if_pos enough : (if (least : Int) ≤ n then pure n.toNat
    else rollDice.refuse dice what (.ofInt n) least : Evaluation Nat) = _) progress

/-- What becomes of the result of a modifier that started with some outcomes: if the
modifier failed, it may be skipped. -/
def afterModifier (context : Context) (term : Term) (raw : Json) (outcomes : List Outcome)
    (result : Except Fault Unit) : Evaluation Unit := fun later =>
  match result with
  | .error (.modifier reason formula command) =>
    let fault : Fault := .modifier reason formula command
    if context.lenient then
      .done (.ok ()) (later.undoing term outcomes raw (fault.message?.getD ""))
    else .done (.error fault) later
  | other => .done other later

theorem tryModifier_eq (context : Context) (modified : Modified) (raw : Json)
    (progress : Progress) :
    context.tryModifier modified raw progress = (runModifier modified raw progress).andThen
      (context.afterModifier modified.term raw
        (progress.ledger.term modified.term.id).outcomes) := rfl

end Context

/-!
## The amounts of dice that are rolled

Dice are rolled only if their amounts are integers that are not too small.  Otherwise
the evaluation fails before anything else happens.
-/

namespace Context

open Evaluation

variable (context : Context)

theorem naming_of_fault {α : Type} (dice : Dice) (fault : Fault) (progress : Progress) :
    ∃ given, (naming dice (fail fault) : Evaluation α) progress = .done (.error given) progress := by
  unfold naming
  split
  · exact ⟨_, rfl⟩
  · exact ⟨_, rfl⟩

/-- An amount is an integer that is not too small, or it is refused. -/
theorem requireInteger_cases (dice : Dice) (what : DiceAmount) (least : Nat)
    (amount : Operand Term) (progress : Progress) :
    (∃ n : Nat, progress.ledger.amount amount = .ok (.ofInt n) ∧ least ≤ n ∧
      rollDice.requireInteger dice what least amount progress = .done (.ok n) progress) ∨
    ∃ fault, rollDice.requireInteger dice what least amount progress =
      .done (.error fault) progress := by
  have refused (value : Json) : ∃ fault,
      rollDice.refuse dice what value least progress = .done (.error fault) progress :=
    naming_of_fault dice _ progress
  unfold rollDice.requireInteger
  cases found : progress.ledger.amount amount with
  | error fault =>
    have failed : read (·.amount amount) progress = .done (.error fault) progress :=
      congrArg (Step.done · progress) found
    exact .inr ⟨fault, bind_failed failed⟩
  | ok value =>
    have reads : read (·.amount amount) progress = .done (.ok value) progress :=
      congrArg (Step.done · progress) found
    rw [bind_done reads]
    split
    · rename_i n
      split
      · rename_i enough
        have whole : (n.toNat : Int) = n :=
          Int.toNat_of_nonneg (Int.le_trans (Int.natCast_nonneg least) enough)
        exact .inl ⟨n.toNat, by rw [whole]; rfl, by omega, rfl⟩
      · exact .inr (refused _)
    · exact .inr (refused _)

/-- Dice are rolled if both amounts are integers, and nothing happens otherwise. -/
theorem rollDice_cases (dice : Dice) (progress : Progress) :
    (∃ fault, context.rollDice dice progress = .done (.error fault) progress) ∨
    ∃ number faces : Nat, progress.ledger.amount dice.number = .ok (.ofInt number) ∧
      progress.ledger.amount dice.faces = .ok (.ofInt faces) ∧ 1 ≤ faces ∧
      context.rollDice dice progress =
        (context.rollUpTo dice number number >>= fun _ =>
          context.runModifiers (context.modifiedDice dice) dice.modifiers) progress := by
  have unfolded : context.rollDice dice =
      (rollDice.requireInteger dice .number 0 dice.number >>= fun number =>
        rollDice.requireInteger dice .faces 1 dice.faces >>= fun _ =>
          context.rollUpTo dice number number >>= fun _ =>
            context.runModifiers (context.modifiedDice dice) dice.modifiers) := rfl
  rw [unfolded]
  rcases requireInteger_cases dice .number 0 dice.number progress with
    ⟨number, counted, _, reads⟩ | ⟨fault, fails⟩
  · rw [bind_done reads]
    rcases requireInteger_cases dice .faces 1 dice.faces progress with
      ⟨faces, sided, enough, reads⟩ | ⟨fault, fails⟩
    · rw [bind_done reads]
      exact .inr ⟨number, faces, counted, sided, enough, rfl⟩
    · exact .inl ⟨fault, bind_failed fails⟩
  · exact .inl ⟨fault, bind_failed fails⟩

end Context
end DiceNotation
