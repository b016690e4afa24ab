import DiceNotation.Proofs.Evaluation.Rolling

namespace DiceNotation

/-!
# Evaluations that end at once

Where nothing can be waited for, an evaluation ends with a value or with a fault.  What
holds at its end is shown step by step: a condition that holds whenever a single die has
been rolled holds when all dice have been rolled, when a chain has come to its end, and when
the modifiers have been carried out.
-/

/-- An evaluation does not wait, and it ends in a way that satisfies a condition. -/
def Evaluation.Finishes {α : Type} (evaluation : Evaluation α) (progress : Progress)
    (ends : Except Fault α → Progress → Prop) : Prop :=
  ∃ result last, evaluation progress = .done result last ∧ ends result last

/-- One condition holds where an evaluation succeeds, and another one where it fails. -/
def Concludes {α : Type} (fails : Fault → Progress → Prop) (holds : α → Progress → Prop) :
    Except Fault α → Progress → Prop
  | .ok a, last => holds a last
  | .error fault, last => fails fault last

/-- A condition holds where an evaluation succeeds. -/
abbrev Succeeds {α : Type} (holds : Progress → Prop) : Except Fault α → Progress → Prop :=
  Concludes (fun _ _ => True) fun _ => holds

/-- A condition holds whether an evaluation succeeds or fails. -/
abbrev Regardless {α : Type} (holds : Progress → Prop) : Except Fault α → Progress → Prop :=
  Concludes (fun _ => holds) fun _ => holds

theorem Regardless.of {α : Type} {holds : Progress → Prop} {result : Except Fault α}
    {progress : Progress} (here : holds progress) : Regardless holds result progress := by
  cases result <;> exact here

namespace Evaluation

variable {α β : Type} {progress : Progress} {fails : Fault → Progress → Prop}

theorem Finishes.imp {evaluation : Evaluation α} {ends weaker : Except Fault α → Progress → Prop}
    (finishes : evaluation.Finishes progress ends)
    (follows : ∀ result last, ends result last → weaker result last) :
    evaluation.Finishes progress weaker := by
  rcases finishes with ⟨result, last, run, ended⟩
  exact ⟨result, last, run, follows result last ended⟩

theorem Finishes.of_eq {work other : Evaluation α} {ends : Except Fault α → Progress → Prop}
    (finishes : other.Finishes progress ends) (same : work progress = other progress) :
    work.Finishes progress ends := by
  rcases finishes with ⟨result, last, run, ended⟩
  exact ⟨result, last, same.trans run, ended⟩

theorem Finishes.bind {first : Evaluation α} {next : α → Evaluation β}
    {between : Except Fault α → Progress → Prop} {ends : Except Fault β → Progress → Prop}
    (finishes : first.Finishes progress between)
    (more : ∀ a later, first progress = .done (.ok a) later → between (.ok a) later →
      (next a).Finishes later ends)
    (failed : ∀ fault later, between (.error fault) later → ends (.error fault) later) :
    (first >>= next).Finishes progress ends := by
  rcases finishes with ⟨result, later, run, ended⟩
  cases result with
  | error fault => exact ⟨_, later, bind_failed run, failed fault later ended⟩
  | ok a =>
    rcases more a later run ended with ⟨result, last, further, done⟩
    exact ⟨result, last, (bind_done run).trans further, done⟩

section

variable {holds also : α → Progress → Prop}

theorem concludes_fail {fault : Fault} (failed : fails fault progress) :
    (fail fault : Evaluation α).Finishes progress (Concludes fails holds) := ⟨_, _, rfl, failed⟩

theorem concludes_pure {a : α} (here : holds a progress) :
    (pure a : Evaluation α).Finishes progress (Concludes fails holds) := ⟨_, _, rfl, here⟩

theorem concludes_lift {result : Except Fault α} (ended : Concludes fails holds result progress) :
    (lift result).Finishes progress (Concludes fails holds) := ⟨_, _, rfl, ended⟩

theorem concludes_read {f : Ledger → Except Fault α}
    (ended : Concludes fails holds (f progress.ledger) progress) :
    (read f).Finishes progress (Concludes fails holds) := ⟨_, _, rfl, ended⟩

theorem concludes_bind {between : β → Progress → Prop} {first : Evaluation β}
    {next : β → Evaluation α} (finishes : first.Finishes progress (Concludes fails between))
    (more : ∀ b later, between b later → (next b).Finishes later (Concludes fails holds)) :
    (first >>= next).Finishes progress (Concludes fails holds) :=
  finishes.bind (fun b later _ here => more b later here) fun _ _ failed => failed

theorem concludes_ite {condition : Prop} [Decidable condition] {yes no : Evaluation α}
    (one : yes.Finishes progress (Concludes fails holds))
    (other : no.Finishes progress (Concludes fails holds)) :
    (if condition then yes else no).Finishes progress (Concludes fails holds) := by
  split
  · exact one
  · exact other

theorem concludes_imp {work : Evaluation α}
    (finishes : work.Finishes progress (Concludes fails holds))
    (follows : ∀ a last, holds a last → also a last) :
    work.Finishes progress (Concludes fails also) := by
  refine finishes.imp fun result last ended => ?_
  cases result with
  | error fault => exact ended
  | ok a => exact follows a last ended

/-- An evaluation that succeeds has touched nothing but what it may touch. -/
theorem concludes_touched {work : Evaluation α} {inside : Identity → Prop}
    (finishes : work.Finishes progress (Concludes fails holds))
    (keeps : (work progress).Keeps (FrameRule.touched inside) progress) :
    work.Finishes progress
      (Concludes fails fun a last => holds a last ∧ progress.Touched inside last) := by
  rcases finishes with ⟨result, last, run, ended⟩
  rw [run] at keeps
  refine ⟨result, last, run, ?_⟩
  cases result with
  | error fault => exact ended
  | ok a => exact ⟨ended, keeps⟩

end

end Evaluation

namespace Context

open Evaluation

variable {context : Context} {dice : Dice} {progress : Progress} {fails : Fault → Progress → Prop}
  {holds : Progress → Prop}

/-- What is computed may fail, and reading it changes nothing. -/
theorem reads_conclude {α : Type} {f : Ledger → Except Fault α} (here : holds progress)
    (failed : ∀ fault, f progress.ledger = .error fault → fails fault progress) :
    (read f).Finishes progress (Concludes fails fun a last =>
      holds last ∧ f progress.ledger = .ok a ∧ last = progress) := by
  refine concludes_read ?_
  cases found : f progress.ledger with
  | error fault => exact failed fault found
  | ok a => exact ⟨here, rfl, rfl⟩

/-- Dice are rolled one after another. -/
theorem rollUpTo_concludes
    (rolls : ∀ {progress} reroll explode, holds progress →
      (context.rollOne dice reroll explode).Finishes progress (Concludes fails fun _ => holds))
    (number left : Nat) (here : holds progress) :
    (context.rollUpTo dice number left).Finishes progress (Concludes fails fun _ => holds) := by
  induction left generalizing progress with
  | zero => exact concludes_pure here
  | succ left ih =>
    refine concludes_bind (reads_conclude here nofun) fun _ _ ⟨still, _⟩ => ?_
    refine concludes_ite ?_ (concludes_pure still)
    exact concludes_bind (rolls false false still) fun _ _ more => ih more

/-- A chain marks an outcome and rolls one die, again and again.  What holds may be different
while one is marked that is not rolled yet.  The induction is on the rolls that are left. -/
theorem runChain_concludes {marked : Progress → Prop}
    (rolls : ∀ {progress} reroll explode, marked progress →
      (context.rollOne dice reroll explode).Finishes progress (Concludes fails fun _ => holds))
    (command : Command) (chain : Chain)
    (finds : ∀ {progress} initial checked fault, holds progress →
      chain.next? initial checked (progress.ledger.outcomes dice.tag.id) = .error fault →
      fails fault progress)
    (marks : ∀ {progress} initial checked position, holds progress →
      chain.next? initial checked (progress.ledger.outcomes dice.tag.id) = .ok (some position) →
      marked (progress.marking dice chain position))
    (limited : ∀ {progress}, holds progress →
      fails (.modifier (.tooManyRolls context.maxChainRolls) dice.formula command.raw) progress)
    (initial left checked : Nat) (here : holds progress) :
    (context.runChain dice command chain initial left checked).Finishes progress
      (Concludes fails fun _ => holds) := by
  induction left generalizing checked progress with
  | zero =>
    unfold runChain
    refine concludes_bind (reads_conclude here (finds initial checked · here)) ?_
    rintro next _ ⟨_, _, rfl⟩
    cases next with
    | none => exact concludes_pure here
    | some position => exact concludes_fail (limited here)
  | succ left ih =>
    unfold runChain
    refine concludes_bind (reads_conclude here (finds initial checked · here)) ?_
    rintro next later ⟨_, found, rfl⟩
    cases next with
    | none => exact concludes_pure here
    | some position =>
      let mark (state : TermState) : TermState :=
        { state with outcomes := state.outcomes.modify position chain.mark }
      have changes : (Evaluation.change fun ledger => ledger.updateTerm dice.tag.id mark).Finishes
          later (Concludes fails fun _ => marked) :=
        ⟨_, _, rfl, marks initial checked position here found⟩
      refine concludes_bind changes fun _ _ marked => ?_
      exact concludes_bind (rolls _ _ marked) fun _ _ more => ih _ more

/-! ## Modifiers -/

/-- Whatever the modifiers of a term do, a condition is kept, or they fail in a certain way. -/
structure Modified.Upholds (context : Context) (fails : Fault → Progress → Prop)
    (holds : Progress → Prop) (modified : Modified) (modifiers : List Json) : Prop where
  unnamed : ∀ {progress}, holds progress → modified.term.hasFormula = false →
    fails .wrongKind progress
  unread : ∀ {progress fault} (raw), raw ∈ modifiers → holds progress →
    Command.ofData raw modified.term.formula = .error fault → fails fault progress
  unknown : ∀ {progress} command, holds progress →
    fails (.modifier .unknown modified.term.formula command) progress
  tallies : ∀ {progress} action command, holds progress →
    (tally modified.term action command).Finishes progress (Concludes fails fun _ => holds)
  chains : ∀ {progress} command recursive explode, holds progress →
    (modified.chain command recursive explode).Finishes progress (Concludes fails fun _ => holds)
  skips : ∀ {progress later} raw reason formula command message, context.lenient = true →
    holds progress → fails (.modifier reason formula command) later →
    holds (later.undoing modified.term (progress.ledger.term modified.term.id).outcomes raw message)

theorem Modified.Upholds.of_cons {modified : Modified} {raw : Json} {rest : List Json}
    (upholds : modified.Upholds context fails holds (raw :: rest)) :
    modified.Upholds context fails holds rest where
  unnamed := upholds.unnamed
  unread other member := upholds.unread other (List.mem_cons_of_mem raw member)
  unknown := upholds.unknown
  tallies := upholds.tallies
  chains := upholds.chains
  skips := upholds.skips

/-- Modifiers are carried out one after another, and those that fail may be skipped. -/
theorem runModifiers_concludes {modified : Modified} {modifiers : List Json}
    (upholds : modified.Upholds context fails holds modifiers) (here : holds progress) :
    (context.runModifiers modified modifiers).Finishes progress
      (Concludes fails fun _ => holds) := by
  induction modifiers generalizing progress with
  | nil => exact concludes_pure here
  | cons raw rest ih =>
    have runs : (runModifier modified raw).Finishes progress (Concludes fails fun _ => holds) := by
      have reads : (lift (Command.ofData raw modified.term.formula)).Finishes progress
          (Concludes fails fun _ => holds) := by
        refine concludes_lift ?_
        cases read : Command.ofData raw modified.term.formula with
        | error fault => exact upholds.unread raw List.mem_cons_self here read
        | ok command => exact here
      refine concludes_bind reads fun command _ more => ?_
      cases modified.table.action? command.name with
      | none => exact concludes_fail (upholds.unknown _ more)
      | some action =>
        cases action with
        | reroll once => exact upholds.chains command _ _ more
        | explode once => exact upholds.chains command _ _ more
        | _ => exact upholds.tallies _ command more
    have tries : (context.tryModifier modified raw).Finishes progress
        (Concludes fails fun _ => holds) := by
      rcases runs with ⟨result, last, run, ended⟩
      unfold Finishes
      rw [tryModifier_eq, run]
      cases result with
      | ok done => exact ⟨_, _, rfl, ended⟩
      | error fault =>
        cases fault with
        | modifier reason formula command =>
          cases lenient : context.lenient with
          | true =>
            exact ⟨_, _, if_pos lenient,
              upholds.skips raw reason formula command _ lenient here ended⟩
          | false =>
            refine ⟨_, _, if_neg (Bool.eq_false_iff.1 lenient), ?_⟩
            exact ended
        | _ => exact ⟨_, _, rfl, ended⟩
    unfold runModifiers
    cases written : modified.term.hasFormula with
    | true => exact concludes_bind tries fun _ _ more => ih upholds.of_cons more
    | false => exact concludes_fail (upholds.unnamed here written)

end Context
end DiceNotation
