import DiceNotation.Proofs.Evaluation.Finishing

namespace DiceNotation

/-!
# Rolling where nobody can be asked

Without a resolver nothing waits for the outside.  The method of a die may still give a value:
a handler answers at once, and what it answers counts only if the die can show it.  Otherwise
the uniform source picks a result.  Who is asked changes nothing about terms and rolls, and the
value that was found becomes one more outcome of the die.
-/

/-- What an evaluation can give as the next result of dice if there is no resolver. -/
inductive Context.Gives (context : Context) (ledger : Ledger) (dice : Dice) : Json → Prop where
  | lowest (least : context.minimize = true) :
    Gives context ledger dice (.ofInt dice.kind.minimum)
  | highest {value : Json} (varies : context.minimize = false) (greatest : context.maximize = true)
    (known : ledger.maximumValue dice = .ok value) : Gives context ledger dice value
  | accepted {value : Json} (free : context.isFixed = false)
    (can : ledger.accepts dice value = .ok true) : Gives context ledger dice value
  | picked {value : Json} (free : context.isFixed = false) (draws : Nat)
    (picks : ledger.mapUniform dice (.number (.real (context.uniform draws))) = .ok value) :
    Gives context ledger dice value

/-- The ledger is what it was, however an evaluation ends. -/
abbrev Leaves {α : Type} (ledger : Ledger) : Except Fault α → Progress → Prop :=
  fun _ last => last.ledger = ledger

namespace Evaluation

variable {α β : Type} {progress : Progress} {ledger : Ledger}

theorem leaves_bind {first : Evaluation α} {next : α → Evaluation β}
    (finishes : first.Finishes progress (Leaves ledger))
    (more : ∀ a later, later.ledger = ledger → (next a).Finishes later (Leaves ledger)) :
    (first >>= next).Finishes progress (Leaves ledger) :=
  finishes.bind (fun a later _ same => more a later same) fun _ _ same => same

theorem leaves_ite {condition : Prop} [Decidable condition] {yes no : Evaluation α}
    (one : yes.Finishes progress (Leaves ledger)) (other : no.Finishes progress (Leaves ledger)) :
    (if condition then yes else no).Finishes progress (Leaves ledger) := by
  split
  · exact one
  · exact other

theorem leaves_naming {dice : Dice} {work : Evaluation α} (same : progress.ledger = ledger)
    (finishes : work.Finishes progress (Leaves ledger)) :
    (Context.naming dice work).Finishes progress (Leaves ledger) :=
  leaves_ite finishes ⟨_, _, rfl, same⟩

end Evaluation

namespace Context

open Evaluation

variable {context : Context} {dice : Dice} {progress : Progress} {ledger : Ledger}
  (same : progress.ledger = ledger)
include same

/-! ## Asking for a value -/

theorem withoutWaiting_leaves (method : String) :
    (context.withoutWaiting method dice).Finishes progress (Leaves ledger) := by
  unfold withoutWaiting
  exact leaves_ite (leaves_naming same ⟨_, _, rfl, same⟩) ⟨_, _, rfl, same⟩

theorem askHandler_leaves (name : String) (reroll explode : Bool) (handler : Handler) :
    (context.askHandler dice name reroll explode handler).Finishes progress (Leaves ledger) := by
  have calls (answers : List Json) :
      (call name answers dice reroll explode).Finishes progress (Leaves ledger) :=
    leaves_naming same ⟨_, _, rfl, same⟩
  cases handler with
  | lowest => exact ⟨_, _, rfl, same⟩
  | highest => exact ⟨_, _, rfl, same⟩
  | prepared delivery answers =>
    cases delivery with
    | direct => exact calls answers
    | deferred => exact leaves_ite (withoutWaiting_leaves same name) (calls answers)
    | promised =>
      refine leaves_bind (calls answers) fun answer later still => ?_
      exact leaves_ite (withoutWaiting_leaves still name) ⟨_, _, rfl, still⟩

theorem askOutside_leaves (unaided : context.resolver = none) (method : Json)
    (reroll explode : Bool) :
    (context.askOutside dice method reroll explode).Finishes progress (Leaves ledger) := by
  have digitally (reason : String) :
      (reportDigital dice reason).Finishes progress (Leaves ledger) :=
    leaves_naming same ⟨_, _, rfl, same⟩
  unfold askOutside
  rw [unaided]
  refine leaves_ite (leaves_ite ?_ (digitally _)) (leaves_ite ⟨_, _, rfl, same⟩ (digitally _))
  exact leaves_naming same ⟨_, _, rfl, same⟩

/-- Whoever is asked for a value, terms and rolls stay what they are. -/
theorem askMethod_leaves (unaided : context.resolver = none) (name : Json)
    (reroll explode : Bool) :
    (context.askMethod dice name reroll explode).Finishes progress (Leaves ledger) := by
  have reads : (lift (context.methods.named name)).Finishes progress (Leaves ledger) :=
    ⟨_, _, rfl, same⟩
  refine leaves_bind reads fun method later still => ?_
  refine leaves_ite (askOutside_leaves still unaided name reroll explode) ?_
  cases method.handler with
  | none => exact ⟨_, _, rfl, still⟩
  | some handler => exact askHandler_leaves still name.plainText reroll explode handler

end Context

/-! ## Results -/

namespace Context

open Evaluation

variable {context : Context} {dice : Dice} {progress : Progress}

/-- A value is found that the evaluation can give, and nothing is done with it.  Where chance
plays no part this fails only if the greatest result is not known. -/
abbrev Finds (context : Context) (dice : Dice) (ledger : Ledger) :
    Except Fault Json → Progress → Prop :=
  Concludes
    (fun fault last => last.ledger = ledger ∧
      (context.isFixed = true → ledger.maximumValue dice = .error fault))
    fun value last => last.ledger = ledger ∧ context.Gives ledger dice value

/-- A value that was given counts if the dice can show it. -/
theorem shown_gives (free : context.isFixed = false) (given : Json) :
    (do
      if ← read (·.accepts dice given) then return given
      else
        let method ← methodOf dice
        naming dice (fail (.use (.impossibleResult given.quoted dice.formula method.plainText)))
      : Evaluation Json).Finishes progress (context.Finds dice progress.ledger) := by
  have varies {fault : Fault} (fixed : context.isFixed = true) :
      progress.ledger.maximumValue dice = .error fault := by
    rw [free] at fixed
    cases fixed
  cases answered : progress.ledger.accepts dice given with
  | error fault =>
    have tested : read (·.accepts dice given) progress = .done (.error fault) progress :=
      congrArg (Step.done · progress) answered
    exact ⟨_, _, bind_failed tested, rfl, varies⟩
  | ok answer =>
    have tested : read (·.accepts dice given) progress = .done (.ok answer) progress :=
      congrArg (Step.done · progress) answered
    unfold Finishes
    rw [bind_done tested]
    cases answer with
    | true => exact ⟨_, _, rfl, rfl, .accepted free answered⟩
    | false =>
      have refused (fault : Fault) :
          (naming dice (fail fault) : Evaluation Json).Finishes progress
            (context.Finds dice progress.ledger) :=
        concludes_ite (concludes_fail ⟨rfl, varies⟩) (concludes_fail ⟨rfl, varies⟩)
      exact refused _

theorem draw_gives (unaided : context.resolver = none) (free : context.isFixed = false)
    (reroll explode : Bool) :
    (context.draw dice reroll explode).Finishes progress
      (context.Finds dice progress.ledger) := by
  have varies {fault : Fault} (fixed : context.isFixed = true) :
      progress.ledger.maximumValue dice = .error fault := by
    rw [free] at fixed
    cases fixed
  have reads : methodOf dice progress =
      .done (.ok (progress.ledger.term dice.tag.id).method) progress := rfl
  have asks : (context.askMethod dice (progress.ledger.term dice.tag.id).method reroll
      explode).Finishes progress (Leaves progress.ledger) :=
    askMethod_leaves rfl unaided _ reroll explode
  rcases asks with ⟨result, asked, run, same⟩
  change asked.ledger = progress.ledger at same
  unfold Finishes draw
  rw [bind_done reads]
  cases result with
  | error fault => exact ⟨_, asked, bind_failed run, same, varies⟩
  | ok given =>
    rw [bind_done run, ← same]
    cases given with
    | null =>
      refine ⟨_, { asked with draws := asked.draws + 1 }, rfl, ?_⟩
      cases picked : asked.ledger.mapUniform dice
          (.number (.real (context.uniform asked.draws))) with
      | error fault => exact ⟨rfl, same ▸ varies⟩
      | ok value => exact ⟨rfl, .picked free asked.draws picked⟩
    | _ => exact shown_gives free _

/-- The next result of dice is one that the evaluation can give. -/
theorem nextResult_gives (unaided : context.resolver = none) (reroll explode : Bool) :
    (context.nextResult dice reroll explode).Finishes progress
      (context.Finds dice progress.ledger) := by
  unfold nextResult
  cases least : context.minimize with
  | true => exact ⟨_, _, rfl, rfl, .lowest least⟩
  | false =>
    rw [if_neg Bool.false_ne_true]
    cases greatest : context.maximize with
    | true =>
      rw [if_pos rfl]
      refine concludes_read ?_
      cases known : progress.ledger.maximumValue dice with
      | error fault => exact ⟨rfl, fun _ => rfl⟩
      | ok value => exact ⟨rfl, .highest least greatest known⟩
    | false =>
      rw [if_neg Bool.false_ne_true]
      refine draw_gives unaided ?_ reroll explode
      unfold isFixed
      rw [least, greatest]
      rfl

/-- Dice that are not evaluated get one more outcome. -/
theorem rollOne_gives (unaided : context.resolver = none) (reroll explode : Bool)
    (unfinished : (progress.ledger.term dice.tag.id).phase ≠ .evaluated) :
    (context.rollOne dice reroll explode).Finishes progress
      (Concludes
        (fun fault last => last.ledger = progress.ledger ∧
          (context.isFixed = true → progress.ledger.maximumValue dice = .error fault))
        fun _ last => ∃ value, context.Gives progress.ledger dice value ∧
          last.ledger = Resolver.addOutcome progress.ledger dice value) := by
  have reads : (read fun ledger => .ok (ledger.isEvaluated (.dice dice))) progress =
      .done (.ok false) progress := by
    rw [← beq_eq_false_iff_ne.2 unfinished]
    rfl
  unfold Finishes rollOne
  rw [bind_done reads, if_neg Bool.false_ne_true]
  refine concludes_bind (nextResult_gives unaided reroll explode) ?_
  rintro value later ⟨same, gives⟩
  refine ⟨_, _, rfl, value, gives, ?_⟩
  rw [← same]
  rfl

end Context
end DiceNotation
