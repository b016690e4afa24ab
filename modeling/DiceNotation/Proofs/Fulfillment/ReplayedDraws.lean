import DiceNotation.Proofs.Fulfillment.Replays

namespace DiceNotation

/-!
# Draws that are replayed

When an evaluation needs one more value for a die, it asks for it and waits until it is
delivered.  In the replay the method of the die has this value next.  So a single draw is
mirrored, and the two evaluations are level after it if they were before.
-/

/-- The progress in which the method of a single die was called once more. -/
def Progress.calling (progress : Progress) (dice : Dice) (reroll explode : Bool) : Progress :=
  { progress with calls := ⟨ownName dice.tag.id, dice.formula, reroll, explode⟩ :: progress.calls }

theorem Progress.callsOf_calling (progress : Progress) (dice : Dice) (reroll explode : Bool)
    (id : Identity) : (progress.calling dice reroll explode).callsOf id =
      progress.callsOf id + if dice.tag.id = id then 1 else 0 := by
  unfold Progress.callsOf Progress.calling
  rw [List.countP_cons]
  refine congrArg _ (if_congr ?_ rfl rfl)
  rw [beq_iff_eq]
  exact ⟨ownName_injective, congrArg ownName⟩

namespace Resolver

variable {resolver : Resolver} {progress last : Progress} {dice : Dice} {method : Json}
  {reroll explode : Bool} {more : List Receipt} {result : Except Fault Number}

/-- Who asks for a die gets one value that the die can show, or is cancelled. -/
theorem runs_resolve (quiet : progress.Quiet resolver)
    (runs : (resolver.resolve dice method reroll explode progress).Runs resolver more
      (.done result last)) :
    result = .error .cancelled ∨ ∃ receipt : Receipt, more = [receipt] ∧
      receipt.descriptor.dice = dice ∧ result = .ok receipt.number ∧ last.Quiet resolver ∧
      last.ledger = progress.ledger ∧
      progress.ledger.accepts dice (.number receipt.number) = .ok true := by
  unfold Resolver.resolve at runs
  split at runs
  · rcases runs.of_done with ⟨_, is⟩
    cases is
    exact .inl rfl
  · rename_i isOpen
    have waiting := quiet.add (Bool.not_eq_true _ ▸ isOpen) dice method reroll explode
    cases runs with
    | @resumes _ _ later _ handled rest answer _ handles answered runs =>
      rcases handles.fulfils waiting with ⟨same, fulfils⟩
      have tidy := handles.tidy waiting.tidy
      cases fulfils with
      | pending _ unanswered => cases unanswered.symm.trans answered
      | @delivered given denomination number none accepted delivered =>
        cases delivered.symm.trans answered
        rcases runs.of_done with ⟨rfl, is⟩
        cases is
        exact .inr ⟨_, List.append_nil _, rfl, rfl, ⟨tidy, none⟩, same, accepted⟩
      | cancelled none cancelled =>
        cases cancelled.symm.trans answered
        rcases runs.of_done with ⟨_, is⟩
        cases is
        exact .inl rfl

end Resolver

namespace Context

open Evaluation

/-- What dice draw is what their method gives, if they can show it. -/
theorem draw_eq (context : Context) (dice : Dice) (reroll explode : Bool) :
    ∃ showing : Json → Evaluation Json,
      context.draw dice reroll explode =
        (methodOf dice >>= fun name => context.askMethod dice name reroll explode >>= showing) ∧
      ∀ n progress, progress.ledger.accepts dice (.number n) = .ok true →
        showing (.number n) progress = .done (.ok (.number n)) progress := by
  refine ⟨_, rfl, fun n progress accepted => ?_⟩
  have reads : read (·.accepts dice (.number n)) progress = .done (.ok true) progress :=
    congrArg (Step.done · progress) accepted
  exact (bind_done reads).trans rfl

theorem methodOf_eq {dice : Dice} {name : Json} {progress : Progress}
    (own : (progress.ledger.term dice.tag.id).method = name) :
    methodOf dice progress = .done (.ok name) progress := by
  rw [← own]
  rfl

end Context

namespace Replay

open Evaluation

variable {replay : Replay} {taken : List Receipt} {progress last other : Progress} {dice : Dice}
  (member : dice ∈ replay.resolver.roll.dice)
include member

theorem own_of_mem (pairs : replay.Pairs progress other) :
    (other.ledger.term dice.tag.id).method = .string (ownName dice.tag.id) := by
  rw [pairs.own]
  exact congrArg TermState.method (Ledger.term_withMethods_of_mem member)

/-- In the replay a die draws the next of its values. -/
theorem draw_plain (own : (other.ledger.term dice.tag.id).method = .string (ownName dice.tag.id))
    {n : Number} (next : (valuesFor replay.receipts dice.tag.id)[other.callsOf dice.tag.id]? =
      some (.number n)) (accepted : other.ledger.accepts dice (.number n) = .ok true)
    (reroll explode : Bool) : replay.plain.draw dice reroll explode other =
      .done (.ok (.number n)) (other.calling dice reroll explode) := by
  have called : Context.call (ownName dice.tag.id) (valuesFor replay.receipts dice.tag.id) dice
      reroll explode other = .done (.ok (.number n)) (other.calling dice reroll explode) := by
    have turn : Context.nextAnswer (ownName dice.tag.id) (valuesFor replay.receipts dice.tag.id)
        other.calls = .number n := by
      unfold Context.nextAnswer
      have inside := (List.getElem?_eq_some_iff.1 next).1
      change ((valuesFor replay.receipts dice.tag.id)[other.callsOf dice.tag.id % _]?).getD _ = _
      rw [Nat.mod_eq_of_lt inside, next]
      rfl
    have shown := (Resolver.sound_of_mem replay.isMade member).hasFormula
    have goes : Context.call (ownName dice.tag.id) (valuesFor replay.receipts dice.tag.id) dice reroll
        explode = fun progress => .done (.ok (Context.nextAnswer (ownName dice.tag.id)
          (valuesFor replay.receipts dice.tag.id) progress.calls)) (progress.calling dice reroll explode) :=
      if_pos shown
    rw [goes, ← turn]
  have found : lift (replay.plain.methods.named (.string (ownName dice.tag.id))) other =
      .done (.ok (preparedMethod replay.receipts dice.tag.id)) other :=
    congrArg (Step.done · other) (named_prepared replay.receipts member)
  have asked : replay.plain.askMethod dice (.string (ownName dice.tag.id)) reroll explode other =
      .done (.ok (.number n)) (other.calling dice reroll explode) := by
    unfold Context.askMethod
    rw [bind_done found]
    exact called
  rcases replay.plain.draw_eq dice reroll explode with ⟨showing, is, shows⟩
  rw [is, bind_done (Context.methodOf_eq own), bind_done asked]
  exact shows n _ accepted

omit member in
/-- After a draw both evaluations are level if they were before. -/
theorem AlikeAt.draw {receipt : Receipt}
    (alike : replay.AlikeAt receipt.id taken progress other) (quiet : last.Quiet replay.resolver)
    (same : last.ledger = progress.ledger) (reroll explode : Bool) :
    replay.AlikeAt receipt.id (taken ++ [receipt]) last
      (other.calling receipt.descriptor.dice reroll explode) where
  pairs := by
    rcases alike.pairs with ⟨_, roll, phase, counting, method, own⟩
    rw [← same] at roll phase counting method
    exact ⟨quiet, roll, phase, counting, method, own⟩
  stands different apart := by
    refine (alike.stands different apart).congr (by rw [same]) rfl ?_ ?_
    · exact (Progress.callsOf_calling ..).trans (congrArg _ (if_neg apart.symm))
    · exact shareOf_append_of_ne apart
  level := by
    constructor
    · rw [same]
      exact alike.level.outcomes
    · rw [Progress.callsOf_calling, alike.level.calls, shareOf_append_self, List.length_append]
      exact congrArg _ (if_pos rfl)

/-- The evaluation that is replayed asks its resolver for every die. -/
theorem askMethod_asking (reroll explode : Bool) :
    replay.asking.askMethod dice (replay.made.term dice.tag.id).method reroll explode =
      replay.resolver.resolve dice (replay.made.term dice.tag.id).method reroll explode >>=
        fun n => pure (.number n) := by
  have interactive := replay.interactive dice member
  unfold MethodTable.isInteractive at interactive
  cases found : replay.setup.methods.named (replay.made.term dice.tag.id).method with
  | error fault =>
    rw [found] at interactive
    cases interactive
  | ok method =>
    rw [found] at interactive
    have interactive : method.interactive = true := interactive
    funext progress
    have reads : lift (replay.asking.methods.named (replay.made.term dice.tag.id).method) progress =
        .done (.ok method) progress := by
      rw [replay.methods, found]
      rfl
    have outside : replay.asking.askOutside dice (replay.made.term dice.tag.id).method reroll explode =
        replay.resolver.resolve dice (replay.made.term dice.tag.id).method reroll explode >>=
          fun n => pure (.number n) := by
      unfold Context.askOutside
      rw [replay.waits, replay.allows, replay.asks]
      rfl
    unfold Context.askMethod
    rw [bind_done reads, ← outside]
    exact congrFun (if_pos interactive) progress

/-- A draw of a die is mirrored. -/
theorem mirrors_draw (reroll explode : Bool) :
    Mirrors replay.resolver replay.receipts (replay.AlikeAt dice.tag.id)
      (replay.AlikeAt dice.tag.id) (replay.AlikeAt dice.tag.id)
      (replay.asking.draw dice reroll explode) (replay.plain.draw dice reroll explode) := by
  intro taken progress other alike more result last runs within
  rcases replay.asking.draw_eq dice reroll explode with ⟨showing, is, shows⟩
  have asks : replay.asking.draw dice reroll explode progress =
      (replay.resolver.resolve dice (replay.made.term dice.tag.id).method reroll explode >>=
        fun n => showing (.number n)) progress := by
    rw [is, bind_done (Context.methodOf_eq (alike.pairs.method dice.tag.id)),
      askMethod_asking member]
    exact congrFun (Evaluation.bind_assoc _ _ showing) progress
  rw [asks] at runs
  rcases Step.Runs.of_andThen runs with
    ⟨_, _, _, _, waits⟩ | ⟨front, back, found, middle, rfl, asked, rest⟩
  · cases waits
  rcases Resolver.runs_resolve alike.pairs.quiet asked with
    rfl | ⟨receipt, rfl, rfl, rfl, quiet, same, accepted⟩
  · rcases rest.of_done with ⟨rfl, is⟩
    cases is
    exact .cancelled
  · change (showing (.number receipt.number) middle).Runs _ _ _ at rest
    rw [shows _ middle (by rw [same, accepted])] at rest
    rcases rest.of_done with ⟨rfl, is⟩
    cases is
    rw [List.append_nil] at within ⊢
    have newest : (shareOf (taken ++ [receipt]) receipt.id)[(shareOf taken receipt.id).length]? =
        some receipt := by
      rw [shareOf_append_self, List.getElem?_concat_length]
    have next := getElem?_valuesFor within newest
    have level : other.callsOf receipt.id = (shareOf taken receipt.id).length := alike.level.calls
    rw [← level] at next
    have acceptedToo : other.ledger.accepts receipt.descriptor.dice (.number receipt.number) =
        .ok true := by
      rw [← alike.alike.agrees.accepts, accepted]
    exact .value (draw_plain member (own_of_mem member alike.pairs) next acceptedToo reroll explode)
      (AlikeAt.draw alike quiet same reroll explode)

end Replay
end DiceNotation
