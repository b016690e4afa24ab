import DiceNotation.Proofs.Fulfillment.Early
import DiceNotation.Proofs.Fulfillment.Recording
import DiceNotation.Proofs.Fulfillment.Turns

namespace DiceNotation

/-!
# Evaluated dice

Once dice have been evaluated, their results stay as they are, whatever is evaluated,
asked for, handed in or closed afterwards.  There are two exceptions.  A resolver that was
asked for the dice in advance, and not in their evaluation, still adds the values that are
handed in for them.  And dice that were rolled by themselves when their evaluation came to
its end still get the value that is waited for.  In both cases values are only appended.
-/

variable {scope : Scope}

/-! ## What is not pending any more -/

section

variable {ledger : Ledger} {below : List Pending}

/-- A modifier stands on the evaluation of its term. -/
theorem StackFits.modifier_holds {term : Term} {outcomes : List Outcome}
    (fits : StackFits scope ledger (.modifier term outcomes :: below)) :
    ∃ pending ∈ below, pending.term? = some term.id := by
  cases below with
  | nil => exact fits.2.1.elim
  | cons pending rest =>
    refine ⟨pending, List.mem_cons_self, ?_⟩
    cases (fits.2.1 : pending.Modifies term) <;> rfl

/-- Dice whose evaluation is not pending are rolled by themselves only. -/
theorem StackFits.single_of_result {dice : Dice}
    (fits : StackFits scope ledger (.result dice :: below))
    (free : ∀ pending ∈ below, pending.term? ≠ some dice.tag.id) : scope.single dice := by
  cases below with
  | nil => exact fits.2.1.elim
  | cons pending rest =>
    have rolls : pending.Rolls dice := fits.2.1
    cases rolls with
    | dice number faces left => exact (free _ List.mem_cons_self rfl).elim
    | modifier outcomes =>
      rcases fits.2.2.modifier_holds with ⟨owner, member, holds⟩
      exact (free owner (List.mem_cons_of_mem _ member) holds).elim
    | single => exact fits.2.2.1.2

end

namespace Board

variable {board later : Board} {dice : Dice}

/-- Nobody is in the middle of the evaluation of what has been evaluated. -/
theorem Exclusive.free (exclusive : board.Exclusive) {id : Identity}
    (done : (board.progress.ledger.term id).phase = .evaluated) {stack : List Pending}
    (member : stack ∈ board.lanes) : ∀ pending ∈ stack, pending.term? ≠ some id := by
  intro pending inside holds
  have held : id ∈ board.held Pending.term? :=
    List.mem_filterMap.2 ⟨pending, List.mem_flatten.2 ⟨stack, member, inside⟩, holds⟩
  cases (exclusive.terms.evaluating id held).symm.trans done

section

variable (sound : scope.IsSound) (stands : board.Stands scope) (move : Move scope board later)
  (known : scope.term (.dice dice))
  (done : (board.progress.ledger.term dice.tag.id).phase = .evaluated)
include sound stands move known done

/-- Once dice have been evaluated, a move adds a result only if they are rolled by
themselves or were asked for in advance. -/
theorem Move.results_of_evaluated :
    later.progress.ledger.outcomes dice.tag.id = board.progress.ledger.outcomes dice.tag.id ∨
      (scope.single dice ∨ board.progress.Early (·.tag.id = dice.tag.id)) ∧
        ∃ value, later.progress.ledger.outcomes dice.tag.id =
          board.progress.ledger.outcomes dice.tag.id ++ [{ value := value }] := by
  have elsewhere {id : Identity} {outcomes : List Outcome}
      (sets : board.progress.ledger.Sets later.progress.ledger id outcomes)
      (other : id ≠ dice.tag.id) : later.progress.ledger.outcomes dice.tag.id =
        board.progress.ledger.outcomes dice.tag.id := (sets _).trans (if_neg other)
  cases move.records with
  | nothing same => exact .inl (congrFun same _)
  | @handed id descriptor value member early accepted sets =>
    by_cases here : descriptor.dice.tag.id = dice.tag.id
    · refine .inr ⟨.inr ⟨id, descriptor, member, early, here⟩, value, ?_⟩
      exact (sets _).trans ((if_pos here).trans (by rw [here]))
    · exact .inl (elsewhere sets here)
  | @task stack member recording =>
    have fits := stands.fits stack member
    have free := stands.exclusive.free done member
    cases recording with
    | nothing same => exact .inl (congrFun same _)
    | @result rolled below value top gives sets =>
      subst top
      by_cases here : rolled.tag.id = dice.tag.id
      · cases sound.once (.dice rolled) (.dice dice) fits.1.1 known here
        have alone := fits.single_of_result (List.forall_mem_cons.1 free).2
        exact .inr ⟨.inl alone, value, (sets _).trans (if_pos rfl)⟩
      · exact .inl (elsewhere sets here)
    | total top sets =>
      subst top
      exact .inl (elsewhere sets fun here => free _ List.mem_cons_self (congrArg some here))
    | changed top become sets =>
      subst top
      rcases fits.modifier_holds with ⟨owner, inside, holds⟩
      refine .inl (elsewhere sets fun here => ?_)
      exact free owner (List.mem_cons_of_mem _ inside) (holds.trans (congrArg some here))
    | undone among allowed lenient sets tells =>
      subst among
      rcases fits.of_append.modifier_holds with ⟨owner, inside, holds⟩
      refine .inl (elsewhere sets fun here => ?_)
      exact free owner (List.mem_append_right _ (List.mem_cons_of_mem _ inside))
        (holds.trans (congrArg some here))

omit known in
/-- Dice that have been evaluated are not asked for in advance any more. -/
theorem Move.early_of_evaluated (early : later.progress.Early (·.tag.id = dice.tag.id)) :
    board.progress.Early (·.tag.id = dice.tag.id) := by
  rcases move.early sound stands early with before | ⟨asked, within, same, unfinished⟩
  · exact before
  · exact absurd (same ▸ done) unfinished

end

/-- What has become of evaluated dice. -/
structure Final (scope : Scope) (dice : Dice) (before after : Progress) : Prop where
  evaluated : (after.ledger.term dice.tag.id).phase = .evaluated
  appended : before.ledger.outcomes dice.tag.id <+: after.ledger.outcomes dice.tag.id
  same : ¬scope.single dice → ¬before.Early (·.tag.id = dice.tag.id) →
    after.ledger.outcomes dice.tag.id = before.ledger.outcomes dice.tag.id ∧
      ¬after.Early (·.tag.id = dice.tag.id)

/-- So evaluated dice keep their results, whatever comes of the board. -/
theorem Moves.final (sound : scope.IsSound) (stands : board.Stands scope)
    (known : scope.term (.dice dice))
    (done : (board.progress.ledger.term dice.tag.id).phase = .evaluated)
    (moves : Moves scope board later) : Final scope dice board.progress later.progress := by
  induction moves with
  | refl => exact ⟨done, List.prefix_refl _, fun _ none => ⟨rfl, none⟩⟩
  | @tail between last before move ih =>
    have there : between.Stands scope := Moves.stands sound before stands
    refine ⟨(move.lasts there.exclusive).term _ ih.evaluated, ?_, fun alone none => ?_⟩
    · rcases move.results_of_evaluated sound there known ih.evaluated with same | ⟨_, value, more⟩
      · exact same ▸ ih.appended
      · rw [more]
        exact ih.appended.trans (List.prefix_append _ _)
    · rcases ih.same alone none with ⟨same, still⟩
      refine ⟨?_, fun early => still (move.early_of_evaluated sound there ih.evaluated early)⟩
      rcases move.results_of_evaluated sound there known ih.evaluated with
        unchanged | ⟨reason, _⟩
      · exact unchanged.trans same
      · exact (reason.elim alone still).elim

end Board

/-! ## Rolls -/

/-- The total of dice depends on their results only. -/
theorem Ledger.total_dice {before after : Ledger} {dice : Dice}
    (done : (before.term dice.tag.id).phase = .evaluated)
    (still : (after.term dice.tag.id).phase = .evaluated)
    (same : after.outcomes dice.tag.id = before.outcomes dice.tag.id) :
    after.total (.dice dice) = before.total (.dice dice) := by
  have evaluated : after.isEvaluated (.dice dice) = before.isEvaluated (.dice dice) :=
    congrArg (· == Phase.evaluated) (still.trans done.symm)
  have sum : after.totalOf (.dice dice) = before.totalOf (.dice dice) := congrArg Outcome.total same
  unfold total
  rw [evaluated, sum]

/-- Whatever is done with a roll, its terms and resolvers on it, and in whatever order:
once dice of the roll have been evaluated they stay evaluated, and the results that they
have then stay as they are.  Their results and their total do not change any more, unless
the dice may be rolled by themselves or a resolver waits for values of them that it was
asked for in advance. -/
theorem Build.final_of_evaluated {setup : Setup} {input : Build.RollInput} {before made : Ledger}
    {roll : Roll} (built : Build.ofFormula setup input before = .ok (roll, made))
    {contexts : Context → Prop} {singles : Dice → Prop} {schedule later : Schedule}
    (begins : Schedule.Turns (roll.scope contexts singles) (.ofProgress (.ofLedger made)) schedule)
    {dice : Dice} (member : dice ∈ roll.dice)
    (done : schedule.progress.ledger.isEvaluated (.dice dice) = true)
    (goes : Schedule.Turns (roll.scope contexts singles) schedule later) :
    later.progress.ledger.isEvaluated (.dice dice) = true ∧
    schedule.progress.ledger.outcomes dice.tag.id <+: later.progress.ledger.outcomes dice.tag.id ∧
    (¬singles dice → ¬schedule.progress.Early (·.tag.id = dice.tag.id) →
      later.progress.ledger.outcomes dice.tag.id = schedule.progress.ledger.outcomes dice.tag.id ∧
      later.progress.ledger.total (.dice dice) = schedule.progress.ledger.total (.dice dice)) := by
  have isMade := Build.ofFormula_isMade built
  rcases begins.moves (.ofProgress (.ofLedger made)) with ⟨board, moves, on⟩
  rcases goes.moves on with ⟨last, further, onward⟩
  have sound : (roll.scope contexts singles).IsSound := isMade.isSound
  have done : (schedule.progress.ledger.term dice.tag.id).phase = .evaluated := beq_iff_eq.1 done
  have final : Board.Final (roll.scope contexts singles) dice board.progress last.progress :=
    Board.Moves.final sound (Board.Moves.stands sound moves isMade.stands)
      (RollOf.mem_scope member) (on.progress ▸ done) further
  rw [on.progress, onward.progress] at final
  refine ⟨beq_iff_eq.2 final.evaluated, final.appended, fun alone none => ?_⟩
  have same := (final.same alone none).1
  exact ⟨same, Ledger.total_dice done final.evaluated same⟩

/-! ## Two rolls -/

namespace Schedule

/-- The evaluation of a roll that waits for what a resolver asks for. -/
def waitingFor (roll : Roll) (made : Ledger) : Schedule :=
  (ofProgress (.ofLedger made)).evaluate {}
    { setup := Build.usual, synchronous := false, uniform := fun _ => 0,
      resolver := some ⟨0, roll⟩ } roll

theorem turns_waitingFor (roll : Roll) (made : Ledger) (singles : Dice → Prop) :
    Turns (roll.scope (fun _ => True) singles) (.ofProgress (.ofLedger made))
      (waitingFor roll made) :=
  .single (.evaluate rfl (fun _ _ => trivial) trivial
    (Term.rowThroughout_of_partsFrom fun _ member => member)
    (fun _ own => Option.some.inj own ▸ rfl) _)

end Schedule

/-- An integer as such. -/
def Json.whole? : Json → Option Int
  | .number (.int n) => some n
  | _ => none

/-- What dice show, and what they amount to. -/
def Ledger.shown (ledger : Ledger) (dice : Dice) : List (Option Int) × Option Int :=
  ((ledger.outcomes dice.tag.id).map (·.value.whole?),
    (ledger.total (.dice dice)).toOption.bind Json.whole?)

namespace Schedule

/-- One die that is rolled outside. -/
def outsideDie : Except Fault (Roll × Ledger) :=
  Build.ofFormula Build.usual { formula := "1d6", method := .string "manual" } .empty

/-- A die that has been evaluated takes no other value any more. -/
theorem final_of_evaluated_of_die : ∃ roll made dice schedule later,
    outsideDie = .ok (roll, made) ∧ dice ∈ roll.dice ∧
    (waitingFor roll made).handIn ⟨0, roll⟩ (.string "manual") (.string "d6") (.ofNat 3) =
      .ok schedule ∧
    schedule.handIn ⟨0, roll⟩ (.string "manual") (.string "d6") (.ofNat 4) = .ok later ∧
    schedule.progress.ledger.shown dice = ([some 3], some 3) ∧
    later.progress.ledger.outcomes dice.tag.id = schedule.progress.ledger.outcomes dice.tag.id ∧
    later.progress.ledger.total (.dice dice) = schedule.progress.ledger.total (.dice dice) := by
  have computed : (do
      let start ← outsideDie
      let dice ← start.1.dice.head?.elim (.error Fault.wrongKind) .ok
      let schedule ← (waitingFor start.1 start.2).handIn ⟨0, start.1⟩ (.string "manual")
        (.string "d6") (.ofNat 3)
      let _ ← schedule.handIn ⟨0, start.1⟩ (.string "manual") (.string "d6") (.ofNat 4)
      return schedule.progress.ledger.isEvaluated (.dice dice) &&
        (schedule.progress.resolvers.rows.all (·.outstanding.isEmpty) &&
        schedule.progress.ledger.shown dice == ([some 3], some 3))).toOption = some true := by
    decide +kernel
  rcases result_bind (result_of_toOption computed) with ⟨⟨roll, made⟩, built, rest⟩
  rcases result_bind rest with ⟨dice, first, rest⟩
  rcases result_bind rest with ⟨schedule, handed, rest⟩
  rcases result_bind rest with ⟨later, handedToo, shown⟩
  rcases Bool.and_eq_true_iff.1 (Except.ok.inj shown) with ⟨done, shown⟩
  rcases Bool.and_eq_true_iff.1 shown with ⟨nothing, before⟩
  have member := mem_of_head first
  have own : (roll.scope (fun _ => True) fun _ => False).resolver ⟨0, roll⟩ := rfl
  have final := Build.final_of_evaluated built
    ((turns_waitingFor roll made _).trans (Turns.handIn own handed)) member done
    (Turns.handIn own handedToo)
  rcases final.2.2 not_false (Progress.Early.nowhere nothing) with ⟨same, total⟩
  exact ⟨roll, made, dice, schedule, later, built, member, handed, handedToo,
    beq_iff_eq.1 before, same, total⟩

/-- Two dice whose number is computed, which therefore are not asked for in advance. -/
def computedPair : Except Fault (Roll × Ledger) :=
  Build.ofFormula Build.usual { formula := "(1)d6 + (1)d6", method := .string "manual" } .empty

/-- While the evaluation of two dice waits for the first, that die is asked for once more.
It is evaluated as soon as it has one value, and still takes another one afterwards. -/
theorem results_of_evaluated_change : ∃ roll made dice between schedule later,
    computedPair = .ok (roll, made) ∧ dice ∈ roll.dice ∧
    (waitingFor roll made).addTerm ⟨0, roll⟩ dice = .ok between ∧
    between.handIn ⟨0, roll⟩ (.string "manual") (.string "d6") (.ofNat 3) = .ok schedule ∧
    schedule.handIn ⟨0, roll⟩ (.string "manual") (.string "d6") (.ofNat 4) = .ok later ∧
    Turns (roll.scope (fun _ => True) fun _ => False) (.ofProgress (.ofLedger made)) schedule ∧
    Turns (roll.scope (fun _ => True) fun _ => False) schedule later ∧
    schedule.progress.ledger.isEvaluated (.dice dice) = true ∧
    schedule.progress.ledger.shown dice = ([some 3], some 3) ∧
    later.progress.ledger.shown dice = ([some 3, some 4], some 7) := by
  have computed : (do
      let start ← computedPair
      let dice ← start.1.dice.head?.elim (.error Fault.wrongKind) .ok
      let between ← (waitingFor start.1 start.2).addTerm ⟨0, start.1⟩ dice
      let schedule ← between.handIn ⟨0, start.1⟩ (.string "manual") (.string "d6") (.ofNat 3)
      let later ← schedule.handIn ⟨0, start.1⟩ (.string "manual") (.string "d6") (.ofNat 4)
      return schedule.progress.ledger.isEvaluated (.dice dice) &&
        (schedule.progress.ledger.shown dice == ([some 3], some 3) &&
        later.progress.ledger.shown dice == ([some 3, some 4], some 7))).toOption = some true := by
    decide +kernel
  rcases result_bind (result_of_toOption computed) with ⟨⟨roll, made⟩, built, rest⟩
  rcases result_bind rest with ⟨dice, first, rest⟩
  rcases result_bind rest with ⟨between, asked, rest⟩
  rcases result_bind rest with ⟨schedule, handed, rest⟩
  rcases result_bind rest with ⟨later, handedToo, shown⟩
  rcases Bool.and_eq_true_iff.1 (Except.ok.inj shown) with ⟨done, shown⟩
  rcases Bool.and_eq_true_iff.1 shown with ⟨before, after⟩
  have member := mem_of_head first
  have own : (roll.scope (fun _ => True) fun _ => False).resolver ⟨0, roll⟩ := rfl
  have addition : Turns (roll.scope (fun _ => True) fun _ => False) (waitingFor roll made)
      between := .single (.addTerm own member asked)
  exact ⟨roll, made, dice, between, schedule, later, built, member, asked, handed, handedToo,
    (turns_waitingFor roll made _).trans (addition.trans (Turns.handIn own handed)),
    Turns.handIn own handedToo, done, beq_iff_eq.1 before, beq_iff_eq.1 after⟩

end Schedule

end DiceNotation
