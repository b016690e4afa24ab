import DiceNotation.Proofs.Evaluation.Intrinsic
import Mathlib.Algebra.Ring.Int.Defs

namespace DiceNotation

/-!
# Scores

A modifier that counts gives each active outcome what it counts for, and a failure that is paired
with a success count changes some of these counts again.  What an active outcome counts for in the
end depends only on its value.  So the total of the outcomes is a difference of two numbers of
active outcomes, whatever has become of them before they were counted.
-/

/-! ## Criteria -/

/-- What makes an outcome a success or a failure: how it compares with a target, or that it is odd
or even. -/
inductive Criterion where
  | compared (comparator : Comparator) (target : Int)
  | parity (odd : Bool)

namespace Criterion

/-- Puts a value to the test.  What is of the wrong kind for that is refused. -/
def test : Criterion → Json → Except Fault Bool
  | compared comparator target, value => comparator.holds value (.ofInt target)
  | parity odd, value => value.leavesModTwo (if odd then 1 else 0)

/-- Whether an outcome has a value that passes the test. -/
def passes (criterion : Criterion) (outcome : Outcome) : Bool :=
  match criterion.test outcome.value with
  | .ok passed => passed
  | .error _ => false

theorem mismatched_test (criterion : Criterion) (value : Json) :
    Mismatched (criterion.test value) := by
  cases criterion with
  | compared comparator target => exact comparator.mismatched_holds value _
  | parity odd => exact Json.mismatched_leavesModTwo _ value

theorem passes_of_test {criterion : Criterion} {outcome : Outcome} {passed : Bool}
    (tested : criterion.test outcome.value = .ok passed) : criterion.passes outcome = passed := by
  rw [passes, tested]

/-- A command that counts successes. -/
inductive IsSuccess (command : Command) : Action → Criterion → Prop
  | compared {target : Int} (aimed : command.target = some target) :
    IsSuccess command .countSuccesses (.compared (command.comparator.getD .equal) target)
  | parity {odd : Bool} (plain : command.comparator = none) (unaimed : command.target = none) :
    IsSuccess command (.countParity odd) (.parity odd)

/-- A command that counts failures, with a comparison or without one. -/
inductive IsFailure (command : Command) : Action → Option Criterion → Prop
  | compared {action : Action} (paired : action ∈ [.countFailures, .deductFailures]) {target : Int}
    (aimed : command.target = some target) :
    IsFailure command action (some (.compared (command.comparator.getD .equal) target))
  | bare {action : Action} (paired : action ∈ [.countFailures, .deductFailures])
    (unaimed : command.target = none) : IsFailure command action none

end Criterion

/-! ## Points -/

/-- How outcomes are counted. -/
inductive Scoring where
  /-- A success is worth one. -/
  | successes (success : Criterion)
  /-- A failure takes one away, and another success is worth one. -/
  | paired (success failure : Criterion)
  /-- A success is worth one, and anything else takes one away. -/
  | balanced (success : Criterion)
  /-- A failure is worth one. -/
  | failures (failure : Criterion)

namespace Scoring

/-- The score of outcomes: how many of the active ones are successes, or failures, or how many more
there are of the ones than of the others. -/
def score (scoring : Scoring) (outcomes : List Outcome) : Int :=
  let active := outcomes.filter Outcome.isActive
  match scoring with
  | successes success => active.countP success.passes
  | paired success failure =>
    active.countP (fun outcome => success.passes outcome && !failure.passes outcome) -
      active.countP failure.passes
  | balanced success =>
    active.countP success.passes - active.countP fun outcome => !success.passes outcome
  | failures failure => active.countP failure.passes

/-- What an outcome counts for. -/
def points (scoring : Scoring) (outcome : Outcome) : Int :=
  match scoring with
  | successes success => if success.passes outcome then 1 else 0
  | paired success failure =>
    if failure.passes outcome then -1 else if success.passes outcome then 1 else 0
  | balanced success => if success.passes outcome then 1 else -1
  | failures failure => if failure.passes outcome then 1 else 0

/-- The score is the sum of the points. -/
theorem sum_points (scoring : Scoring) (outcomes : List Outcome) :
    ((outcomes.filter Outcome.isActive).map scoring.points).sum = scoring.score outcomes := by
  unfold score
  induction outcomes.filter Outcome.isActive with
  | nil => cases scoring <;> rfl
  | cons outcome rest ih =>
    rw [List.map_cons, List.sum_cons, ih]
    cases scoring with
    | successes success =>
      cases hit : success.passes outcome with
      | false => simp [points, hit]
      | true =>
        simp only [points, hit, if_true, List.countP_cons_of_pos]
        omega
    | paired success failure =>
      cases hit : success.passes outcome <;> cases missed : failure.passes outcome <;>
        simp [points, hit, missed] <;> omega
    | balanced success =>
      cases hit : success.passes outcome <;> simp [points, hit] <;> omega
    | failures failure =>
      cases hit : failure.passes outcome with
      | false => simp [points, hit]
      | true =>
        simp only [points, hit, if_true, List.countP_cons_of_pos]
        omega

/-- Whether each active outcome counts for its points. -/
def IsSettled (scoring : Scoring) (outcomes : List Outcome) : Prop :=
  ∀ outcome ∈ outcomes, outcome.isActive = true → outcome.count = .ofInt (scoring.points outcome)

end Scoring

/-- The sum of integers is computed without a fault. -/
theorem Json.total_map_ofInt (integers : List Int) :
    Json.total (integers.map .ofInt) = .ok (.ofInt integers.sum) := by
  have adding (start : Int) :
      (integers.map Json.ofInt).foldlM Json.add (.ofInt start) =
        (.ok (.ofInt (start + integers.sum)) : Except Fault Json) := by
    induction integers generalizing start with
    | nil => exact congrArg (fun sum => Except.ok (Json.ofInt sum)) (Int.add_zero start).symm
    | cons first rest ih =>
      rw [List.map_cons, List.foldlM_cons, Json.add_int, List.sum_cons, ← Int.add_assoc]
      exact ih (start + first)
  exact (adding 0).trans (congrArg (fun sum => Except.ok (Json.ofInt sum)) (Int.zero_add _))

theorem Outcome.worth_of_count {outcome : Outcome} {n : Int} (counted : outcome.count = .ofInt n) :
    outcome.worth = .ofInt n := by
  have isCounted : outcome.isCounted = true := by
    rw [isCounted, counted]
    rfl
  rw [worth, isCounted, if_pos rfl, counted]

/-- Outcomes that count for their points amount to the score. -/
theorem Scoring.IsSettled.total {scoring : Scoring} {outcomes : List Outcome}
    (settled : scoring.IsSettled outcomes) :
    Outcome.total outcomes = .ok (.ofInt (scoring.score outcomes)) := by
  have worths : (outcomes.filter Outcome.isActive).map Outcome.worth =
      ((outcomes.filter Outcome.isActive).map scoring.points).map .ofInt := by
    rw [List.map_map]
    refine List.map_congr_left fun outcome member => ?_
    rcases List.mem_filter.1 member with ⟨listed, active⟩
    exact Outcome.worth_of_count (settled outcome listed active)
  rw [Outcome.total, worths, Json.total_map_ofInt, scoring.sum_points]

/-! ## Counting -/

/-- What holds of the changed outcomes holds of the active ones in the end, if all could be
changed. -/
theorem Outcome.active_of_mapActive {change : Outcome → Except Fault Outcome} {P Q : Outcome → Prop}
    (each : ∀ outcome changed, P outcome → change outcome = .ok changed → Q changed)
    {outcomes : List Outcome} (before : ∀ outcome ∈ outcomes, outcome.isActive = true → P outcome)
    (succeeds : (mapActive change outcomes).2 = .ok ()) :
    ∀ outcome ∈ (mapActive change outcomes).1, outcome.isActive = true → Q outcome := by
  induction outcomes with
  | nil => exact nofun
  | cons first rest ih =>
    rcases List.forall_mem_cons.1 before with ⟨here, later⟩
    unfold mapActive at succeeds ⊢
    cases active : first.isActive with
    | false =>
      rw [active] at succeeds
      refine List.forall_mem_cons.2 ⟨fun still => ?_, ih later succeeds⟩
      rw [active] at still
      cases still
    | true =>
      rw [active] at succeeds
      cases done : change first with
      | error fault =>
        rw [done] at succeeds
        cases succeeds
      | ok changed =>
        rw [done] at succeeds
        exact List.forall_mem_cons.2 ⟨fun _ => each first changed (here active) done,
          ih later succeeds⟩

namespace Tally

variable {tally : Tally}

/-- Whether each active outcome is marked and counted as a success or not. -/
def Marks (success : Criterion) (tally : Tally) : Prop :=
  ∀ outcome ∈ tally.outcomes, outcome.isActive = true →
    outcome.success = .bool (success.passes outcome) ∧
      outcome.count = Outcome.oneIf (success.passes outcome)

theorem Marks.settled {success : Criterion} (marks : tally.Marks success) :
    (Scoring.successes success).IsSettled tally.outcomes := by
  intro outcome member active
  rw [(marks outcome member active).2, Scoring.points]
  cases success.passes outcome <;> rfl

theorem active_of_mapActive {change : Outcome → Except Fault Outcome} {P Q : Outcome → Prop}
    (each : ∀ outcome changed, P outcome → change outcome = .ok changed → Q changed)
    (before : ∀ outcome ∈ tally.outcomes, outcome.isActive = true → P outcome) {after : Tally}
    (changes : tally.mapActive change = (after, .ok ())) :
    ∀ outcome ∈ after.outcomes, outcome.isActive = true → Q outcome := by
  have changed : (tally.mapActive change).1.outcomes = after.outcomes :=
    congrArg (fun pair => pair.1.outcomes) changes
  rw [← changed]
  exact Outcome.active_of_mapActive each before (congrArg Prod.snd changes)

/-- What is tested is passed or not. -/
theorem tested_of_map {criterion : Criterion} {outcome changed : Outcome} {change : Bool → Outcome}
    (done : (criterion.test outcome.value).map change = .ok changed) :
    changed = change (criterion.passes outcome) := by
  cases tested : criterion.test outcome.value with
  | error fault =>
    rw [tested] at done
    cases done
  | ok passed =>
    rw [tested] at done
    rw [Criterion.passes_of_test tested]
    exact (Except.ok.inj done).symm

/-- A success count marks every active outcome, and is remembered. -/
theorem countSuccesses_marks {success : Criterion} {after : Tally}
    (counted : tally.countSuccesses success.test = (after, .ok ())) :
    after.counting = true ∧ after.Marks success := by
  unfold countSuccesses at counted
  split at counted
  · rename_i marked done
    have marks : marked.Marks success := by
      refine active_of_mapActive (P := fun _ => True) (fun outcome changed _ marks => ?_)
        (fun _ _ _ => trivial) done
      rw [tested_of_map marks]
      exact ⟨rfl, rfl⟩
    cases counted
    exact ⟨rfl, marks⟩
  · rename_i refused
    exact absurd counted (refused after)

/-- A failure count is done for every active outcome. -/
theorem markFailure_settled {failure : Criterion} {after : Tally}
    (counted : tally.mapActive (Outcome.markFailure failure.test) = (after, .ok ())) :
    (Scoring.failures failure).IsSettled after.outcomes := by
  refine active_of_mapActive (P := fun _ => True) (fun outcome changed _ marks => ?_)
    (fun _ _ _ => trivial) counted
  rw [tested_of_map marks]
  change Outcome.oneIf (failure.passes outcome) = .ofInt (if failure.passes outcome then 1 else 0)
  cases failure.passes outcome <;> rfl

/-- Failures take one away from what is marked, and leave the rest as it is counted. -/
theorem deductIf_settled {success failure : Criterion} (marks : tally.Marks success) {after : Tally}
    (counted : tally.mapActive (Outcome.deductIf failure.test) = (after, .ok ())) :
    (Scoring.paired success failure).IsSettled after.outcomes := by
  refine active_of_mapActive (fun outcome changed marked deducted => ?_) marks counted
  rw [tested_of_map deducted]
  cases missed : failure.passes outcome with
  | true =>
    have still : failure.passes outcome.deduct = true := missed
    rw [if_pos rfl, Scoring.points, if_pos still]
    rfl
  | false =>
    rw [if_neg Bool.false_ne_true, Scoring.points, if_neg (missed ▸ Bool.false_ne_true), marked.2]
    cases success.passes outcome <;> rfl

/-- What is marked and no success takes one away. -/
theorem deductUnsuccessful_settled {success : Criterion} (marks : tally.Marks success)
    {after : Tally}
    (counted : tally.mapActive (fun outcome => .ok outcome.deductUnsuccessful) =
      (after, .ok ())) :
    (Scoring.balanced success).IsSettled after.outcomes := by
  refine active_of_mapActive (fun outcome changed marked deducted => ?_) marks counted
  cases deducted
  have isCounted : outcome.isCounted = true := by
    rw [Outcome.isCounted, marked.2]
    rfl
  cases hit : success.passes outcome with
  | true =>
    have kept : outcome.deductUnsuccessful = outcome := by
      rw [Outcome.deductUnsuccessful, isCounted, marked.1, hit]
      rfl
    rw [kept, Scoring.points, hit, marked.2, hit]
    rfl
  | false =>
    have deducted : outcome.deductUnsuccessful = outcome.deduct := by
      rw [Outcome.deductUnsuccessful, isCounted, marked.1, hit]
      rfl
    have still : ¬ success.passes outcome.deduct = true := by
      change ¬ success.passes outcome = true
      rw [hit]
      exact Bool.false_ne_true
    rw [deducted, Scoring.points, if_neg still]
    rfl

/-! ## Commands that count -/

section

variable {command : Command} {action : Action} {formula : String}

theorem comparing_of_target {target : Int} (aimed : command.target = some target)
    (next : (Json → Except Fault Bool) → Change) :
    tally.comparing command formula next =
      next (Criterion.compared (command.comparator.getD .equal) target).test := by
  unfold comparing Command.comparison
  rw [aimed]
  rfl

theorem carryOut_success {success : Criterion} (counts : success.IsSuccess command action) :
    tally.carryOut action command formula = tally.countSuccesses success.test := by
  cases counts with
  | compared aimed => exact comparing_of_target aimed tally.countSuccesses
  | parity plain unaimed =>
    change tally.countParity command formula _ = _
    unfold countParity
    rw [plain, unaimed]
    rfl

/-- A failure that is paired with a success count is deducted, by whichever code. -/
theorem carryOut_paired (paired : action ∈ [.countFailures, .deductFailures])
    (counting : tally.counting = true) :
    tally.carryOut action command formula = tally.deductFailures command formula := by
  rcases List.mem_cons.1 paired with rfl | other
  · exact if_pos counting
  · rw [List.mem_singleton.1 other]
    rfl

theorem carryOut_compared {failure : Criterion}
    (counts : Criterion.IsFailure command action (some failure)) (counting : tally.counting = true) :
    tally.carryOut action command formula = tally.mapActive (Outcome.deductIf failure.test) := by
  cases counts with
  | compared paired aimed =>
    rw [carryOut_paired paired counting, deductFailures, aimed]
    exact comparing_of_target aimed fun test => tally.mapActive (Outcome.deductIf test)

theorem carryOut_bare (counts : Criterion.IsFailure command action none)
    (counting : tally.counting = true) :
    tally.carryOut action command formula =
      tally.mapActive fun outcome => .ok outcome.deductUnsuccessful := by
  cases counts with
  | bare paired unaimed => rw [carryOut_paired paired counting, deductFailures, unaimed]

/-- Failures alone are counted where no successes have been. -/
theorem carryOut_alone {target : Int} (aimed : command.target = some target)
    (alone : tally.counting = false) :
    tally.carryOut .countFailures command formula = tally.mapActive (Outcome.markFailure
      (Criterion.compared (command.comparator.getD .equal) target).test) := by
  change (if tally.counting then _ else _) = _
  rw [alone]
  exact comparing_of_target aimed fun test => tally.mapActive (Outcome.markFailure test)

end

end Tally
end DiceNotation
