import Mathlib.Data.List.Forall2
import DiceNotation.Dice.Counting
import DiceNotation.Evaluation.Modifiers

namespace DiceNotation

/-!
# Consistent outcomes

An outcome counts as long as it was neither discarded nor rolled again, and it is never
both.  Whether it is a success or a failure is decided only when it gets a count, and the
count is one, zero or minus one.  Every modifier keeps outcomes consistent, keeps their
values, and neither adds nor removes one; only rolling adds one at the end.
-/

namespace Outcome

/-- Whether the marks of an outcome fit together. -/
structure IsConsistent (outcome : Outcome) : Prop where
  active : outcome.active = .bool (!outcome.discarded.isSet && !outcome.rerolled.isSet)
  apart : ¬(outcome.discarded.isSet = true ∧ outcome.rerolled.isSet = true)
  count : outcome.count = .null ∨ outcome.count = .ofInt (-1) ∨ outcome.count = .ofInt 0 ∨
    outcome.count = .ofInt 1
  counted : outcome.success.isSet = true ∨ outcome.failure.isSet = true →
    outcome.isCounted = true

/-- What may become of an outcome: it keeps its value and stays consistent. -/
structure Becomes (before after : Outcome) : Prop where
  value : after.value = before.value
  consistent : before.IsConsistent → after.IsConsistent

variable {outcome changed : Outcome} {outcomes later : List Outcome}

theorem isConsistent_new (value : Json) : IsConsistent { value := value } where
  active := rfl
  apart := by simp [Json.isSet]
  count := .inl rfl
  counted := by simp [Json.isSet]

theorem Becomes.refl (outcome : Outcome) : Becomes outcome outcome := ⟨rfl, id⟩

/-! ## Lists of outcomes -/

theorem values_of_become (become : List.Forall₂ Becomes outcomes later) :
    later.map (·.value) = outcomes.map (·.value) := by
  induction become with
  | nil => rfl
  | cons here _ ih => rw [List.map_cons, List.map_cons, here.value, ih]

theorem consistent_of_become (become : List.Forall₂ Becomes outcomes later)
    (consistent : ∀ outcome ∈ outcomes, outcome.IsConsistent) :
    ∀ outcome ∈ later, outcome.IsConsistent := by
  induction become with
  | nil => exact consistent
  | cons here _ ih =>
    rcases List.forall_mem_cons.1 consistent with ⟨first, rest⟩
    exact List.forall_mem_cons.2 ⟨here.consistent first, ih rest⟩

theorem become_refl (outcomes : List Outcome) : List.Forall₂ Becomes outcomes outcomes :=
  List.forall₂_same.2 fun outcome _ => .refl outcome

/-- A change of the active outcomes reaches them one by one. -/
theorem become_mapActive {change : Outcome → Except Fault Outcome}
    (each : ∀ outcome changed, change outcome = .ok changed → outcome.Becomes changed)
    (outcomes : List Outcome) : List.Forall₂ Becomes outcomes (mapActive change outcomes).1 := by
  induction outcomes with
  | nil => exact .nil
  | cons outcome rest ih =>
    unfold mapActive
    split
    · split
      · exact .cons (.refl outcome) (become_refl rest)
      · rename_i changed done
        exact .cons (each outcome changed done) ih
    · exact .cons (.refl outcome) ih

/-! ## What modifiers make of an outcome -/

theorem oneIf_cases (counted : Bool) :
    oneIf counted = .ofInt 0 ∨ oneIf counted = .ofInt 1 := by
  cases counted
  · exact .inl rfl
  · exact .inr rfl

theorem isCounted_oneIf {counted : Bool} (is : outcome.count = oneIf counted) :
    outcome.isCounted = true := by
  unfold isCounted
  rw [is]
  cases counted <;> rfl

/-- An outcome that is counted anew is consistent whatever is said of it. -/
theorem IsConsistent.counting (consistent : outcome.IsConsistent)
    (active : changed.active = outcome.active) (discarded : changed.discarded = outcome.discarded)
    (rerolled : changed.rerolled = outcome.rerolled)
    (count : changed.count = .ofInt (-1) ∨ ∃ counted, changed.count = oneIf counted) :
    changed.IsConsistent where
  active := by rw [active, discarded, rerolled, consistent.active]
  apart := by
    rw [discarded, rerolled]
    exact consistent.apart
  count := by
    rcases count with minus | ⟨counted, is⟩
    · exact .inr (.inl minus)
    · rw [is]
      exact .inr (.inr (oneIf_cases counted))
  counted _ := by
    rcases count with minus | ⟨counted, is⟩
    · unfold isCounted
      rw [minus]
      rfl
    · exact isCounted_oneIf is

theorem becomes_markSuccess {test : Json → Except Fault Bool}
    (marked : outcome.markSuccess test = .ok changed) : outcome.Becomes changed := by
  unfold markSuccess at marked
  cases tested : test outcome.value with
  | error fault =>
    rw [tested] at marked
    cases marked
  | ok passed =>
    rw [tested] at marked
    cases marked
    exact ⟨rfl, fun consistent => consistent.counting rfl rfl rfl (.inr ⟨passed, rfl⟩)⟩

theorem becomes_markFailure {test : Json → Except Fault Bool}
    (marked : outcome.markFailure test = .ok changed) : outcome.Becomes changed := by
  unfold markFailure at marked
  cases tested : test outcome.value with
  | error fault =>
    rw [tested] at marked
    cases marked
  | ok passed =>
    rw [tested] at marked
    cases marked
    exact ⟨rfl, fun consistent => consistent.counting rfl rfl rfl (.inr ⟨passed, rfl⟩)⟩

theorem becomes_deduct (outcome : Outcome) : outcome.Becomes outcome.deduct :=
  ⟨rfl, fun consistent => consistent.counting rfl rfl rfl (.inl rfl)⟩

theorem becomes_deductIf {test : Json → Except Fault Bool}
    (marked : outcome.deductIf test = .ok changed) : outcome.Becomes changed := by
  unfold deductIf at marked
  cases tested : test outcome.value with
  | error fault =>
    rw [tested] at marked
    cases marked
  | ok passed =>
    rw [tested] at marked
    cases marked
    cases passed
    · exact .refl outcome
    · exact becomes_deduct outcome

theorem becomes_deductUnsuccessful (outcome : Outcome) :
    outcome.Becomes outcome.deductUnsuccessful := by
  unfold deductUnsuccessful
  split
  · exact becomes_deduct outcome
  · exact .refl outcome

/-- An outcome that counts was neither discarded nor rolled again. -/
theorem IsConsistent.of_isActive (consistent : outcome.IsConsistent)
    (active : outcome.isActive = true) :
    outcome.discarded.isSet = false ∧ outcome.rerolled.isSet = false := by
  unfold isActive at active
  rw [consistent.active] at active
  change (!outcome.discarded.isSet && !outcome.rerolled.isSet) = true at active
  rcases Bool.and_eq_true_iff.1 active with ⟨discarded, rerolled⟩
  exact ⟨Bool.not_eq_eq_eq_not.1 discarded, Bool.not_eq_eq_eq_not.1 rerolled⟩

/-- Only an outcome that counts is discarded. -/
theorem becomes_discard (active : outcome.isActive = true) : outcome.Becomes outcome.discard where
  value := rfl
  consistent consistent :=
    { active := rfl
      apart := fun both => by
        have kept := (consistent.of_isActive active).2
        exact Bool.false_ne_true (kept.symm.trans both.2)
      count := consistent.count
      counted := consistent.counted }

end Outcome

/-- Only an outcome that counts is marked by a chain. -/
theorem Context.Chain.becomes_mark (chain : Context.Chain) {outcome : Outcome}
    (active : outcome.isActive = true) : outcome.Becomes (chain.mark outcome) := by
  unfold mark
  split
  · exact ⟨rfl, fun consistent =>
      ⟨consistent.active, consistent.apart, consistent.count, consistent.counted⟩⟩
  · refine ⟨rfl, fun consistent => ⟨?_, ?_, consistent.count, consistent.counted⟩⟩
    · rw [(consistent.of_isActive active).1]
      rfl
    · rintro ⟨discarded, _⟩
      exact Bool.false_ne_true ((consistent.of_isActive active).1.symm.trans discarded)

theorem Context.Chain.become_modify (chain : Context.Chain) {outcomes : List Outcome}
    {position : Nat} {outcome : Outcome} (found : outcomes[position]? = some outcome)
    (active : outcome.isActive = true) :
    List.Forall₂ Outcome.Becomes outcomes (outcomes.modify position chain.mark) := by
  induction outcomes generalizing position with
  | nil => cases found
  | cons first rest ih =>
    cases position with
    | zero =>
      cases found
      exact .cons (chain.becomes_mark active) (Outcome.become_refl rest)
    | succ position => exact .cons (.refl first) (ih found)

theorem Selection.become_discardFrom (selection : Selection) (chosen : List Int) (position : Int)
    (outcomes : List Outcome) :
    List.Forall₂ Outcome.Becomes outcomes (selection.discardFrom chosen position outcomes) := by
  induction outcomes generalizing position with
  | nil => exact .nil
  | cons outcome rest ih =>
    unfold discardFrom
    refine .cons ?_ (ih (position + 1))
    split
    · rename_i discarded
      exact Outcome.becomes_discard (Bool.and_eq_true_iff.1 discarded).1
    · exact .refl outcome

/-! ## What modifiers make of all outcomes -/

namespace Tally

variable (tally : Tally) (command : Command) (formula : String)

/-- What a change leaves of a tally. -/
abbrev Becomes (change : Change) : Prop :=
  List.Forall₂ Outcome.Becomes tally.outcomes change.1.outcomes

theorem becomes_unchanged (fault : Fault) : tally.Becomes (tally.unchanged fault) :=
  Outcome.become_refl _

theorem becomes_mapActive {change : Outcome → Except Fault Outcome}
    (each : ∀ outcome changed, change outcome = .ok changed → outcome.Becomes changed) :
    tally.Becomes (tally.mapActive change) :=
  Outcome.become_mapActive each tally.outcomes

theorem becomes_countSuccesses (test : Json → Except Fault Bool) :
    tally.Becomes (tally.countSuccesses test) := by
  have counted : tally.Becomes (tally.mapActive (Outcome.markSuccess test)) :=
    tally.becomes_mapActive fun _ _ => Outcome.becomes_markSuccess
  unfold countSuccesses
  split
  · rename_i given is
    rw [is] at counted
    exact counted
  · exact counted

theorem becomes_comparing {next : (Json → Except Fault Bool) → Change}
    (becomes : ∀ test, tally.Becomes (next test)) :
    tally.Becomes (tally.comparing command formula next) := by
  unfold comparing
  split
  · exact tally.becomes_unchanged _
  · exact becomes _

theorem becomes_deductFailures : tally.Becomes (tally.deductFailures command formula) := by
  unfold deductFailures
  split
  · refine tally.becomes_mapActive fun outcome changed done => ?_
    cases done
    exact outcome.becomes_deductUnsuccessful
  · exact tally.becomes_comparing command formula fun test =>
      tally.becomes_mapActive fun _ _ => Outcome.becomes_deductIf

theorem becomes_select (keep highest : Bool) :
    tally.Becomes (tally.select command formula keep highest) := by
  unfold select
  split
  · exact tally.becomes_unchanged _
  · split
    · exact tally.becomes_unchanged _
    · rename_i number _ _ outcomes applied
      unfold Selection.apply at applied
      cases chosen : Selection.chosen ⟨.int number, keep, highest⟩ tally.outcomes with
      | error fault =>
        rw [chosen] at applied
        cases applied
      | ok positions =>
        rw [chosen] at applied
        cases applied
        exact Selection.become_discardFrom _ positions 0 tally.outcomes

theorem becomes_countParity (odd : Bool) :
    tally.Becomes (tally.countParity command formula odd) := by
  unfold countParity
  split
  · exact Outcome.become_refl _
  · split
    · exact Outcome.become_refl _
    · exact tally.becomes_countSuccesses _

theorem becomes_call : tally.Becomes (tally.call command formula) := by
  unfold call
  split
  · exact Outcome.become_refl _
  · simp only
    split
    · exact tally.becomes_countSuccesses _
    · exact Outcome.become_refl _

/-- Whatever a modifier does that rolls nothing, outcomes keep their values and stay
consistent. -/
theorem becomes_carryOut (action : Action) :
    tally.Becomes (tally.carryOut action command formula) := by
  cases action with
  | keep => exact tally.becomes_select command formula _ _
  | drop => exact tally.becomes_select command formula _ _
  | countSuccesses =>
    exact tally.becomes_comparing command formula tally.becomes_countSuccesses
  | countFailures =>
    change tally.Becomes (if tally.counting then _ else _)
    split
    · exact tally.becomes_deductFailures command formula
    · exact tally.becomes_comparing command formula fun test =>
        tally.becomes_mapActive fun _ _ => Outcome.becomes_markFailure
  | deductFailures => exact tally.becomes_deductFailures command formula
  | countParity odd => exact tally.becomes_countParity command formula odd
  | call => exact tally.becomes_call command formula
  | reroll once => exact Outcome.become_refl _
  | explode once => exact Outcome.become_refl _

end Tally
end DiceNotation
