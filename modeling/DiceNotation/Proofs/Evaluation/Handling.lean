import DiceNotation.Proofs.Evaluation.Attempts
import DiceNotation.Proofs.Evaluation.Settled

namespace DiceNotation

/-!
# Handling a roll

While attempts are made to evaluate a roll, others go on as well.  They may hand in
values for the dice of the roll until its evaluation begins; from then on they leave
the roll alone.  A roll that is handled in this way is at any time in one of three
stages: nothing in it has been evaluated, or it is being evaluated, or everything in
it is settled.  The first pass of a resolver leaves it in the first stage.  After that,
an attempt that fails or that waits leaves it in the second one.
-/

/-- What others may do while a roll is handled whose identities are in a range. -/
structure Progress.Elsewhere (roll : Roll) (first stop : Nat) (before after : Progress) : Prop where
  moved : before.Moved after
  /-- Others begin no evaluation of the roll or of what is in it. -/
  waits : before.ledger.Waits first stop → after.ledger.Waits first stop
  same : (before.ledger.roll roll.id).phase ≠ .unevaluated →
    Ledger.SameOn before.ledger after.ledger first stop

/-- How far a roll has come whose identities are in a range. -/
inductive RollOf.Stage (roll : Roll) (first stop : Nat) (ledger : Ledger) : Prop
  | waiting (waits : ledger.Waits first stop)
  | begun (phase : (ledger.roll roll.id).phase = .evaluating)
  | ended (settled : roll.Settled ledger)

/-! ## Runs while others go on -/

namespace Step

variable {α : Type} {others fewer : Progress → Progress → Prop}

/-- What others do may be narrowed down by what is known wherever the run waits. -/
theorem Reaches.narrow {inside : Identity → Prop} {start last : Progress}
    {step : Step α} {outcome : Option (Except Fault α)}
    (reaches : step.Reaches others outcome last)
    (keeps : step.Keeps (FrameRule.touched inside) start)
    (narrow : ∀ asked later, start.Touched inside asked → others asked later → fewer asked later)
    (kept : ∀ asked later, fewer asked later → asked.Touched inside later) :
    step.Reaches fewer outcome last := by
  induction reaches with
  | done result last => exact .done result last
  | waiting request asked resume => exact .waiting request asked resume
  | resumed meanwhile answer reaches ih =>
    have less := narrow _ _ keeps.1 meanwhile
    exact .resumed less answer (ih (keeps.2 answer _ (kept _ _ less)))

theorem Ends.of_reaches {others : Identity → Prop} {condition : α → Progress → Prop} {step : Step α}
    (ends : step.Ends others condition) {a : α} {last : Progress}
    (reaches : step.Reaches (Progress.Touched others) (some (.ok a)) last) :
    condition a last := by
  generalize given : some (Except.ok a : Except Fault α) = outcome at reaches
  induction reaches with
  | done result last =>
    cases given
    exact ends
  | waiting request asked resume => cases given
  | resumed meanwhile answer reaches ih => exact ih (ends answer _ meanwhile) given

/-- A run that is done stands where it was done. -/
theorem Reaches.of_done {result : Except Fault α} {progress last : Progress}
    {outcome : Option (Except Fault α)}
    (reaches : (Step.done result progress).Reaches others outcome last) :
    outcome = some result ∧ last = progress := by
  cases reaches
  exact ⟨rfl, rfl⟩

end Step

/-! ## Stages -/

/-- What is not in a range. -/
def Beyond (first stop : Nat) (id : Identity) : Prop := ¬Between first stop id

theorem apart_beyond (first stop : Nat) : Apart (Beyond first stop) first stop :=
  fun _ above below beyond => beyond ⟨above, below⟩

section

variable {roll : Roll} {first : Nat}

/-- Once the evaluation of a roll has begun, others touch nothing of it. -/
theorem Progress.Elsewhere.touched {stop : Nat} {before after : Progress}
    (elsewhere : Progress.Elsewhere roll first stop before after)
    (begun : (before.ledger.roll roll.id).phase = .evaluating) :
    before.Touched (Beyond first stop) after := by
  have same := elsewhere.same (by rw [begun]; exact nofun)
  refine ⟨elsewhere.moved.next_le, elsewhere.moved.method, ?_⟩
  intro id _ inside
  rcases Classical.not_not.1 inside with ⟨above, below⟩
  exact same id above below

/-- A roll goes on being evaluated as long as only its terms are touched, and what is
beyond it. -/
theorem Progress.Touched.evaluating {begun later : Progress} (low : first ≤ roll.id)
    (used : roll.id < begun.ledger.next)
    (started : (begun.ledger.roll roll.id).phase = .evaluating)
    (touched : begun.Touched (Within (Beyond first (roll.id + 1)) first roll.id) later) :
    (later.ledger.roll roll.id).phase = .evaluating := by
  have same := touched.outside roll.id used (by
    rintro (between | beyond)
    · exact Nat.lt_irrefl _ between.2
    · exact beyond ⟨low, Nat.lt_succ_self _⟩)
  rw [← same.roll]
  exact started

end

namespace Context

open Evaluation

variable (context : Context) {roll : Roll} {first : Nat}

/-- While the terms of a roll are evaluated, others touch nothing of the roll. -/
theorem narrow_evaluateTerms (spans : RowSpans roll.terms first roll.id) {begun later : Progress}
    (used : roll.id < begun.ledger.next)
    (started : (begun.ledger.roll roll.id).phase = .evaluating)
    {outcome : Option (Except Fault Unit)}
    (reaches : (context.evaluateTerms roll.terms begun).Reaches
      (Progress.Elsewhere roll first (roll.id + 1)) outcome later) :
    (context.evaluateTerms roll.terms begun).Reaches
        (Progress.Touched (Beyond first (roll.id + 1))) outcome later ∧
      (later.ledger.roll roll.id).phase = .evaluating := by
  let rule := FrameRule.touched (Within (Beyond first (roll.id + 1)) first roll.id)
  have keeps : (context.evaluateTerms roll.terms begun).Keeps rule begun :=
    keeps_evaluateTerms context.follows_touched roll.terms spans.within begun
  have kept (asked next : Progress)
      (touched : asked.Touched (Beyond first (roll.id + 1)) next) : rule.holds asked next :=
    touched.mono fun _ taken => .inr taken
  have still {last : Progress} (touched : rule.holds begun last) :
      (last.ledger.roll roll.id).phase = .evaluating :=
    Progress.Touched.evaluating (rowSpans_le spans) used started touched
  have narrowed := reaches.narrow keeps
    (fun _ _ touched elsewhere => elsewhere.touched (still touched)) kept
  exact ⟨narrowed, still (narrowed.touched kept keeps)⟩

/-- An evaluation that has begun neither fails nor waits without leaving the roll as
one that is being evaluated, and if it succeeds, everything is settled. -/
theorem stage_of_waits (spans : RowSpans roll.terms first roll.id) (sound : roll.IsSound)
    (row : RowThroughout (fun _ => True) RollOf.IsSound roll.terms) {start last : Progress}
    (waits : start.ledger.Waits first (roll.id + 1)) {outcome : Option (Except Fault Unit)}
    (reaches : (context.evaluateRoll roll start).Reaches
      (Progress.Elsewhere roll first (roll.id + 1)) outcome last) :
    roll.Stage first (roll.id + 1) last.ledger := by
  have low := rowSpans_le spans
  have untouched := waits.rollPhase low (Nat.lt_succ_self roll.id)
  let begun := start.starting roll
  have stands : Stands (Beyond first (roll.id + 1)) first roll.id begun := by
    have whole : Stands (Beyond first (roll.id + 1)) first (roll.id + 1) start :=
      ⟨apart_beyond _ _, waits⟩
    exact (whole.mono (Nat.le_refl _) (Nat.le_succ _)).of_touched
      (start.touched_starting (.inl ⟨Nat.le_refl _, Nat.lt_succ_self _⟩)) (.inr (Nat.le_refl _))
  have started : (begun.ledger.roll roll.id).phase = .evaluating := start.rollPhase_starting roll
  have used : roll.id < begun.ledger.next := waits.used
  have settles := context.evaluateTerms_settle roll.terms spans row begun stands
  rw [evaluateRoll, ofRoll_of_unevaluated untouched] at reaches
  rcases Step.Reaches.of_andThen reaches with ⟨result, middle, inner, rest⟩ | ⟨rfl, inner⟩
  · rcases context.narrow_evaluateTerms spans used started inner with ⟨inner, between⟩
    cases result with
    | error fault =>
      obtain ⟨_, rfl⟩ := Step.Reaches.of_done rest
      exact .begun between
    | ok done =>
      change (sumUp roll middle).Reaches _ _ _ at rest
      unfold sumUp at rest
      split at rest
      · rename_i total sum
        obtain ⟨_, rfl⟩ := Step.Reaches.of_done rest
        exact .ended (settled_finishing spans sound (settles.of_reaches inner) sum)
      · obtain ⟨_, rfl⟩ := Step.Reaches.of_done rest
        exact .begun between
  · exact .begun (context.narrow_evaluateTerms spans used started inner).2

end Context

/-! ## Attempts -/

namespace RollOf

open Evaluation

variable {roll : Roll} {first stop : Nat} {progress last : Progress}

/-- What has begun is not evaluated once more. -/
theorem evaluateRoll_of_begun (context : Context)
    (begun : (progress.ledger.roll roll.id).phase ≠ .unevaluated) :
    context.evaluateRoll roll progress =
      .done (.error (.use (.rollEvaluated roll.formula))) progress :=
  ofRoll_of_begun begun _

/-- The evaluation with a context, and with a resolver if there is one. -/
def evaluateWith (surroundings : Surroundings) (roll : Roll) (context : Context) :
    Evaluation Unit :=
  match surroundings.resolver with
  | none => context.evaluateRoll roll
  | some resolver =>
    (resolver.firstPass context.methods >>= fun _ => context.evaluateRoll roll).ending resolver.close

theorem evaluate_of_unevaluated (options : Options) (surroundings : Surroundings)
    (untouched : (progress.ledger.roll roll.id).phase = .unevaluated) :
    roll.evaluate options surroundings progress =
      (lift (options.forRoll surroundings) >>= evaluateWith surroundings roll) progress := by
  unfold RollOf.evaluate
  rw [bind_done (rollPhase_eq untouched)]
  rfl

theorem evaluate_of_begun (options : Options) (surroundings : Surroundings)
    (begun : (progress.ledger.roll roll.id).phase ≠ .unevaluated) :
    roll.evaluate options surroundings progress =
      .done (.error (.use (.rollEvaluated roll.formula))) progress := by
  unfold RollOf.evaluate
  cases phase : (progress.ledger.roll roll.id).phase with
  | unevaluated => exact absurd phase begun
  | evaluating =>
    rw [bind_done (rollPhase_eq phase)]
    rfl
  | evaluated =>
    rw [bind_done (rollPhase_eq phase)]
    rfl

/-- What has been evaluated or has begun to be is not waiting. -/
theorem Stage.waits_or_begun (stage : roll.Stage first stop progress.ledger) :
    progress.ledger.Waits first stop ∨ (progress.ledger.roll roll.id).phase ≠ .unevaluated := by
  cases stage with
  | waiting waits => exact .inl waits
  | begun phase =>
    rw [phase]
    exact .inr nofun
  | ended settled =>
    have evaluated := settled.around.evaluated
    rw [Ledger.isRollEvaluated, beq_iff_eq] at evaluated
    rw [evaluated]
    exact .inr nofun

/-- A roll that has been evaluated is settled. -/
theorem Stage.settled (stage : roll.Stage first stop progress.ledger) (spans : roll.Spans first stop)
    (evaluated : progress.ledger.isRollEvaluated roll = true) : roll.Settled progress.ledger := by
  cases stage with
  | waiting waits =>
    rw [waits.isRollEvaluated spans.bounds.1 spans.bounds.2] at evaluated
    cases evaluated
  | begun phase =>
    rw [Ledger.isRollEvaluated, phase] at evaluated
    cases evaluated
  | ended settled => exact settled

section

variable {outcome : Option (Except Fault Unit)}

theorem Stage.of_evaluateRoll (context : Context) (spans : roll.Spans first stop)
    (sound : roll.IsSound) (row : RowThroughout (fun _ => True) RollOf.IsSound roll.terms)
    (stage : roll.Stage first stop progress.ledger)
    (reaches : (context.evaluateRoll roll progress).Reaches (Progress.Elsewhere roll first stop)
      outcome last) :
    roll.Stage first stop last.ledger := by
  rcases spans with ⟨inside, rfl⟩
  rcases stage.waits_or_begun with waits | begun
  · exact context.stage_of_waits inside sound row waits reaches
  · rw [evaluateRoll_of_begun context begun] at reaches
    obtain ⟨_, rfl⟩ := Step.Reaches.of_done reaches
    exact stage

/-- The first pass evaluates nothing. -/
theorem waits_of_firstPass {resolver : Resolver} {methods : MethodTable}
    (waits : progress.ledger.Waits first stop)
    (reaches : (resolver.firstPass methods progress).Reaches (Progress.Elsewhere roll first stop)
      outcome last) :
    last.ledger.Waits first stop := by
  have asked := resolver.ledger_addAll methods resolver.roll.dice progress
  have passes := resolver.passes_firstPass methods progress
  generalize resolver.firstPass methods progress = step at passes reaches
  cases passes with
  | closed =>
    obtain ⟨_, rfl⟩ := Step.Reaches.of_done reaches
    exact waits
  | failed _ all =>
    obtain ⟨_, rfl⟩ := Step.Reaches.of_done reaches
    rw [all] at asked
    rwa [asked]
  | ended _ all =>
    obtain ⟨_, rfl⟩ := Step.Reaches.of_done reaches
    rw [all] at asked
    rwa [resolver.ledger_checkDone, asked]
  | @waiting between _ all =>
    rw [all] at asked
    have still : (resolver.expecting between).ledger.Waits first stop := asked.symm ▸ waits
    cases reaches with
    | waiting => exact still
    | resumed meanwhile answer reaches =>
      obtain ⟨_, rfl⟩ := Step.Reaches.of_done reaches
      exact meanwhile.waits still

theorem Stage.of_evaluateWith (surroundings : Surroundings) (context : Context)
    (spans : roll.Spans first stop) (sound : roll.IsSound)
    (row : RowThroughout (fun _ => True) RollOf.IsSound roll.terms)
    (waits : progress.ledger.Waits first stop)
    (reaches : (evaluateWith surroundings roll context progress).Reaches
      (Progress.Elsewhere roll first stop) outcome last) :
    roll.Stage first stop last.ledger := by
  unfold evaluateWith at reaches
  cases given : surroundings.resolver with
  | none =>
    rw [given] at reaches
    exact Stage.of_evaluateRoll context spans sound row (.waiting waits) reaches
  | some resolver =>
    rw [given] at reaches
    have inner {reached : Option (Except Fault Unit)} {later : Progress}
        (reaches : ((resolver.firstPass context.methods >>= fun _ =>
          context.evaluateRoll roll) progress).Reaches (Progress.Elsewhere roll first stop)
          reached later) : roll.Stage first stop later.ledger := by
      rcases Step.Reaches.of_andThen reaches with ⟨result, middle, pass, rest⟩ | ⟨_, pass⟩
      · have still := waits_of_firstPass waits pass
        cases result with
        | error fault =>
          obtain ⟨_, rfl⟩ := Step.Reaches.of_done rest
          exact .waiting still
        | ok done => exact Stage.of_evaluateRoll context spans sound row (.waiting still) rest
      · exact .waiting (waits_of_firstPass waits pass)
    rcases Step.Reaches.of_andThen reaches with ⟨result, later, body, rest⟩ | ⟨_, body⟩
    · obtain ⟨_, rfl⟩ := Step.Reaches.of_done rest
      rw [resolver.ledger_close]
      exact inner body
    · exact inner body

/-- An attempt leads from stage to stage. -/
theorem Stage.of_attempt (options : Options) (surroundings : Surroundings)
    (spans : roll.Spans first stop) (sound : roll.IsSound)
    (row : RowThroughout (fun _ => True) RollOf.IsSound roll.terms)
    (stage : roll.Stage first stop progress.ledger)
    (reaches : (roll.attempt options surroundings progress).Reaches
      (Progress.Elsewhere roll first stop) outcome last) :
    roll.Stage first stop last.ledger := by
  unfold attempt at reaches
  split at reaches
  · unfold evaluateNow at reaches
    cases given : options.forRoll surroundings with
    | error fault =>
      rw [given] at reaches
      obtain ⟨_, rfl⟩ := Step.Reaches.of_done reaches
      exact stage
    | ok context =>
      rw [given] at reaches
      exact Stage.of_evaluateRoll context spans sound row stage reaches
  · rcases stage.waits_or_begun with waits | begun
    · have untouched := waits.rollPhase spans.bounds.1 spans.bounds.2
      rw [evaluate_of_unevaluated options surroundings untouched] at reaches
      cases given : options.forRoll surroundings with
      | error fault =>
        rw [given] at reaches
        obtain ⟨_, rfl⟩ := Step.Reaches.of_done reaches
        exact stage
      | ok context =>
        rw [given] at reaches
        exact Stage.of_evaluateWith surroundings context spans sound row waits reaches
    · rw [evaluate_of_begun options surroundings begun] at reaches
      obtain ⟨_, rfl⟩ := Step.Reaches.of_done reaches
      exact stage

end

/-- Others lead from stage to stage too. -/
theorem Stage.of_elsewhere (spans : roll.Spans first stop)
    (stage : roll.Stage first stop progress.ledger)
    (elsewhere : progress.Elsewhere roll first stop last) : roll.Stage first stop last.ledger := by
  rcases stage.waits_or_begun with waits | begun
  · exact .waiting (elsewhere.waits waits)
  · have same := elsewhere.same begun
    cases stage with
    | waiting waits => exact .waiting (elsewhere.waits waits)
    | begun phase =>
      rw [(same roll.id spans.bounds.1 spans.bounds.2).roll] at phase
      exact .begun phase
    | ended settled => exact .ended (settled.of_same spans same)

/-- Whatever is done to a roll, it is at one of its stages. -/
theorem Tried.stage {start : Progress} (spans : roll.Spans first stop) (sound : roll.IsSound)
    (row : RowThroughout (fun _ => True) RollOf.IsSound roll.terms)
    (waits : start.ledger.Waits first stop)
    (tried : roll.Tried (Progress.Elsewhere roll first stop) start last) :
    roll.Stage first stop last.ledger := by
  induction tried with
  | untouched => exact .waiting waits
  | attempt tried options surroundings reaches ih =>
    exact Stage.of_attempt options surroundings spans sound row ih reaches
  | elsewhere tried meanwhile ih => exact Stage.of_elsewhere spans ih meanwhile

end RollOf

/-! ## What others do -/

section

variable {roll : Roll} {first stop : Nat} {progress later : Progress}

theorem Progress.Elsewhere.of_ledger (same : later.ledger = progress.ledger) :
    progress.Elsewhere roll first stop later := by
  refine ⟨Progress.Touched.of_ledger same, ?_, fun _ => ?_⟩
  · rw [same]
    exact fun waits => waits
  · rw [same]
    exact Ledger.SameOn.refl progress.ledger

/-- What is evaluated of other rolls is elsewhere. -/
theorem Progress.Elsewhere.of_touched (used : stop ≤ progress.ledger.next)
    (touched : progress.Touched (Beyond first stop) later) :
    progress.Elsewhere roll first stop later where
  moved := touched.mono fun _ _ => trivial
  waits waits := waits.of_touched touched (apart_beyond first stop)
  same _ := touched.sameOn used (apart_beyond first stop)

namespace Resolver

theorem mem_of_findDescriptor {ledger : Ledger} {method denomination : Json}
    {outstanding before after : List Descriptor} {descriptor : Descriptor}
    (found : findDescriptor ledger method denomination outstanding =
      .ok (some (before, descriptor, after))) : descriptor ∈ outstanding := by
  induction outstanding generalizing before with
  | nil => cases found
  | cons first rest ih =>
    unfold findDescriptor at found
    split at found
    · cases found
    · cases found
      exact List.mem_cons_self
    · split at found
      · cases found
      · cases found
      · rename_i later
        cases found
        exact List.mem_cons_of_mem _ (ih later)

/-- A value that is handed in is an outcome of a die that was asked for in advance, or
the ledger stays the same. -/
theorem ledger_register {resolver : Resolver} {method denomination value : Json} {accepted : Bool}
    (registered : resolver.register method denomination value progress = .ok (accepted, later)) :
    later.ledger = progress.ledger ∨
      ∃ descriptor ∈ (progress.resolver resolver).outstanding, descriptor.isNew = false ∧
        ∃ given, later.ledger = addOutcome progress.ledger descriptor.dice given := by
  unfold register at registered
  simp only at registered
  split at registered
  · cases registered
    exact .inl rfl
  · cases search : findDescriptor progress.ledger method denomination
      (progress.resolver resolver).outstanding with
    | error fault =>
      rw [search] at registered
      cases registered
    | ok found =>
      rw [search] at registered
      cases found with
      | none =>
        cases registered
        exact .inl rfl
      | some parts =>
        rcases parts with ⟨before, descriptor, after⟩
        have member := mem_of_findDescriptor search
        simp only [bind, Except.bind] at registered
        split at registered
        · cases registered
        · split at registered
          · cases registered
            rename_i number
            have checked (last : Progress) := resolver.ledger_checkDone last
            unfold deliver
            rw [checked]
            cases old : descriptor.isNew with
            | true => exact .inl rfl
            | false => exact .inr ⟨descriptor, member, old, _, rfl⟩
          · cases registered
            exact .inl rfl

/-- Whoever hands in values keeps elsewhere, unless a die of the roll is still asked for
in advance although the evaluation of the roll has begun. -/
theorem elsewhere_register {resolver : Resolver} {method denomination value : Json}
    {accepted : Bool}
    (registered : resolver.register method denomination value progress = .ok (accepted, later))
    (advance : ∀ descriptor ∈ (progress.resolver resolver).outstanding, descriptor.isNew = false →
      Between first stop descriptor.dice.tag.id →
        (progress.ledger.roll roll.id).phase = .unevaluated) :
    progress.Elsewhere roll first stop later := by
  rcases ledger_register registered with same | ⟨descriptor, member, old, given, recorded⟩
  · exact .of_ledger same
  · have phase (id : Identity) :
        (later.ledger.term id).phase = (progress.ledger.term id).phase := by
      rw [recorded, addOutcome, Ledger.term_updateTerm]
      split
      · rename_i same
        rw [same]
      · rfl
    refine ⟨?_, ?_, ?_⟩
    · unfold Progress.Moved Progress.Touched
      rw [recorded]
      exact Ledger.Touched.updateTerm trivial fun _ => rfl
    · intro waits
      refine ⟨fun id above below => ?_, ?_⟩
      · rw [phase, recorded]
        exact waits.phases id above below
      · rw [recorded]
        exact waits.used
    · intro begun id above below
      rw [recorded]
      refine ⟨?_, rfl⟩
      rw [addOutcome, Ledger.term_updateTerm, if_neg]
      rintro rfl
      exact begun (advance descriptor member old ⟨above, below⟩)

theorem elsewhere_close (resolver : Resolver) :
    progress.Elsewhere roll first stop (resolver.close progress) :=
  .of_ledger (resolver.ledger_close progress)

end Resolver

end

end DiceNotation
