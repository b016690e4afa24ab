import DiceNotation.Proofs.Evaluation.Frame
import DiceNotation.Proofs.Roll.TermRows

namespace DiceNotation

/-!
# What a successful evaluation leaves behind

When the evaluation of a term succeeds, the term and everything in it is evaluated,
and every roll in it has the total that its terms give.  The terms are evaluated one
after another, and what was settled before is not touched again: an evaluation
touches its own range, and others that go on while it waits are apart from it.
-/

/-- A sound roll is evaluated and has the total that its terms give. -/
structure RollOf.IsSettled (ledger : Ledger) (roll : Roll) : Prop where
  sound : roll.IsSound
  evaluated : ledger.isRollEvaluated roll = true
  total : ledger.totalOfTerms roll.terms = .ok (ledger.rollTotal roll)

/-- A term is evaluated with everything in it. -/
abbrev Term.Settled (ledger : Ledger) (term : Term) : Prop :=
  term.Throughout (ledger.isEvaluated · = true) (RollOf.IsSettled ledger)

abbrev RowSettled (ledger : Ledger) (terms : List Term) : Prop :=
  RowThroughout (ledger.isEvaluated · = true) (RollOf.IsSettled ledger) terms

abbrev RollsSettled (ledger : Ledger) (rolls : List Roll) : Prop :=
  RollsThroughout (ledger.isEvaluated · = true) (RollOf.IsSettled ledger) rolls

abbrev AmountSettled (ledger : Ledger) (amount : Operand Term) : Prop :=
  AmountThroughout (ledger.isEvaluated · = true) (RollOf.IsSettled ledger) amount

/-- A roll is evaluated with everything in it. -/
structure RollOf.Settled (ledger : Ledger) (roll : Roll) : Prop where
  around : roll.IsSettled ledger
  row : RowSettled ledger roll.terms

section

variable {ledger other : Ledger} {first stop : Nat}

theorem RollOf.IsSettled.of_same {roll : Roll} (settled : roll.IsSettled ledger)
    (spans : roll.Spans first stop) (same : Ledger.SameOn ledger other first stop) :
    roll.IsSettled other := by
  have here := same roll.id spans.bounds.1 spans.bounds.2
  have total : ledger.totalOfTerms roll.terms = other.totalOfTerms roll.terms := by
    refine settled.sound.totalOfTerms_congr fun term member => ?_
    rcases spans with ⟨row, rfl⟩
    rcases row.of_mem member with ⟨low, high, above, below, inside⟩
    exact (same.mono above (Nat.le_succ_of_le below)).total inside
  refine ⟨settled.sound, ?_, ?_⟩
  · rw [← here.isRollEvaluated]
    exact settled.evaluated
  · rw [← here.rollTotal, ← total]
    exact settled.total

theorem isEvaluated_of_same {term : Term} (spans : term.Spans first stop)
    (same : Ledger.SameOn ledger other first stop) (evaluated : ledger.isEvaluated term = true) :
    other.isEvaluated term = true := by
  rw [← same.isEvaluated spans]
  exact evaluated

/-- What is settled stays settled while its range stays the same. -/
theorem Term.Settled.of_same {term : Term} (settled : term.Settled ledger)
    (spans : term.Spans first stop) (same : Ledger.SameOn ledger other first stop) :
    term.Settled other :=
  Term.Throughout.imp_spans spans
    (fun _ _ _ above below inside => isEvaluated_of_same inside (same.mono above below))
    (fun _ _ _ above below inside given => given.of_same inside (same.mono above below)) settled

theorem RowSettled.of_same {terms : List Term} (settled : RowSettled ledger terms)
    (spans : RowSpans terms first stop) (same : Ledger.SameOn ledger other first stop) :
    RowSettled other terms :=
  RowThroughout.imp_spans spans
    (fun _ _ _ above below inside => isEvaluated_of_same inside (same.mono above below))
    (fun _ _ _ above below inside given => given.of_same inside (same.mono above below)) settled

theorem RollsSettled.of_same {rolls : List Roll} (settled : RollsSettled ledger rolls)
    (spans : RollsSpan rolls first stop) (same : Ledger.SameOn ledger other first stop) :
    RollsSettled other rolls :=
  RollsThroughout.imp_spans spans
    (fun _ _ _ above below inside => isEvaluated_of_same inside (same.mono above below))
    (fun _ _ _ above below inside given => given.of_same inside (same.mono above below)) settled

theorem AmountSettled.of_same {amount : Operand Term} (settled : AmountSettled ledger amount)
    (spans : AmountSpans amount first stop) (same : Ledger.SameOn ledger other first stop) :
    AmountSettled other amount :=
  AmountThroughout.imp_spans spans
    (fun _ _ _ above below inside => isEvaluated_of_same inside (same.mono above below))
    (fun _ _ _ above below inside given => given.of_same inside (same.mono above below)) settled

end

theorem RollOf.Settled.of_same {ledger other : Ledger} {first stop : Nat} {roll : Roll}
    (settled : roll.Settled ledger) (spans : roll.Spans first stop)
    (same : Ledger.SameOn ledger other first stop) : roll.Settled other :=
  ⟨settled.around.of_same spans same,
    settled.row.of_same spans.1 (same.mono (Nat.le_refl _) (Nat.le_of_lt spans.bounds.2))⟩

/-! ## Runs that end well -/

/-- Wherever a run ends well, a condition holds, if all that happens while the run
waits touches only what is in the hands of others. -/
def Step.Ends {α : Type} (others : Identity → Prop) (condition : α → Progress → Prop) :
    Step α → Prop
  | .done (.ok a) last => condition a last
  | .done (.error _) _ => True
  | .wait _ asked resume => ∀ answer later, asked.Touched others later →
      (resume answer later).Ends others condition

namespace Step

variable {α β : Type} {others : Identity → Prop} {condition : α → Progress → Prop}

theorem Ends.imp {step : Step α} (ends : step.Ends others condition)
    {weaker : α → Progress → Prop} (follows : ∀ a last, condition a last → weaker a last) :
    step.Ends others weaker := by
  induction step with
  | done result last =>
    cases result with
    | error fault => trivial
    | ok a => exact follows a last ends
  | wait request asked resume ih =>
    intro answer later meanwhile
    exact ih answer later (ends answer later meanwhile)

/-- Others may be trusted to touch less. -/
theorem Ends.mono {fewer : Identity → Prop} {step : Step α} (ends : step.Ends others condition)
    (within : ∀ id, fewer id → others id) : step.Ends fewer condition := by
  induction step with
  | done result last => cases result <;> exact ends
  | wait request asked resume ih =>
    intro answer later meanwhile
    exact ih answer later (ends answer later (Ledger.Touched.mono meanwhile within))

theorem ends_true (step : Step α) : step.Ends others fun _ _ => True := by
  induction step with
  | done result last => cases result <;> trivial
  | wait request asked resume ih =>
    intro answer later _
    exact ih answer later

theorem Ends.andThen {step : Step α} {next : Except Fault α → Progress → Step β}
    {last : β → Progress → Prop}
    (ends : step.Ends others fun a later => (next (.ok a) later).Ends others last)
    (failed : ∀ fault later, (next (.error fault) later).Ends others last) :
    (step.andThen next).Ends others last := by
  induction step with
  | done result later =>
    cases result with
    | error fault => exact failed fault later
    | ok a => exact ends
  | wait request asked resume ih =>
    intro answer later meanwhile
    exact ih answer later (ends answer later meanwhile)

/-- A run that ends well has also touched only what it may touch. -/
theorem Ends.and_touched {inside : Identity → Prop} {start : Progress} {step : Step α}
    (ends : step.Ends others condition) (keeps : step.Keeps (FrameRule.touched inside) start)
    (within : ∀ id, others id → inside id) :
    step.Ends others fun a last => condition a last ∧ start.Touched inside last := by
  induction step with
  | done result last =>
    cases result with
    | error fault => trivial
    | ok a => exact ⟨ends, keeps⟩
  | wait request asked resume ih =>
    intro answer later meanwhile
    exact ih answer later (ends answer later meanwhile)
      (keeps.2 answer later (Ledger.Touched.mono meanwhile within))

/-- Of every run it is known what it touches. -/
theorem Ends.of_keeps {inside : Identity → Prop} {start : Progress} {step : Step α}
    (keeps : step.Keeps (FrameRule.touched inside) start)
    (within : ∀ id, others id → inside id) :
    step.Ends others fun _ last => start.Touched inside last := by
  exact ((ends_true step).and_touched keeps within).imp fun _ _ both => both.2

end Step

namespace Evaluation

variable {α β : Type} {others : Identity → Prop}

theorem ends_bind {first : Evaluation α} {next : α → Evaluation β} {start : Progress}
    {last : β → Progress → Prop}
    (ends : (first start).Ends others fun a later => (next a later).Ends others last) :
    ((first >>= next) start).Ends others last :=
  Step.Ends.andThen ends fun _ _ => trivial

/-- A term is evaluated at the end if what is inside it is. -/
theorem ofTerm_ends {term : Term} {work : Evaluation Unit} {start : Progress}
    {condition : Progress → Prop} (untouched : (start.ledger.term term.id).phase = .unevaluated)
    (ends : (work (start.entering term .evaluating)).Ends others fun _ later => condition later) :
    (ofTerm term work start).Ends others fun _ last =>
      ∃ later, condition later ∧ last = later.entering term .evaluated := by
  rw [ofTerm_of_unevaluated untouched]
  refine ends_bind (ends.imp ?_)
  intro _ later holds
  exact ⟨later, holds, rfl⟩

/-- A roll has its total at the end. -/
theorem ofRoll_ends {roll : Roll} {work : Evaluation Unit} {start : Progress}
    {condition : Progress → Prop} (untouched : (start.ledger.roll roll.id).phase = .unevaluated)
    (ends : (work (start.starting roll)).Ends others fun _ later => condition later) :
    (ofRoll roll work start).Ends others fun _ last =>
      ∃ later total, condition later ∧ later.ledger.totalOfTerms roll.terms = .ok total ∧
        last = later.finishing roll total := by
  rw [ofRoll_of_unevaluated untouched]
  refine ends_bind (ends.imp ?_)
  intro _ later holds
  unfold sumUp
  cases total : later.ledger.totalOfTerms roll.terms with
  | error fault => trivial
  | ok found => exact ⟨later, found, holds, total, rfl⟩

end Evaluation

/-! ## Terms and rolls -/

/-- A range, and what is in the hands of others. -/
def Within (others : Identity → Prop) (first stop : Nat) (id : Identity) : Prop :=
  Between first stop id ∨ others id

/-- A single identity, and what is in the hands of others. -/
def Besides (own : Nat) (others : Identity → Prop) (id : Identity) : Prop := id = own ∨ others id

theorem Step.Ends.of_besides {α : Type} (own : Nat) {others : Identity → Prop} {step : Step α}
    {condition : α → Progress → Prop} (ends : step.Ends (Besides own others) condition) :
    step.Ends others condition :=
  ends.mono fun _ taken => .inr taken

/-- Whether a range is apart from what is in the hands of others. -/
def Apart (others : Identity → Prop) (first stop : Nat) : Prop :=
  ∀ id, first ≤ id → id < stop → ¬others id

theorem Apart.mono {others : Identity → Prop} {first stop low high : Nat}
    (apart : Apart others first stop) (above : first ≤ low) (below : high ≤ stop) :
    Apart others low high :=
  fun id from_ upTo => apart id (Nat.le_trans above from_) (Nat.lt_of_lt_of_le upTo below)

/-- What touches another range and what is in the hands of others leaves a range alone. -/
theorem Ledger.Touched.same_apart {others : Identity → Prop} {ledger other : Ledger}
    {low high first stop : Nat} (touched : Ledger.Touched (Within others low high) ledger other)
    (apart : Apart others first stop) (used : stop ≤ ledger.next)
    (disjoint : high ≤ first ∨ stop ≤ low) : Ledger.SameOn ledger other first stop := by
  refine touched.sameOn used fun id above below inside => ?_
  rcases inside with between | taken
  · rcases between with ⟨from_, upTo⟩
    unfold Identity at *
    omega
  · exact apart id above below taken

section

variable {others : Identity → Prop} {first stop : Nat}

theorem Term.Spans.within {term : Term} (spans : term.Spans first stop) :
    term.Inside (Within others first stop) :=
  Term.Throughout.imp spans (fun _ _ _ inside => .inl inside) (fun _ _ _ inside => .inl inside)
    spans.inside

theorem RollsSpan.within {rolls : List Roll} (spans : RollsSpan rolls first stop) :
    RollsThroughout (fun inner => Within others first stop inner.id)
      (fun roll => Within others first stop roll.id) rolls :=
  RollsThroughout.imp spans (fun _ above below _ => .inl ⟨above, below⟩)
    (fun _ above below _ => .inl ⟨above, below⟩) (rollsThroughout_true rolls)

theorem AmountSpans.within {amount : Operand Term} (spans : AmountSpans amount first stop) :
    AmountThroughout (fun inner => Within others first stop inner.id)
      (fun roll => Within others first stop roll.id) amount :=
  AmountThroughout.imp spans (fun _ above below _ => .inl ⟨above, below⟩)
    (fun _ above below _ => .inl ⟨above, below⟩) (amountThroughout_true amount)

theorem RowSpans.within {terms : List Term} (spans : RowSpans terms first stop) :
    RowInside (Within others first stop) terms :=
  RowThroughout.imp spans (fun _ _ _ inside => .inl inside) (fun _ _ _ inside => .inl inside)
    spans.inside

theorem RollOf.Spans.within {roll : Roll} (spans : roll.Spans first stop) :
    roll.Inside (Within others first stop) :=
  ⟨.inl spans.inside.around, RowThroughout.imp spans.1 (fun _ above below _ =>
    .inl ⟨above, Nat.lt_trans below spans.bounds.2⟩) (fun _ above below _ =>
    .inl ⟨above, Nat.lt_trans below spans.bounds.2⟩) (rowThroughout_true roll.terms)⟩

end

namespace Context

open Evaluation

variable {others : Identity → Prop} (context : Context)

/-- A range that is apart from others waits to be evaluated. -/
structure Stands (others : Identity → Prop) (first stop : Nat) (progress : Progress) : Prop where
  apart : Apart others first stop
  waits : progress.ledger.Waits first stop

theorem Stands.mono {first stop low high : Nat} {progress : Progress}
    (stands : Stands others first stop progress) (above : first ≤ low) (below : high ≤ stop) :
    Stands others low high progress :=
  ⟨stands.apart.mono above below, stands.waits.mono above below⟩

theorem Stands.of_touched {first stop low high : Nat} {progress later : Progress}
    (stands : Stands others first stop progress)
    (touched : progress.Touched (Within others low high) later)
    (disjoint : high ≤ first ∨ stop ≤ low) : Stands others first stop later := by
  refine ⟨stands.apart, stands.waits.of_touched touched ?_⟩
  intro id above below inside
  rcases inside with between | taken
  · rcases between with ⟨from_, upTo⟩
    unfold Identity at *
    omega
  · exact stands.apart id above below taken

/-- A term that stands behind a range may be touched as well. -/
theorem Stands.with_own {first own : Nat} {progress : Progress}
    (stands : Stands others first own progress) :
    Stands (Besides own others) first own progress := by
  refine ⟨?_, stands.waits⟩
  rintro id above below (rfl | taken)
  · exact Nat.lt_irrefl _ below
  · exact stands.apart id above below taken

/-- What is settled stays settled while only others are touched. -/
theorem ends_of_kept {α : Type} {work : Evaluation α}
    (keeps : work.Keeps (FrameRule.touched others)) {first stop : Nat} {later : Progress}
    (apart : Apart others first stop) (used : stop ≤ later.ledger.next) (settled : Ledger → Prop)
    (kept : ∀ ledger other, Ledger.SameOn ledger other first stop → settled ledger → settled other)
    (holds : settled later.ledger) :
    (work later).Ends others fun _ last => settled last.ledger := by
  refine (Step.Ends.of_keeps (keeps later) fun _ taken => taken).imp ?_
  intro _ last touched
  exact kept _ _ (Ledger.Touched.sameOn touched used apart) holds

/-- A roll whose terms are settled is settled once it is summed up. -/
theorem settled_finishing {roll : Roll} {first : Nat} (spans : RowSpans roll.terms first roll.id)
    (sound : roll.IsSound) {later : Progress} {total : Json}
    (settled : RowSettled later.ledger roll.terms)
    (sum : later.ledger.totalOfTerms roll.terms = .ok total) :
    roll.Settled (later.finishing roll total).ledger := by
  let last := later.finishing roll total
  have known : last.ledger.roll roll.id = ⟨.evaluated, total⟩ := later.roll_finishing roll total
  have same : Ledger.SameOn later.ledger last.ledger first roll.id :=
    Ledger.SameOn.updateRoll later.ledger (Nat.le_refl _) _
  have evaluated : last.ledger.isRollEvaluated roll = true := by
    rw [Ledger.isRollEvaluated, known]
    rfl
  refine ⟨⟨sound, evaluated, ?_⟩, settled.of_same spans same⟩
  have totals : later.ledger.totalOfTerms roll.terms = last.ledger.totalOfTerms roll.terms := by
    refine sound.totalOfTerms_congr fun term member => ?_
    rcases spans.of_mem member with ⟨from_, upTo, above, below, inside⟩
    exact (same.mono above below).total inside
  rw [Ledger.rollTotal, evaluated, if_pos rfl, known, ← totals]
  exact sum

/-- The terms of a roll are settled while it is summed up, and then it is settled too. -/
theorem ofRoll_settles {roll : Roll} {first : Nat} (spans : RowSpans roll.terms first roll.id)
    (sound : roll.IsSound) {start : Progress} (stands : Stands others first (roll.id + 1) start)
    (row : ∀ begun : Progress, Stands others first roll.id begun →
      (context.evaluateTerms roll.terms begun).Ends others fun _ later =>
        RowSettled later.ledger roll.terms) :
    (context.evaluateRoll roll start).Ends others fun _ last => roll.Settled last.ledger := by
  have low := rowSpans_le spans
  have own : Within others roll.id (roll.id + 1) roll.id :=
    .inl ⟨Nat.le_refl _, Nat.lt_succ_self _⟩
  have begun : Stands others first roll.id (start.starting roll) :=
    (stands.mono (Nat.le_refl _) (Nat.le_succ _)).of_touched (start.touched_starting own)
      (.inr (Nat.le_refl _))
  have untouched := stands.waits.rollPhase low (Nat.lt_succ_self _)
  refine (ofRoll_ends untouched (row _ begun)).imp ?_
  rintro _ _ ⟨later, total, settled, sum, rfl⟩
  exact settled_finishing spans sound settled sum

/-- A term is evaluated at the end, and what is inside it is settled by then. -/
theorem ofTerm_settles {term : Term} {first stop : Nat} (spans : term.Spans first stop)
    {work : Evaluation Unit} {start : Progress} (stands : Stands others first stop start)
    (settled : Ledger → Prop)
    (kept : ∀ ledger other, Ledger.SameOn ledger other first term.id → settled ledger → settled other)
    (settles : ∀ begun, Stands others first term.id begun →
      (work begun).Ends others fun _ later => settled later.ledger) :
    (ofTerm term work start).Ends others fun _ last =>
      last.ledger.isEvaluated term = true ∧ settled last.ledger := by
  have own : Within others term.id (term.id + 1) term.id :=
    .inl ⟨Nat.le_refl _, Nat.lt_succ_self _⟩
  have untouched := stands.waits.phase spans.first_le spans.id_lt
  have begun : Stands others first term.id (start.entering term .evaluating) :=
    (stands.mono (Nat.le_refl _) (Nat.le_of_lt spans.id_lt)).of_touched
      (start.touched_entering own _) (.inr (Nat.le_refl _))
  refine (ofTerm_ends untouched (settles _ begun)).imp ?_
  rintro _ _ ⟨later, holds, rfl⟩
  exact ⟨later.isEvaluated_entering term,
    kept _ _ (Ledger.SameOn.updateTerm later.ledger (Nat.le_refl _) _) holds⟩

theorem simple_settles {term : Term} {first stop : Nat} (spans : term.Spans first stop)
    {work : Evaluation Unit} {start : Progress} (stands : Stands others first stop start) :
    (ofTerm term work start).Ends others fun _ last => last.ledger.isEvaluated term = true :=
  (ofTerm_settles spans stands (fun _ => True) (fun _ _ _ given => given)
    fun begun _ => Step.ends_true (work begun)).imp fun _ _ both => both.1

mutual

/-- A term whose evaluation ends well is settled. -/
theorem evaluateTerm_settles : (term : Term) → {others : Identity → Prop} →
    {first stop : Nat} → term.Spans first stop →
    term.Throughout (fun _ => True) RollOf.IsSound → (start : Progress) →
    Stands others first stop start →
    (context.evaluateTerm term start).Ends others fun _ last => term.Settled last.ledger
  | .numeric tag value, _, _, _, spans, _, start, stands => by
    unfold evaluateTerm
    exact simple_settles spans stands
  | .operator tag op, _, _, _, spans, _, start, stands => by
    unfold evaluateTerm
    exact simple_settles spans stands
  | .text tag word, _, _, _, spans, _, start, stands => by
    unfold evaluateTerm
    exact simple_settles spans stands
  | .group tag roll, others, first, stop, spans, ⟨_, sound, inside⟩, start, stands => by
    have ⟨row, named, _⟩ := spans
    have inner : (Term.group tag roll).id = roll.id + 1 := named
    unfold evaluateTerm
    refine (ofTerm_settles spans stands roll.Settled ?_ ?_).imp ?_
    · intro ledger other same given
      rw [inner] at same
      exact given.of_same ⟨row, rfl⟩ same
    · intro begun waiting
      rw [inner] at waiting
      have not := waiting.waits.isRollEvaluated (rowSpans_le row) (Nat.lt_succ_self _)
      rw [unlessRollEvaluated_of_not not]
      exact context.ofRoll_settles row sound waiting fun later ready =>
        evaluateTerms_settle roll.terms row inside later ready
    · rintro _ last ⟨evaluated, settled⟩
      exact ⟨evaluated, settled.around, settled.row⟩
  | .function tag fn rolls, others, first, stop, spans, ⟨_, parts⟩, start, stands => by
    have kept (ledger other : Ledger) (same : Ledger.SameOn ledger other first tag.id)
        (given : RollsSettled ledger rolls) : RollsSettled other rolls := given.of_same spans.1 same
    unfold evaluateTerm
    refine ofTerm_settles spans stands (RollsSettled · rolls) kept ?_
    intro begun waiting
    have settles := evaluateRolls_settle rolls spans.1 parts
      (fun _ _ roll => keeps_checkArgument (.function tag fn rolls) fn roll) begun waiting
    refine ends_bind ((settles.and_touched (keeps_evaluateRolls context.follows_touched rolls spans.1.within
      (fun roll => keeps_checkArgument (.function tag fn rolls) fn roll) begun)
      fun _ taken => .inr taken).imp ?_)
    rintro _ later ⟨settled, touched⟩
    have used := Nat.le_trans waiting.waits.used touched.next_le
    exact ends_of_kept (keeps_compute _ fn rolls) waiting.apart used _ kept settled
  | .dice d, others, first, stop, spans, ⟨_, number, faces⟩, start, stands => by
    unfold evaluateTerm
    have ⟨⟨middle, counted, sided⟩, _⟩ := spans
    have kept (ledger other : Ledger) (same : Ledger.SameOn ledger other first d.tag.id)
        (given : AmountSettled ledger d.number ∧ AmountSettled ledger d.faces) :
        AmountSettled other d.number ∧ AmountSettled other d.faces :=
      ⟨given.1.of_same counted (same.mono (Nat.le_refl _) (amountSpans_le sided)),
        given.2.of_same sided (same.mono (amountSpans_le counted) (Nat.le_refl _))⟩
    refine ofTerm_settles spans stands
      (fun ledger => AmountSettled ledger d.number ∧ AmountSettled ledger d.faces) kept ?_
    intro begun waiting
    have ready := waiting.with_own
    refine Step.Ends.of_besides d.tag.id ?_
    have early := ready.mono (Nat.le_refl _) (amountSpans_le sided)
    have settles := evaluateAmount_settles d.number counted number begun early
    refine ends_bind ((settles.and_touched
      (keeps_evaluateAmount context.follows_touched d.number counted.within begun) fun _ taken => .inr taken).imp ?_)
    rintro _ later ⟨settled, touched⟩
    have next : Stands (Besides d.tag.id others) middle d.tag.id later :=
      (ready.mono (amountSpans_le counted) (Nat.le_refl _)).of_touched touched (.inl (Nat.le_refl _))
    have settlesMore := evaluateAmount_settles d.faces sided faces later next
    refine ends_bind ((settlesMore.and_touched
      (keeps_evaluateAmount context.follows_touched d.faces sided.within later) fun _ taken => .inr taken).imp ?_)
    rintro _ between ⟨settledMore, touchedMore⟩
    have usedEarly := Nat.le_trans early.waits.used touched.next_le
    have still := settled.of_same counted
      (touchedMore.same_apart early.apart usedEarly (.inr (Nat.le_refl _)))
    have used := Nat.le_trans next.waits.used touchedMore.next_le
    exact ends_of_kept (context.keeps_rollDice (fun _ _ => trivial) (.inl rfl)) ready.apart used _ kept
      ⟨still, settledMore⟩
  | .pool p, others, first, stop, spans, ⟨_, parts⟩, start, stands => by
    have kept (ledger other : Ledger) (same : Ledger.SameOn ledger other first p.tag.id)
        (given : RollsSettled ledger p.rolls) : RollsSettled other p.rolls :=
      given.of_same spans.1 same
    unfold evaluateTerm
    refine ofTerm_settles spans stands (RollsSettled · p.rolls) kept ?_
    intro begun waiting
    -- the outcomes of the pool change while its rolls are evaluated
    have ready := waiting.with_own
    refine Step.Ends.of_besides p.tag.id ?_
    have settles := evaluateRolls_settle p.rolls spans.1 parts
      (fun _ within roll => keeps_collect (within _ (.inl rfl)) roll) begun ready
    refine ends_bind ((settles.and_touched (keeps_evaluateRolls context.follows_touched p.rolls spans.1.within
      (fun roll => keeps_collect (.inr (.inl rfl)) roll) begun) fun _ taken => .inr taken).imp ?_)
    rintro _ later ⟨settled, touched⟩
    have used := Nat.le_trans waiting.waits.used touched.next_le
    refine ends_of_kept (context.keeps_runModifiers ⟨.inl rfl, fun _ _ _ => Keeps.pure _⟩ _)
      ready.apart used _ kept settled

/-- A row whose evaluation ends well is settled. -/
theorem evaluateTerms_settle : (terms : List Term) → {others : Identity → Prop} →
    {first stop : Nat} →
    RowSpans terms first stop → RowThroughout (fun _ => True) RollOf.IsSound terms →
    (start : Progress) → Stands others first stop start →
    (context.evaluateTerms terms start).Ends others fun _ last => RowSettled last.ledger terms
  | [], _, _, _, _, _, start, _ => by
    unfold evaluateTerms
    exact trivial
  | term :: rest, others, first, stop, ⟨middle, here, later⟩, ⟨head, tail⟩, start, stands => by
    have behind := rowSpans_le later
    have waiting := stands.mono (Nat.le_refl _) behind
    have not := waiting.waits.isEvaluated here.first_le here.id_lt
    unfold evaluateTerms
    refine ends_bind ?_
    rw [unlessEvaluated_of_not not]
    have settles := evaluateTerm_settles term here head start waiting
    refine (settles.and_touched (keeps_evaluateTerm context.follows_touched term here.within start)
      fun _ taken => .inr taken).imp ?_
    rintro _ between ⟨settled, touched⟩
    have next : Stands others middle stop between :=
      (stands.mono (Nat.le_of_lt here.lt) (Nat.le_refl _)).of_touched touched (.inl (Nat.le_refl _))
    have settle := evaluateTerms_settle rest later tail between next
    refine (settle.and_touched (keeps_evaluateTerms context.follows_touched rest later.within between)
      fun _ taken => .inr taken).imp ?_
    rintro _ last ⟨rest, touchedMore⟩
    refine ⟨settled.of_same here (touchedMore.same_apart waiting.apart ?_ (.inr (Nat.le_refl _))),
      rest⟩
    exact Nat.le_trans waiting.waits.used touched.next_le

/-- Rolls whose evaluation ends well are settled, if they are used without touching
them. -/
theorem evaluateRolls_settle : (rolls : List Roll) → {others : Identity → Prop} →
    {first stop : Nat} →
    RollsSpan rolls first stop → RollsThroughout (fun _ => True) RollOf.IsSound rolls →
    {use : Roll → Evaluation Unit} →
    (∀ region : Identity → Prop, (∀ id, others id → region id) →
      ∀ roll, (use roll).Keeps (FrameRule.touched region)) →
    (start : Progress) → Stands others first stop start →
    (context.evaluateRolls use rolls start).Ends others fun _ last => RollsSettled last.ledger rolls
  | [], _, _, _, _, _, _, _, start, _ => by
    unfold evaluateRolls
    exact trivial
  | roll :: rest, others, first, stop, ⟨row, later⟩, ⟨sound, inside, tail⟩, use, used, start, stands => by
    have behind := rollsSpan_le later
    have before := rowSpans_le row
    have waiting := stands.mono (Nat.le_refl _) behind
    have not := waiting.waits.isRollEvaluated before (Nat.lt_succ_self _)
    unfold evaluateRolls
    refine ends_bind ?_
    rw [unlessRollEvaluated_of_not not]
    have settles := context.ofRoll_settles row sound waiting fun begun ready =>
      evaluateTerms_settle roll.terms row inside begun ready
    have lies : roll.Inside (Within others first (roll.id + 1)) :=
      RollOf.Spans.within ⟨row, rfl⟩
    refine (settles.and_touched (keeps_evaluateRoll context.follows_touched lies.around lies.row start)
      fun _ taken => .inr taken).imp ?_
    rintro _ between ⟨settled, touched⟩
    refine ends_bind ((Step.Ends.of_keeps (used others (fun _ taken => taken) roll between) fun _ taken => taken).imp ?_)
    intro _ next only
    -- to use the roll touches neither the roll nor those behind it
    have usedEarly := Nat.le_trans waiting.waits.used touched.next_le
    have range : roll.Spans first (roll.id + 1) := ⟨row, rfl⟩
    have still := settled.of_same range (Ledger.Touched.sameOn only usedEarly waiting.apart)
    have ahead : Stands others (roll.id + 1) stop next := by
      have ready := (stands.mono (Nat.le_succ_of_le before) (Nat.le_refl _)).of_touched touched
        (.inl (Nat.le_refl _))
      exact ⟨ready.apart, ready.waits.of_touched only ready.apart⟩
    have settlesMore := evaluateRolls_settle rest later tail used next ahead
    refine (settlesMore.and_touched (keeps_evaluateRolls context.follows_touched rest later.within
      (used _ fun _ taken => .inr taken) next) fun _ taken => .inr taken).imp ?_
    rintro _ last ⟨rest, touchedMore⟩
    have usedLate := Nat.le_trans usedEarly only.next_le
    have final := still.of_same range
      (touchedMore.same_apart waiting.apart usedLate (.inr (Nat.le_refl _)))
    exact ⟨final.around, final.row, rest⟩

/-- An amount whose evaluation ends well is settled. -/
theorem evaluateAmount_settles : (amount : Operand Term) →
    {others : Identity → Prop} → {first stop : Nat} →
    AmountSpans amount first stop → AmountThroughout (fun _ => True) RollOf.IsSound amount →
    (start : Progress) → Stands others first stop start →
    (context.evaluateAmount amount start).Ends others fun _ last => AmountSettled last.ledger amount
  | .known _, _, _, _, _, _, start, _ => by
    unfold evaluateAmount
    exact trivial
  | .computed term, _, _, _, spans, sound, start, stands => by
    have not := stands.waits.isEvaluated spans.first_le spans.id_lt
    unfold evaluateAmount
    rw [unlessEvaluated_of_not not]
    exact evaluateTerm_settles term spans sound start stands

end

/-- A roll whose evaluation ends well is settled. -/
theorem evaluateRoll_settles {others : Identity → Prop} {roll : Roll} {first stop : Nat}
    (spans : roll.Spans first stop) (sound : roll.IsSound)
    (row : RowThroughout (fun _ => True) RollOf.IsSound roll.terms) {start : Progress}
    (stands : Stands others first stop start) :
    (context.evaluateRoll roll start).Ends others fun _ last => roll.Settled last.ledger := by
  rcases spans with ⟨spans, rfl⟩
  exact context.ofRoll_settles spans sound stands fun begun ready =>
    context.evaluateTerms_settle roll.terms spans row begun ready

end Context
end DiceNotation
