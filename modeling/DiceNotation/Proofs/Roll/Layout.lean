import DiceNotation.Proofs.Roll.Ledgers
import DiceNotation.Roll.Record

namespace DiceNotation

/-!
# How identities lie in terms

The identities of a term and of everything inside it are taken from the ledger
one after another, what is inside first.  So every part of a term has a range of
identities for itself, and the ranges of different parts do not meet.  What a
record says about a term depends on the ledger in this range only.
-/

mutual

/-- The identities of a term are those from `first` on and below `stop`. -/
def Term.Spans : Term → Nat → Nat → Prop
  | .numeric tag _, first, stop => tag.id = first ∧ stop = first + 1
  | .operator tag _, first, stop => tag.id = first ∧ stop = first + 1
  | .text tag _, first, stop => tag.id = first ∧ stop = first + 1
  | .group tag roll, first, stop =>
    RowSpans roll.terms first roll.id ∧ tag.id = roll.id + 1 ∧ stop = tag.id + 1
  | .function tag _ rolls, first, stop => RollsSpan rolls first tag.id ∧ stop = tag.id + 1
  | .dice d, first, stop =>
    (∃ middle, AmountSpans d.number first middle ∧ AmountSpans d.faces middle d.tag.id) ∧
      stop = d.tag.id + 1
  | .pool p, first, stop => RollsSpan p.rolls first p.tag.id ∧ stop = p.tag.id + 1

/-- The identities of a row of terms. -/
def RowSpans : List Term → Nat → Nat → Prop
  | [], first, stop => stop = first
  | term :: rest, first, stop => ∃ middle, term.Spans first middle ∧ RowSpans rest middle stop

/-- The identities of rolls, each of which comes behind its terms. -/
def RollsSpan : List (RollOf Term) → Nat → Nat → Prop
  | [], first, stop => stop = first
  | roll :: rest, first, stop =>
    RowSpans roll.terms first roll.id ∧ RollsSpan rest (roll.id + 1) stop

/-- The identities of an amount of dice. -/
def AmountSpans : Operand Term → Nat → Nat → Prop
  | .known _, first, stop => stop = first
  | .computed term, first, stop => term.Spans first stop

end

/-- The identities of a roll. -/
def RollOf.Spans (roll : Roll) (first stop : Nat) : Prop :=
  RowSpans roll.terms first roll.id ∧ stop = roll.id + 1

/-! ## Bounds -/

mutual

theorem Term.Spans.lt : {term : Term} → {first stop : Nat} → term.Spans first stop → first < stop
  | .numeric _ _, first, _, spans => by
    rw [spans.2]
    exact Nat.lt_succ_self first
  | .operator _ _, first, _, spans => by
    rw [spans.2]
    exact Nat.lt_succ_self first
  | .text _ _, first, _, spans => by
    rw [spans.2]
    exact Nat.lt_succ_self first
  | .group _ roll, first, _, ⟨inside, same, ended⟩ => by
    have within := rowSpans_le inside
    unfold Identity at *
    omega
  | .function _ _ rolls, _, _, ⟨inside, ended⟩ => by
    have within := rollsSpan_le inside
    unfold Identity at *
    omega
  | .dice d, _, _, ⟨⟨_, number, faces⟩, ended⟩ => by
    have before := amountSpans_le number
    have behind := amountSpans_le faces
    unfold Identity at *
    omega
  | .pool p, _, _, ⟨inside, ended⟩ => by
    have within := rollsSpan_le inside
    unfold Identity at *
    omega

theorem rowSpans_le : {terms : List Term} → {first stop : Nat} → RowSpans terms first stop →
    first ≤ stop
  | [], first, _, spans => Nat.le_of_eq spans.symm
  | term :: rest, _, _, ⟨middle, here, later⟩ => by
    have before := here.lt
    have behind := rowSpans_le later
    omega

theorem rollsSpan_le : {rolls : List Roll} → {first stop : Nat} → RollsSpan rolls first stop →
    first ≤ stop
  | [], first, _, spans => Nat.le_of_eq spans.symm
  | roll :: rest, _, _, ⟨here, later⟩ => by
    have before := rowSpans_le here
    have behind := rollsSpan_le later
    unfold Identity at *
    omega

theorem amountSpans_le : {amount : Operand Term} → {first stop : Nat} →
    AmountSpans amount first stop → first ≤ stop
  | .known _, _, _, spans => Nat.le_of_eq spans.symm
  | .computed _, _, _, spans => Nat.le_of_lt (Term.Spans.lt spans)

end

/-- A term has the last identity of its range. -/
theorem Term.Spans.stop_eq {term : Term} {first stop : Nat} (spans : term.Spans first stop) :
    stop = term.id + 1 := by
  cases term with
  | numeric tag value =>
    rw [spans.2]
    exact congrArg (· + 1) spans.1.symm
  | operator tag op =>
    rw [spans.2]
    exact congrArg (· + 1) spans.1.symm
  | text tag word =>
    rw [spans.2]
    exact congrArg (· + 1) spans.1.symm
  | group tag roll => exact spans.2.2
  | function tag fn rolls => exact spans.2
  | dice d => exact spans.2
  | pool p => exact spans.2

theorem Term.Spans.first_le {term : Term} {first stop : Nat} (spans : term.Spans first stop) :
    first ≤ term.id := by
  have least := spans.lt
  rw [spans.stop_eq] at least
  exact Nat.le_of_lt_succ least

theorem Term.Spans.id_lt {term : Term} {first stop : Nat} (spans : term.Spans first stop) :
    term.id < stop := by
  rw [spans.stop_eq]
  exact Nat.lt_succ_self _

theorem rowSpans_append {front back : List Term} {first stop : Nat} :
    RowSpans (front ++ back) first stop ↔
      ∃ middle, RowSpans front first middle ∧ RowSpans back middle stop := by
  induction front generalizing first with
  | nil => simp [RowSpans]
  | cons term rest ih =>
    simp only [List.cons_append, RowSpans, ih]
    constructor
    · rintro ⟨middle, here, later, front, back⟩
      exact ⟨later, ⟨middle, here, front⟩, back⟩
    · rintro ⟨later, ⟨middle, here, front⟩, back⟩
      exact ⟨middle, here, later, front, back⟩

/-- Every term of a row has a range inside the range of the row. -/
theorem RowSpans.of_mem {terms : List Term} {first stop : Nat} (spans : RowSpans terms first stop)
    {term : Term} (member : term ∈ terms) :
    ∃ low high, first ≤ low ∧ high ≤ stop ∧ term.Spans low high := by
  induction terms generalizing first with
  | nil => cases member
  | cons head rest ih =>
    obtain ⟨middle, here, later⟩ := spans
    have before := here.lt
    rcases List.mem_cons.1 member with rfl | member
    · exact ⟨first, middle, Nat.le_refl _, rowSpans_le later, here⟩
    · obtain ⟨low, high, above, below, inside⟩ := ih later member
      exact ⟨low, high, by omega, below, inside⟩

/-! ## What the ledger says about a range -/

namespace Ledger

variable {ledger other : Ledger}

theorem SameOn.isEvaluated {first stop : Nat} (same : SameOn ledger other first stop) {term : Term}
    (spans : term.Spans first stop) : ledger.isEvaluated term = other.isEvaluated term := by
  unfold Ledger.isEvaluated
  rw [(same term.id spans.first_le spans.id_lt).term]

theorem SameAt.isRollEvaluated {roll : Roll} (same : SameAt ledger other roll.id) :
    ledger.isRollEvaluated roll = other.isRollEvaluated roll := by
  unfold Ledger.isRollEvaluated
  rw [same.roll]

theorem SameAt.rollTotal {roll : Roll} (same : SameAt ledger other roll.id) :
    ledger.rollTotal roll = other.rollTotal roll := by
  unfold Ledger.rollTotal
  rw [same.isRollEvaluated, same.roll]

theorem SameOn.rollTotals {rolls : List Roll} {first stop : Nat}
    (same : SameOn ledger other first stop) (spans : RollsSpan rolls first stop) :
    rolls.map ledger.rollTotal = rolls.map other.rollTotal := by
  induction rolls generalizing first with
  | nil => rfl
  | cons roll rest ih =>
    obtain ⟨here, later⟩ := spans
    have before := rowSpans_le here
    have behind := rollsSpan_le later
    have first := (same roll.id before (Nat.lt_of_succ_le behind)).rollTotal
    have others := ih (same.mono (Nat.le_succ_of_le before) (Nat.le_refl _)) later
    rw [List.map_cons, List.map_cons, first, others]

theorem SameOn.totalOf {first stop : Nat} (same : SameOn ledger other first stop) {term : Term}
    (spans : term.Spans first stop) : ledger.totalOf term = other.totalOf term := by
  have here := same term.id spans.first_le spans.id_lt
  cases term with
  | numeric tag value => rfl
  | operator tag op => rfl
  | text tag word => rfl
  | group tag roll =>
    obtain ⟨inside, own, ended⟩ := spans
    have before := rowSpans_le inside
    have below : roll.id < stop := by
      unfold Identity at *
      omega
    exact congrArg Except.ok (same roll.id before below).rollTotal
  | function tag fn rolls =>
    obtain ⟨inside, ended⟩ := spans
    have rolled := (same.mono (Nat.le_refl _) (by unfold Identity at *; omega)).rollTotals inside
    exact congrArg fn.value rolled
  | dice d => exact congrArg (fun state => Outcome.total (TermState.outcomes state)) here.term
  | pool p => exact congrArg (fun state => Outcome.total (TermState.outcomes state)) here.term

theorem SameOn.total {first stop : Nat} (same : SameOn ledger other first stop) {term : Term}
    (spans : term.Spans first stop) : ledger.total term = other.total term := by
  unfold Ledger.total
  rw [same.isEvaluated spans, same.totalOf spans]

mutual

theorem SameOn.record : {term : Term} → {first stop : Nat} → SameOn ledger other first stop →
    term.Spans first stop → ledger.record term = other.record term
  | .numeric tag value, _, _, same, spans => by
    simp only [Ledger.record, termRecord, same.isEvaluated spans]
  | .operator tag op, _, _, same, spans => by
    simp only [Ledger.record, termRecord, same.isEvaluated spans]
  | .text tag word, _, _, same, spans => by
    simp only [Ledger.record, termRecord, same.isEvaluated spans]
  | .group tag roll, _, stop, same, spans => by
    have evaluated := same.isEvaluated spans
    obtain ⟨inside, own, ended⟩ := spans
    have below : roll.id ≤ stop := by
      unfold Identity at *
      omega
    have here := same roll.id (rowSpans_le inside) (by unfold Identity at *; omega)
    simp only [Ledger.record, termRecord, rollRecord, evaluated, here.rollTotal,
      here.isRollEvaluated, records_same (same.mono (Nat.le_refl _) below) inside]
  | .function tag fn rolls, _, stop, same, spans => by
    have evaluated := same.isEvaluated spans
    obtain ⟨inside, ended⟩ := spans
    have below : tag.id ≤ stop := by
      unfold Identity at *
      omega
    simp only [Ledger.record, termRecord, evaluated,
      rollRecords_same (same.mono (Nat.le_refl _) below) inside]
  | .dice d, first, stop, same, spans => by
    have evaluated := same.isEvaluated spans
    have here := same d.tag.id spans.first_le spans.id_lt
    obtain ⟨⟨middle, number, faces⟩, ended⟩ := spans
    have before := amountSpans_le number
    have behind := amountSpans_le faces
    have numbers := amountRecord_same (same.mono (Nat.le_refl first)
      (by unfold Identity at *; omega)) number
    have faced := amountRecord_same (same.mono before (by unfold Identity at *; omega)) faces
    simp only [Ledger.record, termRecord, outcomesRecord, outcomes, evaluated, here.term, numbers,
      faced]
  | .pool p, _, stop, same, spans => by
    have evaluated := same.isEvaluated spans
    have here := same p.tag.id spans.first_le spans.id_lt
    obtain ⟨inside, ended⟩ := spans
    have below : p.tag.id ≤ stop := by
      unfold Identity at *
      omega
    simp only [Ledger.record, termRecord, outcomesRecord, outcomes, evaluated, here.term,
      rollRecords_same (same.mono (Nat.le_refl _) below) inside]

theorem records_same : {terms : List Term} → {first stop : Nat} →
    SameOn ledger other first stop → RowSpans terms first stop →
    ledger.records terms = other.records terms
  | [], _, _, _, _ => rfl
  | term :: rest, _, _, same, ⟨middle, here, later⟩ => by
    have below := rowSpans_le later
    have head := SameOn.record (same.mono (Nat.le_refl _) below) here
    have tail := records_same (same.mono (Nat.le_of_lt here.lt) (Nat.le_refl _)) later
    simp only [records, head, tail]

theorem rollRecords_same : {rolls : List Roll} → {first stop : Nat} →
    SameOn ledger other first stop → RollsSpan rolls first stop →
    ledger.rollRecords rolls = other.rollRecords rolls
  | [], _, _, _, _ => rfl
  | roll :: rest, _, _, same, ⟨inside, later⟩ => by
    have before := rowSpans_le inside
    have behind := rollsSpan_le later
    have here := same roll.id before (Nat.lt_of_succ_le behind)
    have row := records_same (same.mono (Nat.le_refl _) (Nat.le_of_succ_le behind)) inside
    have others := rollRecords_same (same.mono (Nat.le_succ_of_le before) (Nat.le_refl _)) later
    simp only [rollRecords, rollRecord, here.rollTotal, here.isRollEvaluated, row, others]

theorem amountRecord_same : {amount : Operand Term} → {first stop : Nat} →
    SameOn ledger other first stop → AmountSpans amount first stop →
    ledger.amountRecord amount = other.amountRecord amount
  | .known _, _, _, _, _ => rfl
  | .computed _, _, _, same, spans => SameOn.record same spans

end

/-- The record of a roll depends on the ledger in the range of the roll only. -/
theorem SameOn.recordOfRoll {roll : Roll} {first stop : Nat} (same : SameOn ledger other first stop)
    (spans : roll.Spans first stop) : ledger.recordOfRoll roll = other.recordOfRoll roll := by
  obtain ⟨inside, ended⟩ := spans
  have before := rowSpans_le inside
  have here := same roll.id before (by unfold Identity at *; omega)
  have row := records_same (same.mono (Nat.le_refl _) (by unfold Identity at *; omega)) inside
  simp only [Ledger.recordOfRoll, rollRecord, here.rollTotal, here.isRollEvaluated, row]

end Ledger
end DiceNotation
