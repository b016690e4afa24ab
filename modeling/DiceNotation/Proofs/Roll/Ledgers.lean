import DiceNotation.Roll.Total

namespace DiceNotation

/-!
# Ledgers compared

Building takes identities from a ledger, and evaluating changes what is known
about some of them.  Either way most of the ledger stays what it was.  A ledger
extends another one if it knows the same about every identity that was in use,
and two ledgers are the same on a range if they know the same about every
identity in it.
-/

/-- A state in which nothing has happened.  The method may be chosen already. -/
def TermState.IsFresh (state : TermState) : Prop := state = { method := state.method }

namespace Ledger

/-! ## Reading after writing -/

section

variable (ledger : Ledger) (id other : Identity)

theorem term_allot : ledger.allot.term other =
    if ledger.next = other then default else ledger.term other :=
  Table.get_set _ _ _ _

theorem roll_allot : ledger.allot.roll other =
    if ledger.next = other then default else ledger.roll other :=
  Table.get_set _ _ _ _

@[simp] theorem next_allot : ledger.allot.next = ledger.next + 1 := rfl

theorem term_updateTerm (change : TermState → TermState) :
    (ledger.updateTerm id change).term other =
      if id = other then change (ledger.term id) else ledger.term other :=
  Table.get_set _ _ _ _

@[simp] theorem roll_updateTerm (change : TermState → TermState) :
    (ledger.updateTerm id change).roll other = ledger.roll other := rfl

@[simp] theorem next_updateTerm (change : TermState → TermState) :
    (ledger.updateTerm id change).next = ledger.next := rfl

theorem roll_updateRoll (change : RollState → RollState) :
    (ledger.updateRoll id change).roll other =
      if id = other then change (ledger.roll id) else ledger.roll other :=
  Table.get_set _ _ _ _

@[simp] theorem term_updateRoll (change : RollState → RollState) :
    (ledger.updateRoll id change).term other = ledger.term other := rfl

@[simp] theorem next_updateRoll (change : RollState → RollState) :
    (ledger.updateRoll id change).next = ledger.next := rfl

end

/-! ## The same on a range -/

/-- Two ledgers know the same about an identity. -/
structure SameAt (ledger other : Ledger) (id : Identity) : Prop where
  term : ledger.term id = other.term id
  roll : ledger.roll id = other.roll id

/-- Two ledgers know the same about the identities from `first` on and below `stop`. -/
def SameOn (ledger other : Ledger) (first stop : Identity) : Prop :=
  ∀ id, first ≤ id → id < stop → SameAt ledger other id

variable {ledger other third : Ledger} {first middle stop : Identity}

theorem SameAt.refl (ledger : Ledger) (id : Identity) : SameAt ledger ledger id := ⟨rfl, rfl⟩

theorem SameAt.symm {id : Identity} (same : SameAt ledger other id) : SameAt other ledger id :=
  ⟨same.term.symm, same.roll.symm⟩

theorem SameAt.trans {id : Identity} (same : SameAt ledger other id)
    (further : SameAt other third id) : SameAt ledger third id :=
  ⟨same.term.trans further.term, same.roll.trans further.roll⟩

theorem SameOn.refl (ledger : Ledger) : SameOn ledger ledger first stop :=
  fun id _ _ => SameAt.refl ledger id

theorem SameOn.symm (same : SameOn ledger other first stop) : SameOn other ledger first stop :=
  fun id from_ below => (same id from_ below).symm

theorem SameOn.trans (same : SameOn ledger other first stop)
    (further : SameOn other third first stop) : SameOn ledger third first stop :=
  fun id from_ below => (same id from_ below).trans (further id from_ below)

/-- What is the same on a range is the same on a part of it. -/
theorem SameOn.mono (same : SameOn ledger other first stop) {low high : Identity}
    (above : first ≤ low) (below : high ≤ stop) : SameOn ledger other low high :=
  fun id from_ upTo => same id (Nat.le_trans above from_) (Nat.lt_of_lt_of_le upTo below)

/-- A change behind a range leaves the range the same. -/
theorem SameOn.updateTerm (ledger : Ledger) {id : Identity} (behind : stop ≤ id)
    (change : TermState → TermState) :
    SameOn ledger (ledger.updateTerm id change) first stop := by
  intro given _ below
  have different : id ≠ given := Nat.ne_of_gt (Nat.lt_of_lt_of_le below behind)
  constructor
  · rw [term_updateTerm, if_neg different]
  · rfl

theorem SameOn.updateRoll (ledger : Ledger) {id : Identity} (behind : stop ≤ id)
    (change : RollState → RollState) :
    SameOn ledger (ledger.updateRoll id change) first stop := by
  intro given _ below
  have different : id ≠ given := Nat.ne_of_gt (Nat.lt_of_lt_of_le below behind)
  constructor
  · rfl
  · rw [roll_updateRoll, if_neg different]

/-! ## Ledgers with more identities in use -/

/-- A ledger knows the same about all identities that were in use. -/
structure Extends (before after : Ledger) : Prop where
  next_le : before.next ≤ after.next
  same : SameOn before after 0 before.next

theorem Extends.refl (ledger : Ledger) : Extends ledger ledger :=
  ⟨Nat.le_refl _, SameOn.refl ledger⟩

theorem Extends.trans (extended : Extends ledger other) (further : Extends other third) :
    Extends ledger third where
  next_le := Nat.le_trans extended.next_le further.next_le
  same := extended.same.trans (further.same.mono (Nat.le_refl 0) extended.next_le)

theorem Extends.allot (ledger : Ledger) : Extends ledger ledger.allot where
  next_le := Nat.le_succ _
  same := by
    intro id _ used
    have different : ledger.next ≠ id := Nat.ne_of_gt used
    constructor
    · rw [term_allot, if_neg different]
    · rw [roll_allot, if_neg different]

/-- To change what is known about an identity that was not in use extends a ledger still. -/
theorem Extends.updateTerm (extended : Extends ledger other) {id : Identity}
    (unused : ledger.next ≤ id) (change : TermState → TermState) :
    Extends ledger (other.updateTerm id change) where
  next_le := extended.next_le
  same := by
    intro given _ used
    have different : id ≠ given := Nat.ne_of_gt (Nat.lt_of_lt_of_le used unused)
    have same := extended.same given (Nat.zero_le _) used
    constructor
    · rw [term_updateTerm, if_neg different, same.term]
    · exact same.roll

theorem Extends.updateRoll (extended : Extends ledger other) {id : Identity}
    (unused : ledger.next ≤ id) (change : RollState → RollState) :
    Extends ledger (other.updateRoll id change) where
  next_le := extended.next_le
  same := by
    intro given _ used
    have different : id ≠ given := Nat.ne_of_gt (Nat.lt_of_lt_of_le used unused)
    have same := extended.same given (Nat.zero_le _) used
    constructor
    · exact same.term
    · rw [roll_updateRoll, if_neg different, same.roll]

/-! ## Nothing evaluated yet -/

/-- Nothing has happened yet to the identities of a range. -/
def FreshOn (ledger : Ledger) (first stop : Identity) : Prop :=
  ∀ id, first ≤ id → id < stop → (ledger.term id).IsFresh ∧ ledger.roll id = default

theorem FreshOn.nil (ledger : Ledger) : FreshOn ledger first first := by
  intro id from_ below
  exact absurd from_ (Nat.not_le.2 below)

theorem FreshOn.append (fresh : FreshOn ledger first middle) (more : FreshOn ledger middle stop) :
    FreshOn ledger first stop := by
  intro id from_ below
  rcases Nat.lt_or_ge id middle with low | high
  · exact fresh id from_ low
  · exact more id high below

theorem FreshOn.mono (fresh : FreshOn ledger first stop) {low high : Identity}
    (above : first ≤ low) (below : high ≤ stop) : FreshOn ledger low high :=
  fun id from_ upTo => fresh id (Nat.le_trans above from_) (Nat.lt_of_lt_of_le upTo below)

theorem FreshOn.of_same (fresh : FreshOn ledger first stop)
    (same : SameOn ledger other first stop) : FreshOn other first stop := by
  intro id from_ below
  have here := same id from_ below
  rw [← here.term, ← here.roll]
  exact fresh id from_ below

/-- What was fresh is fresh in an extension. -/
theorem FreshOn.extend (fresh : FreshOn ledger first ledger.next)
    (extended : Extends ledger other) : FreshOn other first ledger.next :=
  fresh.of_same (extended.same.mono (Nat.zero_le _) (Nat.le_refl _))

theorem FreshOn.allot (ledger : Ledger) : FreshOn ledger.allot ledger.next (ledger.next + 1) := by
  intro id from_ below
  obtain rfl : ledger.next = id := Nat.le_antisymm from_ (Nat.le_of_lt_succ below)
  rw [term_allot, roll_allot, if_pos rfl, if_pos rfl]
  exact ⟨rfl, rfl⟩

/-- To choose a method leaves everything fresh. -/
theorem FreshOn.setMethod (fresh : FreshOn ledger first stop) (id : Identity) (method : Json) :
    FreshOn (ledger.updateTerm id fun state => { state with method := method }) first stop := by
  intro given from_ below
  obtain ⟨blank, none⟩ := fresh given from_ below
  refine ⟨?_, none⟩
  rw [term_updateTerm]
  split
  · rename_i same
    subst same
    unfold TermState.IsFresh at blank ⊢
    rw [blank]
  · exact blank

/-! ## What was touched -/

/-- From one ledger to the next, only what is inside was touched, and no method was
changed. -/
structure Touched (inside : Identity → Prop) (before after : Ledger) : Prop where
  next_le : before.next ≤ after.next
  method : ∀ id < before.next, (after.term id).method = (before.term id).method
  outside : ∀ id < before.next, ¬inside id → SameAt before after id

variable {inside : Identity → Prop}

theorem Touched.refl (ledger : Ledger) : Touched inside ledger ledger :=
  ⟨Nat.le_refl _, fun _ _ => rfl, fun id _ _ => SameAt.refl ledger id⟩

theorem Touched.trans (touched : Touched inside ledger other)
    (further : Touched inside other third) : Touched inside ledger third where
  next_le := Nat.le_trans touched.next_le further.next_le
  method := by
    intro id used
    rw [further.method id (Nat.lt_of_lt_of_le used touched.next_le), touched.method id used]
  outside := by
    intro id used apart
    have later := further.outside id (Nat.lt_of_lt_of_le used touched.next_le) apart
    exact (touched.outside id used apart).trans later

/-- What was touched in a smaller region was touched in a larger one. -/
theorem Touched.mono {region : Identity → Prop} (touched : Touched inside ledger other)
    (within : ∀ id, inside id → region id) : Touched region ledger other where
  next_le := touched.next_le
  method := touched.method
  outside id used apart := touched.outside id used fun here => apart (within id here)

/-- A range that does not meet the region is the same as before. -/
theorem Touched.sameOn (touched : Touched inside ledger other)
    (used : stop ≤ ledger.next) (apart : ∀ id, first ≤ id → id < stop → ¬inside id) :
    SameOn ledger other first stop :=
  fun id from_ below =>
    touched.outside id (Nat.lt_of_lt_of_le below used) (apart id from_ below)

theorem Touched.updateTerm {id : Identity} (here : inside id) {change : TermState → TermState}
    (kept : ∀ state, (change state).method = state.method) :
    Touched inside ledger (ledger.updateTerm id change) where
  next_le := Nat.le_refl _
  method := by
    intro given _
    rw [term_updateTerm]
    split
    · rename_i same
      rw [kept, same]
    · rfl
  outside := by
    intro given _ apart
    have different : id ≠ given := by
      rintro rfl
      exact apart here
    constructor
    · rw [term_updateTerm, if_neg different]
    · rfl

theorem Touched.updateRoll {id : Identity} (here : inside id) (change : RollState → RollState) :
    Touched inside ledger (ledger.updateRoll id change) where
  next_le := Nat.le_refl _
  method := fun _ _ => rfl
  outside := by
    intro given _ apart
    have different : id ≠ given := by
      rintro rfl
      exact apart here
    constructor
    · rfl
    · rw [roll_updateRoll, if_neg different]

/-- To extend a ledger touches nothing that is known. -/
theorem Extends.touched (extended : Extends ledger other) : Touched inside ledger other where
  next_le := extended.next_le
  method := by
    intro id used
    rw [(extended.same id (Nat.zero_le _) used).term]
  outside id used _ := extended.same id (Nat.zero_le _) used

/-! ## Ranges that wait to be evaluated -/

/-- Nothing in a range has been evaluated yet, or is being evaluated.  Its identities
are in use. -/
structure Waits (ledger : Ledger) (first stop : Nat) : Prop where
  phases : ∀ id, first ≤ id → id < stop →
    (ledger.term id).phase = .unevaluated ∧ (ledger.roll id).phase = .unevaluated
  used : stop ≤ ledger.next

namespace Waits

theorem of_fresh (fresh : FreshOn ledger first stop) (used : stop ≤ ledger.next) :
    ledger.Waits first stop where
  phases := by
    intro id above below
    rcases fresh id above below with ⟨blank, none⟩
    rw [blank, none]
    exact ⟨rfl, rfl⟩
  used := used

theorem mono (waits : ledger.Waits first stop) {low high : Nat} (above : first ≤ low)
    (below : high ≤ stop) : ledger.Waits low high where
  phases id from_ upTo := waits.phases id (Nat.le_trans above from_) (Nat.lt_of_lt_of_le upTo below)
  used := Nat.le_trans below waits.used

/-- A range waits for as long as only others are touched. -/
theorem of_touched (waits : ledger.Waits first stop) {inside : Identity → Prop}
    (touched : Touched inside ledger other)
    (apart : ∀ id, first ≤ id → id < stop → ¬inside id) : other.Waits first stop where
  phases := by
    intro id above below
    have same := touched.sameOn waits.used apart id above below
    rw [← same.term, ← same.roll]
    exact waits.phases id above below
  used := Nat.le_trans waits.used touched.next_le

theorem phase (waits : ledger.Waits first stop) {id : Identity} (above : first ≤ id)
    (below : id < stop) : (ledger.term id).phase = .unevaluated :=
  (waits.phases id above below).1

theorem rollPhase (waits : ledger.Waits first stop) {id : Identity} (above : first ≤ id)
    (below : id < stop) : (ledger.roll id).phase = .unevaluated :=
  (waits.phases id above below).2

theorem isEvaluated (waits : ledger.Waits first stop) {term : Term} (above : first ≤ term.id)
    (below : term.id < stop) : ledger.isEvaluated term = false := by
  rw [Ledger.isEvaluated, waits.phase above below]
  rfl

theorem isRollEvaluated (waits : ledger.Waits first stop) {roll : Roll} (above : first ≤ roll.id)
    (below : roll.id < stop) : ledger.isRollEvaluated roll = false := by
  rw [Ledger.isRollEvaluated, waits.rollPhase above below]
  rfl

end Waits

end Ledger

/-!
## Ledgers that agree

Two evaluations of the same roll may come to the same outcomes in different orders.  While
they last, their ledgers differ in dice that are not evaluated yet.  Whatever is read to go
on with the evaluation does not depend on these: a total is null as long as a term has not
been evaluated.
-/

namespace Ledger

/-- Two ledgers agree on rolls and phases, and on the outcomes of all terms that have been
evaluated. -/
structure Agrees (ledger other : Ledger) : Prop where
  roll : ∀ id, ledger.roll id = other.roll id
  phase : ∀ id, (ledger.term id).phase = (other.term id).phase
  outcomes : ∀ id, (ledger.term id).phase = .evaluated →
    (ledger.term id).outcomes = (other.term id).outcomes

namespace Agrees

variable {ledger other : Ledger} (agrees : ledger.Agrees other)
include agrees

theorem isEvaluated (term : Term) : ledger.isEvaluated term = other.isEvaluated term :=
  congrArg (· == .evaluated) (agrees.phase term.id)

theorem isRollEvaluated (roll : Roll) : ledger.isRollEvaluated roll = other.isRollEvaluated roll :=
  congrArg (RollState.phase · == .evaluated) (agrees.roll roll.id)

theorem rollTotal (roll : Roll) : ledger.rollTotal roll = other.rollTotal roll := by
  unfold Ledger.rollTotal
  rw [agrees.isRollEvaluated roll, agrees.roll]

theorem functionValue (fn : Function) (rolls : List Roll) :
    ledger.functionValue fn rolls = other.functionValue fn rolls :=
  congrArg fn.value (List.map_congr_left fun roll _ => agrees.rollTotal roll)

/-- The totals of all terms are the same, whether they are evaluated or not. -/
theorem total : ledger.total = other.total := by
  funext term
  unfold Ledger.total
  rw [← agrees.isEvaluated term]
  split
  · rename_i evaluated
    rw [Ledger.isEvaluated, beq_iff_eq] at evaluated
    have outcomes := congrArg Outcome.total (agrees.outcomes term.id evaluated)
    cases term with
    | group tag roll => exact congrArg Except.ok (agrees.rollTotal roll)
    | function tag fn rolls => exact agrees.functionValue fn rolls
    | dice d => exact outcomes
    | pool p => exact outcomes
    | _ => rfl
  · rfl

theorem totalOfTerms (terms : List Term) : ledger.totalOfTerms terms = other.totalOfTerms terms := by
  unfold Ledger.totalOfTerms
  rw [agrees.total]

theorem amount (amount : Operand Term) : ledger.amount amount = other.amount amount := by
  cases amount with
  | known n => rfl
  | computed term => exact congrArg (Except.map Json.wholeNumber) (congrFun agrees.total term)

theorem maximumValue (dice : Dice) : ledger.maximumValue dice = other.maximumValue dice := by
  unfold Ledger.maximumValue
  rw [agrees.amount]

theorem accepts (dice : Dice) (value : Json) :
    ledger.accepts dice value = other.accepts dice value := by
  unfold Ledger.accepts
  rw [agrees.maximumValue]

end Agrees
end Ledger
end DiceNotation
