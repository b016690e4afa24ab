import DiceNotation.Proofs.Roll.Ledgers
import DiceNotation.Proofs.Roll.Throughout

namespace DiceNotation

/-!
# Ledgers that differ in methods

Dice can be given other methods after they were built, and settings can name other methods
for them.  In the ledger this concerns one field of the state of a die.  Where the results
do not depend on methods, two ledgers that differ in nothing else are as good as the same.
-/

namespace Build

/-- The methods of the dice of a roll. -/
def methodNames (pair : Roll × Ledger) : List String :=
  pair.1.dice.map fun dice => (pair.2.term dice.tag.id).method.plainText

end Build

/-- The state of a term without the method of dice. -/
def TermState.withoutMethod (state : TermState) : TermState := { state with method := .null }

/-- A change of a term that neither looks at its method nor changes it. -/
def TermState.IgnoresMethod (change : TermState → TermState) : Prop :=
  ∀ state method, change { state with method := method } = { change state with method := method }

namespace TermState.IgnoresMethod

variable {change : TermState → TermState}

theorem method (ignores : IgnoresMethod change) (state : TermState) :
    (change state).method = state.method := by
  have whole := congrArg TermState.method (ignores state state.method)
  exact whole

theorem alike (ignores : IgnoresMethod change) {state other : TermState}
    (same : state.withoutMethod = other.withoutMethod) :
    (change state).withoutMethod = (change other).withoutMethod := by
  have blank (given : TermState) : (change given).withoutMethod = change given.withoutMethod :=
    (ignores given .null).symm
  rw [blank, blank, same]

end TermState.IgnoresMethod

/-- Two ledgers are the same but for the methods of dice. -/
structure Ledger.SameButMethods (ledger other : Ledger) : Prop where
  roll : ∀ id, ledger.roll id = other.roll id
  term : ∀ id, (ledger.term id).withoutMethod = (other.term id).withoutMethod
  next : ledger.next = other.next

namespace Ledger.SameButMethods

variable {ledger other third : Ledger}

theorem refl (ledger : Ledger) : ledger.SameButMethods ledger :=
  ⟨fun _ => rfl, fun _ => rfl, rfl⟩

theorem symm (same : ledger.SameButMethods other) : other.SameButMethods ledger :=
  ⟨fun id => (same.roll id).symm, fun id => (same.term id).symm, same.next.symm⟩

theorem trans (same : ledger.SameButMethods other) (further : other.SameButMethods third) :
    ledger.SameButMethods third :=
  ⟨fun id => (same.roll id).trans (further.roll id),
    fun id => (same.term id).trans (further.term id), same.next.trans further.next⟩

section

variable (same : ledger.SameButMethods other) (id : Identity)
include same

theorem phase : (ledger.term id).phase = (other.term id).phase := by
  have whole := congrArg TermState.phase (same.term id)
  exact whole

theorem outcomes : (ledger.term id).outcomes = (other.term id).outcomes := by
  have whole := congrArg TermState.outcomes (same.term id)
  exact whole

theorem counting : (ledger.term id).counting = (other.term id).counting := by
  have whole := congrArg TermState.counting (same.term id)
  exact whole

/-- Whatever is read to go on with an evaluation is the same. -/
theorem agrees : ledger.Agrees other :=
  ⟨same.roll, same.phase, fun id _ => same.outcomes id⟩

/-- A term is changed in both ledgers, alike but for its method. -/
theorem updateTerms {change changeToo : TermState → TermState}
    (alike : ∀ state other : TermState, state.withoutMethod = other.withoutMethod →
      (change state).withoutMethod = (changeToo other).withoutMethod) :
    (ledger.updateTerm id change).SameButMethods (other.updateTerm id changeToo) where
  roll := same.roll
  term asked := by
    rw [term_updateTerm, term_updateTerm]
    split
    · exact alike _ _ (same.term id)
    · exact same.term asked
  next := same.next

theorem updateTerm {change : TermState → TermState} (ignores : TermState.IgnoresMethod change) :
    (ledger.updateTerm id change).SameButMethods (other.updateTerm id change) :=
  same.updateTerms id fun _ _ => ignores.alike

theorem updateRoll (change : RollState → RollState) :
    (ledger.updateRoll id change).SameButMethods (other.updateRoll id change) where
  roll asked := by
    rw [roll_updateRoll, roll_updateRoll, same.roll id, same.roll asked]
  term := same.term
  next := same.next

theorem allot : ledger.allot.SameButMethods other.allot where
  roll asked := by
    rw [roll_allot, roll_allot, same.next, same.roll asked]
  term asked := by
    rw [term_allot, term_allot, same.next]
    split
    · rfl
    · exact same.term asked
  next := congrArg (· + 1) same.next

end

/-- To give dice a method changes nothing else. -/
theorem giving (ledger : Ledger) (id : Identity) (method : Json) :
    ledger.SameButMethods (ledger.updateTerm id fun state => { state with method := method }) where
  roll _ := rfl
  term asked := by
    rw [term_updateTerm]
    split
    · rename_i own
      rw [own]
      rfl
    · rfl
  next := rfl

end Ledger.SameButMethods

/-!
## Ranges that are as they were made

The identities of a roll are fresh when it is made: nothing is evaluated and there are no
results.  A range stays intact as long as only other ranges are touched, and it does not
matter if dice are given other methods before the evaluation begins.
-/

/-- Nothing has happened to a range since it was made. -/
structure Ledger.IsIntact (made : Ledger) (first stop : Nat) (ledger : Ledger) : Prop where
  fresh : FreshOn made first stop
  same : SameOn made ledger first stop
  used : stop ≤ ledger.next

namespace Ledger.IsIntact

variable {made ledger other : Ledger} {first stop low high : Nat}

theorem mono (intact : made.IsIntact first stop ledger) (above : first ≤ low)
    (below : high ≤ stop) : made.IsIntact low high ledger :=
  ⟨intact.fresh.mono above below, intact.same.mono above below, Nat.le_trans below intact.used⟩

theorem of_touched (intact : made.IsIntact first stop ledger) {inside : Identity → Prop}
    (touched : Touched inside ledger other) (apart : ∀ id, first ≤ id → id < stop → ¬inside id) :
    made.IsIntact first stop other :=
  ⟨intact.fresh, intact.same.trans (touched.sameOn intact.used apart),
    Nat.le_trans intact.used touched.next_le⟩

/-- What happens behind a range leaves it intact. -/
theorem of_behind (intact : made.IsIntact first stop ledger)
    (touched : Touched (Between low high) ledger other) (behind : stop ≤ low) :
    made.IsIntact first stop other :=
  intact.of_touched touched fun _ _ below inside =>
    Nat.not_lt.2 (Nat.le_trans behind inside.1) below

/-- What happens before a range leaves it intact. -/
theorem of_before (intact : made.IsIntact first stop ledger)
    (touched : Touched (Between low high) ledger other) (before : high ≤ first) :
    made.IsIntact first stop other :=
  intact.of_touched touched fun _ above _ inside =>
    Nat.not_lt.2 above (Nat.lt_of_lt_of_le inside.2 before)

theorem waits (intact : made.IsIntact first stop ledger) : ledger.Waits first stop :=
  .of_fresh (intact.fresh.of_same intact.same) intact.used

end Ledger.IsIntact

/-- Whatever methods the dice have got, a range is as fresh as it was. -/
theorem Ledger.FreshOn.of_sameButMethods {ledger other : Ledger} {first stop : Nat}
    (fresh : ledger.FreshOn first stop) (same : ledger.SameButMethods other) :
    other.FreshOn first stop := by
  intro id above below
  rcases fresh id above below with ⟨blank, none⟩
  refine ⟨?_, (same.roll id).symm.trans none⟩
  have bare : (other.term id).withoutMethod = {} := by
    rw [← same.term id, blank]
    rfl
  have whole := congrArg ({ · with method := (other.term id).method } : TermState → TermState) bare
  exact whole

end DiceNotation
