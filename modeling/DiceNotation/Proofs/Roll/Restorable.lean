import DiceNotation.Proofs.Roll.Copies
import DiceNotation.Roll.Restore

namespace DiceNotation

/-!
# What can be restored

The record of a term can be restored if the term is sound, if the methods of its
dice are known, and if its rolls are evaluated exactly when their terms are, with
the total that the terms give.  This module looks at the single parts of a record:
each of them is read back as what it was written from.
-/

/-- A roll is evaluated exactly when all of its terms are, and then it has the total
that they give. -/
structure RollOf.IsFaithful (ledger : Ledger) (roll : Roll) : Prop where
  evaluated : ledger.isRollEvaluated roll = roll.terms.all ledger.isEvaluated
  total : ledger.isRollEvaluated roll = true →
    ledger.totalOfTerms roll.terms = .ok (ledger.rollTotal roll)

/-- Whether dice have a method that is known. -/
def Term.HasKnownMethod (setup : Setup) (ledger : Ledger) (term : Term) : Prop :=
  ∀ dice, term = .dice dice → ∃ name known, setup.methods.get name = .ok known ∧
    (ledger.term dice.tag.id).method = .string name

structure Term.IsRestorable (setup : Setup) (ledger : Ledger) (term : Term) : Prop where
  sound : term.IsSound
  method : term.HasKnownMethod setup ledger

structure RollOf.IsRestorable (ledger : Ledger) (roll : Roll) : Prop where
  sound : roll.IsSound
  faithful : roll.IsFaithful ledger

/-! ## Identities in a new place -/

/-- The identities from `low` on, moved to `base`. -/
def shift (low base : Nat) (id : Identity) : Identity := base + (id - low)

theorem shift_first (low base : Nat) : base = shift low base low := by
  unfold shift
  rw [Nat.sub_self]
  rfl

theorem shift_succ {low base id : Nat} (above : low ≤ id) :
    shift low base (id + 1) = shift low base id + 1 := by
  unfold shift
  rw [Nat.sub_add_comm above]
  rfl

theorem shift_lt {low base id stop : Nat} (above : low ≤ id) (below : id < stop) :
    shift low base id < shift low base stop := by
  unfold shift
  exact Nat.add_lt_add_left (Nat.sub_lt_sub_right above below) base

theorem Term.Alike.of_same {f : Identity → Identity} {ledger other third : Ledger} {term : Term}
    (alike : term.Alike f ledger other) (same : Ledger.SameAt other third (f term.id)) :
    term.Alike f ledger third := by
  have state : ∀ id, id = f term.id → other.term id = third.term id := by
    rintro id rfl
    exact same.term
  constructor
  · rw [← alike.evaluated, Ledger.isEvaluated, Ledger.isEvaluated,
      state _ (Term.id_renumber f term)]
  · intro d is
    have here := state (f d.tag.id) (by rw [is]; rfl)
    rw [Ledger.outcomes, ← here]
    exact alike.dice d is
  · intro p is
    have here := state (f p.tag.id) (by rw [is]; rfl)
    rw [Ledger.outcomes, ← here]
    exact alike.pool p is

theorem RollOf.Alike.of_same {f : Identity → Identity} {ledger other third : Ledger} {roll : Roll}
    (alike : roll.Alike f ledger other) (same : Ledger.SameAt other third (f roll.id)) :
    roll.Alike f ledger third := by
  have there : Ledger.SameAt other third (roll.renumber f).id := same
  constructor
  · rw [← there.isRollEvaluated]
    exact alike.evaluated
  · rw [← there.rollTotal]
    exact alike.total

section

variable {low base first stop : Nat} {ledger other third : Ledger}

theorem sameAt_shift (extended : Ledger.Extends other third) (ended : other.next = shift low base stop)
    {id : Identity} (above : low ≤ id) (below : id < stop) :
    Ledger.SameAt other third (shift low base id) := by
  refine extended.same _ (Nat.zero_le _) ?_
  rw [ended]
  exact shift_lt above below

theorem Term.Copied.extend {term : Term} (copied : term.Copied (shift low base) ledger other)
    (spans : term.Spans first stop) (above : low ≤ first)
    (ended : other.next = shift low base stop) (extended : Ledger.Extends other third) :
    term.Copied (shift low base) ledger third :=
  Term.Throughout.imp spans
    (fun _ from_ below alike => alike.of_same
      (sameAt_shift extended ended (Nat.le_trans above from_) below))
    (fun _ from_ below alike => alike.of_same
      (sameAt_shift extended ended (Nat.le_trans above from_) below)) copied

theorem RowCopied.extend {terms : List Term} (copied : RowCopied (shift low base) ledger other terms)
    (spans : RowSpans terms first stop) (above : low ≤ first)
    (ended : other.next = shift low base stop) (extended : Ledger.Extends other third) :
    RowCopied (shift low base) ledger third terms :=
  RowThroughout.imp spans
    (fun _ from_ below alike => alike.of_same
      (sameAt_shift extended ended (Nat.le_trans above from_) below))
    (fun _ from_ below alike => alike.of_same
      (sameAt_shift extended ended (Nat.le_trans above from_) below)) copied

theorem RollsCopied.extend {rolls : List Roll}
    (copied : RollsCopied (shift low base) ledger other rolls)
    (spans : RollsSpan rolls first stop) (above : low ≤ first)
    (ended : other.next = shift low base stop) (extended : Ledger.Extends other third) :
    RollsCopied (shift low base) ledger third rolls :=
  RollsThroughout.imp spans
    (fun _ from_ below alike => alike.of_same
      (sameAt_shift extended ended (Nat.le_trans above from_) below))
    (fun _ from_ below alike => alike.of_same
      (sameAt_shift extended ended (Nat.le_trans above from_) below)) copied

theorem AmountThroughout.extendCopy {amount : Operand Term}
    (copied : AmountThroughout (Term.Alike (shift low base) ledger other)
      (RollOf.Alike (shift low base) ledger other) amount)
    (spans : AmountSpans amount first stop) (above : low ≤ first)
    (ended : other.next = shift low base stop) (extended : Ledger.Extends other third) :
    AmountThroughout (Term.Alike (shift low base) ledger third)
      (RollOf.Alike (shift low base) ledger third) amount :=
  AmountThroughout.imp spans
    (fun _ from_ below alike => alike.of_same
      (sameAt_shift extended ended (Nat.le_trans above from_) below))
    (fun _ from_ below alike => alike.of_same
      (sameAt_shift extended ended (Nat.le_trans above from_) below)) copied

theorem RollOf.Copied.extend {roll : Roll} (copied : roll.Copied (shift low base) ledger other)
    (spans : roll.Spans first stop) (above : low ≤ first)
    (ended : other.next = shift low base stop) (extended : Ledger.Extends other third) :
    roll.Copied (shift low base) ledger third := by
  rcases spans with ⟨row, rfl⟩
  constructor
  · exact copied.around.of_same (sameAt_shift extended ended (Nat.le_trans above (rowSpans_le row))
      (Nat.lt_succ_self roll.id))
  · exact RowThroughout.imp row
      (fun _ from_ below alike => alike.of_same
        (sameAt_shift extended ended (Nat.le_trans above from_) (Nat.lt_succ_of_lt below)))
      (fun _ from_ below alike => alike.of_same
        (sameAt_shift extended ended (Nat.le_trans above from_) (Nat.lt_succ_of_lt below)))
      copied.row

end

/-! ## Parts of records -/

/-- The fields that all terms have, in front of special ones. -/
def Ledger.termFields (ledger : Ledger) (term : Term) (special : Fields) : Fields :=
  [("class", .string term.termClass.name), ("options", .object term.tag.options),
    ("evaluated", .bool (ledger.isEvaluated term))] ++ special

theorem Ledger.termRecord_eq (ledger : Ledger) (term : Term) (special : Fields) :
    ledger.termRecord term special = .object (ledger.termFields term special) := rfl

namespace Build

variable (ledger : Ledger) (term : Term) (special : Fields)

theorem classOf_termFields :
    classOf (ledger.termFields term special) none = .ok term.termClass := by
  have named : Fields.get? (ledger.termFields term special) "class" =
      some (.string term.termClass.name) := rfl
  unfold classOf
  simp only [named, Option.getD_some, TermClass.ofName?_name]
  rfl

theorem isEvaluated_termFields :
    Fields.isEvaluated (ledger.termFields term special) = ledger.isEvaluated term := rfl

theorem get?_termFields {name : String} (other : ("class" == name) = false)
    (another : ("options" == name) = false) (third : ("evaluated" == name) = false) :
    Fields.get? (ledger.termFields term special) name = Fields.get? special name := by
  change Fields.get? (_ :: _ :: _ :: special) name = _
  rw [Fields.get?_cons, Fields.get?_cons, Fields.get?_cons, other, another, third]
  rfl

/-- The ledger after a restored term was marked. -/
def settled (evaluated : Bool) (id : Identity) (ledger : Ledger) : Ledger :=
  if evaluated then ledger.updateTerm id fun state => { state with phase := .evaluated } else ledger

theorem settleTerm_termFields (restored : Term) (last : Ledger) :
    settleTerm (ledger.termFields term special) restored last =
      .ok (restored, settled (ledger.isEvaluated term) restored.id last) := by
  rw [settleTerm, isEvaluated_termFields]
  cases ledger.isEvaluated term <;> rfl

end Build

/-- Modifiers are read back from their list. -/
theorem AreModifiers.listOfData {modifiers : List Json} (are : AreModifiers modifiers) :
    Command.listOfData (.array modifiers) = .ok modifiers := by
  have set : ∀ modifier ∈ modifiers, modifier.isSet = true := by
    intro modifier member
    rcases are modifier member with ⟨text, rfl, some⟩
    exact bne_iff_ne.2 some
  cases modifiers with
  | nil => rfl
  | cons first rest =>
    change Except.ok ((first :: rest).filter Json.isSet) = _
    rw [List.filter_eq_self.2 set]

/-- Outcomes are read back from their records. -/
theorem Outcome.restoreAll_records (outcomes : List Outcome) :
    Outcome.restoreAll (.array (outcomes.map Outcome.record)) = .ok outcomes := by
  have all : (outcomes.map Outcome.record).mapM Outcome.restore = .ok outcomes := by
    induction outcomes with
    | nil => rfl
    | cons outcome rest ih =>
      rw [List.map_cons, List.mapM_cons, Outcome.restore_record, ih]
      rfl
  cases outcomes with
  | nil => rfl
  | cons outcome rest => exact all

/-- The name of a known method is not empty. -/
theorem MethodTable.ne_empty_of_get {table : MethodTable} {name : String} {method : Method}
    (found : table.get name = .ok method) : name ≠ "" := by
  rintro rfl
  unfold MethodTable.get at found
  split at found
  · rename_i known entry
    rcases List.lookup_eq_some_iff.1 entry with ⟨before, behind, entries, _⟩
    have member : ("", known) ∈ table.entries := by
      rw [entries]
      exact List.mem_append_right _ List.mem_cons_self
    cases table.identifiers _ member
  · cases found

theorem Function.select_name {fn : Function} {count : Nat} (takes : fn.takes count = true) :
    Function.select (.string fn.name) count = .ok fn := by
  have named : select.ofData? (.string fn.name) = some fn := Function.ofName?_name fn
  unfold Function.select
  simp only [named]
  exact if_pos takes

end DiceNotation
