import DiceNotation.Proofs.Evaluation.Coherence
import DiceNotation.Proofs.Evaluation.Foretelling
import DiceNotation.Proofs.Evaluation.Unaided
import DiceNotation.Proofs.Fulfillment.Bookkeeping

namespace DiceNotation

/-!
# How evaluation advances

Where nobody can be asked, an evaluation begins only what has not begun, and it never comes back
to what it has evaluated.  So whatever is tried, and however it ends, terms and rolls move one
way, and what has been evaluated keeps its results and its total.

What is evaluated has a total.  Two things stand in the way.  A die that is rolled by itself, as
high as can be and before its faces are known, records that it shows nothing, and such a record
cannot be summed up.  The results of a pool may be integers too large for the decimals that
they meet.  All that is recorded of dice and pools apart from that are numbers.
-/

/-- The rolls directly inside a term. -/
def Term.rolls : Term → List Roll
  | .group _ roll => [roll]
  | .function _ _ rolls => rolls
  | .pool p => p.rolls
  | _ => []

/-! ## Regions -/

/-- Terms with everything inside them.  They are told apart by their identities. -/
structure Region where
  term : Term → Prop
  inside : Identity → Prop
  here : ∀ {t}, term t → inside t.id
  sound : ∀ {t}, term t → t.IsSound
  once : ∀ {t other}, term t → term other → t.id = other.id → t = other
  children : ∀ {t}, term t → ∀ inner ∈ t.children, term inner
  rolls : ∀ {t}, term t → ∀ roll ∈ t.rolls, inside roll.id ∧ roll.IsSound

namespace Region

variable {region : Region} {before between after ledger : Ledger}

/-- A roll of a region, with its terms. -/
structure Holds (region : Region) (roll : Roll) : Prop where
  here : region.inside roll.id
  sound : roll.IsSound
  terms : ∀ term ∈ roll.terms, region.term term

/-- What has been evaluated stays as it is. -/
structure Keeps (region : Region) (before after : Ledger) : Prop where
  term : ∀ id, region.inside id → (before.term id).phase = .evaluated →
    after.term id = before.term id
  roll : ∀ id, region.inside id → (before.roll id).phase = .evaluated →
    after.roll id = before.roll id

/-- Besides, what has begun stays in its phase. -/
structure Advances (region : Region) (before after : Ledger) : Prop extends
    region.Keeps before after where
  next_le : before.next ≤ after.next
  termPhase : ∀ id, region.inside id → (before.term id).phase ≠ .unevaluated →
    (after.term id).phase = (before.term id).phase
  rollPhase : ∀ id, region.inside id → (before.roll id).phase ≠ .unevaluated →
    (after.roll id).phase = (before.roll id).phase

namespace Keeps

/-- A term may change that is not evaluated. -/
theorem updateTerm {id : Identity} (unfinished : (ledger.term id).phase ≠ .evaluated)
    (change : TermState → TermState) : region.Keeps ledger (ledger.updateTerm id change) where
  term other _ done := by
    rw [Ledger.term_updateTerm, if_neg]
    rintro rfl
    exact unfinished done
  roll _ _ _ := rfl

/-- A roll may change that is not evaluated. -/
theorem updateRoll {id : Identity} (unfinished : (ledger.roll id).phase ≠ .evaluated)
    (change : RollState → RollState) : region.Keeps ledger (ledger.updateRoll id change) where
  term _ _ _ := rfl
  roll other _ done := by
    rw [Ledger.roll_updateRoll, if_neg]
    rintro rfl
    exact unfinished done

theorem isRollEvaluated (keeps : region.Keeps before after) {roll : Roll}
    (inside : region.inside roll.id) (done : before.isRollEvaluated roll = true) :
    after.isRollEvaluated roll = true := by
  unfold Ledger.isRollEvaluated at done ⊢
  rw [keeps.roll roll.id inside (beq_iff_eq.1 done)]
  exact done

theorem rollTotal (keeps : region.Keeps before after) {roll : Roll}
    (inside : region.inside roll.id) (done : before.isRollEvaluated roll = true) :
    after.rollTotal roll = before.rollTotal roll := by
  unfold Ledger.rollTotal Ledger.isRollEvaluated
  rw [keeps.roll roll.id inside (beq_iff_eq.1 done)]

theorem isEvaluated (keeps : region.Keeps before after) {term : Term} (known : region.term term)
    (done : before.isEvaluated term = true) : after.isEvaluated term = true := by
  unfold Ledger.isEvaluated at done ⊢
  rw [keeps.term term.id (region.here known) (beq_iff_eq.1 done)]
  exact done

/-- The greatest result of dice stays the same once it is known. -/
theorem maximumValue (keeps : region.Keeps before after) {dice : Dice}
    (known : region.term (.dice dice)) {value : Json} (found : before.maximumValue dice = .ok value)
    (isSome : value ≠ .null) : after.maximumValue dice = .ok value := by
  have sound : dice.IsSound := region.sound known
  have inner {tag : Tag} {roll : Roll} (is : dice.faces = .computed (.group tag roll)) :
      region.term (.group tag roll) := by
    refine region.children known _ (List.mem_append_right _ ?_)
    rw [is]
    exact List.mem_cons_self
  unfold Ledger.maximumValue at found ⊢
  cases fixed : dice.kind.fixedMaximum? with
  | some m =>
    rw [fixed] at found
    exact found
  | none =>
    rw [fixed] at found
    refine Ledger.amount_of_still sound.facesBracketed (fun tag roll is done => ?_)
      (fun tag roll is done => ?_) found isSome
    · rw [keeps.term tag.id (region.here (inner is)) done]
      exact done
    · exact keeps.roll roll.id (region.rolls (inner is) roll List.mem_cons_self).1 done

end Keeps

namespace Advances

theorem refl (ledger : Ledger) : region.Advances ledger ledger where
  term _ _ _ := rfl
  roll _ _ _ := rfl
  next_le := Nat.le_refl _
  termPhase _ _ _ := rfl
  rollPhase _ _ _ := rfl

theorem trans (advances : region.Advances before between)
    (further : region.Advances between after) : region.Advances before after where
  term id inside done := by
    have still := advances.term id inside done
    rw [further.term id inside (still ▸ done), still]
  roll id inside done := by
    have still := advances.roll id inside done
    rw [further.roll id inside (still ▸ done), still]
  next_le := Nat.le_trans advances.next_le further.next_le
  termPhase id inside begun := by
    have still := advances.termPhase id inside begun
    rw [further.termPhase id inside (still ▸ begun), still]
  rollPhase id inside begun := by
    have still := advances.rollPhase id inside begun
    rw [further.rollPhase id inside (still ▸ begun), still]

/-- A term that is being evaluated goes on being evaluated. -/
theorem evaluating (advances : region.Advances before after) {id : Identity}
    (inside : region.inside id) (begun : (before.term id).phase = .evaluating) :
    (after.term id).phase = .evaluating := by
  rw [advances.termPhase id inside, begun]
  rw [begun]
  exact nofun

/-- A ledger advances that knows the same about everything in a region. -/
theorem of_same (next_le : before.next ≤ after.next)
    (same : ∀ id, region.inside id → Ledger.SameAt before after id) :
    region.Advances before after where
  term id inside _ := (same id inside).term.symm
  roll id inside _ := (same id inside).roll.symm
  next_le := next_le
  termPhase id inside _ := by rw [(same id inside).term]
  rollPhase id inside _ := by rw [(same id inside).roll]

/-- A term may change in any way that had not begun at the start. -/
theorem updateTerm (advances : region.Advances before after) {id : Identity}
    (untouched : (before.term id).phase = .unevaluated) (change : TermState → TermState) :
    region.Advances before (after.updateTerm id change) where
  term other inside done := by
    rw [Ledger.term_updateTerm, if_neg, advances.term other inside done]
    rintro rfl
    cases untouched.symm.trans done
  roll := advances.roll
  next_le := advances.next_le
  termPhase other inside begun := by
    rw [Ledger.term_updateTerm, if_neg, advances.termPhase other inside begun]
    rintro rfl
    exact begun untouched
  rollPhase := advances.rollPhase

theorem updateRoll (advances : region.Advances before after) {id : Identity}
    (untouched : (before.roll id).phase = .unevaluated) (change : RollState → RollState) :
    region.Advances before (after.updateRoll id change) where
  term := advances.term
  roll other inside done := by
    rw [Ledger.roll_updateRoll, if_neg, advances.roll other inside done]
    rintro rfl
    cases untouched.symm.trans done
  next_le := advances.next_le
  termPhase := advances.termPhase
  rollPhase other inside begun := by
    rw [Ledger.roll_updateRoll, if_neg, advances.rollPhase other inside begun]
    rintro rfl
    exact begun untouched

/-- A term that is not evaluated may change as long as it stays in its phase. -/
theorem of_change {id : Identity} (unfinished : (ledger.term id).phase ≠ .evaluated)
    {change : TermState → TermState} (kept : ∀ state, (change state).phase = state.phase) :
    region.Advances ledger (ledger.updateTerm id change) where
  toKeeps := .updateTerm unfinished change
  next_le := Nat.le_refl _
  termPhase other _ _ := by
    rw [Ledger.term_updateTerm]
    split
    · rename_i same
      rw [kept, same]
    · rfl
  rollPhase _ _ _ := rfl

end Advances
end Region

/-! ## What is recorded -/

/-- Outcomes whose marks fit together and whose values satisfy a condition. -/
def Outcome.Are (shown : Json → Prop) (outcomes : List Outcome) : Prop :=
  ∀ outcome ∈ outcomes, outcome.IsConsistent ∧ shown outcome.value

namespace Outcome.Are

variable {shown : Json → Prop} {outcomes later : List Outcome}

theorem add (are : Are shown outcomes) {value : Json} (holds : shown value) :
    Are shown (outcomes ++ [{ value := value }]) :=
  List.forall_mem_append.2 ⟨are, List.forall_mem_singleton.2 ⟨isConsistent_new value, holds⟩⟩

theorem become (are : Are shown outcomes) (become : List.Forall₂ Becomes outcomes later) :
    Are shown later := by
  intro outcome member
  refine ⟨consistent_of_become become (fun inner among => (are inner among).1) outcome member, ?_⟩
  have value : outcome.value ∈ outcomes.map (·.value) :=
    values_of_become become ▸ List.mem_map_of_mem member
  rcases List.mem_map.1 value with ⟨first, inside, same⟩
  exact same ▸ (are first inside).2

end Outcome.Are

namespace Term

/-- What is recorded of a term: integers of dice, if they show anything, and numbers of pools. -/
def Shows : Term → Json → Prop
  | .dice _, value => value = .null ∨ value.IsAmong false
  | _, value => value.IsAmong true

end Term

/-- Whether the greatest result of dice is known and no integer.  Such dice are never evaluated. -/
def DiceOf.IsUnfit (ledger : Ledger) (dice : Dice) : Prop :=
  ∃ value, ledger.maximumValue dice = .ok value ∧ value ≠ .null ∧ ∀ n : Int, value ≠ .ofInt n

/-- Whether an outcome of dice counts by its value, and that is none. -/
def DiceOf.LacksValue (ledger : Ledger) (dice : Dice) : Prop :=
  ∃ outcome ∈ ledger.outcomes dice.tag.id,
    outcome.isActive = true ∧ outcome.isCounted = false ∧ outcome.value = .null

namespace Term

/-- Whether the outcomes of a term are those that can be recorded of it. -/
def IsRecorded (ledger : Ledger) (term : Term) : Prop :=
  (∃ dice, term = .dice dice ∧ dice.IsUnfit ledger) ∨
    Outcome.Are term.Shows (ledger.outcomes term.id)

/-- Whether a term has a total when it is evaluated, as far as its outcomes can be summed up. -/
def HasWorth (ledger : Ledger) (term : Term) : Prop :=
  (∃ value, ledger.totalOf term = .ok value ∧ value.IsScalar) ∨
    (∃ dice, term = .dice dice ∧ dice.LacksValue ledger) ∨
    ∃ pool, term = .pool pool ∧ ledger.totalOf term = .error (.number .overflow)

/-- Whether a term can count as evaluated: the rolls inside it are, and it has a total. -/
structure IsConcluded (ledger : Ledger) (term : Term) : Prop where
  rolls : ∀ roll ∈ term.rolls, ledger.isRollEvaluated roll = true
  worth : term.HasWorth ledger

variable {ledger before after : Ledger} {term : Term}

/-- Recorded outcomes of dice can be summed up unless a value is lacking. -/
theorem hasWorth_of_dice {dice : Dice}
    (are : Outcome.Are (Term.dice dice).Shows (ledger.outcomes dice.tag.id)) :
    (Term.dice dice).HasWorth ledger := by
  by_cases lacks : dice.LacksValue ledger
  · exact .inr (.inl ⟨dice, rfl, lacks⟩)
  · have sum : Computes false (ledger.totalOf (.dice dice)) :=
      Outcome.computes_total (fun outcome member => (are outcome member).1)
        fun outcome member active uncounted => (are outcome member).2.resolve_left fun none =>
          lacks ⟨outcome, member, active, uncounted, none⟩
    cases found : ledger.totalOf (.dice dice) with
    | error fault =>
      rw [found] at sum
      cases sum.2
    | ok value =>
      rw [found] at sum
      rcases sum with ⟨n, is, _⟩
      exact .inl ⟨value, found, Json.isScalar_of_number ⟨n, is⟩⟩

/-- Recorded outcomes of a pool can be summed up unless they are too large. -/
theorem hasWorth_of_pool {pool : Pool}
    (are : Outcome.Are (Term.pool pool).Shows (ledger.outcomes pool.tag.id)) :
    (Term.pool pool).HasWorth ledger := by
  have sum : Computes true (ledger.totalOf (.pool pool)) :=
    Outcome.computes_total (fun outcome member => (are outcome member).1)
      fun outcome member _ _ => (are outcome member).2
  cases found : ledger.totalOf (.pool pool) with
  | error fault =>
    rw [found] at sum
    exact .inr (.inr ⟨pool, rfl, found.trans (congrArg Except.error sum.1)⟩)
  | ok value =>
    rw [found] at sum
    rcases sum with ⟨n, is, _⟩
    exact .inl ⟨value, found, Json.isScalar_of_number ⟨n, is⟩⟩

theorem HasWorth.of_same (worth : term.HasWorth before)
    (total : after.totalOf term = before.totalOf term)
    (outcomes : after.outcomes term.id = before.outcomes term.id) : term.HasWorth after := by
  rcases worth with ⟨value, found, scalar⟩ | ⟨dice, rfl, outcome, member, lacks⟩ |
    ⟨pool, is, overflows⟩
  · exact .inl ⟨value, total.trans found, scalar⟩
  · refine .inr (.inl ⟨dice, rfl, outcome, ?_, lacks⟩)
    exact (outcomes : after.outcomes dice.tag.id = _) ▸ member
  · exact .inr (.inr ⟨pool, is, total.trans overflows⟩)

end Term

namespace Region

variable {region : Region} {before after ledger : Ledger} {term : Term}

/-! ## Regions in order -/

/-- What an evaluated term amounts to does not change. -/
theorem Keeps.totalOf (keeps : region.Keeps before after) (known : region.term term)
    (done : before.isEvaluated term = true)
    (rolls : ∀ roll ∈ term.rolls, before.isRollEvaluated roll = true) :
    after.totalOf term = before.totalOf term := by
  have same (roll : Roll) (member : roll ∈ term.rolls) :
      after.rollTotal roll = before.rollTotal roll :=
    keeps.rollTotal (region.rolls known roll member).1 (rolls roll member)
  have own := keeps.term term.id (region.here known) (beq_iff_eq.1 done)
  cases term with
  | group tag roll => exact congrArg Except.ok (same roll List.mem_cons_self)
  | function tag fn rolls => exact congrArg fn.value (List.map_congr_left same)
  | dice d => exact congrArg (fun state : TermState => Outcome.total state.outcomes) own
  | pool p => exact congrArg (fun state : TermState => Outcome.total state.outcomes) own
  | _ => rfl

/-- An evaluated term stays concluded. -/
theorem Keeps.isConcluded (keeps : region.Keeps before after) (known : region.term term)
    (done : before.isEvaluated term = true) (concluded : term.IsConcluded before) :
    term.IsConcluded after where
  rolls roll member :=
    keeps.isRollEvaluated (region.rolls known roll member).1 (concluded.rolls roll member)
  worth := by
    refine concluded.worth.of_same (keeps.totalOf known done concluded.rolls) ?_
    exact congrArg TermState.outcomes
      (keeps.term term.id (region.here known) (beq_iff_eq.1 done))

/-- What was recorded of a term stays recorded as long as it is there. -/
theorem Keeps.isRecorded (keeps : region.Keeps before after) (known : region.term term)
    (same : after.outcomes term.id = before.outcomes term.id) (recorded : term.IsRecorded before) :
    term.IsRecorded after := by
  rcases recorded with ⟨dice, rfl, value, found, isSome, unfit⟩ | are
  · exact .inl ⟨dice, rfl, value, keeps.maximumValue known found isSome, isSome, unfit⟩
  · exact .inr (same ▸ are)

/-- Everything that is evaluated in a region has what evaluated things have. -/
structure Orderly (region : Region) (ledger : Ledger) : Prop where
  records : ∀ term, region.term term → term.IsRecorded ledger
  concludes : ∀ term, region.term term → ledger.isEvaluated term = true → term.IsConcluded ledger
  totals : ∀ id, region.inside id → (ledger.roll id).phase = .evaluated →
    (ledger.roll id).total.IsScalar

namespace Orderly

variable (orderly : region.Orderly ledger)
include orderly

/-- A term that is not evaluated may change as it should. -/
theorem updateTerm (known : region.term term)
    (unfinished : (ledger.term term.id).phase ≠ .evaluated) {change : TermState → TermState}
    (recorded : term.IsRecorded (ledger.updateTerm term.id change))
    (concluded : (ledger.updateTerm term.id change).isEvaluated term = true →
      term.IsConcluded (ledger.updateTerm term.id change)) :
    region.Orderly (ledger.updateTerm term.id change) where
  records other knownToo := by
    by_cases same : term.id = other.id
    · exact region.once known knownToo same ▸ recorded
    · refine (Keeps.updateTerm unfinished change).isRecorded knownToo ?_
        (orderly.records other knownToo)
      unfold Ledger.outcomes
      rw [Ledger.term_updateTerm, if_neg same]
  concludes other knownToo done := by
    by_cases same : term.id = other.id
    · obtain rfl := region.once known knownToo same
      exact concluded done
    · have before : ledger.isEvaluated other = true := by
        unfold Ledger.isEvaluated at done ⊢
        rw [Ledger.term_updateTerm, if_neg same] at done
        exact done
      exact (Keeps.updateTerm unfinished change).isConcluded knownToo before
        (orderly.concludes other knownToo before)
  totals := orderly.totals

/-- A roll that is not evaluated may get a total. -/
theorem updateRoll {id : Identity} (unfinished : (ledger.roll id).phase ≠ .evaluated)
    {change : RollState → RollState}
    (scalar : (change (ledger.roll id)).phase = .evaluated →
      (change (ledger.roll id)).total.IsScalar) :
    region.Orderly (ledger.updateRoll id change) where
  records other known :=
    (Keeps.updateRoll unfinished change).isRecorded known rfl (orderly.records other known)
  concludes other known done :=
    (Keeps.updateRoll unfinished change).isConcluded known done (orderly.concludes other known done)
  totals other inside done := by
    rw [Ledger.roll_updateRoll] at done ⊢
    split at done
    · rename_i same
      rw [if_pos same]
      exact scalar done
    · rename_i apart
      rw [if_neg apart]
      exact orderly.totals other inside done

/-- A region stays in order as long as the same is known about it. -/
theorem of_same {other : Ledger} (same : ∀ id, region.inside id → Ledger.SameAt ledger other id) :
    region.Orderly other where
  records term known := by
    have keeps : region.Keeps ledger other :=
      ⟨fun id inside _ => (same id inside).term.symm, fun id inside _ => (same id inside).roll.symm⟩
    exact keeps.isRecorded known
      (congrArg TermState.outcomes (same term.id (region.here known)).term.symm)
      (orderly.records term known)
  concludes term known done := by
    have keeps : region.Keeps ledger other :=
      ⟨fun id inside _ => (same id inside).term.symm, fun id inside _ => (same id inside).roll.symm⟩
    have before : ledger.isEvaluated term = true := by
      unfold Ledger.isEvaluated at done ⊢
      rw [(same term.id (region.here known)).term]
      exact done
    exact keeps.isConcluded known before (orderly.concludes term known before)
  totals id inside done := by
    rw [← (same id inside).roll] at done ⊢
    exact orderly.totals id inside done

/-- The total of an evaluated roll is a number or a text. -/
theorem rollTotal {roll : Roll} (inside : region.inside roll.id)
    (done : ledger.isRollEvaluated roll = true) : (ledger.rollTotal roll).IsScalar := by
  unfold Ledger.rollTotal
  rw [if_pos done]
  exact orderly.totals roll.id inside (beq_iff_eq.1 done)

/-- What an evaluated term amounts to is a number or a text. -/
theorem isScalar (known : region.term term)
    (rolls : ∀ roll ∈ term.rolls, ledger.isRollEvaluated roll = true) {value : Json}
    (found : ledger.totalOf term = .ok value) : value.IsScalar := by
  have inner (roll : Roll) (member : roll ∈ term.rolls) : (ledger.rollTotal roll).IsScalar :=
    orderly.rollTotal (region.rolls known roll member).1 (rolls roll member)
  cases term with
  | numeric tag number =>
    rcases region.sound known with ⟨n, rfl⟩
    cases found
    trivial
  | operator tag op =>
    cases found
    trivial
  | text tag word =>
    rcases region.sound known with ⟨text, rfl⟩
    cases found
    trivial
  | group tag roll =>
    cases found
    exact inner roll List.mem_cons_self
  | function tag fn rolls =>
    refine Function.isScalar_value (fun argument member => ?_) found
    rcases List.mem_map.1 member with ⟨roll, among, rfl⟩
    exact inner roll among
  | dice d => exact Json.isScalar_of_number (Json.total_eq_ok found)
  | pool p => exact Json.isScalar_of_number (Json.total_eq_ok found)

/-- A term that amounts to something is concluded. -/
theorem isConcluded (known : region.term term)
    (rolls : ∀ roll ∈ term.rolls, ledger.isRollEvaluated roll = true) {value : Json}
    (found : ledger.totalOf term = .ok value) : term.IsConcluded ledger :=
  ⟨rolls, .inl ⟨value, found, orderly.isScalar known rolls found⟩⟩

/-- Evaluated terms that can be summed up give a number or a text. -/
theorem totalOfTerms {roll : Roll} (holds : region.Holds roll)
    (done : ∀ term ∈ roll.terms, ledger.isEvaluated term = true) {total : Json}
    (found : ledger.totalOfTerms roll.terms = .ok total) : total.IsScalar := by
  rcases holds.sound.alternates with ⟨row, same, proper⟩
  rw [same, Ledger.totalOfTerms, TermRow.treeOfTerms_terms proper] at found
  refine Tree.isScalar_total (fun term member value total => ?_) found
  rw [TermRow.leaves_tree] at member
  have inside : term ∈ roll.terms := same ▸ TermRow.mem_terms_of_mem_operands member
  have known := holds.terms term inside
  have concluded := orderly.concludes term known (done term inside)
  unfold Ledger.total at total
  rw [if_pos (done term inside)] at total
  exact orderly.isScalar known concluded.rolls total

end Orderly

/-- One ledger comes out of another one, and everything in a region is in order. -/
structure Evolves (region : Region) (before after : Ledger) : Prop where
  advances : region.Advances before after
  orderly : region.Orderly after

theorem Evolves.trans {between : Ledger} (evolves : region.Evolves before between)
    (further : region.Evolves between after) : region.Evolves before after :=
  ⟨evolves.advances.trans further.advances, further.orderly⟩

theorem Orderly.evolves (orderly : region.Orderly ledger) : region.Evolves ledger ledger :=
  ⟨.refl ledger, orderly⟩

/-! ## Terms at work -/

end Region

/-- What dice can give is an integer, nothing at all, or more than they should. -/
theorem Context.Gives.shows {context : Context} {ledger : Ledger} {dice : Dice} {value : Json}
    (gives : context.Gives ledger dice value) :
    dice.IsUnfit ledger ∨ (Term.dice dice).Shows value := by
  have whole (n : Int) : (Term.dice dice).Shows (.ofInt n) := .inr (Json.isAmong_ofInt n)
  cases gives with
  | lowest least => exact .inr (whole _)
  | highest varies greatest known =>
    by_cases none : value = .null
    · exact .inr (.inl none)
    · by_cases integer : ∃ n : Int, value = .ofInt n
      · rcases integer with ⟨n, rfl⟩
        exact .inr (whole n)
      · exact .inl ⟨value, known, none, fun n is => integer ⟨n, is⟩⟩
  | accepted free can =>
    rcases Ledger.accepts_iff.1 can with ⟨n, _, rfl, _⟩
    exact .inr (whole n)
  | picked free draws picks =>
    unfold Ledger.mapUniform at picks
    cases known : ledger.maximumValue dice with
    | error fault =>
      rw [known] at picks
      cases picks
    | ok greatest =>
      rw [known] at picks
      by_cases integer : ∃ n : Int, greatest = .ofInt n
      · rcases integer with ⟨n, rfl⟩
        change (liftNumber (pickUniform dice.kind.minimum (.int n)
          (.real (context.uniform draws)))).map Json.number = _ at picks
        cases picked : pickUniform dice.kind.minimum (.int n) (.real (context.uniform draws)) with
        | error fault =>
          rw [picked] at picks
          cases picks
        | ok number =>
          rw [picked] at picks
          cases picks
          rcases Number.pickUniform_int picked with ⟨m, rfl⟩
          exact .inr (whole m)
      · refine .inl ⟨greatest, known, ?_, fun n is => integer ⟨n, is⟩⟩
        rintro rfl
        cases picks

namespace Region

open Evaluation

variable {region : Region} {start : Ledger} {term : Term} {dice : Dice} {progress later : Progress}
  {context : Context}

/-- The outcomes of a term that is not evaluated may change as they can be recorded. -/
theorem Orderly.change (orderly : region.Orderly start) (known : region.term term)
    (unfinished : (start.term term.id).phase ≠ .evaluated) {change : TermState → TermState}
    (kept : ∀ state, (change state).phase = state.phase)
    (recorded : (∃ dice, term = .dice dice ∧ dice.IsUnfit start) ∨
      Outcome.Are term.Shows (change (start.term term.id)).outcomes) :
    region.Evolves start (start.updateTerm term.id change) := by
  have own : (start.updateTerm term.id change).term term.id = change (start.term term.id) := by
    rw [Ledger.term_updateTerm, if_pos rfl]
  refine ⟨.of_change unfinished kept, orderly.updateTerm known unfinished ?_ fun done => ?_⟩
  · rcases recorded with ⟨dice, rfl, value, found, isSome, unfit⟩ | are
    · have still := (Keeps.updateTerm unfinished change).maximumValue known found isSome
      exact .inl ⟨dice, rfl, value, still, isSome, unfit⟩
    · refine .inr ?_
      unfold Ledger.outcomes
      rw [own]
      exact are
  · unfold Ledger.isEvaluated at done
    rw [own, kept] at done
    exact absurd (beq_iff_eq.1 done) unfinished

/-- A term is in the middle of its evaluation, and its outcomes are such as can be recorded. -/
structure AtWork (region : Region) (start : Ledger) (term : Term) (progress : Progress) :
    Prop where
  evolves : region.Evolves start progress.ledger
  begun : (progress.ledger.term term.id).phase = .evaluating
  records : Outcome.Are term.Shows (progress.ledger.outcomes term.id)

namespace AtWork

theorem of_ledger (work : region.AtWork start term progress)
    (same : later.ledger = progress.ledger) : region.AtWork start term later := by
  rcases work with ⟨evolves, begun, records⟩
  rw [← same] at evolves begun records
  exact ⟨evolves, begun, records⟩

/-- The outcomes of a term at work may change as they can be recorded. -/
theorem change (work : region.AtWork start term progress) (known : region.term term)
    {change : TermState → TermState} (kept : ∀ state, (change state).phase = state.phase)
    (are : Outcome.Are term.Shows (change (progress.ledger.term term.id)).outcomes) :
    region.AtWork start term (progress.updateLedger (·.updateTerm term.id change)) := by
  have unfinished : (progress.ledger.term term.id).phase ≠ .evaluated := by
    rw [work.begun]
    exact nofun
  have own : (progress.ledger.updateTerm term.id change).term term.id =
      change (progress.ledger.term term.id) := by
    rw [Ledger.term_updateTerm, if_pos rfl]
  refine ⟨work.evolves.trans (work.evolves.orderly.change known unfinished kept (.inr are)),
    ?_, ?_⟩
  · change ((progress.ledger.updateTerm term.id change).term term.id).phase = _
    rw [own, kept, work.begun]
  · change Outcome.Are _ ((progress.ledger.updateTerm term.id change).term term.id).outcomes
    rw [own]
    exact are

/-- Whether outcomes are marked or counted, their values stay. -/
theorem tally (work : region.AtWork start term progress) (known : region.term term)
    (action : Action) (command : Command) :
    (Context.tally term action command).Finishes progress
      (Regardless (region.AtWork start term)) := by
  let before : Tally :=
    ⟨(progress.ledger.term term.id).outcomes, (progress.ledger.term term.id).counting⟩
  have tallied : region.AtWork start term (progress.tallying term action command) :=
    work.change known (fun _ => rfl)
      (work.records.become (before.becomes_carryOut command term.formula action))
  exact ⟨_, progress.tallying term action command, rfl, .of tallied⟩

/-- The modifiers of a term keep its outcomes such as can be recorded, however they end. -/
theorem upholds {modified : Context.Modified} (known : region.term modified.term)
    (chains : ∀ {progress} command recursive explode,
      region.AtWork start modified.term progress →
      (modified.chain command recursive explode).Finishes progress
        (Regardless (region.AtWork start modified.term))) (modifiers : List Json) :
    modified.Upholds context (fun _ => region.AtWork start modified.term)
      (region.AtWork start modified.term) modifiers where
  unnamed work _ := work
  unread _ _ work _ := work
  unknown _ work := work
  tallies action command work := work.tally known action command
  chains := chains
  skips _ _ _ _ _ _ work failed := by
    refine AtWork.change (failed.of_ledger ?_) known (fun _ => rfl) work.records
    rfl

end AtWork

/-! ## Dice -/

section

variable (known : region.term (.dice dice)) (unaided : context.resolver = none)
include known unaided

/-- Dice that are rolled once, by themselves or not, leave everything in order. -/
theorem Orderly.rollOne (orderly : region.Orderly progress.ledger) (reroll explode : Bool) :
    (context.rollOne dice reroll explode).Finishes progress
      (Regardless fun last => region.Evolves progress.ledger last.ledger) := by
  by_cases done : (progress.ledger.term dice.tag.id).phase = .evaluated
  · have reads : (read fun ledger => .ok (ledger.isEvaluated (.dice dice))) progress =
        .done (.ok true) progress := by
      rw [← beq_iff_eq.2 done]
      rfl
    unfold Finishes Context.rollOne
    rw [bind_done reads, if_pos rfl]
    exact concludes_ite (concludes_fail orderly.evolves) (concludes_fail orderly.evolves)
  · refine (Context.rollOne_gives unaided reroll explode done).imp fun result last ended => ?_
    cases result with
    | error fault => exact ended.1 ▸ orderly.evolves
    | ok outcome =>
      rcases ended with ⟨value, gives, same⟩
      change region.Evolves progress.ledger last.ledger
      rw [same]
      refine orderly.change known done (fun _ => rfl) ?_
      rcases orderly.records (.dice dice) known with unfit | are
      · exact .inl unfit
      · rcases gives.shows with unfit | shows
        · exact .inl ⟨dice, rfl, unfit⟩
        · exact .inr (are.add shows)

variable (range : ∃ n : Int, start.maximumValue dice = .ok (.ofInt n))
include range

/-- Dice at work whose greatest result is an integer stay so when they are rolled. -/
theorem AtWork.rollOne (reroll explode : Bool) (work : region.AtWork start (.dice dice) progress) :
    (context.rollOne dice reroll explode).Finishes progress
      (Regardless (region.AtWork start (.dice dice))) := by
  rcases range with ⟨n, range⟩
  have fits : ¬dice.IsUnfit progress.ledger := by
    rintro ⟨value, found, _, unfit⟩
    have still := work.evolves.advances.toKeeps.maximumValue known range nofun
    exact unfit n (Except.ok.inj (found.symm.trans still))
  have unfinished : (progress.ledger.term dice.tag.id).phase ≠ .evaluated := by
    have begun : (progress.ledger.term dice.tag.id).phase = .evaluating := work.begun
    rw [begun]
    exact nofun
  refine (Context.rollOne_gives unaided reroll explode unfinished).imp fun result last ended => ?_
  cases result with
  | error fault => exact work.of_ledger ended.1
  | ok outcome =>
    rcases ended with ⟨value, gives, same⟩
    have added : region.AtWork start (.dice dice) (progress.updateLedger
        (·.updateTerm dice.tag.id fun state =>
          { state with outcomes := state.outcomes ++ [{ value := value }] })) :=
      work.change known (fun _ => rfl) (work.records.add (gives.shows.resolve_left fits))
    exact added.of_ledger same

/-- Dice at work stay so when they are rolled again, or once more. -/
theorem AtWork.chain (command : Command) (recursive explode : Bool)
    (work : region.AtWork start (.dice dice) progress) :
    (context.chain dice command recursive explode).Finishes progress
      (Regardless (region.AtWork start (.dice dice))) := by
  have aims := @Context.reads_conclude _ (fun _ => region.AtWork start (.dice dice)) _ _
    (Context.chainTarget · dice command explode) work fun _ _ => work
  refine concludes_bind aims fun target _ ⟨work, _⟩ => ?_
  refine concludes_ite (concludes_pure work) ?_
  refine concludes_bind (Context.reads_conclude work nofun) fun initial _ ⟨work, _⟩ => ?_
  refine Context.runChain_concludes
    (fun reroll explode work => AtWork.rollOne known unaided range reroll explode work) command _
    (fun _ _ _ work _ => work) ?_ (fun work => work) _ _ _ work
  intro progress initial checked position work found
  rcases Context.Chain.active_of_next? found with ⟨outcome, there, active⟩
  exact work.change known (fun _ => rfl)
    (work.records.become (Context.Chain.become_modify _ there active))

end

/-- An amount that is required to be an integer is one where this does not fail. -/
theorem requireInteger_ends (what : DiceAmount) (least : Nat) (amount : Operand Term) :
    (Context.rollDice.requireInteger dice what least amount).Finishes progress
      (Concludes (fun _ last => last = progress) fun _ last => last = progress ∧
        ∃ n : Int, progress.ledger.amount amount = .ok (.ofInt n)) := by
  have refused (value : Json) : (Context.rollDice.refuse dice what value least).Finishes progress
      (Concludes (fun _ last => last = progress) fun _ last => last = progress ∧
        ∃ n : Int, progress.ledger.amount amount = .ok (.ofInt n)) :=
    concludes_ite (concludes_fail rfl) (concludes_fail rfl)
  have reads : (read (·.amount amount)).Finishes progress
      (Concludes (fun _ last => last = progress) fun value last => last = progress ∧
        progress.ledger.amount amount = .ok value) := by
    refine concludes_read ?_
    cases progress.ledger.amount amount with
    | error fault => rfl
    | ok value => exact ⟨rfl, rfl⟩
  refine concludes_bind reads fun value _ ⟨same, found⟩ => ?_
  subst same
  split
  · exact concludes_ite (concludes_pure ⟨rfl, _, found⟩) (refused _)
  · exact refused _

/-- Dice at work stay so until they are evaluated.  Then their outcomes can be summed up if
none of them lacks a value. -/
theorem rollDice_evolves (known : region.term (.dice dice)) (unaided : context.resolver = none)
    (orderly : region.Orderly progress.ledger)
    (begun : (progress.ledger.term dice.tag.id).phase = .evaluating) :
    (context.rollDice dice).Finishes progress
      (Concludes (fun _ last => region.Evolves progress.ledger last.ledger) fun _ last =>
        region.Evolves progress.ledger last.ledger ∧ (Term.dice dice).IsConcluded last.ledger) := by
  have requires (what : DiceAmount) (least : Nat) (amount : Operand Term) :
      (Context.rollDice.requireInteger dice what least amount).Finishes progress
        (Concludes (fun _ last => region.Evolves progress.ledger last.ledger) fun _ last =>
          last = progress ∧ ∃ n : Int, progress.ledger.amount amount = .ok (.ofInt n)) := by
    refine (requireInteger_ends what least amount).imp fun result last ended => ?_
    cases result with
    | error fault =>
      cases (ended : last = progress)
      exact orderly.evolves
    | ok n => exact ended
  refine concludes_bind (requires .number 0 dice.number) fun number _ ⟨same, _⟩ => ?_
  obtain rfl := same.symm
  refine concludes_bind (requires .faces 1 dice.faces) fun _ _ ⟨same, n, faces⟩ => ?_
  obtain rfl := same.symm
  have range : ∃ n : Int, progress.ledger.maximumValue dice = .ok (.ofInt n) := by
    unfold Ledger.maximumValue
    split
    · exact ⟨_, rfl⟩
    · exact ⟨n, faces⟩
  have are : Outcome.Are (Term.dice dice).Shows (progress.ledger.outcomes dice.tag.id) := by
    rcases orderly.records (.dice dice) known with ⟨other, is, value, found, _, unfit⟩ | are
    · cases is
      rcases range with ⟨m, range⟩
      exact (unfit m (Except.ok.inj (found.symm.trans range))).elim
    · exact are
  have work : region.AtWork progress.ledger (.dice dice) progress := ⟨orderly.evolves, begun, are⟩
  have rolls := Context.rollUpTo_concludes
    (fun reroll explode work => AtWork.rollOne known unaided range reroll explode work) number
    number work
  have upholds : (context.modifiedDice dice).Upholds context
      (fun _ => region.AtWork progress.ledger (.dice dice))
      (region.AtWork progress.ledger (.dice dice)) dice.modifiers :=
    @AtWork.upholds _ _ _ (context.modifiedDice dice) known
      (fun command recursive explode work =>
        AtWork.chain known unaided range command recursive explode work) dice.modifiers
  have whole := concludes_bind rolls fun _ _ work => Context.runModifiers_concludes upholds work
  refine whole.imp fun result last work => ?_
  cases result with
  | error fault => exact work.evolves
  | ok _ =>
    refine ⟨work.evolves, fun roll member => ?_, Term.hasWorth_of_dice work.records⟩
    cases member

/-! ## Terms and rolls -/

/-- Whatever comes of it, everything stays in order; where something succeeds, a condition
holds besides. -/
abbrev Brings (region : Region) (start : Ledger) (holds : Ledger → Prop) :
    Except Fault Unit → Progress → Prop :=
  Concludes (fun _ last => region.Evolves start last.ledger) fun _ last =>
    region.Evolves start last.ledger ∧ holds last.ledger

section

variable {holds : Ledger → Prop} {work : Evaluation Unit}

theorem brings_from (evolves : region.Evolves start progress.ledger)
    (finishes : work.Finishes progress (region.Brings progress.ledger holds)) :
    work.Finishes progress (region.Brings start holds) := by
  refine finishes.imp fun result last ended => ?_
  cases result with
  | error fault => exact evolves.trans ended
  | ok _ => exact ⟨evolves.trans ended.1, ended.2⟩

theorem brings_bind {further : Ledger → Prop} {next : Unit → Evaluation Unit}
    (finishes : work.Finishes progress (region.Brings progress.ledger holds))
    (more : ∀ later : Progress, region.Evolves progress.ledger later.ledger →
      holds later.ledger → (next ()).Finishes later (region.Brings later.ledger further)) :
    (work >>= next).Finishes progress (region.Brings progress.ledger further) :=
  concludes_bind finishes fun _ later ⟨evolves, here⟩ =>
    brings_from evolves (more later evolves here)

/-- A term that has begun is left alone, and another one is evaluated if what is inside it
can be. -/
theorem Orderly.ofTerm (orderly : region.Orderly progress.ledger) (known : region.term term)
    (inside : region.Orderly (progress.entering term .evaluating).ledger →
      ((progress.entering term .evaluating).ledger.term term.id).phase = .evaluating →
      work.Finishes (progress.entering term .evaluating)
        (region.Brings (progress.entering term .evaluating).ledger (term.IsConcluded ·))) :
    (Evaluation.ofTerm term work).Finishes progress
      (region.Brings progress.ledger (·.isEvaluated term = true)) := by
  by_cases untouched : (progress.ledger.term term.id).phase = .unevaluated
  · have unfinished : (progress.ledger.term term.id).phase ≠ .evaluated := by
      rw [untouched]
      exact nofun
    have begun : ((progress.entering term .evaluating).ledger.term term.id).phase =
        .evaluating := by
      change ((progress.ledger.updateTerm term.id _).term term.id).phase = _
      rw [Ledger.term_updateTerm, if_pos rfl]
    have entering : region.Evolves progress.ledger
        (progress.entering term .evaluating).ledger := by
      refine ⟨(Advances.refl _).updateTerm untouched _,
        orderly.updateTerm known unfinished ?_ fun done => ?_⟩
      · exact (Keeps.updateTerm unfinished _).isRecorded known
          (Ledger.outcomes_entering progress term .evaluating term.id) (orderly.records term known)
      · cases begun.symm.trans (beq_iff_eq.1 done)
    rcases inside entering.orderly begun with ⟨result, later, run, ended⟩
    have evaluated := ofTerm_of_done untouched run
    cases result with
    | error fault => exact ⟨_, _, evaluated, entering.trans ended⟩
    | ok _ =>
      rcases ended with ⟨evolves, concluded⟩
      have still : (later.ledger.term term.id).phase ≠ .evaluated := by
        rw [evolves.advances.evaluating (region.here known) begun]
        exact nofun
      have leaving : region.Evolves progress.ledger (later.entering term .evaluated).ledger := by
        refine ⟨(entering.advances.trans evolves.advances).updateTerm untouched _,
          evolves.orderly.updateTerm known still ?_ fun _ => ⟨concluded.rolls, ?_⟩⟩
        · exact (Keeps.updateTerm still _).isRecorded known
            (Ledger.outcomes_entering later term .evaluated term.id)
            (evolves.orderly.records term known)
        · exact concluded.worth.of_same (Ledger.totalOf_entering later term .evaluated)
            (Ledger.outcomes_entering later term .evaluated term.id)
      exact ⟨_, _, evaluated, leaving, later.isEvaluated_entering term⟩
  · exact ⟨_, _, ofTerm_of_begun untouched work, orderly.evolves⟩

theorem Orderly.unlessEvaluated (orderly : region.Orderly progress.ledger)
    (finishes : work.Finishes progress
      (region.Brings progress.ledger (·.isEvaluated term = true))) :
    (Evaluation.unlessEvaluated term work).Finishes progress
      (region.Brings progress.ledger (·.isEvaluated term = true)) := by
  cases done : progress.ledger.isEvaluated term with
  | false => exact finishes.of_eq (unlessEvaluated_of_not done work)
  | true =>
    have same : Evaluation.unlessEvaluated term work progress = .done (.ok ()) progress := by
      change (if progress.ledger.isEvaluated term = true then pure () else work : Evaluation Unit)
        progress = _
      rw [if_pos done]
      rfl
    exact ⟨_, _, same, orderly.evolves, done⟩

/-- A roll that has begun is left alone, and another one is evaluated if its terms can be. -/
theorem Orderly.ofRoll (orderly : region.Orderly progress.ledger) {roll : Roll}
    (has : region.Holds roll)
    (terms : region.Orderly (progress.starting roll).ledger →
      work.Finishes (progress.starting roll) (region.Brings (progress.starting roll).ledger
        fun last => ∀ term ∈ roll.terms, last.isEvaluated term = true)) :
    (Evaluation.ofRoll roll work).Finishes progress
      (region.Brings progress.ledger (·.isRollEvaluated roll = true)) := by
  by_cases untouched : (progress.ledger.roll roll.id).phase = .unevaluated
  · have unfinished : (progress.ledger.roll roll.id).phase ≠ .evaluated := by
      rw [untouched]
      exact nofun
    have starting : region.Evolves progress.ledger (progress.starting roll).ledger :=
      ⟨(Advances.refl _).updateRoll untouched _, orderly.updateRoll unfinished nofun⟩
    have begun := progress.rollPhase_starting roll
    rcases terms starting.orderly with ⟨result, later, run, ended⟩
    have evaluated := ofRoll_of_done untouched run
    cases result with
    | error fault => exact ⟨_, _, evaluated, starting.trans ended⟩
    | ok _ =>
      rcases ended with ⟨evolves, done⟩
      have since := starting.trans evolves
      cases sum : later.ledger.totalOfTerms roll.terms with
      | error fault =>
        rw [sum] at evaluated
        exact ⟨_, _, evaluated, since⟩
      | ok total =>
        rw [sum] at evaluated
        have still : (later.ledger.roll roll.id).phase ≠ .evaluated := by
          rw [evolves.advances.rollPhase roll.id has.here (by rw [begun]; exact nofun), begun]
          exact nofun
        have finishing : region.Evolves progress.ledger (later.finishing roll total).ledger :=
          ⟨since.advances.updateRoll untouched _,
            evolves.orderly.updateRoll still fun _ => evolves.orderly.totalOfTerms has done sum⟩
        refine ⟨_, _, evaluated, finishing, ?_⟩
        change ((later.finishing roll total).ledger.roll roll.id).phase == _
        rw [later.roll_finishing]
        rfl
  · exact ⟨_, _, ofRoll_of_begun untouched work, orderly.evolves⟩

theorem Orderly.unlessRollEvaluated (orderly : region.Orderly progress.ledger) {roll : Roll}
    (finishes : work.Finishes progress
      (region.Brings progress.ledger (·.isRollEvaluated roll = true))) :
    (Evaluation.unlessRollEvaluated roll work).Finishes progress
      (region.Brings progress.ledger (·.isRollEvaluated roll = true)) := by
  cases done : progress.ledger.isRollEvaluated roll with
  | false => exact finishes.of_eq (unlessRollEvaluated_of_not done work)
  | true =>
    have same : Evaluation.unlessRollEvaluated roll work progress = .done (.ok ()) progress := by
      change (if progress.ledger.isRollEvaluated roll = true then pure () else work :
        Evaluation Unit) progress = _
      rw [if_pos done]
      rfl
    exact ⟨_, _, same, orderly.evolves, done⟩

end

/-- A roll inside a term of a region is one of the region. -/
theorem holds_of_mem {roll : Roll} (known : region.term term) (member : roll ∈ term.rolls) :
    region.Holds roll where
  here := (region.rolls known roll member).1
  sound := (region.rolls known roll member).2
  terms inner inside := by
    refine region.children known inner ?_
    cases term with
    | group tag own =>
      obtain rfl := List.mem_singleton.1 member
      exact inside
    | function tag fn rolls => exact List.mem_flatMap.2 ⟨roll, member, inside⟩
    | pool p => exact List.mem_flatMap.2 ⟨roll, member, inside⟩
    | _ => cases member

/-- What is done with the rolls of a term in the middle of its evaluation. -/
abbrev Handles (region : Region) (own : Identity) (use : Roll → Evaluation Unit) : Prop :=
  ∀ {progress : Progress} {roll : Roll}, region.Holds roll → region.Orderly progress.ledger →
    (progress.ledger.term own).phase = .evaluating →
    progress.ledger.isRollEvaluated roll = true →
    (use roll).Finishes progress (region.Brings progress.ledger fun _ => True)

/-- The total of an evaluated roll is a number unless it is refused. -/
theorem totalButText_ends {roll : Roll} (scalar : (progress.ledger.rollTotal roll).IsScalar)
    (refusal : Fault) : (totalButText roll refusal).Finishes progress
      (Concludes (fun _ last => last = progress) fun value last => last = progress ∧
        value.IsAmong true) := by
  have reads : (read fun ledger => .ok (ledger.rollTotal roll)).Finishes progress
      (Concludes (fun _ last => last = progress) fun value last => last = progress ∧
        value.IsScalar) := concludes_read ⟨rfl, scalar⟩
  refine concludes_bind reads fun value last ⟨same, scalar⟩ => ?_
  cases value with
  | number n =>
    refine concludes_pure ⟨same, n, rfl, ?_⟩
    cases n <;> trivial
  | string text => exact concludes_fail same
  | _ => exact scalar.elim

theorem handles_checkArgument (own : Identity) (term : Term) (fn : Function) :
    region.Handles own (Context.checkArgument term fn) := by
  intro progress roll has orderly _ done
  rcases totalButText_ends (orderly.rollTotal has.here done)
      (.clause (.textArgument fn.name) term.formula) with ⟨result, last, run, ended⟩
  cases result with
  | error fault =>
    cases (ended : last = progress)
    exact ⟨_, _, bind_failed run, orderly.evolves⟩
  | ok value =>
    rcases ended with ⟨rfl, _⟩
    exact ⟨_, _, bind_done run, orderly.evolves, trivial⟩

/-- The total of a roll that is no text is a number, which can be recorded of a pool. -/
theorem handles_collect {pool : Pool} (known : region.term (.pool pool)) :
    region.Handles pool.tag.id (Context.collect pool) := by
  intro progress roll has orderly begun done
  have unfinished : (progress.ledger.term pool.tag.id).phase ≠ .evaluated := by
    rw [begun]
    exact nofun
  rcases totalButText_ends (orderly.rollTotal has.here done)
      (.clause .textInPool roll.formula) with ⟨result, last, run, ended⟩
  cases result with
  | error fault =>
    cases (ended : last = progress)
    exact ⟨_, _, bind_failed run, orderly.evolves⟩
  | ok value =>
    rcases ended with ⟨rfl, among⟩
    refine ⟨_, _, bind_done run, ?_, trivial⟩
    refine orderly.change known unfinished (fun _ => rfl) ?_
    rcases orderly.records (.pool pool) known with ⟨_, is, _⟩ | are
    · cases is
    · exact .inr (are.add among)

theorem compute_evolves (orderly : region.Orderly progress.ledger) {fn : Function}
    {rolls : List Roll} : (Context.compute term fn rolls).Finishes progress
      (region.Brings progress.ledger fun last =>
        ∃ value, last.functionValue fn rolls = .ok value) := by
  unfold Finishes Context.compute
  split
  · rename_i value found
    exact ⟨_, _, rfl, orderly.evolves, value, found⟩
  all_goals exact ⟨_, _, rfl, orderly.evolves⟩

mutual

/-- However the evaluation of a term ends, it begins only what had not begun. -/
theorem evaluateTerm_evolves (unaided : context.resolver = none) : (term : Term) →
    region.term term → (progress : Progress) →
    region.Orderly progress.ledger →
    (context.evaluateTerm term).Finishes progress
      (region.Brings progress.ledger (·.isEvaluated term = true))
  | .numeric tag value, known, progress, orderly => by
    unfold Context.evaluateTerm
    exact orderly.ofTerm known fun ordered _ =>
      concludes_pure ⟨ordered.evolves, ordered.isConcluded known nofun rfl⟩
  | .operator tag op, known, progress, orderly => by
    unfold Context.evaluateTerm
    exact orderly.ofTerm known fun ordered _ =>
      concludes_pure ⟨ordered.evolves, ordered.isConcluded known nofun rfl⟩
  | .text tag word, known, progress, orderly => by
    unfold Context.evaluateTerm
    exact orderly.ofTerm known fun ordered _ =>
      concludes_ite (concludes_pure ⟨ordered.evolves, ordered.isConcluded known nofun rfl⟩)
        (concludes_fail ordered.evolves)
  | .group tag roll, known, progress, orderly => by
    have has := holds_of_mem known (List.mem_singleton.2 rfl)
    unfold Context.evaluateTerm
    refine orderly.ofTerm known fun ordered _ => ?_
    have around := ordered.unlessRollEvaluated (ordered.ofRoll has fun started =>
      evaluateTerms_evolve unaided roll.terms has.terms _ started)
    refine concludes_imp around fun _ last ⟨evolves, done⟩ => ⟨evolves, ?_⟩
    refine evolves.orderly.isConcluded known (fun inner member => ?_) rfl
    exact List.mem_singleton.1 member ▸ done
  | .function tag fn rolls, known, progress, orderly => by
    unfold Context.evaluateTerm
    refine orderly.ofTerm known fun ordered begun => ?_
    have inner := evaluateRolls_evolve unaided rolls (fun roll member => holds_of_mem known member)
      (region.here known) (handles_checkArgument _ (.function tag fn rolls) fn) _ ordered begun
    refine brings_bind inner fun later evolves done => ?_
    refine concludes_imp (compute_evolves evolves.orderly) fun _ last ⟨since, value, found⟩ =>
      ⟨since, since.orderly.isConcluded known (fun roll member => ?_) found⟩
    exact since.advances.toKeeps.isRollEvaluated (region.rolls known roll member).1
      (done roll member)
  | .dice d, known, progress, orderly => by
    unfold Context.evaluateTerm
    refine orderly.ofTerm known fun ordered begun => ?_
    have number := evaluateAmount_evolves unaided d.number (fun inner member =>
      region.children known inner (List.mem_append_left _ member)) _ ordered
    refine brings_bind number fun between evolves _ => ?_
    have faces := evaluateAmount_evolves unaided d.faces (fun inner member =>
      region.children known inner (List.mem_append_right _ member)) between evolves.orderly
    refine brings_bind faces fun later since _ => ?_
    refine rollDice_evolves known unaided since.orderly ?_
    exact (evolves.advances.trans since.advances).evaluating (region.here known) begun
  | .pool p, known, progress, orderly => by
    unfold Context.evaluateTerm
    refine orderly.ofTerm known fun ordered begun => ?_
    have inner := evaluateRolls_evolve unaided p.rolls
      (fun roll member => holds_of_mem known member) (region.here known) (handles_collect known) _
      ordered begun
    refine brings_bind inner fun later evolves done => ?_
    have are : Outcome.Are (Term.pool p).Shows (later.ledger.outcomes p.tag.id) := by
      rcases evolves.orderly.records (.pool p) known with ⟨_, is, _⟩ | are
      · cases is
      · exact are
    have work : region.AtWork later.ledger (.pool p) later :=
      ⟨evolves.orderly.evolves,
        evolves.advances.evaluating (region.here known) begun, are⟩
    have upholds : (Context.modifiedPool p).Upholds context
        (fun _ => region.AtWork later.ledger (.pool p)) (region.AtWork later.ledger (.pool p))
        p.modifiers :=
      @AtWork.upholds _ _ _ (Context.modifiedPool p) known (fun _ _ _ work => concludes_pure work)
        p.modifiers
    refine (Context.runModifiers_concludes upholds work).imp fun result last work => ?_
    cases result with
    | error fault => exact work.evolves
    | ok _ =>
      refine ⟨work.evolves, fun roll member => ?_, Term.hasWorth_of_pool work.records⟩
      exact work.evolves.advances.toKeeps.isRollEvaluated (region.rolls known roll member).1
        (done roll member)

theorem evaluateTerms_evolve (unaided : context.resolver = none) : (terms : List Term) →
    (∀ term ∈ terms, region.term term) →
    (progress : Progress) → region.Orderly progress.ledger →
    (context.evaluateTerms terms).Finishes progress
      (region.Brings progress.ledger fun last => ∀ term ∈ terms, last.isEvaluated term = true)
  | [], _, progress, orderly => by
    unfold Context.evaluateTerms
    exact concludes_pure ⟨orderly.evolves, fun _ member => (List.not_mem_nil member).elim⟩
  | term :: rest, known, progress, orderly => by
    rcases List.forall_mem_cons.1 known with ⟨here, others⟩
    have first := orderly.unlessEvaluated (evaluateTerm_evolves unaided term here progress orderly)
    unfold Context.evaluateTerms
    refine brings_bind first fun later evolves done => ?_
    refine concludes_imp (evaluateTerms_evolve unaided rest others later evolves.orderly)
      fun _ last ⟨since, rest⟩ => ⟨since, List.forall_mem_cons.2 ⟨?_, rest⟩⟩
    exact since.advances.toKeeps.isEvaluated here done

theorem evaluateRolls_evolve (unaided : context.resolver = none) {use : Roll → Evaluation Unit}
    {own : Identity} : (rolls : List Roll) → (∀ roll ∈ rolls, region.Holds roll) →
    region.inside own → region.Handles own use → (progress : Progress) → region.Orderly progress.ledger →
    (progress.ledger.term own).phase = .evaluating →
    (context.evaluateRolls use rolls).Finishes progress
      (region.Brings progress.ledger fun last => ∀ roll ∈ rolls, last.isRollEvaluated roll = true)
  | [], _, _, _, progress, orderly, _ => by
    unfold Context.evaluateRolls
    exact concludes_pure ⟨orderly.evolves, fun _ member => (List.not_mem_nil member).elim⟩
  | roll :: rest, holds, inside, handles, progress, orderly, begun => by
    rcases List.forall_mem_cons.1 holds with ⟨has, others⟩
    have first := orderly.unlessRollEvaluated (orderly.ofRoll has fun started =>
      evaluateTerms_evolve unaided roll.terms has.terms _ started)
    unfold Context.evaluateRolls
    refine brings_bind first fun later evolves done => ?_
    have still := evolves.advances.evaluating inside begun
    refine brings_bind (handles has evolves.orderly still done) fun next since _ => ?_
    have ahead := since.advances.evaluating inside still
    refine concludes_imp
      (evaluateRolls_evolve unaided rest others inside handles next since.orderly ahead)
      fun _ last ⟨onward, rest⟩ => ⟨onward, List.forall_mem_cons.2 ⟨?_, rest⟩⟩
    exact (since.advances.trans onward.advances).toKeeps.isRollEvaluated has.here done

theorem evaluateAmount_evolves (unaided : context.resolver = none) : (amount : Operand Term) →
    (∀ term ∈ amount.term?.toList, region.term term) → (progress : Progress) →
    region.Orderly progress.ledger →
    (context.evaluateAmount amount).Finishes progress
      (region.Brings progress.ledger fun _ => True)
  | .known _, _, progress, orderly => by
    unfold Context.evaluateAmount
    exact concludes_pure ⟨orderly.evolves, trivial⟩
  | .computed term, known, progress, orderly => by
    have here := known term List.mem_cons_self
    unfold Context.evaluateAmount
    exact concludes_imp
      (orderly.unlessEvaluated (evaluateTerm_evolves unaided term here progress orderly))
      fun _ _ ⟨evolves, _⟩ => ⟨evolves, trivial⟩

end

/-! ## Attempts -/

/-- What comes of an evaluation that cannot be waited for. -/
theorem evolves_now {work : Evaluation Unit} {holds : Ledger → Prop}
    (finishes : work.Finishes progress (region.Brings progress.ledger holds)) (formula : String) :
    region.Evolves progress.ledger ((work progress).now formula).2.ledger := by
  rcases finishes with ⟨result, last, run, ended⟩
  rw [run]
  cases result with
  | error fault => exact ended
  | ok _ => exact ended.1

variable {options : Options} {surroundings : Surroundings}

/-- Whatever an attempt to evaluate a term comes to, everything stays in order. -/
theorem Orderly.runTerm (orderly : region.Orderly progress.ledger) (known : region.term term)
    (unaided : surroundings.resolver = none) :
    region.Evolves progress.ledger (term.run options surroundings progress).2.ledger := by
  have work : (term.evaluate options surroundings).Finishes progress
      (region.Brings progress.ledger (·.isEvaluated term = true)) := by
    unfold Term.evaluate
    cases valid : options.forTerm surroundings with
    | error fault => exact ⟨_, _, rfl, orderly.evolves⟩
    | ok context =>
      rcases options.eq_of_forTerm valid with ⟨lenient, limit, rfl⟩
      exact concludes_ite (concludes_fail orderly.evolves)
        (evaluateTerm_evolves unaided term known progress orderly)
  exact evolves_now work term.formula

/-- Whatever an attempt to evaluate a roll comes to, everything stays in order. -/
theorem Orderly.runRoll (orderly : region.Orderly progress.ledger) {roll : Roll}
    (has : region.Holds roll) (unaided : surroundings.resolver = none) :
    region.Evolves progress.ledger (roll.run options surroundings progress).2.ledger := by
  have evaluates (context : Context) (valid : options.forRoll surroundings = .ok context) :
      (context.evaluateRoll roll).Finishes progress
        (region.Brings progress.ledger (·.isRollEvaluated roll = true)) := by
    rcases options.eq_of_forRoll valid with ⟨lenient, limit, rfl⟩
    exact orderly.ofRoll has fun started =>
      evaluateTerms_evolve unaided roll.terms has.terms _ started
  have now : (roll.evaluateNow options surroundings).Finishes progress
      (region.Brings progress.ledger (·.isRollEvaluated roll = true)) := by
    unfold RollOf.evaluateNow
    cases valid : options.forRoll surroundings with
    | error fault => exact ⟨_, _, rfl, orderly.evolves⟩
    | ok context => exact evaluates context valid
  have later : (roll.evaluate options surroundings).Finishes progress
      (region.Brings progress.ledger (·.isRollEvaluated roll = true)) := by
    by_cases untouched : (progress.ledger.roll roll.id).phase = .unevaluated
    · unfold Finishes
      rw [RollOf.evaluate_of_unevaluated options surroundings untouched]
      cases valid : options.forRoll surroundings with
      | error fault => exact ⟨_, _, rfl, orderly.evolves⟩
      | ok context =>
        change (RollOf.evaluateWith surroundings roll context).Finishes progress _
        unfold RollOf.evaluateWith
        rw [unaided]
        exact evaluates context valid
    · exact ⟨_, _, RollOf.evaluate_of_begun options surroundings untouched, orderly.evolves⟩
  have attempts : (roll.attempt options surroundings).Finishes progress
      (region.Brings progress.ledger (·.isRollEvaluated roll = true)) := by
    unfold RollOf.attempt
    exact concludes_ite now later
  exact evolves_now attempts roll.formula

end Region
end DiceNotation
