import DiceNotation.Proofs.Fulfillment.Early
import DiceNotation.Proofs.Fulfillment.Recording
import DiceNotation.Proofs.Fulfillment.Turns
import DiceNotation.Proofs.Number.Shares

namespace DiceNotation

/-!
# Bookkeeping

What is recorded of dice and pools is in order at every moment: the marks of each outcome
fit together, and dice have results only that they can show.  This includes the outcomes
that a modifier has set aside, to which it goes back if it fails and is skipped.  Apart
from that nothing is ever taken away.
-/

/-! ## What dice can show -/

namespace Ledger

variable {before after : Ledger}

/-- An amount that is known stays the same, as long as the brackets that compute it do. -/
theorem amount_of_still {amount : Operand Term} (bracketed : amount.IsBracketed)
    (term : ∀ tag roll, amount = .computed (.group tag roll) →
      (before.term tag.id).phase = .evaluated → (after.term tag.id).phase = .evaluated)
    (rolls : ∀ tag roll, amount = .computed (.group tag roll) →
      (before.roll roll.id).phase = .evaluated → after.roll roll.id = before.roll roll.id)
    {value : Json} (known : before.amount amount = .ok value) (isSome : value ≠ .null) :
    after.amount amount = .ok value := by
  cases amount with
  | known m => exact known
  | computed inner =>
    rcases bracketed with ⟨tag, roll, rfl⟩
    have unknown (is : before.amount (.computed (.group tag roll)) = .ok .null) : False :=
      isSome (Except.ok.inj (known.symm.trans is))
    cases done : before.isEvaluated (.group tag roll) with
    | false =>
      refine (unknown ?_).elim
      simp only [Ledger.amount, Ledger.total, done]
      rfl
    | true =>
      have still : after.isEvaluated (.group tag roll) = true :=
        beq_iff_eq.2 (term tag roll rfl (beq_iff_eq.1 done))
      cases ended : before.isRollEvaluated roll with
      | false =>
        refine (unknown ?_).elim
        simp only [Ledger.amount, Ledger.total, done, if_true, totalOf, Ledger.rollTotal, ended]
        rfl
      | true =>
        have same := rolls tag roll rfl (beq_iff_eq.1 ended)
        simp only [Ledger.amount, Ledger.total, done, still, if_true, totalOf] at known ⊢
        rw [← known, Ledger.rollTotal, Ledger.rollTotal, Ledger.isRollEvaluated,
          Ledger.isRollEvaluated, same]

/-- An amount that is known stays the same. -/
theorem Lasts.amount_of_known (lasts : Lasts before after) {amount : Operand Term}
    (bracketed : amount.IsBracketed) {value : Json} (known : before.amount amount = .ok value)
    (isSome : value ≠ .null) : after.amount amount = .ok value :=
  amount_of_still bracketed (fun tag _ _ => lasts.term tag.id) (fun _ roll _ => lasts.roll roll.id)
    known isSome

/-- What dice can show is an integer in their range. -/
theorem accepts_iff {ledger : Ledger} {dice : Dice} {value : Json} :
    ledger.accepts dice value = .ok true ↔ ∃ (n : Int) (greatest : Json), value = .ofInt n ∧
      dice.kind.minimum ≤ n ∧ ledger.maximumValue dice = .ok greatest ∧
      Json.atMost (.ofInt n) greatest = .ok true := by
  constructor
  · intro accepted
    unfold accepts at accepted
    split at accepted
    · rename_i n
      split at accepted
      · cases accepted
      · rename_i above
        cases found : ledger.maximumValue dice with
        | error fault =>
          rw [found] at accepted
          cases accepted
        | ok greatest =>
          rw [found] at accepted
          exact ⟨n, greatest, rfl, Int.not_lt.1 above, rfl, accepted⟩
    · cases accepted
  · rintro ⟨n, greatest, rfl, above, found, below⟩
    change (if n < dice.kind.minimum then Except.ok false
      else ledger.maximumValue dice >>= Json.atMost (.ofInt n)) = _
    rw [if_neg (Int.not_lt.2 above), found]
    exact below

/-- What dice could show they still can. -/
theorem Lasts.accepts (lasts : Lasts before after) {dice : Dice}
    (bracketed : dice.faces.IsBracketed) {value : Json}
    (accepted : before.accepts dice value = .ok true) : after.accepts dice value = .ok true := by
  rcases accepts_iff.1 accepted with ⟨n, greatest, is, above, found, below⟩
  refine accepts_iff.2 ⟨n, greatest, is, above, ?_, below⟩
  unfold maximumValue at found ⊢
  cases fixed : dice.kind.fixedMaximum? with
  | some m =>
    rw [fixed] at found
    exact found
  | none =>
    rw [fixed] at found
    refine lasts.amount_of_known bracketed found ?_
    rintro rfl
    cases below

end Ledger

/-- Numbered dice show the numbers from one to their faces, and other dice what their kind
does. -/
theorem DiceOf.Counts.shows {scope : Scope} {ledger : Ledger} {dice : Dice} {number faces : Nat}
    (counts : dice.Counts scope ledger number faces) (sound : dice.IsSound) :
    ∃ greatest : Int, ledger.maximumValue dice = .ok (.ofInt greatest) ∧
      dice.kind.minimum ≤ greatest := by
  cases kind : dice.kind with
  | coin => exact ⟨1, by unfold Ledger.maximumValue; rw [kind]; rfl, by decide⟩
  | fate => exact ⟨1, by unfold Ledger.maximumValue; rw [kind]; rfl, by decide⟩
  | numbered =>
    exact ⟨faces, maximumValue_numbered kind counts.sided, Int.ofNat_le.2 counts.some⟩
  | plain =>
    have numbered := sound.numbered (by rw [kind]; rfl)
    rw [kind] at numbered
    cases numbered

/-- A context whose uniform values are from zero on and below one. -/
def Context.IsFair (context : Context) : Prop :=
  ∀ k, 0 ≤ context.uniform k ∧ context.uniform k < 1

/-- A share that is not below zero picks a result in the range of dice. -/
theorem Ledger.mapUniform_between {ledger : Ledger} {dice : Dice} {greatest : Int}
    (known : ledger.maximumValue dice = .ok (.ofInt greatest))
    (some : dice.kind.minimum ≤ greatest) {u : Float} (above : 0 ≤ u) {value : Json}
    (picked : ledger.mapUniform dice (.number (.real u)) = .ok value) :
    ∃ n : Int, value = .ofInt n ∧ dice.kind.minimum ≤ n ∧ n ≤ greatest := by
  unfold Ledger.mapUniform at picked
  rw [known] at picked
  change (liftNumber (pickUniform dice.kind.minimum (.int greatest) (.real u))).map
    Json.number = _ at picked
  cases result : pickUniform dice.kind.minimum (.int greatest) (.real u) with
  | error fault =>
    rw [result] at picked
    cases picked
  | ok number =>
    rw [result] at picked
    cases picked
    rcases Number.pickUniform_between some above result with ⟨n, rfl, between⟩
    exact ⟨n, rfl, between⟩

/-- Wherever a result comes from, dice with known amounts can show it. -/
theorem Scope.Gives.shown {scope : Scope} {ledger : Ledger} {dice : Dice} {number faces : Nat}
    {value : Json} (gives : scope.Gives ledger dice value)
    (counts : dice.Counts scope ledger number faces) (sound : dice.IsSound)
    (fair : ∀ context, scope.context context → context.IsFair) :
    ledger.accepts dice value = .ok true := by
  rcases counts.shows sound with ⟨greatest, known, some⟩
  have between (n : Int) (above : dice.kind.minimum ≤ n) (below : n ≤ greatest) :
      ledger.accepts dice (.ofInt n) = .ok true := by
    refine Ledger.accepts_iff.2 ⟨n, .ofInt greatest, rfl, above, known, ?_⟩
    change Json.atMost (.number (.int n)) (.number (.int greatest)) = _
    rw [Json.atMost_number, Number.atMost_int, decide_eq_true below]
  cases gives with
  | lowest => exact between _ (Int.le_refl _) some
  | highest given =>
    cases known.symm.trans given
    exact between _ some (Int.le_refl _)
  | @uniform context value allowed k picked =>
    rcases Ledger.mapUniform_between known some (fair context allowed k).1 picked with
      ⟨n, rfl, above, below⟩
    exact between n above below
  | accepted can => exact can

/-! ## Outcomes in order -/

/-- Whether the outcomes of a term are in order. -/
structure Term.Records (ledger : Ledger) (term : Term) (outcomes : List Outcome) : Prop where
  consistent : ∀ outcome ∈ outcomes, outcome.IsConsistent
  shown : ∀ dice, term = .dice dice → ∀ outcome ∈ outcomes,
    ledger.accepts dice outcome.value = .ok true

namespace Term.Records

variable {ledger before after : Ledger} {term : Term} {outcomes changed : List Outcome}

theorem nil : term.Records ledger [] where
  consistent _ member := (List.not_mem_nil member).elim
  shown _ _ _ member := (List.not_mem_nil member).elim

theorem lasts (records : term.Records before outcomes) (lasts : before.Lasts after)
    (bracketed : ∀ dice, term = .dice dice → dice.faces.IsBracketed) :
    term.Records after outcomes where
  consistent := records.consistent
  shown dice is outcome member :=
    lasts.accepts (bracketed dice is) (records.shown dice is outcome member)

theorem add (records : term.Records ledger outcomes) {value : Json}
    (can : ∀ dice, term = .dice dice → ledger.accepts dice value = .ok true) :
    term.Records ledger (outcomes ++ [{ value := value }]) where
  consistent := List.forall_mem_append.2
    ⟨records.consistent, List.forall_mem_singleton.2 (Outcome.isConsistent_new value)⟩
  shown dice is := List.forall_mem_append.2
    ⟨records.shown dice is, List.forall_mem_singleton.2 (can dice is)⟩

theorem become (records : term.Records ledger outcomes)
    (become : List.Forall₂ Outcome.Becomes outcomes changed) : term.Records ledger changed where
  consistent := Outcome.consistent_of_become become records.consistent
  shown dice is outcome member := by
    have value : outcome.value ∈ outcomes.map (·.value) :=
      Outcome.values_of_become become ▸ List.mem_map_of_mem member
    rcases List.mem_map.1 value with ⟨first, inside, same⟩
    exact same ▸ records.shown dice is first inside

end Term.Records

/-! ## Boards in order -/

section

variable {scope : Scope} {term : Term} {outcomes : List Outcome}

theorem StackFits.of_mem {ledger : Ledger} {stack : List Pending} {pending : Pending}
    (fits : StackFits scope ledger stack) (member : pending ∈ stack) :
    pending.Fits scope ledger := by
  induction stack with
  | nil => exact (List.not_mem_nil member).elim
  | cons head below ih =>
    rcases List.mem_cons.1 member with rfl | inside
    · exact fits.1
    · exact ih fits.2.2 inside

theorem Pending.Modifies.known {ledger : Ledger} {pending : Pending}
    (modifies : pending.Modifies term) (fits : pending.Fits scope ledger) : scope.term term := by
  cases modifies with
  | dice number faces some => exact fits.1.known
  | pool pool => exact fits

/-- The outcomes that a modifier has set aside. -/
def Pending.aside? : Pending → Option (Term × List Outcome)
  | modifier t saved => some (t, saved)
  | _ => none

/-- Outcomes are set aside as they are when a modifier begins. -/
theorem Act.setsAside {moment later : Moment} (act : Act scope moment later)
    (member : (term, outcomes) ∈ later.stack.filterMap Pending.aside?) :
    (term, outcomes) ∈ moment.stack.filterMap Pending.aside? ∨
      outcomes = moment.progress.ledger.outcomes term.id ∧
        ∃ pending ∈ moment.stack, pending.Modifies term := by
  cases act with
  | begin modifies progress =>
    rcases List.mem_cons.1 member with same | inside
    · cases same
      exact .inr ⟨rfl, _, List.mem_cons_self, modifies⟩
    · exact .inl inside
  | undo =>
    rw [List.filterMap_append]
    exact .inl (List.mem_append_right _ (List.mem_cons_of_mem _ member))
  | done => exact .inl (List.mem_cons_of_mem _ member)
  | _ => exact .inl member

end

namespace Board

variable {scope : Scope} {board later : Board}

/-- Whether outcomes are set aside in one of the tasks. -/
def SetAside (board : Board) (term : Term) (outcomes : List Outcome) : Prop :=
  ∃ stack ∈ board.lanes, (term, outcomes) ∈ stack.filterMap Pending.aside?

theorem Move.setsAside (move : Move scope board later) {term : Term} {outcomes : List Outcome}
    (aside : later.SetAside term outcomes) :
    board.SetAside term outcomes ∨ outcomes = board.progress.ledger.outcomes term.id ∧
      ∃ stack ∈ board.lanes, ∃ pending ∈ stack, pending.Modifies term := by
  rcases aside with ⟨stack, member, inside⟩
  have among {front back : List (List Pending)} {changed : List Pending} (old : List Pending)
      (member : stack ∈ front ++ changed :: back) :
      stack ∈ front ++ old :: back ∨ stack = changed := by
    rcases List.mem_cons.1 (List.perm_middle.mem_iff.1 member) with same | other
    · exact .inr same
    · exact .inl (List.perm_middle.mem_iff.2 (List.mem_cons_of_mem _ other))
  have here {front back : List (List Pending)} (old : List Pending) : old ∈ front ++ old :: back :=
    List.mem_append_right _ List.mem_cons_self
  have added {lanes : List (List Pending)} {pending : List Pending}
      (nothing : pending.filterMap Pending.aside? = []) (member : stack ∈ lanes ++ [pending]) :
      stack ∈ lanes := by
    rcases List.mem_append.1 member with before | last
    · exact before
    · rw [List.mem_singleton.1 last, nothing] at inside
      exact (List.not_mem_nil inside).elim
  cases move with
  | @act front back old changed progress last act =>
    rcases among old member with before | rfl
    · exact .inl ⟨stack, before, inside⟩
    · rcases act.setsAside inside with before | ⟨same, pending, within, modifies⟩
      · exact .inl ⟨old, here old, before⟩
      · exact .inr ⟨same, old, here old, pending, within, modifies⟩
  | drop front back old progress =>
    rcases among old member with before | rfl
    · exact .inl ⟨stack, before, inside⟩
    · exact (List.not_mem_nil inside).elim
  | @resume request answer progress answered front back old =>
    rcases among (.request request :: old) member with before | rfl
    · exact .inl ⟨stack, before, inside⟩
    · exact .inl ⟨_, here _, inside⟩
  | begin => exact .inl ⟨stack, added rfl member, inside⟩
  | single => exact .inl ⟨stack, added rfl member, inside⟩
  | resolve => exact .inl ⟨stack, added rfl member, inside⟩
  | _ => exact .inl ⟨stack, member, inside⟩

/-- Whether all that is recorded is in order, set aside or not, and dice are asked for in
advance only that are known. -/
structure Booked (scope : Scope) (board : Board) : Prop where
  terms : ∀ term, scope.term term →
    term.Records board.progress.ledger (board.progress.ledger.outcomes term.id)
  aside : ∀ term outcomes, board.SetAside term outcomes →
    term.Records board.progress.ledger outcomes
  early : ¬board.progress.Early fun dice => ¬scope.term (.dice dice)

section

theorem Stands.known_aside (stands : board.Stands scope) {term : Term} {outcomes : List Outcome}
    (aside : board.SetAside term outcomes) : scope.term term := by
  rcases aside with ⟨stack, member, inside⟩
  rcases List.mem_filterMap.1 inside with ⟨pending, within, is⟩
  have fits := (stands.fits stack member).of_mem within
  cases pending with
  | modifier t saved =>
    cases is
    exact fits.1
  | _ => cases is

variable (sound : scope.IsSound) (fair : ∀ context, scope.context context → context.IsFair)
  (alone : ∀ dice, ¬scope.single dice)
include sound fair alone

/-- What becomes of the outcomes of a term in one move is in order. -/
theorem Move.records_terms (move : Move scope board later) (stands : board.Stands scope)
    (booked : board.Booked scope) {term : Term} (known : scope.term term) :
    term.Records board.progress.ledger (later.progress.ledger.outcomes term.id) := by
  have was := booked.terms term known
  have of_sets {id : Identity} {outcomes : List Outcome}
      (sets : board.progress.ledger.Sets later.progress.ledger id outcomes)
      (here : id = term.id → term.Records board.progress.ledger outcomes) :
      term.Records board.progress.ledger (later.progress.ledger.outcomes term.id) := by
    rw [sets]
    split
    · rename_i same
      exact here same
    · exact was
  cases move.records with
  | nothing same => exact same ▸ was
  | @handed id descriptor value member early accepted sets =>
    have within : scope.term (.dice descriptor.dice) := by
      by_contra unknown
      exact booked.early ⟨id, descriptor, member, early, unknown⟩
    refine of_sets sets fun same => ?_
    obtain rfl := sound.once (.dice descriptor.dice) term within known same
    exact was.add fun dice is => Term.dice.inj is ▸ accepted
  | @task stack member recording =>
    have fits := stands.fits stack member
    cases recording with
    | nothing same => exact same ▸ was
    | @result dice below value top gives sets =>
      subst top
      refine of_sets sets fun same => ?_
      obtain rfl := sound.once (.dice dice) term fits.1.1 known same
      rcases fits.1.2 with single | ⟨number, faces, counts⟩
      · exact (alone dice single).elim
      · have shown := gives.shown counts (sound.dice dice known) fair
        exact was.add fun other is => Term.dice.inj is ▸ shown
    | @total pool below value top sets =>
      subst top
      refine of_sets sets fun same => ?_
      obtain rfl := sound.once (.pool pool) term fits.1 known same
      exact was.add fun _ is => nomatch is
    | @changed modified saved outcomes below top become sets =>
      subst top
      refine of_sets sets fun same => ?_
      obtain rfl := sound.once modified term fits.1.1 known same
      exact was.become become
    | @undone context upper below modified saved raw message among allowed lenient sets tells =>
      have aside : board.SetAside modified saved := by
        refine ⟨stack, member, List.mem_filterMap.2 ⟨.modifier modified saved, ?_, rfl⟩⟩
        rw [among]
        exact List.mem_append_right _ List.mem_cons_self
      refine of_sets sets fun same => ?_
      obtain rfl := sound.once modified term (stands.known_aside aside) known same
      exact booked.aside modified saved aside

/-- What is in order stays in order. -/
theorem Move.booked (move : Move scope board later) (stands : board.Stands scope)
    (booked : board.Booked scope) : later.Booked scope := by
  have lasts := move.lasts stands.exclusive
  have bracketed (term : Term) (known : scope.term term) (dice : Dice) (is : term = .dice dice) :
      dice.faces.IsBracketed := (sound.dice dice (is ▸ known)).facesBracketed
  refine ⟨fun term known => ?_, fun term outcomes aside => ?_, fun early => ?_⟩
  · exact (move.records_terms sound fair alone stands booked known).lasts lasts
      (bracketed term known)
  · rcases move.setsAside aside with before | ⟨rfl, stack, member, pending, inside, modifies⟩
    · exact (booked.aside term outcomes before).lasts lasts
        (bracketed term (stands.known_aside before))
    · have known : scope.term term := modifies.known ((stands.fits stack member).of_mem inside)
      exact (booked.terms term known).lasts lasts (bracketed term known)
  · rcases move.early sound stands early with before | ⟨dice, known, unknown, _⟩
    · exact booked.early before
    · exact unknown known

theorem Moves.booked (moves : Moves scope board later) (stands : board.Stands scope)
    (booked : board.Booked scope) : later.Booked scope := by
  induction moves with
  | refl => exact booked
  | tail before move ih =>
    exact move.booked sound fair alone (Moves.stands sound before stands) ih

end

end Board

end DiceNotation
