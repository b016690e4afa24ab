import DiceNotation.Proofs.Evaluation.Frame
import DiceNotation.Proofs.Fulfillment.Course
import DiceNotation.Proofs.Fulfillment.Prepared
import DiceNotation.Proofs.Fulfillment.Runs
import DiceNotation.Proofs.Roll.Ledgers

namespace DiceNotation

/-!
# Evaluations that mirror each other

One evaluation waits for values from the outside, and another one does the same with values
that it has.  The second mirrors the first if it comes to the same result without waiting,
however the requests of the first are answered, unless the first was cancelled.  What holds
between the two while they go on is a parameter, and so is what holds when they fail: a
fault may be caught later.
-/

/-- What holds between an evaluation that has taken values and one that mirrors it. -/
abbrev Pairing := List Receipt → Progress → Progress → Prop

/-- A run mirrors a result and the progress that comes with it. -/
inductive Step.Mirrors {α : Type} (values faults : Pairing) (taken : List Receipt)
    (last : Progress) (step : Step α) : Except Fault α → Prop
  | cancelled : Mirrors values faults taken last step (.error .cancelled)
  | value {a : α} {other : Progress} (same : step = .done (.ok a) other)
    (holds : values taken last other) : Mirrors values faults taken last step (.ok a)
  | fault {fault : Fault} {other : Progress} (same : step = .done (.error fault) other)
    (holds : faults taken last other) : Mirrors values faults taken last step (.error fault)

namespace Evaluation

variable {α β : Type} {resolver : Resolver} {whole : List Receipt}
  {before between values faults : Pairing} {first second : Evaluation α}

/-- The second evaluation mirrors the first one, as long as this has taken no other values
than the first ones of a list. -/
def Mirrors (resolver : Resolver) (whole : List Receipt) (before values faults : Pairing)
    (first second : Evaluation α) : Prop :=
  ∀ ⦃taken progress other⦄, before taken progress other → ∀ ⦃more result last⦄,
    (first progress).Runs resolver more (.done result last) → taken ++ more <+: whole →
      (second other).Mirrors values faults (taken ++ more) last result

namespace Mirrors

/-- Less may be asked for before, and more afterwards. -/
theorem mono {earlier valuesToo faultsToo : Pairing}
    (mirrors : Mirrors resolver whole before values faults first second)
    (given : ∀ taken progress other, earlier taken progress other → before taken progress other)
    (kept : ∀ taken progress other, values taken progress other → valuesToo taken progress other)
    (left : ∀ taken progress other, faults taken progress other → faultsToo taken progress other) :
    Mirrors resolver whole earlier valuesToo faultsToo first second := by
  intro taken progress other holds more result last runs within
  cases mirrors (given _ _ _ holds) runs within with
  | cancelled => exact .cancelled
  | value same holds => exact .value same (kept _ _ _ holds)
  | fault same holds => exact .fault same (left _ _ _ holds)

/-- Evaluations that do not wait mirror each other if they come to the same. -/
theorem of_done (done : ∀ taken progress other, before taken progress other →
      ∃ result last lastToo, first progress = .done result last ∧
        second other = .done result lastToo ∧ values taken last lastToo) :
    Mirrors resolver whole before values values first second := by
  intro taken progress other holds more result last runs within
  rcases done _ _ _ holds with ⟨found, reached, lastToo, is, isToo, after⟩
  rw [is] at runs
  rcases runs.of_done with ⟨rfl, same⟩
  cases same
  rw [List.append_nil]
  cases result with
  | ok a => exact .value isToo after
  | error fault => exact .fault isToo after

theorem pure (a : α) : Mirrors resolver whole before before before (pure a) (pure a) :=
  of_done fun _ _ _ holds => ⟨.ok a, _, _, rfl, rfl, holds⟩

theorem fail (fault : Fault) :
    Mirrors resolver whole before before before (fail fault : Evaluation α) (fail fault) :=
  of_done fun _ _ _ holds => ⟨.error fault, _, _, rfl, rfl, holds⟩

theorem lift (result : Except Fault α) :
    Mirrors resolver whole before before before (lift result) (lift result) :=
  of_done fun _ _ _ holds => ⟨result, _, _, rfl, rfl, holds⟩

/-- What is read has to be the same on both sides. -/
theorem read {f : Ledger → Except Fault α}
    (same : ∀ taken progress other, before taken progress other →
      f progress.ledger = f other.ledger) :
    Mirrors resolver whole before before before (read f) (read f) :=
  of_done fun _ _ _ holds => ⟨_, _, _, rfl, congrArg (Step.done · _) (same _ _ _ holds).symm, holds⟩

theorem change {f : Ledger → Ledger}
    (changes : ∀ taken progress other, before taken progress other →
      values taken (progress.updateLedger f) (other.updateLedger f)) :
    Mirrors resolver whole before values values (change f) (change f) :=
  of_done fun _ _ _ holds => ⟨.ok (), _, _, rfl, rfl, changes _ _ _ holds⟩

/-- One evaluation after another is mirrored by the mirrors of both. -/
theorem bind {next nextToo : α → Evaluation β}
    (mirrors : Mirrors resolver whole before between faults first second)
    (further : ∀ a, Mirrors resolver whole between values faults (next a) (nextToo a)) :
    Mirrors resolver whole before values faults (first >>= next) (second >>= nextToo) := by
  intro taken progress other holds more result last runs within
  rcases Step.Runs.of_andThen runs with
    ⟨_, _, _, _, waits⟩ | ⟨front, back, found, middle, rfl, firstRuns, rest⟩
  · cases waits
  rw [← List.append_assoc] at within ⊢
  cases mirrors holds firstRuns ((List.prefix_append _ back).trans within) with
  | cancelled =>
    rcases rest.of_done with ⟨rfl, is⟩
    cases is
    exact .cancelled
  | @value a reached same kept =>
    rw [bind_done same]
    exact further a kept rest within
  | @fault fault reached same kept =>
    rcases rest.of_done with ⟨rfl, is⟩
    cases is
    rw [List.append_nil]
    exact .fault (bind_failed same) kept

/-- What follows an evaluation may catch its fault, unless that is that it was cancelled. -/
theorem andThen {next nextToo : Except Fault α → Evaluation β}
    (mirrors : Mirrors resolver whole before between between first second)
    (further : ∀ result, Mirrors resolver whole between values faults (next result) (nextToo result))
    (passes : next (.error .cancelled) = Evaluation.fail .cancelled) :
    Mirrors resolver whole before values faults (fun progress => (first progress).andThen next)
      (fun progress => (second progress).andThen nextToo) := by
  intro taken progress other holds more result last runs within
  rcases Step.Runs.of_andThen runs with
    ⟨_, _, _, _, waits⟩ | ⟨front, back, found, middle, rfl, firstRuns, rest⟩
  · cases waits
  rw [← List.append_assoc] at within ⊢
  cases mirrors holds firstRuns ((List.prefix_append _ back).trans within) with
  | cancelled =>
    rw [passes] at rest
    rcases rest.of_done with ⟨_, is⟩
    cases is
    exact .cancelled
  | value same kept =>
    change Step.Mirrors _ _ _ _ ((second other).andThen nextToo) _
    rw [same]
    exact further _ kept rest within
  | fault same kept =>
    change Step.Mirrors _ _ _ _ ((second other).andThen nextToo) _
    rw [same]
    exact further _ kept rest within

theorem ite {condition : Prop} [Decidable condition] {third fourth : Evaluation α}
    (holds : Mirrors resolver whole before values faults first second)
    (fails : Mirrors resolver whole before values faults third fourth) :
    Mirrors resolver whole before values faults (if condition then first else third)
      (if condition then second else fourth) := by
  split
  · exact holds
  · exact fails

end Mirrors
end Evaluation
/-!
## Replays

An evaluation that asked a resolver is replayed with the values that its dice took.  The
replay asks nobody and makes no first pass, so the two take the same values in different
orders.  While both go on, they agree on everything but this: dice that were filled in
advance have their outcomes already in the first evaluation, and none in the replay until
it gets to them.
-/

/-- How often the method of a single die was called. -/
def Progress.callsOf (progress : Progress) (id : Identity) : Nat :=
  progress.calls.countP (·.method == ownName id)

/-- The evaluation of a roll that was just made, by a resolver that delivers some values,
and the evaluation with these values. -/
structure Replay where
  resolver : Resolver
  setup : Setup
  first : Nat
  made : Ledger
  isMade : resolver.roll.IsMade setup first made
  /-- All values that are taken, in the order in which they are. -/
  receipts : List Receipt
  asking : Context
  asks : asking.resolver = some resolver
  methods : asking.methods = setup.methods
  waits : asking.synchronous = false
  allows : asking.allowInteractive = true
  chances : asking.minimize = false ∧ asking.maximize = false
  interactive : ∀ dice ∈ resolver.roll.dice,
    setup.methods.isInteractive (made.term dice.tag.id).method = true
  /-- The replay may wait or not, and its uniform values may be any. -/
  synchronous : Bool
  uniform : Nat → Float

namespace Replay

variable (replay : Replay)

/-- The context of the replay. -/
def plain : Context :=
  { replay.asking with
    methods := .prepared replay.receipts replay.resolver.roll.dice
    synchronous := replay.synchronous
    uniform := replay.uniform
    resolver := none }

/-- The ledger from which the replay starts. -/
def start : Ledger := replay.made.withOwnMethods replay.resolver.roll.dice

/-- What the two evaluations have in common at any time. -/
structure Pairs (progress other : Progress) : Prop where
  quiet : progress.Quiet replay.resolver
  roll : ∀ id, progress.ledger.roll id = other.ledger.roll id
  phase : ∀ id, (progress.ledger.term id).phase = (other.ledger.term id).phase
  counting : ∀ id, (progress.ledger.term id).counting = (other.ledger.term id).counting
  method : ∀ id, (progress.ledger.term id).method = (replay.made.term id).method
  own : ∀ id, (other.ledger.term id).method = (replay.start.term id).method

/-- The outcomes of a term are the same, and the replay has drawn every value that was
taken for it. -/
structure IsLevel (taken : List Receipt) (progress other : Progress) (id : Identity) : Prop where
  outcomes : (progress.ledger.term id).outcomes = (other.ledger.term id).outcomes
  calls : other.callsOf id = (shareOf taken id).length

/-- Dice that were filled in advance, and of whose values the replay has drawn the first
ones. -/
structure Owes (count : Nat) (taken : List Receipt) (progress other : Progress) (dice : Dice) :
    Prop where
  member : dice ∈ replay.resolver.roll.dice
  ready : dice.isReady = true
  number : dice.number.count = (shareOf taken dice.tag.id).length
  accepted : ∀ receipt ∈ shareOf taken dice.tag.id,
    replay.made.accepts dice (.number receipt.number) = .ok true
  outcomes : (progress.ledger.term dice.tag.id).outcomes =
    (shareOf taken dice.tag.id).map (·.outcome)
  drawn : (other.ledger.term dice.tag.id).outcomes =
    ((shareOf taken dice.tag.id).take count).map (·.outcome)
  calls : other.callsOf dice.tag.id = count

/-- How it stands with a term: both evaluations have come to the same, or it is dice that
were filled in advance and that the replay has not got to. -/
inductive Stands (taken : List Receipt) (progress other : Progress) (id : Identity) : Prop
  | level (level : IsLevel taken progress other id) : Stands taken progress other id
  | ahead {dice : Dice} (is : dice.tag.id = id) (owes : replay.Owes 0 taken progress other dice)
    (lasts : (progress.ledger.term id).phase ≠ .evaluated) : Stands taken progress other id

/-- The two evaluations go on alike. -/
structure Alike (taken : List Receipt) (progress other : Progress) : Prop where
  pairs : replay.Pairs progress other
  stands : ∀ id, replay.Stands taken progress other id

/-- The two evaluations go on alike and are level at a term. -/
structure AlikeAt (id : Identity) (taken : List Receipt) (progress other : Progress) : Prop where
  pairs : replay.Pairs progress other
  stands : ∀ different, different ≠ id → replay.Stands taken progress other different
  level : IsLevel taken progress other id

/-- The replay catches up with dice that were filled in advance. -/
structure Catching (count : Nat) (dice : Dice) (taken : List Receipt) (progress other : Progress) :
    Prop where
  pairs : replay.Pairs progress other
  stands : ∀ different, different ≠ dice.tag.id → replay.Stands taken progress other different
  owes : replay.Owes count taken progress other dice
  lasts : (progress.ledger.term dice.tag.id).phase ≠ .evaluated

variable {replay} {taken : List Receipt} {progress other : Progress} {id : Identity} {dice : Dice}

theorem AlikeAt.alike (alike : replay.AlikeAt id taken progress other) :
    replay.Alike taken progress other where
  pairs := alike.pairs
  stands different := by
    by_cases same : different = id
    · rw [same]
      exact .level alike.level
    · exact alike.stands different same

theorem Alike.at (alike : replay.Alike taken progress other) (level : IsLevel taken progress other id) :
    replay.AlikeAt id taken progress other :=
  ⟨alike.pairs, fun different _ => alike.stands different, level⟩

/-! ## What is read -/

theorem Alike.agrees (alike : replay.Alike taken progress other) :
    progress.ledger.Agrees other.ledger where
  roll := alike.pairs.roll
  phase := alike.pairs.phase
  outcomes id evaluated := by
    cases alike.stands id with
    | level level => exact level.outcomes
    | ahead _ _ lasts => exact absurd evaluated lasts

/-- A term that is no dice of the roll is level. -/
theorem Alike.level_of_term {term : Term} (alike : replay.Alike taken progress other)
    (member : term ∈ Term.partsFrom replay.resolver.roll.terms) (noDice : term.dice? = none) :
    IsLevel taken progress other term.id := by
  cases alike.stands term.id with
  | level level => exact level
  | @ahead dice is owes _ =>
    have inside := Term.mem_partsFrom_of_mem_diceFrom owes.member
    have same : Term.dice dice = term := replay.isMade.spans.eq_of_id inside member is
    rw [← same] at noDice
    cases noDice

/-- The replay owes nothing any more when it has drawn all values. -/
theorem Owes.level (owes : replay.Owes (shareOf taken dice.tag.id).length taken progress other dice) :
    IsLevel taken progress other dice.tag.id where
  outcomes := by
    rw [owes.outcomes, owes.drawn, List.take_length]
  calls := owes.calls

theorem Catching.at (catching : replay.Catching (shareOf taken dice.tag.id).length dice taken progress
    other) : replay.AlikeAt dice.tag.id taken progress other :=
  ⟨catching.pairs, catching.stands, catching.owes.level⟩

/-! ## What is changed -/

/-- How it stands with a term depends on little. -/
theorem Stands.congr {takenToo : List Receipt} {later otherToo : Progress}
    (stands : replay.Stands taken progress other id)
    (term : later.ledger.term id = progress.ledger.term id)
    (termToo : otherToo.ledger.term id = other.ledger.term id)
    (calls : otherToo.callsOf id = other.callsOf id)
    (share : shareOf takenToo id = shareOf taken id) :
    replay.Stands takenToo later otherToo id := by
  cases stands with
  | level level =>
    refine .level ⟨?_, ?_⟩
    · rw [term, termToo, level.outcomes]
    · rw [calls, share, level.calls]
  | ahead is owes lasts =>
    subst is
    refine .ahead rfl ⟨owes.member, owes.ready, ?_, ?_, ?_, ?_, ?_⟩ ?_
    · rw [share, owes.number]
    · rw [share]
      exact owes.accepted
    · rw [term, share, owes.outcomes]
    · rw [termToo, share, owes.drawn]
    · rw [calls, owes.calls]
    · rwa [term]

/-- Nothing depends on messages and the like. -/
theorem Pairs.of_beside {later otherToo : Progress} (pairs : replay.Pairs progress other)
    (beside : progress.Beside later) (ledger : later.ledger = progress.ledger)
    (ledgerToo : otherToo.ledger = other.ledger) : replay.Pairs later otherToo := by
  constructor
  · exact pairs.quiet.of_beside beside
  · rw [ledger, ledgerToo]
    exact pairs.roll
  · rw [ledger, ledgerToo]
    exact pairs.phase
  · rw [ledger, ledgerToo]
    exact pairs.counting
  · rw [ledger]
    exact pairs.method
  · rw [ledgerToo]
    exact pairs.own

/-- Of the replay only a little matters too. -/
theorem Pairs.of_other {later : Progress} (pairs : replay.Pairs progress other)
    (roll : ∀ id, later.ledger.roll id = other.ledger.roll id)
    (term : ∀ id, ∃ outcomes, later.ledger.term id = { other.ledger.term id with
      outcomes := outcomes }) : replay.Pairs progress later := by
  refine ⟨pairs.quiet, fun id => (pairs.roll id).trans (roll id).symm, fun id => ?_, fun id => ?_,
    pairs.method, fun id => ?_⟩
  all_goals rcases term id with ⟨outcomes, is⟩
  · rw [is]
    exact pairs.phase id
  · rw [is]
    exact pairs.counting id
  · rw [is]
    exact pairs.own id

theorem Alike.of_beside {later otherToo : Progress} (alike : replay.Alike taken progress other)
    (beside : progress.Beside later) (ledger : later.ledger = progress.ledger)
    (ledgerToo : otherToo.ledger = other.ledger) (calls : otherToo.calls = other.calls) :
    replay.Alike taken later otherToo where
  pairs := alike.pairs.of_beside beside ledger ledgerToo
  stands id := (alike.stands id).congr (by rw [ledger]) (by rw [ledgerToo])
    (congrArg (List.countP _) calls) rfl

theorem AlikeAt.report (alike : replay.AlikeAt id taken progress other) (level : Level)
    (text : String) :
    replay.AlikeAt id taken (progress.report level text) (other.report level text) :=
  ⟨alike.pairs.of_beside ⟨rfl, rfl, rfl, rfl⟩ rfl rfl,
    fun different apart => (alike.stands different apart).congr rfl rfl rfl rfl,
    alike.level.outcomes, alike.level.calls⟩

/-- Rolls may change if they do so in both evaluations. -/
theorem Alike.updateRoll (alike : replay.Alike taken progress other) (id : Identity)
    (change : RollState → RollState) :
    replay.Alike taken (progress.updateLedger (·.updateRoll id change))
      (other.updateLedger (·.updateRoll id change)) where
  pairs := by
    refine ⟨alike.pairs.quiet.of_beside ⟨rfl, rfl, rfl, rfl⟩, fun asked => ?_, alike.pairs.phase,
      alike.pairs.counting, alike.pairs.method, alike.pairs.own⟩
    have changed (ledger : Ledger) := ledger.roll_updateRoll id asked change
    refine (changed _).trans (Eq.trans ?_ (changed _).symm)
    rw [alike.pairs.roll id, alike.pairs.roll asked]
  stands asked := (alike.stands asked).congr rfl rfl rfl rfl

theorem Pairs.updateTerm (pairs : replay.Pairs progress other) {change : TermState → TermState}
    (phase : (change (progress.ledger.term id)).phase = (change (other.ledger.term id)).phase)
    (counting : (change (progress.ledger.term id)).counting =
      (change (other.ledger.term id)).counting)
    (method : ∀ state, (change state).method = state.method) :
    replay.Pairs (progress.updateLedger (·.updateTerm id change))
      (other.updateLedger (·.updateTerm id change)) := by
  have changed (ledger : Ledger) (asked : Identity) := ledger.term_updateTerm id asked change
  have kept (ledger : Ledger) (asked : Identity) :
      ((ledger.updateTerm id change).term asked).method = (ledger.term asked).method := by
    rw [changed]
    split
    · rename_i same
      rw [method, same]
    · rfl
  refine ⟨pairs.quiet.of_beside ⟨rfl, rfl, rfl, rfl⟩, pairs.roll, fun asked => ?_, fun asked => ?_,
    fun asked => (kept _ asked).trans (pairs.method asked),
    fun asked => (kept _ asked).trans (pairs.own asked)⟩
  · refine (congrArg _ (changed _ asked)).trans (Eq.trans ?_ (congrArg _ (changed _ asked)).symm)
    split
    · exact phase
    · exact pairs.phase asked
  · refine (congrArg _ (changed _ asked)).trans (Eq.trans ?_ (congrArg _ (changed _ asked)).symm)
    split
    · exact counting
    · exact pairs.counting asked

/-- What happens to one term does not matter to others. -/
theorem Stands.updateTerm {different : Identity} (stands : replay.Stands taken progress other different)
    (apart : different ≠ id) (change changeToo : TermState → TermState) :
    replay.Stands taken (progress.updateLedger (·.updateTerm id change))
      (other.updateLedger (·.updateTerm id changeToo)) different :=
  stands.congr ((Ledger.term_updateTerm _ _ _ _).trans (if_neg apart.symm))
    ((Ledger.term_updateTerm _ _ _ _).trans (if_neg apart.symm)) rfl rfl

/-- A term moves to a phase in both evaluations.  It is not evaluated before it is level. -/
theorem Alike.entering (alike : replay.Alike taken progress other) (term : Term) {phase : Phase}
    (level : phase = .evaluated → IsLevel taken progress other term.id) :
    replay.Alike taken (progress.entering term phase) (other.entering term phase) where
  pairs := alike.pairs.updateTerm rfl (alike.pairs.counting term.id) fun _ => rfl
  stands id := by
    have stands := alike.stands id
    by_cases same : id = term.id
    · subst same
      have changed (ledger : Ledger) : (ledger.updateTerm term.id fun state =>
          { state with phase := phase }).term term.id = { ledger.term term.id with phase := phase } :=
        (ledger.term_updateTerm term.id term.id _).trans (if_pos rfl)
      have outcomes (progress : Progress) :
          ((progress.entering term phase).ledger.term term.id).outcomes =
            (progress.ledger.term term.id).outcomes := by
        have whole := congrArg TermState.outcomes (changed progress.ledger)
        exact whole
      have levelled (level : IsLevel taken progress other term.id) :
          IsLevel taken (progress.entering term phase) (other.entering term phase) term.id := by
        refine ⟨?_, level.calls⟩
        rw [outcomes, outcomes, level.outcomes]
      cases stands with
      | level level => exact .level (levelled level)
      | @ahead dice is owes lasts =>
        by_cases evaluated : phase = .evaluated
        · exact .level (levelled (level evaluated))
        · refine .ahead is ⟨owes.member, owes.ready, owes.number, owes.accepted, ?_, ?_, owes.calls⟩ ?_
          · rw [is, outcomes, ← is, owes.outcomes]
          · rw [is, outcomes, ← is, owes.drawn]
          · exact ne_of_eq_of_ne (congrArg TermState.phase (changed _)) evaluated
    · exact stands.updateTerm same _ _

/-- Whether a change of a term keeps its phase and its method, and depends on nothing that
may be different in a replay. -/
structure Rewrites (change : TermState → TermState) : Prop where
  phase : ∀ state, (change state).phase = state.phase
  method : ∀ state, (change state).method = state.method
  outcomes : ∀ state other, state.outcomes = other.outcomes →
    (change state).outcomes = (change other).outcomes
  counting : ∀ state other, state.counting = other.counting →
    (change state).counting = (change other).counting

/-- A term that is level stays so if the same is done to it in both evaluations. -/
theorem AlikeAt.change (alike : replay.AlikeAt id taken progress other)
    {change : TermState → TermState} (rewrites : Rewrites change) :
    replay.AlikeAt id taken (progress.updateLedger (·.updateTerm id change))
      (other.updateLedger (·.updateTerm id change)) where
  pairs := by
    refine alike.pairs.updateTerm ?_ (rewrites.counting _ _ (alike.pairs.counting id)) rewrites.method
    rw [rewrites.phase, rewrites.phase, alike.pairs.phase]
  stands different apart := (alike.stands different apart).updateTerm apart _ _
  level := by
    have changed (ledger : Ledger) : (ledger.updateTerm id change).term id = change (ledger.term id) :=
      (ledger.term_updateTerm id id change).trans (if_pos rfl)
    refine ⟨?_, alike.level.calls⟩
    refine (congrArg _ (changed _)).trans (Eq.trans ?_ (congrArg _ (changed _)).symm)
    exact rewrites.outcomes _ _ alike.level.outcomes

end Replay
end DiceNotation
