import DiceNotation.Proofs.Fulfillment.Bookkeeping
import DiceNotation.Proofs.Fulfillment.Finality

namespace DiceNotation

/-!
# Results at every moment

What is recorded of a roll is in order from the moment at which it was made, whatever is
evaluated, asked for, handed in or closed, and also after something has failed.  Results
are only added at the end, and keep their values.  Only where modifiers that fail are
skipped, results can be taken away, and then a message names the term and the modifier.
-/

variable {scope : Scope}

/-- Whether a modifier of a term was skipped from one time to a later one. -/
def Term.Skips (contexts : Context → Prop) (term : Term) (before after : Progress) : Prop :=
  ∃ context raw message told, contexts context ∧ context.lenient = true ∧
    after.journal = told ++ before.journal ∧
    ⟨.warning, Context.skipping term raw message⟩ ∈ told

/-- Whether a term has kept the values that were recorded, or a modifier of it was skipped. -/
def Term.Appends (contexts : Context → Prop) (term : Term) (before after : Progress) : Prop :=
  (before.ledger.outcomes term.id).map (·.value) <+: (after.ledger.outcomes term.id).map (·.value) ∨
    term.Skips contexts before after

namespace Board

variable {board later : Board}

theorem Move.appends (sound : scope.IsSound) (move : Move scope board later)
    (stands : board.Stands scope) {term : Term} (known : scope.term term) :
    term.Appends scope.context board.progress later.progress := by
  have of_sets {id : Identity} {outcomes : List Outcome}
      (sets : board.progress.ledger.Sets later.progress.ledger id outcomes)
      (grown : (board.progress.ledger.outcomes id).map (·.value) <+: outcomes.map (·.value)) :
      term.Appends scope.context board.progress later.progress := by
    refine .inl ?_
    rw [sets]
    split
    · rename_i same
      exact same ▸ grown
    · exact List.prefix_refl _
  have added (id : Identity) (value : Json) :
      (board.progress.ledger.outcomes id).map (·.value) <+:
        (board.progress.ledger.outcomes id ++ [({ value := value } : Outcome)]).map (·.value) := by
    rw [List.map_append]
    exact List.prefix_append _ _
  cases move.records with
  | nothing same => exact .inl (same ▸ List.prefix_refl _)
  | handed member early accepted sets => exact of_sets sets (added _ _)
  | @task stack member recording =>
    have fits := stands.fits stack member
    cases recording with
    | nothing same => exact .inl (same ▸ List.prefix_refl _)
    | result top gives sets => exact of_sets sets (added _ _)
    | total top sets => exact of_sets sets (added _ _)
    | changed top become sets =>
      exact of_sets sets (Outcome.values_of_become become ▸ List.prefix_refl _)
    | @undone context upper below modified saved raw message among allowed lenient sets tells =>
      by_cases same : modified.id = term.id
      · have within : Pending.modifier modified saved ∈ stack :=
          among ▸ List.mem_append_right _ List.mem_cons_self
        obtain rfl := sound.once modified term (fits.of_mem within).1 known same
        exact .inr ⟨context, raw, message, [_], allowed, lenient, tells, List.mem_cons_self⟩
      · exact .inl (((sets term.id).trans (if_neg same)) ▸ List.prefix_refl _)

theorem Moves.told (moves : Moves scope board later) :
    board.progress.journal <:+ later.progress.journal := by
  induction moves with
  | refl => exact List.suffix_refl _
  | tail _ move ih => exact ih.trans move.told

theorem Moves.appends (sound : scope.IsSound) (moves : Moves scope board later)
    (stands : board.Stands scope) {term : Term} (known : scope.term term) :
    term.Appends scope.context board.progress later.progress := by
  induction moves with
  | refl => exact .inl (List.prefix_refl _)
  | @tail between last before move ih =>
    have there := Moves.stands sound before stands
    rcases ih with grown | ⟨context, raw, message, told, allowed, lenient, is, inside⟩
    · rcases move.appends sound there known with
        further | ⟨context, raw, message, told, allowed, lenient, is, inside⟩
      · exact .inl (grown.trans further)
      · rcases Moves.told before with ⟨earlier, journal⟩
        refine .inr ⟨context, raw, message, told ++ earlier, allowed, lenient, ?_,
          List.mem_append_left _ inside⟩
        rw [is, ← journal, List.append_assoc]
    · rcases move.told with ⟨more, journal⟩
      refine .inr ⟨context, raw, message, more ++ told, allowed, lenient, ?_,
        List.mem_append_right _ inside⟩
      rw [← journal, is, List.append_assoc]

end Board

/-! ## Rolls -/

/-- Whether the results of a roll are in order: those of dice are integers in the range of
the dice, and the marks of all results fit together. -/
structure RollOf.InOrder (roll : Roll) (ledger : Ledger) : Prop where
  shown : ∀ dice ∈ roll.dice, ∀ outcome ∈ ledger.outcomes dice.tag.id,
    ∃ (n : Int) (greatest : Json), outcome.value = .ofInt n ∧ dice.kind.minimum ≤ n ∧
      ledger.maximumValue dice = .ok greatest ∧ Json.atMost (.ofInt n) greatest = .ok true
  consistent : ∀ term ∈ Term.partsFrom roll.terms, ∀ outcome ∈ ledger.outcomes term.id,
    outcome.IsConsistent

theorem RollOf.IsMade.booked {setup : Setup} {first : Nat} {made : Ledger} {roll : Roll}
    {contexts : Context → Prop} {singles : Dice → Prop} (isMade : roll.IsMade setup first made) :
    (⟨[], .ofLedger made⟩ : Board).Booked (roll.scope contexts singles) where
  terms term known := by
    have fresh : (made.term term.id).IsFresh := isMade.isFresh known
    have none : (Progress.ofLedger made).ledger.outcomes term.id = [] := by
      change (made.term term.id).outcomes = []
      rw [fresh]
    rw [none]
    exact .nil
  aside term outcomes := by
    rintro ⟨stack, member, _⟩
    exact (List.not_mem_nil member).elim
  early := by
    rintro ⟨id, descriptor, member, _⟩
    exact List.not_mem_nil member

theorem Board.Booked.inOrder {roll : Roll} {contexts : Context → Prop} {singles : Dice → Prop}
    {board : Board} (booked : board.Booked (roll.scope contexts singles)) :
    roll.InOrder board.progress.ledger where
  shown dice member outcome inside :=
    Ledger.accepts_iff.1
      ((booked.terms (.dice dice) (RollOf.mem_scope member)).shown dice rfl outcome inside)
  consistent term member outcome inside :=
    (booked.terms term member).consistent outcome inside

/-- Whatever comes of a roll, between any two times there is a row of moves from one to the
other.  At every moment of it and ever after, also when something has failed, the results
of the roll are in order.  From any moment to a later one, each term has kept the values
that were recorded and has at most got more behind them, unless a modifier of the term was
skipped meanwhile in a context in which modifiers that fail are skipped. -/
theorem Build.inOrder_at_every_moment {setup : Setup} {input : Build.RollInput}
    {before made : Ledger} {roll : Roll}
    (built : Build.ofFormula setup input before = .ok (roll, made)) {contexts : Context → Prop}
    (fair : ∀ context, contexts context → context.IsFair) {schedule later : Schedule}
    (begins : Schedule.Turns (roll.scope contexts fun _ => False) (.ofProgress (.ofLedger made))
      schedule)
    (goes : Schedule.Turns (roll.scope contexts fun _ => False) schedule later) :
    roll.InOrder later.progress.ledger ∧
    (∀ term ∈ Term.partsFrom roll.terms, term.Appends contexts schedule.progress later.progress) ∧
    ∃ board last, schedule.On (roll.scope contexts fun _ => False) board ∧
      later.On (roll.scope contexts fun _ => False) last ∧
      Board.Moves (roll.scope contexts fun _ => False) board last ∧
      ∀ moment, Board.Moves (roll.scope contexts fun _ => False) board moment →
        roll.InOrder moment.progress.ledger ∧
        ∀ further, Board.Moves (roll.scope contexts fun _ => False) moment further →
          ∀ term ∈ Term.partsFrom roll.terms,
            term.Appends contexts moment.progress further.progress := by
  have isMade := Build.ofFormula_isMade built
  have sound : (roll.scope contexts fun _ => False).IsSound := isMade.isSound
  rcases begins.moves (.ofProgress (.ofLedger made)) with ⟨board, moves, on⟩
  rcases goes.moves on with ⟨last, between, onward⟩
  have always : ∀ moment, Board.Moves (roll.scope contexts fun _ => False) board moment →
      roll.InOrder moment.progress.ledger ∧
      ∀ further, Board.Moves (roll.scope contexts fun _ => False) moment further →
        ∀ term ∈ Term.partsFrom roll.terms,
          term.Appends contexts moment.progress further.progress := by
    intro moment reached
    have booked := Board.Moves.booked sound fair (fun _ => not_false) (moves.trans reached)
      isMade.stands isMade.booked
    refine ⟨booked.inOrder, fun further onwards term member => ?_⟩
    have stands := Board.Moves.stands sound (moves.trans reached) isMade.stands
    exact Board.Moves.appends sound onwards stands member
  refine ⟨?_, ?_, board, last, on, onward, between, always⟩
  · exact onward.progress ▸ (always last between).1
  · have appends := (always board .refl).2 last between
    rwa [on.progress, onward.progress] at appends

namespace Schedule

/-- Four dice of which the three highest are kept. -/
def fourDice : Except Fault (Roll × Ledger) :=
  Build.ofFormula Build.usual { formula := "4d6kh3" } .empty

/-- The evaluation of a roll in which every uniform value is one half. -/
def halfway (roll : Roll) (made : Ledger) : Schedule :=
  (ofProgress (.ofLedger made)).attempt {}
    { setup := Build.usual, synchronous := true, uniform := fun _ => 0.5 } roll

/-- One of four dice is discarded, and the results are in order. -/
theorem inOrder_of_fourDice : ∃ roll made dice, fourDice = .ok (roll, made) ∧ dice ∈ roll.dice ∧
    (halfway roll made).progress.ledger.shown dice = ([some 4, some 4, some 4, some 4], some 12) ∧
    roll.InOrder (halfway roll made).progress.ledger := by
  have computed : (do
      let start ← fourDice
      let dice ← start.1.dice.head?.elim (.error Fault.wrongKind) .ok
      return (halfway start.1 start.2).progress.ledger.shown dice ==
        ([some 4, some 4, some 4, some 4], some 12)).toOption = some true := by
    decide +kernel
  rcases result_bind (result_of_toOption computed) with ⟨⟨roll, made⟩, built, rest⟩
  rcases result_bind rest with ⟨dice, first, shown⟩
  let contexts : Context → Prop := fun context => context.uniform = fun _ => 0.5
  have fair (context : Context) (even : contexts context) : context.IsFair := by
    intro k
    rw [even]
    have half : (0 : Float) ≤ 0.5 ∧ (0.5 : Float) < 1 := by decide
    exact half
  have turn : Turn (roll.scope contexts fun _ => False) (.ofProgress (.ofLedger made))
      (halfway roll made) := by
    refine .attempt (fun context valid => ?_) trivial
      (Term.rowThroughout_of_partsFrom fun _ member => member) (fun resolver none => ?_) _
    · cases valid
      rfl
    · cases none
  have inOrder := (Build.inOrder_at_every_moment built fair .refl (.single turn)).1
  exact ⟨roll, made, dice, built, mem_of_head first, beq_iff_eq.1 (Except.ok.inj shown), inOrder⟩

end Schedule

end DiceNotation
