import DiceNotation.Proofs.Dice.Records
import DiceNotation.Proofs.Fulfillment.Boards

namespace DiceNotation

/-!
# What is recorded

Among all that can happen, little changes the outcomes of a term.  A die that is rolled
adds its value, a roll in a pool its total, and a value that is handed in is added if the
die was asked for in advance.  A modifier marks outcomes and leaves their values alone.
Only a modifier that failed and is skipped takes outcomes away, and then a message says so.
-/

namespace Ledger

/-- The outcomes of one term are set, and those of all others are what they were. -/
def Sets (before after : Ledger) (id : Identity) (outcomes : List Outcome) : Prop :=
  ∀ other, after.outcomes other = if id = other then outcomes else before.outcomes other

theorem sets_updateTerm (ledger : Ledger) (id : Identity) (change : TermState → TermState) :
    Sets ledger (ledger.updateTerm id change) id (change (ledger.term id)).outcomes := by
  intro other
  unfold Ledger.outcomes
  rw [term_updateTerm]
  split <;> rfl

theorem outcomes_updateTerm (ledger : Ledger) (id : Identity) {change : TermState → TermState}
    (kept : ∀ state, (change state).outcomes = state.outcomes) :
    (ledger.updateTerm id change).outcomes = ledger.outcomes := by
  funext other
  rw [sets_updateTerm]
  split
  · rename_i same
    rw [kept, same]
    rfl
  · rfl

end Ledger

/-- What becomes of outcomes in one step of a task with a stack. -/
inductive Recording (scope : Scope) (stack : List Pending) (before after : Progress) : Prop
  | nothing (same : after.ledger.outcomes = before.ledger.outcomes)
  | result {dice : Dice} {below : List Pending} {value : Json}
    (top : stack = .result dice :: below) (gives : scope.Gives before.ledger dice value)
    (sets : before.ledger.Sets after.ledger dice.tag.id
      (before.ledger.outcomes dice.tag.id ++ [{ value := value }]))
  | total {pool : Pool} {below : List Pending} {value : Json}
    (top : stack = .term (.pool pool) :: below)
    (sets : before.ledger.Sets after.ledger pool.tag.id
      (before.ledger.outcomes pool.tag.id ++ [{ value := value }]))
  | changed {term : Term} {saved outcomes : List Outcome} {below : List Pending}
    (top : stack = .modifier term saved :: below)
    (become : List.Forall₂ Outcome.Becomes (before.ledger.outcomes term.id) outcomes)
    (sets : before.ledger.Sets after.ledger term.id outcomes)
  | undone {context : Context} {upper below : List Pending} {term : Term} {saved : List Outcome}
    {raw : Json} {message : String} (among : stack = upper ++ .modifier term saved :: below)
    (allowed : scope.context context) (lenient : context.lenient = true)
    (sets : before.ledger.Sets after.ledger term.id saved)
    (tells : after.journal = ⟨.warning, Context.skipping term raw message⟩ :: before.journal)

section

variable {scope : Scope} {moment later : Moment}

theorem Act.recording (act : Act scope moment later) :
    Recording scope moment.stack moment.progress later.progress := by
  cases act with
  | aside only => exact .nothing (by rw [only.ledger])
  | enter => exact .nothing (Ledger.outcomes_updateTerm _ _ fun _ => rfl)
  | leave => exact .nothing (Ledger.outcomes_updateTerm _ _ fun _ => rfl)
  | leaveDice => exact .nothing (Ledger.outcomes_updateTerm _ _ fun _ => rfl)
  | take gives => exact .result rfl gives (Ledger.sets_updateTerm _ _ _)
  | takeMissing gives => exact .result rfl gives (Ledger.sets_updateTerm _ _ _)
  | collect => exact .total rfl (Ledger.sets_updateTerm _ _ _)
  | mark chain found active =>
    exact .changed rfl (chain.become_modify found active) (Ledger.sets_updateTerm _ _ _)
  | @tally stack term saved progress action command =>
    exact .changed rfl (Tally.becomes_carryOut ⟨_, _⟩ command term.formula action)
      (Ledger.sets_updateTerm _ _ _)
  | undo allowed lenient => exact .undone rfl allowed lenient (Ledger.sets_updateTerm _ _ _) rfl
  | book known member ready unfinished asked =>
    exact .nothing (by rw [Resolver.ledger_addTerm asked])
  | release => exact .nothing (by rw [Resolver.ledger_checkDone])
  | close => exact .nothing (by rw [Resolver.ledger_close])
  | _ => exact .nothing rfl

/-! ## Moves -/

/-- What becomes of outcomes in one move. -/
inductive Board.Records (scope : Scope) (board later : Board) : Prop
  | task {stack : List Pending} (member : stack ∈ board.lanes)
    (recording : Recording scope stack board.progress later.progress)
  | handed {id : Nat} {descriptor : Descriptor} {value : Json}
    (member : descriptor ∈ (board.progress.resolvers.get id).outstanding)
    (early : descriptor.isNew = false)
    (accepted : board.progress.ledger.accepts descriptor.dice value = .ok true)
    (sets : board.progress.ledger.Sets later.progress.ledger descriptor.dice.tag.id
      (board.progress.ledger.outcomes descriptor.dice.tag.id ++ [{ value := value }]))
  | nothing (same : later.progress.ledger.outcomes = board.progress.ledger.outcomes)

theorem Board.Move.records {board later : Board} (move : Move scope board later) :
    board.Records scope later := by
  cases move with
  | act act => exact .task (List.mem_append_right _ List.mem_cons_self) act.recording
  | aside only => exact .nothing (by rw [only.ledger])
  | addTerm known member asked => exact .nothing (by rw [Resolver.ledger_addTerm asked])
  | register known handed =>
    rcases Resolver.register_eq_ok handed with
      ⟨_, number, front, descriptor, back, _, takes, rfl⟩ | ⟨_, rfl | ⟨level, text, rfl⟩⟩
    · cases old : descriptor.isNew with
      | true => exact .nothing (by rw [Resolver.ledger_deliver, if_pos old])
      | false =>
        have member : descriptor ∈ (_ : ResolverState).outstanding :=
          takes.kept ▸ List.mem_append_right _ List.mem_cons_self
        refine .handed member old takes.accepted ?_
        rw [Resolver.ledger_deliver, if_neg (by rw [old]; exact Bool.false_ne_true)]
        exact Ledger.sets_updateTerm _ _ _
    · exact .nothing rfl
    · exact .nothing rfl
  | close => exact .nothing (by rw [Resolver.ledger_close])
  | _ => exact .nothing rfl

/-! ## The journal -/

namespace Resolver

variable (resolver : Resolver) (progress : Progress)

theorem journal_addMany (dice : Dice) (method : Json) (count : Nat) :
    (resolver.addMany dice method count progress).2.journal = progress.journal := by
  induction count generalizing progress with
  | zero => rfl
  | succ count ih => exact ih (resolver.add dice method false false false progress).2

theorem journal_addTerm {resolver : Resolver} {dice : Dice} {progress later : Progress}
    {requests : List Request} (asked : resolver.addTerm dice progress = .ok (requests, later)) :
    later.journal = progress.journal := by
  unfold addTerm at asked
  split at asked
  · cases asked
  · split at asked
    · cases asked
    · have last := congrArg Prod.snd (Except.ok.inj asked)
      change (resolver.addMany _ _ _ _).2 = later at last
      rw [← last]
      exact journal_addMany _ _ _ _ _

theorem journal_checkDone : (resolver.checkDone progress).2.journal = progress.journal := by
  unfold checkDone
  simp only
  split
  · rfl
  · split
    · rfl
    · split <;> rfl

theorem journal_cancel (requests : List Request) :
    (cancel progress requests).journal = progress.journal := by
  unfold cancel
  induction requests generalizing progress with
  | nil => rfl
  | cons request rest ih =>
    rw [List.foldl_cons, ih]
    split <;> rfl

theorem journal_close : progress.journal <:+ (resolver.close progress).journal := by
  unfold close
  simp only
  split
  · exact List.suffix_refl _
  · split
    · rw [journal_cancel]
      exact List.suffix_refl _
    · change progress.journal <:+ _ :: (cancel _ _).journal
      rw [journal_cancel]
      exact List.suffix_cons _ _

theorem journal_register {resolver : Resolver} {method denomination value : Json} {accepted : Bool}
    {progress later : Progress}
    (handed : resolver.register method denomination value progress = .ok (accepted, later)) :
    progress.journal <:+ later.journal := by
  rcases register_eq_ok handed with
    ⟨_, number, front, descriptor, back, _, takes, rfl⟩ | ⟨_, rfl | ⟨level, text, rfl⟩⟩
  · unfold deliver
    simp only
    rw [journal_checkDone]
    change progress.journal <:+ Progress.journal (if descriptor.isNew = true then _ else _)
    split <;> exact List.suffix_refl _
  · exact List.suffix_refl _
  · exact List.suffix_cons _ _

end Resolver

/-- Messages are only added. -/
theorem Act.told (act : Act scope moment later) :
    moment.progress.journal <:+ later.progress.journal := by
  cases act with
  | aside only told => exact told
  | finish => exact List.suffix_cons _ _
  | undo => exact List.suffix_cons _ _
  | book known member ready unfinished asked =>
    exact (Resolver.journal_addTerm asked).symm ▸ List.suffix_refl _
  | release => exact (Resolver.journal_checkDone _ _).symm ▸ List.suffix_refl _
  | close => exact Resolver.journal_close _ _
  | _ => exact List.suffix_refl _

theorem Board.Move.told {board later : Board} (move : Move scope board later) :
    board.progress.journal <:+ later.progress.journal := by
  cases move with
  | act act => exact act.told
  | aside only told => exact told
  | addTerm known member asked =>
    exact (Resolver.journal_addTerm asked).symm ▸ List.suffix_refl _
  | register known handed => exact Resolver.journal_register handed
  | close => exact Resolver.journal_close _ _
  | _ => exact List.suffix_refl _

end

end DiceNotation
