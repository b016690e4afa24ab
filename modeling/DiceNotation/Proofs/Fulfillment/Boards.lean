import Mathlib.Data.List.Nodup
import DiceNotation.Proofs.Evaluation.Acting
import DiceNotation.Proofs.Fulfillment.Handing
import DiceNotation.Proofs.Roll.Ranges

namespace DiceNotation

/-!
# Boards

While an evaluation waits, others go on, values are handed in, more dice are asked for and
resolvers are closed.  A board says what each task is in the middle of and how far things
have come.  A task holds the terms and rolls whose evaluation it is in the middle of, and
no two tasks hold the same one.  It follows that what has been evaluated lasts.
-/

/-- What each of several tasks is in the middle of, and how far things have come. -/
structure Board where
  lanes : List (List Pending)
  progress : Progress

/-- What can happen next among several tasks. -/
inductive Board.Move (scope : Scope) : Board → Board → Prop
  | act {front back : List (List Pending)} {stack later : List Pending} {progress last : Progress}
    (act : Act scope ⟨stack, progress⟩ ⟨later, last⟩) :
    Move scope ⟨front ++ stack :: back, progress⟩ ⟨front ++ later :: back, last⟩
  | aside {lanes : List (List Pending)} {progress later : Progress}
    (only : progress.Aside later) (told : progress.journal <:+ later.journal) :
    Move scope ⟨lanes, progress⟩ ⟨lanes, later⟩
  | begin (lanes : List (List Pending)) (progress : Progress) :
    Move scope ⟨lanes, progress⟩ ⟨lanes ++ [[]], progress⟩
  | single {dice : Dice} (known : scope.term (.dice dice)) (may : scope.single dice)
    (lanes : List (List Pending)) (progress : Progress) :
    Move scope ⟨lanes, progress⟩ ⟨lanes ++ [[.single dice]], progress⟩
  /-- One more value of dice is waited for, which is then no result of them. -/
  | resolve {resolver : Resolver} {progress : Progress} (known : scope.resolver resolver)
    (isOpen : (progress.resolver resolver).closed = false) (dice : Dice) (method : Json)
    (reroll explode : Bool) (lanes : List (List Pending)) :
    Move scope ⟨lanes, progress⟩ ⟨lanes ++ [[.request progress.requests]],
      (resolver.add dice method true reroll explode progress).2⟩
  /-- A task is done, or it has failed. -/
  | drop (front back : List (List Pending)) (stack : List Pending) (progress : Progress) :
    Move scope ⟨front ++ stack :: back, progress⟩ ⟨front ++ [] :: back, progress⟩
  | resume {request : Request} {answer : Answer} {progress : Progress}
    (answered : progress.answer? request = some answer) (front back : List (List Pending))
    (stack : List Pending) :
    Move scope ⟨front ++ (.request request :: stack) :: back, progress⟩
      ⟨front ++ stack :: back, progress⟩
  | addTerm {resolver : Resolver} {dice : Dice} {progress later : Progress}
    {requests : List Request} (known : scope.resolver resolver)
    (member : dice ∈ resolver.roll.dice)
    (asked : resolver.addTerm dice progress = .ok (requests, later))
    (lanes : List (List Pending)) : Move scope ⟨lanes, progress⟩ ⟨lanes, later⟩
  | register {resolver : Resolver} {method denomination value : Json} {accepted : Bool}
    {progress later : Progress} (known : scope.resolver resolver)
    (handed : resolver.register method denomination value progress = .ok (accepted, later))
    (lanes : List (List Pending)) : Move scope ⟨lanes, progress⟩ ⟨lanes, later⟩
  | close {resolver : Resolver} (known : scope.resolver resolver) (lanes : List (List Pending))
    (progress : Progress) : Move scope ⟨lanes, progress⟩ ⟨lanes, resolver.close progress⟩

/-- What can come of a board. -/
abbrev Board.Moves (scope : Scope) : Board → Board → Prop :=
  Relation.ReflTransGen (Board.Move scope)

/-! ## Holding something -/

/-- What is held is being evaluated, and is held once only. -/
structure Held {σ : Type} (phase : σ → Phase) (state : Identity → σ) (held : List Identity) :
    Prop where
  evaluating : ∀ id ∈ held, phase (state id) = .evaluating
  once : held.Nodup

/-- How states change and who holds them: what is held may be let go, what nobody has
begun may be taken hold of, and what is held may be brought to its end. -/
inductive Handover {σ : Type} (phase : σ → Phase) (before after : Identity → σ) :
    List Identity → List Identity → Prop
  | keep {held fewer : List Identity} (same : after = before) (less : fewer.Sublist held) :
    Handover phase before after held fewer
  | begin {id : Identity} (others : ∀ other, id ≠ other → after other = before other)
    (untouched : phase (before id) = .unevaluated) (begun : phase (after id) = .evaluating)
    (held : List Identity) : Handover phase before after held (id :: held)
  | finish {id : Identity} (others : ∀ other, id ≠ other → after other = before other)
    (held : List Identity) : Handover phase before after (id :: held) held

section

variable {σ : Type} {phase : σ → Phase} {before after : Identity → σ}
  {front own later back : List Identity}

/-- After a handover each thing is held once only still. -/
theorem Handover.held (handover : Handover phase before after own later)
    (holds : Held phase before (front ++ (own ++ back))) :
    Held phase after (front ++ (later ++ back)) := by
  cases handover with
  | keep same less =>
    subst same
    have fewer := (less.append (.refl back)).append_left front
    exact ⟨fun id member => holds.evaluating id (fewer.subset member), holds.once.sublist fewer⟩
  | @begin id others untouched begun =>
    have fresh : id ∉ front ++ (own ++ back) := fun member => by
      cases untouched.symm.trans (holds.evaluating id member)
    refine ⟨fun other member => ?_, ?_⟩
    · by_cases same : id = other
      · exact same ▸ begun
      · rw [others other same]
        refine holds.evaluating other ?_
        have member := List.perm_middle.mem_iff.1 member
        exact (List.mem_cons.1 member).resolve_left (Ne.symm same)
    · exact List.perm_middle.nodup_iff.2 (List.nodup_cons.2 ⟨fresh, holds.once⟩)
  | @finish id others =>
    have apart := List.nodup_cons.1 (List.perm_middle.nodup_iff.1 holds.once)
    refine ⟨fun other member => ?_, apart.2⟩
    rw [others other fun same => apart.1 (same ▸ member)]
    exact holds.evaluating other (List.perm_middle.mem_iff.2 (List.mem_cons_of_mem _ member))

/-- What is neither held nor unevaluated is not changed by a handover. -/
theorem Handover.same (handover : Handover phase before after own later)
    (holds : Held phase before (front ++ (own ++ back))) {id : Identity}
    (done : phase (before id) = .evaluated) : after id = before id := by
  cases handover with
  | keep same => rw [same]
  | begin others untouched =>
    refine others id ?_
    rintro rfl
    cases untouched.symm.trans done
  | @finish own others =>
    refine others id ?_
    rintro rfl
    have member : own ∈ front ++ (own :: later ++ back) :=
      List.mem_append_right front List.mem_cons_self
    cases (holds.evaluating own member).symm.trans done

end

namespace Pending

/-- The term whose evaluation is pending. -/
def term? : Pending → Option Identity
  | term t => some t.id
  | dice d _ _ _ => some d.tag.id
  | modified d _ _ => some d.tag.id
  | _ => none

/-- The roll whose evaluation is pending. -/
def roll? : Pending → Option Identity
  | roll r => some r.id
  | _ => none

end Pending

theorem Ledger.phase_updateTerm (ledger : Ledger) (id other : Identity)
    {change : TermState → TermState} (kept : ∀ state, (change state).phase = state.phase) :
    ((ledger.updateTerm id change).term other).phase = (ledger.term other).phase := by
  rw [Ledger.term_updateTerm]
  split
  · rename_i same
    rw [kept, same]
  · rfl

section

variable {scope : Scope}

/-- A phase that is entered is that of one term only. -/
theorem Progress.phase_entering (progress : Progress) (term : Term) (phase : Phase)
    (id : Identity) : ((progress.entering term phase).ledger.term id).phase =
      if term.id = id then phase else (progress.ledger.term id).phase := by
  unfold Progress.entering Progress.updateLedger
  rw [Ledger.term_updateTerm]
  split <;> rfl

/-- An act hands over terms. -/
theorem Act.terms {moment later : Moment} (act : Act scope moment later) :
    Handover id (fun id => (moment.progress.ledger.term id).phase)
      (fun id => (later.progress.ledger.term id).phase) (moment.stack.filterMap Pending.term?)
      (later.stack.filterMap Pending.term?) := by
  cases act with
  | enter known untouched =>
    refine .begin (fun other different => ?_) ?_ ?_ _
    · exact (Progress.phase_entering ..).trans (if_neg different)
    · exact untouched
    · exact (Progress.phase_entering ..).trans (if_pos rfl)
  | leave other progress =>
    refine .finish (fun other different => ?_) _
    exact (Progress.phase_entering ..).trans (if_neg different)
  | leaveDice progress =>
    refine .finish (fun other different => ?_) _
    exact (Progress.phase_entering ..).trans (if_neg different)
  | aside only => exact .keep (by rw [only.ledger]) (.refl _)
  | take => exact .keep (funext fun id => Ledger.phase_updateTerm _ _ _ fun _ => rfl) (.refl _)
  | takeMissing =>
    exact .keep (funext fun id => Ledger.phase_updateTerm _ _ _ fun _ => rfl) (.refl _)
  | mark => exact .keep (funext fun id => Ledger.phase_updateTerm _ _ _ fun _ => rfl) (.refl _)
  | tally => exact .keep (funext fun id => Ledger.phase_updateTerm _ _ _ fun _ => rfl) (.refl _)
  | collect => exact .keep (funext fun id => Ledger.phase_updateTerm _ _ _ fun _ => rfl) (.refl _)
  | undo =>
    refine .keep (funext fun id => Ledger.phase_updateTerm _ _ _ fun _ => rfl) ?_
    exact ((List.sublist_cons_self _ _).trans (List.sublist_append_right _ _)).filterMap _
  | book _ _ _ _ asked => exact .keep (by rw [Resolver.ledger_addTerm asked]) (.refl _)
  | release => exact .keep (by rw [Resolver.ledger_checkDone]) (.refl _)
  | close => exact .keep (by rw [Resolver.ledger_close]) (.refl _)
  | _ => exact .keep rfl (.refl _)

/-- An act hands over rolls. -/
theorem Act.rolls {moment later : Moment} (act : Act scope moment later) :
    Handover RollState.phase moment.progress.ledger.roll later.progress.ledger.roll
      (moment.stack.filterMap Pending.roll?) (later.stack.filterMap Pending.roll?) := by
  cases act with
  | @start stack roll progress known untouched =>
    refine .begin (fun other different => ?_) untouched ?_ _
    · exact (Ledger.roll_updateRoll ..).trans (if_neg different)
    · exact congrArg RollState.phase ((Ledger.roll_updateRoll ..).trans (if_pos rfl))
  | finish sum =>
    refine .finish (fun other different => ?_) _
    exact (Ledger.roll_updateRoll ..).trans (if_neg different)
  | aside only => exact .keep (by rw [only.ledger]) (.refl _)
  | undo =>
    refine .keep rfl ?_
    exact ((List.sublist_cons_self _ _).trans (List.sublist_append_right _ _)).filterMap _
  | book _ _ _ _ asked => exact .keep (by rw [Resolver.ledger_addTerm asked]) (.refl _)
  | release => exact .keep (by rw [Resolver.ledger_checkDone]) (.refl _)
  | close => exact .keep (by rw [Resolver.ledger_close]) (.refl _)
  | _ => exact .keep rfl (.refl _)

/-! ## Boards on which nothing is held twice -/

/-- The phases of terms and the states of rolls are what they were. -/
structure Ledger.SamePhases (before after : Ledger) : Prop where
  term : ∀ id, (after.term id).phase = (before.term id).phase
  roll : after.roll = before.roll

theorem Ledger.SamePhases.of_eq {before after : Ledger} (same : after = before) :
    before.SamePhases after := by
  subst same
  exact ⟨fun _ => rfl, rfl⟩

theorem Resolver.samePhases_register {resolver : Resolver} {method denomination value : Json}
    {accepted : Bool} {progress later : Progress}
    (handed : resolver.register method denomination value progress = .ok (accepted, later)) :
    progress.ledger.SamePhases later.ledger := by
  rcases ledger_register handed with same | ⟨descriptor, _, _, given, recorded⟩
  · exact .of_eq same
  · rw [recorded]
    exact ⟨fun id => Ledger.phase_updateTerm _ _ _ fun _ => rfl, rfl⟩

namespace Board

variable {σ : Type} {phase : σ → Phase} {state : Ledger → Identity → σ}
  {holds : Pending → Option Identity} {board later : Board}

/-- Everything of a kind that the tasks of a board hold. -/
def held (holds : Pending → Option Identity) (board : Board) : List Identity :=
  board.lanes.flatten.filterMap holds

/-- At most one task takes hold of something, lets it go or brings it to its end. -/
def HandsOver (holds : Pending → Option Identity) (phase : σ → Phase)
    (state : Ledger → Identity → σ) (board later : Board) : Prop :=
  ∃ front own next back, board.held holds = front ++ (own ++ back) ∧
    later.held holds = front ++ (next ++ back) ∧
    Handover phase (state board.progress.ledger) (state later.progress.ledger) own next

theorem HandsOver.keep (same : state later.progress.ledger = state board.progress.ledger)
    (less : (later.held holds).Sublist (board.held holds)) :
    HandsOver holds phase state board later :=
  ⟨[], board.held holds, later.held holds, [], by simp, by simp, .keep same less⟩

theorem held_middle (front back : List (List Pending)) (stack : List Pending)
    (progress : Progress) : held holds ⟨front ++ stack :: back, progress⟩ =
      front.flatten.filterMap holds ++ (stack.filterMap holds ++ back.flatten.filterMap holds) := by
  simp [held]

theorem held_last {stack : List Pending} (nothing : stack.filterMap holds = [])
    (lanes : List (List Pending)) (progress last : Progress) :
    (held holds ⟨lanes ++ [stack], last⟩).Sublist (held holds ⟨lanes, progress⟩) := by
  simp [held, nothing]

/-- Only acts hand over anything. -/
theorem Move.handsOver (move : Move scope board later)
    (requests : ∀ request, holds (.request request) = none)
    (singles : ∀ dice, holds (.single dice) = none)
    (reads : ∀ {before after : Ledger}, before.SamePhases after → state after = state before)
    (acts : ∀ {moment last : Moment}, Act scope moment last →
      Handover phase (state moment.progress.ledger) (state last.progress.ledger)
        (moment.stack.filterMap holds) (last.stack.filterMap holds)) :
    HandsOver holds phase state board later := by
  cases move with
  | act act =>
    exact ⟨_, _, _, _, held_middle _ _ _ _, held_middle _ _ _ _, acts act⟩
  | aside only => exact .keep (reads (.of_eq only.ledger)) (.refl _)
  | begin lanes progress =>
    exact .keep rfl (held_last rfl lanes progress progress)
  | single known may lanes progress =>
    exact .keep rfl (held_last (List.filterMap_cons_none (singles _)) lanes progress progress)
  | resolve known isOpen dice method reroll explode lanes =>
    exact .keep rfl (held_last (List.filterMap_cons_none (requests _)) lanes _ _)
  | drop front back stack progress =>
    refine .keep rfl ?_
    rw [held_middle, held_middle]
    exact (List.Sublist.append (List.nil_sublist _) (.refl _)).append_left _
  | resume answered front back stack =>
    refine .keep rfl ?_
    rw [held_middle, held_middle, List.filterMap_cons_none (requests _)]
  | addTerm known member asked lanes =>
    exact .keep (reads (.of_eq (Resolver.ledger_addTerm asked))) (.refl _)
  | register known handed lanes =>
    exact .keep (reads (Resolver.samePhases_register handed)) (.refl _)
  | close known lanes progress =>
    exact .keep (reads (.of_eq (Resolver.ledger_close _ _))) (.refl _)

theorem Move.handsOver_terms (move : Move scope board later) :
    HandsOver Pending.term? id (fun ledger id => (ledger.term id).phase) board later :=
  move.handsOver (fun _ => rfl) (fun _ => rfl) (fun same => funext same.term) Act.terms

theorem Move.handsOver_rolls (move : Move scope board later) :
    HandsOver Pending.roll? RollState.phase Ledger.roll board later :=
  move.handsOver (fun _ => rfl) (fun _ => rfl) (fun same => same.roll) Act.rolls

/-- No two tasks are in the middle of the evaluation of the same term or roll. -/
structure Exclusive (board : Board) : Prop where
  terms : Held id (fun id => (board.progress.ledger.term id).phase) (board.held Pending.term?)
  rolls : Held RollState.phase board.progress.ledger.roll (board.held Pending.roll?)

theorem HandsOver.held (handing : HandsOver holds phase state board later)
    (before : Held phase (state board.progress.ledger) (board.held holds)) :
    Held phase (state later.progress.ledger) (later.held holds) := by
  rcases handing with ⟨front, own, next, back, was, is, handover⟩
  rw [was] at before
  rw [is]
  exact handover.held before

theorem HandsOver.same (handing : HandsOver holds phase state board later)
    (before : Held phase (state board.progress.ledger) (board.held holds)) {id : Identity}
    (done : phase (state board.progress.ledger id) = .evaluated) :
    state later.progress.ledger id = state board.progress.ledger id := by
  rcases handing with ⟨front, own, next, back, was, is, handover⟩
  rw [was] at before
  exact handover.same before done

theorem Move.exclusive (move : Move scope board later) (exclusive : board.Exclusive) :
    later.Exclusive :=
  ⟨move.handsOver_terms.held exclusive.terms, move.handsOver_rolls.held exclusive.rolls⟩

/-- What has been evaluated lasts, whatever happens next. -/
theorem Move.lasts (move : Move scope board later) (exclusive : board.Exclusive) :
    board.progress.ledger.Lasts later.progress.ledger where
  term _ done := (move.handsOver_terms.same exclusive.terms done).trans done
  roll _ done := move.handsOver_rolls.same exclusive.rolls done

end Board

end

end DiceNotation
