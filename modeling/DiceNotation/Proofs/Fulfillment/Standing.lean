import DiceNotation.Proofs.Dice.Records
import DiceNotation.Proofs.Fulfillment.Boards
import DiceNotation.Proofs.Roll.Distinct
import DiceNotation.Proofs.Roll.Made

namespace DiceNotation

/-!
# What stands while tasks go on

What a task is in the middle of tells more than its place: the amounts of dice that are
rolled are known and last, there are enough dice when their modifiers are carried out, and
a modifier that is skipped does not take so many away that there are too few.  So there
are enough results of dice once they have been evaluated.
-/

/-- What must be known of a scope: its dice are sound, its terms are told apart by their
identities, and its resolvers ask for its dice only. -/
structure Scope.IsSound (scope : Scope) : Prop where
  dice : ∀ dice, scope.term (.dice dice) → dice.IsSound
  once : ∀ term other, scope.term term → scope.term other → term.id = other.id → term = other
  asked : ∀ resolver, scope.resolver resolver → ∀ dice ∈ resolver.roll.dice,
    scope.term (.dice dice)

section

variable {scope : Scope}

/-! ## Ledgers -/

namespace Ledger

variable {ledger before after : Ledger}

/-- An amount does not depend on outcomes. -/
theorem SamePhases.amount (same : before.SamePhases after) {amount : Operand Term}
    (bracketed : amount.IsBracketed) : after.amount amount = before.amount amount := by
  cases amount with
  | known n => rfl
  | computed term =>
    rcases bracketed with ⟨tag, roll, rfl⟩
    have evaluated : after.isEvaluated (.group tag roll) = before.isEvaluated (.group tag roll) :=
      congrArg (· == .evaluated) (same.term _)
    have total : after.rollTotal roll = before.rollTotal roll := by
      unfold rollTotal isRollEvaluated
      rw [same.roll]
    simp only [Ledger.amount, Ledger.total, totalOf, evaluated, total]

theorem length_outcomes_updateTerm {id : Identity} {change : TermState → TermState}
    (grows : (ledger.outcomes id).length ≤ (change (ledger.term id)).outcomes.length)
    (other : Identity) :
    (ledger.outcomes other).length ≤ ((ledger.updateTerm id change).outcomes other).length := by
  unfold outcomes
  rw [term_updateTerm]
  split
  · rename_i same
    subst same
    exact grows
  · exact Nat.le_refl _

/-- What was evaluated lasts, and there are no fewer results of dice than there were, or
still enough of them. -/
structure Keeps (scope : Scope) (before after : Ledger) : Prop where
  lasts : before.Lasts after
  enough : ∀ dice, scope.term (.dice dice) →
    (before.outcomes dice.tag.id).length ≤ (after.outcomes dice.tag.id).length ∨
    ∀ n : Nat, after.amount dice.number = .ok (.ofInt n) → n ≤ (after.outcomes dice.tag.id).length

theorem Keeps.of_length (lasts : before.Lasts after)
    (grows : ∀ id, (before.outcomes id).length ≤ (after.outcomes id).length) :
    Keeps scope before after :=
  ⟨lasts, fun dice _ => .inl (grows dice.tag.id)⟩

theorem Keeps.of_eq (same : after = before) : Keeps scope before after := by
  subst same
  exact .of_length ⟨fun _ done => done, fun _ _ => rfl⟩ fun _ => Nat.le_refl _

/-- There are enough results of dice that have been evaluated. -/
def Filled (scope : Scope) (ledger : Ledger) : Prop :=
  ∀ dice, scope.term (.dice dice) → (ledger.term dice.tag.id).phase = .evaluated →
    ∃ n : Nat, ledger.amount dice.number = .ok (.ofInt n) ∧ n ≤ (ledger.outcomes dice.tag.id).length

end Ledger

/-! ## Stacks -/

/-- Whether the amounts of dice are known. -/
structure DiceOf.Counts (scope : Scope) (ledger : Ledger) (dice : Dice) (number faces : Nat) :
    Prop where
  known : scope.term (.dice dice)
  numbered : ledger.amount dice.number = .ok (.ofInt number)
  sided : ledger.amount dice.faces = .ok (.ofInt faces)
  some : 1 ≤ faces

namespace Pending

/-- What is known of something pending by itself. -/
def Fits (scope : Scope) (ledger : Ledger) : Pending → Prop
  | term t => scope.term t
  | roll _ => True
  | dice d number faces left => d.Counts scope ledger number faces ∧
      number ≤ (ledger.outcomes d.tag.id).length + left
  | modified d number faces => d.Counts scope ledger number faces ∧
      number ≤ (ledger.outcomes d.tag.id).length
  | modifier t outcomes => scope.term t ∧ ∀ d, t = .dice d →
      ∃ number faces, d.Counts scope ledger number faces ∧ number ≤ outcomes.length
  | result d => scope.term (.dice d) ∧
      (scope.single d ∨ ∃ number faces, d.Counts scope ledger number faces)
  | single d => scope.term (.dice d) ∧ scope.single d
  | request _ => True

/-- Whether dice are rolled for something pending. -/
inductive Rolls : Pending → Dice → Prop
  | dice (d : Dice) (number faces left : Nat) : Rolls (.dice d number faces left) d
  | modifier (d : Dice) (outcomes : List Outcome) : Rolls (.modifier (.dice d) outcomes) d
  | single (d : Dice) : Rolls (.single d) d

/-- What a modifier and a die that is rolled stand on. -/
def RestsOn : Pending → List Pending → Prop
  | result d, pending :: _ => pending.Rolls d
  | result _, [] => False
  | modifier t _, pending :: _ => pending.Modifies t
  | modifier _ _, [] => False
  | _, _ => True

end Pending

/-- What is known of all that is pending. -/
def StackFits (scope : Scope) (ledger : Ledger) : List Pending → Prop
  | [] => True
  | pending :: below => pending.Fits scope ledger ∧ pending.RestsOn below ∧
      StackFits scope ledger below

section

variable {before after : Ledger} (sound : scope.IsSound)
include sound

theorem DiceOf.Counts.keeps {dice : Dice} {number faces : Nat}
    (counts : dice.Counts scope before number faces) (lasts : before.Lasts after) :
    dice.Counts scope after number faces where
  known := counts.known
  numbered := lasts.amount (sound.dice dice counts.known).numberBracketed counts.numbered
  sided := lasts.amount (sound.dice dice counts.known).facesBracketed counts.sided
  some := counts.some

/-- There are still enough results of dice whose number is known. -/
theorem Ledger.Keeps.still {dice : Dice} {number faces more : Nat} (keeps : before.Keeps scope after)
    (counts : dice.Counts scope before number faces)
    (enough : number ≤ (before.outcomes dice.tag.id).length + more) :
    number ≤ (after.outcomes dice.tag.id).length + more := by
  rcases keeps.enough dice counts.known with grows | stays
  · omega
  · have := stays number (counts.keeps sound keeps.lasts).numbered
    omega

theorem Pending.Fits.keeps {pending : Pending} (fits : pending.Fits scope before)
    (keeps : before.Keeps scope after) : pending.Fits scope after := by
  cases pending with
  | term t => exact fits
  | roll r => trivial
  | dice d number faces left =>
    exact ⟨fits.1.keeps sound keeps.lasts, keeps.still sound fits.1 fits.2⟩
  | modified d number faces =>
    have enough : number ≤ (before.outcomes d.tag.id).length + 0 := fits.2
    exact ⟨fits.1.keeps sound keeps.lasts, keeps.still sound fits.1 enough⟩
  | modifier t outcomes =>
    refine ⟨fits.1, fun d is => ?_⟩
    rcases fits.2 d is with ⟨number, faces, counts, enough⟩
    exact ⟨number, faces, counts.keeps sound keeps.lasts, enough⟩
  | result d =>
    refine ⟨fits.1, fits.2.imp_right ?_⟩
    rintro ⟨number, faces, counts⟩
    exact ⟨number, faces, counts.keeps sound keeps.lasts⟩
  | single d => exact fits
  | request request => trivial

theorem StackFits.keeps {stack : List Pending} (fits : StackFits scope before stack)
    (keeps : before.Keeps scope after) : StackFits scope after stack := by
  induction stack with
  | nil => trivial
  | cons pending below ih =>
    exact ⟨fits.1.keeps sound keeps, fits.2.1, ih fits.2.2⟩

end

theorem StackFits.of_append {ledger : Ledger} {upper below : List Pending}
    (fits : StackFits scope ledger (upper ++ below)) : StackFits scope ledger below := by
  induction upper with
  | nil => exact fits
  | cons pending upper ih => exact ih fits.2.2

/-! ## Acts -/

section

variable {moment later : Moment} (sound : scope.IsSound) (act : Act scope moment later)
  (holds : StackFits scope moment.progress.ledger moment.stack)
include act

/-- A term is evaluated when its evaluation comes to an end. -/
theorem Act.evaluates {id : Identity}
    (done : (later.progress.ledger.term id).phase = .evaluated) :
    (moment.progress.ledger.term id).phase = .evaluated ∨
      (∃ term below, moment.stack = .term term :: below ∧ term.dice? = none ∧ term.id = id) ∨
      ∃ dice number faces below, moment.stack = .modified dice number faces :: below ∧
        dice.tag.id = id := by
  have kept {ledger : Ledger} {other : Identity} {change : TermState → TermState}
      (done : ((ledger.updateTerm other change).term id).phase = .evaluated)
      (keeps : ∀ state, (change state).phase = state.phase) : (ledger.term id).phase = .evaluated :=
    (Ledger.phase_updateTerm ledger other id keeps).symm.trans done
  have same {before after : Ledger} (is : after = before)
      (done : (after.term id).phase = .evaluated) : (before.term id).phase = .evaluated :=
    is ▸ done
  cases act with
  | @enter stack term progress =>
    have phase := Progress.phase_entering progress term .evaluating id
    split at phase
    · cases phase.symm.trans done
    · exact .inl (phase.symm.trans done)
  | @leave stack term other progress =>
    by_cases here : term.id = id
    · exact .inr (.inl ⟨term, stack, rfl, other, here⟩)
    · exact .inl (((Progress.phase_entering ..).trans (if_neg here)).symm.trans done)
  | @leaveDice stack dice number faces progress =>
    by_cases here : (Term.dice dice).id = id
    · exact .inr (.inr ⟨dice, number, faces, stack, rfl, here⟩)
    · exact .inl (((Progress.phase_entering ..).trans (if_neg here)).symm.trans done)
  | aside only => exact .inl (same only.ledger done)
  | take => exact .inl (kept done fun _ => rfl)
  | takeMissing => exact .inl (kept done fun _ => rfl)
  | mark => exact .inl (kept done fun _ => rfl)
  | tally => exact .inl (kept done fun _ => rfl)
  | collect => exact .inl (kept done fun _ => rfl)
  | undo => exact .inl (kept done fun _ => rfl)
  | book known member ready unfinished asked =>
    exact .inl (same (Resolver.ledger_addTerm asked) done)
  | release => exact .inl (same (Resolver.ledger_checkDone _ _) done)
  | close => exact .inl (same (Resolver.ledger_close _ _) done)
  | _ => exact .inl done

include sound holds

/-- An act leaves enough results of dice. -/
theorem Act.keeps (lasts : moment.progress.ledger.Lasts later.progress.ledger) :
    moment.progress.ledger.Keeps scope later.progress.ledger := by
  cases act with
  | aside only => exact .of_eq only.ledger
  | enter => exact .of_length lasts (Ledger.length_outcomes_updateTerm (Nat.le_refl _))
  | leave => exact .of_length lasts (Ledger.length_outcomes_updateTerm (Nat.le_refl _))
  | leaveDice => exact .of_length lasts (Ledger.length_outcomes_updateTerm (Nat.le_refl _))
  | start => exact .of_length lasts fun _ => Nat.le_refl _
  | finish => exact .of_length lasts fun _ => Nat.le_refl _
  | take =>
    refine .of_length lasts (Ledger.length_outcomes_updateTerm ?_)
    simp [Ledger.outcomes]
  | takeMissing =>
    refine .of_length lasts (Ledger.length_outcomes_updateTerm ?_)
    simp [Ledger.outcomes]
  | collect =>
    refine .of_length lasts (Ledger.length_outcomes_updateTerm ?_)
    simp [Ledger.outcomes]
  | mark chain found active =>
    refine .of_length lasts (Ledger.length_outcomes_updateTerm ?_)
    exact Nat.le_of_eq (List.length_modify ..).symm
  | @tally stack term outcomes progress action command =>
    refine .of_length lasts (Ledger.length_outcomes_updateTerm ?_)
    exact Nat.le_of_eq (Tally.becomes_carryOut ⟨_, _⟩ command term.formula action).length_eq
  | @undo upper stack term outcomes context allowed lenient idle progress raw message =>
    have here := holds.of_append.1
    refine ⟨lasts, fun dice known => ?_⟩
    have outcomesAfter : (progress.undoing term outcomes raw message).ledger.outcomes dice.tag.id =
        if term.id = dice.tag.id then outcomes else progress.ledger.outcomes dice.tag.id := by
      unfold Ledger.outcomes Progress.undoing Progress.updateLedger
      rw [Ledger.term_updateTerm]
      split <;> rfl
    by_cases same : term.id = dice.tag.id
    · obtain rfl := sound.once term (.dice dice) here.1 known same
      rcases here.2 dice rfl with ⟨number, faces, counts, enough⟩
      refine .inr fun n numbered => ?_
      have last := lasts.amount (sound.dice dice known).numberBracketed counts.numbered
      have is : n = number := by
        have whole := Except.ok.inj (numbered.symm.trans last)
        exact Int.ofNat.inj (Number.int.inj (Json.number.inj whole))
      rw [outcomesAfter, if_pos same, is]
      exact enough
    · rw [if_neg same] at outcomesAfter
      exact .inl (Nat.le_of_eq (congrArg List.length outcomesAfter.symm))
  | book known member ready unfinished asked => exact .of_eq (Resolver.ledger_addTerm asked)
  | release => exact .of_eq (Resolver.ledger_checkDone _ _)
  | close => exact .of_eq (Resolver.ledger_close _ _)
  | _ => exact .of_eq rfl

/-- What is pending after an act is known as well. -/
theorem Act.fits (keeps : moment.progress.ledger.Keeps scope later.progress.ledger) :
    StackFits scope later.progress.ledger later.stack := by
  have last := holds.keeps sound keeps
  cases act with
  | aside => exact last
  | enter known => exact ⟨known, trivial, last⟩
  | leave => exact last.2.2
  | start => exact ⟨trivial, trivial, last⟩
  | finish => exact last.2.2
  | count numbered sided some =>
    exact ⟨⟨⟨holds.1, numbered, sided, some⟩, Nat.le_add_left _ _⟩, trivial, last.2.2⟩
  | @fill stack dice number faces left progress enough =>
    refine ⟨⟨last.1.1, ?_⟩, trivial, last.2.2⟩
    rcases enough with enough | rfl
    · exact enough
    · exact last.1.2
  | leaveDice => exact last.2.2
  | @lack stack dice number faces left progress short =>
    exact ⟨⟨last.1.1.known, .inr ⟨number, faces, last.1.1⟩⟩, .dice _ _ _ _, last⟩
  | @again stack dice number faces outcomes progress =>
    have counts := last.2.2.1.1
    exact ⟨⟨counts.known, .inr ⟨number, faces, counts⟩⟩, .modifier _ _, last⟩
  | once unfinished => exact ⟨⟨last.1.1, .inl last.1.2⟩, .single _, last⟩
  | ask => exact ⟨trivial, trivial, last⟩
  | take => exact last.2.2
  | @takeMissing stack dice number faces left progress value gives =>
    have before : number ≤ (progress.ledger.outcomes dice.tag.id).length + (left + 1) :=
      holds.2.2.1.2
    refine ⟨⟨last.2.2.1.1, ?_⟩, trivial, last.2.2.2.2⟩
    have grown : ((Resolver.addOutcome progress.ledger dice value).outcomes dice.tag.id).length =
        (progress.ledger.outcomes dice.tag.id).length + 1 := by
      unfold Resolver.addOutcome Ledger.outcomes
      rw [Ledger.term_updateTerm, if_pos rfl, List.length_append]
      rfl
    change number ≤ ((Resolver.addOutcome progress.ledger dice value).outcomes dice.tag.id).length +
      left
    omega
  | @begin stack pending term modifies progress =>
    refine ⟨?_, modifies, last⟩
    cases modifies with
    | @dice dice number faces some =>
      refine ⟨last.1.1.known, fun d is => ?_⟩
      cases is
      exact ⟨number, faces, last.1.1, last.1.2⟩
    | pool pool => exact ⟨last.1, fun _ is => nomatch is⟩
  | mark => exact last
  | tally => exact last
  | done => exact last.2.2
  | undo => exact last.of_append.2.2
  | collect => exact last
  | book => exact last
  | release => exact last
  | expect => exact ⟨trivial, trivial, last⟩
  | close => exact last

/-- There are enough results of dice that are evaluated by an act. -/
theorem Act.filled (keeps : moment.progress.ledger.Keeps scope later.progress.ledger)
    (filled : moment.progress.ledger.Filled scope) : later.progress.ledger.Filled scope := by
  intro dice known done
  have last := holds.keeps sound keeps
  rcases act.evaluates done with
    before | ⟨term, below, is, other, same⟩ | ⟨owner, number, faces, below, is, same⟩
  · rcases filled dice known before with ⟨n, numbered, enough⟩
    have amount := keeps.lasts.amount (sound.dice dice known).numberBracketed numbered
    refine ⟨n, amount, ?_⟩
    rcases keeps.enough dice known with grows | stays
    · exact Nat.le_trans enough grows
    · exact stays n amount
  · rw [is] at last
    obtain rfl := sound.once term (.dice dice) last.1 known same
    cases other
  · rw [is] at last
    cases sound.once (.dice owner) (.dice dice) last.1.1.known known same
    exact ⟨number, last.1.1.numbered, last.1.2⟩

end

/-! ## Boards -/

namespace Board

/-- What is known of a board. -/
structure Stands (scope : Scope) (board : Board) : Prop where
  exclusive : board.Exclusive
  fits : ∀ stack ∈ board.lanes, StackFits scope board.progress.ledger stack
  filled : board.progress.ledger.Filled scope

section

variable {board later : Board} (sound : scope.IsSound) (move : Move scope board later)
  (was : board.Stands scope)
include sound move was

/-- What was evaluated lasts, and there are still enough results of dice. -/
theorem Move.keeps : board.progress.ledger.Keeps scope later.progress.ledger := by
  have lasts := move.lasts was.exclusive
  cases move with
  | act act =>
    exact act.keeps sound (was.fits _ (List.mem_append_right _ List.mem_cons_self)) lasts
  | aside only => exact .of_eq only.ledger
  | addTerm known member asked => exact .of_eq (Resolver.ledger_addTerm asked)
  | register known handed =>
    rcases Resolver.ledger_register handed with same | ⟨descriptor, _, _, given, recorded⟩
    · exact .of_eq same
    · rw [recorded] at lasts ⊢
      refine .of_length lasts (Ledger.length_outcomes_updateTerm ?_)
      simp [Ledger.outcomes]
  | close => exact .of_eq (Resolver.ledger_close _ _)
  | _ => exact .of_eq rfl

/-- What is known of a board stays known. -/
theorem Move.stands : later.Stands scope := by
  have keeps := move.keeps sound was
  refine ⟨move.exclusive was.exclusive, ?_, ?_⟩
  · have fits : ∀ stack ∈ board.lanes, StackFits scope later.progress.ledger stack :=
      fun stack member => (was.fits stack member).keeps sound keeps
    -- besides the lanes that were there before, at most one is new or changed
    have changed {front back : List (List Pending)} {stack : List Pending}
        (others : ∀ other ∈ front ++ back, StackFits scope later.progress.ledger other)
        (here : StackFits scope later.progress.ledger stack) :
        ∀ other ∈ front ++ stack :: back, StackFits scope later.progress.ledger other :=
      fun other member => (List.mem_cons.1 (List.perm_middle.mem_iff.1 member)).elim
        (fun is => is ▸ here) (others other)
    have rest {front back : List (List Pending)} {stack : List Pending}
        (all : ∀ other ∈ front ++ stack :: back, StackFits scope later.progress.ledger other) :
        ∀ other ∈ front ++ back, StackFits scope later.progress.ledger other :=
      fun other member => all other (List.perm_middle.mem_iff.2 (List.mem_cons_of_mem _ member))
    cases move with
    | act act =>
      have here := was.fits _ (List.mem_append_right _ List.mem_cons_self)
      exact changed (rest fits) (act.fits sound here keeps)
    | aside => exact fits
    | begin => exact changed (by simpa using fits) trivial
    | single known may => exact changed (by simpa using fits) ⟨⟨known, may⟩, trivial, trivial⟩
    | resolve => exact changed (by simpa using fits) ⟨trivial, trivial, trivial⟩
    | drop => exact changed (rest fits) trivial
    | resume =>
      have here := fits _ (List.mem_append_right _ List.mem_cons_self)
      exact changed (rest fits) here.2.2
    | addTerm => exact fits
    | register => exact fits
    | close => exact fits
  · have same (is : later.progress.ledger = board.progress.ledger) :
        later.progress.ledger.Filled scope := is ▸ was.filled
    cases move with
    | act act =>
      have here := was.fits _ (List.mem_append_right _ List.mem_cons_self)
      exact act.filled sound here keeps was.filled
    | aside only => exact same only.ledger
    | addTerm known member asked => exact same (Resolver.ledger_addTerm asked)
    | register known handed =>
      have phases := Resolver.samePhases_register handed
      intro dice known done
      rcases was.filled dice known ((phases.term _).symm.trans done) with ⟨n, numbered, enough⟩
      have amount := (phases.amount (sound.dice dice known).numberBracketed).trans numbered
      refine ⟨n, amount, ?_⟩
      rcases keeps.enough dice known with grows | stays
      · exact Nat.le_trans enough grows
      · exact stays n amount
    | close => exact same (Resolver.ledger_close _ _)
    | _ => exact was.filled

end

/-- So it does whatever comes of the board. -/
theorem Moves.stands {board later : Board} (sound : scope.IsSound) (moves : Moves scope board later)
    (was : board.Stands scope) : later.Stands scope := by
  induction moves with
  | refl => exact was
  | tail _ move ih => exact move.stands sound ih

end Board

end

/-! ## Rolls -/

namespace RollOf

/-- Everything that can be done with a roll: its terms and any resolvers on it, in certain
contexts, while certain dice of it may be rolled by themselves. -/
def scope (roll : Roll) (contexts : Context → Prop) (singles : Dice → Prop) : Scope where
  context := contexts
  term term := term ∈ Term.partsFrom roll.terms
  roll _ := True
  resolver resolver := resolver.roll = roll
  single := singles

variable {roll : Roll} {contexts : Context → Prop} {singles : Dice → Prop}

theorem mem_scope {dice : Dice} (member : dice ∈ roll.dice) :
    (roll.scope contexts singles).term (.dice dice) := Term.mem_partsFrom_of_mem_diceFrom member

theorem mem_dice {dice : Dice} (known : (roll.scope contexts singles).term (.dice dice)) :
    dice ∈ roll.dice := by
  rw [RollOf.dice, Term.diceFrom_eq]
  exact List.mem_filterMap.2 ⟨_, known, rfl⟩

namespace IsMade

variable {setup : Setup} {first : Nat} {made : Ledger} (isMade : roll.IsMade setup first made)
include isMade

theorem isSound : (roll.scope contexts singles).IsSound where
  dice dice known := (RowThroughout.diceFrom isMade.row dice (mem_dice known)).sound
  once _ _ member memberToo same := isMade.spans.eq_of_id member memberToo same
  asked resolver own dice member := by
    have own : resolver.roll = roll := own
    exact mem_scope (own ▸ member)

/-- Nothing has happened to the terms of a roll that was just made. -/
theorem isFresh {term : Term} (member : term ∈ Term.partsFrom roll.terms) :
    (made.term term.id).IsFresh := by
  have between := isMade.spans.1.apart.between term member
  have below : roll.id < made.next := isMade.spans.2 ▸ Nat.lt_succ_self _
  exact (isMade.fresh term.id between.1 (Nat.lt_trans between.2 below)).1

theorem stands : (⟨[], .ofLedger made⟩ : Board).Stands (roll.scope contexts singles) where
  exclusive := ⟨⟨fun _ member => (List.not_mem_nil member).elim, List.nodup_nil⟩,
    ⟨fun _ member => (List.not_mem_nil member).elim, List.nodup_nil⟩⟩
  fits _ member := (List.not_mem_nil member).elim
  filled dice known done := by
    have fresh : (made.term dice.tag.id).IsFresh := isMade.isFresh known
    have done : (made.term dice.tag.id).phase = .evaluated := done
    rw [fresh] at done
    cases done

end IsMade
end RollOf
end DiceNotation
