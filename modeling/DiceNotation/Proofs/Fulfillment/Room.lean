import Mathlib.Data.List.Perm.Subperm
import DiceNotation.Proofs.Fulfillment.Loads
import DiceNotation.Proofs.Fulfillment.Recording
import DiceNotation.Proofs.Fulfillment.Standing

namespace DiceNotation

/-!
# Room for results

An evaluation rolls dice until there are as many results as their number says.  While it
waits for one of them, what is pending shows that there is room for one more result.  This
stays so whatever the evaluation does, and while values are handed in, other dice are asked
for or the resolver is closed.
-/

/-! ## What is waited for -/

section

variable {id : Identity}

/-- Whether one of certain dice is rolled. -/
def Pending.isResult (id : Identity) : Pending → Bool
  | result d => d.tag.id == id
  | _ => false

/-- The requests for results of certain dice that are pending. -/
def awaited (id : Identity) : List Pending → List Request
  | .request request :: .result d :: below =>
    if d.tag.id = id then request :: awaited id below else awaited id below
  | _ :: below => awaited id below
  | [] => []

theorem awaited_cons {pending : Pending} (idle : pending.isRequest = false)
    (below : List Pending) : awaited id (pending :: below) = awaited id below := by
  cases pending with
  | request request => cases idle
  | _ => rfl

theorem awaited_append {upper : List Pending} (idle : ∀ pending ∈ upper, pending.isRequest = false)
    (below : List Pending) : awaited id (upper ++ below) = awaited id below := by
  induction upper with
  | nil => rfl
  | cons pending upper ih =>
    rcases List.forall_mem_cons.1 idle with ⟨here, others⟩
    exact (awaited_cons here _).trans (ih others)

theorem awaited_request (request : Request) (below : List Pending) :
    awaited id (.request request :: below) = awaited id below ∨
      awaited id (.request request :: below) = request :: awaited id below := by
  cases below with
  | nil => exact .inl rfl
  | cons pending rest =>
    cases pending with
    | result d =>
      by_cases same : d.tag.id = id
      · exact .inr (if_pos same)
      · exact .inl (if_neg same)
    | _ => exact .inl rfl

theorem length_awaited_le (stack : List Pending) :
    (awaited id stack).length ≤ stack.countP (Pending.isResult id) := by
  fun_induction awaited id stack with
  | case1 request d below same ih =>
    have here : Pending.isResult id (.result d) = true := beq_iff_eq.2 same
    rw [List.countP_cons_of_neg Bool.false_ne_true, List.countP_cons_of_pos here]
    exact Nat.succ_le_succ ih
  | case2 request d below other ih =>
    rw [List.countP_cons_of_neg Bool.false_ne_true]
    exact Nat.le_trans ih ((List.sublist_cons_self _ _).countP_le)
  | case3 pending below apart ih =>
    exact Nat.le_trans ih ((List.sublist_cons_self _ _).countP_le)
  | case4 => exact Nat.le_refl _

end

/-! ## One evaluation -/

/-- What is asked of dice that keep to their number: it is known, the dice have no modifiers,
and they are rolled in evaluations only. -/
structure Scope.Limits (scope : Scope) (dice : Dice) (n : Nat) : Prop where
  sound : scope.IsSound
  known : scope.term (.dice dice)
  numbered : dice.number = .known n
  bare : dice.modifiers = []
  never : ∀ other, ¬scope.single other

/-- There is room for the results of dice that are rolled at a moment, and whoever waits
for one of them does so in the middle of rolling it. -/
structure Moment.HasRoom (id : Identity) (n : Nat) (moment : Moment) : Prop where
  room : (moment.progress.ledger.outcomes id).length +
    moment.stack.countP (Pending.isResult id) ≤ n
  asked : ∀ other, ∀ descriptor ∈ (moment.progress.resolvers.get other).outstanding,
    descriptor.dice.tag.id = id →
      descriptor.isNew = true ∧ descriptor.request ∈ awaited id moment.stack

namespace Scope.Limits

variable {scope : Scope} {dice : Dice} {n : Nat} (limits : scope.Limits dice n)
include limits

/-- No modifier of the dice is carried out. -/
theorem modifier_ne {ledger : Ledger} {term : Term} {outcomes : List Outcome}
    {below : List Pending} (fits : StackFits scope ledger (.modifier term outcomes :: below)) :
    term.id ≠ dice.tag.id := by
  intro same
  obtain rfl := limits.sound.once term (.dice dice) fits.1.1 limits.known same
  rcases fits with ⟨_, rests, _⟩
  cases below with
  | nil => exact rests
  | cons pending below =>
    cases rests with
    | dice number faces some => exact some limits.bare

/-- One of the dice is rolled only while the dice are evaluated. -/
theorem countP_le {ledger : Ledger} {stack : List Pending}
    (fits : StackFits scope ledger stack) :
    stack.countP (Pending.isResult dice.tag.id) ≤
        (stack.filterMap Pending.term?).count dice.tag.id ∧
      ∀ number faces left below, stack = .dice dice number faces left :: below →
        stack.countP (Pending.isResult dice.tag.id) + 1 ≤
          (stack.filterMap Pending.term?).count dice.tag.id := by
  induction stack with
  | nil => exact ⟨Nat.le_refl _, fun _ _ _ _ same => nomatch same⟩
  | cons pending below ih =>
    rcases fits with ⟨here, rests, others⟩
    rcases ih others with ⟨less, least⟩
    have more := ((List.sublist_cons_self pending below).filterMap Pending.term?).count_le
      dice.tag.id
    by_cases rolled : Pending.isResult dice.tag.id pending = true
    · cases pending with
      | result d =>
        obtain rfl : d = dice := Term.dice.inj
          (limits.sound.once (.dice d) (.dice dice) here.1 limits.known (beq_iff_eq.1 rolled))
        refine ⟨?_, fun _ _ _ _ same => nomatch same⟩
        rw [List.countP_cons_of_pos rolled]
        cases below with
        | nil => exact rests.elim
        | cons under rest =>
          cases rests with
          | dice _ number faces left => exact least number faces left rest rfl
          | modifier _ outcomes => exact absurd rfl (limits.modifier_ne others)
          | single _ => exact absurd others.1.2 (limits.never d)
      | _ => cases rolled
    · rw [List.countP_cons_of_neg rolled]
      refine ⟨Nat.le_trans less more, fun number faces left rest same => ?_⟩
      cases same
      have held : (Pending.dice dice number faces left :: below).filterMap Pending.term? =
          dice.tag.id :: below.filterMap Pending.term? := rfl
      rw [held, List.count_cons_self]
      exact Nat.succ_le_succ less

end Scope.Limits

namespace Moment.HasRoom

variable {moment later : Moment} {id : Identity} {n : Nat}

theorem keep (has : moment.HasRoom id n)
    (size : (later.progress.ledger.outcomes id).length +
        later.stack.countP (Pending.isResult id) ≤
      (moment.progress.ledger.outcomes id).length + moment.stack.countP (Pending.isResult id))
    (resolvers : later.progress.resolvers = moment.progress.resolvers)
    (requests : awaited id later.stack = awaited id moment.stack) : later.HasRoom id n where
  room := Nat.le_trans size has.room
  asked := by
    rw [resolvers, requests]
    exact has.asked

/-- What happens in the middle of something has no influence on results. -/
theorem of_stack (has : moment.HasRoom id n)
    (outcomes : later.progress.ledger.outcomes id = moment.progress.ledger.outcomes id)
    (resolvers : later.progress.resolvers = moment.progress.resolvers)
    (results : later.stack.countP (Pending.isResult id) =
      moment.stack.countP (Pending.isResult id))
    (requests : awaited id later.stack = awaited id moment.stack) : later.HasRoom id n :=
  has.keep (Nat.le_of_eq (by rw [outcomes, results])) resolvers requests

/-- One of the dice has its result. -/
theorem take {stack below : List Pending} {progress : Progress} {d : Dice}
    (has : (⟨.result d :: stack, progress⟩ : Moment).HasRoom id n) (value : Json)
    (results : below.countP (Pending.isResult id) = stack.countP (Pending.isResult id))
    (requests : awaited id below = awaited id stack) :
    (⟨below, progress.updateLedger fun ledger => Resolver.addOutcome ledger d value⟩ :
      Moment).HasRoom id n := by
  refine has.keep ?_ rfl (requests.trans (awaited_cons rfl stack).symm)
  change ((Resolver.addOutcome progress.ledger d value).outcomes id).length + _ ≤ _
  unfold Resolver.addOutcome
  rw [Ledger.sets_updateTerm, results]
  by_cases same : d.tag.id = id
  · have here : Pending.isResult id (.result d) = true := beq_iff_eq.2 same
    rw [if_pos same, List.length_append, List.countP_cons_of_pos here, same]
    exact Nat.le_of_eq (Nat.add_right_comm _ _ _)
  · rw [if_neg same]
    exact Nat.add_le_add_left (List.sublist_cons_self _ _).countP_le _

/-- Nothing is waited for at the end, so that nobody waits for results of the dice. -/
theorem free {stack : List Pending} {progress : Progress}
    (has : (⟨stack, progress⟩ : Moment).HasRoom id n)
    (idle : ∀ pending ∈ stack, pending.isRequest = false) : progress.Free id := by
  intro other descriptor member same
  have inside := (has.asked other descriptor member same).2
  have none : awaited id (stack ++ []) = [] := awaited_append idle []
  rw [List.append_nil] at none
  exact List.not_mem_nil (none ▸ inside)

theorem length_le (has : moment.HasRoom id n) :
    (moment.progress.ledger.outcomes id).length ≤ n :=
  Nat.le_trans (Nat.le_add_right _ _) has.room

theorem of_free {progress : Progress} (free : progress.Free id)
    (enough : (progress.ledger.outcomes id).length ≤ n) :
    (⟨[], progress⟩ : Moment).HasRoom id n where
  room := enough
  asked other descriptor member same := absurd same (free other descriptor member)

/-- A resolver waits for no more results than there is room for. -/
theorem load_le (has : moment.HasRoom id n) (tidy : moment.progress.Tidy) (resolver : Resolver) :
    moment.progress.load resolver id ≤ n := by
  let own := (moment.progress.resolver resolver).outstanding.filter (·.dice.tag.id == id)
  have distinct : (own.map (·.request)).Nodup := by
    have fewer : own.Sublist (moment.progress.resolvers.get resolver.id).outstanding :=
      List.filter_sublist
    exact ((tidy.ordered resolver.id).sublist (fewer.map _)).imp Nat.ne_of_lt
  have inside : own.map (·.request) ⊆ awaited id moment.stack := by
    intro request member
    rcases List.mem_map.1 member with ⟨descriptor, kept, rfl⟩
    rcases List.mem_filter.1 kept with ⟨waited, same⟩
    exact (has.asked resolver.id descriptor waited (beq_iff_eq.1 same)).2
  have few := (distinct.subperm inside).length_le
  rw [List.length_map] at few
  have room := has.room
  have most : (awaited id moment.stack).length ≤ moment.stack.countP (Pending.isResult id) :=
    length_awaited_le moment.stack
  unfold Progress.load
  rw [List.countP_eq_length_filter]
  change _ + own.length ≤ n
  omega

/-! ### Meanwhile -/

section

variable {stack : List Pending} {progress later : Progress} {resolver : Resolver}
  (has : (⟨stack, progress⟩ : Moment).HasRoom id n)
include has

/-- There are no other results than before, and fewer are waited for. -/
theorem fewer (same : (later.ledger.outcomes id).length = (progress.ledger.outcomes id).length)
    (less : ∀ other, ∀ descriptor ∈ (later.resolvers.get other).outstanding,
      descriptor.dice.tag.id = id → descriptor ∈ (progress.resolvers.get other).outstanding) :
    (⟨stack, later⟩ : Moment).HasRoom id n where
  room := same.symm ▸ has.room
  asked other descriptor member own :=
    has.asked other descriptor (less other descriptor member own) own

/-- A value for the dice is the one that the evaluation waits for, so that it is no result yet. -/
theorem register {method denomination value : Json} {accepted : Bool}
    (handed : resolver.register method denomination value progress = .ok (accepted, later)) :
    (⟨stack, later⟩ : Moment).HasRoom id n := by
  rcases Resolver.register_eq_ok handed with
    ⟨_, number, front, descriptor, back, _, takes, rfl⟩ | ⟨_, rfl | ⟨level, text, rfl⟩⟩
  · have waited : descriptor ∈ (progress.resolvers.get resolver.id).outstanding :=
      takes.kept ▸ List.mem_append_right front List.mem_cons_self
    refine has.fewer ?_ fun other further member _ => ?_
    · rw [Resolver.ledger_deliver]
      split
      · rfl
      · rename_i early
        have different : descriptor.dice.tag.id ≠ id := fun same =>
          early (has.asked resolver.id descriptor waited same).1
        unfold Resolver.addOutcome
        rw [Ledger.sets_updateTerm, if_neg different]
    · rw [Resolver.resolvers_deliver] at member
      split at member
      · rename_i here
        subst here
        have kept : (progress.resolvers.get resolver.id).outstanding = _ := takes.kept
        rw [kept]
        exact ((List.sublist_cons_self descriptor back).append_left front).subset member
      · exact member
  · exact has
  · exact has.fewer rfl fun _ _ member _ => member

theorem addTerm {dice : Dice} {requests : List Request}
    (asked : resolver.addTerm dice progress = .ok (requests, later))
    (different : dice.tag.id ≠ id) : (⟨stack, later⟩ : Moment).HasRoom id n := by
  refine has.fewer (by rw [Resolver.ledger_addTerm asked]) fun other descriptor member own => ?_
  rcases Progress.mem_addTerm asked member with before | rfl
  · exact before
  · exact absurd own different

theorem close : (⟨stack, resolver.close progress⟩ : Moment).HasRoom id n := by
  refine has.fewer (by rw [resolver.ledger_close]) fun other descriptor member _ => ?_
  cases state : (progress.resolver resolver).closed with
  | true => rwa [Progress.close_of_closed state] at member
  | false =>
    rw [Progress.resolvers_close state] at member
    split at member
    · exact absurd member List.not_mem_nil
    · exact member

/-- The request on top was answered. -/
theorem resume {request : Request} {below : List Pending} {answer : Answer}
    (top : stack = .request request :: below) (tidy : progress.Tidy)
    (answered : progress.answer? request = some answer) :
    (⟨below, progress⟩ : Moment).HasRoom id n := by
  subst top
  refine ⟨has.room, fun other descriptor member own => ?_⟩
  rcases has.asked other descriptor member own with ⟨new, inside⟩
  refine ⟨new, ?_⟩
  rcases awaited_request request below with same | more
  · exact same ▸ inside
  · rcases List.mem_cons.1 (more ▸ inside) with here | further
    · have unanswered := (tidy.pending other descriptor member).2
      rw [here] at unanswered
      cases unanswered.symm.trans answered
    · exact further

end

end Moment.HasRoom

section

variable {scope : Scope} {dice : Dice} {n : Nat} (limits : scope.Limits dice n)
  (alone : ∀ resolver, ¬scope.resolver resolver) {moment later : Moment}
  (act : Act scope moment later)
include alone act

/-- What an evaluation does leaves requests in order. -/
theorem Act.tidy (tidy : moment.progress.Tidy) : later.progress.Tidy := by
  cases act with
  | aside only =>
    exact tidy.of_beside ⟨only.resolvers, only.answers, only.answered, only.requests⟩
  | ask isOpen method reroll explode => exact tidy.add isOpen _ _ _ _ _
  | book known => exact absurd known (alone _)
  | release known => exact absurd known (alone _)
  | expect known => exact absurd known (alone _)
  | close known => exact absurd known (alone _)
  | _ => exact tidy.of_beside ⟨rfl, rfl, rfl, rfl⟩

include limits

/-- What an evaluation does leaves room for the results of dice that are rolled. -/
theorem Act.hasRoom (fits : StackFits scope moment.progress.ledger moment.stack)
    (once : (moment.stack.filterMap Pending.term?).Nodup)
    (has : moment.HasRoom dice.tag.id n) : later.HasRoom dice.tag.id n := by
  have entered (ledger : Ledger) (id : Identity) (phase : Phase) :
      (ledger.updateTerm id fun state => { state with phase := phase }).outcomes dice.tag.id =
        ledger.outcomes dice.tag.id := by
    rw [Ledger.outcomes_updateTerm]
    exact fun _ => rfl
  -- one more die is rolled of which there are others
  have other {stack : List Pending} {progress : Progress} {d : Dice}
      (before : (⟨stack, progress⟩ : Moment).HasRoom dice.tag.id n)
      (different : d.tag.id ≠ dice.tag.id) :
      (⟨.result d :: stack, progress⟩ : Moment).HasRoom dice.tag.id n :=
    before.of_stack rfl rfl
      (List.countP_cons_of_neg fun same => different (beq_iff_eq.1 same)) (awaited_cons rfl _)
  cases act with
  | aside only => exact has.of_stack (by rw [only.ledger]) only.resolvers rfl rfl
  | enter => exact has.of_stack (entered _ _ _) rfl rfl rfl
  | leave => exact has.of_stack (entered _ _ _) rfl rfl rfl
  | leaveDice => exact has.of_stack (entered _ _ _) rfl rfl rfl
  | start => exact has.of_stack rfl rfl rfl rfl
  | finish => exact has.of_stack rfl rfl rfl rfl
  | count => exact has.of_stack rfl rfl rfl rfl
  | fill => exact has.of_stack rfl rfl rfl rfl
  | begin => exact has.of_stack rfl rfl rfl rfl
  | done => exact has.of_stack rfl rfl rfl rfl
  | @lack stack d number faces left progress short =>
    by_cases same : d.tag.id = dice.tag.id
    · obtain rfl : d = dice := Term.dice.inj
        (limits.sound.once (.dice d) (.dice dice) fits.1.1.known limits.known same)
      have numbered := fits.1.1.numbered
      rw [limits.numbered] at numbered
      have is : (n : Int) = number := Number.int.inj (Json.number.inj (Except.ok.inj numbered))
      -- the dice are held once, so that none of them is being rolled yet
      have least := (limits.countP_le fits).2 _ _ _ _ rfl
      have most := List.nodup_iff_count_le_one.1 once d.tag.id
      change List.countP _ (.dice d number faces (left + 1) :: stack) + 1 ≤ _ at least
      have here : Pending.isResult d.tag.id (.result d) = true := beq_self_eq_true _
      refine ⟨?_, has.asked⟩
      rw [List.countP_cons_of_pos here]
      change (progress.ledger.outcomes d.tag.id).length < number at short
      change (progress.ledger.outcomes d.tag.id).length + _ ≤ n
      omega
    · exact other has same
  | again => exact other has (limits.modifier_ne fits)
  | once => exact absurd fits.1.2 (limits.never _)
  | @ask stack d resolver progress isOpen method reroll explode =>
    refine ⟨has.room, fun id descriptor member same => ?_⟩
    have kept : awaited dice.tag.id (.result d :: stack) ⊆
        awaited dice.tag.id (.request progress.requests :: .result d :: stack) := by
      rcases awaited_request progress.requests (.result d :: stack) with equal | more
      · exact equal ▸ List.Subset.refl _
      · exact more ▸ List.subset_cons_self _ _
    have before (old : descriptor ∈ (progress.resolvers.get id).outstanding) :=
      (has.asked id descriptor old same).imp_right fun inside => kept inside
    rw [Progress.resolvers_add] at member
    split at member
    · rcases List.mem_append.1 member with old | new
      · exact before old
      · cases List.mem_singleton.1 new
        have first : awaited dice.tag.id (.request progress.requests :: .result d :: stack) =
            progress.requests :: awaited dice.tag.id stack := if_pos same
        exact ⟨rfl, first ▸ List.mem_cons_self⟩
    · exact before member
  | take gives => exact has.take _ rfl rfl
  | takeMissing gives => exact has.take _ rfl rfl
  | mark chain found active =>
    refine has.keep (Nat.add_le_add_right ?_ _) rfl rfl
    refine Nat.le_of_eq ?_
    change ((Ledger.updateTerm _ _ _).outcomes _).length = _
    rw [Ledger.sets_updateTerm]
    split
    · rename_i same
      rw [List.length_modify, ← same]
      rfl
    · rfl
  | @tally stack term outcomes progress action command =>
    refine has.keep (Nat.add_le_add_right ?_ _) rfl rfl
    refine Nat.le_of_eq ?_
    change ((Ledger.updateTerm _ _ _).outcomes _).length = _
    rw [Ledger.sets_updateTerm]
    split
    · rename_i same
      rw [← same]
      exact (Tally.becomes_carryOut ⟨_, _⟩ command term.formula action).length_eq.symm
    · rfl
  | @undo upper stack term outcomes context allowed lenient idle progress raw message =>
    have apart := limits.modifier_ne fits.of_append
    have below : stack.Sublist (upper ++ .modifier term outcomes :: stack) :=
      (List.sublist_cons_self _ _).trans (List.sublist_append_right _ _)
    refine has.keep (Nat.add_le_add ?_ below.countP_le) rfl ?_
    · change ((Ledger.updateTerm _ _ _).outcomes _).length ≤ _
      rw [Ledger.sets_updateTerm, if_neg apart]
      exact Nat.le_refl _
    · exact ((awaited_append idle _).trans (awaited_cons rfl _)).symm
  | @collect stack pool progress total =>
    have apart : pool.tag.id ≠ dice.tag.id := fun same => by
      cases limits.sound.once (.pool pool) (.dice dice) fits.1 limits.known same
    refine has.of_stack ?_ rfl rfl rfl
    change (Ledger.updateTerm _ _ _).outcomes _ = _
    rw [Ledger.sets_updateTerm, if_neg apart]
  | book known => exact absurd known (alone _)
  | release known => exact absurd known (alone _)
  | expect known => exact absurd known (alone _)
  | close known => exact absurd known (alone _)

end

/-! ## Evaluations among others -/

/-- A scope in which no resolver asks for dice in advance. -/
def Scope.alone (scope : Scope) : Scope := { scope with resolver := fun _ => False }

section

variable {scope : Scope} {dice : Dice} {n : Nat}

theorem DiceOf.counts_alone {ledger : Ledger} {number faces : Nat} :
    dice.Counts scope.alone ledger number faces ↔ dice.Counts scope ledger number faces :=
  ⟨fun counts => ⟨counts.known, counts.numbered, counts.sided, counts.some⟩,
    fun counts => ⟨counts.known, counts.numbered, counts.sided, counts.some⟩⟩

theorem Pending.fits_alone {ledger : Ledger} {pending : Pending} :
    pending.Fits scope.alone ledger ↔ pending.Fits scope ledger := by
  cases pending <;> simp only [Fits, DiceOf.counts_alone] <;> exact Iff.rfl

theorem stackFits_alone {ledger : Ledger} {stack : List Pending} :
    StackFits scope.alone ledger stack ↔ StackFits scope ledger stack := by
  induction stack with
  | nil => exact Iff.rfl
  | cons pending below ih => exact and_congr Pending.fits_alone (and_congr_right fun _ => ih)

theorem Board.stands_alone {board : Board} :
    board.Stands scope.alone ↔ board.Stands scope :=
  ⟨fun stands => ⟨stands.exclusive,
      fun stack member => stackFits_alone.1 (stands.fits stack member), stands.filled⟩,
    fun stands => ⟨stands.exclusive,
      fun stack member => stackFits_alone.2 (stands.fits stack member), stands.filled⟩⟩

theorem Scope.Limits.alone (limits : scope.Limits dice n) : scope.alone.Limits dice n where
  sound := ⟨limits.sound.dice, limits.sound.once, fun _ none => none.elim⟩
  known := limits.known
  numbered := limits.numbered
  bare := limits.bare
  never := limits.never

/-- What is known of an evaluation at a moment: requests are in order, what is pending is
known, and there is room for the results of dice that are rolled. -/
structure Moment.Serves (scope : Scope) (id : Identity) (n : Nat) (moment : Moment) : Prop where
  tidy : moment.progress.Tidy
  stands : Board.Stands scope ⟨[moment.stack], moment.progress⟩
  hasRoom : moment.HasRoom id n

theorem Act.serves (limits : scope.Limits dice n) {moment later : Moment}
    (act : Act scope.alone moment later) (serves : moment.Serves scope dice.tag.id n) :
    later.Serves scope dice.tag.id n := by
  have inside := limits.alone
  have nobody (resolver : Resolver) : ¬scope.alone.resolver resolver := not_false
  have stands := Board.stands_alone.2 serves.stands
  have fits := stands.fits moment.stack List.mem_cons_self
  have once := stands.exclusive.terms.once
  unfold Board.held at once
  rw [List.flatten_singleton] at once
  have move : Board.Move scope.alone ⟨[] ++ moment.stack :: [], moment.progress⟩
      ⟨[] ++ later.stack :: [], later.progress⟩ := .act act
  exact ⟨act.tidy nobody serves.tidy, Board.stands_alone.1 (move.stands inside.sound stands),
    act.hasRoom inside nobody fits once serves.hasRoom⟩

theorem Leads.serves (limits : scope.Limits dice n) {moment later : Moment}
    (leads : Leads scope.alone moment later) (serves : moment.Serves scope dice.tag.id n) :
    later.Serves scope dice.tag.id n := by
  induction leads with
  | refl => exact serves
  | tail _ act ih => exact act.serves limits ih

end

end DiceNotation
