import DiceNotation.Proofs.Evaluation.Frame
import DiceNotation.Proofs.Fulfillment.Runs

namespace DiceNotation

/-!
# One request at a time

After the first pass the evaluation asks for one die whenever it needs one, and goes on
only when it has an answer.  So it starts to wait with nothing else outstanding, and the
one value that is taken while it waits is the one that it waits for.
-/

/-- Requests are in order, and nothing is outstanding at a resolver. -/
structure Progress.Quiet (resolver : Resolver) (progress : Progress) : Prop where
  tidy : progress.Tidy
  none : (progress.resolver resolver).outstanding = []

/-- Requests are in order, and a request of an evaluation is all that is outstanding. -/
structure Progress.Waiting (resolver : Resolver) (request : Request) (descriptor : Descriptor)
    (progress : Progress) : Prop where
  tidy : progress.Tidy
  only : (progress.resolver resolver).outstanding = [descriptor]
  own : descriptor.request = request
  isNew : descriptor.isNew = true

namespace Resolver

/-- What can become of the only descriptor that is outstanding: it stays outstanding, it
takes one value that its die can show, or it is cancelled. -/
inductive Fulfils (resolver : Resolver) (asked : Progress) (descriptor : Descriptor)
    (later : Progress) : List Receipt → Prop
  | pending (only : (later.resolver resolver).outstanding = [descriptor])
    (unanswered : later.answer? descriptor.request = none) :
    Fulfils resolver asked descriptor later []
  | delivered (method denomination : Json) {number : Number}
    (none : (later.resolver resolver).outstanding = [])
    (accepted : asked.ledger.accepts descriptor.dice (.number number) = .ok true)
    (answered : later.answer? descriptor.request = some (.delivered number)) :
    Fulfils resolver asked descriptor later [⟨method, denomination, descriptor, number⟩]
  | cancelled (none : (later.resolver resolver).outstanding = [])
    (answered : later.answer? descriptor.request = some .cancelled) :
    Fulfils resolver asked descriptor later []

variable {resolver : Resolver} {progress asked later last : Progress} {descriptor : Descriptor}
  {receipts : List Receipt}

/-- Nothing depends on messages and the like. -/
theorem Fulfils.of_beside (fulfils : resolver.Fulfils asked descriptor later receipts)
    (beside : later.Beside last) : resolver.Fulfils asked descriptor last receipts := by
  have state := beside.resolver resolver
  have answer := beside.answer? descriptor.request
  cases fulfils with
  | pending only unanswered =>
    exact .pending ((congrArg _ state).trans only) (answer.trans unanswered)
  | delivered method denomination none accepted answered =>
    exact .delivered method denomination ((congrArg _ state).trans none) accepted
      (answer.trans answered)
  | cancelled none answered =>
    exact .cancelled ((congrArg _ state).trans none) (answer.trans answered)

/-- After the resolver was closed nothing is outstanding, and what was is cancelled. -/
theorem Fulfils.close (fulfils : resolver.Fulfils asked descriptor later receipts) :
    resolver.Fulfils asked descriptor (resolver.close later) receipts := by
  cases state : (later.resolver resolver).closed with
  | true => rwa [Progress.close_of_closed state]
  | false =>
    have emptied : ((resolver.close later).resolver resolver).outstanding = [] := by
      change ((resolver.close later).resolvers.get resolver.id).outstanding = []
      rw [Progress.resolvers_close state, if_pos rfl]
    have kept {answer : Answer} (answered : later.answer? descriptor.request = some answer) :
        (resolver.close later).answer? descriptor.request = some answer := by
      rw [Progress.answer?_close state, if_neg, answered]
      rintro ⟨_, unanswered⟩
      cases answered.symm.trans unanswered
    cases fulfils with
    | pending only unanswered =>
      refine .cancelled emptied ?_
      rw [Progress.answer?_close state, if_pos]
      refine ⟨List.mem_append_left _ ?_, unanswered⟩
      rw [only]
      exact List.mem_cons_self
    | delivered method denomination none accepted answered =>
      exact .delivered method denomination emptied accepted (kept answered)
    | cancelled none answered => exact .cancelled emptied (kept answered)

/-- The only descriptor takes a value. -/
theorem Fulfils.take (fulfils : resolver.Fulfils asked descriptor later receipts)
    (isNew : descriptor.isNew = true) (same : later.ledger = asked.ledger)
    {method denomination : Json} {number : Number} {before after : List Descriptor}
    {taker : Descriptor}
    (takes : resolver.Takes method denomination number later before taker after) :
    (resolver.deliver (before ++ after) taker number later).ledger = asked.ledger ∧
      resolver.Fulfils asked descriptor (resolver.deliver (before ++ after) taker number later)
        (receipts ++ [⟨method, denomination, taker, number⟩]) := by
  have kept := takes.kept
  cases fulfils with
  | pending only unanswered =>
    rw [only] at kept
    rcases List.singleton_eq_append_iff.1 kept with ⟨rfl, is⟩ | ⟨_, is⟩
    · cases is
      refine ⟨?_, .delivered method denomination ?_ ?_ ?_⟩
      · rw [ledger_deliver, if_pos isNew, same]
      · rw [resolver_deliver rfl]
        rfl
      · rw [← same]
        exact takes.accepted
      · rw [answer?_deliver, if_pos rfl]
    · cases is
  | delivered _ _ none =>
    rw [none] at kept
    exact absurd kept.symm (List.append_ne_nil_of_right_ne_nil _ (List.cons_ne_nil _ _))
  | cancelled none =>
    rw [none] at kept
    exact absurd kept.symm (List.append_ne_nil_of_right_ne_nil _ (List.cons_ne_nil _ _))

theorem tidy_deliver (tidy : progress.Tidy) {method denomination : Json} {number : Number}
    {before after : List Descriptor}
    (takes : resolver.Takes method denomination number progress before descriptor after) :
    (resolver.deliver (before ++ after) descriptor number progress).Tidy :=
  (Progress.Forward.checkDone (tidy.taking number takes.kept) resolver).tidy

theorem Handles.tidy (handles : resolver.Handles asked receipts later) (tidy : asked.Tidy) :
    later.Tidy := by
  induction handles with
  | nothing => exact tidy
  | rejected _ handed ih => exact ih.of_beside (beside_of_rejected handed).1
  | accepted _ found handed ih =>
    rcases takes_of_accepted found handed with ⟨takes, rfl⟩
    exact tidy_deliver ih takes
  | closed _ ih => exact ih.close resolver

/-- While an evaluation waits for one die, the outside does nothing to the ledger. -/
theorem Handles.fulfils {request : Request} (handles : resolver.Handles asked receipts later)
    (waiting : asked.Waiting resolver request descriptor) :
    later.ledger = asked.ledger ∧ resolver.Fulfils asked descriptor later receipts := by
  induction handles with
  | nothing =>
    refine ⟨rfl, .pending waiting.only (waiting.tidy.pending resolver.id descriptor ?_).2⟩
    change descriptor ∈ (asked.resolver resolver).outstanding
    rw [waiting.only]
    exact List.mem_cons_self
  | rejected _ handed ih =>
    rcases beside_of_rejected handed with ⟨beside, same⟩
    exact ⟨same.trans ih.1, ih.2.of_beside beside⟩
  | accepted _ found handed ih =>
    rcases takes_of_accepted found handed with ⟨takes, rfl⟩
    exact ih.2.take waiting.isNew ih.1 takes
  | closed _ ih => exact ⟨(ledger_close ..).trans ih.1, ih.2.close⟩

/-- A resolver that is closed takes nothing. -/
theorem Handles.receipts_of_closed (handles : resolver.Handles asked receipts later)
    (closed : (asked.resolver resolver).closed = true) : receipts = [] := by
  suffices (later.resolver resolver).closed = true ∧ receipts = [] from this.2
  induction handles with
  | nothing => exact ⟨closed, rfl⟩
  | rejected _ handed ih =>
    exact ⟨(congrArg _ ((beside_of_rejected handed).1.resolver resolver)).trans ih.1, ih.2⟩
  | accepted _ found handed ih =>
    cases (takes_of_accepted found handed).1.isOpen.symm.trans ih.1
  | closed _ ih => exact ⟨Progress.closed_close _ _, ih.2⟩

/-- While nothing is outstanding, nothing is taken. -/
theorem Handles.quiet (handles : resolver.Handles asked receipts later)
    (quiet : asked.Quiet resolver) : (later.resolver resolver).outstanding = [] := by
  induction handles with
  | nothing => exact quiet.none
  | rejected _ handed ih => exact (congrArg _ ((beside_of_rejected handed).1.resolver resolver)).trans ih
  | accepted _ found handed ih =>
    have kept := (takes_of_accepted found handed).1.kept
    rw [ih] at kept
    exact absurd kept.symm (List.append_ne_nil_of_right_ne_nil _ (List.cons_ne_nil _ _))
  | @closed _ between _ ih =>
    cases state : (between.resolver resolver).closed with
    | true => rwa [Progress.close_of_closed state]
    | false =>
      change ((resolver.close between).resolvers.get resolver.id).outstanding = []
      rw [Progress.resolvers_close state, if_pos rfl]

end Resolver

namespace Progress

variable {resolver : Resolver} {progress later : Progress}

theorem Quiet.of_beside (quiet : progress.Quiet resolver) (beside : progress.Beside later) :
    later.Quiet resolver :=
  ⟨quiet.tidy.of_beside beside, (congrArg _ (beside.resolver resolver)).trans quiet.none⟩

theorem Quiet.close (quiet : progress.Quiet resolver) : (resolver.close progress).Quiet resolver :=
  ⟨quiet.tidy.close resolver, (Resolver.Handles.closed .nothing).quiet quiet⟩

theorem Quiet.add (quiet : progress.Quiet resolver)
    (isOpen : (progress.resolver resolver).closed = false) (dice : Dice) (method : Json)
    (reroll explode : Bool) :
    ((resolver.add dice method true reroll explode progress).2).Waiting resolver progress.requests
      ⟨dice, method, true, reroll, explode, progress.requests⟩ where
  tidy := quiet.tidy.add isOpen dice method true reroll explode
  only := by
    change ((resolver.add dice method true reroll explode progress).2.resolvers.get
      resolver.id).outstanding = _
    rw [resolvers_add, if_pos rfl]
    change (progress.resolver resolver).outstanding ++ _ = _
    rw [quiet.none]
    rfl
  own := rfl
  isNew := rfl

end Progress

/-- The rule that an evaluation waits for one die at a time, and starts to wait only when
nothing is outstanding. -/
def FrameRule.quiet (resolver : Resolver) : FrameRule fun _ => True where
  holds before after := before.Quiet resolver → after.Quiet resolver
  refl _ quiet := quiet
  trans holds further quiet := further (holds quiet)
  term {_} _ _ _ _ quiet := quiet.of_beside ⟨rfl, rfl, rfl, rfl⟩
  enter _ _ quiet := quiet.of_beside ⟨rfl, rfl, rfl, rfl⟩
  leave _ _ quiet := quiet.of_beside ⟨rfl, rfl, rfl, rfl⟩
  start _ _ quiet := quiet.of_beside ⟨rfl, rfl, rfl, rfl⟩
  finish _ _ since _ quiet := (since (quiet.of_beside ⟨rfl, rfl, rfl, rfl⟩)).of_beside
    ⟨rfl, rfl, rfl, rfl⟩
  aside only quiet := quiet.of_beside ⟨only.resolvers, only.answers, only.answered, only.requests⟩
  asks other _ := other = resolver
  waits request before asked := before.Quiet resolver →
    ∃ descriptor, asked.Waiting resolver request descriptor
  resumes _ _ _ later := later.Quiet resolver
  waits_trans holds waits quiet := waits (holds quiet)
  resume _ resumes _ := resumes
  ask own _ isOpen method reroll explode quiet := by
    subst own
    exact ⟨_, quiet.add isOpen _ method reroll explode⟩

/-- However its requests are answered, a run that keeps to this rule has at most one die
outstanding. -/
theorem Step.Keeps.outstanding_le {α : Type} {resolver : Resolver} {start : Progress}
    {step last : Step α} (keeps : step.Keeps (FrameRule.quiet resolver) start)
    (quiet : start.Quiet resolver) {receipts more : List Receipt}
    (runs : step.Runs resolver receipts last) {later : Progress}
    (handles : resolver.Handles last.progress more later) :
    (later.resolver resolver).outstanding.length ≤ 1 := by
  induction runs with
  | stays step =>
    cases step with
    | done result last =>
      rw [handles.quiet (keeps quiet)]
      exact Nat.zero_le 1
    | wait request asked resume =>
      rcases keeps.1 quiet with ⟨descriptor, waiting⟩
      cases (handles.fulfils waiting).2 with
      | pending only => rw [only]; exact Nat.le_refl 1
      | delivered _ _ none => rw [none]; exact Nat.zero_le 1
      | cancelled none => rw [none]; exact Nat.zero_le 1
  | resumes handled answered runs ih =>
    rcases keeps.1 quiet with ⟨descriptor, waiting⟩
    have tidy := handled.tidy waiting.tidy
    refine ih (keeps.2 _ _ ⟨tidy, ?_⟩) handles
    cases (handled.fulfils waiting).2 with
    | pending _ unanswered =>
      rw [waiting.own] at unanswered
      cases unanswered.symm.trans answered
    | delivered _ _ none => exact none
    | cancelled none => exact none

namespace Context

/-- An evaluation with a resolver asks it for one die at a time. -/
theorem keeps_quiet {context : Context} {resolver : Resolver}
    (own : ∀ other, context.resolver = some other → other = resolver) (roll : Roll) :
    Evaluation.Keeps (FrameRule.quiet resolver) (context.evaluateRoll roll) := by
  have follows : context.Follows (FrameRule.quiet resolver) (fun _ => True) fun _ => True :=
    ⟨fun _ => trivial, fun _ => trivial, fun _ => context.keeps_rollDice own trivial⟩
  exact keeps_evaluateRoll follows trivial (rowThroughout_true roll.terms)

end Context
end DiceNotation
