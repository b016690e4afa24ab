import DiceNotation.Fulfillment.Resolver

namespace DiceNotation

/-!
# Requests in order

Requests are numbered as they are made, and each is answered at most once.  A resolver
keeps descriptors for requests that are unanswered, in the order in which they were
made, and no request is kept twice.  A resolver that is closed keeps none.  Every step
that changes anything about requests leaves them in this order.
-/

namespace Progress

/-! ## States of resolvers and answers -/

theorem resolvers_updateResolver (progress : Progress) (resolver : Resolver)
    (change : ResolverState → ResolverState) (id : Nat) :
    (progress.updateResolver resolver change).resolvers.get id =
      if resolver.id = id then change (progress.resolvers.get id) else progress.resolvers.get id := by
  change (Table.set _ _ _).get id = _
  rw [Table.get_set]
  split
  · rename_i same
    rw [same]
  · rfl

@[simp] theorem resolver_updateResolver (progress : Progress) (resolver : Resolver)
    (change : ResolverState → ResolverState) :
    (progress.updateResolver resolver change).resolver resolver =
      change (progress.resolver resolver) := by
  change (progress.updateResolver resolver change).resolvers.get resolver.id = _
  rw [resolvers_updateResolver, if_pos rfl]
  rfl

theorem answer?_settle (progress : Progress) (request other : Request) (answer : Answer) :
    (progress.settle request answer).answer? other =
      if request = other then some answer else progress.answer? other :=
  Table.get_set _ _ _ _

@[simp] theorem answer?_settle_self (progress : Progress) (request : Request) (answer : Answer) :
    (progress.settle request answer).answer? request = some answer := by
  rw [answer?_settle, if_pos rfl]

theorem answer?_settle_of_ne {progress : Progress} {request other : Request} {answer : Answer}
    (different : request ≠ other) :
    (progress.settle request answer).answer? other = progress.answer? other := by
  rw [answer?_settle, if_neg different]

theorem resolvers_add (progress : Progress) (resolver : Resolver) (dice : Dice) (method : Json)
    (isNew reroll explode : Bool) (id : Nat) :
    (resolver.add dice method isNew reroll explode progress).2.resolvers.get id =
      if resolver.id = id then
        { progress.resolvers.get id with
          outstanding := (progress.resolvers.get id).outstanding ++
            [⟨dice, method, isNew, reroll, explode, progress.requests⟩] }
      else progress.resolvers.get id :=
  resolvers_updateResolver _ _ _ _

/-! ## Order -/

/-- Requests are in order. -/
structure Tidy (progress : Progress) : Prop where
  unasked : ∀ request, progress.requests ≤ request → progress.answer? request = none
  listed : ∀ request, request ∈ progress.answered ↔ progress.answer? request ≠ none
  once : progress.answered.Nodup
  ordered : ∀ id, ((progress.resolvers.get id).outstanding.map (·.request)).Pairwise (· < ·)
  pending : ∀ id, ∀ descriptor ∈ (progress.resolvers.get id).outstanding,
    descriptor.request < progress.requests ∧ progress.answer? descriptor.request = none
  apart : ∀ id other, ∀ descriptor ∈ (progress.resolvers.get id).outstanding,
    ∀ further ∈ (progress.resolvers.get other).outstanding,
      descriptor.request = further.request → id = other
  firstPass : ∀ id request, (progress.resolvers.get id).firstPass = some request →
    request < progress.requests ∧ ∀ other, ∀ descriptor ∈ (progress.resolvers.get other).outstanding,
      descriptor.request ≠ request
  closed : ∀ id, (progress.resolvers.get id).closed = true →
    (progress.resolvers.get id).outstanding = []

/-- Nothing has happened to requests and to resolvers. -/
structure Beside (before after : Progress) : Prop where
  resolvers : after.resolvers = before.resolvers
  answers : after.answers = before.answers
  answered : after.answered = before.answered
  requests : after.requests = before.requests

theorem Beside.answer? {before after : Progress} (beside : before.Beside after) (request : Request) :
    after.answer? request = before.answer? request :=
  congrArg (fun answers => Table.get answers request) beside.answers

theorem Beside.resolver {before after : Progress} (beside : before.Beside after)
    (resolver : Resolver) : after.resolver resolver = before.resolver resolver :=
  congrArg (fun resolvers => Table.get resolvers resolver.id) beside.resolvers

namespace Tidy

/-- Nothing was asked before anything has happened. -/
theorem ofLedger (ledger : Ledger) : (Progress.ofLedger ledger).Tidy where
  unasked _ _ := rfl
  listed _ := ⟨fun member => (List.not_mem_nil member).elim, fun answered => (answered rfl).elim⟩
  once := List.nodup_nil
  ordered _ := List.Pairwise.nil
  pending _ _ member := (List.not_mem_nil member).elim
  apart _ _ _ member := (List.not_mem_nil member).elim
  firstPass _ _ expected := nomatch expected
  closed _ _ := rfl

variable {progress later : Progress} {resolver : Resolver}

theorem of_beside (tidy : progress.Tidy) (beside : progress.Beside later) : later.Tidy := by
  rcases beside with ⟨resolvers, answers, answered, requests⟩
  rcases later with ⟨ledger, draws, calls, journal, _, _, _, _⟩
  cases resolvers
  cases answers
  cases answered
  cases requests
  exact ⟨tidy.unasked, tidy.listed, tidy.once, tidy.ordered, tidy.pending, tidy.apart,
    tidy.firstPass, tidy.closed⟩

/-- What is kept at a resolver apart from one descriptor is for other requests. -/
theorem request_ne (tidy : progress.Tidy) {id : Nat} {before after : List Descriptor}
    {descriptor : Descriptor}
    (kept : (progress.resolvers.get id).outstanding = before ++ descriptor :: after) :
    ∀ further ∈ before ++ after, descriptor.request ≠ further.request := by
  have ordered := List.pairwise_map.1 (tidy.ordered id)
  rw [kept] at ordered
  rcases List.pairwise_append.1 ordered with ⟨_, behind, across⟩
  intro further member
  rcases List.mem_append.1 member with first | last
  · exact Nat.ne_of_gt (across further first descriptor List.mem_cons_self)
  · exact Nat.ne_of_lt ((List.pairwise_cons.1 behind).1 further last)

/-! ## What keeps the order -/

/-- An open resolver may ask for one more die. -/
theorem add (tidy : progress.Tidy) (isOpen : (progress.resolver resolver).closed = false)
    (dice : Dice) (method : Json) (isNew reroll explode : Bool) :
    (resolver.add dice method isNew reroll explode progress).2.Tidy := by
  let descriptor : Descriptor := ⟨dice, method, isNew, reroll, explode, progress.requests⟩
  have kept {id : Nat} {further : Descriptor} (member : further ∈
      ((resolver.add dice method isNew reroll explode progress).2.resolvers.get id).outstanding) :
      further ∈ (progress.resolvers.get id).outstanding ∨ further = descriptor ∧ resolver.id = id := by
    rw [resolvers_add] at member
    split at member
    · rename_i same
      rcases List.mem_append.1 member with before | new
      · exact .inl before
      · exact .inr ⟨List.mem_singleton.1 new, same⟩
    · exact .inl member
  constructor
  · exact fun request unasked => tidy.unasked request (Nat.le_of_succ_le unasked)
  · exact tidy.listed
  · exact tidy.once
  · intro id
    rw [resolvers_add]
    split
    · rw [List.map_append, List.pairwise_append]
      refine ⟨tidy.ordered id, List.pairwise_singleton _ _, ?_⟩
      intro request member other new
      rcases List.mem_map.1 member with ⟨further, before, rfl⟩
      cases List.mem_singleton.1 new
      exact (tidy.pending id further before).1
    · exact tidy.ordered id
  · intro id further member
    rcases kept member with before | ⟨rfl, _⟩
    · exact ⟨Nat.lt_succ_of_lt (tidy.pending id further before).1,
        (tidy.pending id further before).2⟩
    · exact ⟨Nat.lt_succ_self _, tidy.unasked _ (Nat.le_refl _)⟩
  · intro id other further member last memberToo same
    rcases kept member with before | ⟨rfl, here⟩
    · rcases kept memberToo with beforeToo | ⟨rfl, _⟩
      · exact tidy.apart id other further before last beforeToo same
      · exact absurd same (Nat.ne_of_lt (tidy.pending id further before).1)
    · rcases kept memberToo with beforeToo | ⟨rfl, hereToo⟩
      · exact absurd same (Nat.ne_of_gt (tidy.pending other last beforeToo).1)
      · exact here.symm.trans hereToo
  · intro id request expected
    have expected : (progress.resolvers.get id).firstPass = some request := by
      rw [resolvers_add] at expected
      split at expected <;> exact expected
    rcases tidy.firstPass id request expected with ⟨made, apart⟩
    refine ⟨Nat.lt_succ_of_lt made, fun other further member => ?_⟩
    rcases kept member with before | ⟨rfl, _⟩
    · exact apart other further before
    · exact Nat.ne_of_gt made
  · intro id closed
    rw [resolvers_add] at closed ⊢
    split at closed
    · rename_i same
      subst same
      cases isOpen.symm.trans closed
    · rename_i other
      rw [if_neg other]
      exact tidy.closed id closed

/-- A resolver may keep less than before, and none if it is closed. -/
theorem keep (tidy : progress.Tidy) {change : ResolverState → ResolverState}
    (fewer : (change (progress.resolver resolver)).outstanding.Sublist
      (progress.resolver resolver).outstanding)
    (same : (change (progress.resolver resolver)).firstPass = (progress.resolver resolver).firstPass)
    (closed : (change (progress.resolver resolver)).closed = true →
      (change (progress.resolver resolver)).outstanding = []) :
    (progress.updateResolver resolver change).Tidy := by
  let after := progress.updateResolver resolver change
  have fewer (id : Nat) : (after.resolvers.get id).outstanding.Sublist
      (progress.resolvers.get id).outstanding := by
    rw [resolvers_updateResolver]
    split
    · rename_i here
      subst here
      exact fewer
    · exact List.Sublist.refl _
  constructor
  · exact tidy.unasked
  · exact tidy.listed
  · exact tidy.once
  · exact fun id => (tidy.ordered id).sublist ((fewer id).map _)
  · exact fun id descriptor member => tidy.pending id descriptor ((fewer id).subset member)
  · exact fun id other descriptor member further memberToo => tidy.apart id other descriptor
      ((fewer id).subset member) further ((fewer other).subset memberToo)
  · intro id request expected
    have expected : (progress.resolvers.get id).firstPass = some request := by
      rw [resolvers_updateResolver] at expected
      split at expected
      · rename_i here
        subst here
        exact same.symm.trans expected
      · exact expected
    rcases tidy.firstPass id request expected with ⟨made, apart⟩
    exact ⟨made, fun other descriptor member => apart other descriptor ((fewer other).subset member)⟩
  · intro id done
    rw [resolvers_updateResolver] at done ⊢
    split at done
    · rename_i here
      subst here
      rw [if_pos rfl]
      exact closed done
    · rename_i elsewhere
      rw [if_neg elsewhere]
      exact tidy.closed id done

/-- A request may be answered that is unanswered and for which no descriptor is kept. -/
theorem settle (tidy : progress.Tidy) {request : Request} (made : request < progress.requests)
    (unanswered : progress.answer? request = none)
    (free : ∀ id, ∀ descriptor ∈ (progress.resolvers.get id).outstanding,
      descriptor.request ≠ request) (answer : Answer) : (progress.settle request answer).Tidy := by
  constructor
  · intro other unasked
    rw [answer?_settle_of_ne (Nat.ne_of_lt (Nat.lt_of_lt_of_le made unasked))]
    exact tidy.unasked other unasked
  · intro other
    by_cases same : request = other
    · subst same
      rw [answer?_settle_self]
      exact ⟨fun _ => nofun, fun _ => List.mem_cons_self⟩
    · rw [answer?_settle_of_ne same, ← tidy.listed other]
      change other ∈ request :: progress.answered ↔ _
      rw [List.mem_cons, or_iff_right (Ne.symm same)]
  · refine List.nodup_cons.2 ⟨fun before => ?_, tidy.once⟩
    exact (tidy.listed request).1 before unanswered
  · exact tidy.ordered
  · intro id descriptor member
    rcases tidy.pending id descriptor member with ⟨madeToo, none⟩
    rw [answer?_settle_of_ne (Ne.symm (free id descriptor member))]
    exact ⟨madeToo, none⟩
  · exact tidy.apart
  · exact tidy.firstPass
  · exact tidy.closed

/-- A resolver may wait for the end of its first pass. -/
theorem expect (tidy : progress.Tidy) (resolver : Resolver) :
    (progress.ask.2.updateResolver resolver fun state =>
      { state with firstPass := some progress.requests }).Tidy := by
  let after := progress.ask.2.updateResolver resolver fun state =>
    { state with firstPass := some progress.requests }
  have state (id : Nat) : (after.resolvers.get id).outstanding =
        (progress.resolvers.get id).outstanding ∧
      (after.resolvers.get id).closed = (progress.resolvers.get id).closed := by
    rw [resolvers_updateResolver]
    split <;> exact ⟨rfl, rfl⟩
  constructor
  · exact fun request unasked => tidy.unasked request (Nat.le_of_succ_le unasked)
  · exact tidy.listed
  · exact tidy.once
  · intro id
    rw [(state id).1]
    exact tidy.ordered id
  · intro id descriptor member
    rw [(state id).1] at member
    rcases tidy.pending id descriptor member with ⟨made, none⟩
    exact ⟨Nat.lt_succ_of_lt made, none⟩
  · intro id other descriptor member further memberToo
    rw [(state id).1] at member
    rw [(state other).1] at memberToo
    exact tidy.apart id other descriptor member further memberToo
  · intro id request expected
    have made : request ≤ progress.requests ∧ ∀ other, ∀ descriptor ∈
        (progress.resolvers.get other).outstanding, descriptor.request ≠ request := by
      rw [resolvers_updateResolver] at expected
      split at expected
      · cases expected
        exact ⟨Nat.le_refl _, fun other descriptor member =>
          Nat.ne_of_lt (tidy.pending other descriptor member).1⟩
      · rcases tidy.firstPass id request expected with ⟨made, apart⟩
        exact ⟨Nat.le_of_lt made, apart⟩
    refine ⟨Nat.lt_succ_of_le made.1, fun other descriptor member => ?_⟩
    rw [(state other).1] at member
    exact made.2 other descriptor member
  · intro id closed
    rw [(state id).2] at closed
    rw [(state id).1]
    exact tidy.closed id closed

end Tidy

/-! ## Cancelling -/

theorem resolvers_cancel (progress : Progress) (requests : List Request) :
    (Resolver.cancel progress requests).resolvers = progress.resolvers := by
  unfold Resolver.cancel
  induction requests generalizing progress with
  | nil => rfl
  | cons request rest ih =>
    rw [List.foldl_cons, ih]
    split <;> rfl

theorem cancel_cons (progress : Progress) (request : Request) (rest : List Request) :
    Resolver.cancel progress (request :: rest) =
      Resolver.cancel (match progress.answer? request with
        | some _ => progress
        | none => progress.settle request .cancelled) rest := rfl

/-- Cancelling answers what is unanswered, and nothing else. -/
theorem answer?_cancel (progress : Progress) (requests : List Request) (request : Request) :
    (Resolver.cancel progress requests).answer? request =
      if request ∈ requests ∧ progress.answer? request = none then some .cancelled
      else progress.answer? request := by
  induction requests generalizing progress with
  | nil =>
    rw [if_neg fun holds => List.not_mem_nil holds.1]
    rfl
  | cons first rest ih =>
    rw [cancel_cons, ih]
    cases answered : progress.answer? first with
    | some answer =>
      by_cases same : request = first
      · subst same
        simp [answered]
      · simp [same]
    | none =>
      by_cases same : first = request
      · subst same
        simp [answered]
      · rw [answer?_settle_of_ne same]
        simp [Ne.symm same]

theorem Tidy.cancel {progress : Progress} (tidy : progress.Tidy) {requests : List Request}
    (made : ∀ request ∈ requests, request < progress.requests)
    (free : ∀ request ∈ requests, ∀ id, ∀ descriptor ∈ (progress.resolvers.get id).outstanding,
      descriptor.request ≠ request) : (Resolver.cancel progress requests).Tidy := by
  induction requests generalizing progress with
  | nil => exact tidy
  | cons first rest ih =>
    rw [cancel_cons]
    have madeRest := fun request member => made request (List.mem_cons_of_mem first member)
    have freeRest := fun request member => free request (List.mem_cons_of_mem first member)
    cases answered : progress.answer? first with
    | some answer => exact ih tidy madeRest freeRest
    | none =>
      have settled := tidy.settle (made first List.mem_cons_self) answered
        (free first List.mem_cons_self) .cancelled
      exact ih settled madeRest freeRest

end Progress
end DiceNotation
