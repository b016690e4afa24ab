import DiceNotation.Proofs.Evaluation.Frame
import DiceNotation.Proofs.Fulfillment.Requests

namespace DiceNotation

/-!
# Handing in values

A value goes to the first outstanding descriptor of its method and kind, if the die of
that descriptor can show it.  Then the request is answered with the value, the
descriptor is not outstanding any more, and the value is an outcome of the die unless
an evaluation waits for it.  A value that is not taken changes nothing but the journal.
-/

namespace Resolver

variable {progress later : Progress} {resolver : Resolver} {method denomination value : Json}

/-! ## The first descriptor of a kind -/

/-- What is found stands behind descriptors that do not fit. -/
theorem findDescriptor_eq_some {ledger : Ledger} {outstanding before after : List Descriptor}
    {descriptor : Descriptor}
    (found : findDescriptor ledger method denomination outstanding =
      .ok (some (before, descriptor, after))) :
    outstanding = before ++ descriptor :: after ∧
      fits ledger method denomination descriptor = .ok true ∧
      ∀ other ∈ before, fits ledger method denomination other = .ok false := by
  induction outstanding generalizing before with
  | nil => cases found
  | cons first rest ih =>
    unfold findDescriptor at found
    split at found
    · cases found
    · rename_i fit
      cases found
      exact ⟨rfl, fit, fun _ member => (List.not_mem_nil member).elim⟩
    · rename_i unfit
      split at found
      · cases found
      · cases found
      · rename_i more
        cases found
        rcases ih more with ⟨rfl, fit, unfits⟩
        exact ⟨rfl, fit, List.forall_mem_cons.2 ⟨unfit, unfits⟩⟩

/-- If nothing is found, nothing fits. -/
theorem findDescriptor_eq_none {ledger : Ledger} {outstanding : List Descriptor}
    (found : findDescriptor ledger method denomination outstanding = .ok none) :
    ∀ descriptor ∈ outstanding, fits ledger method denomination descriptor = .ok false := by
  induction outstanding with
  | nil => exact fun _ member => (List.not_mem_nil member).elim
  | cons first rest ih =>
    unfold findDescriptor at found
    split at found
    · cases found
    · cases found
    · rename_i unfit
      split at found
      · cases found
      · rename_i more
        exact List.forall_mem_cons.2 ⟨unfit, ih more⟩
      · cases found

/-! ## Values that are taken -/

/-- What it takes for a value to be taken by a descriptor. -/
structure Takes (resolver : Resolver) (method denomination : Json) (number : Number)
    (progress : Progress) (before : List Descriptor) (descriptor : Descriptor)
    (after : List Descriptor) : Prop where
  isOpen : (progress.resolver resolver).closed = false
  found : findDescriptor progress.ledger method denomination
    (progress.resolver resolver).outstanding = .ok (some (before, descriptor, after))
  accepted : progress.ledger.accepts descriptor.dice (.number number) = .ok true

theorem Takes.kept {number : Number} {before after : List Descriptor} {descriptor : Descriptor}
    (takes : resolver.Takes method denomination number progress before descriptor after) :
    (progress.resolver resolver).outstanding = before ++ descriptor :: after :=
  (findDescriptor_eq_some takes.found).1

/-- A value is taken or it is not, and then there is only a message. -/
theorem register_eq_ok {accepted : Bool}
    (handed : resolver.register method denomination value progress = .ok (accepted, later)) :
    (accepted = true ∧ ∃ number before descriptor after, value = .number number ∧
      resolver.Takes method denomination number progress before descriptor after ∧
      later = resolver.deliver (before ++ after) descriptor number progress) ∨
    (accepted = false ∧ (later = progress ∨ ∃ level text, later = progress.report level text)) := by
  unfold register at handed
  simp only at handed
  split at handed
  · cases handed
    exact .inr ⟨rfl, .inl rfl⟩
  · rename_i isOpen
    cases search : findDescriptor progress.ledger method denomination
      (progress.resolver resolver).outstanding with
    | error fault =>
      rw [search] at handed
      cases handed
    | ok found =>
      rw [search] at handed
      cases found with
      | none =>
        cases handed
        exact .inr ⟨rfl, .inl rfl⟩
      | some parts =>
        rcases parts with ⟨before, descriptor, after⟩
        simp only [bind, Except.bind] at handed
        split at handed
        · cases handed
        · rename_i shown can
          split at handed
          · cases handed
            exact .inl ⟨rfl, _, before, descriptor, after, rfl,
              ⟨Bool.eq_false_iff.2 isOpen, search, can⟩, rfl⟩
          · cases handed
            exact .inr ⟨rfl, .inr ⟨_, _, rfl⟩⟩

/-- A value is taken by the first descriptor of its kind if the die can show it. -/
theorem Takes.register {number : Number} {before after : List Descriptor} {descriptor : Descriptor}
    (takes : resolver.Takes method denomination number progress before descriptor after) :
    resolver.register method denomination (.number number) progress =
      .ok (true, resolver.deliver (before ++ after) descriptor number progress) := by
  unfold Resolver.register
  simp only [takes.isOpen, takes.found, takes.accepted, bind, Except.bind, Bool.false_eq_true,
    if_false]
  rfl

/-- Resolvers take values by their identity, whatever their rolls. -/
theorem register_congr {other : Resolver} (same : resolver.id = other.id) :
    resolver.register method denomination value progress =
      other.register method denomination value progress := by
  rcases resolver with ⟨id, roll⟩
  rcases other with ⟨_, further⟩
  cases same
  rfl

/-! ## What taking changes -/

theorem resolvers_checkDone (resolver : Resolver) (progress : Progress) :
    (resolver.checkDone progress).2.resolvers = progress.resolvers := by
  unfold checkDone
  simp only
  split
  · rfl
  · split
    · rfl
    · split <;> rfl

/-- The first pass is released if nothing is outstanding, and nothing else is answered. -/
theorem answer?_checkDone (resolver : Resolver) (progress : Progress) (request : Request) :
    (resolver.checkDone progress).2.answer? request =
      if (progress.resolver resolver).outstanding = [] ∧
          (progress.resolver resolver).firstPass = some request ∧ progress.answer? request = none
      then some .released else progress.answer? request := by
  unfold checkDone
  simp only
  split
  · rename_i some
    rw [if_neg]
    rintro ⟨none, _⟩
    rw [none] at some
    cases some
  · rename_i none
    have none : (progress.resolver resolver).outstanding = [] := by simpa using none
    split
    · rename_i expected
      rw [if_neg]
      rintro ⟨_, given, _⟩
      cases expected.symm.trans given
    · rename_i first expected
      split
      · rename_i answer answered
        rw [if_neg]
        rintro ⟨_, given, unanswered⟩
        cases expected.symm.trans given
        cases answered.symm.trans unanswered
      · rename_i unanswered
        by_cases same : first = request
        · subst same
          rw [Progress.answer?_settle_self, if_pos ⟨none, expected, unanswered⟩]
        · rw [Progress.answer?_settle_of_ne same, if_neg]
          rintro ⟨_, given, _⟩
          cases expected.symm.trans given
          exact same rfl

/-- The progress in which a value is an outcome, unless an evaluation waits for it. -/
def recording (descriptor : Descriptor) (number : Number) (progress : Progress) : Progress :=
  if descriptor.isNew then progress
  else progress.updateLedger fun ledger => addOutcome ledger descriptor.dice (.number number)

/-- The progress in which a value has been taken, before it is seen whether the first
pass is done. -/
def taking (resolver : Resolver) (remaining : List Descriptor) (descriptor : Descriptor)
    (number : Number) (progress : Progress) : Progress :=
  ((recording descriptor number progress).updateResolver resolver fun state =>
    { state with outstanding := remaining }).settle descriptor.request (.delivered number)

theorem deliver_eq (remaining : List Descriptor) (descriptor : Descriptor) (number : Number) :
    resolver.deliver remaining descriptor number progress =
      (resolver.checkDone (resolver.taking remaining descriptor number progress)).2 := rfl

theorem beside_recording (descriptor : Descriptor) (number : Number) (progress : Progress) :
    progress.Beside (recording descriptor number progress) := by
  unfold recording
  split <;> exact ⟨rfl, rfl, rfl, rfl⟩

variable {remaining : List Descriptor} {descriptor : Descriptor} {number : Number}

theorem ledger_deliver : (resolver.deliver remaining descriptor number progress).ledger =
    if descriptor.isNew then progress.ledger
    else addOutcome progress.ledger descriptor.dice (.number number) := by
  rw [deliver_eq, ledger_checkDone]
  change (recording descriptor number progress).ledger = _
  unfold recording
  split <;> rfl

theorem resolvers_taking (id : Nat) :
    (resolver.taking remaining descriptor number progress).resolvers.get id =
      if resolver.id = id then { progress.resolvers.get id with outstanding := remaining }
      else progress.resolvers.get id := by
  rw [← (beside_recording descriptor number progress).resolvers]
  exact Progress.resolvers_updateResolver _ _ _ _

theorem resolvers_deliver (id : Nat) :
    (resolver.deliver remaining descriptor number progress).resolvers.get id =
      if resolver.id = id then { progress.resolvers.get id with outstanding := remaining }
      else progress.resolvers.get id := by
  rw [deliver_eq, resolvers_checkDone, resolvers_taking]

theorem resolver_taking : (resolver.taking remaining descriptor number progress).resolver resolver =
    { progress.resolver resolver with outstanding := remaining } := by
  change (resolver.taking remaining descriptor number progress).resolvers.get resolver.id = _
  rw [resolvers_taking, if_pos rfl]
  rfl

theorem resolver_deliver {other : Resolver} (same : resolver.id = other.id) :
    (resolver.deliver remaining descriptor number progress).resolver other =
      { progress.resolver other with outstanding := remaining } :=
  (resolvers_deliver other.id).trans (if_pos same)

theorem resolver_deliver_of_ne {other : Resolver} (different : resolver.id ≠ other.id) :
    (resolver.deliver remaining descriptor number progress).resolver other =
      progress.resolver other :=
  (resolvers_deliver other.id).trans (if_neg different)

theorem answer?_taking (request : Request) :
    (resolver.taking remaining descriptor number progress).answer? request =
      if descriptor.request = request then some (.delivered number)
      else progress.answer? request := by
  rw [← (beside_recording descriptor number progress).answer? request]
  exact Progress.answer?_settle _ _ _ _

/-- A value that is taken is the answer to the request of the descriptor.  Besides, at
most the first pass is released. -/
theorem answer?_deliver (request : Request) :
    (resolver.deliver remaining descriptor number progress).answer? request =
      if descriptor.request = request then some (.delivered number)
      else if remaining = [] ∧ (progress.resolver resolver).firstPass = some request ∧
          progress.answer? request = none
      then some .released else progress.answer? request := by
  rw [deliver_eq, answer?_checkDone, answer?_taking, resolver_taking]
  by_cases same : descriptor.request = request
  · rw [if_pos same, if_pos same, if_neg]
    rintro ⟨_, _, unanswered⟩
    cases unanswered
  · rw [if_neg same, if_neg same]

end Resolver

namespace Progress

/-- Taking a value leaves requests in order. -/
theorem Tidy.taking {progress : Progress} (tidy : progress.Tidy) {resolver : Resolver}
    {before after : List Descriptor} {descriptor : Descriptor} (number : Number)
    (kept : (progress.resolver resolver).outstanding = before ++ descriptor :: after) :
    (resolver.taking (before ++ after) descriptor number progress).Tidy := by
  have recorded := Resolver.beside_recording descriptor number progress
  have same := recorded.resolver resolver
  have member : descriptor ∈ (progress.resolver resolver).outstanding := by
    rw [kept]
    exact List.mem_append_right _ List.mem_cons_self
  rcases tidy.pending resolver.id descriptor member with ⟨made, unanswered⟩
  have fewer : (before ++ after).Sublist (progress.resolver resolver).outstanding := by
    rw [kept]
    exact (List.Sublist.refl before).append (List.sublist_cons_self descriptor after)
  have tidied : ((Resolver.recording descriptor number progress).updateResolver resolver
      fun state => { state with outstanding := before ++ after }).Tidy := by
    refine (tidy.of_beside recorded).keep (by rw [same]; exact fewer) rfl ?_
    intro closed
    rw [same] at closed
    have none : (progress.resolver resolver).outstanding = [] := tidy.closed resolver.id closed
    rw [kept] at none
    exact absurd none (List.append_ne_nil_of_right_ne_nil _ (List.cons_ne_nil _ _))
  refine tidied.settle ?_ ?_ ?_ _
  · exact recorded.requests ▸ made
  · exact (recorded.answer? _).trans unanswered
  · intro id further memberToo clash
    rw [resolvers_updateResolver, recorded.resolvers] at memberToo
    split at memberToo
    · exact tidy.request_ne kept further memberToo clash.symm
    · rename_i elsewhere
      exact elsewhere (tidy.apart resolver.id id descriptor member further memberToo clash.symm)

end Progress
end DiceNotation
