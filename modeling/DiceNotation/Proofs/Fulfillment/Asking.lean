import DiceNotation.Proofs.Fulfillment.FirstPass
import DiceNotation.Proofs.Fulfillment.Handing

namespace DiceNotation

/-!
# Asking and closing

A resolver that asks makes new requests behind those that it has, and leaves these as
they were.  When it is closed, all of its requests are cancelled that are unanswered
and nothing is outstanding any more.  Both keep requests in order.
-/

namespace Progress

/-! ## Asking -/

/-- Nothing but new requests, and the end of first passes. -/
structure Forward (before after : Progress) : Prop where
  tidy : after.Tidy
  answers : ∀ request answer, before.answer? request = some answer →
    after.answer? request = some answer
  kept : ∀ id, ∀ descriptor ∈ (before.resolvers.get id).outstanding,
    descriptor ∈ (after.resolvers.get id).outstanding
  closed : ∀ id, (after.resolvers.get id).closed = (before.resolvers.get id).closed

namespace Forward

variable {progress later last : Progress} {resolver : Resolver}

theorem refl (tidy : progress.Tidy) : progress.Forward progress :=
  ⟨tidy, fun _ _ given => given, fun _ _ member => member, fun _ => rfl⟩

theorem trans (forward : progress.Forward later) (further : later.Forward last) :
    progress.Forward last where
  tidy := further.tidy
  answers request answer given := further.answers request answer (forward.answers request answer given)
  kept id descriptor member := further.kept id descriptor (forward.kept id descriptor member)
  closed id := (further.closed id).trans (forward.closed id)

theorem of_beside (tidy : progress.Tidy) (beside : progress.Beside later) :
    progress.Forward later where
  tidy := tidy.of_beside beside
  answers request answer given := (beside.answer? request).trans given
  kept id descriptor member := by rwa [beside.resolvers]
  closed id := by rw [beside.resolvers]

theorem add (tidy : progress.Tidy) (isOpen : (progress.resolver resolver).closed = false)
    (dice : Dice) (method : Json) (isNew reroll explode : Bool) :
    progress.Forward (resolver.add dice method isNew reroll explode progress).2 where
  tidy := tidy.add isOpen dice method isNew reroll explode
  answers _ _ given := given
  kept id descriptor member := by
    rw [resolvers_add]
    split
    · exact List.mem_append_left _ member
    · exact member
  closed id := by
    rw [resolvers_add]
    split <;> rfl

theorem isOpen_of (forward : progress.Forward later)
    (isOpen : (progress.resolver resolver).closed = false) :
    (later.resolver resolver).closed = false :=
  (forward.closed resolver.id).trans isOpen

theorem addMany (tidy : progress.Tidy) (isOpen : (progress.resolver resolver).closed = false)
    (dice : Dice) (method : Json) (count : Nat) :
    progress.Forward (resolver.addMany dice method count progress).2 := by
  induction count generalizing progress with
  | zero => exact refl tidy
  | succ count ih =>
    have first := add tidy isOpen dice method false false false
    exact first.trans (ih first.tidy (first.isOpen_of isOpen))

theorem addTerm (tidy : progress.Tidy) {dice : Dice} {requests : List Request}
    (asked : resolver.addTerm dice progress = .ok (requests, later)) : progress.Forward later := by
  unfold Resolver.addTerm at asked
  split at asked
  · cases asked
  · rename_i isOpen
    split at asked
    · cases asked
    · rename_i count _
      have whole := addMany tidy (Bool.eq_false_iff.2 isOpen) dice
        (progress.ledger.term dice.tag.id).method count
      rwa [Except.ok.inj asked] at whole

theorem addAll (tidy : progress.Tidy) (resolver : Resolver) (methods : MethodTable)
    (dice : List Dice) : progress.Forward (resolver.addAll methods dice progress).2 := by
  induction dice generalizing progress with
  | nil => exact refl tidy
  | cons first rest ih =>
    unfold Resolver.addAll
    simp only
    split
    · split
      · exact refl tidy
      · split
        · split
          · exact refl tidy
          · rename_i asked
            have here := addTerm tidy asked
            exact here.trans (ih here.tidy)
        · exact ih tidy
    · exact ih tidy

theorem settle (tidy : progress.Tidy) {request : Request} (made : request < progress.requests)
    (unanswered : progress.answer? request = none)
    (free : ∀ id, ∀ descriptor ∈ (progress.resolvers.get id).outstanding,
      descriptor.request ≠ request) (answer : Answer) :
    progress.Forward (progress.settle request answer) where
  tidy := tidy.settle made unanswered free answer
  answers other given was := by
    have different : request ≠ other := by
      rintro rfl
      cases unanswered.symm.trans was
    rwa [answer?_settle_of_ne different]
  kept _ _ member := member
  closed _ := rfl

theorem checkDone (tidy : progress.Tidy) (resolver : Resolver) :
    progress.Forward (resolver.checkDone progress).2 := by
  unfold Resolver.checkDone
  simp only
  split
  · exact refl tidy
  · split
    · exact refl tidy
    · rename_i request expected
      rcases tidy.firstPass resolver.id request expected with ⟨made, free⟩
      split
      · exact refl tidy
      · rename_i unanswered
        exact settle tidy made unanswered free .released

theorem expect (tidy : progress.Tidy) (resolver : Resolver) :
    progress.Forward (progress.ask.2.updateResolver resolver fun state =>
      { state with firstPass := some progress.requests }) where
  tidy := tidy.expect resolver
  answers _ _ given := given
  kept id descriptor member := by
    rw [resolvers_updateResolver]
    split <;> exact member
  closed id := by
    rw [resolvers_updateResolver]
    split <;> rfl

/-- The first pass asks, up to where it waits. -/
theorem firstPass (tidy : progress.Tidy) (resolver : Resolver) (methods : MethodTable) :
    progress.Forward (resolver.firstPass methods progress).progress := by
  have asked := addAll tidy resolver methods resolver.roll.dice
  have passes := resolver.passes_firstPass methods progress
  generalize resolver.firstPass methods progress = step at passes
  cases passes with
  | closed => exact refl tidy
  | failed _ all => rwa [all] at asked
  | ended _ all =>
    rw [all] at asked
    exact asked.trans (checkDone asked.tidy resolver)
  | waiting _ all =>
    rw [all] at asked
    exact asked.trans (expect asked.tidy resolver)

theorem resolve (tidy : progress.Tidy) (resolver : Resolver) (dice : Dice) (method : Json)
    (reroll explode : Bool) :
    progress.Forward (resolver.resolve dice method reroll explode progress).progress := by
  unfold Resolver.resolve
  split
  · exact refl tidy
  · rename_i isOpen
    exact add tidy (Bool.eq_false_iff.2 isOpen) dice method true reroll explode

end Forward

/-! ## Closing -/

section

variable {progress : Progress} {resolver : Resolver}

/-- The progress in which a resolver is closed, before its requests are cancelled. -/
def emptied (progress : Progress) (resolver : Resolver) : Progress :=
  progress.updateResolver resolver fun state => { state with outstanding := [], closed := true }

/-- The requests that are cancelled when a resolver is closed. -/
def dropped (progress : Progress) (resolver : Resolver) : List Request :=
  (progress.resolver resolver).outstanding.map (·.request) ++
    (progress.resolver resolver).firstPass.toList

theorem close_of_closed (closed : (progress.resolver resolver).closed = true) :
    resolver.close progress = progress := by
  unfold Resolver.close
  simp only [closed, if_true]

theorem close_of_open (isOpen : (progress.resolver resolver).closed = false) :
    (Resolver.cancel (progress.emptied resolver) (progress.dropped resolver)).Beside
      (resolver.close progress) := by
  unfold Resolver.close
  simp only [isOpen, Bool.false_eq_true, if_false]
  split <;> exact ⟨rfl, rfl, rfl, rfl⟩

theorem resolvers_close (isOpen : (progress.resolver resolver).closed = false) (id : Nat) :
    (resolver.close progress).resolvers.get id =
      if resolver.id = id then
        { progress.resolvers.get id with outstanding := [], closed := true }
      else progress.resolvers.get id := by
  rw [(close_of_open isOpen).resolvers, resolvers_cancel]
  exact resolvers_updateResolver _ _ _ _

theorem answer?_close (isOpen : (progress.resolver resolver).closed = false) (request : Request) :
    (resolver.close progress).answer? request =
      if request ∈ progress.dropped resolver ∧ progress.answer? request = none
      then some .cancelled else progress.answer? request := by
  rw [(close_of_open isOpen).answer?, answer?_cancel]
  rfl

theorem resolver_close_of_ne (isOpen : (progress.resolver resolver).closed = false)
    {other : Resolver} (different : resolver.id ≠ other.id) :
    (resolver.close progress).resolver other = progress.resolver other :=
  (resolvers_close isOpen other.id).trans (if_neg different)

theorem closed_close (progress : Progress) (resolver : Resolver) :
    ((resolver.close progress).resolver resolver).closed = true := by
  cases state : (progress.resolver resolver).closed with
  | true => rw [close_of_closed state, state]
  | false =>
    change ((resolver.close progress).resolvers.get resolver.id).closed = true
    rw [resolvers_close state, if_pos rfl]

theorem Tidy.close (tidy : progress.Tidy) (resolver : Resolver) : (resolver.close progress).Tidy := by
  cases state : (progress.resolver resolver).closed with
  | true => rwa [close_of_closed state]
  | false =>
    have emptied : (progress.emptied resolver).Tidy :=
      tidy.keep (List.nil_sublist _) rfl fun _ => rfl
    have kept {id : Nat} {descriptor : Descriptor}
        (member : descriptor ∈ ((progress.emptied resolver).resolvers.get id).outstanding) :
        descriptor ∈ (progress.resolvers.get id).outstanding ∧ resolver.id ≠ id := by
      rw [Progress.emptied, resolvers_updateResolver] at member
      split at member
      · exact absurd member List.not_mem_nil
      · rename_i elsewhere
        exact ⟨member, elsewhere⟩
    refine (emptied.cancel ?_ ?_).of_beside (close_of_open state)
    · intro request member
      rcases List.mem_append.1 member with outstanding | first
      · rcases List.mem_map.1 outstanding with ⟨descriptor, inside, rfl⟩
        exact (tidy.pending resolver.id descriptor inside).1
      · exact (tidy.firstPass resolver.id request (Option.mem_toList.1 first)).1
    · intro request member id descriptor memberToo same
      rcases kept memberToo with ⟨outstanding, elsewhere⟩
      rcases List.mem_append.1 member with here | first
      · rcases List.mem_map.1 here with ⟨further, inside, rfl⟩
        exact elsewhere (tidy.apart resolver.id id further inside descriptor outstanding same.symm)
      · exact (tidy.firstPass resolver.id request (Option.mem_toList.1 first)).2 id descriptor
          outstanding same

end

end Progress
end DiceNotation
