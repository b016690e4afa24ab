import DiceNotation.Proofs.Fulfillment.Schedules
import DiceNotation.Proofs.Roll.Made

namespace DiceNotation

/-!
# Matching values with descriptors

A value that is handed in for a method and a kind of dice is offered to the earliest
descriptor of that kind alone.  This loses nothing: all dice of one kind can show the
same values, so that if any of them could take the value, the earliest can.
-/

/-! ## Descriptors of a kind -/

/-- Whether a descriptor is of a method and a kind of dice. -/
def Descriptor.IsOf (ledger : Ledger) (method denomination : Json) (descriptor : Descriptor) :
    Prop :=
  descriptor.method.same method = true ∧
    ∃ key, ledger.denomination descriptor.dice = .ok key ∧ denomination.same (.string key) = true

namespace Resolver

variable {ledger : Ledger} {method denomination : Json} {descriptor other : Descriptor}

/-- A text is equal to a key only if it is the key. -/
theorem eq_of_same_key {key : String} (same : denomination.same (.string key) = true) :
    denomination = .string key := by
  cases denomination with
  | string text =>
    change (text == key) = true at same
    rw [beq_iff_eq.1 same]
  | _ => cases same

theorem isOf_of_fits (fit : fits ledger method denomination descriptor = .ok true) :
    descriptor.IsOf ledger method denomination := by
  unfold fits at fit
  split at fit
  · rename_i same
    cases named : ledger.denomination descriptor.dice with
    | error fault =>
      rw [named] at fit
      cases fit
    | ok key =>
      rw [named] at fit
      exact ⟨same, key, named, Except.ok.inj fit⟩
  · cases fit

theorem fits_of_isOf (is : descriptor.IsOf ledger method denomination) :
    fits ledger method denomination descriptor = .ok true := by
  rcases is with ⟨same, key, named, denoted⟩
  unfold fits
  rw [if_pos same, named]
  exact congrArg Except.ok denoted

/-- Whether the descriptor of ranged dice fits is never a fault. -/
theorem fits_eq_ok (method denomination : Json) (ranged : descriptor.dice.IsRanged ledger) :
    ∃ fit, fits ledger method denomination descriptor = .ok fit := by
  unfold fits
  split
  · rcases ranged.shows with ⟨key, _, _, _, shown⟩
    rw [shown.key]
    exact ⟨_, rfl⟩
  · exact ⟨_, rfl⟩

theorem findDescriptor_eq_ok (method denomination : Json) {outstanding : List Descriptor}
    (ranged : ∀ descriptor ∈ outstanding, descriptor.dice.IsRanged ledger) :
    ∃ found, findDescriptor ledger method denomination outstanding = .ok found := by
  induction outstanding with
  | nil => exact ⟨none, rfl⟩
  | cons first rest ih =>
    rcases List.forall_mem_cons.1 ranged with ⟨here, later⟩
    rcases fits_eq_ok method denomination here with ⟨fit, known⟩
    rcases ih later with ⟨found, search⟩
    unfold findDescriptor
    rw [known]
    cases fit with
    | true => exact ⟨_, rfl⟩
    | false =>
      simp only
      rw [search]
      rcases found with _ | ⟨before, descriptor, after⟩
      · exact ⟨_, rfl⟩
      · exact ⟨_, rfl⟩

/-- All descriptors of a method and a kind are for dice that show the same values. -/
theorem accepts_of_isOf (ranged : descriptor.dice.IsRanged ledger)
    (rangedToo : other.dice.IsRanged ledger) (is : descriptor.IsOf ledger method denomination)
    (isToo : other.IsOf ledger method denomination) (value : Json) :
    ledger.accepts descriptor.dice value = ledger.accepts other.dice value := by
  rcases is with ⟨_, key, named, denoted⟩
  rcases isToo with ⟨_, further, namedToo, denotedToo⟩
  cases (eq_of_same_key denoted).symm.trans (eq_of_same_key denotedToo)
  exact ranged.accepts_congr rangedToo (named.trans namedToo.symm) value

/-- Whether a descriptor is outstanding, is of a method and a kind, and its die can show
a value. -/
structure Matches (resolver : Resolver) (method denomination value : Json) (progress : Progress)
    (descriptor : Descriptor) : Prop where
  outstanding : descriptor ∈ (progress.resolver resolver).outstanding
  isOf : descriptor.IsOf progress.ledger method denomination
  canShow : progress.ledger.accepts descriptor.dice value = .ok true

/-- What changes when a descriptor takes a number, and that nothing else changes. -/
structure Settles (resolver : Resolver) (descriptor : Descriptor) (number : Number)
    (before after : Progress) : Prop where
  removed : ∃ front back, (before.resolver resolver).outstanding = front ++ descriptor :: back ∧
    (after.resolver resolver).outstanding = front ++ back
  pending : before.answer? descriptor.request = none
  settled : after.answer? descriptor.request = some (.delivered number)
  /-- At most, the first pass ends. -/
  answers : ∀ request ≠ descriptor.request, after.answer? request = before.answer? request ∨
    (before.resolver resolver).firstPass = some request ∧ before.answer? request = none ∧
      after.answer? request = some .released
  elsewhere : ∀ other : Resolver, other.id ≠ resolver.id →
    after.resolver other = before.resolver other
  ledger : after.ledger = if descriptor.isNew then before.ledger
    else addOutcome before.ledger descriptor.dice (.number number)

variable {resolver : Resolver} {progress : Progress} {value : Json}

theorem Takes.settles {number : Number} {before after : List Descriptor} (tidy : progress.Tidy)
    (takes : resolver.Takes method denomination number progress before descriptor after) :
    resolver.Settles descriptor number progress
      (resolver.deliver (before ++ after) descriptor number progress) where
  removed := ⟨before, after, takes.kept, by rw [resolver_deliver rfl]⟩
  pending := by
    refine (tidy.pending resolver.id descriptor ?_).2
    change descriptor ∈ (progress.resolver resolver).outstanding
    rw [takes.kept]
    exact List.mem_append_right _ List.mem_cons_self
  settled := by rw [answer?_deliver, if_pos rfl]
  answers request different := by
    rw [answer?_deliver, if_neg (Ne.symm different)]
    split
    · rename_i released
      exact .inr ⟨released.2.1, released.2.2, rfl⟩
    · exact .inl rfl
  elsewhere _ different := resolver_deliver_of_ne (Ne.symm different)
  ledger := ledger_deliver

/-- What is found is the earliest descriptor of its method and kind. -/
theorem Takes.earliest {number : Number} {before after : List Descriptor} (tidy : progress.Tidy)
    (takes : resolver.Takes method denomination number progress before descriptor after)
    (member : other ∈ (progress.resolver resolver).outstanding)
    (is : other.IsOf progress.ledger method denomination) :
    descriptor.request ≤ other.request := by
  have ordered : ((progress.resolver resolver).outstanding.map (·.request)).Pairwise (· < ·) :=
    tidy.ordered resolver.id
  rcases findDescriptor_eq_some takes.found with ⟨kept, _, unfits⟩
  rw [kept] at member ordered
  rcases List.mem_append.1 member with first | rest
  · cases (fits_of_isOf is).symm.trans (unfits other first)
  · rcases List.mem_cons.1 rest with rfl | last
    · exact Nat.le_refl _
    · have behind := (List.pairwise_append.1 (List.pairwise_map.1 ordered)).2.1
      exact Nat.le_of_lt ((List.pairwise_cons.1 behind).1 other last)

/-- While it is known of all dice that are outstanding which values they can show, a value
is never a fault. -/
theorem register_eq_ok_of_ranged (ranged : progress.Ranged) (method denomination value : Json) :
    ∃ accepted later,
      resolver.register method denomination value progress = .ok (accepted, later) := by
  have dice : ∀ descriptor ∈ (progress.resolver resolver).outstanding,
      descriptor.dice.IsRanged progress.ledger := ranged.dice resolver.id
  unfold register
  simp only
  split
  · exact ⟨_, _, rfl⟩
  · rcases findDescriptor_eq_ok method denomination dice with ⟨found, search⟩
    rw [search]
    rcases found with _ | ⟨before, descriptor, after⟩
    · exact ⟨_, _, rfl⟩
    · have member := mem_of_findDescriptor search
      rcases (dice descriptor member).shows with ⟨_, _, _, _, shown⟩
      simp only [bind, Except.bind, shown.accepts]
      split <;> exact ⟨_, _, rfl⟩

/-- A value that could be taken is taken. -/
theorem accepted_of_matches (ranged : progress.Ranged)
    (isOpen : (progress.resolver resolver).closed = false)
    (matching : resolver.Matches method denomination value progress other) {accepted : Bool}
    {later : Progress}
    (handed : resolver.register method denomination value progress = .ok (accepted, later)) :
    accepted = true := by
  have dice : ∀ descriptor ∈ (progress.resolver resolver).outstanding,
      descriptor.dice.IsRanged progress.ledger := ranged.dice resolver.id
  rcases findDescriptor_eq_ok method denomination dice with ⟨found, search⟩
  rcases found with _ | ⟨before, descriptor, after⟩
  · cases (fits_of_isOf matching.isOf).symm.trans
      (findDescriptor_eq_none search other matching.outstanding)
  · rcases findDescriptor_eq_some search with ⟨_, fit, _⟩
    have canShow := matching.canShow
    rw [← accepts_of_isOf (dice descriptor (mem_of_findDescriptor search))
      (dice other matching.outstanding) (isOf_of_fits fit) matching.isOf] at canShow
    cases value with
    | number n =>
      have takes : resolver.Takes method denomination n progress before descriptor after :=
        ⟨isOpen, search, canShow⟩
      exact (congrArg Prod.fst (Except.ok.inj (takes.register.symm.trans handed))).symm
    | _ => cases canShow

/-- Matching is exact and first come, first served.  Whatever happens to a roll and its
resolver, a value that is handed in is never a fault.  It is taken exactly when the
resolver is open and some outstanding descriptor of its method and kind is for a die that
can show it.  Then the earliest of the descriptors of that method and kind takes it: it
is not outstanding any more, its request is answered with the value, and the value is an
outcome of its die exactly when the descriptor is not one of an evaluation that waits for
it.  A value that is not taken changes no descriptor, no answer and no term. -/
theorem register_takes_earliest {setup : Setup} {input : Build.RollInput} {before made : Ledger}
    (built : Build.ofFormula setup input before = .ok (resolver.roll, made)) {ledger : Ledger}
    {schedule : Schedule}
    (reaches : Schedule.Reaches resolver (.ofProgress (.ofLedger ledger)) schedule)
    (method denomination value : Json) :
    ∃ accepted later,
      resolver.register method denomination value schedule.progress = .ok (accepted, later) ∧
      (accepted = true ↔ (schedule.progress.resolver resolver).closed = false ∧
        ∃ descriptor, resolver.Matches method denomination value schedule.progress descriptor) ∧
      (accepted = true → ∃ descriptor number, value = .number number ∧
        resolver.Matches method denomination value schedule.progress descriptor ∧
        (∀ other ∈ (schedule.progress.resolver resolver).outstanding,
          other.IsOf schedule.progress.ledger method denomination →
            descriptor.request ≤ other.request) ∧
        resolver.Settles descriptor number schedule.progress later) ∧
      (accepted = false → later.ledger = schedule.progress.ledger ∧
        schedule.progress.Beside later) := by
  have isMade := Build.ofFormula_isMade built
  have sound : resolver.roll.HasSoundDice := by
    refine RowThroughout.imp isMade.spans.1 ?_ (fun _ _ _ _ => trivial) isMade.row
    rintro term _ _ restorable dice rfl
    exact restorable.sound
  have ranged := (reaches.orderly sound (.ofLedger _ ledger)).ranged
  rcases register_eq_ok_of_ranged ranged method denomination value with ⟨accepted, later, handed⟩
  refine ⟨accepted, later, handed, ?_⟩
  rcases register_eq_ok handed with
    ⟨rfl, number, front, descriptor, back, rfl, takes, rfl⟩ | ⟨rfl, kept⟩
  · have found : resolver.Matches method denomination (.number number) schedule.progress
        descriptor :=
      ⟨mem_of_findDescriptor takes.found, isOf_of_fits (findDescriptor_eq_some takes.found).2.1,
        takes.accepted⟩
    refine ⟨⟨fun _ => ⟨takes.isOpen, descriptor, found⟩, fun _ => rfl⟩, fun _ => ?_, nofun⟩
    exact ⟨descriptor, number, rfl, found, fun other member => takes.earliest ranged.tidy member,
      takes.settles ranged.tidy⟩
  · refine ⟨⟨nofun, fun ⟨isOpen, other, matching⟩ => ?_⟩, nofun, fun _ => ?_⟩
    · exact accepted_of_matches ranged isOpen matching handed
    · rcases kept with rfl | ⟨level, text, rfl⟩
      · exact ⟨rfl, rfl, rfl, rfl, rfl⟩
      · exact ⟨rfl, rfl, rfl, rfl, rfl⟩

/-- A resolver for two dice and a third one of another kind, before anything was asked. -/
def forThree : Except Fault (Resolver × Progress) :=
  (Build.ofFormula Build.usual { formula := "2d6 + 1d20", method := .string "manual" } .empty).map
    fun (roll, made) => (⟨0, roll⟩, .ofLedger made)

/-- The schedule in which the evaluation of the roll waits for all three dice. -/
def waitingForThree (resolver : Resolver) (start : Progress) : Schedule :=
  (Schedule.ofProgress start).evaluate {}
    { setup := Build.usual, synchronous := false, uniform := fun _ => 0, resolver := some resolver }
    resolver.roll

/-- The third of three dice takes the first value, since it is of another kind. -/
theorem register_takes_earliest_of_three : ∃ resolver start later descriptor,
    forThree = .ok (resolver, start) ∧
    Schedule.Reaches resolver (.ofProgress start) (waitingForThree resolver start) ∧
    resolver.register (.string "manual") (.string "d20") (.ofNat 7)
      (waitingForThree resolver start).progress = .ok (true, later) ∧
    resolver.Settles descriptor (.int 7) (waitingForThree resolver start).progress later := by
  have computed : (match forThree with
      | .error _ => false
      | .ok (resolver, start) =>
        match resolver.register (.string "manual") (.string "d20") (.ofNat 7)
          (waitingForThree resolver start).progress with
        | .ok (accepted, _) => accepted
        | .error _ => false) = true := by decide +kernel
  cases built : Build.ofFormula Build.usual
      { formula := "2d6 + 1d20", method := .string "manual" } .empty with
  | error fault =>
    rw [forThree, built] at computed
    cases computed
  | ok pair =>
    rcases pair with ⟨roll, made⟩
    let resolver : Resolver := ⟨0, roll⟩
    have given : forThree = .ok (resolver, .ofLedger made) := by
      rw [forThree, built]
      rfl
    rw [given] at computed
    have reaches : Schedule.Reaches resolver (.ofProgress (.ofLedger made))
        (waitingForThree resolver (.ofLedger made)) := by
      refine .single (.evaluate _ _ _ ?_)
      rintro _ ⟨⟩
      rfl
    rcases register_takes_earliest built reaches (.string "manual") (.string "d20") (.ofNat 7) with
      ⟨accepted, later, handed, _, takes, _⟩
    simp only [handed] at computed
    subst computed
    rcases takes rfl with ⟨descriptor, number, is, _, _, settles⟩
    cases is
    exact ⟨resolver, _, later, descriptor, given, reaches, handed, settles⟩

end Resolver
end DiceNotation
