import DiceNotation.Proofs.Fulfillment.Asking
import DiceNotation.Proofs.Fulfillment.Sharing

namespace DiceNotation

/-!
# The load of dice

The results that dice have and those that a resolver waits for are their load.  A value
that is handed in does not add to it, since it ends the wait for it.  A resolver that asks
for dice in advance looks only at the results that they have.  If it waits for none of
theirs, the load is their number at most afterwards; otherwise it may be more.
-/

namespace Progress

variable {progress later : Progress} {resolver : Resolver} {id : Identity} {n : Nat}

/-- How many results dice have, together with those that a resolver waits for. -/
def load (progress : Progress) (resolver : Resolver) (id : Identity) : Nat :=
  (progress.ledger.outcomes id).length +
    (progress.resolver resolver).outstanding.countP (·.dice.tag.id == id)

/-- Nobody waits for results of dice. -/
def Free (id : Identity) (progress : Progress) : Prop :=
  ∀ other, ∀ descriptor ∈ (progress.resolvers.get other).outstanding, descriptor.dice.tag.id ≠ id

/-- The load of dice is not above a number, and only one resolver waits for any of them. -/
structure Within (resolver : Resolver) (id : Identity) (n : Nat) (progress : Progress) : Prop where
  elsewhere : ∀ other, resolver.id ≠ other →
    ∀ descriptor ∈ (progress.resolvers.get other).outstanding, descriptor.dice.tag.id ≠ id
  load : progress.load resolver id ≤ n

theorem Free.of_subset (free : progress.Free id)
    (fewer : ∀ other, (later.resolvers.get other).outstanding ⊆
      (progress.resolvers.get other).outstanding) : later.Free id :=
  fun other descriptor member => free other descriptor (fewer other member)

theorem Free.countP (free : progress.Free id) (resolver : Resolver) :
    (progress.resolver resolver).outstanding.countP (·.dice.tag.id == id) = 0 :=
  List.countP_eq_zero.2 fun descriptor member same =>
    free resolver.id descriptor member (beq_iff_eq.1 same)

/-- Where nobody waits for results, those that there are make up the load. -/
theorem Free.within (free : progress.Free id)
    (enough : (progress.ledger.outcomes id).length ≤ n) : progress.Within resolver id n where
  elsewhere other _ := free other
  load := by
    unfold Progress.load
    rw [free.countP resolver]
    exact enough

/-- To ask for dice changes nothing about other resolvers. -/
theorem resolvers_addMany_of_ne {other : Nat} (different : resolver.id ≠ other) {dice : Dice}
    {method : Json} {count : Nat} :
    (resolver.addMany dice method count progress).2.resolvers.get other =
      progress.resolvers.get other := by
  induction count generalizing progress with
  | zero => rfl
  | succ count ih =>
    have first : (resolver.add dice method false false false progress).2.resolvers.get other =
        progress.resolvers.get other := (resolvers_add ..).trans (if_neg different)
    exact ih.trans first

/-- What is outstanding after dice were asked for was outstanding before, or is for these. -/
theorem mem_addMany {dice : Dice} {method : Json} {count other : Nat} {descriptor : Descriptor}
    (member : descriptor ∈
      ((resolver.addMany dice method count progress).2.resolvers.get other).outstanding) :
    descriptor ∈ (progress.resolvers.get other).outstanding ∨ descriptor.dice = dice := by
  induction count generalizing progress with
  | zero => exact .inl member
  | succ count ih =>
    rcases ih member with first | new
    · change descriptor ∈ ((resolver.add dice method false false false progress).2.resolvers.get
        other).outstanding at first
      rw [resolvers_add] at first
      split at first
      · rcases List.mem_append.1 first with before | new
        · exact .inl before
        · cases List.mem_singleton.1 new
          exact .inr rfl
      · exact .inl first
    · exact .inr new

/-- To ask for dice is to ask for a number of results. -/
theorem addTerm_eq_ok {dice : Dice} {requests : List Request}
    (asked : resolver.addTerm dice progress = .ok (requests, later)) : ∃ method count,
    Resolver.missing progress.ledger dice = .ok count ∧
    later = (resolver.addMany dice method count progress).2 := by
  unfold Resolver.addTerm at asked
  split at asked
  · cases asked
  · split at asked
    · cases asked
    · rename_i count counted
      exact ⟨_, count, counted, (congrArg Prod.snd (Except.ok.inj asked)).symm⟩

theorem mem_addTerm {dice : Dice} {requests : List Request}
    (asked : resolver.addTerm dice progress = .ok (requests, later)) {other : Nat}
    {descriptor : Descriptor} (member : descriptor ∈ (later.resolvers.get other).outstanding) :
    descriptor ∈ (progress.resolvers.get other).outstanding ∨ descriptor.dice = dice := by
  rcases addTerm_eq_ok asked with ⟨method, count, _, rfl⟩
  exact mem_addMany member

theorem Free.addTerm (free : progress.Free id) {dice : Dice} {requests : List Request}
    (asked : resolver.addTerm dice progress = .ok (requests, later))
    (different : dice.tag.id ≠ id) : later.Free id := by
  intro other descriptor member
  rcases mem_addTerm asked member with before | rfl
  · exact free other descriptor before
  · exact different

namespace Within

theorem length_le (within : progress.Within resolver id n) :
    (progress.ledger.outcomes id).length ≤ n :=
  Nat.le_trans (Nat.le_add_right _ _) within.load

/-- The resolver waits for nothing at all, so that nobody waits for results of the dice. -/
theorem free (within : progress.Within resolver id n)
    (none : (progress.resolver resolver).outstanding = []) : progress.Free id := by
  intro other descriptor member
  by_cases own : resolver.id = other
  · subst own
    change descriptor ∈ (progress.resolver resolver).outstanding at member
    rw [none] at member
    exact absurd member List.not_mem_nil
  · exact within.elsewhere other own descriptor member

/-- There are no more results than before, and fewer are waited for. -/
theorem fewer (within : progress.Within resolver id n)
    (same : (later.ledger.outcomes id).length ≤ (progress.ledger.outcomes id).length)
    (less : ∀ other, (later.resolvers.get other).outstanding.Sublist
      (progress.resolvers.get other).outstanding) : later.Within resolver id n where
  elsewhere other different descriptor member :=
    within.elsewhere other different descriptor ((less other).subset member)
  load := Nat.le_trans (Nat.add_le_add same (less resolver.id).countP_le) within.load

theorem of_same (within : progress.Within resolver id n) (ledger : later.ledger = progress.ledger)
    (resolvers : later.resolvers = progress.resolvers) : later.Within resolver id n :=
  within.fewer (ledger ▸ Nat.le_refl _) fun _ => resolvers ▸ .refl _

theorem checkDone (within : progress.Within resolver id n) :
    (resolver.checkDone progress).2.Within resolver id n :=
  within.of_same (resolver.ledger_checkDone progress) (resolver.resolvers_checkDone progress)

theorem expecting (within : progress.Within resolver id n) :
    (resolver.expecting progress).Within resolver id n := by
  refine within.fewer (Nat.le_refl _) fun other => ?_
  unfold Resolver.expecting
  rw [resolvers_updateResolver]
  split <;> exact .refl _

theorem close (within : progress.Within resolver id n) :
    (resolver.close progress).Within resolver id n := by
  refine within.fewer ?_ fun other => ?_
  · exact Nat.le_of_eq (by rw [resolver.ledger_close])
  · cases state : (progress.resolver resolver).closed with
    | true => rw [close_of_closed state]
    | false =>
      rw [resolvers_close state]
      split
      · exact List.nil_sublist _
      · exact .refl _

/-! ## Handing in -/

/-- A value that is taken adds at most the result that is not waited for any more. -/
theorem deliver (within : progress.Within resolver id n) {method denomination : Json}
    {number : Number} {front back : List Descriptor} {descriptor : Descriptor}
    (takes : resolver.Takes method denomination number progress front descriptor back) :
    (resolver.deliver (front ++ back) descriptor number progress).Within resolver id n where
  elsewhere other different := by
    rw [Resolver.resolvers_deliver, if_neg different]
    exact within.elsewhere other different
  load := by
    let here := if descriptor.dice.tag.id == id then 1 else 0
    have waited : (progress.resolver resolver).outstanding.countP (·.dice.tag.id == id) =
        (front ++ back).countP (·.dice.tag.id == id) + here := by
      rw [takes.kept, List.countP_append, List.countP_cons, List.countP_append]
      exact (Nat.add_assoc _ _ _).symm
    have grown : ((resolver.deliver (front ++ back) descriptor number progress).ledger.outcomes
        id).length ≤ (progress.ledger.outcomes id).length + here := by
      rw [Resolver.ledger_deliver]
      split
      · exact Nat.le_add_right _ _
      · unfold Resolver.addOutcome Ledger.outcomes
        rw [Ledger.term_updateTerm]
        split
        · rename_i same
          have one : here = 1 := if_pos (beq_iff_eq.2 same)
          rw [List.length_append, same, one]
          exact Nat.le_refl _
        · exact Nat.le_add_right _ _
    have before := within.load
    unfold Progress.load at before ⊢
    rw [Resolver.resolver_deliver rfl]
    rw [waited] at before
    change _ + (front ++ back).countP _ ≤ n
    omega

theorem register (within : progress.Within resolver id n) {method denomination value : Json}
    {accepted : Bool}
    (handed : resolver.register method denomination value progress = .ok (accepted, later)) :
    later.Within resolver id n := by
  rcases Resolver.register_eq_ok handed with
    ⟨_, number, front, descriptor, back, _, takes, rfl⟩ | ⟨_, rfl | ⟨level, text, rfl⟩⟩
  · exact within.deliver takes
  · exact within
  · exact within.of_same rfl rfl

/-! ## Asking -/

theorem addMany (within : progress.Within resolver id n) {dice : Dice} (method : Json)
    {count : Nat} (room : dice.tag.id = id → progress.load resolver id + count ≤ n) :
    (resolver.addMany dice method count progress).2.Within resolver id n := by
  rcases resolver.outstanding_addMany dice method count progress with ⟨asked, kept, are, _⟩
  have counted : asked.countP (·.dice.tag.id == id) = if dice.tag.id = id then count else 0 := by
    have whole : (asked.map (·.dice)).countP (·.tag.id == id) =
        asked.countP (·.dice.tag.id == id) := List.countP_map
    rw [← whole, are, List.countP_replicate]
    simp only [beq_iff_eq]
  constructor
  · intro other different
    rw [resolvers_addMany_of_ne different]
    exact within.elsewhere other different
  · have before := within.load
    unfold Progress.load at before room ⊢
    rw [kept, resolver.ledger_addMany, List.countP_append, counted]
    split
    · rename_i same
      have := room same
      omega
    · exact before

/-- Other dice may be asked for at any time, and the dice themselves if nobody waits for
results of theirs. -/
theorem addTerm (within : progress.Within resolver id n) {dice : Dice} {requests : List Request}
    (asked : resolver.addTerm dice progress = .ok (requests, later))
    (may : dice.tag.id = id → dice.number = .known n ∧ progress.Free id) :
    later.Within resolver id n := by
  rcases addTerm_eq_ok asked with ⟨method, count, counted, rfl⟩
  refine within.addMany _ fun same => ?_
  rcases may same with ⟨numbered, free⟩
  have enough := within.length_le
  unfold Resolver.missing at counted
  rw [numbered, same] at counted
  have counted : ((n : Int) - ((progress.ledger.outcomes id).length : Int)).toNat = count :=
    Except.ok.inj counted
  unfold Progress.load
  rw [free.countP resolver]
  omega

/-- The dice of a roll are told apart by their identities, so that none is asked for twice. -/
theorem addAll (within : progress.Within resolver id n) (methods : MethodTable) {row : List Dice}
    (numbered : ∀ dice ∈ row, dice.tag.id = id → dice.number = .known n)
    (distinct : (row.map (·.tag.id)).Nodup) (free : id ∈ row.map (·.tag.id) → progress.Free id) :
    (resolver.addAll methods row progress).2.Within resolver id n := by
  induction row generalizing progress with
  | nil => exact within
  | cons first rest ih =>
    rcases List.forall_mem_cons.1 numbered with ⟨here, others⟩
    rcases List.nodup_cons.1 distinct with ⟨apart, distinct⟩
    have skipped := ih within others distinct fun member => free (List.mem_cons_of_mem _ member)
    unfold Resolver.addAll
    simp only
    split
    · split
      · exact within
      · split
        · split
          · exact within
          · rename_i requests between asked
            have added := within.addTerm asked fun same =>
              ⟨here same, free (List.mem_map.2 ⟨first, List.mem_cons_self, same⟩)⟩
            refine ih added others distinct fun member => ?_
            have different : first.tag.id ≠ id := by
              rintro rfl
              exact apart member
            exact (free (List.mem_cons_of_mem _ member)).addTerm asked different
        · exact skipped
    · exact skipped

end Within
end Progress
end DiceNotation
