import DiceNotation.Proofs.Fulfillment.Asking
import DiceNotation.Proofs.Fulfillment.Standing

namespace DiceNotation

/-!
# Asking in advance

A resolver that is asked for dice in advance adds the values that are handed in to their
results.  Such dice are among those of the roll of the resolver, and they have not been
evaluated when they are asked for.
-/

/-- Whether a die is outstanding that was asked for in advance and satisfies a condition. -/
def Progress.Early (P : Dice → Prop) (progress : Progress) : Prop :=
  ∃ id, ∃ descriptor ∈ (progress.resolvers.get id).outstanding,
    descriptor.isNew = false ∧ P descriptor.dice

/-- Nothing is outstanding if nothing is in any row of the table. -/
theorem Progress.outstanding_eq_nil {progress : Progress}
    (none : progress.resolvers.rows.all (·.outstanding.isEmpty) = true) (id : Nat) :
    (progress.resolvers.get id).outstanding = [] := by
  unfold Table.get
  cases found : progress.resolvers.rows[id]? with
  | none => rfl
  | some state =>
    have inside := Array.mem_of_getElem? found
    exact List.isEmpty_iff.1 (Array.all_eq_true_iff_forall_mem.1 none state inside)

namespace Progress.Early

variable {progress later : Progress} {resolver : Resolver} {dice : Dice} {P : Dice → Prop}

/-- Fewer dice may be outstanding than before. -/
theorem of_subset (early : later.Early P)
    (fewer : ∀ id, (later.resolvers.get id).outstanding ⊆ (progress.resolvers.get id).outstanding) :
    progress.Early P := by
  rcases early with ⟨id, descriptor, member, old, holds⟩
  exact ⟨id, descriptor, fewer id member, old, holds⟩

theorem of_resolvers (early : later.Early P)
    (same : later.resolvers = progress.resolvers) : progress.Early P :=
  early.of_subset fun _ => same ▸ List.Subset.refl _

theorem of_updateResolver {change : ResolverState → ResolverState}
    (early : (progress.updateResolver resolver change).Early P)
    (fewer : (change (progress.resolver resolver)).outstanding ⊆
      (progress.resolver resolver).outstanding) : progress.Early P := by
  refine early.of_subset fun id => ?_
  rw [resolvers_updateResolver]
  split
  · rename_i same
    subst same
    exact fewer
  · exact List.Subset.refl _

/-- One more die is outstanding, which may be asked for in advance or not. -/
theorem of_add {method : Json} {isNew reroll explode : Bool}
    (early : (resolver.add dice method isNew reroll explode progress).2.Early P) :
    progress.Early P ∨ isNew = false ∧ P dice := by
  rcases early with ⟨id, descriptor, member, old, holds⟩
  rw [resolvers_add] at member
  split at member
  · rcases List.mem_append.1 member with before | new
    · exact .inl ⟨id, descriptor, before, old, holds⟩
    · cases List.mem_singleton.1 new
      exact .inr ⟨old, holds⟩
  · exact .inl ⟨id, descriptor, member, old, holds⟩

theorem of_addMany {method : Json} {count : Nat}
    (early : (resolver.addMany dice method count progress).2.Early P) :
    progress.Early P ∨ count ≠ 0 ∧ P dice := by
  induction count generalizing progress with
  | zero => exact .inl early
  | succ count ih =>
    rcases ih early with before | ⟨_, same⟩
    · exact (of_add before).imp_right fun added => ⟨Nat.succ_ne_zero _, added.2⟩
    · exact .inr ⟨Nat.succ_ne_zero _, same⟩

/-- More dice of a term are asked for in advance only if there are too few results. -/
theorem of_addTerm {requests : List Request}
    (asked : resolver.addTerm dice progress = .ok (requests, later)) (early : later.Early P) :
    progress.Early P ∨ P dice ∧
      ∀ n : Nat, progress.ledger.amount dice.number = .ok (.ofInt n) →
        (progress.ledger.outcomes dice.tag.id).length < n := by
  unfold Resolver.addTerm at asked
  split at asked
  · cases asked
  · split at asked
    · cases asked
    · rename_i count counted
      have last := congrArg Prod.snd (Except.ok.inj asked)
      change (resolver.addMany _ _ _ _).2 = later at last
      rw [← last] at early
      refine (of_addMany early).imp_right fun added => ⟨added.2, fun n numbered => ?_⟩
      by_contra enough
      refine added.1 ?_
      unfold Resolver.missing at counted
      rw [numbered] at counted
      have counted : ((n : Int) - ((progress.ledger.outcomes dice.tag.id).length : Int)).toNat =
        count := Except.ok.inj counted
      omega

theorem of_checkDone (early : (resolver.checkDone progress).2.Early P) : progress.Early P :=
  early.of_resolvers (resolver.resolvers_checkDone progress)

theorem of_close (early : (resolver.close progress).Early P) : progress.Early P := by
  cases state : (progress.resolver resolver).closed with
  | true => rwa [Progress.close_of_closed state] at early
  | false =>
    refine early.of_subset fun id => ?_
    rw [Progress.resolvers_close state]
    split
    · exact List.nil_subset _
    · exact List.Subset.refl _

theorem of_expecting (early : (resolver.expecting progress).Early P) : progress.Early P := by
  have before : progress.ask.2.Early P := early.of_updateResolver (List.Subset.refl _)
  exact before.of_resolvers rfl

theorem of_register {method denomination value : Json} {accepted : Bool}
    (handed : resolver.register method denomination value progress = .ok (accepted, later))
    (early : later.Early P) : progress.Early P := by
  rcases Resolver.register_eq_ok handed with
    ⟨_, number, front, descriptor, back, _, takes, rfl⟩ | ⟨_, rfl | ⟨level, text, rfl⟩⟩
  · refine early.of_subset fun id => ?_
    rw [Resolver.resolvers_deliver]
    split
    · rename_i same
      subst same
      have kept : (progress.resolvers.get resolver.id).outstanding = _ := takes.kept
      rw [kept]
      exact ((List.sublist_cons_self descriptor back).append_left front).subset
    · exact List.Subset.refl _
  · exact early
  · exact early.of_resolvers rfl

/-- Nothing was asked for in advance where nothing is outstanding. -/
theorem nowhere (none : progress.resolvers.rows.all (·.outstanding.isEmpty) = true) :
    ¬progress.Early P := by
  rintro ⟨id, descriptor, member, _⟩
  exact List.not_mem_nil (outstanding_eq_nil none id ▸ member)

end Progress.Early

/-! ## Acts and moves -/

section

variable {scope : Scope} {P : Dice → Prop}

/-- An act asks in advance only for dice that have not been evaluated. -/
theorem Act.early {moment later : Moment} (sound : scope.IsSound) (act : Act scope moment later)
    (early : later.progress.Early P) :
    moment.progress.Early P ∨ ∃ dice, scope.term (.dice dice) ∧ P dice ∧
      (moment.progress.ledger.term dice.tag.id).phase ≠ .evaluated := by
  cases act with
  | aside only => exact .inl (early.of_resolvers only.resolvers)
  | ask isOpen method reroll explode =>
    exact .inl (early.of_add.resolve_right fun added => by cases added.1)
  | @book stack resolver dice progress last requests known member ready unfinished asked =>
    refine (early.of_addTerm asked).imp_right fun added => ?_
    refine ⟨dice, sound.asked resolver known dice member, added.1, fun done => ?_⟩
    exact Bool.false_ne_true (unfinished.symm.trans (beq_iff_eq.2 done))
  | release => exact .inl early.of_checkDone
  | expect => exact .inl early.of_expecting
  | close => exact .inl early.of_close
  | _ => exact .inl (early.of_resolvers rfl)

/-- So do others, since there are enough results of dice that have been evaluated. -/
theorem Board.Move.early {board later : Board} (sound : scope.IsSound)
    (move : Move scope board later) (stands : board.Stands scope)
    (early : later.progress.Early P) :
    board.progress.Early P ∨ ∃ dice, scope.term (.dice dice) ∧ P dice ∧
      (board.progress.ledger.term dice.tag.id).phase ≠ .evaluated := by
  cases move with
  | act act => exact act.early sound early
  | aside only => exact .inl (early.of_resolvers only.resolvers)
  | resolve => exact .inl (early.of_add.resolve_right fun added => by cases added.1)
  | @addTerm resolver dice progress last requests known member asked =>
    have within := sound.asked resolver known dice member
    refine (early.of_addTerm asked).imp_right fun added => ⟨dice, within, added.1, fun done => ?_⟩
    rcases stands.filled dice within done with ⟨n, numbered, enough⟩
    exact Nat.not_lt.2 enough (added.2 n numbered)
  | register known handed => exact .inl (early.of_register handed)
  | close => exact .inl early.of_close
  | _ => exact .inl early

end

end DiceNotation
