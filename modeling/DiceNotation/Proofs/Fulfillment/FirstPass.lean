import DiceNotation.Fulfillment.Resolver

namespace DiceNotation

/-!
# The first pass

A resolver that asks, checks whether it is done, or is closed, touches no ledger and takes
no uniform value.  Its first pass ends at once if it cannot ask for all dice, or if there is
nothing to wait for.  Otherwise it waits for one request, and ends when this is answered.
-/

/-- What has been rolled: the ledger, and how many uniform values have been taken. -/
def Progress.rolled (progress : Progress) : Ledger × Nat := (progress.ledger, progress.draws)

namespace Resolver

/-! ## Resolvers roll nothing by asking -/

theorem rolled_addMany (resolver : Resolver) (dice : Dice) (method : Json) (count : Nat)
    (progress : Progress) :
    (resolver.addMany dice method count progress).2.rolled = progress.rolled := by
  induction count generalizing progress with
  | zero => rfl
  | succ count ih => exact ih (resolver.add dice method false false false progress).2

theorem rolled_addTerm {resolver : Resolver} {dice : Dice} {progress later : Progress}
    {requests : List Request} (asked : resolver.addTerm dice progress = .ok (requests, later)) :
    later.rolled = progress.rolled := by
  unfold addTerm at asked
  split at asked
  · cases asked
  · split at asked
    · cases asked
    · rename_i count known
      have last := congrArg Prod.snd (Except.ok.inj asked)
      change _ = later at last
      rw [← last]
      exact rolled_addMany _ _ _ _ _

theorem rolled_addAll (resolver : Resolver) (methods : MethodTable) (dice : List Dice)
    (progress : Progress) : (resolver.addAll methods dice progress).2.rolled = progress.rolled := by
  induction dice generalizing progress with
  | nil => rfl
  | cons first rest ih =>
    unfold addAll
    simp only
    split
    · split
      · rfl
      · split
        · split
          · rfl
          · rename_i asked
            rw [ih, rolled_addTerm asked]
        · exact ih progress
    · exact ih progress

theorem rolled_checkDone (resolver : Resolver) (progress : Progress) :
    (resolver.checkDone progress).2.rolled = progress.rolled := by
  unfold checkDone
  simp only
  split
  · rfl
  · split
    · rfl
    · split <;> rfl

theorem rolled_cancel (progress : Progress) (requests : List Request) :
    (cancel progress requests).rolled = progress.rolled := by
  unfold cancel
  induction requests generalizing progress with
  | nil => rfl
  | cons request rest ih =>
    rw [List.foldl_cons, ih]
    split <;> rfl

theorem rolled_close (resolver : Resolver) (progress : Progress) :
    (resolver.close progress).rolled = progress.rolled := by
  unfold close
  simp only
  split
  · rfl
  · split
    · rw [rolled_cancel]
      rfl
    · change (cancel _ _).rolled = _
      rw [rolled_cancel]
      rfl

theorem ledger_addMany (resolver : Resolver) (dice : Dice) (method : Json) (count : Nat)
    (progress : Progress) :
    (resolver.addMany dice method count progress).2.ledger = progress.ledger :=
  congrArg Prod.fst (resolver.rolled_addMany dice method count progress)

theorem ledger_addTerm {resolver : Resolver} {dice : Dice} {progress later : Progress}
    {requests : List Request} (asked : resolver.addTerm dice progress = .ok (requests, later)) :
    later.ledger = progress.ledger := congrArg Prod.fst (rolled_addTerm asked)

theorem ledger_addAll (resolver : Resolver) (methods : MethodTable) (dice : List Dice)
    (progress : Progress) : (resolver.addAll methods dice progress).2.ledger = progress.ledger :=
  congrArg Prod.fst (resolver.rolled_addAll methods dice progress)

theorem ledger_checkDone (resolver : Resolver) (progress : Progress) :
    (resolver.checkDone progress).2.ledger = progress.ledger :=
  congrArg Prod.fst (resolver.rolled_checkDone progress)

theorem ledger_close (resolver : Resolver) (progress : Progress) :
    (resolver.close progress).ledger = progress.ledger :=
  congrArg Prod.fst (resolver.rolled_close progress)

/-! ## How the first pass goes on -/

/-- The progress in which a resolver waits for the end of its first pass. -/
def expecting (resolver : Resolver) (progress : Progress) : Progress :=
  progress.ask.2.updateResolver resolver fun state =>
    { state with firstPass := some progress.requests }

/-- What the first pass gives when its request is answered. -/
def passResult : Answer → Except Fault Unit
  | .cancelled => .error .cancelled
  | _ => .ok ()

/-- The ways in which a first pass can go on. -/
inductive Passes (resolver : Resolver) (methods : MethodTable) (progress : Progress) :
    Step Unit → Prop
  | closed (closed : (progress.resolver resolver).closed = true) :
    Passes resolver methods progress (.done (.error .cancelled) progress)
  | failed {fault : Fault} {later : Progress} (isOpen : (progress.resolver resolver).closed = false)
    (asked : resolver.addAll methods resolver.roll.dice progress = (.error fault, later)) :
    Passes resolver methods progress (.done (.error fault) later)
  | ended {later : Progress} (isOpen : (progress.resolver resolver).closed = false)
    (asked : resolver.addAll methods resolver.roll.dice progress = (.ok (), later))
    (empty : (later.resolver resolver).outstanding = []) :
    Passes resolver methods progress (.done (.ok ()) (resolver.checkDone later).2)
  | waiting {later : Progress} (isOpen : (progress.resolver resolver).closed = false)
    (asked : resolver.addAll methods resolver.roll.dice progress = (.ok (), later))
    (filled : (later.resolver resolver).outstanding ≠ []) :
    Passes resolver methods progress
      (.wait later.requests (resolver.expecting later) fun answer resumed =>
        .done (passResult answer) resumed)

theorem checkDone_of_outstanding {resolver : Resolver} {progress : Progress}
    (filled : (progress.resolver resolver).outstanding ≠ []) :
    resolver.checkDone progress = (false, progress) := by
  unfold checkDone
  simp only [List.isEmpty_eq_false_iff.2 filled, Bool.not_false, if_true]

theorem checkDone_of_none {resolver : Resolver} {progress : Progress}
    (empty : (progress.resolver resolver).outstanding = []) :
    (resolver.checkDone progress).1 = true := by
  unfold checkDone
  simp only [empty, List.isEmpty_nil, Bool.not_true, Bool.false_eq_true, if_false]
  split
  · rfl
  · split <;> rfl

theorem passes_firstPass (resolver : Resolver) (methods : MethodTable) (progress : Progress) :
    resolver.Passes methods progress (resolver.firstPass methods progress) := by
  unfold firstPass
  split
  · rename_i closed
    exact .closed closed
  · rename_i isOpen
    have isOpen := Bool.eq_false_iff.2 isOpen
    split
    · rename_i asked
      exact .failed isOpen asked
    · rename_i later asked
      by_cases empty : (later.resolver resolver).outstanding = []
      · have done := checkDone_of_none empty
        split
        · rename_i last checked
          have ended : resolver.Passes methods progress _ := .ended isOpen asked empty
          rwa [checked] at ended
        · rename_i checked
          rw [checked] at done
          cases done
      · rw [checkDone_of_outstanding empty]
        have resume : (fun (answer : Answer) (resumed : Progress) =>
            match answer with
            | .cancelled => Step.done (.error .cancelled) resumed
            | _ => Step.done (.ok ()) resumed) =
              fun answer resumed => .done (passResult answer) resumed := by
          funext answer resumed
          cases answer <;> rfl
        change Passes _ _ _ (Step.wait _ _ fun (answer : Answer) (resumed : Progress) =>
            match answer with
            | .cancelled => Step.done (.error .cancelled) resumed
            | _ => Step.done (.ok ()) resumed)
        rw [resume]
        exact .waiting isOpen asked empty

end Resolver
end DiceNotation
