import DiceNotation.Dice.Outcome

namespace DiceNotation

/-!
# Keeping and dropping

The active outcomes are ranked by value, and some of the best are kept or some
of the worst dropped.  Among equal values the earliest outcome is kept: it
comes first when outcomes are kept and last when they are dropped.
-/

namespace Ranking

/-!
## Ranking

A list is ranked by a question that may be refused: whether one element comes
before another.  The first elements are taken as they stand as long as they
ascend, or turned around if they descend.  Each later element is put in at a
place that is found by halving what is left of the ranking.

If the question orders the elements, every way of ranking gives the same list.
But undefined amounts come neither before nor behind others, and then the
ranking is what this way of asking makes of it.
-/

variable {α : Type} (before : α → α → Except Fault Bool)

/-- The elements that continue a run behind `last`, and what follows the run. -/
def extend (descending : Bool) (last : α) : List α → Except Fault (List α × List α)
  | [] => .ok ([], [])
  | a :: rest =>
    match before a last with
    | .error fault => .error fault
    | .ok comesBefore =>
      if comesBefore == descending then
        match extend descending a rest with
        | .error fault => .error fault
        | .ok (run, more) => .ok (a :: run, more)
      else .ok ([], a :: rest)

/-- The run that a list begins with, in ascending order, and what follows it. -/
def firstRun : List α → Except Fault (List α × List α)
  | [] => .ok ([], [])
  | [a] => .ok ([a], [])
  | a :: b :: rest =>
    match before b a with
    | .error fault => .error fault
    | .ok descending =>
      match extend before descending b rest with
      | .error fault => .error fault
      | .ok (run, more) =>
        let whole := a :: b :: run
        .ok (if descending then whole.reverse else whole, more)

/-- The place of an element in a ranking, between two places. -/
def place (a : α) (ranking : List α) (low high : Nat) : Except Fault Nat :=
  if low < high then
    let middle := low + (high - low) / 2
    match ranking[middle]? with
    | none => .ok low
    | some other =>
      match before a other with
      | .error fault => .error fault
      | .ok true => place a ranking low middle
      | .ok false => place a ranking (middle + 1) high
  else .ok low
termination_by high - low
decreasing_by
  · omega
  · omega

/-- Puts an element into a ranking. -/
def insert (ranking : List α) (a : α) : Except Fault (List α) :=
  match place before a ranking 0 ranking.length with
  | .error fault => .error fault
  | .ok i => .ok (ranking.take i ++ a :: ranking.drop i)

/-- The ranking of a list. -/
def rank (elements : List α) : Except Fault (List α) :=
  match firstRun before elements with
  | .error fault => .error fault
  | .ok (run, rest) => rest.foldlM (insert before) run

variable {before}

theorem extend_append {descending : Bool} {last : α} {elements run more : List α}
    (found : extend before descending last elements = .ok (run, more)) :
    run ++ more = elements := by
  induction elements generalizing last run more with
  | nil =>
    cases found
    rfl
  | cons a rest ih =>
    simp only [extend] at found
    split at found
    · cases found
    · split at found
      · split at found
        · cases found
        · rename_i inner _ continued
          cases found
          simp [ih continued]
      · cases found
        rfl

theorem firstRun_perm {elements run more : List α}
    (found : firstRun before elements = .ok (run, more)) : (run ++ more).Perm elements := by
  match elements with
  | [] =>
    cases found
    exact .refl _
  | [a] =>
    cases found
    exact .refl _
  | a :: b :: rest =>
    simp only [firstRun] at found
    split at found
    · cases found
    · split at found
      · cases found
      · rename_i descending _ _ inner tail continued
        cases found
        have whole := extend_append continued
        rw [← whole]
        split
        · exact (List.reverse_perm (a :: b :: inner)).append_right more
        · exact .refl _

theorem insert_perm {ranking inserted : List α} {a : α}
    (done : insert before ranking a = .ok inserted) : inserted.Perm (a :: ranking) := by
  simp only [insert] at done
  split at done
  · cases done
  · rename_i i _
    cases done
    refine List.perm_middle.trans (List.Perm.cons a ?_)
    rw [List.take_append_drop]

/-- A ranking has the same elements as the list. -/
theorem rank_perm {elements ranking : List α} (done : rank before elements = .ok ranking) :
    ranking.Perm elements := by
  simp only [rank] at done
  split at done
  · cases done
  · rename_i run rest found
    refine List.Perm.trans ?_ (firstRun_perm found)
    clear found
    induction rest generalizing run with
    | nil =>
      cases done
      simp
    | cons a rest ih =>
      rw [List.foldlM_cons] at done
      cases step : insert before run a with
      | error fault => simp [step, bind, Except.bind] at done
      | ok inserted =>
        simp only [step, bind, Except.bind] at done
        exact (ih inserted done).trans
          (((insert_perm step).append_right rest).trans List.perm_middle.symm)

end Ranking

/-! ## Selections -/

/-- The place of an outcome in the ranking: its value, and its position among
equal values. -/
structure RankKey where
  value : Json
  position : Int

/-- Whether one key comes before another. -/
def RankKey.before (a b : RankKey) : Except Fault Bool :=
  if a.value.same b.value then .ok (a.position < b.position) else a.value.precedes b.value

/-- Which outcomes to discard. -/
structure Selection where
  number : Number
  keep : Bool
  highest : Bool

namespace Selection

/-- The value by which an outcome is ranked: the best come first. -/
def rankValue (selection : Selection) (value : Json) : Except Fault Json :=
  if selection.highest then value.neg else .ok value

/-- The keys of the active outcomes, those before `position` left out. -/
def keys (selection : Selection) (position : Int) : List Outcome → Except Fault (List RankKey)
  | [] => .ok []
  | outcome :: rest =>
    if outcome.isActive then do
      let value ← selection.rankValue outcome.value
      let others ← keys selection (position + 1) rest
      return ⟨value, if selection.keep then position else -position⟩ :: others
    else keys selection (position + 1) rest

/-- How many outcomes are kept or dropped.  Only an integer can say how many,
but any number can say that it is none or all. -/
def size (selection : Selection) (active : Nat) : Except Fault Nat :=
  match selection.number with
  | .int n => .ok (min n.toNat active)
  | .real x =>
    if Number.below (.int active) (.real x) then .ok active
    else if Number.below (.int 0) (.real x) then .error .wrongKind
    else .ok 0

/-- The positions of the outcomes that are kept or dropped. -/
def chosen (selection : Selection) (outcomes : List Outcome) : Except Fault (List Int) := do
  let ranking ← Ranking.rank RankKey.before (← selection.keys 0 outcomes)
  let size ← selection.size ranking.length
  return (ranking.take size).map fun key => if selection.keep then key.position else -key.position

/-- Discards active outcomes from a position on: the chosen ones if outcomes
are dropped, the others if they are kept. -/
def discardFrom (selection : Selection) (chosen : List Int) (position : Int) :
    List Outcome → List Outcome
  | [] => []
  | outcome :: rest =>
    let discarded := outcome.isActive && (chosen.contains position != selection.keep)
    (if discarded then outcome.discard else outcome) ::
      discardFrom selection chosen (position + 1) rest

/-- Keeps or drops outcomes. -/
def apply (selection : Selection) (outcomes : List Outcome) : Except Fault (List Outcome) :=
  (selection.chosen outcomes).map fun chosen => selection.discardFrom chosen 0 outcomes

end Selection
end DiceNotation
