import DiceNotation.Dice.Counting

namespace DiceNotation

/-!
# Refused modifiers

A modifier that rolls nothing is refused because of what is written in it, or because of
what was counted before.  As long as the values of the outcomes are numbers, neither the
values nor the number of outcomes matter: numbers can be compared, ranked and counted,
whatever they are.
-/

/-! ## Rankings -/

namespace Ranking

variable {α : Type} {before : α → α → Except Fault Bool} {P : α → Prop}
  (answers : ∀ a b, P a → P b → ∃ answer, before a b = .ok answer)
include answers

theorem extend_ok (descending : Bool) {last : α} (known : P last) {elements : List α}
    (all : ∀ a ∈ elements, P a) :
    ∃ run more, extend before descending last elements = .ok (run, more) := by
  induction elements generalizing last with
  | nil => exact ⟨[], [], rfl⟩
  | cons a rest ih =>
    rcases List.forall_mem_cons.1 all with ⟨here, later⟩
    rcases answers _ _ here known with ⟨comesBefore, asked⟩
    rcases ih here later with ⟨run, more, extended⟩
    unfold extend
    simp only [asked, extended]
    split
    · exact ⟨_, _, rfl⟩
    · exact ⟨_, _, rfl⟩

theorem firstRun_ok {elements : List α} (all : ∀ a ∈ elements, P a) :
    ∃ run more, firstRun before elements = .ok (run, more) := by
  match elements with
  | [] => exact ⟨[], [], rfl⟩
  | [a] => exact ⟨[a], [], rfl⟩
  | a :: b :: rest =>
    rcases List.forall_mem_cons.1 all with ⟨first, others⟩
    rcases List.forall_mem_cons.1 others with ⟨second, later⟩
    rcases answers _ _ second first with ⟨descending, asked⟩
    rcases extend_ok answers descending second later with ⟨run, more, extended⟩
    unfold firstRun
    simp only [asked, extended]
    exact ⟨_, _, rfl⟩

theorem place_ok {a : α} (known : P a) {ranking : List α} (all : ∀ a ∈ ranking, P a)
    (low high : Nat) : ∃ i, place before a ranking low high = .ok i := by
  fun_induction place before a ranking low high with
  | case1 low high short middle missing => exact ⟨low, rfl⟩
  | case2 low high short middle other found fault refused =>
    rcases answers _ _ known (all other (List.mem_of_getElem? found)) with ⟨answer, asked⟩
    rw [asked] at refused
    cases refused
  | case3 low high short middle other found below ih => exact ih
  | case4 low high short middle other found above ih => exact ih
  | case5 low high done => exact ⟨low, rfl⟩

theorem insert_ok {a : α} (known : P a) {ranking : List α} (all : ∀ a ∈ ranking, P a) :
    ∃ inserted, insert before ranking a = .ok inserted := by
  rcases place_ok answers known all 0 ranking.length with ⟨i, placed⟩
  unfold insert
  rw [placed]
  exact ⟨_, rfl⟩

/-- A list can be ranked if any two of its elements can be compared. -/
theorem rank_ok {elements : List α} (all : ∀ a ∈ elements, P a) :
    ∃ ranking, rank before elements = .ok ranking := by
  rcases firstRun_ok answers all with ⟨run, rest, found⟩
  have parts : ∀ a ∈ run ++ rest, P a := fun a member =>
    all a ((firstRun_perm found).mem_iff.1 member)
  rcases List.forall_mem_append.1 parts with ⟨first, later⟩
  unfold rank
  rw [found]
  clear found parts all
  induction rest generalizing run with
  | nil => exact ⟨run, rfl⟩
  | cons a rest ih =>
    rcases List.forall_mem_cons.1 later with ⟨here, others⟩
    rcases insert_ok answers here first with ⟨inserted, done⟩
    have whole : ∀ b ∈ inserted, P b := fun b member =>
      List.forall_mem_cons.2 ⟨here, first⟩ b ((insert_perm done).mem_iff.1 member)
    rcases ih inserted whole others with ⟨ranking, ranked⟩
    refine ⟨ranking, ?_⟩
    change rest.foldlM (insert before) inserted = _ at ranked
    change (a :: rest).foldlM (insert before) run = _
    rw [List.foldlM_cons, done]
    exact ranked

end Ranking

/-! ## Outcomes with numbers -/

namespace Outcome

/-- Whether all values are numbers. -/
def AreNumbers (outcomes : List Outcome) : Prop :=
  ∀ outcome ∈ outcomes, ∃ n, outcome.value = .number n

/-- Whether a test of values is never refused for a number. -/
def Answers (test : Json → Except Fault Bool) : Prop :=
  ∀ n, ∃ passed, test (.number n) = .ok passed

theorem mapActive_result {change : Outcome → Except Fault Outcome} {outcomes : List Outcome}
    (each : ∀ outcome ∈ outcomes, ∃ changed, change outcome = .ok changed) :
    (mapActive change outcomes).2 = .ok () := by
  induction outcomes with
  | nil => rfl
  | cons outcome rest ih =>
    rcases List.forall_mem_cons.1 each with ⟨⟨changed, done⟩, later⟩
    unfold mapActive
    rw [done]
    split
    · exact ih later
    · exact ih later

end Outcome

namespace Selection

variable {outcomes : List Outcome} (numbers : Outcome.AreNumbers outcomes)
include numbers

theorem keys_ok (selection : Selection) (position : Int) :
    ∃ keys, selection.keys position outcomes = .ok keys ∧ ∀ key ∈ keys, ∃ n, key.value = .number n := by
  induction outcomes generalizing position with
  | nil => exact ⟨[], rfl, fun _ member => absurd member List.not_mem_nil⟩
  | cons outcome rest ih =>
    rcases List.forall_mem_cons.1 numbers with ⟨⟨n, is⟩, later⟩
    rcases ih later (position + 1) with ⟨keys, found, all⟩
    unfold Selection.keys
    split
    · have ranked : ∃ m, selection.rankValue outcome.value = .ok (.number m) := by
        unfold rankValue
        rw [is]
        split
        · exact ⟨_, rfl⟩
        · exact ⟨_, rfl⟩
      rcases ranked with ⟨m, ranked⟩
      rw [ranked, found]
      exact ⟨_, rfl, List.forall_mem_cons.2 ⟨⟨m, rfl⟩, all⟩⟩
    · exact ⟨keys, found, all⟩

theorem apply_ok (number : Int) (keep highest : Bool) :
    ∃ kept, Selection.apply ⟨.int number, keep, highest⟩ outcomes = .ok kept := by
  rcases keys_ok numbers ⟨.int number, keep, highest⟩ 0 with ⟨keys, found, all⟩
  have compared (a b : RankKey) : (∃ n, a.value = .number n) → (∃ n, b.value = .number n) →
      ∃ answer, RankKey.before a b = .ok answer := by
    rintro ⟨m, first⟩ ⟨n, second⟩
    unfold RankKey.before
    rw [first, second, Json.precedes_number]
    split
    · exact ⟨_, rfl⟩
    · exact ⟨_, rfl⟩
  rcases Ranking.rank_ok compared all with ⟨ranking, ranked⟩
  unfold Selection.apply Selection.chosen
  rw [found]
  change ∃ kept, Except.map _ (Ranking.rank RankKey.before keys >>= _) = _
  rw [ranked]
  exact ⟨_, rfl⟩

end Selection

/-! ## Modifiers -/

namespace Tally

/-- The tally without outcomes. -/
def blank (tally : Tally) : Tally := { tally with outcomes := [] }

/-- Two changes are refused alike, and leave behind alike whether successes were counted. -/
structure Alike (change other : Change) : Prop where
  result : change.2 = other.2
  counting : change.1.counting = other.1.counting

variable {tally : Tally}

theorem alike_unchanged (fault : Fault) :
    Alike (tally.unchanged fault) (tally.blank.unchanged fault) := ⟨rfl, rfl⟩

theorem alike_mapActive {change : Outcome → Except Fault Outcome}
    (each : ∀ outcome ∈ tally.outcomes, ∃ changed, change outcome = .ok changed) :
    Alike (tally.mapActive change) (tally.blank.mapActive change) where
  result := Outcome.mapActive_result each
  counting := rfl

theorem alike_comparing (command : Command) (formula : String)
    {next other : (Json → Except Fault Bool) → Change}
    (each : ∀ test, Outcome.Answers test → Alike (next test) (other test)) :
    Alike (tally.comparing command formula next) (tally.blank.comparing command formula other) := by
  unfold comparing
  cases compared : command.comparison formula with
  | error fault => exact alike_unchanged fault
  | ok found =>
    apply each
    intro n
    unfold Command.comparison at compared
    split at compared
    · cases compared
    · cases compared
      exact ⟨_, Comparator.holds_number _ n _⟩

variable (numbers : Outcome.AreNumbers tally.outcomes)
include numbers

/-- A change of outcomes that is decided by a test of their values. -/
theorem alike_mapTested {test : Json → Except Fault Bool} (answers : Outcome.Answers test)
    {mark : Outcome → Bool → Outcome} :
    Alike (tally.mapActive fun outcome => (test outcome.value).map (mark outcome))
      (tally.blank.mapActive fun outcome => (test outcome.value).map (mark outcome)) := by
  apply alike_mapActive
  intro outcome member
  rcases numbers outcome member with ⟨n, is⟩
  rcases answers n with ⟨passed, tested⟩
  rw [is, tested]
  exact ⟨_, rfl⟩

theorem alike_countSuccesses {test : Json → Except Fault Bool} (answers : Outcome.Answers test) :
    Alike (tally.countSuccesses test) (tally.blank.countSuccesses test) := by
  have marked : Alike (tally.mapActive (Outcome.markSuccess test))
      (tally.blank.mapActive (Outcome.markSuccess test)) := alike_mapTested numbers answers
  have whole : (tally.mapActive (Outcome.markSuccess test)).2 = .ok () := marked.result
  unfold countSuccesses
  split
  · exact ⟨rfl, rfl⟩
  · rename_i unfinished
    exact (unfinished _ (Prod.ext rfl whole)).elim

theorem alike_deductFailures (command : Command) (formula : String) :
    Alike (tally.deductFailures command formula) (tally.blank.deductFailures command formula) := by
  unfold deductFailures
  split
  · exact alike_mapActive fun outcome _ => ⟨_, rfl⟩
  · exact alike_comparing command formula fun test answers =>
      alike_mapTested numbers answers

theorem alike_select (command : Command) (formula : String) (keep highest : Bool) :
    Alike (tally.select command formula keep highest)
      (tally.blank.select command formula keep highest) := by
  unfold select
  cases command.amount formula with
  | error fault => exact alike_unchanged fault
  | ok number =>
    rcases Selection.apply_ok numbers number keep highest with ⟨kept, applied⟩
    simp only [applied]
    exact ⟨rfl, rfl⟩

theorem alike_countParity (command : Command) (formula : String) (odd : Bool) :
    Alike (tally.countParity command formula odd)
      (tally.blank.countParity command formula odd) := by
  unfold countParity
  split
  · exact ⟨rfl, rfl⟩
  · split
    · exact ⟨rfl, rfl⟩
    · exact alike_countSuccesses numbers fun n => ⟨_, rfl⟩

theorem alike_call (command : Command) (formula : String) :
    Alike (tally.call command formula) (tally.blank.call command formula) := by
  unfold call
  split
  · exact ⟨rfl, rfl⟩
  · simp only
    split
    · exact alike_countSuccesses numbers fun n => ⟨_, rfl⟩
    · exact ⟨rfl, rfl⟩

/-- Whether a modifier is refused that rolls nothing, and why, can be told without the
outcomes, and so can what it does for the modifiers behind it. -/
theorem alike_carryOut (action : Action) (command : Command) (formula : String) :
    Alike (tally.carryOut action command formula)
      (tally.blank.carryOut action command formula) := by
  cases action with
  | keep => exact alike_select numbers command formula _ _
  | drop => exact alike_select numbers command formula _ _
  | countSuccesses =>
    exact alike_comparing command formula fun _ => alike_countSuccesses numbers
  | countFailures =>
    change Alike (if tally.counting then _ else _) (if tally.counting then _ else _)
    split
    · exact alike_deductFailures numbers command formula
    · exact alike_comparing command formula fun _ answers =>
        alike_mapTested numbers answers
  | deductFailures => exact alike_deductFailures numbers command formula
  | countParity odd => exact alike_countParity numbers command formula odd
  | call => exact alike_call numbers command formula
  | reroll once => exact ⟨rfl, rfl⟩
  | explode once => exact ⟨rfl, rfl⟩

end Tally

/-! ## Telling refusals in advance -/

namespace ActionTable

/-- Whether successes are counted after a modifier, and why it is refused if it is, as far
as that can be told without rolling. -/
def foretell (table : ActionTable) (formula : String) (counting : Bool) (raw : Json) :
    Bool × Except Fault Unit :=
  match Command.ofData raw formula with
  | .error fault => (counting, .error fault)
  | .ok command =>
    match table.action? command.name with
    | none => (counting, .error (.modifier .unknown formula command.raw))
    | some action =>
      let change := Tally.carryOut action command formula ⟨[], counting⟩
      (change.1.counting, change.2)

/-- Whether modifiers go on behind one that ends in a certain way. -/
def goesOn (lenient : Bool) : Except Fault Unit → Bool
  | .ok _ => true
  | .error (.modifier _ _ _) => lenient
  | .error _ => false

/-- Whether modifiers can be carried out in order, as far as that can be told without
rolling. -/
def accepts (table : ActionTable) (lenient : Bool) (formula : String) : Bool → List Json → Bool
  | _, [] => true
  | counting, raw :: rest =>
    let told := table.foretell formula counting raw
    goesOn lenient told.2 && accepts table lenient formula told.1 rest

end ActionTable
end DiceNotation
