import DiceNotation.Evaluation.Run
import DiceNotation.Proofs.Formula.Shunting

namespace DiceNotation

/-!
# Faults of computations

Whatever is computed on the way can only fail because of what is written in the formula or
because of the values: a row or a modifier that makes no sense, a word in arithmetic, a
division by zero, a number out of range.  Nothing computed says that it would have to wait,
that it was cancelled, or that data could not be read.
-/

/-- Whether a fault comes from what is written and computed, and from nothing else. -/
def Fault.isIntrinsic : Fault → Bool
  | .parse _ _ _ _ => true
  | .modifier _ _ _ => true
  | .use _ => true
  | .number _ => true
  | .wrongKind => true
  | _ => false

/-- A computation fails only with faults of a kind. -/
def FailsOnly {α : Type} (kind : Fault → Prop) (result : Except Fault α) : Prop :=
  ∀ fault, result = .error fault → kind fault

namespace FailsOnly

variable {α β : Type} {kind : Fault → Prop}

theorem ok (a : α) : FailsOnly kind (.ok a) := nofun

theorem error {fault : Fault} (is : kind fault) :
    FailsOnly kind (.error fault : Except Fault α) := by
  intro other same
  cases same
  exact is

theorem bind {result : Except Fault α} {next : α → Except Fault β} (first : FailsOnly kind result)
    (more : ∀ a, FailsOnly kind (next a)) : FailsOnly kind (result >>= next) := by
  cases result with
  | error fault => exact error (first fault rfl)
  | ok a => exact more a

theorem map {result : Except Fault α} (f : α → β) (first : FailsOnly kind result) :
    FailsOnly kind (result.map f) := by
  cases result with
  | error fault => exact error (first fault rfl)
  | ok a => exact ok (f a)

theorem ite {condition : Prop} [Decidable condition] {yes no : Except Fault α}
    (holds : FailsOnly kind yes) (fails : FailsOnly kind no) :
    FailsOnly kind (if condition then yes else no) := by
  split
  · exact holds
  · exact fails

theorem foldlM {step : β → α → Except Fault β} (each : ∀ b a, FailsOnly kind (step b a))
    (elements : List α) (start : β) : FailsOnly kind (elements.foldlM step start) := by
  induction elements generalizing start with
  | nil => exact ok start
  | cons a rest ih =>
    rw [List.foldlM_cons]
    exact (each start a).bind ih

end FailsOnly

/-- A computation fails only with faults that come from what is written and computed. -/
abbrev Intrinsic {α : Type} (result : Except Fault α) : Prop :=
  FailsOnly (fun fault => fault.isIntrinsic = true) result

/-- A computation fails only with faults that are addressed to the writer of the formula. -/
abbrev Addressing {α : Type} (result : Except Fault α) : Prop :=
  FailsOnly (fun fault => fault.isAddressed = true) result

/-- A computation fails only because values are of the wrong kind. -/
abbrev Mismatched {α : Type} (result : Except Fault α) : Prop :=
  FailsOnly (fun fault => fault = .wrongKind) result

theorem FailsOnly.intrinsic {α : Type} {result : Except Fault α} (mismatched : Mismatched result) :
    Intrinsic result := by
  intro fault failed
  cases mismatched fault failed
  rfl

theorem intrinsic_liftNumber {α : Type} (result : Except NumberFault α) :
    Intrinsic (liftNumber result) := by
  cases result with
  | error failure => exact .error rfl
  | ok a => exact .ok a

/-! ## Values -/

namespace Json

theorem intrinsic_combine (operation : Number → Number → Except NumberFault Number) (a b : Json) :
    Intrinsic (combine operation a b) := by
  unfold combine
  split
  · exact (intrinsic_liftNumber _).map _
  · exact .error rfl

theorem intrinsic_repetitions (count : Json) : Intrinsic count.repetitions := by
  unfold repetitions
  split
  · exact .ite (.ok _) (.error rfl)
  · exact .error rfl

theorem intrinsic_add (a b : Json) : Intrinsic (a.add b) := by
  unfold add
  split
  · exact .ok _
  · exact .ok _
  · exact intrinsic_combine _ _ _

theorem intrinsic_mul (a b : Json) : Intrinsic (a.mul b) := by
  unfold mul
  split
  · exact (intrinsic_repetitions _).map _
  · exact (intrinsic_repetitions _).map _
  · exact (intrinsic_repetitions _).map _
  · exact (intrinsic_repetitions _).map _
  · exact intrinsic_combine _ _ _

theorem intrinsic_elements (value : Json) : Intrinsic value.elements := by
  cases value with
  | array items => exact .ok _
  | string text => exact .ok _
  | object fields => exact .ok _
  | _ => exact .error rfl

theorem intrinsic_total (values : List Json) : Intrinsic (Json.total values) :=
  .foldlM intrinsic_add values _

theorem intrinsic_neg (value : Json) : Intrinsic value.neg := by
  unfold neg
  split
  · exact .ok _
  · exact .error rfl

mutual

/-- Values that are not alike are refused, and nothing else happens. -/
theorem mismatched_precedes (a b : Json) : Mismatched (a.precedes b) := by
  unfold precedes
  split
  · exact .ok _
  · exact mismatched_precedesItems _ _
  · split
    · exact .ok _
    · exact .error rfl

theorem mismatched_precedesItems (a b : List Json) : Mismatched (precedesItems a b) := by
  cases a with
  | nil =>
    cases b with
    | nil => exact .ok _
    | cons _ _ => exact .ok _
  | cons first rest =>
    cases b with
    | nil => exact .ok _
    | cons second others =>
      unfold precedesItems
      exact .ite (mismatched_precedesItems rest others) (mismatched_precedes first second)

end

theorem mismatched_atMost (a b : Json) : Mismatched (a.atMost b) := (mismatched_precedes a b).map _

theorem mismatched_leavesModTwo (rest : Int) (value : Json) :
    Mismatched (value.leavesModTwo rest) := by
  unfold leavesModTwo
  split
  · exact .ok _
  · exact .error rfl

theorem intrinsic_first {before : Json → Json → Except Fault Bool}
    (asks : ∀ a b, Intrinsic (before a b)) (best : Json) (values : List Json) :
    Intrinsic (first before best values) := by
  induction values generalizing best with
  | nil => exact .ok best
  | cons value rest ih =>
    unfold first
    exact (asks value best).bind fun _ => .ite (ih value) (ih best)

end Json

namespace Function

theorem intrinsic_choose (fn : Function) (best : Json) (rest : List Json) :
    Intrinsic (fn.choose best rest) := by
  cases fn with
  | max => exact Json.intrinsic_first (fun a b => (Json.mismatched_precedes b a).intrinsic) best rest
  | min => exact Json.intrinsic_first (fun a b => (Json.mismatched_precedes a b).intrinsic) best rest
  | _ => exact .error rfl

theorem intrinsic_chooseWithin (fn : Function) (argument : Json) :
    Intrinsic (fn.chooseWithin argument) := by
  refine (Json.intrinsic_elements argument).bind fun elements => ?_
  cases elements with
  | nil => exact .error rfl
  | cons best rest => exact fn.intrinsic_choose best rest

theorem intrinsic_value (fn : Function) (arguments : List Json) :
    Intrinsic (fn.value arguments) := by
  unfold value
  split
  · exact .error rfl
  · split
    · exact intrinsic_chooseWithin _ _
    · exact intrinsic_chooseWithin _ _
    · split
      · exact (intrinsic_liftNumber _).map _
      · exact .error rfl
  · exact intrinsic_choose _ _ _

end Function

/-! ## Totals -/

theorem Operator.intrinsic_apply (op : Operator) (formula : String) (left right : Json) :
    Intrinsic (op.apply formula left right) := by
  refine .ite (.error rfl) ?_
  cases op with
  | add => exact Json.intrinsic_add left right
  | sub => exact Json.intrinsic_combine _ left right
  | mul => exact Json.intrinsic_mul left right
  | div => exact .ite (.error rfl) (Json.intrinsic_combine _ left right)
  | rem => exact .ite (.error rfl) (Json.intrinsic_combine _ left right)

theorem Tree.intrinsic_total {α : Type} {totalOf : α → Except Fault Json}
    (each : ∀ a, Intrinsic (totalOf a)) (formula : String) (tree : Tree α) :
    Intrinsic (tree.total totalOf formula) := by
  induction tree with
  | leaf a => exact each a
  | node op left right left_ih right_ih =>
    exact left_ih.bind fun l => right_ih.bind fun r => op.intrinsic_apply formula l r

theorem Outcome.intrinsic_total (outcomes : List Outcome) : Intrinsic (Outcome.total outcomes) :=
  Json.intrinsic_total _

namespace Ledger

variable (ledger : Ledger)

theorem intrinsic_functionValue (fn : Function) (rolls : List Roll) :
    Intrinsic (ledger.functionValue fn rolls) :=
  fn.intrinsic_value _

theorem intrinsic_total (term : Term) : Intrinsic (ledger.total term) := by
  refine .ite ?_ (.ok _)
  cases term with
  | function tag fn rolls => exact ledger.intrinsic_functionValue fn rolls
  | dice d => exact Outcome.intrinsic_total _
  | pool p => exact Outcome.intrinsic_total _
  | _ => exact .ok _

theorem intrinsic_totalOfTerms (terms : List Term) : Intrinsic (ledger.totalOfTerms terms) := by
  have trees : Intrinsic (treeOfTerms (formulaOf terms) terms) := by
    rw [treeOfTerms_eq]
    split
    · exact .ok _
    · rename_i misplaced _
      refine .error ?_
      cases misplaced <;> rfl
  exact trees.bind fun tree => tree.intrinsic_total ledger.intrinsic_total _

theorem intrinsic_amount (amount : Operand Term) : Intrinsic (ledger.amount amount) := by
  cases amount with
  | known n => exact .ok _
  | computed term => exact (ledger.intrinsic_total term).map _

theorem intrinsic_maximumValue (dice : Dice) : Intrinsic (ledger.maximumValue dice) := by
  unfold maximumValue
  split
  · exact .ok _
  · exact ledger.intrinsic_amount dice.faces

theorem intrinsic_accepts (dice : Dice) (value : Json) : Intrinsic (ledger.accepts dice value) := by
  unfold accepts
  split
  · refine .ite (.ok _) ((ledger.intrinsic_maximumValue dice).bind fun _ => ?_)
    exact (Json.mismatched_atMost _ _).intrinsic
  · exact .ok _

theorem intrinsic_mapUniform (dice : Dice) (u : Float) :
    Intrinsic (ledger.mapUniform dice (.number (.real u))) := by
  refine (ledger.intrinsic_maximumValue dice).bind fun maximum => ?_
  split
  · exact .error rfl
  · exact (intrinsic_liftNumber _).bind fun size => (FailsOnly.ok _).bind fun _ =>
      (intrinsic_liftNumber _).map _

end Ledger

/-! ## Methods -/

theorem MethodTable.intrinsic_named (table : MethodTable) (name : Json) :
    Intrinsic (table.named name) := by
  unfold named
  split
  · unfold get
    split
    · exact .ok _
    · exact .error rfl
  · exact .error rfl
  · exact .error rfl
  · exact .error rfl

/-! ## Modifiers -/

theorem Comparator.mismatched_holds (comparator : Comparator) (value target : Json) :
    Mismatched (comparator.holds value target) := by
  cases comparator with
  | equal => exact .ok _
  | below => exact Json.mismatched_precedes value target
  | atMost => exact Json.mismatched_atMost value target
  | above => exact Json.mismatched_precedes target value
  | atLeast => exact Json.mismatched_atMost target value

namespace Command

theorem intrinsic_parse (raw term : String) : Intrinsic (parse raw term) := by
  unfold parse
  split
  · exact .error rfl
  · refine .ite (.ok _) ?_
    dsimp only
    split
    · exact .ok _
    · exact .error rfl

theorem intrinsic_ofData (raw : Json) (term : String) : Intrinsic (ofData raw term) := by
  cases raw with
  | string text => exact intrinsic_parse text term
  | _ => exact .error rfl

end Command

namespace Context

theorem Chain.intrinsic_firstFrom (chain : Chain) (position : Nat) (outcomes : List Outcome) :
    Intrinsic (chain.firstFrom position outcomes) := by
  induction outcomes generalizing position with
  | nil => exact .ok _
  | cons outcome rest ih =>
    have selects : Intrinsic (chain.selects outcome) :=
      .ite (chain.comparator.mismatched_holds _ _).intrinsic (.ok _)
    unfold firstFrom
    split
    · rename_i fault failed
      exact .error (selects fault failed)
    · exact .ok _
    · exact ih _

theorem intrinsic_chainTarget (ledger : Ledger) (dice : Dice) (command : Command)
    (explode : Bool) : Intrinsic (chainTarget ledger dice command explode) := by
  unfold chainTarget
  split
  · exact .ok _
  · exact .ite (ledger.intrinsic_maximumValue dice) (.ok _)

end Context

namespace Ranking

variable {α : Type} {before : α → α → Except Fault Bool}
  (asks : ∀ a b, Intrinsic (before a b))
include asks

theorem intrinsic_extend (descending : Bool) (last : α) (elements : List α) :
    Intrinsic (extend before descending last elements) := by
  induction elements generalizing last with
  | nil => exact .ok _
  | cons a rest ih =>
    unfold extend
    split
    · rename_i fault failed
      exact .error (asks _ _ fault failed)
    · refine .ite ?_ (.ok _)
      split
      · rename_i fault failed
        exact .error (ih a fault failed)
      · exact .ok _

theorem intrinsic_firstRun (elements : List α) : Intrinsic (firstRun before elements) := by
  match elements with
  | [] => exact .ok _
  | [a] => exact .ok _
  | a :: b :: rest =>
    simp only [firstRun]
    split
    · rename_i fault failed
      exact .error (asks _ _ fault failed)
    · split
      · rename_i fault failed
        exact .error (intrinsic_extend asks _ _ _ fault failed)
      · exact .ok _

theorem intrinsic_place (a : α) (ranking : List α) (low high : Nat) :
    Intrinsic (place before a ranking low high) := by
  fun_induction place before a ranking low high with
  | case1 low high short middle missing => exact .ok _
  | case2 low high short middle other found fault refused =>
    exact .error (asks _ _ fault refused)
  | case3 low high short middle other found below ih => exact ih
  | case4 low high short middle other found above ih => exact ih
  | case5 low high done => exact .ok _

/-- A ranking fails only if a question is refused. -/
theorem intrinsic_rank (elements : List α) : Intrinsic (rank before elements) := by
  unfold rank
  split
  · rename_i fault failed
    exact .error (intrinsic_firstRun asks _ fault failed)
  · refine .foldlM (fun ranking a => ?_) _ _
    unfold insert
    split
    · rename_i fault failed
      exact .error (intrinsic_place asks _ _ _ _ fault failed)
    · exact .ok _

end Ranking

namespace Selection

theorem intrinsic_keys (selection : Selection) (position : Int) (outcomes : List Outcome) :
    Intrinsic (selection.keys position outcomes) := by
  induction outcomes generalizing position with
  | nil => exact .ok _
  | cons outcome rest ih =>
    refine .ite ?_ (ih _)
    have value : Intrinsic (selection.rankValue outcome.value) :=
      .ite (Json.intrinsic_neg _) (.ok _)
    exact value.bind fun _ => (ih _).bind fun _ => .ok _

theorem intrinsic_apply (selection : Selection) (outcomes : List Outcome) :
    Intrinsic (selection.apply outcomes) := by
  have compares (a b : RankKey) : Intrinsic (RankKey.before a b) :=
    .ite (.ok _) (Json.mismatched_precedes _ _).intrinsic
  have sizes (active : Nat) : Intrinsic (selection.size active) := by
    unfold size
    split
    · exact .ok _
    · exact .ite (.ok _) (.ite (.error rfl) (.ok _))
  have chosen : Intrinsic (selection.chosen outcomes) :=
    (selection.intrinsic_keys 0 outcomes).bind fun keys =>
      (Ranking.intrinsic_rank compares keys).bind fun ranking =>
        (sizes ranking.length).bind fun _ => .ok _
  exact chosen.map _

end Selection

namespace Tally

variable (tally : Tally)

theorem failsOnly_mapActive {kind : Fault → Prop} {change : Outcome → Except Fault Outcome}
    (each : ∀ outcome, FailsOnly kind (change outcome)) :
    FailsOnly kind (tally.mapActive change).2 := by
  have all (outcomes : List Outcome) : FailsOnly kind (Outcome.mapActive change outcomes).2 := by
    induction outcomes with
    | nil => exact .ok _
    | cons outcome rest ih =>
      unfold Outcome.mapActive
      split
      · split
        · rename_i fault failed
          exact .error (each _ fault failed)
        · exact ih
      · exact ih
  exact all tally.outcomes

theorem failsOnly_countSuccesses {kind : Fault → Prop} {test : Json → Except Fault Bool}
    (each : ∀ value, FailsOnly kind (test value)) :
    FailsOnly kind (tally.countSuccesses test).2 := by
  have counted := tally.failsOnly_mapActive fun outcome => (each outcome.value).map fun passed =>
    { outcome with success := .bool passed, count := Outcome.oneIf passed }
  unfold countSuccesses
  split
  · exact .ok _
  · exact counted

theorem intrinsic_comparing (command : Command) (formula : String)
    {next : (Json → Except Fault Bool) → Change}
    (more : ∀ test, (∀ value, Intrinsic (test value)) → Intrinsic (next test).2) :
    Intrinsic (tally.comparing command formula next).2 := by
  have compares : Intrinsic (command.comparison formula) := by
    unfold Command.comparison
    split
    · exact .error rfl
    · exact .ok _
  unfold comparing
  split
  · rename_i fault failed
    exact .error (compares fault failed)
  · exact more _ fun value => (Comparator.mismatched_holds _ value _).intrinsic

theorem intrinsic_deductFailures (command : Command) (formula : String) :
    Intrinsic (tally.deductFailures command formula).2 := by
  unfold deductFailures
  split
  · exact tally.failsOnly_mapActive fun _ => .ok _
  · exact tally.intrinsic_comparing command formula fun test each =>
      tally.failsOnly_mapActive fun outcome => (each outcome.value).map _

theorem intrinsic_select (command : Command) (formula : String) (keep highest : Bool) :
    Intrinsic (tally.select command formula keep highest).2 := by
  have amounts : Intrinsic (command.amount formula) := by
    unfold Command.amount
    split
    · exact .error rfl
    · exact .ok _
  unfold select
  split
  · rename_i fault failed
    exact .error (amounts fault failed)
  · split
    · rename_i fault failed
      exact .error (Selection.intrinsic_apply _ _ fault failed)
    · exact .ok _

theorem intrinsic_countParity (command : Command) (formula : String) (odd : Bool) :
    Intrinsic (tally.countParity command formula odd).2 := by
  unfold countParity
  split
  · exact .error rfl
  · split
    · exact .error rfl
    · exact tally.failsOnly_countSuccesses fun value =>
        (Json.mismatched_leavesModTwo _ value).intrinsic

theorem intrinsic_call (command : Command) (formula : String) :
    Intrinsic (tally.call command formula).2 := by
  unfold call
  split
  · exact .error rfl
  · dsimp only
    split
    · exact tally.failsOnly_countSuccesses fun _ => .ok _
    · exact .error rfl

/-- A modifier that rolls nothing fails because of what is written or because of values. -/
theorem intrinsic_carryOut (action : Action) (command : Command) (formula : String) :
    Intrinsic (carryOut action command formula tally).2 := by
  cases action with
  | keep => exact tally.intrinsic_select command formula _ _
  | drop => exact tally.intrinsic_select command formula _ _
  | countSuccesses =>
    exact tally.intrinsic_comparing command formula fun _ each => tally.failsOnly_countSuccesses each
  | countFailures =>
    change Intrinsic (if tally.counting then tally.deductFailures command formula
      else tally.comparing command formula fun test =>
        tally.mapActive (Outcome.markFailure test)).2
    split
    · exact tally.intrinsic_deductFailures command formula
    · exact tally.intrinsic_comparing command formula fun test each =>
        tally.failsOnly_mapActive fun outcome => (each outcome.value).map _
  | deductFailures => exact tally.intrinsic_deductFailures command formula
  | countParity odd => exact tally.intrinsic_countParity command formula odd
  | call => exact tally.intrinsic_call command formula
  | reroll once => exact .ok _
  | explode once => exact .ok _

end Tally
end DiceNotation
