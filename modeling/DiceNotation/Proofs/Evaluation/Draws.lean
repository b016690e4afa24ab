import DiceNotation.Proofs.Evaluation.Foretelling
import DiceNotation.Proofs.Evaluation.Rolling
import DiceNotation.Proofs.Roll.DiceInTurn

namespace DiceNotation

/-!
# Draws and results

Where all dice are left to the uniform source and no modifier is skipped, every uniform
value that is taken becomes a result, and every result comes from a uniform value.  Listed
in the order of evaluation, the results are picked by the uniform values in the order in
which these are taken.  Rerolls and explosions draw while the modifiers of their die are
carried out, before anything that comes later is rolled.
-/

/-! ## Results that are picked one after another -/

/-- The results of dice are picked by the uniform values from the `k`-th on. -/
def Ledger.ArePicked (uniform : Nat → Float) (ledger : Ledger) :
    Nat → List (Dice × Json) → Prop
  | _, [] => True
  | k, (dice, value) :: rest =>
    ledger.mapUniform dice (.number (.real (uniform k))) = .ok value ∧
      ledger.ArePicked uniform (k + 1) rest

namespace Ledger.ArePicked

variable {uniform : Nat → Float} {ledger other : Ledger}
  {results front back : List (Dice × Json)}

theorem append {k : Nat} (picked : ledger.ArePicked uniform k front)
    (more : ledger.ArePicked uniform (k + front.length) back) :
    ledger.ArePicked uniform k (front ++ back) := by
  induction front generalizing k with
  | nil => exact more
  | cons result rest ih =>
    rw [List.length_cons, ← Nat.add_assoc, Nat.add_right_comm] at more
    exact ⟨picked.1, ih picked.2 more⟩

theorem congr {k : Nat} (picked : ledger.ArePicked uniform k results)
    (same : ∀ result ∈ results, ledger.maximumValue result.1 = other.maximumValue result.1) :
    other.ArePicked uniform k results := by
  induction results generalizing k with
  | nil => trivial
  | cons result rest ih =>
    rcases List.forall_mem_cons.1 same with ⟨here, later⟩
    refine ⟨?_, ih picked.2 later⟩
    rw [← mapUniform_congr here]
    exact picked.1

/-- The result at a position is picked by the value that is taken after as many others. -/
theorem get {k i : Nat} {dice : Dice} {value : Json} (picked : ledger.ArePicked uniform k results)
    (is : results[i]? = some (dice, value)) :
    ledger.mapUniform dice (.number (.real (uniform (k + i)))) = .ok value := by
  induction results generalizing k i with
  | nil => cases is
  | cons result rest ih =>
    cases i with
    | zero =>
      cases is
      exact picked.1
    | succ i =>
      rw [Nat.add_comm i 1, ← Nat.add_assoc]
      exact ih picked.2 is

end Ledger.ArePicked

/-- When so many uniform values had been taken before, the results of dice are all that has
been drawn since. -/
structure Progress.Drew (uniform : Nat → Float) (earlier : Nat) (progress : Progress)
    (dice : List Dice) : Prop where
  draws : progress.draws = earlier + (progress.ledger.resultsOf dice).length
  picked : progress.ledger.ArePicked uniform earlier (progress.ledger.resultsOf dice)

namespace Progress.Drew

variable {uniform : Nat → Float} {earlier : Nat} {progress later : Progress}
  {dice front back : List Dice}

theorem nil (progress : Progress) : progress.Drew uniform progress.draws [] := ⟨rfl, trivial⟩

/-- What becomes of other dice does not matter. -/
theorem congr (drew : progress.Drew uniform earlier dice)
    (same : Ledger.SameResults progress.ledger later.ledger dice)
    (draws : later.draws = progress.draws) : later.Drew uniform earlier dice := by
  have results := same.resultsOf
  refine ⟨?_, ?_⟩
  · rw [draws, ← results]
    exact drew.draws
  · rw [← results]
    refine drew.picked.congr fun result member => ?_
    rcases List.mem_flatMap.1 member with ⟨d, inside, found⟩
    rcases List.mem_map.1 found with ⟨outcome, _, rfl⟩
    exact (same d inside).2

/-- Dice that are rolled later draw what comes later. -/
theorem append (drew : progress.Drew uniform earlier front)
    (more : later.Drew uniform progress.draws back)
    (same : Ledger.SameResults progress.ledger later.ledger front) :
    later.Drew uniform earlier (front ++ back) := by
  have still : ({ later with draws := progress.draws } : Progress).Drew uniform earlier front :=
    drew.congr same rfl
  have draws : progress.draws = earlier + (later.ledger.resultsOf front).length := still.draws
  refine ⟨?_, ?_⟩
  · rw [more.draws, draws, Ledger.resultsOf_append, List.length_append, Nat.add_assoc]
  · rw [Ledger.resultsOf_append]
    exact still.picked.append (draws ▸ more.picked)

end Progress.Drew

/-! ## Evaluations that end well -/

namespace Evaluation

variable {α : Type} {progress : Progress} {holds : Progress → Prop}

theorem succeeds_read (f : Ledger → Except Fault α) (here : holds progress) :
    (read f).Finishes progress (Succeeds holds) := by
  refine concludes_read ?_
  cases f progress.ledger with
  | error fault => trivial
  | ok a => exact here

theorem succeeds_refusal (dice : Dice) (fault : Fault) :
    (Context.naming dice (fail fault) : Evaluation α).Finishes progress (Succeeds holds) :=
  concludes_ite (concludes_fail trivial) (concludes_fail trivial)

end Evaluation

/-! ## Dice that are left to the uniform source -/

/-- Whether a method leaves the values of dice to the uniform source in an evaluation.  That
of an interactive method does if there is nobody to ask. -/
def Context.leavesToSource (context : Context) (method : Method) : Bool :=
  if method.interactive then
    context.synchronous || !context.allowInteractive || context.resolver.isNone
  else method.handler.isNone

/-- Whether dice take their results from the uniform source. -/
def DiceOf.IsUniform (context : Context) (ledger : Ledger) (dice : Dice) : Prop :=
  ∃ method, context.methods.named (ledger.term dice.tag.id).method = .ok method ∧
    context.leavesToSource method = true

/-- Whether results vary, and faults of modifiers are faults of the evaluation. -/
structure Context.IsExacting (context : Context) : Prop where
  lowest : context.minimize = false
  highest : context.maximize = false
  lenient : context.lenient = false

namespace Context

open Evaluation

variable {context : Context} {dice : Dice} {progress : Progress}

/-- Nobody is asked for a value: nothing is given, and nothing has been rolled. -/
def Unasked (progress : Progress) : Except Fault Json → Progress → Prop
  | .ok given, last => given = .null ∧ last.rolled = progress.rolled
  | .error _, _ => True

theorem unasked_naming {work : Evaluation Json} (finishes : work.Finishes progress
    (Unasked progress)) : (naming dice work).Finishes progress (Unasked progress) := by
  unfold Finishes naming
  split
  · exact finishes
  · exact ⟨_, _, rfl, trivial⟩

/-- Dice that are rolled digitally are left to chance. -/
theorem reportDigital_unasked (reason : String) :
    (reportDigital dice reason).Finishes progress (Unasked progress) :=
  unasked_naming ⟨_, _, rfl, rfl, rfl⟩

theorem askOutside_unasked (nobody :
      (context.synchronous || !context.allowInteractive || context.resolver.isNone) = true)
    (name : Json) (reroll explode : Bool) :
    (context.askOutside dice name reroll explode).Finishes progress (Unasked progress) := by
  have digitally (reason : String) :
      (reportDigital dice reason).Finishes progress (Unasked progress) :=
    reportDigital_unasked reason
  unfold Finishes askOutside
  cases waits : context.synchronous with
  | true =>
    cases context.strict with
    | true => exact unasked_naming ⟨_, _, rfl, trivial⟩
    | false => exact digitally _
  | false =>
    cases allowed : context.allowInteractive with
    | false => exact ⟨_, _, rfl, rfl, rfl⟩
    | true =>
      rw [waits, allowed] at nobody
      rw [Option.isNone_iff_eq_none.1 nobody]
      exact digitally _

/-- The next uniform value picks a result, and is all that is taken. -/
def Drawn (context : Context) (dice : Dice) (progress : Progress) :
    Except Fault Json → Progress → Prop
  | .ok value, last => last.rolled = (progress.ledger, progress.draws + 1) ∧
    progress.ledger.mapUniform dice (.number (.real (context.uniform progress.draws))) = .ok value
  | .error _, _ => True

/-- Dice that are left to the uniform source draw. -/
theorem nextResult_draws (exacting : context.IsExacting)
    (uniform : dice.IsUniform context progress.ledger) (reroll explode : Bool) :
    (context.nextResult dice reroll explode).Finishes progress (context.Drawn dice progress) := by
  rcases uniform with ⟨method, named, left⟩
  have reads : methodOf dice progress =
      .done (.ok (progress.ledger.term dice.tag.id).method) progress := rfl
  have found : (lift (context.methods.named (progress.ledger.term dice.tag.id).method) :
      Evaluation Method) progress = .done (.ok method) progress :=
    congrArg (Step.done · progress) named
  have asks : (context.askMethod dice (progress.ledger.term dice.tag.id).method reroll
      explode).Finishes progress (Unasked progress) := by
    unfold Finishes askMethod
    rw [bind_done found]
    unfold leavesToSource at left
    cases interactive : method.interactive with
    | true =>
      rw [interactive] at left
      exact askOutside_unasked left _ reroll explode
    | false =>
      rw [interactive] at left
      rw [Option.isNone_iff_eq_none.1 left]
      exact ⟨_, _, rfl, rfl, rfl⟩
  unfold Finishes
  rw [context.nextResult_eq_draw exacting.lowest exacting.highest]
  unfold draw
  rw [bind_done reads]
  rcases asks with ⟨result, asked, run, ended⟩
  cases result with
  | error fault => exact ⟨_, _, bind_failed run, trivial⟩
  | ok given =>
    rcases ended with ⟨rfl, same⟩
    have ledger : asked.ledger = progress.ledger := congrArg Prod.fst same
    have draws : asked.draws = progress.draws := congrArg Prod.snd same
    refine ⟨_, { asked with draws := asked.draws + 1 }, bind_done run, ?_⟩
    rw [ledger, draws]
    cases picked : progress.ledger.mapUniform dice
        (.number (.real (context.uniform progress.draws))) with
    | error fault => trivial
    | ok value => exact ⟨rfl, picked⟩

end Context

/-- Dice that are left to the uniform source are being rolled, and their results are all that
has been drawn since so many uniform values had been taken. -/
structure Progress.RollsOn (context : Context) (earlier : Nat) (dice : Dice) (progress : Progress) :
    Prop where
  uniform : dice.IsUniform context progress.ledger
  drew : progress.Drew context.uniform earlier [dice]

namespace Progress.RollsOn

variable {context : Context} {earlier low : Nat} {dice : Dice} {progress : Progress}
  (rolls : progress.RollsOn context earlier dice) (faces : AmountSpans dice.faces low dice.tag.id)
include rolls faces

/-- The state of dice can be changed if their values stay the same. -/
theorem change (f : TermState → TermState) (method : ∀ state, (f state).method = state.method)
    (values : (f (progress.ledger.term dice.tag.id)).outcomes.map (·.value) =
      (progress.ledger.term dice.tag.id).outcomes.map (·.value)) :
    (progress.updateLedger (·.updateTerm dice.tag.id f)).RollsOn context earlier dice := by
  have changed : (progress.ledger.updateTerm dice.tag.id f).term dice.tag.id =
      f (progress.ledger.term dice.tag.id) := by
    rw [Ledger.term_updateTerm, if_pos rfl]
  have before : Ledger.SameOn progress.ledger (progress.ledger.updateTerm dice.tag.id f) low
      dice.tag.id := Ledger.SameOn.updateTerm _ (Nat.le_refl _) f
  refine ⟨?_, rolls.drew.congr ?_ rfl⟩
  · rcases rolls.uniform with ⟨known, named, left⟩
    refine ⟨known, ?_, left⟩
    change context.methods.named ((progress.ledger.updateTerm _ f).term _).method = _
    rw [changed, method]
    exact named
  · intro d member
    obtain rfl := List.mem_singleton.1 member
    refine ⟨?_, before.maximumValue faces⟩
    change _ = (((progress.ledger.updateTerm _ f).term _).outcomes).map _
    rw [changed, values]
    rfl

/-- The result that a uniform value picks comes behind the others. -/
theorem adding {value : Json} {later : Progress}
    (drawn : context.Drawn dice progress (.ok value) later) :
    (later.adding dice value).RollsOn context earlier dice := by
  rcases drawn with ⟨same, picked⟩
  have ledger : later.ledger = progress.ledger := congrArg Prod.fst same
  have taken : later.draws = progress.draws + 1 := congrArg Prod.snd same
  have changed : (later.adding dice value).ledger.term dice.tag.id =
      { progress.ledger.term dice.tag.id with
        outcomes := (progress.ledger.term dice.tag.id).outcomes ++ [{ value := value }] } := by
    change (later.ledger.updateTerm dice.tag.id _).term dice.tag.id = _
    rw [ledger, Ledger.term_updateTerm, if_pos rfl]
  have results : (later.adding dice value).ledger.resultsOf [dice] =
      progress.ledger.resultsOf [dice] ++ [(dice, value)] := by
    rw [Ledger.resultsOf_single, Ledger.resultsOf_single, Ledger.outcomes, changed,
      List.map_append, List.map_append]
    rfl
  have before : Ledger.SameOn later.ledger (later.adding dice value).ledger low dice.tag.id :=
    Ledger.SameOn.updateTerm _ (Nat.le_refl _) _
  have range := before.maximumValue faces
  rw [ledger] at range
  have draws := rolls.drew.draws
  refine ⟨?_, ?_, ?_⟩
  · rcases rolls.uniform with ⟨known, named, left⟩
    refine ⟨known, ?_, left⟩
    rw [changed]
    exact named
  · rw [results, List.length_append, ← Nat.add_assoc, ← draws]
    exact taken
  · rw [results]
    refine Ledger.ArePicked.append
      (rolls.drew.picked.congr fun result member => ?_) ⟨?_, trivial⟩
    · rcases List.mem_flatMap.1 member with ⟨d, inside, found⟩
      obtain rfl := List.mem_singleton.1 inside
      rcases List.mem_map.1 found with ⟨outcome, _, rfl⟩
      exact range
    · rw [← draws, ← Ledger.mapUniform_congr range]
      exact picked

end Progress.RollsOn

theorem Context.Chain.value_mark (chain : Chain) (outcome : Outcome) :
    (chain.mark outcome).value = outcome.value := by
  unfold mark
  split <;> rfl

/-- To mark an outcome changes no value. -/
theorem Context.Chain.values_modify (chain : Chain) (outcomes : List Outcome) (position : Nat) :
    (outcomes.modify position chain.mark).map (·.value) = outcomes.map (·.value) := by
  induction outcomes generalizing position with
  | nil => rw [List.modify_nil]
  | cons outcome rest ih =>
    cases position with
    | zero => exact congrArg (· :: _) (chain.value_mark outcome)
    | succ position => exact congrArg (outcome.value :: ·) (ih position)

namespace Context

open Evaluation

variable {context : Context} {earlier low : Nat} {dice : Dice} {progress : Progress}

section

variable (exacting : context.IsExacting) (faces : AmountSpans dice.faces low dice.tag.id)
include exacting faces

/-! ## Dice -/

/-- A die that is rolled takes one uniform value, and this picks its result. -/
theorem rollOne_draws (rolls : progress.RollsOn context earlier dice) (reroll explode : Bool) :
    (context.rollOne dice reroll explode).Finishes progress
      (Succeeds fun last => last.RollsOn context earlier dice) := by
  have reads : (read fun ledger => .ok (ledger.isEvaluated (.dice dice))) progress =
      .done (.ok (progress.ledger.isEvaluated (.dice dice))) progress := rfl
  unfold Finishes rollOne
  rw [bind_done reads]
  cases progress.ledger.isEvaluated (.dice dice) with
  | true => exact succeeds_refusal dice _
  | false =>
    rw [if_neg Bool.false_ne_true]
    rcases nextResult_draws exacting rolls.uniform reroll explode with
      ⟨result, later, run, drawn⟩
    cases result with
    | error fault => exact ⟨_, _, bind_failed run, trivial⟩
    | ok value => exact ⟨_, _, bind_done run, rolls.adding faces drawn⟩

theorem chain_draws (command : Command) (recursive explode : Bool)
    (still : progress.RollsOn context earlier dice) :
    (context.chain dice command recursive explode).Finishes progress
      (Succeeds fun last => last.RollsOn context earlier dice) := by
  refine concludes_bind (succeeds_read _ still) fun target _ here => ?_
  refine concludes_ite (concludes_pure here) ?_
  refine concludes_bind (succeeds_read _ here) fun initial _ more => ?_
  refine runChain_concludes (fun reroll explode still => rollOne_draws exacting faces still reroll
    explode) command _ (fun _ _ _ _ _ => trivial) ?_ (fun _ => trivial) initial _ 0 more
  intro _ _ _ position now _
  exact now.change faces _ (fun _ => rfl) (Chain.values_modify _ _ position)

end

/-! ## Modifiers -/

/-- Modifiers keep a condition if their tallies and chains do, where none is skipped. -/
theorem runModifiers_succeeds {modified : Modified} {holds : Progress → Prop}
    (exacting : context.IsExacting)
    (tallies : ∀ action command, ∀ {progress}, holds progress →
      holds (progress.tallying modified.term action command))
    (chains : ∀ command recursive explode, ∀ {progress}, holds progress →
      (modified.chain command recursive explode).Finishes progress (Succeeds holds))
    (modifiers : List Json) (here : holds progress) :
    (context.runModifiers modified modifiers).Finishes progress (Succeeds holds) := by
  refine runModifiers_concludes ⟨fun _ _ => trivial, fun _ _ _ _ => trivial,
    fun _ _ => trivial, fun {progress} action command still => ?_,
    fun command recursive explode still => chains command recursive explode still, ?_⟩ here
  · let before : Tally := ⟨(progress.ledger.term modified.term.id).outcomes,
      (progress.ledger.term modified.term.id).counting⟩
    have run : tally modified.term action command progress =
        .done (before.carryOut action command modified.term.formula).2
          (progress.tallying modified.term action command) := rfl
    refine ⟨_, _, run, ?_⟩
    cases (before.carryOut action command modified.term.formula).2 with
    | error fault => trivial
    | ok done => exact tallies action command still
  · intro _ _ _ _ _ _ _ lenient
    rw [exacting.lenient] at lenient
    cases lenient

/-- Dice of which nothing is rolled yet draw their results. -/
theorem rollDice_draws (exacting : context.IsExacting)
    (faces : AmountSpans dice.faces low dice.tag.id)
    (uniform : dice.IsUniform context progress.ledger)
    (empty : progress.ledger.outcomes dice.tag.id = []) :
    (context.rollDice dice).Finishes progress
      (Succeeds fun last => last.Drew context.uniform progress.draws [dice]) := by
  let rolls (last : Progress) : Prop := last.RollsOn context progress.draws dice
  have none : progress.ledger.resultsOf [dice] = [] := by
    rw [Ledger.resultsOf_single, empty]
    rfl
  have begins : rolls progress := by
    refine ⟨uniform, ?_, ?_⟩
    · rw [none]
      rfl
    · rw [none]
      trivial
  have requires (what : DiceAmount) (least : Nat) (amount : Operand Term) {later : Progress}
      (here : rolls later) :
      (rollDice.requireInteger dice what least amount).Finishes later (Succeeds rolls) := by
    refine concludes_bind (succeeds_read _ here) fun value _ more => ?_
    split
    · exact concludes_ite (concludes_pure more) (succeeds_refusal dice _)
    · exact succeeds_refusal dice _
  have tallies (action : Action) (command : Command) {later : Progress} (here : rolls later) :
      rolls (later.tallying (.dice dice) action command) := by
    let before : Tally := ⟨(later.ledger.term dice.tag.id).outcomes,
      (later.ledger.term dice.tag.id).counting⟩
    have values := Outcome.values_of_become
      (before.becomes_carryOut command (Term.dice dice).formula action)
    exact here.change faces _ (fun _ => rfl) values
  have chains (command : Command) (recursive explode : Bool) {later : Progress}
      (here : rolls later) := chain_draws exacting faces command recursive explode here
  have work : (context.rollDice dice).Finishes progress (Succeeds rolls) := by
    refine concludes_bind (requires .number 0 dice.number begins) fun number _ here => ?_
    refine concludes_bind (requires .faces 1 dice.faces here) fun _ _ here => ?_
    refine concludes_bind (rollUpTo_concludes (fun reroll explode still =>
      rollOne_draws exacting faces still reroll explode) number number here) fun _ _ here => ?_
    exact @runModifiers_succeeds _ _ (context.modifiedDice dice) rolls exacting tallies chains
      dice.modifiers here
  exact concludes_imp work fun _ _ here => here.drew

end Context
end DiceNotation
