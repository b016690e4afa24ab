import DiceNotation.Proofs.Evaluation.DrawnRolls
import DiceNotation.Proofs.Evaluation.RollSlips
import DiceNotation.Proofs.Evaluation.Sifting
import DiceNotation.Proofs.Fulfillment.Refinement

namespace DiceNotation

/-!
# Between the lowest and the highest

A sum of integers and sifted dice lies between what it is as low and as high as can be.  In all
three evaluations equally many results are added up, whatever has been rolled again in between,
and each of them lies between the least and the greatest one of its die.
-/

/-! ## Sums -/

namespace Term

/-- Whether a term has a place in a sum of integers and sifted dice. -/
def isAddend : Term → Bool
  | .numeric _ (.number (.int _)) => true
  | .operator _ op => op == .add
  | .dice d => d.isSifted
  | _ => false

/-- What an addend amounts to at least. -/
def least : Term → Int
  | .numeric _ (.number (.int n)) => n
  | .dice d => d.kept * d.kind.minimum
  | _ => 0

/-- What an addend amounts to at most. -/
def greatest : Term → Int
  | .numeric _ (.number (.int n)) => n
  | .dice d => d.kept * d.greatest
  | _ => 0

/-- A term has a total within its bounds.  Dice have as many active results as their modifiers
leave. -/
structure IsWithin (context : Context) (ledger : Ledger) (term : Term) : Prop where
  total : term.isOperand = true → ∃ value : Int, ledger.total term = .ok (.ofInt value) ∧
    context.Admits term.least term.greatest value
  active : ∀ dice, term = .dice dice →
    (ledger.outcomes dice.tag.id).countP Outcome.isActive = dice.kept

theorem IsWithin.of_same {context : Context} {ledger other : Ledger} {term : Term}
    {first stop : Nat} (within : term.IsWithin context ledger) (spans : term.Spans first stop)
    (same : Ledger.SameOn ledger other first stop) : term.IsWithin context other := by
  refine ⟨fun operand => ?_, ?_⟩
  · rw [← same.total spans]
    exact within.total operand
  · rintro dice rfl
    have state := (same dice.tag.id spans.first_le spans.id_lt).term
    rw [Ledger.outcomes, ← state]
    exact within.active dice rfl

end Term

/-- A sum lies within the sums of the bounds. -/
theorem Tree.total_within {context : Context} {totalOf : Term → Except Fault Json}
    {formula : String} {tree : Tree Term} (adds : ∀ next ∈ tree.row.2, next.1 = .add)
    (within : ∀ term ∈ tree.leaves, ∃ value : Int, totalOf term = .ok (.ofInt value) ∧
      context.Admits term.least term.greatest value) :
    ∃ value : Int, tree.total totalOf formula = .ok (.ofInt value) ∧
      context.Admits (tree.leaves.map Term.least).sum (tree.leaves.map Term.greatest).sum
        value := by
  induction tree with
  | leaf term =>
    rcases within term (List.mem_singleton.2 rfl) with ⟨value, total, admits⟩
    refine ⟨value, total, ?_⟩
    rw [Tree.leaves, List.map_singleton, List.map_singleton, List.sum_singleton,
      List.sum_singleton]
    exact admits
  | node op left right left_ih right_ih =>
    rcases List.forall_mem_append.1 adds with ⟨before, later⟩
    rcases List.forall_mem_cons.1 later with ⟨here, behind⟩
    rcases List.forall_mem_append.1 within with ⟨withinLeft, withinRight⟩
    rcases left_ih before withinLeft with ⟨l, first, admits⟩
    rcases right_ih behind withinRight with ⟨r, second, other⟩
    refine ⟨l + r, ?_, ?_⟩
    · have joined : op.apply formula (.ofInt l) (.ofInt r) = .ok (.ofInt (l + r)) := by
        rw [show op = .add from here]
        rfl
      unfold Tree.total
      rw [first, second]
      exact joined
    · rw [Tree.leaves, List.map_append, List.map_append, List.sum_append, List.sum_append]
      exact admits.add other

/-- A sum has a total within its bounds, and its dice have as many active results as their
modifiers leave. -/
structure RollOf.IsWithin (context : Context) (row : TermRow) (ledger : Ledger) (roll : Roll) :
    Prop where
  total : ∃ value : Int, ledger.rollTotal roll = .ofInt value ∧
    context.Admits (row.operands.map Term.least).sum (row.operands.map Term.greatest).sum value
  active : ∀ dice, Term.dice dice ∈ roll.terms →
    (ledger.outcomes dice.tag.id).countP Outcome.isActive = dice.kept

namespace Context

open Evaluation

variable {context : Context} {made : Ledger}

/-- An evaluation succeeds with what holds, unless it fails because of the values. -/
abbrev Bounds (context : Context) (holds : Progress → Prop) : Except Fault Unit → Progress → Prop :=
  Concludes (fun _ _ => context.isFixed = false) fun _ => holds

section

variable (unaided : context.resolver = none) (fair : context.IsFair)
include unaided fair

theorem evaluateTerm_within {term : Term} {first stop : Nat} (spans : term.Spans first stop)
    (sound : term.IsSound) (addend : term.isAddend = true) {start : Progress}
    (intact : made.IsIntact first stop start.ledger) :
    (context.evaluateTerm term).Finishes start
      (context.Bounds fun last => term.IsWithin context last.ledger) := by
  have untouched := intact.waits.phase spans.first_le spans.id_lt
  cases term with
  | numeric tag value =>
    cases value with
    | number n =>
      cases n with
      | int n =>
        unfold evaluateTerm
        refine ⟨_, _, ofTerm_of_done untouched rfl, fun _ => ?_, nofun⟩
        rw [total_entering]
        exact ⟨n, rfl, context.admits_self n⟩
      | real x => cases addend
    | _ => cases addend
  | operator tag op =>
    unfold evaluateTerm
    exact ⟨_, _, ofTerm_of_done untouched rfl, nofun, nofun⟩
  | dice d =>
    rcases Bool.and_eq_true_iff.1 addend with ⟨ready, sifted⟩
    rcases DiceOf.known_of_isReady ready with ⟨⟨number, counted⟩, faces, sided⟩
    have begun : (start.entering (.dice d) .evaluating).ledger.term d.tag.id =
        { phase := .evaluating, method := (made.term d.tag.id).method } :=
      term_entering intact spans
    have none : (start.entering (.dice d) .evaluating).ledger.outcomes d.tag.id = [] :=
      congrArg TermState.outcomes begun
    have shows : (start.entering (.dice d) .evaluating).Shows context d 0 := by
      refine ⟨congrArg TermState.phase begun, ?_, ?_⟩
      · rw [none]
        exact fun _ member => absurd member List.not_mem_nil
      · rw [none]
        rfl
    have rolls : (context.evaluateAmount d.number >>= fun _ =>
        context.evaluateAmount d.faces >>= fun _ => context.rollDice d).Finishes
          (start.entering (.dice d) .evaluating) (context.Keeps d d.kept) := by
      rw [counted, sided]
      unfold evaluateAmount
      exact rollDice_shows unaided fair sound ready sifted shows none
    unfold evaluateTerm
    rcases rolls with ⟨result, later, run, ended⟩
    have evaluated := ofTerm_of_done untouched run
    cases result with
    | error fault => exact ⟨_, _, evaluated, ended.free⟩
    | ok done =>
      refine ⟨_, _, evaluated, fun _ => ?_, ?_⟩
      · rcases Outcome.total_within ended.within with ⟨value, total, admits⟩
        rw [ended.active] at admits
        rw [total_entering]
        exact ⟨value, total, admits⟩
      · intro other is
        cases is
        rw [Ledger.outcomes_entering]
        exact ended.active
  | _ => cases addend

/-- The terms of a sum are evaluated one after another, each within its bounds. -/
theorem evaluateTerms_within {terms : List Term} {first stop : Nat}
    (spans : RowSpans terms first stop) (sound : ∀ term ∈ terms, term.IsSound)
    (addends : terms.all Term.isAddend = true) {start : Progress}
    (intact : made.IsIntact first stop start.ledger) :
    (context.evaluateTerms terms).Finishes start
      (context.Bounds fun last => ∀ term ∈ terms, term.IsWithin context last.ledger) := by
  induction terms generalizing first start with
  | nil =>
    unfold evaluateTerms
    exact concludes_pure fun _ member => absurd member List.not_mem_nil
  | cons term rest ih =>
    have ⟨middle, here, later⟩ := spans
    rcases List.forall_mem_cons.1 sound with ⟨head, tail⟩
    rcases Bool.and_eq_true_iff.1 addends with ⟨addend, others⟩
    have waiting := intact.mono (Nat.le_refl _) (rowSpans_le later)
    have not := waiting.waits.isEvaluated here.first_le here.id_lt
    have single := concludes_touched (evaluateTerm_within unaided fair here head addend waiting)
      (keeps_evaluateTerm context.follows_touched term here.inside start)
    unfold evaluateTerms
    refine concludes_bind (single.of_eq (unlessEvaluated_of_not not _))
      fun _ between ⟨within, touched⟩ => ?_
    have next := (intact.mono (Nat.le_of_lt here.lt) (Nat.le_refl _)).of_before touched
      (Nat.le_refl _)
    have more := concludes_touched (ih later tail others next)
      (keeps_evaluateTerms context.follows_touched rest later.inside between)
    refine concludes_imp more fun _ last ⟨rest, since⟩ => ?_
    refine List.forall_mem_cons.2 ⟨within.of_same here ?_, rest⟩
    exact Ledger.Touched.sameOn since (Nat.le_trans waiting.used touched.next_le)
      fun _ _ below inside => Nat.not_lt.2 inside.1 below

/-- A sum is evaluated within its bounds, unless that fails because of the values. -/
theorem evaluateRoll_within {roll : Roll} {row : TermRow} (same : roll.terms = row.terms)
    (proper : row.IsProper) {first stop : Nat} (spans : roll.Spans first stop)
    (sound : ∀ term ∈ roll.terms, term.IsSound) (addends : roll.terms.all Term.isAddend = true)
    {start : Progress} (intact : made.IsIntact first stop start.ledger) :
    (context.evaluateRoll roll).Finishes start
      (context.Bounds fun last => roll.IsWithin context row last.ledger) := by
  rcases spans with ⟨around, rfl⟩
  have own : Between roll.id (roll.id + 1) roll.id := ⟨Nat.le_refl _, Nat.lt_succ_self _⟩
  have begun := (intact.mono (Nat.le_refl _) (Nat.le_succ _)).of_behind
    (start.touched_starting own) (Nat.le_refl _)
  have untouched := intact.waits.rollPhase (rowSpans_le around) (Nat.lt_succ_self _)
  rcases evaluateTerms_within unaided fair around sound addends begun with
    ⟨result, later, run, ended⟩
  have evaluated := ofRoll_of_done untouched run
  change context.evaluateRoll roll start = _ at evaluated
  cases result with
  | error fault => exact ⟨_, later, evaluated, ended⟩
  | ok done =>
    have sum : ∃ value : Int, later.ledger.totalOfTerms roll.terms = .ok (.ofInt value) ∧
        context.Admits (row.operands.map Term.least).sum (row.operands.map Term.greatest).sum
          value := by
      rw [same] at ended addends ⊢
      rw [Ledger.totalOfTerms, TermRow.treeOfTerms_terms proper, ← TermRow.leaves_tree]
      refine Tree.total_within (fun next member => ?_) fun term member => ?_
      · rw [Tree.row_ofRun] at member
        rcases TermRow.mem_terms_of_mem_joined member with ⟨tag, inside⟩
        exact beq_iff_eq.1 (List.all_eq_true.1 addends _ inside)
      · rw [TermRow.leaves_tree] at member
        exact (ended term (TermRow.mem_terms_of_mem_operands member)).total (proper term member)
    rcases sum with ⟨value, total, admits⟩
    rw [total] at evaluated
    refine ⟨_, _, evaluated, ⟨value, ?_, admits⟩, fun dice member => ?_⟩
    · exact rollTotal_finishing later roll _
    · exact (ended _ member).active dice rfl

end

end Context

namespace Build

section

variable {surroundings : Surroundings} {input : RollInput} {ledger made : Ledger} {roll : Roll}
  (built : ofFormula surroundings.setup input ledger = .ok (roll, made))
  (addends : roll.terms.all Term.isAddend = true) (unaided : surroundings.resolver = none)
  (fair : ∀ k, 0 ≤ surroundings.uniform k ∧ surroundings.uniform k < 1) {start : Progress}
  (begins : start.ledger = made) {row : TermRow} (same : roll.terms = row.terms)
  (proper : row.IsProper)
include built addends unaided fair begins same proper

/-- With any options, a sum is evaluated within the same bounds. -/
theorem run_within (options : Options) : ∃ (context : Context) (result : Except Fault Unit)
    (last : Progress), roll.run options surroundings start = (result, last) ∧
      context.minimize = options.minimize ∧ context.maximize = options.maximize ∧
      context.Bounds (fun last => roll.IsWithin context row last.ledger) result last := by
  have isMade := ofFormula_isMade built
  have sound (term : Term) (member : term ∈ roll.terms) : term.IsSound :=
    (isMade.row.of_mem member).here.sound
  have intact : start.ledger.IsIntact ledger.next made.next start.ledger :=
    ⟨begins ▸ isMade.fresh, Ledger.SameOn.refl _, Nat.le_of_eq (congrArg Ledger.next begins.symm)⟩
  have untouched := intact.waits.rollPhase isMade.spans.bounds.1 isMade.spans.bounds.2
  rcases Resolver.forRoll_of_built built options with ⟨context, valid, _, asks⟩
  rcases options.eq_of_forRoll valid with ⟨lenient, limit, rfl⟩
  rcases Context.evaluateRoll_within (asks.trans unaided) fair same proper isMade.spans sound
    addends intact with ⟨result, last, run, ended⟩
  refine ⟨_, result, last, ?_, rfl, rfl, ended⟩
  rw [run_of_none unaided untouched valid, run]
  rfl

/-- Where chance plays no part, the evaluation succeeds. -/
theorem run_fixed {options : Options} (fixed : (options.minimize || options.maximize) = true) :
    ∃ (context : Context) (last : Progress),
      roll.run options surroundings start = (.ok (), last) ∧
      context.minimize = options.minimize ∧ context.maximize = options.maximize ∧
      roll.IsWithin context row last.ledger := by
  rcases run_within built addends unaided fair begins same proper options with
    ⟨context, result, last, run, least, greatest, ended⟩
  cases result with
  | ok done => exact ⟨context, last, run, least, greatest, ended⟩
  | error fault =>
    have free : (context.minimize || context.maximize) = false := ended
    rw [least, greatest, fixed] at free
    cases free

end

/-- A sum of integers and of dice whose modifiers only keep, drop and roll again can be evaluated
as low and as high as can be, whatever the other options are.  If it is evaluated with any options,
its total lies between the two others, and each die has equally many active results in all
three. -/
theorem total_between_lowest_and_highest {surroundings : Surroundings} {input : RollInput}
    {ledger made : Ledger} {roll : Roll}
    (built : ofFormula surroundings.setup input ledger = .ok (roll, made))
    (addends : roll.terms.all Term.isAddend = true) (unaided : surroundings.resolver = none)
    (fair : ∀ k, 0 ≤ surroundings.uniform k ∧ surroundings.uniform k < 1) {start : Progress}
    (begins : start.ledger = made) {low high : Options} (minimizes : low.minimize = true)
    (maximizes : high.maximize = true) (varies : high.minimize = false) {options : Options}
    {last : Progress} (succeeds : roll.run options surroundings start = (.ok (), last)) :
    ∃ (bottom top : Progress) (least total greatest : Int),
      roll.run low surroundings start = (.ok (), bottom) ∧
      roll.run high surroundings start = (.ok (), top) ∧
      bottom.ledger.rollTotal roll = .ofInt least ∧ last.ledger.rollTotal roll = .ofInt total ∧
      top.ledger.rollTotal roll = .ofInt greatest ∧ least ≤ total ∧ total ≤ greatest ∧
      ∀ dice, Term.dice dice ∈ roll.terms →
        (bottom.ledger.outcomes dice.tag.id).countP Outcome.isActive =
          (last.ledger.outcomes dice.tag.id).countP Outcome.isActive ∧
        (top.ledger.outcomes dice.tag.id).countP Outcome.isActive =
          (last.ledger.outcomes dice.tag.id).countP Outcome.isActive := by
  rcases (ofFormula_isMade built).sound.alternates with ⟨row, same, proper⟩
  rcases run_within built addends unaided fair begins same proper options with
    ⟨context, result, final, run, _, _, between⟩
  cases succeeds.symm.trans run
  have lowest : (low.minimize || low.maximize) = true := by rw [minimizes, Bool.true_or]
  have highest : (high.minimize || high.maximize) = true := by rw [maximizes, Bool.or_true]
  rcases run_fixed built addends unaided fair begins same proper lowest with
    ⟨lower, bottom, runLow, asLow, _, within⟩
  rcases run_fixed built addends unaided fair begins same proper highest with
    ⟨upper, top, runHigh, varied, asHigh, withinToo⟩
  rcases between.total with ⟨total, is, admits⟩
  rcases within.total with ⟨least, isLeast, admitsLeast⟩
  rcases withinToo.total with ⟨greatest, isGreatest, admitsGreatest⟩
  refine ⟨bottom, top, least, total, greatest, runLow, runHigh, isLeast, is, isGreatest, ?_, ?_,
    fun dice member => ?_⟩
  · rw [admitsLeast.lowest (asLow.trans minimizes)]
    exact admits.above
  · rw [admitsGreatest.highest (varied.trans varies) (asHigh.trans maximizes)]
    exact admits.below
  · rw [within.active dice member, between.active dice member, withinToo.active dice member]
    exact ⟨rfl, rfl⟩

/-- Four dice of which low ones are rolled again and three are kept, two of which the lower one
is dropped, and an integer. -/
def siftedSum : RollInput where
  formula := "4d6r<3kh3 + 2d8d + 5"
  method := .string "random"

/-- Where the sum is evaluated. -/
def turning : Surroundings := ⟨usual, false, byTurns, none⟩

theorem byTurns_fair (k : Nat) : 0 ≤ byTurns k ∧ byTurns k < 1 := by
  unfold byTurns
  split
  · exact (by decide : (0 : Float) ≤ 0.9375 ∧ (0.9375 : Float) < 1)
  · exact (by decide : (0 : Float) ≤ 0.125 ∧ (0.125 : Float) < 1)

/-- The sum lies between the two others. -/
theorem between_of_siftedSum : ∃ roll made last bottom top, ∃ least total greatest : Int,
    ofFormula usual siftedSum .empty = .ok (roll, made) ∧
    roll.run {} turning (.ofLedger made) = (.ok (), last) ∧
    roll.run { minimize := true } turning (.ofLedger made) = (.ok (), bottom) ∧
    roll.run { maximize := true } turning (.ofLedger made) = (.ok (), top) ∧
    bottom.ledger.rollTotal roll = .ofInt least ∧ last.ledger.rollTotal roll = .ofInt total ∧
    top.ledger.rollTotal roll = .ofInt greatest ∧ least ≤ total ∧ total ≤ greatest := by
  have computed : (do
      let pair ← ofFormula usual siftedSum .empty
      return pair.1.terms.all Term.isAddend &&
        (pair.1.run {} turning (.ofLedger pair.2)).1.isOk).toOption = some true := by
    decide +kernel
  rcases result_bind (result_of_toOption computed) with ⟨⟨roll, made⟩, built, rest⟩
  rcases Bool.and_eq_true_iff.1 (Except.ok.inj rest) with ⟨addends, succeeds⟩
  cases run : roll.run {} turning (.ofLedger made) with
  | mk result last =>
    rw [run] at succeeds
    cases result with
    | error fault => cases succeeds
    | ok done =>
      rcases @total_between_lowest_and_highest turning siftedSum .empty made roll built addends rfl
        byTurns_fair (.ofLedger made) rfl { minimize := true } { maximize := true } rfl rfl rfl {}
        last run with
        ⟨bottom, top, least, total, greatest, runLow, runHigh, isLeast, is, isGreatest, above,
          below, _⟩
      exact ⟨roll, made, last, bottom, top, least, total, greatest, built, run, runLow, runHigh,
        isLeast, is, isGreatest, above, below⟩

end Build
end DiceNotation
