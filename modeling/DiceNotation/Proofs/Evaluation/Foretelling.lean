import DiceNotation.Proofs.Evaluation.Arithmetic
import DiceNotation.Proofs.Evaluation.Modifying
import DiceNotation.Proofs.Roll.Methods

namespace DiceNotation

/-!
# Formulas that are told in advance

Some formulas have no functions, no quotients and no remainders, and leave all of their
dice to chance.  Whether such a formula can be evaluated is told by the modifiers and words
in it.  There are two exceptions: chains that would add too many dice, and sums of integers
that are too large for the decimals they meet.  The proof follows terms, rows and rolls.
What holds of an operand is kept until its row is summed up.
-/

/-! ## Formulas in question -/

namespace Term

/-- Whether the evaluation of a single term can be told in advance. -/
def IsForeseeable (methods : MethodTable) (made : Ledger) (decimals : Bool) : Term → Prop
  | .numeric _ value => value.IsAmong decimals
  | .operator _ op => Arithmetic.IsExact op
  | .function _ _ _ => False
  | .dice d => d.IsLeftToChance methods made
  | _ => True

instance (methods : MethodTable) (made : Ledger) (decimals : Bool) :
    DecidablePred (IsForeseeable methods made decimals)
  | .numeric _ value => inferInstanceAs (Decidable (value.IsAmong decimals))
  | .operator _ op => inferInstanceAs (Decidable (op ≠ .div ∧ op ≠ .rem))
  | .function _ _ _ => .isFalse not_false
  | .dice d => inferInstanceAs (Decidable (d.IsLeftToChance methods made))
  | .pool _ => .isTrue trivial
  | .text _ _ => .isTrue trivial
  | .group _ _ => .isTrue trivial

/-- Whether a single term has no word and no modifier that cannot be carried out. -/
def IsAcceptable (lenient : Bool) : Term → Prop
  | .text _ _ => False
  | .dice d => d.kind.actions.accepts lenient (Term.dice d).formula false d.modifiers = true
  | .pool p => ActionTable.pool.accepts lenient (Term.pool p).formula false p.modifiers = true
  | _ => True

/-- Whether a single term is sound and can be told in advance. -/
structure IsTellable (methods : MethodTable) (made : Ledger) (decimals : Bool) (term : Term) :
    Prop where
  sound : term.IsSound
  foreseeable : term.IsForeseeable methods made decimals

/-- An operand has a total, or none because of decimals. -/
def IsTotalled (decimals : Bool) (ledger : Ledger) (term : Term) : Prop :=
  term.isOperand = true → Computes decimals (ledger.total term)

theorem IsTotalled.of_same {decimals : Bool} {ledger other : Ledger} {term : Term}
    {first stop : Nat} (totalled : term.IsTotalled decimals ledger) (spans : term.Spans first stop)
    (same : Ledger.SameOn ledger other first stop) : term.IsTotalled decimals other := by
  intro operand
  rw [← same.total spans]
  exact totalled operand

end Term

/-- Faults that cannot be told in advance: of chains that are cut short, and of integers
that are too large for decimals. -/
def Context.Untold (context : Context) (decimals : Bool) (fault : Fault) : Prop :=
  context.Untellable fault ∨ fault = .number .overflow ∧ decimals = true

namespace Evaluation

variable {progress : Progress} {untold : Fault → Prop} {accepted : Prop}
  {holds : Progress → Prop} {work : Evaluation Unit}

/-- Where an evaluation succeeds, it has touched nothing but what it may touch. -/
theorem foretold_touched {inside : Identity → Prop}
    (finishes : work.Finishes progress (Foretold untold accepted holds))
    (keeps : (work progress).Keeps (FrameRule.touched inside) progress) :
    work.Finishes progress (Foretold untold accepted fun last =>
      holds last ∧ progress.Touched inside last) := by
  rcases finishes with ⟨result, last, run, ended⟩
  rw [run] at keeps
  refine ⟨result, last, run, ?_⟩
  cases result with
  | ok _ => exact ⟨ended.1, ended.2, keeps⟩
  | error fault => exact ended

/-- More may be left untold. -/
theorem foretold_untold {more : Fault → Prop}
    (finishes : work.Finishes progress (Foretold untold accepted holds))
    (follows : ∀ fault, untold fault → more fault) :
    work.Finishes progress (Foretold more accepted holds) := by
  refine finishes.imp fun result last ended => ?_
  cases result with
  | ok _ => exact ended
  | error fault => exact ended.imp_right (follows fault)

/-- The evaluation of a term is told by what is inside it. -/
theorem ofTerm_foretold {term : Term}
    (untouched : (progress.ledger.term term.id).phase = .unevaluated)
    (finishes : work.Finishes (progress.entering term .evaluating)
      (Foretold untold accepted holds)) :
    (ofTerm term work).Finishes progress (Foretold untold accepted fun last =>
      ∃ later, holds later ∧ last = later.entering term .evaluated) := by
  rcases finishes with ⟨result, later, run, ended⟩
  have evaluated := ofTerm_of_done untouched run
  cases result with
  | ok _ => exact ⟨_, _, evaluated, ended.1, later, ended.2, rfl⟩
  | error fault => exact ⟨_, _, evaluated, ended⟩

end Evaluation

/-- To move a term to a phase changes no outcomes. -/
theorem Ledger.outcomes_entering (progress : Progress) (term : Term) (phase : Phase)
    (id : Identity) :
    (progress.entering term phase).ledger.outcomes id = progress.ledger.outcomes id := by
  change ((progress.ledger.updateTerm term.id _).term id).outcomes = _
  rw [Ledger.term_updateTerm]
  split
  · rename_i same
    rw [← same]
    rfl
  · rfl

/-- To move a term to a phase changes no totals. -/
theorem Ledger.totalOf_entering (progress : Progress) (term : Term) (phase : Phase) :
    (progress.entering term phase).ledger.totalOf term = progress.ledger.totalOf term := by
  have outcomes := outcomes_entering progress term phase
  cases term with
  | dice d => exact congrArg Outcome.total (outcomes d.tag.id)
  | pool p => exact congrArg Outcome.total (outcomes p.tag.id)
  | _ => rfl

/-- Consistent outcomes can be summed up if the values that count are numbers. -/
theorem Outcome.computes_total {decimals : Bool} {outcomes : List Outcome}
    (consistent : ∀ outcome ∈ outcomes, outcome.IsConsistent)
    (numbers : ∀ outcome ∈ outcomes, outcome.isActive = true → outcome.isCounted = false →
      outcome.value.IsAmong decimals) : Computes decimals (Outcome.total outcomes) := by
  apply Json.computes_total
  intro worth member
  rcases List.mem_map.1 member with ⟨outcome, found, rfl⟩
  rcases List.mem_filter.1 found with ⟨inside, active⟩
  unfold Outcome.worth
  split
  · rename_i counted
    rcases (consistent outcome inside).count with none | minus | zero | one
    · rw [Outcome.isCounted, none] at counted
      exact absurd counted Bool.false_ne_true
    · exact minus ▸ Json.isAmong_ofInt (-1)
    · exact zero ▸ Json.isAmong_ofInt 0
    · exact one ▸ Json.isAmong_ofInt 1
  · rename_i uncounted
    exact numbers outcome inside active (Bool.eq_false_iff.2 uncounted)

theorem TermState.IsTallied.computes {decimals counting : Bool} {method : Json}
    {state : TermState} (tallied : state.IsTallied decimals counting method) :
    Computes decimals (Outcome.total state.outcomes) :=
  Outcome.computes_total tallied.consistent fun outcome inside _ _ =>
    tallied.numbers outcome inside

namespace Context

open Evaluation

variable {context : Context} {made : Ledger} {decimals : Bool}

/-! ## Dice and pools -/

/-- Nothing is known of a term whose evaluation has begun but its method. -/
theorem term_entering {progress : Progress} {first stop : Nat} {term : Term}
    (intact : made.IsIntact first stop progress.ledger) (spans : term.Spans first stop) :
    (progress.entering term .evaluating).ledger.term term.id =
      { phase := .evaluating, method := (made.term term.id).method } := by
  have blank := (intact.fresh term.id spans.first_le spans.id_lt).1
  have same := (intact.same term.id spans.first_le spans.id_lt).term
  change (progress.ledger.updateTerm term.id _).term term.id = _
  rw [Ledger.term_updateTerm, if_pos rfl, ← same, blank]

/-- Nothing is rolled yet of a term whose evaluation has begun. -/
theorem tallies_entering {progress : Progress} {first stop : Nat} {term : Term}
    (intact : made.IsIntact first stop progress.ledger) (spans : term.Spans first stop) :
    (progress.entering term .evaluating).Tallies made term.id decimals false := by
  unfold Progress.Tallies
  rw [term_entering intact spans]
  exact ⟨rfl, rfl, rfl, fun _ member => absurd member List.not_mem_nil,
    fun _ member => absurd member List.not_mem_nil⟩

theorem total_entering (later : Progress) (term : Term) :
    (later.entering term .evaluated).ledger.total term = later.ledger.totalOf term := by
  rw [Ledger.total, Progress.isEvaluated_entering, if_pos rfl, Ledger.totalOf_entering]

/-- What a term amounts to when its evaluation ends. -/
theorem isTotalled_entering {term : Term} {later : Progress}
    (computes : Computes decimals (later.ledger.totalOf term)) :
    term.IsTotalled decimals (later.entering term .evaluated).ledger := by
  intro _
  rw [total_entering]
  exact computes

/-- Dice that are left to chance are refused only because of their modifiers. -/
theorem rollDice_finishes {dice : Dice} (alone : context.IsAlone) (sound : dice.IsSound)
    (left : dice.IsLeftToChance context.methods made) {progress : Progress} {counting : Bool}
    (tallied : progress.Tallies made dice.tag.id decimals counting) :
    (context.rollDice dice).Finishes progress (Foretold (context.Untold decimals)
      (dice.kind.actions.accepts context.lenient (Term.dice dice).formula counting
        dice.modifiers = true)
      fun last => ∃ after, last.Tallies made dice.tag.id decimals after) := by
  rcases left.number with ⟨n, number⟩
  rcases left.faces with ⟨m, faces, _⟩
  have enough : (0 : Int) ≤ n := by
    have bound := sound.number
    rw [number] at bound
    exact bound
  have some : (1 : Int) ≤ m := by
    have bound := sound.faces
    rw [faces] at bound
    exact bound
  have foretold : (context.modifiedDice dice).IsForetold context made decimals :=
    ⟨sound.hasFormula, fun command recursive explode still =>
      chain_finishes alone sound left command recursive explode still⟩
  rcases rollUpTo_tallies alone sound left n.toNat n.toNat tallied with
    ⟨_ | _, later, rolled, still⟩
  · exact still.elim
  unfold Finishes rollDice
  rw [number, faces, bind_done (requireInteger_of_known dice .number enough progress),
    bind_done (requireInteger_of_known dice .faces some progress), bind_done rolled]
  exact foretold_untold (runModifiers_finishes foretold dice.modifiers still) fun _ => Or.inl

/-- The total of a roll becomes an outcome of a pool. -/
theorem collect_tallies {pool : Pool} {roll : Roll} {progress : Progress} {counting : Bool}
    (among : (progress.ledger.rollTotal roll).IsAmong decimals)
    (tallied : progress.Tallies made pool.tag.id decimals counting) :
    ∃ later, collect pool roll progress = .done (.ok ()) later ∧
      later.Tallies made pool.tag.id decimals counting := by
  have plain : (progress.ledger.rollTotal roll).isText = false := by
    rcases among with ⟨n, is, _⟩
    rw [is]
    rfl
  have taken : totalButText roll (.clause .textInPool roll.formula) progress =
      .done (.ok (progress.ledger.rollTotal roll)) progress := by
    change (if (progress.ledger.rollTotal roll).isText = true then _ else _ : Evaluation Json)
      progress = _
    rw [plain, if_neg Bool.false_ne_true]
    rfl
  unfold collect
  rw [bind_done taken]
  refine ⟨_, rfl, ?_⟩
  unfold Progress.Tallies
  change ((progress.ledger.updateTerm _ _).term _).IsTallied _ _ _
  rw [Ledger.term_updateTerm, if_pos rfl]
  exact tallied.adding among

/-- Pools are refused only because of their modifiers. -/
theorem modifyPool_finishes {pool : Pool} (are : AreModifiers pool.modifiers)
    {progress : Progress} {counting : Bool}
    (tallied : progress.Tallies made pool.tag.id decimals counting) :
    (context.runModifiers (modifiedPool pool) pool.modifiers).Finishes progress
      (Foretold (context.Untold decimals)
        (ActionTable.pool.accepts context.lenient (Term.pool pool).formula counting
          pool.modifiers = true)
        fun last => ∃ after, last.Tallies made pool.tag.id decimals after) := by
  have foretold : (modifiedPool pool).IsForetold context made decimals :=
    ⟨are.areTexts, fun _ _ _ still => ⟨_, _, rfl, still⟩⟩
  exact foretold_untold (runModifiers_finishes foretold pool.modifiers tallied) fun _ => Or.inl

/-! ## Terms and rolls -/

theorem rollTotal_finishing (later : Progress) (roll : Roll) (total : Json) :
    (later.finishing roll total).ledger.rollTotal roll = total := by
  unfold Ledger.rollTotal Ledger.isRollEvaluated
  rw [later.roll_finishing]
  rfl

/-- The evaluation of a roll is told by its terms, unless decimals spoil the sum. -/
theorem ofRoll_foretold {roll : Roll} {first : Nat} (spans : RowSpans roll.terms first roll.id)
    (sound : roll.IsSound)
    (tellable : RowThroughout (Term.IsTellable context.methods made decimals) RollOf.IsSound
      roll.terms) {accepted : Prop} {start : Progress}
    (intact : made.IsIntact first (roll.id + 1) start.ledger)
    (row : ∀ begun : Progress, made.IsIntact first roll.id begun.ledger →
      (context.evaluateTerms roll.terms).Finishes begun (Foretold (context.Untold decimals)
        accepted fun later => ∀ term ∈ roll.terms, term.IsTotalled decimals later.ledger)) :
    (context.evaluateRoll roll).Finishes start (Foretold (context.Untold decimals) accepted
      fun last => (last.ledger.rollTotal roll).IsAmong decimals) := by
  have own : Between roll.id (roll.id + 1) roll.id := ⟨Nat.le_refl _, Nat.lt_succ_self _⟩
  have begun := (intact.mono (Nat.le_refl _) (Nat.le_succ _)).of_behind
    (start.touched_starting own) (Nat.le_refl _)
  have untouched := intact.waits.rollPhase (rowSpans_le spans) (Nat.lt_succ_self _)
  rcases row _ begun with ⟨result, later, run, ended⟩
  have evaluated := ofRoll_of_done untouched run
  change context.evaluateRoll roll start = _ at evaluated
  cases result with
  | error fault => exact ⟨_, later, evaluated, ended⟩
  | ok _ =>
    have sum : Computes decimals (later.ledger.totalOfTerms roll.terms) :=
      sound.computes_totalOfTerms
        (fun tag op member => (tellable.of_mem member).here.foreseeable) ended.2
    cases total : later.ledger.totalOfTerms roll.terms with
    | error fault =>
      rw [total] at evaluated sum
      exact ⟨_, later, evaluated, .inr (.inr sum)⟩
    | ok found =>
      rw [total] at evaluated sum
      refine ⟨_, _, evaluated, ended.1, ?_⟩
      change (Ledger.rollTotal _ roll).IsAmong decimals
      rw [rollTotal_finishing]
      exact sum

/-- The evaluation of a term without parts succeeds. -/
theorem simple_foretold {term : Term} {first stop : Nat} (spans : term.Spans first stop)
    {start : Progress} (intact : made.IsIntact first stop start.ledger) {accepted : Prop}
    (holds : accepted) (computes : term.isOperand = true →
      ∀ ledger : Ledger, Computes decimals (ledger.totalOf term)) :
    (ofTerm term (pure ())).Finishes start (Foretold (context.Untold decimals) accepted
      fun last => term.IsTotalled decimals last.ledger) := by
  have untouched := intact.waits.phase spans.first_le spans.id_lt
  refine ⟨_, _, ofTerm_of_done untouched rfl, holds, fun operand => ?_⟩
  rw [total_entering]
  exact computes operand _

mutual

/-- Whether the evaluation of a term succeeds is told by the modifiers and words in it. -/
theorem evaluateTerm_foretold (alone : context.IsAlone)
    (wordless : context.allowStrings = false) : (term : Term) → {first stop : Nat} →
    term.Spans first stop →
    term.Throughout (Term.IsTellable context.methods made decimals) RollOf.IsSound →
    (start : Progress) → made.IsIntact first stop start.ledger →
    (context.evaluateTerm term).Finishes start (Foretold (context.Untold decimals)
      (term.Throughout (Term.IsAcceptable context.lenient) fun _ => True)
      fun last => term.IsTotalled decimals last.ledger)
  | .numeric tag value, _, _, spans, tellable, start, intact => by
    unfold evaluateTerm
    exact simple_foretold spans intact trivial fun _ _ => tellable.foreseeable
  | .operator tag op, _, _, spans, _, start, intact => by
    unfold evaluateTerm
    exact simple_foretold spans intact trivial nofun
  | .text tag word, _, _, spans, _, start, intact => by
    have untouched := intact.waits.phase spans.first_le spans.id_lt
    have refused : context.allowWord (.text tag word) =
        .fail (.clauseData .unrecognizedTerm (Term.text tag word).formulaData) := by
      unfold allowWord
      rw [wordless, if_neg Bool.false_ne_true]
    unfold Finishes evaluateTerm
    rw [refused]
    exact ⟨_, _, ofTerm_of_done untouched rfl, .inl id⟩
  | .function tag fn rolls, _, _, _, ⟨⟨_, foreseeable⟩, _⟩, _, _ => foreseeable.elim
  | .group tag roll, first, stop, spans, ⟨_, sound, inside⟩, start, intact => by
    have ⟨row, named, _⟩ := spans
    have inner : (Term.group tag roll).id = roll.id + 1 := named
    have own : Between (roll.id + 1) stop (Term.group tag roll).id :=
      ⟨Nat.le_of_eq inner.symm, spans.id_lt⟩
    have below : roll.id + 1 ≤ stop := by
      rw [← inner]
      exact Nat.le_of_lt spans.id_lt
    have waiting : made.IsIntact first (roll.id + 1)
        (start.entering (.group tag roll) .evaluating).ledger :=
      (intact.mono (Nat.le_refl _) below).of_behind (start.touched_entering own _) (Nat.le_refl _)
    have untouched := intact.waits.phase spans.first_le spans.id_lt
    have not := waiting.waits.isRollEvaluated (rowSpans_le row) (Nat.lt_succ_self _)
    have around := ofRoll_foretold row sound inside waiting fun begun ready =>
      evaluateTerms_foretell alone wordless roll.terms row inside begun ready
    unfold evaluateTerm
    have work := around.of_eq (unlessRollEvaluated_of_not not _)
    refine foretold_imp (ofTerm_foretold untouched work)
      ⟨fun row => ⟨trivial, trivial, row⟩, fun whole => whole.2.2⟩ ?_
    rintro _ ⟨later, among, rfl⟩
    exact isTotalled_entering among
  | .dice d, first, stop, spans, ⟨⟨sound, left⟩, _⟩, start, intact => by
    have untouched := intact.waits.phase spans.first_le spans.id_lt
    have tallied : Progress.Tallies made _ decimals false _ := tallies_entering intact spans
    rcases left.number with ⟨n, number⟩
    rcases left.faces with ⟨m, faces, _⟩
    have work := rollDice_finishes alone sound left tallied
    unfold evaluateTerm
    rw [number, faces]
    refine foretold_imp (ofTerm_foretold untouched work) ⟨fun accepted => ⟨accepted, ?_⟩,
      fun whole => whole.1⟩ ?_
    · rw [number, faces]
      exact ⟨trivial, trivial⟩
    · rintro _ ⟨later, ⟨_, still⟩, rfl⟩
      exact isTotalled_entering still.computes
  | .pool p, first, stop, spans, ⟨⟨are, _⟩, parts⟩, start, intact => by
    have untouched := intact.waits.phase spans.first_le spans.id_lt
    have tallied : Progress.Tallies made _ decimals false _ := tallies_entering intact spans
    have own : Between p.tag.id stop (Term.pool p).id := ⟨Nat.le_refl _, spans.id_lt⟩
    have waiting : made.IsIntact first p.tag.id
        (start.entering (.pool p) .evaluating).ledger :=
      (intact.mono (Nat.le_refl _) (Nat.le_of_lt spans.id_lt)).of_behind
        (start.touched_entering own _) (Nat.le_refl _)
    have used : p.tag.id < (start.entering (.pool p) .evaluating).ledger.next :=
      Nat.lt_of_lt_of_le spans.id_lt intact.used
    have rolls := evaluateRolls_foretell alone wordless p.rolls spans.1 parts (Nat.le_refl _) _
      waiting used tallied
    have work : (context.evaluateRolls (collect p) p.rolls >>= fun _ =>
        context.runModifiers (modifiedPool p) p.modifiers).Finishes _ _ :=
      foretold_bind rolls fun later _ still => modifyPool_finishes are still
    unfold evaluateTerm
    refine foretold_imp (ofTerm_foretold untouched work) ⟨fun ⟨inside, accepted⟩ =>
      ⟨accepted, inside⟩, fun ⟨accepted, inside⟩ => ⟨inside, accepted⟩⟩ ?_
    rintro _ ⟨later, ⟨_, still⟩, rfl⟩
    exact isTotalled_entering still.computes

/-- The evaluation of a row is told by its terms. -/
theorem evaluateTerms_foretell (alone : context.IsAlone)
    (wordless : context.allowStrings = false) : (terms : List Term) → {first stop : Nat} →
    RowSpans terms first stop →
    RowThroughout (Term.IsTellable context.methods made decimals) RollOf.IsSound terms →
    (start : Progress) → made.IsIntact first stop start.ledger →
    (context.evaluateTerms terms).Finishes start (Foretold (context.Untold decimals)
      (RowThroughout (Term.IsAcceptable context.lenient) (fun _ => True) terms)
      fun last => ∀ term ∈ terms, term.IsTotalled decimals last.ledger)
  | [], _, _, _, _, start, _ => by
    unfold evaluateTerms
    exact ⟨_, _, rfl, trivial, fun _ member => absurd member List.not_mem_nil⟩
  | term :: rest, first, stop, ⟨middle, here, later⟩, ⟨head, tail⟩, start, intact => by
    have waiting := intact.mono (Nat.le_refl _) (rowSpans_le later)
    have not := waiting.waits.isEvaluated here.first_le here.id_lt
    have single := foretold_touched
      (evaluateTerm_foretold alone wordless term here head start waiting)
      (keeps_evaluateTerm context.follows_touched term here.inside start)
    have work := single.of_eq (unlessEvaluated_of_not not _)
    unfold evaluateTerms
    refine foretold_bind work fun between _ ⟨totalled, touched⟩ => ?_
    have next := (intact.mono (Nat.le_of_lt here.lt) (Nat.le_refl _)).of_before touched
      (Nat.le_refl _)
    have others := foretold_touched
      (evaluateTerms_foretell alone wordless rest later tail between next)
      (keeps_evaluateTerms context.follows_touched rest later.inside between)
    refine foretold_imp others Iff.rfl fun last ⟨rest, since⟩ => ?_
    refine List.forall_mem_cons.2 ⟨totalled.of_same here ?_, rest⟩
    exact Ledger.Touched.sameOn since (Nat.le_trans waiting.used touched.next_le)
      fun _ _ below inside => Nat.not_lt.2 inside.1 below

/-- The evaluation of the rolls of a pool is told by their terms. -/
theorem evaluateRolls_foretell (alone : context.IsAlone)
    (wordless : context.allowStrings = false) {pool : Pool} : (rolls : List Roll) →
    {first stop : Nat} →
    RollsSpan rolls first stop →
    RollsThroughout (Term.IsTellable context.methods made decimals) RollOf.IsSound rolls →
    stop ≤ pool.tag.id → (start : Progress) → made.IsIntact first stop start.ledger →
    pool.tag.id < start.ledger.next → start.Tallies made pool.tag.id decimals false →
    (context.evaluateRolls (collect pool) rolls).Finishes start
      (Foretold (context.Untold decimals)
        (RollsThroughout (Term.IsAcceptable context.lenient) (fun _ => True) rolls)
        fun last => last.Tallies made pool.tag.id decimals false)
  | [], _, _, _, _, _, start, _, _, tallied => by
    unfold evaluateRolls
    exact ⟨_, _, rfl, trivial, tallied⟩
  | roll :: rest, first, stop, ⟨row, later⟩, ⟨sound, inside, tail⟩, behind, start, intact, used,
      tallied => by
    have before := rowSpans_le row
    have within := rollsSpan_le later
    have waiting := intact.mono (Nat.le_refl _) within
    have not := waiting.waits.isRollEvaluated before (Nat.lt_succ_self _)
    have lies : roll.Inside (Between first (roll.id + 1)) := RollOf.Spans.inside ⟨row, rfl⟩
    have around := foretold_touched (ofRoll_foretold row sound inside waiting fun begun ready =>
      evaluateTerms_foretell alone wordless roll.terms row inside begun ready)
      (keeps_evaluateRoll context.follows_touched lies.around lies.row start)
    have work := around.of_eq (unlessRollEvaluated_of_not not _)
    unfold evaluateRolls
    refine foretold_imp (@foretold_bind _ _ _ (RollsThroughout _ _ rest) _
      (fun last => last.Tallies made pool.tag.id decimals false) _ _ work
      fun between _ ⟨among, touched⟩ => ?_)
      ⟨fun ⟨here, others⟩ => ⟨trivial, here, others⟩, fun whole => whole.2⟩ fun _ => id
    have own := touched.outside pool.tag.id used fun inside =>
      Nat.not_lt.2 (Nat.le_trans within behind) inside.2
    have still : between.Tallies made pool.tag.id decimals false := by
      unfold Progress.Tallies
      rw [← own.term]
      exact tallied
    rcases collect_tallies among still with ⟨next, collected, counted⟩
    unfold Finishes
    rw [bind_done collected]
    have here : Between pool.tag.id (pool.tag.id + 1) pool.tag.id :=
      ⟨Nat.le_refl _, Nat.lt_succ_self _⟩
    have only : (collect pool roll between).Keeps (FrameRule.touched _) between :=
      keeps_collect here roll between
    rw [collected] at only
    have ahead : made.IsIntact (roll.id + 1) stop next.ledger :=
      ((intact.mono (Nat.le_succ_of_le before) (Nat.le_refl _)).of_before touched
        (Nat.le_refl _)).of_behind only behind
    exact evaluateRolls_foretell alone wordless rest later tail behind next ahead
      (Nat.lt_of_lt_of_le used (Nat.le_trans touched.next_le only.next_le)) counted

end

/-- Whether the evaluation of a roll succeeds is told by the modifiers and words in it. -/
theorem evaluateRoll_foretold (alone : context.IsAlone) (wordless : context.allowStrings = false)
    {roll : Roll} {first stop : Nat} (spans : roll.Spans first stop) (sound : roll.IsSound)
    (tellable : RowThroughout (Term.IsTellable context.methods made decimals) RollOf.IsSound
      roll.terms) {start : Progress} (intact : made.IsIntact first stop start.ledger) :
    (context.evaluateRoll roll).Finishes start (Foretold (context.Untold decimals)
      (RowThroughout (Term.IsAcceptable context.lenient) (fun _ => True) roll.terms)
      fun last => (last.ledger.rollTotal roll).IsAmong decimals) := by
  rcases spans with ⟨row, rfl⟩
  exact ofRoll_foretold row sound tellable intact fun begun ready =>
    evaluateTerms_foretell alone wordless roll.terms row tellable begun ready

end Context
end DiceNotation
