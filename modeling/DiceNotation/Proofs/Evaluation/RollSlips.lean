import DiceNotation.Proofs.Evaluation.DiceSlips
import DiceNotation.Proofs.Evaluation.Foretelling

namespace DiceNotation

/-!
# Rolls where nothing can be waited for

The evaluation of a roll fails only with faults that its writer is told about, unless there
is something in it that allows for others.  The proof follows terms, rows and rolls.  What it
carries along is that totals are numbers: whatever is combined, compared, counted or rolled
again further out, is a number then.
-/

/-- What a term must keep to so that its evaluation fails only in ways that are allowed,
whatever is inside it. -/
def Term.IsTame (methods : MethodTable) (made : Ledger) (decimals single : Bool) : Term → Prop
  | .numeric _ value => value.IsAmong decimals
  | .operator _ op => decimals = false → Arithmetic.IsExact op
  | .function _ fn rolls => fn.takes rolls.length = true ∧
    (decimals = false → fn.KeepsIntegers) ∧
    (single = false → fn.arity = none → rolls.length ≠ 1)
  | .dice d => d.IsRollable methods made decimals
  | .pool p => AreModifiers p.modifiers
  | _ => True

namespace Context

open Evaluation

variable {context : Context} {made : Ledger} {decimals single : Bool}

/-! ## Terms and rolls -/

/-- A term fares as what is inside it does. -/
theorem ofTerm_fares {term : Term} {work : Evaluation Unit} {progress : Progress}
    {holds : Progress → Prop} (untouched : (progress.ledger.term term.id).phase = .unevaluated)
    (fares : work.Finishes (progress.entering term .evaluating) (Fares decimals single holds)) :
    (ofTerm term work).Finishes progress (Fares decimals single fun last =>
      ∃ later, holds later ∧ last = later.entering term .evaluated) := by
  rcases fares with ⟨result, later, run, ended⟩
  have evaluated := ofTerm_of_done untouched run
  cases result with
  | ok _ => exact ⟨_, _, evaluated, later, ended, rfl⟩
  | error fault => exact ⟨_, _, evaluated, ended⟩

/-- The total of a roll whose terms have totals is a number. -/
theorem ofRoll_fares {roll : Roll} {first : Nat} (spans : RowSpans roll.terms first roll.id)
    (sound : roll.IsSound)
    (tame : RowThroughout (Term.IsTame context.methods made decimals single) RollOf.IsSound
      roll.terms) {start : Progress}
    (intact : made.IsIntact first (roll.id + 1) start.ledger)
    (row : ∀ begun : Progress, made.IsIntact first roll.id begun.ledger →
      (context.evaluateTerms roll.terms).Finishes begun (Fares decimals single fun later =>
        ∀ term ∈ roll.terms, term.IsTotalled decimals later.ledger)) :
    (context.evaluateRoll roll).Finishes start (Fares decimals single fun last =>
      (last.ledger.rollTotal roll).IsAmong decimals) := by
  have own : Between roll.id (roll.id + 1) roll.id := ⟨Nat.le_refl _, Nat.lt_succ_self _⟩
  have begun := (intact.mono (Nat.le_refl _) (Nat.le_succ _)).of_behind
    (start.touched_starting own) (Nat.le_refl _)
  have untouched := intact.waits.rollPhase (rowSpans_le spans) (Nat.lt_succ_self _)
  rcases row _ begun with ⟨result, later, run, ended⟩
  have evaluated := ofRoll_of_done untouched run
  change context.evaluateRoll roll start = _ at evaluated
  cases result with
  | error fault => exact ⟨_, later, evaluated, ended⟩
  | ok _ =>
    have sum : Slips decimals single (later.ledger.totalOfTerms roll.terms) :=
      sound.yields_totalOfTerms
        (fun tag op member formula _ _ first second =>
          op.slips_apply first second (tame.of_mem member).here formula)
        (fun term member operand => (ended term member operand).slips)
    cases total : later.ledger.totalOfTerms roll.terms with
    | error fault =>
      rw [total] at evaluated sum
      exact ⟨_, later, evaluated, sum⟩
    | ok found =>
      rw [total] at evaluated sum
      refine ⟨_, _, evaluated, ?_⟩
      change (Ledger.rollTotal _ roll).IsAmong decimals
      rw [rollTotal_finishing]
      exact sum

/-- The evaluation of a term without parts succeeds. -/
theorem simple_fares {term : Term} {first stop : Nat} (spans : term.Spans first stop)
    {start : Progress} (intact : made.IsIntact first stop start.ledger)
    (computes : term.isOperand = true → ∀ ledger : Ledger,
      Computes decimals (ledger.totalOf term)) :
    (ofTerm term (pure ())).Finishes start (Fares decimals single fun last =>
      term.IsTotalled decimals last.ledger) := by
  have untouched := intact.waits.phase spans.first_le spans.id_lt
  refine ⟨_, _, ofTerm_of_done untouched rfl, fun operand => ?_⟩
  rw [total_entering]
  exact computes operand _

/-- Whatever the value of a function is, the writer is told about numbers out of range, unless
there are decimals. -/
theorem compute_fares {term : Term} {fn : Function} {rolls : List Roll} {later : Progress}
    (value : Slips decimals single (later.ledger.functionValue fn rolls)) :
    (compute term fn rolls).Finishes later (Fares decimals single fun last =>
      Computes decimals (last.ledger.functionValue fn rolls)) := by
  unfold Finishes compute
  split
  · rename_i found
    refine ⟨_, _, rfl, ?_⟩
    change Computes decimals (later.ledger.functionValue fn rolls)
    rw [found] at value ⊢
    exact value
  · rename_i found
    rw [found] at value
    exact ⟨_, _, rfl, value⟩
  · exact ⟨_, _, rfl, rfl⟩
  · rename_i found
    rw [found] at value
    exact ⟨_, _, rfl, value⟩

/-- What is done with each roll of a term keeps a condition on the term alone. -/
structure Handles (decimals single : Bool) (own : Identity) (holds : Progress → Prop)
    (use : Roll → Evaluation Unit) : Prop where
  fares : ∀ {progress} roll, holds progress → (progress.ledger.rollTotal roll).IsAmong decimals →
    (use roll).Finishes progress (Fares decimals single holds)
  keeps : ∀ {inside : Identity → Prop} roll, inside own →
    (use roll).Keeps (FrameRule.touched inside)
  stays : ∀ {progress later : Progress}, holds progress →
    Ledger.SameAt progress.ledger later.ledger own → holds later

/-- A number is accepted as an argument. -/
theorem handles_checkArgument (own : Identity) (term : Term) (fn : Function) :
    Handles decimals single own (fun _ => True) (checkArgument term fn) where
  fares {progress} roll _ among := by
    rcases among with ⟨n, is, _⟩
    have taken : totalButText roll (.clause (.textArgument fn.name) term.formula) progress =
        .done (.ok (.number n)) progress := by
      change (if (progress.ledger.rollTotal roll).isText = true then _ else
        pure (progress.ledger.rollTotal roll) : Evaluation Json) progress = _
      rw [is]
      rfl
    exact ⟨_, _, bind_done taken, trivial⟩
  keeps roll _ := keeps_checkArgument term fn roll
  stays _ _ := trivial

/-- A number is accepted as an outcome of a pool. -/
theorem handles_collect (pool : Pool) :
    Handles decimals single pool.tag.id
      (fun progress => progress.Tallies made pool.tag.id decimals false) (collect pool) where
  fares roll tallied among := by
    rcases collect_tallies among tallied with ⟨later, run, still⟩
    exact ⟨_, later, run, still⟩
  keeps roll here := keeps_collect here roll
  stays tallied same := by
    unfold Progress.Tallies
    rw [← same.term]
    exact tallied

mutual

/-- The evaluation of a term fails only in ways that are allowed, and gives it a total. -/
theorem evaluateTerm_fares (prompt : context.IsPrompt) : (term : Term) → {first stop : Nat} →
    term.Spans first stop →
    term.Throughout (Term.IsTame context.methods made decimals single) RollOf.IsSound →
    (start : Progress) → made.IsIntact first stop start.ledger →
    (context.evaluateTerm term).Finishes start (Fares decimals single fun last =>
      term.IsTotalled decimals last.ledger)
  | .numeric tag value, _, _, spans, tame, start, intact => by
    unfold evaluateTerm
    exact simple_fares spans intact fun _ _ => tame
  | .operator tag op, _, _, spans, _, start, intact => by
    unfold evaluateTerm
    exact simple_fares spans intact nofun
  | .text tag word, _, _, spans, _, start, intact => by
    have untouched := intact.waits.phase spans.first_le spans.id_lt
    have refused : context.allowWord (.text tag word) =
        .fail (.clauseData .unrecognizedTerm (Term.text tag word).formulaData) := by
      unfold allowWord
      rw [prompt.wordless, if_neg Bool.false_ne_true]
    unfold Finishes evaluateTerm
    rw [refused]
    exact ⟨_, _, ofTerm_of_done untouched rfl, rfl⟩
  | .group tag roll, first, stop, spans, ⟨_, sound, inside⟩, start, intact => by
    have ⟨row, named, _⟩ := spans
    have inner : (Term.group tag roll).id = roll.id + 1 := named
    have own : Between (roll.id + 1) stop (Term.group tag roll).id :=
      ⟨Nat.le_of_eq inner.symm, spans.id_lt⟩
    have below : roll.id + 1 ≤ stop := by
      rw [← inner]
      exact Nat.le_of_lt spans.id_lt
    have waiting : made.IsIntact first (roll.id + 1)
        (start.entering (.group tag roll) .evaluating).ledger :=
      (intact.mono (Nat.le_refl _) below).of_behind (start.touched_entering own _) (Nat.le_refl _)
    have untouched := intact.waits.phase spans.first_le spans.id_lt
    have not := waiting.waits.isRollEvaluated (rowSpans_le row) (Nat.lt_succ_self _)
    have around := ofRoll_fares row sound inside waiting fun begun ready =>
      evaluateTerms_fare prompt roll.terms row inside begun ready
    unfold evaluateTerm
    have grouped := ofTerm_fares untouched (around.of_eq (unlessRollEvaluated_of_not not _))
    refine concludes_imp grouped ?_
    rintro _ _ ⟨later, among, rfl⟩
    exact isTotalled_entering among
  | .function tag fn rolls, first, stop, spans, ⟨⟨takes, keeps, several⟩, parts⟩, start,
      intact => by
    have untouched := intact.waits.phase spans.first_le spans.id_lt
    have own : Between tag.id stop (Term.function tag fn rolls).id := ⟨Nat.le_refl _, spans.id_lt⟩
    have waiting : made.IsIntact first tag.id
        (start.entering (.function tag fn rolls) .evaluating).ledger :=
      (intact.mono (Nat.le_refl _) (Nat.le_of_lt spans.id_lt)).of_behind
        (start.touched_entering own _) (Nat.le_refl _)
    have used : tag.id < (start.entering (.function tag fn rolls) .evaluating).ledger.next :=
      Nat.lt_of_lt_of_le spans.id_lt intact.used
    have arguments := evaluateRolls_fare prompt rolls spans.1 parts (Nat.le_refl _)
      (handles_checkArgument tag.id (.function tag fn rolls) fn) _ waiting used trivial
    have work : (context.evaluateRolls (checkArgument (.function tag fn rolls) fn) rolls >>=
        fun _ => compute (.function tag fn rolls) fn rolls).Finishes
          (start.entering (.function tag fn rolls) .evaluating) (Fares decimals single fun last =>
            Computes decimals (last.ledger.totalOf (.function tag fn rolls))) := by
      refine concludes_bind arguments fun _ later ⟨_, among⟩ => ?_
      have all : ∀ argument ∈ rolls.map later.ledger.rollTotal, argument.IsAmong decimals := by
        intro argument member
        rcases List.mem_map.1 member with ⟨roll, inside, rfl⟩
        exact among roll inside
      have value : Slips decimals single (later.ledger.functionValue fn rolls) := by
        refine fn.slips_value all ?_ keeps fun alone free => ?_
        · rw [List.length_map]
          exact takes
        · rw [List.length_map]
          exact several alone free
      exact compute_fares value
    unfold evaluateTerm
    refine concludes_imp (ofTerm_fares untouched work) ?_
    rintro _ _ ⟨later, computes, rfl⟩
    exact isTotalled_entering computes
  | .dice d, first, stop, spans, ⟨rollable, numbers, sides⟩, start, intact => by
    have ⟨⟨middle, counted, sided⟩, _⟩ := spans
    have untouched := intact.waits.phase spans.first_le spans.id_lt
    have tallied : Progress.Tallies made _ decimals false _ := tallies_entering intact spans
    have own : Between d.tag.id stop (Term.dice d).id := ⟨Nat.le_refl _, spans.id_lt⟩
    have waiting : made.IsIntact first d.tag.id
        (start.entering (.dice d) .evaluating).ledger :=
      (intact.mono (Nat.le_refl _) (Nat.le_of_lt spans.id_lt)).of_behind
        (start.touched_entering own _) (Nat.le_refl _)
    have used : d.tag.id < (start.entering (.dice d) .evaluating).ledger.next :=
      Nat.lt_of_lt_of_le spans.id_lt intact.used
    have lower := amountSpans_le counted
    have upper := amountSpans_le sided
    have number := concludes_touched (evaluateAmount_fares prompt d.number
      rollable.sound.numberBracketed counted numbers _ (waiting.mono (Nat.le_refl _) upper))
      (keeps_evaluateAmount context.follows_touched d.number counted.inside _)
    have work : (context.evaluateAmount d.number >>= fun _ =>
        context.evaluateAmount d.faces >>= fun _ => context.rollDice d).Finishes
          (start.entering (.dice d) .evaluating) (Fares decimals single fun last =>
            ∃ after, last.Tallies made d.tag.id decimals after) := by
      refine concludes_bind number fun _ later ⟨amount, touched⟩ => ?_
      have next := (waiting.mono lower (Nat.le_refl _)).of_before touched (Nat.le_refl _)
      have faces := concludes_touched (evaluateAmount_fares prompt d.faces
        rollable.sound.facesBracketed sided sides later next)
        (keeps_evaluateAmount context.follows_touched d.faces sided.inside later)
      refine concludes_bind faces fun _ between ⟨amountToo, touchedToo⟩ => ?_
      have early : Ledger.SameOn later.ledger between.ledger first middle :=
        touchedToo.sameOn (Nat.le_trans (waiting.mono (Nat.le_refl _) upper).used touched.next_le)
          fun _ _ below inside => Nat.not_lt.2 inside.1 below
      rw [early.amount counted] at amount
      have one := touched.outside d.tag.id used fun inside => Nat.not_lt.2 upper inside.2
      have other := touchedToo.outside d.tag.id (Nat.lt_of_lt_of_le used touched.next_le)
        fun inside => Nat.lt_irrefl _ inside.2
      have still : between.Tallies made d.tag.id decimals false := by
        unfold Progress.Tallies
        rw [← other.term, ← one.term]
        exact tallied
      exact rollDice_concludes prompt rollable sided amount amountToo still
    unfold evaluateTerm
    refine concludes_imp (ofTerm_fares untouched work) ?_
    rintro _ _ ⟨later, ⟨_, still⟩, rfl⟩
    exact isTotalled_entering still.computes
  | .pool p, first, stop, spans, ⟨are, parts⟩, start, intact => by
    have untouched := intact.waits.phase spans.first_le spans.id_lt
    have tallied : Progress.Tallies made _ decimals false _ := tallies_entering intact spans
    have own : Between p.tag.id stop (Term.pool p).id := ⟨Nat.le_refl _, spans.id_lt⟩
    have waiting : made.IsIntact first p.tag.id
        (start.entering (.pool p) .evaluating).ledger :=
      (intact.mono (Nat.le_refl _) (Nat.le_of_lt spans.id_lt)).of_behind
        (start.touched_entering own _) (Nat.le_refl _)
    have used : p.tag.id < (start.entering (.pool p) .evaluating).ledger.next :=
      Nat.lt_of_lt_of_le spans.id_lt intact.used
    have rolls := evaluateRolls_fare prompt p.rolls spans.1 parts (Nat.le_refl _)
      (handles_collect p) _ waiting used tallied
    have work : (context.evaluateRolls (collect p) p.rolls >>= fun _ =>
        context.runModifiers (modifiedPool p) p.modifiers).Finishes
          (start.entering (.pool p) .evaluating) (Fares decimals single fun last =>
            ∃ after, last.Tallies made p.tag.id decimals after) := by
      refine concludes_bind rolls fun _ later ⟨still, _⟩ => ?_
      have modified := runModifiers_concludes (@upholds_pool context made decimals single p are)
        ⟨false, still⟩
      refine modified.imp fun result last ended => ?_
      cases result with
      | error fault => exact ended.1
      | ok _ => exact ended
    unfold evaluateTerm
    refine concludes_imp (ofTerm_fares untouched work) ?_
    rintro _ _ ⟨later, ⟨_, still⟩, rfl⟩
    exact isTotalled_entering still.computes

/-- The evaluation of a row fails only in ways that are allowed, and gives totals. -/
theorem evaluateTerms_fare (prompt : context.IsPrompt) : (terms : List Term) → {first stop : Nat} →
    RowSpans terms first stop →
    RowThroughout (Term.IsTame context.methods made decimals single) RollOf.IsSound terms →
    (start : Progress) → made.IsIntact first stop start.ledger →
    (context.evaluateTerms terms).Finishes start (Fares decimals single fun last =>
      ∀ term ∈ terms, term.IsTotalled decimals last.ledger)
  | [], _, _, _, _, start, _ => by
    unfold evaluateTerms
    exact concludes_pure fun _ member => absurd member List.not_mem_nil
  | term :: rest, first, stop, ⟨middle, here, later⟩, ⟨head, tail⟩, start, intact => by
    have waiting := intact.mono (Nat.le_refl _) (rowSpans_le later)
    have not := waiting.waits.isEvaluated here.first_le here.id_lt
    have single := concludes_touched (evaluateTerm_fares prompt term here head start waiting)
      (keeps_evaluateTerm context.follows_touched term here.inside start)
    unfold evaluateTerms
    refine concludes_bind (single.of_eq (unlessEvaluated_of_not not _))
      fun _ between ⟨totalled, touched⟩ => ?_
    have next := (intact.mono (Nat.le_of_lt here.lt) (Nat.le_refl _)).of_before touched
      (Nat.le_refl _)
    have others := concludes_touched (evaluateTerms_fare prompt rest later tail between next)
      (keeps_evaluateTerms context.follows_touched rest later.inside between)
    refine concludes_imp others fun _ last ⟨rest, since⟩ => ?_
    refine List.forall_mem_cons.2 ⟨totalled.of_same here ?_, rest⟩
    exact Ledger.Touched.sameOn since (Nat.le_trans waiting.used touched.next_le)
      fun _ _ below inside => Nat.not_lt.2 inside.1 below

/-- The evaluation of rolls fails only in ways that are allowed, and their totals are numbers. -/
theorem evaluateRolls_fare (prompt : context.IsPrompt) : (rolls : List Roll) → {first stop : Nat} →
    RollsSpan rolls first stop →
    RollsThroughout (Term.IsTame context.methods made decimals single) RollOf.IsSound rolls →
    {own : Nat} → stop ≤ own → {holds : Progress → Prop} → {use : Roll → Evaluation Unit} →
    Handles decimals single own holds use → (start : Progress) →
    made.IsIntact first stop start.ledger → own < start.ledger.next → holds start →
    (context.evaluateRolls use rolls).Finishes start (Fares decimals single fun last =>
      holds last ∧ ∀ roll ∈ rolls, (last.ledger.rollTotal roll).IsAmong decimals)
  | [], _, _, _, _, _, _, _, _, _, start, _, _, here => by
    unfold evaluateRolls
    exact concludes_pure ⟨here, fun _ member => absurd member List.not_mem_nil⟩
  | roll :: rest, first, stop, ⟨row, later⟩, ⟨sound, inside, tail⟩, own, behind, holds, use,
      handles, start, intact, used, here => by
    have before := rowSpans_le row
    have within := rollsSpan_le later
    have waiting := intact.mono (Nat.le_refl _) within
    have not := waiting.waits.isRollEvaluated before (Nat.lt_succ_self _)
    have lies : roll.Inside (Between first (roll.id + 1)) := RollOf.Spans.inside ⟨row, rfl⟩
    have around := concludes_touched (ofRoll_fares row sound inside waiting fun begun ready =>
      evaluateTerms_fare prompt roll.terms row inside begun ready)
      (keeps_evaluateRoll context.follows_touched lies.around lies.row start)
    unfold evaluateRolls
    refine concludes_bind (around.of_eq (unlessRollEvaluated_of_not not _))
      fun _ between ⟨among, touched⟩ => ?_
    have apart := touched.outside own used fun inside =>
      Nat.not_lt.2 (Nat.le_trans within behind) inside.2
    have mine : Between own (own + 1) own := ⟨Nat.le_refl _, Nat.lt_succ_self _⟩
    have handled := concludes_touched (handles.fares roll (handles.stays here apart) among)
      (handles.keeps roll mine between)
    refine concludes_bind handled fun _ next ⟨there, only⟩ => ?_
    have usedEarly := Nat.le_trans waiting.used touched.next_le
    have kept : Ledger.SameOn between.ledger next.ledger first (roll.id + 1) :=
      only.sameOn usedEarly fun _ _ below inside =>
        Nat.not_lt.2 (Nat.le_trans (Nat.le_trans within behind) inside.1) below
    have ahead : made.IsIntact (roll.id + 1) stop next.ledger :=
      ((intact.mono (Nat.le_succ_of_le before) (Nat.le_refl _)).of_before touched
        (Nat.le_refl _)).of_behind only behind
    have usedLater := Nat.lt_of_lt_of_le used (Nat.le_trans touched.next_le only.next_le)
    have others := concludes_touched
      (evaluateRolls_fare prompt rest later tail behind handles next ahead usedLater there)
      (keeps_evaluateRolls context.follows_touched rest later.within
        (fun roll => handles.keeps roll (.inr mine)) next)
    refine concludes_imp others fun _ last ⟨⟨still, totals⟩, since⟩ => ?_
    have apart : Apart (Between own (own + 1)) first (roll.id + 1) := fun _ _ below inside =>
      Nat.not_lt.2 (Nat.le_trans (Nat.le_trans within behind) inside.1) below
    have same := since.same_apart apart (Nat.le_trans usedEarly only.next_le)
      (.inr (Nat.le_refl _))
    refine ⟨still, List.forall_mem_cons.2 ⟨?_, totals⟩⟩
    rw [← ((kept.trans same) roll.id before (Nat.lt_succ_self _)).rollTotal]
    exact among

/-- The evaluation of an amount fails only in ways that are allowed, and makes it a number. -/
theorem evaluateAmount_fares (prompt : context.IsPrompt) : (amount : Operand Term) →
    amount.IsBracketed → {first stop : Nat} → AmountSpans amount first stop →
    AmountThroughout (Term.IsTame context.methods made decimals single) RollOf.IsSound amount →
    (start : Progress) → made.IsIntact first stop start.ledger →
    (context.evaluateAmount amount).Finishes start (Fares decimals single fun last =>
      Slips decimals single (last.ledger.amount amount))
  | .known n, _, _, _, _, _, start, _ => by
    unfold evaluateAmount
    exact concludes_pure (Json.isAmong_ofInt n)
  | .computed term, bracketed, _, _, spans, inside, start, intact => by
    have not := intact.waits.isEvaluated (Term.Spans.first_le spans) (Term.Spans.id_lt spans)
    have evaluated := evaluateTerm_fares prompt term spans inside start intact
    unfold evaluateAmount
    refine concludes_imp (evaluated.of_eq (unlessEvaluated_of_not not _)) fun _ last totalled => ?_
    have operand : term.isOperand = true := by
      rcases bracketed with ⟨tag, roll, rfl⟩
      rfl
    have total : Slips decimals single (last.ledger.total term) := (totalled operand).slips
    change Slips decimals single ((last.ledger.total term).map Json.wholeNumber)
    cases found : last.ledger.total term with
    | error fault =>
      rw [found] at total
      exact total
    | ok value =>
      rw [found] at total
      exact Json.IsAmong.wholeNumber total

end

/-- The evaluation of a roll fails only in ways that are allowed. -/
theorem evaluateRoll_fares (prompt : context.IsPrompt) {roll : Roll} {first stop : Nat}
    (spans : roll.Spans first stop) (sound : roll.IsSound)
    (tame : RowThroughout (Term.IsTame context.methods made decimals single) RollOf.IsSound
      roll.terms) {start : Progress} (intact : made.IsIntact first stop start.ledger) :
    (context.evaluateRoll roll).Finishes start (Fares decimals single fun last =>
      (last.ledger.rollTotal roll).IsAmong decimals) := by
  rcases spans with ⟨row, rfl⟩
  exact ofRoll_fares row sound tame intact fun begun ready =>
    evaluateTerms_fare prompt roll.terms row tame begun ready

end Context
end DiceNotation
