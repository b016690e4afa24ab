import DiceNotation.Proofs.Evaluation.Draws
import DiceNotation.Proofs.Evaluation.Handling

namespace DiceNotation

/-!
# Draws of whole rolls

What dice draw, terms and rolls draw in the order of evaluation.  By induction on the term:
the parts of a term are evaluated one after another, and what comes later leaves the results
that are there already as they are.
-/

/-- Whether a term takes its results from the uniform source, if it is dice. -/
def Term.IsUniform (context : Context) (ledger : Ledger) (term : Term) : Prop :=
  ∀ dice, term = .dice dice → dice.IsUniform context ledger

theorem DiceOf.IsUniform.of_same {context : Context} {ledger other : Ledger} {dice : Dice}
    (uniform : dice.IsUniform context ledger)
    (same : (other.term dice.tag.id).method = (ledger.term dice.tag.id).method) :
    dice.IsUniform context other := by
  rcases uniform with ⟨method, named, left⟩
  exact ⟨method, same ▸ named, left⟩

/-- To move a term to a phase changes no results of dice in it. -/
theorem Ledger.sameResults_entering {term : Term} {first stop : Nat}
    (spans : term.Spans first stop) (later : Progress) (phase : Phase) :
    SameResults later.ledger (later.entering term phase).ledger term.diceInTurn := by
  intro d member
  rcases spans.diceLie d member with ⟨low, high, _, below, ⟨⟨middle, _, faces⟩, ended⟩⟩
  refine ⟨congrArg _ (outcomes_entering later term phase d.tag.id).symm, ?_⟩
  have behind : d.tag.id ≤ term.id := by
    have ends := spans.stop_eq
    unfold Identity at *
    omega
  exact SameOn.maximumValue (SameOn.updateTerm later.ledger behind _) faces

namespace Context

open Evaluation

variable {context : Context} {made : Ledger}

/-- A term draws what is inside it draws. -/
theorem ofTerm_draws {term : Term} {first stop : Nat} (spans : term.Spans first stop)
    {start : Progress} (intact : made.IsIntact first stop start.ledger) {work : Evaluation Unit}
    (draws : ∀ begun : Progress, begun.draws = start.draws →
      made.IsIntact first term.id begun.ledger →
      begun.ledger.term term.id = { start.ledger.term term.id with phase := .evaluating } →
      term.id < begun.ledger.next →
      work.Finishes begun
        (Succeeds fun last => last.Drew context.uniform start.draws term.diceInTurn)) :
    (ofTerm term work).Finishes start
      (Succeeds fun last => last.Drew context.uniform start.draws term.diceInTurn) := by
  have own : Between term.id stop term.id := ⟨Nat.le_refl _, spans.id_lt⟩
  have waiting := (intact.mono (Nat.le_refl _) (Nat.le_of_lt spans.id_lt)).of_behind
    (start.touched_entering own .evaluating) (Nat.le_refl _)
  have state : (start.entering term .evaluating).ledger.term term.id =
      { start.ledger.term term.id with phase := .evaluating } := by
    change (start.ledger.updateTerm term.id _).term term.id = _
    rw [Ledger.term_updateTerm, if_pos rfl]
  have used : term.id < (start.entering term .evaluating).ledger.next :=
    Nat.lt_of_lt_of_le spans.id_lt intact.used
  rcases draws (start.entering term .evaluating) rfl waiting state used with
    ⟨result, later, run, ended⟩
  have evaluated := ofTerm_of_done (intact.waits.phase spans.first_le spans.id_lt) run
  cases result with
  | error fault => exact ⟨_, _, evaluated, trivial⟩
  | ok done =>
    exact ⟨_, _, evaluated, ended.congr (Ledger.sameResults_entering spans later _) rfl⟩

/-- A roll draws what its terms draw. -/
theorem ofRoll_draws {roll : Roll} {first : Nat} (spans : RowSpans roll.terms first roll.id)
    {start : Progress} (intact : made.IsIntact first (roll.id + 1) start.ledger)
    (row : ∀ begun : Progress, begun.draws = start.draws →
      made.IsIntact first roll.id begun.ledger →
      (context.evaluateTerms roll.terms).Finishes begun (Succeeds fun last =>
        last.Drew context.uniform start.draws (rowDiceInTurn roll.terms))) :
    (context.evaluateRoll roll).Finishes start (Succeeds fun last =>
      last.Drew context.uniform start.draws (rowDiceInTurn roll.terms)) := by
  have own : Between roll.id (roll.id + 1) roll.id := ⟨Nat.le_refl _, Nat.lt_succ_self _⟩
  have waiting := (intact.mono (Nat.le_refl _) (Nat.le_succ _)).of_behind
    (start.touched_starting own) (Nat.le_refl _)
  rcases row (start.starting roll) rfl waiting with ⟨result, later, run, ended⟩
  have evaluated := ofRoll_of_done
    (intact.waits.rollPhase (rowSpans_le spans) (Nat.lt_succ_self _)) run
  change context.evaluateRoll roll start = _ at evaluated
  cases result with
  | error fault => exact ⟨_, _, evaluated, trivial⟩
  | ok done =>
    cases total : later.ledger.totalOfTerms roll.terms with
    | error fault =>
      rw [total] at evaluated
      exact ⟨_, _, evaluated, trivial⟩
    | ok found =>
      rw [total] at evaluated
      have same : Ledger.SameOn later.ledger (later.finishing roll found).ledger first roll.id :=
        Ledger.SameOn.updateRoll later.ledger (Nat.le_refl _) _
      exact ⟨_, _, evaluated, ended.congr (same.sameResults spans.diceLie) rfl⟩

/-- Something is done that touches one identity and draws nothing. -/
def IsQuiet (own : Nat) (work : Evaluation Unit) : Prop :=
  ∀ progress, work.Finishes progress (Succeeds fun last =>
    last.draws = progress.draws ∧ progress.Touched (Between own (own + 1)) last)

theorem IsQuiet.pure (own : Nat) : IsQuiet own (pure ()) :=
  fun progress => concludes_pure ⟨rfl, Ledger.Touched.refl progress.ledger⟩

theorem isQuiet_totalButText (own : Nat) (roll : Roll) (refusal : Fault)
    {next : Json → Evaluation Unit} (quiet : ∀ total, IsQuiet own (next total)) :
    IsQuiet own (totalButText roll refusal >>= next) := by
  intro progress
  let still (last : Progress) : Prop := last = progress
  have reads : (read fun ledger => .ok (ledger.rollTotal roll)).Finishes progress
      (Succeeds still) := succeeds_read _ rfl
  have totals : (totalButText roll refusal).Finishes progress (Succeeds still) :=
    concludes_bind reads fun _ _ same =>
      concludes_ite (concludes_fail trivial) (concludes_pure same)
  refine concludes_bind totals fun total later same => ?_
  rw [show later = progress from same]
  exact quiet total progress

theorem isQuiet_checkArgument (own : Nat) (term : Term) (fn : Function) (roll : Roll) :
    IsQuiet own (checkArgument term fn roll) :=
  isQuiet_totalButText own roll _ fun _ => .pure own

theorem isQuiet_collect (pool : Pool) (roll : Roll) : IsQuiet pool.tag.id (collect pool roll) := by
  refine isQuiet_totalButText _ roll _ fun total progress => ⟨_, _, rfl, rfl, ?_⟩
  exact Ledger.Touched.updateTerm ⟨Nat.le_refl _, Nat.lt_succ_self _⟩ fun _ => rfl

theorem isQuiet_compute (own : Nat) (term : Term) (fn : Function) (rolls : List Roll) :
    IsQuiet own (compute term fn rolls) := by
  intro progress
  unfold Finishes compute
  split
  · exact ⟨_, _, rfl, rfl, Ledger.Touched.refl progress.ledger⟩
  · exact ⟨_, _, rfl, trivial⟩
  · exact ⟨_, _, rfl, trivial⟩
  · exact ⟨_, _, rfl, trivial⟩

/-- The modifiers of a pool draw nothing. -/
theorem isQuiet_modifyPool (exacting : context.IsExacting) (pool : Pool) :
    IsQuiet pool.tag.id (context.runModifiers (modifiedPool pool) pool.modifiers) := by
  intro progress
  have own : Between pool.tag.id (pool.tag.id + 1) pool.tag.id :=
    ⟨Nat.le_refl _, Nat.lt_succ_self _⟩
  let holds (last : Progress) : Prop :=
    last.draws = progress.draws ∧ progress.Touched (Between pool.tag.id (pool.tag.id + 1)) last
  have tallies (action : Action) (command : Command) {later : Progress} (here : holds later) :
      holds (later.tallying (.pool pool) action command) :=
    ⟨here.1, Ledger.Touched.trans here.2 (Ledger.Touched.updateTerm own fun _ => rfl)⟩
  exact @runModifiers_succeeds _ _ (modifiedPool pool) holds exacting tallies
    (fun _ _ _ _ here => concludes_pure here) pool.modifiers
    ⟨rfl, Ledger.Touched.refl progress.ledger⟩

/-- What is quiet behind dice that lie before it leaves what they drew as it is. -/
theorem IsQuiet.leaves {own first stop : Nat} {work : Evaluation Unit} (quiet : IsQuiet own work)
    {progress : Progress} {earlier : Nat} {dice : List Dice}
    (drew : progress.Drew context.uniform earlier dice) (lie : DiceLie first stop dice)
    (behind : stop ≤ own) (used : stop ≤ progress.ledger.next) :
    work.Finishes progress (Succeeds fun last => last.Drew context.uniform earlier dice) := by
  refine concludes_imp (quiet progress) fun _ last ⟨draws, touched⟩ => ?_
  have same : Ledger.SameOn progress.ledger last.ledger first stop :=
    touched.sameOn used fun _ _ below inside => Nat.not_lt.2 (Nat.le_trans behind inside.1) below
  exact drew.congr (same.sameResults lie) draws

mutual

/-- The evaluation of a term draws the results of the dice in it, in their order. -/
theorem evaluateTerm_draws (exacting : context.IsExacting) : (term : Term) →
    {first stop : Nat} → term.Spans first stop →
    term.Throughout (Term.IsUniform context made) (fun _ => True) →
    (start : Progress) → made.IsIntact first stop start.ledger →
    (context.evaluateTerm term).Finishes start
      (Succeeds fun last => last.Drew context.uniform start.draws term.diceInTurn)
  | .numeric _ _, _, _, spans, _, start, intact => by
    unfold evaluateTerm
    exact ofTerm_draws spans intact fun begun same _ _ _ => concludes_pure (same ▸ .nil begun)
  | .operator _ _, _, _, spans, _, start, intact => by
    unfold evaluateTerm
    exact ofTerm_draws spans intact fun begun same _ _ _ => concludes_pure (same ▸ .nil begun)
  | .text _ _, _, _, spans, _, start, intact => by
    unfold evaluateTerm
    exact ofTerm_draws spans intact fun begun same _ _ _ =>
      concludes_ite (concludes_pure (same ▸ .nil begun)) (concludes_fail trivial)
  | .group tag roll, first, stop, spans, ⟨_, _, inside⟩, start, intact => by
    have ⟨row, named, _⟩ := spans
    have inner : (Term.group tag roll).id = roll.id + 1 := named
    unfold evaluateTerm
    refine ofTerm_draws spans intact fun begun same waiting _ _ => ?_
    rw [inner] at waiting
    have not := waiting.waits.isRollEvaluated (rowSpans_le row) (Nat.lt_succ_self _)
    refine Finishes.of_eq ?_ (unlessRollEvaluated_of_not not _)
    rw [← same]
    exact ofRoll_draws row waiting fun later still ready =>
      still ▸ evaluateTerms_draw exacting roll.terms row inside later ready
  | .function tag fn rolls, first, stop, spans, ⟨_, parts⟩, start, intact => by
    unfold evaluateTerm
    refine ofTerm_draws spans intact fun begun same waiting _ used => ?_
    have drawn := evaluateRolls_draw exacting rolls spans.1 parts (Nat.le_refl _)
      (fun roll => isQuiet_checkArgument tag.id (.function tag fn rolls) fn roll) begun waiting
    refine concludes_bind drawn fun _ later ⟨drew, touched⟩ => ?_
    exact (isQuiet_compute tag.id _ fn rolls).leaves (same ▸ drew) spans.1.diceLie (Nat.le_refl _)
      (Nat.le_trans waiting.used touched.next_le)
  | .dice d, first, stop, spans, ⟨uniform, numbers, sides⟩, start, intact => by
    have ⟨⟨middle, counted, sided⟩, _⟩ := spans
    unfold evaluateTerm
    refine ofTerm_draws spans intact fun begun same waiting state used => ?_
    have lower := amountSpans_le counted
    have upper := amountSpans_le sided
    have number := concludes_touched (evaluateAmount_draws exacting d.number counted numbers begun
      (waiting.mono (Nat.le_refl _) upper))
      (keeps_evaluateAmount context.follows_touched d.number counted.inside begun)
    refine concludes_bind number fun _ later ⟨drew, touched⟩ => ?_
    have next := (waiting.mono lower (Nat.le_refl _)).of_before touched (Nat.le_refl _)
    have faces := concludes_touched (evaluateAmount_draws exacting d.faces sided sides later next)
      (keeps_evaluateAmount context.follows_touched d.faces sided.inside later)
    refine concludes_bind faces fun _ between ⟨drewToo, touchedToo⟩ => ?_
    have usedLater := Nat.lt_of_lt_of_le used touched.next_le
    have kept : between.ledger.term d.tag.id = begun.ledger.term d.tag.id := by
      have one := touched.outside d.tag.id used fun inside =>
        Nat.not_lt.2 upper inside.2
      have other := touchedToo.outside d.tag.id usedLater fun inside =>
        Nat.lt_irrefl _ inside.2
      exact (one.term.trans other.term).symm
    have fresh : (start.ledger.term d.tag.id) =
        { method := (made.term d.tag.id).method } := by
      have blank := (intact.fresh d.tag.id spans.first_le spans.id_lt).1
      rw [← (intact.same d.tag.id spans.first_le spans.id_lt).term]
      exact blank
    have begins : between.ledger.term d.tag.id =
        { phase := .evaluating, method := (made.term d.tag.id).method } := by
      refine kept.trans (state.trans ?_)
      change { start.ledger.term d.tag.id with phase := .evaluating } = _
      rw [fresh]
    have named : (between.ledger.term d.tag.id).method = (made.term d.tag.id).method := by
      rw [begins]
    have source := (uniform d rfl).of_same named
    have here : Between d.tag.id (d.tag.id + 1) d.tag.id :=
      ⟨Nat.le_refl _, Nat.lt_succ_self _⟩
    have rolled := concludes_touched
      (rollDice_draws exacting sided source (congrArg TermState.outcomes begins))
      (context.keeps_rollDice (fun _ _ => trivial) here between)
    refine concludes_imp rolled fun _ last ⟨results, only⟩ => ?_
    have early : Ledger.SameOn later.ledger between.ledger first middle :=
      touchedToo.sameOn (Nat.le_trans (waiting.mono (Nat.le_refl _) upper).used touched.next_le)
        fun _ _ below inside => Nat.not_lt.2 inside.1 below
    have late : Ledger.SameOn between.ledger last.ledger first d.tag.id :=
      only.sameOn (Nat.le_trans next.used touchedToo.next_le)
        fun _ _ below inside => Nat.not_lt.2 inside.1 below
    have amounts := drew.append drewToo (early.sameResults counted.diceLie)
    have lie := (counted.diceLie.mono (Nat.le_refl _) upper).append
      (sided.diceLie.mono lower (Nat.le_refl _))
    exact (same ▸ amounts).append results (late.sameResults lie)
  | .pool p, first, stop, spans, ⟨_, parts⟩, start, intact => by
    unfold evaluateTerm
    refine ofTerm_draws spans intact fun begun same waiting _ _ => ?_
    have drawn := evaluateRolls_draw exacting p.rolls spans.1 parts (Nat.le_refl _)
      (isQuiet_collect p) begun waiting
    refine concludes_bind drawn fun _ later ⟨drew, touched⟩ => ?_
    exact (isQuiet_modifyPool exacting p).leaves (same ▸ drew) spans.1.diceLie (Nat.le_refl _)
      (Nat.le_trans waiting.used touched.next_le)

theorem evaluateTerms_draw (exacting : context.IsExacting) : (terms : List Term) →
    {first stop : Nat} → RowSpans terms first stop →
    RowThroughout (Term.IsUniform context made) (fun _ => True) terms →
    (start : Progress) → made.IsIntact first stop start.ledger →
    (context.evaluateTerms terms).Finishes start
      (Succeeds fun last => last.Drew context.uniform start.draws (rowDiceInTurn terms))
  | [], _, _, _, _, start, _ => by
    unfold evaluateTerms
    exact concludes_pure (.nil start)
  | term :: rest, first, stop, ⟨middle, here, later⟩, ⟨head, tail⟩, start, intact => by
    have waiting := intact.mono (Nat.le_refl _) (rowSpans_le later)
    have not := waiting.waits.isEvaluated here.first_le here.id_lt
    have single := concludes_touched (evaluateTerm_draws exacting term here head start waiting)
      (keeps_evaluateTerm context.follows_touched term here.inside start)
    unfold evaluateTerms
    refine concludes_bind (Finishes.of_eq single (unlessEvaluated_of_not not _))
      fun _ between ⟨drew, touched⟩ => ?_
    have next := (intact.mono (Nat.le_of_lt here.lt) (Nat.le_refl _)).of_before touched
      (Nat.le_refl _)
    have others := concludes_touched (evaluateTerms_draw exacting rest later tail between next)
      (keeps_evaluateTerms context.follows_touched rest later.inside between)
    refine concludes_imp others fun _ last ⟨more, since⟩ => ?_
    have same : Ledger.SameOn between.ledger last.ledger first middle :=
      since.sameOn (Nat.le_trans waiting.used touched.next_le)
        fun _ _ below inside => Nat.not_lt.2 inside.1 below
    exact drew.append more (same.sameResults here.diceLie)

theorem evaluateRolls_draw (exacting : context.IsExacting) : (rolls : List Roll) →
    {first stop own : Nat} → RollsSpan rolls first stop →
    RollsThroughout (Term.IsUniform context made) (fun _ => True) rolls → stop ≤ own →
    {use : Roll → Evaluation Unit} → (∀ roll, IsQuiet own (use roll)) →
    (start : Progress) → made.IsIntact first stop start.ledger →
    (context.evaluateRolls use rolls).Finishes start (Succeeds fun last =>
      last.Drew context.uniform start.draws (rollsDiceInTurn rolls) ∧
        start.Touched (Within (Between own (own + 1)) first stop) last)
  | [], _, _, _, _, _, _, _, _, start, _ => by
    unfold evaluateRolls
    exact concludes_pure ⟨.nil start, Ledger.Touched.refl start.ledger⟩
  | roll :: rest, first, stop, own, ⟨row, later⟩, ⟨_, inside, tail⟩, behind, use, quiet,
      start, intact => by
    have before := rowSpans_le row
    have within := rollsSpan_le later
    have waiting := intact.mono (Nat.le_refl _) within
    have not := waiting.waits.isRollEvaluated before (Nat.lt_succ_self _)
    have lies : roll.Inside (Between first (roll.id + 1)) := RollOf.Spans.inside ⟨row, rfl⟩
    have lie := row.diceLie.mono (Nat.le_refl _) (Nat.le_succ roll.id)
    have around := concludes_touched (ofRoll_draws row waiting fun begun same ready =>
      same ▸ evaluateTerms_draw exacting roll.terms row inside begun ready)
      (keeps_evaluateRoll context.follows_touched lies.around lies.row start)
    unfold evaluateRolls
    refine concludes_bind (Finishes.of_eq around (unlessRollEvaluated_of_not not _))
      fun _ between ⟨drew, touched⟩ => ?_
    refine concludes_bind (quiet roll between) fun _ next ⟨draws, only⟩ => ?_
    have usedEarly := Nat.le_trans waiting.used touched.next_le
    have kept : Ledger.SameOn between.ledger next.ledger first (roll.id + 1) :=
      only.sameOn usedEarly fun _ _ below inside =>
        Nat.not_lt.2 (Nat.le_trans (Nat.le_trans within behind) inside.1) below
    have still := drew.congr (kept.sameResults lie) draws
    have ahead : made.IsIntact (roll.id + 1) stop next.ledger :=
      ((intact.mono (Nat.le_succ_of_le before) (Nat.le_refl _)).of_before touched
        (Nat.le_refl _)).of_behind only behind
    have others := evaluateRolls_draw exacting rest later tail behind quiet next ahead
    refine concludes_imp others fun _ last ⟨more, since⟩ => ?_
    have apart : Apart (Between own (own + 1)) first (roll.id + 1) := fun _ _ below inside =>
      Nat.not_lt.2 (Nat.le_trans (Nat.le_trans within behind) inside.1) below
    have same := since.same_apart apart (Nat.le_trans usedEarly only.next_le)
      (.inr (Nat.le_refl _))
    refine ⟨still.append more (same.sameResults lie), ?_⟩
    have one : start.Touched (Within (Between own (own + 1)) first stop) between :=
      touched.mono fun _ inside => .inl ⟨inside.1, Nat.lt_of_lt_of_le inside.2 within⟩
    have two : between.Touched (Within (Between own (own + 1)) first stop) next :=
      only.mono fun _ inside => .inr inside
    have three : next.Touched (Within (Between own (own + 1)) first stop) last :=
      since.mono fun _ inside => inside.imp_left fun between =>
        ⟨Nat.le_trans (Nat.le_succ_of_le before) between.1, between.2⟩
    exact one.trans (two.trans three)

theorem evaluateAmount_draws (exacting : context.IsExacting) : (amount : Operand Term) →
    {first stop : Nat} → AmountSpans amount first stop →
    AmountThroughout (Term.IsUniform context made) (fun _ => True) amount →
    (start : Progress) → made.IsIntact first stop start.ledger →
    (context.evaluateAmount amount).Finishes start
      (Succeeds fun last => last.Drew context.uniform start.draws (amountDiceInTurn amount))
  | .known _, _, _, _, _, start, _ => by
    unfold evaluateAmount
    exact concludes_pure (.nil start)
  | .computed term, _, _, spans, inside, start, intact => by
    have not := intact.waits.isEvaluated (Term.Spans.first_le spans) (Term.Spans.id_lt spans)
    unfold evaluateAmount
    exact Finishes.of_eq (evaluateTerm_draws exacting term spans inside start intact)
      (unlessEvaluated_of_not not _)

end

theorem evaluateRoll_draws (exacting : context.IsExacting) {roll : Roll} {first stop : Nat}
    (spans : roll.Spans first stop)
    (uniform : RowThroughout (Term.IsUniform context made) (fun _ => True) roll.terms)
    {start last : Progress} (intact : made.IsIntact first stop start.ledger)
    {others : Progress → Progress → Prop}
    (reaches : (context.evaluateRoll roll start).Reaches others (some (.ok ())) last) :
    last.Drew context.uniform start.draws roll.diceInTurn := by
  rcases spans with ⟨row, rfl⟩
  have finishes := ofRoll_draws row intact fun begun same ready =>
    same ▸ evaluateTerms_draw exacting roll.terms row uniform begun ready
  rcases finishes with ⟨result, later, run, ended⟩
  rw [run] at reaches
  rcases Step.Reaches.of_done reaches with ⟨succeeded, rfl⟩
  cases succeeded
  exact ended

end Context

/-! ## Attempts -/

/-- Others keep away from a range and take no uniform values. -/
structure Progress.Away (first stop : Nat) (before after : Progress) : Prop where
  touched : before.Touched (Beyond first stop) after
  draws : after.draws = before.draws

namespace Progress.Away

variable {first stop : Nat} {progress between later : Progress}

theorem of_rolled (same : later.rolled = progress.rolled) : progress.Away first stop later :=
  ⟨Progress.Touched.of_ledger (congrArg Prod.fst same), congrArg Prod.snd same⟩

theorem trans (away : progress.Away first stop between)
    (further : between.Away first stop later) : progress.Away first stop later :=
  ⟨Ledger.Touched.trans away.touched further.touched, further.draws.trans away.draws⟩

end Progress.Away

namespace RollOf

open Evaluation

variable {roll : Roll} {first stop : Nat} {made : Ledger} {context : Context}
  {progress last : Progress}

/-- The first pass of a resolver rolls nothing. -/
theorem away_firstPass {resolver : Resolver} {methods : MethodTable}
    {outcome : Option (Except Fault Unit)}
    (reaches : (resolver.firstPass methods progress).Reaches (Progress.Away first stop) outcome
      last) : progress.Away first stop last := by
  have asked := resolver.rolled_addAll methods resolver.roll.dice progress
  have passes := resolver.passes_firstPass methods progress
  generalize resolver.firstPass methods progress = step at passes reaches
  cases passes with
  | closed =>
    obtain ⟨_, rfl⟩ := Step.Reaches.of_done reaches
    exact .of_rolled rfl
  | failed _ all =>
    obtain ⟨_, rfl⟩ := Step.Reaches.of_done reaches
    rw [all] at asked
    exact .of_rolled asked
  | ended _ all =>
    obtain ⟨_, rfl⟩ := Step.Reaches.of_done reaches
    rw [all] at asked
    exact .of_rolled ((resolver.rolled_checkDone _).trans asked)
  | @waiting between _ all =>
    rw [all] at asked
    have still : progress.Away first stop (resolver.expecting between) := .of_rolled asked
    cases reaches with
    | waiting => exact still
    | resumed meanwhile answer reaches =>
      obtain ⟨_, rfl⟩ := Step.Reaches.of_done reaches
      exact still.trans meanwhile

section

variable (exacting : context.IsExacting) (spans : roll.Spans first stop)
  (uniform : RowThroughout (Term.IsUniform context made) (fun _ => True) roll.terms)
  (intact : made.IsIntact first stop progress.ledger)
include exacting spans uniform intact

/-- With a resolver or without one, a roll draws its results. -/
theorem evaluateWith_draws {surroundings : Surroundings}
    (reaches : (evaluateWith surroundings roll context progress).Reaches
      (Progress.Away first stop) (some (.ok ())) last) :
    last.Drew context.uniform progress.draws roll.diceInTurn := by
  unfold evaluateWith at reaches
  cases given : surroundings.resolver with
  | none =>
    rw [given] at reaches
    exact Context.evaluateRoll_draws exacting spans uniform intact reaches
  | some resolver =>
    rw [given] at reaches
    rcases Step.Reaches.of_andThen reaches with ⟨result, later, body, rest⟩ | ⟨none, _⟩
    · rcases Step.Reaches.of_done rest with ⟨succeeded, rfl⟩
      cases succeeded
      rcases Step.Reaches.of_andThen body with ⟨passed, middle, pass, work⟩ | ⟨none, _⟩
      · cases passed with
        | error fault => cases (Step.Reaches.of_done work).1
        | ok done =>
          have away := away_firstPass pass
          have ready := intact.of_touched away.touched (apart_beyond first stop)
          have drew := Context.evaluateRoll_draws exacting spans uniform ready work
          have closed := resolver.rolled_close later
          refine Progress.Drew.congr (away.draws ▸ drew) ?_ (congrArg Prod.snd closed)
          rw [resolver.ledger_close]
          exact fun _ _ => ⟨rfl, rfl⟩
      · cases none
    · cases none

/-- In whichever way a roll is evaluated, it draws its results. -/
theorem attempt_draws {options : Options} {surroundings : Surroundings}
    (found : options.forRoll surroundings = .ok context)
    (reaches : (roll.attempt options surroundings progress).Reaches
      (Progress.Away first stop) (some (.ok ())) last) :
    last.Drew context.uniform progress.draws roll.diceInTurn := by
  have lifted : (lift (options.forRoll surroundings) : Evaluation Context) progress =
      .done (.ok context) progress := congrArg (Step.done · progress) found
  unfold attempt at reaches
  split at reaches
  · unfold evaluateNow at reaches
    rw [bind_done lifted] at reaches
    exact Context.evaluateRoll_draws exacting spans uniform intact reaches
  · have untouched := intact.waits.rollPhase spans.bounds.1 spans.bounds.2
    rw [evaluate_of_unevaluated options surroundings untouched, bind_done lifted] at reaches
    exact evaluateWith_draws exacting spans uniform intact reaches

end

end RollOf

theorem Options.uniform_of_forRoll {options : Options} {surroundings : Surroundings}
    {context : Context} (found : options.forRoll surroundings = .ok context) :
    context.uniform = surroundings.uniform := by
  rcases options.eq_of_forRoll found with ⟨_, _, rfl⟩
  rfl

theorem Ledger.length_resultsOf (ledger : Ledger) (dice : List Dice) :
    (ledger.resultsOf dice).length =
      (dice.map fun d => (ledger.outcomes d.tag.id).length).sum := by
  rw [resultsOf, List.length_flatMap]
  simp only [List.length_map]

namespace Build

/-- When a roll that was built from a formula has been evaluated without a fault, as many
uniform values were taken as its dice have results, if all dice are left to the uniform source,
no modifier is skipped, and the results are not fixed.  In the order of evaluation, which lists
every die of the roll once, each result is picked by the uniform value in its place. -/
theorem results_are_draws {setup : Setup} {input : RollInput} {ledger made : Ledger} {roll : Roll}
    (built : ofFormula setup input ledger = .ok (roll, made)) {progress last : Progress}
    (begins : made.SameButMethods progress.ledger) {options : Options}
    {surroundings : Surroundings} {context : Context}
    (found : options.forRoll surroundings = .ok context) (exacting : context.IsExacting)
    (uniform : ∀ dice ∈ roll.dice, dice.IsUniform context progress.ledger)
    (reaches : (roll.attempt options surroundings progress).Reaches
      (Progress.Away ledger.next made.next) (some (.ok ())) last) :
    roll.diceInTurn.Perm roll.dice ∧
    last.draws = progress.draws +
      (roll.dice.map fun dice => (last.ledger.outcomes dice.tag.id).length).sum ∧
    ∀ i dice value, (last.ledger.resultsOf roll.diceInTurn)[i]? = some (dice, value) →
      last.ledger.mapUniform dice
        (.number (.real (surroundings.uniform (progress.draws + i)))) = .ok value := by
  have isMade := ofFormula_isMade built
  have fresh := isMade.fresh.of_sameButMethods begins
  have intact : progress.ledger.IsIntact ledger.next made.next progress.ledger :=
    ⟨fresh, Ledger.SameOn.refl progress.ledger, Nat.le_of_eq begins.next⟩
  have drew := RollOf.attempt_draws exacting isMade.spans (rowThroughout_of_dice uniform) intact
    found reaches
  rw [Options.uniform_of_forRoll found] at drew
  have order := roll.diceInTurn_perm
  refine ⟨order, ?_, fun i dice value is => drew.picked.get is⟩
  rw [drew.draws, Ledger.length_resultsOf]
  exact congrArg (progress.draws + ·) (order.map _).sum_eq

/-- A nested number of dice that explode, and dice that are rolled again in a function. -/
def chainedRoll : RollInput where
  formula := "(1d2)d8x + max(2d4r1, 1)"
  method := .string "random"

/-- Uniform values that are large and small by turns. -/
def byTurns (k : Nat) : Float := if k % 2 = 0 then 0.9375 else 0.125

/-- Whether all dice of a roll are left to the uniform source. -/
def allUniform (context : Context) (pair : Roll × Ledger) : Bool :=
  pair.1.dice.all fun dice =>
    (context.methods.named (pair.2.term dice.tag.id).method).toOption.any context.leavesToSource

/-- The evaluation of a roll with such uniform values. -/
def runByTurns (pair : Roll × Ledger) : Step Unit :=
  pair.1.attempt {} ⟨usual, false, byTurns, none⟩ (.ofLedger pair.2)

/-- Whether that succeeds with so many uniform values. -/
def succeedsWith (draws : Nat) (pair : Roll × Ledger) : Bool :=
  match runByTurns pair with
  | .done (.ok ()) last => last.draws == draws
  | _ => false

/-- The die that gives the number, two dice of which one explodes, and two dice of which one is
rolled again take seven uniform values. -/
theorem results_are_draws_of_chainedRoll : ∃ roll made last,
    ofFormula usual chainedRoll .empty = .ok (roll, made) ∧
    roll.attempt {} ⟨usual, false, byTurns, none⟩ (.ofLedger made) = .done (.ok ()) last ∧
    (roll.dice.map fun dice => (last.ledger.outcomes dice.tag.id).length).sum = 7 ∧
    ∀ i dice value, (last.ledger.resultsOf roll.diceInTurn)[i]? = some (dice, value) →
      last.ledger.mapUniform dice (.number (.real (byTurns i))) = .ok value := by
  let context : Context := ({} : Options).contextWith ⟨usual, false, byTurns, none⟩ false
    ({} : Settings).maxChainRolls
  have computed : (ofFormula usual chainedRoll .empty).toOption.any
      (fun pair => allUniform context pair && succeedsWith 7 pair) = true := by decide +kernel
  cases built : ofFormula usual chainedRoll .empty with
  | error fault =>
    rw [built] at computed
    cases computed
  | ok pair =>
    rcases pair with ⟨roll, made⟩
    rw [built] at computed
    rcases Bool.and_eq_true_iff.1 computed with ⟨allLeft, succeeds⟩
    have uniform : ∀ dice ∈ roll.dice, dice.IsUniform context made := by
      intro dice member
      have left := List.all_eq_true.1 allLeft dice member
      cases named : context.methods.named (made.term dice.tag.id).method with
      | error fault =>
        rw [named] at left
        cases left
      | ok method =>
        rw [named] at left
        exact ⟨method, named, left⟩
    unfold succeedsWith at succeeds
    cases run : runByTurns (roll, made) with
    | wait request asked resume =>
      rw [run] at succeeds
      cases succeeds
    | done result last =>
      cases result with
      | error fault =>
        rw [run] at succeeds
        cases succeeds
      | ok done =>
        rw [run] at succeeds
        have reaches : (runByTurns (roll, made)).Reaches (Progress.Away 0 made.next)
            (some (.ok ())) last := by
          rw [run]
          exact .done _ _
        rcases @results_are_draws usual chainedRoll .empty made roll built (.ofLedger made) last
          (.refl _) {} _ context rfl ⟨rfl, rfl, rfl⟩ uniform reaches with ⟨_, draws, picked⟩
        refine ⟨roll, made, last, rfl, run, ?_, fun i dice value is => ?_⟩
        · rw [← Nat.zero_add (List.sum _)]
          exact draws.symm.trans (beq_iff_eq.1 succeeds)
        · have result := picked i dice value is
          rwa [show (Progress.ofLedger made).draws + i = i from Nat.zero_add i] at result

end Build
end DiceNotation
