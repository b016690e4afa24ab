import DiceNotation.Proofs.Fulfillment.ReplayedRolls

namespace DiceNotation

open Evaluation

/-!
# Fulfillment refines plain evaluation

An evaluation whose dice are all rolled outside comes to what a plain evaluation comes to
in which every die draws the values that were delivered to it, one after another.  The first
pass leaves the two alike, the evaluation of the roll keeps them so, and when all dice have
been evaluated nothing is left in which they could differ.
-/

theorem TermState.eq_with_method {state other : TermState} (phase : state.phase = other.phase)
    (outcomes : state.outcomes = other.outcomes) (counting : state.counting = other.counting) :
    state = { other with method := state.method } := by
  rw [← phase, ← outcomes, ← counting]

/-- The surroundings of a plain evaluation in which every die draws the values that it took. -/
def Surroundings.replaying (surroundings : Surroundings) (receipts : List Receipt)
    (dice : List Dice) (synchronous : Bool) (uniform : Nat → Float) : Surroundings where
  setup := { surroundings.setup with methods := .prepared receipts dice }
  synchronous := synchronous
  uniform := uniform

/-- A plain evaluation of a roll has come to what is in a ledger.  But for the methods, which
are those of the single dice, it is the same for every term and roll; so are all totals and
the record.  Every die has drawn each of the values that were delivered to it, once. -/
structure Refines (roll : Roll) (made ledger : Ledger) (receipts : List Receipt)
    (plain : Progress) : Prop where
  same : ∀ id, Ledger.SameAt ledger
    (plain.ledger.withMethods (fun id => (made.term id).method) roll.dice) id
  record : (plain.ledger.withMethods (fun id => (made.term id).method) roll.dice).recordOfRoll roll =
    ledger.recordOfRoll roll
  outcomes : ∀ id, plain.ledger.outcomes id = ledger.outcomes id
  total : plain.ledger.rollTotal roll = ledger.rollTotal roll
  totals : ∀ term, plain.ledger.total term = ledger.total term
  drawn : ∀ dice ∈ roll.dice,
    plain.callsOf dice.tag.id = (valuesFor receipts dice.tag.id).length

namespace Replay

variable {replay : Replay}

/-! ## After the first pass -/

section

variable {early : List Receipt} {middle : Progress}

theorem level_of_none (shares : replay.resolver.Shares replay.made early middle) {id : Identity}
    (none : shareOf early id = []) : IsLevel early middle (.ofLedger replay.start) id where
  outcomes := by
    rcases Ledger.term_withMethods_eq (fun id => .string (ownName id)) replay.resolver.roll.dice
      replay.made id with ⟨own, is⟩
    have given : (middle.ledger.term id).outcomes =
        (replay.made.term id).outcomes ++ (shareOf early id).map (·.outcome) := by
      rw [shares.given.term]
      rfl
    rw [given, none, List.map_nil, List.append_nil]
    exact (congrArg TermState.outcomes is).symm
  calls := by
    rw [none]
    rfl

/-- A die that is ready was filled in advance. -/
theorem owes_of_ready (quiet : middle.Quiet replay.resolver)
    (shares : replay.resolver.Shares replay.made early middle)
    (queued : replay.resolver.Queued replay.setup.methods replay.made early middle) {dice : Dice}
    (member : dice ∈ replay.resolver.roll.dice) (ready : dice.isReady = true) :
    replay.Owes 0 early middle (.ofLedger replay.start) dice where
  member := member
  ready := ready
  number := by
    rcases DiceOf.known_of_ready ready with ⟨n, m, number, faces⟩
    have interactive := replay.interactive dice member
    rw [← shares.given.method] at interactive
    have whole := Resolver.conserves_of_queued replay.isMade shares queued dice member n m number
      faces interactive
    rw [quiet.none, Resolver.outcomes_of_shares replay.isMade shares member, List.length_map] at whole
    have count : ((shareOf early dice.tag.id).length : Int) = n := by
      rw [← whole]
      exact (Int.add_zero _).symm
    rw [number]
    exact (congrArg Int.toNat count).symm
  accepted receipt taken := by
    rcases List.mem_filter.1 taken with ⟨inside, is⟩
    rcases shares.taken receipt inside with ⟨⟨_, among⟩, _, accepted⟩
    rwa [replay.isMade.spans.dice_eq_of_id among member (beq_iff_eq.1 is)] at accepted
  outcomes := Resolver.outcomes_of_shares replay.isMade shares member
  drawn := by
    have fresh := Resolver.fresh_of_mem replay.isMade member
    change ((replay.made.withMethods _ _).term dice.tag.id).outcomes = _
    rw [Ledger.term_withMethods_of_mem member, fresh]
    rfl
  calls := rfl

/-- When the first pass has ended, the two evaluations go on alike. -/
theorem alike_of_passed (quiet : middle.Quiet replay.resolver)
    (shares : replay.resolver.Shares replay.made early middle)
    (queued : replay.resolver.Queued replay.setup.methods replay.made early middle) :
    replay.Alike early middle (.ofLedger replay.start) where
  pairs := by
    have plain (id : Identity) := Ledger.term_withMethods_eq (fun id => .string (ownName id))
      replay.resolver.roll.dice replay.made id
    refine ⟨quiet, fun id => ?_, fun id => ?_, fun id => ?_, shares.given.method, fun _ => rfl⟩
    · exact (shares.given.roll id).trans (Ledger.roll_withMethods _ id).symm
    · rcases plain id with ⟨own, is⟩
      rw [shares.given.term]
      exact (congrArg TermState.phase is).symm
    · rcases plain id with ⟨own, is⟩
      rw [shares.given.term]
      exact (congrArg TermState.counting is).symm
  stands id := by
    by_cases filled : ∃ dice ∈ replay.resolver.roll.dice, dice.tag.id = id ∧ dice.isReady = true
    · rcases filled with ⟨dice, member, rfl, ready⟩
      refine .ahead rfl (owes_of_ready quiet shares queued member ready) ?_
      rw [shares.given.term, Resolver.fresh_of_mem replay.isMade member]
      exact nofun
    · refine .level (level_of_none shares (List.filter_eq_nil_iff.2 fun receipt taken is => ?_))
      rcases (shares.taken receipt taken).1 with ⟨early, among⟩
      exact filled ⟨_, among, beq_iff_eq.1 is, early.ready⟩

end

/-! ## At the end -/

/-- In the replay all dice are evaluated at the end. -/
theorem evaluated_of_plain {last : Progress}
    (ends : replay.plain.evaluateRoll replay.resolver.roll (.ofLedger replay.start) =
      .done (.ok ()) last) {dice : Dice} (member : dice ∈ replay.resolver.roll.dice) :
    (last.ledger.term dice.tag.id).phase = .evaluated := by
  have isMade := replay.isMade
  rcases isMade.spans with ⟨spans, stop⟩
  have fresh := isMade.fresh.withMethods (fun id => .string (ownName id)) replay.resolver.roll.dice
  have used : replay.resolver.roll.id + 1 ≤ replay.start.next :=
    Nat.le_of_eq (stop.symm.trans (Ledger.next_withMethods _).symm)
  have stands : Context.Stands (Beyond replay.first (replay.resolver.roll.id + 1)) replay.first
      (replay.resolver.roll.id + 1) (.ofLedger replay.start) :=
    ⟨apart_beyond _ _, .of_fresh (stop ▸ fresh) used⟩
  have row : RowThroughout (fun _ => True) RollOf.IsSound replay.resolver.roll.terms :=
    RowThroughout.imp spans (fun _ _ _ _ => trivial) (fun _ _ _ sound => sound) isMade.row
  have settles := replay.plain.ofRoll_settles spans isMade.sound stands fun begun ready =>
    replay.plain.evaluateTerms_settle _ spans row begun ready
  rw [ends] at settles
  have settled : RollOf.Settled last.ledger replay.resolver.roll := settles
  exact beq_iff_eq.1 (RowThroughout.diceFrom settled.row dice member)

/-- When all dice have been evaluated, the two evaluations have come to the same. -/
theorem Alike.refines {progress other : Progress}
    (alike : replay.Alike replay.receipts progress other)
    (evaluated : ∀ dice ∈ replay.resolver.roll.dice,
      (progress.ledger.term dice.tag.id).phase = .evaluated) :
    Refines replay.resolver.roll replay.made progress.ledger replay.receipts other := by
  have level (id : Identity) : IsLevel replay.receipts progress other id := by
    cases alike.stands id with
    | level level => exact level
    | ahead is owes lasts =>
      subst is
      exact absurd (evaluated _ owes.member) lasts
  have same (id : Identity) : Ledger.SameAt progress.ledger (other.ledger.withMethods
      (fun id => (replay.made.term id).method) replay.resolver.roll.dice) id := by
    refine ⟨?_, (alike.pairs.roll id).trans (Ledger.roll_withMethods _ id).symm⟩
    have term := TermState.eq_with_method (alike.pairs.phase id) (level id).outcomes
      (alike.pairs.counting id)
    have start := replay.made.term_withMethods (fun id => .string (ownName id))
      replay.resolver.roll.dice id
    have own : (replay.start.term id).method = _ := congrArg TermState.method start
    rw [Ledger.term_withMethods, term, alike.pairs.method]
    split
    · rfl
    · rename_i outside
      rw [if_neg outside] at own
      rw [← own, ← alike.pairs.own]
  refine ⟨same, ?_, fun id => (level id).outcomes.symm, (alike.agrees.rollTotal _).symm,
    fun term => (congrFun alike.agrees.total term).symm, fun dice _ => ?_⟩
  · exact (Ledger.SameOn.recordOfRoll (fun id _ _ => same id) replay.isMade.spans).symm
  · rw [(level dice.tag.id).calls, valuesFor, List.length_map]

end Replay

/-! ## The whole evaluation -/

/-- The context of a plain evaluation differs from that of the evaluation which it replays
only in where the values come from. -/
theorem forRoll_replaying {options : Options} {surroundings : Surroundings} {context : Context}
    (valid : options.forRoll surroundings = .ok context) (receipts : List Receipt)
    (dice : List Dice) (synchronous : Bool) (uniform : Nat → Float) :
    (∃ lenient maxChainRolls, context = options.contextWith surroundings lenient maxChainRolls) ∧
      options.forRoll (surroundings.replaying receipts dice synchronous uniform) = .ok { context with
        methods := .prepared receipts dice
        synchronous := synchronous
        uniform := uniform
        resolver := none } := by
  cases found : surroundings.setup.settings with
  | error fault =>
    unfold Options.forRoll at valid
    rw [found] at valid
    cases valid
  | ok settings =>
    unfold Options.forRoll at valid ⊢
    have same : (surroundings.replaying receipts dice synchronous uniform).setup.settings =
        .ok settings := found
    rw [found] at valid
    rw [same]
    cases valid
    exact ⟨⟨_, _, rfl⟩, rfl⟩

/-- Without a resolver a roll that was just made is evaluated at once. -/
theorem run_of_none {options : Options} {surroundings : Surroundings} {context : Context}
    {roll : Roll} {progress : Progress} (none : surroundings.resolver = none)
    (untouched : (progress.ledger.roll roll.id).phase = .unevaluated)
    (valid : options.forRoll surroundings = .ok context) :
    roll.run options surroundings progress =
      (context.evaluateRoll roll progress).now roll.formula := by
  have reads : lift (options.forRoll surroundings) progress = .done (.ok context) progress :=
    congrArg (Step.done · progress) valid
  have atOnce : roll.evaluateNow options surroundings progress =
      context.evaluateRoll roll progress := by
    unfold RollOf.evaluateNow
    rw [bind_done reads]
  have inTasks : roll.evaluate options surroundings progress =
      context.evaluateRoll roll progress := by
    rw [RollOf.evaluate_of_unevaluated options surroundings untouched, bind_done reads,
      RollOf.evaluateWith, none]
  unfold RollOf.run
  split
  · exact congrArg (Step.now roll.formula) atOnce
  · exact congrArg (Step.now roll.formula) inTasks

namespace Resolver

/-- Whatever values are handed in for a fresh roll whose dice are all rolled outside, and
however they are interleaved: if the evaluation with a resolver succeeds, so does the plain
evaluation in which every die draws the values that the resolver delivered to it.  Both come
to the same outcomes with all marks and counts, the same totals and the same record. -/
theorem evaluate_refines_plain {resolver : Resolver} {options : Options}
    {surroundings : Surroundings} {input : Build.RollInput} {before made : Ledger}
    (built : Build.ofFormula surroundings.setup input before = .ok (resolver.roll, made))
    (own : surroundings.resolver = some resolver) (waits : surroundings.synchronous = false)
    (chances : options.minimize = false ∧ options.maximize = false)
    (allows : options.allowInteractive = true)
    (interactive : ∀ dice ∈ resolver.roll.dice,
      surroundings.setup.methods.isInteractive (made.term dice.tag.id).method = true)
    {receipts : List Receipt} {last : Progress}
    (runs : (resolver.roll.evaluate options surroundings (.ofLedger made)).Runs resolver receipts
      (.done (.ok ()) last)) (synchronous : Bool) (uniform : Nat → Float) :
    ∃ plain, resolver.roll.run options
        (surroundings.replaying receipts resolver.roll.dice synchronous uniform)
        (.ofLedger (made.withOwnMethods resolver.roll.dice)) = (.ok (), plain) ∧
      Refines resolver.roll made last.ledger receipts plain := by
  have isMade := Build.ofFormula_isMade built
  have untouched : ((Progress.ofLedger made).ledger.roll resolver.roll.id).phase = .unevaluated :=
    isMade.waits.rollPhase isMade.spans.bounds.1 isMade.spans.bounds.2
  rcases forRoll_of_built built options with ⟨context, valid, methods, asks⟩
  rcases forRoll_replaying valid receipts resolver.roll.dice synchronous uniform with
    ⟨⟨lenient, limit, is⟩, validToo⟩
  let replay : Replay := {
    resolver := resolver
    setup := surroundings.setup
    first := before.next
    made := made
    isMade := isMade
    receipts := receipts
    asking := context
    asks := asks.trans own
    methods := methods
    waits := by rw [is]; exact waits
    allows := by rw [is]; exact allows
    chances := by rw [is]; exact chances
    interactive := interactive
    synchronous := synchronous
    uniform := uniform }
  rw [evaluate_eq_firstPass untouched valid own, methods] at runs
  rcases runs.of_andThen with
    ⟨_, _, _, _, waits⟩ | ⟨early, late, passed, middle, split, pass, rest⟩
  · cases waits
  cases firstPassed_of_runs isMade pass with
  | cancelled =>
    rcases rest.of_done with ⟨_, is⟩
    cases is
  | ended quiet shares queued =>
    rcases Step.Runs.of_andThen rest with
      ⟨_, _, _, _, waits⟩ | ⟨further, none, result, reached, splitToo, evaluates, closes⟩
    · cases waits
    rcases closes.of_done with ⟨rfl, is⟩
    cases is
    rw [List.append_nil] at splitToo
    subst splitToo
    have alike : replay.Alike early middle (.ofLedger replay.start) :=
      Replay.alike_of_passed quiet shares queued
    have within : early ++ late <+: replay.receipts := split ▸ List.prefix_refl _
    have mirrors := replay.mirrors_evaluateRoll alike evaluates within
    cases mirrors with
    | @value _ plain same holds =>
      rw [← split] at holds
      have evaluated : ∀ dice ∈ resolver.roll.dice,
          (reached.ledger.term dice.tag.id).phase = .evaluated := fun dice member =>
        (holds.pairs.phase dice.tag.id).trans (Replay.evaluated_of_plain same member)
      have untouchedToo : ((Progress.ofLedger replay.start).ledger.roll resolver.roll.id).phase =
          .unevaluated := (congrArg RollState.phase (Ledger.roll_withMethods _ _)).trans untouched
      have ran := run_of_none rfl untouchedToo validToo
      refine ⟨plain, ran.trans (congrArg (Step.now resolver.roll.formula) same), ?_⟩
      rw [resolver.ledger_close]
      exact holds.refines evaluated

/-- A die and another one that explodes, both rolled outside. -/
def explodingPair : Except Fault (Roll × Ledger) :=
  Build.ofFormula Build.usual { formula := "1d20 + 1d6x6", method := .string "manual" } .empty

/-- Where the pair is evaluated. -/
def outside (resolver : Resolver) : Surroundings where
  setup := Build.usual
  synchronous := false
  uniform := fun _ => 0
  resolver := some resolver

/-- The evaluation of the pair after the dice have their first values, in the order in which
they were not asked for. -/
def explodingOnce (resolver : Resolver) (made : Ledger) : Option (List Receipt × Step Unit) :=
  (resolver.roll.evaluate {} (outside resolver) (.ofLedger made)).handIn resolver (.string "manual")
    [(.string "d6", .int 6), (.string "d20", .int 17)]

/-- The evaluation of the pair after the die that exploded has its second value too. -/
def explodingTwice (resolver : Resolver) (step : Step Unit) : Option (List Receipt × Step Unit) :=
  step.handIn resolver (.string "manual") [(.string "d6", .int 2)]

/-- The plain evaluation draws the value for the first die first, and the two values for the
die that explodes then. -/
theorem evaluate_refines_plain_of_explosion : ∃ roll made receipts last plain,
    explodingPair = .ok (roll, made) ∧
    receipts.map (fun receipt => (Json.number receipt.number).plainText) = ["6", "17", "2"] ∧
    (roll.evaluate {} (outside ⟨0, roll⟩) (.ofLedger made)).Runs ⟨0, roll⟩ receipts
      (.done (.ok ()) last) ∧
    roll.run {} ((outside ⟨0, roll⟩).replaying receipts roll.dice true fun _ => 0)
      (.ofLedger (made.withOwnMethods roll.dice)) = (.ok (), plain) ∧
    Refines roll made last.ledger receipts plain := by
  have computed : explodingPair.toOption.any (fun pair =>
      (pair.1.dice.all fun dice => Build.usual.methods.isInteractive
        (pair.2.term dice.tag.id).method) &&
      (explodingOnce ⟨0, pair.1⟩ pair.2).any fun once =>
        (explodingTwice ⟨0, pair.1⟩ once.2).any fun twice =>
          ((once.1 ++ twice.1).map fun receipt => (Json.number receipt.number).plainText) ==
            ["6", "17", "2"] && twice.2.outcome.any (·.isOk)) = true := by decide +kernel
  cases built : explodingPair with
  | error fault =>
    rw [built] at computed
    cases computed
  | ok pair =>
    rcases pair with ⟨roll, made⟩
    rw [built] at computed
    rcases Bool.and_eq_true_iff.1 computed with ⟨interactive, computed⟩
    rcases (Option.any_eq_true _ _).1 computed with ⟨⟨first, waiting⟩, once, computed⟩
    rcases (Option.any_eq_true _ _).1 computed with ⟨⟨second, ended⟩, twice, computed⟩
    rcases Bool.and_eq_true_iff.1 computed with ⟨values, succeeded⟩
    cases ended with
    | wait request asked resume => cases succeeded
    | done result last =>
      cases result with
      | error fault => cases succeeded
      | ok done =>
        have runs := Step.runs_of_handIn once (Step.runs_of_handIn twice (.stays _))
        rw [List.append_nil] at runs
        let resolver : Resolver := ⟨0, roll⟩
        have given : Build.ofFormula (outside resolver).setup
            { formula := "1d20 + 1d6x6", method := .string "manual" } .empty =
              .ok (resolver.roll, made) := built
        rcases evaluate_refines_plain given rfl rfl ⟨rfl, rfl⟩ rfl (List.all_eq_true.1 interactive)
          runs true (fun _ => 0) with ⟨plain, ran, refines⟩
        exact ⟨roll, made, first ++ second, last, plain, rfl, beq_iff_eq.1 values, runs, ran, refines⟩

end Resolver
end DiceNotation
