import DiceNotation.Proofs.Evaluation.Frame
import DiceNotation.Proofs.Roll.Made
import DiceNotation.Service

namespace DiceNotation

/-!
# Attempts to evaluate

A roll can be evaluated where nothing can be waited for, or in tasks that wait for
the outside.  An attempt may succeed, may fail at any point, or may be waiting still.
Whatever was tried, a clone of the roll has the record that the roll had when it was
made: evaluation changes nothing but what the clone leaves out.
-/

/-- Where a run can stand at some time: done with a result, or waiting.  While it waits,
others do what they may until there is an answer. -/
inductive Step.Reaches {α : Type} (others : Progress → Progress → Prop) :
    Step α → Option (Except Fault α) → Progress → Prop
  | done (result : Except Fault α) (last : Progress) :
    Reaches others (.done result last) (some result) last
  | waiting (request : Request) (asked : Progress) (resume : Answer → Progress → Step α) :
    Reaches others (.wait request asked resume) none asked
  | resumed {request : Request} {asked later last : Progress}
    {resume : Answer → Progress → Step α} {outcome : Option (Except Fault α)}
    (meanwhile : others asked later) (answer : Answer)
    (reaches : Reaches others (resume answer later) outcome last) :
    Reaches others (.wait request asked resume) outcome last

namespace Step.Reaches

variable {α β : Type} {others : Progress → Progress → Prop}

/-- Wherever a run stands, it has touched only what it may touch, if others touch no
more than that while it waits. -/
theorem touched {inside : Identity → Prop}
    (kept : ∀ before after, others before after → before.Touched inside after)
    {start last : Progress} {step : Step α} {outcome : Option (Except Fault α)}
    (reaches : step.Reaches others outcome last) (keeps : step.Keeps (FrameRule.touched inside) start) :
    start.Touched inside last := by
  induction reaches with
  | done result last => exact keeps
  | waiting request asked resume => exact keeps.1
  | resumed meanwhile answer reaches ih => exact ih (keeps.2 answer _ (kept _ _ meanwhile))

/-- A run that goes on with something else has come to that, or waits still. -/
theorem of_andThen {step : Step α} {next : Except Fault α → Progress → Step β}
    {outcome : Option (Except Fault β)} {last : Progress}
    (reaches : (step.andThen next).Reaches others outcome last) :
    (∃ result middle, step.Reaches others (some result) middle ∧
      (next result middle).Reaches others outcome last) ∨
    (outcome = none ∧ step.Reaches others none last) := by
  induction step with
  | done result middle => exact .inl ⟨result, middle, .done result middle, reaches⟩
  | wait request asked resume ih =>
    cases reaches with
    | waiting => exact .inr ⟨rfl, .waiting _ _ _⟩
    | resumed meanwhile answer reaches =>
      rcases ih _ _ reaches with ⟨result, middle, first, rest⟩ | ⟨none, first⟩
      · exact .inl ⟨result, middle, .resumed meanwhile answer first, rest⟩
      · exact .inr ⟨none, .resumed meanwhile answer first⟩

end Step.Reaches

/-- What a run gives so far. -/
def Step.outcome {α : Type} : Step α → Option (Except Fault α)
  | .done result _ => some result
  | .wait _ _ _ => none

/-- A run can stand where it stands first. -/
theorem Step.Reaches.progress {α : Type} {others : Progress → Progress → Prop} (step : Step α) :
    step.Reaches others step.outcome step.progress := by
  cases step with
  | done result last => exact .done result last
  | wait request asked resume => exact .waiting request asked resume

/-- From one progress to the next, anything may have happened that gives back no
identity and changes no method. -/
abbrev Progress.Moved (before after : Progress) : Prop := before.Touched (fun _ => True) after

/-- Valid settings settle what the options leave open. -/
theorem Options.forRoll_of_settings (options : Options) {surroundings : Surroundings}
    {settings : Settings} (given : surroundings.setup.settings = .ok settings) :
    options.forRoll surroundings =
      .ok (options.contextWith surroundings (options.lenient.getD settings.lenientModifiers)
        (options.maxChainRolls.getD settings.maxChainRolls)) := by
  unfold forRoll
  rw [given]
  rfl

theorem Options.eq_of_forRoll {options : Options} {surroundings : Surroundings} {context : Context}
    (found : options.forRoll surroundings = .ok context) :
    ∃ lenient limit, context = options.contextWith surroundings lenient limit := by
  unfold forRoll at found
  cases given : surroundings.setup.settings with
  | error fault =>
    rw [given] at found
    cases found
  | ok settings =>
    rw [given] at found
    cases found
    exact ⟨_, _, rfl⟩

theorem Options.eq_of_forTerm {options : Options} {surroundings : Surroundings} {context : Context}
    (found : options.forTerm surroundings = .ok context) :
    ∃ lenient limit, context = options.contextWith surroundings lenient limit := by
  unfold forTerm at found
  split at found
  · cases found
    exact ⟨_, _, rfl⟩
  · cases given : surroundings.setup.settings with
    | error fault =>
      rw [given] at found
      cases found
    | ok settings =>
      rw [given] at found
      cases found
      exact ⟨_, _, rfl⟩

namespace RollOf

/-- The evaluation of a roll in the way that its surroundings allow. -/
def attempt (options : Options) (surroundings : Surroundings) (roll : Roll) : Evaluation Unit :=
  if surroundings.synchronous then roll.evaluateNow options surroundings
  else roll.evaluate options surroundings

/-- Where nothing can be waited for, to run a roll is to evaluate it in its context. -/
theorem run_of_forRoll {options : Options} {surroundings : Surroundings} {context : Context}
    (synchronous : surroundings.synchronous = true)
    (found : options.forRoll surroundings = .ok context) (roll : Roll) (progress : Progress) :
    roll.run options surroundings progress =
      (context.evaluateRoll roll progress).now roll.formula := by
  have lifted : Evaluation.lift (options.forRoll surroundings) progress =
      .done (.ok context) progress := congrArg (Step.done · progress) found
  have attempted : roll.attempt options surroundings progress =
      context.evaluateRoll roll progress := by
    unfold attempt evaluateNow
    rw [if_pos synchronous, Evaluation.bind_done lifted]
  exact congrArg (Step.now roll.formula) attempted

/-- What has become of things after attempts to evaluate a roll, each with its own
options and surroundings, and after what others have done in between. -/
inductive Tried (roll : Roll) (others : Progress → Progress → Prop) (start : Progress) :
    Progress → Prop
  | untouched : Tried roll others start start
  | attempt {between last : Progress} (tried : Tried roll others start between)
    (options : Options) (surroundings : Surroundings) {outcome : Option (Except Fault Unit)}
    (reaches : (roll.attempt options surroundings between).Reaches others outcome last) :
    Tried roll others start last
  | elsewhere {between last : Progress} (tried : Tried roll others start between)
    (meanwhile : others between last) : Tried roll others start last

theorem touches_attempt (options : Options) (surroundings : Surroundings) (roll : Roll) :
    (roll.attempt options surroundings).Keeps (FrameRule.touched fun _ => True) := by
  have lies : roll.Inside fun _ => True := ⟨trivial, rowThroughout_true roll.terms⟩
  exact Evaluation.Keeps.ite (RollOf.touches_evaluateNow options surroundings lies)
    (RollOf.touches_evaluate options surroundings lies)

/-- Attempts give back no identity and change no method, if others do not. -/
theorem Tried.moved {roll : Roll} {others : Progress → Progress → Prop}
    (moves : ∀ before after, others before after → before.Moved after) {start last : Progress}
    (tried : roll.Tried others start last) : start.Moved last := by
  induction tried with
  | untouched => exact Ledger.Touched.refl start.ledger
  | attempt tried options surroundings reaches ih =>
    have keeps := roll.touches_attempt options surroundings
    exact Ledger.Touched.trans ih (reaches.touched moves (keeps _))
  | elsewhere tried meanwhile ih => exact Ledger.Touched.trans ih (moves _ _ meanwhile)

end RollOf

/-! ## Clones -/

/-- Whether a term is not evaluated and has no outcomes. -/
structure Term.IsBlank (ledger : Ledger) (term : Term) : Prop where
  unevaluated : ledger.isEvaluated term = false
  dice : ∀ d, term = .dice d → ledger.outcomes d.tag.id = []
  pool : ∀ p, term = .pool p → ledger.outcomes p.tag.id = []

/-- Whether a roll is not evaluated and has no total. -/
structure RollOf.IsBlank (ledger : Ledger) (roll : Roll) : Prop where
  unevaluated : ledger.isRollEvaluated roll = false
  total : ledger.rollTotal roll = .null

section

variable {f : Identity → Identity} {ledger built other : Ledger}

/-- The copy of a term that was blank is blank. -/
theorem Term.Alike.isBlank {term : Term} (alike : term.Alike f built other)
    (renews : term.Renews ledger built) : (term.renumber f).IsBlank other := by
  refine ⟨alike.evaluated.trans renews.unevaluated, ?_, ?_⟩
  · intro d is
    cases term with
    | dice old =>
      cases is
      exact (alike.dice old rfl).1.trans (renews.dice old rfl).1
    | _ => cases is
  · intro p is
    cases term with
    | pool old =>
      cases is
      exact (alike.pool old rfl).trans (renews.pool old rfl)
    | _ => cases is

theorem RollOf.Alike.isBlank {roll : Roll} (alike : roll.Alike f built other)
    (renews : roll.Renews built) : (roll.renumber f).IsBlank other := by
  refine ⟨alike.evaluated.trans renews, ?_⟩
  rw [alike.total, Ledger.rollTotal, renews]
  rfl

end

namespace Build

variable {setup : Setup}

/-- Whatever was tried to evaluate a roll, the record of the roll differs from the one
that it had when it was made by what evaluation adds.  The roll can be cloned, and the
clone has the record that the roll had when it was made: the same terms with the same
methods, none of them evaluated, and no results or totals anywhere. -/
theorem clone_of_tried {input : RollInput} {ledger made : Ledger} {roll : Roll}
    (built : ofFormula setup input ledger = .ok (roll, made)) {start last : Progress}
    (begins : start.ledger = made) (tried : roll.Tried Progress.Moved start last) :
    (last.ledger.recordOfRoll roll).renewed = made.recordOfRoll roll ∧
    ∃ copy final, clone setup roll last.ledger = .ok (copy, final) ∧
      final.recordOfRoll copy = made.recordOfRoll roll ∧ copy.IsBlank final ∧
      RowThroughout (Term.IsBlank final) (RollOf.IsBlank final) copy.terms ∧
      ∃ f, copy = roll.renumber f ∧ RollOf.Copied f made final roll := by
  have isMade := ofFormula_isMade built
  have moved : Ledger.Touched (fun _ => True) made last.ledger := begins ▸ tried.moved fun _ _ moved => moved
  have renews (other : Ledger) (extended : Ledger.Extends last.ledger other) :=
    isMade.renews (moved.trans extended.touched)
  have around : roll.Renews made :=
    isMade.waits.isRollEvaluated isMade.spans.bounds.1 isMade.spans.bounds.2
  constructor
  · exact around.rollRecord (Ledger.renewed_records (renews _ (Ledger.Extends.refl _)))
  · rcases clone_restores isMade.spans isMade.isRestorable isMade.rowRestorable renews with
      ⟨final, cloned, _, _, copied⟩
    have blank := RowThroughout.and copied.row (renews _ (Ledger.Extends.refl _))
    refine ⟨_, final, cloned, copied.record, copied.around.isBlank around, ?_, _, rfl, copied⟩
    refine RowThroughout.renumber (RowThroughout.imp isMade.spans.1 ?_ ?_ blank)
    · exact fun _ _ _ both => both.1.isBlank both.2
    · exact fun _ _ _ both => both.1.isBlank both.2

/-- Two dice in brackets and one more are rolled as low as can be. -/
def lowRoll : Except Fault (Roll × Ledger) :=
  ofFormula usual { formula := "(2d6kh) + 1", method := .string "random" } .empty

/-- What has become of it. -/
def lowest (roll : Roll) (made : Ledger) : Progress :=
  (roll.attempt { minimize := true } (Service.quiet usual) (.ofLedger made)).progress

theorem clone_of_lowest : ∃ roll made, lowRoll = .ok (roll, made) ∧
    (lowest roll made).ledger.isRollEvaluated roll = true ∧
    ∃ copy final, clone usual roll (lowest roll made).ledger = .ok (copy, final) ∧
      final.recordOfRoll copy = made.recordOfRoll roll ∧ copy.IsBlank final := by
  have computed : lowRoll.toOption.any (fun pair =>
      (lowest pair.1 pair.2).ledger.isRollEvaluated pair.1) = true := by decide +kernel
  cases built : lowRoll with
  | error fault =>
    rw [built] at computed
    cases computed
  | ok pair =>
    rcases pair with ⟨roll, made⟩
    rw [built] at computed
    have computed : (lowest roll made).ledger.isRollEvaluated roll = true := computed
    have tried : roll.Tried Progress.Moved (.ofLedger made) (lowest roll made) :=
      .attempt .untouched _ _ (Step.Reaches.progress _)
    rcases clone_of_tried built rfl tried with ⟨_, copy, final, cloned, same, blank, _⟩
    exact ⟨roll, made, rfl, computed, copy, final, cloned, same, blank⟩

end Build
end DiceNotation
