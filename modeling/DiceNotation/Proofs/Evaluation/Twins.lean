import DiceNotation.Proofs.Evaluation.Draws
import DiceNotation.Proofs.Evaluation.Synchrony
import DiceNotation.Proofs.Roll.Copies

namespace DiceNotation

/-!
# Evaluations under other identities

A term and the same term under other identities are evaluated from one source.  Seen through
the renumbering, the second ledger says what the first one says, apart from the methods of
dice, and both evaluations have taken equally many uniform values.  If the methods leave every
value to the uniform source, both evaluations do the same at each step.  So they end alike, and
afterwards the ledgers still agree.
-/

/-- Whether dice with a method of this name take every value from the uniform source.  Those with
an interactive method do if there is nobody to ask, and that is no fault. -/
def Context.TakesUniform (context : Context) (name : Json) : Prop :=
  ∃ method, context.methods.named name = .ok method ∧ context.leavesToSource method = true ∧
    (method.interactive && context.synchronous && context.strict) = false

instance (context : Context) (name : Json) : Decidable (context.TakesUniform name) :=
  inferInstanceAs (Decidable (∃ method, context.methods.named name = .ok method ∧
    context.leavesToSource method = true ∧
      (method.interactive && context.synchronous && context.strict) = false))

/-- Identities in the place of others: of those that are known, and of those that belong to
dice. -/
structure Twins where
  twin : Identity → Identity
  known : Identity → Prop
  rolled : Identity → Prop
  injective : ∀ {a b : Identity}, known a → known b → twin a = twin b → a = b

/-- Seen through the twins, one progress is the other, apart from the methods of dice, which are
uniform in both. -/
structure Twins.Agree (twins : Twins) (context : Context) (progress other : Progress) :
    Prop where
  draws : other.draws = progress.draws
  term : ∀ id, twins.known id → (other.ledger.term (twins.twin id)).withoutMethod =
    (progress.ledger.term id).withoutMethod
  roll : ∀ id, twins.known id → other.ledger.roll (twins.twin id) = progress.ledger.roll id
  uniform : ∀ id, twins.rolled id → context.TakesUniform (progress.ledger.term id).method
  uniformToo : ∀ id, twins.rolled id →
    context.TakesUniform (other.ledger.term (twins.twin id)).method

/-- Whether a term is known to the twins, and is sound and rolled if it is dice. -/
def Twins.HasTerm (twins : Twins) (term : Term) : Prop :=
  twins.known term.id ∧ ∀ dice, term = .dice dice → twins.rolled dice.tag.id ∧ dice.IsSound

/-- Whether a roll is known to the twins. -/
def Twins.HasRoll (twins : Twins) (roll : Roll) : Prop := twins.known roll.id ∧ roll.IsSound

namespace Twins.Agree

variable {twins : Twins} {context : Context} {progress other : Progress}
  (agree : twins.Agree context progress other)
include agree

/-! ## What is read -/

theorem phase {id : Identity} (known : twins.known id) :
    (other.ledger.term (twins.twin id)).phase = (progress.ledger.term id).phase := by
  have whole := congrArg TermState.phase (agree.term id known)
  exact whole

theorem outcomes {id : Identity} (known : twins.known id) :
    other.ledger.outcomes (twins.twin id) = progress.ledger.outcomes id := by
  have whole := congrArg TermState.outcomes (agree.term id known)
  exact whole

theorem counting {id : Identity} (known : twins.known id) :
    (other.ledger.term (twins.twin id)).counting = (progress.ledger.term id).counting := by
  have whole := congrArg TermState.counting (agree.term id known)
  exact whole

theorem isEvaluated {term : Term} (known : twins.known term.id) :
    other.ledger.isEvaluated (term.renumber twins.twin) = progress.ledger.isEvaluated term := by
  rw [Ledger.isEvaluated, Ledger.isEvaluated, Term.id_renumber, agree.phase known]

theorem isRollEvaluated {roll : Roll} (known : twins.known roll.id) :
    other.ledger.isRollEvaluated (roll.renumber twins.twin) =
      progress.ledger.isRollEvaluated roll :=
  congrArg (fun state => RollState.phase state == .evaluated) (agree.roll roll.id known)

theorem rollTotal {roll : Roll} (known : twins.known roll.id) :
    other.ledger.rollTotal (roll.renumber twins.twin) = progress.ledger.rollTotal roll := by
  have total := congrArg RollState.total (agree.roll roll.id known)
  rw [Ledger.rollTotal, Ledger.rollTotal, agree.isRollEvaluated known]
  exact congrArg (if progress.ledger.isRollEvaluated roll then · else .null) total

theorem functionValue (fn : Function) {rolls : List Roll}
    (parts : RollsThroughout twins.HasTerm twins.HasRoll rolls) :
    other.ledger.functionValue fn (Term.renumberRolls twins.twin rolls) =
      progress.ledger.functionValue fn rolls := by
  unfold Ledger.functionValue
  congr 1
  induction rolls with
  | nil => rfl
  | cons roll rest ih =>
    obtain ⟨around, _, later⟩ := parts
    have first := agree.rollTotal around.1
    change other.ledger.rollTotal (roll.renumber twins.twin) ::
      (Term.renumberRolls twins.twin rest).map other.ledger.rollTotal = _
    rw [first, ih later, List.map_cons]

theorem total {term : Term} (parts : term.Throughout twins.HasTerm twins.HasRoll) :
    other.ledger.total (term.renumber twins.twin) = progress.ledger.total term := by
  have totalOf :
      other.ledger.totalOf (term.renumber twins.twin) = progress.ledger.totalOf term := by
    cases term with
    | numeric tag value => rfl
    | operator tag op => rfl
    | text tag word => rfl
    | group tag roll => exact congrArg Except.ok (agree.rollTotal parts.2.1.1)
    | function tag fn rolls => exact agree.functionValue fn parts.2
    | dice d => exact congrArg Outcome.total (agree.outcomes parts.here.1)
    | pool p => exact congrArg Outcome.total (agree.outcomes parts.here.1)
  rw [Ledger.total, Ledger.total, agree.isEvaluated parts.here.1, totalOf]

theorem totalOfTerms {roll : Roll} (has : twins.HasRoll roll)
    (row : RowThroughout twins.HasTerm twins.HasRoll roll.terms) :
    other.ledger.totalOfTerms (roll.renumber twins.twin).terms =
      progress.ledger.totalOfTerms roll.terms :=
  has.2.totalOfTerms_renumber fun _ member => agree.total (row.of_mem member)

theorem amount {amount : Operand Term}
    (parts : AmountThroughout twins.HasTerm twins.HasRoll amount) :
    other.ledger.amount (Term.renumberAmount twins.twin amount) =
      progress.ledger.amount amount := by
  cases amount with
  | known n => rfl
  | computed term => exact congrArg (·.map Json.wholeNumber) (agree.total parts)

/-! ## What is changed -/

theorem updateTerm {id : Identity} (known : twins.known id) {change : TermState → TermState}
    (ignores : TermState.IgnoresMethod change) :
    twins.Agree context (progress.updateLedger (·.updateTerm id change))
      (other.updateLedger (·.updateTerm (twins.twin id) change)) := by
  have method (ledger : Ledger) (changed asked : Identity) :
      ((ledger.updateTerm changed change).term asked).method = (ledger.term asked).method := by
    rw [Ledger.term_updateTerm]
    split
    · rename_i same
      rw [ignores.method, same]
    · rfl
  refine ⟨agree.draws, ?_, agree.roll, ?_, ?_⟩
  · intro asked inside
    change ((other.ledger.updateTerm _ _).term _).withoutMethod =
      ((progress.ledger.updateTerm _ _).term _).withoutMethod
    rw [Ledger.term_updateTerm, Ledger.term_updateTerm]
    by_cases same : id = asked
    · subst same
      rw [if_pos rfl, if_pos rfl]
      exact ignores.alike (agree.term id known)
    · rw [if_neg same, if_neg fun twin => same (twins.injective known inside twin)]
      exact agree.term asked inside
  · intro asked inside
    exact (method progress.ledger id asked).symm ▸ agree.uniform asked inside
  · intro asked inside
    exact (method other.ledger _ _).symm ▸ agree.uniformToo asked inside

theorem updateRoll {id : Identity} (known : twins.known id) (change : RollState → RollState) :
    twins.Agree context (progress.updateLedger (·.updateRoll id change))
      (other.updateLedger (·.updateRoll (twins.twin id) change)) := by
  refine ⟨agree.draws, agree.term, ?_, agree.uniform, agree.uniformToo⟩
  intro asked inside
  change (other.ledger.updateRoll _ _).roll _ = (progress.ledger.updateRoll _ _).roll _
  rw [Ledger.roll_updateRoll, Ledger.roll_updateRoll]
  by_cases same : id = asked
  · subst same
    rw [if_pos rfl, if_pos rfl, agree.roll id known]
  · rw [if_neg same, if_neg fun twin => same (twins.injective known inside twin)]
    exact agree.roll asked inside

/-- Only the ledgers and the uniform values that were taken matter. -/
theorem of_rolled {later laterToo : Progress} (same : later.rolled = progress.rolled)
    (sameToo : laterToo.rolled = other.rolled) : twins.Agree context later laterToo := by
  obtain ⟨ledger, draws⟩ := Prod.ext_iff.1 same
  obtain ⟨ledgerToo, drawsToo⟩ := Prod.ext_iff.1 sameToo
  change later.ledger = progress.ledger at ledger
  change laterToo.ledger = other.ledger at ledgerToo
  refine ⟨drawsToo.trans (agree.draws.trans draws.symm), ?_, ?_, ?_, ?_⟩
  · rw [ledger, ledgerToo]
    exact agree.term
  · rw [ledger, ledgerToo]
    exact agree.roll
  · rw [ledger]
    exact agree.uniform
  · rw [ledgerToo]
    exact agree.uniformToo

end Twins.Agree

/-- Two evaluations of twins end alike, and both go on to the end. -/
structure Twins.Follow {α : Type} (twins : Twins) (context : Context)
    (first second : Evaluation α) : Prop where
  together : ∀ {progress other}, twins.Agree context progress other → ∃ result last lastToo,
    first progress = .done result last ∧ second other = .done result lastToo ∧
      twins.Agree context last lastToo

namespace Twins.Follow

open Evaluation

variable {twins : Twins} {context : Context} {α β : Type} {first second : Evaluation α}

theorem lift (result : Except Fault α) : twins.Follow context (lift result) (lift result) :=
  ⟨fun agree => ⟨result, _, _, rfl, rfl, agree⟩⟩

theorem pure (a : α) : twins.Follow context (pure a) (pure a) := lift (.ok a)

theorem fail (fault : Fault) : twins.Follow context (fail fault : Evaluation α) (fail fault) :=
  lift (.error fault)

theorem read {f g : Ledger → Except Fault α}
    (same : ∀ progress other, twins.Agree context progress other →
      g other.ledger = f progress.ledger) :
    twins.Follow context (read f) (read g) :=
  ⟨fun agree => ⟨_, _, _, rfl, congrArg (Step.done · _) (same _ _ agree), agree⟩⟩

/-- What is always there can be read. -/
theorem look {f g : Ledger → α}
    (same : ∀ progress other, twins.Agree context progress other →
      g other.ledger = f progress.ledger) :
    twins.Follow context (Evaluation.read fun ledger => .ok (f ledger))
      (Evaluation.read fun ledger => .ok (g ledger)) :=
  read fun progress other agree => congrArg Except.ok (same progress other agree)

theorem updateTerm {id : Identity} (known : twins.known id) {f : TermState → TermState}
    (ignores : TermState.IgnoresMethod f) :
    twins.Follow context (change fun ledger => ledger.updateTerm id f)
      (change fun ledger => ledger.updateTerm (twins.twin id) f) :=
  ⟨fun agree => ⟨.ok (), _, _, rfl, rfl, agree.updateTerm known ignores⟩⟩

theorem updateRoll {id : Identity} (known : twins.known id) (f : RollState → RollState) :
    twins.Follow context (change fun ledger => ledger.updateRoll id f)
      (change fun ledger => ledger.updateRoll (twins.twin id) f) :=
  ⟨fun agree => ⟨.ok (), _, _, rfl, rfl, agree.updateRoll known f⟩⟩

/-- Messages do not matter. -/
theorem report (level : Level) (text : String) :
    twins.Follow context (report level text) (report level text) :=
  ⟨fun agree => ⟨.ok (), _, _, rfl, rfl, agree.draws, agree.term, agree.roll, agree.uniform,
    agree.uniformToo⟩⟩

theorem bind {next nextToo : α → Evaluation β} (follow : twins.Follow context first second)
    (further : ∀ a, twins.Follow context (next a) (nextToo a)) :
    twins.Follow context (first >>= next) (second >>= nextToo) where
  together agree := by
    obtain ⟨result, last, lastToo, run, runToo, still⟩ := follow.together agree
    cases result with
    | error fault => exact ⟨_, _, _, bind_failed run, bind_failed runToo, still⟩
    | ok a =>
      rw [bind_done run, bind_done runToo]
      exact (further a).together still

theorem andThen {next nextToo : Except Fault α → Evaluation β}
    (follow : twins.Follow context first second)
    (further : ∀ result, twins.Follow context (next result) (nextToo result)) :
    twins.Follow context (fun progress => (first progress).andThen next)
      fun progress => (second progress).andThen nextToo where
  together agree := by
    obtain ⟨result, last, lastToo, run, runToo, still⟩ := follow.together agree
    rw [run, runToo]
    exact (further result).together still

theorem ite {condition : Prop} [Decidable condition] {third fourth : Evaluation α}
    (holds : twins.Follow context first second) (fails : twins.Follow context third fourth) :
    twins.Follow context (if condition then first else third)
      (if condition then second else fourth) := by
  split
  · exact holds
  · exact fails

end Twins.Follow

/-! ## Names under other identities -/

/-- The pool in which every identity is replaced by another one. -/
def PoolOf.renumber (f : Identity → Identity) (pool : Pool) : Pool where
  tag := pool.tag.renumber f
  rolls := Term.renumberRolls f pool.rolls
  modifiers := pool.modifiers

theorem DiceOf.formula_renumber (f : Identity → Identity) (dice : Dice) :
    (dice.renumber f).formula = dice.formula :=
  Term.formula_renumber f (.dice dice)

theorem Term.blame_renumber (f : Identity → Identity) (term : Term) (fault : Fault) :
    (term.renumber f).blame fault = term.blame fault := by
  rw [Term.blame, Term.blame, Term.hasFormula_renumber]

theorem Context.naming_renumber {α : Type} (f : Identity → Identity) (dice : Dice)
    (evaluation : Evaluation α) :
    naming (dice.renumber f) evaluation = naming dice evaluation := by
  have same := Term.hasFormula_renumber f (.dice dice)
  unfold naming
  change (if ((Term.dice dice).renumber f).hasFormula then _ else _) = _
  rw [same]

namespace Twins

open Evaluation

variable {twins : Twins} {context : Context}

theorem follow_refusal {α : Type} (dice : Dice) (fault : Fault) :
    twins.Follow context (Context.naming dice (fail fault) : Evaluation α)
      (Context.naming (dice.renumber twins.twin) (fail fault)) := by
  rw [Context.naming_renumber]
  exact .ite (.fail fault) (.fail .wrongKind)

/-! ## Modifiers -/

theorem follow_tally {term : Term} (known : twins.known term.id) (action : Action)
    (command : Command) :
    twins.Follow context (Context.tally term action command)
      (Context.tally (term.renumber twins.twin) action command) := by
  have tallies : twins.Follow context (Context.tallyOf term.id)
      (Context.tallyOf (twins.twin term.id)) :=
    .look fun progress other agree => by
      rw [agree.counting known]
      exact congrArg (Tally.mk · _) (agree.outcomes known)
  unfold Context.tally
  rw [Term.id_renumber, Term.formula_renumber]
  exact tallies.bind fun before => (Follow.updateTerm known fun _ _ => rfl).bind fun _ => .lift _

/-- Twins that modifiers work on are twins, take the same modifiers and roll again alike. -/
structure Modify (twins : Twins) (context : Context) (modified other : Context.Modified) :
    Prop where
  known : twins.known modified.term.id
  term : other.term = modified.term.renumber twins.twin
  table : other.table = modified.table
  chain : ∀ command recursive explode, twins.Follow context
    (modified.chain command recursive explode) (other.chain command recursive explode)

section

variable {modified other : Context.Modified} (modify : twins.Modify context modified other)
include modify

theorem follow_runModifier (raw : Json) :
    twins.Follow context (Context.runModifier modified raw)
      (Context.runModifier other raw) := by
  unfold Context.runModifier
  rw [modify.term, modify.table]
  dsimp only
  rw [Term.formula_renumber]
  refine (Follow.lift _).bind fun command => ?_
  cases modified.table.action? command.name with
  | none => exact .fail _
  | some action =>
    cases action with
    | reroll once => exact modify.chain _ _ _
    | explode once => exact modify.chain _ _ _
    | _ => exact follow_tally modify.known _ command

/-- Both skip a modifier that fails, or none does. -/
theorem follow_afterModifier (raw : Json) (outcomes : List Outcome)
    (result : Except Fault Unit) :
    twins.Follow context (context.afterModifier modified.term raw outcomes result)
      (context.afterModifier other.term raw outcomes result) := by
  cases result with
  | ok done => exact .pure done
  | error fault =>
    cases fault with
    | modifier reason formula command =>
      unfold Context.afterModifier
      dsimp only
      rw [modify.term]
      cases context.lenient with
      | false => exact .fail _
      | true =>
        have same : Context.skipping (modified.term.renumber twins.twin) raw =
            Context.skipping modified.term raw := by
          unfold Context.skipping
          rw [Term.formula_renumber]
        unfold Progress.undoing
        rw [same, Term.id_renumber]
        exact (Follow.report .warning _).bind fun _ =>
          .updateTerm modify.known (Bond.ignoresMethod_outcomes fun _ => outcomes)
    | _ => exact .fail _

theorem follow_tryModifier (raw : Json) :
    twins.Follow context (context.tryModifier modified raw)
      (context.tryModifier other raw) where
  together {progress otherToo} agree := by
    have outcomes : (otherToo.ledger.term other.term.id).outcomes =
        (progress.ledger.term modified.term.id).outcomes := by
      rw [modify.term, Term.id_renumber]
      exact agree.outcomes modify.known
    rw [Context.tryModifier_eq, Context.tryModifier_eq, outcomes]
    exact ((follow_runModifier modify raw).andThen
      (follow_afterModifier modify raw _)).together agree

theorem follow_runModifiers (modifiers : List Json) :
    twins.Follow context (context.runModifiers modified modifiers)
      (context.runModifiers other modifiers) := by
  have named : other.term.hasFormula = modified.term.hasFormula := by
    rw [modify.term, Term.hasFormula_renumber]
  induction modifiers with
  | nil => exact .pure _
  | cons raw rest ih =>
    unfold Context.runModifiers
    rw [named]
    exact .ite ((follow_tryModifier modify raw).bind fun _ => ih) (.fail _)

end

/-! ## Dice -/

theorem follow_outcomes {α : Type} {id : Identity} (known : twins.known id)
    (f : List Outcome → Except Fault α) :
    twins.Follow context (read fun ledger => f (ledger.outcomes id))
      (read fun ledger => f (ledger.outcomes (twins.twin id))) :=
  .read fun _ _ agree => congrArg f (agree.outcomes known)

section

variable {dice : Dice}

/-- Dice that take every value from the uniform source are given none. -/
theorem askMethod_of_uniform {name : Json} (uniform : context.TakesUniform name)
    (written : (Term.dice dice).hasFormula = true) (reroll explode : Bool) (progress : Progress) :
    ∃ later, context.askMethod dice name reroll explode progress = .done (.ok .null) later ∧
      later.rolled = progress.rolled := by
  have digitally (reason : String) : ∃ later,
      Context.reportDigital dice reason progress = .done (.ok .null) later ∧
        later.rolled = progress.rolled := by
    unfold Context.reportDigital
    rw [Context.naming_eq written]
    exact ⟨_, rfl, rfl⟩
  obtain ⟨method, named, left, permitted⟩ := uniform
  have found : (lift (context.methods.named name) : Evaluation Method) progress =
      .done (.ok method) progress := congrArg (Step.done · progress) named
  unfold Context.askMethod
  rw [bind_done found]
  unfold Context.leavesToSource at left
  cases interactive : method.interactive with
  | false =>
    rw [interactive, if_neg Bool.false_ne_true, Option.isNone_iff_eq_none] at left
    rw [if_neg Bool.false_ne_true, left]
    exact ⟨_, rfl, rfl⟩
  | true =>
    rw [interactive, if_pos rfl] at left
    rw [interactive, Bool.true_and] at permitted
    rw [if_pos rfl]
    unfold Context.askOutside
    cases waits : context.synchronous with
    | true =>
      rw [waits, Bool.true_and] at permitted
      rw [permitted, if_pos rfl, if_neg Bool.false_ne_true]
      exact digitally _
    | false =>
      rw [waits, Bool.false_or] at left
      rw [if_neg Bool.false_ne_true]
      cases allowed : context.allowInteractive with
      | false => exact ⟨_, rfl, rfl⟩
      | true =>
        rw [allowed, Bool.not_true, Bool.false_or, Option.isNone_iff_eq_none] at left
        rw [left]
        exact digitally _

/-- Dice that take every value from the uniform source take the next one. -/
theorem draw_of_uniform {progress : Progress}
    (uniform : context.TakesUniform (progress.ledger.term dice.tag.id).method)
    (written : (Term.dice dice).hasFormula = true) (reroll explode : Bool) :
    ∃ later, context.draw dice reroll explode progress = context.drawUniform dice later ∧
      later.rolled = progress.rolled := by
  obtain ⟨later, asked, same⟩ := askMethod_of_uniform uniform written reroll explode progress
  rw [Context.draw_of_method rfl]
  exact ⟨later, bind_done asked, same⟩

theorem maximumValue_eq {progress other : Progress}
    (agree : twins.Agree context progress other)
    (faces : AmountThroughout twins.HasTerm twins.HasRoll dice.faces) :
    other.ledger.maximumValue (dice.renumber twins.twin) =
      progress.ledger.maximumValue dice := by
  have same : other.ledger.amount (dice.renumber twins.twin).faces =
      progress.ledger.amount dice.faces := agree.amount faces
  unfold Ledger.maximumValue
  rw [same]
  rfl

variable (has : twins.known dice.tag.id ∧ twins.rolled dice.tag.id ∧ dice.IsSound)
  (faces : AmountThroughout twins.HasTerm twins.HasRoll dice.faces)
include has faces

theorem follow_draw (reroll explode : Bool) :
    twins.Follow context (context.draw dice reroll explode)
      (context.draw (dice.renumber twins.twin) reroll explode) where
  together {progress other} agree := by
    have written : (Term.dice dice).hasFormula = true := has.2.2.hasFormula
    have writtenToo : (Term.dice (dice.renumber twins.twin)).hasFormula = true :=
      (Term.hasFormula_renumber _ (.dice dice)).trans written
    obtain ⟨later, drawn, same⟩ := draw_of_uniform (agree.uniform _ has.2.1) written reroll explode
    obtain ⟨laterToo, drawnToo, sameToo⟩ :=
      draw_of_uniform (agree.uniformToo _ has.2.1) writtenToo reroll explode
    have still := agree.of_rolled same sameToo
    have picked : laterToo.ledger.mapUniform (dice.renumber twins.twin) =
        later.ledger.mapUniform dice := by
      unfold Ledger.mapUniform
      rw [maximumValue_eq still faces]
      rfl
    rw [drawn, drawnToo]
    refine ⟨_, _, { laterToo with draws := laterToo.draws + 1 }, rfl, ?_,
      congrArg (· + 1) still.draws, still.term, still.roll, still.uniform, still.uniformToo⟩
    unfold Context.drawUniform
    rw [picked, still.draws]

theorem follow_nextResult (reroll explode : Bool) :
    twins.Follow context (context.nextResult dice reroll explode)
      (context.nextResult (dice.renumber twins.twin) reroll explode) := by
  unfold Context.nextResult
  refine .ite (.pure _) (.ite ?_ (follow_draw has faces reroll explode))
  exact .read fun _ _ agree => maximumValue_eq agree faces

theorem follow_rollOne (reroll explode : Bool) :
    twins.Follow context (context.rollOne dice reroll explode)
      (context.rollOne (dice.renumber twins.twin) reroll explode) := by
  have evaluated : twins.Follow context
      (read fun ledger => .ok (ledger.isEvaluated (.dice dice)))
      (read fun ledger => .ok (ledger.isEvaluated ((Term.dice dice).renumber twins.twin))) :=
    .look fun _ _ agree => agree.isEvaluated has.1
  have added (value : Json) : twins.Follow context
      (change fun ledger => Resolver.addOutcome ledger dice value)
      (change fun ledger => Resolver.addOutcome ledger (dice.renumber twins.twin) value) :=
    .updateTerm has.1 (Bond.ignoresMethod_outcomes (· ++ [{ value := value }]))
  unfold Context.rollOne
  rw [DiceOf.formula_renumber]
  refine evaluated.bind fun _ => .ite (follow_refusal dice _) ?_
  refine (follow_nextResult has faces reroll explode).bind fun value => ?_
  exact (added value).bind fun _ => .pure _

theorem follow_rollUpTo (number rolls : Nat) :
    twins.Follow context (context.rollUpTo dice number rolls)
      (context.rollUpTo (dice.renumber twins.twin) number rolls) := by
  induction rolls with
  | zero => exact .pure _
  | succ rolls ih =>
    refine (follow_outcomes has.1 (fun outcomes => .ok outcomes.length)).bind fun _ => ?_
    exact .ite ((follow_rollOne has faces false false).bind fun _ => ih) (.pure _)

theorem follow_runChain (command : Command) (chain : Context.Chain)
    (initial rolls checked : Nat) :
    twins.Follow context (context.runChain dice command chain initial rolls checked)
      (context.runChain (dice.renumber twins.twin) command chain initial rolls checked) := by
  induction rolls generalizing checked with
  | zero =>
    unfold Context.runChain
    rw [DiceOf.formula_renumber]
    refine (follow_outcomes has.1 (chain.next? initial checked)).bind fun next => ?_
    cases next with
    | none => exact .pure _
    | some position => exact .fail _
  | succ rolls ih =>
    unfold Context.runChain
    rw [DiceOf.formula_renumber]
    refine (follow_outcomes has.1 (chain.next? initial checked)).bind fun next => ?_
    cases next with
    | none => exact .pure _
    | some position =>
      refine (Follow.updateTerm has.1 (Bond.ignoresMethod_outcomes _)).bind fun _ => ?_
      exact (follow_rollOne has faces _ _).bind fun _ => ih (position + 1)

theorem follow_chain (command : Command) (recursive explode : Bool) :
    twins.Follow context (context.chain dice command recursive explode)
      (context.chain (dice.renumber twins.twin) command recursive explode) := by
  have targets : twins.Follow context
      (read fun ledger => Context.chainTarget ledger dice command explode)
      (read fun ledger =>
        Context.chainTarget ledger (dice.renumber twins.twin) command explode) := by
    refine .read fun progress other agree => ?_
    unfold Context.chainTarget
    rw [maximumValue_eq agree faces]
    rfl
  unfold Context.chain
  refine targets.bind fun target => .ite (.pure _) ?_
  refine (follow_outcomes has.1 (fun outcomes => .ok outcomes.length)).bind fun _ => ?_
  exact follow_runChain has faces command _ _ _ 0

omit has faces in
/-- An amount is the same in both evaluations, and so is its refusal. -/
theorem follow_requireInteger (what : DiceAmount) (least : Nat) {amount : Operand Term}
    (parts : AmountThroughout twins.HasTerm twins.HasRoll amount) :
    twins.Follow context (Context.rollDice.requireInteger dice what least amount)
      (Context.rollDice.requireInteger (dice.renumber twins.twin) what least
        (Term.renumberAmount twins.twin amount)) := by
  have amounts : twins.Follow context (read (·.amount amount))
      (read (·.amount (Term.renumberAmount twins.twin amount))) :=
    .read fun _ _ agree => agree.amount parts
  have refusal (value : Json) : twins.Follow context
      (Context.rollDice.refuse dice what value least)
      (Context.rollDice.refuse (dice.renumber twins.twin) what value least) := by
    unfold Context.rollDice.refuse
    rw [DiceOf.formula_renumber]
    exact follow_refusal dice _
  refine amounts.bind fun value => ?_
  split
  · exact .ite (.pure _) (refusal _)
  · exact refusal _

theorem follow_rollDice (number : AmountThroughout twins.HasTerm twins.HasRoll dice.number) :
    twins.Follow context (context.rollDice dice)
      (context.rollDice (dice.renumber twins.twin)) := by
  have modify : twins.Modify context (context.modifiedDice dice)
      (context.modifiedDice (dice.renumber twins.twin)) :=
    ⟨has.1, rfl, rfl, follow_chain has faces⟩
  refine (follow_requireInteger .number 0 number).bind fun count => ?_
  refine (follow_requireInteger .faces 1 faces).bind fun _ => ?_
  exact (follow_rollUpTo has faces count count).bind fun _ =>
    follow_runModifiers modify dice.modifiers

end

/-! ## What is done with terms and rolls -/

section

variable {term : Term} {roll : Roll} {work workToo : Evaluation Unit}

theorem follow_enter (known : twins.known term.id) (phase : Phase) :
    twins.Follow context (enter term phase) (enter (term.renumber twins.twin) phase) := by
  unfold enter
  rw [Term.id_renumber]
  exact .updateTerm known fun _ _ => rfl

theorem follow_ofTerm (known : twins.known term.id)
    (follow : twins.Follow context work workToo) :
    twins.Follow context (ofTerm term work)
      (ofTerm (term.renumber twins.twin) workToo) := by
  have phases : twins.Follow context (phaseOf term)
      (phaseOf (term.renumber twins.twin)) := by
    unfold phaseOf
    rw [Term.id_renumber]
    exact .look fun _ _ agree => agree.phase known
  unfold ofTerm
  rw [Term.formula_renumber, Term.blame_renumber]
  refine phases.bind fun phase => ?_
  cases phase with
  | unevaluated =>
    exact (follow_enter known _).bind fun _ => follow.bind fun _ => follow_enter known _
  | evaluating => exact .fail _
  | evaluated => exact .fail _

theorem follow_unlessEvaluated (known : twins.known term.id)
    (follow : twins.Follow context work workToo) :
    twins.Follow context (unlessEvaluated term work)
      (unlessEvaluated (term.renumber twins.twin) workToo) := by
  have evaluated : twins.Follow context (read fun ledger => .ok (ledger.isEvaluated term))
      (read fun ledger => .ok (ledger.isEvaluated (term.renumber twins.twin))) :=
    .look fun _ _ agree => agree.isEvaluated known
  exact evaluated.bind fun _ => .ite (.pure _) follow

theorem follow_unlessRollEvaluated (known : twins.known roll.id)
    (follow : twins.Follow context work workToo) :
    twins.Follow context (unlessRollEvaluated roll work)
      (unlessRollEvaluated (roll.renumber twins.twin) workToo) := by
  have evaluated : twins.Follow context
      (read fun ledger => .ok (ledger.isRollEvaluated roll))
      (read fun ledger => .ok (ledger.isRollEvaluated (roll.renumber twins.twin))) :=
    .look fun _ _ agree => agree.isRollEvaluated known
  exact evaluated.bind fun _ => .ite (.pure _) follow

theorem follow_ofRoll (has : twins.HasRoll roll)
    (row : RowThroughout twins.HasTerm twins.HasRoll roll.terms)
    (follow : twins.Follow context work workToo) :
    twins.Follow context (ofRoll roll work)
      (ofRoll (roll.renumber twins.twin) workToo) := by
  have phases : twins.Follow context
      (read fun ledger => .ok (ledger.roll roll.id).phase)
      (read fun ledger => .ok (ledger.roll (roll.renumber twins.twin).id).phase) :=
    .look fun _ _ agree => congrArg RollState.phase (agree.roll roll.id has.1)
  have totals : twins.Follow context (read (·.totalOfTerms roll.terms))
      (read (·.totalOfTerms (roll.renumber twins.twin).terms)) :=
    .read fun _ _ agree => agree.totalOfTerms has row
  unfold ofRoll
  rw [RollOf.formula_renumber]
  refine phases.bind fun phase => ?_
  cases phase with
  | unevaluated =>
    refine (Follow.updateRoll has.1 _).bind fun _ => follow.bind fun _ => ?_
    refine totals.bind fun total => (Follow.updateRoll has.1 _).bind fun _ => ?_
    exact .report _ _
  | evaluating => exact .fail _
  | evaluated => exact .fail _

theorem follow_totalButText (known : twins.known roll.id) (refusal : Fault) :
    twins.Follow context (totalButText roll refusal)
      (totalButText (roll.renumber twins.twin) refusal) := by
  have totals : twins.Follow context (read fun ledger => .ok (ledger.rollTotal roll))
      (read fun ledger => .ok (ledger.rollTotal (roll.renumber twins.twin))) :=
    .look fun _ _ agree => agree.rollTotal known
  exact totals.bind fun _ => .ite (.fail _) (.pure _)

theorem follow_checkArgument (known : twins.known roll.id) (term : Term) (fn : Function) :
    twins.Follow context (Context.checkArgument term fn roll)
      (Context.checkArgument (term.renumber twins.twin) fn (roll.renumber twins.twin)) := by
  unfold Context.checkArgument
  rw [Term.formula_renumber]
  exact (follow_totalButText known _).bind fun _ => .pure _

theorem follow_collect (known : twins.known roll.id) {pool : Pool}
    (knownToo : twins.known pool.tag.id) :
    twins.Follow context (Context.collect pool roll)
      (Context.collect (pool.renumber twins.twin) (roll.renumber twins.twin)) := by
  unfold Context.collect
  rw [RollOf.formula_renumber]
  exact (follow_totalButText known _).bind fun total =>
    .updateTerm knownToo (Bond.ignoresMethod_outcomes (· ++ [{ value := total }]))

end

theorem follow_compute (term : Term) (fn : Function) {rolls : List Roll}
    (parts : RollsThroughout twins.HasTerm twins.HasRoll rolls) :
    twins.Follow context (Context.compute term fn rolls)
      (Context.compute (term.renumber twins.twin) fn (Term.renumberRolls twins.twin rolls)) where
  together agree := by
    unfold Context.compute
    rw [agree.functionValue fn parts, Term.formula_renumber]
    split <;> exact ⟨_, _, _, rfl, rfl, agree⟩

/-! ## Terms and rolls -/

mutual

/-- A term and its twin are evaluated alike. -/
theorem follow_evaluateTerm : (term : Term) → term.Throughout twins.HasTerm twins.HasRoll →
    twins.Follow context (context.evaluateTerm term)
      (context.evaluateTerm (term.renumber twins.twin))
  | .numeric tag value, ⟨known, _⟩ => by
    unfold Context.evaluateTerm
    exact follow_ofTerm known (.pure _)
  | .operator tag op, ⟨known, _⟩ => by
    unfold Context.evaluateTerm
    exact follow_ofTerm known (.pure _)
  | .text tag word, ⟨known, _⟩ => by
    unfold Context.evaluateTerm
    exact follow_ofTerm known (.ite (.pure _) (.fail _))
  | .group tag roll, ⟨⟨known, _⟩, around, inside⟩ => by
    unfold Context.evaluateTerm
    exact follow_ofTerm known (follow_unlessRollEvaluated around.1
      (follow_ofRoll around inside (follow_evaluateTerms roll.terms inside)))
  | .function tag fn rolls, ⟨⟨known, _⟩, parts⟩ => by
    have checks := follow_evaluateRolls rolls parts fun roll within =>
      follow_checkArgument within (.function tag fn rolls) fn
    unfold Context.evaluateTerm
    exact follow_ofTerm known (checks.bind fun _ =>
      follow_compute (.function tag fn rolls) fn parts)
  | .dice d, ⟨⟨known, rolled⟩, number, faces⟩ => by
    unfold Context.evaluateTerm
    exact follow_ofTerm known ((follow_evaluateAmount d.number number).bind fun _ =>
      (follow_evaluateAmount d.faces faces).bind fun _ =>
        follow_rollDice ⟨known, rolled d rfl⟩ faces number)
  | .pool p, ⟨⟨known, _⟩, parts⟩ => by
    have modify : twins.Modify context (Context.modifiedPool p)
        (Context.modifiedPool (p.renumber twins.twin)) :=
      ⟨known, rfl, rfl, fun _ _ _ => .pure _⟩
    have collects := follow_evaluateRolls p.rolls parts fun roll within =>
      follow_collect within known
    unfold Context.evaluateTerm
    exact follow_ofTerm known (collects.bind fun _ => follow_runModifiers modify p.modifiers)

theorem follow_evaluateTerms : (terms : List Term) →
    RowThroughout twins.HasTerm twins.HasRoll terms →
    twins.Follow context (context.evaluateTerms terms)
      (context.evaluateTerms (Term.renumberRow twins.twin terms))
  | [], _ => by
    unfold Context.evaluateTerms
    exact .pure _
  | term :: rest, ⟨head, tail⟩ => by
    unfold Context.evaluateTerms
    exact (follow_unlessEvaluated head.here.1 (follow_evaluateTerm term head)).bind
      fun _ => follow_evaluateTerms rest tail

theorem follow_evaluateRolls : (rolls : List Roll) →
    RollsThroughout twins.HasTerm twins.HasRoll rolls →
    {use useToo : Roll → Evaluation Unit} →
    (∀ roll : Roll, twins.known roll.id →
      twins.Follow context (use roll) (useToo (roll.renumber twins.twin))) →
    twins.Follow context (context.evaluateRolls use rolls)
      (context.evaluateRolls useToo (Term.renumberRolls twins.twin rolls))
  | [], _, _, _, _ => by
    unfold Context.evaluateRolls
    exact .pure _
  | roll :: rest, ⟨around, inside, tail⟩, use, useToo, used => by
    unfold Context.evaluateRolls
    have evaluates := follow_unlessRollEvaluated around.1
      (follow_ofRoll around inside (follow_evaluateTerms roll.terms inside))
    exact evaluates.bind fun _ => (used roll around.1).bind fun _ =>
      follow_evaluateRolls rest tail used

theorem follow_evaluateAmount : (amount : Operand Term) →
    AmountThroughout twins.HasTerm twins.HasRoll amount →
    twins.Follow context (context.evaluateAmount amount)
      (context.evaluateAmount (Term.renumberAmount twins.twin amount))
  | .known _, _ => by
    unfold Context.evaluateAmount
    exact .pure _
  | .computed term, inside => by
    unfold Context.evaluateAmount
    exact follow_unlessEvaluated inside.here.1 (follow_evaluateTerm term inside)

end

end Twins
end DiceNotation
