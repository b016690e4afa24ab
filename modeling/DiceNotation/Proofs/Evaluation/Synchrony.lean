import DiceNotation.Proofs.Evaluation.Bonds
import DiceNotation.Proofs.Evaluation.Chances
import DiceNotation.Proofs.Fulfillment.Sharing

namespace DiceNotation

/-!
# Evaluations that may wait and evaluations that may not

Without a resolver there is nothing to wait for, and without handlers that answer later
neither.  Then it makes no difference but to the messages whether an evaluation may wait:
dice whose method is interactive are rolled by chance.  A strict evaluation gives up at the
first of them, and no modifier is skipped for that reason.
-/

/-! ## Modes -/

/-- Whether a handler, if there is one, answers when it is called. -/
def Method.answersAtOnce (method : Method) : Bool :=
  match method.handler with
  | some (.prepared .deferred _) => false
  | some (.prepared .promised _) => false
  | _ => true

/-- What is reported when dice with an interactive method are rolled by chance, because
nothing can be waited for. -/
def DiceOf.digitalReport (dice : Dice) : Message :=
  ⟨.warning, "Rolling '" ++ dice.formula ++ "' digitally: " ++
    "synchronous evaluation cannot wait for input"⟩

/-- The context in which waiting is possible or not, and strict or not. -/
def Context.inMode (context : Context) (synchronous strict : Bool) : Context :=
  { context with synchronous := synchronous, strict := strict }

/-- The progress with one more message. -/
def Progress.hearing (progress : Progress) (message : Message) : Progress :=
  { progress with journal := message :: progress.journal }

/-- The progress without messages. -/
def Progress.silent (progress : Progress) : Progress := { progress with journal := [] }

/-- A progress is known if its messages and everything else are. -/
theorem Progress.eq_of_silent {progress other : Progress} (silent : progress.silent = other.silent)
    (heard : progress.journal = other.journal) : progress = other := by
  have whole := congrArg ({ · with journal := progress.journal } : Progress → Progress) silent
  exact whole.trans (congrArg ({ other with journal := · } : List Message → Progress) heard)

namespace Context

open Evaluation

variable {context : Context} {dice : Dice} {name : Json}

/-- What becomes of the value that the method of dice gives. -/
def taking (context : Context) (dice : Dice) : Json → Evaluation Json
  | .null => context.drawUniform dice
  | value => do
    if ← .read (·.accepts dice value) then return value
    else
      let method ← methodOf dice
      naming dice
        (.fail (.use (.impossibleResult value.quoted dice.formula method.plainText)))

/-- Dice with a known method ask it for a value. -/
theorem draw_of_method {progress : Progress}
    (stands : (progress.ledger.term dice.tag.id).method = name) (reroll explode : Bool) :
    context.draw dice reroll explode progress =
      (context.askMethod dice name reroll explode >>= context.taking dice) progress := by
  rw [← stands]
  rfl

theorem askMethod_of_interactive (context : Context)
    (waits : context.methods.isInteractive name = true) (reroll explode : Bool) :
    context.askMethod dice name reroll explode = context.askOutside dice name reroll explode := by
  unfold askMethod
  unfold MethodTable.isInteractive at waits
  cases named : context.methods.named name with
  | error fault =>
    rw [named] at waits
    cases waits
  | ok method =>
    rw [named] at waits
    have interactive : method.interactive = true := waits
    change (if method.interactive then _ else _) = _
    rw [interactive, if_pos rfl]

section

variable {progress : Progress} (waits : context.methods.isInteractive name = true)
  (written : (Term.dice dice).hasFormula = true)
  (stands : (progress.ledger.term dice.tag.id).method = name) (reroll explode : Bool)
include waits written stands

/-- Where nothing can be waited for, dice with an interactive method are rolled by chance,
and this is reported. -/
theorem draw_permissive :
    (context.inMode true false).draw dice reroll explode progress =
      context.drawUniform dice (progress.hearing dice.digitalReport) := by
  have outside : (context.inMode true false).askOutside dice name reroll explode progress =
      .done (.ok .null) (progress.hearing dice.digitalReport) := by
    change naming dice _ progress = _
    rw [naming_eq written]
    rfl
  rw [draw_of_method stands, askMethod_of_interactive (context.inMode true false) waits]
  exact bind_done outside

/-- A strict evaluation gives up there. -/
theorem draw_strict :
    (context.inMode true true).draw dice reroll explode progress =
      .done (.error (.determinism (.externalResult name.plainText) dice.formula)) progress := by
  have outside : (context.inMode true true).askOutside dice name reroll explode progress =
      .done (.error (.determinism (.externalResult name.plainText) dice.formula)) progress := by
    change naming dice _ progress = _
    rw [naming_eq written]
    rfl
  rw [draw_of_method stands, askMethod_of_interactive (context.inMode true true) waits]
  exact bind_failed outside

/-- Without a resolver they are rolled by chance where one could wait, too. -/
theorem draw_waiting (unaided : context.resolver = none) (strict : Bool) : ∃ journal,
    (context.inMode false strict).draw dice reroll explode progress =
      context.drawUniform dice { progress with journal := journal } := by
  have outside : ∃ journal, (context.inMode false strict).askOutside dice name reroll explode
      progress = .done (.ok .null) { progress with journal := journal } := by
    have waiting : ¬(context.inMode false strict).synchronous = true := Bool.false_ne_true
    have alone : (context.inMode false strict).resolver = none := unaided
    unfold askOutside
    rw [if_neg waiting]
    split
    · exact ⟨progress.journal, rfl⟩
    · rw [alone]
      unfold reportDigital
      dsimp only
      rw [naming_eq written]
      exact ⟨_, rfl⟩
  rcases outside with ⟨journal, asked⟩
  refine ⟨journal, ?_⟩
  rw [draw_of_method stands, askMethod_of_interactive (context.inMode false strict) waits]
  exact bind_done asked

end
end Context

/-! ## Two evaluations and their messages -/

/-- Two ledgers in which the dice have the same methods. -/
def Ledger.SameMethods (ledger other : Ledger) : Prop :=
  ∀ id, (other.term id).method = (ledger.term id).method

theorem Ledger.SameMethods.updateTerm {ledger other : Ledger} (same : ledger.SameMethods other)
    (id : Identity) {change : TermState → TermState} (ignores : TermState.IgnoresMethod change) :
    ledger.SameMethods (other.updateTerm id change) := by
  intro asked
  rw [term_updateTerm]
  split
  · rename_i own
    rw [ignores.method]
    exact own ▸ same id
  · exact same asked

/-- What the messages of two evaluations have to do with each other, and what holds of the
first one, and remains so, when it goes on alone. -/
structure Hearsay where
  both : List Message → List Message → Prop
  alone : Progress → Prop
  routine : ∀ {messages other message}, both messages other → Message.IsRoutine message →
    both (message :: messages) (message :: other)
  lasts : ∀ {progress later : Progress}, alone progress → progress.journal <:+ later.journal →
    progress.draws ≤ later.draws → alone later

/-- Two evaluations have come equally far since they started, but for their messages, and no
die has got another method. -/
structure Progress.Parallel (start : Progress) (heard : List Message → List Message → Prop)
    (progress other : Progress) : Prop where
  silent : progress.silent = other.silent
  methods : start.ledger.SameMethods progress.ledger
  draws : start.draws ≤ progress.draws
  heard : heard progress.journal other.journal

namespace Progress.Parallel

variable {start : Progress} {heard : List Message → List Message → Prop} {progress other : Progress}
  (parallel : Progress.Parallel start heard progress other)
include parallel

theorem ledger : progress.ledger = other.ledger := by
  have whole := congrArg Progress.ledger parallel.silent
  exact whole

/-- A change that leaves methods and messages alone keeps the two parallel. -/
theorem change (f : Progress → Progress) (deaf : ∀ p, (f p).silent = f p.silent)
    (quiet : ∀ p, (f p).journal = p.journal)
    (methods : start.ledger.SameMethods (f progress).ledger)
    (draws : progress.draws ≤ (f progress).draws) :
    Progress.Parallel start heard (f progress) (f other) where
  silent := by rw [deaf, deaf, parallel.silent]
  methods := methods
  draws := Nat.le_trans parallel.draws draws
  heard := by
    rw [quiet, quiet]
    exact parallel.heard

end Progress.Parallel

/-- The bond of two evaluations that come equally far, but for their messages. -/
def Bond.parallel (start : Progress) (hearsay : Hearsay) : Bond where
  both := Progress.Parallel start hearsay.both
  alone progress := start.ledger.SameMethods progress.ledger ∧ hearsay.alone progress
  ledgers parallel := parallel.ledger ▸ .refl _
  updateTerm id _ parallel ignores :=
    parallel.change (·.updateLedger (·.updateTerm id _)) (fun _ => rfl) (fun _ => rfl)
      (parallel.methods.updateTerm id ignores) le_rfl
  updateRoll id change parallel :=
    parallel.change (·.updateLedger (·.updateRoll id change)) (fun _ => rfl) (fun _ => rfl)
      parallel.methods le_rfl
  report parallel routine :=
    ⟨parallel.silent, parallel.methods, parallel.draws, hearsay.routine parallel.heard routine⟩
  updateTermAlone id _ holds ignores :=
    ⟨holds.1.updateTerm id ignores, hearsay.lasts holds.2 List.suffix_rfl le_rfl⟩
  updateRollAlone _ _ holds := ⟨holds.1, hearsay.lasts holds.2 List.suffix_rfl le_rfl⟩
  reportAlone _ _ holds := ⟨holds.1, hearsay.lasts holds.2 (List.suffix_cons _ _) le_rfl⟩

namespace Bond

open Evaluation Context

variable {start : Progress} {hearsay : Hearsay} {context : Context} {dice : Dice} {name : Json}

/-- What both do alike joins them, if it does not depend on messages and changes neither
them nor methods. -/
theorem parallel_of_alike {work : Evaluation α} (result : Progress → Except Fault α)
    (f : Progress → Progress) (run : ∀ p, work p = .done (result p) (f p))
    (intrinsic : ∀ p, Intrinsic (result p)) (same : ∀ p, result p = result p.silent)
    (deaf : ∀ p, (f p).silent = f p.silent) (quiet : ∀ p, (f p).journal = p.journal)
    (ledgers : ∀ p, (f p).ledger = p.ledger) (draws : ∀ p, p.draws ≤ (f p).draws) :
    (parallel start hearsay).Joins work work := by
  refine .of_done (fun progress other holds => ?_) fun progress holds => ?_
  · have parallel : Progress.Parallel start hearsay.both progress other := holds
    refine ⟨_, _, f other, run progress, ?_, intrinsic _, parallel.change f deaf quiet ?_ (draws _)⟩
    · rw [run, same other, ← parallel.silent, ← same]
    · rw [ledgers]
      exact parallel.methods
  · refine ⟨_, _, run progress, intrinsic _, ?_, ?_⟩
    · rw [ledgers]
      exact holds.1
    · refine hearsay.lasts holds.2 ?_ (draws progress)
      rw [quiet]

theorem parallel_drawUniform (dice : Dice) :
    (parallel start hearsay).Joins (context.drawUniform dice) (context.drawUniform dice) :=
  parallel_of_alike _ (fun p => { p with draws := p.draws + 1 }) (fun _ => rfl)
    (fun p => p.ledger.intrinsic_mapUniform dice _) (fun _ => rfl) (fun _ => rfl) (fun _ => rfl)
    (fun _ => rfl) fun p => Nat.le_succ p.draws

theorem parallel_call (method : String) (answers : List Json) (dice : Dice)
    (reroll explode : Bool) :
    (parallel start hearsay).Joins (call method answers dice reroll explode)
      (call method answers dice reroll explode) := by
  refine .ite ?_ (.fail rfl)
  exact parallel_of_alike _
    (fun p => { p with calls := ⟨method, dice.formula, reroll, explode⟩ :: p.calls })
    (fun _ => rfl) (fun _ => .ok _) (fun _ => rfl) (fun _ => rfl) (fun _ => rfl) (fun _ => rfl)
    fun _ => le_rfl

theorem parallel_methodOf (dice : Dice) :
    (parallel start hearsay).Joins (methodOf dice) (methodOf dice) :=
  parallel_of_alike _ id (fun _ => rfl) (fun _ => .ok _) (fun _ => rfl) (fun _ => rfl)
    (fun _ => rfl) (fun _ => rfl) fun _ => le_rfl

theorem parallel_taking (given : Json) :
    (parallel start hearsay).Joins (context.taking dice given) (context.taking dice given) := by
  have accepted (value : Json) : (parallel start hearsay).Joins
      (Evaluation.read (·.accepts dice value)) (Evaluation.read (·.accepts dice value)) :=
    .read (·.intrinsic_accepts dice value) fun _ _ same => same.agrees.accepts dice value
  cases given with
  | null => exact parallel_drawUniform dice
  | _ =>
    refine (accepted _).bind fun accepts => .ite (.pure _) ?_
    exact (parallel_methodOf dice).bind fun method => joins_refusal dice rfl

/-- A method that is not interactive and answers at once gives both evaluations the same,
whatever their modes. -/
theorem parallel_askMethod (dice : Dice) (digital : context.methods.isInteractive name = false)
    (atOnce : ∀ method, context.methods.named name = .ok method → method.answersAtOnce = true)
    (synchronous strict synchronousToo strictToo reroll explode : Bool) :
    (parallel start hearsay).Joins
      ((context.inMode synchronous strict).askMethod dice name reroll explode)
      ((context.inMode synchronousToo strictToo).askMethod dice name reroll explode) := by
  unfold askMethod
  change (parallel start hearsay).Joins (lift (context.methods.named name) >>= _)
    (lift (context.methods.named name) >>= _)
  have refused := context.methods.intrinsic_named name
  cases named : context.methods.named name with
  | error fault => exact .fail (refused fault named)
  | ok method =>
    have interactive : method.interactive = false :=
      (Resolver.isInteractive_of_named named).symm.trans digital
    have direct := atOnce method named
    change (parallel start hearsay).Joins (if method.interactive then _ else _)
      (if method.interactive then _ else _)
    rw [interactive, if_neg Bool.false_ne_true, if_neg Bool.false_ne_true]
    unfold Method.answersAtOnce at direct
    generalize method.handler = handler at direct
    cases handler with
    | none => exact .pure _
    | some handler =>
      cases handler with
      | lowest => exact .pure _
      | highest =>
        exact .read (·.intrinsic_maximumValue dice) fun _ _ same => same.agrees.maximumValue dice
      | prepared delivery answers =>
        cases delivery with
        | direct => exact parallel_call name.plainText answers dice reroll explode
        | deferred => cases direct
        | promised => cases direct

/-- Dice whose method is not interactive and answers at once are drawn alike in every mode. -/
theorem parallel_draw
    (digital : context.methods.isInteractive (start.ledger.term dice.tag.id).method = false)
    (atOnce : ∀ method, context.methods.named (start.ledger.term dice.tag.id).method = .ok method →
      method.answersAtOnce = true)
    (synchronous strict synchronousToo strictToo reroll explode : Bool) :
    (parallel start hearsay).Joins
      ((context.inMode synchronous strict).draw dice reroll explode)
      ((context.inMode synchronousToo strictToo).draw dice reroll explode) := by
  have taken (given : Json) : (parallel start hearsay).Joins
      ((context.inMode synchronous strict).taking dice given)
      ((context.inMode synchronousToo strictToo).taking dice given) :=
    parallel_taking given
  have asked := (parallel_askMethod dice digital atOnce synchronous strict synchronousToo strictToo
    reroll explode).bind taken
  refine ⟨fun {progress other} holds => ?_, fun {progress} holds => ?_⟩
  · have known : Progress.Parallel start hearsay.both progress other := holds
    have same := known.methods dice.tag.id
    rw [draw_of_method same, draw_of_method (known.ledger ▸ same)]
    exact asked.together holds
  · rw [draw_of_method (holds.1 dice.tag.id)]
    exact asked.onward holds

end Bond

/-! ## Waiting or not -/

/-- Nothing is demanded of the messages, and neither evaluation gives up. -/
def Hearsay.ignored : Hearsay where
  both _ _ := True
  alone _ := False
  routine _ _ := trivial
  lasts none _ _ := none

section

open Evaluation Bond

variable {context : Context} {start : Progress} {dice : Dice}
  (written : (Term.dice dice).hasFormula = true)
  (atOnce : ∀ method, context.methods.named (start.ledger.term dice.tag.id).method = .ok method →
    method.answersAtOnce = true)
include written atOnce

/-- Without a resolver, what is drawn for dice is the same whether one may wait or not. -/
theorem Bond.ignored_results (unaided : context.resolver = none) (strict : Bool) :
    (parallel start .ignored).JoinsResults (context.inMode false strict)
      (context.inMode true false) dice := by
  refine joins_results rfl rfl fun _ reroll explode => ?_
  cases waits : context.methods.isInteractive (start.ledger.term dice.tag.id).method with
  | false => exact parallel_draw waits atOnce _ _ _ _ reroll explode
  | true =>
    refine ⟨fun {progress other} holds => ?_, fun holds => holds.2.elim⟩
    have known : Progress.Parallel start (fun _ _ => True) progress other := holds
    have same := known.methods dice.tag.id
    rcases Context.draw_waiting waits written same reroll explode unaided strict with
      ⟨journal, drawn⟩
    rw [drawn, Context.draw_permissive waits written (known.ledger ▸ same) reroll explode]
    have still : Progress.Parallel start (fun _ _ => True) { progress with journal := journal }
        (other.hearing dice.digitalReport) := ⟨known.silent, known.methods, known.draws, trivial⟩
    exact (parallel_drawUniform dice).together still

end

/-! ## Strict or not -/

/-- Since the start, dice of the roll with an interactive method have taken a uniform value
because nothing could be waited for. -/
def RollOf.RollsDigitally (roll : Roll) (methods : MethodTable) (start last : Progress) : Prop :=
  ∃ dice ∈ roll.dice, methods.isInteractive (start.ledger.term dice.tag.id).method = true ∧
    start.draws < last.draws ∧
    ∃ new, last.journal = new ++ start.journal ∧ dice.digitalReport ∈ new

/-- Until dice with an interactive method are drawn, the messages are the same and none of
them is about such dice. -/
def Hearsay.untilDrawn (roll : Roll) (methods : MethodTable) (start : Progress) : Hearsay where
  both messages other := messages = other ∧
    ∃ new, messages = new ++ start.journal ∧ ∀ message ∈ new, Message.IsRoutine message
  alone := roll.RollsDigitally methods start
  routine := by
    rintro messages _ message ⟨rfl, new, rfl, all⟩ routine
    exact ⟨rfl, message :: new, rfl, List.forall_mem_cons.2 ⟨routine, all⟩⟩
  lasts := by
    rintro progress later ⟨dice, member, waits, taken, new, heard, reported⟩ ⟨more, same⟩ draws
    refine ⟨dice, member, waits, Nat.lt_of_lt_of_le taken draws, more ++ new, ?_,
      List.mem_append_right _ reported⟩
    rw [← same, heard, List.append_assoc]

/-- A report about dice that are rolled by chance is not among those made anyway. -/
theorem DiceOf.digitalReport_not_isRoutine (dice : Dice) :
    ¬ Message.IsRoutine dice.digitalReport := by
  have rolling (rest : List Char) : ("Rolling '".toList ++ rest).head? = some 'R' := rfl
  have skipping (rest : List Char) : ("Skipping modifier '".toList ++ rest).head? = some 'S' := rfl
  unfold digitalReport
  generalize report : "Rolling '" ++ dice.formula ++ "' digitally: " ++
    "synchronous evaluation cannot wait for input" = words
  intro routine
  cases routine with
  | skipping term raw text =>
    unfold Context.skipping at report
    have letters := congrArg (fun text => text.toList.head?) report
    simp only [String.toList_append, List.append_assoc, rolling, skipping] at letters
    cases letters

section

open Evaluation Bond

variable {roll : Roll} {context : Context} {start : Progress} {dice : Dice}
  (member : dice ∈ roll.dice) (written : (Term.dice dice).hasFormula = true)
  (atOnce : ∀ method, context.methods.named (start.ledger.term dice.tag.id).method = .ok method →
    method.answersAtOnce = true)
include member written atOnce

/-- Where nothing can be waited for, a strict evaluation draws the same as another one,
until it gives up. -/
theorem Bond.untilDrawn_results :
    (parallel start (.untilDrawn roll context.methods start)).JoinsResults
      (context.inMode true false) (context.inMode true true) dice := by
  refine joins_results rfl rfl fun _ reroll explode => ?_
  cases waits : context.methods.isInteractive (start.ledger.term dice.tag.id).method with
  | false => exact parallel_draw waits atOnce _ _ _ _ reroll explode
  | true =>
    have picks (ledger : Ledger) (u : Float) := ledger.intrinsic_mapUniform dice u
    refine ⟨fun {progress other} holds => ?_, fun {progress} holds => ?_⟩
    · have known : Progress.Parallel start
          (Hearsay.untilDrawn roll context.methods start).both progress other := holds
      have same := known.methods dice.tag.id
      rcases known.heard with ⟨_, new, before, _⟩
      refine .alone (Context.draw_permissive waits written same reroll explode)
        (Context.draw_strict waits written (known.ledger ▸ same) reroll explode) (picks _ _)
        ⟨known.methods, dice, member, waits, Nat.lt_succ_of_le known.draws,
          dice.digitalReport :: new, ?_, List.mem_cons_self⟩
      exact congrArg (dice.digitalReport :: ·) before
    · have drawn := Context.draw_permissive waits written (holds.1 dice.tag.id) reroll explode
      exact ⟨_, _, drawn, picks _ _, holds.1, Hearsay.lasts _ holds.2 (List.suffix_cons _ _)
        (Nat.le_succ _)⟩

end

namespace Build

/-- Without a resolver and without handlers that answer later, a roll that was built from a
formula is evaluated alike whether one may wait or not, if the evaluation is not strict: both
evaluations end with the same fault or without one, and have come equally far but for their
messages.  A strict evaluation either gives up, which it does if and only if the other one
that may not wait rolls dice with an interactive method by chance, or it ends like that one. -/
theorem modes_agree {setup : Setup} {input : RollInput} {ledger made : Ledger} {roll : Roll}
    (built : ofFormula setup input ledger = .ok (roll, made)) {progress : Progress}
    (begins : made.SameButMethods progress.ledger)
    (atOnce : ∀ dice ∈ roll.dice, ∀ method,
      setup.methods.named (progress.ledger.term dice.tag.id).method = .ok method →
      method.answersAtOnce = true) (options : Options) (uniform : Nat → Float) :
    ∃ result last lastToo,
      roll.attempt options ⟨setup, false, uniform, none⟩ progress = .done result last ∧
      roll.attempt { options with strict := false } ⟨setup, true, uniform, none⟩ progress =
        .done result lastToo ∧ last.silent = lastToo.silent ∧
    ∃ resultToo lastStrict,
      roll.attempt { options with strict := true } ⟨setup, true, uniform, none⟩ progress =
        .done resultToo lastStrict ∧
      ((∃ reason formula, resultToo = .error (.determinism reason formula)) ↔
        roll.RollsDigitally setup.methods progress lastToo) ∧
      (¬ roll.RollsDigitally setup.methods progress lastToo →
        resultToo = result ∧ lastStrict = lastToo) := by
  have isMade := ofFormula_isMade built
  have untouched : (progress.ledger.roll roll.id).phase = .unevaluated := by
    rw [← begins.roll roll.id]
    exact isMade.waits.rollPhase isMade.spans.bounds.1 isMade.spans.bounds.2
  have written (dice : Dice) (member : dice ∈ roll.dice) : (Term.dice dice).hasFormula = true :=
    (RowThroughout.diceFrom isMade.row dice member).sound.hasFormula
  rcases settings_of_ofFormula built with ⟨settings, given⟩
  let context := options.contextWith ⟨setup, false, uniform, none⟩
    (options.lenient.getD settings.lenientModifiers)
    (options.maxChainRolls.getD settings.maxChainRolls)
  have mode (strict synchronous : Bool) : ({ options with strict := strict } : Options).forRoll
      ⟨setup, synchronous, uniform, none⟩ = .ok (context.inMode synchronous strict) :=
    Options.forRoll_of_settings _ given
  have alike (first second third fourth : Bool) :
      (context.inMode first second).Matches (context.inMode third fourth) := ⟨rfl, rfl, rfl, rfl⟩
  have start : Progress.Parallel progress (fun _ _ => True) progress progress :=
    ⟨rfl, fun _ => rfl, le_rfl, trivial⟩
  have waiting := RollOf.joined_attempts rfl rfl (mode options.strict false) (mode false true)
    (alike _ _ _ _) (fun dice member =>
      Bond.ignored_results (written dice member) (atOnce dice member) rfl options.strict)
    start untouched
  have strictly := RollOf.joined_attempts rfl rfl (mode false true) (mode true true)
    (alike _ _ _ _) (fun dice member =>
      Bond.untilDrawn_results member (written dice member) (atOnce dice member))
    ⟨rfl, fun _ => rfl, le_rfl, rfl, [], rfl, nofun⟩ untouched
  cases waiting with
  | alone _ _ _ none => exact none.2.elim
  | @both result last lastToo run runToo intrinsic parallel =>
    refine ⟨result, last, lastToo, run, runToo, parallel.silent, ?_⟩
    have ends (given : Except Fault Unit) (later : Progress)
        (also : roll.attempt { options with strict := false } ⟨setup, true, uniform, none⟩
          progress = .done given later) : result = given ∧ lastToo = later := by
      cases also.symm.trans runToo
      exact ⟨rfl, rfl⟩
    cases strictly with
    | both firstRun secondRun _ same =>
      rcases ends _ _ firstRun with ⟨rfl, rfl⟩
      have not : ¬ roll.RollsDigitally setup.methods progress lastToo := by
        rintro ⟨dice, _, _, _, new, heard, reported⟩
        rcases same.heard.2 with ⟨newToo, heardToo, routine⟩
        obtain rfl := List.append_cancel_right (heard.symm.trans heardToo)
        exact dice.digitalReport_not_isRoutine (routine _ reported)
      refine ⟨_, _, secondRun, ⟨?_, fun digital => absurd digital not⟩, fun _ => ⟨rfl, ?_⟩⟩
      · rintro ⟨reason, formula, gaveUp⟩
        cases intrinsic _ gaveUp
      · exact (Progress.eq_of_silent same.silent same.heard.1).symm
    | alone firstRun gaveUp _ digital =>
      rcases ends _ _ firstRun with ⟨rfl, rfl⟩
      refine ⟨_, _, gaveUp, ⟨fun _ => digital.2, fun _ => ⟨_, _, rfl⟩⟩, fun not => ?_⟩
      exact absurd digital.2 not

/-- Dice whose number is rolled, and a pool, all to be rolled outside. -/
def manualRoll : RollInput where
  formula := "(1d2)d8r1 + \x7b1d4, 2\x7dkh"
  method := .string "manual"

/-- Whether all dice of a roll have methods that answer at once. -/
def allAtOnce (pair : Roll × Ledger) : Bool :=
  pair.1.dice.all fun dice =>
    (usual.methods.named (pair.2.term dice.tag.id).method).toOption.all (·.answersAtOnce)

/-- Whether a strict evaluation gives up that may not wait. -/
def givesUp (pair : Roll × Ledger) : Bool :=
  match (pair.1.attempt {} ⟨usual, true, fun _ => 0.5, none⟩ (.ofLedger pair.2)).outcome with
  | some (.error (.determinism _ _)) => true
  | _ => false

/-- The dice to be rolled outside are rolled by chance, and a strict evaluation gives up. -/
theorem modes_agree_of_manual : ∃ roll made result last lastToo,
    ofFormula usual manualRoll .empty = .ok (roll, made) ∧
    roll.attempt {} ⟨usual, false, fun _ => 0.5, none⟩ (.ofLedger made) = .done result last ∧
    roll.attempt { strict := false } ⟨usual, true, fun _ => 0.5, none⟩ (.ofLedger made) =
      .done result lastToo ∧ last.silent = lastToo.silent ∧
    roll.RollsDigitally usual.methods (.ofLedger made) lastToo := by
  have computed : (ofFormula usual manualRoll .empty).toOption.any
      (fun pair => allAtOnce pair && givesUp pair) = true := by decide +kernel
  cases built : ofFormula usual manualRoll .empty with
  | error fault =>
    rw [built] at computed
    cases computed
  | ok pair =>
    rcases pair with ⟨roll, made⟩
    rw [built] at computed
    rcases Bool.and_eq_true_iff.1 computed with ⟨direct, strict⟩
    have atOnce : ∀ dice ∈ roll.dice, ∀ method,
        usual.methods.named (made.term dice.tag.id).method = .ok method →
        method.answersAtOnce = true := by
      intro dice member method named
      have all := List.all_eq_true.1 direct dice member
      rw [named] at all
      exact all
    rcases @modes_agree usual manualRoll .empty made roll built (.ofLedger made) (.refl _) atOnce
      {} (fun _ => 0.5) with
      ⟨result, last, lastToo, run, runToo, silent, resultToo, lastStrict, third, digital, _⟩
    refine ⟨roll, made, result, last, lastToo, rfl, run, runToo, silent, digital.1 ?_⟩
    unfold givesUp at strict
    rw [third] at strict
    cases resultToo with
    | ok done => cases strict
    | error fault =>
      cases fault with
      | determinism reason formula => exact ⟨reason, formula, rfl⟩
      | _ => cases strict

end Build
end DiceNotation
