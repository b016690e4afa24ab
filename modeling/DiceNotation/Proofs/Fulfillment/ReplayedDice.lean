import DiceNotation.Proofs.Evaluation.Rolling
import DiceNotation.Proofs.Fulfillment.ReplayedDraws

namespace DiceNotation

/-!
# Dice that are replayed

Dice are rolled until there are enough of them, and then their modifiers are carried out.
Dice that were filled in advance have all their first results already; the replay draws
these one after another and is level then.  From there on a die that rolls again or
explodes draws in both evaluations at the same time.
-/

theorem DiceOf.known_of_ready {dice : Dice} (ready : dice.isReady = true) :
    ∃ number faces, dice.number = .known number ∧ dice.faces = .known faces := by
  rcases Bool.and_eq_true_iff.1 ready with ⟨numbered, sided⟩
  cases number : dice.number with
  | computed term =>
    rw [number] at numbered
    cases numbered
  | known n =>
    cases faces : dice.faces with
    | computed term =>
      rw [faces] at sided
      cases sided
    | known m => exact ⟨n, m, rfl, rfl⟩

namespace Context

open Evaluation

/-- Dice whose amounts are known are rolled as often as their number says. -/
theorem rollDice_of_ready (context : Context) {dice : Dice} (ready : dice.isReady = true)
    (sound : dice.IsSound) (progress : Progress) : context.rollDice dice progress =
      (context.rollUpTo dice dice.number.count dice.number.count >>= fun _ =>
        context.runModifiers (context.modifiedDice dice) dice.modifiers) progress := by
  have number := sound.number
  have faces := sound.faces
  rcases DiceOf.known_of_ready ready with ⟨n, m, known, knownToo⟩
  rw [known] at number
  rw [knownToo] at faces
  unfold rollDice
  rw [known, knownToo, bind_done (requireInteger_of_known dice .number number progress),
    bind_done (requireInteger_of_known dice .faces faces progress)]
  rfl

end Context

namespace Replay

open Evaluation

variable {replay : Replay}

/-- Evaluations that keep both sides level at a term. -/
abbrev MirrorsAt {α : Type} (replay : Replay) (id : Identity) (first second : Evaluation α) : Prop :=
  Mirrors replay.resolver replay.receipts (replay.AlikeAt id) (replay.AlikeAt id)
    (replay.AlikeAt id) first second

theorem rewrites_outcomes (change : List Outcome → List Outcome) :
    Rewrites fun state => { state with outcomes := change state.outcomes } where
  phase _ := rfl
  method _ := rfl
  outcomes _ _ := congrArg change
  counting _ _ same := same

theorem mirrors_updateTerm {id : Identity} {f : TermState → TermState} (rewrites : Rewrites f) :
    replay.MirrorsAt id (change fun ledger => ledger.updateTerm id f)
      (change fun ledger => ledger.updateTerm id f) :=
  .change fun _ _ _ alike => alike.change rewrites

theorem mirrors_outcomes {α : Type} {id : Identity} (f : List Outcome → Except Fault α) :
    replay.MirrorsAt id (read fun ledger => f (ledger.outcomes id))
      (read fun ledger => f (ledger.outcomes id)) :=
  .read fun _ _ _ alike => congrArg f alike.level.outcomes

theorem mirrors_refusal {α : Type} {id : Identity} (dice : Dice) (fault : Fault) :
    replay.MirrorsAt id (Context.naming dice (fail fault) : Evaluation α)
      (Context.naming dice (fail fault)) :=
  .ite (.fail _) (.fail _)

/-! ## Modifiers -/

section

variable {id : Identity}

theorem mirrors_tally {term : Term} (own : term.id = id) (action : Action) (command : Command) :
    replay.MirrorsAt id (Context.tally term action command) (Context.tally term action command) := by
  subst own
  have tallies : replay.MirrorsAt term.id (Context.tallyOf term.id) (Context.tallyOf term.id) := by
    refine .read fun taken progress other alike => ?_
    rw [alike.level.outcomes, alike.pairs.counting]
  refine tallies.bind fun before => (mirrors_updateTerm ?_).bind fun _ => .lift _
  exact ⟨fun _ => rfl, fun _ => rfl, fun _ _ _ => rfl, fun _ _ _ => rfl⟩

/-- What modifiers work on, and the chains that mirror its chains. -/
structure MirrorsChains (replay : Replay) (id : Identity) (modified : Context.Modified)
    (chains : Command → Bool → Bool → Evaluation Unit) : Prop where
  own : modified.term.id = id
  chain : ∀ command recursive explode,
    replay.MirrorsAt id (modified.chain command recursive explode) (chains command recursive explode)

variable {modified : Context.Modified} {chains : Command → Bool → Bool → Evaluation Unit}
  (mirrors : replay.MirrorsChains id modified chains)
include mirrors

theorem mirrors_runModifier (raw : Json) :
    replay.MirrorsAt id (Context.runModifier modified raw)
      (Context.runModifier { modified with chain := chains } raw) := by
  refine (Mirrors.lift _).bind fun command => ?_
  cases modified.table.action? command.name with
  | none => exact .fail _
  | some action =>
    cases action with
    | reroll once => exact mirrors.chain _ _ _
    | explode once => exact mirrors.chain _ _ _
    | _ => exact mirrors_tally mirrors.own _ command

omit mirrors in
/-- If a modifier is skipped, the outcomes become the same in both evaluations. -/
theorem mirrors_afterModifier {term : Term} (own : term.id = id) (raw : Json)
    (outcomes : List Outcome) (result : Except Fault Unit) :
    replay.MirrorsAt id (replay.asking.afterModifier term raw outcomes result)
      (replay.plain.afterModifier term raw outcomes result) := by
  subst own
  cases result with
  | ok done => exact .pure done
  | error fault =>
    cases fault with
    | modifier reason formula command =>
      let text := (Fault.modifier reason formula command).message?.getD ""
      have skips (context : Context) (lenient : context.lenient = true) (progress : Progress) :
          context.afterModifier term raw outcomes (.error (.modifier reason formula command)) progress =
            .done (.ok ()) (progress.undoing term outcomes raw text) := if_pos lenient
      have fails (context : Context) (strict : context.lenient = false) (progress : Progress) :
          context.afterModifier term raw outcomes (.error (.modifier reason formula command)) progress =
            .done (.error (.modifier reason formula command)) progress :=
        if_neg (Bool.eq_false_iff.1 strict)
      refine .of_done fun taken progress other alike => ?_
      cases lenient : replay.asking.lenient with
      | false => exact ⟨_, _, _, fails _ lenient _, fails replay.plain lenient _, alike⟩
      | true =>
        refine ⟨_, _, _, skips _ lenient _, skips replay.plain lenient _, ?_⟩
        exact (alike.report .warning _).change (rewrites_outcomes fun _ => outcomes)
    | _ => exact .fail _

/-- What was drawn for a modifier that is skipped is lost in both evaluations. -/
theorem mirrors_tryModifier (raw : Json) :
    replay.MirrorsAt id (replay.asking.tryModifier modified raw)
      (replay.plain.tryModifier { modified with chain := chains } raw) := by
  intro taken progress other alike
  have outcomes : (progress.ledger.term modified.term.id).outcomes =
      (other.ledger.term modified.term.id).outcomes := by
    rw [mirrors.own, alike.level.outcomes]
  have here := (mirrors_runModifier mirrors raw).andThen
    (mirrors_afterModifier mirrors.own raw (progress.ledger.term modified.term.id).outcomes) rfl alike
  rw [Context.tryModifier_eq, Context.tryModifier_eq, ← outcomes]
  exact here

theorem mirrors_runModifiers (modifiers : List Json) :
    replay.MirrorsAt id (replay.asking.runModifiers modified modifiers)
      (replay.plain.runModifiers { modified with chain := chains } modifiers) := by
  induction modifiers with
  | nil => exact .pure _
  | cons raw rest ih => exact .ite ((mirrors_tryModifier mirrors raw).bind fun _ => ih) (.fail _)

end

/-! ## Dice -/

section

variable {dice : Dice} (member : dice ∈ replay.resolver.roll.dice)
include member

theorem mirrors_rollOne (reroll explode : Bool) :
    replay.MirrorsAt dice.tag.id (replay.asking.rollOne dice reroll explode)
      (replay.plain.rollOne dice reroll explode) := by
  have evaluated : replay.MirrorsAt dice.tag.id
      (read fun ledger => .ok (ledger.isEvaluated (.dice dice)))
      (read fun ledger => .ok (ledger.isEvaluated (.dice dice))) :=
    .read fun _ _ _ alike => congrArg Except.ok (alike.alike.agrees.isEvaluated _)
  have results : replay.MirrorsAt dice.tag.id (replay.asking.nextResult dice reroll explode)
      (replay.plain.nextResult dice reroll explode) := by
    rw [replay.asking.nextResult_eq_draw replay.chances.1 replay.chances.2,
      replay.plain.nextResult_eq_draw replay.chances.1 replay.chances.2]
    exact mirrors_draw member reroll explode
  refine evaluated.bind fun _ => .ite (mirrors_refusal dice _) (results.bind fun value => ?_)
  have added : replay.MirrorsAt dice.tag.id
      (change fun ledger => Resolver.addOutcome ledger dice value)
      (change fun ledger => Resolver.addOutcome ledger dice value) :=
    mirrors_updateTerm (rewrites_outcomes (· ++ [{ value := value }]))
  exact added.bind fun _ => .pure _

theorem mirrors_rollUpTo (number rolls : Nat) :
    replay.MirrorsAt dice.tag.id (replay.asking.rollUpTo dice number rolls)
      (replay.plain.rollUpTo dice number rolls) := by
  induction rolls with
  | zero => exact .pure _
  | succ rolls ih =>
    refine (mirrors_outcomes fun outcomes => .ok outcomes.length).bind fun present => ?_
    exact .ite ((mirrors_rollOne member false false).bind fun _ => ih) (.pure _)

theorem mirrors_runChain (command : Command) (chain : Context.Chain) (initial rolls checked : Nat) :
    replay.MirrorsAt dice.tag.id
      (replay.asking.runChain dice command chain initial rolls checked)
      (replay.plain.runChain dice command chain initial rolls checked) := by
  induction rolls generalizing checked with
  | zero =>
    unfold Context.runChain
    refine (mirrors_outcomes (chain.next? initial checked)).bind fun next => ?_
    cases next with
    | none => exact .pure _
    | some position => exact .fail _
  | succ rolls ih =>
    unfold Context.runChain
    refine (mirrors_outcomes (chain.next? initial checked)).bind fun next => ?_
    cases next with
    | none => exact .pure _
    | some position =>
      refine (mirrors_updateTerm (rewrites_outcomes _)).bind fun _ => ?_
      exact (mirrors_rollOne member _ _).bind fun _ => ih (position + 1)

theorem mirrors_chain (command : Command) (recursive explode : Bool) :
    replay.MirrorsAt dice.tag.id (replay.asking.chain dice command recursive explode)
      (replay.plain.chain dice command recursive explode) := by
  have targets : replay.MirrorsAt dice.tag.id
      (read fun ledger => Context.chainTarget ledger dice command explode)
      (read fun ledger => Context.chainTarget ledger dice command explode) := by
    refine .read fun taken progress other alike => ?_
    unfold Context.chainTarget
    rw [alike.alike.agrees.maximumValue]
  refine targets.bind fun target => .ite (.pure _) ?_
  refine (mirrors_outcomes fun outcomes => .ok outcomes.length).bind fun initial => ?_
  exact mirrors_runChain member command _ initial _ 0

theorem mirrors_modifiers : replay.MirrorsAt dice.tag.id
    (replay.asking.runModifiers (replay.asking.modifiedDice dice) dice.modifiers)
    (replay.plain.runModifiers (replay.plain.modifiedDice dice) dice.modifiers) := by
  have chains : replay.MirrorsChains dice.tag.id (replay.asking.modifiedDice dice)
      fun command recursive explode => replay.plain.chain dice command recursive explode :=
    ⟨rfl, fun command recursive explode => mirrors_chain member command recursive explode⟩
  exact mirrors_runModifiers chains dice.modifiers

/-! ## Catching up -/

theorem rollOne_plain {other : Progress}
    (own : (other.ledger.term dice.tag.id).method = .string (ownName dice.tag.id))
    (lasts : (other.ledger.term dice.tag.id).phase ≠ .evaluated) {n : Number}
    (next : (valuesFor replay.receipts dice.tag.id)[other.callsOf dice.tag.id]? = some (.number n))
    (accepted : other.ledger.accepts dice (.number n) = .ok true) :
    replay.plain.rollOne dice false false other = .done (.ok { value := .number n })
      ((other.calling dice false false).adding dice (.number n)) := by
  have not : other.ledger.isEvaluated (.dice dice) = false := beq_eq_false_iff_ne.2 lasts
  have reads : read (fun ledger => .ok (ledger.isEvaluated (.dice dice))) other =
      .done (.ok false) other := congrArg (fun evaluated => Step.done (.ok evaluated) other) not
  have drawn : replay.plain.nextResult dice false false other =
      .done (.ok (.number n)) (other.calling dice false false) := by
    refine (congrFun (replay.plain.nextResult_eq_draw replay.chances.1 replay.chances.2 ..) other).trans ?_
    exact draw_plain member own next accepted false false
  unfold Context.rollOne
  rw [bind_done reads]
  exact (bind_done drawn).trans rfl

omit member in
/-- With every value that the replay draws it owes one less. -/
theorem Catching.next {count : Nat} {taken : List Receipt} {progress other : Progress}
    (catching : replay.Catching count dice taken progress other) {receipt : Receipt}
    (is : (shareOf taken dice.tag.id)[count]? = some receipt) :
    replay.Catching (count + 1) dice taken progress
      ((other.calling dice false false).adding dice (.number receipt.number)) := by
  have changed (id : Identity) := other.ledger.term_updateTerm dice.tag.id id fun state =>
    { state with outcomes := state.outcomes ++ [{ value := .number receipt.number }] }
  refine ⟨catching.pairs.of_other (fun _ => rfl) fun id => ?_, fun different apart => ?_, ?_,
    catching.lasts⟩
  · by_cases same : dice.tag.id = id
    · subst same
      exact ⟨_, (changed _).trans (if_pos rfl)⟩
    · exact ⟨_, (changed _).trans (if_neg same)⟩
  · refine (catching.stands different apart).congr rfl ((changed _).trans (if_neg apart.symm)) ?_ rfl
    exact (Progress.callsOf_calling ..).trans (congrArg _ (if_neg apart.symm))
  · rcases catching.owes with ⟨member, ready, number, accepted, outcomes, drawn, calls⟩
    refine ⟨member, ready, number, accepted, outcomes, ?_, ?_⟩
    · have added := congrArg TermState.outcomes ((changed dice.tag.id).trans (if_pos rfl))
      refine added.trans ?_
      rw [drawn, List.take_add_one, is, List.map_append]
      rfl
    · exact (Progress.callsOf_calling ..).trans ((congrArg _ (if_pos rfl)).trans
        (congrArg (· + 1) calls))

/-- The replay draws the values of dice that were filled in advance one after another. -/
theorem rollUpTo_of_catching {taken : List Receipt} (within : taken <+: replay.receipts)
    {progress other : Progress} {count rolls : Nat}
    (catching : replay.Catching count dice taken progress other)
    (left : count + rolls = (shareOf taken dice.tag.id).length) :
    ∃ last, replay.plain.rollUpTo dice (shareOf taken dice.tag.id).length rolls other =
      .done (.ok ()) last ∧ replay.AlikeAt dice.tag.id taken progress last := by
  induction rolls generalizing count other with
  | zero =>
    rw [Nat.add_zero] at left
    subst left
    exact ⟨other, rfl, catching.at⟩
  | succ rolls ih =>
    have below : count < (shareOf taken dice.tag.id).length := by omega
    rcases (⟨_, List.getElem?_eq_getElem below⟩ :
      ∃ receipt, (shareOf taken dice.tag.id)[count]? = some receipt) with ⟨receipt, is⟩
    have present : (other.ledger.outcomes dice.tag.id).length = count := by
      unfold Ledger.outcomes
      rw [catching.owes.drawn, List.length_map, List.length_take]
      omega
    have own := own_of_mem member catching.pairs
    have lasts := catching.pairs.phase dice.tag.id ▸ catching.lasts
    have next := getElem?_valuesFor within is
    rw [← catching.owes.calls] at next
    have accepted : other.ledger.accepts dice (.number receipt.number) = .ok true := by
      rw [← catching.owes.accepted _ (List.mem_of_getElem? is)]
      exact Ledger.accepts_of_ready catching.owes.ready _
    rcases ih (catching.next is) (by omega) with ⟨last, run, alike⟩
    refine ⟨last, ?_, alike⟩
    rw [replay.plain.rollUpTo_of_lt rolls (by omega),
      bind_done (rollOne_plain member own lasts next accepted)]
    exact run

omit member in
/-- An amount is the same in both evaluations, and so is its refusal. -/
theorem mirrors_requireInteger (id : Identity) (what : DiceAmount) (least : Nat)
    (amount : Operand Term) :
    replay.MirrorsAt id (Context.rollDice.requireInteger dice what least amount)
      (Context.rollDice.requireInteger dice what least amount) := by
  have amounts : replay.MirrorsAt id (read (·.amount amount)) (read (·.amount amount)) :=
    .read fun _ _ _ alike => alike.alike.agrees.amount amount
  refine amounts.bind fun value => ?_
  split
  · exact .ite (.pure _) (mirrors_refusal dice _)
  · exact mirrors_refusal dice _

/-- Dice that are level are rolled with the same draws. -/
theorem mirrors_rollDice_level : replay.MirrorsAt dice.tag.id (replay.asking.rollDice dice)
    (replay.plain.rollDice dice) := by
  refine (mirrors_requireInteger _ _ _ _).bind fun number => ?_
  refine (mirrors_requireInteger _ _ _ _).bind fun _ => ?_
  exact (mirrors_rollUpTo member number number).bind fun _ => mirrors_modifiers member

theorem mirrors_rollDice : Mirrors replay.resolver replay.receipts replay.Alike
    (replay.AlikeAt dice.tag.id) replay.Alike (replay.asking.rollDice dice)
    (replay.plain.rollDice dice) := by
  intro taken progress other alike more result last runs within
  have kept {given : Except Fault Unit} {step : Step Unit}
      (mirrors : step.Mirrors (replay.AlikeAt dice.tag.id) (replay.AlikeAt dice.tag.id)
        (taken ++ more) last given) :
      step.Mirrors (replay.AlikeAt dice.tag.id) replay.Alike (taken ++ more) last given := by
    cases mirrors with
    | cancelled => exact .cancelled
    | value same holds => exact .value same holds
    | fault same holds => exact .fault same holds.alike
  refine kept ?_
  cases alike.stands dice.tag.id with
  | level level => exact mirrors_rollDice_level member (alike.at level) runs within
  | @ahead owed is owes lasts =>
    have same := replay.isMade.spans.dice_eq_of_id owes.member member is
    subst same
    have catching : replay.Catching 0 owed taken progress other :=
      ⟨alike.pairs, fun different _ => alike.stands different, owes, lasts⟩
    have earlier := (List.prefix_append taken more).trans within
    rcases rollUpTo_of_catching member earlier catching (Nat.zero_add _) with
      ⟨caught, filled, level⟩
    have sound := Resolver.sound_of_mem replay.isMade member
    have present : (shareOf taken owed.tag.id).length ≤
        (progress.ledger.outcomes owed.tag.id).length := by
      simp only [Ledger.outcomes, owes.outcomes, List.length_map, Nat.le_refl]
    rw [replay.asking.rollDice_of_ready owes.ready sound, owes.number,
      bind_done (replay.asking.rollUpTo_of_le _ present)] at runs
    rw [replay.plain.rollDice_of_ready owes.ready sound, owes.number, bind_done filled]
    exact mirrors_modifiers member level runs within

end

end Replay
end DiceNotation
