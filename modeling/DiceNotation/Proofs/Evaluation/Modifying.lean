import DiceNotation.Proofs.Dice.Records
import DiceNotation.Proofs.Dice.Refusals
import DiceNotation.Proofs.Evaluation.Acting
import DiceNotation.Proofs.Evaluation.Chances
import DiceNotation.Proofs.Evaluation.Finishing
import DiceNotation.Proofs.Formula.Overflows

namespace DiceNotation

/-!
# Modifiers that are told in advance

Whether modifiers can be carried out is told by what is written in them, for dice and for
pools.  The one exception is a chain that would add too many dice: this depends on the
values.  The outcomes may be any, as long as their values are numbers, and the modifiers
keep it that way.
-/

/-! ## Evaluations that are told in advance -/

/-- An evaluation succeeds only if it is accepted.  If it fails, either it is not accepted,
or the fault is one that cannot be told in advance. -/
def Foretold (untold : Fault → Prop) (accepted : Prop) (holds : Progress → Prop) :
    Except Fault Unit → Progress → Prop
  | .ok _, last => accepted ∧ holds last
  | .error fault, _ => ¬accepted ∨ untold fault

namespace Evaluation

variable {progress : Progress} {untold : Fault → Prop} {accepted also : Prop}
  {holds holdsToo : Progress → Prop}

/-- What comes second is told where the first succeeds. -/
theorem foretold_bind {first : Evaluation Unit} {next : Unit → Evaluation Unit}
    (finishes : first.Finishes progress (Foretold untold accepted holds))
    (more : ∀ later, first progress = .done (.ok ()) later → holds later →
      (next ()).Finishes later (Foretold untold also holdsToo)) :
    (first >>= next).Finishes progress (Foretold untold (accepted ∧ also) holdsToo) := by
  refine finishes.bind (fun _ later run ended => ?_) fun fault later ended => ?_
  · refine (more later run ended.2).imp fun result last done => ?_
    cases result with
    | ok _ => exact ⟨⟨ended.1, done.1⟩, done.2⟩
    | error fault => exact done.imp_left fun refused both => refused both.2
  · exact ended.imp_left fun refused both => refused both.1

theorem foretold_imp {evaluation : Evaluation Unit}
    (finishes : evaluation.Finishes progress (Foretold untold accepted holds))
    (same : accepted ↔ also) (follows : ∀ last, holds last → holdsToo last) :
    evaluation.Finishes progress (Foretold untold also holdsToo) := by
  refine finishes.imp fun result last ended => ?_
  cases result with
  | ok _ => exact ⟨same.1 ended.1, follows last ended.2⟩
  | error fault => exact ended.imp_left fun refused given => refused (same.2 given)

end Evaluation

/-! ## Terms whose outcomes are being made -/

/-- A term is in the middle of its evaluation, and what is known of its outcomes: they are
consistent, their values are numbers, and whether successes were counted. -/
structure TermState.IsTallied (decimals counting : Bool) (method : Json) (state : TermState) :
    Prop where
  phase : state.phase = .evaluating
  method : state.method = method
  counting : state.counting = counting
  consistent : ∀ outcome ∈ state.outcomes, outcome.IsConsistent
  numbers : ∀ outcome ∈ state.outcomes, outcome.value.IsAmong decimals

namespace TermState.IsTallied

variable {decimals counting : Bool} {method : Json} {state : TermState}

theorem areNumbers (tallied : state.IsTallied decimals counting method) :
    Outcome.AreNumbers state.outcomes := by
  intro outcome member
  rcases tallied.numbers outcome member with ⟨n, is, _⟩
  exact ⟨n, is⟩

theorem become (tallied : state.IsTallied decimals counting method) {outcomes : List Outcome}
    (become : List.Forall₂ Outcome.Becomes state.outcomes outcomes) (now : Bool) :
    IsTallied decimals now method { state with outcomes := outcomes, counting := now } where
  phase := tallied.phase
  method := tallied.method
  counting := rfl
  consistent := Outcome.consistent_of_become become tallied.consistent
  numbers := by
    intro outcome member
    have value : outcome.value ∈ state.outcomes.map (·.value) := by
      rw [← Outcome.values_of_become become]
      exact List.mem_map_of_mem member
    rcases List.mem_map.1 value with ⟨before, inside, same⟩
    rw [← same]
    exact tallied.numbers before inside

theorem adding (tallied : state.IsTallied decimals counting method) {value : Json}
    (among : value.IsAmong decimals) :
    IsTallied decimals counting method
      { state with outcomes := state.outcomes ++ [{ value := value }] } where
  phase := tallied.phase
  method := tallied.method
  counting := tallied.counting
  consistent := List.forall_mem_append.2
    ⟨tallied.consistent, List.forall_mem_singleton.2 (Outcome.isConsistent_new value)⟩
  numbers := List.forall_mem_append.2
    ⟨tallied.numbers, List.forall_mem_singleton.2 among⟩

end TermState.IsTallied

/-- A term is in the middle of its evaluation, with its own method. -/
abbrev Progress.Tallies (made : Ledger) (id : Identity) (decimals counting : Bool)
    (progress : Progress) : Prop :=
  (progress.ledger.term id).IsTallied decimals counting (made.term id).method

/-- A chain marks outcomes that are active. -/
theorem Progress.Tallies.marking {made : Ledger} {dice : Dice} {decimals counting : Bool}
    {progress : Progress} (tallied : progress.Tallies made dice.tag.id decimals counting)
    {chain : Context.Chain} {initial checked position : Nat}
    (found : chain.next? initial checked (progress.ledger.outcomes dice.tag.id) =
      .ok (some position)) :
    (progress.marking dice chain position).Tallies made dice.tag.id decimals counting := by
  rcases Context.Chain.active_of_next? found with ⟨outcome, there, active⟩
  unfold Progress.Tallies
  change ((progress.ledger.updateTerm _ _).term _).IsTallied _ _ _
  rw [Ledger.term_updateTerm, if_pos rfl]
  have kept := tallied.become (chain.become_modify there active) counting
  rw [← tallied.counting] at kept ⊢
  exact kept

/-- The outcomes that a term had before are given back to it. -/
theorem Progress.Tallies.undoing {made : Ledger} {term : Term} {decimals counting after : Bool}
    {progress later : Progress} (tallied : progress.Tallies made term.id decimals counting)
    (still : later.Tallies made term.id decimals after) (raw : Json) (message : String) :
    (later.undoing term (progress.ledger.term term.id).outcomes raw message).Tallies made term.id
      decimals after := by
  unfold Progress.Tallies
  change ((later.ledger.updateTerm _ _).term _).IsTallied _ _ _
  rw [Ledger.term_updateTerm, if_pos rfl]
  exact ⟨still.phase, still.method, still.counting, tallied.consistent, tallied.numbers⟩

/-- Whether a chain was cut short that would add too many dice. -/
def Context.CutsShort (context : Context) (fault : Fault) : Prop :=
  context.isFixed = false ∧
    ∃ term command, fault = .modifier (.tooManyRolls context.maxChainRolls) term command

namespace Context

open Evaluation

variable {context : Context} {made : Ledger} {decimals counting : Bool} {progress : Progress}

/-! ## Chains -/

/-- It can always be told where a chain goes on. -/
theorem Chain.next?_ok {chain : Chain} {target : Number} (is : chain.target = .number target)
    {outcomes : List Outcome} (numbers : Outcome.AreNumbers outcomes) (initial checked : Nat) :
    ∃ found, chain.next? initial checked outcomes = .ok found := by
  have first (position : Nat) (among : List Outcome) (all : Outcome.AreNumbers among) :
      ∃ found, chain.firstFrom position among = .ok found := by
    induction among generalizing position with
    | nil => exact ⟨none, rfl⟩
    | cons outcome rest ih =>
      rcases List.forall_mem_cons.1 all with ⟨⟨n, value⟩, later⟩
      have selected : ∃ selected, chain.selects outcome = .ok selected := by
        unfold selects
        rw [value, is, Comparator.holds_number]
        split
        · exact ⟨_, rfl⟩
        · exact ⟨_, rfl⟩
      rcases selected with ⟨selected, tested⟩
      unfold firstFrom
      rw [tested]
      cases selected with
      | true => exact ⟨_, rfl⟩
      | false => exact ih (position + 1) later
  apply first
  intro outcome member
  apply numbers outcome
  split at member
  · exact List.mem_of_mem_drop member
  · exact List.mem_of_mem_take (List.mem_of_mem_drop member)

section

variable {dice : Dice} (alone : context.IsAlone) (sound : dice.IsSound)
  (left : dice.IsLeftToChance context.methods made)
include alone sound left

theorem rollOne_tallies {fails : Fault → Progress → Prop} (reroll explode : Bool)
    (tallied : progress.Tallies made dice.tag.id decimals counting) :
    (context.rollOne dice reroll explode).Finishes progress
      (Concludes fails fun _ last => last.Tallies made dice.tag.id decimals counting) := by
  have unfinished : progress.ledger.isEvaluated (.dice dice) = false := by
    change ((progress.ledger.term dice.tag.id).phase == .evaluated) = false
    rw [tallied.phase]
    rfl
  rcases rollOne_ok alone sound left tallied.method unfinished reroll explode with
    ⟨n, outcome, later, run, ledger⟩
  refine ⟨_, later, run, ?_⟩
  change later.Tallies made dice.tag.id decimals counting
  unfold Progress.Tallies
  rw [ledger, Resolver.addOutcome, Ledger.term_updateTerm, if_pos rfl]
  exact tallied.adding (Json.isAmong_ofInt n)

/-- Dice that are rolled until there are enough of them are never refused. -/
theorem rollUpTo_tallies (number rolls : Nat)
    (tallied : progress.Tallies made dice.tag.id decimals counting) :
    (context.rollUpTo dice number rolls).Finishes progress
      (Concludes (fun _ _ => False) fun _ last =>
        last.Tallies made dice.tag.id decimals counting) :=
  rollUpTo_concludes (fun reroll explode still => rollOne_tallies alone sound left reroll explode
    still) number rolls tallied

/-- A modifier that rolls again, or once more, is not refused unless it is cut short. -/
theorem chain_finishes (command : Command) (recursive explode : Bool)
    (tallied : progress.Tallies made dice.tag.id decimals counting) :
    (context.chain dice command recursive explode).Finishes progress
      (Concludes
        (fun fault last => last.Tallies made dice.tag.id decimals counting ∧
          context.CutsShort fault)
        fun _ last => last.Tallies made dice.tag.id decimals counting) := by
  have aim : ∃ target : Int, chainTarget progress.ledger dice command explode =
      .ok (.ofInt target) := by
    unfold chainTarget
    split
    · exact ⟨_, rfl⟩
    · split
      · rcases left.faces with ⟨faces, known, _⟩
        rcases @DiceOf.IsSound.range progress.ledger dice sound faces known with
          ⟨greatest, maximum, _⟩
        exact ⟨greatest, maximum⟩
      · exact ⟨_, rfl⟩
  rcases aim with ⟨target, aimed⟩
  have reads : (read fun ledger => chainTarget ledger dice command explode) progress =
      .done (.ok (.ofInt target)) progress := congrArg (Step.done · progress) aimed
  unfold Finishes chain
  rw [bind_done reads]
  split
  · exact ⟨_, _, rfl, tallied⟩
  · rename_i varies
    let going : Chain := ⟨recursive, explode, command.comparator.getD .equal, .ofInt target⟩
    refine runChain_concludes (rollOne_tallies alone sound left) command going ?_ ?_ ?_ _ _ 0
      tallied
    · intro progress initial checked fault still failed
      rcases @Chain.next?_ok going (.int target) rfl _ still.areNumbers initial checked with
        ⟨next, found⟩
      cases found.symm.trans failed
    · exact fun _ _ _ still found => still.marking found
    · exact fun still => ⟨still, Bool.eq_false_iff.2 varies, _, _, rfl⟩

end

/-! ## Single modifiers -/

/-- A modifier that rolls nothing is refused as it was told, and counts as it was told. -/
theorem tally_finishes {term : Term} (action : Action) (command : Command)
    (tallied : progress.Tallies made term.id decimals counting) :
    (tally term action command).Finishes progress fun result last =>
      result = (Tally.carryOut action command term.formula ⟨[], counting⟩).2 ∧
        last.Tallies made term.id decimals
          (Tally.carryOut action command term.formula ⟨[], counting⟩).1.counting := by
  let before : Tally :=
    ⟨(progress.ledger.term term.id).outcomes, (progress.ledger.term term.id).counting⟩
  have alike : Tally.Alike (before.carryOut action command term.formula)
      (before.blank.carryOut action command term.formula) :=
    Tally.alike_carryOut tallied.areNumbers action command term.formula
  have blank : before.blank = ⟨[], counting⟩ := congrArg (Tally.mk []) tallied.counting
  rw [blank] at alike
  refine ⟨_, progress.tallying term action command, rfl, alike.result, ?_⟩
  unfold Progress.Tallies
  change ((progress.ledger.updateTerm _ _).term _).IsTallied _ _ _
  rw [Ledger.term_updateTerm, if_pos rfl, ← alike.counting]
  exact tallied.become (before.becomes_carryOut command term.formula action) _

/-- What modifiers work on, if it rolls again without a refusal but for chains that are cut
short. -/
structure Modified.IsForetold (context : Context) (made : Ledger) (decimals : Bool)
    (modified : Modified) : Prop where
  written : modified.term.hasFormula = true
  chain : ∀ {progress counting} command recursive explode,
    progress.Tallies made modified.term.id decimals counting →
    (modified.chain command recursive explode).Finishes progress
      (Concludes (fun fault last => last.Tallies made modified.term.id decimals counting ∧
        context.CutsShort fault) fun _ last =>
          last.Tallies made modified.term.id decimals counting)

/-- How a modifier ends of which it was told what it does: as it was told, unless it is a
chain that is cut short. -/
structure EndsAsTold (context : Context) (tallies : Bool → Progress → Prop)
    (told : Bool × Except Fault Unit) (result : Except Fault Unit) (last : Progress) : Prop where
  tallies : tallies told.1 last
  result : result = told.2 ∨
    told.2 = .ok () ∧ ∃ fault, result = .error fault ∧ context.CutsShort fault

section

variable {modified : Modified} (foretold : modified.IsForetold context made decimals)
include foretold

theorem runModifier_finishes (raw : Json)
    (tallied : progress.Tallies made modified.term.id decimals counting) :
    (runModifier modified raw).Finishes progress
      (context.EndsAsTold (fun after last => last.Tallies made modified.term.id decimals after)
        (modified.table.foretell modified.term.formula counting raw)) := by
  have chains (recursive explode : Bool) (command : Command) :
      (modified.chain command recursive explode).Finishes progress
        (context.EndsAsTold (fun after last => last.Tallies made modified.term.id decimals after)
          (counting, .ok ())) := by
    refine (foretold.chain command recursive explode tallied).imp fun result last ended => ?_
    cases result with
    | ok _ => exact ⟨ended, .inl rfl⟩
    | error fault => exact ⟨ended.1, .inr ⟨rfl, fault, rfl, ended.2⟩⟩
  unfold Finishes runModifier ActionTable.foretell
  dsimp only
  cases read : Command.ofData raw modified.term.formula with
  | error fault => exact ⟨_, _, rfl, tallied, .inl rfl⟩
  | ok command =>
    have found : (lift (.ok command) : Evaluation Command) progress =
        .done (.ok command) progress := rfl
    rw [bind_done found]
    dsimp only
    cases modified.table.action? command.name with
    | none => exact ⟨_, _, rfl, tallied, .inl rfl⟩
    | some action =>
      have tallies := tally_finishes action command tallied
      cases action with
      | reroll once => exact chains (!once) false command
      | explode once => exact chains (!once) true command
      | _ => exact tallies.imp fun _ _ ended => ⟨ended.2, .inl ended.1⟩

/-- Faults of modifiers that cannot be told in advance. -/
def Untellable (context : Context) (fault : Fault) : Prop :=
  context.lenient = false ∧ context.CutsShort fault

/-- A modifier is carried out or skipped, or it was told that it is refused. -/
theorem tryModifier_finishes (raw : Json)
    (tallied : progress.Tallies made modified.term.id decimals counting) :
    (context.tryModifier modified raw).Finishes progress (Foretold context.Untellable
      (ActionTable.goesOn context.lenient
        (modified.table.foretell modified.term.formula counting raw).2 = true)
      fun last => last.Tallies made modified.term.id decimals
        (modified.table.foretell modified.term.formula counting raw).1) := by
  rcases runModifier_finishes foretold raw tallied with ⟨result, later, run, ⟨still, ended⟩⟩
  generalize modified.table.foretell modified.term.formula counting raw = told at *
  unfold Finishes tryModifier
  dsimp only
  rw [run, Step.andThen_done]
  cases result with
  | ok _ =>
    have accepted : Except.ok () = told.2 := by
      rcases ended with same | ⟨_, fault, failed, _⟩
      · exact same
      · cases failed
    refine ⟨_, _, rfl, ?_, still⟩
    rw [← accepted]
    rfl
  | error fault =>
    cases fault with
    | modifier reason formula command =>
      cases lenient : context.lenient with
      | true =>
        refine ⟨_, _, rfl, ?_, tallied.undoing still raw _⟩
        rcases ended with same | ⟨same, _⟩
        · rw [← same]
          rfl
        · rw [same]
          rfl
      | false =>
        refine ⟨_, _, rfl, ?_⟩
        rcases ended with same | ⟨_, fault, failed, short⟩
        · rw [← same]
          exact .inl Bool.false_ne_true
        · cases failed
          exact .inr ⟨lenient, short⟩
    | _ =>
      refine ⟨_, _, rfl, .inl ?_⟩
      rcases ended with same | ⟨_, fault, failed, _, term, command, is⟩
      · rw [← same]
        exact Bool.false_ne_true
      · cases failed
        cases is

/-- Whether modifiers can be carried out is told by what is written, unless a chain is cut
short. -/
theorem runModifiers_finishes (modifiers : List Json)
    (tallied : progress.Tallies made modified.term.id decimals counting) :
    (context.runModifiers modified modifiers).Finishes progress (Foretold context.Untellable
      (modified.table.accepts context.lenient modified.term.formula counting modifiers = true)
      fun last => ∃ after, last.Tallies made modified.term.id decimals after) := by
  induction modifiers generalizing progress counting with
  | nil => exact ⟨_, _, rfl, rfl, counting, tallied⟩
  | cons raw rest ih =>
    unfold runModifiers ActionTable.accepts
    rw [if_pos foretold.written]
    dsimp only
    rw [Bool.and_eq_true]
    exact foretold_bind (tryModifier_finishes foretold raw tallied) fun _ _ still => ih still

end

end Context
end DiceNotation
