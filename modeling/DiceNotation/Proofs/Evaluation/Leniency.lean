import DiceNotation.Proofs.Evaluation.Chains

namespace DiceNotation

/-!
# Modifiers that may be skipped

A modifier that fails may have rolled and marked already, but it has touched nothing of its term
except the outcomes: whether successes are counted is settled only by a modifier that succeeds.
So it is enough to give back the outcomes, and where failing modifiers are skipped, each modifier
has its whole effect on the term or none.  What is lost is what was drawn.
-/

/-- A run goes on from where it is done. -/
theorem Step.Reaches.andThen {α β : Type} {others : Progress → Progress → Prop} {step : Step α}
    {next : Except Fault α → Progress → Step β} {result : Except Fault α} {middle last : Progress}
    {outcome : Option (Except Fault β)} (reaches : step.Reaches others (some result) middle)
    (goesOn : (next result middle).Reaches others outcome last) :
    (step.andThen next).Reaches others outcome last := by
  induction step with
  | done given progress =>
    obtain ⟨is, rfl⟩ := Step.Reaches.of_done reaches
    cases is
    exact goesOn
  | wait request asked resume ih =>
    cases reaches with
    | resumed meanwhile answer reaches => exact .resumed meanwhile answer (ih _ _ reaches)

/-- Whether a run has succeeded without waiting, and what it leaves passes a check. -/
def Step.succeedsWith (check : Progress → Bool) : Step Unit → Bool
  | .done (.ok ()) last => check last
  | _ => false

theorem Step.exists_of_succeedsWith {check : Progress → Bool} {step : Step Unit}
    (computed : step.succeedsWith check = true) (others : Progress → Progress → Prop) :
    ∃ last, step = .done (.ok ()) last ∧ step.Reaches others (some (.ok ())) last ∧
      check last = true := by
  cases step with
  | wait request asked resume => cases computed
  | done result last =>
    cases result with
    | error fault => cases computed
    | ok done => exact ⟨last, rfl, .done _ _, computed⟩

/-! ## Modifiers that roll nothing -/

/-- Whether an action rolls. -/
def Action.rolls : Action → Bool
  | reroll _ => true
  | explode _ => true
  | _ => false

namespace Tally

variable (tally : Tally) (command : Command) (formula : String)

/-- A change that is cut short leaves it open whether successes are counted. -/
abbrev Settles (change : Change) : Prop :=
  ∀ fault, change.2 = .error fault → change.1.counting = tally.counting

theorem settles_mapActive (change : Outcome → Except Fault Outcome) :
    tally.Settles (tally.mapActive change) := fun _ _ => rfl

theorem settles_countSuccesses (test : Json → Except Fault Bool) :
    tally.Settles (tally.countSuccesses test) := by
  intro fault failed
  unfold countSuccesses at failed ⊢
  split
  · rename_i counted marked
    rw [marked] at failed
    cases failed
  · rfl

theorem settles_comparing {next : (Json → Except Fault Bool) → Change}
    (settles : ∀ test, tally.Settles (next test)) :
    tally.Settles (tally.comparing command formula next) := by
  unfold comparing
  split
  · exact fun _ _ => rfl
  · exact settles _

theorem settles_deductFailures : tally.Settles (tally.deductFailures command formula) := by
  unfold deductFailures
  split
  · exact tally.settles_mapActive _
  · exact tally.settles_comparing command formula fun _ => tally.settles_mapActive _

/-- To keep or drop outcomes leaves it open whether successes are counted. -/
theorem counting_select (keep highest : Bool) :
    (tally.select command formula keep highest).1.counting = tally.counting := by
  unfold select
  split
  · rfl
  · split
    · rfl
    · rfl

theorem settles_countParity (odd : Bool) :
    tally.Settles (tally.countParity command formula odd) := by
  unfold countParity
  split
  · exact fun _ _ => rfl
  · split
    · exact fun _ _ => rfl
    · exact tally.settles_countSuccesses _

theorem settles_call : tally.Settles (tally.call command formula) := by
  unfold call
  split
  · exact fun _ _ => rfl
  · dsimp only
    split
    · exact tally.settles_countSuccesses _
    · exact fun _ _ => rfl

/-- Only a modifier that succeeds changes whether successes are counted. -/
theorem settles_carryOut (action : Action) :
    tally.Settles (tally.carryOut action command formula) := by
  cases action with
  | keep => exact fun _ _ => tally.counting_select command formula _ _
  | drop => exact fun _ _ => tally.counting_select command formula _ _
  | countSuccesses => exact tally.settles_comparing command formula tally.settles_countSuccesses
  | countFailures =>
    change tally.Settles (if tally.counting then _ else _)
    split
    · exact tally.settles_deductFailures command formula
    · exact tally.settles_comparing command formula fun _ => tally.settles_mapActive _
  | deductFailures => exact tally.settles_deductFailures command formula
  | countParity odd => exact tally.settles_countParity command formula odd
  | call => exact tally.settles_call command formula
  | reroll once => exact fun _ _ => rfl
  | explode once => exact fun _ _ => rfl

end Tally

/-! ## Runs that revise outcomes -/

/-- A term is what it was but for its outcomes. -/
def Progress.Revises (id : Identity) (before after : Progress) : Prop :=
  after.ledger.term id =
    { before.ledger.term id with outcomes := (after.ledger.term id).outcomes }

namespace Progress.Revises

variable {id : Identity} {first second third : Progress}

theorem of_spares (spared : first.Spares id second) : first.Revises id second := by
  unfold Progress.Revises
  rw [spared]

theorem trans (earlier : first.Revises id second) (later : second.Revises id third) :
    first.Revises id third := by
  unfold Progress.Revises at *
  rw [later, earlier]

theorem counting (revises : first.Revises id second) :
    (second.ledger.term id).counting = (first.ledger.term id).counting := by
  rw [revises]

theorem updateTerm (progress : Progress) (revise : List Outcome → List Outcome) :
    progress.Revises id (progress.updateLedger (·.updateTerm id fun state =>
      { state with outcomes := revise state.outcomes })) := by
  unfold Progress.Revises Progress.updateLedger
  rw [Ledger.term_updateTerm, if_pos rfl]

/-- The outcomes that a term had before are given back to it: it is what it was. -/
theorem undoing {term : Term} (revises : first.Revises term.id second) (raw : Json)
    (message : String) :
    first.Spares term.id
      (second.undoing term (first.ledger.term term.id).outcomes raw message) := by
  change (second.ledger.updateTerm term.id _).term term.id = first.ledger.term term.id
  rw [Ledger.term_updateTerm, if_pos rfl, revises]

end Progress.Revises

/-- However an evaluation ends, it has touched nothing of a term but its outcomes, if others leave
the term alone while it waits. -/
def Evaluation.Revises {α : Type} (id : Identity) (work : Evaluation α) : Prop :=
  ∀ ⦃start last : Progress⦄ ⦃result : Except Fault α⦄,
    (work start).Reaches (Progress.Spares id) (some result) last → start.Revises id last

namespace Evaluation.Revises

variable {α β : Type} {id : Identity}

theorem of_keeps {work : Evaluation α} (keeps : work.Keeps (FrameRule.sparing id)) :
    work.Revises id := fun _ _ _ reaches => .of_spares (reaches.spares (keeps _))

theorem bind {first : Evaluation α} {next : α → Evaluation β} (begins : first.Revises id)
    (goesOn : ∀ a, (next a).Revises id) : (first >>= next).Revises id := by
  intro start last result reaches
  rcases Step.Reaches.of_bind reaches with ⟨fault, _, fails⟩ | ⟨a, middle, succeeds, rest⟩
  · exact begins fails
  · exact (begins succeeds).trans (goesOn a rest)

theorem change (revise : List Outcome → List Outcome) :
    (Evaluation.change fun ledger => ledger.updateTerm id fun state =>
      { state with outcomes := revise state.outcomes }).Revises id := by
  intro start last result reaches
  obtain ⟨_, rfl⟩ := Step.Reaches.of_done reaches
  exact .updateTerm start revise

end Evaluation.Revises

namespace Context

open Evaluation

variable (context : Context)

theorem revises_rollOne (dice : Dice) (reroll explode : Bool) :
    (context.rollOne dice reroll explode).Revises dice.tag.id := by
  refine .bind (.of_keeps (Keeps.read _)) fun evaluated => ?_
  cases evaluated with
  | true => exact .of_keeps (keeps_naming dice (Keeps.fail _))
  | false =>
    refine .bind (.of_keeps (keeps_nextResult (fun _ _ => trivial) reroll explode)) fun value => ?_
    exact .bind (.change (· ++ [{ value := value }])) fun _ => .of_keeps (Keeps.pure _)

theorem revises_runChain (dice : Dice) (command : Command) (chain : Chain)
    (initial rolls checked : Nat) :
    (context.runChain dice command chain initial rolls checked).Revises dice.tag.id := by
  induction rolls generalizing checked with
  | zero =>
    unfold runChain
    refine .bind (.of_keeps (Keeps.read _)) fun next => ?_
    cases next with
    | none => exact .of_keeps (Keeps.pure _)
    | some position => exact .of_keeps (Keeps.fail _)
  | succ rolls ih =>
    unfold runChain
    refine .bind (.of_keeps (Keeps.read _)) fun next => ?_
    cases next with
    | none => exact .of_keeps (Keeps.pure _)
    | some position =>
      refine .bind (.change _) fun _ => ?_
      exact .bind (context.revises_rollOne dice _ _) fun _ => ih (position + 1)

theorem revises_chain (dice : Dice) (command : Command) (recursive explode : Bool) :
    (context.chain dice command recursive explode).Revises dice.tag.id := by
  refine .bind (.of_keeps (Keeps.read _)) fun target => ?_
  cases context.isFixed with
  | true => exact .of_keeps (Keeps.pure _)
  | false =>
    refine .bind (.of_keeps (Keeps.read _)) fun initial => ?_
    exact context.revises_runChain dice command _ initial _ 0

/-! ## Single modifiers -/

/-- What takes modifiers: dice or a pool. -/
inductive Modified.IsTerm : Modified → Prop
  | dice (dice : Dice) : IsTerm (context.modifiedDice dice)
  | pool (pool : Pool) : IsTerm (modifiedPool pool)

/-- A modifier is read as a command of its term. -/
structure Modified.Reads (modified : Modified) (raw : Json) (command : Command) (action : Action) :
    Prop where
  read : Command.ofData raw modified.term.formula = .ok command
  known : modified.table.action? command.name = some action

theorem Modified.Reads.unique {modified : Modified} {raw : Json} {command other : Command}
    {action next : Action} (reads : modified.Reads raw command action)
    (again : modified.Reads raw other next) : command = other ∧ action = next := by
  have same : command = other := Except.ok.inj (reads.read.symm.trans again.read)
  subst same
  exact ⟨rfl, Option.some.inj (reads.known.symm.trans again.known)⟩

/-- What a modifier finds of a term that rolls nothing. -/
abbrev tallyIn (progress : Progress) (id : Identity) : Tally :=
  ⟨(progress.ledger.term id).outcomes, (progress.ledger.term id).counting⟩

/-- A tally that leaves it open whether successes are counted revises outcomes. -/
theorem revises_tallying {term : Term} {action : Action} {command : Command} {start : Progress}
    (same : ((tallyIn start term.id).carryOut action command term.formula).1.counting =
      (tallyIn start term.id).counting) :
    start.Revises term.id (start.tallying term action command) := by
  unfold Progress.Revises Progress.tallying Progress.updateLedger
  rw [Ledger.term_updateTerm, if_pos rfl]
  exact congrArg (fun counting => ({ start.ledger.term term.id with
    outcomes := ((tallyIn start term.id).carryOut action command term.formula).1.outcomes
    counting := counting } : TermState)) same

/-- A tally is done at once. -/
theorem tally_reaches {term : Term} {action : Action} {command : Command} {start last : Progress}
    {result : Except Fault Unit} {others : Progress → Progress → Prop}
    (reaches : (tally term action command start).Reaches others (some result) last) :
    ((tallyIn start term.id).carryOut action command term.formula).2 = result ∧
      last = start.tallying term action command := by
  have carriedOut : tally term action command start =
      .done ((tallyIn start term.id).carryOut action command term.formula).2
        (start.tallying term action command) := rfl
  rw [carriedOut] at reaches
  obtain ⟨is, same⟩ := Step.Reaches.of_done reaches
  exact ⟨(Option.some.inj is).symm, same⟩

section

variable {context} {modified : Modified} (terms : modified.IsTerm context)
include terms

theorem Modified.IsTerm.revises (command : Command) (recursive explode : Bool) :
    (modified.chain command recursive explode).Revises modified.term.id := by
  cases terms with
  | dice dice => exact context.revises_chain dice command recursive explode
  | pool pool => exact .of_keeps (Keeps.pure _)

/-- A modifier revises the outcomes of its term.  What rolls nothing may also change whether
successes are counted. -/
theorem revises_of_runModifier {raw : Json} {result : Except Fault Unit} {start last : Progress}
    (leaves : ∀ command action, modified.Reads raw command action → action.rolls = false →
      ((tallyIn start modified.term.id).carryOut action command modified.term.formula).2 = result →
      ((tallyIn start modified.term.id).carryOut action command modified.term.formula).1.counting =
        (tallyIn start modified.term.id).counting)
    (reaches : (runModifier modified raw start).Reaches (Progress.Spares modified.term.id)
      (some result) last) : start.Revises modified.term.id last := by
  rcases Step.Reaches.of_bind reaches with ⟨_, _, unread⟩ | ⟨command, middle, reads, runs⟩
  · obtain ⟨_, rfl⟩ := Step.Reaches.of_done unread
    exact .of_spares (.refl _)
  obtain ⟨read, rfl⟩ := Step.Reaches.of_done reads
  cases known : modified.table.action? command.name with
  | none =>
    rw [known] at runs
    obtain ⟨_, rfl⟩ := Step.Reaches.of_done runs
    exact .of_spares (.refl _)
  | some action =>
    rw [known] at runs
    have found : modified.Reads raw command action := ⟨(Option.some.inj read).symm, known⟩
    cases action with
    | reroll once => exact terms.revises command (!once) false runs
    | explode once => exact terms.revises command (!once) true runs
    | _ =>
      obtain ⟨is, rfl⟩ := tally_reaches runs
      exact revises_tallying (leaves command _ found rfl is)

/-- A modifier that fails has revised the outcomes of its term, and nothing else about it. -/
theorem revises_of_runModifier_fails {raw : Json} {fault : Fault} {start last : Progress}
    (fails : (runModifier modified raw start).Reaches (Progress.Spares modified.term.id)
      (some (.error fault)) last) : start.Revises modified.term.id last :=
  revises_of_runModifier terms (fun command action _ _ failed =>
    Tally.settles_carryOut _ command _ action fault failed) fails

end

/-! ## Modifiers in a row -/

/-- A modifier is skipped that was refused after it had been tried: its term is what it was before,
and otherwise everything is as the attempt left it, but for a message. -/
structure Modified.Skips (modified : Modified) (raw : Json) (before after : Progress) : Prop where
  lost : ∃ reason formula command tried message,
    (runModifier modified raw before).Reaches (Progress.Spares modified.term.id)
      (some (.error (.modifier reason formula command))) tried ∧
    after = tried.undoing modified.term (before.ledger.term modified.term.id).outcomes raw message
  restored : before.Spares modified.term.id after

/-- How a row of modifiers is carried out where failing ones are skipped, with those of them that
succeed when it is their turn.  The first fault that is no refusal of a modifier ends the row. -/
inductive Modified.Course (modified : Modified) :
    List Json → List Json → Progress → Progress → Except Fault Unit → Prop
  | ended (last : Progress) : Course modified [] [] last last (.ok ())
  | carriedOut {raw : Json} {rest kept : List Json} {before after last : Progress}
    {result : Except Fault Unit}
    (succeeds : (runModifier modified raw before).Reaches (Progress.Spares modified.term.id)
      (some (.ok ())) after)
    (later : Course modified rest kept after last result) :
    Course modified (raw :: rest) (raw :: kept) before last result
  | skipped {raw : Json} {rest kept : List Json} {before after last : Progress}
    {result : Except Fault Unit} (skips : modified.Skips raw before after)
    (later : Course modified rest kept after last result) :
    Course modified (raw :: rest) kept before last result
  | stopped {raw : Json} {rest : List Json} {before last : Progress} {fault : Fault}
    (fails : (runModifier modified raw before).Reaches (Progress.Spares modified.term.id)
      (some (.error fault)) last)
    (other : ∀ reason formula command, fault ≠ .modifier reason formula command) :
    Course modified (raw :: rest) [] before last (.error fault)
  | unnamed {raw : Json} {rest : List Json} {last : Progress}
    (nameless : modified.term.hasFormula = false) :
    Course modified (raw :: rest) [] last last (.error .wrongKind)

/-- What it does to a term that each modifier of a row is carried out, whatever is drawn and
whatever else happens in between. -/
inductive Modified.Effect (modified : Modified) : List Json → TermState → TermState → Prop
  | nothing (state : TermState) : Effect modified [] state state
  | next {raw : Json} {rest : List Json} {before after : Progress} {last : TermState}
    (succeeds : (runModifier modified raw before).Reaches (Progress.Spares modified.term.id)
      (some (.ok ())) after)
    (later : Effect modified rest (after.ledger.term modified.term.id) last) :
    Effect modified (raw :: rest) (before.ledger.term modified.term.id) last

section

variable {context} {modified : Modified} {modifiers kept : List Json} {start last : Progress}
  {result : Except Fault Unit}

/-- A refusal of a modifier does not escape. -/
theorem Modified.Course.not_modifier (course : modified.Course modifiers kept start last result)
    (reason : ModifierReason) (formula command : String) :
    result ≠ .error (.modifier reason formula command) := by
  induction course with
  | ended last => exact nofun
  | carriedOut succeeds later ih => exact ih
  | skipped skips later ih => exact ih
  | stopped fails other =>
    intro same
    cases same
    exact other reason formula command rfl
  | unnamed nameless => exact nofun

/-- What was skipped has no effect on the term. -/
theorem Modified.Course.effect (course : modified.Course modifiers kept start last result)
    (succeeds : result = .ok ()) :
    modified.Effect kept (start.ledger.term modified.term.id)
      (last.ledger.term modified.term.id) := by
  induction course with
  | ended last => exact .nothing _
  | carriedOut runs later ih => exact .next runs (ih succeeds)
  | skipped skips later ih =>
    rw [← skips.restored]
    exact ih succeeds
  | stopped fails other => cases succeeds
  | unnamed nameless => cases succeeds

theorem Modified.Course.sublist (course : modified.Course modifiers kept start last result) :
    kept.Sublist modifiers := by
  induction course with
  | ended last => exact .slnil
  | carriedOut runs later ih => exact ih.cons_cons _
  | skipped skips later ih => exact ih.cons _
  | stopped fails other => exact List.nil_sublist _
  | unnamed nameless => exact List.nil_sublist _

/-- A fault ends a modifier if nothing is skipped, and if it is no refusal of a modifier. -/
theorem afterModifier_of_fault {fault : Fault}
    (escapes : context.lenient = false ∨
      ∀ reason formula command, fault ≠ .modifier reason formula command)
    (term : Term) (raw : Json) (outcomes : List Outcome) (tried : Progress) :
    context.afterModifier term raw outcomes (.error fault) tried = .done (.error fault) tried := by
  cases fault with
  | modifier reason formula command =>
    rcases escapes with strictly | other
    · exact if_neg (Bool.eq_false_iff.1 strictly)
    · exact absurd rfl (other reason formula command)
  | _ => rfl

/-- A row of modifiers ends with its first one, or goes on behind it if that succeeds. -/
theorem runModifiers_cons {raw : Json} {rest : List Json}
    (reaches : (context.runModifiers modified (raw :: rest) start).Reaches
      (Progress.Spares modified.term.id) (some result) last) :
    (modified.term.hasFormula = false ∧ result = .error .wrongKind ∧ last = start) ∨
    (∃ fault, result = .error fault ∧ (context.tryModifier modified raw start).Reaches
      (Progress.Spares modified.term.id) (some (.error fault)) last) ∨
    ∃ middle, (context.tryModifier modified raw start).Reaches (Progress.Spares modified.term.id)
        (some (.ok ())) middle ∧
      (context.runModifiers modified rest middle).Reaches (Progress.Spares modified.term.id)
        (some result) last := by
  unfold runModifiers at reaches
  cases named : modified.term.hasFormula with
  | false =>
    rw [named] at reaches
    obtain ⟨is, rfl⟩ := Step.Reaches.of_done reaches
    exact .inl ⟨rfl, Option.some.inj is, rfl⟩
  | true =>
    rw [named] at reaches
    rcases Step.Reaches.of_bind reaches with fails | ⟨done, middle, tries, later⟩
    · exact .inr (.inl fails)
    · exact .inr (.inr ⟨middle, tries, later⟩)

/-- A row of modifiers succeeds one by one. -/
theorem succeeds_of_runModifiers_cons {raw : Json} {rest : List Json}
    (reaches : (context.runModifiers modified (raw :: rest) start).Reaches
      (Progress.Spares modified.term.id) (some (.ok ())) last) :
    ∃ middle, (context.tryModifier modified raw start).Reaches (Progress.Spares modified.term.id)
        (some (.ok ())) middle ∧
      (context.runModifiers modified rest middle).Reaches (Progress.Spares modified.term.id)
        (some (.ok ())) last := by
  rcases runModifiers_cons reaches with ⟨_, is, _⟩ | ⟨_, is, _⟩ | succeeds
  · cases is
  · cases is
  · exact succeeds

/-- Where no modifier is skipped, only one that succeeds is gone past. -/
theorem succeeds_of_strict (strictly : context.lenient = false) {raw : Json}
    (reaches : (context.tryModifier modified raw start).Reaches (Progress.Spares modified.term.id)
      (some (.ok ())) last) :
    (runModifier modified raw start).Reaches (Progress.Spares modified.term.id) (some (.ok ()))
      last := by
  rw [tryModifier_eq] at reaches
  rcases Step.Reaches.of_andThen reaches with ⟨given, tried, runs, rest⟩ | ⟨none, _⟩
  · cases given with
    | ok done =>
      obtain ⟨_, rfl⟩ := Step.Reaches.of_done rest
      exact runs
    | error fault =>
      rw [afterModifier_of_fault (.inl strictly)] at rest
      cases (Step.Reaches.of_done rest).1
  · cases none

/-- Where no modifier is skipped, a row that succeeds has the effect of all its modifiers. -/
theorem effect_of_strict (strictly : context.lenient = false)
    (reaches : (context.runModifiers modified modifiers start).Reaches
      (Progress.Spares modified.term.id) (some (.ok ())) last) :
    modified.Effect modifiers (start.ledger.term modified.term.id)
      (last.ledger.term modified.term.id) := by
  induction modifiers generalizing start with
  | nil =>
    obtain ⟨_, rfl⟩ := Step.Reaches.of_done reaches
    exact .nothing _
  | cons raw rest ih =>
    rcases succeeds_of_runModifiers_cons reaches with ⟨middle, tries, later⟩
    exact .next (succeeds_of_strict strictly tries) (ih later)

/-- Where modifiers may be skipped, one that was refused is. -/
theorem afterModifier_of_refused (lenient : context.lenient = true) (term : Term) (raw : Json)
    (outcomes : List Outcome) (reason : ModifierReason) (formula command : String)
    (tried : Progress) :
    ∃ message, context.afterModifier term raw outcomes
        (.error (.modifier reason formula command)) tried =
      .done (.ok ()) (tried.undoing term outcomes raw message) := ⟨_, if_pos lenient⟩

variable (terms : modified.IsTerm context)
include terms

/-- Where failing modifiers are skipped, one that fails is skipped as if it had not been there. -/
theorem tryModifier_cases (lenient : context.lenient = true) {raw : Json}
    (reaches : (context.tryModifier modified raw start).Reaches (Progress.Spares modified.term.id)
      (some result) last) :
    (result = .ok () ∧ ((runModifier modified raw start).Reaches
        (Progress.Spares modified.term.id) (some (.ok ())) last ∨
      modified.Skips raw start last)) ∨
    ∃ fault, result = .error fault ∧
      (∀ reason formula command, fault ≠ .modifier reason formula command) ∧
      (runModifier modified raw start).Reaches (Progress.Spares modified.term.id)
        (some (.error fault)) last := by
  rw [tryModifier_eq] at reaches
  rcases Step.Reaches.of_andThen reaches with ⟨given, tried, runs, rest⟩ | ⟨none, _⟩
  · cases given with
    | ok done =>
      obtain ⟨is, rfl⟩ := Step.Reaches.of_done rest
      exact .inl ⟨Option.some.inj is, .inl runs⟩
    | error fault =>
      by_cases refused : ∃ reason formula command, fault = .modifier reason formula command
      · rcases refused with ⟨reason, formula, command, rfl⟩
        rcases afterModifier_of_refused lenient modified.term raw
          (start.ledger.term modified.term.id).outcomes reason formula command tried with
          ⟨message, skips⟩
        rw [skips] at rest
        obtain ⟨is, rfl⟩ := Step.Reaches.of_done rest
        have revises := revises_of_runModifier_fails terms runs
        exact .inl ⟨Option.some.inj is, .inr ⟨⟨_, _, _, tried, message, runs, rfl⟩,
          revises.undoing raw message⟩⟩
      · have other : ∀ reason formula command, fault ≠ .modifier reason formula command :=
          fun reason formula command is => refused ⟨reason, formula, command, is⟩
        rw [afterModifier_of_fault (.inr other)] at rest
        obtain ⟨is, rfl⟩ := Step.Reaches.of_done rest
        exact .inr ⟨fault, Option.some.inj is, other, runs⟩
  · cases none

/-- A modifier that is refused is skipped: a chain that meets too many matches leaves no result and
no mark. -/
theorem tryModifier_skips (lenient : context.lenient = true) {raw : Json} {tried : Progress}
    {reason : ModifierReason} {formula command : String}
    (refused : (runModifier modified raw start).Reaches (Progress.Spares modified.term.id)
      (some (.error (.modifier reason formula command))) tried) :
    ∃ after, (context.tryModifier modified raw start).Reaches (Progress.Spares modified.term.id)
        (some (.ok ())) after ∧
      start.Spares modified.term.id after ∧ after.draws = tried.draws := by
  rcases afterModifier_of_refused lenient modified.term raw
    (start.ledger.term modified.term.id).outcomes reason formula command tried with
    ⟨message, skips⟩
  refine ⟨_, ?_, (revises_of_runModifier_fails terms refused).undoing raw message, rfl⟩
  rw [tryModifier_eq]
  refine refused.andThen ?_
  rw [skips]
  exact .done _ _

/-- Modifiers in a row take such a course, whatever is drawn for them. -/
theorem runModifiers_course (lenient : context.lenient = true)
    (reaches : (context.runModifiers modified modifiers start).Reaches
      (Progress.Spares modified.term.id) (some result) last) :
    ∃ kept, modified.Course modifiers kept start last result := by
  induction modifiers generalizing start with
  | nil =>
    obtain ⟨is, rfl⟩ := Step.Reaches.of_done reaches
    cases is
    exact ⟨[], .ended last⟩
  | cons raw rest ih =>
    rcases runModifiers_cons reaches with ⟨nameless, rfl, rfl⟩ | ⟨fault, rfl, fails⟩ |
      ⟨middle, tries, later⟩
    · exact ⟨[], .unnamed nameless⟩
    · rcases tryModifier_cases terms lenient fails with ⟨is, _⟩ | ⟨_, is, other, runs⟩
      · cases is
      · cases is
        exact ⟨[], .stopped runs other⟩
    · rcases ih later with ⟨kept, course⟩
      rcases tryModifier_cases terms lenient tries with ⟨_, runs | skips⟩ | ⟨_, is, _⟩
      · exact ⟨raw :: kept, .carriedOut runs course⟩
      · exact ⟨kept, .skipped skips course⟩
      · cases is

end

variable {context} in
/-- Where failing modifiers are skipped, the modifiers of dice or of a pool come to an end whatever
is drawn, and no refusal of a modifier escapes.  Each modifier is carried out or leaves the term as
it was before its turn, however far it had got.  So the effect on the term is that of the modifiers
that succeed when it is their turn.  A chain for which there would be too many rolls leaves no
result and no mark behind; only what was drawn for it is lost. -/
theorem modifiers_whole_or_nothing (lenient : context.lenient = true) {modified : Modified}
    (terms : modified.IsTerm context) (modifiers : List Json) (start : Progress) :
    let others := Progress.Spares modified.term.id
    let work := context.runModifiers modified modifiers start
    (∃ result last, work.Reaches others (some result) last) ∧
    (∀ result last, work.Reaches others (some result) last →
      (∀ reason formula command, result ≠ .error (.modifier reason formula command)) ∧
      ∃ kept, kept.Sublist modifiers ∧ modified.Course modifiers kept start last result ∧
        (result = .ok () → modified.Effect kept (start.ledger.term modified.term.id)
          (last.ledger.term modified.term.id))) ∧
    ∀ raw cap formula command tried,
      (runModifier modified raw start).Reaches others
        (some (.error (.modifier (.tooManyRolls cap) formula command))) tried →
      ∃ after, (context.tryModifier modified raw start).Reaches others (some (.ok ())) after ∧
        after.ledger.term modified.term.id = start.ledger.term modified.term.id ∧
        after.draws = tried.draws := by
  intro others work
  refine ⟨Step.Reaches.exists_done Progress.Spares.refl work, fun result last reaches => ?_,
    fun raw cap formula command tried refused => tryModifier_skips terms lenient refused⟩
  rcases runModifiers_course terms lenient reaches with ⟨kept, course⟩
  exact ⟨course.not_modifier, kept, course.sublist, course, course.effect⟩

/-- A context in which a six is drawn and a chain may roll once, but may be skipped. -/
def skippingChains : Context := { sixThenOnes with lenient := true, maxChainRolls := 1 }

/-- Whether one value has been drawn, the second result is kept, and nothing has exploded. -/
def keepsSecond (last : Progress) : Bool :=
  last.draws == 1 &&
    (last.ledger.outcomes twoDice.tag.id).map Outcome.isActive == [false, true] &&
    (last.ledger.outcomes twoDice.tag.id).all fun outcome => !outcome.exploded.isSet

/-- The six explodes into another one, for which the chain may not roll any more.  It is skipped:
the new six is gone and the first one has not exploded when the lowest result is kept, but one value
has been drawn. -/
theorem skipped_explosion :
    skippingChains.lenient = true ∧
    Modified.IsTerm skippingChains (skippingChains.modifiedDice twoDice) ∧
    ∃ last kept,
      skippingChains.runModifiers (skippingChains.modifiedDice twoDice) [.string "x", .string "kl"]
        sixAndThree = .done (.ok ()) last ∧
      (skippingChains.modifiedDice twoDice).Course [.string "x", .string "kl"] kept sixAndThree last
        (.ok ()) ∧
      last.draws = 1 ∧
      (last.ledger.outcomes twoDice.tag.id).map Outcome.isActive = [false, true] ∧
      ((last.ledger.outcomes twoDice.tag.id).all fun outcome => !outcome.exploded.isSet) = true := by
  have terms : Modified.IsTerm skippingChains (skippingChains.modifiedDice twoDice) := .dice twoDice
  have computed : (skippingChains.runModifiers (skippingChains.modifiedDice twoDice)
      [.string "x", .string "kl"] sixAndThree).succeedsWith keepsSecond = true := by
    decide +kernel
  rcases Step.exists_of_succeedsWith computed (Progress.Spares twoDice.tag.id) with
    ⟨last, run, reaches, kept⟩
  rcases (modifiers_whole_or_nothing rfl terms _ sixAndThree).2.1 _ _ reaches with
    ⟨_, carriedOut, _, course, _⟩
  simp only [keepsSecond, Bool.and_eq_true, beq_iff_eq] at kept
  exact ⟨rfl, terms, last, carriedOut, run, course, kept.1.1, kept.1.2, kept.2⟩

end Context
end DiceNotation
