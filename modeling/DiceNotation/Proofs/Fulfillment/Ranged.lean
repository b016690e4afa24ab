import DiceNotation.Proofs.Evaluation.Rolling
import DiceNotation.Proofs.Fulfillment.Asking
import DiceNotation.Proofs.Roll.Ranges

namespace DiceNotation

/-!
# Asking for ranged dice

A resolver is asked for dice whose faces are known, in advance for those whose amounts
are numbers, and during the evaluation for those whose amounts have just been
evaluated.  What has been evaluated lasts.  So it is known at any time of all dice that
are outstanding which values they can show.
-/

namespace Progress

/-- Whether a condition holds of all dice that are outstanding. -/
def Outstanding (P : Dice → Prop) (progress : Progress) : Prop :=
  ∀ id, ∀ descriptor ∈ (progress.resolvers.get id).outstanding, P descriptor.dice

namespace Outstanding

variable {P P' : Dice → Prop} {progress later : Progress} {resolver : Resolver}

theorem imp (holds : progress.Outstanding P) (weaker : ∀ dice, P dice → P' dice) :
    progress.Outstanding P' :=
  fun id descriptor member => weaker _ (holds id descriptor member)

theorem of_resolvers (holds : progress.Outstanding P)
    (same : later.resolvers = progress.resolvers) : later.Outstanding P := by
  unfold Outstanding
  rw [same]
  exact holds

/-- A resolver may have less outstanding than before. -/
theorem fewer (holds : progress.Outstanding P) {change : ResolverState → ResolverState}
    (fewer : (change (progress.resolver resolver)).outstanding ⊆
      (progress.resolver resolver).outstanding) :
    (progress.updateResolver resolver change).Outstanding P := by
  intro id descriptor member
  rw [resolvers_updateResolver] at member
  split at member
  · rename_i same
    subst same
    exact holds resolver.id descriptor (fewer member)
  · exact holds id descriptor member

theorem add (holds : progress.Outstanding P) {dice : Dice} (here : P dice) (method : Json)
    (isNew reroll explode : Bool) :
    (resolver.add dice method isNew reroll explode progress).2.Outstanding P := by
  intro id descriptor member
  rw [resolvers_add] at member
  split at member
  · rcases List.mem_append.1 member with before | new
    · exact holds id descriptor before
    · rw [List.mem_singleton.1 new]
      exact here
  · exact holds id descriptor member

theorem addMany (holds : progress.Outstanding P) {dice : Dice} (here : P dice) (method : Json)
    (count : Nat) : (resolver.addMany dice method count progress).2.Outstanding P := by
  induction count generalizing progress with
  | zero => exact holds
  | succ count ih => exact ih (holds.add here method false false false)

theorem addTerm (holds : progress.Outstanding P) {dice : Dice} (here : P dice)
    {requests : List Request} (asked : resolver.addTerm dice progress = .ok (requests, later)) :
    later.Outstanding P := by
  unfold Resolver.addTerm at asked
  split at asked
  · cases asked
  · split at asked
    · cases asked
    · rename_i count _
      have whole : (resolver.addMany dice (progress.ledger.term dice.tag.id).method count
          progress).2.Outstanding P := holds.addMany here _ count
      rwa [Except.ok.inj asked] at whole

/-- In advance only dice are asked for whose amounts are numbers. -/
theorem addAll (holds : progress.Outstanding P) (resolver : Resolver) (methods : MethodTable)
    {dice : List Dice} (ready : ∀ d ∈ dice, d.isReady = true → P d) :
    (resolver.addAll methods dice progress).2.Outstanding P := by
  induction dice generalizing progress with
  | nil => exact holds
  | cons first rest ih =>
    have ready : (first.isReady = true → P first) ∧ ∀ d ∈ _, d.isReady = true → P d :=
      List.forall_mem_cons.1 ready
    unfold Resolver.addAll
    simp only
    split
    · rename_i known
      split
      · exact holds
      · split
        · split
          · exact holds
          · rename_i asked
            exact ih (holds.addTerm (ready.1 (Bool.and_eq_true_iff.1 known).1) asked) ready.2
        · exact ih holds ready.2
    · exact ih holds ready.2

end Outstanding

/-- Whether requests are in order, and it is known of all dice that are outstanding
which values they can show. -/
structure Ranged (progress : Progress) : Prop where
  tidy : progress.Tidy
  dice : progress.Outstanding (·.IsRanged progress.ledger)

namespace Ranged

variable {progress later : Progress} {resolver : Resolver}

theorem ofLedger (ledger : Ledger) : (Progress.ofLedger ledger).Ranged where
  tidy := Tidy.ofLedger ledger
  dice _ _ member := (List.not_mem_nil member).elim

/-- What has nothing to do with requests may happen as long as what was evaluated lasts. -/
theorem of_beside (ranged : progress.Ranged) (beside : progress.Beside later)
    (lasts : progress.ledger.Lasts later.ledger) : later.Ranged where
  tidy := ranged.tidy.of_beside beside
  dice := (ranged.dice.imp fun _ here => here.of_lasts lasts).of_resolvers beside.resolvers

theorem add (ranged : progress.Ranged) (isOpen : (progress.resolver resolver).closed = false)
    {dice : Dice} (here : dice.IsRanged progress.ledger) (method : Json)
    (isNew reroll explode : Bool) :
    (resolver.add dice method isNew reroll explode progress).2.Ranged where
  tidy := ranged.tidy.add isOpen dice method isNew reroll explode
  dice := ranged.dice.add here method isNew reroll explode

theorem addTerm (ranged : progress.Ranged) {dice : Dice} (here : dice.IsRanged progress.ledger)
    {requests : List Request} (asked : resolver.addTerm dice progress = .ok (requests, later)) :
    later.Ranged where
  tidy := (Forward.addTerm ranged.tidy asked).tidy
  dice := by
    rw [Resolver.ledger_addTerm asked]
    exact ranged.dice.addTerm here asked

theorem addAll (ranged : progress.Ranged) (resolver : Resolver) (methods : MethodTable)
    {dice : List Dice} (sound : ∀ d ∈ dice, d.IsSound) :
    (resolver.addAll methods dice progress).2.Ranged where
  tidy := (Forward.addAll ranged.tidy resolver methods dice).tidy
  dice := by
    rw [Resolver.ledger_addAll]
    refine ranged.dice.addAll resolver methods fun d member ready => ?_
    have known := (Bool.and_eq_true_iff.1 ready).2
    cases faces : d.faces with
    | known n => exact (sound d member).isRanged (n := n) (by rw [faces]; rfl)
    | computed term =>
      rw [faces] at known
      cases known

theorem checkDone (ranged : progress.Ranged) (resolver : Resolver) :
    (resolver.checkDone progress).2.Ranged where
  tidy := (Forward.checkDone ranged.tidy resolver).tidy
  dice := by
    rw [Resolver.ledger_checkDone]
    exact ranged.dice.of_resolvers (resolver.resolvers_checkDone progress)

theorem expecting (ranged : progress.Ranged) (resolver : Resolver) :
    (resolver.expecting progress).Ranged where
  tidy := ranged.tidy.expect resolver
  dice := by
    have same : progress.ask.2.Outstanding (·.IsRanged progress.ledger) := ranged.dice
    exact same.fewer (List.Subset.refl _)

theorem close (ranged : progress.Ranged) (resolver : Resolver) :
    (resolver.close progress).Ranged where
  tidy := ranged.tidy.close resolver
  dice := by
    rw [resolver.ledger_close]
    cases state : (progress.resolver resolver).closed with
    | true =>
      rw [close_of_closed state]
      exact ranged.dice
    | false =>
      have emptied : (progress.emptied resolver).Outstanding (·.IsRanged progress.ledger) := by
        refine Outstanding.fewer ranged.dice ?_
        exact List.nil_subset _
      exact emptied.of_resolvers ((close_of_open state).resolvers.trans (resolvers_cancel ..))

theorem firm_deliver {number : Number} {remaining : List Descriptor} {descriptor : Descriptor} :
    progress.ledger.Firm (resolver.deliver remaining descriptor number progress).ledger := by
  rw [Resolver.ledger_deliver]
  split
  · exact .refl _
  · exact .updateTerm _ fun done => done

theorem deliver (ranged : progress.Ranged) {method denomination : Json} {number : Number}
    {before after : List Descriptor} {descriptor : Descriptor}
    (takes : resolver.Takes method denomination number progress before descriptor after) :
    (resolver.deliver (before ++ after) descriptor number progress).Ranged := by
  have firm : progress.ledger.Firm
      (resolver.deliver (before ++ after) descriptor number progress).ledger := firm_deliver
  have tidy := (Forward.checkDone (ranged.tidy.taking number takes.kept) resolver).tidy
  refine ⟨tidy, ?_⟩
  have dice := ranged.dice.imp fun _ here => here.of_lasts firm.lasts
  intro id further member
  rw [Resolver.resolvers_deliver] at member
  split at member
  · rename_i same
    subst same
    refine dice resolver.id further ?_
    change further ∈ (progress.resolver resolver).outstanding
    rw [takes.kept]
    rcases List.mem_append.1 member with first | last
    · exact List.mem_append_left _ first
    · exact List.mem_append_right _ (List.mem_cons_of_mem _ last)
  · exact dice id further member

end Ranged
end Progress

/-! ## The evaluation of dice, terms and rolls -/

/-- What was evaluated lasts, a roll is left alone once its evaluation has begun, and
what is asked for is ranged if certain dice are. -/
structure Progress.Asks (may : Dice → Prop) (before after : Progress) : Prop where
  firm : before.ledger.Firm after.ledger
  ranged : before.Ranged → (∀ dice, may dice → dice.IsRanged before.ledger) → after.Ranged

namespace Progress.Asks

variable {may : Dice → Prop} {start middle last : Progress}

theorem refl (progress : Progress) : Asks may progress progress := ⟨.refl _, fun ranged _ => ranged⟩

theorem trans (asks : Asks may start middle) (further : Asks may middle last) :
    Asks may start last where
  firm := asks.firm.trans further.firm
  ranged ranged known := further.ranged (asks.ranged ranged known) fun dice member =>
    (known dice member).of_lasts asks.firm.lasts

theorem of_firm (firm : start.ledger.Firm last.ledger) (beside : start.Beside last) :
    Asks may start last :=
  ⟨firm, fun ranged _ => ranged.of_beside beside firm.lasts⟩

/-- A roll that was started and left alone since then may get its total. -/
theorem finishing {roll : Roll} (untouched : (start.ledger.roll roll.id).phase = .unevaluated)
    (since : Asks may (start.starting roll) last) (total : Json) :
    Asks may start (last.finishing roll total) := by
  have started : start.ledger.Firm (start.starting roll).ledger := .updateRoll untouched _
  have whole : Asks may start last := (of_firm started ⟨rfl, rfl, rfl, rfl⟩).trans since
  have begun : (last.ledger.roll roll.id).phase = .evaluating := by
    have phase := start.rollPhase_starting roll
    rw [since.firm.roll roll.id (by rw [phase]; exact nofun), phase]
  have lasts : last.ledger.Lasts (last.finishing roll total).ledger :=
    .updateRoll (by rw [begun]; exact nofun) _
  constructor
  · refine ⟨fun id done => lasts.term id (whole.firm.term id done), fun id already => ?_⟩
    have different : roll.id ≠ id := by
      rintro rfl
      exact already untouched
    change (last.ledger.updateRoll roll.id _).roll id = _
    rw [Ledger.roll_updateRoll, if_neg different, whole.firm.roll id already]
  · exact fun ranged known => (whole.ranged ranged known).of_beside ⟨rfl, rfl, rfl, rfl⟩ lasts

end Progress.Asks

/-- The rule that only ranged dice are asked for, if the dice are ranged from the start
that may be asked for. -/
def FrameRule.asking (may : Dice → Prop) : FrameRule fun _ => True where
  holds := Progress.Asks may
  refl := .refl
  trans := .trans
  term {_} _ _ kept _ :=
    .of_firm (.updateTerm _ fun done => (kept _).2.trans done) ⟨rfl, rfl, rfl, rfl⟩
  enter _ untouched :=
    .of_firm (.updateTerm _ fun done => by cases untouched.symm.trans done) ⟨rfl, rfl, rfl, rfl⟩
  leave _ _ := .of_firm (.updateTerm _ fun _ => rfl) ⟨rfl, rfl, rfl, rfl⟩
  start _ untouched := .of_firm (.updateRoll untouched _) ⟨rfl, rfl, rfl, rfl⟩
  finish _ untouched since total := .finishing untouched since total
  aside only := .of_firm (only.ledger ▸ .refl _)
    ⟨only.resolvers, only.answers, only.answered, only.requests⟩
  asks _ dice := may dice
  waits _ := Progress.Asks may
  resumes _ asked _ later := asked.ledger.Firm later.ledger ∧ later.Ranged
  waits_trans := .trans
  resume waits resumes := ⟨waits.firm.trans resumes.1, fun _ _ => resumes.2⟩
  ask allowed _ isOpen method reroll explode :=
    ⟨.refl _, fun ranged known => ranged.add isOpen (known _ allowed) method true reroll explode⟩

/-- A run keeps to the rule without exceptions that keeps to it with dice that are ranged
from its start. -/
theorem Step.Keeps.of_ranged {α : Type} {may : Dice → Prop} {start : Progress} {step : Step α}
    (keeps : step.Keeps (FrameRule.asking may) start)
    (known : ∀ dice, may dice → dice.IsRanged start.ledger) :
    step.Keeps (FrameRule.asking fun _ => False) start := by
  induction step with
  | done result last => exact ⟨keeps.firm, fun ranged _ => keeps.ranged ranged known⟩
  | wait request asked resume ih =>
    refine ⟨⟨keeps.1.firm, fun ranged _ => keeps.1.ranged ranged known⟩, ?_⟩
    exact fun answer later resumes => ih answer later (keeps.2 answer later resumes)

namespace Context

/-- Sound dice are ranged when they are rolled, since their amounts are integers. -/
theorem rollDice_asks (context : Context) {dice : Dice} (sound : dice.IsSound) :
    Evaluation.Keeps (FrameRule.asking fun _ => False) (context.rollDice dice) := by
  intro progress
  rcases context.rollDice_cases dice progress with
    ⟨fault, fails⟩ | ⟨number, faces, _, known, _, rolls⟩
  · rw [fails]
    exact (FrameRule.asking _).refl progress
  · rw [rolls]
    have keeps : Evaluation.Keeps (FrameRule.asking (· = dice)) _ :=
      context.keeps_rollUpTo_modified (fun _ _ => rfl) trivial number
    refine (keeps progress).of_ranged ?_
    rintro _ rfl
    exact sound.isRanged known

/-- Whether a term is sound if it is dice. -/
def SoundDice (term : Term) : Prop := ∀ dice, term = .dice dice → dice.IsSound

theorem follows_asking (context : Context) :
    context.Follows (FrameRule.asking fun _ => False) SoundDice fun _ => True where
  term _ := trivial
  roll _ := trivial
  dice sound := context.rollDice_asks (sound _ rfl)

end Context
end DiceNotation
