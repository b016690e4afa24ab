import DiceNotation.Proofs.Evaluation.Frame
import DiceNotation.Proofs.Number.Products
import DiceNotation.Proofs.Roll.Ranges

namespace DiceNotation

/-!
# Dice that are left to chance

A die has a value at once if nothing but chance decides about it: its amounts are known,
its method asks nobody, and the number of its faces can be multiplied with a share.  Then
rolling it never fails.
-/

/-- Whether a method leaves the values of dice to chance where no resolver is at hand. -/
def Method.isLeftToChance (method : Method) : Bool := method.interactive || method.handler.isNone

/-- Whether an evaluation has nobody to ask, does not mind that, and takes its uniform
values from the half-open unit interval. -/
structure Context.IsAlone (context : Context) : Prop where
  resolver : context.resolver = none
  permissive : context.strict = false
  range : ∀ k, 0 ≤ context.uniform k ∧ context.uniform k < 1

/-- Whether the faces of dice are known, and as many as can be multiplied with a share. -/
def DiceOf.HasModerateFaces (dice : Dice) : Prop :=
  ∃ n, dice.faces = .known n ∧ ∃ x, (Number.int n).toReal = .ok x

/-- Whether the amounts of dice are known, with as many faces as can be multiplied with a
share, and their method leaves them to chance. -/
structure DiceOf.IsLeftToChance (methods : MethodTable) (ledger : Ledger) (dice : Dice) : Prop where
  number : ∃ n, dice.number = .known n
  faces : dice.HasModerateFaces
  method : ∃ method, methods.named (ledger.term dice.tag.id).method = .ok method ∧
    method.isLeftToChance = true

section

variable {α : Type} (P : α → Prop) [DecidablePred P]

instance (result : Except Fault α) : Decidable (∃ a, result = .ok a ∧ P a) :=
  match result with
  | .ok a => decidable_of_iff (P a)
    ⟨fun holds => ⟨a, rfl, holds⟩, fun ⟨_, is, holds⟩ => Except.ok.inj is ▸ holds⟩
  | .error _ => .isFalse nofun

instance (P : Int → Prop) [DecidablePred P] (amount : Operand Term) :
    Decidable (∃ n, amount = .known n ∧ P n) :=
  match amount with
  | .known n => decidable_of_iff (P n)
    ⟨fun holds => ⟨n, rfl, holds⟩, fun ⟨_, is, holds⟩ => Operand.known.inj is ▸ holds⟩
  | .computed _ => .isFalse nofun

end

instance (dice : Dice) : Decidable dice.HasModerateFaces :=
  have (n : Int) : Decidable (∃ x, (Number.int n).toReal = .ok x) :=
    match (Number.int n).toReal with
    | .ok x => .isTrue ⟨x, rfl⟩
    | .error _ => .isFalse nofun
  inferInstanceAs (Decidable (∃ n, dice.faces = .known n ∧ ∃ x, (Number.int n).toReal = .ok x))

instance (methods : MethodTable) (ledger : Ledger) (dice : Dice) :
    Decidable (dice.IsLeftToChance methods ledger) :=
  decidable_of_iff ((∃ n, dice.number = .known n ∧ True) ∧ dice.HasModerateFaces ∧
      ∃ method, methods.named (ledger.term dice.tag.id).method = .ok method ∧
        method.isLeftToChance = true)
    ⟨fun ⟨⟨n, known, _⟩, faces, method⟩ => ⟨⟨n, known⟩, faces, method⟩,
      fun left => ⟨left.number.imp fun _ known => ⟨known, trivial⟩, left.faces, left.method⟩⟩

namespace DiceOf

variable {methods : MethodTable} {ledger : Ledger} {dice : Dice}

/-- The range of sound dice with known faces has as many results as they have faces. -/
theorem IsSound.range (sound : dice.IsSound) {n : Int} (faces : dice.faces = .known n) :
    ∃ greatest : Int, ledger.maximumValue dice = .ok (.ofInt greatest) ∧
      greatest - dice.kind.minimum + 1 = n ∧ dice.kind.minimum ≤ greatest := by
  have fixed (count : Nat) (is : dice.kind.fixedFaces? = some count) : n = count := by
    have known := sound.fixed count is
    rw [faces] at known
    exact Operand.known.inj known
  have some : 1 ≤ n := by
    have bound := sound.faces
    rw [faces] at bound
    exact bound
  have known : ledger.amount dice.faces = .ok (.ofInt n) := by rw [faces]; rfl
  rcases (sound.isRanged known).known with coin | fate | ⟨numbered, m, same⟩
  · rw [fixed 2 (by rw [coin]; rfl), coin]
    exact ⟨1, by unfold Ledger.maximumValue; rw [coin]; rfl, rfl, by decide⟩
  · rw [fixed 3 (by rw [fate]; rfl), fate]
    exact ⟨1, by unfold Ledger.maximumValue; rw [fate]; rfl, rfl, by decide⟩
  · rw [numbered]
    exact ⟨n, maximumValue_numbered numbered known, Int.sub_add_cancel n 1, some⟩

end DiceOf

namespace Context

open Evaluation

variable {context : Context} {dice : Dice} {progress : Progress}

/-- A share below one picks a result of dice whose faces can be multiplied with a share. -/
theorem mapUniform_ok {ledger : Ledger} (moderate : dice.HasModerateFaces) (sound : dice.IsSound)
    {u : Float} (above : 0 ≤ u) (below : u < 1) :
    ∃ n : Int, ledger.mapUniform dice (.number (.real u)) = .ok (.ofInt n) := by
  rcases moderate with ⟨faces, known, x, converted⟩
  rcases @DiceOf.IsSound.range ledger dice sound faces known with ⟨greatest, maximum, size, some⟩
  rw [← size] at converted
  rcases Number.pickUniform_ok some above below converted with ⟨n, picked⟩
  refine ⟨n, ?_⟩
  unfold Ledger.mapUniform
  rw [maximum]
  change (do
    let size ← liftNumber (rangeSize dice.kind.minimum (.int greatest))
    let u ← uniformNumber size (.number (.real u))
    (liftNumber (pickUniform dice.kind.minimum (.int greatest) u)).map Json.number) = _
  change (liftNumber (pickUniform dice.kind.minimum (.int greatest) (.real u))).map Json.number = _
  rw [picked]
  rfl

theorem naming_eq {α : Type} (written : (Term.dice dice).hasFormula = true)
    (work : Evaluation α) : naming dice work = work := if_pos written

section

variable (alone : context.IsAlone) (written : (Term.dice dice).hasFormula = true)
include alone written

theorem askOutside_null (name : Json) (reroll explode : Bool) :
    ∃ later, context.askOutside dice name reroll explode progress = .done (.ok .null) later ∧
      later.ledger = progress.ledger := by
  have reported (reason : String) : ∃ later,
      reportDigital dice reason progress = .done (.ok .null) later ∧
        later.ledger = progress.ledger := by
    unfold reportDigital
    rw [naming_eq written]
    exact ⟨_, rfl, rfl⟩
  unfold askOutside
  rw [alone.permissive, alone.resolver]
  split
  · exact reported _
  · split
    · exact ⟨progress, rfl, rfl⟩
    · exact reported _

/-- Nobody gives a value for dice that are left to chance. -/
theorem askMethod_null {name : Json} {method : Method}
    (named : context.methods.named name = .ok method) (left : method.isLeftToChance = true)
    (reroll explode : Bool) :
    ∃ later, context.askMethod dice name reroll explode progress = .done (.ok .null) later ∧
      later.ledger = progress.ledger := by
  have found : (lift (context.methods.named name) : Evaluation Method) progress =
      .done (.ok method) progress := by
    rw [named]
    rfl
  unfold askMethod
  rw [bind_done found]
  unfold Method.isLeftToChance at left
  cases interactive : method.interactive with
  | true => exact askOutside_null alone written name reroll explode
  | false =>
    rw [interactive] at left
    rw [if_neg Bool.false_ne_true, Option.isNone_iff_eq_none.1 left]
    exact ⟨progress, rfl, rfl⟩

end

section

variable {made : Ledger} (alone : context.IsAlone) (sound : dice.IsSound)
  (left : dice.IsLeftToChance context.methods made)
  (same : (progress.ledger.term dice.tag.id).method = (made.term dice.tag.id).method)
include alone sound left same

/-- A die that is left to chance shows an integer. -/
theorem draw_ok (reroll explode : Bool) :
    ∃ (n : Int) (later : Progress),
      context.draw dice reroll explode progress = .done (.ok (.ofInt n)) later ∧
        later.ledger = progress.ledger := by
  rcases left.method with ⟨method, named, toChance⟩
  rw [← same] at named
  have answered : ∃ later, context.askMethod dice _ reroll explode progress =
      .done (.ok .null) later ∧ later.ledger = progress.ledger :=
    askMethod_null alone sound.hasFormula named toChance reroll explode
  rcases answered with ⟨asked, given, kept⟩
  rcases alone.range asked.draws with ⟨above, below⟩
  have mapped : ∃ n : Int, asked.ledger.mapUniform dice _ = .ok (.ofInt n) :=
    mapUniform_ok left.faces sound above below
  rcases mapped with ⟨n, picked⟩
  have reads : methodOf dice progress =
      .done (.ok (progress.ledger.term dice.tag.id).method) progress := rfl
  refine ⟨n, { asked with draws := asked.draws + 1 }, ?_, kept⟩
  unfold draw
  rw [bind_done reads, bind_done given]
  change Step.done
    (asked.ledger.mapUniform dice (.number (.real (context.uniform asked.draws)))) _ = _
  rw [picked]

/-- Where chance plays no part the die has its least or its greatest value. -/
theorem nextResult_ok (reroll explode : Bool) :
    ∃ (n : Int) (later : Progress),
      context.nextResult dice reroll explode progress = .done (.ok (.ofInt n)) later ∧
        later.ledger = progress.ledger := by
  unfold nextResult
  split
  · exact ⟨dice.kind.minimum, progress, rfl, rfl⟩
  · split
    · rcases left.faces with ⟨faces, known, _⟩
      rcases @DiceOf.IsSound.range progress.ledger dice sound faces known with
        ⟨greatest, maximum, _⟩
      refine ⟨greatest, progress, ?_, rfl⟩
      change Step.done (progress.ledger.maximumValue dice) progress = _
      rw [maximum]
    · exact draw_ok alone sound left same reroll explode

/-- Dice that are not evaluated yet can be rolled once more, which adds an integer. -/
theorem rollOne_ok (unfinished : progress.ledger.isEvaluated (.dice dice) = false)
    (reroll explode : Bool) :
    ∃ (n : Int) (outcome : Outcome) (later : Progress),
      context.rollOne dice reroll explode progress = .done (.ok outcome) later ∧
        later.ledger = Resolver.addOutcome progress.ledger dice (.ofInt n) := by
  rcases nextResult_ok alone sound left same reroll explode with ⟨n, rolled, given, kept⟩
  have reads : (read fun ledger => .ok (ledger.isEvaluated (.dice dice))) progress =
      .done (.ok false) progress := by
    rw [← unfinished]
    rfl
  refine ⟨n, { value := .ofInt n },
    rolled.updateLedger fun ledger => Resolver.addOutcome ledger dice (.ofInt n), ?_, ?_⟩
  · unfold rollOne
    rw [bind_done reads, if_neg Bool.false_ne_true, bind_done given]
    rfl
  · change Resolver.addOutcome rolled.ledger dice (.ofInt n) = _
    rw [kept]

end

end Context
end DiceNotation
