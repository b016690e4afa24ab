import DiceNotation.Proofs.Evaluation.Advancing
import DiceNotation.Proofs.Fulfillment.Finality
import DiceNotation.Proofs.Roll.Deriving

namespace DiceNotation

/-!
# The life of a roll

A roll is evaluated, it is evaluated in parts, its dice are rolled by themselves, and other rolls
are derived from it, in any order and whether this succeeds or fails.  Throughout, what is not
evaluated has no total, what has begun cannot be begun again, and what is evaluated stays as it
is.  The rolls that are derived leave everything that they come from alone.

Whatever is evaluated has a total as far as its outcomes can be summed up.
-/

/-- A roll with all rolls inside it. -/
def RollOf.rolls (roll : Roll) : List Roll :=
  roll :: (Term.partsFrom roll.terms).flatMap Term.rolls

/-- What holds of every roll in a term holds of those directly inside it. -/
theorem Term.Throughout.rolls {P : Term → Prop} {Q : Roll → Prop} {term : Term}
    (holds : term.Throughout P Q) : ∀ roll ∈ term.rolls, Q roll := by
  have all {rolls : List Roll} (holds : RollsThroughout P Q rolls) : ∀ roll ∈ rolls, Q roll := by
    induction rolls with
    | nil => exact fun _ member => (List.not_mem_nil member).elim
    | cons roll rest ih => exact List.forall_mem_cons.2 ⟨holds.1, ih holds.2.2⟩
  cases term with
  | group tag roll => exact List.forall_mem_singleton.2 holds.2.1
  | function tag fn rolls => exact all holds.2
  | pool p => exact all holds.2
  | _ => exact fun _ member => (List.not_mem_nil member).elim

/-- What holds of a roll and throughout its terms holds of all rolls inside it. -/
theorem RollOf.forall_mem_rolls {P : Term → Prop} {Q : Roll → Prop} {roll : Roll} (here : Q roll)
    (row : RowThroughout P Q roll.terms) : ∀ part ∈ roll.rolls, Q part := by
  refine List.forall_mem_cons.2 ⟨here, fun part member => ?_⟩
  rcases List.mem_flatMap.1 member with ⟨term, inside, among⟩
  exact (row.of_mem_partsFrom inside).rolls part among

/-! ## The region of a roll -/

namespace RollOf.IsMade

variable {setup : Setup} {first : Nat} {ledger : Ledger} {roll : Roll}

/-- The terms of a roll that was made. -/
def region (isMade : roll.IsMade setup first ledger) : Region where
  term term := term ∈ Term.partsFrom roll.terms
  inside := Between first ledger.next
  here member := by
    have between := isMade.spans.1.apart.between _ member
    exact ⟨between.1, Nat.lt_trans between.2 isMade.spans.bounds.2⟩
  sound member := (isMade.row.of_mem_partsFrom member).here.sound
  once member memberToo same := isMade.spans.eq_of_id member memberToo same
  children member _ inside := Term.mem_partsFrom_of_mem_children member inside
  rolls member inner among := by
    have around := isMade.spans.inside.row.of_mem_partsFrom member
    exact ⟨around.rolls inner among, (isMade.row.of_mem_partsFrom member).rolls inner among⟩

variable (isMade : roll.IsMade setup first ledger)

theorem holds : ∀ part ∈ roll.rolls, isMade.region.Holds part := by
  refine List.forall_mem_cons.2 ⟨?_, fun part member => ?_⟩
  · exact ⟨isMade.spans.inside.around, isMade.sound, fun _ member =>
      Term.mem_partsFrom_of_mem member⟩
  · rcases List.mem_flatMap.1 member with ⟨term, inside, among⟩
    exact Region.holds_of_mem inside among

/-- Nothing is recorded of a roll when it is made, and nothing in it is evaluated. -/
theorem orderly : isMade.region.Orderly ledger where
  records term member := by
    have inside := isMade.region.here member
    have blank : ledger.outcomes term.id = [] := by
      unfold Ledger.outcomes
      rw [(isMade.fresh term.id inside.1 inside.2).1]
    rw [Term.IsRecorded, blank]
    exact .inr nofun
  concludes term member done := by
    have inside := isMade.region.here member
    cases (isMade.waits.isEvaluated inside.1 inside.2).symm.trans done
  totals id inside done := by
    cases (isMade.waits.rollPhase inside.1 inside.2).symm.trans done

end RollOf.IsMade

/-! ## Calls -/

/-- The progress after a construction.  One that fails leaves nothing behind. -/
def Progress.constructing {α : Type} (construction : Build α) (progress : Progress) : Progress :=
  match construction progress.ledger with
  | .ok (_, ledger) => progress.updateLedger fun _ => ledger
  | .error _ => progress

namespace RollOf

/-- What is derived from a roll, a roll inside it, or one of its terms. -/
inductive Derives (roll : Roll) : Progress → Progress → Prop
  | clone {part : Roll} (inside : part ∈ roll.rolls) (setup : Setup) (progress : Progress) :
      Derives roll progress (progress.constructing (Build.clone setup part))
  | reroll {part copy : Roll} {cloned : Ledger} (inside : part ∈ roll.rolls) {setup : Setup}
      {progress : Progress} (clones : Build.clone setup part progress.ledger = .ok (copy, cloned))
      (options : Options) {surroundings : Surroundings} (unaided : surroundings.resolver = none) :
      Derives roll progress
        (copy.run options surroundings (progress.updateLedger fun _ => cloned)).2
  | alter {part : Roll} (inside : part ∈ roll.rolls) (setup : Setup) (change : Build.Change)
      (progress : Progress) :
      Derives roll progress (progress.constructing (Build.alter setup change part))
  | alterDice {dice : Dice} (inside : .dice dice ∈ Term.partsFrom roll.terms) (setup : Setup)
      (change : Build.Change) (progress : Progress) :
      Derives roll progress (progress.constructing (Build.alterDice setup change dice))
  /-- A record is read off the ledger. -/
  | record (progress : Progress) : Derives roll progress progress

/-- A call on a roll, a roll inside it, or one of its terms, without a resolver. -/
inductive Call (roll : Roll) : Progress → Progress → Prop
  | run {part : Roll} (inside : part ∈ roll.rolls) (options : Options)
      {surroundings : Surroundings} (unaided : surroundings.resolver = none) (progress : Progress) :
      Call roll progress (part.run options surroundings progress).2
  | runTerm {term : Term} (inside : term ∈ Term.partsFrom roll.terms) (options : Options)
      {surroundings : Surroundings} (unaided : surroundings.resolver = none) (progress : Progress) :
      Call roll progress (term.run options surroundings progress).2
  | rollOne {dice : Dice} (inside : .dice dice ∈ Term.partsFrom roll.terms) {context : Context}
      (unaided : context.resolver = none) (reroll explode : Bool) (progress : Progress) :
      Call roll progress ((context.rollOne dice reroll explode progress).now dice.formula).2
  | derive {before after : Progress} (derives : roll.Derives before after) : Call roll before after

/-- Calls one after another. -/
abbrev Called (roll : Roll) : Progress → Progress → Prop := Relation.ReflTransGen roll.Call

/-! ## What is derived -/

/-- A run ends where the evaluation stands. -/
theorem run_eq_progress (options : Options) (surroundings : Surroundings) (roll : Roll)
    (progress : Progress) : (roll.run options surroundings progress).2 =
      (roll.attempt options surroundings progress).progress := by
  change ((roll.attempt options surroundings progress).now roll.formula).2 = _
  cases roll.attempt options surroundings progress <;> rfl

/-- Wherever a run ends, it touched nothing but the roll. -/
theorem touched_run (options : Options) (surroundings : Surroundings) {roll : Roll}
    {inside : Identity → Prop} (lies : roll.Inside inside) (progress : Progress) :
    Ledger.Touched inside progress.ledger (roll.run options surroundings progress).2.ledger := by
  have keeps : (roll.attempt options surroundings).Keeps (FrameRule.touched inside) :=
    Evaluation.Keeps.ite (touches_evaluateNow options surroundings lies)
      (touches_evaluate options surroundings lies)
  have kept := keeps progress
  rw [run_eq_progress]
  cases stands : roll.attempt options surroundings progress with
  | done result last =>
    rw [stands] at kept
    exact kept
  | wait request asked resume =>
    rw [stands] at kept
    exact kept.1

/-- What is derived leaves everything alone that is there. -/
theorem Derives.extends {roll : Roll} {before after : Progress}
    (derives : roll.Derives before after) : Ledger.Extends before.ledger after.ledger := by
  have constructing {α : Type} {made : Identity → α → Prop} {construction : Build α}
      (progress : Progress) (spares : ∀ used, Build.Spares used (made used) construction) :
      Ledger.Extends progress.ledger (progress.constructing construction).ledger := by
    unfold Progress.constructing
    split
    · rename_i built
      exact (Build.Spares.extends spares built).1
    · exact .refl _
  cases derives with
  | clone inside setup => exact constructing _ fun _ => Build.spares_clone _
  | @reroll part copy cloned inside setup _ clones options surroundings unaided =>
    rcases Build.Spares.extends (fun _ => Build.spares_clone _) clones with ⟨extended, apart⟩
    have touched := touched_run options surroundings apart (before.updateLedger fun _ => cloned)
    refine ⟨Nat.le_trans extended.next_le touched.next_le, fun id least used => ?_⟩
    have known := Nat.lt_of_lt_of_le used extended.next_le
    exact (extended.same id least used).trans (touched.outside id known (Nat.not_le.2 used))
  | alter inside setup change => exact constructing _ fun _ => Build.spares_alter _ _
  | alterDice inside setup change => exact constructing _ fun _ => Build.spares_alterDice _ _
  | record => exact .refl _

end RollOf

/-! ## What calls keep -/

section

variable {setup : Setup} {first : Nat} {made : Ledger} {roll : Roll} {start before after : Progress}

/-- What is derived from a roll leaves the roll in order. -/
theorem RollOf.Derives.same (derives : roll.Derives before after)
    (used : made.next ≤ before.ledger.next) (id : Identity) (inside : Between first made.next id) :
    Ledger.SameAt before.ledger after.ledger id :=
  derives.extends.same id (Nat.zero_le _) (Nat.lt_of_lt_of_le inside.2 used)

/-- One call on a roll leaves it in order. -/
theorem RollOf.Call.evolves (isMade : roll.IsMade setup first made) (call : roll.Call before after)
    (since : isMade.region.Evolves made before.ledger) :
    isMade.region.Evolves before.ledger after.ledger := by
  cases call with
  | run inside options unaided => exact since.orderly.runRoll (isMade.holds _ inside) unaided
  | runTerm inside options unaided => exact since.orderly.runTerm inside unaided
  | rollOne inside unaided reroll explode =>
    rcases since.orderly.rollOne inside unaided reroll explode with ⟨result, last, run, ended⟩
    rw [run]
    cases result with
    | error fault => exact ended
    | ok outcome => exact ended
  | derive derives =>
    have same (id : Identity) (inside : Between first made.next id) :=
      derives.same since.advances.next_le id inside
    exact ⟨.of_same derives.extends.next_le same, since.orderly.of_same same⟩

/-- Calls on a roll one after another leave it in order. -/
theorem RollOf.Called.evolves (isMade : roll.IsMade setup first made)
    (since : isMade.region.Evolves made before.ledger) (called : roll.Called before after) :
    isMade.region.Evolves before.ledger after.ledger := by
  induction called with
  | refl => exact since.orderly.evolves
  | tail called call ih => exact ih.trans (call.evolves isMade (since.trans ih))

end

/-! ## Lives -/

/-- What is known about a term of a roll at one time, whatever is called until a later time. -/
structure Term.Lives (term : Term) (now later : Progress) : Prop where
  /-- What has begun stays as far as it has come. -/
  moves : (now.ledger.term term.id).phase ≠ .unevaluated →
    (later.ledger.term term.id).phase = (now.ledger.term term.id).phase
  unset : now.ledger.isEvaluated term = false → now.ledger.total term = .ok .null
  /-- An evaluated term has a total as far as its outcomes can be summed up. -/
  set : now.ledger.isEvaluated term = true →
    (∃ value, now.ledger.total term = .ok value ∧ value.IsScalar) ∨
    (∃ dice, term = .dice dice ∧ dice.LacksValue now.ledger) ∨
    ∃ pool, term = .pool pool ∧ now.ledger.total term = .error (.number .overflow)
  stays : now.ledger.isEvaluated term = true →
    later.ledger.term term.id = now.ledger.term term.id ∧
    later.ledger.total term = now.ledger.total term
  /-- What has begun cannot be begun again, and to try it changes nothing. -/
  refuses : (now.ledger.term term.id).phase ≠ .unevaluated →
    ∀ (options : Options) (surroundings : Surroundings), ∃ fault,
      term.run options surroundings now = (.error fault, now) ∧
      ∀ context, options.forTerm surroundings = .ok context →
        fault = .use (.termEvaluated term.formula)
  /-- Evaluated dice cannot be rolled by themselves either. -/
  rests : now.ledger.isEvaluated term = true → ∀ dice, term = .dice dice →
    ∀ (context : Context) (reroll explode : Bool), context.rollOne dice reroll explode now =
      .done (.error (.use (.termNoLongerRolls dice.formula))) now

/-- What is known about a roll at one time, whatever is called until a later time. -/
structure RollOf.Lives (roll : Roll) (now later : Progress) : Prop where
  moves : (now.ledger.roll roll.id).phase ≠ .unevaluated →
    (later.ledger.roll roll.id).phase = (now.ledger.roll roll.id).phase
  unset : now.ledger.isRollEvaluated roll = false → now.ledger.rollTotal roll = .null
  set : now.ledger.isRollEvaluated roll = true → (now.ledger.rollTotal roll).IsScalar
  stays : now.ledger.isRollEvaluated roll = true →
    later.ledger.roll roll.id = now.ledger.roll roll.id ∧
    later.ledger.rollTotal roll = now.ledger.rollTotal roll
  refuses : (now.ledger.roll roll.id).phase ≠ .unevaluated →
    ∀ (options : Options) (surroundings : Surroundings), ∃ fault,
      roll.run options surroundings now = (.error fault, now) ∧
      ∀ context, options.forRoll surroundings = .ok context →
        fault = .use (.rollEvaluated roll.formula)

section

open Evaluation

variable {region : Region} {term : Term} {roll : Roll} {now later : Progress}

/-- The evaluation of a term that has begun fails and changes nothing. -/
theorem Context.evaluateTerm_of_begun (context : Context)
    (begun : (now.ledger.term term.id).phase ≠ .unevaluated) : context.evaluateTerm term now =
      .done (.error (term.blame (.use (.termEvaluated term.formula)))) now := by
  cases term <;>
  · unfold Context.evaluateTerm
    exact ofTerm_of_begun begun _

theorem Term.IsSound.hasFormula (sound : term.IsSound) : term.hasFormula = true := by
  cases term with
  | dice d => exact DiceOf.IsSound.hasFormula sound
  | pool p => exact AreModifiers.areTexts sound
  | _ => rfl

theorem Term.run_of_begun (sound : term.IsSound)
    (begun : (now.ledger.term term.id).phase ≠ .unevaluated) (options : Options)
    (surroundings : Surroundings) : ∃ fault,
      term.run options surroundings now = (.error fault, now) ∧
      ∀ context, options.forTerm surroundings = .ok context →
        fault = .use (.termEvaluated term.formula) := by
  cases valid : options.forTerm surroundings with
  | error fault =>
    refine ⟨fault, ?_, fun _ ended => nomatch ended⟩
    unfold Term.run Term.evaluate
    rw [valid]
    rfl
  | ok context =>
    refine ⟨.use (.termEvaluated term.formula), ?_, fun _ _ => rfl⟩
    have written : (context.synchronous && !term.hasFormula) = false := by
      rw [sound.hasFormula]
      exact Bool.and_false _
    have blamed := context.evaluateTerm_of_begun begun
    rw [Term.blame, if_pos sound.hasFormula] at blamed
    have evaluated : term.evaluate options surroundings now =
        (if context.synchronous && !term.hasFormula then .fail .wrongKind
          else context.evaluateTerm term : Evaluation Unit) now := by
      unfold Term.evaluate
      rw [valid]
      rfl
    unfold Term.run
    rw [evaluated, if_neg (by rw [written]; exact nofun), blamed]
    rfl

theorem RollOf.run_of_begun (begun : (now.ledger.roll roll.id).phase ≠ .unevaluated)
    (options : Options) (surroundings : Surroundings) : ∃ fault,
      roll.run options surroundings now = (.error fault, now) ∧
      ∀ context, options.forRoll surroundings = .ok context →
        fault = .use (.rollEvaluated roll.formula) := by
  by_cases synchronous : surroundings.synchronous = true
  · cases valid : options.forRoll surroundings with
    | error fault =>
      refine ⟨fault, ?_, fun _ ended => nomatch ended⟩
      unfold RollOf.run
      rw [if_pos synchronous]
      unfold RollOf.evaluateNow
      rw [valid]
      rfl
    | ok context =>
      refine ⟨.use (.rollEvaluated roll.formula), ?_, fun _ _ => rfl⟩
      rw [run_of_forRoll synchronous valid, evaluateRoll_of_begun context begun]
      rfl
  · refine ⟨.use (.rollEvaluated roll.formula), ?_, fun _ _ => rfl⟩
    unfold RollOf.run
    rw [if_neg synchronous]
    change (roll.evaluate options surroundings now).now roll.formula = _
    rw [evaluate_of_begun options surroundings begun]
    rfl

theorem Context.rollOne_of_evaluated {dice : Dice} (sound : dice.IsSound)
    (done : now.ledger.isEvaluated (.dice dice) = true) (context : Context)
    (reroll explode : Bool) : context.rollOne dice reroll explode now =
      .done (.error (.use (.termNoLongerRolls dice.formula))) now := by
  have reads : (read fun ledger => .ok (ledger.isEvaluated (.dice dice))) now =
      .done (.ok true) now := by
    rw [← done]
    rfl
  unfold Context.rollOne
  rw [bind_done reads, if_pos rfl, Context.naming, if_pos sound.hasFormula]
  rfl

/-- The terms of a region lead their lives. -/
theorem Region.Evolves.lives (ordered : region.Orderly now.ledger)
    (evolves : region.Evolves now.ledger later.ledger) (known : region.term term) :
    term.Lives now later where
  moves begun := evolves.advances.termPhase term.id (region.here known) begun
  unset waits := by
    unfold Ledger.total
    rw [waits]
    rfl
  set done := by
    have worth := (ordered.concludes term known done).worth
    unfold Ledger.total
    rw [if_pos done]
    exact worth
  stays done := by
    have keeps := evolves.advances.toKeeps
    refine ⟨keeps.term term.id (region.here known) (beq_iff_eq.1 done), ?_⟩
    unfold Ledger.total
    rw [if_pos done, if_pos (keeps.isEvaluated known done)]
    exact keeps.totalOf known done (ordered.concludes term known done).rolls
  refuses begun := Term.run_of_begun (region.sound known) begun
  rests done dice is context := by
    subst is
    exact Context.rollOne_of_evaluated (region.sound known) done context

/-- The rolls of a region lead their lives. -/
theorem Region.Evolves.livesRoll (ordered : region.Orderly now.ledger)
    (evolves : region.Evolves now.ledger later.ledger) (has : region.Holds roll) :
    roll.Lives now later where
  moves begun := evolves.advances.rollPhase roll.id has.here begun
  unset waits := by
    unfold Ledger.rollTotal
    rw [waits]
    rfl
  set done := ordered.rollTotal has.here done
  stays done := by
    have keeps := evolves.advances.toKeeps
    exact ⟨keeps.roll roll.id has.here (beq_iff_eq.1 done), keeps.rollTotal has.here done⟩
  refuses begun := RollOf.run_of_begun begun

end

/-! ## Records of the original -/

section

variable {first stop : Nat} {roll : Roll} {ledger other : Ledger}

/-- As long as the same is known about a roll, so are the records of all its terms. -/
theorem Ledger.SameOn.records_of_parts (same : Ledger.SameOn ledger other first stop)
    (spans : roll.Spans first stop) : ∀ term ∈ Term.partsFrom roll.terms,
      other.record term = ledger.record term := by
  have records : RowThroughout (fun term => other.record term = ledger.record term)
      (fun _ => True) roll.terms := by
    refine RowThroughout.imp_spans spans.1 (fun inner low high above below within _ => ?_)
      (fun _ _ _ _ _ _ _ => trivial) (rowThroughout_true roll.terms)
    exact ((same.mono above (Nat.le_trans below (Nat.le_of_lt spans.bounds.2))).record within).symm
  exact fun term member => (records.of_mem_partsFrom member).here

theorem Ledger.SameOn.records_of_rolls (same : Ledger.SameOn ledger other first stop)
    (spans : roll.Spans first stop) : ∀ part ∈ roll.rolls,
      other.recordOfRoll part = ledger.recordOfRoll part := by
  have records : RowThroughout (fun _ => True)
      (fun part => other.recordOfRoll part = ledger.recordOfRoll part) roll.terms := by
    refine RowThroughout.imp_spans spans.1 (fun _ _ _ _ _ _ _ => trivial)
      (fun inner low high above below within _ => ?_) (rowThroughout_true roll.terms)
    have part := same.mono above (Nat.le_trans below (Nat.le_of_lt spans.bounds.2))
    exact (part.recordOfRoll within).symm
  exact RollOf.forall_mem_rolls (same.recordOfRoll spans).symm records

end

namespace Build

/-- Whatever is called on the roll of a formula, it and its terms lead their lives, and what is
derived from them leaves their records alone. -/
theorem lives_of_called {setup : Setup} {input : RollInput} {ledger made : Ledger} {roll : Roll}
    (built : ofFormula setup input ledger = .ok (roll, made)) {start now later : Progress}
    (begins : start.ledger = made) (called : roll.Called start now)
    (further : roll.Called now later) :
    (∀ term ∈ Term.partsFrom roll.terms, term.Lives now later) ∧
    (∀ part ∈ roll.rolls, part.Lives now later) ∧
    ∀ derived, roll.Derives now derived →
      (∀ term ∈ Term.partsFrom roll.terms, derived.ledger.record term = now.ledger.record term) ∧
      ∀ part ∈ roll.rolls, derived.ledger.recordOfRoll part = now.ledger.recordOfRoll part := by
  have isMade := ofFormula_isMade built
  have since : isMade.region.Evolves made now.ledger := by
    have ready : isMade.region.Evolves made start.ledger := begins ▸ isMade.orderly.evolves
    exact ready.trans (RollOf.Called.evolves isMade ready called)
  have evolves := RollOf.Called.evolves isMade since further
  refine ⟨fun term member => evolves.lives since.orderly member,
    fun part member => evolves.livesRoll since.orderly (isMade.holds part member),
    fun derived derives => ?_⟩
  have same : Ledger.SameOn now.ledger derived.ledger ledger.next made.next :=
    fun id above below => derives.same since.advances.next_le id ⟨above, below⟩
  exact ⟨same.records_of_parts isMade.spans, same.records_of_rolls isMade.spans⟩

/-- Two dice in brackets and one more are rolled as low as can be, and the roll is cloned then. -/
theorem lives_of_lowest : ∃ roll made, lowRoll = .ok (roll, made) ∧
    (lowest roll made).ledger.isRollEvaluated roll = true ∧
    (∀ term ∈ Term.partsFrom roll.terms,
      term.Lives (lowest roll made) ((lowest roll made).constructing (clone usual roll))) ∧
    roll.Lives (lowest roll made) ((lowest roll made).constructing (clone usual roll)) ∧
    ((lowest roll made).constructing (clone usual roll)).ledger.recordOfRoll roll =
      (lowest roll made).ledger.recordOfRoll roll := by
  have computed : (lowRoll.map fun pair =>
      (lowest pair.1 pair.2).ledger.isRollEvaluated pair.1).toOption = some true := by
    decide +kernel
  rcases result_bind (result_of_toOption computed) with ⟨⟨roll, made⟩, built, done⟩
  have whole : roll ∈ roll.rolls := List.mem_cons_self
  have evaluated : roll.Called (.ofLedger made) (lowest roll made) := by
    have call := @RollOf.Call.run roll _ whole { minimize := true } (Service.quiet usual) rfl
      (.ofLedger made)
    rw [RollOf.run_eq_progress] at call
    exact .single call
  have derives := RollOf.Derives.clone whole usual (lowest roll made)
  rcases lives_of_called built rfl evaluated (.single (.derive derives)) with
    ⟨terms, rolls, records⟩
  exact ⟨roll, made, built, Except.ok.inj done, terms, rolls roll whole,
    (records _ derives).2 roll whole⟩

/-- A die whose number of faces is computed. -/
def bracketedDie : Except Fault (Roll × Ledger) := ofFormula usual { formula := "1d(6)" } .empty

/-- Dice are rolled as high as can be. -/
def highest : Context :=
  ({ maximize := true } : Options).contextWith (Service.quiet usual) false 0

/-- What becomes of a die that is rolled by itself, as high as can be, and evaluated then. -/
def rolledAhead (dice : Dice) (made : Ledger) : Progress :=
  let rolled := ((highest.rollOne dice false false (.ofLedger made)).now dice.formula).2
  ((Term.dice dice).run {} (Service.quiet usual) rolled).2

/-- Before its faces are known, the greatest result of a die is none.  To record it does not keep
the die from being evaluated, and then the die has no total. -/
theorem evaluated_without_total : ∃ roll made dice, bracketedDie = .ok (roll, made) ∧
    .dice dice ∈ Term.partsFrom roll.terms ∧
    roll.Called (.ofLedger made) (rolledAhead dice made) ∧
    (rolledAhead dice made).ledger.isEvaluated (.dice dice) = true ∧
    ∀ value, (rolledAhead dice made).ledger.total (.dice dice) ≠ .ok value := by
  have computed : (do
      let start ← bracketedDie
      let dice ← start.1.dice.head?.elim (.error Fault.wrongKind) Except.ok
      let last := (rolledAhead dice start.2).ledger
      return last.isEvaluated (.dice dice) && !(last.total (.dice dice)).isOk).toOption =
        some true := by decide +kernel
  rcases result_bind (result_of_toOption computed) with ⟨⟨roll, made⟩, built, rest⟩
  rcases result_bind rest with ⟨dice, first, rest⟩
  rcases Bool.and_eq_true_iff.1 (Except.ok.inj rest) with ⟨done, fails⟩
  have inside : .dice dice ∈ Term.partsFrom roll.terms :=
    Term.mem_partsFrom_of_mem_diceFrom (mem_of_head first)
  have rolled := @RollOf.Call.rollOne roll dice inside highest rfl false false (.ofLedger made)
  have evaluated := @RollOf.Call.runTerm roll _ inside {} (Service.quiet usual) rfl
  refine ⟨roll, made, dice, built, inside, .tail (.single rolled) (evaluated _), done, ?_⟩
  intro value found
  have found : (rolledAhead dice made).ledger.total (.dice dice) = .ok value := found
  have fails : (!((rolledAhead dice made).ledger.total (.dice dice)).isOk) = true := fails
  rw [found] at fails
  cases fails

end Build
end DiceNotation
