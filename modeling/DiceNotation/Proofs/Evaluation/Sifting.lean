import DiceNotation.Proofs.Evaluation.Modifying
import DiceNotation.Proofs.Evaluation.Unaided
import DiceNotation.Proofs.Fulfillment.Bookkeeping
import DiceNotation.Proofs.Fulfillment.Finality

namespace DiceNotation

/-!
# Sifted dice

Modifiers that only keep, drop and roll again leave a number of results active that does not
depend on the values: to keep or drop leaves as many as the modifier says, and a result that is
rolled again is replaced by one.  A chain that is cut short may be skipped, and then all results
that were active are active again.  No result is counted, so each is worth its value, which lies
between the least and the greatest one of the dice.

Where chance plays no part nothing is rolled again, but the number of active results is the same.
-/

/-! ## Keeping and dropping -/

namespace Outcome

/-- The positions of the active outcomes, those before `position` left out. -/
def activeFrom (position : Int) : List Outcome → List Int
  | [] => []
  | outcome :: rest =>
    if outcome.isActive then position :: activeFrom (position + 1) rest
    else activeFrom (position + 1) rest

theorem activeFrom_cons (position : Int) (outcome : Outcome) (rest : List Outcome) :
    activeFrom position (outcome :: rest) =
      if outcome.isActive then position :: activeFrom (position + 1) rest
      else activeFrom (position + 1) rest :=
  rfl

theorem length_activeFrom (position : Int) (outcomes : List Outcome) :
    (activeFrom position outcomes).length = outcomes.countP isActive := by
  induction outcomes generalizing position with
  | nil => rfl
  | cons outcome rest ih =>
    rw [activeFrom_cons, List.countP_cons]
    split
    · rw [List.length_cons, ih]
    · rw [ih, Nat.add_zero]

theorem le_of_mem_activeFrom {position other : Int} {outcomes : List Outcome}
    (member : other ∈ activeFrom position outcomes) : position ≤ other := by
  induction outcomes generalizing position with
  | nil => cases member
  | cons outcome rest ih =>
    have later (inside : other ∈ activeFrom (position + 1) rest) : position ≤ other :=
      Int.le_trans (Int.le_of_lt (Int.lt_succ position)) (ih inside)
    rw [activeFrom_cons] at member
    split at member
    · rcases List.mem_cons.1 member with rfl | inside
      · exact Int.le_refl _
      · exact later inside
    · exact later member

theorem nodup_activeFrom (position : Int) (outcomes : List Outcome) :
    (activeFrom position outcomes).Nodup := by
  induction outcomes generalizing position with
  | nil => exact List.nodup_nil
  | cons outcome rest ih =>
    rw [activeFrom_cons]
    split
    · refine List.nodup_cons.2 ⟨fun member => ?_, ih _⟩
      exact absurd (le_of_mem_activeFrom member) (Int.not_le.2 (Int.lt_succ position))
    · exact ih _

end Outcome

namespace Selection

variable {selection : Selection} {outcomes : List Outcome}

/-- The position that a key stands for. -/
def placeOf (selection : Selection) (key : RankKey) : Int :=
  if selection.keep then key.position else -key.position

theorem places_keys {position : Int} {keys : List RankKey}
    (found : selection.keys position outcomes = .ok keys) :
    keys.map selection.placeOf = Outcome.activeFrom position outcomes := by
  induction outcomes generalizing position keys with
  | nil =>
    cases found
    rfl
  | cons outcome rest ih =>
    unfold Selection.keys at found
    rw [Outcome.activeFrom_cons]
    split at found
    · rename_i active
      rcases result_bind found with ⟨value, _, found⟩
      rcases result_bind found with ⟨others, behind, found⟩
      cases found
      rw [if_pos active, List.map_cons, ih behind]
      unfold placeOf
      cases selection.keep with
      | true => rfl
      | false => exact congrArg (· :: _) (Int.neg_neg position)
    · rename_i passive
      rw [if_neg passive]
      exact ih found

theorem countP_discardFrom (chosen : List Int) (position : Int) :
    (selection.discardFrom chosen position outcomes).countP Outcome.isActive =
      (Outcome.activeFrom position outcomes).countP fun place =>
        chosen.contains place == selection.keep := by
  induction outcomes generalizing position with
  | nil => rfl
  | cons outcome rest ih =>
    unfold discardFrom
    rw [Outcome.activeFrom_cons, List.countP_cons, ih]
    cases active : outcome.isActive with
    | false =>
      rw [if_neg Bool.false_ne_true, Bool.false_and, if_neg Bool.false_ne_true, active]
      rfl
    | true =>
      rw [if_pos rfl, List.countP_cons, Bool.true_and]
      have aside : outcome.discard.isActive = false := rfl
      cases chosen.contains position <;> cases selection.keep <;> simp [active, aside]

/-- As many positions are chosen as the selection says, if there are so many. -/
theorem chosen_eq {number : Int} {keep highest : Bool} {chosen : List Int}
    (found : Selection.chosen ⟨.int number, keep, highest⟩ outcomes = .ok chosen) :
    ∃ others, (chosen ++ others).Perm (Outcome.activeFrom 0 outcomes) ∧
      chosen.length = min number.toNat (outcomes.countP Outcome.isActive) := by
  rcases result_bind found with ⟨keys, listed, found⟩
  rcases result_bind found with ⟨ranking, ranked, found⟩
  rcases result_bind found with ⟨size, sized, found⟩
  cases sized
  cases found
  have perm := (Ranking.rank_perm ranked).map (placeOf ⟨.int number, keep, highest⟩)
  rw [places_keys listed] at perm
  have length : ranking.length = outcomes.countP Outcome.isActive := by
    rw [← Outcome.length_activeFrom 0, ← perm.length_eq, List.length_map]
  refine ⟨(ranking.drop (min number.toNat ranking.length)).map
    (placeOf ⟨.int number, keep, highest⟩), ?_, ?_⟩
  · change (List.map (placeOf ⟨.int number, keep, highest⟩) _ ++ _).Perm _
    rw [← List.map_append, List.take_append_drop]
    exact perm
  · rw [List.length_map, List.length_take, length, Nat.min_eq_left (Nat.min_le_right _ _)]

/-- How many outcomes stay active is told by how many there are, whatever their values. -/
theorem countP_apply {number : Int} {keep highest : Bool} {kept : List Outcome}
    (applied : Selection.apply ⟨.int number, keep, highest⟩ outcomes = .ok kept) :
    kept.countP Outcome.isActive =
      if keep then min number.toNat (outcomes.countP Outcome.isActive)
      else outcomes.countP Outcome.isActive -
        min number.toNat (outcomes.countP Outcome.isActive) := by
  unfold Selection.apply at applied
  cases found : Selection.chosen ⟨.int number, keep, highest⟩ outcomes with
  | error fault =>
    rw [found] at applied
    cases applied
  | ok chosen =>
    rw [found] at applied
    cases applied
    rcases chosen_eq found with ⟨others, perm, size⟩
    have nodup := perm.nodup_iff.2 (Outcome.nodup_activeFrom 0 outcomes)
    rcases List.nodup_append'.1 nodup with ⟨_, _, apart⟩
    have whole := perm.length_eq
    rw [List.length_append, Outcome.length_activeFrom] at whole
    rw [countP_discardFrom, ← perm.countP_eq, List.countP_append, ← size, ← whole]
    have outside : ∀ place ∈ others, place ∉ chosen := fun place member inside =>
      apart inside member
    cases keep with
    | true =>
      rw [List.countP_eq_length.2 fun place member => by simp [member],
        List.countP_eq_zero.2 fun place member => by simp [outside place member]]
      rfl
    | false =>
      rw [List.countP_eq_zero.2 fun place member => by simp [member],
        List.countP_eq_length.2 fun place member => by simp [outside place member]]
      simp

end Selection

/-! ## Values within bounds -/

/-- A value lies between two bounds.  It is the lower one where values are as low as can be, and
the upper one where they are as high as can be. -/
structure Context.Admits (context : Context) (least greatest value : Int) : Prop where
  above : least ≤ value
  below : value ≤ greatest
  lowest : context.minimize = true → value = least
  highest : context.minimize = false → context.maximize = true → value = greatest

namespace Context

variable {context : Context} {least greatest value : Int}

theorem admits_self (context : Context) (value : Int) : context.Admits value value value :=
  ⟨Int.le_refl _, Int.le_refl _, fun _ => rfl, fun _ _ => rfl⟩

theorem Admits.add (admits : context.Admits least greatest value) {low high more : Int}
    (other : context.Admits low high more) :
    context.Admits (least + low) (greatest + high) (value + more) where
  above := Int.add_le_add admits.above other.above
  below := Int.add_le_add admits.below other.below
  lowest given := by rw [admits.lowest given, other.lowest given]
  highest varies given := by rw [admits.highest varies given, other.highest varies given]

theorem admits_of_free (free : context.isFixed = false) (above : least ≤ value)
    (below : value ≤ greatest) : context.Admits least greatest value := by
  rcases Bool.or_eq_false_iff.1 free with ⟨varies, unbounded⟩
  refine ⟨above, below, fun given => ?_, fun _ given => ?_⟩
  · rw [varies] at given
    cases given
  · rw [unbounded] at given
    cases given

/-- What dice show next lies between their least and their greatest result. -/
theorem Gives.admits {ledger : Ledger} {dice : Dice} {shown : Json}
    (gives : context.Gives ledger dice shown) (fair : context.IsFair)
    (known : ledger.maximumValue dice = .ok (.ofInt greatest))
    (some : dice.kind.minimum ≤ greatest) :
    ∃ value : Int, shown = .ofInt value ∧
      context.Admits dice.kind.minimum greatest value := by
  cases gives with
  | lowest given =>
    refine ⟨_, rfl, Int.le_refl _, some, fun _ => rfl, fun varies _ => ?_⟩
    rw [given] at varies
    cases varies
  | highest varies given reads =>
    cases known.symm.trans reads
    refine ⟨greatest, rfl, some, Int.le_refl _, fun lowest => ?_, fun _ _ => rfl⟩
    rw [varies] at lowest
    cases lowest
  | accepted free can =>
    rcases Ledger.accepts_iff.1 can with ⟨value, most, rfl, above, reads, below⟩
    cases known.symm.trans reads
    change Json.atMost (.number (.int value)) (.number (.int greatest)) = _ at below
    rw [Json.atMost_number, Number.atMost_int] at below
    exact ⟨value, rfl, admits_of_free free above (of_decide_eq_true (Except.ok.inj below))⟩
  | picked free draws picks =>
    rcases Ledger.mapUniform_between known some (fair draws).1 picks with
      ⟨value, rfl, above, below⟩
    exact ⟨value, rfl, admits_of_free free above below⟩

end Context

/-- An outcome that is worth a value within bounds. -/
structure Outcome.IsWithin (context : Context) (least greatest : Int) (outcome : Outcome) :
    Prop where
  uncounted : outcome.count = .null
  value : ∃ value : Int, outcome.value = .ofInt value ∧ context.Admits least greatest value

namespace Outcome

variable {context : Context} {least greatest : Int} {outcomes : List Outcome}

theorem IsWithin.worth {outcome : Outcome} (within : outcome.IsWithin context least greatest) :
    outcome.worth = outcome.value := by
  unfold Outcome.worth Outcome.isCounted
  rw [within.uncounted]
  rfl

/-- So many active outcomes within bounds add up to a total within as many times the bounds. -/
theorem total_within (within : ∀ outcome ∈ outcomes, outcome.IsWithin context least greatest) :
    ∃ value : Int, total outcomes = .ok (.ofInt value) ∧
      context.Admits (outcomes.countP isActive * least) (outcomes.countP isActive * greatest)
        value := by
  have sums (active : List Outcome) (start low high : Int)
      (begun : context.Admits low high start)
      (all : ∀ outcome ∈ active, outcome.IsWithin context least greatest) :
      ∃ value : Int, (active.map worth).foldlM Json.add (.ofInt start) = .ok (.ofInt value) ∧
        context.Admits (low + active.length * least) (high + active.length * greatest) value := by
    induction active generalizing start low high with
    | nil =>
      refine ⟨start, rfl, ?_⟩
      rw [List.length_nil, Int.natCast_zero, Int.zero_mul, Int.zero_mul, Int.add_zero, Int.add_zero]
      exact begun
    | cons outcome rest ih =>
      rcases List.forall_mem_cons.1 all with ⟨here, later⟩
      rcases here.value with ⟨value, is, admits⟩
      rcases ih (start + value) _ _ (begun.add admits) later with ⟨sum, found, between⟩
      refine ⟨sum, ?_, ?_⟩
      · rw [List.map_cons, List.foldlM_cons, here.worth, is]
        exact found
      · have one (bound : Int) : bound + (rest.length : Int) * bound =
            ((outcome :: rest).length : Int) * bound := by
          rw [List.length_cons, Int.natCast_succ, Int.add_mul, Int.one_mul, Int.add_comm]
        rw [← one, ← one, ← Int.add_assoc, ← Int.add_assoc]
        exact between
  rcases sums (outcomes.filter isActive) 0 0 0 (context.admits_self 0) fun outcome member =>
    within outcome (List.mem_filter.1 member).1 with ⟨value, found, between⟩
  rw [Int.zero_add, Int.zero_add, ← List.countP_eq_length_filter] at between
  exact ⟨value, found, between⟩

end Outcome

/-! ## Modifiers that only keep, drop and roll again -/

/-- Whether a modifier keeps or drops results or rolls them again, as the table allows it. -/
def ActionTable.sifts (table : ActionTable) (formula : String) (raw : Json) : Bool :=
  match Command.ofData raw formula with
  | .error _ => false
  | .ok command =>
    match table.action? command.name with
    | some (.reroll _) => true
    | some .keep => command.comparator.isNone
    | some .drop => command.comparator.isNone
    | _ => false

/-- How many of some active results a modifier leaves active. -/
def ActionTable.leaves (table : ActionTable) (formula : String) (active : Nat) (raw : Json) : Nat :=
  match Command.ofData raw formula with
  | .error _ => active
  | .ok command =>
    match table.action? command.name with
    | some .keep => min (command.target.getD 1).toNat active
    | some .drop => active - min (command.target.getD 1).toNat active
    | _ => active

/-- What a modifier does that keeps, drops or rolls again. -/
theorem ActionTable.sifts_cases {table : ActionTable} {formula : String} {raw : Json}
    (sifts : table.sifts formula raw = true) :
    ∃ command, Command.ofData raw formula = .ok command ∧
      ((∃ once, table.action? command.name = some (.reroll once) ∧
          ∀ active, table.leaves formula active raw = active) ∨
        (table.action? command.name = some .keep ∧ command.comparator = none ∧
          ∀ active, table.leaves formula active raw = min (command.target.getD 1).toNat active) ∨
        (table.action? command.name = some .drop ∧ command.comparator = none ∧
          ∀ active, table.leaves formula active raw =
            active - min (command.target.getD 1).toNat active)) := by
  unfold ActionTable.sifts at sifts
  cases read : Command.ofData raw formula with
  | error fault =>
    rw [read] at sifts
    cases sifts
  | ok command =>
    rw [read] at sifts
    refine ⟨command, rfl, ?_⟩
    unfold leaves
    rw [read]
    dsimp only at sifts ⊢
    cases does : table.action? command.name with
    | none =>
      rw [does] at sifts
      cases sifts
    | some action =>
      rw [does] at sifts
      cases action with
      | reroll once => exact .inl ⟨once, rfl, fun _ => rfl⟩
      | keep => exact .inr (.inl ⟨rfl, Option.isNone_iff_eq_none.1 sifts, fun _ => rfl⟩)
      | drop => exact .inr (.inr ⟨rfl, Option.isNone_iff_eq_none.1 sifts, fun _ => rfl⟩)
      | _ => cases sifts

namespace DiceOf

/-- How many results of dice with a known number are active in the end. -/
def kept (dice : Dice) : Nat :=
  dice.modifiers.foldl (dice.kind.actions.leaves dice.formula)
    (match dice.number with
    | .known n => n.toNat
    | .computed _ => 0)

/-- The greatest result of dice with a known number of faces. -/
def greatest (dice : Dice) : Int :=
  match dice.kind.fixedMaximum?, dice.faces with
  | some n, _ => n
  | none, .known n => n
  | none, .computed _ => dice.kind.minimum

/-- Whether the amounts of dice are known, and their modifiers only keep, drop and roll again. -/
def isSifted (dice : Dice) : Bool :=
  dice.isReady && dice.modifiers.all (dice.kind.actions.sifts dice.formula)

variable {dice : Dice}

theorem known_of_isReady (ready : dice.isReady = true) :
    (∃ n, dice.number = .known n) ∧ ∃ n, dice.faces = .known n := by
  rcases Bool.and_eq_true_iff.1 ready with ⟨number, faces⟩
  constructor
  · cases given : dice.number with
    | known n => exact ⟨n, rfl⟩
    | computed term =>
      rw [given] at number
      cases number
  · cases given : dice.faces with
    | known n => exact ⟨n, rfl⟩
    | computed term =>
      rw [given] at faces
      cases faces

theorem maximumValue_greatest (ready : dice.isReady = true) (ledger : Ledger) :
    ledger.maximumValue dice = .ok (.ofInt dice.greatest) := by
  rcases (known_of_isReady ready).2 with ⟨n, faces⟩
  unfold Ledger.maximumValue greatest
  rw [faces]
  cases dice.kind.fixedMaximum? <;> rfl

theorem IsSound.minimum_le_greatest (sound : dice.IsSound) (ready : dice.isReady = true) :
    dice.kind.minimum ≤ dice.greatest := by
  rcases (known_of_isReady ready).2 with ⟨n, faces⟩
  rcases @IsSound.range .empty dice sound n faces with ⟨greatest, known, _, some⟩
  cases (maximumValue_greatest ready .empty).symm.trans known
  exact some

end DiceOf

namespace Context.Chain

variable (chain : Chain) (again : chain.explode = false)
include again

theorem mark_again (outcome : Outcome) :
    chain.mark outcome = { outcome with rerolled := .bool true, active := .bool false } := by
  unfold mark
  rw [again, if_neg Bool.false_ne_true]

/-- An outcome that is rolled again does not count any more. -/
theorem countP_modify {outcomes : List Outcome} {position : Nat} {outcome : Outcome}
    (found : outcomes[position]? = some outcome) (active : outcome.isActive = true) :
    (outcomes.modify position chain.mark).countP Outcome.isActive + 1 =
      outcomes.countP Outcome.isActive := by
  induction outcomes generalizing position with
  | nil => cases found
  | cons first rest ih =>
    cases position with
    | zero =>
      cases found
      change (chain.mark outcome :: rest).countP _ + 1 = _
      rw [chain.mark_again again, List.countP_cons, List.countP_cons, if_pos active]
      rfl
    | succ position =>
      change (first :: rest.modify position chain.mark).countP _ + 1 = _
      rw [List.countP_cons, List.countP_cons, ← ih found, Nat.add_right_comm]

theorem within_modify {context : Context} {least greatest : Int} {outcomes : List Outcome}
    (within : ∀ outcome ∈ outcomes, outcome.IsWithin context least greatest) (position : Nat) :
    ∀ outcome ∈ outcomes.modify position chain.mark, outcome.IsWithin context least greatest := by
  induction outcomes generalizing position with
  | nil =>
    rw [List.modify_nil]
    exact within
  | cons first rest ih =>
    rcases List.forall_mem_cons.1 within with ⟨here, later⟩
    cases position with
    | zero =>
      change ∀ outcome ∈ chain.mark first :: rest, _
      rw [chain.mark_again again]
      exact List.forall_mem_cons.2 ⟨⟨here.uncounted, here.value⟩, later⟩
    | succ position => exact List.forall_mem_cons.2 ⟨here, ih later position⟩

end Context.Chain

/-- To keep or drop outcomes changes no value. -/
theorem Selection.within_discardFrom {context : Context} {least greatest : Int}
    (selection : Selection) (chosen : List Int) (position : Int) {outcomes : List Outcome}
    (within : ∀ outcome ∈ outcomes, outcome.IsWithin context least greatest) :
    ∀ outcome ∈ selection.discardFrom chosen position outcomes,
      outcome.IsWithin context least greatest := by
  induction outcomes generalizing position with
  | nil => exact within
  | cons outcome rest ih =>
    rcases List.forall_mem_cons.1 within with ⟨here, later⟩
    unfold discardFrom
    refine List.forall_mem_cons.2 ⟨?_, ih (position + 1) later⟩
    split
    · exact ⟨here.uncounted, here.value⟩
    · exact here

/-- A selection without a comparison is never refused. -/
theorem Tally.select_within {context : Context} {least greatest : Int} (tally : Tally)
    (within : ∀ outcome ∈ tally.outcomes, outcome.IsWithin context least greatest)
    {command : Command} (plain : command.comparator = none) (formula : String)
    (keep highest : Bool) :
    ∃ kept, tally.select command formula keep highest =
        ({ tally with outcomes := kept }, .ok ()) ∧
      (∀ outcome ∈ kept, outcome.IsWithin context least greatest) ∧
      kept.countP Outcome.isActive =
        if keep then min (command.target.getD 1).toNat (tally.outcomes.countP Outcome.isActive)
        else tally.outcomes.countP Outcome.isActive -
          min (command.target.getD 1).toNat (tally.outcomes.countP Outcome.isActive) := by
  have numbers : Outcome.AreNumbers tally.outcomes := fun outcome member => by
    rcases (within outcome member).value with ⟨value, is, _⟩
    exact ⟨.int value, is⟩
  let selection : Selection := ⟨.int (command.target.getD 1), keep, highest⟩
  rcases Selection.apply_ok numbers (command.target.getD 1) keep highest with ⟨kept, applied⟩
  have amount : command.amount formula = .ok (command.target.getD 1) := by
    unfold Command.amount
    rw [plain]
  refine ⟨kept, ?_, ?_, Selection.countP_apply applied⟩
  · unfold Tally.select
    simp only [amount, applied]
  · unfold Selection.apply at applied
    cases found : selection.chosen tally.outcomes with
    | error fault =>
      rw [found] at applied
      cases applied
    | ok chosen =>
      rw [found] at applied
      cases applied
      exact selection.within_discardFrom chosen 0 within

/-- Dice are in the middle of their evaluation.  So many of their results are active, and all of
them lie between the least and the greatest one. -/
structure Progress.Shows (context : Context) (dice : Dice) (active : Nat) (progress : Progress) :
    Prop where
  phase : (progress.ledger.term dice.tag.id).phase = .evaluating
  within : ∀ outcome ∈ progress.ledger.outcomes dice.tag.id,
    outcome.IsWithin context dice.kind.minimum dice.greatest
  active : (progress.ledger.outcomes dice.tag.id).countP Outcome.isActive = active

/-- Dice are in the middle of their evaluation, which cannot go on because of the values. -/
structure Progress.Halts (context : Context) (dice : Dice) (progress : Progress) : Prop where
  phase : (progress.ledger.term dice.tag.id).phase = .evaluating
  free : context.isFixed = false

namespace Progress.Shows

variable {context : Context} {dice : Dice} {active more : Nat} {progress : Progress}

/-- The outcomes of dice are changed, and nothing else about them. -/
theorem change (shows : progress.Shows context dice active) {f : TermState → TermState}
    (phase : ∀ state, (f state).phase = state.phase)
    (within : ∀ outcome ∈ (f (progress.ledger.term dice.tag.id)).outcomes,
      outcome.IsWithin context dice.kind.minimum dice.greatest)
    (count : (f (progress.ledger.term dice.tag.id)).outcomes.countP Outcome.isActive = more) :
    (progress.updateLedger (·.updateTerm dice.tag.id f)).Shows context dice more := by
  have state : (progress.updateLedger (·.updateTerm dice.tag.id f)).ledger.term dice.tag.id =
      f (progress.ledger.term dice.tag.id) := by
    change (progress.ledger.updateTerm dice.tag.id f).term dice.tag.id = _
    rw [Ledger.term_updateTerm, if_pos rfl]
  constructor
  · rw [state, phase]
    exact shows.phase
  · rw [Ledger.outcomes, state]
    exact within
  · rw [Ledger.outcomes, state]
    exact count

theorem areNumbers (shows : progress.Shows context dice active) :
    Outcome.AreNumbers (progress.ledger.outcomes dice.tag.id) := by
  intro outcome member
  rcases (shows.within outcome member).value with ⟨value, is, _⟩
  exact ⟨.int value, is⟩

end Progress.Shows

namespace Context

open Evaluation

variable {context : Context} {dice : Dice} {active : Nat} {progress : Progress}

/-- An evaluation goes on with so many active results, or it cannot because of the values. -/
abbrev Keeps {α : Type} (context : Context) (dice : Dice) (active : Nat) :
    Except Fault α → Progress → Prop :=
  Concludes (fun _ last => last.Halts context dice) fun _ last => last.Shows context dice active

section

variable (unaided : context.resolver = none) (fair : context.IsFair) (sound : dice.IsSound)
  (ready : dice.isReady = true)
include unaided fair sound ready

theorem rollOne_shows (reroll explode : Bool) (shows : progress.Shows context dice active) :
    (context.rollOne dice reroll explode).Finishes progress
      (Concludes (fun _ last => last.Halts context dice) fun _ last =>
        last.Shows context dice (active + 1) ∧
          (last.ledger.outcomes dice.tag.id).length =
            (progress.ledger.outcomes dice.tag.id).length + 1) := by
  have unfinished : (progress.ledger.term dice.tag.id).phase ≠ .evaluated := by
    rw [shows.phase]
    exact nofun
  refine (rollOne_gives unaided reroll explode unfinished).imp fun result last ended => ?_
  cases result with
  | error fault =>
    rcases ended with ⟨same, known⟩
    refine ⟨by rw [same]; exact shows.phase, Bool.eq_false_iff.2 fun fixed => ?_⟩
    cases (DiceOf.maximumValue_greatest ready progress.ledger).symm.trans (known fixed)
  | ok outcome =>
    rcases ended with ⟨value, gives, same⟩
    rcases gives.admits fair (DiceOf.maximumValue_greatest ready progress.ledger)
      (sound.minimum_le_greatest ready) with ⟨n, rfl, admits⟩
    have state : last.ledger.term dice.tag.id = { progress.ledger.term dice.tag.id with
        outcomes := progress.ledger.outcomes dice.tag.id ++ [{ value := .ofInt n }] } := by
      rw [same, Resolver.addOutcome, Ledger.term_updateTerm, if_pos rfl]
      rfl
    have outcomes := congrArg TermState.outcomes state
    change last.ledger.outcomes dice.tag.id = _ ++ [_] at outcomes
    refine ⟨⟨?_, ?_, ?_⟩, ?_⟩
    · rw [state]
      exact shows.phase
    · rw [outcomes]
      exact List.forall_mem_append.2
        ⟨shows.within, List.forall_mem_singleton.2 ⟨rfl, n, rfl, admits⟩⟩
    · rw [outcomes, List.countP_append, shows.active]
      rfl
    · rw [outcomes, List.length_append]
      rfl

/-- Dice are rolled as often as they have to be, and all results are active. -/
theorem rollUpTo_shows {number : Nat} (left : Nat) (shows : progress.Shows context dice active)
    (all : (progress.ledger.outcomes dice.tag.id).length = active)
    (whole : active + left = number) :
    (context.rollUpTo dice number left).Finishes progress (context.Keeps dice number) := by
  induction left generalizing progress active with
  | zero => exact concludes_pure (whole ▸ shows)
  | succ left ih =>
    have less : (progress.ledger.outcomes dice.tag.id).length < number := by omega
    refine Finishes.of_eq ?_ (rollUpTo_of_lt context left less)
    refine concludes_bind (rollOne_shows unaided fair sound ready false false shows) ?_
    rintro _ later ⟨more, length⟩
    refine ih more ?_ ?_
    · rw [length, all]
    · omega

/-- Whoever is rolled again is replaced. -/
theorem chain_shows (command : Command) (recursive : Bool)
    (shows : progress.Shows context dice active) :
    (context.chain dice command recursive false).Finishes progress
      (context.Keeps dice active) := by
  have aim : ∃ target : Number, chainTarget progress.ledger dice command false =
      .ok (.number target) := by
    unfold chainTarget
    split
    · exact ⟨_, rfl⟩
    · exact ⟨_, rfl⟩
  rcases aim with ⟨target, aimed⟩
  have reads : (read fun ledger => chainTarget ledger dice command false) progress =
      .done (.ok (.number target)) progress := congrArg (Step.done · progress) aimed
  unfold Finishes chain
  rw [bind_done reads]
  cases fixed : context.isFixed with
  | true => exact ⟨_, _, rfl, shows⟩
  | false =>
    let going : Chain := ⟨recursive, false, command.comparator.getD .equal, .number target⟩
    have rolls {progress : Progress} (reroll explode : Bool)
        (marked : ∃ less, less + 1 = active ∧ progress.Shows context dice less) :
        (context.rollOne dice reroll explode).Finishes progress (context.Keeps dice active) := by
      rcases marked with ⟨less, rfl, lacks⟩
      exact concludes_imp (rollOne_shows unaided fair sound ready reroll explode lacks)
        fun _ _ ended => ended.1
    refine runChain_concludes rolls command going ?_ ?_ ?_ _ _ 0 shows
    · intro progress initial checked fault still failed
      rcases @Chain.next?_ok going target rfl _ still.areNumbers initial checked with
        ⟨next, found⟩
      cases found.symm.trans failed
    · intro progress initial checked position still found
      rcases Chain.active_of_next? found with ⟨outcome, there, isActive⟩
      have less := going.countP_modify rfl there isActive
      rw [still.active] at less
      exact ⟨_, less, still.change (fun _ => rfl)
        (going.within_modify rfl still.within position) rfl⟩
    · exact fun still => ⟨still.phase, fixed⟩

omit unaided fair sound ready in
/-- A modifier that keeps or drops leaves as many results active as it says. -/
theorem tally_shows {action : Action} {command : Command} {keep highest : Bool}
    (plain : command.comparator = none)
    (selects : ∀ tally : Tally, tally.carryOut action command dice.formula =
      tally.select command dice.formula keep highest)
    (shows : progress.Shows context dice active) :
    ∃ last, tally (.dice dice) action command progress = .done (.ok ()) last ∧
      last.Shows context dice (if keep then min (command.target.getD 1).toNat active
        else active - min (command.target.getD 1).toNat active) := by
  let before : Tally :=
    ⟨progress.ledger.outcomes dice.tag.id, (progress.ledger.term dice.tag.id).counting⟩
  rcases before.select_within shows.within plain dice.formula keep highest with
    ⟨kept, selected, within, count⟩
  have carried : before.carryOut action command dice.formula =
      ({ before with outcomes := kept }, .ok ()) := (selects before).trans selected
  let keeping (state : TermState) : TermState :=
    { state with outcomes := kept, counting := before.counting }
  have runs : tally (.dice dice) action command progress =
      .done (.ok ()) (progress.updateLedger (·.updateTerm dice.tag.id keeping)) := by
    change Step.done (before.carryOut action command dice.formula).2
      (progress.updateLedger (·.updateTerm dice.tag.id fun state =>
        { state with
          outcomes := (before.carryOut action command dice.formula).1.outcomes
          counting := (before.carryOut action command dice.formula).1.counting })) = _
    rw [carried]
  refine ⟨_, runs, shows.change (fun _ => rfl) within ?_⟩
  rw [← shows.active]
  exact count

/-- Carrying out a modifier leaves as many results active as it should.  Only rolling again can
fail, and it should leave all of them. -/
theorem runModifier_shows {raw : Json}
    (sifts : dice.kind.actions.sifts dice.formula raw = true)
    (shows : progress.Shows context dice active) :
    (runModifier (context.modifiedDice dice) raw).Finishes progress
      (Concludes
        (fun _ last => last.Halts context dice ∧
          dice.kind.actions.leaves dice.formula active raw = active)
        fun _ last =>
          last.Shows context dice (dice.kind.actions.leaves dice.formula active raw)) := by
  rcases ActionTable.sifts_cases sifts with ⟨command, read, cases⟩
  have reads : (lift (Command.ofData raw (context.modifiedDice dice).term.formula)) progress =
      .done (.ok command) progress := congrArg (Step.done · progress) read
  unfold Finishes runModifier
  rw [bind_done reads]
  rcases cases with ⟨once, does, leaves⟩ | ⟨does, plain, leaves⟩ | ⟨does, plain, leaves⟩
  · have table : (context.modifiedDice dice).table.action? command.name = some (.reroll once) :=
      does
    rw [table, leaves]
    refine (chain_shows unaided fair sound ready command (!once) shows).imp ?_
    intro result last ended
    cases result with
    | error fault => exact ⟨ended, rfl⟩
    | ok done => exact ended
  · have table : (context.modifiedDice dice).table.action? command.name = some .keep := does
    have selects (tally : Tally) : tally.carryOut .keep command dice.formula =
        tally.select command dice.formula true (command.name != "kl") := rfl
    rw [table, leaves]
    rcases tally_shows plain selects shows with ⟨last, run, ended⟩
    exact ⟨_, last, run, ended⟩
  · have table : (context.modifiedDice dice).table.action? command.name = some .drop := does
    have selects (tally : Tally) : tally.carryOut .drop command dice.formula =
        tally.select command dice.formula false (command.name == "dh") := rfl
    rw [table, leaves]
    rcases tally_shows plain selects shows with ⟨last, run, ended⟩
    exact ⟨_, last, run, ended⟩

/-- A modifier is carried out or skipped, and leaves as many results active as it should. -/
theorem tryModifier_shows {raw : Json}
    (sifts : dice.kind.actions.sifts dice.formula raw = true)
    (shows : progress.Shows context dice active) :
    (context.tryModifier (context.modifiedDice dice) raw).Finishes progress
      (context.Keeps dice (dice.kind.actions.leaves dice.formula active raw)) := by
  rcases runModifier_shows unaided fair sound ready sifts shows with ⟨result, later, run, ended⟩
  unfold Finishes
  rw [tryModifier_eq, run]
  cases result with
  | ok done => exact ⟨_, _, rfl, ended⟩
  | error fault =>
    rcases ended with ⟨halts, leaves⟩
    cases fault with
    | modifier reason formula command =>
      cases lenient : context.lenient with
      | false =>
        refine ⟨_, _, if_neg (Bool.eq_false_iff.1 lenient), ?_⟩
        exact halts
      | true =>
        let outcomes := progress.ledger.outcomes dice.tag.id
        have undone (message : String) : (later.undoing (.dice dice) outcomes raw message).Shows
            context dice active := by
          have state : (later.undoing (.dice dice) outcomes raw message).ledger.term dice.tag.id =
              { later.ledger.term dice.tag.id with outcomes := outcomes } := by
            change (later.ledger.updateTerm dice.tag.id _).term dice.tag.id = _
            rw [Ledger.term_updateTerm, if_pos rfl]
          constructor
          · rw [state]
            exact halts.phase
          · rw [Ledger.outcomes, state]
            exact shows.within
          · rw [Ledger.outcomes, state]
            exact shows.active
        refine ⟨_, _, if_pos lenient, ?_⟩
        change Progress.Shows context dice _ _
        rw [leaves]
        exact undone _
    | _ => exact ⟨_, _, rfl, halts⟩

/-- However many modifiers there are, they leave as many results active as they should. -/
theorem runModifiers_shows {modifiers : List Json}
    (sifts : modifiers.all (dice.kind.actions.sifts dice.formula) = true)
    (shows : progress.Shows context dice active) :
    (context.runModifiers (context.modifiedDice dice) modifiers).Finishes progress
      (context.Keeps dice (modifiers.foldl (dice.kind.actions.leaves dice.formula) active)) := by
  induction modifiers generalizing progress active with
  | nil => exact concludes_pure shows
  | cons raw rest ih =>
    rcases Bool.and_eq_true_iff.1 sifts with ⟨here, later⟩
    have written : (context.modifiedDice dice).term.hasFormula = true := sound.hasFormula
    unfold runModifiers
    rw [if_pos written]
    exact concludes_bind (tryModifier_shows unaided fair sound ready here shows)
      fun _ _ more => ih later more

/-- Dice that are rolled and sifted have a number of active results that does not depend on what
they show. -/
theorem rollDice_shows (sifted : dice.modifiers.all (dice.kind.actions.sifts dice.formula) = true)
    (shows : progress.Shows context dice 0)
    (none : progress.ledger.outcomes dice.tag.id = []) :
    (context.rollDice dice).Finishes progress (context.Keeps dice dice.kept) := by
  rcases DiceOf.known_of_isReady ready with ⟨⟨number, counted⟩, faces, sided⟩
  have enough : (0 : Int) ≤ number := by
    have bound := sound.number
    rw [counted] at bound
    exact bound
  have some : (1 : Int) ≤ faces := by
    have bound := sound.faces
    rw [sided] at bound
    exact bound
  unfold Finishes rollDice DiceOf.kept
  rw [counted, sided, bind_done (requireInteger_of_known dice .number enough progress),
    bind_done (requireInteger_of_known dice .faces some progress)]
  refine concludes_bind (rollUpTo_shows unaided fair sound ready number.toNat shows
    (congrArg List.length none) (Nat.zero_add _)) fun _ _ rolled => ?_
  exact runModifiers_shows unaided fair sound ready sifted rolled

end

end Context
end DiceNotation
