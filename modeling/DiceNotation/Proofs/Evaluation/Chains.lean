import DiceNotation.Proofs.Evaluation.Draws
import DiceNotation.Proofs.Evaluation.Handling
import DiceNotation.Proofs.Evaluation.Modifying
import DiceNotation.Proofs.Roll.Formulas

namespace DiceNotation

/-!
# What a chain does to the results of dice

A chain goes through the results of dice, and rolls once for each active one that matches.  The
results that it has checked are kept apart here from those that it has not: the former are marked
where they match, the latter are as they were rolled, and there are as many new results as
matches.  Every turn of the chain leads from such results to such results, whoever rolls the dice
and however long that takes.
-/

/-- Results as they are when they have been rolled. -/
def Outcome.rolled (values : List Number) : List Outcome :=
  values.map fun value => { value := .number value }

namespace Context.Chain

variable (chain : Chain)

/-- Whether an outcome is active and matches. -/
def picks (outcome : Outcome) : Bool :=
  match chain.selects outcome with
  | .ok picked => picked
  | .error _ => false

/-- An outcome that has been checked. -/
def check (outcome : Outcome) : Outcome :=
  if chain.picks outcome then chain.mark outcome else outcome

/-- The outcomes that a chain has checked when it has come to its end: all of them, or only those
that were there before. -/
def checked (before : List Outcome) (fresh : List Number) : List Outcome :=
  if chain.recursive then before ++ Outcome.rolled fresh else before

/-- The outcomes that a chain has not checked when it has come to its end. -/
def unchecked (fresh : List Number) : List Outcome :=
  if chain.recursive then [] else Outcome.rolled fresh

/-- A chain has come to its end: it has rolled once for each match among the results that it has
checked, which are marked where they match. -/
structure Completes (before : List Outcome) (cap : Nat) (fresh : List Number)
    (after : List Outcome) : Prop where
  limited : fresh.length ≤ cap
  hits : (chain.checked before fresh).countP chain.picks = fresh.length
  outcomes : after = (chain.checked before fresh).map chain.check ++ chain.unchecked fresh

/-- A chain has come to a match behind the results in front, all of which it has checked. -/
structure Meets (before : List Outcome) (fresh : List Number) (front : List Outcome)
    (outcome : Outcome) (back : List Outcome) : Prop where
  all : front ++ outcome :: back = before ++ Outcome.rolled fresh
  inside : front ++ [outcome] <+: chain.checked before fresh
  hits : front.countP chain.picks = fresh.length
  hit : chain.picks outcome = true

/-- A chain has met one match more than it may roll for, having rolled as often as it may. -/
def Exceeds (before : List Outcome) (cap : Nat) (fresh : List Number) (after : List Outcome) :
    Prop :=
  ∃ front outcome back, chain.Meets before fresh front outcome back ∧ fresh.length = cap ∧
    after = front.map chain.check ++ outcome :: back

/-- A chain has met and marked a match for which it might have rolled. -/
def Breaks (before : List Outcome) (cap : Nat) (fresh : List Number) (after : List Outcome) :
    Prop :=
  ∃ front outcome back, chain.Meets before fresh front outcome back ∧ fresh.length < cap ∧
    after = (front ++ [outcome]).map chain.check ++ back

/-! ## The next match -/

theorem firstFrom_eq_none {position : Nat} {outcomes : List Outcome}
    (found : chain.firstFrom position outcomes = .ok none) :
    ∀ outcome ∈ outcomes, chain.picks outcome = false := by
  induction outcomes generalizing position with
  | nil => exact nofun
  | cons outcome rest ih =>
    unfold firstFrom at found
    cases tested : chain.selects outcome with
    | error fault =>
      rw [tested] at found
      cases found
    | ok picked =>
      rw [tested] at found
      cases picked with
      | true => cases found
      | false =>
        refine List.forall_mem_cons.2 ⟨?_, ih found⟩
        rw [picks, tested]

theorem firstFrom_eq_some {position place : Nat} {outcomes : List Outcome}
    (found : chain.firstFrom position outcomes = .ok (some place)) :
    ∃ skipped outcome rest, outcomes = skipped ++ outcome :: rest ∧
      place = position + skipped.length ∧ chain.picks outcome = true ∧
      ∀ other ∈ skipped, chain.picks other = false := by
  induction outcomes generalizing position with
  | nil => cases found
  | cons outcome rest ih =>
    unfold firstFrom at found
    cases tested : chain.selects outcome with
    | error fault =>
      rw [tested] at found
      cases found
    | ok picked =>
      rw [tested] at found
      have same : chain.picks outcome = picked := by rw [picks, tested]
      cases picked with
      | true =>
        cases found
        exact ⟨[], outcome, rest, rfl, rfl, same, fun _ member => absurd member List.not_mem_nil⟩
      | false =>
        rcases ih found with ⟨skipped, other, behind, rfl, rfl, hit, missed⟩
        refine ⟨outcome :: skipped, other, behind, rfl, ?_, hit,
          List.forall_mem_cons.2 ⟨same, missed⟩⟩
        rw [List.length_cons, Nat.add_assoc, Nat.add_comm 1]

/-- Outcomes of which none matches are left as they are. -/
theorem map_check_of_missed {outcomes : List Outcome}
    (missed : ∀ outcome ∈ outcomes, chain.picks outcome = false) :
    outcomes.map chain.check = outcomes := by
  refine (List.map_congr_left fun outcome member => ?_).trans (List.map_id outcomes)
  rw [check, missed outcome member, if_neg Bool.false_ne_true]
  rfl

theorem countP_of_missed {outcomes : List Outcome}
    (missed : ∀ outcome ∈ outcomes, chain.picks outcome = false) :
    outcomes.countP chain.picks = 0 :=
  List.countP_eq_zero.2 fun outcome member => missed outcome member ▸ Bool.false_ne_true

/-! ## Turns -/

/-- Where a chain stands that has checked the results in front: for each match among them one more
result has been rolled. -/
structure Walked (before : List Outcome) (fresh : List Number) (front back : List Outcome) :
    Prop where
  all : front ++ back = before ++ Outcome.rolled fresh
  hits : front.countP chain.picks = fresh.length
  once : chain.recursive = false → front.length ≤ before.length

/-- The outcomes that a chain has yet to check. -/
def ahead (before front back : List Outcome) : List Outcome :=
  if chain.recursive then back else back.take (before.length - front.length)

theorem next?_walked (before front back : List Outcome) :
    chain.next? before.length front.length (front.map chain.check ++ back) =
      chain.firstFrom front.length (chain.ahead before front back) := by
  have length : (front.map chain.check).length = front.length := List.length_map _
  unfold next? ahead
  cases chain.recursive with
  | true => simp [List.drop_left' length]
  | false => simp [List.drop_take, List.drop_left' length]

variable {chain} {before front back : List Outcome} {fresh : List Number}

/-- What is ahead completes what the chain checks, and the rest is what it does not check. -/
theorem Walked.ahead (walked : chain.Walked before fresh front back) :
    front ++ chain.ahead before front back = chain.checked before fresh ∧
      back = chain.ahead before front back ++ chain.unchecked fresh := by
  have all := walked.all
  unfold Chain.ahead checked unchecked
  cases kind : chain.recursive with
  | true => exact ⟨all, (List.append_nil back).symm⟩
  | false =>
    have short := walked.once kind
    have whole : front ++ back.take (before.length - front.length) = before := by
      have taken := congrArg (List.take before.length) all
      rwa [List.take_left, List.take_append, List.take_of_length_le short] at taken
    have rest : back.drop (before.length - front.length) = Outcome.rolled fresh := by
      have dropped := congrArg (List.drop before.length) all
      rwa [List.drop_left, List.drop_append, List.drop_of_length_le short,
        List.nil_append] at dropped
    refine ⟨whole, ?_⟩
    rw [if_neg Bool.false_ne_true, if_neg Bool.false_ne_true, ← rest, List.take_append_drop]

/-- A chain that finds no further match has come to its end. -/
theorem Walked.completes_of_none (walked : chain.Walked before fresh front back) {cap : Nat}
    (limited : fresh.length ≤ cap)
    (found : chain.next? before.length front.length (front.map chain.check ++ back) = .ok none) :
    chain.Completes before cap fresh (front.map chain.check ++ back) := by
  rw [next?_walked] at found
  have missed := chain.firstFrom_eq_none found
  rcases walked.ahead with ⟨whole, rest⟩
  refine ⟨limited, ?_, ?_⟩
  · rw [← whole, List.countP_append, walked.hits, chain.countP_of_missed missed, Nat.add_zero]
  · rw [← whole, List.map_append, chain.map_check_of_missed missed, List.append_assoc, ← rest]

/-- The next match is met behind what is skipped before it, which counts as checked. -/
theorem Walked.meets (walked : chain.Walked before fresh front back) {place : Nat}
    (found : chain.next? before.length front.length (front.map chain.check ++ back) =
      .ok (some place)) :
    ∃ skipped outcome behind, chain.Meets before fresh (front ++ skipped) outcome behind ∧
      place = (front ++ skipped).length ∧
      front.map chain.check ++ back =
        (front ++ skipped).map chain.check ++ outcome :: behind := by
  rw [next?_walked] at found
  rcases chain.firstFrom_eq_some found with ⟨skipped, outcome, rest, split, rfl, hit, missed⟩
  rcases walked.ahead with ⟨whole, behind⟩
  rw [split] at whole behind
  have next : back = skipped ++ outcome :: (rest ++ chain.unchecked fresh) := by
    rw [behind, List.append_assoc, List.cons_append]
  refine ⟨skipped, outcome, rest ++ chain.unchecked fresh, ⟨?_, ?_, ?_, hit⟩,
    List.length_append.symm, ?_⟩
  · rw [← walked.all, next, List.append_assoc]
  · exact ⟨rest, by rw [← whole]; simp⟩
  · rw [List.countP_append, walked.hits, chain.countP_of_missed missed, Nat.add_zero]
  · rw [next, List.map_append, chain.map_check_of_missed missed, List.append_assoc]

theorem modify_length_append {α : Type} (f : α → α) (front : List α) (a : α) (back : List α) :
    (front ++ a :: back).modify front.length f = front ++ f a :: back := by
  induction front with
  | nil => rfl
  | cons first front ih => exact congrArg (first :: ·) ih

/-- A match that is met is marked. -/
theorem Meets.marked {outcome : Outcome} (meets : chain.Meets before fresh front outcome back) :
    (front.map chain.check ++ outcome :: back).modify front.length chain.mark =
      (front ++ [outcome]).map chain.check ++ back := by
  have marked : chain.check outcome = chain.mark outcome := if_pos meets.hit
  rw [← List.length_map chain.check, modify_length_append, List.map_append, List.map_singleton,
    marked, List.append_assoc]
  rfl

/-- A chain goes on behind a match that it has met, once it has rolled. -/
theorem Meets.walked {outcome : Outcome} (meets : chain.Meets before fresh front outcome back)
    (value : Number) :
    chain.Walked before (fresh ++ [value]) (front ++ [outcome])
      (back ++ Outcome.rolled [value]) := by
  refine ⟨?_, ?_, fun once => ?_⟩
  · have more : Outcome.rolled (fresh ++ [value]) = Outcome.rolled fresh ++ Outcome.rolled [value] :=
      List.map_append
    rw [more, ← List.append_assoc before, ← meets.all]
    simp
  · rw [List.countP_append, meets.hits, List.countP_singleton, if_pos meets.hit,
      List.length_append]
    rfl
  · have inside := meets.inside
    rw [checked, once, if_neg Bool.false_ne_true] at inside
    exact inside.length_le

/-! ## What a chain leaves -/

variable (chain) (before fresh) in
theorem checked_append_unchecked :
    chain.checked before fresh ++ chain.unchecked fresh = before ++ Outcome.rolled fresh := by
  unfold checked unchecked
  split
  · exact List.append_nil _
  · rfl

theorem value_check (chain : Chain) (outcome : Outcome) :
    (chain.check outcome).value = outcome.value := by
  unfold check
  split
  · exact chain.value_mark outcome
  · rfl

theorem isActive_of_picks {outcome : Outcome} (hit : chain.picks outcome = true) :
    outcome.isActive = true := by
  cases active : outcome.isActive with
  | true => rfl
  | false =>
    rw [picks, selects, active] at hit
    cases hit

/-- What has been rerolled does not match any more. -/
theorem picks_check (reroll : chain.explode = false) (outcome : Outcome) :
    chain.picks (chain.check outcome) = false := by
  unfold check
  split
  · cases hit : chain.picks (chain.mark outcome) with
    | false => rfl
    | true =>
      have active := isActive_of_picks hit
      rw [mark, if_neg (reroll ▸ Bool.false_ne_true)] at active
      cases active
  · rename_i missed
    exact Bool.eq_false_iff.2 missed

/-- An outcome that is checked stays active, unless it matches and is rolled again. -/
theorem active_check (chain : Chain) (outcome : Outcome) :
    (if (chain.check outcome).isActive then 1 else 0) +
        (if chain.explode then 0 else if chain.picks outcome then 1 else 0) =
      if outcome.isActive then 1 else 0 := by
  unfold check
  cases hit : chain.picks outcome with
  | false => simp
  | true =>
    rw [if_pos rfl, if_pos rfl, if_pos (isActive_of_picks hit), mark]
    cases chain.explode with
    | true => exact congrArg (· + 0) (if_pos (isActive_of_picks hit))
    | false => rfl

/-- To explode leaves active what is, and to reroll what does not match. -/
theorem countP_map_check (chain : Chain) (outcomes : List Outcome) :
    (outcomes.map chain.check).countP Outcome.isActive +
        (if chain.explode then 0 else outcomes.countP chain.picks) =
      outcomes.countP Outcome.isActive := by
  induction outcomes with
  | nil => cases chain.explode <;> rfl
  | cons outcome rest ih =>
    have here := chain.active_check outcome
    rw [List.map_cons, List.countP_cons, List.countP_cons, List.countP_cons, ← ih, ← here]
    cases chain.explode with
    | true => exact Nat.add_right_comm _ _ 0
    | false => exact Nat.add_add_add_comm ..

theorem countP_rolled (fresh : List Number) :
    (Outcome.rolled fresh).countP Outcome.isActive = fresh.length := by
  rw [List.countP_eq_length.2, Outcome.rolled, List.length_map]
  intro outcome member
  rcases List.mem_map.1 member with ⟨_, _, rfl⟩
  rfl

section

variable {cap : Nat} {after : List Outcome} (completes : chain.Completes before cap fresh after)
include completes

/-- The values are those that there were, followed by those that were rolled. -/
theorem Completes.values :
    after.map (·.value) = before.map (·.value) ++ fresh.map Json.number := by
  have same : (chain.checked before fresh).map (fun outcome => (chain.check outcome).value) =
      (chain.checked before fresh).map (·.value) :=
    List.map_congr_left fun outcome _ => chain.value_check outcome
  rw [completes.outcomes, List.map_append, List.map_map]
  refine (congrArg (· ++ _) same).trans ?_
  rw [← List.map_append, checked_append_unchecked, List.map_append, Outcome.rolled, List.map_map]
  rfl

/-- An explosion adds as many active results as there were matches, and a reroll adds none. -/
theorem Completes.active :
    after.countP Outcome.isActive =
      before.countP Outcome.isActive + if chain.explode then fresh.length else 0 := by
  have whole : (chain.checked before fresh).countP Outcome.isActive +
      (chain.unchecked fresh).countP Outcome.isActive =
        before.countP Outcome.isActive + fresh.length := by
    rw [← List.countP_append, checked_append_unchecked, List.countP_append, countP_rolled]
  have marked := chain.countP_map_check (chain.checked before fresh)
  rw [completes.hits] at marked
  rw [completes.outcomes, List.countP_append]
  cases kind : chain.explode with
  | true =>
    rw [kind, if_pos rfl] at marked
    rw [if_pos rfl]
    omega
  | false =>
    rw [kind, if_neg Bool.false_ne_true] at marked
    rw [if_neg Bool.false_ne_true]
    omega

/-- To explode switches no result on or off. -/
theorem Completes.flags (explodes : chain.explode = true) :
    after.map (·.active) = before.map (·.active) ++ fresh.map fun _ => .bool true := by
  have same : (chain.checked before fresh).map (fun outcome => (chain.check outcome).active) =
      (chain.checked before fresh).map (·.active) := by
    refine List.map_congr_left fun outcome _ => ?_
    unfold check mark
    rw [if_pos explodes]
    split <;> rfl
  rw [completes.outcomes, List.map_append, List.map_map]
  refine (congrArg (· ++ _) same).trans ?_
  rw [← List.map_append, checked_append_unchecked, List.map_append, Outcome.rolled, List.map_map]
  rfl

/-- A chain that has come to its end has not been cut short. -/
theorem Completes.not_exceeds : ¬ chain.Exceeds before cap fresh after := by
  rintro ⟨front, outcome, back, meets, _, _⟩
  have more := meets.inside.sublist.countP_le (p := chain.picks)
  rw [List.countP_append, meets.hits, List.countP_singleton, if_pos meets.hit,
    completes.hits] at more
  exact Nat.not_succ_le_self _ more

end

end Context.Chain

/-! ## Rolls in the middle of a chain -/

/-- A term is what it was. -/
def Progress.Spares (id : Identity) (before after : Progress) : Prop :=
  after.ledger.term id = before.ledger.term id

theorem Progress.Spares.refl {id : Identity} (progress : Progress) : progress.Spares id progress :=
  rfl

theorem Progress.Spares.updateTerm {id other : Identity} (apart : other ≠ id)
    (change : TermState → TermState) (progress : Progress) :
    progress.Spares id (progress.updateLedger (·.updateTerm other change)) := by
  change (progress.ledger.updateTerm other change).term id = _
  rw [Ledger.term_updateTerm, if_neg apart]

/-- The rule that a term stays what it is. -/
def FrameRule.sparing (id : Identity) : FrameRule (· ≠ id) where
  holds := Progress.Spares id
  refl _ := rfl
  trans first second := Eq.trans second first
  term change apart _ progress := .updateTerm apart change progress
  enter apart _ := .updateTerm apart _ _
  leave apart progress := .updateTerm apart _ progress
  start _ _ := Ledger.term_updateRoll ..
  finish _ _ since _ :=
    (Ledger.term_updateRoll ..).trans (Eq.trans since (Ledger.term_updateRoll ..))
  aside only := by rw [Progress.Spares, only.ledger]
  asks _ _ := True
  waits _ := Progress.Spares id
  resumes _ asked _ later := asked.Spares id later
  waits_trans first second := Eq.trans second first
  resume first second := Eq.trans second first
  ask _ _ _ _ _ _ := rfl

namespace Step.Reaches

variable {α β : Type} {others : Progress → Progress → Prop}

/-- What keeps sparing a term has spared it wherever it stands, if others spare it too. -/
theorem spares {id : Identity} {start last : Progress} {step : Step α}
    {outcome : Option (Except Fault α)} (reaches : step.Reaches (Progress.Spares id) outcome last)
    (keeps : step.Keeps (FrameRule.sparing id) start) : start.Spares id last := by
  induction reaches with
  | done result last => exact keeps
  | waiting request asked resume => exact keeps.1
  | resumed meanwhile answer reaches ih => exact ih (keeps.2 answer _ meanwhile)

/-- A run is done sooner or later if every request is answered. -/
theorem exists_done (idle : ∀ progress, others progress progress) (step : Step α) :
    ∃ result last, step.Reaches others (some result) last := by
  induction step with
  | done result last => exact ⟨result, last, .done _ _⟩
  | wait request asked resume ih =>
    rcases ih .released asked with ⟨result, last, reaches⟩
    exact ⟨result, last, .resumed (idle asked) _ reaches⟩

/-- One evaluation after another is done if the first one failed, or the second one is done that
goes on with its value. -/
theorem of_bind {first : Evaluation α} {next : α → Evaluation β} {progress last : Progress}
    {result : Except Fault β}
    (reaches : ((first >>= next) progress).Reaches others (some result) last) :
    (∃ fault, result = .error fault ∧ (first progress).Reaches others (some (.error fault)) last) ∨
      ∃ a middle, (first progress).Reaches others (some (.ok a)) middle ∧
        (next a middle).Reaches others (some result) last := by
  rcases of_andThen reaches with ⟨given, middle, before, rest⟩ | ⟨none, _⟩
  · cases given with
    | error fault =>
      obtain ⟨is, rfl⟩ := of_done rest
      cases is
      exact .inl ⟨fault, rfl, before⟩
    | ok a => exact .inr ⟨a, middle, before, rest⟩
  · cases none

end Step.Reaches

/-- What a uniform value picks is a number. -/
theorem Ledger.number_of_mapUniform {ledger : Ledger} {dice : Dice} {u value : Json}
    (picked : ledger.mapUniform dice u = .ok value) : ∃ n : Number, value = .number n := by
  have any {α : Type} (result : Except Fault α) :
      Yields (fun _ => True) (fun _ => True) result := by
    cases result <;> trivial
  have yields : Yields (fun _ => True) (fun value => ∃ n : Number, value = .number n)
      (ledger.mapUniform dice u) := by
    refine (any (ledger.maximumValue dice)).bind fun maximum _ => ?_
    split
    · trivial
    · rename_i most _
      refine (any _).bind fun size _ => (any _).bind fun u _ => ?_
      cases liftNumber (pickUniform dice.kind.minimum most u) with
      | error fault => trivial
      | ok n => exact ⟨n, rfl⟩
  rw [picked] at yields
  exact yields

/-- What dice can show is a number. -/
theorem Ledger.number_of_accepts {ledger : Ledger} {dice : Dice} {value : Json}
    (shown : ledger.accepts dice value = .ok true) : ∃ n : Number, value = .number n := by
  cases value with
  | number n => exact ⟨n, rfl⟩
  | _ => cases shown

namespace Context

variable {context : Context} {dice : Dice} {progress last : Progress} {reroll explode : Bool}

/-- A value that was given counts only if it is a number. -/
theorem shown_reaches {others : Progress → Progress → Prop} {given value : Json}
    (reaches : ((do
      if ← Evaluation.read (·.accepts dice given) then return given
      else
        let method ← methodOf dice
        naming dice (.fail (.use (.impossibleResult given.quoted dice.formula method.plainText)))
      : Evaluation Json) progress).Reaches others (some (.ok value)) last) :
    ∃ n : Number, value = .number n := by
  rcases Step.Reaches.of_bind reaches with ⟨_, is, _⟩ | ⟨choice, later, reads, rest⟩
  · cases is
  cases choice with
  | true =>
    rcases Step.Reaches.of_done rest with ⟨same, _⟩
    cases same
    exact Ledger.number_of_accepts (Option.some.inj (Step.Reaches.of_done reads).1).symm
  | false =>
    rcases Step.Reaches.of_bind rest with ⟨_, is, _⟩ | ⟨method, later, _, rest⟩
    · cases is
    · change ((naming dice (.fail _) : Evaluation Json) later).Reaches _ _ _ at rest
      unfold naming at rest
      split at rest <;> cases (Step.Reaches.of_done rest).1

/-- A die that is drawn shows a number. -/
theorem draw_reaches {others : Progress → Progress → Prop} {value : Json}
    (reaches : (context.draw dice reroll explode progress).Reaches others (some (.ok value)) last) :
    ∃ n : Number, value = .number n := by
  rcases Step.Reaches.of_bind reaches with ⟨_, is, _⟩ | ⟨name, _, _, reaches⟩
  · cases is
  rcases Step.Reaches.of_bind reaches with ⟨_, is, _⟩ | ⟨given, asked, _, reaches⟩
  · cases is
  cases given with
  | null =>
    rcases Step.Reaches.of_done reaches with ⟨picked, _⟩
    exact Ledger.number_of_mapUniform (Option.some.inj picked).symm
  | _ => exact shown_reaches reaches

/-- A die that is rolled shows one more number, and nothing else about it has changed. -/
theorem rollOne_reaches (varies : context.isFixed = false) {outcome : Outcome}
    (reaches : (context.rollOne dice reroll explode progress).Reaches
      (Progress.Spares dice.tag.id) (some (.ok outcome)) last) :
    ∃ n : Number, last.ledger.term dice.tag.id = { progress.ledger.term dice.tag.id with
      outcomes := progress.ledger.outcomes dice.tag.id ++ [{ value := .number n }] } := by
  rcases Step.Reaches.of_bind reaches with ⟨_, is, _⟩ | ⟨evaluated, start, reads, reaches⟩
  · cases is
  obtain ⟨_, rfl⟩ := Step.Reaches.of_done reads
  cases evaluated with
  | true =>
    change ((naming dice (.fail _) : Evaluation Outcome) _).Reaches _ _ _ at reaches
    unfold naming at reaches
    split at reaches <;> cases (Step.Reaches.of_done reaches).1
  | false =>
    rcases Step.Reaches.of_bind reaches with ⟨_, is, _⟩ | ⟨value, drawn, draws, reaches⟩
    · cases is
    have ⟨lowest, highest⟩ := Bool.or_eq_false_iff.1 varies
    rw [context.nextResult_eq_draw lowest highest] at draws
    rcases draw_reaches draws with ⟨n, rfl⟩
    have spared : start.Spares dice.tag.id drawn :=
      draws.spares (keeps_draw (fun _ _ => trivial) reroll explode start)
    obtain ⟨_, rfl⟩ := Step.Reaches.of_done reaches
    refine ⟨n, ?_⟩
    change (drawn.ledger.updateTerm dice.tag.id _).term dice.tag.id = _
    rw [Ledger.term_updateTerm, if_pos rfl, spared]
    rfl

/-- A roll that fails leaves the die as it was. -/
theorem rollOne_fails (varies : context.isFixed = false) {fault : Fault}
    (reaches : (context.rollOne dice reroll explode progress).Reaches
      (Progress.Spares dice.tag.id) (some (.error fault)) last) :
    progress.Spares dice.tag.id last := by
  rcases Step.Reaches.of_bind reaches with ⟨_, _, reads⟩ | ⟨evaluated, start, reads, reaches⟩
  · cases (Step.Reaches.of_done reads).1
  obtain ⟨_, rfl⟩ := Step.Reaches.of_done reads
  cases evaluated with
  | true =>
    change ((naming dice (.fail _) : Evaluation Outcome) _).Reaches _ _ _ at reaches
    unfold naming at reaches
    split at reaches <;> exact congrArg (·.ledger.term dice.tag.id) (Step.Reaches.of_done reaches).2
  | false =>
    have ⟨lowest, highest⟩ := Bool.or_eq_false_iff.1 varies
    rcases Step.Reaches.of_bind reaches with ⟨_, _, draws⟩ | ⟨value, drawn, _, reaches⟩
    · rw [context.nextResult_eq_draw lowest highest] at draws
      exact draws.spares (keeps_draw (fun _ _ => trivial) reroll explode start)
    · cases (Step.Reaches.of_done reaches).1

/-! ## Whole chains -/

/-- A roll of a chain failed, when the die was as it was at the start but for its results.  This
happens if the die does not roll any more, or if what is drawn for it is nothing that it can
show. -/
def RollFails (context : Context) (dice : Dice) (explode : Bool) (start : Progress)
    (fault : Fault) : Prop :=
  ∃ begun last outcomes, begun.ledger.term dice.tag.id =
      { start.ledger.term dice.tag.id with outcomes := outcomes } ∧
    (context.rollOne dice (!explode) explode begun).Reaches (Progress.Spares dice.tag.id)
      (some (.error fault)) last

/-- How a chain has ended, if nobody else changes the state of the die while it waits. -/
inductive Chain.Ended (context : Context) (dice : Dice) (command : Command) (chain : Chain)
    (cap : Nat) (start : Progress) (fresh : List Number) (last : Progress) :
    Except Fault Unit → Prop
  | completed (completes : chain.Completes (start.ledger.outcomes dice.tag.id) cap fresh
      (last.ledger.outcomes dice.tag.id)) :
    Ended context dice command chain cap start fresh last (.ok ())
  | exceeded (exceeds : chain.Exceeds (start.ledger.outcomes dice.tag.id) cap fresh
      (last.ledger.outcomes dice.tag.id)) :
    Ended context dice command chain cap start fresh last
      (.error (.modifier (.tooManyRolls context.maxChainRolls) dice.formula command.raw))
  | failed {fault : Fault} (breaks : chain.Breaks (start.ledger.outcomes dice.tag.id) cap fresh
      (last.ledger.outcomes dice.tag.id)) (fails : context.RollFails dice chain.explode start fault) :
    Ended context dice command chain cap start fresh last (.error fault)

/-- Results can be compared in the middle of a chain if they could before it. -/
theorem Chain.Walked.areNumbers {chain : Chain} {before front back : List Outcome}
    {fresh : List Number} (walked : chain.Walked before fresh front back)
    (numbers : Outcome.AreNumbers before) :
    Outcome.AreNumbers (front.map chain.check ++ back) := by
  have all : Outcome.AreNumbers (front ++ back) := by
    rw [walked.all]
    refine List.forall_mem_append.2 ⟨numbers, fun outcome member => ?_⟩
    rcases List.mem_map.1 member with ⟨n, _, rfl⟩
    exact ⟨n, rfl⟩
  have ⟨checked, rest⟩ := List.forall_mem_append.1 all
  refine List.forall_mem_append.2 ⟨fun outcome member => ?_, rest⟩
  rcases List.mem_map.1 member with ⟨other, inside, rfl⟩
  rw [chain.value_check]
  exact checked other inside

/-- A turn of a chain among numbers: it has come to its end, or it is cut short at the next match,
or it marks that match and rolls once. -/
theorem runChain_turn {command : Command} {chain : Chain} {target : Number}
    (aimed : chain.target = .number target) {outcomes : List Outcome}
    (numbers : Outcome.AreNumbers outcomes)
    (same : progress.ledger.outcomes dice.tag.id = outcomes) {initial left checked : Nat}
    {others : Progress → Progress → Prop} {result : Except Fault Unit}
    (reaches : (context.runChain dice command chain initial left checked progress).Reaches others
      (some result) last) :
    (chain.next? initial checked outcomes = .ok none ∧ result = .ok () ∧ last = progress) ∨
    ∃ place, chain.next? initial checked outcomes = .ok (some place) ∧
      ((left = 0 ∧ last = progress ∧ result =
          .error (.modifier (.tooManyRolls context.maxChainRolls) dice.formula command.raw)) ∨
        ∃ fewer, left = fewer + 1 ∧
          ((context.rollOne dice (!chain.explode) chain.explode >>= fun _ =>
            context.runChain dice command chain initial fewer (place + 1))
              (progress.marking dice chain place)).Reaches others (some result) last) := by
  subst same
  rcases Chain.next?_ok aimed numbers initial checked with ⟨next, found⟩
  have reads : Evaluation.read (fun ledger =>
      chain.next? initial checked (ledger.outcomes dice.tag.id)) progress =
      .done (.ok next) progress := congrArg (Step.done · progress) found
  unfold runChain at reaches
  rw [Evaluation.bind_done reads] at reaches
  cases next with
  | none =>
    obtain ⟨is, rfl⟩ := Step.Reaches.of_done reaches
    exact .inl ⟨found, Option.some.inj is, rfl⟩
  | some place =>
    refine .inr ⟨place, found, ?_⟩
    cases left with
    | zero =>
      obtain ⟨is, rfl⟩ := Step.Reaches.of_done reaches
      exact .inl ⟨rfl, rfl, Option.some.inj is⟩
    | succ fewer => exact .inr ⟨fewer, rfl, reaches⟩

/-- What is left of a die when a match that is met has been marked. -/
theorem Chain.Meets.marking {chain : Chain} {before front behind : List Outcome}
    {fresh : List Number} {outcome : Outcome} {state : TermState}
    (meets : chain.Meets before fresh front outcome behind)
    (stands : progress.ledger.term dice.tag.id =
      { state with outcomes := front.map chain.check ++ outcome :: behind }) :
    (progress.marking dice chain front.length).ledger.term dice.tag.id =
      { state with outcomes := (front ++ [outcome]).map chain.check ++ behind } := by
  change (progress.ledger.updateTerm dice.tag.id _).term dice.tag.id = _
  rw [Ledger.term_updateTerm, if_pos rfl, stands, meets.marked]

/-- From wherever a chain stands, it ends in one of these ways.  The induction is on the rolls that
are left; the results that have been checked are kept apart from the others. -/
theorem runChain_ended {command : Command} {chain : Chain} {target : Number} {start : Progress}
    (varies : context.isFixed = false) (aimed : chain.target = .number target)
    (numbers : Outcome.AreNumbers (start.ledger.outcomes dice.tag.id)) {cap : Nat}
    {front back : List Outcome} {fresh : List Number}
    (walked : chain.Walked (start.ledger.outcomes dice.tag.id) fresh front back)
    (left : Nat) (enough : fresh.length + left = cap)
    (state : progress.ledger.term dice.tag.id = { start.ledger.term dice.tag.id with
      outcomes := front.map chain.check ++ back })
    {result : Except Fault Unit}
    (reaches : (context.runChain dice command chain
      (start.ledger.outcomes dice.tag.id).length left front.length progress).Reaches
        (Progress.Spares dice.tag.id) (some result) last) :
    ∃ fresh, chain.Ended context dice command cap start fresh last result := by
  induction left using Nat.strongRecOn generalizing progress front back fresh with
  | ind left ih =>
  have outcomes : progress.ledger.outcomes dice.tag.id = front.map chain.check ++ back :=
    congrArg TermState.outcomes state
  rcases runChain_turn aimed (walked.areNumbers numbers) outcomes reaches with
    ⟨found, rfl, rfl⟩ | ⟨place, found, turn⟩
  · exact ⟨fresh, .completed (outcomes ▸ walked.completes_of_none (Nat.le.intro enough) found)⟩
  rcases walked.meets found with ⟨skipped, outcome, behind, meets, rfl, same⟩
  rcases turn with ⟨rfl, rfl, rfl⟩ | ⟨fewer, rfl, rest⟩
  · exact ⟨fresh, .exceeded ⟨_, _, _, meets, enough, outcomes.trans same⟩⟩
  have marked := meets.marking (same ▸ state)
  rcases Step.Reaches.of_bind rest with ⟨fault, rfl, fails⟩ | ⟨shown, later, rolls, rest⟩
  · have spared := rollOne_fails varies fails
    have allowed : fresh.length < cap := by omega
    refine ⟨fresh, .failed ⟨_, _, _, meets, allowed, ?_⟩ ⟨_, last, _, marked, fails⟩⟩
    rw [Ledger.outcomes, spared, marked]
  · rcases rollOne_reaches varies rolls with ⟨value, rolled⟩
    have place : (front ++ skipped).length + 1 = (front ++ skipped ++ [outcome]).length := by
      simp only [List.length_append, List.length_singleton]
    have stands : later.ledger.term dice.tag.id = { start.ledger.term dice.tag.id with
        outcomes := (front ++ skipped ++ [outcome]).map chain.check ++
          (behind ++ Outcome.rolled [value]) } := by
      rw [rolled, Ledger.outcomes, marked, ← List.append_assoc]
      rfl
    have used : (fresh ++ [value]).length + fewer = cap := by
      rw [List.length_append, List.length_singleton, ← enough]
      omega
    rw [place] at rest
    exact ih fewer (Nat.lt_succ_self fewer) (meets.walked value) used stands rest

/-- A chain begins with nothing checked and nothing rolled. -/
theorem Chain.walked_start (chain : Chain) (before : List Outcome) :
    chain.Walked before [] [] before :=
  ⟨(List.append_nil before).symm, rfl, fun _ => Nat.zero_le _⟩

section

variable {command : Command} {chain : Chain} {cap : Nat} {start : Progress} {fresh : List Number}
  {result : Except Fault Unit} (ended : chain.Ended context dice command cap start fresh last result)
include ended

/-- A chain never rolls more often than it may. -/
theorem Chain.Ended.limited : fresh.length ≤ cap := by
  cases ended with
  | completed completes => exact completes.limited
  | exceeded exceeds =>
    rcases exceeds with ⟨_, _, _, _, limit, _⟩
    exact Nat.le_of_eq limit
  | failed breaks _ =>
    rcases breaks with ⟨_, _, _, _, limit, _⟩
    exact Nat.le_of_lt limit

/-- Unless a roll fails, a chain is refused if and only if it meets one match too many. -/
theorem Chain.Ended.refused_iff
    (rolls : ∀ fault, result = .error fault → ¬ context.RollFails dice chain.explode start fault) :
    result = .error (.modifier (.tooManyRolls context.maxChainRolls) dice.formula command.raw) ↔
      chain.Exceeds (start.ledger.outcomes dice.tag.id) cap fresh
        (last.ledger.outcomes dice.tag.id) := by
  cases ended with
  | completed completes => exact ⟨nofun, fun exceeds => absurd exceeds completes.not_exceeds⟩
  | exceeded exceeds => exact ⟨fun _ => exceeds, fun _ => rfl⟩
  | failed _ fails => exact absurd fails (rolls _ rfl)

end

/-- What a chain has left that came to its end: the results that there were with one more for each
match, and the marks of the matches among the results that it checked. -/
structure Chain.Leaves (chain : Chain) (before : List Outcome) (cap : Nat) (fresh : List Number)
    (after : List Outcome) : Prop extends chain.Completes before cap fresh after where
  values : after.map (·.value) = before.map (·.value) ++ fresh.map Json.number
  rerolled : chain.explode = false →
    after.countP Outcome.isActive = before.countP Outcome.isActive ∧
      ∀ outcome ∈ (chain.checked before fresh).map chain.check, chain.picks outcome = false
  exploded : chain.explode = true →
    after.countP Outcome.isActive = before.countP Outcome.isActive + fresh.length ∧
      after.map (·.active) = before.map (·.active) ++ fresh.map fun _ => .bool true

theorem Chain.Completes.leaves {chain : Chain} {before after : List Outcome} {cap : Nat}
    {fresh : List Number} (completes : chain.Completes before cap fresh after) :
    chain.Leaves before cap fresh after where
  toCompletes := completes
  values := completes.values
  rerolled rerolls := by
    refine ⟨?_, fun outcome member => ?_⟩
    · rw [completes.active, rerolls]
      rfl
    · rcases List.mem_map.1 member with ⟨other, _, rfl⟩
      exact Chain.picks_check rerolls other
  exploded explodes := by
    refine ⟨?_, completes.flags explodes⟩
    rw [completes.active, explodes]
    rfl

/-- What a chain checks are the results that there were, and no more than those that it adds. -/
theorem Chain.length_checked_le (chain : Chain) (before : List Outcome) (fresh : List Number) :
    (chain.checked before fresh).length ≤ before.length + fresh.length := by
  have all := congrArg List.length (chain.checked_append_unchecked before fresh)
  rw [List.length_append, List.length_append, Outcome.rolled, List.length_map] at all
  exact all ▸ Nat.le_add_right _ _

/-- Outside of fixed rolls a chain stops, whatever is drawn for it: it checks at most the results
that there were and as many more as it may roll for.  If it succeeds it leaves one new result for
each match that it checked.  If no roll fails, it is refused exactly when it meets one match more
than it may roll for. -/
theorem chain_stops {command : Command} {recursive : Bool} {start : Progress} {target : Number}
    (varies : context.isFixed = false)
    (aimed : chainTarget start.ledger dice command explode = .ok (.number target))
    (numbers : Outcome.AreNumbers (start.ledger.outcomes dice.tag.id)) :
    let chain : Chain := ⟨recursive, explode, command.comparator.getD .equal, .number target⟩
    let before := start.ledger.outcomes dice.tag.id
    let cap := context.maxChainRolls.toNat
    let work := context.chain dice command recursive explode start
    (∃ result last, work.Reaches (Progress.Spares dice.tag.id) (some result) last) ∧
    ∀ result last, work.Reaches (Progress.Spares dice.tag.id) (some result) last →
      ∃ fresh, chain.Ended context dice command cap start fresh last result ∧
        (chain.checked before fresh).length ≤ before.length + cap ∧
        (result = .ok () →
          chain.Leaves before cap fresh (last.ledger.outcomes dice.tag.id)) ∧
        ((∀ fault, result = .error fault → ¬ context.RollFails dice explode start fault) →
          (result =
              .error (.modifier (.tooManyRolls context.maxChainRolls) dice.formula command.raw) ↔
            chain.Exceeds before cap fresh (last.ledger.outcomes dice.tag.id))) := by
  intro chain before cap work
  refine ⟨Step.Reaches.exists_done Progress.Spares.refl work, fun result last reaches => ?_⟩
  have runs : work = context.runChain dice command chain before.length cap 0 start := by
    have reads : Evaluation.read (fun ledger => chainTarget ledger dice command explode) start =
        .done (.ok (.number target)) start := congrArg (Step.done · start) aimed
    change context.chain dice command recursive explode start = _
    unfold Context.chain
    rw [Evaluation.bind_done reads, varies]
    rfl
  rw [runs] at reaches
  rcases runChain_ended varies rfl numbers (chain.walked_start before) cap (Nat.zero_add cap) rfl
    reaches with ⟨fresh, ended⟩
  refine ⟨fresh, ended, ?_, fun succeeds => ?_, ended.refused_iff⟩
  · exact (chain.length_checked_le before fresh).trans (Nat.add_le_add_left ended.limited _)
  · subst succeeds
    cases ended with
    | completed completes => exact completes.leaves

/-- Two dice of six faces. -/
def twoDice : Dice := ⟨⟨0, []⟩, .numbered, .known 2, .known 6, []⟩

/-- A context in which a six is drawn first, and ones after it, and in which a chain may roll
twice. -/
def sixThenOnes : Context :=
  ({} : Options).contextWith ⟨Build.usual, false, fun k => if k = 0 then 0.9375 else 0.125, none⟩
    false 2

/-- The dice show a six and a three. -/
def sixAndThree : Progress :=
  .ofLedger (Ledger.empty.updateTerm 0 fun state =>
    { state with outcomes := Outcome.rolled [.int 6, .int 3], method := .string "random" })

/-- The explosion of the highest results. -/
def explosion : Command := ⟨"x", "x", none, none⟩

/-- Whether a run has succeeded with so many results of the dice. -/
def succeedsWith (results : Nat) : Step Unit → Bool
  | .done (.ok ()) last => (last.ledger.outcomes twoDice.tag.id).length == results
  | _ => false

/-- The six explodes into a six, which explodes into a one: this takes the two rolls that are
allowed, and four results are active. -/
theorem chain_stops_of_sixes :
    sixThenOnes.isFixed = false ∧
    chainTarget sixAndThree.ledger twoDice explosion true = .ok (.number (.int 6)) ∧
    Outcome.AreNumbers (sixAndThree.ledger.outcomes twoDice.tag.id) ∧
    ∃ (last : Progress) (fresh : List Number),
      sixThenOnes.chain twoDice explosion true true sixAndThree = .done (.ok ()) last ∧
      fresh.length = 2 ∧
      (last.ledger.outcomes twoDice.tag.id).map (·.value) =
        [.number (.int 6), .number (.int 3)] ++ fresh.map Json.number ∧
      (last.ledger.outcomes twoDice.tag.id).countP Outcome.isActive = 4 := by
  have numbers : Outcome.AreNumbers (sixAndThree.ledger.outcomes twoDice.tag.id) := by
    have shown : sixAndThree.ledger.outcomes twoDice.tag.id = Outcome.rolled [.int 6, .int 3] := rfl
    rw [shown]
    intro outcome member
    rcases List.mem_map.1 member with ⟨n, _, rfl⟩
    exact ⟨n, rfl⟩
  have computed : succeedsWith 4
      (sixThenOnes.chain twoDice explosion true true sixAndThree) = true := by decide +kernel
  refine ⟨rfl, rfl, numbers, ?_⟩
  cases run : sixThenOnes.chain twoDice explosion true true sixAndThree with
  | wait request asked resume =>
    rw [run] at computed
    cases computed
  | done result last =>
    rw [run] at computed
    cases result with
    | error fault => cases computed
    | ok done =>
      have reaches : (sixThenOnes.chain twoDice explosion true true sixAndThree).Reaches
          (Progress.Spares twoDice.tag.id) (some (.ok ())) last := by
        rw [run]
        exact .done _ _
      rcases (@chain_stops sixThenOnes twoDice true explosion true sixAndThree (.int 6) rfl rfl
        numbers).2 _ _ reaches with ⟨fresh, _, _, leaves, _⟩
      have left := leaves rfl
      have two : fresh.length = 2 := by
        have all := congrArg List.length left.values
        rw [List.length_map, beq_iff_eq.1 computed, List.length_append, List.length_map,
          List.length_map] at all
        exact Nat.add_left_cancel (n := 2) all.symm
      refine ⟨last, fresh, rfl, two, left.values, ?_⟩
      rw [(left.exploded rfl).1, two]
      rfl

end Context
end DiceNotation
