import DiceNotation.Proofs.Dice.Selections

namespace DiceNotation

/-!
# Laws of keeping and dropping

To keep some of the best outcomes is to drop the others, which are the worst: the order in which
outcomes are dropped is the order in which they are kept, turned around, among equal values too.
To keep twice is to keep the smaller number, and to drop twice is to drop both numbers together.

Each selection discards the active outcomes whose ranks do not pass a test.  Of what a first
selection leaves, the ranks are the same as before if outcomes were kept, and smaller by the number
of those that were dropped.
-/

/-! ## Counting by keys -/

namespace Ranking

variable {α κ : Type} [LinearOrder κ] (key : α → κ) (elements : List α) {a b : α}

/-- What does not come later has no more elements before it. -/
theorem countP_lt_mono (notLater : key a ≤ key b) :
    elements.countP (fun c => decide (key c < key a)) ≤
      elements.countP (fun c => decide (key c < key b)) :=
  List.countP_mono_left fun _ _ earlier =>
    decide_eq_true ((of_decide_eq_true earlier).trans_le notLater)

/-- In a list without ties every other element stands before or behind a given one. -/
theorem countP_lt_add_countP_gt {elements : List α} (apart : (elements.map key).Nodup)
    (member : a ∈ elements) :
    elements.countP (fun c => decide (key c < key a)) +
      elements.countP (fun c => decide (key a < key c)) + 1 = elements.length := by
  have others {part : List α} (different : ∀ c ∈ part, key c ≠ key a) :
      part.countP (fun c => decide (key c < key a)) +
        part.countP (fun c => decide (key a < key c)) = part.length := by
    rw [List.length_eq_countP_add_countP fun c => decide (key c < key a)]
    refine congrArg _ (List.countP_congr fun c inside => ?_)
    rw [decide_eq_true_iff, decide_eq_true_iff, decide_eq_true_iff, not_lt]
    exact (Ne.le_iff_lt (different c inside).symm).symm
  rcases List.append_of_mem member with ⟨front, back, rfl⟩
  rw [List.map_append, List.map_cons] at apart
  have unique := List.nodup_middle.1 apart
  rw [List.nodup_cons, ← List.map_append] at unique
  have rest : ∀ c ∈ front ++ back, key c ≠ key a := fun c inside same =>
    unique.1 (same ▸ List.mem_map_of_mem inside)
  have counted := others rest
  have aside : ¬ decide (key a < key a) = true := fun less => lt_irrefl _ (of_decide_eq_true less)
  rw [List.countP_append, List.countP_append, List.length_append] at counted
  rw [List.countP_append, List.countP_append, List.countP_cons, List.countP_cons, if_neg aside,
    List.length_append, List.length_cons]
  omega

end Ranking

namespace Selection

/-! ## Sifting -/

/-- Discards the active outcomes that, with their positions, do not pass a test. -/
def sift (stays : Outcome × Nat → Bool) (start : Nat) (outcomes : List Outcome) : List Outcome :=
  (outcomes.zipIdx start).map fun place =>
    if place.1.isActive && !stays place then place.1.discard else place.1

theorem sift_cons (stays : Outcome × Nat → Bool) (start : Nat) (outcome : Outcome)
    (rest : List Outcome) :
    sift stays start (outcome :: rest) =
      (if outcome.isActive && !stays (outcome, start) then outcome.discard else outcome) ::
        sift stays (start + 1) rest := rfl

/-- What is sifted twice has to pass both tests. -/
theorem sift_sift (first later : Outcome × Nat → Bool) (start : Nat) (outcomes : List Outcome) :
    sift later start (sift first start outcomes) =
      sift (fun place => first place && later place) start outcomes := by
  induction outcomes generalizing start with
  | nil => rfl
  | cons outcome rest ih =>
    rw [sift_cons first, sift_cons, sift_cons _ _ outcome, ih]
    have aside : outcome.discard.isActive = false := rfl
    cases active : outcome.isActive with
    | false => simp [active]
    | true => cases first (outcome, start) <;> simp [active, aside]

/-- The outcomes that are active when they have been sifted are those that passed. -/
theorem activePlaces_sift (stays : Outcome × Nat → Bool) (start : Nat) (outcomes : List Outcome) :
    activePlaces start (sift stays start outcomes) = (activePlaces start outcomes).filter stays := by
  induction outcomes generalizing start with
  | nil => rfl
  | cons outcome rest ih =>
    have later := ih (start + 1)
    unfold activePlaces at later ⊢
    rw [sift_cons, List.zipIdx_cons, List.zipIdx_cons, List.filter_cons, List.filter_cons, later]
    have aside : outcome.discard.isActive = false := rfl
    cases active : outcome.isActive with
    | false => simp [active]
    | true => cases passes : stays (outcome, start) <;> simp [active, aside, passes]

/-- Only the active outcomes are tested. -/
theorem sift_congr {first other : Outcome × Nat → Bool} {start : Nat} {outcomes : List Outcome}
    (same : ∀ place ∈ activePlaces start outcomes, first place = other place) :
    sift first start outcomes = sift other start outcomes := by
  refine List.map_congr_left fun place inside => ?_
  cases active : place.1.isActive with
  | false => rfl
  | true => rw [same place (List.mem_filter.2 ⟨inside, active⟩)]

theorem areOrdered_sift {outcomes : List Outcome} (ordered : Outcome.AreOrdered outcomes)
    (stays : Outcome × Nat → Bool) (start : Nat) : Outcome.AreOrdered (sift stays start outcomes) := by
  intro outcome member active
  rcases List.mem_map.1 member with ⟨place, inside, rfl⟩
  split at active
  · cases active
  · rename_i kept
    rw [if_neg kept]
    exact ordered _ (List.fst_mem_of_mem_zipIdx inside) active

theorem length_activePlaces (start : Nat) (outcomes : List Outcome) :
    (activePlaces start outcomes).length = outcomes.countP Outcome.isActive := by
  have whole := List.countP_map (p := Outcome.isActive) (f := Prod.fst) (l := outcomes.zipIdx start)
  rw [List.zipIdx_map_fst] at whole
  rw [activePlaces, ← List.countP_eq_length_filter, whole]
  rfl

/-! ## Ranks -/

variable {selection : Selection}

/-- The rank of an outcome among the active ones. -/
theorem rankOf_eq_countP (selection : Selection) (outcomes : List Outcome) (place : Outcome × Nat) :
    selection.rankOf outcomes place =
      (activePlaces 0 outcomes).countP (selection.comesFirst · place) := by
  rw [rankOf, activePlaces, List.countP_filter]
  exact List.countP_congr fun other _ => by rw [Bool.and_comm]

/-- No two active outcomes are in the same place of the order. -/
theorem nodup_orderOf (selection : Selection) (start : Nat) (outcomes : List Outcome) :
    ((activePlaces start outcomes).map fun place => orderOf (selection.keyOf place)).Nodup := by
  have positions : ((activePlaces start outcomes).map Prod.snd).Nodup := by
    refine List.Nodup.sublist (List.filter_sublist.map _) ?_
    rw [List.zipIdx_map_snd]
    exact List.nodup_range'
  refine List.pairwise_map.2 ((List.pairwise_map.1 positions).imp fun {one other} apart => ?_)
  have differ :
      selection.placeOf (selection.keyOf one) ≠ selection.placeOf (selection.keyOf other) := by
    rw [placeOf_keyOf, placeOf_keyOf]
    exact fun same => apart (Int.ofNat.inj same)
  exact orderOf_ne differ

/-- Outcomes are dropped in the order in which they are kept, turned around. -/
theorem comesFirst_turned {one other : Outcome × Nat} (first : one.1.IsOrdered)
    (second : other.1.IsOrdered) (m n : Number) (highest : Bool) :
    comesFirst ⟨n, false, !highest⟩ one other = comesFirst ⟨m, true, highest⟩ other one := by
  have same : one.1.number.same other.1.number = other.1.number.same one.1.number := by
    rw [Bool.eq_iff_iff, Number.same_iff first.defined second.defined,
      Number.same_iff second.defined first.defined, eq_comm]
  unfold comesFirst
  rw [same]
  cases highest <;> rfl

section

variable {outcomes : List Outcome} (ordered : Outcome.AreOrdered outcomes)
include ordered

/-- An outcome that another one does not come before has no greater rank than that. -/
theorem rankOf_mono {one other : Outcome × Nat} (first : one ∈ activePlaces 0 outcomes)
    (second : other ∈ activePlaces 0 outcomes) (notLater : selection.comesFirst other one = false) :
    selection.rankOf outcomes one ≤ selection.rankOf outcomes other := by
  have ⟨known, knownToo⟩ := And.intro (isOrdered_of_mem ordered first)
    (isOrdered_of_mem ordered second)
  rw [comesFirst_eq knownToo known, decide_eq_false_iff_not, not_lt] at notLater
  rw [rankOf_eq ordered first, rankOf_eq ordered second, List.countP_map, List.countP_map]
  exact Ranking.countP_lt_mono (fun place => orderOf (selection.keyOf place)) _ notLater

/-- Whether an outcome ranks high where outcomes are kept or low where they are dropped, all other
active outcomes stand before or behind it. -/
theorem rankOf_add_rankOf {place : Outcome × Nat} (member : place ∈ activePlaces 0 outcomes)
    (m n : Number) (highest : Bool) :
    rankOf ⟨m, true, highest⟩ outcomes place + rankOf ⟨n, false, !highest⟩ outcomes place + 1 =
      outcomes.countP Outcome.isActive := by
  let keeping : Selection := ⟨m, true, highest⟩
  have whole := Ranking.countP_lt_add_countP_gt (fun place => orderOf (keeping.keyOf place))
    (nodup_orderOf keeping 0 outcomes) member
  have known := isOrdered_of_mem ordered member
  have before : keeping.rankOf outcomes place = _ :=
    (rankOf_eq_countP keeping outcomes place).trans (List.countP_congr fun other inside => by
      rw [comesFirst_eq (isOrdered_of_mem ordered inside) known])
  have behind : rankOf ⟨n, false, !highest⟩ outcomes place = _ :=
    (rankOf_eq_countP _ outcomes place).trans (List.countP_congr fun other inside => by
      have compared := isOrdered_of_mem ordered inside
      rw [comesFirst_turned compared known m, comesFirst_eq known compared])
  rw [length_activePlaces, ← before, ← behind] at whole
  exact whole

/-! ## Selections sift -/

/-- Whether an outcome stays active: among so many that are chosen if outcomes are kept, and not
among them if they are dropped. -/
def stays (selection : Selection) (size : Nat) (outcomes : List Outcome) (place : Outcome × Nat) :
    Bool :=
  decide (selection.rankOf outcomes place < size) == selection.keep

theorem apply_eq_sift (number : Nat) (keep highest : Bool) :
    let selection : Selection := ⟨.int number, keep, highest⟩
    let size := min number (outcomes.countP Outcome.isActive)
    selection.apply outcomes = .ok (sift (selection.stays size outcomes) 0 outcomes) := by
  intro selection size
  rcases contains_chosen ordered number keep highest with ⟨chosen, found, picked⟩
  have applied : selection.apply outcomes = .ok (selection.discardFrom chosen 0 outcomes) := by
    unfold Selection.apply
    rw [found]
    rfl
  have listed : selection.discardFrom chosen 0 outcomes = _ :=
    @discardFrom_eq selection outcomes chosen 0
  rw [applied, listed]
  refine congrArg Except.ok (List.map_congr_left fun place inside => ?_)
  cases active : place.1.isActive with
  | false => rfl
  | true =>
    have among : chosen.contains (place.2 : ℤ) =
        decide (selection.rankOf outcomes place < size) :=
      picked place (List.mem_filter.2 ⟨inside, active⟩)
    rw [among]
    rfl

/-- As many outcomes stay active as are kept, or as are not dropped. -/
theorem length_stays (number : Nat) (keep highest : Bool) :
    let selection : Selection := ⟨.int number, keep, highest⟩
    let active := outcomes.countP Outcome.isActive
    let size := min number active
    ((activePlaces 0 outcomes).filter (selection.stays size outcomes)).length =
      if keep then size else active - size := by
  intro selection active size
  rw [← activePlaces_sift, length_activePlaces]
  exact countP_apply (apply_eq_sift ordered number keep highest)

theorem comesFirst_asymm {one other : Outcome × Nat} (first : one ∈ activePlaces 0 outcomes)
    (second : other ∈ activePlaces 0 outcomes) (earlier : selection.comesFirst one other = true) :
    selection.comesFirst other one = false := by
  have ⟨known, knownToo⟩ := And.intro (isOrdered_of_mem ordered first)
    (isOrdered_of_mem ordered second)
  rw [comesFirst_eq known knownToo, decide_eq_true_iff] at earlier
  rw [comesFirst_eq knownToo known, decide_eq_false_iff_not]
  exact lt_asymm earlier

/-- An outcome that is kept has the rank that it had: what came before it is kept too. -/
theorem rankOf_kept {number : Number} {highest : Bool} {size : Nat} {place : Outcome × Nat}
    (member : place ∈ activePlaces 0 outcomes) :
    let keeping : Selection := ⟨number, true, highest⟩
    keeping.rankOf outcomes place < size →
      keeping.rankOf (sift (keeping.stays size outcomes) 0 outcomes) place =
        keeping.rankOf outcomes place := by
  intro keeping among
  rw [rankOf_eq_countP, rankOf_eq_countP, activePlaces_sift, List.countP_filter]
  refine List.countP_congr fun other inside => ?_
  rw [Bool.and_eq_true, and_iff_left_iff_imp]
  intro earlier
  have behind := comesFirst_asymm ordered inside member earlier
  have rank := rankOf_mono ordered inside member behind
  exact beq_iff_eq.2 (decide_eq_true (rank.trans_lt among))

/-- An outcome that is not dropped loses all those that are dropped from before it. -/
theorem rankOf_dropped {number : Nat} {highest : Bool} {place : Outcome × Nat}
    (member : place ∈ activePlaces 0 outcomes) :
    let dropping : Selection := ⟨.int number, false, highest⟩
    let size := min number (outcomes.countP Outcome.isActive)
    size ≤ dropping.rankOf outcomes place →
      dropping.rankOf outcomes place =
        dropping.rankOf (sift (dropping.stays size outcomes) 0 outcomes) place + size := by
  intro dropping size outside
  let left := dropping.stays size outcomes
  let active := activePlaces 0 outcomes
  have gone : (active.filter fun other => !left other).countP (dropping.comesFirst · place) =
      size := by
    have all : (active.filter fun other => !left other).countP (dropping.comesFirst · place) =
        (active.filter fun other => !left other).length := by
      refine List.countP_eq_length.2 fun other inside => ?_
      rcases List.mem_filter.1 inside with ⟨inside, dropped⟩
      cases earlier : dropping.comesFirst other place with
      | true => rfl
      | false =>
        have rank := rankOf_mono ordered member inside earlier
        have staying : left other = true :=
          beq_iff_eq.2 (decide_eq_false (Nat.not_lt.2 (outside.trans rank)))
        rw [staying] at dropped
        cases dropped
    have kept := length_stays ordered number false highest
    have whole := List.length_eq_length_filter_add (l := active) left
    have count : active.length = outcomes.countP Outcome.isActive := length_activePlaces 0 outcomes
    have few : size ≤ outcomes.countP Outcome.isActive := Nat.min_le_right _ _
    have rest : (active.filter left).length = outcomes.countP Outcome.isActive - size := kept
    rw [all]
    omega
  have parts := List.countP_eq_countP_filter_add active (dropping.comesFirst · place) left
  rw [rankOf_eq_countP, rankOf_eq_countP, activePlaces_sift, parts]
  exact congrArg _ gone

/-! ## Laws -/

/-- Some of the best outcomes stay where they are kept, and where the others are dropped. -/
theorem sift_keep_eq_drop {number : Nat} (few : number ≤ outcomes.countP Outcome.isActive)
    (m n : Number) (highest : Bool) :
    let active := outcomes.countP Outcome.isActive
    sift (stays ⟨m, true, highest⟩ number outcomes) 0 outcomes =
      sift (stays ⟨n, false, !highest⟩ (active - number) outcomes) 0 outcomes := by
  refine sift_congr fun place member => ?_
  have ranks := rankOf_add_rankOf ordered member m n highest
  unfold stays
  rw [Bool.eq_iff_iff, beq_iff_eq, beq_iff_eq, decide_eq_true_iff, decide_eq_false_iff_not]
  omega

/-- To keep outcomes twice is to keep the smaller number of them. -/
theorem apply_keep_keep (first second : Nat) (highest : Bool) :
    ∃ between sifted, Selection.apply ⟨.int first, true, highest⟩ outcomes = .ok between ∧
      Selection.apply ⟨.int second, true, highest⟩ between = .ok sifted ∧
      Selection.apply ⟨.int (min first second : Nat), true, highest⟩ outcomes = .ok sifted := by
  let keeping : Selection := ⟨.int first, true, highest⟩
  let size := min first (outcomes.countP Outcome.isActive)
  let between := sift (keeping.stays size outcomes) 0 outcomes
  have count : between.countP Outcome.isActive = size :=
    countP_apply (apply_eq_sift ordered first true highest)
  refine ⟨between, _, apply_eq_sift ordered first true highest,
    apply_eq_sift (areOrdered_sift ordered _ 0) second true highest, ?_⟩
  rw [apply_eq_sift ordered, sift_sift, count]
  refine congrArg Except.ok (sift_congr fun place member => ?_)
  change (decide (keeping.rankOf outcomes place < _) == true) =
    ((decide (keeping.rankOf outcomes place < size) == true) &&
      (decide (keeping.rankOf between place < _) == true))
  by_cases among : keeping.rankOf outcomes place < size
  · have rank : keeping.rankOf between place = keeping.rankOf outcomes place :=
      rankOf_kept ordered member among
    rw [rank, Bool.eq_iff_iff, Bool.and_eq_true, beq_iff_eq, beq_iff_eq, beq_iff_eq,
      decide_eq_true_iff, decide_eq_true_iff, decide_eq_true_iff]
    omega
  · rw [decide_eq_false among, Bool.eq_iff_iff, beq_iff_eq, decide_eq_true_iff]
    have outside : ¬ keeping.rankOf outcomes place <
        min (min first second) (outcomes.countP Outcome.isActive) := by omega
    simpa using outside

/-- To drop outcomes twice is to drop as many at once. -/
theorem apply_drop_drop (first second : Nat) (highest : Bool) :
    ∃ between sifted, Selection.apply ⟨.int first, false, highest⟩ outcomes = .ok between ∧
      Selection.apply ⟨.int second, false, highest⟩ between = .ok sifted ∧
      Selection.apply ⟨.int (first + second : Nat), false, highest⟩ outcomes = .ok sifted := by
  let dropping : Selection := ⟨.int first, false, highest⟩
  let active := outcomes.countP Outcome.isActive
  let size := min first active
  let between := sift (dropping.stays size outcomes) 0 outcomes
  have count : between.countP Outcome.isActive = active - size :=
    countP_apply (apply_eq_sift ordered first false highest)
  refine ⟨between, _, apply_eq_sift ordered first false highest,
    apply_eq_sift (areOrdered_sift ordered _ 0) second false highest, ?_⟩
  rw [apply_eq_sift ordered, sift_sift, count]
  refine congrArg Except.ok (sift_congr fun place member => ?_)
  change (decide (dropping.rankOf outcomes place < min (first + second) active) == false) =
    ((decide (dropping.rankOf outcomes place < size) == false) &&
      (decide (dropping.rankOf between place < min second (active - size)) == false))
  rw [Bool.eq_iff_iff, Bool.and_eq_true, beq_iff_eq, beq_iff_eq, beq_iff_eq,
    decide_eq_false_iff_not, decide_eq_false_iff_not, decide_eq_false_iff_not]
  by_cases outside : size ≤ dropping.rankOf outcomes place
  · have rank : dropping.rankOf outcomes place = dropping.rankOf between place + size :=
      rankOf_dropped ordered member outside
    omega
  · omega

end

/-- For outcomes in a total order, with any ties: to keep some of the highest leaves the list as it
is left if the others are dropped as the lowest ones, and the other way around; to keep twice is to
keep the smaller number; and to drop twice is to drop both numbers together. -/
theorem keep_drop_laws {outcomes : List Outcome} (ordered : Outcome.AreOrdered outcomes) :
    let active := outcomes.countP Outcome.isActive
    let keep (highest : Bool) (number : Nat) := Selection.apply ⟨.int number, true, highest⟩
    let drop (highest : Bool) (number : Nat) := Selection.apply ⟨.int number, false, highest⟩
    (∀ highest number, number ≤ active → ∃ sifted, keep highest number outcomes = .ok sifted ∧
      drop (!highest) (active - number) outcomes = .ok sifted) ∧
    (∀ highest first second, ∃ between sifted, keep highest first outcomes = .ok between ∧
      keep highest second between = .ok sifted ∧
      keep highest (min first second) outcomes = .ok sifted) ∧
    ∀ highest first second, ∃ between sifted, drop highest first outcomes = .ok between ∧
      drop highest second between = .ok sifted ∧
      drop highest (first + second) outcomes = .ok sifted := by
  intro active keep drop
  refine ⟨fun highest number few => ?_, fun highest first second => ?_,
    fun highest first second => ?_⟩
  · have kept : keep highest number outcomes = .ok _ := apply_eq_sift ordered number true highest
    have dropped : drop (!highest) (active - number) outcomes = .ok _ :=
      apply_eq_sift ordered (active - number) false (!highest)
    refine ⟨_, kept, ?_⟩
    rw [dropped, Nat.min_eq_left few, Nat.min_eq_left (Nat.sub_le active number)]
    exact congrArg Except.ok (sift_keep_eq_drop ordered few _ _ highest).symm
  · exact apply_keep_keep ordered first second highest
  · exact apply_drop_drop ordered first second highest

/-- Of two threes and two fives, the later three is the one that is not among the three highest. -/
theorem keep_drop_laws_of_tied :
    Outcome.AreOrdered tiedOutcomes ∧ tiedOutcomes.countP Outcome.isActive = 4 ∧
    (∃ sifted, Selection.apply ⟨.int 3, true, true⟩ tiedOutcomes = .ok sifted ∧
      Selection.apply ⟨.int 1, false, false⟩ tiedOutcomes = .ok sifted ∧
      sifted.map Outcome.isActive = [true, true, false, true, false]) ∧
    (∃ between sifted, Selection.apply ⟨.int 3, true, true⟩ tiedOutcomes = .ok between ∧
      Selection.apply ⟨.int 1, true, true⟩ between = .ok sifted ∧
      Selection.apply ⟨.int 1, true, true⟩ tiedOutcomes = .ok sifted) ∧
    ∃ between sifted, Selection.apply ⟨.int 1, false, false⟩ tiedOutcomes = .ok between ∧
      Selection.apply ⟨.int 2, false, false⟩ between = .ok sifted ∧
      Selection.apply ⟨.int 3, false, false⟩ tiedOutcomes = .ok sifted := by
  have known : ∀ outcome ∈ tiedOutcomes, outcome.value.number?.isSome = true ∧
      outcome.number.exact ≠ .undefined := by decide
  have ordered : Outcome.AreOrdered tiedOutcomes := by
    intro outcome member _
    rcases known outcome member with ⟨shows, defined⟩
    rcases Option.isSome_iff_exists.1 shows with ⟨n, shown⟩
    exact ⟨by rw [Outcome.number, shown, Option.getD_some], defined⟩
  have active : tiedOutcomes.countP Outcome.isActive = 4 := by decide
  have computed : (Selection.apply ⟨.int 3, true, true⟩ tiedOutcomes).toOption.map
      (fun sifted => sifted.map Outcome.isActive) = some [true, true, false, true, false] := by
    decide +kernel
  rcases keep_drop_laws ordered with ⟨turned, kept, dropped⟩
  refine ⟨ordered, active, ?_, kept true 3 1, dropped false 1 2⟩
  rcases turned true 3 (by rw [active]; decide) with ⟨sifted, keeps, drops⟩
  rw [active] at drops
  have keeps : Selection.apply ⟨.int 3, true, true⟩ tiedOutcomes = .ok sifted := keeps
  rw [keeps] at computed
  exact ⟨sifted, keeps, drops, Option.some.inj computed⟩

end Selection
end DiceNotation
