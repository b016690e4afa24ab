import DiceNotation.Proofs.Evaluation.Sifting
import DiceNotation.Proofs.Number.Amounts

namespace DiceNotation

/-!
# Outcomes that are kept or dropped

The rank of an active outcome is the number of active outcomes that come before it: those with a
better value, and among equal values those on one side of it.  A list that is ranked by a question
which orders its elements comes out in order, however the places are found, so that an element
stands among the first if and only if few enough come before it.  Numbers other than the undefined
real are ordered by their amounts.
-/

/-! ## Rankings in order -/

namespace Ranking

variable {α κ : Type} [LinearOrder κ] {before : α → α → Except Fault Bool} {P : α → Prop}
  {key : α → κ}

/-- A question orders elements by their keys. -/
def OrdersBy (before : α → α → Except Fault Bool) (P : α → Prop) (key : α → κ) : Prop :=
  ∀ a b, P a → P b → before a b = .ok (decide (key a < key b))

/-- Elements stand in the order of their keys. -/
def InOrder (key : α → κ) (ranking : List α) : Prop := ranking.Pairwise fun a b => key a ≤ key b

variable (orders : OrdersBy before P key)
include orders

/-- A run goes on as long as its elements descend, or as long as they do not. -/
theorem extend_isChain {descending : Bool} {last : α} (known : P last) {elements run more : List α}
    (all : ∀ a ∈ elements, P a)
    (found : extend before descending last elements = .ok (run, more)) :
    (last :: run).IsChain fun a b => decide (key b < key a) = descending := by
  induction elements generalizing last run more with
  | nil =>
    cases found
    exact .singleton _
  | cons a rest ih =>
    rcases List.forall_mem_cons.1 all with ⟨here, later⟩
    unfold extend at found
    rw [orders a last here known] at found
    simp only at found
    split at found
    · rename_i goesOn
      split at found
      · cases found
      · rename_i inner tail continued
        cases found
        exact .cons_cons (beq_iff_eq.1 goesOn) (ih here later continued)
    · cases found
      exact .singleton _

/-- The first run is in order. -/
theorem firstRun_inOrder {elements run more : List α} (all : ∀ a ∈ elements, P a)
    (found : firstRun before elements = .ok (run, more)) : InOrder key run := by
  match elements with
  | [] =>
    cases found
    exact .nil
  | [a] =>
    cases found
    exact List.pairwise_singleton _ _
  | a :: b :: rest =>
    rcases List.forall_mem_cons.1 all with ⟨first, others⟩
    rcases List.forall_mem_cons.1 others with ⟨second, later⟩
    simp only [firstRun, orders b a second first] at found
    split at found
    · cases found
    · rename_i inner tail continued
      cases found
      have chain : (a :: b :: inner).IsChain fun x y =>
          decide (key y < key x) = decide (key b < key a) :=
        .cons_cons rfl (extend_isChain orders second later continued)
      split
      · rename_i descends
        have falls : ((a :: b :: inner).map key).IsChain (· > ·) :=
          (List.isChain_map key).2 (chain.imp fun x y same => of_decide_eq_true (same.trans descends))
        rw [InOrder, List.pairwise_reverse]
        exact (List.pairwise_map.1 falls.pairwise).imp fun below => le_of_lt below
      · rename_i ascends
        have rises : ((a :: b :: inner).map key).IsChain (· ≤ ·) :=
          (List.isChain_map key).2 (chain.imp fun x y same =>
            not_lt.1 (of_decide_eq_false (same.trans (Bool.eq_false_iff.2 ascends))))
        exact List.pairwise_map.1 rises.pairwise

omit orders in
/-- An element in the middle parts a ranking. -/
theorem InOrder.parted {ranking : List α} (inOrder : InOrder key ranking) {middle : Nat} {other : α}
    (found : ranking[middle]? = some other) :
    (∀ b ∈ ranking.take (middle + 1), key b ≤ key other) ∧
      ∀ b ∈ ranking.drop middle, key other ≤ key b := by
  rcases List.getElem?_eq_some_iff.1 found with ⟨short, rfl⟩
  have split : ranking = ranking.take middle ++ ranking[middle] :: ranking.drop (middle + 1) := by
    rw [List.getElem_cons_drop, List.take_append_drop]
  have sorted : (ranking.take middle ++ ranking[middle] :: ranking.drop (middle + 1)).Pairwise
      fun a b => key a ≤ key b := split ▸ inOrder
  rcases List.pairwise_append.1 sorted with ⟨_, behind, across⟩
  refine ⟨fun b member => ?_, fun b member => ?_⟩
  · rw [← List.take_append_getElem short] at member
    rcases List.mem_append.1 member with before | here
    · exact across b before _ List.mem_cons_self
    · rw [List.mem_singleton.1 here]
  · rw [← List.getElem_cons_drop short] at member
    rcases List.mem_cons.1 member with rfl | later
    · exact le_refl _
    · exact (List.pairwise_cons.1 behind).1 b later

/-- What stands before a place is no greater, and what stands behind it is greater.  The search
halves what is left between two places for which this holds. -/
theorem place_between {a : α} (known : P a) {ranking : List α} (all : ∀ b ∈ ranking, P b)
    (inOrder : InOrder key ranking) {low high : Nat} (between : low ≤ high)
    (inside : high ≤ ranking.length) (left : ∀ b ∈ ranking.take low, key b ≤ key a)
    (right : ∀ b ∈ ranking.drop high, key a < key b) {i : Nat}
    (placed : place before a ranking low high = .ok i) :
    (∀ b ∈ ranking.take i, key b ≤ key a) ∧ ∀ b ∈ ranking.drop i, key a < key b := by
  fun_induction place before a ranking low high with
  | case1 low high short middle missing =>
    have outside := List.getElem?_eq_none_iff.1 missing
    omega
  | case2 low high short middle other found fault refused =>
    rw [orders a other known (all other (List.mem_of_getElem? found))] at refused
    cases refused
  | case3 low high short middle other found below ih =>
    rw [orders a other known (all other (List.mem_of_getElem? found))] at below
    have less : key a < key other := of_decide_eq_true (Except.ok.inj below)
    exact ih (by omega) (by omega) left
      (fun b member => less.trans_le ((inOrder.parted found).2 b member)) placed
  | case4 low high short middle other found above ih =>
    rw [orders a other known (all other (List.mem_of_getElem? found))] at above
    have notLess : key other ≤ key a := not_lt.1 (of_decide_eq_false (Except.ok.inj above))
    exact ih (by omega) inside
      (fun b member => ((inOrder.parted found).1 b member).trans notLess) right placed
  | case5 low high done =>
    obtain rfl : low = high := by omega
    cases placed
    exact ⟨left, right⟩

/-- An element is put in where it belongs. -/
theorem insert_inOrder {ranking inserted : List α} {a : α} (known : P a)
    (all : ∀ b ∈ ranking, P b) (inOrder : InOrder key ranking)
    (done : insert before ranking a = .ok inserted) : InOrder key inserted := by
  unfold insert at done
  split at done
  · cases done
  · rename_i i placed
    cases done
    rcases place_between orders known all inOrder (Nat.zero_le _) (Nat.le_refl _)
      (by rw [List.take_zero]; exact nofun) (by rw [List.drop_length]; exact nofun) placed with
      ⟨left, right⟩
    have sorted : (ranking.take i ++ ranking.drop i).Pairwise fun a b => key a ≤ key b :=
      (List.take_append_drop i ranking).symm ▸ inOrder
    rcases List.pairwise_append.1 sorted with ⟨front, back, across⟩
    refine List.pairwise_append.2 ⟨front, List.pairwise_cons.2 ⟨?_, back⟩, ?_⟩
    · exact fun b member => le_of_lt (right b member)
    · intro b member c more
      rcases List.mem_cons.1 more with rfl | later
      · exact left b member
      · exact across b member c later

/-- A ranking is in order. -/
theorem rank_inOrder {elements ranking : List α} (all : ∀ a ∈ elements, P a)
    (done : rank before elements = .ok ranking) : InOrder key ranking := by
  unfold rank at done
  split at done
  · cases done
  · rename_i run rest found
    have parts : ∀ a ∈ run ++ rest, P a := fun a member =>
      all a ((firstRun_perm found).mem_iff.1 member)
    rcases List.forall_mem_append.1 parts with ⟨first, later⟩
    have sorted := firstRun_inOrder orders all found
    clear found parts
    induction rest generalizing run with
    | nil =>
      cases done
      exact sorted
    | cons a rest ih =>
      rcases List.forall_mem_cons.1 later with ⟨here, others⟩
      rw [List.foldlM_cons] at done
      rcases result_bind done with ⟨inserted, step, done⟩
      have known : ∀ b ∈ inserted, P b := fun b member =>
        List.forall_mem_cons.2 ⟨here, first⟩ b ((insert_perm step).mem_iff.1 member)
      exact ih inserted done known others (insert_inOrder orders here first sorted step)

omit orders in
/-- In a ranking without ties an element stands among the first ones if and only if fewer come
before it. -/
theorem mem_take_iff {ranking : List α} (strict : ranking.Pairwise fun a b => key a < key b) {a : α}
    (member : a ∈ ranking) (size : Nat) :
    a ∈ ranking.take size ↔ ranking.countP (fun b => decide (key b < key a)) < size := by
  rcases List.append_of_mem member with ⟨front, back, rfl⟩
  rcases List.pairwise_append.1 strict with ⟨_, behind, across⟩
  have smaller : front.countP (fun b => decide (key b < key a)) = front.length :=
    List.countP_eq_length.2 fun b inside => decide_eq_true (across b inside a List.mem_cons_self)
  have greater : (a :: back).countP (fun b => decide (key b < key a)) = 0 := by
    refine List.countP_eq_zero.2 fun b inside => ?_
    rcases List.mem_cons.1 inside with rfl | later
    · simp
    · simpa using le_of_lt ((List.pairwise_cons.1 behind).1 b later)
  rw [List.countP_append, smaller, greater, Nat.add_zero]
  constructor
  · intro among
    by_contra notLess
    rw [List.take_append_of_le_length (Nat.not_lt.1 notLess)] at among
    exact lt_irrefl _ (across a (List.mem_of_mem_take among) a List.mem_cons_self)
  · intro less
    rcases Nat.exists_eq_add_of_lt less with ⟨more, rfl⟩
    rw [Nat.add_assoc, List.take_length_add_append]
    exact List.mem_append_right _ List.mem_cons_self

end Ranking

/-! ## Data in order -/

namespace Json

variable {a b : Json} {m n : Number} (first : a.number? = some m) (second : b.number? = some n)
include first second

/-- Data that count as numbers are equal if these are the same amount. -/
theorem same_of_number? : a.same b = m.same n := by
  cases a <;> cases first <;> cases b <;> cases second <;> simp [same, number?]

/-- Data that count as numbers are in the order of these. -/
theorem precedes_of_number? : a.precedes b = .ok (m.below n) := by
  cases a <;> cases first <;> cases b <;> cases second <;> simp [precedes, number?]

end Json

namespace Outcome

/-- The number that an outcome shows. -/
def number (outcome : Outcome) : Number := outcome.value.number?.getD (.int 0)

/-- An outcome shows a number other than the undefined real. -/
structure IsOrdered (outcome : Outcome) : Prop where
  shown : outcome.value.number? = some outcome.number
  defined : outcome.number.exact ≠ .undefined

/-- The active outcomes show numbers that are ordered. -/
def AreOrdered (outcomes : List Outcome) : Prop :=
  ∀ outcome ∈ outcomes, outcome.isActive = true → outcome.IsOrdered

end Outcome

namespace Selection

variable (selection : Selection)

/-- Whether an outcome comes before another one, each with its position: better values come first.
Among equal values the earlier outcome comes first where outcomes are kept, and the later one where
they are dropped. -/
def comesFirst (one other : Outcome × Nat) : Bool :=
  if one.1.number.same other.1.number then
    if selection.keep then decide (one.2 < other.2) else decide (other.2 < one.2)
  else if selection.highest then other.1.number.below one.1.number
  else one.1.number.below other.1.number

/-- The rank of an outcome with its position: how many active outcomes come before it. -/
def rankOf (outcomes : List Outcome) (place : Outcome × Nat) : Nat :=
  outcomes.zipIdx.countP fun other => other.1.isActive && selection.comesFirst other place

/-- The active outcomes with their positions, counted from one on. -/
def activePlaces (start : Nat) (outcomes : List Outcome) : List (Outcome × Nat) :=
  (outcomes.zipIdx start).filter fun place => place.1.isActive

/-- The key of an outcome with its position. -/
def keyOf (place : Outcome × Nat) : RankKey where
  value := if selection.highest then .number place.1.number.neg else place.1.value
  position := if selection.keep then place.2 else -place.2

theorem keys_eq {outcomes : List Outcome} (ordered : Outcome.AreOrdered outcomes) (start : Nat) :
    selection.keys start outcomes =
      .ok ((activePlaces start outcomes).map selection.keyOf) := by
  induction outcomes generalizing start with
  | nil => rfl
  | cons outcome rest ih =>
    rcases List.forall_mem_cons.1 ordered with ⟨here, later⟩
    have behind := ih later (start + 1)
    unfold keys activePlaces
    rw [List.zipIdx_cons, List.filter_cons]
    split
    · rename_i active
      have ranked : selection.rankValue outcome.value =
          .ok (selection.keyOf (outcome, start)).value := by
        unfold rankValue keyOf
        split
        · rw [Json.neg, (here active).shown]
        · rfl
      change (do
        let value ← selection.rankValue outcome.value
        let others ← selection.keys ((start + 1 : Nat) : Int) rest
        return _ :: others) = _
      rw [ranked, behind]
      rfl
    · exact behind

/-! ## The order of the keys -/

/-- The amount and the position of a key, in this order. -/
noncomputable def orderOf (key : RankKey) : EReal ×ₗ ℤ :=
  toLex (((key.value.number?.getD (.int 0)).amount, key.position))

/-- The value of a key is a number that is defined. -/
def IsDefined (key : RankKey) : Prop := ∃ n, key.value.number? = some n ∧ n.exact ≠ .undefined

/-- Keys are compared by amount, and those of the same amount by position. -/
theorem before_orders : Ranking.OrdersBy RankKey.before IsDefined orderOf := by
  rintro a b ⟨m, first, known⟩ ⟨n, second, other⟩
  have less : orderOf a < orderOf b ↔
      m.amount < n.amount ∨ m.amount = n.amount ∧ a.position < b.position := by
    rw [orderOf, orderOf, first, second, Prod.Lex.toLex_lt_toLex]
    rfl
  unfold RankKey.before
  rw [Json.same_of_number? first second, Json.precedes_of_number? first second]
  split
  · rename_i same
    have equal := (Number.same_iff known other).1 same
    refine congrArg Except.ok (decide_eq_decide.2 ?_)
    rw [less]
    simp [equal]
  · rename_i apart
    have different : m.amount ≠ n.amount := fun equal =>
      apart ((Number.same_iff known other).2 equal)
    refine congrArg Except.ok (Bool.eq_iff_iff.2 ?_)
    rw [Number.below_iff known other, decide_eq_true_iff, less]
    simp [different]

variable {selection} {one other : Outcome × Nat}

theorem orderOf_keyOf (known : one.1.IsOrdered) :
    orderOf (selection.keyOf one) =
      toLex ((if selection.highest then -one.1.number.amount else one.1.number.amount,
        if selection.keep then (one.2 : ℤ) else -one.2)) := by
  unfold orderOf keyOf
  cases selection.highest with
  | true => exact congrArg (fun amount => toLex (amount, _)) one.1.number.amount_neg
  | false => simp only [if_neg Bool.false_ne_true, known.shown, Option.getD_some]

theorem isDefined_keyOf (known : one.1.IsOrdered) : IsDefined (selection.keyOf one) := by
  unfold keyOf
  cases selection.highest with
  | true =>
    refine ⟨one.1.number.neg, rfl, ?_⟩
    rw [Number.exact_neg]
    exact Exact.neg_ne_undefined known.defined
  | false => exact ⟨one.1.number, known.shown, known.defined⟩

/-- The keys are in the order of the outcomes. -/
theorem comesFirst_eq (first : one.1.IsOrdered) (second : other.1.IsOrdered) :
    selection.comesFirst one other =
      decide (orderOf (selection.keyOf one) < orderOf (selection.keyOf other)) := by
  rw [orderOf_keyOf first, orderOf_keyOf second, Bool.eq_iff_iff, decide_eq_true_iff,
    Prod.Lex.toLex_lt_toLex]
  unfold comesFirst
  split
  · rename_i same
    have equal := (Number.same_iff first.defined second.defined).1 same
    rw [equal]
    cases selection.keep <;> simp
  · rename_i apart
    have different : one.1.number.amount ≠ other.1.number.amount := fun equal =>
      apart ((Number.same_iff first.defined second.defined).2 equal)
    cases selection.highest with
    | true =>
      rw [if_pos rfl, Number.below_iff second.defined first.defined]
      simp [different, EReal.neg_lt_neg_iff]
    | false =>
      rw [if_neg Bool.false_ne_true, Number.below_iff first.defined second.defined]
      simp [different]

/-! ## Chosen outcomes -/

theorem placeOf_keyOf (place : Outcome × Nat) :
    selection.placeOf (selection.keyOf place) = place.2 := by
  unfold placeOf keyOf
  cases selection.keep with
  | true => rfl
  | false => exact Int.neg_neg _

/-- Keys of different positions are not in the same place. -/
theorem orderOf_ne {a b : RankKey} (apart : selection.placeOf a ≠ selection.placeOf b) :
    orderOf a ≠ orderOf b := by
  intro equal
  have same : a.position = b.position := congrArg (fun place => (ofLex place).2) equal
  exact apart (by rw [placeOf, placeOf, same])

variable {outcomes : List Outcome} (ordered : Outcome.AreOrdered outcomes)
include ordered

theorem isOrdered_of_mem {place : Outcome × Nat} (member : place ∈ activePlaces 0 outcomes) :
    place.1.IsOrdered := by
  rcases List.mem_filter.1 member with ⟨inside, active⟩
  exact ordered _ (List.fst_mem_of_mem_zipIdx inside) active

/-- The rank of an outcome is the number of keys that come before its own. -/
theorem rankOf_eq {place : Outcome × Nat} (member : place ∈ activePlaces 0 outcomes) :
    selection.rankOf outcomes place =
      ((activePlaces 0 outcomes).map selection.keyOf).countP fun key =>
        decide (orderOf key < orderOf (selection.keyOf place)) := by
  have known := isOrdered_of_mem ordered member
  rw [List.countP_map, rankOf, activePlaces, List.countP_filter]
  refine List.countP_congr fun other inside => ?_
  cases active : other.1.isActive with
  | false => simp
  | true =>
    have compared := isOrdered_of_mem ordered (List.mem_filter.2 ⟨inside, active⟩)
    rw [Bool.true_and, Bool.and_true, comesFirst_eq compared known]
    rfl

/-- The active outcomes are ranked, and without ties. -/
theorem exists_ranking (selection : Selection) :
    ∃ ranking, Ranking.rank RankKey.before
        ((activePlaces 0 outcomes).map selection.keyOf) = .ok ranking ∧
      ranking.Perm ((activePlaces 0 outcomes).map selection.keyOf) ∧
      (ranking.map selection.placeOf).Nodup ∧
      (ranking.Pairwise fun a b => orderOf a < orderOf b) ∧
      ranking.length = outcomes.countP Outcome.isActive := by
  have defined : ∀ key ∈ (activePlaces 0 outcomes).map selection.keyOf, IsDefined key := by
    intro key member
    rcases List.mem_map.1 member with ⟨place, inside, rfl⟩
    exact isDefined_keyOf (isOrdered_of_mem ordered inside)
  have answers (a b : RankKey) (first : IsDefined a) (second : IsDefined b) :
      ∃ answer, RankKey.before a b = .ok answer := ⟨_, before_orders a b first second⟩
  rcases Ranking.rank_ok answers defined with ⟨ranking, ranked⟩
  have perm := Ranking.rank_perm ranked
  have places : (ranking.map selection.placeOf).Perm (Outcome.activeFrom 0 outcomes) :=
    (perm.map selection.placeOf).trans (.of_eq (places_keys (selection.keys_eq ordered 0)))
  have apart : (ranking.map selection.placeOf).Nodup :=
    places.nodup_iff.2 (Outcome.nodup_activeFrom 0 outcomes)
  have inOrder := Ranking.rank_inOrder before_orders defined ranked
  refine ⟨ranking, ranked, perm, apart, ?_, ?_⟩
  · exact (inOrder.and (List.pairwise_map.1 apart)).imp
      fun both => lt_of_le_of_ne both.1 (orderOf_ne both.2)
  · rw [← Outcome.length_activeFrom 0, ← places.length_eq, List.length_map]

/-- An active outcome is among the chosen ones if and only if its rank is small enough. -/
theorem contains_chosen (number : Int) (keep highest : Bool) :
    ∃ chosen, Selection.chosen ⟨.int number, keep, highest⟩ outcomes = .ok chosen ∧
      ∀ place ∈ activePlaces 0 outcomes,
        chosen.contains (place.2 : ℤ) =
          decide (rankOf ⟨.int number, keep, highest⟩ outcomes place <
            min number.toNat (outcomes.countP Outcome.isActive)) := by
  let selection : Selection := ⟨.int number, keep, highest⟩
  rcases exists_ranking ordered selection with ⟨ranking, ranked, perm, apart, strict, length⟩
  refine ⟨(ranking.take (min number.toNat ranking.length)).map selection.placeOf, ?_, ?_⟩
  · change (do
      let ranking ← Ranking.rank RankKey.before (← selection.keys 0 outcomes)
      let size ← selection.size ranking.length
      return (ranking.take size).map selection.placeOf) = _
    have listed : selection.keys 0 outcomes = _ := selection.keys_eq ordered 0
    rw [listed]
    change (Ranking.rank RankKey.before _ >>= _) = _
    rw [ranked]
    rfl
  · intro place member
    have inside : selection.keyOf place ∈ ranking :=
      perm.mem_iff.2 (List.mem_map_of_mem member)
    rw [Bool.eq_iff_iff, decide_eq_true_iff, List.contains_iff_mem, ← length, rankOf_eq ordered member,
      ← perm.countP_eq, ← Ranking.mem_take_iff strict inside, ← placeOf_keyOf place]
    constructor
    · intro among
      rcases List.mem_map.1 among with ⟨key, taken, same⟩
      rwa [← List.inj_on_of_nodup_map apart (List.mem_of_mem_take taken) inside same]
    · exact List.mem_map_of_mem

omit ordered in
theorem discardFrom_eq (chosen : List Int) (start : Nat) :
    selection.discardFrom chosen start outcomes =
      (outcomes.zipIdx start).map fun place =>
        if place.1.isActive && (chosen.contains (place.2 : ℤ) != selection.keep)
        then place.1.discard else place.1 := by
  induction outcomes generalizing start with
  | nil => rfl
  | cons outcome rest ih => exact congrArg (_ :: ·) (ih (start + 1))

/-- To keep or drop outcomes never fails, and leaves as many of them active as are kept, or as are
not dropped: of those that are active the ones that rank first are kept or dropped, as many as
there are at most and none if the number is negative.  An outcome is discarded if it was active and
is not any more, and otherwise stays as it was. -/
theorem apply_by_rank {number : Int} {keep highest : Bool} :
    let selection : Selection := ⟨.int number, keep, highest⟩
    let active := outcomes.countP Outcome.isActive
    let size := min (max number 0).toNat active
    ∃ sifted, selection.apply outcomes = .ok sifted ∧ sifted.length = outcomes.length ∧
      sifted.countP Outcome.isActive = (if keep then size else active - size) ∧
      ∀ (i : Nat) (outcome after : Outcome), outcomes[i]? = some outcome →
        sifted[i]? = some after →
        (after.isActive = true ↔ outcome.isActive = true ∧
          if keep then selection.rankOf outcomes (outcome, i) < size
          else size ≤ selection.rankOf outcomes (outcome, i)) ∧
        after = if outcome.isActive && !after.isActive then outcome.discard else outcome := by
  intro selection active size
  have clamp : (max number 0).toNat = number.toNat := by omega
  have clamped : size = min number.toNat active := by rw [← clamp]
  rcases contains_chosen ordered number keep highest with ⟨chosen, found, picked⟩
  have applied : selection.apply outcomes = .ok (selection.discardFrom chosen 0 outcomes) := by
    unfold Selection.apply
    rw [found]
    rfl
  have listed : selection.discardFrom chosen 0 outcomes = _ :=
    @discardFrom_eq selection outcomes chosen 0
  refine ⟨_, applied, ?_, ?_, fun i outcome after is becomes => ?_⟩
  · rw [listed, List.length_map, List.length_zipIdx]
  · rw [countP_apply applied, clamped]
  · rw [listed, List.getElem?_map, List.getElem?_zipIdx, is, Nat.zero_add] at becomes
    have change : after = if outcome.isActive && (chosen.contains (i : ℤ) != keep)
        then outcome.discard else outcome := (Option.some.inj becomes).symm
    have aside : outcome.discard.isActive = false := rfl
    cases alive : outcome.isActive with
    | false =>
      rw [alive, Bool.false_and, if_neg Bool.false_ne_true] at change
      rw [change, alive]
      simp
    | true =>
      have among : chosen.contains (i : ℤ) =
          decide (selection.rankOf outcomes (outcome, i) < size) := by
        rw [clamped]
        exact picked (outcome, i) (List.mem_filter.2 ⟨List.mem_zipIdx_iff_getElem?.2 is, alive⟩)
      rw [alive, Bool.true_and, among] at change
      by_cases small : selection.rankOf outcomes (outcome, i) < size
      · cases keep <;> simp [change, small, alive, aside]
      · cases keep <;> simp [change, small, alive, aside, Nat.not_lt.1 small]

/-- Two threes and two fives, of which one is a real, and a seven that does not count. -/
def tiedOutcomes : List Outcome :=
  [{ value := .ofInt 3 }, { value := .ofInt 5 }, { value := .ofInt 7, active := .bool false },
    { value := .number (.real 5) }, { value := .ofInt 3 }]

omit ordered in
/-- If the three highest of them are kept, the earlier three is kept and the later one is not. -/
theorem apply_by_rank_of_tied :
    Outcome.AreOrdered tiedOutcomes ∧
    ∃ sifted, Selection.apply ⟨.int 3, true, true⟩ tiedOutcomes = .ok sifted ∧
      sifted.length = 5 ∧ sifted.countP Outcome.isActive = 3 ∧
      (∀ after, sifted[0]? = some after → after.isActive = true) ∧
      ∀ after, sifted[4]? = some after → after = Outcome.discard { value := .ofInt 3 } := by
  have known : ∀ outcome ∈ tiedOutcomes, outcome.value.number?.isSome = true ∧
      outcome.number.exact ≠ .undefined := by decide
  have ordered : Outcome.AreOrdered tiedOutcomes := by
    intro outcome member _
    rcases known outcome member with ⟨shows, defined⟩
    rcases Option.isSome_iff_exists.1 shows with ⟨n, shown⟩
    exact ⟨by rw [Outcome.number, shown, Option.getD_some], defined⟩
  have first : rankOf ⟨.int 3, true, true⟩ tiedOutcomes ({ value := .ofInt 3 }, 0) = 2 := by
    decide
  have last : rankOf ⟨.int 3, true, true⟩ tiedOutcomes ({ value := .ofInt 3 }, 4) = 3 := by
    decide
  rcases @apply_by_rank tiedOutcomes ordered 3 true true with
    ⟨sifted, applied, length, active, each⟩
  refine ⟨ordered, sifted, applied, length, active, fun after is => ?_, fun after is => ?_⟩
  · refine (each 0 _ after rfl is).1.2 ⟨rfl, ?_⟩
    rw [if_pos rfl, first]
    decide
  · rcases each 4 _ after rfl is with ⟨stays, becomes⟩
    have gone : after.isActive = false := by
      refine Bool.eq_false_iff.2 fun alive => ?_
      have small := (stays.1 alive).2
      rw [if_pos rfl, last] at small
      exact absurd small (by decide)
    rw [becomes, gone]
    rfl

end Selection
end DiceNotation
