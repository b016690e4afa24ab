import DiceNotation.Proofs.Roll.Throughout
import Mathlib.Data.List.Nodup

namespace DiceNotation

/-!
# Distinct identities

All terms of a row, nested ones included, are visited in the order in which its dice
are.  Since their identities lie apart, no two of them have the same one.  So a die of a
roll is told by its identity, from the other dice as well as from pools.
-/

namespace Term

/-- The terms to be visited and all terms inside them, each before those inside it. -/
def partsFrom : List Term → List Term
  | [] => []
  | term :: rest => term :: partsFrom (term.children ++ rest)
termination_by pending => sizes pending
decreasing_by
  have := sizes_children_lt term
  simp only [sizes_append, sizes]
  omega

theorem partsFrom_nil : partsFrom [] = [] := by
  rw [partsFrom]

theorem partsFrom_cons (term : Term) (rest : List Term) :
    partsFrom (term :: rest) = term :: partsFrom (term.children ++ rest) := by
  rw [partsFrom]

theorem partsFrom_append (front back : List Term) :
    partsFrom (front ++ back) = partsFrom front ++ partsFrom back := by
  induction front using partsFrom.induct with
  | case1 =>
    rw [partsFrom_nil]
    rfl
  | case2 term rest ih =>
    rw [List.cons_append, partsFrom_cons, partsFrom_cons, ← List.append_assoc, ih]
    rfl

theorem partsFrom_term (term : Term) (rest : List Term) :
    partsFrom (term :: rest) = term :: (partsFrom term.children ++ partsFrom rest) := by
  rw [partsFrom_cons, partsFrom_append]

theorem mem_partsFrom_of_mem {term : Term} {terms : List Term} (member : term ∈ terms) :
    term ∈ partsFrom terms := by
  induction terms with
  | nil => cases member
  | cons head rest ih =>
    rw [partsFrom_term]
    rcases List.mem_cons.1 member with rfl | later
    · exact List.mem_cons_self
    · exact List.mem_cons_of_mem _ (List.mem_append_right _ (ih later))

/-- What is directly inside a part is a part. -/
theorem mem_partsFrom_of_mem_children {term inner : Term} {terms : List Term}
    (member : term ∈ partsFrom terms) (inside : inner ∈ term.children) :
    inner ∈ partsFrom terms := by
  induction terms using partsFrom.induct with
  | case1 =>
    rw [partsFrom_nil] at member
    cases member
  | case2 head rest ih =>
    rw [partsFrom_cons] at member ⊢
    refine List.mem_cons_of_mem _ ?_
    rcases List.mem_cons.1 member with rfl | later
    · exact mem_partsFrom_of_mem (List.mem_append_left _ inside)
    · exact ih later

/-- The dice of a row are those among its terms. -/
theorem diceFrom_eq (terms : List Term) : diceFrom terms = (partsFrom terms).filterMap dice? := by
  induction terms using partsFrom.induct with
  | case1 => rw [diceFrom, partsFrom_nil, List.filterMap_nil]
  | case2 term rest ih =>
    rw [diceFrom_cons, partsFrom_cons, ih]
    cases is : term.dice? with
    | none =>
      rw [List.filterMap_cons_none is]
      rfl
    | some dice =>
      rw [List.filterMap_cons_some is]
      rfl

theorem mem_partsFrom_of_mem_diceFrom {dice : Dice} {terms : List Term}
    (member : dice ∈ diceFrom terms) : Term.dice dice ∈ partsFrom terms := by
  rw [diceFrom_eq] at member
  rcases List.mem_filterMap.1 member with ⟨term, inside, is⟩
  cases term with
  | dice d =>
    cases is
    exact inside
  | _ => cases is

/-- A condition on all terms to be visited and inside them holds throughout. -/
theorem rowThroughout_of_partsFrom {P : Term → Prop} {terms : List Term}
    (holds : ∀ term ∈ partsFrom terms, P term) : RowThroughout P (fun _ => True) terms := by
  induction terms using partsFrom.induct with
  | case1 => trivial
  | case2 term rest ih =>
    rw [partsFrom_cons] at holds
    rcases List.forall_mem_cons.1 holds with ⟨here, others⟩
    rcases rowThroughout_append.1 (ih others) with ⟨inside, later⟩
    exact ⟨Term.Throughout.of_children here inside, later⟩

end Term

/-- What holds throughout a row holds throughout each of its parts. -/
theorem RowThroughout.of_mem_partsFrom {P : Term → Prop} {Q : Roll → Prop} {terms : List Term}
    (holds : RowThroughout P Q terms) {term : Term} (member : term ∈ Term.partsFrom terms) :
    term.Throughout P Q := by
  induction terms using Term.partsFrom.induct with
  | case1 =>
    rw [Term.partsFrom_nil] at member
    cases member
  | case2 head rest ih =>
    rw [Term.partsFrom_cons] at member
    rcases List.mem_cons.1 member with rfl | later
    · exact holds.1
    · exact ih (rowThroughout_append.2 ⟨holds.1.children, holds.2⟩) later

/-! ## Identities that lie apart -/

/-- The identities of terms are in a range, and no two are the same. -/
structure AreApart (first stop : Nat) (terms : List Term) : Prop where
  between : ∀ term ∈ terms, first ≤ term.id ∧ term.id < stop
  distinct : (terms.map (·.id)).Nodup

namespace AreApart

variable {first middle stop : Nat} {terms front back : List Term}

theorem nil : AreApart first stop [] := ⟨fun _ member => (List.not_mem_nil member).elim, List.nodup_nil⟩

theorem mono (apart : AreApart first middle terms) (below : middle ≤ stop) :
    AreApart first stop terms where
  between term member :=
    ⟨(apart.between term member).1, Nat.lt_of_lt_of_le (apart.between term member).2 below⟩
  distinct := apart.distinct

theorem append (apart : AreApart first middle front) (further : AreApart middle stop back)
    (above : first ≤ middle) (below : middle ≤ stop) : AreApart first stop (front ++ back) where
  between term member := by
    rcases List.mem_append.1 member with before | behind
    · exact (apart.mono below).between term before
    · exact ⟨Nat.le_trans above (further.between term behind).1, (further.between term behind).2⟩
  distinct := by
    rw [List.map_append, List.nodup_append]
    refine ⟨apart.distinct, further.distinct, ?_⟩
    intro id before other behind
    rcases List.mem_map.1 before with ⟨term, member, rfl⟩
    rcases List.mem_map.1 behind with ⟨further_, memberToo, rfl⟩
    have lower := (apart.between term member).2
    have upper := (further.between further_ memberToo).1
    exact Nat.ne_of_lt (Nat.lt_of_lt_of_le lower upper)

/-- A term comes behind all that is inside it. -/
theorem cons {term : Term} (inside : AreApart first term.id terms) (above : first ≤ term.id) :
    AreApart first (term.id + 1) (term :: terms) where
  between := List.forall_mem_cons.2
    ⟨⟨above, Nat.lt_succ_self _⟩, (inside.mono (Nat.le_succ _)).between⟩
  distinct := by
    rw [List.map_cons, List.nodup_cons]
    refine ⟨fun member => ?_, inside.distinct⟩
    rcases List.mem_map.1 member with ⟨other, memberToo, same⟩
    exact Nat.ne_of_lt (inside.between other memberToo).2 same

end AreApart

/-- A term has the last identity of its range, behind those of all that is inside it. -/
theorem AreApart.of_children {term : Term} {first stop : Nat}
    (inside : AreApart first term.id (Term.partsFrom term.children)) (spans : term.Spans first stop) :
    AreApart first stop (Term.partsFrom [term]) := by
  rw [Term.partsFrom_term, Term.partsFrom_nil, List.append_nil, spans.stop_eq]
  exact inside.cons spans.first_le

theorem AreApart.partsFrom_nil {first stop : Nat} : AreApart first stop (Term.partsFrom []) := by
  rw [Term.partsFrom_nil]
  exact .nil

mutual

theorem Term.Spans.apart : {term : Term} → {first stop : Nat} → term.Spans first stop →
    AreApart first stop (Term.partsFrom [term])
  | .numeric _ _, _, _, spans => .of_children .partsFrom_nil spans
  | .operator _ _, _, _, spans => .of_children .partsFrom_nil spans
  | .text _ _, _, _, spans => .of_children .partsFrom_nil spans
  | .group tag roll, _, _, spans => by
    have within : roll.id ≤ tag.id := by
      rw [spans.2.1]
      exact Nat.le_succ _
    exact .of_children (spans.1.apart.mono within) spans
  | .function _ _ _, _, _, spans => .of_children spans.1.apart spans
  | .pool _, _, _, spans => .of_children spans.1.apart spans
  | .dice d, first, _, spans => by
    refine .of_children ?_ spans
    rcases spans with ⟨⟨middle, number, faces⟩, _⟩
    change AreApart first d.tag.id (Term.partsFrom (d.number.term?.toList ++ d.faces.term?.toList))
    rw [Term.partsFrom_append]
    exact number.apart.append faces.apart (amountSpans_le number) (amountSpans_le faces)

theorem RowSpans.apart : {terms : List Term} → {first stop : Nat} → RowSpans terms first stop →
    AreApart first stop (Term.partsFrom terms)
  | [], _, _, _ => .partsFrom_nil
  | term :: rest, first, stop, ⟨middle, here, later⟩ => by
    change AreApart _ _ (Term.partsFrom ([term] ++ rest))
    rw [Term.partsFrom_append]
    exact here.apart.append later.apart (Nat.le_of_lt here.lt) (rowSpans_le later)

theorem RollsSpan.apart : {rolls : List Roll} → {first stop : Nat} → RollsSpan rolls first stop →
    AreApart first stop (Term.partsFrom (rolls.flatMap (·.terms)))
  | [], _, _, _ => .partsFrom_nil
  | roll :: rest, first, stop, ⟨here, later⟩ => by
    have before := rowSpans_le here
    have behind := rollsSpan_le later
    rw [List.flatMap_cons, Term.partsFrom_append]
    exact (here.apart.mono (Nat.le_succ _)).append later.apart (Nat.le_succ_of_le before) behind

theorem AmountSpans.apart : {amount : Operand Term} → {first stop : Nat} →
    AmountSpans amount first stop → AreApart first stop (Term.partsFrom amount.term?.toList)
  | .known _, _, _, _ => .partsFrom_nil
  | .computed _, _, _, spans => Term.Spans.apart spans

end

namespace RollOf.Spans

variable {roll : Roll} {first stop : Nat} (spans : roll.Spans first stop)
include spans

/-- Terms of a roll are told apart by their identities. -/
theorem eq_of_id {term other : Term} (member : term ∈ Term.partsFrom roll.terms)
    (memberToo : other ∈ Term.partsFrom roll.terms) (same : term.id = other.id) : term = other :=
  List.inj_on_of_nodup_map spans.1.apart.distinct member memberToo same

/-- Dice of a roll are told apart by their identities. -/
theorem dice_eq_of_id {dice other : Dice} (member : dice ∈ roll.dice) (memberToo : other ∈ roll.dice)
    (same : dice.tag.id = other.tag.id) : dice = other := by
  have whole := spans.eq_of_id (Term.mem_partsFrom_of_mem_diceFrom member)
    (Term.mem_partsFrom_of_mem_diceFrom memberToo) same
  cases whole
  rfl

theorem dice_distinct : (roll.dice.map (·.tag.id)).Nodup := by
  have sublist : (roll.dice.map fun dice => Term.dice dice).Sublist (Term.partsFrom roll.terms) := by
    rw [RollOf.dice, Term.diceFrom_eq]
    induction Term.partsFrom roll.terms with
    | nil => exact .slnil
    | cons term rest ih =>
      cases term with
      | dice d => exact ih.cons_cons _
      | _ => exact ih.cons _
  have distinct := (sublist.map (·.id)).nodup spans.1.apart.distinct
  rwa [List.map_map] at distinct

end RollOf.Spans
end DiceNotation
