import DiceNotation.Proofs.Roll.Layout
import DiceNotation.Roll.Walk

namespace DiceNotation

/-!
# Conditions on every part of a term

Most of what is known about a term is known about every term and every roll inside
it as well.  Such a condition is given by what it says about a single term and
about a single roll; it may look at the ledger.
-/

mutual

/-- Every term in a term, itself included, satisfies the first condition, and every
roll in it the second one. -/
def Term.Throughout (P : Term → Prop) (Q : Roll → Prop) : Term → Prop
  | .numeric tag value => P (.numeric tag value)
  | .operator tag op => P (.operator tag op)
  | .text tag word => P (.text tag word)
  | .group tag roll => P (.group tag roll) ∧ Q roll ∧ RowThroughout P Q roll.terms
  | .function tag fn rolls => P (.function tag fn rolls) ∧ RollsThroughout P Q rolls
  | .dice d => P (.dice d) ∧ AmountThroughout P Q d.number ∧ AmountThroughout P Q d.faces
  | .pool p => P (.pool p) ∧ RollsThroughout P Q p.rolls

def RowThroughout (P : Term → Prop) (Q : Roll → Prop) : List Term → Prop
  | [] => True
  | term :: rest => term.Throughout P Q ∧ RowThroughout P Q rest

def RollsThroughout (P : Term → Prop) (Q : Roll → Prop) : List (RollOf Term) → Prop
  | [] => True
  | roll :: rest => Q roll ∧ RowThroughout P Q roll.terms ∧ RollsThroughout P Q rest

def AmountThroughout (P : Term → Prop) (Q : Roll → Prop) : Operand Term → Prop
  | .known _ => True
  | .computed term => term.Throughout P Q

end

section

variable (P : Term → Prop) (Q : Roll → Prop) [DecidablePred P] [DecidablePred Q]

mutual

/-- Conditions that can be decided can be decided throughout. -/
def Term.decideThroughout : (term : Term) → Decidable (term.Throughout P Q)
  | .numeric tag value => inferInstanceAs (Decidable (P (.numeric tag value)))
  | .operator tag op => inferInstanceAs (Decidable (P (.operator tag op)))
  | .text tag word => inferInstanceAs (Decidable (P (.text tag word)))
  | .group _ roll =>
    have := decideRow roll.terms
    inferInstanceAs (Decidable (_ ∧ _ ∧ _))
  | .function _ _ rolls =>
    have := decideRolls rolls
    inferInstanceAs (Decidable (_ ∧ _))
  | .dice d =>
    have := decideAmount d.number
    have := decideAmount d.faces
    inferInstanceAs (Decidable (_ ∧ _ ∧ _))
  | .pool p =>
    have := decideRolls p.rolls
    inferInstanceAs (Decidable (_ ∧ _))

def decideRow : (terms : List Term) → Decidable (RowThroughout P Q terms)
  | [] => .isTrue trivial
  | term :: rest =>
    have := term.decideThroughout
    have := decideRow rest
    inferInstanceAs (Decidable (_ ∧ _))

def decideRolls : (rolls : List Roll) → Decidable (RollsThroughout P Q rolls)
  | [] => .isTrue trivial
  | roll :: rest =>
    have := decideRow roll.terms
    have := decideRolls rest
    inferInstanceAs (Decidable (_ ∧ _ ∧ _))

def decideAmount : (amount : Operand Term) → Decidable (AmountThroughout P Q amount)
  | .known _ => .isTrue trivial
  | .computed term => term.decideThroughout

end

instance (terms : List Term) : Decidable (RowThroughout P Q terms) := decideRow P Q terms

end

variable {P P' : Term → Prop} {Q Q' : Roll → Prop}

theorem Term.Throughout.here {term : Term} (holds : term.Throughout P Q) : P term := by
  cases term with
  | numeric tag value => exact holds
  | operator tag op => exact holds
  | text tag word => exact holds
  | group tag roll => exact holds.1
  | function tag fn rolls => exact holds.1
  | dice d => exact holds.1
  | pool p => exact holds.1

theorem rowThroughout_append {front back : List Term} :
    RowThroughout P Q (front ++ back) ↔ RowThroughout P Q front ∧ RowThroughout P Q back := by
  induction front with
  | nil => simp [RowThroughout]
  | cons term rest ih => simp [RowThroughout, ih, and_assoc]

theorem RowThroughout.of_mem {terms : List Term} (holds : RowThroughout P Q terms) {term : Term}
    (member : term ∈ terms) : term.Throughout P Q := by
  induction terms with
  | nil => cases member
  | cons head rest ih =>
    rcases List.mem_cons.1 member with rfl | member
    · exact holds.1
    · exact ih holds.2 member

theorem RollsThroughout.rows {rolls : List Roll} (holds : RollsThroughout P Q rolls) :
    RowThroughout P Q (rolls.flatMap (·.terms)) := by
  induction rolls with
  | nil => trivial
  | cons roll rest ih =>
    rw [List.flatMap_cons]
    exact rowThroughout_append.2 ⟨holds.2.1, ih holds.2.2⟩

theorem AmountThroughout.row {amount : Operand Term} (holds : AmountThroughout P Q amount) :
    RowThroughout P Q amount.term?.toList := by
  cases amount with
  | known n => trivial
  | computed term => exact ⟨holds, trivial⟩

/-- A condition on every part holds in the terms directly inside a term. -/
theorem Term.Throughout.children {term : Term} (holds : term.Throughout P Q) :
    RowThroughout P Q term.children := by
  cases term with
  | numeric tag value => trivial
  | operator tag op => trivial
  | text tag word => trivial
  | group tag roll => exact holds.2.2
  | function tag fn rolls => exact holds.2.rows
  | pool p => exact holds.2.rows
  | dice d => exact rowThroughout_append.2 ⟨holds.2.1.row, holds.2.2.row⟩

theorem Term.diceFrom_cons (term : Term) (rest : List Term) :
    Term.diceFrom (term :: rest) =
      term.dice?.toList ++ Term.diceFrom (term.children ++ rest) := by
  rw [Term.diceFrom]
  cases term.dice? <;> rfl

/-- A condition on every part holds for all dice among the terms and inside them. -/
theorem RowThroughout.diceFrom {terms : List Term} (holds : RowThroughout P Q terms) :
    ∀ dice ∈ Term.diceFrom terms, P (.dice dice) := by
  have step (term : Term) (rest : List Term)
      (ih : RowThroughout P Q (term.children ++ rest) →
        ∀ dice ∈ Term.diceFrom (term.children ++ rest), P (.dice dice))
      (holds : RowThroughout P Q (term :: rest)) :
      ∀ dice ∈ Term.diceFrom (term :: rest), P (.dice dice) := by
    intro dice member
    rw [Term.diceFrom_cons] at member
    rcases List.mem_append.1 member with here | later
    · cases term with
      | dice d =>
        obtain rfl := List.mem_singleton.1 here
        exact holds.1.here
      | _ => cases here
    · exact ih (rowThroughout_append.2 ⟨holds.1.children, holds.2⟩) dice later
  induction terms using Term.diceFrom.induct with
  | case1 =>
    intro dice member
    rw [Term.diceFrom] at member
    cases member
  | case2 term rest dice is ih => exact step term rest ih holds
  | case3 term rest is ih => exact step term rest ih holds

theorem RollsThroughout.of_rows {rolls : List Roll}
    (holds : RowThroughout P (fun _ => True) (rolls.flatMap (·.terms))) :
    RollsThroughout P (fun _ => True) rolls := by
  induction rolls with
  | nil => trivial
  | cons roll rest ih =>
    rw [List.flatMap_cons] at holds
    rcases rowThroughout_append.1 holds with ⟨here, later⟩
    exact ⟨trivial, here, ih later⟩

theorem AmountThroughout.of_row {amount : Operand Term}
    (holds : RowThroughout P Q amount.term?.toList) : AmountThroughout P Q amount := by
  cases amount with
  | known n => trivial
  | computed term => exact holds.1

/-- A condition on terms holds on every part if it holds of the term and in the terms
directly inside it. -/
theorem Term.Throughout.of_children {term : Term} (here : P term)
    (inside : RowThroughout P (fun _ => True) term.children) :
    term.Throughout P fun _ => True := by
  cases term with
  | numeric tag value => exact here
  | operator tag op => exact here
  | text tag word => exact here
  | group tag roll => exact ⟨here, trivial, inside⟩
  | function tag fn rolls => exact ⟨here, RollsThroughout.of_rows inside⟩
  | pool p => exact ⟨here, RollsThroughout.of_rows inside⟩
  | dice d =>
    rcases rowThroughout_append.1 inside with ⟨number, faces⟩
    exact ⟨here, AmountThroughout.of_row number, AmountThroughout.of_row faces⟩

/-- What holds for all dice among the terms and inside them holds for every part that
is a die. -/
theorem rowThroughout_of_dice {P : Dice → Prop} {terms : List Term}
    (holds : ∀ dice ∈ Term.diceFrom terms, P dice) :
    RowThroughout (fun inner => ∀ dice, inner = .dice dice → P dice) (fun _ => True) terms := by
  have step (term : Term) (rest : List Term)
      (ih : (∀ dice ∈ Term.diceFrom (term.children ++ rest), P dice) →
        RowThroughout (fun inner => ∀ dice, inner = .dice dice → P dice) (fun _ => True)
          (term.children ++ rest))
      (holds : ∀ dice ∈ Term.diceFrom (term :: rest), P dice) :
      RowThroughout (fun inner => ∀ dice, inner = .dice dice → P dice) (fun _ => True)
        (term :: rest) := by
    rw [Term.diceFrom_cons] at holds
    rcases rowThroughout_append.1 (ih fun dice member => holds dice (List.mem_append_right _ member))
      with ⟨inside, later⟩
    refine ⟨Term.Throughout.of_children ?_ inside, later⟩
    rintro dice rfl
    exact holds dice (List.mem_append_left _ List.mem_cons_self)
  induction terms using Term.diceFrom.induct with
  | case1 => trivial
  | case2 term rest dice is ih => exact step term rest ih holds
  | case3 term rest is ih => exact step term rest ih holds

/-! ## From one condition to another -/

mutual

/-- Two conditions that hold throughout hold together. -/
theorem Term.Throughout.and : {term : Term} → term.Throughout P Q → term.Throughout P' Q' →
    term.Throughout (fun inner => P inner ∧ P' inner) (fun roll => Q roll ∧ Q' roll)
  | .numeric _ _, first, second => ⟨first, second⟩
  | .operator _ _, first, second => ⟨first, second⟩
  | .text _ _, first, second => ⟨first, second⟩
  | .group _ _, ⟨here, around, inside⟩, ⟨also, aroundToo, insideToo⟩ =>
    ⟨⟨here, also⟩, ⟨around, aroundToo⟩, RowThroughout.and inside insideToo⟩
  | .function _ _ _, ⟨here, inside⟩, ⟨also, insideToo⟩ =>
    ⟨⟨here, also⟩, RollsThroughout.and inside insideToo⟩
  | .dice _, ⟨here, number, faces⟩, ⟨also, numberToo, facesToo⟩ =>
    ⟨⟨here, also⟩, AmountThroughout.and number numberToo, AmountThroughout.and faces facesToo⟩
  | .pool _, ⟨here, inside⟩, ⟨also, insideToo⟩ =>
    ⟨⟨here, also⟩, RollsThroughout.and inside insideToo⟩

theorem RowThroughout.and : {terms : List Term} → RowThroughout P Q terms →
    RowThroughout P' Q' terms →
    RowThroughout (fun inner => P inner ∧ P' inner) (fun roll => Q roll ∧ Q' roll) terms
  | [], _, _ => trivial
  | _ :: _, ⟨here, later⟩, ⟨also, laterToo⟩ =>
    ⟨Term.Throughout.and here also, RowThroughout.and later laterToo⟩

theorem RollsThroughout.and : {rolls : List Roll} → RollsThroughout P Q rolls →
    RollsThroughout P' Q' rolls →
    RollsThroughout (fun inner => P inner ∧ P' inner) (fun roll => Q roll ∧ Q' roll) rolls
  | [], _, _ => trivial
  | _ :: _, ⟨around, row, later⟩, ⟨aroundToo, rowToo, laterToo⟩ =>
    ⟨⟨around, aroundToo⟩, RowThroughout.and row rowToo, RollsThroughout.and later laterToo⟩

theorem AmountThroughout.and : {amount : Operand Term} → AmountThroughout P Q amount →
    AmountThroughout P' Q' amount →
    AmountThroughout (fun inner => P inner ∧ P' inner) (fun roll => Q roll ∧ Q' roll) amount
  | .known _, _, _ => trivial
  | .computed _, first, second => Term.Throughout.and first second

end

mutual

/-- What holds on every part of a term holds on every part of each part. -/
theorem Term.Throughout.nested : {term : Term} → term.Throughout P Q →
    term.Throughout (·.Throughout P Q) fun roll => Q roll ∧ RowThroughout P Q roll.terms
  | .numeric _ _, holds => holds
  | .operator _ _, holds => holds
  | .text _ _, holds => holds
  | .group _ _, ⟨here, around, inside⟩ =>
    ⟨⟨here, around, inside⟩, ⟨around, inside⟩, RowThroughout.nested inside⟩
  | .function _ _ _, ⟨here, inside⟩ => ⟨⟨here, inside⟩, RollsThroughout.nested inside⟩
  | .dice _, ⟨here, number, faces⟩ =>
    ⟨⟨here, number, faces⟩, AmountThroughout.nested number, AmountThroughout.nested faces⟩
  | .pool _, ⟨here, inside⟩ => ⟨⟨here, inside⟩, RollsThroughout.nested inside⟩

theorem RowThroughout.nested : {terms : List Term} → RowThroughout P Q terms →
    RowThroughout (·.Throughout P Q) (fun roll => Q roll ∧ RowThroughout P Q roll.terms) terms
  | [], _ => trivial
  | _ :: _, ⟨here, later⟩ => ⟨Term.Throughout.nested here, RowThroughout.nested later⟩

theorem RollsThroughout.nested : {rolls : List Roll} → RollsThroughout P Q rolls →
    RollsThroughout (·.Throughout P Q) (fun roll => Q roll ∧ RowThroughout P Q roll.terms) rolls
  | [], _ => trivial
  | _ :: _, ⟨around, row, later⟩ =>
    ⟨⟨around, row⟩, RowThroughout.nested row, RollsThroughout.nested later⟩

theorem AmountThroughout.nested : {amount : Operand Term} → AmountThroughout P Q amount →
    AmountThroughout (·.Throughout P Q) (fun roll => Q roll ∧ RowThroughout P Q roll.terms) amount
  | .known _, _ => trivial
  | .computed _, holds => Term.Throughout.nested holds

end

mutual

/-- A condition may be replaced by one that follows from it for everything that has
its own range inside the range of the term. -/
theorem Term.Throughout.imp_spans : {term : Term} → {first stop : Nat} → term.Spans first stop →
    (∀ (inner : Term) (low high : Nat), first ≤ low → high ≤ stop → inner.Spans low high →
      P inner → P' inner) →
    (∀ (roll : Roll) (low high : Nat), first ≤ low → high ≤ stop → roll.Spans low high →
      Q roll → Q' roll) →
    term.Throughout P Q → term.Throughout P' Q'
  | .numeric _ _, _, _, spans, ofTerm, _, holds =>
    ofTerm _ _ _ (Nat.le_refl _) (Nat.le_refl _) spans holds
  | .operator _ _, _, _, spans, ofTerm, _, holds =>
    ofTerm _ _ _ (Nat.le_refl _) (Nat.le_refl _) spans holds
  | .text _ _, _, _, spans, ofTerm, _, holds =>
    ofTerm _ _ _ (Nat.le_refl _) (Nat.le_refl _) spans holds
  | .group tag roll, first, stop, spans, ofTerm, ofRoll, ⟨here, around, inside⟩ => by
    have own := ofTerm _ _ _ (Nat.le_refl _) (Nat.le_refl _) spans here
    rcases spans with ⟨row, after, ended⟩
    have below : roll.id + 1 ≤ stop := by
      unfold Identity at *
      omega
    refine ⟨own, ofRoll roll first (roll.id + 1) (Nat.le_refl _) below ⟨row, rfl⟩ around, ?_⟩
    exact RowThroughout.imp_spans row
      (fun inner low high above under =>
        ofTerm inner low high above (Nat.le_trans under (Nat.le_of_succ_le below)))
      (fun other low high above under =>
        ofRoll other low high above (Nat.le_trans under (Nat.le_of_succ_le below))) inside
  | .function tag _ rolls, first, stop, spans, ofTerm, ofRoll, ⟨here, inside⟩ => by
    have own := ofTerm _ _ _ (Nat.le_refl _) (Nat.le_refl _) spans here
    have below : tag.id ≤ stop := Nat.le_of_lt spans.id_lt
    exact ⟨own, RollsThroughout.imp_spans spans.1
      (fun inner low high above under => ofTerm inner low high above (Nat.le_trans under below))
      (fun other low high above under => ofRoll other low high above (Nat.le_trans under below))
      inside⟩
  | .dice d, first, stop, spans, ofTerm, ofRoll, ⟨here, number, faces⟩ => by
    have own := ofTerm _ _ _ (Nat.le_refl _) (Nat.le_refl _) spans here
    have below : d.tag.id ≤ stop := Nat.le_of_lt spans.id_lt
    rcases spans with ⟨⟨middle, numberSpans, facesSpan⟩, ended⟩
    have before := amountSpans_le numberSpans
    have behind := Nat.le_trans (amountSpans_le facesSpan) below
    refine ⟨own, AmountThroughout.imp_spans numberSpans ?_ ?_ number,
      AmountThroughout.imp_spans facesSpan ?_ ?_ faces⟩
    · exact fun inner low high above under =>
        ofTerm inner low high above (Nat.le_trans under behind)
    · exact fun other low high above under =>
        ofRoll other low high above (Nat.le_trans under behind)
    · exact fun inner low high above under =>
        ofTerm inner low high (Nat.le_trans before above) (Nat.le_trans under below)
    · exact fun other low high above under =>
        ofRoll other low high (Nat.le_trans before above) (Nat.le_trans under below)
  | .pool p, first, stop, spans, ofTerm, ofRoll, ⟨here, inside⟩ => by
    have own := ofTerm _ _ _ (Nat.le_refl _) (Nat.le_refl _) spans here
    have below : p.tag.id ≤ stop := Nat.le_of_lt spans.id_lt
    exact ⟨own, RollsThroughout.imp_spans spans.1
      (fun inner low high above under => ofTerm inner low high above (Nat.le_trans under below))
      (fun other low high above under => ofRoll other low high above (Nat.le_trans under below))
      inside⟩

theorem RowThroughout.imp_spans : {terms : List Term} → {first stop : Nat} →
    RowSpans terms first stop →
    (∀ (inner : Term) (low high : Nat), first ≤ low → high ≤ stop → inner.Spans low high →
      P inner → P' inner) →
    (∀ (roll : Roll) (low high : Nat), first ≤ low → high ≤ stop → roll.Spans low high →
      Q roll → Q' roll) →
    RowThroughout P Q terms → RowThroughout P' Q' terms
  | [], _, _, _, _, _, _ => trivial
  | term :: rest, _, _, ⟨middle, here, later⟩, ofTerm, ofRoll, ⟨head, tail⟩ => by
    have before := Nat.le_of_lt here.lt
    have behind := rowSpans_le later
    refine ⟨Term.Throughout.imp_spans here ?_ ?_ head, RowThroughout.imp_spans later ?_ ?_ tail⟩
    · exact fun inner low high above under =>
        ofTerm inner low high above (Nat.le_trans under behind)
    · exact fun other low high above under =>
        ofRoll other low high above (Nat.le_trans under behind)
    · exact fun inner low high above => ofTerm inner low high (Nat.le_trans before above)
    · exact fun other low high above => ofRoll other low high (Nat.le_trans before above)

theorem RollsThroughout.imp_spans : {rolls : List Roll} → {first stop : Nat} →
    RollsSpan rolls first stop →
    (∀ (inner : Term) (low high : Nat), first ≤ low → high ≤ stop → inner.Spans low high →
      P inner → P' inner) →
    (∀ (roll : Roll) (low high : Nat), first ≤ low → high ≤ stop → roll.Spans low high →
      Q roll → Q' roll) →
    RollsThroughout P Q rolls → RollsThroughout P' Q' rolls
  | [], _, _, _, _, _, _ => trivial
  | roll :: rest, first, stop, ⟨inside, later⟩, ofTerm, ofRoll, ⟨around, row, others⟩ => by
    have before := rowSpans_le inside
    have behind : roll.id + 1 ≤ stop := rollsSpan_le later
    refine ⟨ofRoll roll first (roll.id + 1) (Nat.le_refl _) behind ⟨inside, rfl⟩ around,
      RowThroughout.imp_spans inside ?_ ?_ row, RollsThroughout.imp_spans later ?_ ?_ others⟩
    · exact fun inner low high above under =>
        ofTerm inner low high above (Nat.le_trans under (Nat.le_of_succ_le behind))
    · exact fun other low high above under =>
        ofRoll other low high above (Nat.le_trans under (Nat.le_of_succ_le behind))
    · exact fun inner low high above =>
        ofTerm inner low high (Nat.le_trans (Nat.le_succ_of_le before) above)
    · exact fun other low high above =>
        ofRoll other low high (Nat.le_trans (Nat.le_succ_of_le before) above)

theorem AmountThroughout.imp_spans : {amount : Operand Term} → {first stop : Nat} →
    AmountSpans amount first stop →
    (∀ (inner : Term) (low high : Nat), first ≤ low → high ≤ stop → inner.Spans low high →
      P inner → P' inner) →
    (∀ (roll : Roll) (low high : Nat), first ≤ low → high ≤ stop → roll.Spans low high →
      Q roll → Q' roll) →
    AmountThroughout P Q amount → AmountThroughout P' Q' amount
  | .known _, _, _, _, _, _, _ => trivial
  | .computed _, _, _, spans, ofTerm, ofRoll, holds =>
    Term.Throughout.imp_spans spans ofTerm ofRoll holds

end

theorem RollOf.Spans.bounds {roll : Roll} {low high : Nat} (spans : roll.Spans low high) :
    low ≤ roll.id ∧ roll.id < high := by
  rcases spans with ⟨row, rfl⟩
  exact ⟨rowSpans_le row, Nat.lt_succ_self roll.id⟩

section

variable {first stop : Nat}

/-- A condition may be replaced by one that follows from it for everything whose
identity is in the range of the term. -/
theorem Term.Throughout.imp {term : Term} (spans : term.Spans first stop)
    (ofTerm : ∀ inner : Term, first ≤ inner.id → inner.id < stop → P inner → P' inner)
    (ofRoll : ∀ roll : Roll, first ≤ roll.id → roll.id < stop → Q roll → Q' roll)
    (holds : term.Throughout P Q) : term.Throughout P' Q' :=
  Term.Throughout.imp_spans spans
    (fun inner _ _ above below within => ofTerm inner (Nat.le_trans above within.first_le)
      (Nat.lt_of_lt_of_le within.id_lt below))
    (fun roll _ _ above below within => ofRoll roll (Nat.le_trans above within.bounds.1)
      (Nat.lt_of_lt_of_le within.bounds.2 below)) holds

theorem RowThroughout.imp {terms : List Term} (spans : RowSpans terms first stop)
    (ofTerm : ∀ inner : Term, first ≤ inner.id → inner.id < stop → P inner → P' inner)
    (ofRoll : ∀ roll : Roll, first ≤ roll.id → roll.id < stop → Q roll → Q' roll)
    (holds : RowThroughout P Q terms) : RowThroughout P' Q' terms :=
  RowThroughout.imp_spans spans
    (fun inner _ _ above below within => ofTerm inner (Nat.le_trans above within.first_le)
      (Nat.lt_of_lt_of_le within.id_lt below))
    (fun roll _ _ above below within => ofRoll roll (Nat.le_trans above within.bounds.1)
      (Nat.lt_of_lt_of_le within.bounds.2 below)) holds

theorem RollsThroughout.imp {rolls : List Roll} (spans : RollsSpan rolls first stop)
    (ofTerm : ∀ inner : Term, first ≤ inner.id → inner.id < stop → P inner → P' inner)
    (ofRoll : ∀ roll : Roll, first ≤ roll.id → roll.id < stop → Q roll → Q' roll)
    (holds : RollsThroughout P Q rolls) : RollsThroughout P' Q' rolls :=
  RollsThroughout.imp_spans spans
    (fun inner _ _ above below within => ofTerm inner (Nat.le_trans above within.first_le)
      (Nat.lt_of_lt_of_le within.id_lt below))
    (fun roll _ _ above below within => ofRoll roll (Nat.le_trans above within.bounds.1)
      (Nat.lt_of_lt_of_le within.bounds.2 below)) holds

theorem AmountThroughout.imp {amount : Operand Term} (spans : AmountSpans amount first stop)
    (ofTerm : ∀ inner : Term, first ≤ inner.id → inner.id < stop → P inner → P' inner)
    (ofRoll : ∀ roll : Roll, first ≤ roll.id → roll.id < stop → Q roll → Q' roll)
    (holds : AmountThroughout P Q amount) : AmountThroughout P' Q' amount :=
  AmountThroughout.imp_spans spans
    (fun inner _ _ above below within => ofTerm inner (Nat.le_trans above within.first_le)
      (Nat.lt_of_lt_of_le within.id_lt below))
    (fun roll _ _ above below within => ofRoll roll (Nat.le_trans above within.bounds.1)
      (Nat.lt_of_lt_of_le within.bounds.2 below)) holds

end

/-! ## Ranges -/

/-- Whether an identity is in a range. -/
def Between (first stop : Nat) (id : Identity) : Prop := first ≤ id ∧ id < stop

/-- Whether a term and everything in it lies inside. -/
abbrev Term.Inside (inside : Identity → Prop) (term : Term) : Prop :=
  term.Throughout (fun inner => inside inner.id) (fun roll => inside roll.id)

/-- Whether all terms of a row lie inside. -/
abbrev RowInside (inside : Identity → Prop) (terms : List Term) : Prop :=
  RowThroughout (fun inner => inside inner.id) (fun roll => inside roll.id) terms

/-- Whether a roll and everything in it lies inside. -/
structure RollOf.Inside (inside : Identity → Prop) (roll : Roll) : Prop where
  around : inside roll.id
  row : RowInside inside roll.terms

mutual

theorem Term.throughout_true : (term : Term) → term.Throughout (fun _ => True) (fun _ => True)
  | .numeric _ _ => trivial
  | .operator _ _ => trivial
  | .text _ _ => trivial
  | .group _ roll => ⟨trivial, trivial, rowThroughout_true roll.terms⟩
  | .function _ _ rolls => ⟨trivial, rollsThroughout_true rolls⟩
  | .dice d => ⟨trivial, amountThroughout_true d.number, amountThroughout_true d.faces⟩
  | .pool p => ⟨trivial, rollsThroughout_true p.rolls⟩

theorem rowThroughout_true : (terms : List Term) →
    RowThroughout (fun _ => True) (fun _ => True) terms
  | [] => trivial
  | term :: rest => ⟨term.throughout_true, rowThroughout_true rest⟩

theorem rollsThroughout_true : (rolls : List (RollOf Term)) →
    RollsThroughout (fun _ => True) (fun _ => True) rolls
  | [] => trivial
  | roll :: rest => ⟨trivial, rowThroughout_true roll.terms, rollsThroughout_true rest⟩

theorem amountThroughout_true : (amount : Operand Term) →
    AmountThroughout (fun _ => True) (fun _ => True) amount
  | .known _ => trivial
  | .computed term => term.throughout_true

end

/-- A term lies inside its range. -/
theorem Term.Spans.inside {term : Term} {first stop : Nat} (spans : term.Spans first stop) :
    term.Inside (Between first stop) :=
  Term.Throughout.imp spans (fun _ above below _ => ⟨above, below⟩)
    (fun _ above below _ => ⟨above, below⟩) term.throughout_true

/-- A row lies inside its range. -/
theorem RowSpans.inside {terms : List Term} {first stop : Nat} (spans : RowSpans terms first stop) :
    RowInside (Between first stop) terms :=
  RowThroughout.imp spans (fun _ above below _ => ⟨above, below⟩)
    (fun _ above below _ => ⟨above, below⟩) (rowThroughout_true terms)

/-- An amount lies inside its range. -/
theorem AmountSpans.inside {amount : Operand Term} {first stop : Nat}
    (spans : AmountSpans amount first stop) :
    AmountThroughout (fun inner => Between first stop inner.id)
      (fun roll => Between first stop roll.id) amount :=
  AmountThroughout.imp spans (fun _ above below _ => ⟨above, below⟩)
    (fun _ above below _ => ⟨above, below⟩) (amountThroughout_true amount)

/-- A roll lies inside its range. -/
theorem RollOf.Spans.inside {roll : Roll} {first stop : Nat} (spans : roll.Spans first stop) :
    roll.Inside (Between first stop) := by
  obtain ⟨row, ended⟩ := spans
  have below : roll.id < stop := by
    unfold Identity at *
    omega
  refine ⟨⟨rowSpans_le row, below⟩, ?_⟩
  exact RowThroughout.imp row (fun _ above under _ => ⟨above, Nat.lt_trans under below⟩)
    (fun _ above under _ => ⟨above, Nat.lt_trans under below⟩) (rowThroughout_true roll.terms)

end DiceNotation
