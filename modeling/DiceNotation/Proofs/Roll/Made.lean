import DiceNotation.Proofs.Roll.Formulas
import DiceNotation.Proofs.Roll.Restoring
import DiceNotation.Roll.Derived

namespace DiceNotation

/-!
# Renewing records

To renew the record of a term is to go through it as data and to take away what the
evaluation has added.  What remains is the record that the term had when it was
built, if the methods are still the same.  The renewed records of a roll are
restored like any others, so a clone has the record of the roll before anything was
evaluated.
-/

/-- In one ledger a term is as it was in another one when nothing was evaluated,
apart from what evaluation adds. -/
structure Term.Renews (ledger built : Ledger) (term : Term) : Prop where
  sound : term.IsSound
  unevaluated : built.isEvaluated term = false
  dice : ∀ d, term = .dice d → built.outcomes d.tag.id = [] ∧
    ∃ name, (ledger.term d.tag.id).method = .string name ∧
      (built.term d.tag.id).method = .string name
  pool : ∀ p, term = .pool p → built.outcomes p.tag.id = []

/-- In a ledger nothing was evaluated of a roll. -/
def RollOf.Renews (built : Ledger) (roll : Roll) : Prop := built.isRollEvaluated roll = false

variable {ledger built : Ledger}

namespace Json

theorem renewed_termRecord (ledger : Ledger) (term : Term) (special : Fields) :
    (ledger.termRecord term special).renewed =
      .object ([("class", .string term.termClass.name), ("options", .object term.tag.options),
        ("evaluated", .bool false)] ++ renewedParts special) := by
  rfl

theorem renewed_rollRecord (ledger : Ledger) (roll : Roll) (terms : List Json) :
    (ledger.rollRecord roll terms).renewed =
      .object [("class", .string "Roll"), ("options", .object roll.options),
        ("data", .object roll.data), ("formula", .string roll.formula),
        ("terms", .array (renewedItems terms)), ("total", .null), ("evaluated", .bool false)] := by
  rfl

/-- Texts are not changed. -/
theorem renewedItems_modifiers {modifiers : List Json} (are : AreModifiers modifiers) :
    renewedItems modifiers = modifiers := by
  induction modifiers with
  | nil => rfl
  | cons modifier rest ih =>
    rcases are modifier List.mem_cons_self with ⟨text, rfl, _⟩
    rw [renewedItems, ih fun other member => are other (List.mem_cons_of_mem _ member)]
    rfl

end Json

theorem Term.Renews.termRecord {term : Term} (renews : term.Renews ledger built)
    {special renewed : Fields} (parts : Json.renewedParts special = renewed) :
    (ledger.termRecord term special).renewed = built.termRecord term renewed := by
  rw [Json.renewed_termRecord, Ledger.termRecord, renews.unevaluated, parts]

theorem RollOf.Renews.rollRecord {roll : Roll} (renews : roll.Renews built)
    {terms renewed : List Json} (parts : Json.renewedItems terms = renewed) :
    (ledger.rollRecord roll terms).renewed = built.rollRecord roll renewed := by
  rw [Json.renewed_rollRecord, Ledger.rollRecord, Ledger.rollTotal, renews, parts]
  rfl

mutual

/-- The renewed record of a term is the record that it had when it was built. -/
theorem Ledger.renewed_record : {term : Term} →
    term.Throughout (Term.Renews ledger built) (RollOf.Renews built) →
    (ledger.record term).renewed = built.record term
  | .numeric tag value, renews => by
    rcases renews.sound with ⟨n, rfl⟩
    exact renews.termRecord rfl
  | .operator _ _, renews => renews.termRecord rfl
  | .text tag word, renews => by
    rcases renews.sound with ⟨text, rfl⟩
    exact renews.termRecord rfl
  | .group tag roll, ⟨here, around, inside⟩ => by
    have row := renewed_records inside
    have whole : (ledger.rollRecord roll (ledger.records roll.terms)).renewed = _ :=
      around.rollRecord row
    refine here.termRecord ?_
    change [("roll", _)] = _
    rw [whole]
    rfl
  | .function tag fn rolls, ⟨here, parts⟩ => by
    have inside := renewed_rollRecords parts
    refine here.termRecord ?_
    change [("fn", _), ("rolls", Json.array _)] = _
    rw [inside]
    rfl
  | .dice d, ⟨here, number, faces⟩ => by
    have numbers := renewed_amountRecord number
    have sides := renewed_amountRecord faces
    have modifiers := Json.renewedItems_modifiers here.sound.modifiers
    rcases here.dice d rfl with ⟨none, name, now, then_⟩
    refine here.termRecord ?_
    change [("number", _), ("faces", _), ("modifiers", Json.array _), ("results", Json.array []),
      ("method", _)] = _
    rw [numbers, sides, modifiers, now, then_, Ledger.outcomesRecord, none]
    rfl
  | .pool p, ⟨here, parts⟩ => by
    have inside := renewed_rollRecords parts
    have modifiers := Json.renewedItems_modifiers here.sound
    refine here.termRecord ?_
    change [("rolls", Json.array _), ("modifiers", Json.array _), ("results", Json.array [])] = _
    rw [inside, modifiers, Ledger.outcomesRecord, here.pool p rfl]
    rfl

theorem Ledger.renewed_records : {terms : List Term} →
    RowThroughout (Term.Renews ledger built) (RollOf.Renews built) terms →
    Json.renewedItems (ledger.records terms) = built.records terms
  | [], _ => rfl
  | term :: rest, ⟨here, later⟩ => by
    rw [Ledger.records, Json.renewedItems, renewed_record here, renewed_records later]
    rfl

theorem Ledger.renewed_rollRecords : {rolls : List Roll} →
    RollsThroughout (Term.Renews ledger built) (RollOf.Renews built) rolls →
    Json.renewedItems (ledger.rollRecords rolls) = built.rollRecords rolls
  | [], _ => rfl
  | roll :: rest, ⟨around, row, later⟩ => by
    have whole : (ledger.rollRecord roll (ledger.records roll.terms)).renewed = _ :=
      around.rollRecord (renewed_records row)
    rw [Ledger.rollRecords, Json.renewedItems, whole, renewed_rollRecords later]
    rfl

theorem Ledger.renewed_amountRecord : {amount : Operand Term} →
    AmountThroughout (Term.Renews ledger built) (RollOf.Renews built) amount →
    (ledger.amountRecord amount).renewed = built.amountRecord amount
  | .known _, _ => rfl
  | .computed _, renews => renewed_record renews

end

/-! ## Clones -/

namespace Build

variable {setup : Setup} {low base : Nat}

/-- To renew the terms of a row one after another gives a copy of the row as it was
built. -/
theorem renewRow_restores {terms : List Term} {first stop : Nat} (spans : RowSpans terms first stop)
    (above : low ≤ first) (restorable : RowRestorable setup built terms) {start : Ledger}
    (renews : ∀ other, Ledger.Extends start other →
      RowThroughout (Term.Renews other built) (RollOf.Renews built) terms)
    (begins : start.next = shift low base first) :
    Restores (each (renew setup) terms) start (Term.renumberRow (shift low base) terms)
      (shift low base stop) (RowCopied (shift low base) built · terms) := by
  induction terms generalizing first start with
  | nil =>
    obtain rfl : stop = first := spans
    exact ⟨start, rfl, begins, Ledger.Extends.refl start, trivial⟩
  | cons term rest ih =>
    rcases spans with ⟨middle, here, later⟩
    rcases restorable with ⟨head, tail⟩
    have beyond : low ≤ middle := Nat.le_trans above (Nat.le_of_lt here.lt)
    have renewed := Ledger.renewed_record (renews start (Ledger.Extends.refl start)).1
    rcases restore_term here above head start begins with ⟨between, built, ended, extended, copied⟩
    have made : renew setup term start = .ok (term.renumber (shift low base), between) := by
      rw [renew, renewed]
      exact built
    have others : ∀ other, Ledger.Extends between other → _ :=
      fun other further => (renews other (extended.trans further)).2
    rcases ih later beyond tail others ended with ⟨last, more, finished, further, copies⟩
    refine ⟨last, bind_eq_ok.2 ⟨_, between, made, map_eq_ok.2 ⟨_, more, rfl⟩⟩, finished,
      extended.trans further, copied.extend here above ended further, copies⟩

/-- The clone of a roll is a copy of the roll as it was built. -/
theorem clone_restores {model : Roll} {first stop : Nat} (spans : model.Spans first stop)
    (around : model.IsRestorable built) (row : RowRestorable setup built model.terms)
    {start : Ledger}
    (renews : ∀ other, Ledger.Extends start other →
      RowThroughout (Term.Renews other built) (RollOf.Renews built) model.terms) :
    Restores (clone setup model) start (model.renumber (shift first start.next))
      (shift first start.next stop) (RollOf.Copied (shift first start.next) built · model) := by
  rcases spans with ⟨inside, rfl⟩
  have checked := (around.sound.renumber (shift first start.next)).checkRow
  have begins := shift_first first start.next
  refine (renewRow_restores inside (Nat.le_refl _) row renews begins).bind ?_
  intro middle ended copied
  rcases ofRow_restores around copied ended (rowSpans_le inside) with
    ⟨last, made, finished, extended, alike⟩
  exact ⟨last, roll_eq_ok.2 ⟨checked, made⟩, finished, extended, alike,
    copied.extend inside (Nat.le_refl _) ended extended⟩

end Build
end DiceNotation

namespace DiceNotation

/-!
## Rolls as they are made

A roll that was made from a formula is sound in all its parts, its dice have methods
that are known, and nothing has happened to it yet.  So its record can be restored,
and whatever is done to it afterwards, it can be cloned as long as the methods stay.
-/

/-- A roll as it was made. -/
structure RollOf.IsMade (setup : Setup) (first : Nat) (ledger : Ledger) (roll : Roll) : Prop where
  spans : roll.Spans first ledger.next
  fresh : Ledger.FreshOn ledger first ledger.next
  sound : roll.IsSound
  row : RowThroughout (Term.IsRestorable setup ledger) RollOf.IsSound roll.terms

namespace Ledger

/-! ## Methods of all dice -/

theorem next_withMethod (method : Json) (dice : List Dice) (ledger : Ledger) :
    (ledger.withMethod method dice).next = ledger.next := by
  induction dice generalizing ledger with
  | nil => rfl
  | cons die rest ih =>
    rw [withMethod_cons, ih]
    rfl

theorem FreshOn.withMethod {ledger : Ledger} {first stop : Nat} (fresh : FreshOn ledger first stop)
    (method : Json) (dice : List Dice) : FreshOn (ledger.withMethod method dice) first stop := by
  induction dice generalizing ledger with
  | nil => exact fresh
  | cons die rest ih =>
    rw [withMethod_cons]
    exact ih (fresh.setMethod die.tag.id method)

/-- Afterwards a term has the given method or the one that it had. -/
theorem method_withMethod (method : Json) (dice : List Dice) (ledger : Ledger) (id : Identity) :
    ((ledger.withMethod method dice).term id).method = method ∨
      ((ledger.withMethod method dice).term id).method = (ledger.term id).method := by
  induction dice generalizing ledger with
  | nil => exact .inr rfl
  | cons die rest ih =>
    rw [withMethod_cons]
    rcases ih (ledger.updateTerm die.tag.id fun state => { state with method := method }) with
      given | kept
    · exact .inl given
    · rw [kept, term_updateTerm]
      split
      · exact .inl rfl
      · exact .inr rfl

end Ledger

namespace Build

variable {setup : Setup}

theorem next_withGivenMethod (method : Json) (roll : Roll) (ledger : Ledger) :
    (withGivenMethod method roll ledger).next = ledger.next := by
  cases method <;> first | rfl | exact Ledger.next_withMethod _ _ _

theorem fresh_withGivenMethod {ledger : Ledger} {first stop : Nat}
    (fresh : Ledger.FreshOn ledger first stop) (method : Json) (roll : Roll) :
    Ledger.FreshOn (withGivenMethod method roll ledger) first stop := by
  cases method <;> first | exact fresh | exact fresh.withMethod _ _

/-- Data that names a known method is the text of its name. -/
theorem named_eq_ok {table : MethodTable} {method : Json} {known : Method}
    (named : table.named method = .ok known) :
    ∃ name, method = .string name ∧ table.get name = .ok known := by
  cases method with
  | string name => exact ⟨name, rfl, named⟩
  | _ => cases named

theorem hasKnownMethod_withGivenMethod {ledger : Ledger} {method : Json}
    (known : method ≠ .null → ∃ known, setup.methods.named method = .ok known) {roll : Roll}
    {term : Term} (has : term.HasKnownMethod setup ledger) :
    term.HasKnownMethod setup (withGivenMethod method roll ledger) := by
  intro dice is
  by_cases none : method = .null
  · subst none
    exact has dice is
  · rw [withGivenMethod_of_ne none]
    rcases ledger.method_withMethod method roll.dice dice.tag.id with given | kept
    · rcases known none with ⟨found, named⟩
      rcases named_eq_ok named with ⟨name, rfl, get⟩
      exact ⟨name, found, get, given⟩
    · rw [kept]
      exact has dice is

/-- The roll of a formula as it was made. -/
theorem ofFormula_isMade {input : RollInput} {ledger last : Ledger} {roll : Roll}
    (built : ofFormula setup input ledger = .ok (roll, last)) :
    roll.IsMade setup ledger.next last := by
  rcases ofFormula_eq_ok.1 built with
    ⟨text, tree, row, middle, later, replaced, parsed, inside, around, known, rfl⟩
  rcases terms_built tree inside with ⟨grown, spans, parts⟩
  rcases roll_of_fresh grown spans around with ⟨rfl, rfl, checked⟩
  have whole := grown.trans (Ledger.Grown.allot middle)
  refine ⟨?_, ?_, isSound_of_terms inside checked rfl, ?_⟩
  · rw [next_withGivenMethod]
    exact ⟨spans, rfl⟩
  · rw [next_withGivenMethod]
    exact fresh_withGivenMethod whole.fresh _ _
  · refine (rowBuilt_extend parts spans (Ledger.Grown.allot middle)).imp spans ?_ ?_
    · intro term _ _ ⟨sound, default⟩
      refine ⟨sound, hasKnownMethod_withGivenMethod known ?_⟩
      intro dice is
      rcases default dice is with ⟨name, found, _, get, method⟩
      exact ⟨name, found, get, method⟩
    · exact fun _ _ _ sound => sound

end Build

/-! ## Restoring and renewing what was made -/

section

variable {setup : Setup} {first stop : Nat} {ledger : Ledger} {roll : Roll}

/-- A sound roll that waits is not evaluated, and neither are its terms. -/
theorem RollOf.IsSound.faithful_of_waits (sound : roll.IsSound) (spans : roll.Spans first stop)
    (waits : ledger.Waits first stop) : roll.IsFaithful ledger := by
  have row := Build.unevaluated_of_waits
    (waits.mono (Nat.le_refl _) (Nat.le_of_lt spans.bounds.2)) spans.1
    (Build.ne_nil_of_checkRow sound.checkRow)
  have around := waits.isRollEvaluated spans.bounds.1 spans.bounds.2
  refine ⟨around.trans row.symm, ?_⟩
  rw [around]
  intro evaluated
  cases evaluated

namespace RollOf.IsMade

/-- Nothing in a roll is evaluated when it is made. -/
theorem waits (made : roll.IsMade setup first ledger) : ledger.Waits first ledger.next :=
  .of_fresh made.fresh (Nat.le_refl _)

theorem isRestorable (made : roll.IsMade setup first ledger) : roll.IsRestorable ledger :=
  ⟨made.sound, made.sound.faithful_of_waits made.spans made.waits⟩

theorem rowRestorable (made : roll.IsMade setup first ledger) :
    Build.RowRestorable setup ledger roll.terms := by
  have within := Nat.le_of_lt made.spans.bounds.2
  refine RowThroughout.imp_spans made.spans.1 (fun _ _ _ _ _ _ holds => holds) ?_ made.row
  intro inner low high above below spans sound
  exact ⟨sound, sound.faithful_of_waits spans (made.waits.mono above (Nat.le_trans below within))⟩

/-- As long as the methods stay, the terms of a roll can be renewed. -/
theorem renews (made : roll.IsMade setup first ledger) {other : Ledger}
    (touched : Ledger.Touched (fun _ => True) ledger other) :
    RowThroughout (Term.Renews other ledger) (RollOf.Renews ledger) roll.terms := by
  have within := made.spans.bounds.2
  refine RowThroughout.imp_spans made.spans.1 ?_ ?_ made.rowRestorable
  · intro term low high above below spans restorable
    have used : term.id < ledger.next :=
      Nat.lt_trans (Nat.lt_of_lt_of_le spans.id_lt below) within
    have blank := (made.fresh term.id (Nat.le_trans above spans.first_le) used).1
    have outcomes : (ledger.term term.id).outcomes = [] := by
      rw [blank]
    refine ⟨restorable.sound, ?_, ?_, ?_⟩
    · rw [Ledger.isEvaluated, blank]
      rfl
    · rintro d rfl
      rcases restorable.method d rfl with ⟨name, _, _, named⟩
      exact ⟨outcomes, name, (touched.method d.tag.id used).trans named, named⟩
    · rintro p rfl
      exact outcomes
  · intro inner low high above below spans _
    have used : inner.id < ledger.next :=
      Nat.lt_trans (Nat.lt_of_lt_of_le spans.bounds.2 below) within
    rw [RollOf.Renews, Ledger.isRollEvaluated,
      (made.fresh inner.id (Nat.le_trans above spans.bounds.1) used).2]
    rfl

end RollOf.IsMade

end

end DiceNotation
