import DiceNotation.Proofs.Roll.Restorable

namespace DiceNotation
namespace Build

/-!
# Restoring terms

The record of a restorable term is restored as the same term with the identities
that come next, and the ledger knows the same about them.  The records of what is
inside are restored first and in the order in which the identities were taken when
the term was built, so the identities of a copy are those of the term, moved.
-/

variable {setup : Setup}

/-! ## Records of each class -/

section

variable {fields : Fields} {expected : Option TermClass}

theorem restoreTerm_group {inner : Json} (known : classOf fields expected = .ok .group)
    (part : Fields.get? fields "roll" = some inner) :
    restoreTerm setup expected (.object fields) = (do
      let inside ← restoreRoll setup inner
      settleTerm fields (← restoreGroup fields inside)) := by
  rw [restoreTerm, known, lift_ok_bind]
  simp only [Fields.part?_eq_some part]

theorem restoreTerm_function {name : Json} {items : List Json}
    (known : classOf fields expected = .ok .function)
    (called : Fields.get? fields "fn" = some name)
    (part : Fields.get? fields "rolls" = some (.array items)) :
    restoreTerm setup expected (.object fields) = (do
      let rolls ← restoreRollItems setup items
      settleTerm fields (← restoreFunction fields name rolls)) := by
  have required : Fields.require fields "fn" = .ok name := by
    rw [Fields.require, called]
  rw [restoreTerm, known, lift_ok_bind]
  simp only [required, lift_ok_bind, Fields.part?_eq_some part, restoreRolls]

theorem restoreTerm_pool {items : List Json} (known : classOf fields expected = .ok .pool)
    (part : Fields.get? fields "rolls" = some (.array items)) :
    restoreTerm setup expected (.object fields) = (do
      let rolls ← restoreRollItems setup items
      settleTerm fields (← restorePool fields rolls)) := by
  rw [restoreTerm, known, lift_ok_bind]
  simp only [Fields.part?_eq_some part, restoreRolls]

theorem restoreTerm_dice {kind : DieKind} {number faces : Json}
    (known : classOf fields expected = .ok (.dice kind))
    (first : Fields.get? fields "number" = some number)
    (second : Fields.get? fields "faces" = some faces) :
    restoreTerm setup expected (.object fields) = (do
      let number ← restoreAmount setup number
      let faces ← restoreAmount setup faces
      settleTerm fields (← restoreDice setup fields kind number faces)) := by
  rw [restoreTerm, known, lift_ok_bind]
  simp only [Fields.part?_eq_some first, Fields.part?_eq_some second]

theorem restoreRoll_object {items : List Json} (known : checkRollClass fields = .ok ())
    (part : Fields.get? fields "terms" = some (.array items)) :
    restoreRoll setup (.object fields) = (do
      restoreRow fields (← restoreTermItems setup items)) := by
  rw [restoreRoll, known, lift_ok_bind]
  simp only [Fields.part?_eq_some part, restoreTerms]

end

/-! ## Single steps -/

section

variable {low base : Nat} {ledger middle after : Ledger} {term : Term}

theorem phase_allot (ledger : Ledger) : (ledger.allot.term ledger.next).phase = .unevaluated := by
  rw [Ledger.term_allot, if_pos rfl]
  rfl

theorem next_settled (evaluated : Bool) (id : Identity) (ledger : Ledger) :
    (settled evaluated id ledger).next = ledger.next := by
  cases evaluated <;> rfl

theorem term_settled (evaluated : Bool) (id : Identity) (ledger : Ledger) :
    ((settled evaluated id ledger).term id).outcomes = (ledger.term id).outcomes ∧
      ((settled evaluated id ledger).term id).method = (ledger.term id).method := by
  cases evaluated with
  | false => exact ⟨rfl, rfl⟩
  | true =>
    rw [settled, if_pos rfl, Ledger.term_updateTerm, if_pos rfl]
    exact ⟨rfl, rfl⟩

theorem isEvaluated_settled {evaluated : Bool} {id : Identity}
    (unevaluated : (ledger.term id).phase = .unevaluated) :
    (((settled evaluated id ledger).term id).phase == .evaluated) = evaluated := by
  cases evaluated with
  | false =>
    rw [settled, if_neg Bool.false_ne_true, unevaluated]
    rfl
  | true =>
    rw [settled, if_pos rfl, Ledger.term_updateTerm, if_pos rfl]
    rfl

theorem extends_settled (evaluated : Bool) (extended : Ledger.Extends middle after) {id : Identity}
    (unused : middle.next ≤ id) : Ledger.Extends middle (settled evaluated id after) := by
  cases evaluated with
  | false => exact extended
  | true => exact extended.updateTerm unused _

/-- What restoring gives: a result, and a ledger that was extended up to a bound and
satisfies a condition. -/
def Restores {α : Type} (construction : Build α) (start : Ledger) (result : α) (next : Nat)
    (condition : Ledger → Prop) : Prop :=
  ∃ last, construction start = .ok (result, last) ∧ last.next = next ∧
    Ledger.Extends start last ∧ condition last

/-- To mark a term that has got the next identity is the last step of restoring it. -/
theorem settleTerm_restores {construction : Build Term} (special : Fields)
    (named : middle.next = shift low base term.id) (above : low ≤ term.id)
    (built : construction middle = .ok (term.renumber (shift low base), after))
    (extended : Ledger.Extends middle after) (ended : after.next = middle.next + 1)
    (unevaluated : (after.term middle.next).phase = .unevaluated)
    (dice : ∀ d, term = .dice d → after.outcomes middle.next = ledger.outcomes d.tag.id ∧
      (after.term middle.next).method = (ledger.term d.tag.id).method)
    (pool : ∀ p, term = .pool p → after.outcomes middle.next = ledger.outcomes p.tag.id) :
    Restores (do settleTerm (ledger.termFields term special) (← construction)) middle
      (term.renumber (shift low base)) (shift low base (term.id + 1))
      (term.Alike (shift low base) ledger) := by
  have same : (term.renumber (shift low base)).id = middle.next := by
    rw [Term.id_renumber, named]
  have kept := term_settled (ledger.isEvaluated term) middle.next after
  refine ⟨settled (ledger.isEvaluated term) middle.next after, ?_, ?_, ?_, ?_, ?_, ?_⟩
  · refine bind_eq_ok.2 ⟨_, _, built, ?_⟩
    rw [settleTerm_termFields, same]
  · rw [next_settled, ended, named, shift_succ above]
  · exact extends_settled _ extended (Nat.le_refl _)
  · rw [Ledger.isEvaluated, same]
    exact isEvaluated_settled unevaluated
  · intro d is
    have here := dice d is
    subst is
    have name : middle.next = shift low base d.tag.id := named
    rw [Ledger.outcomes, ← name]
    exact ⟨kept.1.trans here.1, kept.2.trans here.2⟩
  · intro p is
    have here := pool p is
    subst is
    have name : middle.next = shift low base p.tag.id := named
    rw [Ledger.outcomes, ← name]
    exact kept.1.trans here

end

theorem rollOfData_eq_ok {options data : Fields} {terms : List Term} {ledger last : Ledger}
    {roll : Roll} :
    rollOfData (.object options) (.object data) terms ledger = .ok (roll, last) ↔
      checkRow terms = .ok () ∧ ofRow options data terms ledger = .ok (roll, last) := by
  simp only [rollOfData, Fields.ofData, lift_bind_eq_ok]
  constructor
  · rintro ⟨_, checked, _, ⟨⟩, _, ⟨⟩, built⟩
    exact ⟨checked, built⟩
  · rintro ⟨checked, built⟩
    exact ⟨(), checked, data, rfl, options, rfl, built⟩

/-- A roll whose record says nothing else than its terms is restored as it is built. -/
theorem restoreRow_eq_ok {fields options data : Fields} {terms : List Term}
    {ledger last : Ledger} {roll : Roll}
    (given : fieldOf fields "options" = .object options)
    (more : fieldOf fields "data" = .object data)
    (built : rollOfData (.object options) (.object data) terms ledger = .ok (roll, last))
    (agrees : Fields.isEvaluated fields = last.isRollEvaluated roll) :
    restoreRow fields terms ledger = .ok (roll, last) := by
  have settled : (Fields.isEvaluated fields && !last.isRollEvaluated roll) = false := by
    rw [agrees, Bool.and_not_self]
  unfold restoreRow
  rw [given, more]
  refine bind_eq_ok.2 ⟨roll, last, built, bind_eq_ok.2 ⟨last, last, rfl, ?_⟩⟩
  rw [settled]
  rfl

/-- A roll around a copied row is a copy of the roll. -/
theorem ofRow_restores {low base : Nat} {ledger middle : Ledger} {roll : Roll}
    (restorable : roll.IsRestorable ledger)
    (row : RowCopied (shift low base) ledger middle roll.terms)
    (named : middle.next = shift low base roll.id) (above : low ≤ roll.id) :
    Restores (ofRow roll.options roll.data (Term.renumberRow (shift low base) roll.terms)) middle
      (roll.renumber (shift low base)) (shift low base (roll.id + 1))
      (RollOf.Alike (shift low base) ledger · roll) := by
  rcases restorable with ⟨sound, faithful⟩
  have all := row.allEvaluated
  rw [← faithful.evaluated] at all
  have total := RowCopied.totalOfTerms sound row
  have made : roll.renumber (shift low base) =
      { id := middle.next, options := roll.options, data := roll.data,
        terms := Term.renumberRow (shift low base) roll.terms } := by
    rw [named]
    rfl
  rw [Restores, shift_succ above, ← named]
  cases evaluated : ledger.isRollEvaluated roll with
  | false =>
    rw [evaluated] at all
    have around := ofRow_of_unevaluated roll.options roll.data all
    have blank : middle.allot.roll middle.next = default := by
      rw [Ledger.roll_allot, if_pos rfl]
    have unevaluated : middle.allot.isRollEvaluated (roll.renumber (shift low base)) = false := by
      rw [made, Ledger.isRollEvaluated, blank]
      rfl
    rw [← made] at around
    refine ⟨middle.allot, around, rfl, Ledger.Extends.allot middle, ?_, ?_⟩
    · rw [unevaluated, evaluated]
    · rw [Ledger.rollTotal, Ledger.rollTotal, unevaluated, evaluated]
      rfl
  | true =>
    rw [evaluated] at all
    have given := faithful.total evaluated
    rw [← total] at given
    have around := ofRow_of_evaluated roll.options roll.data all given
    let last := middle.allot.updateRoll middle.next fun _ =>
      { phase := .evaluated, total := ledger.rollTotal roll }
    have known : last.roll middle.next = { phase := .evaluated, total := ledger.rollTotal roll } := by
      rw [Ledger.roll_updateRoll, if_pos rfl]
    have done : last.isRollEvaluated (roll.renumber (shift low base)) = true := by
      rw [made, Ledger.isRollEvaluated, known]
      rfl
    rw [← made] at around
    refine ⟨last, around, rfl, (Ledger.Extends.allot middle).updateRoll (Nat.le_refl _) _, ?_, ?_⟩
    · rw [done, evaluated]
    · rw [Ledger.rollTotal, done, if_pos rfl, made, known]

/-- A roll is restored around a copied row, whatever its record says about the total. -/
theorem restoreRow_restores {low base : Nat} {ledger middle : Ledger} {roll : Roll}
    (restorable : roll.IsRestorable ledger)
    (row : RowCopied (shift low base) ledger middle roll.terms)
    (named : middle.next = shift low base roll.id) (above : low ≤ roll.id) (fields : Fields)
    (options : fieldOf fields "options" = .object roll.options)
    (data : fieldOf fields "data" = .object roll.data)
    (evaluated : Fields.isEvaluated fields = ledger.isRollEvaluated roll) :
    Restores (restoreRow fields (Term.renumberRow (shift low base) roll.terms)) middle
      (roll.renumber (shift low base)) (shift low base (roll.id + 1))
      (RollOf.Alike (shift low base) ledger · roll) := by
  have checked := (restorable.sound.renumber (shift low base)).checkRow
  rcases ofRow_restores restorable row named above with ⟨last, built, ended, extended, alike⟩
  refine ⟨last, ?_, ended, extended, alike⟩
  exact restoreRow_eq_ok options data (rollOfData_eq_ok.2 ⟨checked, built⟩)
    (evaluated.trans alike.evaluated.symm)

/-! ## Dice and pools -/

/-- An amount of dice as restoring gives it. -/
def amountInput : Operand Term → AmountInput
  | .known n => .data (.ofInt n)
  | .computed term => .term term

theorem check_amountInput {amount : Operand Term} {least : Nat} (enough : amount.AtLeast least)
    (what : DiceAmount) : (amountInput amount).check what least = .ok amount := by
  cases amount with
  | computed term => rfl
  | known n =>
    have inRange : ¬(n < (least : Int)) := Int.not_lt.2 enough
    change (if n < (least : Int) then _ else _) = _
    rw [if_neg inRange]

theorem atLeast_renumber {least : Int} {amount : Operand Term} (f : Identity → Identity)
    (enough : amount.AtLeast least) : (Term.renumberAmount f amount).AtLeast least := by
  cases amount with
  | known n => exact enough
  | computed term => trivial

theorem isBracketed_renumber {amount : Operand Term} (f : Identity → Identity)
    (bracketed : amount.IsBracketed) : (Term.renumberAmount f amount).IsBracketed := by
  cases amount with
  | known n => trivial
  | computed term =>
    rcases bracketed with ⟨tag, roll, rfl⟩
    exact ⟨_, _, rfl⟩

/-- Restored dice have the faces of their kind. -/
theorem checkFaces_amountInput {dice : Dice} (sound : dice.IsSound) {input : DiceInput}
    (kind : input.kind = dice.kind) (faces : input.faces = amountInput dice.faces) :
    ∃ given, input.checkFaces = .ok given ∧ given.check .faces 1 = .ok dice.faces := by
  cases fixed : dice.kind.fixedFaces? with
  | some count =>
    have same := sound.fixed count fixed
    refine ⟨.data (.ofNat count), ?_, ?_⟩
    · have agrees : input.faces.agrees count = true := by
        rw [faces, same]
        have equal (n : Int) : compare n n = .eq := Std.ReflCmp.compare_self
        refine (Json.same_number _ _).trans ?_
        change (some (compare ((count : Int) * _) ((count : Int) * _)) == some .eq) = true
        rw [equal]
        rfl
      unfold DiceInput.checkFaces
      rw [kind, fixed]
      exact if_pos agrees
    · have enough := sound.faces
      rw [same] at enough ⊢
      exact check_amountInput enough .faces
  | none =>
    refine ⟨input.faces, ?_, ?_⟩
    · unfold DiceInput.checkFaces
      rw [kind, fixed, faces]
      cases dice.faces <;> rfl
    · rw [faces]
      exact check_amountInput sound.faces .faces

theorem isSound_renumber {dice : Dice} (sound : dice.IsSound) (f : Identity → Identity) :
    (dice.renumber f).IsSound where
  number := atLeast_renumber f sound.number
  numberBracketed := isBracketed_renumber f sound.numberBracketed
  faces := atLeast_renumber f sound.faces
  facesBracketed := isBracketed_renumber f sound.facesBracketed
  fixed := by
    intro count fixed
    change Term.renumberAmount f dice.faces = _
    rw [sound.fixed count fixed]
    rfl
  numbered := sound.numbered
  modifiers := sound.modifiers

/-- Sound dice are in order when they are built from what their record says. -/
theorem accepts_of_isSound {dice : Dice} (sound : dice.IsSound) (outcomes : List Outcome)
    {name : String} {known : Method} (found : setup.methods.get name = .ok known)
    (options : Fields) :
    DiceInput.Accepts setup
      { kind := dice.kind, number := amountInput dice.number, faces := amountInput dice.faces,
        modifiers := .array dice.modifiers, results := .array (outcomes.map Outcome.record),
        method := .string name, options := options }
      dice.number dice.faces dice.modifiers outcomes (.string name) where
  number_checked := check_amountInput sound.number .number
  faces_checked := checkFaces_amountInput sound rfl rfl
  modifiers_cut := sound.modifiers.listOfData
  outcomes_restored := Outcome.restoreAll_records outcomes
  method_chosen := by
    have set : (Json.string name).isSet = true :=
      bne_iff_ne.2 (MethodTable.ne_empty_of_get found)
    exact if_pos set
  method_known := ⟨known, found⟩

theorem Restores.bind {α β : Type} {first : Build α} {next : α → Build β} {start : Ledger} {a : α}
    {b : β} {middle stop : Nat} {P : Ledger → Prop} {Q : Ledger → Prop}
    (here : Restores first start a middle P)
    (later : ∀ between : Ledger, between.next = middle → P between →
      Restores (next a) between b stop Q) :
    Restores (first >>= next) start b stop Q := by
  rcases here with ⟨between, built, ended, extended, holds⟩
  rcases later between ended holds with ⟨last, finished, endedToo, further, done⟩
  exact ⟨last, bind_eq_ok.2 ⟨a, between, built, finished⟩, endedToo, extended.trans further, done⟩

theorem Restores.extends {α : Type} {construction : Build α} {start : Ledger} {a : α} {stop : Nat}
    {P : Ledger → Prop} (restores : Restores construction start a stop P) :
    Restores construction start a stop fun last => Ledger.Extends start last ∧ P last := by
  rcases restores with ⟨last, built, ended, extended, holds⟩
  exact ⟨last, built, ended, extended, extended, holds⟩

/-! ## Terms -/

section

variable {low base : Nat} {ledger : Ledger}

/-- The conditions under which a row can be restored. -/
abbrev RowRestorable (setup : Setup) (ledger : Ledger) (terms : List Term) : Prop :=
  RowThroughout (Term.IsRestorable setup ledger) (RollOf.IsRestorable ledger) terms

/-- What the record of a roll says, whatever it says about the total. -/
def rollFields (ledger : Ledger) (roll : Roll) (total : Json) : Fields :=
  [("class", .string "Roll"), ("options", .object roll.options), ("data", .object roll.data),
    ("formula", .string roll.formula), ("terms", .array (ledger.records roll.terms)),
    ("total", total), ("evaluated", .bool (ledger.isRollEvaluated roll))]

/-- The record of a roll gives the roll if the records of its terms give the terms.  It
does not matter what the record says about the total. -/
theorem restoreRoll_restores {roll : Roll} {first : Nat} (spans : RowSpans roll.terms first roll.id)
    (above : low ≤ first) (restorable : roll.IsRestorable ledger) {start : Ledger}
    (row : Restores (restoreTermItems setup (ledger.records roll.terms)) start
      (Term.renumberRow (shift low base) roll.terms) (shift low base roll.id)
      (RowCopied (shift low base) ledger · roll.terms)) (total : Json) :
    Restores (restoreRoll setup (.object (rollFields ledger roll total))) start
      (roll.renumber (shift low base)) (shift low base (roll.id + 1))
      (RollOf.Copied (shift low base) ledger · roll) := by
  have beyond : low ≤ roll.id := Nat.le_trans above (rowSpans_le spans)
  rw [restoreRoll_object rfl rfl]
  refine row.bind fun middle ended copied => ?_
  rcases restoreRow_restores restorable copied ended beyond (rollFields ledger roll total)
    rfl rfl rfl with ⟨last, built, finished, extended, alike⟩
  exact ⟨last, built, finished, extended, alike, copied.extend spans above ended extended⟩

mutual

/-- The record of a term gives the term. -/
theorem restore_term : {term : Term} → {first stop : Nat} → term.Spans first stop → low ≤ first →
    term.Throughout (Term.IsRestorable setup ledger) (RollOf.IsRestorable ledger) →
    ∀ start : Ledger, start.next = shift low base first →
      Restores (restoreTerm setup none (ledger.record term)) start (term.renumber (shift low base))
        (shift low base stop) (Term.Copied (shift low base) ledger · term)
  | .numeric tag value, _, _, ⟨rfl, rfl⟩, above, _, start, begins => by
    have restored : restoreTerm setup none (ledger.record (.numeric tag value)) = (do
        settleTerm (ledger.termFields (.numeric tag value) [("number", value)])
          (← numeric tag.options value)) := by
      rw [Ledger.record, Ledger.termRecord_eq, restoreTerm, classOf_termFields, lift_ok_bind]
      rfl
    rw [restored]
    refine settleTerm_restores _ begins above (numeric_eq_ok.2 ⟨?_, rfl⟩)
      (Ledger.Extends.allot start) rfl (phase_allot start) ?_ ?_
    · rw [begins]
      rfl
    · intro d is
      cases is
    · intro p is
      cases is
  | .operator tag op, _, _, ⟨rfl, rfl⟩, above, _, start, begins => by
    have restored : restoreTerm setup none (ledger.record (.operator tag op)) = (do
        settleTerm (ledger.termFields (.operator tag op) [("operator", .string op.symbol)])
          (← operator tag.options op.symbol)) := by
      rw [Ledger.record, Ledger.termRecord_eq, restoreTerm, classOf_termFields, lift_ok_bind]
      rfl
    rw [restored]
    refine settleTerm_restores _ begins above (operator_eq_ok.2 ⟨?_, rfl⟩)
      (Ledger.Extends.allot start) rfl (phase_allot start) ?_ ?_
    · rw [begins]
      rfl
    · intro d is
      cases is
    · intro p is
      cases is
  | .text tag value, _, _, ⟨rfl, rfl⟩, above, _, start, begins => by
    have restored : restoreTerm setup none (ledger.record (.text tag value)) = (do
        settleTerm (ledger.termFields (.text tag value) [("term", value)])
          (← word tag.options value)) := by
      rw [Ledger.record, Ledger.termRecord_eq, restoreTerm, classOf_termFields, lift_ok_bind]
      rfl
    rw [restored]
    refine settleTerm_restores _ begins above (word_eq_ok.2 ⟨?_, rfl⟩)
      (Ledger.Extends.allot start) rfl (phase_allot start) ?_ ?_
    · rw [begins]
      rfl
    · intro d is
      cases is
    · intro p is
      cases is
  | .group tag roll, _, _, ⟨row, named, rfl⟩, above, ⟨_, around, inside⟩, start, begins => by
    rw [Ledger.record, Ledger.termRecord_eq, restoreTerm_group (classOf_termFields _ _ _)
      (get?_termFields _ _ _ rfl rfl rfl)]
    have whole := restoreRoll_restores row above around (restore_row row above inside start begins)
      (ledger.rollTotal roll)
    refine whole.bind fun middle ended copied => ?_
    have next : middle.next = shift low base tag.id := by
      rw [ended, named]
    have made : restoreGroup (ledger.termFields (.group tag roll) [("roll", ledger.recordOfRoll roll)])
        (roll.renumber (shift low base)) middle =
        .ok (Term.renumber (shift low base) (.group tag roll), middle.allot) := by
      change Except.ok (Term.group ⟨middle.next, tag.options⟩ _, middle.allot) = _
      rw [next]
      rfl
    have beyond : low ≤ tag.id := by
      have behind := rowSpans_le row
      unfold Identity at *
      omega
    rcases settleTerm_restores _ next beyond made (Ledger.Extends.allot middle) rfl
      (phase_allot middle) (fun _ is => nomatch is) (fun _ is => nomatch is) with
      ⟨last, built, finished, extended, alike⟩
    have kept := copied.extend ⟨row, rfl⟩ above ended extended
    exact ⟨last, built, finished, extended, alike, kept.around, kept.row⟩
  | .function tag fn rolls, _, _, ⟨inside, rfl⟩, above, ⟨here, parts⟩, start, begins => by
    rw [Ledger.record, Ledger.termRecord_eq, restoreTerm_function (classOf_termFields _ _ _)
      (get?_termFields _ _ _ rfl rfl rfl) (get?_termFields _ _ _ rfl rfl rfl)]
    refine (restore_rolls inside above parts start begins).bind fun middle ended copied => ?_
    have made : restoreFunction (ledger.termFields (.function tag fn rolls)
        [("fn", .string fn.name), ("rolls", .array (ledger.rollRecords rolls))])
        (.string fn.name) (Term.renumberRolls (shift low base) rolls) middle =
        .ok (Term.renumber (shift low base) (.function tag fn rolls), middle.allot) := by
      have takes : fn.takes (Term.renumberRolls (shift low base) rolls).length = true := by
        rw [Term.renumberRolls_eq_map, List.length_map]
        exact here.sound
      rw [restoreFunction, Function.select_name takes]
      change Except.ok (Term.function ⟨middle.next, tag.options⟩ _ _, middle.allot) = _
      rw [ended]
      rfl
    rcases settleTerm_restores _ ended (Nat.le_trans above (rollsSpan_le inside)) made
      (Ledger.Extends.allot middle) rfl (phase_allot middle) (fun _ is => nomatch is)
      (fun _ is => nomatch is) with ⟨last, built, finished, extended, alike⟩
    exact ⟨last, built, finished, extended, alike, copied.extend inside above ended extended⟩
  | .pool p, _, _, ⟨inside, rfl⟩, above, ⟨here, parts⟩, start, begins => by
    rw [Ledger.record, Ledger.termRecord_eq, restoreTerm_pool (classOf_termFields _ _ _)
      (get?_termFields _ _ _ rfl rfl rfl)]
    refine (restore_rolls inside above parts start begins).bind fun middle ended copied => ?_
    have made : restorePool (ledger.termFields (.pool p)
        [("rolls", .array (ledger.rollRecords p.rolls)), ("modifiers", .array p.modifiers),
          ("results", ledger.outcomesRecord p.tag.id)])
        (Term.renumberRolls (shift low base) p.rolls) middle =
        .ok (Term.renumber (shift low base) (.pool p),
          withPool middle (ledger.outcomes p.tag.id)) := by
      refine pool_eq_ok.2 ⟨p.modifiers, ledger.outcomes p.tag.id, ?_, ?_, ?_, rfl⟩
      · exact AreModifiers.listOfData here.sound
      · exact Outcome.restoreAll_records _
      · rw [ended]
        rfl
    have known : (withPool middle (ledger.outcomes p.tag.id)).term middle.next =
        { outcomes := ledger.outcomes p.tag.id } := by
      rw [withPool, Ledger.term_updateTerm, if_pos rfl, Ledger.term_allot, if_pos rfl]
      rfl
    rcases settleTerm_restores _ ended (Nat.le_trans above (rollsSpan_le inside)) made
      ((Ledger.Extends.allot middle).updateTerm (Nat.le_refl _) _) rfl (by rw [known])
      (fun _ is => nomatch is) (by rintro _ ⟨⟩; rw [Ledger.outcomes, known]) with
      ⟨last, built, finished, extended, alike⟩
    exact ⟨last, built, finished, extended, alike, copied.extend inside above ended extended⟩
  | .dice d, _, _, ⟨⟨between, number, faces⟩, rfl⟩, above, ⟨here, first, second⟩, start, begins => by
    have beyond : low ≤ between := Nat.le_trans above (amountSpans_le number)
    rcases here.method d rfl with ⟨name, method, found, named⟩
    rw [Ledger.record, Ledger.termRecord_eq, restoreTerm_dice (classOf_termFields _ _ _)
      (get?_termFields _ _ _ rfl rfl rfl) (get?_termFields _ _ _ rfl rfl rfl)]
    refine (restore_amount number above first start begins).bind fun early reached counted => ?_
    have both := (restore_amount faces beyond second early reached).extends
    refine both.bind fun middle ended ⟨more, sided⟩ => ?_
    have made : restoreDice setup (ledger.termFields (.dice d)
        [("number", ledger.amountRecord d.number), ("faces", ledger.amountRecord d.faces),
          ("modifiers", .array d.modifiers), ("results", ledger.outcomesRecord d.tag.id),
          ("method", (ledger.term d.tag.id).method)]) d.kind
        (amountInput (Term.renumberAmount (shift low base) d.number))
        (amountInput (Term.renumberAmount (shift low base) d.faces)) middle =
        .ok (Term.renumber (shift low base) (.dice d),
          withDice middle (ledger.outcomes d.tag.id) (.string name)) := by
      rw [named]
      have accepts := accepts_of_isSound (isSound_renumber here.sound (shift low base))
        (ledger.outcomes d.tag.id) found d.tag.options
      refine map_eq_ok.2 ⟨_, dice_eq_ok.2 ⟨_, _, _, _, _, accepts, rfl, rfl⟩, ?_⟩
      rw [ended]
      rfl
    have known := Ledger.term_withDice middle (ledger.outcomes d.tag.id) (.string name)
    rcases settleTerm_restores _ ended (Nat.le_trans beyond (amountSpans_le faces)) made
      ((Ledger.Extends.allot middle).updateTerm (Nat.le_refl _) _) rfl (by rw [known])
      (by rintro _ ⟨⟩; rw [Ledger.outcomes, known, named]; exact ⟨rfl, rfl⟩)
      (fun _ is => nomatch is) with
      ⟨last, built, finished, extended, alike⟩
    exact ⟨last, built, finished, extended, alike,
      counted.extendCopy number above reached (more.trans extended),
      sided.extendCopy faces beyond ended extended⟩

theorem restore_row : {terms : List Term} → {first stop : Nat} → RowSpans terms first stop →
    low ≤ first → RowRestorable setup ledger terms →
    ∀ start : Ledger, start.next = shift low base first →
      Restores (restoreTermItems setup (ledger.records terms)) start
        (Term.renumberRow (shift low base) terms) (shift low base stop)
        (RowCopied (shift low base) ledger · terms)
  | [], _, _, rfl, _, _, start, begins => by
    rw [Ledger.records, restoreTermItems]
    exact ⟨start, rfl, begins, Ledger.Extends.refl start, trivial⟩
  | term :: rest, first, stop, ⟨middle, here, later⟩, above, ⟨head, tail⟩, start, begins => by
    have beyond : low ≤ middle := Nat.le_trans above (Nat.le_of_lt here.lt)
    rw [Ledger.records, restoreTermItems]
    refine (restore_term here above head start begins).bind fun between ended copied => ?_
    rcases restore_row later beyond tail between ended with ⟨last, built, finished, extended, more⟩
    refine ⟨last, map_eq_ok.2 ⟨_, built, rfl⟩, finished, extended, ?_, more⟩
    exact copied.extend here above ended extended

theorem restore_rolls : {rolls : List Roll} → {first stop : Nat} → RollsSpan rolls first stop →
    low ≤ first →
    RollsThroughout (Term.IsRestorable setup ledger) (RollOf.IsRestorable ledger) rolls →
    ∀ start : Ledger, start.next = shift low base first →
      Restores (restoreRollItems setup (ledger.rollRecords rolls)) start
        (Term.renumberRolls (shift low base) rolls) (shift low base stop)
        (RollsCopied (shift low base) ledger · rolls)
  | [], _, _, rfl, _, _, start, begins => by
    rw [Ledger.rollRecords, restoreRollItems]
    exact ⟨start, rfl, begins, Ledger.Extends.refl start, trivial⟩
  | roll :: rest, first, stop, ⟨row, later⟩, above, ⟨around, inside, tail⟩, start, begins => by
    have beyond : low ≤ roll.id + 1 := Nat.le_trans above (Nat.le_succ_of_le (rowSpans_le row))
    rw [Ledger.rollRecords, restoreRollItems]
    have whole := restoreRoll_restores row above around (restore_row row above inside start begins)
      (ledger.rollTotal roll)
    refine whole.bind fun between ended copied => ?_
    rcases restore_rolls later beyond tail between ended with ⟨last, built, finished, extended, more⟩
    have kept := copied.extend ⟨row, rfl⟩ above ended extended
    exact ⟨last, map_eq_ok.2 ⟨_, built, rfl⟩, finished, extended, kept.around, kept.row, more⟩

theorem restore_amount : {amount : Operand Term} → {first stop : Nat} →
    AmountSpans amount first stop → low ≤ first →
    AmountThroughout (Term.IsRestorable setup ledger) (RollOf.IsRestorable ledger) amount →
    ∀ start : Ledger, start.next = shift low base first →
      Restores (restoreAmount setup (ledger.amountRecord amount)) start
        (amountInput (Term.renumberAmount (shift low base) amount)) (shift low base stop)
        (fun last => AmountThroughout (Term.Alike (shift low base) ledger last)
          (RollOf.Alike (shift low base) ledger last) amount)
  | .known n, _, _, rfl, _, _, start, begins => by
    rw [Ledger.amountRecord, Json.ofInt, restoreAmount]
    · exact ⟨start, rfl, begins, Ledger.Extends.refl start, trivial⟩
    · intro fields is
      cases is
  | .computed term, _, _, spans, above, restorable, start, begins => by
    have record : ∃ fields, ledger.record term = .object fields := by
      cases term <;> exact ⟨_, rfl⟩
    rcases restore_term spans above restorable start begins with ⟨last, built, rest⟩
    rcases record with ⟨fields, record⟩
    rw [record] at built
    rw [Ledger.amountRecord, record, restoreAmount]
    exact ⟨last, map_eq_ok.2 ⟨_, built, rfl⟩, rest⟩

end

/-- The record of a restorable roll gives the roll in any ledger, with the identities
that come next, and whatever the record says about the total. -/
theorem restore_roll {roll : Roll} {first stop : Nat} (spans : roll.Spans first stop)
    (around : roll.IsRestorable ledger) (row : RowRestorable setup ledger roll.terms)
    (start : Ledger) (total : Json) :
    Restores (restoreRoll setup (.object (rollFields ledger roll total))) start
      (roll.renumber (shift first start.next)) (shift first start.next stop)
      (RollOf.Copied (shift first start.next) ledger · roll) := by
  rcases spans with ⟨inside, rfl⟩
  exact restoreRoll_restores inside (Nat.le_refl first) around
    (restore_row inside (Nat.le_refl first) row start (shift_first first start.next)) total

end

end Build
end DiceNotation
