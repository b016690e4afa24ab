import DiceNotation.Proofs.Formula.Enclosed
import DiceNotation.Proofs.Formula.References
import DiceNotation.Proofs.Roll.Formulas

namespace DiceNotation

open Text

/-!
# Text data in formulas

Where a text takes the place of its reference it is put in brackets, unless it is a plain
number.  The brackets keep the text apart from the formula around it if the text is closed.
Then it is a formula of its own, and the row of the roll has the shape that any other closed
text in these brackets would give it.

Nothing checks that the text is closed.  A text that closes the bracket before it and opens
the one behind it takes part in the formula around it, although it is no formula itself.
-/

/-! ## The outline of a row -/

/-- What a term is in its row: its class, and which operator it is if it is one. -/
def Term.outline (term : Term) : TermClass × Option Operator :=
  match term with
  | .operator _ op => (.operator, some op)
  | term => (term.termClass, none)

/-- The outline of the row of a tree of operands. -/
def Tree.outline : Tree TermClass → List (TermClass × Option Operator)
  | .leaf operand => [(operand, none)]
  | .node op left right => left.outline ++ (.operator, some op) :: right.outline

namespace Build

variable {setup : Setup}

theorem outline_of_clause {part : Clause} {ledger last : Ledger} {term : Term}
    (built : clause setup part ledger = .ok (term, last)) :
    term.outline = (part.termClass, none) := by
  cases part with
  | numeric value flavor raw =>
    obtain ⟨rfl, _⟩ := numeric_eq_ok.1 built
    rfl
  | text text flavor raw =>
    obtain ⟨rfl, _⟩ := word_eq_ok.1 built
    rfl
  | group inner flavor raw =>
    obtain ⟨_, _, _, _, _, _, rfl, _⟩ := group_eq_ok.1 built
    rfl
  | function name arguments flavor raw =>
    obtain ⟨_, _, _, _, _, rfl, _⟩ := clauseFunction_eq_ok.1 built
    rfl
  | pool members modifiers flavor raw =>
    obtain ⟨_, _, _, rfl, _⟩ := clausePool_eq_ok.1 built
    rfl
  | dice number faces modifiers flavor raw =>
    obtain ⟨_, _, _, dice⟩ := clauseDice_eq_ok.1 built
    cases faces with
    | letter code =>
      obtain ⟨kind, made, known, inside, rfl⟩ := diceLetter_eq_ok.1 dice
      obtain ⟨_, _, _, _, _, _, rfl, _⟩ := dice_eq_ok.1 inside
      rw [Clause.termClass, Faces.kind, known]
      rfl
    | amount given =>
      obtain ⟨_, _, made, _, inside, rfl⟩ := diceAmount_eq_ok.1 dice
      obtain ⟨_, _, _, _, _, _, rfl, _⟩ := dice_eq_ok.1 inside
      rfl

/-- The terms of a tree are in a row as the classes of its clauses tell. -/
theorem outline_of_terms {tree : Tree Clause} {ledger last : Ledger} {row : List Term}
    (built : terms setup tree ledger = .ok (row, last)) :
    row.map Term.outline = (tree.map Clause.termClass).outline := by
  induction tree generalizing ledger last row with
  | leaf part =>
    obtain ⟨term, single, rfl⟩ := leaf_eq_ok.1 built
    exact congrArg (fun outline => [outline]) (outline_of_clause single)
  | node op left right left_ih right_ih =>
    obtain ⟨before, middle, behind, first, second, rfl⟩ := node_eq_ok.1 built
    rw [List.map_append, List.map_cons, left_ih first, right_ih second]
    rfl

/-- The outline of a roll is the one of the tree of its formula. -/
theorem outline_of_ofFormula {input : RollInput} {ledger last : Ledger} {roll : Roll}
    (built : ofFormula setup input ledger = .ok (roll, last)) :
    ∃ text tree, Reference.replaceText input.formula input.data none = .ok text ∧
      parseFormula setup text none = .ok tree ∧
      roll.terms.map Term.outline = (tree.map Clause.termClass).outline := by
  obtain ⟨text, tree, row, _, _, replaced, parsed, inside, around, _⟩ := ofFormula_eq_ok.1 built
  obtain ⟨grown, spans, _⟩ := terms_built tree inside
  obtain ⟨rfl, _⟩ := roll_of_fresh grown spans around
  exact ⟨text, tree, replaced, parsed, outline_of_terms inside⟩

end Build

/-! ## A reference in its formula -/

/-- Trimming takes away blanks only. -/
theorem exists_trim (text : List Char) :
    ∃ lead gap, text = lead ++ (trim text ++ gap) ∧ (∀ c ∈ lead, isBlank c = true) ∧
      ∀ c ∈ gap, isBlank c = true := by
  refine ⟨text.takeWhile isBlank, ((skipBlanks text).reverse.takeWhile isBlank).reverse, ?_,
    fun c member => List.mem_takeWhile_imp member,
    fun c member => List.mem_takeWhile_imp (List.mem_reverse.1 member)⟩
  rw [trim, ← List.reverse_append]
  unfold skipBlanks
  rw [List.takeWhile_append_dropWhile, List.reverse_reverse, List.takeWhile_append_dropWhile]

/-- A reference with what stands in front of it and behind it in a formula. -/
structure ReferencePlace where
  front : List Char
  path : List Char
  back : List Char
  present : path ≠ []
  inside : ∀ c ∈ path, Reference.insidePath c = true
  ends : ∀ c, back.head? = some c → Reference.insidePath c = false

namespace ReferencePlace

variable (place : ReferencePlace)

def formula : String := String.ofList (place.front ++ ('@' :: place.path ++ place.back))

/-- The formula with a text in brackets in the place of the reference. -/
def formulaWith (text : List Char) : String :=
  String.ofList (place.front ++ '(' :: (text ++ ')' :: place.back))

section

variable {data : Fields}

/-- A formula is replaced in front of a part, in the part, and behind it. -/
theorem replaceText_parts {c : Char} {part shown : List Char} (starts : Reference.insidePath c = false)
    (alone : Reference.replace data none (c :: part) = .ok ⟨shown, []⟩) {replaced : String}
    (whole : Reference.replaceText (String.ofList (place.front ++ (c :: part ++ place.back))) data
      none = .ok replaced) :
    ∃ before behind, Reference.replace data none place.front = .ok before ∧
      Reference.replace data none place.back = .ok behind ∧
      replaced.toList = before.text ++ (shown ++ behind.text) := by
  rw [Reference.replaceText, String.toList_ofList] at whole
  split at whole
  · cases whole
  · rename_i text parts
    cases whole
    have begins : ∀ d, (c :: part ++ place.back).head? = some d → Reference.insidePath d = false := by
      rintro _ ⟨⟩
      exact starts
    obtain ⟨before, rest, front, later, rfl⟩ := (Reference.replace_parts_eq_ok begins).1 parts
    obtain ⟨middle, behind, is, back, rfl⟩ := (Reference.replace_parts_eq_ok place.ends).1 later
    rw [alone] at is
    cases is
    exact ⟨before, behind, front, back, String.toList_ofList⟩

/-- What stands in brackets stays if it has no references. -/
theorem replaceText_formulaWith {text : List Char} (plain : '@' ∉ text) {replaced : String}
    (whole : Reference.replaceText (place.formulaWith text) data none = .ok replaced) :
    ∃ before behind, Reference.replace data none place.front = .ok before ∧
      Reference.replace data none place.back = .ok behind ∧
      replaced.toList = before.text ++ '(' :: (text ++ ')' :: behind.text) := by
  have alone : Reference.replace data none ('(' :: (text ++ [')'])) = .ok ⟨'(' :: (text ++ [')']), []⟩ :=
    Reference.replace_plain (by simp [plain])
  have same : place.formulaWith text =
      String.ofList (place.front ++ ('(' :: (text ++ [')']) ++ place.back)) := by
    simp [formulaWith]
  rw [same] at whole
  obtain ⟨before, behind, front, back, is⟩ := place.replaceText_parts (by decide) alone whole
  exact ⟨before, behind, front, back, by simp [is]⟩

/-- A text that is no plain number stands in brackets where its reference was. -/
theorem replaceText_formula {value : String}
    (found : Reference.lookUp (.object data) (place.path.splitOn '.') = some (.string value))
    (bracketed : Reference.isPlainNumber (trim value.toList) = false) {replaced : String}
    (whole : Reference.replaceText place.formula data none = .ok replaced) :
    ∃ before behind, Reference.replace data none place.front = .ok before ∧
      Reference.replace data none place.back = .ok behind ∧
      replaced.toList = before.text ++ '(' :: (trim value.toList ++ ')' :: behind.text) := by
  have stands : Reference.replacement place.path (.string value) =
      .ok ('(' :: trim value.toList ++ [')']) := by
    rw [Reference.replacement]
    simp only [bracketed, Bool.false_eq_true, if_false]
  have nothing : Reference.replace data none [] = .ok ⟨[], []⟩ := by rw [Reference.replace]
  have alone := Reference.replace_reference (by simp) place.present place.inside found stands nothing
  rw [List.append_nil] at alone
  obtain ⟨before, behind, front, back, is⟩ := place.replaceText_parts (by decide) alone whole
  exact ⟨before, behind, front, back, by simp [is]⟩

end

end ReferencePlace

/-! ## Closed texts and others -/

theorem isClosed_trim (text : List Char) : IsClosed (trim text) ↔ IsClosed text := by
  obtain ⟨lead, gap, same, before, behind⟩ := exists_trim text
  have other : ∀ c, isBlank c = true → BracketMark.of c = .other := fun _ =>
    BracketMark.other_of_class (by simp [BracketMark.classes])
  have opens : (Opening.outside 0).after text = (Opening.outside 0).after (trim text) := by
    conv_lhs => rw [same]
    rw [Opening.after_append, Opening.after_append,
      Opening.after_of_other fun c member => other c (before c member),
      Opening.after_of_other fun c member => other c (behind c member)]
  rw [IsClosed, IsClosed, opens]

theorem skipBlanks_trim {text : List Char} (none : skipBlanks (trim text) = []) :
    skipBlanks text = [] := by
  obtain ⟨lead, gap, same, before, behind⟩ := exists_trim text
  rw [same, skipBlanks_append before, skipBlanks_append_of_nil none]
  exact List.dropWhile_eq_nil_iff.2 behind

namespace Build

variable {setup : Setup} {place : ReferencePlace} {value : String}

/-- Let a roll be built from a formula in which a reference to a text stands outside of
flavors.  The text is a formula of its own exactly if it is closed and not blank.  If it is
closed, the row of the roll has the outline that any other closed text in the brackets
gives it. -/
theorem ofFormula_with_text {input : RollInput} (formula : input.formula = place.formula)
    (found : Reference.lookUp (.object input.data) (place.path.splitOn '.') = some (.string value))
    (bracketed : Reference.isPlainNumber (trim value.toList) = false)
    {before : Reference.Replaced}
    (front : Reference.replace input.data none place.front = .ok before)
    (outside : EndsOutside before.text) {ledger made : Ledger} {roll : Roll}
    (built : ofFormula setup input ledger = .ok (roll, made)) :
    ((∃ tree, parseFormula setup value none = .ok tree) ↔
      IsClosed value.toList ∧ skipBlanks value.toList ≠ []) ∧
    (IsClosed value.toList → ∀ (text : List Char), IsClosed text → '@' ∉ text →
      ∀ inputToo : RollInput, inputToo.formula = place.formulaWith text →
        inputToo.data = input.data → ∀ first last rollToo,
          ofFormula setup inputToo first = .ok (rollToo, last) →
            rollToo.terms.map Term.outline = roll.terms.map Term.outline) := by
  obtain ⟨settings, valid⟩ := settings_of_ofFormula built
  obtain ⟨replaced, tree, stands, parsed, outline⟩ := outline_of_ofFormula built
  rw [formula] at stands
  obtain ⟨_, behind, same, back, text⟩ := place.replaceText_formula found bracketed stands
  rw [front] at same
  cases same
  rw [parseFormula_of_settings valid] at parsed ⊢
  refine ⟨⟨?_, ?_⟩, ?_⟩
  · rintro ⟨alone, read⟩
    refine ⟨Source.isClosed_of_parse read, ?_⟩
    obtain ⟨rest, begun, _⟩ := Source.parse_found read
    obtain ⟨c, more, visible, _⟩ := Source.isSighted_expressionAt _ _ _ _ begun
    rw [visible]
    exact List.cons_ne_nil c more
  · rintro ⟨closed, visible⟩
    obtain ⟨lead, gap, trimmed, blank, blankToo⟩ := exists_trim value.toList
    let whole : Source := ⟨replaced.toList, settings.imputeNumber, settings.maxNesting⟩
    have alike : settings.imputeNumber = whole.imputeNumber := rfl
    exact Source.parse_alone alike text outside ((isClosed_trim _).2 closed) rfl trimmed blank
      blankToo (mt skipBlanks_trim visible) parsed
  · intro closed other otherClosed plain inputToo formulaToo data first last rollToo builtToo
    obtain ⟨replacedToo, treeToo, standsToo, parsedToo, outlineToo⟩ := outline_of_ofFormula builtToo
    rw [formulaToo, data] at standsToo
    obtain ⟨_, _, same, sameToo, textToo⟩ := place.replaceText_formulaWith plain standsToo
    rw [front] at same
    rw [back] at sameToo
    cases same
    cases sameToo
    rw [parseFormula_of_settings valid, textToo] at parsedToo
    rw [text] at parsed
    rw [outline, outlineToo, Source.classes_of_closed settings.imputeNumber settings.maxNesting
      outside ((isClosed_trim _).2 closed) otherClosed parsed parsedToo]

/-- A product whose first factor is a reference. -/
def product : ReferencePlace where
  front := []
  path := ['x']
  back := [' ', '*', ' ', '3']
  present := by decide
  inside := forall_of_all (by decide)
  ends := by
    rintro _ ⟨⟩
    rfl

/-- The product with a text for the reference. -/
def productWith (value : String) : RollInput where
  formula := "@x * 3"
  data := [("x", .string value)]

/-- The outline of a product. -/
def productOutline : List (TermClass × Option Operator) :=
  [(.group, none), (.operator, some .mul), (.numeric, none)]

theorem ofFormula_with_text_of_product :
    (∃ tree, parseFormula usual "1 + 2" none = .ok tree) ∧
      ∃ roll made, ofFormula usual (productWith "1 + 2") .empty = .ok (roll, made) ∧
        ∀ first last another,
          ofFormula usual { formula := product.formulaWith ['7'], data := [("x", .string "1 + 2")] }
            first = .ok (another, last) →
          another.terms.map Term.outline = roll.terms.map Term.outline := by
  have builds : (ofFormula usual (productWith "1 + 2") .empty).toOption.isSome = true := by
    decide +kernel
  cases built : ofFormula usual (productWith "1 + 2") .empty with
  | error fault =>
    rw [built] at builds
    cases builds
  | ok pair =>
    have formula : (productWith "1 + 2").formula = product.formula := by decide
    have bracketed : Reference.isPlainNumber (trim "1 + 2".toList) = false := by decide
    have front : Reference.replace (productWith "1 + 2").data none product.front = .ok ⟨[], []⟩ := by
      rw [product, Reference.replace]
    obtain ⟨alone, alike⟩ := ofFormula_with_text formula rfl bracketed front .nil built
    have closed : IsClosed "1 + 2".toList := by decide
    have visible : skipBlanks "1 + 2".toList ≠ [] := by decide
    exact ⟨alone.2 ⟨closed, visible⟩, pair.1, pair.2, rfl,
      alike closed ['7'] (by decide) (by decide) _ rfl rfl⟩

/-- A roll that can be computed has its outline. -/
theorem exists_outline {input : RollInput} {outline : List (TermClass × Option Operator)}
    (computed : (ofFormula usual input .empty).toOption.map
      (fun pair => pair.1.terms.map Term.outline) = some outline) :
    ∃ roll made, ofFormula usual input .empty = .ok (roll, made) ∧
      roll.terms.map Term.outline = outline := by
  cases built : ofFormula usual input .empty with
  | error fault =>
    rw [built] at computed
    cases computed
  | ok pair =>
    rw [built] at computed
    exact ⟨pair.1, pair.2, rfl, Option.some.inj computed⟩

/-- A text that is no formula gets out of its brackets and makes a sum of a product. -/
theorem text_out_of_brackets :
    (¬∃ tree, parseFormula usual "1) + (2" none = .ok tree) ∧
      (∃ roll made, ofFormula usual (productWith "1) + (2") .empty = .ok (roll, made) ∧
        roll.terms.map Term.outline =
          (.group, none) :: (.operator, some .add) :: productOutline) ∧
      ∃ roll made, ofFormula usual { formula := "(0) * 3" } .empty = .ok (roll, made) ∧
        roll.terms.map Term.outline = productOutline := by
  refine ⟨?_, exists_outline (by decide +kernel), exists_outline (by decide +kernel)⟩
  rintro ⟨tree, parsed⟩
  have refused : (parseFormula usual "1) + (2" none).toOption.isNone = true := by decide +kernel
  rw [parsed] at refused
  cases refused

end Build
end DiceNotation
