import DiceNotation.Proofs.Roll.Renumbering

namespace DiceNotation

/-!
# Copies

A term is copied if another ledger knows the same about its new identities as the
first ledger knows about the old ones, as far as records go: whether terms and rolls
are evaluated, the outcomes and methods of dice, the outcomes of pools, and the
totals of rolls.  Copies have the same records, the same totals and the same results.
-/

/-- What one ledger knows about a term, another one knows about it by its new
identity. -/
structure Term.Alike (f : Identity → Identity) (ledger other : Ledger) (term : Term) : Prop where
  evaluated : other.isEvaluated (term.renumber f) = ledger.isEvaluated term
  dice : ∀ d, term = .dice d → other.outcomes (f d.tag.id) = ledger.outcomes d.tag.id ∧
    (other.term (f d.tag.id)).method = (ledger.term d.tag.id).method
  pool : ∀ p, term = .pool p → other.outcomes (f p.tag.id) = ledger.outcomes p.tag.id

structure RollOf.Alike (f : Identity → Identity) (ledger other : Ledger) (roll : Roll) : Prop where
  evaluated : other.isRollEvaluated (roll.renumber f) = ledger.isRollEvaluated roll
  total : other.rollTotal (roll.renumber f) = ledger.rollTotal roll

/-- A term is copied with everything in it. -/
abbrev Term.Copied (f : Identity → Identity) (ledger other : Ledger) (term : Term) : Prop :=
  term.Throughout (Term.Alike f ledger other) (RollOf.Alike f ledger other)

abbrev RowCopied (f : Identity → Identity) (ledger other : Ledger) (terms : List Term) : Prop :=
  RowThroughout (Term.Alike f ledger other) (RollOf.Alike f ledger other) terms

abbrev RollsCopied (f : Identity → Identity) (ledger other : Ledger) (rolls : List Roll) : Prop :=
  RollsThroughout (Term.Alike f ledger other) (RollOf.Alike f ledger other) rolls

/-- A roll is copied with everything in it. -/
structure RollOf.Copied (f : Identity → Identity) (ledger other : Ledger) (roll : Roll) : Prop where
  around : RollOf.Alike f ledger other roll
  row : RowCopied f ledger other roll.terms

variable {f : Identity → Identity} {ledger other : Ledger}

/-! ## Records -/

theorem Term.Alike.termRecord {term : Term} (alike : term.Alike f ledger other) (special : Fields) :
    other.termRecord (term.renumber f) special = ledger.termRecord term special := by
  have options : (term.renumber f).tag.options = term.tag.options := by
    rw [Term.tag_renumber]
    rfl
  rw [Ledger.termRecord, Ledger.termRecord, alike.evaluated, Term.termClass_renumber, options]

theorem RollOf.Alike.rollRecord {roll : Roll} (alike : roll.Alike f ledger other)
    (terms : List Json) :
    other.rollRecord (roll.renumber f) terms = ledger.rollRecord roll terms := by
  rw [Ledger.rollRecord, Ledger.rollRecord, alike.evaluated, alike.total, RollOf.formula_renumber]
  rfl

mutual

/-- The record of a copy is the record of the term. -/
theorem Term.Copied.record : {term : Term} → term.Copied f ledger other →
    other.record (term.renumber f) = ledger.record term
  | .numeric _ value, copied => copied.termRecord [("number", value)]
  | .operator _ op, copied => copied.termRecord [("operator", .string op.symbol)]
  | .text _ word, copied => copied.termRecord [("term", word)]
  | .group tag roll, ⟨here, around, row⟩ => by
    have inside := RowCopied.records row
    have whole := around.rollRecord (ledger.records roll.terms)
    change other.termRecord _ [("roll", other.rollRecord (roll.renumber f)
      (other.records (Term.renumberRow f roll.terms)))] = _
    rw [inside, whole]
    exact here.termRecord _
  | .function tag fn rolls, ⟨here, parts⟩ => by
    have inside := RollsCopied.records parts
    change other.termRecord _ [("fn", .string fn.name),
      ("rolls", .array (other.rollRecords (Term.renumberRolls f rolls)))] = _
    rw [inside]
    exact here.termRecord _
  | .dice d, ⟨here, number, faces⟩ => by
    have numbers := AmountThroughout.record number
    have sides := AmountThroughout.record faces
    rcases here.dice d rfl with ⟨outcomes, method⟩
    have results : other.outcomesRecord (f d.tag.id) = ledger.outcomesRecord d.tag.id := by
      rw [Ledger.outcomesRecord, Ledger.outcomesRecord, outcomes]
    change other.termRecord _ [("number", other.amountRecord (Term.renumberAmount f d.number)),
      ("faces", other.amountRecord (Term.renumberAmount f d.faces)),
      ("modifiers", .array d.modifiers), ("results", other.outcomesRecord (f d.tag.id)),
      ("method", (other.term (f d.tag.id)).method)] = _
    rw [numbers, sides, results, method]
    exact here.termRecord _
  | .pool p, ⟨here, parts⟩ => by
    have inside := RollsCopied.records parts
    have results : other.outcomesRecord (f p.tag.id) = ledger.outcomesRecord p.tag.id := by
      rw [Ledger.outcomesRecord, Ledger.outcomesRecord, here.pool p rfl]
    change other.termRecord _ [("rolls", .array (other.rollRecords (Term.renumberRolls f p.rolls))),
      ("modifiers", .array p.modifiers), ("results", other.outcomesRecord (f p.tag.id))] = _
    rw [inside, results]
    exact here.termRecord _

theorem RowCopied.records : {terms : List Term} → RowCopied f ledger other terms →
    other.records (Term.renumberRow f terms) = ledger.records terms
  | [], _ => rfl
  | term :: rest, ⟨here, later⟩ => by
    rw [Term.renumberRow, Ledger.records, Ledger.records, Term.Copied.record here,
      RowCopied.records later]

theorem RollsCopied.records : {rolls : List Roll} → RollsCopied f ledger other rolls →
    other.rollRecords (Term.renumberRolls f rolls) = ledger.rollRecords rolls
  | [], _ => rfl
  | roll :: rest, ⟨around, row, later⟩ => by
    have whole := around.rollRecord (ledger.records roll.terms)
    change other.rollRecord (roll.renumber f) (other.records (Term.renumberRow f roll.terms)) ::
      other.rollRecords (Term.renumberRolls f rest) = _
    rw [RowCopied.records row, whole, RollsCopied.records later]
    rfl

theorem AmountThroughout.record : {amount : Operand Term} →
    AmountThroughout (Term.Alike f ledger other) (RollOf.Alike f ledger other) amount →
    other.amountRecord (Term.renumberAmount f amount) = ledger.amountRecord amount
  | .known _, _ => rfl
  | .computed _, copied => Term.Copied.record copied

end

/-- The record of a copied roll is the record of the roll. -/
theorem RollOf.Copied.record {roll : Roll} (copied : roll.Copied f ledger other) :
    other.recordOfRoll (roll.renumber f) = ledger.recordOfRoll roll := by
  change other.rollRecord (roll.renumber f) (other.records (Term.renumberRow f roll.terms)) = _
  rw [copied.row.records]
  exact copied.around.rollRecord _

/-! ## Totals -/

theorem RollsCopied.rollTotals {rolls : List Roll} (copied : RollsCopied f ledger other rolls) :
    (Term.renumberRolls f rolls).map other.rollTotal = rolls.map ledger.rollTotal := by
  induction rolls with
  | nil => rfl
  | cons roll rest ih =>
    rcases copied with ⟨around, _, later⟩
    change other.rollTotal (roll.renumber f) :: (Term.renumberRolls f rest).map other.rollTotal = _
    rw [around.total, ih later]
    rfl

theorem Term.Copied.totalOf {term : Term} (copied : term.Copied f ledger other) :
    other.totalOf (term.renumber f) = ledger.totalOf term := by
  cases term with
  | numeric tag value => rfl
  | operator tag op => rfl
  | text tag word => rfl
  | group tag roll => exact congrArg Except.ok copied.2.1.total
  | function tag fn rolls => exact congrArg fn.value (RollsCopied.rollTotals copied.2)
  | dice d => exact congrArg Outcome.total (copied.here.dice d rfl).1
  | pool p => exact congrArg Outcome.total (copied.here.pool p rfl)

theorem Term.Copied.total {term : Term} (copied : term.Copied f ledger other) :
    other.total (term.renumber f) = ledger.total term := by
  rw [Ledger.total, Ledger.total, copied.here.evaluated, copied.totalOf]

theorem RowCopied.allEvaluated {terms : List Term} (copied : RowCopied f ledger other terms) :
    (Term.renumberRow f terms).all other.isEvaluated = terms.all ledger.isEvaluated := by
  induction terms with
  | nil => rfl
  | cons term rest ih =>
    rcases copied with ⟨here, later⟩
    rw [Term.renumberRow, List.all_cons, List.all_cons, here.here.evaluated, ih later]

namespace Tree

variable {α β : Type}

theorem total_map (totalOf : β → Except Fault Json) (g : α → β) (formula : String)
    (tree : Tree α) : (tree.map g).total totalOf formula =
      tree.total (fun a => totalOf (g a)) formula := by
  induction tree with
  | leaf a => rfl
  | node op left right left_ih right_ih => rw [map, total, total, left_ih, right_ih]

end Tree

namespace TermRow

def renumber (f : Identity → Identity) (row : TermRow) : TermRow where
  first := row.first.renumber f
  rest := row.rest.map fun next => (next.1.renumber f, next.2.1, next.2.2.renumber f)

theorem terms_renumber (f : Identity → Identity) (row : TermRow) :
    (row.renumber f).terms = Term.renumberRow f row.terms := by
  have behind (rest : List (Tag × Operator × Term)) :
      joinedTerms (rest.map fun next => (next.1.renumber f, next.2.1, next.2.2.renumber f)) =
        (joinedTerms rest).map (Term.renumber f) := by
    induction rest with
    | nil => rfl
    | cons next rest ih =>
      change Term.operator _ _ :: _ :: joinedTerms _ = _
      rw [ih]
      rfl
  rw [Term.renumberRow_eq_map, terms, terms, List.map_cons]
  exact congrArg (List.cons _) (behind row.rest)

theorem isProper_renumber {row : TermRow} (proper : row.IsProper) :
    (row.renumber f).IsProper := by
  have operands : (row.renumber f).operands = row.operands.map (Term.renumber f) := by
    simp [TermRow.operands, TermRow.renumber]
  intro term member
  rw [operands] at member
  rcases List.mem_map.1 member with ⟨old, inside, rfl⟩
  rw [Term.isOperand_renumber]
  exact proper old inside

theorem tree_renumber (row : TermRow) :
    Tree.ofRun (.leaf (row.renumber f).first) (Tree.singles (row.renumber f).joined) =
      (Tree.ofRun (.leaf row.first) (Tree.singles row.joined)).map (Term.renumber f) := by
  rw [Tree.ofRun, Tree.ofRun, Tree.map_group]
  congr 1
  simp [Tree.singles, joined, renumber, Tree.map]

end TermRow

theorem RollOf.IsSound.renumber {roll : Roll} (sound : roll.IsSound) (f : Identity → Identity) :
    (roll.renumber f).IsSound := by
  rcases sound with ⟨⟨row, same, proper⟩, written⟩
  constructor
  · refine ⟨row.renumber f, ?_, TermRow.isProper_renumber proper⟩
    rw [TermRow.terms_renumber, ← same]
    rfl
  · intro term member
    change term ∈ Term.renumberRow f roll.terms at member
    rw [Term.renumberRow_eq_map] at member
    rcases List.mem_map.1 member with ⟨old, inside, rfl⟩
    rw [Term.isWritten_renumber]
    exact written old inside

/-- A row has the same total under other identities if its terms have. -/
theorem RollOf.IsSound.totalOfTerms_renumber {roll : Roll} (sound : roll.IsSound)
    (totals : ∀ term ∈ roll.terms, other.total (term.renumber f) = ledger.total term) :
    other.totalOfTerms (roll.renumber f).terms = ledger.totalOfTerms roll.terms := by
  rcases sound with ⟨⟨row, same, proper⟩, _⟩
  have formula : formulaOf (roll.renumber f).terms = formulaOf roll.terms :=
    RollOf.formula_renumber f roll
  have terms : (roll.renumber f).terms = (row.renumber f).terms := by
    rw [TermRow.terms_renumber, ← same]
    rfl
  have tree := TermRow.treeOfTerms_terms proper (formulaOf roll.terms)
  have treeToo := TermRow.treeOfTerms_terms (TermRow.isProper_renumber (f := f) proper)
    (formulaOf roll.terms)
  rw [← same] at tree
  rw [← terms] at treeToo
  rw [Ledger.totalOfTerms, Ledger.totalOfTerms, formula, treeToo, tree, TermRow.tree_renumber]
  change Tree.total other.total _ (Tree.map _ _) = Tree.total ledger.total _ _
  rw [Tree.total_map]
  refine Tree.total_congr _ fun term member => ?_
  rw [TermRow.leaves_tree] at member
  have inside := TermRow.mem_terms_of_mem_operands member
  rw [← same] at inside
  exact totals term inside

/-- A copied row has the same total. -/
theorem RowCopied.totalOfTerms {roll : Roll} (sound : roll.IsSound)
    (copied : RowCopied f ledger other roll.terms) :
    other.totalOfTerms (roll.renumber f).terms = ledger.totalOfTerms roll.terms :=
  sound.totalOfTerms_renumber fun _ member => Term.Copied.total (copied.of_mem member)

/-! ## Results -/

/-- The result of a copied roll is the result of the roll. -/
theorem RollOf.Copied.result {roll : Roll} (copied : roll.Copied f ledger other) :
    other.result (roll.renumber f) = ledger.result roll := by
  have part (term : Term) (inside : term.Copied f ledger other) :
      other.resultPart (term.renumber f) = ledger.resultPart term := by
    rw [Ledger.resultPart, Ledger.resultPart, inside.here.evaluated, inside.totalOf,
      Term.formula_renumber]
  have parts (terms : List Term) (row : RowCopied f ledger other terms) :
      (Term.renumberRow f terms).mapM other.resultPart = terms.mapM ledger.resultPart := by
    induction terms with
    | nil => rfl
    | cons term rest ih =>
      rcases row with ⟨here, later⟩
      rw [Term.renumberRow, List.mapM_cons, List.mapM_cons, part term here, ih later]
  change (do return " ".intercalate (← (Term.renumberRow f roll.terms).mapM other.resultPart)) = _
  rw [parts roll.terms copied.row]
  rfl

/-- The dice of a copied roll have the outcomes of the dice of the roll. -/
theorem RollOf.Copied.diceOutcomes {roll : Roll} (copied : roll.Copied f ledger other) :
    (roll.renumber f).dice.map (fun dice => other.outcomes dice.tag.id) =
      roll.dice.map (fun dice => ledger.outcomes dice.tag.id) := by
  rw [RollOf.dice_renumber, List.map_map]
  refine List.map_congr_left fun dice member => ?_
  exact ((copied.row.diceFrom dice member).dice dice rfl).1

end DiceNotation
