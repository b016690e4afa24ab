import DiceNotation.Proofs.Formula.Rows
import DiceNotation.Proofs.Formula.Shunting
import DiceNotation.Proofs.Roll.Building

namespace DiceNotation

/-!
# Rows of terms

In a row of terms operands and operators alternate.  Such a row is given by its
first operand and by the operands behind it, each with the operator before it.  The
terms of a clause tree make such a row, and every row of this form has a precedence
tree, so a roll can be made around it.
-/

/-- Whether a term stands as an operand. -/
def Term.isOperand : Term → Bool
  | .operator _ _ => false
  | _ => true

theorem Term.item_of_isOperand {term : Term} (operand : term.isOperand = true) :
    term.item = .operand (.leaf term) := by
  cases term with
  | operator tag op => cases operand
  | _ => rfl

/-- An operand, and further operands each with the operator before it. -/
structure TermRow where
  first : Term
  rest : List (Tag × Operator × Term)

namespace TermRow

/-- Operators and operands as they stand behind a first operand. -/
def joinedTerms (rest : List (Tag × Operator × Term)) : List Term :=
  rest.flatMap fun next => [.operator next.1 next.2.1, next.2.2]

/-- The terms of a row, from the left to the right. -/
def terms (row : TermRow) : List Term := row.first :: joinedTerms row.rest

/-- The operands of a row. -/
def operands (row : TermRow) : List Term := row.first :: row.rest.map (·.2.2)

/-- The operands behind the first one with their operators. -/
def joined (row : TermRow) : List (Operator × Term) := row.rest.map (·.2)

/-- Whether operands stand where operands must stand. -/
def IsProper (row : TermRow) : Prop := ∀ term ∈ row.operands, term.isOperand = true

/-- Two rows with an operator between them. -/
def append (row : TermRow) (tag : Tag) (op : Operator) (other : TermRow) : TermRow where
  first := row.first
  rest := row.rest ++ (tag, op, other.first) :: other.rest

theorem terms_append (row : TermRow) (tag : Tag) (op : Operator) (other : TermRow) :
    (row.append tag op other).terms = row.terms ++ .operator tag op :: other.terms := by
  simp [append, terms, joinedTerms]

theorem operands_append (row : TermRow) (tag : Tag) (op : Operator) (other : TermRow) :
    (row.append tag op other).operands = row.operands ++ other.operands := by
  simp [append, operands]

theorem joined_append (row : TermRow) (tag : Tag) (op : Operator) (other : TermRow) :
    (row.append tag op other).joined = row.joined ++ (op, other.first) :: other.joined := by
  simp [append, joined]

theorem IsProper.append {row other : TermRow} (proper : row.IsProper) (more : other.IsProper)
    (tag : Tag) (op : Operator) : (row.append tag op other).IsProper := by
  intro term member
  rw [operands_append] at member
  rcases List.mem_append.1 member with member | member
  · exact proper term member
  · exact more term member

theorem mem_terms_of_mem_operands {row : TermRow} {term : Term} (member : term ∈ row.operands) :
    term ∈ row.terms := by
  rcases List.mem_cons.1 member with rfl | member
  · exact List.mem_cons_self
  · obtain ⟨next, inside, rfl⟩ := List.mem_map.1 member
    refine List.mem_cons_of_mem _ (List.mem_flatMap.2 ⟨next, inside, ?_⟩)
    exact List.mem_cons_of_mem _ List.mem_cons_self

/-- What stands behind the first operand is read back. -/
theorem readOperators_joinedTerms {rest : List (Tag × Operator × Term)}
    (proper : ∀ next ∈ rest, next.2.2.isOperand = true) :
    Item.readOperators ((joinedTerms rest).map Term.item) =
      .ok (Tree.singles (rest.map (·.2))) := by
  induction rest with
  | nil => rfl
  | cons next rest ih =>
    obtain ⟨tag, op, term⟩ := next
    have operand := proper _ List.mem_cons_self
    have later := ih fun other member => proper other (List.mem_cons_of_mem _ member)
    change Item.readOperators (.operator op.symbol (Term.operator tag op).formula :: term.item ::
      (joinedTerms rest).map Term.item) = _
    rw [Term.item_of_isOperand operand, Item.readOperators, Operator.ofSymbol?_symbol]
    simp only [Item.readOperand, later]
    rfl

/-- The precedence tree of a row. -/
theorem treeOfTerms_terms {row : TermRow} (proper : row.IsProper) (formula : String) :
    treeOfTerms formula row.terms =
      .ok (Tree.ofRun (.leaf row.first) (Tree.singles row.joined)) := by
  have operand := proper row.first List.mem_cons_self
  have others : ∀ next ∈ row.rest, next.2.2.isOperand = true := fun next member =>
    proper _ (List.mem_cons_of_mem _ (List.mem_map_of_mem member))
  have read : Item.alternating (row.terms.map Term.item) =
      .ok (.leaf row.first, Tree.singles row.joined) := by
    change Item.alternating (row.first.item :: (joinedTerms row.rest).map Term.item) = _
    rw [Term.item_of_isOperand operand]
    change Item.readOperand "" _ = _
    rw [Item.readOperand, readOperators_joinedTerms others]
    rfl
  rw [treeOfTerms_eq, Tree.ofItems, read]

/-- A roll can be made around a row if all terms have a text. -/
theorem checkRow_terms {row : TermRow} (proper : row.IsProper)
    (written : ∀ term ∈ row.terms, term.isWritten = true) : Build.checkRow row.terms = .ok () := by
  have all : row.terms.all Term.isWritten = true := List.all_eq_true.2 written
  unfold Build.checkRow
  rw [all, treeOfTerms_terms proper]
  rfl

/-- The operands of the tree of a row are those of the row. -/
theorem leaves_tree (row : TermRow) :
    (Tree.ofRun (.leaf row.first) (Tree.singles row.joined)).leaves = row.operands := by
  have same (tree : Tree Term) : tree.leaves = tree.row.1 :: tree.row.2.map (·.2) := by
    induction tree with
    | leaf a => rfl
    | node op left right left_ih right_ih => simp [Tree.leaves, Tree.row, left_ih, right_ih]
  rw [same, Tree.row_ofRun]
  simp [operands, joined]

end TermRow

/-- Whether the terms of a roll make a row in which every term has a text. -/
structure RollOf.IsSound (roll : Roll) : Prop where
  alternates : ∃ row : TermRow, roll.terms = row.terms ∧ row.IsProper
  written : ∀ term ∈ roll.terms, term.isWritten = true

/-- A roll can be made around the terms of a sound roll. -/
theorem RollOf.IsSound.checkRow {roll : Roll} (sound : roll.IsSound) :
    Build.checkRow roll.terms = .ok () := by
  rcases sound with ⟨⟨row, same, proper⟩, written⟩
  rw [same] at written ⊢
  exact TermRow.checkRow_terms proper written

theorem Tree.total_congr {α : Type} {totalOf another : α → Except Fault Json}
    (formula : String) {tree : Tree α}
    (same : ∀ a ∈ tree.leaves, totalOf a = another a) :
    tree.total totalOf formula = tree.total another formula := by
  induction tree with
  | leaf a => exact same a (List.mem_singleton.2 rfl)
  | node op left right left_ih right_ih =>
    have before := left_ih fun a member => same a (List.mem_append_left _ member)
    have behind := right_ih fun a member => same a (List.mem_append_right _ member)
    rw [total, total, before, behind]

/-- The total of a sound roll depends on the totals of its terms only. -/
theorem RollOf.IsSound.totalOfTerms_congr {roll : Roll} (sound : roll.IsSound)
    {ledger other : Ledger} (same : ∀ term ∈ roll.terms, ledger.total term = other.total term) :
    ledger.totalOfTerms roll.terms = other.totalOfTerms roll.terms := by
  rcases sound with ⟨⟨row, terms, proper⟩, _⟩
  rw [terms] at same ⊢
  rw [Ledger.totalOfTerms, Ledger.totalOfTerms, TermRow.treeOfTerms_terms proper]
  refine Tree.total_congr _ fun term member => ?_
  rw [TermRow.leaves_tree] at member
  exact same term (TermRow.mem_terms_of_mem_operands member)

namespace Build

variable {setup : Setup}

theorem written_of_checkRow {terms : List Term} (checked : checkRow terms = .ok ()) :
    ∀ term ∈ terms, term.isWritten = true := by
  unfold checkRow at checked
  split at checked
  · cases checked
  · split at checked
    · cases checked
    · rename_i all
      exact List.all_eq_true.1 (by simpa using all)

/-- The term of a clause is an operand. -/
theorem isOperand_of_clause {part : Clause} {ledger last : Ledger} {term : Term}
    (built : clause setup part ledger = .ok (term, last)) : term.isOperand = true := by
  cases part with
  | numeric value flavor raw =>
    obtain ⟨rfl, _⟩ := numeric_eq_ok.1 built
    rfl
  | text text flavor raw =>
    obtain ⟨rfl, _⟩ := word_eq_ok.1 built
    rfl
  | group inner flavor raw =>
    obtain ⟨_, _, _, _, _, _, rfl, _⟩ := group_eq_ok.1 built
    rfl
  | function name arguments flavor raw =>
    obtain ⟨_, _, _, _, _, rfl, _⟩ := clauseFunction_eq_ok.1 built
    rfl
  | pool members modifiers flavor raw =>
    obtain ⟨_, _, _, rfl, _⟩ := clausePool_eq_ok.1 built
    rfl
  | dice number faces modifiers flavor raw =>
    obtain ⟨_, _, _, dice⟩ := clauseDice_eq_ok.1 built
    cases faces with
    | letter code =>
      obtain ⟨_, _, _, _, rfl⟩ := diceLetter_eq_ok.1 dice
      rfl
    | amount given =>
      obtain ⟨_, _, _, _, _, rfl⟩ := diceAmount_eq_ok.1 dice
      rfl

/-- The terms of a tree are a row whose operators have no options. -/
theorem termRow_of_terms {tree : Tree Clause} {ledger last : Ledger} {terms : List Term}
    (built : Build.terms setup tree ledger = .ok (terms, last)) :
    ∃ row : TermRow, terms = row.terms ∧ row.IsProper ∧
      ∀ next ∈ row.rest, next.1.options = [] := by
  induction tree generalizing ledger last terms with
  | leaf part =>
    obtain ⟨term, single, rfl⟩ := leaf_eq_ok.1 built
    refine ⟨⟨term, []⟩, rfl, ?_, fun _ member => absurd member List.not_mem_nil⟩
    intro operand member
    obtain rfl := List.mem_singleton.1 member
    exact isOperand_of_clause single
  | node op left right left_ih right_ih =>
    obtain ⟨before, middle, behind, first, second, rfl⟩ := node_eq_ok.1 built
    obtain ⟨row, rfl, proper, plain⟩ := left_ih first
    obtain ⟨other, rfl, more, plainMore⟩ := right_ih second
    refine ⟨row.append ⟨middle.next, []⟩ op other, ?_, proper.append more _ op, ?_⟩
    · rw [TermRow.terms_append]
    · intro next member
      rcases List.mem_append.1 member with member | member
      · exact plain next member
      · rcases List.mem_cons.1 member with rfl | member
        · rfl
        · exact plainMore next member

/-- A roll around the terms of a tree is sound. -/
theorem isSound_of_terms {tree : Tree Clause} {ledger last : Ledger} {terms : List Term}
    (built : Build.terms setup tree ledger = .ok (terms, last))
    (checked : checkRow terms = .ok ()) {roll : Roll} (around : roll.terms = terms) :
    roll.IsSound := by
  rcases termRow_of_terms built with ⟨row, same, proper, _⟩
  rw [← around] at same checked
  exact ⟨⟨row, same, proper⟩, written_of_checkRow checked⟩

end Build
end DiceNotation
