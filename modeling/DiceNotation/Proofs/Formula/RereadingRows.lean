import DiceNotation.Proofs.Formula.Readable
import DiceNotation.Proofs.Formula.ReadingClauses
import DiceNotation.Proofs.Number.Decimals

namespace DiceNotation

open Text

/-!
# Reading canonical rows

The canonical text of a tree is read as the canonical tree if each of its operands is
found where its text begins, without the sign.  The scanner reads the sign with the
operators in front of it, and reduces them to the operator and the sign again.
-/

/-- Whether a clause is found where its canonical text begins. -/
def Clause.Rereads (source : Source) (inner : Option ExpressionReader) (clause : Clause) : Prop :=
  ∃ c more, clause.canonical.raw.toList = c :: more ∧ isBoundary c = false ∧
    ∀ rest, EndsClause rest → Finds (source.clauseAt inner c (more ++ rest)) clause.canonical rest

/-- Whether a tree is found where its canonical text begins, perhaps behind blanks. -/
structure ExpressionReader.Rereads (read : ExpressionReader) (tree : Tree Clause) : Prop where
  begins : ∃ c more, (canonicalTree tree).raw.toList = c :: more ∧ isBlank c = false ∧
    isClosing c = false
  finds : ∀ gap rest, (∀ c ∈ gap, isBlank c = true) → EndsExpression rest →
    Finds (read (gap ++ ((canonicalTree tree).raw.toList ++ rest))) (canonicalTree tree) rest

/-! ## Characters -/

theorem visible_of_not_boundary {c : Char} (inside : isBoundary c = false) :
    isBlank c = false ∧ Lexeme.isOperator c = false ∧ isClosing c = false ∧ isSign c = false := by
  simp only [isBoundary, Bool.or_eq_false_iff] at inside
  refine ⟨inside.1.1.1, inside.1.1.2, inside.1.2, ?_⟩
  cases sign : isSign c with
  | false => rfl
  | true =>
    have operator := Lexeme.isOperator_of_isSign sign
    rw [inside.1.1.2] at operator
    cases operator

theorem isSign_of_mem_signText {negative : Bool} {c : Char} (member : c ∈ signText negative) :
    isSign c = true := by
  cases negative with
  | false => cases member
  | true =>
    cases List.mem_singleton.1 member
    rfl

theorem negates_signText (negative : Bool) : negates (signText negative) = negative := by
  cases negative <;> rfl

/-- Every operator is one character. -/
theorem Operator.symbol_eq (op : Operator) : ∃ c, op.symbol.toList = [c] ∧
    Lexeme.isOperator c = true ∧ reduceRun [c] = some (op, false) ∧
      (op.isMultiplicative = true → reduceRun [c, '-'] = some (op, true)) := by
  cases op with
  | add => exact ⟨'+', by decide⟩
  | sub => exact ⟨'-', by decide⟩
  | mul => exact ⟨'*', by decide⟩
  | div => exact ⟨'/', by decide⟩
  | rem => exact ⟨'%', by decide⟩

/-! ## Rows -/

section

variable {source : Source} {inner : Option ExpressionReader}

/-- A clause is found behind blanks. -/
theorem Clause.Rereads.finds {clause : Clause} (rereads : clause.Rereads source inner)
    (gap : List Char) (blank : ∀ c ∈ gap, isBlank c = true) {rest : List Char}
    (ends : EndsClause rest) :
    Finds (source.clause inner (gap ++ (clause.canonical.raw.toList ++ rest))) clause.canonical
      rest := by
  rcases rereads with ⟨c, more, text, inside, found⟩
  refine source.clause_finds ?_ (found rest ends)
  rw [text, skipBlanks_append blank, List.cons_append,
    skipBlanks_cons (visible_of_not_boundary inside).1]

/-- A clause begins with no operator. -/
theorem Clause.Rereads.no_operator {clause : Clause} (rereads : clause.Rereads source inner)
    (gap : List Char) (blank : ∀ c ∈ gap, isBlank c = true) (rest : List Char) :
    ∀ c, (skipBlanks (gap ++ (clause.canonical.raw.toList ++ rest))).head? = some c →
      Lexeme.isOperator c = false := by
  rcases rereads with ⟨c, more, text, inside, _⟩
  rw [text, skipBlanks_append blank, List.cons_append,
    skipBlanks_cons (visible_of_not_boundary inside).1]
  rintro d ⟨⟩
  exact (visible_of_not_boundary inside).2.1

theorem endsClause_textBehind (row : List (Operator × Clause)) {rest : List Char}
    (ends : EndsExpression rest) : EndsClause (textBehind row ++ rest) := by
  cases row with
  | nil => exact ends.endsClause
  | cons next row =>
    rcases next.1.symbol_eq with ⟨c, symbol, operator, _⟩
    intro d first
    have begins : skipBlanks (textBehind (next :: row) ++ rest) =
        c :: (' ' :: (next.2.canonical.raw.toList ++ (textBehind row ++ rest))) := by
      simp only [textBehind, List.flatMap_cons, symbol]
      simp only [List.cons_append, List.nil_append, List.append_assoc]
      rw [skipBlanks_cons_blank (by decide),
        skipBlanks_cons (Lexeme.isBlank_of_isOperator operator)]
    rw [begins] at first
    cases first
    rw [operator, Bool.true_or]

/-- An operator, and the sign of the clause behind it. -/
theorem operators_textBehind {op : Operator} {clause : Clause}
    (sign : clause.isNegative = true → op.isMultiplicative = true)
    (rereads : clause.unsigned.Rereads source inner) (rest : List Char) :
    ∃ row gap, (∀ c ∈ gap, isBlank c = true) ∧ reduceRun row = some (op, clause.isNegative) ∧
      ∃ shorter, Lexeme.operators (' ' :: (op.symbol.toList ++
        ' ' :: (clause.canonical.raw.toList ++ rest))) =
          some ⟨row, gap ++ (clause.unsigned.canonical.raw.toList ++ rest), shorter⟩ := by
  rcases op.symbol_eq with ⟨c, symbol, operator, plain, negative⟩
  have space : isBlank ' ' = true := by decide
  have minus : Lexeme.isOperator '-' = true := by decide
  have noOperator : Lexeme.isOperator ' ' = false := by decide
  rw [symbol, clause.raw_canonical]
  cases signed : clause.isNegative with
  | false =>
    have spaced : ∀ d ∈ [' ', c], isBlank d = true ∨ Lexeme.isOperator d = true := by
      simp [space, operator]
    have found := Lexeme.operators_append spaced rfl operator
      (rereads.no_operator [' '] (by simp [space]) rest)
    refine ⟨[c], [' '], by simp [space], plain, ?_⟩
    simpa [operator, noOperator, signText] using found
  | true =>
    have spaced : ∀ d ∈ [' ', c, ' ', '-'], isBlank d = true ∨ Lexeme.isOperator d = true := by
      simp [space, operator, minus]
    have found := Lexeme.operators_append spaced rfl minus (rereads.no_operator [] (by simp) rest)
    refine ⟨[c, '-'], [], by simp, negative (sign signed), ?_⟩
    simpa [operator, noOperator, minus, signText] using found

/-- What is written behind a first operand is read as the canonical operands. -/
theorem following_rereads {row : List (Operator × Clause)}
    (signs : ∀ next ∈ row, next.2.isNegative = true → next.1.isMultiplicative = true)
    (rereads : ∀ next ∈ row, next.2.unsigned.Rereads source inner) {rest : List Char}
    (ends : EndsExpression rest) :
    ∃ found, Reaches (Scan.following (source.clause inner) (textBehind row ++ rest)) found rest ∧
      Run.joined found = some (row.map fun next => (next.1, next.2.canonical)) := by
  induction row with
  | nil =>
    refine ⟨[], Scan.following_of_no_operators ?_, rfl⟩
    apply Lexeme.operators_of_not_operator
    intro c first
    exact Lexeme.isOperator_of_isClosing (ends c first)
  | cons next row ih =>
    rcases next with ⟨op, clause⟩
    have here := rereads _ List.mem_cons_self
    rcases ih (fun next member => signs next (List.mem_cons_of_mem _ member))
      (fun next member => rereads next (List.mem_cons_of_mem _ member)) with ⟨more, later, joined⟩
    rcases operators_textBehind (signs _ List.mem_cons_self) here (textBehind row ++ rest) with
      ⟨operators, gap, blank, reduced, taken⟩
    refine ⟨(operators, clause.unsigned.canonical) :: more, ?_, ?_⟩
    · have text : textBehind ((op, clause) :: row) ++ rest = ' ' :: (op.symbol.toList ++
          ' ' :: (clause.canonical.raw.toList ++ (textBehind row ++ rest))) := by
        simp [textBehind]
      rw [text]
      exact Scan.following_of_operators taken
        (here.finds gap blank (endsClause_textBehind row ends)) later
    · simp only [Run.joined, reduced, joined, Option.bind_eq_bind, Option.bind_some,
        Option.pure_def, clause.signed_unsigned, List.map_cons]

end

/-! ## Trees -/

/-- The canonical tree is the tree of the canonical row. -/
theorem Tree.IsRow.canonicalTree_eq {tree : Tree Clause} (row : tree.IsRow) :
    canonicalTree tree = Tree.ofRun (.leaf tree.row.1.canonical)
      (Tree.singles (tree.row.2.map fun next => (next.1, next.2.canonical))) := by
  rw [canonicalTree_eq_map]
  conv_lhs => rw [row.grouped]
  rw [Tree.ofRun, Tree.map_group, Tree.singles, Tree.singles, List.map_map, List.map_map]
  rfl

/-- A tree is found if its operands are. -/
theorem Tree.IsRow.rereads {source : Source} {inner : Option ExpressionReader} {tree : Tree Clause}
    (row : tree.IsRow) (first : tree.row.1.unsigned.Rereads source inner)
    (later : ∀ next ∈ tree.row.2, next.2.unsigned.Rereads source inner) :
    (source.expression (source.clause inner)).Rereads tree where
  begins := by
    rcases first with ⟨c, text, begins, inside, _⟩
    rw [raw_canonicalTree, tree.row.1.raw_canonical, begins]
    cases tree.row.1.isNegative with
    | false =>
      exact ⟨c, _, rfl, (visible_of_not_boundary inside).1, (visible_of_not_boundary inside).2.2.1⟩
    | true => exact ⟨'-', _, rfl, by decide, by decide⟩
  finds := by
    intro gap rest blank ends
    rcases following_rereads row.signs later ends with ⟨more, following, joined⟩
    have signs : Lexeme.splitSigns (gap ++ ((canonicalTree tree).raw.toList ++ rest)) =
        (signText tree.row.1.isNegative,
          tree.row.1.unsigned.canonical.raw.toList ++ (textBehind tree.row.2 ++ rest)) := by
      rw [raw_canonicalTree, tree.row.1.raw_canonical, List.append_assoc, List.append_assoc,
        ← List.append_assoc gap, Lexeme.splitSigns_append]
      · have none : gap.filter isSign = [] := by
          rw [List.filter_eq_nil_iff]
          intro c member
          simp [Lexeme.isSign_of_isBlank (blank c member)]
        rw [List.filter_append, none]
        cases tree.row.1.isNegative <;> rfl
      · intro c member
        rcases List.mem_append.1 member with member | member
        · exact .inl (blank c member)
        · exact .inr (isSign_of_mem_signText member)
      · rcases first with ⟨c, text, begins, inside, _⟩
        rw [begins]
        rintro d ⟨⟩
        exact ⟨(visible_of_not_boundary inside).1, (visible_of_not_boundary inside).2.2.2⟩
    have found := first.finds [] (by simp) (endsClause_textBehind tree.row.2 ends)
    refine source.expression_finds signs found following ?_
    rw [Run.tree_of_joined _ joined, row.canonicalTree_eq]
    simp only [negates_signText, Clause.signed_unsigned]

end DiceNotation
