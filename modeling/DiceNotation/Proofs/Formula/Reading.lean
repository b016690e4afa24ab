import DiceNotation.Formula.Scanner
import DiceNotation.Proofs.Formula.Lexemes

namespace DiceNotation

open Text

/-!
# What the scanner finds

A reader finds a value if it succeeds with it and leaves a given rest.  For
every reader of the scanner there is a lemma that says what it finds when the
readers that it calls have found their parts.  The lemmas compose along the
grammar, so that whole formulas are read back without looking at the scanner
again.
-/

/-- A reader of something that is there found the value and left the rest. -/
def Finds {α : Type} {text : List Char} (result : Except Fault (Scanned α text)) (value : α)
    (rest : List Char) : Prop :=
  ∃ shorter, result = .ok ⟨value, rest, shorter⟩

/-- A reader of something that may be missing found the value and left the rest. -/
def Reaches {α : Type} {text : List Char} (result : Except Fault (Reached α text)) (value : α)
    (rest : List Char) : Prop :=
  ∃ within, result = .ok ⟨value, rest, within⟩

/-- A reader refused the formula. -/
def IsRefused {α : Type} (result : Except Fault α) : Prop :=
  ∃ reason formula part position, result = .error (.parse reason formula part position)

namespace Scan

variable {clause : ClauseReader}

/-- Where no operator follows, no clause follows. -/
theorem following_of_no_operators {text : List Char} (none : Lexeme.operators text = none) :
    Reaches (following clause text) [] text := by
  refine ⟨Nat.le_refl _, ?_⟩
  rw [following]
  split
  · rfl
  · rename_i row some
    rw [none] at some
    cases some

/-- A row of operators with a clause behind it, and what follows. -/
theorem following_of_operators {text place after rest : List Char} {row : List Char}
    {next : Clause} {more : List (List Char × Clause)}
    (operators : ∃ shorter, Lexeme.operators text = some ⟨row, place, shorter⟩)
    (found : Finds (clause place) next after)
    (later : Reaches (following clause after) more rest) :
    Reaches (following clause text) ((row, next) :: more) rest := by
  obtain ⟨fewer, operators⟩ := operators
  obtain ⟨shorter, found⟩ := found
  obtain ⟨within, later⟩ := later
  refine ⟨by omega, ?_⟩
  rw [following]
  split
  · rename_i none
    rw [operators] at none
    cases none
  · rename_i some same
    rw [operators] at same
    cases same
    simp only [found, later]

/-- A clause that is refused behind a row of operators. -/
theorem following_refused {text place row : List Char}
    (operators : ∃ shorter, Lexeme.operators text = some ⟨row, place, shorter⟩)
    (refused : IsRefused (clause place)) : IsRefused (following clause text) := by
  obtain ⟨fewer, operators⟩ := operators
  obtain ⟨reason, formula, part, position, refused⟩ := refused
  refine ⟨reason, formula, part, position, ?_⟩
  rw [following]
  split
  · rename_i none
    rw [operators] at none
    cases none
  · rename_i some same
    rw [operators] at same
    cases same
    simp only [refused]

/-- A clause that is refused further on. -/
theorem following_refused_later {text place after row : List Char} {next : Clause}
    (operators : ∃ shorter, Lexeme.operators text = some ⟨row, place, shorter⟩)
    (found : Finds (clause place) next after) (refused : IsRefused (following clause after)) :
    IsRefused (following clause text) := by
  obtain ⟨fewer, operators⟩ := operators
  obtain ⟨shorter, found⟩ := found
  obtain ⟨reason, formula, part, position, refused⟩ := refused
  refine ⟨reason, formula, part, position, ?_⟩
  rw [following]
  split
  · rename_i none
    rw [operators] at none
    cases none
  · rename_i some same
    rw [operators] at same
    cases same
    simp only [found, refused]

end Scan

namespace Source

variable (source : Source) {inner : Option ExpressionReader}

/-- An expression whose parts are found and whose rows of operators reduce. -/
theorem expression_finds {clause : ClauseReader} {text place after rest : List Char}
    {signs : List Char} {first : Clause} {more : List (List Char × Clause)} {tree : Tree Clause}
    (opening : Lexeme.splitSigns text = (signs, place)) (found : Finds (clause place) first after)
    (later : Reaches (Scan.following clause after) more rest)
    (reduces : Run.tree ⟨signs, first, more⟩ = .ok tree) :
    Finds (source.expression clause text) tree rest := by
  obtain ⟨rfl, rfl⟩ := Prod.ext_iff.1 opening
  obtain ⟨shorter, found⟩ := found
  obtain ⟨within, later⟩ := later
  have inside := Lexeme.length_splitSigns_le text
  refine ⟨by omega, ?_⟩
  unfold expression
  simp only [Lexeme.signs, found, later, assemble, reduces]

/-- An expression is refused with its first clause. -/
theorem expression_refused {clause : ClauseReader} {text : List Char}
    (refused : IsRefused (clause (Lexeme.splitSigns text).2)) :
    IsRefused (source.expression clause text) := by
  obtain ⟨reason, formula, part, position, refused⟩ := refused
  refine ⟨reason, formula, part, position, ?_⟩
  unfold expression
  simp only [Lexeme.signs, refused]

/-- An expression is refused with a later clause. -/
theorem expression_refused_later {clause : ClauseReader} {text after : List Char} {first : Clause}
    (found : Finds (clause (Lexeme.splitSigns text).2) first after)
    (refused : IsRefused (Scan.following clause after)) :
    IsRefused (source.expression clause text) := by
  obtain ⟨shorter, found⟩ := found
  obtain ⟨reason, formula, part, position, refused⟩ := refused
  refine ⟨reason, formula, part, position, ?_⟩
  unfold expression
  simp only [Lexeme.signs, found, refused]

/-- An expression with a row of operators that does not reduce is refused. -/
theorem expression_refused_row {clause : ClauseReader} {text after rest : List Char}
    {first : Clause} {more : List (List Char × Clause)} {row : List Char}
    (found : Finds (clause (Lexeme.splitSigns text).2) first after)
    (later : Reaches (Scan.following clause after) more rest)
    (stuck : Run.tree ⟨(Lexeme.splitSigns text).1, first, more⟩ = .error row) :
    IsRefused (source.expression clause text) := by
  obtain ⟨shorter, found⟩ := found
  obtain ⟨within, later⟩ := later
  refine ⟨.operatorSequence (String.ofList row), String.ofList source.text,
    .string (String.ofList (Text.trim (Text.stretch (skipBlanks text) rest))),
    Text.find? row source.text, ?_⟩
  unfold expression
  simp only [Lexeme.signs, found, later, assemble, stuck]

/-- Blanks before a clause are skipped. -/
theorem clause_finds {text : List Char} {c : Char} {more : List Char}
    (begun : skipBlanks text = c :: more) {value : Clause} {rest : List Char}
    (found : Finds (source.clauseAt inner c more) value rest) :
    Finds (source.clause inner text) value rest := by
  obtain ⟨shorter, found⟩ := found
  have skipped := Text.length_skipBlanks_le text
  rw [begun] at skipped
  refine ⟨Nat.lt_of_lt_of_le shorter skipped, ?_⟩
  unfold clause
  split
  · rename_i ended
    rw [begun] at ended
    cases ended
  · rename_i d others same
    rw [begun] at same
    cases same
    simp only [found]

/-- A clause is refused at its first visible character. -/
theorem clause_refused {text : List Char}
    (refused : ∀ c more, skipBlanks text = c :: more → IsRefused (source.clauseAt inner c more)) :
    IsRefused (source.clause inner text) := by
  unfold clause
  split
  · exact ⟨.formulaEnded, _, _, _, rfl⟩
  · rename_i c more begun
    obtain ⟨reason, formula, part, position, refused⟩ := refused c more begun
    exact ⟨reason, formula, part, position, by simp only [refused]⟩

/-- The reader of what stands in brackets, if a number of further brackets may be opened. -/
def nested : Nat → Option ExpressionReader
  | 0 => none
  | levels + 1 => some (source.expressionAt levels)

theorem expressionAt_eq (levels : Nat) :
    source.expressionAt levels = source.expression (source.clause (source.nested levels)) := by
  cases levels <;> rfl

/-! ## Brackets -/

/-- A bracketed expression of the next level. -/
theorem bracketed_finds {read : ExpressionReader} {inside : List Char} {tree : Tree Clause}
    {after rest : List Char} (found : Finds (read inside) tree after)
    (closed : skipBlanks after = ')' :: rest) :
    Finds (source.bracketed (some read) '(' inside) tree rest := by
  obtain ⟨shorter, found⟩ := found
  have skipped := Text.length_skipBlanks_le after
  rw [closed] at skipped
  refine ⟨by simp only [List.length_cons] at *; omega, ?_⟩
  unfold bracketed
  simp only [found]
  split
  · rename_i others same
    rw [closed] at same
    cases same
    rfl
  · rename_i other
    exact absurd closed (other rest)

/-- A bracketed expression is refused if no further bracket may be opened. -/
theorem bracketed_refused_depth (c : Char) (inside : List Char) :
    IsRefused (source.bracketed none c inside) := ⟨.tooDeep source.maxNesting, _, _, _, rfl⟩

/-- A bracketed expression is refused with what stands in the brackets. -/
theorem bracketed_refused {read : ExpressionReader} {inside : List Char}
    (refused : IsRefused (read inside)) (c : Char) :
    IsRefused (source.bracketed (some read) c inside) := by
  obtain ⟨reason, formula, part, position, refused⟩ := refused
  refine ⟨reason, formula, part, position, ?_⟩
  unfold bracketed
  simp only [refused]

/-- A clause in brackets is refused with its brackets. -/
theorem clauseAt_refused_bracket {text : List Char}
    (refused : IsRefused (source.bracketed inner '(' text)) :
    IsRefused (source.clauseAt inner '(' text) := by
  obtain ⟨reason, formula, part, position, refused⟩ := refused
  refine ⟨reason, formula, part, position, ?_⟩
  change source.bracketClause inner '(' text = _
  unfold bracketClause
  simp only [refused]

/-- No clause begins with an operator. -/
theorem clauseAt_refused_operator {c : Char} (operator : Lexeme.isOperator c = true)
    (text : List Char) : IsRefused (source.clauseAt inner c text) := by
  have boundary := isBoundary_of_isOperator operator
  have listed := mem_boundaries_of_isOperator operator
  have brackets : ∀ d ∈ ['+', '-', '*', '/', '%'], (d == '(') = false ∧ (d == '\x7b') = false :=
    forall_of_all (by decide)
  have noName : Lexeme.functionName c text = none := by
    have inside := insideName_of_isBoundary boundary
    rw [Lexeme.insideName, Bool.or_eq_false_iff] at inside
    rw [Lexeme.functionName, dif_neg (by simp [inside.1])]
  have noWord : Lexeme.word c text = none := by
    rw [Lexeme.word, dif_neg (by simp [insideWord_of_isBoundary boundary])]
  refine ⟨.unexpectedCharacter, String.ofList source.text, .string (String.ofList [c]),
    some (source.position (c :: text)), ?_⟩
  unfold clauseAt
  simp only [brackets c listed, isDigitLike_of_isBoundary boundary, Bool.false_eq_true, if_false]
  unfold wordClause
  simp only [noName, isDieSign_of_isBoundary boundary, Bool.false_and, Bool.false_eq_true, if_false,
    noWord]
  rfl

/-- A bracketed expression that is not the number of dice is a clause of its own. -/
theorem bracketClause_finds_group {text : List Char} {tree : Tree Clause} {after : List Char}
    (found : Finds (source.bracketed inner '(' text) tree after)
    (noDie : ∀ c, after.head? = some c → Lexeme.isDieSign c = false)
    {flavor : Option String} {rest : List Char} (marked : Lexeme.splitFlavor after = (flavor, rest)) :
    Finds (source.clauseAt inner '(' text) (.group tree flavor (textBetween ('(' :: text) rest))
      rest := by
  obtain ⟨rfl, rfl⟩ := Prod.ext_iff.1 marked
  obtain ⟨shorter, found⟩ := found
  have within := Lexeme.length_splitFlavor_le after
  refine ⟨Nat.lt_of_le_of_lt within shorter, ?_⟩
  change source.bracketClause inner '(' text = _
  unfold bracketClause
  simp only [found]
  split
  · rfl
  · rename_i d others
    rw [if_neg (by simp [noDie d rfl])]
    rfl

/-! ## Numbers -/

/-- Digits that are not the number of dice are a clause of their own. -/
theorem numberClause_finds_numeric (inner : Option ExpressionReader) {c : Char} {more : List Char} (first : isDigit c = true)
    {digits after : List Char} (read : Lexeme.splitNumber (c :: more) = (digits, after))
    (noDie : ∀ d, after.head? = some d → Lexeme.isDieSign d = false)
    {flavor : Option String} {rest : List Char} (marked : Lexeme.splitFlavor after = (flavor, rest)) :
    Finds (source.clauseAt inner c more)
      (.numeric (Lexeme.numberValue digits) flavor (textBetween (c :: more) rest)) rest := by
  obtain ⟨rfl, rfl⟩ := Prod.ext_iff.1 read
  obtain ⟨rfl, rfl⟩ := Prod.ext_iff.1 marked
  have within := Lexeme.length_splitFlavor_le (Lexeme.splitNumber (c :: more)).2
  refine ⟨Nat.lt_of_le_of_lt within (Lexeme.number c more first).shorter, ?_⟩
  have like : isDigitLike c = true := by rw [isDigitLike, first, Bool.true_or]
  have round : (c == '(') = false := by
    refine beq_eq_false_iff_ne.2 ?_
    rintro rfl
    have none : isDigit '(' = false := by decide
    rw [first] at none
    cases none
  have curly : (c == '\x7b') = false := by
    refine beq_eq_false_iff_ne.2 ?_
    rintro rfl
    have none : isDigit '\x7b' = false := by decide
    rw [first] at none
    cases none
  unfold clauseAt
  simp only [round, curly, like, Bool.false_eq_true, if_false, if_true, dif_pos first]
  unfold numberClause
  simp only [Lexeme.number]
  split
  · rfl
  · rename_i d others die
    rw [if_neg (by simp [noDie d (by rw [die]; rfl)])]
    rfl

/-! ## Whole formulas -/

/-- A formula is parsed if nothing but blanks is left behind an expression. -/
theorem parse_of_finds {tree : Tree Clause} {rest : List Char}
    (found : Finds (source.expressionAt source.maxNesting source.text) tree rest)
    (ended : skipBlanks rest = []) : source.parse = .ok tree := by
  obtain ⟨shorter, found⟩ := found
  unfold parse
  simp only [found, ended]

/-- A formula is refused with its expression. -/
theorem parse_refused
    (refused : IsRefused (source.expressionAt source.maxNesting source.text)) :
    IsRefused source.parse := by
  obtain ⟨reason, formula, part, position, refused⟩ := refused
  refine ⟨reason, formula, part, position, ?_⟩
  unfold parse
  simp only [refused]

end Source
end DiceNotation
