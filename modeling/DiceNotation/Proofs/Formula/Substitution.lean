import DiceNotation.Proofs.Formula.ArithmeticScan
import DiceNotation.Proofs.Formula.OpenArithmetic
import DiceNotation.Proofs.Formula.References

namespace DiceNotation

open Text

/-!
# Substituting data in arithmetic

References are replaced in the text, before anything is read.  What takes the place of a
reference is the text of an operand, with a minus sign in front of it where the value is
written with one.  So the text with its references replaced is written by an expression
again, one of signed operands, and its value is the value of the open expression.
-/

namespace Arithmetic

/-! ## The characters of arithmetic -/

theorem marks_append (front back : List Char) : marks (front ++ back) = marks front ++ marks back :=
  List.map_append

/-- Whether a character can stand in a token. -/
def insideToken (c : Char) : Bool := isDigit c || Lexeme.isOperator c || c == '(' || c == ')'

/-- Whether a token is made of characters that can stand in a token. -/
def IsToken (token : List Char) : Prop := token ≠ [] ∧ ∀ c ∈ token, insideToken c = true

theorem visible_of_insideToken {c : Char} (inside : insideToken c = true) : isBlank c = false := by
  simp only [insideToken, Bool.or_eq_true, beq_iff_eq] at inside
  rcases inside with ((digit | operator) | rfl) | rfl
  · cases blank : isBlank c with
    | false => rfl
    | true =>
      rw [isDigit_of_isBoundary (isBoundary_of_isBlank blank)] at digit
      cases digit
  · exact Lexeme.isBlank_of_isOperator operator
  all_goals decide

theorem insideToken_of_isDigit {c : Char} (digit : isDigit c = true) : insideToken c = true := by
  rw [insideToken, digit]
  rfl

theorem insideToken_of_isOperator {c : Char} (operator : (Operator.ofChar? c).isSome = true) :
    insideToken c = true := by
  rw [insideToken, Lexeme.isOperator, operator]
  simp

theorem isToken_marks {row : List Char} (operators : ∀ c ∈ row, (Operator.ofChar? c).isSome = true) :
    ∀ token ∈ marks row, IsToken token := by
  intro token member
  obtain ⟨c, inside, rfl⟩ := List.mem_map.1 member
  refine ⟨List.cons_ne_nil _ _, fun d same => ?_⟩
  rw [List.mem_singleton.1 same]
  exact insideToken_of_isOperator (operators c inside)

mutual

theorem Operand.isToken : (operand : Operand) → operand.HasShape →
    ∀ token ∈ operand.tokens, IsToken token
  | .literal digits, ⟨present, decimal⟩ => by
    intro token member
    rw [List.mem_singleton.1 member]
    exact ⟨present, fun c inside => insideToken_of_isDigit (decimal c inside)⟩
  | .group inner, shape => by
    have bracket {c : Char} (is : insideToken c = true) : IsToken [c] :=
      ⟨List.cons_ne_nil _ _, fun d same => List.mem_singleton.1 same ▸ is⟩
    refine List.forall_mem_cons.2 ⟨bracket (by decide), List.forall_mem_append.2 ⟨?_, ?_⟩⟩
    · exact inner.isToken shape
    · intro token member
      rw [List.mem_singleton.1 member]
      exact bracket (by decide)

/-- The tokens of an expression are made of the characters of tokens. -/
theorem Expression.isToken : (expression : Expression) → expression.HasShape →
    ∀ token ∈ expression.tokens, IsToken token
  | .run _ first rest, ⟨operators, head, others⟩ =>
    List.forall_mem_append.2 ⟨isToken_marks operators,
      List.forall_mem_append.2 ⟨first.isToken head, joined_isToken rest others⟩⟩

theorem joined_isToken : (rest : List (List Char × Operand)) → JoinedHaveShape rest →
    ∀ token ∈ joinedTokens rest, IsToken token
  | [], _ => fun _ member => absurd member List.not_mem_nil
  | (_, next) :: rest, ⟨⟨_, operators⟩, shape, others⟩ =>
    List.forall_mem_append.2 ⟨isToken_marks operators,
      List.forall_mem_append.2 ⟨next.isToken shape, joined_isToken rest others⟩⟩

end

/-- A text of tokens is made of blanks and of the characters of tokens. -/
theorem Spaced.mem {tokens : List (List Char)} {text : List Char} (spaced : Spaced tokens text)
    (are : ∀ token ∈ tokens, IsToken token) :
    ∀ c ∈ text, isBlank c = true ∨ insideToken c = true := by
  induction spaced with
  | nil => exact fun _ member => absurd member List.not_mem_nil
  | cons blank _ ih =>
    obtain ⟨here, others⟩ := List.forall_mem_cons.1 are
    exact List.forall_mem_append.2 ⟨fun c member => .inl (blank c member),
      List.forall_mem_append.2 ⟨fun c member => .inr (here.2 c member), ih others⟩⟩

/-- A text of tokens ends with the last of them. -/
theorem Spaced.ends_visible {tokens : List (List Char)} {text : List Char}
    (spaced : Spaced tokens text) (are : ∀ token ∈ tokens, IsToken token) :
    ∀ c, text.getLast? = some c → isBlank c = false := by
  induction spaced with
  | nil => exact nofun
  | @cons gap token tokens text blank later ih =>
    obtain ⟨⟨present, visible⟩, others⟩ := List.forall_mem_cons.1 are
    intro c last
    cases behind : text.getLast? with
    | some d =>
      rw [List.getLast?_append, List.getLast?_append, behind] at last
      cases last
      exact ih others c behind
    | none =>
      rw [List.getLast?_eq_none_iff.1 behind, List.append_nil, List.getLast?_append_of_ne_nil _ present]
        at last
      exact visible_of_insideToken (visible c (List.mem_of_mem_getLast? last))

/-! ## What a datum is replaced by -/

theorem skipBlanks_of_visible {text : List Char}
    (visible : ∀ c, text.head? = some c → isBlank c = false) : skipBlanks text = text := by
  cases text with
  | nil => rfl
  | cons c rest => exact skipBlanks_cons (visible c rfl) rest

/-- Blanks around a text are trimmed. -/
theorem trim_append {front text back : List Char} (before : ∀ c ∈ front, isBlank c = true)
    (behind : ∀ c ∈ back, isBlank c = true)
    (begins : ∀ c, text.head? = some c → isBlank c = false)
    (ends : ∀ c, text.getLast? = some c → isBlank c = false) :
    trim (front ++ (text ++ back)) = text := by
  have nothing : skipBlanks back = [] := List.dropWhile_eq_nil_iff.2 behind
  unfold trim
  rw [skipBlanks_append before]
  cases text with
  | nil =>
    rw [List.nil_append, nothing]
    rfl
  | cons c rest =>
    have reversed : skipBlanks (c :: rest).reverse = (c :: rest).reverse :=
      skipBlanks_of_visible fun d last => ends d (List.head?_reverse ▸ last)
    rw [List.cons_append, skipBlanks_cons (begins c rfl), ← List.cons_append, List.reverse_append,
      skipBlanks_append fun d member => behind d (List.mem_reverse.1 member), reversed,
      List.reverse_reverse]

/-- Trimming a text of tokens leaves a text of these tokens. -/
theorem Spaced.trim {tokens : List (List Char)} {text gap : List Char} (spaced : Spaced tokens text)
    (are : ∀ token ∈ tokens, IsToken token) (blank : ∀ c ∈ gap, isBlank c = true) :
    Spaced tokens (Text.trim (text ++ gap)) ∧
      ∃ front, (∀ c ∈ front, isBlank c = true) ∧
        text ++ gap = front ++ (Text.trim (text ++ gap) ++ gap) := by
  have none : ∀ c ∈ ([] : List Char), isBlank c = true := fun _ member =>
    absurd member List.not_mem_nil
  have ends := spaced.ends_visible are
  cases spaced with
  | nil =>
    have trimmed : Text.trim ([] ++ ([] ++ gap)) = [] :=
      trim_append none blank (fun _ first => nomatch first) fun _ last => nomatch last
    rw [List.nil_append] at trimmed
    rw [trimmed]
    exact ⟨.nil, [], none, rfl⟩
  | @cons front token tokens text before later =>
    obtain ⟨present, visible⟩ := are token List.mem_cons_self
    have begins : ∀ c, (token ++ text).head? = some c → isBlank c = false := by
      intro c first
      rw [List.head?_append_of_ne_nil _ present] at first
      exact visible_of_insideToken (visible c (List.mem_of_mem_head? first))
    have last : ∀ c, (token ++ text).getLast? = some c → isBlank c = false := by
      intro c last
      refine ends c ?_
      rw [List.getLast?_append_of_ne_nil _ (List.append_ne_nil_of_left_ne_nil present _)]
      exact last
    have trimmed : Text.trim (front ++ (token ++ text) ++ gap) = token ++ text := by
      rw [List.append_assoc]
      exact trim_append before blank begins last
    rw [trimmed]
    exact ⟨.cons none later, front, before, List.append_assoc _ _ _⟩

theorem digits_of_isUnsignedNumber {text : List Char}
    (plain : Reference.isUnsignedNumber text = true) (whole : '.' ∉ text) :
    text ≠ [] ∧ ∀ c ∈ text, isDigit c = true := by
  unfold Reference.isUnsignedNumber at plain
  simp only at plain
  split at plain
  · rename_i behind
    have digits : ∀ c ∈ text, isDigit c = true := List.dropWhile_eq_nil_iff.1 behind
    refine ⟨?_, digits⟩
    rintro rfl
    cases plain
  · rename_i places behind
    have point : '.' ∈ text.dropWhile isDigit := behind ▸ List.mem_cons_self
    exact absurd ((List.dropWhile_sublist _).subset point) whole
  · cases plain

/-- A plain number without a point is written with digits and perhaps a minus sign. -/
theorem digits_of_isPlainNumber {text : List Char}
    (plain : Reference.isPlainNumber text = true) (whole : '.' ∉ text) :
    ∃ negative digits, text = signOf negative ++ digits ∧ digits ≠ [] ∧
      ∀ c ∈ digits, isDigit c = true := by
  unfold Reference.isPlainNumber at plain
  split at plain
  · rename_i digits
    exact ⟨true, digits, rfl, digits_of_isUnsignedNumber plain fun member =>
      whole (List.mem_cons_of_mem _ member)⟩
  · exact ⟨false, text, rfl, digits_of_isUnsignedNumber plain whole⟩

/-- A text has one value at most as arithmetic. -/
theorem Expression.integer_unique {expression other : Expression} (proper : expression.IsProper)
    (properToo : other.IsProper) {formula : String} (writes : expression.Writes formula)
    (writesToo : other.Writes formula) : expression.integer = other.integer := by
  let source : Source := ⟨formula.toList, true, max expression.depth other.depth⟩
  obtain ⟨tree, read, _, amount⟩ := Expression.parse_found proper.shape proper.meaningful writes
    source rfl (Nat.le_max_left _ _)
  obtain ⟨again, readAgain, _, amountAgain⟩ := Expression.parse_found properToo.shape
    properToo.meaningful writesToo source rfl (Nat.le_max_right _ _)
  obtain ⟨n, integer, value⟩ := Expression.value_of_polynomial proper.meaningful proper.polynomial
  obtain ⟨m, integerToo, valueToo⟩ :=
    Expression.value_of_polynomial properToo.meaningful properToo.polynomial
  rw [read] at readAgain
  cases readAgain
  rw [amount, value, valueToo] at amountAgain
  cases amountAgain
  rw [integer, integerToo]

/-- What stands for a datum in a formula: a signed operand that is written by its text. -/
structure Inserts (path : List Char) (value : Json) (n : Int) (signed : Signed) : Prop where
  proper : signed.IsProper
  integer : signed.integer = some n
  written : ∃ text, Reference.replacement path value = .ok text ∧
    ∀ tokens behind, Spaced tokens behind → ∀ gap, (∀ c ∈ gap, isBlank c = true) →
      Spaced (signed.tokens ++ tokens) (gap ++ (text ++ behind))

theorem inserts_literal {path text digits : List Char} {value : Json} {n : Int} (negative : Bool)
    (replaced : Reference.replacement path value = .ok text)
    (same : text = signOf negative ++ digits) (present : digits ≠ [])
    (decimal : ∀ c ∈ digits, isDigit c = true)
    (integer : integers.signed negative (natOfDigits digits) = n) :
    Inserts path value n ⟨negative, .literal digits⟩ := by
  refine ⟨Signed.isProper_literal present decimal, congrArg some integer, text, replaced, ?_⟩
  intro tokens behind later gap blank
  rw [same, List.append_assoc]
  exact Signed.spaced_append ⟨negative, .literal digits⟩
    (fun _ blank => .cons blank later) blank

/-- A text that is a plain number stands for itself. -/
theorem inserts_plain {path : List Char} {expression : Expression} {value : String} {n : Int}
    (proper : expression.IsProper) (writes : expression.Writes value)
    (integer : expression.integer = some n)
    (plain : Reference.isPlainNumber (trim value.toList) = true) :
    ∃ signed, Inserts path (.string value) n signed := by
  obtain ⟨text, gap, spaced, blank, same⟩ := writes
  obtain ⟨trimmed, front, before, around⟩ :=
    spaced.trim (expression.isToken proper.shape) blank
  rw [← same] at trimmed around
  have whole : '.' ∉ trim value.toList := fun member =>
    (trimmed.mem (expression.isToken proper.shape) '.' member).elim (by decide) (by decide)
  obtain ⟨negative, digits, written, present, decimal⟩ := digits_of_isPlainNumber plain whole
  -- the text is also written by the number alone, so this is its value
  let signed : Signed := ⟨negative, .literal digits⟩
  have alone : (Expression.ofSigned [] signed []).Writes value := by
    refine ⟨front ++ trim value.toList, gap, ?_, blank, around.trans (List.append_assoc ..).symm⟩
    have single : Spaced (signed.tokens ++ []) (front ++ (signOf negative ++ (digits ++ []))) :=
      signed.spaced_append (fun _ blank => .cons blank .nil) before
    rw [List.append_nil, List.append_nil] at single
    rw [written]
    exact single
  have properToo : (Expression.ofSigned [] signed []).IsProper :=
    Expression.isProper_ofSigned (fun _ member => absurd member List.not_mem_nil)
      (Signed.isProper_literal present decimal) fun _ member => absurd member List.not_mem_nil
  have same := Expression.integer_unique proper properToo ⟨text, gap, spaced, blank, same⟩ alone
  rw [integer, Expression.integer_ofSigned [] (rfl : signed.integer = some _) .nil] at same
  have replaced : Reference.replacement path (.string value) = .ok (trim value.toList) := by
    unfold Reference.replacement
    simp only [plain, if_true]
  exact ⟨signed, inserts_literal negative replaced written present decimal (Option.some.inj same).symm⟩

/-- Any other text stands in brackets. -/
theorem inserts_bracketed {path : List Char} {expression : Expression} {value : String} {n : Int}
    (proper : expression.IsProper) (writes : expression.Writes value)
    (integer : expression.integer = some n)
    (other : ¬Reference.isPlainNumber (trim value.toList) = true) :
    Inserts path (.string value) n ⟨false, .group expression⟩ := by
  obtain ⟨text, gap, spaced, blank, same⟩ := writes
  have none : ∀ c ∈ ([] : List Char), isBlank c = true := fun _ member =>
    absurd member List.not_mem_nil
  obtain ⟨trimmed, _⟩ := spaced.trim (expression.isToken proper.shape) blank
  rw [← same] at trimmed
  refine ⟨⟨proper.shape, proper.meaningful, proper.polynomial⟩, ?_,
    '(' :: trim value.toList ++ [')'], ?_, ?_⟩
  · change (expression.integer).map (integers.signed false) = some n
    rw [integer]
    rfl
  · unfold Reference.replacement
    simp only [if_neg other]
  · intro tokens behind later gap blank
    have closing : Spaced ([')'] :: tokens) ([] ++ ([')'] ++ behind)) := .cons none later
    have closed := trimmed.join closing
    have whole : Spaced (['('] :: _) (gap ++ (['('] ++ _)) := .cons blank closed
    have tokens : (Signed.mk false (.group expression)).tokens ++ tokens =
        ['('] :: (expression.tokens ++ [')'] :: tokens) := by
      simp [Signed.tokens, signOf, marks, Operand.tokens]
    rw [tokens]
    simp only [List.append_assoc, List.cons_append, List.nil_append] at whole ⊢
    exact whole

/-- What data denote stands in a formula as a signed operand. -/
theorem Denotes.inserts {value : Json} {n : Int} (denotes : Denotes value n) (path : List Char) :
    ∃ signed, Inserts path value n signed := by
  cases denotes with
  | integer =>
    exact ⟨Signed.ofInt n, inserts_literal _ rfl (Signed.toList_toString n) Nat.toDigits_ne_nil
      (fun _ => isDigit_of_mem_toDigits) (Option.some.inj (Signed.integer_ofInt n))⟩
  | truth holds =>
    cases holds with
    | true =>
      have shown : Reference.replacement path (.bool true) = .ok (signOf false ++ ['1']) := rfl
      exact ⟨_, inserts_literal false shown rfl (List.cons_ne_nil _ _)
        (forall_of_all (by decide)) rfl⟩
    | false =>
      have shown : Reference.replacement path (.bool false) = .ok (signOf false ++ ['0']) := rfl
      exact ⟨_, inserts_literal false shown rfl (List.cons_ne_nil _ _)
        (forall_of_all (by decide)) rfl⟩
  | text proper writes integer =>
    rename_i expression value
    by_cases plain : Reference.isPlainNumber (trim value.toList) = true
    · exact inserts_plain proper writes integer plain
    · exact ⟨_, inserts_bracketed proper writes integer plain⟩

/-! ## What an expression is replaced by -/

section

variable (insert : List Char → Signed)

mutual

/-- An operand with what stands for its references. -/
def OpenOperand.fill : OpenOperand → Signed
  | .literal digits => ⟨false, .literal digits⟩
  | .reference path => insert path
  | .group inner => ⟨false, .group inner.fill⟩

/-- An expression with what stands for its references. -/
def OpenExpression.fill : OpenExpression → Expression
  | .run signs first rest => .ofSigned signs first.fill (fillJoined rest)

def fillJoined : List (List Char × OpenOperand) → List (List Char × Signed)
  | [] => []
  | (row, next) :: rest => (row, next.fill) :: fillJoined rest

end

/-- The tokens of pieces with what stands for their references. -/
def filledTokens (pieces : List Piece) : List (List Char) :=
  pieces.flatMap fun
    | .token text => [text]
    | .reference path => (insert path).tokens

theorem filledTokens_append (front back : List Piece) :
    filledTokens insert (front ++ back) = filledTokens insert front ++ filledTokens insert back :=
  List.flatMap_append

theorem filledTokens_markPieces (row : List Char) :
    filledTokens insert (markPieces row) = marks row := by
  induction row with
  | nil => rfl
  | cons c row ih => exact congrArg ([c] :: ·) ih

mutual

theorem OpenOperand.tokens_fill : (operand : OpenOperand) →
    (operand.fill insert).tokens = filledTokens insert operand.pieces
  | .literal digits => rfl
  | .reference path => (List.append_nil _).symm
  | .group inner => by
    change ['('] :: ((inner.fill insert).tokens ++ [[')']]) =
      ['('] :: filledTokens insert (inner.pieces ++ [.token [')']])
    rw [filledTokens_append, inner.tokens_fill]
    rfl

/-- The tokens of a filled expression are its pieces, filled one by one. -/
theorem OpenExpression.tokens_fill : (expression : OpenExpression) →
    (expression.fill insert).tokens = filledTokens insert expression.pieces
  | .run signs first rest => by
    change marks (signs ++ signOf (first.fill insert).negative) ++
      ((first.fill insert).operand.tokens ++ joinedTokens (attached (fillJoined insert rest))) =
      filledTokens insert (markPieces signs ++ (first.pieces ++ openJoinedPieces rest))
    rw [filledTokens_append, filledTokens_append, filledTokens_markPieces, ← first.tokens_fill,
      ← joined_tokens_fill rest, marks_append, Signed.tokens, List.append_assoc, List.append_assoc]

theorem joined_tokens_fill : (rest : List (List Char × OpenOperand)) →
    joinedTokens (attached (fillJoined insert rest)) = filledTokens insert (openJoinedPieces rest)
  | [] => rfl
  | (row, next) :: rest => by
    change marks (row ++ signOf (next.fill insert).negative) ++
      ((next.fill insert).operand.tokens ++ joinedTokens (attached (fillJoined insert rest))) =
      filledTokens insert (markPieces row ++ (next.pieces ++ openJoinedPieces rest))
    rw [filledTokens_append, filledTokens_append, filledTokens_markPieces, ← next.tokens_fill,
      ← joined_tokens_fill rest, marks_append, Signed.tokens, List.append_assoc, List.append_assoc]

end

/-! ## What a filled expression amounts to -/

variable {insert} {assignment : List Char → Int}

mutual

theorem OpenOperand.fill_amounts : (operand : OpenOperand) → operand.IsProper →
    (∀ path ∈ operand.paths, (insert path).IsProper ∧
      (insert path).integer = some (assignment path)) →
    ∃ n, operand.integer assignment = some n ∧ (operand.fill insert).integer = some n ∧
      (operand.fill insert).IsProper
  | .literal digits, ⟨present, decimal⟩, _ =>
    ⟨_, rfl, rfl, Signed.isProper_literal present decimal⟩
  | .reference path, _, inserted =>
    have ⟨proper, value⟩ := inserted path List.mem_cons_self
    ⟨_, rfl, value, proper⟩
  | .group inner, proper, inserted => by
    obtain ⟨n, open', filled, whole⟩ := inner.fill_amounts proper inserted
    refine ⟨n, open', ?_, ⟨whole.shape, whole.meaningful, whole.polynomial⟩⟩
    change ((inner.fill insert).integer).map (integers.signed false) = some n
    rw [filled]
    rfl

/-- A filled expression has the value of the open one, which it has in any case. -/
theorem OpenExpression.fill_amounts : (expression : OpenExpression) → expression.IsProper →
    (∀ path ∈ expression.paths, (insert path).IsProper ∧
      (insert path).integer = some (assignment path)) →
    ∃ n, expression.integer assignment = some n ∧ (expression.fill insert).integer = some n ∧
      (expression.fill insert).IsProper
  | .run signs first rest, ⟨plain, head, others⟩, inserted => by
    obtain ⟨before, behind⟩ := List.forall_mem_append.1 inserted
    obtain ⟨m, value, filled, proper⟩ := first.fill_amounts head before
    obtain ⟨joined, values, amounts, properToo⟩ := joined_fill_amounts rest others behind
    obtain ⟨n, total⟩ := exists_total amounts.exact (integers.signed (isOdd signs) m)
    refine ⟨n, ?_, (Expression.integer_ofSigned signs filled amounts).trans total,
      Expression.isProper_ofSigned plain proper properToo⟩
    change (first.integer assignment).bind _ = _
    rw [value, Option.bind_some]
    change (openJoinedIntegers assignment rest).bind _ = _
    rw [values]
    exact total

theorem joined_fill_amounts : (rest : List (List Char × OpenOperand)) → OpenJoinedAreProper rest →
    (∀ path ∈ openJoinedPaths rest, (insert path).IsProper ∧
      (insert path).integer = some (assignment path)) →
    ∃ joined, openJoinedIntegers assignment rest = some joined ∧
      Amounts (fillJoined insert rest) joined ∧
      ∀ next ∈ fillJoined insert rest, IsRow next.1 ∧ next.2.IsProper
  | [], _, _ => ⟨[], rfl, .nil, fun _ member => absurd member List.not_mem_nil⟩
  | (row, next) :: rest, ⟨isRow, head, others⟩, inserted => by
    obtain ⟨before, behind⟩ := List.forall_mem_append.1 inserted
    obtain ⟨m, value, filled, proper⟩ := next.fill_amounts head before
    obtain ⟨joined, values, amounts, properToo⟩ := joined_fill_amounts rest others behind
    obtain ⟨op, negative, means⟩ := isRow.meansExactly
    refine ⟨_, ?_, .cons means filled amounts, List.forall_mem_cons.2 ⟨⟨isRow, proper⟩, properToo⟩⟩
    change (meaning? row).bind _ = _
    rw [means.1, Option.bind_some]
    change (next.integer assignment).bind _ = _
    rw [value, Option.bind_some]
    change (openJoinedIntegers assignment rest).bind _ = _
    rw [values]
    rfl

end

end

/-! ## The replaced text -/

section

variable {data : Fields}

theorem not_insidePath_of_isBlank {c : Char} (blank : isBlank c = true) :
    Reference.insidePath c = false :=
  of_isBoundary (P := fun c => isBlank c = true → Reference.insidePath c = false)
    (by decide) (isBoundary_of_isBlank blank) blank

theorem EndsReference.append {text gap : List Char} (ends : EndsReference text)
    (blank : ∀ c ∈ gap, isBlank c = true) :
    ∀ c, (text ++ gap).head? = some c → Reference.insidePath c = false := by
  intro c first
  cases text with
  | nil => exact not_insidePath_of_isBlank (blank c (List.mem_of_mem_head? first))
  | cons d text =>
    cases first
    rcases ends c rfl with space | rfl | rfl | rfl
    · exact not_insidePath_of_isBlank space
    · decide
    · decide
    · decide

/-- Whether a token holds no reference, or the path of a reference is one and has a property. -/
def Piece.Holds (P : List Char → Prop) : Piece → Prop
  | .token text => '@' ∉ text
  | .reference path => (path ≠ [] ∧ ∀ c ∈ path, Reference.insidePath c = true) ∧ P path

theorem markPieces_hold {P : List Char → Prop} {row : List Char}
    (operators : ∀ c ∈ row, (Operator.ofChar? c).isSome = true) :
    ∀ piece ∈ markPieces row, piece.Holds P := by
  intro piece member
  obtain ⟨c, inside, rfl⟩ := List.mem_map.1 member
  intro same
  have operator := operators c inside
  rw [← List.mem_singleton.1 same] at operator
  cases operator

mutual

theorem OpenOperand.pieces_hold {P : List Char → Prop} : (operand : OpenOperand) →
    operand.IsProper → (∀ path ∈ operand.paths, P path) → ∀ piece ∈ operand.pieces, piece.Holds P
  | .literal digits, ⟨_, decimal⟩, _ => by
    refine List.forall_mem_singleton.2 fun member => ?_
    have digit := decimal '@' member
    revert digit
    decide
  | .reference path, proper, holds =>
    List.forall_mem_singleton.2 ⟨proper, holds path List.mem_cons_self⟩
  | .group inner, proper, holds =>
    have bracket {c : Char} (other : '@' ≠ c) : (Piece.token [c]).Holds P :=
      fun same => other (List.mem_singleton.1 same)
    List.forall_mem_cons.2 ⟨bracket (by decide), List.forall_mem_append.2
      ⟨inner.pieces_hold proper holds, List.forall_mem_singleton.2 (bracket (by decide))⟩⟩

/-- References stand in the pieces of an expression as such only. -/
theorem OpenExpression.pieces_hold {P : List Char → Prop} : (expression : OpenExpression) →
    expression.IsProper → (∀ path ∈ expression.paths, P path) →
    ∀ piece ∈ expression.pieces, piece.Holds P
  | .run _ first rest, ⟨plain, head, others⟩, holds =>
    have ⟨before, behind⟩ := List.forall_mem_append.1 holds
    List.forall_mem_append.2
      ⟨markPieces_hold fun c member => Lexeme.isOperator_of_isSign (plain c member),
        List.forall_mem_append.2
          ⟨first.pieces_hold head before, joined_pieces_hold rest others behind⟩⟩

theorem joined_pieces_hold {P : List Char → Prop} : (rest : List (List Char × OpenOperand)) →
    OpenJoinedAreProper rest → (∀ path ∈ openJoinedPaths rest, P path) →
    ∀ piece ∈ openJoinedPieces rest, piece.Holds P
  | [], _, _ => fun _ member => absurd member List.not_mem_nil
  | (_, next) :: rest, ⟨isRow, head, others⟩, holds =>
    have ⟨before, behind⟩ := List.forall_mem_append.1 holds
    List.forall_mem_append.2 ⟨markPieces_hold isRow.operators, List.forall_mem_append.2
      ⟨next.pieces_hold head before, joined_pieces_hold rest others behind⟩⟩

end

theorem not_mem_of_blank {gap : List Char} (blank : ∀ c ∈ gap, isBlank c = true) : '@' ∉ gap :=
  fun member => absurd (blank '@' member) (by decide)

/-- A text of pieces becomes a text of the same pieces with what stands for the references. -/
theorem SpacedPieces.replace {pieces : List Piece} {text : List Char}
    (spaced : SpacedPieces pieces text) {insert : List Char → Signed} {assignment : List Char → Int}
    (holds : ∀ piece ∈ pieces, piece.Holds fun path => ∃ value,
      Reference.lookUp (.object data) (path.splitOn '.') = some value ∧
        Inserts path value (assignment path) (insert path))
    {gap : List Char} (blank : ∀ c ∈ gap, isBlank c = true) :
    ∃ replaced, Reference.replace data none (text ++ gap) = .ok ⟨replaced ++ gap, []⟩ ∧
      Spaced (filledTokens insert pieces) replaced := by
  induction spaced with
  | nil =>
    exact ⟨[], Reference.replace_plain (not_mem_of_blank blank), .nil⟩
  | @token front token pieces text before later ih =>
    obtain ⟨here, others⟩ := List.forall_mem_cons.1 holds
    obtain ⟨replaced, more, written⟩ := ih others
    have plain : '@' ∉ front ++ token := fun member =>
      (List.mem_append.1 member).elim (not_mem_of_blank before) here
    refine ⟨front ++ (token ++ replaced), ?_, .cons before written⟩
    have whole := Reference.replace_append plain more
    simp only [Reference.Replaced.behind, List.append_assoc] at whole ⊢
    exact whole
  | @reference front path pieces text before ends later ih =>
    obtain ⟨⟨⟨present, inside⟩, value, found, inserts⟩, others⟩ := List.forall_mem_cons.1 holds
    obtain ⟨replaced, more, written⟩ := ih others
    obtain ⟨stands, same, spaced⟩ := inserts.written
    have reference := Reference.replace_reference (ends.append blank) present inside found same more
    have whole := Reference.replace_append (not_mem_of_blank before) reference
    refine ⟨front ++ (stands ++ replaced), ?_, spaced _ _ written front before⟩
    simp only [Reference.Replaced.behind, List.append_assoc, List.cons_append] at whole ⊢
    exact whole

end

/-! ## The depth of the replaced text -/

theorem le_bracketDepth (levels : Nat) (text : List Char) : levels ≤ bracketDepth levels text := by
  induction text generalizing levels with
  | nil => exact Nat.le_refl _
  | cons c rest ih =>
    unfold bracketDepth
    split
    · exact Nat.le_of_succ_le (ih (levels + 1))
    · split
      · exact Nat.le_max_left _ _
      · exact ih levels

theorem bracketDepth_append {front : List Char} (plain : ∀ c ∈ front, c ≠ '(' ∧ c ≠ ')')
    (levels : Nat) (rest : List Char) :
    bracketDepth levels (front ++ rest) = bracketDepth levels rest := by
  induction front with
  | nil => rfl
  | cons c front ih =>
    obtain ⟨⟨opening, closing⟩, others⟩ := List.forall_mem_cons.1 plain
    rw [List.cons_append, bracketDepth, if_neg opening, if_neg closing]
    exact ih others

theorem plain_of_isBlank {gap : List Char} (blank : ∀ c ∈ gap, isBlank c = true) :
    ∀ c ∈ gap, c ≠ '(' ∧ c ≠ ')' := by
  intro c member
  have space := blank c member
  refine ⟨?_, ?_⟩ <;> rintro rfl <;> revert space <;> decide

theorem plain_of_marks {row text : List Char}
    (operators : ∀ c ∈ row, (Operator.ofChar? c).isSome = true) (spaced : Spaced (marks row) text) :
    ∀ c ∈ text, c ≠ '(' ∧ c ≠ ')' := by
  intro c member
  rcases spaced.mem_marks c member with blank | inside
  · exact plain_of_isBlank (List.forall_mem_singleton.2 blank) c List.mem_cons_self
  · have operator := operators c inside
    refine ⟨?_, ?_⟩ <;> rintro rfl <;> cases operator

mutual

theorem Operand.bracketDepth_eq : (operand : Operand) → operand.HasShape → {text : List Char} →
    Spaced operand.tokens text → (levels : Nat) → (rest : List Char) →
    bracketDepth levels (text ++ rest) =
      max (levels + operand.depth) (bracketDepth levels rest)
  | .literal digits, ⟨_, decimal⟩, text, spaced, levels, rest => by
    obtain ⟨gap, blank, rfl⟩ := spaced.singleton
    have plain : ∀ c ∈ gap ++ digits, c ≠ '(' ∧ c ≠ ')' := by
      refine List.forall_mem_append.2 ⟨plain_of_isBlank blank, fun c member => ?_⟩
      have digit := decimal c member
      refine ⟨?_, ?_⟩ <;> rintro rfl <;> revert digit <;> decide
    rw [bracketDepth_append plain]
    exact (Nat.max_eq_right (le_bracketDepth levels rest)).symm
  | .group inner, shape, text, spaced, levels, rest => by
    cases spaced with
    | @cons gap _ _ others blank later =>
      obtain ⟨inside, closing, rfl, written, closes⟩ := later.append
      obtain ⟨space, blankToo, rfl⟩ := closes.singleton
      have within := inner.bracketDepth_eq shape written (levels + 1) (space ++ ([')'] ++ rest))
      have closed : bracketDepth (levels + 1) (space ++ ([')'] ++ rest)) =
          max (levels + 1) (bracketDepth levels rest) := by
        rw [bracketDepth_append (plain_of_isBlank blankToo)]
        rfl
      have opened : bracketDepth levels (gap ++ (['('] ++ (inside ++ (space ++ [')']))) ++ rest) =
          bracketDepth (levels + 1) (inside ++ (space ++ ([')'] ++ rest))) := by
        simp only [List.append_assoc]
        rw [bracketDepth_append (plain_of_isBlank blank)]
        rfl
      rw [opened, within, closed]
      change max (levels + 1 + inner.depth) (max (levels + 1) _) = max (levels + (inner.depth + 1)) _
      omega

/-- A text of an expression has its depth, on top of the levels before it. -/
theorem Expression.bracketDepth_eq : (expression : Expression) → expression.HasShape →
    {text : List Char} → Spaced expression.tokens text → (levels : Nat) → (rest : List Char) →
    bracketDepth levels (text ++ rest) =
      max (levels + expression.depth) (bracketDepth levels rest)
  | .run signs first others, ⟨operators, head, more⟩, text, spaced, levels, rest => by
    obtain ⟨lead, behind, rfl, leads, written⟩ := spaced.append
    obtain ⟨front, back, rfl, begins, continues⟩ := written.append
    simp only [List.append_assoc]
    rw [bracketDepth_append (plain_of_marks operators leads),
      first.bracketDepth_eq head begins, joined_bracketDepth_eq others more continues]
    change _ = max (levels + max first.depth (joinedDepth others)) _
    omega

theorem joined_bracketDepth_eq : (others : List (List Char × Operand)) → JoinedHaveShape others →
    {text : List Char} → Spaced (joinedTokens others) text → (levels : Nat) → (rest : List Char) →
    bracketDepth levels (text ++ rest) =
      max (levels + joinedDepth others) (bracketDepth levels rest)
  | [], _, text, spaced, levels, rest => by
    cases spaced
    exact (Nat.max_eq_right (le_bracketDepth levels rest)).symm
  | (row, next) :: others, ⟨⟨_, operators⟩, head, more⟩, text, spaced, levels, rest => by
    obtain ⟨lead, behind, rfl, leads, written⟩ := spaced.append
    obtain ⟨front, back, rfl, begins, continues⟩ := written.append
    simp only [List.append_assoc]
    rw [bracketDepth_append (plain_of_marks operators leads),
      next.bracketDepth_eq head begins, joined_bracketDepth_eq others more continues]
    change _ = max (levels + max next.depth (joinedDepth others)) _
    omega

end

end Arithmetic
end DiceNotation
