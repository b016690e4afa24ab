import DiceNotation.Proofs.Formula.Arithmetic
import DiceNotation.Proofs.Formula.Reading
import DiceNotation.Proofs.Formula.Rows
import DiceNotation.Proofs.Number.Negation

namespace DiceNotation

open Text

/-!
# Scanning written arithmetic

What the scanner makes of a text of an expression.  If every row of operators in
it has a meaning and no more brackets are open at once than there are levels, the
scanner finds a tree with the value of the expression.  Otherwise the text is
refused.  Both are shown along the expression, level by level.
-/

namespace Arithmetic

/-! ## Tokens with blanks -/

theorem Spaced.append {front back : List (List Char)} {text : List Char}
    (spaced : Spaced (front ++ back) text) :
    ∃ before behind, text = before ++ behind ∧ Spaced front before ∧ Spaced back behind := by
  induction front generalizing text with
  | nil => exact ⟨[], text, rfl, .nil, spaced⟩
  | cons token tokens ih =>
    cases spaced with
    | cons blank later =>
      rename_i gap others
      obtain ⟨before, behind, rfl, first, second⟩ := ih later
      exact ⟨gap ++ (token ++ before), behind, by simp, .cons blank first, second⟩

/-- Texts of tokens one behind the other. -/
theorem Spaced.join {tokens more : List (List Char)} {text behind : List Char}
    (spaced : Spaced tokens text) (later : Spaced more behind) :
    Spaced (tokens ++ more) (text ++ behind) := by
  induction spaced with
  | nil => exact later
  | @cons gap token tokens text blank _ ih =>
    rw [List.append_assoc, List.append_assoc]
    exact .cons blank ih

/-- A single token with blanks before it. -/
theorem Spaced.singleton {token text : List Char} (spaced : Spaced [token] text) :
    ∃ gap, (∀ c ∈ gap, isBlank c = true) ∧ text = gap ++ token := by
  cases spaced with
  | cons blank later =>
    rename_i gap others
    cases later
    exact ⟨gap, blank, by simp⟩

/-- The text of single characters consists of blanks and of these characters. -/
theorem Spaced.mem_marks {row text : List Char} (spaced : Spaced (marks row) text) :
    ∀ c ∈ text, isBlank c = true ∨ c ∈ row := by
  induction row generalizing text with
  | nil =>
    cases spaced
    intro c member
    cases member
  | cons d row ih =>
    cases spaced with
    | cons blank later =>
      intro c member
      rcases List.mem_append.1 member with inGap | member
      · exact .inl (blank c inGap)
      rcases List.mem_append.1 member with here | member
      · exact .inr (List.mem_cons.2 (.inl (List.mem_singleton.1 here)))
      rcases ih later c member with blank | later
      · exact .inl blank
      · exact .inr (List.mem_cons_of_mem d later)

/-- Without its blanks the text of single characters is the row of these characters. -/
theorem Spaced.filter_marks {p : Char → Bool} {row text : List Char}
    (spaced : Spaced (marks row) text) (kept : ∀ c ∈ row, p c = true)
    (dropped : ∀ c, isBlank c = true → p c = false) : text.filter p = row := by
  induction row generalizing text with
  | nil =>
    cases spaced
    rfl
  | cons d row ih =>
    cases spaced with
    | cons blank later =>
      rename_i gap others
      have rest := ih later fun c member => kept c (List.mem_cons_of_mem d member)
      have nothing : gap.filter p = [] := by
        rw [List.filter_eq_nil_iff]
        intro c member
        rw [dropped c (blank c member)]
        exact Bool.false_ne_true
      rw [List.filter_append, List.filter_append, nothing, rest,
        List.filter_cons_of_pos (kept d List.mem_cons_self)]
      rfl

/-- The text of single characters ends with the last of them. -/
theorem Spaced.getLast?_marks {row text : List Char} (spaced : Spaced (marks row) text) :
    text.getLast? = row.getLast? := by
  induction row generalizing text with
  | nil =>
    cases spaced
    rfl
  | cons d row ih =>
    cases spaced with
    | cons blank later =>
      rename_i gap others
      rw [List.getLast?_append, List.getLast?_append, ih later, List.getLast?_cons]
      cases row with
      | nil => rfl
      | cons e row => simp [List.getLast?_cons]

/-! ## The meaning of rows -/

theorem foldl_negates (signs : List Char) (negative : Bool) :
    signs.foldl (fun negative c => negative != (c == '-')) negative = (negative != isOdd signs) := by
  induction signs generalizing negative with
  | nil => cases negative <;> rfl
  | cons c signs ih =>
    rw [List.foldl_cons, ih]
    unfold isOdd
    rw [List.count_cons]
    cases minus : c == '-' with
    | false => simp
    | true =>
      rcases Nat.mod_two_eq_zero_or_one (signs.count '-') with even | odd
      · have next : (signs.count '-' + 1) % 2 = 1 := by omega
        cases negative <;> simp [even, next]
      · have next : (signs.count '-' + 1) % 2 = 0 := by omega
        cases negative <;> simp [odd, next]

/-- A run of signs negates if it holds an odd number of minus signs. -/
theorem negates_eq_isOdd (signs : List Char) : negates signs = isOdd signs := by
  rw [negates, foldl_negates]
  cases isOdd signs <;> rfl

theorem multiplicative?_eq (c : Char) :
    multiplicative? c = (Operator.ofChar? c).filter Operator.isMultiplicative := by
  unfold multiplicative? Operator.ofChar?
  split
  · rfl
  · rfl
  · rfl
  · split <;> first | rfl | contradiction

/-- What the scanner makes of a row of operators is its meaning. -/
theorem reduceRun_eq_meaning? (row : List Char) : reduceRun row = meaning? row := by
  unfold reduceRun meaning?
  cases signs : row.all isSign with
  | true => rw [if_pos rfl, if_pos rfl, negates_eq_isOdd]
  | false =>
    rw [if_neg Bool.false_ne_true, if_neg Bool.false_ne_true]
    cases row with
    | nil => rfl
    | cons c more =>
      simp only [multiplicative?_eq, negates_eq_isOdd]
      cases Operator.ofChar? c with
      | none => cases more.all isSign <;> rfl
      | some op =>
        cases tight : op.isMultiplicative <;> cases more.all isSign <;> simp [tight]

end Arithmetic

/-! ## What clauses without dice amount to -/

mutual

/-- Whether a clause is a number, or a bracketed expression of such clauses. -/
def Clause.IsArithmetic : Clause → Prop
  | .numeric _ _ _ => True
  | .group inner _ _ => TreeIsArithmetic inner
  | _ => False

def TreeIsArithmetic : Tree Clause → Prop
  | .leaf clause => clause.IsArithmetic
  | .node _ left right => TreeIsArithmetic left ∧ TreeIsArithmetic right

end

mutual

/-- What a clause without dice amounts to. -/
def Clause.amount : Clause → Option Number
  | .numeric value _ _ => some value
  | .group inner _ _ => (rowAmounts inner).bind fun row => Arithmetic.numbers.total row.1 row.2
  | _ => none

/-- What the operands of a tree amount to, in the order of its row. -/
def rowAmounts : Tree Clause → Option (Number × List (Operator × Number))
  | .leaf clause => do return (← clause.amount, [])
  | .node op left right => do
    let before ← rowAmounts left
    let behind ← rowAmounts right
    return (before.1, before.2 ++ (op, behind.1) :: behind.2)

end

/-- What a tree of clauses amounts to. -/
def treeAmount (tree : Tree Clause) : Option Number :=
  (rowAmounts tree).bind fun row => Arithmetic.numbers.total row.1 row.2

/-- What joined clauses amount to. -/
def joinedAmounts : List (Operator × Clause) → Option (List (Operator × Number))
  | [] => some []
  | (op, clause) :: rest => do
    let value ← clause.amount
    return (op, value) :: (← joinedAmounts rest)

theorem joinedAmounts_append (front back : List (Operator × Clause)) :
    joinedAmounts (front ++ back) = do
      let before ← joinedAmounts front
      let behind ← joinedAmounts back
      return before ++ behind := by
  induction front with
  | nil => simp [joinedAmounts]
  | cons joined front ih =>
    obtain ⟨op, clause⟩ := joined
    simp [joinedAmounts, ih, Option.bind_assoc]

/-- The operands of a tree amount to what its row says. -/
theorem rowAmounts_eq (tree : Tree Clause) : rowAmounts tree = do
    let first ← tree.row.1.amount
    return (first, ← joinedAmounts tree.row.2) := by
  induction tree with
  | leaf clause => simp [rowAmounts, Tree.row, joinedAmounts]
  | node op left right left_ih right_ih =>
    simp [rowAmounts, Tree.row, joinedAmounts_append, joinedAmounts, left_ih, right_ih,
      Option.bind_assoc]

theorem treeIsArithmetic_iff (tree : Tree Clause) :
    TreeIsArithmetic tree ↔
      tree.row.1.IsArithmetic ∧ ∀ joined ∈ tree.row.2, joined.2.IsArithmetic := by
  induction tree with
  | leaf clause => simp [TreeIsArithmetic, Tree.row]
  | node op left right left_ih right_ih =>
    simp only [TreeIsArithmetic, Tree.row, left_ih, right_ih, List.forall_mem_append,
      List.forall_mem_cons]
    tauto

namespace Clause

/-- A number that is multiplied by minus one is the number negated. -/
theorem join_minusOne (n : Number) : Arithmetic.joinNumbers .mul n (.int (-1)) = some n.neg := by
  have product : Operator.apply .mul "" (.number n) (.number (.int (-1))) = .ok (.number n.neg) := by
    change (liftNumber (n.mul (.int (-1)))).map Json.number = _
    rw [Number.mul_minusOne]
    rfl
  rw [Arithmetic.joinNumbers, product]

/-- A clause in brackets times minus one amounts to the number negated. -/
theorem amount_product (clause : Clause) (flavor : Option String) (raw : String) :
    (group (.node .mul (.leaf clause) (.leaf minusOne)) flavor raw).amount =
      clause.amount.map Number.neg := by
  cases value : clause.amount with
  | none => simp [amount, rowAmounts, value]
  | some n =>
    have total : Arithmetic.numbers.total n [(.mul, .int (-1))] = some n.neg := by
      have tight : Operator.mul.isMultiplicative = true := rfl
      simp [Arithmetic.Carrier.total, Arithmetic.Carrier.summands, Arithmetic.Carrier.product,
        Arithmetic.Carrier.sum, Arithmetic.numbers, tight, join_minusOne]
    simp [amount, rowAmounts, minusOne, value, total]

/-- The opposite of a clause amounts to the number negated. -/
theorem amount_opposite (clause : Clause) : clause.opposite.amount = clause.amount.map Number.neg := by
  cases clause with
  | numeric value flavor raw => rfl
  | _ => exact amount_product _ none _

theorem isArithmetic_opposite {clause : Clause} (arithmetic : clause.IsArithmetic) :
    clause.opposite.IsArithmetic := by
  cases clause with
  | numeric value flavor raw => trivial
  | group inner flavor raw => exact ⟨arithmetic, trivial⟩
  | _ => cases arithmetic

theorem amount_signed (negative : Bool) (clause : Clause) :
    (clause.signed negative).amount = clause.amount.map (Arithmetic.numbers.signed negative) := by
  cases negative with
  | false =>
    change clause.amount = clause.amount.map fun value => value
    rw [Option.map_id']
  | true => exact amount_opposite clause

theorem isArithmetic_signed (negative : Bool) {clause : Clause} (arithmetic : clause.IsArithmetic) :
    (clause.signed negative).IsArithmetic := by
  cases negative with
  | false => exact arithmetic
  | true => exact isArithmetic_opposite arithmetic

end Clause

/-! ## Scanning -/

namespace Arithmetic

/-- Whether a character begins an operand. -/
def beginsOperand (c : Char) : Bool := c == '(' || isDigit c

theorem visible_of_beginsOperand {c : Char} (begins : beginsOperand c = true) :
    isBlank c = false ∧ Lexeme.isOperator c = false := by
  have ends : isBoundary c = false := by
    rcases Bool.or_eq_true_iff.1 begins with round | digit
    · cases beq_iff_eq.1 round
      decide
    · exact isBoundary_of_isDigit digit
  simp only [isBoundary, Bool.or_eq_false_iff] at ends
  exact ⟨ends.1.1.1, ends.1.1.2⟩

theorem not_sign_of_beginsOperand {c : Char} (begins : beginsOperand c = true) :
    isSign c = false := by
  cases sign : isSign c with
  | false => rfl
  | true =>
    have operator := Lexeme.isOperator_of_isSign sign
    rw [(visible_of_beginsOperand begins).2] at operator
    cases operator

/-- A text that begins with an operand. -/
def Opens (text : List Char) : Prop := ∃ c more, text = c :: more ∧ beginsOperand c = true

theorem Opens.append {text : List Char} (opens : Opens text) (rest : List Char) :
    Opens (text ++ rest) := by
  obtain ⟨c, more, rfl, begins⟩ := opens
  exact ⟨c, more ++ rest, rfl, begins⟩

theorem Opens.visible {text : List Char} (opens : Opens text) :
    ∀ c, text.head? = some c → isBlank c = false ∧ isSign c = false := by
  obtain ⟨d, more, rfl, begins⟩ := opens
  intro c first
  cases first
  exact ⟨(visible_of_beginsOperand begins).1, not_sign_of_beginsOperand begins⟩

/-- An operand is not taken for an operator. -/
theorem Opens.no_operator {text : List Char} (opens : Opens text) {gap : List Char}
    (blank : ∀ c ∈ gap, isBlank c = true) :
    ∀ c, (skipBlanks (gap ++ text)).head? = some c → Lexeme.isOperator c = false := by
  obtain ⟨d, more, rfl, begins⟩ := opens
  intro c first
  rw [skipBlanks_append blank, skipBlanks_cons (visible_of_beginsOperand begins).1] at first
  cases first
  exact (visible_of_beginsOperand begins).2

/-- The text of an operand is blanks and the operand without blanks before it. -/
theorem Operand.opens {operand : Operand} (shape : operand.HasShape) {text : List Char}
    (spaced : Spaced operand.tokens text) :
    ∃ gap bare, text = gap ++ bare ∧ (∀ c ∈ gap, isBlank c = true) ∧ Opens bare ∧
      Spaced operand.tokens bare := by
  have none : ∀ c ∈ ([] : List Char), isBlank c = true := by
    intro c member
    cases member
  cases operand with
  | literal digits =>
    obtain ⟨gap, blank, rfl⟩ := spaced.singleton
    obtain ⟨present, decimal⟩ := shape
    cases digits with
    | nil => exact absurd rfl present
    | cons c more =>
      refine ⟨gap, c :: more, rfl, blank, ⟨c, more, rfl, ?_⟩, ?_⟩
      · rw [beginsOperand, decimal c List.mem_cons_self, Bool.or_true]
      · have bare : Spaced [c :: more] ([] ++ ((c :: more) ++ [])) := .cons none .nil
        rwa [List.nil_append, List.append_nil] at bare
  | group inner =>
    cases spaced with
    | cons blank later =>
      rename_i gap others
      exact ⟨gap, '(' :: others, rfl, blank, ⟨'(', others, rfl, rfl⟩, Spaced.cons none later⟩

/-- The row of operators before an operand. -/
theorem operators_of_row {row text : List Char} (present : row ≠ [])
    (operators : ∀ c ∈ row, (Operator.ofChar? c).isSome = true) (spaced : Spaced (marks row) text)
    {gap bare : List Char} (blank : ∀ c ∈ gap, isBlank c = true) (opens : Opens bare) :
    ∃ shorter, Lexeme.operators (text ++ (gap ++ bare)) = some ⟨row, gap ++ bare, shorter⟩ := by
  obtain ⟨last, ended⟩ : ∃ last, text.getLast? = some last := by
    rw [spaced.getLast?_marks]
    exact Option.ne_none_iff_exists'.1 fun none => present (List.getLast?_eq_none_iff.1 none)
  have member : last ∈ row := by
    rw [spaced.getLast?_marks] at ended
    exact List.mem_of_mem_getLast? ended
  have kept := spaced.filter_marks (p := Lexeme.isOperator) operators
    fun c => Lexeme.isOperator_of_isBlank
  have blankOrOperator : ∀ c ∈ text, isBlank c = true ∨ Lexeme.isOperator c = true := by
    intro c inside
    exact (spaced.mem_marks c inside).imp_right (operators c)
  have read := Lexeme.operators_append blankOrOperator ended (operators last member)
    (opens.no_operator blank)
  rwa [kept] at read

/-- Behind an operand come operators or the end. -/
theorem joined_endsClause {rest : List (List Char × Operand)} (shape : JoinedHaveShape rest)
    {text : List Char} (spaced : Spaced (joinedTokens rest) text) {after : List Char}
    (ends : EndsExpression after) : EndsClause (text ++ after) := by
  cases rest with
  | nil =>
    cases spaced
    exact ends.endsClause
  | cons joined rest =>
    obtain ⟨row, next⟩ := joined
    obtain ⟨⟨present, operators⟩, _⟩ := shape
    cases row with
    | nil => exact absurd rfl present
    | cons op row =>
      cases spaced with
      | cons blank later =>
        have operator : Lexeme.isOperator op = true := operators op List.mem_cons_self
        intro c first
        rw [List.append_assoc, skipBlanks_append blank, List.append_assoc, List.singleton_append,
          skipBlanks_cons (Lexeme.isBlank_of_isOperator operator)] at first
        cases first
        rw [operator, Bool.true_or]

/-- Rows and operands that were scanned, side by side with those that were written. -/
def Scanned (written : List (List Char × Operand)) (found : List (List Char × Clause)) : Prop :=
  List.Forall₂ (fun operand clause => operand.1 = clause.1 ∧ clause.2.IsArithmetic ∧
    clause.2.amount = numbers.ofOperand operand.2) written found

/-- Whether all operands behind the first one can be scanned with a number of levels. -/
def JoinedFit (levels : Nat) (rest : List (List Char × Operand)) : Prop :=
  ∀ joined ∈ rest, joined.2.IsMeaningful ∧ joined.2.depth ≤ levels

/-- If every row of operators has a meaning, scanned operands can be joined, and
they amount to what was written. -/
theorem Scanned.joined {written : List (List Char × Operand)} {found : List (List Char × Clause)}
    (scanned : Scanned written found)
    (meaningful : ∀ joined ∈ written, (meaning? joined.1).isSome = true) :
    ∃ clauses, Run.joined found = some clauses ∧
      (∀ joined ∈ clauses, joined.2.IsArithmetic) ∧
      joinedAmounts clauses = numbers.ofJoined written := by
  induction scanned with
  | nil => exact ⟨[], rfl, by simp, rfl⟩
  | cons first _ ih =>
    rename_i operand clause written found _
    obtain ⟨row, next⟩ := operand
    obtain ⟨_, clause⟩ := clause
    obtain ⟨rfl, arithmetic, amount⟩ := first
    obtain ⟨clauses, joined, others, amounts⟩ :=
      ih fun joined member => meaningful joined (List.mem_cons_of_mem _ member)
    obtain ⟨⟨op, negative⟩, meaning⟩ := Option.isSome_iff_exists.1 (meaningful _ List.mem_cons_self)
    refine ⟨(op, clause.signed negative) :: clauses, ?_, ?_, ?_⟩
    · simp only at meaning
      simp [Run.joined, reduceRun_eq_meaning?, meaning, joined]
    · intro joined member
      rcases List.mem_cons.1 member with rfl | member
      · exact Clause.isArithmetic_signed negative arithmetic
      · exact others joined member
    · simp only at meaning amount
      simp only [joinedAmounts, Clause.amount_signed, amount, amounts, Carrier.ofJoined, meaning]
      cases numbers.ofOperand next <;> rfl

/-- If some row of operators has no meaning, scanned operands cannot be joined. -/
theorem Scanned.not_joined {written : List (List Char × Operand)}
    {found : List (List Char × Clause)} (scanned : Scanned written found)
    (meaningless : ∃ joined ∈ written, meaning? joined.1 = none) : Run.joined found = none := by
  induction scanned with
  | nil =>
    obtain ⟨joined, member, _⟩ := meaningless
    cases member
  | cons first _ ih =>
    rename_i operand clause written found _
    obtain ⟨row, next⟩ := operand
    obtain ⟨_, clause⟩ := clause
    obtain ⟨rfl, _⟩ := first
    obtain ⟨joined, member, none⟩ := meaningless
    simp only [Run.joined, reduceRun_eq_meaning?]
    rcases List.mem_cons.1 member with rfl | member
    · simp only at none
      simp [none]
    · rw [ih ⟨joined, member, none⟩]
      cases meaning? row <;> rfl

/-- A literal is found as its number. -/
theorem literal_found (source : Source) (levels : Nat) {digits text rest : List Char}
    (shape : (Operand.literal digits).HasShape)
    (spaced : Spaced (Operand.literal digits).tokens text) (ends : EndsClause rest) :
    ∃ raw, Finds (source.clause (source.nested levels) (text ++ rest))
      (.numeric (.int (natOfDigits digits)) none raw) rest := by
  obtain ⟨gap, blank, rfl⟩ := spaced.singleton
  obtain ⟨present, decimal⟩ := shape
  cases digits with
  | nil => exact absurd rfl present
  | cons c more =>
    have first := decimal c List.mem_cons_self
    have visible := visible_of_beginsOperand (c := c) (by rw [beginsOperand, first, Bool.or_true])
    have begun : skipBlanks (gap ++ c :: more ++ rest) = c :: (more ++ rest) := by
      rw [List.append_assoc, skipBlanks_append blank, List.cons_append, skipBlanks_cons visible.1]
    have read : Lexeme.splitNumber (c :: (more ++ rest)) = (c :: more, rest) :=
      Lexeme.splitNumber_append decimal fun d follows =>
        ⟨isDigit_of_isBoundary (ends.endsLexeme d follows),
          ne_of_isBoundary (ends.endsLexeme d follows) (by decide)⟩
    have found := source.numberClause_finds_numeric (source.nested levels) first read
      (fun d follows => isDieSign_of_isBoundary (ends.endsLexeme d follows))
      (Lexeme.splitFlavor_of_endsClause ends)
    rw [Lexeme.numberValue_of_digits decimal] at found
    exact ⟨_, source.clause_finds begun found⟩

/-- The text of an expression in brackets, taken apart. -/
theorem Spaced.group {inner : Expression} {text : List Char}
    (spaced : Spaced (Operand.group inner).tokens text) :
    ∃ gap inside gap', text = gap ++ '(' :: (inside ++ (gap' ++ [')'])) ∧
      (∀ c ∈ gap, isBlank c = true) ∧ Spaced inner.tokens inside ∧
      (∀ c ∈ gap', isBlank c = true) := by
  cases spaced with
  | cons blank later =>
    rename_i gap others
    obtain ⟨inside, closing, rfl, written, last⟩ := later.append
    obtain ⟨gap', blank', rfl⟩ := last.singleton
    exact ⟨gap, inside, gap', rfl, blank, written, blank'⟩

theorem endsExpression_closing {gap : List Char} (blank : ∀ c ∈ gap, isBlank c = true)
    (rest : List Char) : EndsExpression (gap ++ ')' :: rest) := by
  have visible : isBlank ')' = false := by decide
  intro c first
  rw [skipBlanks_append blank, skipBlanks_cons visible] at first
  cases first
  rfl

theorem joinedFit_of_cons {levels : Nat} {row : List Char} {next : Operand}
    {rest : List (List Char × Operand)} (fit : JoinedFit levels ((row, next) :: rest)) :
    (next.IsMeaningful ∧ next.depth ≤ levels) ∧ JoinedFit levels rest :=
  ⟨fit _ List.mem_cons_self, fun joined member => fit joined (List.mem_cons_of_mem _ member)⟩

theorem joinedAreMeaningful_iff (rest : List (List Char × Operand)) :
    JoinedAreMeaningful rest ↔
      ∀ joined ∈ rest, (meaning? joined.1).isSome = true ∧ joined.2.IsMeaningful := by
  induction rest with
  | nil => simp [JoinedAreMeaningful]
  | cons joined rest ih =>
    obtain ⟨row, next⟩ := joined
    simp only [JoinedAreMeaningful, ih, List.forall_mem_cons, and_assoc]

theorem joinedDepth_le_iff (rest : List (List Char × Operand)) (levels : Nat) :
    joinedDepth rest ≤ levels ↔ ∀ joined ∈ rest, joined.2.depth ≤ levels := by
  induction rest with
  | nil => simp [joinedDepth]
  | cons joined rest ih =>
    obtain ⟨row, next⟩ := joined
    simp only [joinedDepth, Nat.max_le, ih, List.forall_mem_cons]

/-- Signs before an operand are read together with the blanks around them. -/
theorem splitSigns_of_signs {signs text : List Char} (plain : ∀ c ∈ signs, isSign c = true)
    (spaced : Spaced (marks signs) text) {gap bare : List Char}
    (blank : ∀ c ∈ gap, isBlank c = true) (opens : Opens bare) :
    Lexeme.splitSigns (text ++ (gap ++ bare)) = (signs, bare) := by
  have kept := spaced.filter_marks (p := isSign) plain fun c => Lexeme.isSign_of_isBlank
  have dropped : gap.filter isSign = [] := by
    rw [List.filter_eq_nil_iff]
    intro c member
    rw [Lexeme.isSign_of_isBlank (blank c member)]
    exact Bool.false_ne_true
  have blankOrSign : ∀ c ∈ text ++ gap, isBlank c = true ∨ isSign c = true := by
    intro c member
    rcases List.mem_append.1 member with inText | inGap
    · exact (spaced.mem_marks c inText).imp_right (plain c)
    · exact .inl (blank c inGap)
  have read := Lexeme.splitSigns_append blankOrSign opens.visible
  rwa [List.filter_append, kept, dropped, List.append_nil, List.append_assoc] at read

mutual

/-- An operand whose rows of operators all have a meaning is found. -/
theorem operand_found (source : Source) : (operand : Operand) → operand.HasShape →
    operand.IsMeaningful → (levels : Nat) → operand.depth ≤ levels → (text : List Char) →
    Spaced operand.tokens text → (rest : List Char) → EndsClause rest →
    ∃ clause, Finds (source.clause (source.nested levels) (text ++ rest)) clause rest ∧
      clause.IsArithmetic ∧ clause.amount = numbers.ofOperand operand
  | .literal digits, shape, _, levels, _, text, spaced, rest, ends => by
    obtain ⟨raw, found⟩ := literal_found source levels shape spaced ends
    exact ⟨_, found, trivial, rfl⟩
  | .group inner, shape, meaningful, levels, deep, text, spaced, rest, ends => by
    cases levels with
    | zero => exact absurd deep (Nat.not_succ_le_zero _)
    | succ levels =>
      obtain ⟨gap, inside, gap', rfl, blank, written, blank'⟩ := spaced.group
      have visible : isBlank '(' = false := by decide
      obtain ⟨tree, found, arithmetic, amount⟩ := expression_found source inner shape meaningful
        levels (Nat.le_of_succ_le_succ deep) inside written (gap' ++ ')' :: rest)
        (endsExpression_closing blank' rest)
      have closed : skipBlanks (gap' ++ ')' :: rest) = ')' :: rest := by
        rw [skipBlanks_append blank', skipBlanks_cons (by decide)]
      have bracketed := source.bracketed_finds found closed
      have group := source.bracketClause_finds_group
        bracketed (fun c follows => isDieSign_of_isBoundary (ends.endsLexeme c follows))
        (Lexeme.splitFlavor_of_endsClause ends)
      have begun : skipBlanks (gap ++ '(' :: (inside ++ (gap' ++ [')'])) ++ rest) =
          '(' :: (inside ++ (gap' ++ ')' :: rest)) := by
        rw [List.append_assoc, skipBlanks_append blank, List.cons_append, skipBlanks_cons visible]
        simp
      exact ⟨_, source.clause_finds begun group, arithmetic, amount⟩

/-- An expression whose rows of operators all have a meaning is found. -/
theorem expression_found (source : Source) : (expression : Expression) → expression.HasShape →
    expression.IsMeaningful → (levels : Nat) → expression.depth ≤ levels → (text : List Char) →
    Spaced expression.tokens text → (rest : List Char) → EndsExpression rest →
    ∃ tree, Finds (source.expressionAt levels (text ++ rest)) tree rest ∧
      TreeIsArithmetic tree ∧ treeAmount tree = numbers.ofExpression expression
  | .run signs first more, shape, meaningful, levels, deep, text, spaced, rest, ends => by
    obtain ⟨characters, firstShape, moreShape⟩ := shape
    obtain ⟨plain, firstMeaningful, moreMeaningful⟩ := meaningful
    have depths : first.depth ≤ levels ∧ joinedDepth more ≤ levels := Nat.max_le.1 deep
    rw [joinedAreMeaningful_iff] at moreMeaningful
    obtain ⟨lead, others, rfl, signText, others_spaced⟩ := spaced.append
    obtain ⟨firstText, moreText, rfl, firstSpaced, moreSpaced⟩ := others_spaced.append
    obtain ⟨gap, bare, rfl, blank, opens, bareSpaced⟩ := first.opens firstShape firstSpaced
    -- the parts, from the left to the right
    have opening := splitSigns_of_signs plain signText blank (opens.append (moreText ++ rest))
    obtain ⟨head, headFound, headArithmetic, headAmount⟩ := operand_found source first firstShape
      firstMeaningful levels depths.1 bare bareSpaced (moreText ++ rest)
      (joined_endsClause moreShape moreSpaced ends)
    obtain ⟨found, moreFound, scanned⟩ := joined_found source more moreShape levels
      (fun joined member => ⟨(moreMeaningful joined member).2,
        (joinedDepth_le_iff more levels).1 depths.2 joined member⟩) moreText moreSpaced rest ends
    -- the tree that they make
    obtain ⟨clauses, joined, arithmetic, amounts⟩ :=
      scanned.joined fun joined member => (moreMeaningful joined member).1
    have tree := Run.tree_of_joined ⟨signs, head, found⟩ joined
    have whole : lead ++ (gap ++ bare ++ moreText) ++ rest =
        lead ++ (gap ++ (bare ++ (moreText ++ rest))) := by simp
    have reading := source.expression_finds opening headFound moreFound tree
    rw [← source.expressionAt_eq, ← whole] at reading
    refine ⟨_, reading, ?_, ?_⟩
    · rw [treeIsArithmetic_iff, Tree.row_ofRun]
      exact ⟨Clause.isArithmetic_signed _ headArithmetic, arithmetic⟩
    · rw [treeAmount, rowAmounts_eq, Tree.row_ofRun]
      simp only [Clause.amount_signed, headAmount, amounts, negates_eq_isOdd, Carrier.ofExpression]
      cases numbers.ofOperand first with
      | none => rfl
      | some value => cases numbers.ofJoined more <;> rfl

/-- The operands behind the first one are found if all of them can be scanned. -/
theorem joined_found (source : Source) : (more : List (List Char × Operand)) →
    JoinedHaveShape more → (levels : Nat) → JoinedFit levels more → (text : List Char) →
    Spaced (joinedTokens more) text → (rest : List Char) → EndsExpression rest →
    ∃ found, Reaches (Scan.following (source.clause (source.nested levels)) (text ++ rest)) found
      rest ∧ Scanned more found
  | [], _, levels, _, text, spaced, rest, ends => by
    cases spaced
    refine ⟨[], Scan.following_of_no_operators (Lexeme.operators_of_not_operator ?_), .nil⟩
    intro c first
    exact Lexeme.isOperator_of_isClosing (ends c first)
  | (row, next) :: more, shape, levels, fit, text, spaced, rest, ends => by
    obtain ⟨⟨present, operators⟩, nextShape, moreShape⟩ := shape
    obtain ⟨⟨nextMeaningful, nextDeep⟩, moreFit⟩ := joinedFit_of_cons fit
    obtain ⟨rowText, others, rfl, rowSpaced, others_spaced⟩ := spaced.append
    obtain ⟨nextText, moreText, rfl, nextSpaced, moreSpaced⟩ := others_spaced.append
    obtain ⟨gap, bare, rfl, blank, opens, _⟩ := next.opens nextShape nextSpaced
    have read := operators_of_row present operators rowSpaced blank
      (opens.append (moreText ++ rest))
    obtain ⟨clause, found, arithmetic, amount⟩ := operand_found source next nextShape
      nextMeaningful levels nextDeep (gap ++ bare) nextSpaced (moreText ++ rest)
      (joined_endsClause moreShape moreSpaced ends)
    obtain ⟨clauses, moreFound, scanned⟩ := joined_found source more moreShape levels moreFit
      moreText moreSpaced rest ends
    have whole : rowText ++ (gap ++ bare ++ moreText) ++ rest =
        rowText ++ (gap ++ (bare ++ (moreText ++ rest))) := by simp
    rw [List.append_assoc] at found
    refine ⟨(row, clause) :: clauses, ?_, .cons ⟨rfl, arithmetic, amount⟩ scanned⟩
    rw [whole]
    exact Scan.following_of_operators read found moreFound

end

/-- Where another operator than a sign stands before the first operand, the
scanner comes to a stop at it. -/
theorem splitSigns_of_not_signs {signs text : List Char}
    (operators : ∀ c ∈ signs, (Operator.ofChar? c).isSome = true)
    (other : ∃ c ∈ signs, isSign c = false) (spaced : Spaced (marks signs) text)
    (after : List Char) :
    ∃ c place, Lexeme.isOperator c = true ∧ (Lexeme.splitSigns (text ++ after)).2 = c :: place := by
  induction signs generalizing text with
  | nil =>
    obtain ⟨c, member, _⟩ := other
    cases member
  | cons d signs ih =>
    cases spaced with
    | cons blank later =>
      rename_i gap others
      have operator : Lexeme.isOperator d = true := operators d List.mem_cons_self
      have skipped : ∀ place, Lexeme.splitSigns (gap ++ place) = Lexeme.splitSigns place := by
        intro place
        clear later
        induction gap with
        | nil => rfl
        | cons e gap gap_ih =>
          have here := blank e List.mem_cons_self
          rw [List.cons_append, Lexeme.splitSigns, if_neg (by simp [Lexeme.isSign_of_isBlank here]),
            if_pos here]
          exact gap_ih fun c member => blank c (List.mem_cons_of_mem e member)
      rw [List.append_assoc, skipped, List.append_assoc, List.singleton_append, Lexeme.splitSigns]
      cases sign : isSign d with
      | true =>
        rw [if_pos rfl]
        refine ih (fun c member => operators c (List.mem_cons_of_mem d member)) ?_ later
        obtain ⟨c, member, plain⟩ := other
        rcases List.mem_cons.1 member with rfl | member
        · rw [sign] at plain
          cases plain
        · exact ⟨c, member, plain⟩
      | false =>
        rw [if_neg Bool.false_ne_true, if_neg (by simp [Lexeme.isBlank_of_isOperator operator])]
        exact ⟨d, others ++ after, operator, rfl⟩

mutual

/-- An operand is refused if some row of operators in it has no meaning or it
has too many brackets. -/
theorem operand_refused (source : Source) : (operand : Operand) → operand.HasShape →
    (levels : Nat) → ¬(operand.IsMeaningful ∧ operand.depth ≤ levels) → (text : List Char) →
    Spaced operand.tokens text → (rest : List Char) → EndsClause rest →
    IsRefused (source.clause (source.nested levels) (text ++ rest))
  | .literal digits, _, levels, bad, _, _, _, _ => by
    exact absurd ⟨trivial, Nat.zero_le levels⟩ bad
  | .group inner, shape, levels, bad, text, spaced, rest, _ => by
    obtain ⟨gap, inside, gap', rfl, blank, written, blank'⟩ := spaced.group
    refine source.clause_refused fun c more begun => ?_
    have first : skipBlanks (gap ++ '(' :: (inside ++ (gap' ++ [')'])) ++ rest) =
        '(' :: (inside ++ (gap' ++ ')' :: rest)) := by
      rw [List.append_assoc, skipBlanks_append blank, List.cons_append, skipBlanks_cons (by decide)]
      simp
    rw [first] at begun
    cases begun
    refine source.clauseAt_refused_bracket ?_
    cases levels with
    | zero => exact source.bracketed_refused_depth _ _
    | succ levels =>
      have deeper : ¬(inner.IsMeaningful ∧ inner.depth ≤ levels) := by
        rintro ⟨meaningful, deep⟩
        exact bad ⟨meaningful, Nat.succ_le_succ deep⟩
      exact source.bracketed_refused (expression_refused source inner shape levels deeper inside
        written (gap' ++ ')' :: rest) (endsExpression_closing blank' rest)) '('

/-- An expression is refused if some row of operators in it has no meaning or it
has too many brackets. -/
theorem expression_refused (source : Source) : (expression : Expression) → expression.HasShape →
    (levels : Nat) → ¬(expression.IsMeaningful ∧ expression.depth ≤ levels) →
    (text : List Char) → Spaced expression.tokens text → (rest : List Char) →
    EndsExpression rest → IsRefused (source.expressionAt levels (text ++ rest))
  | .run signs first more, shape, levels, bad, text, spaced, rest, ends => by
    obtain ⟨characters, firstShape, moreShape⟩ := shape
    obtain ⟨lead, others, rfl, signText, others_spaced⟩ := spaced.append
    obtain ⟨firstText, moreText, rfl, firstSpaced, moreSpaced⟩ := others_spaced.append
    obtain ⟨gap, bare, rfl, blank, opens, bareSpaced⟩ := first.opens firstShape firstSpaced
    have whole : lead ++ (gap ++ bare ++ moreText) ++ rest =
        lead ++ (gap ++ (bare ++ (moreText ++ rest))) := by simp
    rw [source.expressionAt_eq, whole]
    -- the first thing that is wrong, from the left to the right
    by_cases plain : ∀ c ∈ signs, isSign c = true
    swap
    · have other : ∃ c ∈ signs, isSign c = false := by simpa using plain
      obtain ⟨c, place, operator, stopped⟩ :=
        splitSigns_of_not_signs characters other signText (gap ++ (bare ++ (moreText ++ rest)))
      refine source.expression_refused ?_
      rw [stopped]
      refine source.clause_refused fun d more begun => ?_
      rw [skipBlanks_cons (Lexeme.isBlank_of_isOperator operator)] at begun
      cases begun
      exact source.clauseAt_refused_operator operator place
    have opening := splitSigns_of_signs plain signText blank (opens.append (moreText ++ rest))
    have ended := joined_endsClause moreShape moreSpaced ends
    by_cases firstFit : first.IsMeaningful ∧ first.depth ≤ levels
    swap
    · refine source.expression_refused ?_
      rw [opening]
      exact operand_refused source first firstShape levels firstFit bare bareSpaced _ ended
    obtain ⟨head, headFound, _⟩ := operand_found source first firstShape firstFit.1 levels
      firstFit.2 bare bareSpaced (moreText ++ rest) ended
    have headThere : Finds (source.clause (source.nested levels)
        (Lexeme.splitSigns (lead ++ (gap ++ (bare ++ (moreText ++ rest))))).2) head
        (moreText ++ rest) := by
      rw [opening]
      exact headFound
    by_cases fit : JoinedFit levels more
    swap
    · exact source.expression_refused_later headThere (joined_refused source more moreShape levels
        fit moreText moreSpaced rest ends)
    obtain ⟨found, moreFound, scanned⟩ :=
      joined_found source more moreShape levels fit moreText moreSpaced rest ends
    have meaningless : ∃ joined ∈ more, meaning? joined.1 = none := by
      by_contra none
      have meaningful : ∀ joined ∈ more, (meaning? joined.1).isSome = true := by
        intro joined member
        refine Option.isSome_iff_ne_none.2 fun without => none ⟨joined, member, without⟩
      refine bad ⟨⟨plain, firstFit.1, ?_⟩, Nat.max_le.2 ⟨firstFit.2, ?_⟩⟩
      · exact (joinedAreMeaningful_iff more).2 fun joined member =>
          ⟨meaningful joined member, (fit joined member).1⟩
      · exact (joinedDepth_le_iff more levels).2 fun joined member => (fit joined member).2
    obtain ⟨row, _, _, _, stuck⟩ := Run.tree_of_not_joined
      ⟨(Lexeme.splitSigns (lead ++ (gap ++ (bare ++ (moreText ++ rest))))).1, head, found⟩
      (scanned.not_joined meaningless)
    exact source.expression_refused_row headThere moreFound stuck

/-- The operands behind the first one are refused if one of them cannot be scanned. -/
theorem joined_refused (source : Source) : (more : List (List Char × Operand)) →
    JoinedHaveShape more → (levels : Nat) → ¬JoinedFit levels more → (text : List Char) →
    Spaced (joinedTokens more) text → (rest : List Char) → EndsExpression rest →
    IsRefused (Scan.following (source.clause (source.nested levels)) (text ++ rest))
  | [], _, levels, bad, _, _, _, _ => by
    refine absurd ?_ bad
    intro joined member
    cases member
  | (row, next) :: more, shape, levels, bad, text, spaced, rest, ends => by
    obtain ⟨⟨present, operators⟩, nextShape, moreShape⟩ := shape
    obtain ⟨rowText, others, rfl, rowSpaced, others_spaced⟩ := spaced.append
    obtain ⟨nextText, moreText, rfl, nextSpaced, moreSpaced⟩ := others_spaced.append
    obtain ⟨gap, bare, rfl, blank, opens, _⟩ := next.opens nextShape nextSpaced
    have whole : rowText ++ (gap ++ bare ++ moreText) ++ rest =
        rowText ++ (gap ++ (bare ++ (moreText ++ rest))) := by simp
    have read := operators_of_row present operators rowSpaced blank
      (opens.append (moreText ++ rest))
    have ended := joined_endsClause moreShape moreSpaced ends
    rw [whole]
    by_cases nextFit : next.IsMeaningful ∧ next.depth ≤ levels
    swap
    · refine Scan.following_refused read ?_
      have refused := operand_refused source next nextShape levels nextFit (gap ++ bare) nextSpaced
        (moreText ++ rest) ended
      rwa [List.append_assoc] at refused
    obtain ⟨clause, found, _⟩ := operand_found source next nextShape nextFit.1 levels nextFit.2
      (gap ++ bare) nextSpaced (moreText ++ rest) ended
    rw [List.append_assoc] at found
    have moreFit : ¬JoinedFit levels more := by
      intro fit
      refine bad fun joined member => ?_
      rcases List.mem_cons.1 member with rfl | member
      · exact nextFit
      · exact fit joined member
    exact Scan.following_refused_later read found
      (joined_refused source more moreShape levels moreFit moreText moreSpaced rest ends)

end

theorem endsExpression_blanks {gap : List Char} (blank : ∀ c ∈ gap, isBlank c = true) :
    EndsExpression gap := by
  have nothing : skipBlanks gap = [] := by
    have skipped := skipBlanks_append blank []
    rwa [List.append_nil] at skipped
  intro c first
  rw [nothing] at first
  cases first

/-- A formula of arithmetic in which every row of operators has a meaning and not
too many brackets are open is parsed as a tree with its value. -/
theorem Expression.parse_found {expression : Expression} (shape : expression.HasShape)
    (meaningful : expression.IsMeaningful) {formula : String} (writes : expression.Writes formula)
    (source : Source) (whole : source.text = formula.toList)
    (deep : expression.depth ≤ source.maxNesting) :
    ∃ tree, source.parse = .ok tree ∧ TreeIsArithmetic tree ∧
      treeAmount tree = expression.value := by
  obtain ⟨text, gap, spaced, blank, written⟩ := writes
  obtain ⟨tree, found, arithmetic, amount⟩ := expression_found source expression shape
    meaningful source.maxNesting deep text spaced gap (endsExpression_blanks blank)
  have nothing : skipBlanks gap = [] := by
    have skipped := skipBlanks_append blank []
    rwa [List.append_nil] at skipped
  rw [← written, ← whole] at found
  exact ⟨tree, source.parse_of_finds found nothing, arithmetic, amount⟩

/-- A formula of the same shape is refused if some row of operators has no meaning. -/
theorem Expression.parse_refused {expression : Expression} (shape : expression.HasShape)
    (meaningless : ¬expression.IsMeaningful) {formula : String} (writes : expression.Writes formula)
    (source : Source) (whole : source.text = formula.toList) : IsRefused source.parse := by
  obtain ⟨text, gap, spaced, blank, written⟩ := writes
  have refused := expression_refused source expression shape source.maxNesting
    (fun good => meaningless good.1) text spaced gap (endsExpression_blanks blank)
  rw [← written, ← whole] at refused
  exact source.parse_refused refused

end Arithmetic
end DiceNotation
