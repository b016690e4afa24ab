import DiceNotation.Proofs.Text.Boundary
import Mathlib.Data.List.TakeWhile

namespace DiceNotation

open Text

/-!
# Reading lexemes back

What each reader of lexemes makes of a text that begins with such a lexeme.
The longest match is not cut short and does not run on, because the text behind
it begins with a character that ends lexemes.  After a clause there is even an
operator, a closing mark or nothing, perhaps behind blanks, so that the clause
has no flavor but its own.
-/

namespace Text

/-- The text is empty or begins with a character that ends lexemes. -/
def EndsLexeme (text : List Char) : Prop := ∀ c, text.head? = some c → isBoundary c = true

/-- Behind its blanks the text is empty or goes on with an operator or a closing mark. -/
def EndsClause (text : List Char) : Prop :=
  ∀ c, (skipBlanks text).head? = some c → (Lexeme.isOperator c || isClosing c) = true

/-- Behind its blanks the text is empty or goes on with a closing mark. -/
def EndsExpression (text : List Char) : Prop :=
  ∀ c, (skipBlanks text).head? = some c → isClosing c = true

theorem skipBlanks_cons_blank {c : Char} (blank : isBlank c = true) (rest : List Char) :
    skipBlanks (c :: rest) = skipBlanks rest := by
  simp [skipBlanks, blank]

theorem skipBlanks_cons {c : Char} (visible : isBlank c = false) (rest : List Char) :
    skipBlanks (c :: rest) = c :: rest := by
  simp [skipBlanks, visible]

theorem skipBlanks_append {gap : List Char} (blank : ∀ c ∈ gap, isBlank c = true)
    (rest : List Char) : skipBlanks (gap ++ rest) = skipBlanks rest :=
  List.dropWhile_append_of_pos blank

theorem endsLexeme_nil : EndsLexeme [] := by
  intro c first
  cases first

theorem endsLexeme_cons {c : Char} (boundary : isBoundary c = true) (rest : List Char) :
    EndsLexeme (c :: rest) := by
  intro d first
  cases first
  exact boundary

theorem EndsExpression.endsClause {text : List Char} (ends : EndsExpression text) :
    EndsClause text := by
  intro c first
  rw [ends c first, Bool.or_true]

theorem EndsClause.endsLexeme {text : List Char} (ends : EndsClause text) : EndsLexeme text := by
  cases text with
  | nil => exact endsLexeme_nil
  | cons c rest =>
    refine endsLexeme_cons ?_ rest
    cases blank : isBlank c with
    | true => exact isBoundary_of_isBlank blank
    | false =>
      have closed := ends c (by rw [skipBlanks_cons blank]; rfl)
      rcases Bool.or_eq_true_iff.1 closed with operator | closing
      · exact isBoundary_of_isOperator operator
      · exact isBoundary_of_isClosing closing

end Text

namespace Lexeme

/-! ## Signs and rows of operators -/

theorem isOperator_of_isSign {c : Char} (sign : isSign c = true) : isOperator c = true := by
  rcases Bool.or_eq_true_iff.1 sign with plus | minus
  · rw [beq_iff_eq.1 plus]
    rfl
  · rw [beq_iff_eq.1 minus]
    rfl

theorem isBlank_of_isOperator {c : Char} (operator : isOperator c = true) : isBlank c = false := by
  have visible : ∀ d ∈ ['+', '-', '*', '/', '%'], isBlank d = false :=
    forall_of_all (by decide)
  exact visible c (mem_boundaries_of_isOperator operator)

theorem isSign_of_isBlank {c : Char} (blank : isBlank c = true) : isSign c = false := by
  cases sign : isSign c with
  | false => rfl
  | true =>
    rw [isBlank_of_isOperator (isOperator_of_isSign sign)] at blank
    cases blank

theorem isOperator_of_isBlank {c : Char} (blank : isBlank c = true) : isOperator c = false := by
  cases operator : isOperator c with
  | false => rfl
  | true =>
    rw [isBlank_of_isOperator operator] at blank
    cases blank

theorem isOperator_of_isClosing {c : Char} (closing : isClosing c = true) : isOperator c = false := by
  simp only [isClosing, Bool.or_eq_true, beq_iff_eq] at closing
  rcases closing with (rfl | rfl) | rfl <;> rfl

/-- Leading signs with blanks anywhere among them are read up to the first
character that is neither. -/
theorem splitSigns_append {lead : List Char} (spaced : ∀ c ∈ lead, isBlank c = true ∨ isSign c = true)
    {rest : List Char} (stops : ∀ c, rest.head? = some c → isBlank c = false ∧ isSign c = false) :
    splitSigns (lead ++ rest) = (lead.filter isSign, rest) := by
  induction lead with
  | nil =>
    cases rest with
    | nil => rfl
    | cons c more =>
      obtain ⟨visible, operand⟩ := stops c rfl
      simp [splitSigns, visible, operand]
  | cons c more ih =>
    have earlier := ih fun d member => spaced d (List.mem_cons_of_mem c member)
    rw [List.cons_append, splitSigns, earlier]
    rcases spaced c List.mem_cons_self with blank | sign
    · simp [isSign_of_isBlank blank, blank]
    · simp [sign]

theorem splitOperators_cons_operator {c : Char} (operator : isOperator c = true)
    (place rest : List Char) : splitOperators place (c :: rest) =
      (c :: (splitOperators rest rest).1, (splitOperators rest rest).2) := by
  rw [splitOperators, if_pos operator]

theorem splitOperators_cons_blank {c : Char} (blank : isBlank c = true)
    (place rest : List Char) : splitOperators place (c :: rest) = splitOperators place rest := by
  rw [splitOperators, if_neg (by simp [isOperator_of_isBlank blank]), if_pos blank]

/-- Without an operator in front nothing is read. -/
theorem splitOperators_of_not_operator {text : List Char}
    (stops : ∀ c, (skipBlanks text).head? = some c → isOperator c = false) (place : List Char) :
    splitOperators place text = ([], place) := by
  induction text with
  | nil => rfl
  | cons c rest ih =>
    cases blank : isBlank c with
    | true =>
      rw [skipBlanks_cons_blank blank] at stops
      rw [splitOperators_cons_blank blank, ih stops]
    | false =>
      rw [skipBlanks_cons blank] at stops
      simp [splitOperators, blank, stops c rfl]

/-- Operators with blanks anywhere among and before them are read up to the last one. -/
theorem splitOperators_append {row : List Char}
    (spaced : ∀ c ∈ row, isBlank c = true ∨ isOperator c = true)
    {last : Char} (ended : row.getLast? = some last) (operator : isOperator last = true)
    {rest : List Char} (stops : ∀ c, (skipBlanks rest).head? = some c → isOperator c = false)
    (place : List Char) : splitOperators place (row ++ rest) = (row.filter isOperator, rest) := by
  induction row generalizing place with
  | nil => cases ended
  | cons c more ih =>
    have later : ∀ d ∈ more, isBlank d = true ∨ isOperator d = true :=
      fun d member => spaced d (List.mem_cons_of_mem c member)
    cases more with
    | nil =>
      obtain rfl : c = last := by simpa using ended
      simp [splitOperators, operator, splitOperators_of_not_operator stops]
    | cons d others =>
      rw [List.getLast?_cons_cons] at ended
      have tail := ih later ended
      rcases spaced c List.mem_cons_self with blank | first
      · rw [List.filter_cons_of_neg (by simp [isOperator_of_isBlank blank]), ← tail place]
        exact splitOperators_cons_blank blank place (d :: others ++ rest)
      · rw [List.filter_cons_of_pos first, List.cons_append,
          splitOperators_cons_operator first, tail]

theorem operators_of_not_operator {text : List Char}
    (stops : ∀ c, (skipBlanks text).head? = some c → isOperator c = false) :
    operators text = none := by
  simp [operators, splitOperators_of_not_operator stops]

/-- A row of operators with blanks among and before them. -/
theorem operators_append {row : List Char}
    (spaced : ∀ c ∈ row, isBlank c = true ∨ isOperator c = true)
    {last : Char} (ended : row.getLast? = some last) (operator : isOperator last = true)
    {rest : List Char} (stops : ∀ c, (skipBlanks rest).head? = some c → isOperator c = false) :
    ∃ shorter, operators (row ++ rest) = some ⟨row.filter isOperator, rest, shorter⟩ := by
  have split := splitOperators_append spaced ended operator stops (row ++ rest)
  have taken : (splitOperators (row ++ rest) (row ++ rest)).1 ≠ [] := by
    rw [split]
    exact List.ne_nil_of_mem
      (List.mem_filter.2 ⟨List.mem_of_mem_getLast? (Option.mem_def.2 ended), operator⟩)
  refine ⟨by
    have positive := List.length_pos_of_mem (List.mem_of_mem_getLast? (Option.mem_def.2 ended))
    rw [List.length_append]
    omega, ?_⟩
  unfold operators
  rw [dif_neg taken]
  simp only [split]

/-! ## Flavors -/

/-- A flavor as it is written behind a clause. -/
def flavorText : Option String → List Char
  | none => []
  | some flavor => '[' :: flavor.toList ++ [']']

/-- A flavor that can be read back: it holds no closing bracket. -/
def IsFlavor (flavor : Option String) : Prop := ∀ text, flavor = some text → ']' ∉ text.toList

theorem splitFlavor_of_endsClause {rest : List Char} (ends : EndsClause rest) :
    splitFlavor rest = (none, rest) := by
  unfold splitFlavor
  split
  · rename_i more opened
    have closed := ends '[' (by rw [opened]; rfl)
    cases closed
  · rfl

/-- A written flavor is read back. -/
theorem splitFlavor_append {flavor : Option String} (legible : IsFlavor flavor)
    {rest : List Char} (ends : EndsClause rest) :
    splitFlavor (flavorText flavor ++ rest) = (flavor, rest) := by
  cases flavor with
  | none => exact splitFlavor_of_endsClause ends
  | some text =>
    have inside : ∀ c ∈ text.toList, (c != ']') = true := by
      intro c member
      refine bne_iff_ne.2 ?_
      rintro rfl
      exact legible text rfl member
    have opened : skipBlanks ('[' :: (text.toList ++ ']' :: rest)) = '[' :: (text.toList ++ ']' :: rest) :=
      skipBlanks_cons (by decide) _
    unfold splitFlavor
    simp only [flavorText, List.cons_append, List.append_assoc, List.nil_append, opened,
      List.takeWhile_append_of_pos inside, List.dropWhile_append_of_pos inside]
    simp

theorem endsLexeme_flavorText (flavor : Option String) {rest : List Char} (ends : EndsClause rest) :
    EndsLexeme (flavorText flavor ++ rest) := by
  cases flavor with
  | none => exact ends.endsLexeme
  | some text => exact endsLexeme_cons (by decide) _

/-! ## Numbers and words -/

theorem splitNumber_append {digits rest : List Char} (decimal : ∀ c ∈ digits, isDigit c = true)
    (ends : ∀ c, rest.head? = some c → isDigit c = false ∧ c ≠ '.') :
    splitNumber (digits ++ rest) = (digits, rest) := by
  have taken : (digits ++ rest).takeWhile isDigit = digits := by
    rw [List.takeWhile_append_of_pos decimal]
    cases rest with
    | nil => simp
    | cons c more => simp [(ends c rfl).1]
  have left : (digits ++ rest).dropWhile isDigit = rest := by
    rw [List.dropWhile_append_of_pos decimal]
    cases rest with
    | nil => rfl
    | cons c more => simp [(ends c rfl).1]
  unfold splitNumber
  simp only [taken, left]
  split
  · rename_i more
    exact absurd rfl (ends '.' rfl).2
  · rfl

/-- A number without a point denotes the integer of its digits. -/
theorem numberValue_of_digits {digits : List Char} (decimal : ∀ c ∈ digits, isDigit c = true) :
    numberValue digits = .int (natOfDigits digits) := by
  have pointless : digits.dropWhile (· != '.') = [] := by
    rw [List.dropWhile_eq_nil_iff]
    intro c member
    refine bne_iff_ne.2 ?_
    rintro rfl
    have none : isDigit '.' = false := by decide
    rw [decimal '.' member] at none
    cases none
  simp [numberValue, pointless]

theorem hasPoint_of_digits {digits : List Char} (decimal : ∀ c ∈ digits, isDigit c = true) :
    hasPoint digits = false := by
  rw [hasPoint, List.contains_eq_mem, decide_eq_false_iff_not]
  intro member
  have none : isDigit '.' = false := by decide
  rw [decimal '.' member] at none
  cases none

end Lexeme
end DiceNotation
