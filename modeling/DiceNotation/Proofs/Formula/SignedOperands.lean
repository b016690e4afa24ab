import DiceNotation.Proofs.Formula.Lexemes
import DiceNotation.Proofs.Formula.Polynomials
import DiceNotation.Proofs.Number.Decimals

namespace DiceNotation
namespace Arithmetic

/-!
# Rows as sums of products

The exact total of a row of sums, differences and products is found in one pass.  A difference
is the sum with the opposite operand, so each operand enters either as a further factor or as
a further summand with a sign of its own.  An operand that is written with a minus sign
changes the row of operators in front of it, and that row may then mean another operator.  The
operand enters all the same as the operand with its sign would behind the row as it was.
-/

/-- How an operand behind the first one enters the total of its row. -/
inductive Part where
  | factor (n : Int)
  | summand (n : Int)

/-- How an integer enters behind an operator, if the operator is exact. -/
def Part.ofJoined : Operator × Int → Part
  | (.add, n) => .summand n
  | (.sub, n) => .summand (-n)
  | (_, n) => .factor n

/-- The total of a row behind a sum and the product that is being built. -/
def weigh (sum product : Int) : List Part → Int
  | [] => sum + product
  | .factor n :: rest => weigh sum (product * n) rest
  | .summand n :: rest => weigh (sum + product) n rest

/-! ## One pass -/

/-- The product with the opposite of a first operand is the opposite of the product. -/
theorem product_neg {rest : List (Operator × Int)} (allExact : ∀ next ∈ rest, IsExact next.1)
    (first : Int) :
    integers.product (-first) (Carrier.summands rest).1 =
      (integers.product first (Carrier.summands rest).1).map (- ·) := by
  induction rest generalizing first with
  | nil => rfl
  | cons next rest ih =>
    obtain ⟨op, n⟩ := next
    have here := allExact (op, n) List.mem_cons_self
    have later := ih fun other member => allExact other (List.mem_cons_of_mem _ member)
    cases op with
    | add => rfl
    | sub => rfl
    | mul =>
      change integers.product (-first * n) (Carrier.summands rest).1 =
        (integers.product (first * n) (Carrier.summands rest).1).map (- ·)
      rw [Int.neg_mul, later]
    | div => exact absurd rfl here.1
    | rem => exact absurd rfl here.2

/-- What is left of a row is added to a sum, once the product that is being built is finished. -/
theorem sum_eq_weigh {rest : List (Operator × Int)} (allExact : ∀ next ∈ rest, IsExact next.1)
    (sum product : Int) :
    ((integers.product product (Carrier.summands rest).1).bind fun finished =>
        integers.sum (sum + finished) (Carrier.summands rest).2) =
      some (weigh sum product (rest.map Part.ofJoined)) := by
  induction rest generalizing sum product with
  | nil => rfl
  | cons next rest ih =>
    obtain ⟨op, n⟩ := next
    have here := allExact (op, n) List.mem_cons_self
    have others : ∀ next ∈ rest, IsExact next.1 :=
      fun other member => allExact other (List.mem_cons_of_mem _ member)
    cases op with
    | add =>
      change ((integers.product n (Carrier.summands rest).1).bind fun finished =>
        some (sum + product + finished)).bind _ = _
      rw [Option.bind_assoc]
      exact ih others (sum + product) n
    | sub =>
      change ((integers.product n (Carrier.summands rest).1).bind fun finished =>
        some (sum + product - finished)).bind _ = some (weigh (sum + product) (-n) _)
      rw [← ih others (sum + product) (-n), product_neg others, Option.bind_assoc,
        Option.bind_map]
      rfl
    | mul => exact ih others sum (product * n)
    | div => exact absurd rfl here.1
    | rem => exact absurd rfl here.2

/-- The exact total of a row depends only on how its operands enter. -/
theorem total_eq_weigh {rest : List (Operator × Int)} (allExact : ∀ next ∈ rest, IsExact next.1)
    (first : Int) :
    integers.total first rest = some (weigh 0 first (rest.map Part.ofJoined)) := by
  rw [← sum_eq_weigh allExact 0 first]
  simp only [Int.zero_add]
  rfl

/-! ## Signs of operands -/

/-- The sign that is written in front of an operand. -/
def signOf (negative : Bool) : List Char := if negative then ['-'] else []

theorem isSign_of_mem_signOf {negative : Bool} : ∀ c ∈ signOf negative, isSign c = true := by
  cases negative with
  | false => exact fun c member => absurd member List.not_mem_nil
  | true => exact List.forall_mem_singleton.2 rfl

theorem isOdd_append_signOf (signs : List Char) (negative : Bool) :
    isOdd (signs ++ signOf negative) = (isOdd signs != negative) := by
  unfold isOdd
  rw [List.count_append]
  rcases Nat.mod_two_eq_zero_or_one (signs.count '-') with even | odd
  · cases negative with
    | false => simp [signOf, even]
    | true =>
      have next : (signs.count '-' + 1) % 2 = 1 := by omega
      simp [signOf, even, next]
  · cases negative with
    | false => simp [signOf, odd]
    | true =>
      have next : (signs.count '-' + 1) % 2 = 0 := by omega
      simp [signOf, odd, next]

theorem signed_signed (outer inner : Bool) (n : Int) :
    integers.signed outer (integers.signed inner n) = integers.signed (outer != inner) n := by
  cases outer <;> cases inner <;> first | rfl | exact Int.neg_neg n

/-- A sign in front of the first operand is one more leading sign. -/
theorem signed_isOdd_append (signs : List Char) (negative : Bool) (n : Int) :
    integers.signed (isOdd (signs ++ signOf negative)) n =
      integers.signed (isOdd signs) (integers.signed negative n) := by
  rw [isOdd_append_signOf, signed_signed]

theorem meaning?_of_signs {row : List Char} (signs : row.all isSign = true) :
    meaning? row = some (if isOdd row then .sub else .add, false) := by
  unfold meaning?
  exact if_pos signs

theorem meaning?_of_multiplicative {c : Char} {signs : List Char} (tight : isSign c = false)
    (plain : signs.all isSign = true) :
    meaning? (c :: signs) = (multiplicative? c).map fun op => (op, isOdd signs) := by
  have mixed : ¬(c :: signs).all isSign = true := by
    rw [List.all_cons, tight]
    exact Bool.false_ne_true
  unfold meaning?
  rw [if_neg mixed]
  exact if_pos plain

/-- Every row with a meaning is made of signs, or signs follow a multiplicative operator. -/
theorem signs_or_multiplicative {row : List Char} {op : Operator} {negative : Bool}
    (means : meaning? row = some (op, negative)) :
    (row.all isSign = true ∧ op = (if isOdd row then .sub else .add) ∧ negative = false) ∨
      ∃ c signs, row = c :: signs ∧ isSign c = false ∧ signs.all isSign = true ∧
        multiplicative? c = some op ∧ negative = isOdd signs := by
  cases plain : row.all isSign with
  | true =>
    rw [meaning?_of_signs plain] at means
    cases means
    exact .inl ⟨rfl, rfl, rfl⟩
  | false =>
    unfold meaning? at means
    rw [if_neg (ne_true_of_eq_false plain)] at means
    split at means
    · cases means
    · rename_i c signs
      split at means
      · rename_i behind
        obtain ⟨found, given, same⟩ := Option.map_eq_some_iff.1 means
        cases same
        rw [List.all_cons, behind, Bool.and_true] at plain
        exact .inr ⟨c, signs, rfl, plain, behind, given, rfl⟩
      · cases means

theorem all_append_signOf {signs : List Char} (plain : signs.all isSign = true)
    (negative : Bool) : (signs ++ signOf negative).all isSign = true := by
  rw [List.all_append, plain, List.all_eq_true.2 isSign_of_mem_signOf]
  rfl

/-- A sign in front of an operand gives the row before it a meaning again.  If the operator
is exact, the operand enters as the operand with its sign does behind the row as it was. -/
theorem meaning?_append_signOf {row : List Char} {op : Operator} {negative : Bool}
    (means : meaning? row = some (op, negative)) (isExact : IsExact op) (minus : Bool) (n : Int) :
    ∃ joined opposite, meaning? (row ++ signOf minus) = some (joined, opposite) ∧
      IsExact joined ∧
      Part.ofJoined (joined, integers.signed opposite n) =
        Part.ofJoined (op, integers.signed negative (integers.signed minus n)) := by
  rcases signs_or_multiplicative means with
    ⟨plain, rfl, rfl⟩ | ⟨c, signs, rfl, tight, plain, given, rfl⟩
  · refine ⟨_, _, meaning?_of_signs (all_append_signOf plain minus), ?_, ?_⟩
    · cases isOdd (row ++ signOf minus) <;> exact ⟨by decide, by decide⟩
    · rw [isOdd_append_signOf]
      -- a sum becomes a difference, or the other way round
      cases isOdd row <;> cases minus <;>
        first | rfl | exact congrArg Part.summand (Int.neg_neg n).symm
  · refine ⟨op, isOdd (signs ++ signOf minus), ?_, isExact, ?_⟩
    · rw [List.cons_append, meaning?_of_multiplicative tight (all_append_signOf plain minus), given]
      rfl
    · rw [signed_isOdd_append]

/-!
## Operands with a sign of their own

What takes the place of an operand in a text may begin with a minus sign, as a negative
integer does.  In the text this sign is the last one of the row in front of the operand.
An expression that is written in this way still has the value that it has with the signed
integers as its operands.
-/

/-- An operand and whether a minus sign is written right in front of it. -/
structure Signed where
  negative : Bool
  operand : Operand

namespace Signed

/-- The tokens of an operand behind those of its sign. -/
def tokens (signed : Signed) : List (List Char) :=
  marks (signOf signed.negative) ++ signed.operand.tokens

/-- What an operand amounts to with its sign. -/
def integer (signed : Signed) : Option Int :=
  (integers.ofOperand signed.operand).map (integers.signed signed.negative)

/-- Whether an operand has a shape, a meaning and no quotients. -/
structure IsProper (signed : Signed) : Prop where
  shape : signed.operand.HasShape
  meaningful : signed.operand.IsMeaningful
  polynomial : signed.operand.IsPolynomial

/-- An integer as it is written in decimals. -/
def ofInt (n : Int) : Signed := ⟨decide (n < 0), .literal (Nat.toDigits 10 n.natAbs)⟩

theorem integer_ofInt (n : Int) : (ofInt n).integer = some n := by
  change some (integers.signed (decide (n < 0)) (Text.natOfDigits (Nat.toDigits 10 n.natAbs))) = _
  rw [Text.natOfDigits_toDigits]
  cases n with
  | ofNat m => rfl
  | negSucc m =>
    rw [decide_eq_true (Int.negSucc_lt_zero m)]
    rfl

theorem isProper_literal {negative : Bool} {digits : List Char} (present : digits ≠ [])
    (decimal : ∀ c ∈ digits, Text.isDigit c = true) :
    (Signed.mk negative (.literal digits)).IsProper :=
  ⟨⟨present, decimal⟩, trivial, trivial⟩

theorem isProper_ofInt (n : Int) : (ofInt n).IsProper :=
  isProper_literal Nat.toDigits_ne_nil fun _ => Text.isDigit_of_mem_toDigits

/-- The text of an integer is its sign and its digits. -/
theorem toList_toString (n : Int) :
    (toString n).toList = signOf (decide (n < 0)) ++ Nat.toDigits 10 n.natAbs := by
  cases n with
  | ofNat m => exact Text.toList_toString_ofNat m
  | negSucc m =>
    rw [decide_eq_true (Int.negSucc_lt_zero m)]
    exact Text.toList_toString_negSucc m

/-- A signed operand is written by its sign in front of its text. -/
theorem spaced_append (signed : Signed) {bare : List Char}
    {tokens : List (List Char)} {text : List Char}
    (spaced : ∀ gap, (∀ c ∈ gap, Text.isBlank c = true) →
      Spaced (signed.operand.tokens ++ tokens) (gap ++ (bare ++ text)))
    {gap : List Char} (blank : ∀ c ∈ gap, Text.isBlank c = true) :
    Spaced (signed.tokens ++ tokens) (gap ++ (signOf signed.negative ++ (bare ++ text))) := by
  obtain ⟨negative, operand⟩ := signed
  cases negative with
  | false => exact spaced gap blank
  | true => exact .cons blank (spaced [] fun c member => absurd member List.not_mem_nil)

/-- The text of an integer is written by the integer as an operand. -/
theorem spaced_ofInt (n : Int) {tokens : List (List Char)} {text : List Char}
    (later : Spaced tokens text) {gap : List Char} (blank : ∀ c ∈ gap, Text.isBlank c = true) :
    Spaced ((ofInt n).tokens ++ tokens) (gap ++ ((toString n).toList ++ text)) := by
  rw [toList_toString, List.append_assoc]
  exact spaced_append (ofInt n) (fun _ blank => .cons blank later) blank

end Signed

/-! ## Expressions of signed operands -/

/-- The operands behind the first one, each with its sign at the end of its row. -/
def attached (rest : List (List Char × Signed)) : List (List Char × Operand) :=
  rest.map fun next => (next.1 ++ signOf next.2.negative, next.2.operand)

/-- An expression whose operands are written with signs of their own. -/
def Expression.ofSigned (signs : List Char) (first : Signed) (rest : List (List Char × Signed)) :
    Expression :=
  .run (signs ++ signOf first.negative) first.operand (attached rest)

/-- Whether a row of operators has a meaning and its operator is exact. -/
def MeansExactly (row : List Char) (op : Operator) (negative : Bool) : Prop :=
  meaning? row = some (op, negative) ∧ IsExact op

/-- What the operands behind the first one amount to as they are meant: the sign of an
operand belongs to the operand, and the row in front of it has its own meaning. -/
inductive Amounts : List (List Char × Signed) → List (Operator × Int) → Prop
  | nil : Amounts [] []
  | cons {row : List Char} {op : Operator} {negative : Bool} {next : Signed} {n : Int}
      {rest : List (List Char × Signed)} {joined : List (Operator × Int)} :
      MeansExactly row op negative → next.integer = some n → Amounts rest joined →
      Amounts ((row, next) :: rest) ((op, integers.signed negative n) :: joined)

theorem Amounts.exact {rest : List (List Char × Signed)} {joined : List (Operator × Int)}
    (amounts : Amounts rest joined) : ∀ next ∈ joined, IsExact next.1 := by
  induction amounts with
  | nil => exact fun _ member => absurd member List.not_mem_nil
  | cons means _ _ ih => exact List.forall_mem_cons.2 ⟨means.2, ih⟩

/-- As they are written, the operands enter the total as they do as they are meant. -/
theorem Amounts.ofJoined {rest : List (List Char × Signed)} {joined : List (Operator × Int)}
    (amounts : Amounts rest joined) :
    ∃ written, integers.ofJoined (attached rest) = some written ∧
      (∀ next ∈ written, IsExact next.1) ∧
      written.map Part.ofJoined = joined.map Part.ofJoined := by
  induction amounts with
  | nil => exact ⟨[], rfl, fun _ member => absurd member List.not_mem_nil, rfl⟩
  | @cons row op negative next n rest joined means value _ ih =>
    obtain ⟨written, found, allExact, same⟩ := ih
    obtain ⟨m, bare, rfl⟩ := Option.map_eq_some_iff.1 value
    obtain ⟨join, opposite, changed, isExact, enters⟩ :=
      meaning?_append_signOf means.1 means.2 next.negative m
    refine ⟨(join, integers.signed opposite m) :: written, ?_, ?_, ?_⟩
    · change (meaning? (row ++ signOf next.negative)).bind _ = _
      rw [changed, Option.bind_some]
      change (integers.ofOperand next.operand).bind _ = _
      rw [bare, Option.bind_some]
      change (integers.ofJoined (attached rest)).bind _ = _
      rw [found]
      rfl
    · exact List.forall_mem_cons.2 ⟨isExact, allExact⟩
    · rw [List.map_cons, List.map_cons, enters, same]

/-- An expression of signed operands has the value of the row as it is meant. -/
theorem Expression.integer_ofSigned (signs : List Char) {first : Signed} {n : Int}
    (head : first.integer = some n) {rest : List (List Char × Signed)}
    {joined : List (Operator × Int)} (amounts : Amounts rest joined) :
    (Expression.ofSigned signs first rest).integer =
      integers.total (integers.signed (isOdd signs) n) joined := by
  obtain ⟨m, bare, rfl⟩ := Option.map_eq_some_iff.1 head
  obtain ⟨written, found, allExact, same⟩ := amounts.ofJoined
  change (integers.ofOperand first.operand).bind _ = _
  rw [bare, Option.bind_some]
  change (integers.ofJoined (attached rest)).bind _ = _
  rw [found, Option.bind_some, signed_isOdd_append, total_eq_weigh allExact, same,
    ← total_eq_weigh amounts.exact]

/-! ## Their shape -/

/-- Whether a row of operators holds no sign of division or remainder, and makes sense. -/
structure IsRow (row : List Char) : Prop where
  present : row ≠ []
  operators : ∀ c ∈ row, (Operator.ofChar? c).isSome = true
  means : (meaning? row).isSome = true
  noQuotient : '/' ∉ row
  noRemainder : '%' ∉ row

theorem isOperator_of_mem_signOf {negative : Bool} :
    ∀ c ∈ signOf negative, (Operator.ofChar? c).isSome = true := by
  cases negative with
  | false => exact fun c member => absurd member List.not_mem_nil
  | true => exact List.forall_mem_singleton.2 rfl

theorem not_mem_signOf {c : Char} (other : c ≠ '-') (negative : Bool) : c ∉ signOf negative := by
  cases negative with
  | false => exact List.not_mem_nil
  | true => exact fun member => other (List.mem_singleton.1 member)

theorem IsRow.meansExactly {row : List Char} (isRow : IsRow row) :
    ∃ op negative, MeansExactly row op negative := by
  obtain ⟨⟨op, negative⟩, means⟩ := Option.isSome_iff_exists.1 isRow.means
  exact ⟨op, negative, means, isExact_of_meaning? means isRow.noQuotient isRow.noRemainder⟩

theorem IsRow.append_signOf {row : List Char} (isRow : IsRow row) (negative : Bool) :
    IsRow (row ++ signOf negative) where
  present := List.append_ne_nil_of_left_ne_nil isRow.present _
  operators := List.forall_mem_append.2 ⟨isRow.operators, isOperator_of_mem_signOf⟩
  means := by
    obtain ⟨op, opposite, means, isExact⟩ := isRow.meansExactly
    obtain ⟨join, _, changed, _⟩ := meaning?_append_signOf means isExact negative 0
    rw [changed]
    rfl
  noQuotient := fun member => (List.mem_append.1 member).elim isRow.noQuotient
    (not_mem_signOf (by decide) negative)
  noRemainder := fun member => (List.mem_append.1 member).elim isRow.noRemainder
    (not_mem_signOf (by decide) negative)

/-- An expression with all that its evaluation among the integers needs. -/
structure Expression.IsProper (expression : Expression) : Prop where
  shape : expression.HasShape
  meaningful : expression.IsMeaningful
  polynomial : expression.IsPolynomial

theorem joined_isProper {rest : List (List Char × Signed)}
    (proper : ∀ next ∈ rest, IsRow next.1 ∧ next.2.IsProper) :
    JoinedHaveShape (attached rest) ∧ JoinedAreMeaningful (attached rest) ∧
      JoinedArePolynomial (attached rest) := by
  induction rest with
  | nil => exact ⟨trivial, trivial, trivial⟩
  | cons next rest ih =>
    obtain ⟨⟨isRow, here⟩, others⟩ := List.forall_mem_cons.1 proper
    obtain ⟨shape, meaningful, polynomial⟩ := ih others
    have whole := isRow.append_signOf next.2.negative
    exact ⟨⟨⟨whole.present, whole.operators⟩, here.shape, shape⟩,
      ⟨whole.means, here.meaningful, meaningful⟩,
      ⟨⟨whole.noQuotient, whole.noRemainder⟩, here.polynomial, polynomial⟩⟩

theorem Expression.isProper_ofSigned {signs : List Char} (plain : ∀ c ∈ signs, isSign c = true)
    {first : Signed} (head : first.IsProper) {rest : List (List Char × Signed)}
    (proper : ∀ next ∈ rest, IsRow next.1 ∧ next.2.IsProper) :
    (Expression.ofSigned signs first rest).IsProper := by
  obtain ⟨shape, meaningful, polynomial⟩ := joined_isProper proper
  have leading : ∀ c ∈ signs ++ signOf first.negative, isSign c = true :=
    List.forall_mem_append.2 ⟨plain, isSign_of_mem_signOf⟩
  exact ⟨⟨fun c member => Lexeme.isOperator_of_isSign (leading c member), head.shape, shape⟩,
    ⟨leading, head.meaningful, meaningful⟩, ⟨head.polynomial, polynomial⟩⟩

end Arithmetic
end DiceNotation
