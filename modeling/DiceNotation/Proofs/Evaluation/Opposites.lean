import DiceNotation.Proofs.Evaluation.WrittenArithmetic
import DiceNotation.Proofs.Formula.Found
import DiceNotation.Proofs.Formula.Grouping
import DiceNotation.Proofs.Formula.Legible
import DiceNotation.Proofs.Formula.Misreading

namespace DiceNotation

open Text Arithmetic

/-!
# Rolling the opposite of a tree

The opposite of a tree multiplies the whole tree by minus one, in brackets.  A roll is not made
from the tree in the brackets, though, but from its row, and the row is grouped by precedence
again.  There the minus one belongs to the last product alone.  So a product, or a single
operand, is negated as it should be, but of a sum only the last summand is: the summands before
it keep their sign.

All this is shown for the trees of formulas in which integers, brackets, and the signs of sums,
differences and products are all there is.
-/

/-! ## Formulas of sums, differences and products -/

/-- Whether a character can stand in a formula of integers, brackets, sums, differences and
products. -/
def Text.isPolynomialMark (c : Char) : Bool :=
  isBlank c || isDigit c || c == '(' || c == ')' || c == '+' || c == '-' || c == '*'

mutual

/-- Whether a clause is an integer, or a bracketed sum, difference or product of such clauses. -/
def Clause.IsPolynomial : Clause → Prop
  | .numeric (.int _) _ _ => True
  | .group inner _ _ => TreeIsPolynomial inner
  | _ => False

def TreeIsPolynomial : Tree Clause → Prop
  | .leaf part => part.IsPolynomial
  | .node op left right => IsExact op ∧ TreeIsPolynomial left ∧ TreeIsPolynomial right

end

theorem treeIsPolynomial_iff (tree : Tree Clause) :
    TreeIsPolynomial tree ↔
      tree.row.1.IsPolynomial ∧ ∀ joined ∈ tree.row.2, IsExact joined.1 ∧ joined.2.IsPolynomial := by
  induction tree with
  | leaf part => simp [TreeIsPolynomial, Tree.row]
  | node op left right left_ih right_ih =>
    simp only [TreeIsPolynomial, Tree.row, left_ih, right_ih, List.forall_mem_append,
      List.forall_mem_cons]
    tauto

theorem Clause.isPolynomial_signed (negative : Bool) {part : Clause}
    (polynomial : part.IsPolynomial) : (part.signed negative).IsPolynomial := by
  cases negative with
  | false => exact polynomial
  | true =>
    cases part with
    | numeric value flavor raw =>
      cases value with
      | int n => trivial
      | real x => exact absurd polynomial id
    | group inner flavor raw => exact ⟨⟨by decide, by decide⟩, polynomial, trivial⟩
    | _ => exact absurd polynomial id

/-! ## What is found in such formulas -/

theorem not_insideWord_of_mark {c : Char} (mark : isPolynomialMark c = true)
    (other : isDigit c = false) : Lexeme.insideWord c = false := by
  simp only [isPolynomialMark, Bool.or_eq_true, beq_iff_eq] at mark
  rw [other] at mark
  rcases mark with (((((blank | ⟨⟨⟩⟩) | rfl) | rfl) | rfl) | rfl) | rfl
  · simp [Lexeme.insideWord, blank]
  all_goals decide

theorem not_dieSign_of_mark {c : Char} (mark : isPolynomialMark c = true) :
    Lexeme.isDieSign c = false := by
  by_contra sign
  simp only [Lexeme.isDieSign, Bool.not_eq_false, Bool.or_eq_true, beq_iff_eq] at sign
  rcases sign with rfl | rfl <;> exact absurd mark (by decide)

/-- A number without a point is made of digits. -/
theorem Lexeme.isDigit_of_splitNumber {text : List Char} (noPoint : '.' ∉ (splitNumber text).1) :
    ∀ c ∈ (splitNumber text).1, isDigit c = true := by
  have digits : ∀ c ∈ text.takeWhile isDigit, isDigit c = true :=
    fun c member => List.mem_takeWhile_imp member
  unfold splitNumber at noPoint ⊢
  simp only at noPoint ⊢
  split
  · rename_i more point
    split
    · exact digits
    · rename_i some
      rw [point] at noPoint
      simp only [if_neg some] at noPoint
      exact absurd (List.mem_append_right _ List.mem_cons_self) noPoint
  · exact digits

theorem Lexeme.mem_of_splitOperators {place text : List Char} :
    ∀ c ∈ (splitOperators place text).1, c ∈ text := by
  fun_induction splitOperators place text with
  | case1 => exact fun c member => member
  | case2 place d rest operator ih =>
    intro c member
    rcases List.mem_cons.1 member with rfl | member
    · exact List.mem_cons_self
    · exact List.mem_cons_of_mem d (ih c member)
  | case3 place d rest operator blank ih => exact fun c member => List.mem_cons_of_mem d (ih c member)
  | case4 => exact fun c member => absurd member List.not_mem_nil

/-- If all rows of operators are exact and all operands polynomials, so are the joined ones. -/
theorem Run.joined_polynomial {found : List (List Char × Clause)}
    {clauses : List (Operator × Clause)} (reduces : Run.joined found = some clauses)
    (polynomial : ∀ next ∈ found, ('/' ∉ next.1 ∧ '%' ∉ next.1) ∧ next.2.IsPolynomial) :
    ∀ joined ∈ clauses, IsExact joined.1 ∧ joined.2.IsPolynomial := by
  induction found generalizing clauses with
  | nil =>
    cases reduces
    exact fun _ member => absurd member List.not_mem_nil
  | cons next rest ih =>
    obtain ⟨row, part⟩ := next
    obtain ⟨⟨noQuotient, noRemainder⟩, here⟩ := polynomial _ List.mem_cons_self
    obtain ⟨meaning, reduced, later⟩ := Option.bind_eq_some_iff.1 reduces
    obtain ⟨more, others, same⟩ := Option.bind_eq_some_iff.1 later
    cases same
    intro joined member
    rcases List.mem_cons.1 member with rfl | member
    · rw [reduceRun_eq_meaning?] at reduced
      exact ⟨isExact_of_meaning? reduced noQuotient noRemainder,
        Clause.isPolynomial_signed _ here⟩
    · exact ih others (fun other inside => polynomial other (List.mem_cons_of_mem _ inside)) joined
        member

/-- A run of polynomials has the tree of a polynomial. -/
theorem Run.tree_polynomial {run : Run} {tree : Tree Clause} (made : run.tree = .ok tree)
    (first : run.first.IsPolynomial)
    (rest : ∀ next ∈ run.rest, ('/' ∉ next.1 ∧ '%' ∉ next.1) ∧ next.2.IsPolynomial) :
    TreeIsPolynomial tree := by
  cases reduces : Run.joined run.rest with
  | none =>
    obtain ⟨row, part, _, _, refused⟩ := run.tree_of_not_joined reduces
    rw [refused] at made
    cases made
  | some clauses =>
    rw [run.tree_of_joined reduces] at made
    cases made
    rw [treeIsPolynomial_iff, Tree.row_ofRun]
    exact ⟨Clause.isPolynomial_signed _ first, Run.joined_polynomial reduces rest⟩

namespace Source

variable {source : Source} {inner : Option ExpressionReader}

/-- Whether a reader of expressions finds polynomials only, wherever it reads in a formula. -/
def FindsPolynomials (source : Source) (read : ExpressionReader) : Prop :=
  ∀ text tree rest, text <:+ source.text → Finds (read text) tree rest → TreeIsPolynomial tree

variable (marked : ∀ c ∈ source.text, isPolynomialMark c = true)

include marked

theorem mark_of_suffix {text : List Char} (inside : text <:+ source.text) :
    ∀ c ∈ text, isPolynomialMark c = true := fun c member => marked c (inside.subset member)

theorem number_polynomial {c : Char} {rest after : List Char} {first : isDigit c = true}
    {part : Clause} (inside : c :: rest <:+ source.text)
    (found : Finds (source.numberClause inner c rest first) part after) : part.IsPolynomial := by
  have whole := Lexeme.splitNumber_whole (c :: rest)
  have marks : ∀ d ∈ (Lexeme.splitNumber (c :: rest)).1 ++ (Lexeme.splitNumber (c :: rest)).2,
      isPolynomialMark d = true := by
    rw [whole]
    exact mark_of_suffix marked inside
  rcases numberClause_found found with ⟨d, more, behind, sign, _⟩ | ⟨_, rfl, _⟩
  · have mark := marks d (List.mem_append_right _ (behind ▸ List.mem_cons_self))
    rw [not_dieSign_of_mark mark] at sign
    cases sign
  · have noPoint : '.' ∉ (Lexeme.splitNumber (c :: rest)).1 := fun point =>
      absurd (marks _ (List.mem_append_left _ point)) (by decide)
    rw [Lexeme.numberValue_of_digits (Lexeme.isDigit_of_splitNumber noPoint)]
    trivial

theorem not_wordFound {c : Char} {rest after : List Char} {part : Clause}
    (inside : c :: rest <:+ source.text) (other : isDigitLike c = false)
    (found : WordFound source inner c rest part after) : False := by
  have mark := mark_of_suffix marked inside c List.mem_cons_self
  have noDigit : isDigit c = false := by
    rw [isDigitLike, Bool.or_eq_false_iff] at other
    exact other.1
  have outside := not_insideWord_of_mark mark noDigit
  cases found with
  | function called _ _ =>
    have begins := (Lexeme.functionName_found called).1
    rw [Lexeme.beginsName, isBasicLetter_of_not_insideWord outside, Bool.false_or,
      beq_iff_eq] at begins
    rw [begins] at mark
    exact absurd mark (by decide)
  | dice _ opens _ =>
    rw [not_dieSign_of_mark mark] at opens
    cases opens
  | word _ _ found =>
    rw [(Lexeme.word_found found).1] at outside
    cases outside

variable (keeps : ∀ read, inner = some read → source.KeepsReading read)
  (inners : ∀ read, inner = some read → source.FindsPolynomials read)

include keeps inners

theorem bracket_polynomial {rest after : List Char} {part : Clause}
    (inside : '(' :: rest <:+ source.text)
    (found : Finds (source.bracketClause inner '(' rest) part after) : part.IsPolynomial := by
  obtain ⟨tree, behind, bracketed, kind⟩ := bracketClause_found found
  obtain ⟨shorter, scanned⟩ := bracketed
  have left : behind <:+ source.text := (stays_bracketed keeps inside).suffix scanned
  rcases kind with ⟨d, more, rfl, sign, _⟩ | ⟨_, rfl, _⟩
  · rw [not_dieSign_of_mark (mark_of_suffix marked left d List.mem_cons_self)] at sign
    cases sign
  · obtain ⟨read, later, known, reads, _⟩ := bracketed_found ⟨shorter, scanned⟩
    exact inners read known rest tree later ((List.suffix_cons _ rest).trans inside) reads

theorem clause_polynomial {text after : List Char} {part : Clause} (inside : text <:+ source.text)
    (found : Finds (source.clause inner text) part after) : part.IsPolynomial := by
  obtain ⟨c, rest, begun, kind⟩ := clause_found found
  have here : c :: rest <:+ source.text := (begun ▸ skipBlanks_suffix text).trans inside
  cases kind with
  | bracket found => exact bracket_polynomial marked keeps inners here found
  | pool found => exact absurd (mark_of_suffix marked here _ List.mem_cons_self) (by decide)
  | number first found => exact number_polynomial marked here found
  | word _ _ other found => exact absurd found (not_wordFound marked here other)

theorem following_polynomial {text after : List Char} {more : List (List Char × Clause)}
    (inside : text <:+ source.text)
    (reached : Reaches (Scan.following (source.clause inner) text) more after) :
    ∀ next ∈ more, ('/' ∉ next.1 ∧ '%' ∉ next.1) ∧ next.2.IsPolynomial := by
  induction more generalizing text with
  | nil => exact fun _ member => absurd member List.not_mem_nil
  | cons next more ih =>
    rcases following_found reached with ⟨_, ⟨⟩, _⟩ | ⟨row, part, behind, others, some, found, same, later⟩
    cases same
    have rowMarks : ∀ c ∈ row.value, isPolynomialMark c = true := by
      rw [(Lexeme.operators_found some).1]
      exact fun c member => mark_of_suffix marked inside c (Lexeme.mem_of_splitOperators c member)
    have place := (Lexeme.operators_suffix some).trans inside
    have left : behind <:+ source.text := by
      obtain ⟨shorter, scanned⟩ := found
      exact (stays_clause keeps place).suffix scanned
    intro other member
    rcases List.mem_cons.1 member with rfl | member
    · exact ⟨⟨fun quotient => absurd (rowMarks _ quotient) (by decide),
        fun remainder => absurd (rowMarks _ remainder) (by decide)⟩,
        clause_polynomial marked keeps inners place found⟩
    · exact ih left later other member

theorem expression_polynomial : source.FindsPolynomials (source.expression (source.clause inner)) := by
  intro text tree rest inside found
  obtain ⟨first, behind, more, begun, reached, made⟩ := Source.expression_found found
  have place := (Lexeme.splitSigns_suffix text).trans inside
  have left : behind <:+ source.text := by
    obtain ⟨shorter, scanned⟩ := begun
    exact (stays_clause keeps place).suffix scanned
  exact Run.tree_polynomial made (clause_polynomial marked keeps inners place begun)
    (following_polynomial marked keeps inners left reached)

omit keeps inners

theorem expressionAt_polynomial (levels : Nat) :
    source.FindsPolynomials (source.expressionAt levels) := by
  induction levels with
  | zero =>
    rw [source.expressionAt_eq 0]
    refine expression_polynomial marked ?_ ?_ <;> rintro read ⟨⟩
  | succ levels ih =>
    rw [source.expressionAt_eq (levels + 1)]
    refine expression_polynomial marked ?_ ?_
    · rintro read ⟨⟩
      exact source.keepsReading_expressionAt levels
    · rintro read ⟨⟩
      exact ih

/-- The tree of a formula of integers, brackets, sums, differences and products is a polynomial. -/
theorem parse_polynomial {tree : Tree Clause} (parsed : source.parse = .ok tree) :
    TreeIsPolynomial tree := by
  obtain ⟨rest, found, _⟩ := parse_found parsed
  exact expressionAt_polynomial marked _ source.text tree rest (List.suffix_refl _) found

end Source

/-! ## What polynomials amount to -/

mutual

theorem Clause.IsPolynomial.isArithmetic : {part : Clause} → part.IsPolynomial → part.IsArithmetic
  | .numeric _ _ _, _ => trivial
  | .group _ _ _, polynomial => TreeIsPolynomial.isArithmetic polynomial

theorem TreeIsPolynomial.isArithmetic : {tree : Tree Clause} → TreeIsPolynomial tree →
    TreeIsArithmetic tree
  | .leaf _, polynomial => Clause.IsPolynomial.isArithmetic polynomial
  | .node _ _ _, polynomial => ⟨polynomial.2.1.isArithmetic, polynomial.2.2.isArithmetic⟩

end

mutual

/-- A polynomial in brackets, or an integer, amounts to an integer. -/
theorem Clause.IsPolynomial.exists_amount : {part : Clause} → part.IsPolynomial →
    ∃ n : Int, part.amount = some (.int n)
  | .numeric (.int n) _ _, _ => ⟨n, rfl⟩
  | .group inner _ _, polynomial => by
    obtain ⟨first, rest, amounts, exacts⟩ := TreeIsPolynomial.exists_amounts polynomial
    obtain ⟨n, total⟩ := exists_total exacts first
    refine ⟨n, ?_⟩
    change (rowAmounts inner).bind _ = _
    rw [amounts]
    exact integers_embed.total total

/-- The operands of a polynomial amount to integers, which exact operators join. -/
theorem TreeIsPolynomial.exists_amounts : {tree : Tree Clause} → TreeIsPolynomial tree →
    ∃ (first : Int) (rest : List (Operator × Int)),
      rowAmounts tree = some (.int first, mapped .int rest) ∧ ∀ next ∈ rest, IsExact next.1
  | .leaf part, polynomial => by
    obtain ⟨n, amount⟩ := Clause.IsPolynomial.exists_amount polynomial
    refine ⟨n, [], ?_, fun _ member => absurd member List.not_mem_nil⟩
    rw [rowAmounts, amount]
    rfl
  | .node op left right, polynomial => by
    obtain ⟨isExact, before, behind⟩ := polynomial
    obtain ⟨first, more, amounts, exacts⟩ := before.exists_amounts
    obtain ⟨second, others, amountsToo, exactsToo⟩ := behind.exists_amounts
    refine ⟨first, more ++ (op, second) :: others, ?_, ?_⟩
    · rw [rowAmounts, amounts, amountsToo]
      simp [mapped]
    · intro next member
      rcases List.mem_append.1 member with member | member
      · exact exacts next member
      rcases List.mem_cons.1 member with rfl | member
      · exact isExact
      · exact exactsToo next member

end

/-- The integer that a clause amounts to, if it is one. -/
def Clause.integer (part : Clause) : Int :=
  match part.amount with
  | some (.int n) => n
  | _ => 0

theorem Clause.IsPolynomial.amount_eq {part : Clause} (polynomial : part.IsPolynomial) :
    part.amount = some (.int part.integer) := by
  obtain ⟨n, amount⟩ := polynomial.exists_amount
  rw [Clause.integer, amount]

theorem joinedAmounts_polynomial {rest : List (Operator × Clause)}
    (polynomial : ∀ joined ∈ rest, IsExact joined.1 ∧ joined.2.IsPolynomial) :
    joinedAmounts rest = some (mapped .int (Tree.valued Clause.integer rest)) := by
  induction rest with
  | nil => rfl
  | cons joined rest ih =>
    obtain ⟨op, part⟩ := joined
    have here := (polynomial _ List.mem_cons_self).2.amount_eq
    have others := ih fun next member => polynomial next (List.mem_cons_of_mem _ member)
    change part.amount.bind _ = _
    rw [here, Option.bind_some, others]
    rfl

/-- A polynomial amounts to what the tree of its row amounts to among the integers. -/
theorem TreeIsPolynomial.treeAmount_eq {tree : Tree Clause} (polynomial : TreeIsPolynomial tree)
    {n : Int} (amount : (Tree.ofRun (.leaf tree.row.1) (Tree.singles tree.row.2)).amount integers
      Clause.integer = some n) : treeAmount tree = some (.int n) := by
  obtain ⟨first, rest⟩ := (treeIsPolynomial_iff tree).1 polynomial
  rw [Tree.amount_ofRun] at amount
  rw [treeAmount, rowAmounts_eq, first.amount_eq, joinedAmounts_polynomial rest]
  exact integers_embed.total amount

/-- A polynomial that precedence has grouped amounts to what it says among the integers. -/
theorem TreeIsPolynomial.treeAmount_of_grouped {tree : Tree Clause}
    (polynomial : TreeIsPolynomial tree) (grouped : tree.IsGrouped) {n : Int}
    (amount : tree.amount integers Clause.integer = some n) : treeAmount tree = some (.int n) :=
  polynomial.treeAmount_eq (by rwa [Tree.ofRun_row grouped])

/-- The operators of a polynomial join all integers. -/
theorem TreeIsPolynomial.exists_integer {tree : Tree Clause} (polynomial : TreeIsPolynomial tree) :
    ∃ n, tree.amount integers Clause.integer = some n := by
  induction tree with
  | leaf part => exact ⟨_, rfl⟩
  | node op left right left_ih right_ih =>
    obtain ⟨isExact, before, behind⟩ := polynomial
    obtain ⟨first, left⟩ := left_ih before
    obtain ⟨second, right⟩ := right_ih behind
    obtain ⟨n, joined⟩ := isExact.joins first second
    refine ⟨n, ?_⟩
    rw [Tree.amount, left, right]
    exact joined

/-! ## The opposite of a tree -/

/-- The row of a grouped tree and one more factor is grouped as the tree with its last product
multiplied. -/
theorem Tree.ofRun_row_times {α : Type} {tree : Tree α} (grouped : tree.IsGrouped) (factor : α) :
    ofRun (leaf (node .mul tree (leaf factor)).row.1)
        (singles (node .mul tree (leaf factor)).row.2) =
      close tree.parts.1 (node .mul tree.parts.2 (leaf factor)) := by
  have row : singles (node .mul tree (leaf factor)).row.2 =
      singles tree.row.2 ++ [(.mul, leaf factor)] := singles_append tree.row.2 [(.mul, factor)]
  rw [row]
  exact Tree.group_row grouped [(.mul, leaf factor)]

/-- A tree times minus one amounts to the opposite if it is a product or a single operand.  In a
sum or difference only the last summand changes its sign. -/
theorem TreeIsPolynomial.amount_times {tree : Tree Clause} (polynomial : TreeIsPolynomial tree) :
    ∃ total kept : Int, tree.amount integers Clause.integer = some total ∧
      (Tree.close tree.parts.1 (.node .mul tree.parts.2 (.leaf minusOne))).amount integers
        Clause.integer = some (2 * kept - total) ∧
      (tree.parts.1 = none → kept = 0) ∧
      ∀ before op, tree.parts.1 = some (before, op) →
        before.amount integers Clause.integer = some kept := by
  have times {product : Tree Clause} {n : Int} (amount : product.amount integers Clause.integer =
      some n) : (Tree.node .mul product (.leaf minusOne)).amount integers Clause.integer =
        some (2 * 0 - n) := by
    rw [Tree.amount, amount]
    change some (n * -1) = _
    rw [Int.mul_neg_one, Int.mul_zero, Int.zero_sub]
  obtain ⟨total, amount⟩ := polynomial.exists_integer
  cases tree with
  | leaf part => exact ⟨total, 0, amount, times amount, fun _ => rfl, nofun⟩
  | node op left right =>
    cases tight : op.isMultiplicative with
    | true =>
      rw [Tree.parts_of_product tight]
      exact ⟨total, 0, amount, times amount, fun _ => rfl, nofun⟩
    | false =>
      obtain ⟨isExact, before, behind⟩ := polynomial
      obtain ⟨kept, first⟩ := before.exists_integer
      obtain ⟨n, second⟩ := behind.exists_integer
      rw [Tree.parts_of_sum tight]
      refine ⟨total, kept, amount, ?_, nofun, ?_⟩
      · rw [Tree.amount, first, second] at amount
        change (Tree.node op left (.node .mul right (.leaf minusOne))).amount integers
          Clause.integer = _
        rw [Tree.amount, first, times second]
        change integers.join op kept (2 * 0 - n) = _
        change integers.join op kept n = _ at amount
        cases op with
        | add =>
          cases amount
          exact congrArg some (by omega)
        | sub =>
          cases amount
          exact congrArg some (by omega)
        | _ => cases tight
      · rintro _ _ ⟨⟩
        exact first

/-- The opposite of a grouped polynomial is a polynomial, and amounts to its total with the sign
of the last product changed. -/
theorem TreeIsPolynomial.treeAmount_negated {tree : Tree Clause} (polynomial : TreeIsPolynomial tree)
    (grouped : tree.IsGrouped) :
    ∃ total kept : Int, treeAmount tree = some (.int total) ∧ TreeIsPolynomial tree.negated ∧
      treeAmount tree.negated = some (.int (2 * kept - total)) ∧
      (tree.parts.1 = none → kept = 0) ∧
      ∀ before op, tree.parts.1 = some (before, op) →
        TreeIsPolynomial before ∧ treeAmount before = some (.int kept) := by
  obtain ⟨total, kept, amount, times, single, summands⟩ := polynomial.amount_times
  have wrapped : TreeIsPolynomial (.node .mul tree (.leaf minusOne)) :=
    ⟨⟨by decide, by decide⟩, polynomial, trivial⟩
  rw [← Tree.ofRun_row_times grouped minusOne] at times
  have bracketed (flavor : Option String) (raw : String) :
      treeAmount (.leaf (.group (.node .mul tree (.leaf minusOne)) flavor raw)) =
        some (.int (2 * kept - total)) := by
    have inside := wrapped.treeAmount_eq times
    change ((treeAmount (.node .mul tree (.leaf minusOne))).bind fun value =>
      some (value, [])).bind _ = _
    rw [inside]
    rfl
  refine ⟨total, kept, polynomial.treeAmount_of_grouped grouped amount, ?_, ?_, single, ?_⟩
  · cases tree with
    | node op left right => exact wrapped
    | leaf part =>
      rw [Tree.negated_leaf]
      exact part.isPolynomial_signed true polynomial
  · cases tree with
    | node op left right => exact bracketed _ _
    | leaf part =>
      cases part with
      | numeric value flavor raw =>
        cases value with
        | int n =>
          cases amount
          rw [single rfl, Int.mul_zero, Int.zero_sub]
          rfl
        | real x => exact absurd polynomial id
      | _ => exact bracketed _ _
  · intro before op sum
    cases tree with
    | leaf part => cases sum
    | node other left right =>
      cases tight : other.isMultiplicative with
      | true =>
        rw [Tree.parts_of_product tight] at sum
        cases sum
      | false =>
        rw [Tree.parts_of_sum tight] at sum summands
        cases sum
        exact ⟨polynomial.2.1,
          polynomial.2.1.treeAmount_of_grouped grouped.2.2.1 (summands _ _ rfl)⟩

/-! ## Rolls of trees -/

namespace Build

/-- The terms of a tree of clauses alone. -/
theorem partTerms_clauses (setup : Setup) (tree : Tree Clause) :
    partTerms setup (tree.map .clause) = terms setup tree := by
  induction tree with
  | leaf part => rfl
  | node op left right left_ih right_ih => rw [Tree.map, partTerms, terms, left_ih, right_ih]

end Build

namespace Arithmetic

/-- A roll can be made from a tree, and wherever nothing can be waited for its total is the given
number. -/
def TreeRollsTo (setup : Setup) (tree : Tree Clause) (n : Int) : Prop :=
  ∀ ledger, ∃ roll last, Build.ofParts setup (tree.map .clause) ledger = .ok (roll, last) ∧
    EvaluatesTo setup roll last (some (.int n))

/-- A roll made from a polynomial has the total that the polynomial amounts to. -/
theorem treeRollsTo_of_polynomial {setup : Setup} {settings : Settings}
    (valid : setup.settings = .ok settings) {tree : Tree Clause} (polynomial : TreeIsPolynomial tree)
    {n : Int} (amount : treeAmount tree = some (.int n)) : TreeRollsTo setup tree n := by
  intro ledger
  obtain ⟨terms, middle, inside, rolls⟩ := evaluatesTo_of_tree valid polynomial.isArithmetic ledger
  obtain ⟨roll, last, around, evaluates⟩ := rolls [] []
  refine ⟨roll, last, ?_, amount ▸ evaluates⟩
  have parts : Build.partTerms setup (tree.map .clause) ledger = .ok (terms, middle) := by
    rw [Build.partTerms_clauses]
    exact inside
  exact Build.bind_eq_ok.2 ⟨terms, middle, parts, around⟩

/-- The roll of a tree has one total. -/
theorem TreeRollsTo.unique {setup : Setup} {tree : Tree Clause} {m n : Int}
    (one : TreeRollsTo setup tree m) (other : TreeRollsTo setup tree n) : m = n := by
  obtain ⟨roll, last, made, first⟩ := one Ledger.empty
  obtain ⟨_, _, madeToo, second⟩ := other Ledger.empty
  cases made.symm.trans madeToo
  let surroundings : Surroundings :=
    { setup := setup, synchronous := true, uniform := fun _ => 0 }
  obtain ⟨result, later, run, _, total⟩ := first {} surroundings (.ofLedger last) rfl rfl rfl
  obtain ⟨_, _, runToo, _, totalToo⟩ := second {} surroundings (.ofLedger last) rfl rfl rfl
  cases run.symm.trans runToo
  rw [total] at totalToo
  cases totalToo
  rfl

/-- What the opposite of a tree rolls to.  The tree is that of any formula of integers, brackets,
sums, differences and products.  Its opposite rolls to minus the total of the tree if the tree is a
single operand or a product.  Otherwise everything before the last sign of the sum is kept, so the
opposite is missed by twice the total of what is kept. -/
theorem negated_rollsTo {setup : Setup} {formula : String}
    (marked : ∀ c ∈ formula.toList, isPolynomialMark c = true) {tree : Tree Clause}
    (parsed : Build.parseFormula setup formula none = .ok tree) :
    ∃ total kept : Int, TreeRollsTo setup tree total ∧
      TreeRollsTo setup tree.negated (2 * kept - total) ∧
      (tree.parts.1 = none → kept = 0) ∧
      ∀ before op, tree.parts.1 = some (before, op) → TreeRollsTo setup before kept := by
  obtain ⟨settings, valid⟩ := Build.settings_of_parseFormula parsed
  have read : (Source.mk formula.toList settings.imputeNumber settings.maxNesting).parse =
      .ok tree := by
    rw [Build.parseFormula, valid] at parsed
    exact parsed
  have polynomial := Source.parse_polynomial marked read
  have grouped : tree.IsGrouped := by
    rw [(Source.parse_sound read).row.grouped]
    exact Tree.isGrouped_ofRun _ _
  obtain ⟨total, kept, amount, opposite, amountToo, single, summands⟩ :=
    polynomial.treeAmount_negated grouped
  refine ⟨total, kept, treeRollsTo_of_polynomial valid polynomial amount,
    treeRollsTo_of_polynomial valid opposite amountToo, single, fun before op sum => ?_⟩
  obtain ⟨inner, amountKept⟩ := summands before op sum
  exact treeRollsTo_of_polynomial valid inner amountKept

/-- The tree of `4 - 2 * (3 + 1)`. -/
def fourLessEight : Tree Clause :=
  .node .sub (numeral 4 "4") (.node .mul (numeral 2 "2")
    (.leaf (.group (.node .add (numeral 3 "3") (numeral 1 "1")) none "(3 + 1)")))
where
  /-- A number as an operand. -/
  numeral (n : Int) (raw : String) : Tree Clause := .leaf (.numeric (.int n) none raw)

/-- The opposite of four less eight keeps the four, and comes out as twelve. -/
theorem negated_rollsTo_of_fourLessEight :
    (∀ c ∈ "4 - 2 * (3 + 1)".toList, isPolynomialMark c = true) ∧
      Build.parseFormula Build.usual "4 - 2 * (3 + 1)" none = .ok fourLessEight ∧
      TreeRollsTo Build.usual fourLessEight (-4) ∧
      TreeRollsTo Build.usual fourLessEight.negated 12 := by
  have marked : ∀ c ∈ "4 - 2 * (3 + 1)".toList, isPolynomialMark c = true :=
    Text.forall_of_all (by decide)
  have parsed : Build.parseFormula Build.usual "4 - 2 * (3 + 1)" none = .ok fourLessEight := by cbv
  have valid : Build.usual.settings = .ok {} := rfl
  obtain ⟨total, kept, rolls, opposite, _, summands⟩ := negated_rollsTo marked parsed
  -- the total of the tree, and of the four that is kept
  have whole : TreeRollsTo Build.usual fourLessEight (-4) :=
    treeRollsTo_of_polynomial valid (Source.parse_polynomial marked parsed) rfl
  have polynomial : TreeIsPolynomial (fourLessEight.numeral 4 "4") := trivial
  have four : TreeRollsTo Build.usual (fourLessEight.numeral 4 "4") 4 :=
    treeRollsTo_of_polynomial valid polynomial rfl
  cases rolls.unique whole
  cases (summands _ _ rfl).unique four
  exact ⟨marked, parsed, whole, opposite⟩

/-- The tree of `1 + 2`. -/
def oneAndTwo : Tree Clause :=
  .node .add (.leaf (.numeric (.int 1) none "1")) (.leaf (.numeric (.int 2) none "2"))

/-- The opposite of one and two does not come out as minus three, but as one less two. -/
theorem not_opposite_of_oneAndTwo :
    Build.parseFormula Build.usual "1 + 2" none = .ok oneAndTwo ∧
      TreeRollsTo Build.usual oneAndTwo 3 ∧ TreeRollsTo Build.usual oneAndTwo.negated (-1) ∧
      ¬TreeRollsTo Build.usual oneAndTwo.negated (-3) := by
  have parsed : Build.parseFormula Build.usual "1 + 2" none = .ok oneAndTwo := by cbv
  have valid : Build.usual.settings = .ok {} := rfl
  have polynomial : TreeIsPolynomial oneAndTwo := ⟨⟨by decide, by decide⟩, trivial, trivial⟩
  have wrapped : TreeIsPolynomial oneAndTwo.negated :=
    ⟨⟨by decide, by decide⟩, polynomial, trivial⟩
  have whole : TreeRollsTo Build.usual oneAndTwo 3 :=
    treeRollsTo_of_polynomial valid polynomial rfl
  have opposite : TreeRollsTo Build.usual oneAndTwo.negated (-1) :=
    treeRollsTo_of_polynomial valid wrapped rfl
  refine ⟨parsed, whole, opposite, fun meant => ?_⟩
  exact absurd (opposite.unique meant) (by decide)

end Arithmetic
end DiceNotation
