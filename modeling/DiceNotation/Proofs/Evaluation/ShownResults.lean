import DiceNotation.Proofs.Evaluation.Handling
import DiceNotation.Proofs.Evaluation.WrittenArithmetic
import DiceNotation.Proofs.Formula.SignedOperands
import DiceNotation.Roll.Explanation

namespace DiceNotation

/-!
# Results as formulas

The result of an evaluated roll shows the totals of its operands with the operators between
them.  If these totals are integers and the operators are exact, the result is a formula.
A negative total brings a minus sign into the text, which is read as a part of the row of
operators in front of it.  The formula is rolled to the total of the roll all the same.
-/

/-! ## The text of a row of integers -/

namespace Arithmetic

/-- The row of an operator alone. -/
def rowOf (op : Operator) : List Char := op.symbol.toList

theorem rowOf_eq (op : Operator) : ∃ c, rowOf op = [c] ∧ Operator.ofChar? c = some op := by
  cases op <;> exact ⟨_, rfl, rfl⟩

theorem rowOf_meansExactly {op : Operator} (isExact : IsExact op) :
    MeansExactly (rowOf op) op false := by
  refine ⟨?_, isExact⟩
  cases op <;> decide

theorem isRow_rowOf {op : Operator} (isExact : IsExact op) : IsRow (rowOf op) := by
  obtain ⟨c, alone, read⟩ := rowOf_eq op
  have means := (rowOf_meansExactly isExact).1
  rw [alone] at means ⊢
  refine ⟨List.cons_ne_nil _ _, ?_, Option.isSome_of_eq_some means, fun member => ?_,
    fun member => ?_⟩
  · intro d member
    rw [List.mem_singleton.1 member, read]
    rfl
  · rw [← List.mem_singleton.1 member] at read
    exact isExact.1 (Option.some.inj read).symm
  · rw [← List.mem_singleton.1 member] at read
    exact isExact.2 (Option.some.inj read).symm

/-- Integers behind the first one as operands, each behind its operator. -/
def joinedIntegers (rest : List (Operator × Int)) : List (List Char × Signed) :=
  rest.map fun next => (rowOf next.1, Signed.ofInt next.2)

/-- Integers with operators between them as an expression. -/
def Expression.ofIntegers (first : Int) (rest : List (Operator × Int)) : Expression :=
  .ofSigned [] (Signed.ofInt first) (joinedIntegers rest)

/-- The texts of integers with operators between them. -/
def textsOf (first : Int) (rest : List (Operator × Int)) : List String :=
  toString first :: rest.flatMap fun next => [next.1.symbol, toString next.2]

theorem amounts_joinedIntegers {rest : List (Operator × Int)}
    (allExact : ∀ next ∈ rest, IsExact next.1) : Amounts (joinedIntegers rest) rest := by
  induction rest with
  | nil => exact .nil
  | cons next rest ih =>
    obtain ⟨here, others⟩ := List.forall_mem_cons.1 allExact
    exact .cons (rowOf_meansExactly here) (Signed.integer_ofInt next.2) (ih others)

theorem Expression.integer_ofIntegers (first : Int) {rest : List (Operator × Int)}
    (allExact : ∀ next ∈ rest, IsExact next.1) :
    (Expression.ofIntegers first rest).integer = integers.total first rest :=
  Expression.integer_ofSigned [] (Signed.integer_ofInt first) (amounts_joinedIntegers allExact)

theorem Expression.isProper_ofIntegers (first : Int) {rest : List (Operator × Int)}
    (allExact : ∀ next ∈ rest, IsExact next.1) : (Expression.ofIntegers first rest).IsProper := by
  refine Expression.isProper_ofSigned (fun _ member => absurd member List.not_mem_nil)
    (Signed.isProper_ofInt first) fun next member => ?_
  obtain ⟨⟨op, n⟩, inside, rfl⟩ := List.mem_map.1 member
  exact ⟨isRow_rowOf (allExact _ inside), Signed.isProper_ofInt n⟩

theorem Expression.depth_ofIntegers (first : Int) (rest : List (Operator × Int)) :
    (Expression.ofIntegers first rest).depth = 0 := by
  have flat : joinedDepth (attached (joinedIntegers rest)) = 0 := by
    induction rest with
    | nil => rfl
    | cons next rest ih =>
      change max 0 (joinedDepth (attached (joinedIntegers rest))) = 0
      rw [ih]
      rfl
  change max 0 (joinedDepth (attached (joinedIntegers rest))) = 0
  rw [flat]
  rfl

theorem blank_space : ∀ c ∈ [' '], Text.isBlank c = true := Text.forall_of_all (by decide)

/-- Texts as they stand behind a first one, each behind a blank. -/
def spacedTexts (texts : List String) : List Char := texts.flatMap fun part => ' ' :: part.toList

theorem toList_intercalate (first : String) (texts : List String) :
    (" ".intercalate (first :: texts)).toList = first.toList ++ spacedTexts texts := by
  induction texts generalizing first with
  | nil =>
    rw [String.intercalate_singleton]
    exact (List.append_nil _).symm
  | cons second texts ih =>
    rw [String.intercalate_cons_cons, String.toList_append, String.toList_append, ih,
      List.append_assoc]
    rfl

theorem spaced_joinedIntegers (rest : List (Operator × Int)) :
    Spaced (joinedTokens (attached (joinedIntegers rest)))
      (spacedTexts (rest.flatMap fun next => [next.1.symbol, toString next.2])) := by
  induction rest with
  | nil => exact .nil
  | cons next rest ih =>
    obtain ⟨op, n⟩ := next
    obtain ⟨c, alone, _⟩ := rowOf_eq op
    have value := Signed.spaced_ofInt n ih blank_space
    have row : Spaced ([c] :: _) ([' '] ++ ([c] ++ _)) := .cons blank_space value
    change Spaced (marks (rowOf op ++ signOf (Signed.ofInt n).negative) ++ _)
      (' ' :: (rowOf op ++ (' ' :: ((toString n).toList ++ _))))
    rw [Signed.tokens, List.append_assoc] at row
    rw [alone]
    exact row

theorem Expression.ofIntegers_writes (first : Int) (rest : List (Operator × Int)) :
    (Expression.ofIntegers first rest).Writes (" ".intercalate (textsOf first rest)) := by
  have none : ∀ c ∈ ([] : List Char), Text.isBlank c = true := by simp
  have whole := Signed.spaced_ofInt first (spaced_joinedIntegers rest) none
  rw [Signed.tokens, List.append_assoc] at whole
  refine ⟨_, [], whole, none, ?_⟩
  rw [textsOf, toList_intercalate]
  simp

/-- A formula that is rolled was parsed. -/
theorem RollsTo.parses {setup : Setup} {formula : String} {value : Option Number}
    (rolls : RollsTo setup formula value) :
    ∃ tree, Build.parseFormula setup formula none = .ok tree := by
  obtain ⟨roll, last, built, _⟩ := rolls .empty
  obtain ⟨text, tree, _, _, _, replaced, parsed, _⟩ := Build.ofFormula_eq_ok.1 built
  rw [Reference.replaceText_nothing] at replaced
  cases replaced
  exact ⟨tree, parsed⟩

/-- The text of a row of integers with exact operators is rolled to the total of the row. -/
theorem rollsTo_textsOf {setup : Setup} {settings : Settings} (valid : setup.settings = .ok settings)
    {first : Int} {rest : List (Operator × Int)} (allExact : ∀ next ∈ rest, IsExact next.1)
    {n : Int} (total : integers.total first rest = some n) :
    RollsTo setup (" ".intercalate (textsOf first rest)) (some (.int n)) := by
  have proper := Expression.isProper_ofIntegers first allExact
  have shallow : (Expression.ofIntegers first rest).depth ≤ settings.maxNesting := by
    rw [Expression.depth_ofIntegers]
    exact Nat.zero_le _
  obtain ⟨m, integer, rolls⟩ := ((Expression.roll_eq_value proper.shape
    (Expression.ofIntegers_writes first rest) valid).1 proper.meaningful shallow).2 proper.polynomial
  rw [Expression.integer_ofIntegers first allExact, total] at integer
  cases integer
  exact rolls

end Arithmetic

/-! ## Evaluated rolls -/

/-- The total of a term if it is an integer. -/
def Ledger.integer? (ledger : Ledger) (term : Term) : Option Int :=
  match ledger.total term with
  | .ok (.number (.int n)) => some n
  | _ => none

def Ledger.integerOf (ledger : Ledger) (term : Term) : Int := (ledger.integer? term).getD 0

/-- Whether a term has an integer as its total. -/
def Term.IsInteger (ledger : Ledger) (term : Term) : Prop :=
  ledger.total term = .ok (.number (.int (ledger.integerOf term)))

/-- Whether a term is no operator, or joins integers exactly. -/
def Term.JoinsExactly : Term → Prop
  | .operator _ op => Arithmetic.IsExact op
  | _ => True

instance : (term : Term) → Decidable term.JoinsExactly
  | .operator _ op => inferInstanceAs (Decidable (op ≠ .div ∧ op ≠ .rem))
  | .numeric _ _ => .isTrue trivial
  | .text _ _ => .isTrue trivial
  | .group _ _ => .isTrue trivial
  | .function _ _ _ => .isTrue trivial
  | .dice _ => .isTrue trivial
  | .pool _ => .isTrue trivial

/-- The integers behind the first one in a row, each behind its operator. -/
def TermRow.integers (row : TermRow) (ledger : Ledger) : List (Operator × Int) :=
  Tree.valued ledger.integerOf row.joined

section

variable {ledger : Ledger}

theorem Term.isInteger_of_total {term : Term} {n : Int}
    (total : ledger.total term = .ok (.number (.int n))) : term.IsInteger ledger := by
  rw [Term.IsInteger, Ledger.integerOf, Ledger.integer?, total]
  rfl

theorem Ledger.total_of_integer? {term : Term} (known : (ledger.integer? term).isSome = true) :
    ∃ n : Int, ledger.total term = .ok (.number (.int n)) := by
  obtain ⟨n, found⟩ := Option.isSome_iff_exists.1 known
  unfold Ledger.integer? at found
  split at found
  · rename_i m total
    exact ⟨m, total⟩
  · cases found

/-- The text of an operand whose total is an integer. -/
theorem Ledger.resultPart_of_isInteger {term : Term} (evaluated : ledger.isEvaluated term = true)
    (isInteger : term.IsInteger ledger) :
    ledger.resultPart term = .ok (toString (ledger.integerOf term)) := by
  have total : ledger.totalOf term = .ok (.number (.int (ledger.integerOf term))) := by
    rw [← isInteger, Ledger.total, if_pos evaluated]
  unfold Ledger.resultPart
  rw [if_pos evaluated, total]
  rfl

theorem Ledger.resultPart_operator {tag : Tag} {op : Operator}
    (evaluated : ledger.isEvaluated (.operator tag op) = true) :
    ledger.resultPart (.operator tag op) = .ok op.symbol := by
  unfold Ledger.resultPart
  rw [if_pos evaluated]
  rfl

theorem mapM_resultPart (rest : List (Tag × Operator × Term))
    (evaluated : ∀ term ∈ TermRow.joinedTerms rest, ledger.isEvaluated term = true)
    (integers : ∀ next ∈ rest, next.2.2.IsInteger ledger) :
    (TermRow.joinedTerms rest).mapM ledger.resultPart =
      .ok (rest.flatMap fun next => [next.2.1.symbol, toString (ledger.integerOf next.2.2)]) := by
  induction rest with
  | nil => rfl
  | cons next rest ih =>
    obtain ⟨tag, op, term⟩ := next
    obtain ⟨here, others⟩ := List.forall_mem_cons.1 integers
    obtain ⟨operator, behind⟩ := List.forall_mem_cons.1 evaluated
    obtain ⟨operand, later⟩ := List.forall_mem_cons.1 behind
    change (.operator tag op :: term :: TermRow.joinedTerms rest).mapM ledger.resultPart = _
    rw [List.mapM_cons, List.mapM_cons, Ledger.resultPart_operator operator,
      Ledger.resultPart_of_isInteger operand here, ih later others]
    rfl

namespace TermRow

variable {row : TermRow} (integers : ∀ term ∈ row.operands, term.IsInteger ledger)
include integers

/-- The result of a row of integers shows these integers. -/
theorem mapM_resultPart (evaluated : ∀ term ∈ row.terms, ledger.isEvaluated term = true) :
    row.terms.mapM ledger.resultPart =
      .ok (Arithmetic.textsOf (ledger.integerOf row.first) (row.integers ledger)) := by
  obtain ⟨first, others⟩ := List.forall_mem_cons.1 integers
  obtain ⟨head, behind⟩ := List.forall_mem_cons.1 evaluated
  have tail := DiceNotation.mapM_resultPart row.rest behind fun next member =>
    others _ (List.mem_map_of_mem member)
  have same : (row.rest.flatMap fun next =>
      [next.2.1.symbol, toString (ledger.integerOf next.2.2)]) =
      (row.integers ledger).flatMap fun next => [next.1.symbol, toString next.2] := by
    simp [TermRow.integers, Tree.valued, joined, List.flatMap_map]
  change (row.first :: joinedTerms row.rest).mapM ledger.resultPart = _
  rw [List.mapM_cons, Ledger.resultPart_of_isInteger head first, tail, same]
  rfl

/-- The total of a row of integers is the total of these integers. -/
theorem totalOfTerms_of_integers (proper : row.IsProper) {n : Int}
    (total : Arithmetic.integers.total (ledger.integerOf row.first) (row.integers ledger) = some n) :
    ledger.totalOfTerms row.terms = .ok (.number (.int n)) := by
  have number : ∀ term ∈ row.operands, ledger.numberOf term = .int (ledger.integerOf term) :=
    fun term member => Ledger.numberOf_of_total (integers term member)
  have behind : (row.amounts ledger.numberOf).2 =
      Arithmetic.mapped Number.int (row.integers ledger) := by
    rw [TermRow.integers, Arithmetic.mapped, Tree.valued, List.map_map]
    refine List.map_congr_left fun next member => ?_
    obtain ⟨whole, inside, rfl⟩ := List.mem_map.1 member
    exact congrArg _ (number _ (List.mem_cons_of_mem _ (List.mem_map_of_mem inside)))
  have amounts : row.AmountsTo ledger (row.amounts ledger.numberOf) := by
    refine ⟨fun term member => ?_, rfl⟩
    rw [number term member]
    exact integers term member
  have gives := amounts.total proper
  rw [behind, TermRow.amounts, number row.first List.mem_cons_self,
    Arithmetic.integers_embed.total total] at gives
  exact gives

end TermRow

/-- A row of terms with exact operators has exact operators between its integers. -/
theorem TermRow.integers_exact (row : TermRow) (ledger : Ledger)
    (operators : ∀ term ∈ row.terms, term.JoinsExactly) :
    ∀ next ∈ row.integers ledger, Arithmetic.IsExact next.1 := by
  intro next member
  obtain ⟨joined, inside, rfl⟩ := List.mem_map.1 member
  obtain ⟨whole, place, rfl⟩ := List.mem_map.1 inside
  exact operators (.operator whole.1 whole.2.1)
    (List.mem_cons_of_mem _ (List.mem_flatMap.2 ⟨whole, place, List.mem_cons_self⟩))

end

namespace Build

variable {setup : Setup}

/-- A row in which two of the operands come out negative. -/
def mixedRoll : Except Fault (Roll × Ledger) :=
  ofFormula usual { formula := "-(2d6kh) - 2 * -(3)", method := .string "random" } .empty

end Build
end DiceNotation
