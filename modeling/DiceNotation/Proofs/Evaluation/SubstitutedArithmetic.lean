import DiceNotation.Proofs.Evaluation.WrittenArithmetic
import DiceNotation.Proofs.Formula.Substitution

namespace DiceNotation

open Text

namespace Arithmetic

/-!
# Rolling arithmetic with data

A formula of arithmetic with references is rolled to its value under the data.  The references
are replaced in the text, and the replaced text is written arithmetic: what stands for each
reference is a signed operand with the value of its datum.  The only thing that the data can
do to the formula as a whole is to nest its brackets deeper than the settings allow.
-/

/-- Open arithmetic is rolled to its value.  Every path must lead to data that denote the
integer assigned to it: an integer, a truth value, or a text of arithmetic.  The references are
then replaced, and if the replaced text opens no more brackets at once than there are levels,
the total of the roll is the value of the expression. -/
theorem OpenExpression.rollsWith {expression : OpenExpression} (proper : expression.IsProper)
    {formula : String} (writes : expression.Writes formula) {data : Fields}
    {assignment : List Char → Int} (assigns : Assigns data assignment expression.paths)
    {setup : Setup} {settings : Settings} (valid : setup.settings = .ok settings) :
    ∃ n text, expression.integer assignment = some n ∧
      Reference.replaceText formula data none = .ok text ∧
      (bracketDepth 0 text.toList ≤ settings.maxNesting →
        RollsWith setup { formula := formula, data := data } (some (.int n))) := by
  have chosen : ∀ path, ∃ signed, path ∈ expression.paths → ∃ value,
      Reference.lookUp (.object data) (path.splitOn '.') = some value ∧
        Inserts path value (assignment path) signed := by
    intro path
    by_cases member : path ∈ expression.paths
    · obtain ⟨value, found, denotes⟩ := assigns path member
      obtain ⟨signed, inserts⟩ := denotes.inserts path
      exact ⟨signed, fun _ => ⟨value, found, inserts⟩⟩
    · exact ⟨⟨false, .literal []⟩, fun present => absurd present member⟩
  choose insert inserts using chosen
  obtain ⟨n, integer, filled, whole⟩ := expression.fill_amounts proper fun path member =>
    have ⟨_, _, stands⟩ := inserts path member
    ⟨stands.proper, stands.integer⟩
  obtain ⟨text, gap, spaced, blank, same⟩ := writes
  obtain ⟨replaced, found, written⟩ := spaced.replace (expression.pieces_hold proper inserts) blank
  rw [← expression.tokens_fill] at written
  have becomes : Reference.replaceText formula data none = .ok (String.ofList (replaced ++ gap)) := by
    rw [Reference.replaceText, same, found]
  refine ⟨n, String.ofList (replaced ++ gap), integer, becomes, fun bounded => ?_⟩
  rw [String.toList_ofList, Expression.bracketDepth_eq _ whole.shape written] at bounded
  have deep : (expression.fill insert).depth ≤ settings.maxNesting := by
    rw [Nat.zero_add] at bounded
    exact Nat.le_trans (Nat.le_max_left _ _) bounded
  have writesToo : (expression.fill insert).Writes (String.ofList (replaced ++ gap)) :=
    ⟨replaced, gap, written, blank, String.toList_ofList⟩
  let source : Source := ⟨(String.ofList (replaced ++ gap)).toList, settings.imputeNumber,
    settings.maxNesting⟩
  obtain ⟨tree, read, arithmetic, amount⟩ :=
    Expression.parse_found whole.shape whole.meaningful writesToo source rfl deep
  have parsed := (Build.parseFormula_of_settings valid (String.ofList (replaced ++ gap))).trans read
  have rolls := rollsWith_of_parse valid { formula := formula, data := data } rfl
    becomes parsed arithmetic
  rw [amount, Expression.value, integers_embed.ofExpression _ filled] at rolls
  exact rolls

/-- An expression whose references stand for a negative integer, a truth value and a text. -/
def openSample : OpenExpression :=
  .run [] (.literal ['2']) [
    (['-'], .reference "hero.level".toList),
    (['*'], .group (.run [] (.reference "bonus".toList) [(['+'], .literal ['3'])])),
    (['*', '-'], .reference "size".toList)]

def sampleData : Fields :=
  [("hero", .object [("level", .number (.int (-4)))]), ("bonus", .bool true),
    ("size", .string "(1 + 2) * 2")]

def sampleAssignment (path : List Char) : Int :=
  if path = "hero.level".toList then -4 else if path = "bonus".toList then 1 else 6

theorem endsReference_cons {c : Char} (rest : List Char)
    (ends : isBlank c = true ∨ c = ')' ∨ c = '+' ∨ c = '*') : EndsReference (c :: rest) := by
  rintro _ ⟨⟩
  exact ends

theorem openSample_writes : openSample.Writes "2 - @hero.level*(@bonus+3) *-@size" := by
  refine ⟨"2 - @hero.level*(@bonus+3) *-@size".toList, [], ?_, by simp, by simp⟩
  have blank : ∀ c ∈ [' '], isBlank c = true := forall_of_all (by decide)
  have none : ∀ c ∈ ([] : List Char), isBlank c = true := by simp
  have last : EndsReference [] := nofun
  exact .token none <| .token blank <|
    .reference blank (endsReference_cons _ (.inr (.inr (.inr rfl)))) <| .token none <|
    .token none <| .reference none (endsReference_cons _ (.inr (.inr (.inl rfl)))) <|
    .token none <| .token none <| .token none <| .token blank <| .token none <|
    .reference none last .nil

/-- Twice the sum of one and two. -/
def sampleText : Expression :=
  .run [] (.group (.run [] (.literal ['1']) [(['+'], .literal ['2'])])) [(['*'], .literal ['2'])]

theorem sampleText_isProper : sampleText.IsProper := by
  refine ⟨?_, ?_, ?_⟩
  · simp only [sampleText, Expression.HasShape, Operand.HasShape, JoinedHaveShape,
      List.forall_mem_cons, List.not_mem_nil, false_implies, implies_true]
    decide
  · simp only [sampleText, Expression.IsMeaningful, Operand.IsMeaningful, JoinedAreMeaningful,
      List.not_mem_nil, false_implies, implies_true]
    decide
  · simp only [sampleText, Expression.IsPolynomial, Operand.IsPolynomial, JoinedArePolynomial]
    decide

theorem sampleText_writes : sampleText.Writes "(1 + 2) * 2" := by
  refine ⟨"(1 + 2) * 2".toList, [], ?_, by simp, by simp⟩
  have blank : ∀ c ∈ [' '], isBlank c = true := forall_of_all (by decide)
  have none : ∀ c ∈ ([] : List Char), isBlank c = true := by simp
  exact .cons none <| .cons none <| .cons blank <| .cons blank <| .cons none <| .cons blank <|
    .cons blank .nil

theorem openSample_assigns : Assigns sampleData sampleAssignment openSample.paths := by
  refine List.forall_mem_cons.2 ⟨?_, List.forall_mem_cons.2 ⟨?_, List.forall_mem_singleton.2 ?_⟩⟩
  · exact ⟨_, rfl, .integer (-4)⟩
  · exact ⟨_, rfl, .truth true⟩
  · exact ⟨_, rfl, .text sampleText_isProper sampleText_writes rfl⟩

theorem openSample_isProper : openSample.IsProper := by
  have minus : IsRow ['-'] :=
    ⟨by decide, forall_of_all (by decide), by decide, by decide, by decide⟩
  have plus : IsRow ['+'] :=
    ⟨by decide, forall_of_all (by decide), by decide, by decide, by decide⟩
  have times : IsRow ['*'] :=
    ⟨by decide, forall_of_all (by decide), by decide, by decide, by decide⟩
  have opposite : IsRow ['*', '-'] :=
    ⟨by decide, forall_of_all (by decide), by decide, by decide, by decide⟩
  have path (name : String) (present : name.toList ≠ [])
      (inside : name.toList.all (fun c => decide (Reference.insidePath c = true)) = true) :
      (OpenOperand.reference name.toList).IsProper := ⟨present, forall_of_all inside⟩
  have number (c : Char) (digit : isDigit c = true) : (OpenOperand.literal [c]).IsProper :=
    ⟨List.cons_ne_nil _ _, List.forall_mem_singleton.2 digit⟩
  have none : ∀ c ∈ ([] : List Char), isSign c = true := by simp
  exact ⟨none, number '2' (by decide), minus, path "hero.level" (by decide) (by decide), times,
    ⟨none, path "bonus" (by decide) (by decide), plus, number '3' (by decide), trivial⟩, opposite,
    path "size" (by decide) (by decide), trivial⟩

theorem openSample_rollsWith :
    RollsWith ⟨.ok {}, .standard⟩
      { formula := "2 - @hero.level*(@bonus+3) *-@size", data := sampleData }
      (some (.int (-94))) := by
  obtain ⟨n, text, integer, becomes, rolls⟩ := OpenExpression.rollsWith openSample_isProper
    openSample_writes openSample_assigns (rfl : (Setup.mk (.ok {}) .standard).settings = .ok {})
  have value : openSample.integer sampleAssignment = some (-94) := by decide
  have shallow : (Reference.replaceText "2 - @hero.level*(@bonus+3) *-@size" sampleData
      none).toOption.all (fun text => decide (bracketDepth 0 text.toList ≤ 64)) = true := by
    decide +kernel
  rw [value] at integer
  rw [becomes] at shallow
  cases integer
  exact rolls (of_decide_eq_true shallow)

end Arithmetic
end DiceNotation
