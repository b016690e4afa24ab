import DiceNotation.Proofs.Formula.Levels
import DiceNotation.Proofs.Formula.Rereading

namespace DiceNotation

open Text

/-!
# Texts that are multiplied and added to

Behind the text of a clause a factor and a summand are written, each with its sign.  The sign
of the factor is read as part of it, because it stands behind a product sign.  The sign of the
summand is reduced with the plus sign before it, so that a negative summand is subtracted.  Of
the three operands the first two belong together.
-/

/-- An integer as a clause. -/
def Clause.ofInt (n : Int) : Clause := .numeric (.int n) none (Number.int n).plainText

/-- The operator by which the magnitude of an integer is added with its sign. -/
def Operator.adding (n : Int) : Operator := if n < 0 then .sub else .add

/-- A clause that is multiplied by an integer, and to which another one is added. -/
def Clause.scaled (clause : Clause) (m a : Int) : Tree Clause :=
  .node (.adding a) (.node .mul (.leaf clause) (.leaf (.ofInt m))) (.leaf (.ofInt a.natAbs))

/-- A factor and a summand as they are written behind a text. -/
def scaleText (m a : Int) : String :=
  " * " ++ (Number.int m).plainText ++ " + " ++ (Number.int a).plainText

section

variable {source : Source} {inner : Option ExpressionReader}

theorem ofInt_rereads (n : Int) : (Clause.ofInt n).unsigned.Rereads source inner :=
  numeric_rereads isFlavor_none _

/-- A plus sign, and the sign of the integer behind it. -/
theorem operators_adding {a : Int} (rereads : (Clause.ofInt a).unsigned.Rereads source inner)
    (rest : List Char) :
    ∃ row gap, (∀ c ∈ gap, isBlank c = true) ∧ reduceRun row = some (Operator.adding a, false) ∧
      ∃ shorter, Lexeme.operators (' ' :: '+' :: ' ' ::
        ((Clause.ofInt a).canonical.raw.toList ++ rest)) = some ⟨row,
          gap ++ ((Clause.ofInt a).unsigned.canonical.raw.toList ++ rest), shorter⟩ := by
  cases signed : (Clause.ofInt a).isNegative with
  | false =>
    have plain : Operator.adding a = .add := if_neg (of_decide_eq_false signed)
    have sign : (Clause.ofInt a).isNegative = true → Operator.add.isMultiplicative = true :=
      fun negative => absurd (signed.symm.trans negative) Bool.false_ne_true
    have found := operators_textBehind sign rereads rest
    rw [signed] at found
    rw [plain]
    exact found
  | true =>
    -- the signs are reduced together, which leaves no sign to the integer
    have minus : Operator.adding a = .sub := if_pos (of_decide_eq_true signed)
    have blank : isBlank ' ' = true := by decide
    have operator : Lexeme.isOperator '-' = true := by decide
    have spaced : ∀ d ∈ [' ', '+', ' ', '-'], isBlank d = true ∨ Lexeme.isOperator d = true := by
      simp only [List.forall_mem_cons]
      exact ⟨.inl blank, .inr (by decide), .inl blank, .inr operator, nofun⟩
    have found := Lexeme.operators_append spaced rfl operator
      (rereads.no_operator [] (by simp) rest)
    refine ⟨['+', '-'], [], by simp, by rw [minus]; decide, ?_⟩
    rw [(Clause.ofInt a).raw_canonical, signed]
    exact found

theorem endsClause_operator {c : Char} (operator : Lexeme.isOperator c = true)
    (rest : List Char) : EndsClause (' ' :: c :: rest) := by
  intro d first
  rw [skipBlanks_cons_blank (by decide), skipBlanks_cons (Lexeme.isBlank_of_isOperator operator)]
    at first
  cases first
  rw [operator, Bool.true_or]

/-- The text of a clause with a factor and a summand behind it is read as it is meant. -/
theorem scaled_finds {clause : Clause} (rereads : clause.Rereads source inner) (m a : Int) :
    Finds (source.expression (source.clause inner)
      (clause.canonical.raw.toList ++ (scaleText m a).toList))
      (clause.canonical.scaled m a) [] := by
  let summand : List Char := (Clause.ofInt a).canonical.raw.toList
  let behind : List Char := ' ' :: '+' :: ' ' :: (summand ++ [])
  let factor : List Char := (Clause.ofInt m).canonical.raw.toList
  have raw (n : Int) : (Clause.ofInt n).canonical.raw = (Number.int n).plainText := rfl
  have text : (scaleText m a).toList = ' ' :: '*' :: ' ' :: (factor ++ behind) := by
    simp [scaleText, factor, behind, summand, raw]
  have ends : EndsClause behind := endsClause_operator (by decide) _
  have finished : EndsClause [] := fun _ first => nomatch first
  have nothing : Lexeme.operators [] = none := rfl
  have multiplicative : (Clause.ofInt m).isNegative = true →
      Operator.mul.isMultiplicative = true := fun _ => rfl
  have times : (Clause.ofInt m).unsigned.Rereads source inner := ofInt_rereads m
  have plus : (Clause.ofInt a).unsigned.Rereads source inner := ofInt_rereads a
  obtain ⟨row, gap, blank, multiplies, taken⟩ := operators_textBehind multiplicative times behind
  obtain ⟨more, space, blanks, adds, takenToo⟩ := operators_adding plus []
  have first := rereads.finds [] (by simp)
    (endsClause_operator (by decide : Lexeme.isOperator '*' = true) (' ' :: (factor ++ behind)))
  have following := Scan.following_of_operators taken (times.finds gap blank ends)
    (Scan.following_of_operators takenToo (plus.finds space blanks finished)
      (Scan.following_of_no_operators nothing))
  have joined : Run.joined [(row, (Clause.ofInt m).unsigned.canonical),
      (more, (Clause.ofInt a).unsigned.canonical)] =
      some [(.mul, .ofInt m), (.adding a, .ofInt a.natAbs)] := by
    simp only [Run.joined, multiplies, adds, Option.bind_eq_bind, Option.bind_some,
      Option.pure_def, (Clause.ofInt m).signed_unsigned]
    rfl
  have signs : Lexeme.splitSigns (clause.canonical.raw.toList ++ (scaleText m a).toList) =
      ([], clause.canonical.raw.toList ++ (scaleText m a).toList) := by
    obtain ⟨c, more, begins, inside, _⟩ := rereads
    have visible := visible_of_not_boundary inside
    rw [begins, List.cons_append]
    refine @Lexeme.splitSigns_append [] (fun _ member => absurd member List.not_mem_nil) _ ?_
    rintro d ⟨⟩
    exact ⟨visible.1, visible.2.2.2⟩
  rw [text] at signs ⊢
  refine source.expression_finds signs first following ?_
  rw [Run.tree_of_joined _ joined]
  unfold Clause.scaled Operator.adding
  split <;> rfl

end

/-- If a bracketed canonical text with a factor and a summand behind it can be parsed, then it is
parsed as it is meant. -/
theorem parse_scaled {tree : Tree Clause} (row : tree.IsRow)
    (readable : TreeThroughout Clause.IsReadable tree) {raw : String} {m a : Int} {source : Source}
    (text : source.text = ((Clause.group tree none raw).canonical.raw ++ scaleText m a).toList)
    {found : Tree Clause} (parsed : source.parse = .ok found) :
    found = (Clause.group tree none raw).canonical.scaled m a := by
  have inside := rereadsUpTo source (treeNesting tree) tree row readable (Nat.le_refl _)
  have bracketed : (Clause.group tree none raw).Rereads source
      (some (source.expressionAt (treeNesting tree))) := group_rereads inside isFlavor_none raw
  have finds := scaled_finds bracketed m a
  rw [← String.toList_append, ← text] at finds
  exact @Source.parse_eq_of_finds _ _ _ parsed (treeNesting tree + 1) _ finds

end DiceNotation
