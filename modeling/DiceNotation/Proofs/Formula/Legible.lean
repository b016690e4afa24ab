import DiceNotation.Proofs.Formula.Canonical

namespace DiceNotation

open Text

/-!
# What the scanner yields

Every tree that the scanner yields is legible: it is the tree of a row of clauses, and
every clause in it has a name, a word, modifiers and a flavor that can be read again.
A clause that was read has no sign of its own.  It may get one from the run that it
stands in, but only in front of the run or behind a multiplicative operator.
-/

namespace Lexeme

/-- Whether a text can be read as the name of a function. -/
def IsName (name : List Char) : Prop :=
  ∃ c more, name = c :: more ∧ beginsName c = true ∧ (∀ d ∈ name, insideName d = true) ∧
    lower name ≠ ['d']

/-- Whether a text can be read as a word. -/
def IsWord (word : List Char) : Prop :=
  ∃ c more, word = c :: more ∧ (∀ d ∈ word, insideWord d = true) ∧ isDigitLike c = false ∧
    (isDieSign c && opensDice more) = false

end Lexeme

/-! ## Legible clauses and trees -/

/-- Whether a clause is a number with a minus sign. -/
def Clause.isNegative : Clause → Bool
  | .numeric (.int n) _ _ => decide (n < 0)
  | _ => false

/-- Whether a tree is the tree of its row, and all numbers with a minus sign stand where
a sign can be read. -/
structure Tree.IsRow (tree : Tree Clause) : Prop where
  grouped : tree = Tree.ofRun (.leaf tree.row.1) (Tree.singles tree.row.2)
  signs : ∀ joined ∈ tree.row.2, joined.2.isNegative = true → joined.1.isMultiplicative = true

def Amount.IsRow : Amount Clause → Prop
  | known _ => True
  | computed inner _ => inner.IsRow

def Faces.IsRow : Faces Clause → Prop
  | amount a => a.IsRow
  | letter _ => True

/-- Whether what a clause says, apart from what is inside it, can be read again. -/
def Clause.IsLegible : Clause → Prop
  | .numeric _ flavor _ => Lexeme.IsFlavor flavor
  | .dice number faces modifiers flavor _ =>
    number.IsRow ∧ faces.IsRow ∧ Command.IsRun modifiers.toList ∧ Lexeme.IsFlavor flavor
  | .function name arguments flavor _ =>
    Lexeme.IsName name.toList ∧ (∀ tree ∈ arguments, tree.IsRow) ∧ Lexeme.IsFlavor flavor
  | .pool members modifiers flavor _ =>
    members ≠ [] ∧ (∀ tree ∈ members, tree.IsRow) ∧ Command.IsRun modifiers.toList ∧
      Lexeme.IsFlavor flavor
  | .group inner flavor _ => inner.IsRow ∧ Lexeme.IsFlavor flavor
  | .text word flavor _ => Lexeme.IsWord word.toList ∧ Lexeme.IsFlavor flavor

/-- Whether a tree can be read again. -/
structure Tree.IsLegible (tree : Tree Clause) : Prop where
  row : tree.IsRow
  clauses : TreeThroughout Clause.IsLegible tree

/-- Whether a clause is as it is read, without a sign. -/
structure Clause.IsPlain (clause : Clause) : Prop where
  legible : clause.Throughout Clause.IsLegible
  unsigned : clause.isNegative = false

/-! ## Signs -/

theorem isFlavor_none : Lexeme.IsFlavor none := by
  intro text none
  cases none

/-- The product of a clause and minus one is legible. -/
theorem isLegible_product {clause : Clause} (legible : clause.Throughout Clause.IsLegible) :
    (Tree.node .mul (.leaf clause) (.leaf minusOne)).IsLegible where
  row := by
    refine ⟨rfl, ?_⟩
    intro joined member _
    rcases List.mem_singleton.1 member with rfl
    rfl
  clauses := ⟨legible, show Lexeme.IsFlavor none from isFlavor_none⟩

theorem Clause.IsPlain.opposite {clause : Clause} (plain : clause.IsPlain) :
    clause.opposite.Throughout Clause.IsLegible := by
  have group (raw : String) : (Clause.group (Tree.node .mul (.leaf clause) (.leaf minusOne)) none
      raw).Throughout Clause.IsLegible :=
    ⟨⟨(isLegible_product plain.legible).row, isFlavor_none⟩, (isLegible_product plain.legible).clauses⟩
  cases clause with
  | numeric value flavor raw => exact plain.legible
  | _ => exact group _

theorem Clause.IsPlain.signed {clause : Clause} (plain : clause.IsPlain) (negative : Bool) :
    (clause.signed negative).Throughout Clause.IsLegible := by
  cases negative with
  | false => exact plain.legible
  | true => exact plain.opposite

/-- A clause gets a sign behind a multiplicative operator only. -/
theorem reduceRun_negative {operators : List Char} {op : Operator}
    (reduced : reduceRun operators = some (op, true)) : op.isMultiplicative = true := by
  unfold reduceRun at reduced
  split at reduced
  · cases reduced
  · split at reduced
    · cases reduced
    · split at reduced
      · split at reduced
        · rename_i tight
          rcases Prod.mk.inj (Option.some.inj reduced) with ⟨rfl, _⟩
          exact (Bool.and_eq_true_iff.1 tight).1
        · cases reduced
      · cases reduced

namespace Run

theorem joined_legible {rest : List (List Char × Clause)} {clauses : List (Operator × Clause)}
    (reduces : joined rest = some clauses) (plain : ∀ next ∈ rest, next.2.IsPlain) :
    (∀ next ∈ clauses, next.2.Throughout Clause.IsLegible) ∧
      ∀ next ∈ clauses, next.2.isNegative = true → next.1.isMultiplicative = true := by
  induction rest generalizing clauses with
  | nil =>
    cases reduces
    exact ⟨by simp, by simp⟩
  | cons next rest ih =>
    rcases next with ⟨operators, clause⟩
    simp only [joined, Option.bind_eq_bind, Option.bind_eq_some_iff, Option.pure_def,
      Option.some.injEq] at reduces
    rcases reduces with ⟨⟨op, negative⟩, reduced, more, later, rfl⟩
    have here := plain _ List.mem_cons_self
    rcases ih later fun next member => plain next (List.mem_cons_of_mem _ member) with
      ⟨legible, signs⟩
    constructor
    · intro next member
      rcases List.mem_cons.1 member with rfl | member
      · exact here.signed negative
      · exact legible next member
    · intro next member sign
      rcases List.mem_cons.1 member with rfl | member
      · cases negative with
        | false =>
          have unsigned := here.unsigned
          change clause.isNegative = true at sign
          rw [unsigned] at sign
          cases sign
        | true => exact reduceRun_negative reduced
      · exact signs next member sign

/-- The tree of a run of plain clauses is legible. -/
theorem tree_legible {run : Run} {tree : Tree Clause} (built : run.tree = .ok tree)
    (first : run.first.IsPlain) (rest : ∀ next ∈ run.rest, next.2.IsPlain) : tree.IsLegible := by
  cases reduces : joined run.rest with
  | none =>
    rcases tree_of_not_joined run reduces with ⟨row, clause, _, _, stuck⟩
    rw [stuck] at built
    cases built
  | some clauses =>
    rw [tree_of_joined run reduces] at built
    cases built
    rcases joined_legible reduces rest with ⟨legible, signs⟩
    have row := Tree.row_ofRun (run.first.signed (negates run.signs)) clauses
    refine ⟨⟨by rw [row], by rw [row]; exact signs⟩, ?_⟩
    rw [treeThroughout_iff, row]
    exact ⟨first.signed _, legible⟩

end Run

/-! ## Readers -/

theorem isFlavor_splitFlavor (text : List Char) :
    Lexeme.IsFlavor (Lexeme.splitFlavor text).1 := by
  unfold Lexeme.splitFlavor
  split
  · split
    · intro flavor is member
      cases is
      rw [String.toList_ofList] at member
      have inside := Command.mem_takeWhile _ member
      cases inside
    · exact isFlavor_none
  · exact isFlavor_none

theorem isRun_modifiers (text : List Char) :
    Command.IsRun (String.ofList (Lexeme.modifiers text).value).toList := by
  rw [String.toList_ofList]
  exact Command.isRun_readRun text

theorem isName_functionName {c : Char} {rest : List Char} {name : Scanned (List Char) (c :: rest)}
    (yields : Lexeme.functionName c rest = some name) : Lexeme.IsName name.value := by
  unfold Lexeme.functionName at yields
  split at yields
  · rename_i first
    simp only at yields
    split at yields
    · rename_i called
      cases yields
      have inside : Lexeme.insideName c = true := by simp [Lexeme.insideName, first]
      refine ⟨c, rest.takeWhile Lexeme.insideName, ?_, first, Command.mem_takeWhile, ?_⟩
      · exact List.takeWhile_cons_of_pos inside
      · simpa using (Bool.and_eq_true_iff.1 called).2
    · cases yields
  · cases yields

/-- Whether a die sign begins dice is decided within the word that it may begin. -/
theorem opensDice_append {c : Char} {more rest : List Char}
    (ends : ∀ d, rest.head? = some d → isBasicLetter d = false) :
    Lexeme.opensDice (c :: more ++ rest) = Lexeme.opensDice (c :: more) := by
  have letters : (more ++ rest).takeWhile isBasicLetter = more.takeWhile isBasicLetter := by
    rw [List.takeWhile_append]
    split
    · rename_i whole
      rw [(Command.span_of_outside ends).1, List.append_nil]
      exact (List.takeWhile_prefix _).eq_of_length whole |>.symm
    · rfl
  simp only [List.cons_append, Lexeme.opensDice, letters]

theorem isBasicLetter_of_not_insideWord {c : Char} (outside : Lexeme.insideWord c = false) :
    isBasicLetter c = false := by
  cases letter : isBasicLetter c with
  | false => rfl
  | true =>
    have ends := not_boundary_of isBasicLetter_of_isBoundary letter
    simp only [isBoundary, isClosing, Bool.or_eq_false_iff] at ends
    have other {d : Char} (bracket : isBasicLetter d = false) : (c == d) = false := by
      refine beq_eq_false_iff_ne.2 ?_
      rintro rfl
      rw [bracket] at letter
      cases letter
    simp [Lexeme.insideWord, bne, ends, other (d := '(') (by decide),
      other (d := '\x7b') (by decide), other (d := ']') (by decide)] at outside

theorem isWord_word {c : Char} {rest : List Char} {word : Scanned (List Char) (c :: rest)}
    (other : isDigitLike c = false) (noDie : ¬(Lexeme.isDieSign c && Lexeme.opensDice rest) = true)
    (found : Lexeme.word c rest = some word) : Lexeme.IsWord word.value := by
  unfold Lexeme.word at found
  split at found
  · rename_i first
    cases found
    refine ⟨c, rest.takeWhile Lexeme.insideWord, List.takeWhile_cons_of_pos first,
      Command.mem_takeWhile, other, ?_⟩
    cases die : Lexeme.isDieSign c with
    | false => rfl
    | true =>
      rw [die, Bool.true_and, Bool.not_eq_true] at noDie
      rw [Bool.true_and]
      cases behind : rest.takeWhile Lexeme.insideWord with
      | nil => rfl
      | cons d more =>
        have ends : ∀ e, (rest.dropWhile Lexeme.insideWord).head? = some e →
            isBasicLetter e = false := by
          intro e first
          exact isBasicLetter_of_not_insideWord (Command.head?_dropWhile rest e first)
        rw [← opensDice_append ends, ← behind, List.takeWhile_append_dropWhile]
        exact noDie
  · cases found

/-- Whether a reader yields legible trees. -/
def ExpressionReader.IsSound (read : ExpressionReader) : Prop :=
  ∀ text scanned, read text = .ok scanned → scanned.value.IsLegible

namespace Source

variable {source : Source} {inner : Option ExpressionReader}

theorem refuse_ne_ok {α : Type} {reason : ParseReason} {part place : List Char} {a : α} :
    source.refuse reason part place ≠ .ok a := by
  intro yields
  cases yields

section

variable (sound : ∀ read, inner = some read → read.IsSound)

include sound

theorem bracketed_sound {c : Char} {rest : List Char} {scanned : Scanned (Tree Clause) (c :: rest)}
    (yields : source.bracketed inner c rest = .ok scanned) : scanned.value.IsLegible := by
  unfold bracketed at yields
  split at yields
  · cases yields
  · rename_i read
    split at yields
    · cases yields
    · rename_i inside found
      split at yields
      · cases yields
        exact sound read rfl _ inside found
      · cases yields

end

theorem separated_sound {read : ExpressionReader} (sound : read.IsSound) {closing : Char}
    {opened text : List Char} {scanned : Scanned (List (Tree Clause)) text}
    (yields : source.separated read closing opened text = .ok scanned) :
    ∀ tree ∈ scanned.value, tree.IsLegible := by
  fun_induction separated source read closing opened text with
  | case1 => cases yields
  | case2 => cases yields
  | case3 => cases yields
  | case4 text first found c after ended shorter comma more later ih =>
    cases yields
    intro tree member
    rcases List.mem_cons.1 member with rfl | member
    · exact sound _ _ found
    · exact ih later tree member
  | case5 text first found c after ended shorter comma closes =>
    cases yields
    intro tree member
    rcases List.mem_singleton.1 member with rfl
    exact sound _ _ found
  | case6 => cases yields

section

variable (sound : ∀ read, inner = some read → read.IsSound)

include sound

theorem listed_sound {closing c : Char} {rest : List Char}
    {scanned : Scanned (List (Tree Clause)) (c :: rest)}
    (yields : source.listed inner closing c rest = .ok scanned) :
    ∀ tree ∈ scanned.value, tree.IsLegible := by
  unfold listed at yields
  split at yields
  · cases yields
  · rename_i read
    simp only at yields
    split at yields
    · split at yields
      · cases yields
      · rename_i found
        cases yields
        have legible := separated_sound (sound read rfl) found
        exact legible
    · split at yields
      · cases yields
        simp
      · split at yields
        · cases yields
        · rename_i found
          cases yields
          have legible := separated_sound (sound read rfl) found
          exact legible

theorem faces_sound {text : List Char} {reached : Reached (Option (Faces Clause)) text}
    (yields : source.faces inner text = .ok reached) :
    ∀ faces, reached.value = some faces → faces.IsRow ∧ FacesThroughout Clause.IsLegible faces := by
  unfold faces at yields
  intro faces is
  split at yields
  · cases yields
    cases is
  · split at yields
    · split at yields
      · cases yields
      · rename_i scanned found
        cases yields
        cases is
        have legible := bracketed_sound sound found
        exact ⟨legible.row, legible.clauses⟩
    · split at yields
      · split at yields
        · cases yields
          cases is
          exact ⟨trivial, trivial⟩
        · cases yields
      · split at yields
        · cases yields
          cases is
          exact ⟨trivial, trivial⟩
        · cases yields
          cases is

theorem dice_sound {number : Option (Amount Clause)}
    (counted : ∀ amount, number = some amount →
      amount.IsRow ∧ WrittenThroughout Clause.IsLegible amount)
    {start text : List Char} {reached : Reached Clause text}
    (yields : source.dice inner number start text = .ok reached) : reached.value.IsPlain := by
  unfold dice at yields
  split at yields
  · cases yields
  · rename_i read found
    simp only at yields
    split at yields
    · cases yields
    · cases yields
    · rename_i faces amount are is
      cases yields
      rcases faces_sound sound found faces are with ⟨row, inside⟩
      have legible : amount.IsRow ∧ WrittenThroughout Clause.IsLegible amount := by
        cases number with
        | some given =>
          cases is
          exact counted _ rfl
        | none =>
          rw [Option.none_or] at is
          split at is
          · cases is
            exact ⟨trivial, trivial⟩
          · cases is
      exact ⟨⟨⟨legible.1, row, isRun_modifiers _, isFlavor_splitFlavor _⟩, legible.2, inside⟩, rfl⟩

theorem bracketClause_sound {c : Char} {rest : List Char} {scanned : Scanned Clause (c :: rest)}
    (yields : source.bracketClause inner c rest = .ok scanned) : scanned.value.IsPlain := by
  unfold bracketClause at yields
  split at yields
  · cases yields
  · rename_i inside found
    have legible := bracketed_sound sound found
    have group (flavor : List Char) (raw : String) :
        (Clause.group inside.value (Lexeme.splitFlavor flavor).1 raw).IsPlain :=
      ⟨⟨⟨legible.row, isFlavor_splitFlavor _⟩, legible.clauses⟩, rfl⟩
    simp only at yields
    split at yields
    · cases yields
      exact group _ _
    · split at yields
      · split at yields
        · cases yields
        · rename_i die
          cases yields
          refine dice_sound sound ?_ die
          rintro amount ⟨⟩
          exact ⟨legible.row, legible.clauses⟩
      · cases yields
        exact group _ _

theorem poolClause_sound {c : Char} {rest : List Char} {scanned : Scanned Clause (c :: rest)}
    (yields : source.poolClause inner c rest = .ok scanned) : scanned.value.IsPlain := by
  unfold poolClause at yields
  split at yields
  · cases yields
  · rename_i members found
    have legible := listed_sound sound found
    split at yields
    · cases yields
    · rename_i some
      cases yields
      refine ⟨⟨⟨?_, ?_, isRun_modifiers _, isFlavor_splitFlavor _⟩, ?_⟩, rfl⟩
      · rintro none
        rw [none] at some
        exact some rfl
      · exact fun tree member => (legible tree member).row
      · exact (treesThroughout_iff _).2 fun tree member => (legible tree member).clauses

theorem numberClause_sound {c : Char} {rest : List Char} (first : isDigit c = true)
    {scanned : Scanned Clause (c :: rest)}
    (yields : source.numberClause inner c rest first = .ok scanned) : scanned.value.IsPlain := by
  have plain (digits flavor : List Char) (raw : String) :
      (Clause.numeric (Lexeme.numberValue digits) (Lexeme.splitFlavor flavor).1 raw).IsPlain := by
    refine ⟨isFlavor_splitFlavor flavor, ?_⟩
    unfold Lexeme.numberValue
    split
    · rfl
    · change decide ((natOfDigits digits : Int) < 0) = false
      exact decide_eq_false (Int.not_lt.2 (Int.natCast_nonneg _))
  unfold numberClause at yields
  simp only at yields
  split at yields
  · cases yields
    exact plain _ _ _
  · split at yields
    · split at yields
      · cases yields
      · split at yields
        · cases yields
        · rename_i die
          cases yields
          refine dice_sound sound ?_ die
          rintro amount ⟨⟩
          exact ⟨trivial, trivial⟩
    · cases yields
      exact plain _ _ _

theorem wordClause_sound {c : Char} {rest : List Char} (other : isDigitLike c = false)
    {scanned : Scanned Clause (c :: rest)}
    (yields : source.wordClause inner c rest = .ok scanned) : scanned.value.IsPlain := by
  unfold wordClause at yields
  split at yields
  · rename_i name called
    split at yields
    · cases yields
    · split at yields
      · cases yields
      · rename_i arguments found
        cases yields
        have legible := listed_sound sound found
        refine ⟨⟨⟨?_, fun tree member => (legible tree member).row, isFlavor_splitFlavor _⟩,
          (treesThroughout_iff _).2 fun tree member => (legible tree member).clauses⟩, rfl⟩
        rw [String.toList_ofList]
        exact isName_functionName called
  · split at yields
    · split at yields
      · cases yields
      · rename_i die
        cases yields
        refine dice_sound sound ?_ die
        rintro amount ⟨⟩
    · rename_i noDie
      split at yields
      · cases yields
      · rename_i word found
        cases yields
        refine ⟨⟨?_, isFlavor_splitFlavor _⟩, rfl⟩
        rw [String.toList_ofList]
        exact isWord_word other noDie found

theorem clause_sound {text : List Char} {scanned : Scanned Clause text}
    (yields : source.clause inner text = .ok scanned) : scanned.value.IsPlain := by
  unfold clause at yields
  split at yields
  · exact absurd yields refuse_ne_ok
  · rename_i c rest begun
    split at yields
    · cases yields
    · rename_i found read
      cases yields
      unfold clauseAt at read
      split at read
      · exact bracketClause_sound sound read
      · split at read
        · exact poolClause_sound sound read
        · split at read
          · split at read
            · exact numberClause_sound sound _ read
            · cases read
          · rename_i other
            exact wordClause_sound sound (Bool.not_eq_true _ ▸ other) read

end

theorem following_sound {clause : ClauseReader}
    (sound : ∀ text scanned, clause text = .ok scanned → scanned.value.IsPlain) {text : List Char}
    {reached : Reached (List (List Char × Clause)) text}
    (yields : Scan.following clause text = .ok reached) :
    ∀ next ∈ reached.value, next.2.IsPlain := by
  fun_induction Scan.following clause text with
  | case1 =>
    cases yields
    simp
  | case2 => cases yields
  | case3 => cases yields
  | case4 text row _ next found more later ih =>
    cases yields
    intro joined member
    rcases List.mem_cons.1 member with rfl | member
    · exact sound _ _ found
    · exact ih later joined member

theorem expression_sound {clause : ClauseReader}
    (sound : ∀ text scanned, clause text = .ok scanned → scanned.value.IsPlain) :
    (source.expression clause).IsSound := by
  intro text scanned yields
  unfold expression at yields
  simp only at yields
  split at yields
  · cases yields
  · rename_i first begins
    split at yields
    · cases yields
    · rename_i more continues
      split at yields
      · cases yields
      · rename_i tree assembled
        cases yields
        unfold assemble at assembled
        split at assembled
        · rename_i built
          cases assembled
          exact Run.tree_legible built (sound _ _ begins) (following_sound sound continues)
        · cases assembled

theorem expressionAt_sound (levels : Nat) : (source.expressionAt levels).IsSound := by
  induction levels with
  | zero =>
    apply expression_sound
    intro text scanned yields
    refine clause_sound ?_ yields
    intro read none
    cases none
  | succ levels ih =>
    apply expression_sound
    intro text scanned yields
    refine clause_sound ?_ yields
    rintro read ⟨⟩
    exact ih

/-- The tree of a formula can be read again. -/
theorem parse_sound {tree : Tree Clause} (parsed : source.parse = .ok tree) : tree.IsLegible := by
  unfold parse at parsed
  split at parsed
  · cases parsed
  · rename_i scanned found
    split at parsed
    · cases parsed
      exact expressionAt_sound _ _ _ found
    · exact absurd parsed refuse_ne_ok

end Source
end DiceNotation
