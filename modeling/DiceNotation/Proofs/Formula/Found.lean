import DiceNotation.Proofs.Formula.Reading

namespace DiceNotation

open Text

/-!
# What a reader has found

The lemmas about what the scanner finds say when a reader succeeds.  Those here go
the other way.  If a reader succeeded, the readers that it calls succeeded before it,
and what it found and left is put together from what they found and left.  Nothing is
said about refusals, so facts about all readings need no more than these lemmas.
-/

namespace Lexeme

variable {c : Char} {rest : List Char}

/-- A function name is as long as it can be, and a bracket follows it behind blanks. -/
theorem functionName_found {name : Scanned (List Char) (c :: rest)}
    (found : functionName c rest = some name) :
    beginsName c = true ∧ name.value = (c :: rest).takeWhile insideName ∧
      name.rest = skipBlanks ((c :: rest).dropWhile insideName) ∧
      name.rest.head? = some '(' ∧ lower name.value ≠ ['d'] := by
  unfold functionName at found
  split at found
  · rename_i begins
    simp only at found
    split at found
    · rename_i called
      cases found
      simp only [Bool.and_eq_true, beq_iff_eq, bne_iff_ne] at called
      exact ⟨begins, rfl, rfl, called.1, called.2⟩
    · cases found
  · cases found

theorem word_found {word : Scanned (List Char) (c :: rest)} (found : Lexeme.word c rest = some word) :
    insideWord c = true ∧ word.value = (c :: rest).takeWhile insideWord ∧
      word.rest = (c :: rest).dropWhile insideWord := by
  unfold Lexeme.word at found
  split at found
  · rename_i inside
    cases found
    exact ⟨inside, rfl, rfl⟩
  · cases found

theorem operators_found {text : List Char} {row : Scanned (List Char) text}
    (found : operators text = some row) :
    row.value = (splitOperators text text).1 ∧ row.rest = (splitOperators text text).2 ∧
      (splitOperators text text).1 ≠ [] := by
  unfold operators at found
  split at found
  · cases found
  · rename_i some
    cases found
    exact ⟨rfl, rfl, some⟩

end Lexeme

namespace Source

variable {source : Source} {inner : Option ExpressionReader}

/-! ## Brackets and lists -/

theorem bracketed_found {c : Char} {rest after : List Char} {tree : Tree Clause}
    (found : Finds (source.bracketed inner c rest) tree after) :
    ∃ read behind, inner = some read ∧ Finds (read rest) tree behind ∧
      skipBlanks behind = ')' :: after := by
  obtain ⟨shorter, found⟩ := found
  unfold bracketed at found
  split at found
  · cases found
  · rename_i read
    split at found
    · cases found
    · rename_i scanned begun
      split at found
      · rename_i more ended
        cases found
        exact ⟨read, scanned.rest, rfl, ⟨scanned.shorter, begun⟩, ended⟩
      · cases found

/-- What separates two expressions of a list, or closes the list. -/
theorem separated_found {read : ExpressionReader} {closing : Char} {opened text after : List Char}
    {trees : List (Tree Clause)}
    (found : Finds (source.separated read closing opened text) trees after) :
    ∃ tree behind, Finds (read text) tree behind ∧
      ((∃ next more, skipBlanks behind = ',' :: next ∧ trees = tree :: more ∧
          Finds (source.separated read closing opened next) more after) ∨
        closing ≠ ',' ∧ skipBlanks behind = closing :: after ∧ trees = [tree]) := by
  obtain ⟨shorter, found⟩ := found
  rw [separated] at found
  split at found
  · cases found
  · rename_i scanned begun
    refine ⟨scanned.value, scanned.rest, ⟨scanned.shorter, begun⟩, ?_⟩
    split at found
    · cases found
    · rename_i d next ended
      split at found
      · rename_i comma
        split at found
        · cases found
        · rename_i more later
          cases found
          rw [beq_iff_eq] at comma
          exact .inl ⟨next, more.value, comma ▸ ended, rfl, more.shorter, later⟩
      · rename_i other
        split at found
        · rename_i closes
          cases found
          rw [beq_iff_eq] at closes
          rw [closes, beq_iff_eq] at other
          exact .inr ⟨other, closes ▸ ended, rfl⟩
        · cases found

/-- A list is empty, or it begins where its first expression does. -/
theorem listed_found {closing c : Char} {rest after : List Char} {trees : List (Tree Clause)}
    (found : Finds (source.listed inner closing c rest) trees after) :
    ∃ read, inner = some read ∧
      (skipBlanks rest = closing :: after ∧ trees = [] ∨
        (skipBlanks rest).head? ≠ some closing ∧
          Finds (source.separated read closing (c :: rest) (skipBlanks rest)) trees after) := by
  obtain ⟨shorter, found⟩ := found
  unfold listed at found
  split at found
  · cases found
  · rename_i read
    refine ⟨read, rfl, ?_⟩
    simp only at found
    split at found
    · rename_i begun
      split at found
      · cases found
      · rename_i scanned later
        cases found
        rw [begun]
        exact .inr ⟨by simp, scanned.shorter, later⟩
    · rename_i m more begun
      rw [begun]
      split at found
      · rename_i closes
        cases found
        rw [beq_iff_eq] at closes
        exact .inl ⟨closes ▸ rfl, rfl⟩
      · rename_i other
        split at found
        · cases found
        · rename_i scanned later
          cases found
          refine .inr ⟨?_, scanned.shorter, later⟩
          rintro ⟨⟩
          exact other BEq.rfl

/-! ## Faces and dice -/

/-- The ways in which the faces of dice are written. -/
inductive FacesFound (source : Source) (inner : Option ExpressionReader) :
    List Char → Faces Clause → List Char → Prop
  /-- A bracketed expression. -/
  | bracketed {rest after : List Char} {tree : Tree Clause}
      (found : Finds (source.bracketed inner '(' rest) tree after) :
      FacesFound source inner ('(' :: rest)
        (.amount (.computed tree (textBetween ('(' :: rest) after))) after
  /-- A number. -/
  | digits {c : Char} {rest : List Char} (first : isDigit c = true) :
      FacesFound source inner (c :: rest)
        (.amount (.known (natOfDigits ((c :: rest).takeWhile isDigit))))
        ((c :: rest).dropWhile isDigit)
  /-- A letter. -/
  | letter {c : Char} {after : List Char} (round : c ≠ '(') (other : isDigitLike c = false)
      (letter : isLetter c = true) :
      FacesFound source inner (c :: after) (.letter (String.ofList (lowerChar c))) after

theorem faces_found {text after : List Char} {faces : Faces Clause}
    (found : Reaches (source.faces inner text) (some faces) after) :
    FacesFound source inner text faces after := by
  obtain ⟨within, found⟩ := found
  unfold Source.faces at found
  split at found
  · cases found
  · rename_i c rest
    split at found
    · rename_i round
      obtain rfl := beq_iff_eq.1 round
      split at found
      · cases found
      · rename_i scanned inside
        cases found
        exact .bracketed ⟨scanned.shorter, inside⟩
    · rename_i round
      split at found
      · split at found
        · rename_i first
          cases found
          exact .digits first
        · cases found
      · rename_i other
        split at found
        · rename_i letter
          cases found
          exact .letter (fun same => round (beq_iff_eq.2 same)) (Bool.eq_false_iff.2 other) letter
        · cases found

/-- Dice are faces with modifiers and a flavor, and a number that was read before or is assumed. -/
theorem dice_found {number : Option (Amount Clause)} {start text rest : List Char} {clause : Clause}
    (found : Reaches (source.dice inner number start text) clause rest) :
    ∃ amount faces after,
      number.or (if source.imputeNumber then some (.known 1) else none) = some amount ∧
        FacesFound source inner text faces after ∧
        clause = .dice amount faces (String.ofList (Command.readRun after).1)
          (Lexeme.splitFlavor (Command.readRun after).2).1 (textBetween start rest) ∧
        rest = (Lexeme.splitFlavor (Command.readRun after).2).2 := by
  obtain ⟨within, found⟩ := found
  unfold dice at found
  split at found
  · cases found
  · rename_i read begun
    simp only at found
    split at found
    · cases found
    · cases found
    · rename_i faces amount are is
      cases found
      refine ⟨amount, faces, read.rest, is, faces_found ⟨read.within, ?_⟩, rfl, rfl⟩
      rw [begun, ← are]

/-! ## Clauses -/

/-- A bracketed expression is the number of dice, or a clause of its own. -/
theorem bracketClause_found {c : Char} {rest after : List Char} {clause : Clause}
    (found : Finds (source.bracketClause inner c rest) clause after) :
    ∃ tree behind, Finds (source.bracketed inner c rest) tree behind ∧
      ((∃ d more, behind = d :: more ∧ Lexeme.isDieSign d = true ∧
          Reaches (source.dice inner (some (.computed tree (textBetween (c :: rest) behind)))
            (c :: rest) more) clause after) ∨
        (∀ d, behind.head? = some d → Lexeme.isDieSign d = false) ∧
          clause = .group tree (Lexeme.splitFlavor behind).1 (textBetween (c :: rest) after) ∧
          after = (Lexeme.splitFlavor behind).2) := by
  obtain ⟨shorter, found⟩ := found
  unfold bracketClause at found
  split at found
  · cases found
  · rename_i scanned inside
    refine ⟨scanned.value, scanned.rest, ⟨scanned.shorter, inside⟩, ?_⟩
    simp only at found
    split at found
    · rename_i ended
      cases found
      exact .inr ⟨by simp [ended], rfl, rfl⟩
    · rename_i d more ended
      split at found
      · rename_i sign
        split at found
        · cases found
        · rename_i die begun
          cases found
          exact .inl ⟨d, more, ended, sign, die.within, begun⟩
      · rename_i plain
        cases found
        refine .inr ⟨?_, rfl, rfl⟩
        rw [ended]
        rintro _ ⟨⟩
        exact Bool.eq_false_iff.2 plain

theorem poolClause_found {c : Char} {rest after : List Char} {clause : Clause}
    (found : Finds (source.poolClause inner c rest) clause after) :
    ∃ members behind, Finds (source.listed inner '\x7d' c rest) members behind ∧ members ≠ [] ∧
      clause = .pool members (String.ofList (Command.readRun behind).1)
        (Lexeme.splitFlavor (Command.readRun behind).2).1 (textBetween (c :: rest) after) ∧
      after = (Lexeme.splitFlavor (Command.readRun behind).2).2 := by
  obtain ⟨shorter, found⟩ := found
  unfold poolClause at found
  split at found
  · cases found
  · rename_i scanned inside
    split at found
    · cases found
    · rename_i some
      cases found
      exact ⟨scanned.value, scanned.rest, ⟨scanned.shorter, inside⟩,
        fun none => some (List.isEmpty_iff.2 none), rfl, rfl⟩

/-- Digits are the number of dice, or a clause of their own. -/
theorem numberClause_found {c : Char} {rest after : List Char} {first : isDigit c = true}
    {clause : Clause} (found : Finds (source.numberClause inner c rest first) clause after) :
    (∃ d more, (Lexeme.splitNumber (c :: rest)).2 = d :: more ∧ Lexeme.isDieSign d = true ∧
        Lexeme.hasPoint (Lexeme.splitNumber (c :: rest)).1 = false ∧
        Reaches (source.dice inner
          (some (.known (natOfDigits (Lexeme.splitNumber (c :: rest)).1))) (c :: rest) more)
          clause after) ∨
      (∀ d, (Lexeme.splitNumber (c :: rest)).2.head? = some d → Lexeme.isDieSign d = false) ∧
        clause = .numeric (Lexeme.numberValue (Lexeme.splitNumber (c :: rest)).1)
          (Lexeme.splitFlavor (Lexeme.splitNumber (c :: rest)).2).1
          (textBetween (c :: rest) after) ∧
        after = (Lexeme.splitFlavor (Lexeme.splitNumber (c :: rest)).2).2 := by
  obtain ⟨shorter, found⟩ := found
  unfold numberClause at found
  simp only at found
  split at found
  · rename_i ended
    have none : (Lexeme.splitNumber (c :: rest)).2 = [] := ended
    cases found
    exact .inr ⟨by simp [none], rfl, rfl⟩
  · rename_i d more ended
    split at found
    · rename_i sign
      split at found
      · cases found
      · rename_i whole
        split at found
        · cases found
        · rename_i die begun
          cases found
          exact .inl ⟨d, more, ended, sign, Bool.eq_false_iff.2 whole, die.within, begun⟩
    · rename_i plain
      have behind : (Lexeme.splitNumber (c :: rest)).2 = d :: more := ended
      cases found
      refine .inr ⟨?_, rfl, rfl⟩
      rw [behind]
      rintro _ ⟨⟩
      exact Bool.eq_false_iff.2 plain

/-- The clauses that begin with a letter or another character without a meaning of its own. -/
inductive WordFound (source : Source) (inner : Option ExpressionReader) (c : Char)
    (rest : List Char) : Clause → List Char → Prop
  /-- A function. -/
  | function {name : Scanned (List Char) (c :: rest)} {inside behind : List Char}
      {arguments : List (Tree Clause)} (called : Lexeme.functionName c rest = some name)
      (opens : name.rest = '(' :: inside)
      (found : Finds (source.listed inner ')' '(' inside) arguments behind) :
      WordFound source inner c rest
        (.function (String.ofList name.value) arguments (Lexeme.splitFlavor behind).1
          (textBetween (c :: rest) (Lexeme.splitFlavor behind).2))
        (Lexeme.splitFlavor behind).2
  /-- Dice without a number. -/
  | dice {clause : Clause} {after : List Char} (noName : Lexeme.functionName c rest = none)
      (opens : (Lexeme.isDieSign c && Lexeme.opensDice rest) = true)
      (found : Reaches (source.dice inner none (c :: rest) rest) clause after) :
      WordFound source inner c rest clause after
  /-- A word. -/
  | word {word : Scanned (List Char) (c :: rest)} (noName : Lexeme.functionName c rest = none)
      (noDie : (Lexeme.isDieSign c && Lexeme.opensDice rest) = false)
      (found : Lexeme.word c rest = some word) :
      WordFound source inner c rest
        (.text (String.ofList word.value) (Lexeme.splitFlavor word.rest).1
          (textBetween (c :: rest) (Lexeme.splitFlavor word.rest).2))
        (Lexeme.splitFlavor word.rest).2

theorem wordClause_found {c : Char} {rest after : List Char} {clause : Clause}
    (found : Finds (source.wordClause inner c rest) clause after) :
    WordFound source inner c rest clause after := by
  obtain ⟨shorter, found⟩ := found
  unfold wordClause at found
  split at found
  · rename_i name called
    split at found
    · cases found
    · rename_i opening inside ended
      split at found
      · cases found
      · rename_i scanned listed
        have bracket := (Lexeme.functionName_found called).2.2.2.1
        rw [ended] at bracket
        cases found
        cases bracket
        exact .function called ended ⟨scanned.shorter, listed⟩
  · rename_i noName
    split at found
    · rename_i opens
      split at found
      · cases found
      · rename_i die begun
        cases found
        exact .dice noName opens ⟨die.within, begun⟩
    · rename_i noDie
      split at found
      · cases found
      · rename_i word begun
        cases found
        exact .word noName (Bool.eq_false_iff.2 noDie) begun

/-- The kinds of clauses, told apart by their first character. -/
inductive ClauseFound (source : Source) (inner : Option ExpressionReader) :
    Char → List Char → Clause → List Char → Prop
  | bracket {rest after : List Char} {clause : Clause}
      (found : Finds (source.bracketClause inner '(' rest) clause after) :
      ClauseFound source inner '(' rest clause after
  | pool {rest after : List Char} {clause : Clause}
      (found : Finds (source.poolClause inner '\x7b' rest) clause after) :
      ClauseFound source inner '\x7b' rest clause after
  | number {c : Char} {rest after : List Char} {clause : Clause} (first : isDigit c = true)
      (found : Finds (source.numberClause inner c rest first) clause after) :
      ClauseFound source inner c rest clause after
  | word {c : Char} {rest after : List Char} {clause : Clause} (round : c ≠ '(')
      (curly : c ≠ '\x7b') (other : isDigitLike c = false)
      (found : WordFound source inner c rest clause after) :
      ClauseFound source inner c rest clause after

theorem clauseAt_found {c : Char} {rest after : List Char} {clause : Clause}
    (found : Finds (source.clauseAt inner c rest) clause after) :
    ClauseFound source inner c rest clause after := by
  unfold clauseAt at found
  split at found
  · rename_i round
    obtain rfl := beq_iff_eq.1 round
    exact .bracket found
  · rename_i round
    split at found
    · rename_i curly
      obtain rfl := beq_iff_eq.1 curly
      exact .pool found
    · rename_i curly
      split at found
      · split at found
        · rename_i first
          exact .number first found
        · obtain ⟨_, found⟩ := found
          cases found
      · rename_i other
        exact .word (fun same => round (beq_iff_eq.2 same)) (fun same => curly (beq_iff_eq.2 same))
          (Bool.eq_false_iff.2 other) (wordClause_found found)

theorem clause_found {text after : List Char} {clause : Clause}
    (found : Finds (source.clause inner text) clause after) :
    ∃ c rest, skipBlanks text = c :: rest ∧ ClauseFound source inner c rest clause after := by
  obtain ⟨shorter, found⟩ := found
  unfold Source.clause at found
  split at found
  · cases found
  · rename_i c rest begun
    split at found
    · cases found
    · rename_i scanned read
      cases found
      exact ⟨c, rest, begun, clauseAt_found ⟨scanned.shorter, read⟩⟩

/-! ## Expressions -/

theorem following_found {clause : ClauseReader} {text after : List Char}
    {found : List (List Char × Clause)} (reached : Reaches (Scan.following clause text) found after) :
    Lexeme.operators text = none ∧ found = [] ∧ after = text ∨
      ∃ row next behind more, Lexeme.operators text = some row ∧
        Finds (clause row.rest) next behind ∧ found = (row.value, next) :: more ∧
        Reaches (Scan.following clause behind) more after := by
  obtain ⟨within, reached⟩ := reached
  rw [Scan.following] at reached
  split at reached
  · rename_i none
    cases reached
    exact .inl ⟨none, rfl, rfl⟩
  · rename_i row some
    split at reached
    · cases reached
    · rename_i next begun
      split at reached
      · cases reached
      · rename_i more continues
        cases reached
        exact .inr ⟨row, next.value, next.rest, more.value, some, ⟨next.shorter, begun⟩, rfl,
          more.within, continues⟩

theorem expression_found {clause : ClauseReader} {text after : List Char} {tree : Tree Clause}
    (found : Finds (source.expression clause text) tree after) :
    ∃ first behind more, Finds (clause (Lexeme.splitSigns text).2) first behind ∧
      Reaches (Scan.following clause behind) more after ∧
      Run.tree ⟨(Lexeme.splitSigns text).1, first, more⟩ = .ok tree := by
  obtain ⟨shorter, found⟩ := found
  unfold expression at found
  simp only at found
  split at found
  · cases found
  · rename_i first begun
    split at found
    · cases found
    · rename_i more continues
      split at found
      · cases found
      · rename_i tree assembled
        cases found
        unfold assemble at assembled
        split at assembled
        · rename_i reduces
          cases assembled
          exact ⟨first.value, first.rest, more.value, ⟨first.shorter, begun⟩,
            ⟨more.within, continues⟩, reduces⟩
        · cases assembled

/-- A formula that is parsed is an expression with blanks behind it. -/
theorem parse_found {tree : Tree Clause} (parsed : source.parse = .ok tree) :
    ∃ rest, Finds (source.expressionAt source.maxNesting source.text) tree rest ∧
      skipBlanks rest = [] := by
  unfold parse at parsed
  split at parsed
  · cases parsed
  · rename_i scanned found
    split at parsed
    · rename_i ended
      cases parsed
      exact ⟨scanned.rest, ⟨scanned.shorter, found⟩, ended⟩
    · cases parsed

end Source
end DiceNotation
