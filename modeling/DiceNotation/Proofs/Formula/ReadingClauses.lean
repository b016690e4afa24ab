import DiceNotation.Proofs.Dice.Commands
import DiceNotation.Proofs.Formula.Reading

namespace DiceNotation

open Text

/-!
# What the scanner finds: dice, lists and words

The clauses with further parts.  Dice have faces and modifiers behind the die sign,
functions and pools have lists of expressions in brackets, and a word is what can be
nothing else.  Each lemma asks for what the parts are read as and says what the clause
is read as.
-/

theorem textBetween_append (front rest : List Char) :
    textBetween (front ++ rest) rest = String.ofList front :=
  congrArg String.ofList (stretch_append front rest)

namespace Source

variable (source : Source) {inner : Option ExpressionReader}

/-! ## Faces and dice -/

theorem faces_reaches_bracketed {inside rest : List Char} {tree : Tree Clause}
    (found : Finds (source.bracketed inner '(' inside) tree rest) :
    Reaches (source.faces inner ('(' :: inside))
      (some (.amount (.computed tree (textBetween ('(' :: inside) rest)))) rest := by
  rcases found with ⟨shorter, found⟩
  refine ⟨Nat.le_of_lt shorter, ?_⟩
  unfold faces
  simp only [found]
  rfl

theorem faces_reaches_number (inner : Option ExpressionReader) {c : Char}
    (first : isDigit c = true) (more : List Char) :
    Reaches (source.faces inner (c :: more))
      (some (.amount (.known (natOfDigits ((c :: more).takeWhile isDigit)))))
      ((c :: more).dropWhile isDigit) := by
  have round : (c == '(') = false := by
    refine beq_eq_false_iff_ne.2 ?_
    rintro rfl
    cases first
  have like : isDigitLike c = true := by rw [isDigitLike, first, Bool.true_or]
  refine ⟨Lexeme.length_dropWhile_le isDigit _, ?_⟩
  unfold faces
  simp only [round, like, Bool.false_eq_true, if_false, if_true, dif_pos first]
  rfl

theorem faces_reaches_digits (inner : Option ExpressionReader) {c : Char} {more rest : List Char}
    (decimal : ∀ d ∈ c :: more, isDigit d = true)
    (ends : ∀ d, rest.head? = some d → isDigit d = false) :
    Reaches (source.faces inner (c :: more ++ rest))
      (some (.amount (.known (natOfDigits (c :: more))))) rest := by
  have found := source.faces_reaches_number inner (decimal c List.mem_cons_self) (more ++ rest)
  rcases Command.span_append decimal ends with ⟨taken, left⟩
  rw [List.cons_append] at taken left
  rw [taken, left] at found
  exact found

theorem faces_reaches_letter (inner : Option ExpressionReader) {c : Char} (letter : isLetter c = true)
    (other : isDigitLike c = false) (round : c ≠ '(') (rest : List Char) :
    Reaches (source.faces inner (c :: rest)) (some (.letter (String.ofList (lowerChar c)))) rest := by
  refine ⟨Nat.le_succ _, ?_⟩
  unfold faces
  simp only [beq_eq_false_iff_ne.2 round, other, letter, Bool.false_eq_true, if_false, if_true]

/-- Dice with a number that was read before, or with the number that is assumed. -/
theorem dice_reaches_counted {number : Option (Amount Clause)} {amount : Amount Clause}
    (counts : number.or (if source.imputeNumber then some (.known 1) else none) = some amount)
    {faces : Faces Clause} {start text after behind rest : List Char} {modifiers : List Char}
    {flavor : Option String} (found : Reaches (source.faces inner text) (some faces) after)
    (commands : Command.readRun after = (modifiers, behind))
    (marked : Lexeme.splitFlavor behind = (flavor, rest)) :
    Reaches (source.dice inner number start text)
      (.dice amount faces (String.ofList modifiers) flavor (textBetween start rest)) rest := by
  rcases Prod.ext_iff.1 commands with ⟨rfl, rfl⟩
  rcases Prod.ext_iff.1 marked with ⟨rfl, rfl⟩
  rcases found with ⟨within, found⟩
  have commands := Command.length_readRun_le after
  have flavored := Lexeme.length_splitFlavor_le (Command.readRun after).2
  refine ⟨by omega, ?_⟩
  unfold dice
  simp only [found, counts]
  rfl

theorem dice_reaches {amount : Amount Clause} {faces : Faces Clause}
    {start text after behind rest : List Char} {modifiers : List Char} {flavor : Option String}
    (found : Reaches (source.faces inner text) (some faces) after)
    (commands : Command.readRun after = (modifiers, behind))
    (marked : Lexeme.splitFlavor behind = (flavor, rest)) :
    Reaches (source.dice inner (some amount) start text)
      (.dice amount faces (String.ofList modifiers) flavor (textBetween start rest)) rest :=
  source.dice_reaches_counted Option.some_or found commands marked

theorem clauseAt_of_digit {c : Char} (first : isDigit c = true) (more : List Char) :
    source.clauseAt inner c more = source.numberClause inner c more first := by
  have like : isDigitLike c = true := by rw [isDigitLike, first, Bool.true_or]
  have round : (c == '(') = false := by
    refine beq_eq_false_iff_ne.2 ?_
    rintro rfl
    cases first
  have curly : (c == '\x7b') = false := by
    refine beq_eq_false_iff_ne.2 ?_
    rintro rfl
    cases first
  unfold clauseAt
  simp only [round, curly, like, Bool.false_eq_true, if_false, if_true, dif_pos first]

/-- Digits before a die sign are the number of dice. -/
theorem numberClause_finds_dice {c d : Char} {more digits : List Char} (first : isDigit c = true)
    {after rest : List Char} (read : Lexeme.splitNumber (c :: more) = (digits, d :: after))
    (sign : Lexeme.isDieSign d = true) (whole : Lexeme.hasPoint digits = false) {clause : Clause}
    (found : Reaches (source.dice inner (some (.known (natOfDigits digits))) (c :: more) after) clause
      rest) : Finds (source.clauseAt inner c more) clause rest := by
  rcases Prod.ext_iff.1 read with ⟨rfl, behind⟩
  rcases found with ⟨within, found⟩
  have shorter := (Lexeme.number c more first).shorter
  have ended : (Lexeme.number c more first).rest = d :: after := behind
  rw [ended, List.length_cons] at shorter
  refine ⟨Nat.lt_of_le_of_lt within (Nat.lt_of_succ_lt shorter), ?_⟩
  rw [source.clauseAt_of_digit first]
  unfold numberClause
  simp only
  split
  · rename_i none
    rw [ended] at none
    cases none
  · rename_i e others same
    rw [ended] at same
    cases same
    have pointless : Lexeme.hasPoint (Lexeme.number c more first).value = false := whole
    rw [if_pos sign, if_neg (by simp [pointless])]
    have scanned : (Lexeme.number c more first).value = (Lexeme.splitNumber (c :: more)).1 := rfl
    simp only [scanned, found]

/-- A bracketed expression before a die sign computes the number of dice. -/
theorem bracketClause_finds_dice {text : List Char} {tree : Tree Clause} {d : Char}
    {after rest : List Char} (found : Finds (source.bracketed inner '(' text) tree (d :: after))
    (sign : Lexeme.isDieSign d = true) {clause : Clause}
    (die : Reaches (source.dice inner
      (some (.computed tree (textBetween ('(' :: text) (d :: after)))) ('(' :: text) after) clause
      rest) : Finds (source.clauseAt inner '(' text) clause rest := by
  rcases found with ⟨shorter, found⟩
  rcases die with ⟨within, die⟩
  refine ⟨Nat.lt_of_le_of_lt within (Nat.lt_of_succ_lt shorter), ?_⟩
  change source.bracketClause inner '(' text = _
  unfold bracketClause
  simp only [found]
  rw [if_pos sign]
  simp only [die]

/-! ## Lists -/

theorem separated_finds_last {read : ExpressionReader} {closing : Char} (other : closing ≠ ',')
    {opened text after rest : List Char} {tree : Tree Clause} (found : Finds (read text) tree after)
    (closed : skipBlanks after = closing :: rest) :
    Finds (source.separated read closing opened text) [tree] rest := by
  rcases found with ⟨shorter, found⟩
  have skipped := Text.length_skipBlanks_le after
  rw [closed] at skipped
  refine ⟨by simp only [List.length_cons] at *; omega, ?_⟩
  rw [separated]
  simp only [found]
  split
  · rename_i none
    rw [closed] at none
    cases none
  · rename_i c others same
    rw [closed] at same
    cases same
    rw [if_neg (by simp [other]), if_pos (by simp)]

theorem separated_finds_more {read : ExpressionReader} {closing : Char}
    {opened text after behind rest : List Char} {tree : Tree Clause} {more : List (Tree Clause)}
    (found : Finds (read text) tree after) (comma : skipBlanks after = ',' :: behind)
    (later : Finds (source.separated read closing opened behind) more rest) :
    Finds (source.separated read closing opened text) (tree :: more) rest := by
  rcases found with ⟨shorter, found⟩
  rcases later with ⟨fewer, later⟩
  have skipped := Text.length_skipBlanks_le after
  rw [comma] at skipped
  refine ⟨by simp only [List.length_cons] at *; omega, ?_⟩
  rw [separated]
  simp only [found]
  split
  · rename_i none
    rw [comma] at none
    cases none
  · rename_i c others same
    rw [comma] at same
    cases same
    rw [if_pos (by decide)]
    simp only [later]

theorem listed_finds_nothing (read : ExpressionReader) {closing : Char} (c : Char)
    {inside rest : List Char} (closed : skipBlanks inside = closing :: rest) :
    Finds (source.listed (some read) closing c inside) [] rest := by
  have skipped := Text.length_skipBlanks_le inside
  rw [closed] at skipped
  refine ⟨by simp only [List.length_cons] at *; omega, ?_⟩
  unfold listed
  simp only
  split
  · rename_i none
    rw [closed] at none
    cases none
  · rename_i d others same
    rw [closed] at same
    cases same
    rw [if_pos (by simp)]

theorem listed_finds {read : ExpressionReader} {closing c m : Char} {inside more rest : List Char}
    {trees : List (Tree Clause)} (begun : skipBlanks inside = m :: more) (other : m ≠ closing)
    (found : Finds (source.separated read closing (c :: inside) (m :: more)) trees rest) :
    Finds (source.listed (some read) closing c inside) trees rest := by
  rcases found with ⟨shorter, found⟩
  have skipped := Text.length_skipBlanks_le inside
  rw [begun] at skipped
  refine ⟨Nat.lt_succ_of_lt (Nat.lt_of_lt_of_le shorter skipped), ?_⟩
  unfold listed
  simp only
  split
  · rename_i none
    rw [begun] at none
    cases none
  · rename_i d others same
    rw [begun] at same
    cases same
    rw [if_neg (by simp [other])]
    simp only [found]

/-! ## Pools, functions and words -/

theorem poolClause_finds {inside after behind rest : List Char} {members : List (Tree Clause)}
    (found : Finds (source.listed inner '\x7d' '\x7b' inside) members after) (some : members ≠ [])
    {modifiers : List Char} (commands : Command.readRun after = (modifiers, behind))
    {flavor : Option String} (marked : Lexeme.splitFlavor behind = (flavor, rest)) :
    Finds (source.clauseAt inner '\x7b' inside)
      (.pool members (String.ofList modifiers) flavor (textBetween ('\x7b' :: inside) rest)) rest := by
  rcases Prod.ext_iff.1 commands with ⟨rfl, rfl⟩
  rcases Prod.ext_iff.1 marked with ⟨rfl, rfl⟩
  rcases found with ⟨shorter, found⟩
  have commands := Command.length_readRun_le after
  have flavored := Lexeme.length_splitFlavor_le (Command.readRun after).2
  refine ⟨by omega, ?_⟩
  change source.poolClause inner '\x7b' inside = _
  unfold poolClause
  simp only [found]
  rw [if_neg (by simp [some])]
  rfl

/-- What begins with a letter or with another character that has no meaning of its own. -/
theorem clauseAt_of_word {c : Char} (round : c ≠ '(') (curly : c ≠ '\x7b')
    (other : isDigitLike c = false) (more : List Char) :
    source.clauseAt inner c more = source.wordClause inner c more := by
  unfold clauseAt
  simp only [beq_eq_false_iff_ne.2 round, beq_eq_false_iff_ne.2 curly, other, Bool.false_eq_true,
    if_false]

theorem wordClause_finds_function {c : Char} {more name inside after rest : List Char}
    (called : ∃ shorter, Lexeme.functionName c more = some ⟨name, '(' :: inside, shorter⟩)
    {arguments : List (Tree Clause)}
    (found : Finds (source.listed inner ')' '(' inside) arguments after) {flavor : Option String}
    (marked : Lexeme.splitFlavor after = (flavor, rest)) :
    Finds (source.wordClause inner c more)
      (.function (String.ofList name) arguments flavor (textBetween (c :: more) rest)) rest := by
  rcases Prod.ext_iff.1 marked with ⟨rfl, rfl⟩
  rcases called with ⟨named, called⟩
  rcases found with ⟨shorter, found⟩
  have flavored := Lexeme.length_splitFlavor_le after
  refine ⟨by omega, ?_⟩
  unfold wordClause
  simp only [called, found]
  rfl

theorem wordClause_finds_dice {c : Char} {more rest : List Char}
    (noFunction : Lexeme.functionName c more = none)
    (opens : (Lexeme.isDieSign c && Lexeme.opensDice more) = true) {clause : Clause}
    (die : Reaches (source.dice inner none (c :: more) more) clause rest) :
    Finds (source.wordClause inner c more) clause rest := by
  rcases die with ⟨within, die⟩
  refine ⟨Nat.lt_succ_of_le within, ?_⟩
  unfold wordClause
  simp only [noFunction]
  rw [if_pos opens]
  simp only [die]

theorem wordClause_finds_word (inner : Option ExpressionReader) {c : Char}
    {more text after rest : List Char}
    (noFunction : Lexeme.functionName c more = none)
    (noDie : (Lexeme.isDieSign c && Lexeme.opensDice more) = false)
    (read : ∃ shorter, Lexeme.word c more = some ⟨text, after, shorter⟩) {flavor : Option String}
    (marked : Lexeme.splitFlavor after = (flavor, rest)) :
    Finds (source.wordClause inner c more)
      (.text (String.ofList text) flavor (textBetween (c :: more) rest)) rest := by
  rcases Prod.ext_iff.1 marked with ⟨rfl, rfl⟩
  rcases read with ⟨shorter, read⟩
  have flavored := Lexeme.length_splitFlavor_le after
  refine ⟨by omega, ?_⟩
  unfold wordClause
  simp only [noFunction]
  rw [if_neg (by simp [noDie])]
  simp only [read]
  rfl

end Source
end DiceNotation
