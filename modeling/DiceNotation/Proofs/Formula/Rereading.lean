import DiceNotation.Proofs.Formula.ReadingClauses
import DiceNotation.Proofs.Formula.RereadingRows
import DiceNotation.Proofs.Number.Decimals

namespace DiceNotation

open Text

/-!
# Reading canonical texts

The canonical text of a clause is read as the canonical clause, whatever stands behind
it, as long as this ends the clause.  The proof is an induction on the brackets that
may be opened: what is inside the brackets of a clause opens fewer of them.
-/

theorem textBetween_raw {raw : String} {c : Char} {more : List Char} (text : raw.toList = c :: more)
    (rest : List Char) : textBetween (c :: (more ++ rest)) rest = raw := by
  rw [← List.cons_append, textBetween_append, ← text, String.ofList_toList]

theorem splitFlavor_canonical {flavor : Option String} (legible : Lexeme.IsFlavor flavor)
    {rest : List Char} (ends : EndsClause rest) :
    Lexeme.splitFlavor (Lexeme.flavorText (keptFlavor flavor) ++ rest) = (keptFlavor flavor, rest) :=
  Lexeme.splitFlavor_append (isFlavor_keptFlavor legible) ends

theorem endsExpression_cons {c : Char} (closing : isClosing c = true) (rest : List Char) :
    EndsExpression (c :: rest) := by
  have visible : ∀ d ∈ [')', '\x7d', ','], isBlank d = false := forall_of_all (by decide)
  have listed : c ∈ [')', '\x7d', ','] := by
    simp only [isClosing, Bool.or_eq_true, beq_iff_eq] at closing
    rcases closing with (rfl | rfl) | rfl <;> decide
  intro d first
  rw [skipBlanks_cons (visible c listed)] at first
  cases first
  exact closing

section

variable {source : Source} {inner : Option ExpressionReader}

/-! ## Numbers and words -/

theorem toDigits_eq_cons (n : Nat) : ∃ c more, Nat.toDigits 10 n = c :: more := by
  cases digits : Nat.toDigits 10 n with
  | nil => exact absurd digits Nat.toDigits_ne_nil
  | cons c more => exact ⟨c, more, rfl⟩

theorem numeric_rereads {n : Nat} {flavor : Option String} (legible : Lexeme.IsFlavor flavor)
    (raw : String) : (Clause.numeric (.int n) flavor raw).Rereads source inner := by
  rcases toDigits_eq_cons n with ⟨c, more, digits⟩
  have decimal : ∀ d ∈ c :: more, isDigit d = true := by
    rw [← digits]
    exact fun d member => isDigit_of_mem_toDigits member
  have text : (withFlavor (Number.int n).plainText flavor).toList =
      c :: (more ++ Lexeme.flavorText (keptFlavor flavor)) := by
    have plain : (Number.int n).plainText.toList = Nat.toDigits 10 n := String.toList_ofList
    rw [toList_withFlavor, plain, digits, List.cons_append]
  refine ⟨c, _, text, isBoundary_of_isDigit (decimal c List.mem_cons_self), ?_⟩
  intro rest ends
  have first := decimal c List.mem_cons_self
  have lexeme := Lexeme.endsLexeme_flavorText (keptFlavor flavor) ends
  have read : Lexeme.splitNumber (c :: (more ++ Lexeme.flavorText (keptFlavor flavor) ++ rest)) =
      (c :: more, Lexeme.flavorText (keptFlavor flavor) ++ rest) := by
    rw [List.append_assoc, ← List.cons_append]
    refine Lexeme.splitNumber_append decimal ?_
    intro d begins
    exact ⟨isDigit_of_isBoundary (lexeme d begins),
      ne_of_isBoundary (lexeme d begins) (by decide)⟩
  have found := source.numberClause_finds_numeric inner first read
    (fun d begins => isDieSign_of_isBoundary (lexeme d begins)) (splitFlavor_canonical legible ends)
  rw [textBetween_raw text, Lexeme.numberValue_of_digits decimal, ← digits,
    natOfDigits_toDigits] at found
  exact found

theorem functionName_of_word {c : Char} {more rest : List Char}
    (word : ∀ d ∈ c :: more, Lexeme.insideWord d = true)
    (ends : EndsLexeme rest) (unopened : (skipBlanks rest).head? ≠ some '(') :
    Lexeme.functionName c (more ++ rest) = none := by
  have noBracket : ((skipBlanks ((c :: (more ++ rest)).dropWhile Lexeme.insideName)).head? ==
      some '(') = false := by
    refine beq_eq_false_iff_ne.2 ?_
    rw [← List.cons_append, List.dropWhile_append]
    split
    · rw [(Command.span_of_outside fun d first => insideName_of_isBoundary (ends d first)).2]
      exact unopened
    · rename_i some
      -- the name stops inside the word, at a character that is no bracket
      cases left : (c :: more).dropWhile Lexeme.insideName with
      | nil => simp [left] at some
      | cons d others =>
        have inside : Lexeme.insideWord d = true := by
          refine word d ((List.dropWhile_sublist Lexeme.insideName).subset ?_)
          rw [left]
          exact List.mem_cons_self
        rw [List.cons_append, skipBlanks_cons (by
          simp only [Lexeme.insideWord, Bool.and_eq_true, Bool.not_eq_true'] at inside
          exact inside.1.1.1.1.1.1.1.1)]
        rintro ⟨⟩
        exact absurd inside (by decide)
  unfold Lexeme.functionName
  split
  · simp only [noBracket, Bool.false_and, Bool.false_eq_true, if_false]
  · rfl

theorem opensDice_of_endsLexeme {rest : List Char} (ends : EndsLexeme rest) :
    Lexeme.opensDice rest = false := by
  cases rest with
  | nil => rfl
  | cons c more =>
    have boundary := ends c rfl
    have round : (c == '(') = false :=
      beq_eq_false_iff_ne.2 (ne_of_isBoundary boundary (by decide))
    simp only [Lexeme.opensDice, isDigitLike_of_isBoundary boundary, round, Bool.or_false,
      Bool.false_eq_true, if_false, ofLetter?_of_isBoundary boundary]

theorem unopened_flavorText (flavor : Option String) {rest : List Char} (ends : EndsClause rest) :
    (skipBlanks (Lexeme.flavorText flavor ++ rest)).head? ≠ some '(' := by
  cases flavor with
  | none =>
    intro first
    have closed := ends '(' first
    cases closed
  | some text =>
    change (skipBlanks ('[' :: text.toList ++ [']'] ++ rest)).head? ≠ _
    rw [List.append_assoc, List.cons_append, skipBlanks_cons (by decide)]
    rintro ⟨⟩

theorem text_rereads {word : String} {flavor : Option String} (shape : Lexeme.IsWord word.toList)
    (legible : Lexeme.IsFlavor flavor) (raw : String) :
    (Clause.text word flavor raw).Rereads source inner := by
  rcases shape with ⟨c, more, shown, inside, other, noDie⟩
  rw [shown] at inside
  have text : (withFlavor word flavor).toList =
      c :: (more ++ Lexeme.flavorText (keptFlavor flavor)) := by
    rw [toList_withFlavor, shown, List.cons_append]
  have first := inside c List.mem_cons_self
  refine ⟨c, _, text, not_boundary_of insideWord_of_isBoundary first, ?_⟩
  intro rest ends
  have lexeme := Lexeme.endsLexeme_flavorText (keptFlavor flavor) ends
  have noFunction : Lexeme.functionName c (more ++ Lexeme.flavorText (keptFlavor flavor) ++ rest) =
      none := by
    rw [List.append_assoc]
    exact functionName_of_word inside lexeme (unopened_flavorText _ ends)
  have noDice : (Lexeme.isDieSign c &&
      Lexeme.opensDice (more ++ Lexeme.flavorText (keptFlavor flavor) ++ rest)) = false := by
    rw [List.append_assoc]
    cases more with
    | nil => rw [List.nil_append, opensDice_of_endsLexeme lexeme, Bool.and_false]
    | cons d others =>
      rw [opensDice_append fun e begins => isBasicLetter_of_isBoundary (lexeme e begins)]
      exact noDie
  rcases Command.span_append inside fun d begins => insideWord_of_isBoundary (lexeme d begins) with
    ⟨taken, left⟩
  have read : ∃ shorter,
      Lexeme.word c (more ++ Lexeme.flavorText (keptFlavor flavor) ++ rest) =
        some ⟨c :: more, Lexeme.flavorText (keptFlavor flavor) ++ rest, shorter⟩ := by
    rw [List.append_assoc]
    refine ⟨by simp only [List.length_cons, List.length_append]; omega, ?_⟩
    unfold Lexeme.word
    rw [List.cons_append] at taken left
    simp only [dif_pos first, taken, left]
  have found := source.wordClause_finds_word inner noFunction noDice read
    (splitFlavor_canonical legible ends)
  rw [textBetween_raw text, ← shown, String.ofList_toList] at found
  rw [source.clauseAt_of_word ?_ ?_ other]
  · exact found
  · rintro rfl
    exact absurd first (by decide)
  · rintro rfl
    exact absurd first (by decide)

/-! ## Brackets and lists -/

variable {read : ExpressionReader}

theorem bracketed_rereads {tree : Tree Clause} (rereads : read.Rereads tree) (rest : List Char) :
    Finds (source.bracketed (some read) '(' ((canonicalTree tree).raw.toList ++ ')' :: rest))
      (canonicalTree tree) rest :=
  source.bracketed_finds
    (rereads.finds [] _ (by simp) (endsExpression_cons (by decide) rest))
    (skipBlanks_cons (by decide) rest)

theorem group_rereads {tree : Tree Clause} (rereads : read.Rereads tree) {flavor : Option String}
    (legible : Lexeme.IsFlavor flavor) (raw : String) :
    (Clause.group tree flavor raw).Rereads source (some read) := by
  have text : (withFlavor ("(" ++ (canonicalTree tree).raw ++ ")") flavor).toList =
      '(' :: ((canonicalTree tree).raw.toList ++ ')' :: Lexeme.flavorText (keptFlavor flavor)) := by
    simp [toList_withFlavor]
  refine ⟨'(', _, text, by decide, ?_⟩
  intro rest ends
  have lexeme := Lexeme.endsLexeme_flavorText (keptFlavor flavor) ends
  have found := source.bracketClause_finds_group
    (bracketed_rereads rereads (Lexeme.flavorText (keptFlavor flavor) ++ rest))
    (fun c first => isDieSign_of_isBoundary (lexeme c first)) (splitFlavor_canonical legible ends)
  have between := textBetween_raw text rest
  rw [List.append_assoc, List.cons_append] at between ⊢
  rw [between] at found
  exact found

theorem separated_rereads (source : Source) {closing : Char} (mark : isClosing closing = true)
    (other : closing ≠ ',') (opened : List Char) {tree : Tree Clause} {more : List (Tree Clause)}
    (rereads : ∀ member ∈ tree :: more, read.Rereads member) (gap : List Char)
    (blank : ∀ c ∈ gap, isBlank c = true) (rest : List Char) :
    Finds (source.separated read closing opened
      (gap ++ ((canonicalTree tree).raw.toList ++ (textBehindComma more ++ closing :: rest))))
      (canonicalTrees (tree :: more)) rest := by
  induction more generalizing tree gap with
  | nil =>
    have ends := endsExpression_cons mark rest
    have found := (rereads tree List.mem_cons_self).finds gap _ blank ends
    refine source.separated_finds_last other found ?_
    have visible : ∀ d ∈ [')', '\x7d', ','], isBlank d = false := forall_of_all (by decide)
    refine skipBlanks_cons (visible closing ?_) rest
    simp only [isClosing, Bool.or_eq_true, beq_iff_eq] at mark
    rcases mark with (rfl | rfl) | rfl <;> decide
  | cons next more ih =>
    have text : textBehindComma (next :: more) ++ closing :: rest = ',' :: ([' '] ++
        ((canonicalTree next).raw.toList ++ (textBehindComma more ++ closing :: rest))) := by
      simp [textBehindComma]
    have later := ih (fun member inside => rereads member (List.mem_cons_of_mem _ inside))
      [' '] (forall_of_all (by decide))
    rw [text]
    exact source.separated_finds_more ((rereads tree List.mem_cons_self).finds gap _ blank
      (endsExpression_cons (by decide) _)) (skipBlanks_cons (by decide) _) later

theorem listed_rereads {closing : Char} (mark : isClosing closing = true) (other : closing ≠ ',')
    (c : Char) {trees : List (Tree Clause)} (rereads : ∀ tree ∈ trees, read.Rereads tree)
    (rest : List Char) :
    Finds (source.listed (some read) closing c
      ((listText (canonicalTrees trees)).toList ++ closing :: rest)) (canonicalTrees trees) rest := by
  cases trees with
  | nil =>
    have visible : ∀ d ∈ [')', '\x7d', ','], isBlank d = false := forall_of_all (by decide)
    refine source.listed_finds_nothing read c (skipBlanks_cons (visible closing ?_) rest)
    simp only [isClosing, Bool.or_eq_true, beq_iff_eq] at mark
    rcases mark with (rfl | rfl) | rfl <;> decide
  | cons tree more =>
    rcases (rereads tree List.mem_cons_self).begins with ⟨d, others, begins, visible, open_⟩
    have found := separated_rereads source mark other (c ::
      ((listText (canonicalTrees (tree :: more))).toList ++ closing :: rest)) rereads
      [] (by simp) rest
    rw [toList_listText, List.append_assoc, begins] at *
    refine source.listed_finds (skipBlanks_cons visible _) ?_ found
    rintro rfl
    rw [mark] at open_
    cases open_

theorem isDigitLike_of_beginsName {c : Char} (first : Lexeme.beginsName c = true) :
    isDigitLike c = false := by
  rcases Bool.or_eq_true_iff.1 first with letter | underscore
  · rw [isDigitLike, isDigit_of_isBasicLetter letter, Bool.false_or]
    exact has_of_isBasicLetter (by decide) (by decide) letter
  · cases beq_iff_eq.1 underscore
    decide

theorem functionName_append {c : Char} {more : List Char}
    (name : ∃ d others, c :: more = d :: others ∧ Lexeme.beginsName d = true ∧
      (∀ e ∈ c :: more, Lexeme.insideName e = true) ∧ lower (c :: more) ≠ ['d'])
    (rest : List Char) : ∃ shorter,
      Lexeme.functionName c (more ++ '(' :: rest) = some ⟨c :: more, '(' :: rest, shorter⟩ := by
  rcases name with ⟨d, others, ⟨rfl, rfl⟩, first, inside, other⟩
  have ends : ∀ d, ('(' :: rest).head? = some d → Lexeme.insideName d = false := by
    rintro d ⟨⟩
    decide
  rcases Command.span_append inside ends with ⟨taken, left⟩
  rw [List.cons_append] at taken left
  refine ⟨by simp only [List.length_cons, List.length_append]; omega, ?_⟩
  have skipped : skipBlanks ('(' :: rest) = '(' :: rest := skipBlanks_cons (by decide) rest
  unfold Lexeme.functionName
  rw [dif_pos first]
  simp only [taken, left, skipped]
  rw [if_pos]
  simp [other]

theorem function_rereads {name : String} {arguments : List (Tree Clause)} {flavor : Option String}
    (called : Lexeme.IsName name.toList) (rereads : ∀ tree ∈ arguments, read.Rereads tree)
    (legible : Lexeme.IsFlavor flavor) (raw : String) :
    (Clause.function name arguments flavor raw).Rereads source (some read) := by
  rcases called with ⟨c, more, shown, first, inside, other⟩
  have text : (withFlavor (name ++ "(" ++ listText (canonicalTrees arguments) ++ ")") flavor).toList =
      c :: (more ++ '(' :: ((listText (canonicalTrees arguments)).toList ++
        ')' :: Lexeme.flavorText (keptFlavor flavor))) := by
    simp [toList_withFlavor, shown]
  rw [shown] at inside other
  refine ⟨c, _, text, not_boundary_of insideName_of_isBoundary (inside c List.mem_cons_self), ?_⟩
  intro rest ends
  have found := source.wordClause_finds_function
    (functionName_append ⟨c, more, rfl, first, inside, other⟩ _)
    (listed_rereads (by decide) (by decide) '(' rereads
      (Lexeme.flavorText (keptFlavor flavor) ++ rest)) (splitFlavor_canonical legible ends)
  have between := textBetween_raw text rest
  rw [List.append_assoc, List.cons_append, List.append_assoc, List.cons_append] at between ⊢
  rw [between, ← shown, String.ofList_toList] at found
  rw [source.clauseAt_of_word ?_ ?_ ?_]
  · exact found
  · rintro rfl
    exact absurd first (by decide)
  · rintro rfl
    exact absurd first (by decide)
  · exact isDigitLike_of_beginsName first

theorem pool_rereads {members : List (Tree Clause)} {modifiers : String} {flavor : Option String}
    (some : members ≠ []) (rereads : ∀ tree ∈ members, read.Rereads tree)
    (run : Command.IsRun modifiers.toList) (legible : Lexeme.IsFlavor flavor) (raw : String) :
    (Clause.pool members modifiers flavor raw).Rereads source (Option.some read) := by
  have text : (withFlavor ("\x7b" ++ listText (canonicalTrees members) ++ "\x7d" ++ modifiers)
      flavor).toList = '\x7b' :: ((listText (canonicalTrees members)).toList ++
        '\x7d' :: (modifiers.toList ++ Lexeme.flavorText (keptFlavor flavor))) := by
    simp [toList_withFlavor]
  refine ⟨'\x7b', _, text, by decide, ?_⟩
  intro rest ends
  have lexeme := Lexeme.endsLexeme_flavorText (keptFlavor flavor) ends
  have found := source.poolClause_finds
    (listed_rereads (by decide) (by decide) '\x7b' rereads
      (modifiers.toList ++ (Lexeme.flavorText (keptFlavor flavor) ++ rest)))
    (by cases members with | nil => exact absurd rfl some | cons => simp [canonicalTrees])
    (Command.readRun_of_isRun run lexeme) (splitFlavor_canonical legible ends)
  have between := textBetween_raw text rest
  rw [List.append_assoc, List.cons_append, List.append_assoc] at between ⊢
  rw [between, String.ofList_toList] at found
  exact found

/-! ## Dice -/

/-- Whether the expression that computes an amount is found where its text begins. -/
def Amount.Rereads (inner : Option ExpressionReader) : Amount Clause → Prop
  | known _ => True
  | computed tree _ => ∃ read, inner = some read ∧ read.Rereads tree

def Faces.Rereads (inner : Option ExpressionReader) : Faces Clause → Prop
  | amount a => a.Rereads inner
  | letter _ => True

theorem toList_toString (n : Nat) : (toString n).toList = Nat.toDigits 10 n := String.toList_ofList

theorem isDigit_of_toDigits {n : Nat} {c : Char} {more : List Char}
    (digits : Nat.toDigits 10 n = c :: more) : ∀ d ∈ c :: more, isDigit d = true := by
  rw [← digits]
  exact fun d member => isDigit_of_mem_toDigits member

theorem toList_bracketed (tree : Tree Clause) :
    ("(" ++ (canonicalTree tree).raw ++ ")").toList =
      '(' :: ((canonicalTree tree).raw.toList ++ [')']) := by
  simp

/-- The text between a bracket and what is behind the closing one. -/
theorem textBetween_bracketed (tree : Tree Clause) (rest : List Char) :
    textBetween ('(' :: ((canonicalTree tree).raw.toList ++ ')' :: rest)) rest =
      "(" ++ (canonicalTree tree).raw ++ ")" := by
  have between := textBetween_raw (toList_bracketed tree) rest
  rw [List.append_assoc] at between
  exact between

/-- The letter of a kind of dice is read as it is written. -/
theorem letter_rereads {code : String} {kind : DieKind} (known : DieKind.ofLetter? code = some kind) :
    ∃ c, code.toList = [c] ∧ isLetter c = true ∧ isDigitLike c = false ∧ c ≠ '(' ∧
      String.ofList (lowerChar c) = code := by
  unfold DieKind.ofLetter? at known
  split at known
  · rename_i coin
    cases beq_iff_eq.1 coin
    exact ⟨'c', by decide⟩
  · split at known
    · rename_i fate
      cases beq_iff_eq.1 fate
      exact ⟨'f', by decide⟩
    · cases known

/-- Faces are found where their text begins, if no digit stands behind them. -/
theorem faces_rereads (source : Source) {faces : Faces Clause} (rereads : faces.Rereads inner)
    (known : ∀ code, faces = .letter code → ∃ kind, DieKind.ofLetter? code = some kind)
    {rest : List Char} (ends : ∀ d, rest.head? = some d → isDigit d = false) :
    Reaches (source.faces inner ((canonicalFaces faces).text.toList ++ rest))
      (some (canonicalFaces faces)) rest := by
  cases faces with
  | letter code =>
    rcases known code rfl with ⟨kind, named⟩
    rcases letter_rereads named with ⟨c, text, letter, other, round, lower⟩
    have found := source.faces_reaches_letter inner letter other round rest
    rw [lower] at found
    rw [canonicalFaces, Faces.text, text]
    exact found
  | amount a =>
    cases a with
    | known n =>
      rcases toDigits_eq_cons n with ⟨c, more, digits⟩
      have found := source.faces_reaches_digits inner (isDigit_of_toDigits digits) ends
      rw [← digits, natOfDigits_toDigits] at found
      rw [canonicalFaces, canonicalAmount, Faces.text, Amount.text, toList_toString]
      exact found
    | computed tree raw =>
      rcases rereads with ⟨read, rfl, rereads⟩
      have found := source.faces_reaches_bracketed (bracketed_rereads rereads rest)
      rw [textBetween_bracketed] at found
      rw [canonicalFaces, canonicalAmount, Faces.text, Amount.text, toList_bracketed,
        List.cons_append, List.append_assoc]
      exact found

/-- What stands behind the die sign is found where its text begins. -/
theorem dice_rereads {number : Amount Clause} {faces : Faces Clause} {modifiers : String}
    {flavor : Option String} (rereads : faces.Rereads inner)
    (known : ∀ code, faces = .letter code → ∃ kind, DieKind.ofLetter? code = some kind)
    (run : Command.IsRun modifiers.toList) (legible : Lexeme.IsFlavor flavor)
    (start : List Char) {rest : List Char} (ends : EndsClause rest) :
    Reaches (source.dice inner (some number) start ((canonicalFaces faces).text.toList ++
        (modifiers.toList ++ (Lexeme.flavorText (keptFlavor flavor) ++ rest))))
      (.dice number (canonicalFaces faces) modifiers (keptFlavor flavor) (textBetween start rest))
      rest := by
  have lexeme := Lexeme.endsLexeme_flavorText (keptFlavor flavor) ends
  have read := faces_rereads source rereads known (Command.not_digit_of_run run lexeme)
  have found : Reaches _ (Clause.dice number _ _ _ (textBetween start rest)) rest :=
    source.dice_reaches read (Command.readRun_of_isRun run lexeme)
      (splitFlavor_canonical legible ends)
  rw [String.ofList_toList] at found
  exact found

theorem dice_clause_rereads {number : Amount Clause} {faces : Faces Clause} {modifiers : String}
    {flavor : Option String} (counted : number.Rereads inner) (rereads : faces.Rereads inner)
    (known : ∀ code, faces = .letter code → ∃ kind, DieKind.ofLetter? code = some kind)
    (run : Command.IsRun modifiers.toList) (legible : Lexeme.IsFlavor flavor) (raw : String) :
    (Clause.dice number faces modifiers flavor raw).Rereads source inner := by
  have text : (withFlavor ((canonicalAmount number).text ++ "d" ++ (canonicalFaces faces).text ++
      modifiers) flavor).toList = (canonicalAmount number).text.toList ++
        ('d' :: ((canonicalFaces faces).text.toList ++
          (modifiers.toList ++ Lexeme.flavorText (keptFlavor flavor)))) := by
    simp [toList_withFlavor]
  cases number with
  | known n =>
    rcases toDigits_eq_cons n with ⟨c, more, digits⟩
    have decimal := isDigit_of_toDigits digits
    have first := decimal c List.mem_cons_self
    rw [canonicalAmount, Amount.text, toList_toString, digits, List.cons_append] at text
    refine ⟨c, _, text, isBoundary_of_isDigit first, ?_⟩
    intro rest ends
    have read (behind : List Char) :
        Lexeme.splitNumber (c :: (more ++ 'd' :: behind)) = (c :: more, 'd' :: behind) := by
      rw [← List.cons_append]
      refine Lexeme.splitNumber_append decimal ?_
      rintro d ⟨⟩
      decide
    have found := source.numberClause_finds_dice first (read _) (by decide)
      (Lexeme.hasPoint_of_digits decimal) (dice_rereads rereads known run legible _ ends)
    have between := textBetween_raw text rest
    rw [List.append_assoc, List.cons_append, List.append_assoc, List.append_assoc] at between ⊢
    rw [between, ← digits, natOfDigits_toDigits] at found
    exact found
  | computed tree inside =>
    rcases counted with ⟨read, rfl, counted⟩
    rw [canonicalAmount, Amount.text, toList_bracketed, List.cons_append] at text
    refine ⟨'(', _, text, by decide, ?_⟩
    intro rest ends
    have between := textBetween_raw text rest
    rw [List.append_assoc, List.append_assoc, List.singleton_append, List.cons_append,
      List.append_assoc, List.append_assoc] at between ⊢
    have found := source.bracketClause_finds_dice (d := 'd') (bracketed_rereads counted _) (by decide)
      (dice_rereads rereads known run legible _ ends)
    rw [between, textBetween_bracketed] at found
    exact found

/-! ## Whole formulas -/

/-- Whether all trees that can be read again are found where their text begins, if they
open no more brackets at once than a number. -/
def Source.RereadsUpTo (source : Source) (levels : Nat) : Prop :=
  ∀ tree : Tree Clause, tree.IsRow → TreeThroughout Clause.IsReadable tree →
    treeNesting tree ≤ levels → (source.expressionAt levels).Rereads tree

theorem amount_rereads {levels : Nat} {amount : Amount Clause} (row : amount.IsRow)
    (readable : WrittenThroughout Clause.IsReadable amount)
    (inner : ∀ below, levels = below + 1 → source.RereadsUpTo below)
    (few : amountNesting amount ≤ levels) : amount.Rereads (source.nested levels) := by
  cases amount with
  | known n => trivial
  | computed tree raw =>
    cases levels with
    | zero => exact absurd few (Nat.not_succ_le_zero _)
    | succ below =>
      exact ⟨_, rfl, inner below rfl tree row readable (Nat.le_of_succ_le_succ few)⟩

/-- A clause without a sign is found where its text begins, if what is in its brackets is. -/
theorem clause_rereads {levels : Nat} {clause : Clause}
    (readable : clause.Throughout Clause.IsReadable) (unsigned : clause.isNegative = false)
    (inner : ∀ below, levels = below + 1 → source.RereadsUpTo below)
    (few : clause.nesting ≤ levels) : clause.Rereads source (source.nested levels) := by
  cases clause with
  | numeric value flavor raw =>
    rcases readable with ⟨legible, ⟨n, rfl⟩, _⟩
    have natural : 0 ≤ n := by simpa [Clause.isNegative] using unsigned
    rcases Int.eq_ofNat_of_zero_le natural with ⟨m, rfl⟩
    exact numeric_rereads legible raw
  | text word flavor raw =>
    rcases readable with ⟨⟨shape, legible⟩, _⟩
    exact text_rereads shape legible raw
  | dice number faces modifiers flavor raw =>
    rcases readable with ⟨⟨⟨counted, sided, run, legible⟩, _, known⟩, first, second⟩
    have few := Nat.max_le.1 few
    refine dice_clause_rereads (amount_rereads counted first inner few.1) ?_ ?_ run legible raw
    · cases faces with
      | letter code => trivial
      | amount a => exact amount_rereads sided second inner few.2
    · rintro code rfl
      exact known
  | group tree flavor raw =>
    rcases readable with ⟨⟨⟨row, legible⟩, _⟩, inside⟩
    cases levels with
    | zero => exact absurd few (Nat.not_succ_le_zero _)
    | succ below =>
      exact group_rereads (inner below rfl tree row inside (Nat.le_of_succ_le_succ few)) legible raw
  | function name arguments flavor raw =>
    rcases readable with ⟨⟨⟨called, rows, legible⟩, _⟩, inside⟩
    cases levels with
    | zero => exact absurd few (Nat.not_succ_le_zero _)
    | succ below =>
      have each := treesNesting_le_iff.1 (Nat.le_of_succ_le_succ few)
      refine function_rereads called ?_ legible raw
      intro tree member
      exact inner below rfl tree (rows tree member) ((treesThroughout_iff _).1 inside tree member)
        (each tree member)
  | pool members modifiers flavor raw =>
    rcases readable with ⟨⟨⟨some, rows, run, legible⟩, _⟩, inside⟩
    cases levels with
    | zero => exact absurd few (Nat.not_succ_le_zero _)
    | succ below =>
      have each := treesNesting_le_iff.1 (Nat.le_of_succ_le_succ few)
      refine pool_rereads some ?_ run legible raw
      intro tree member
      exact inner below rfl tree (rows tree member) ((treesThroughout_iff _).1 inside tree member)
        (each tree member)

theorem tree_rereads {levels : Nat} (inner : ∀ below, levels = below + 1 → source.RereadsUpTo below) :
    source.RereadsUpTo levels := by
  intro tree row readable few
  have few := treeNesting_le_iff.1 few
  have readable := (treeThroughout_iff tree).1 readable
  have operand (clause : Clause) (inside : clause.Throughout Clause.IsReadable)
      (within : clause.nesting ≤ levels) :
      clause.unsigned.Rereads source (source.nested levels) := by
    refine clause_rereads (Clause.readable_unsigned inside) clause.isNegative_unsigned inner ?_
    rw [Clause.nesting_unsigned]
    exact within
  rw [source.expressionAt_eq]
  exact row.rereads (operand _ readable.1 few.1)
    fun next member => operand _ (readable.2 next member) (few.2 next member)

/-- Every level reads what opens no more brackets. -/
theorem rereadsUpTo (source : Source) (levels : Nat) : source.RereadsUpTo levels := by
  induction levels with
  | zero => exact tree_rereads fun _ none => nomatch none
  | succ levels ih =>
    refine tree_rereads fun below same => ?_
    cases same
    exact ih

/-- The canonical text of a tree is parsed as the canonical tree. -/
theorem parse_canonical {tree : Tree Clause} (row : tree.IsRow)
    (readable : TreeThroughout Clause.IsReadable tree) {maxNesting : Nat}
    (few : treeNesting tree ≤ maxNesting) (imputeNumber : Bool) :
    Source.parse ⟨(canonicalTree tree).raw.toList, imputeNumber, maxNesting⟩ =
      .ok (canonicalTree tree) := by
  let source : Source := ⟨(canonicalTree tree).raw.toList, imputeNumber, maxNesting⟩
  have ends : EndsExpression [] := by
    intro c first
    cases first
  have found := (rereadsUpTo source maxNesting tree row readable few).finds [] [] (by simp) ends
  rw [List.nil_append, List.append_nil] at found
  exact source.parse_of_finds found rfl

end

end DiceNotation
