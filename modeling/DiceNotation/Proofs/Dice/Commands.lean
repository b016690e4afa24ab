import DiceNotation.Proofs.Formula.Lexemes
import DiceNotation.Roll.Basic

namespace DiceNotation

open Text

/-!
# Modifiers read back

The modifiers behind dice or a pool are a row of commands.  All but the last one of
them end in digits, so that each ends where the next one begins.  Therefore modifiers
that were read once are read again, whatever ends them, and the commands that they are
cut into are written as the modifiers.
-/

namespace Text

/-- The ranges of the basic letters and of what folds onto them. -/
def basicLetterRanges : Ranges :=
  [(0x41, 0x5A), (0x61, 0x7A), (0x130, 0x131), (0x17F, 0x17F), (0x212A, 0x212A)]

theorem has_basicLetterRanges {c : Char} (letter : isBasicLetter c = true) :
    basicLetterRanges.has c.toNat = true := by
  simp only [isBasicLetter, Bool.or_eq_true, Bool.and_eq_true, decide_eq_true_eq, beq_iff_eq,
    Char.le_def, UInt32.le_iff_toNat_le] at letter
  rcases letter with ((((⟨low, high⟩ | ⟨low, high⟩) | rfl) | rfl) | rfl) | rfl
  · exact Ranges.has_eq_true.2 ⟨(0x61, 0x7A), by simp [basicLetterRanges], low, high⟩
  · exact Ranges.has_eq_true.2 ⟨(0x41, 0x5A), by simp [basicLetterRanges], low, high⟩
  all_goals decide

/-- A table that is apart from them has no basic letter. -/
theorem has_of_isBasicLetter {others : Ranges} (apart : basicLetterRanges.apart others = true)
    (ascending : others.ascending = true) {c : Char} (letter : isBasicLetter c = true) :
    others.has c.toNat = false :=
  Ranges.has_of_apart apart (Ranges.pairwise_of_ascending (by decide))
    (Ranges.pairwise_of_ascending ascending) (has_basicLetterRanges letter)

theorem isDigit_of_isBasicLetter {c : Char} (letter : isBasicLetter c = true) :
    isDigit c = false := by
  rw [isDigit_eq_has]
  exact has_of_isBasicLetter (by decide) (by decide) letter

theorem mem_of_isMark {c : Char} (mark : Command.isMark c = true) : c ∈ ['<', '>', '='] := by
  simp only [Command.isMark, Bool.or_eq_true, beq_iff_eq] at mark
  rcases mark with (rfl | rfl) | rfl <;> decide

theorem plain_of_isBasicLetter {c : Char} (letter : isBasicLetter c = true) :
    isDigit c = false ∧ Command.isMark c = false := by
  refine ⟨isDigit_of_isBasicLetter letter, ?_⟩
  cases mark : Command.isMark c with
  | false => rfl
  | true =>
    have outside : ∀ d ∈ ['<', '>', '='], isBasicLetter d = false := forall_of_all (by decide)
    rw [outside c (mem_of_isMark mark)] at letter
    cases letter

theorem plain_of_isMark {c : Char} (mark : Command.isMark c = true) :
    isDigit c = false ∧ isBasicLetter c = false := by
  have listed : ∀ d ∈ ['<', '>', '='], isDigit d = false ∧ isBasicLetter d = false :=
    forall_of_all (by decide)
  exact listed c (mem_of_isMark mark)

theorem plain_of_isDigit {c : Char} (digit : isDigit c = true) :
    isBasicLetter c = false ∧ Command.isMark c = false := by
  constructor
  · cases letter : isBasicLetter c with
    | false => rfl
    | true =>
      rw [(plain_of_isBasicLetter letter).1] at digit
      cases digit
  · cases mark : Command.isMark c with
    | false => rfl
    | true =>
      rw [(plain_of_isMark mark).1] at digit
      cases digit

end Text

namespace Command

/-- Commands one after another, as they are read. -/
inductive IsRun : List Char → Prop
  | nil : IsRun []
  | code {letters : List Char} (some : letters ≠ []) (basic : ∀ c ∈ letters, isBasicLetter c = true) :
    IsRun letters
  | counted {letters marks digits more : List Char}
    (basic : ∀ c ∈ letters, isBasicLetter c = true) (comparing : ∀ c ∈ marks, isMark c = true)
    (few : marks.length ≤ 2) (begins : letters ++ marks ≠ []) (number : digits ≠ [])
    (decimal : ∀ c ∈ digits, isDigit c = true) (later : IsRun more) :
    IsRun (letters ++ marks ++ digits ++ more)

theorem mem_of_head?_append {front rest : List Char} (some : front ≠ []) {c : Char}
    (first : (front ++ rest).head? = Option.some c) : c ∈ front := by
  cases front with
  | nil => exact absurd rfl some
  | cons d more =>
    cases first
    exact List.mem_cons_self

/-- A run of commands begins with a letter or a mark. -/
theorem IsRun.head {text : List Char} (run : IsRun text) :
    ∀ c, text.head? = some c → isBasicLetter c = true ∨ isMark c = true := by
  cases run with
  | nil =>
    intro c first
    cases first
  | code some basic =>
    intro c first
    exact .inl (basic c (List.mem_of_mem_head? first))
  | @counted letters marks digits more basic comparing few begins number decimal later =>
    intro c first
    rw [List.append_assoc] at first
    have inside := mem_of_head?_append begins first
    rcases List.mem_append.1 inside with letter | mark
    · exact .inl (basic c letter)
    · exact .inr (comparing c mark)

/-- What follows digits: a run of commands or the end of lexemes. -/
theorem not_digit_of_run {text rest : List Char} (run : IsRun text) (ends : EndsLexeme rest) :
    ∀ c, (text ++ rest).head? = some c → isDigit c = false := by
  intro c first
  cases text with
  | nil => exact isDigit_of_isBoundary (ends c first)
  | cons d more =>
    cases first
    rcases run.head c rfl with letter | mark
    · exact (plain_of_isBasicLetter letter).1
    · exact (plain_of_isMark mark).1

theorem span_of_outside {p : Char → Bool} {rest : List Char}
    (outside : ∀ c, rest.head? = some c → p c = false) :
    rest.takeWhile p = [] ∧ rest.dropWhile p = rest := by
  cases rest with
  | nil => exact ⟨rfl, rfl⟩
  | cons c more => simp [outside c rfl]

/-- A class of characters splits a text where it is followed by none of it. -/
theorem span_append {p : Char → Bool} {front rest : List Char} (inside : ∀ c ∈ front, p c = true)
    (outside : ∀ c, rest.head? = some c → p c = false) :
    (front ++ rest).takeWhile p = front ∧ (front ++ rest).dropWhile p = rest := by
  rcases span_of_outside outside with ⟨none, all⟩
  rw [List.takeWhile_append_of_pos inside, List.dropWhile_append_of_pos inside, none, all,
    List.append_nil]
  exact ⟨rfl, rfl⟩

/-- A command with digits is read up to its last digit. -/
theorem readCommand_counted {letters marks digits rest : List Char}
    (basic : ∀ c ∈ letters, isBasicLetter c = true) (comparing : ∀ c ∈ marks, isMark c = true)
    (few : marks.length ≤ 2) (number : digits ≠ []) (decimal : ∀ c ∈ digits, isDigit c = true)
    (ends : ∀ c, rest.head? = some c → isDigit c = false) :
    readCommand (letters ++ (marks ++ (digits ++ rest))) = (letters ++ marks ++ digits, rest) := by
  have behindMarks : ∀ c, (digits ++ rest).head? = some c →
      isMark c = false ∧ isBasicLetter c = false := by
    intro c first
    have digit := plain_of_isDigit (decimal c (mem_of_head?_append number first))
    exact ⟨digit.2, digit.1⟩
  have behindLetters : ∀ c, (marks ++ (digits ++ rest)).head? = some c → isBasicLetter c = false := by
    intro c first
    cases marks with
    | nil => exact (behindMarks c first).2
    | cons mark others =>
      cases first
      exact (plain_of_isMark (comparing c List.mem_cons_self)).2
  rcases span_append basic behindLetters with ⟨code, after⟩
  rcases span_append comparing fun c first => (behindMarks c first).1 with ⟨compared, target⟩
  rcases span_append decimal ends with ⟨counted, left⟩
  have present : digits.isEmpty = false := List.isEmpty_eq_false_iff.2 number
  unfold readCommand
  simp only [code, after]
  cases marks with
  | nil =>
    have none : readComparison (digits ++ rest) = none := by
      rw [List.nil_append] at compared
      rw [readComparison, compared]
      rfl
    simp only [List.nil_append, none, counted, left, List.append_nil]
  | cons mark others =>
    have read : readComparison (mark :: others ++ (digits ++ rest)) =
        some (mark :: others ++ digits, rest) := by
      have length : ((mark :: others).length == 1 || (mark :: others).length == 2) = true := by
        simp only [List.length_cons, Bool.or_eq_true, beq_iff_eq] at few ⊢
        omega
      simp only [readComparison, compared, target, counted, left, length, present]
      rfl
    simp only [read, List.append_assoc]

/-- A text that ends lexemes begins no command, and neither does the text behind a code
without a target. -/
theorem readRun_of_plain {text : List Char}
    (noLetter : ∀ c, text.head? = some c → isBasicLetter c = false)
    (noComparison : readComparison text = none) : readRun text = ([], text) := by
  have empty : readCommand text = (text.takeWhile isDigit, text.dropWhile isDigit) := by
    have none : text.takeWhile isBasicLetter = [] ∧ text.dropWhile isBasicLetter = text :=
      span_of_outside noLetter
    simp only [readCommand, none, noComparison, List.nil_append]
  have unattached : isAttached (readCommand text).1 = false := by
    rw [empty]
    cases text with
    | nil => rfl
    | cons c rest =>
      cases digit : isDigit c with
      | false => simp [isAttached, digit]
      | true => simp [isAttached, digit]
  rw [readRun, dif_neg (by simp [unattached])]

theorem readComparison_of_endsLexeme {rest : List Char} (ends : EndsLexeme rest) :
    readComparison rest = none := by
  have marks : rest.takeWhile isMark = [] := by
    cases rest with
    | nil => rfl
    | cons c more => simp [isMark_of_isBoundary (ends c rfl)]
  rw [readComparison, marks]
  rfl

/-- Commands are read again, whatever ends them. -/
theorem readRun_of_isRun {text : List Char} (run : IsRun text) {rest : List Char}
    (ends : EndsLexeme rest) : readRun (text ++ rest) = (text, rest) := by
  have stops : readRun rest = ([], rest) :=
    readRun_of_plain (fun c first => isBasicLetter_of_isBoundary (ends c first))
      (readComparison_of_endsLexeme ends)
  induction run with
  | nil => exact stops
  | @code letters some basic =>
    have read : readCommand (letters ++ rest) = (letters, rest) := by
      rcases span_append basic fun c first => isBasicLetter_of_isBoundary (ends c first) with
        ⟨code, after⟩
      have digits : rest.takeWhile isDigit = [] ∧ rest.dropWhile isDigit = rest :=
        span_of_outside fun c first => isDigit_of_isBoundary (ends c first)
      simp only [readCommand, code, after, readComparison_of_endsLexeme ends, digits,
        List.append_nil]
    have attached : isAttached letters = true := by
      cases letters with
      | nil => exact absurd rfl some
      | cons c others => simp [isAttached, (plain_of_isBasicLetter (basic c List.mem_cons_self)).1]
    rw [readRun, dif_pos (by rw [read]; exact attached), read, stops]
    simp
  | @counted letters marks digits more basic comparing few begins number decimal later ih =>
    have read := readCommand_counted basic comparing few number decimal
      (not_digit_of_run later ends)
    have attached : isAttached (letters ++ marks ++ digits) = true := by
      have whole := (IsRun.counted basic comparing few begins number decimal .nil).head
      cases front : letters ++ marks ++ digits with
      | nil => simp [number] at front
      | cons c others =>
        rw [front, List.append_nil] at whole
        rcases whole c rfl with letter | mark
        · simp [isAttached, (plain_of_isBasicLetter letter).1]
        · simp [isAttached, (plain_of_isMark mark).1]
    have flat : letters ++ marks ++ digits ++ more ++ rest =
        letters ++ (marks ++ (digits ++ (more ++ rest))) := by
      simp only [List.append_assoc]
    rw [flat, readRun, dif_pos (by rw [read]; exact attached), read]
    simp only [ih, List.append_assoc]

theorem head?_dropWhile {p : Char → Bool} (text : List Char) :
    ∀ c, (text.dropWhile p).head? = some c → p c = false := by
  intro c first
  have outside := List.head?_dropWhile_not p text
  rw [first] at outside
  exact outside

theorem mem_takeWhile {p : Char → Bool} {text : List Char} :
    ∀ c ∈ text.takeWhile p, p c = true := fun _ member => List.mem_takeWhile_imp member

/-- A comparison is one or two marks with digits behind them. -/
theorem readComparison_eq_some {text comparison rest : List Char}
    (read : readComparison text = some (comparison, rest)) :
    ∃ marks digits, comparison = marks ++ digits ∧ (∀ c ∈ marks, isMark c = true) ∧
      marks ≠ [] ∧ marks.length ≤ 2 ∧ digits ≠ [] ∧ ∀ c ∈ digits, isDigit c = true := by
  simp only [readComparison] at read
  split at read
  · rename_i shape
    cases read
    simp only [Bool.and_eq_true, Bool.or_eq_true, beq_iff_eq, Bool.not_eq_true',
      List.isEmpty_eq_false_iff] at shape
    refine ⟨_, _, rfl, mem_takeWhile, ?_, ?_, shape.2, mem_takeWhile⟩
    · intro none
      rw [none] at shape
      simp at shape
    · omega
  · cases read

/-- What is read as commands is a run of commands. -/
theorem isRun_readRun (text : List Char) : IsRun (readRun text).1 := by
  fun_induction readRun text with
  | case2 text _ => exact .nil
  | case1 text attached more ih =>
    have basic : ∀ c ∈ text.takeWhile isBasicLetter, isBasicLetter c = true := mem_takeWhile
    have behind := head?_dropWhile (p := isBasicLetter) text
    cases compared : readComparison (text.dropWhile isBasicLetter) with
    | some pair =>
      rcases pair with ⟨comparison, rest⟩
      rcases readComparison_eq_some compared with
        ⟨marks, digits, rfl, comparing, present, few, number, decimal⟩
      have read : (readCommand text).1 = text.takeWhile isBasicLetter ++ marks ++ digits := by
        simp only [readCommand, compared, List.append_assoc]
      rw [read]
      exact .counted basic comparing few (by simp [present]) number decimal ih
    | none =>
      have read : readCommand text = (text.takeWhile isBasicLetter ++
          (text.dropWhile isBasicLetter).takeWhile isDigit,
          (text.dropWhile isBasicLetter).dropWhile isDigit) := by
        simp only [readCommand, compared]
      have some : text.takeWhile isBasicLetter ≠ [] := by
        intro none
        rw [read, none, List.nil_append] at attached
        cases digits : (text.dropWhile isBasicLetter).takeWhile isDigit with
        | nil => rw [digits] at attached; cases attached
        | cons c others =>
          have member : c ∈ (text.dropWhile isBasicLetter).takeWhile isDigit := by
            rw [digits]
            exact List.mem_cons_self
          have digit := mem_takeWhile c member
          rw [digits] at attached
          simp [isAttached, digit] at attached
      by_cases number : (text.dropWhile isBasicLetter).takeWhile isDigit = []
      · -- nothing can be read behind a code without a target
        have left : (text.dropWhile isBasicLetter).dropWhile isDigit =
            text.dropWhile isBasicLetter := by
          have whole := List.takeWhile_append_dropWhile (p := isDigit)
            (l := text.dropWhile isBasicLetter)
          rwa [number, List.nil_append] at whole
        have ended : more = ([], text.dropWhile isBasicLetter) := by
          change readRun (readCommand text).2 = _
          rw [read, left]
          exact readRun_of_plain behind compared
        rw [read, number, ended, List.append_nil, List.append_nil]
        exact .code some basic
      · have unmarked : ∀ c ∈ ([] : List Char), isMark c = true := by simp
        have begins : text.takeWhile isBasicLetter ++ [] ≠ [] := by
          rw [List.append_nil]
          exact some
        have whole := IsRun.counted basic unmarked (Nat.zero_le _) begins number mem_takeWhile ih
        rw [List.append_nil] at whole
        rw [read]
        exact whole

/-! ## Commands cut apart -/

theorem joinCounting_append (command rest : List Char) :
    (joinCounting command rest).1 ++ (joinCounting command rest).2 = command ++ rest := by
  simp only [joinCounting]
  split
  · rw [List.append_assoc, readCommand_append]
  · rfl

/-- Nothing is lost when a text is cut into commands. -/
theorem flatten_split (text : List Char) : (split text).flatten = text := by
  fun_induction split text with
  | case1 => rfl
  | case2 c tail none ih =>
    rw [List.flatten_cons, ih, List.cons_append, List.takeWhile_append_dropWhile]
  | case3 c tail some joined ih =>
    rw [List.flatten_cons, ih, joinCounting_append, readCommand_append]

theorem joinCounting_ne_nil {command : List Char} (some : command ≠ []) (rest : List Char) :
    (joinCounting command rest).1 ≠ [] := by
  rw [joinCounting]
  split
  · exact List.append_ne_nil_of_left_ne_nil some _
  · exact some

/-- A text is cut into commands that are not empty. -/
theorem ne_nil_of_mem_split {text command : List Char} (member : command ∈ split text) :
    command ≠ [] := by
  fun_induction split text with
  | case1 => cases member
  | case2 c tail none ih =>
    rcases List.mem_cons.1 member with rfl | behind
    · exact List.cons_ne_nil _ _
    · exact ih behind
  | case3 c tail some joined ih =>
    rcases List.mem_cons.1 member with rfl | behind
    · exact joinCounting_ne_nil some _
    · exact ih behind

theorem toList_join (parts : List (List Char)) :
    (String.join (parts.map String.ofList)).toList = parts.flatten := by
  induction parts with
  | nil => rfl
  | cons part rest ih => simp [ih]

theorem join_splitText (text : String) : String.join (splitText text) = text := by
  apply String.toList_inj.1
  rw [splitText, toList_join, flatten_split]

/-- The commands of a modifier text are written as the text. -/
theorem modifierText_splitText (text : String) :
    modifierText ((splitText text).map .string) = text := by
  have plain : ((splitText text).map Json.string).map Json.plainText = splitText text := by
    rw [List.map_map]
    exact List.map_id _
  rw [modifierText, plain]
  exact join_splitText text

end Command
end DiceNotation
