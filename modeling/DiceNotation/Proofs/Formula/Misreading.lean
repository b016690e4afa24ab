import DiceNotation.Formula.Scanner
import DiceNotation.Proofs.Text.Boundary

namespace DiceNotation

open Text

/-!
# Formulas that cannot be read

The scanner tells whoever wrote the formula why it cannot be read, and where.  There is one
exception: a mark that counts as a digit but is none, such as a superscript, where a number
begins.  What is left to be read is always an end of the formula, so such a mark stands in the
formula, and a refusal points into it.
-/

/-! ## Lexemes -/

theorem Text.skipBlanks_suffix (text : List Char) : skipBlanks text <:+ text :=
  List.dropWhile_suffix _

/-- The stretch between two places begins at the first one. -/
theorem Text.stretch_begins (start stop : List Char) : stretch start stop <+: start :=
  List.take_prefix _ _

/-- A part that is found stands at the position where it is found. -/
theorem Text.find?_begins {part text : List Char} {position : Nat}
    (found : find? part text = some position) : part <+: text.drop position := by
  induction text generalizing position with
  | nil =>
    unfold find? at found
    split at found
    · rename_i empty
      rw [List.isEmpty_iff.1 empty]
      exact List.nil_prefix
    · cases found
  | cons c rest ih =>
    unfold find? at found
    split at found
    · rename_i here
      cases found
      exact List.isPrefixOf_iff_prefix.1 here
    · obtain ⟨earlier, later, rfl⟩ := Option.map_eq_some_iff.1 found
      exact ih later

namespace Lexeme

theorem splitSigns_suffix (text : List Char) : (splitSigns text).2 <:+ text := by
  fun_induction splitSigns text with
  | case1 => exact List.suffix_refl _
  | case2 c rest sign ih => exact ih.trans (List.suffix_cons c rest)
  | case3 c rest sign blank ih => exact ih.trans (List.suffix_cons c rest)
  | case4 c rest sign blank => exact List.suffix_refl _

theorem splitOperators_suffix {place text : List Char} (inside : text <:+ place) :
    (splitOperators place text).2 <:+ place := by
  fun_induction splitOperators place text with
  | case1 place => exact List.suffix_refl _
  | case2 place c rest operator ih =>
    exact (ih (List.suffix_refl _)).trans ((List.suffix_cons c rest).trans inside)
  | case3 place c rest operator blank ih => exact ih ((List.suffix_cons c rest).trans inside)
  | case4 place c rest operator blank => exact List.suffix_refl _

theorem operators_suffix {text : List Char} {row : Scanned (List Char) text}
    (found : operators text = some row) : row.rest <:+ text := by
  unfold operators at found
  split at found
  · cases found
  · cases found
    exact splitOperators_suffix (List.suffix_refl text)

theorem splitFlavor_suffix (text : List Char) : (splitFlavor text).2 <:+ text := by
  unfold splitFlavor
  split
  · rename_i more opened
    split
    · rename_i mark rest closed
      have after : rest <:+ more :=
        (List.suffix_cons mark rest).trans (closed ▸ List.dropWhile_suffix _)
      have behind : more <:+ skipBlanks text := opened ▸ List.suffix_cons _ more
      exact after.trans (behind.trans (skipBlanks_suffix text))
    · exact List.suffix_refl _
  · exact List.suffix_refl _

theorem modifiers_suffix (text : List Char) : (modifiers text).rest <:+ text :=
  ⟨_, Command.readRun_append text⟩

theorem splitNumber_whole (text : List Char) :
    (splitNumber text).1 ++ (splitNumber text).2 = text := by
  have whole : text.takeWhile isDigit ++ text.dropWhile isDigit = text :=
    List.takeWhile_append_dropWhile
  unfold splitNumber
  simp only
  split
  · rename_i more point
    rw [point] at whole
    split
    · exact whole
    · rw [List.append_assoc, List.cons_append, List.takeWhile_append_dropWhile]
      exact whole
  · exact whole

theorem functionName_suffix {c : Char} {rest : List Char} {name : Scanned (List Char) (c :: rest)}
    (found : functionName c rest = some name) : name.rest <:+ c :: rest := by
  unfold functionName at found
  split at found
  · simp only at found
    split at found
    · cases found
      exact (skipBlanks_suffix _).trans (List.dropWhile_suffix _)
    · cases found
  · cases found

theorem word_suffix {c : Char} {rest : List Char} {word : Scanned (List Char) (c :: rest)}
    (found : Lexeme.word c rest = some word) : word.rest <:+ c :: rest := by
  unfold Lexeme.word at found
  split at found
  · cases found
    exact List.dropWhile_suffix _
  · cases found

end Lexeme

/-! ## Readers -/

/-- Whether a refusal points at where the refused part begins. -/
def ParseReason.pointsAtPart : ParseReason → Bool
  | .operatorSequence _ | .formulaEnded => false
  | _ => true

namespace Source

variable {source : Source} {α : Type}

/-- What the position of a refusal points at.  It is where the refused part of the formula
begins.  A row of operators is pointed at itself, and if the formula ends too soon, its end is. -/
def PointsAt (source : Source) (reason : ParseReason) (part : List Char) (position : Nat) : Prop :=
  match reason with
  | .operatorSequence row => row.toList <+: source.text.drop position
  | .formulaEnded => position = source.text.length
  | _ => part <+: source.text.drop position

/-- How the reading of a formula can fail. -/
inductive CannotRead (source : Source) : Fault → Prop
  /-- The whole formula is refused for one of its parts. -/
  | refused {reason : ParseReason} {part : List Char} {position : Option Nat}
      (points : ∀ place, position = some place →
        place ≤ source.text.length ∧ source.PointsAt reason part place) :
      CannotRead source (.parse reason (String.ofList source.text)
        (.string (String.ofList part)) position)
  /-- A mark in the formula counts as a digit but is none. -/
  | mark {c : Char} (member : c ∈ source.text) (alike : isDigitLike c = true)
      (none : isDigit c = false) : CannotRead source .notADigit

/-- What is left to be read is an end of the formula, or the formula cannot be read. -/
def Stays (source : Source) (rest : α → List Char) : Except Fault α → Prop
  | .ok found => rest found <:+ source.text
  | .error fault => source.CannotRead fault

namespace Stays

variable {rest : α → List Char} {result : Except Fault α}

theorem failure (stays : source.Stays rest result) {fault : Fault}
    (failed : result = .error fault) : source.CannotRead fault := by
  rw [failed] at stays
  exact stays

theorem suffix (stays : source.Stays rest result) {a : α} (found : result = .ok a) :
    rest a <:+ source.text := by
  rw [found] at stays
  exact stays

end Stays

/-- The position of a place is where the text that is left from there on begins. -/
theorem drop_position {place : List Char} (inside : place <:+ source.text) :
    source.text.drop (source.position place) = place :=
  (List.suffix_iff_eq_drop.1 inside).symm

theorem position_le (place : List Char) : source.position place ≤ source.text.length :=
  Nat.sub_le _ _

/-- A part is refused at the place where it stands. -/
theorem stays_refuse (rest : α → List Char) {reason : ParseReason} {part place : List Char}
    (inside : place <:+ source.text) (begins : part <+: place)
    (first : reason.pointsAtPart = true) :
    source.Stays rest (source.refuse reason part place) := by
  refine .refused ?_
  rintro _ ⟨⟩
  refine ⟨position_le place, ?_⟩
  have here : part <+: source.text.drop (source.position place) := by
    rw [drop_position inside]
    exact begins
  cases reason with
  | operatorSequence row => cases first
  | formulaEnded => cases first
  | _ => exact here

theorem stays_ended (rest : α → List Char) (part : List Char) :
    source.Stays rest (source.refuse .formulaEnded part []) := by
  refine .refused ?_
  rintro _ ⟨⟩
  exact ⟨position_le [], Nat.sub_zero _⟩

theorem cannotRead_of_notADigit {c : Char} {rest : List Char} (inside : c :: rest <:+ source.text)
    (alike : isDigitLike c = true) (none : ¬isDigit c = true) : source.CannotRead .notADigit :=
  .mark (inside.subset List.mem_cons_self) alike (Bool.eq_false_iff.2 none)

/-- The first character of a place stands there. -/
theorem singleton_begins (c : Char) (rest : List Char) : [c] <+: c :: rest := ⟨rest, rfl⟩

/-- What is left behind blanks and the next character. -/
theorem suffix_of_skipBlanks {text place after : List Char} {c : Char} (inside : text <:+ place)
    (ended : skipBlanks text = c :: after) : after <:+ place :=
  (List.suffix_cons c after).trans (ended ▸ (skipBlanks_suffix text).trans inside)

/-- Whether a reader of expressions stays in the formula. -/
def KeepsReading (source : Source) (read : ExpressionReader) : Prop :=
  ∀ text, text <:+ source.text → source.Stays Scanned.rest (read text)

section

variable {inner : Option ExpressionReader}
  (keeps : ∀ read, inner = some read → source.KeepsReading read)

include keeps

theorem stays_bracketed {c : Char} {rest : List Char} (inside : c :: rest <:+ source.text) :
    source.Stays Scanned.rest (source.bracketed inner c rest) := by
  unfold bracketed
  split
  · exact stays_refuse _ inside (singleton_begins c rest) rfl
  · rename_i read
    have reads := keeps read rfl rest ((List.suffix_cons c rest).trans inside)
    split
    · rename_i failed
      exact reads.failure failed
    · rename_i scanned found
      split
      · rename_i after ended
        exact suffix_of_skipBlanks (reads.suffix found) ended
      · exact stays_refuse _ inside (stretch_begins _ _) rfl

end

theorem stays_separated {read : ExpressionReader} (keeps : source.KeepsReading read)
    (closing : Char) {opened text : List Char} (outside : opened <:+ source.text)
    (inside : text <:+ source.text) :
    source.Stays Scanned.rest (source.separated read closing opened text) := by
  fun_induction separated source read closing opened text with
  | case1 text fault failed =>
    exact (keeps text inside).failure failed
  | case2 => exact stays_refuse _ outside (stretch_begins _ _) rfl
  | case3 text first found c after ended shorter comma fault failed ih =>
    have reads := (keeps text inside).suffix found
    exact (ih (suffix_of_skipBlanks reads ended)).failure failed
  | case4 text first found c after ended shorter comma more continues ih =>
    have reads := (keeps text inside).suffix found
    exact (ih (suffix_of_skipBlanks reads ended)).suffix continues
  | case5 text first found c after ended shorter comma closes =>
    exact suffix_of_skipBlanks ((keeps text inside).suffix found) ended
  | case6 => exact stays_refuse _ outside (stretch_begins _ _) rfl

section

variable {inner : Option ExpressionReader}
  (keeps : ∀ read, inner = some read → source.KeepsReading read)

include keeps

theorem stays_listed (closing : Char) {c : Char} {rest : List Char}
    (inside : c :: rest <:+ source.text) :
    source.Stays Scanned.rest (source.listed inner closing c rest) := by
  unfold listed
  split
  · exact stays_refuse _ inside (singleton_begins c rest) rfl
  · rename_i read
    simp only
    split
    · have reads := stays_separated (keeps read rfl) closing inside
        (List.nil_suffix (l := source.text))
      split
      · rename_i failed
        exact reads.failure failed
      · rename_i found
        exact reads.suffix found
    · rename_i m after begun
      have behind : m :: after <:+ source.text :=
        (begun ▸ skipBlanks_suffix rest).trans ((List.suffix_cons c rest).trans inside)
      split
      · exact (List.suffix_cons m after).trans behind
      · have reads := stays_separated (keeps read rfl) closing inside behind
        split
        · rename_i failed
          exact reads.failure failed
        · rename_i found
          exact reads.suffix found

theorem stays_faces {text : List Char} (inside : text <:+ source.text) :
    source.Stays Reached.rest (source.faces inner text) := by
  unfold faces
  split
  · exact List.nil_suffix
  · rename_i c rest
    split
    · have reads := stays_bracketed keeps inside
      split
      · rename_i failed
        exact reads.failure failed
      · rename_i found
        exact reads.suffix found
    · split
      · rename_i alike
        split
        · exact (List.dropWhile_suffix _).trans inside
        · rename_i none
          exact cannotRead_of_notADigit inside alike none
      · split
        · exact (List.suffix_cons c rest).trans inside
        · exact inside

theorem stays_dice (number : Option (Amount Clause)) {start text : List Char}
    (outside : start <:+ source.text) (inside : text <:+ source.text) :
    source.Stays Reached.rest (source.dice inner number start text) := by
  have reads := stays_faces keeps inside
  unfold dice
  split
  · rename_i failed
    exact reads.failure failed
  · rename_i read found
    simp only
    split
    · exact stays_refuse _ outside (stretch_begins _ _) rfl
    · exact stays_refuse _ outside (stretch_begins _ _) rfl
    · exact (Lexeme.splitFlavor_suffix _).trans
        ((Lexeme.modifiers_suffix _).trans (reads.suffix found))

theorem stays_bracketClause {c : Char} {rest : List Char} (inside : c :: rest <:+ source.text) :
    source.Stays Scanned.rest (source.bracketClause inner c rest) := by
  have reads := stays_bracketed keeps inside
  unfold bracketClause
  split
  · rename_i failed
    exact reads.failure failed
  · rename_i scanned found
    have reads := reads.suffix found
    have group : (Lexeme.flavor scanned.rest).rest <:+ source.text :=
      (Lexeme.splitFlavor_suffix _).trans reads
    simp only
    split
    · exact group
    · rename_i d after ended
      split
      · have dice := stays_dice keeps
          (some (.computed scanned.value (textBetween (c :: rest) scanned.rest))) inside
          ((List.suffix_cons d after).trans (ended ▸ reads))
        split
        · rename_i failed
          exact dice.failure failed
        · rename_i die
          exact dice.suffix die
      · exact group

theorem stays_poolClause {c : Char} {rest : List Char} (inside : c :: rest <:+ source.text) :
    source.Stays Scanned.rest (source.poolClause inner c rest) := by
  have reads := stays_listed keeps '\x7d' inside
  unfold poolClause
  split
  · rename_i failed
    exact reads.failure failed
  · rename_i scanned found
    split
    · exact stays_refuse _ inside (stretch_begins _ _) rfl
    · exact (Lexeme.splitFlavor_suffix _).trans
        ((Lexeme.modifiers_suffix _).trans (reads.suffix found))

theorem stays_numberClause {c : Char} {rest : List Char} (first : isDigit c = true)
    (inside : c :: rest <:+ source.text) :
    source.Stays Scanned.rest (source.numberClause inner c rest first) := by
  have whole : (Lexeme.number c rest first).value ++ (Lexeme.number c rest first).rest =
    c :: rest := Lexeme.splitNumber_whole _
  have reads : (Lexeme.number c rest first).rest <:+ source.text :=
    List.IsSuffix.trans ⟨_, whole⟩ inside
  have plain : (Lexeme.flavor (Lexeme.number c rest first).rest).rest <:+ source.text :=
    (Lexeme.splitFlavor_suffix _).trans reads
  unfold numberClause
  simp only
  split
  · exact plain
  · rename_i d after ended
    split
    · split
      · exact stays_refuse _ inside ⟨_, whole⟩ rfl
      · have dice := stays_dice keeps
          (some (.known (natOfDigits (Lexeme.number c rest first).value))) inside
          ((List.suffix_cons d after).trans (ended ▸ reads))
        split
        · rename_i failed
          exact dice.failure failed
        · rename_i die
          exact dice.suffix die
    · exact plain

theorem stays_wordClause {c : Char} {rest : List Char} (inside : c :: rest <:+ source.text) :
    source.Stays Scanned.rest (source.wordClause inner c rest) := by
  unfold wordClause
  split
  · rename_i name called
    have named := (Lexeme.functionName_suffix called).trans inside
    split
    · exact stays_refuse _ inside (singleton_begins c rest) rfl
    · rename_i opening arguments ended
      have reads := stays_listed keeps ')' (ended ▸ named)
      split
      · rename_i failed
        exact reads.failure failed
      · rename_i found
        exact (Lexeme.splitFlavor_suffix _).trans (reads.suffix found)
  · split
    · have dice := stays_dice keeps none inside ((List.suffix_cons c rest).trans inside)
      split
      · rename_i failed
        exact dice.failure failed
      · rename_i die
        exact dice.suffix die
    · split
      · exact stays_refuse _ inside (singleton_begins c rest) rfl
      · rename_i found
        exact (Lexeme.splitFlavor_suffix _).trans ((Lexeme.word_suffix found).trans inside)

theorem stays_clause {text : List Char} (inside : text <:+ source.text) :
    source.Stays Scanned.rest (source.clause inner text) := by
  unfold clause
  split
  · exact stays_ended _ _
  · rename_i c rest begun
    have here : c :: rest <:+ source.text := (begun ▸ skipBlanks_suffix text).trans inside
    have reads : source.Stays Scanned.rest (source.clauseAt inner c rest) := by
      unfold clauseAt
      split
      · exact stays_bracketClause keeps here
      · split
        · exact stays_poolClause keeps here
        · split
          · rename_i alike
            split
            · exact stays_numberClause keeps _ here
            · rename_i none
              exact cannotRead_of_notADigit here alike none
          · exact stays_wordClause keeps here
    split
    · rename_i failed
      exact reads.failure failed
    · rename_i found
      exact reads.suffix found

end

/-- A row of operators that does not reduce is pointed at where it first stands. -/
theorem cannotRead_of_assemble {run : Run} {start stop : List Char} {fault : Fault}
    (failed : source.assemble run start stop = .error fault) : source.CannotRead fault := by
  unfold assemble at failed
  split at failed
  · cases failed
  · rename_i row _
    cases failed
    refine .refused fun place found => ⟨find?_le_length _ _ _ found, ?_⟩
    have first : (String.ofList row).toList <+: source.text.drop place := by
      rw [String.toList_ofList]
      exact find?_begins found
    exact first

section

variable {clause : ClauseReader}
  (keeps : ∀ text, text <:+ source.text → source.Stays Scanned.rest (clause text))

include keeps

theorem stays_following {text : List Char} (inside : text <:+ source.text) :
    source.Stays Reached.rest (Scan.following clause text) := by
  fun_induction Scan.following clause text with
  | case1 => exact inside
  | case2 text row found fault failed =>
    exact (keeps row.rest ((Lexeme.operators_suffix found).trans inside)).failure failed
  | case3 text row found next read fault failed ih =>
    have reads := (keeps row.rest ((Lexeme.operators_suffix found).trans inside)).suffix read
    exact (ih reads).failure failed
  | case4 text row found next read more continues ih =>
    have reads := (keeps row.rest ((Lexeme.operators_suffix found).trans inside)).suffix read
    exact (ih reads).suffix continues

theorem keepsReading_expression : source.KeepsReading (source.expression clause) := by
  intro text inside
  have begins := keeps _ ((Lexeme.splitSigns_suffix text).trans inside)
  unfold expression
  simp only
  split
  · rename_i failed
    exact begins.failure failed
  · rename_i first found
    have continues := stays_following keeps (begins.suffix found)
    split
    · rename_i failed
      exact continues.failure failed
    · rename_i more reached
      split
      · rename_i failed
        exact cannotRead_of_assemble failed
      · exact continues.suffix reached

end

theorem keepsReading_expressionAt (levels : Nat) :
    source.KeepsReading (source.expressionAt levels) := by
  induction levels with
  | zero =>
    refine keepsReading_expression fun _ inside => stays_clause ?_ inside
    rintro read ⟨⟩
  | succ levels ih =>
    refine keepsReading_expression fun _ inside => stays_clause ?_ inside
    rintro read ⟨⟩
    exact ih

theorem cannotRead_of_parse {fault : Fault} (failed : source.parse = .error fault) :
    source.CannotRead fault := by
  have reads := keepsReading_expressionAt source.maxNesting source.text (List.suffix_refl _)
  unfold parse at failed
  split at failed
  · rename_i unread
    cases failed
    exact reads.failure unread
  · rename_i scanned read
    split at failed
    · cases failed
    · rename_i c rest ended
      cases failed
      have behind : c :: rest <:+ source.text :=
        (ended ▸ skipBlanks_suffix scanned.rest).trans (reads.suffix read)
      exact stays_refuse (α := Unit) (fun _ => []) behind (List.prefix_refl _) rfl

/-! ## Whole formulas -/

/-- Whether a fault is the fault of the formula: one that its writer is told about, or a
mark in it that counts as a digit but is none. -/
def Blames (source : Source) (fault : Fault) : Prop :=
  fault.isAddressed = true ∨
    fault = .notADigit ∧ ∃ c ∈ source.text, isDigitLike c = true ∧ isDigit c = false

/-- If a formula cannot be read, its writer is told why, or a mark in it counts as a digit
but is none. -/
theorem blames_of_parse {fault : Fault} (failed : source.parse = .error fault) :
    source.Blames fault := by
  cases cannotRead_of_parse failed with
  | refused points => exact .inl rfl
  | mark member alike none => exact .inr ⟨rfl, _, member, alike, none⟩

/-- A formula in which only digits look like digits is read, or it is refused as a whole for
one of its parts.  The refusal gives no position, or it points at that part in the formula. -/
theorem parse_or_refuse (digits : ∀ c ∈ source.text, isDigitLike c = true → isDigit c = true) :
    (∃ tree, source.parse = .ok tree) ∨
      ∃ reason part position,
        source.parse = .error (.parse reason (String.ofList source.text)
          (.string (String.ofList part)) position) ∧
        ∀ place, position = some place →
          place ≤ source.text.length ∧ source.PointsAt reason part place := by
  cases result : source.parse with
  | ok tree => exact .inl ⟨tree, rfl⟩
  | error fault =>
    cases cannotRead_of_parse result with
    | refused points => exact .inr ⟨_, _, _, rfl, points⟩
    | mark member alike none => exact absurd (digits _ member alike) (Bool.eq_false_iff.1 none)

/-- A formula whose bracket is not closed. -/
def unclosed : Source := ⟨"2 * (d6 + 1".toList, true, 64⟩

theorem parse_or_refuse_of_unclosed :
    (∀ c ∈ unclosed.text, isDigitLike c = true → isDigit c = true) ∧
      ∃ reason part position,
        unclosed.parse = .error (.parse reason (String.ofList unclosed.text)
          (.string (String.ofList part)) position) ∧
        ∀ place, position = some place →
          place ≤ unclosed.text.length ∧ unclosed.PointsAt reason part place := by
  have digits : ∀ c ∈ unclosed.text, isDigitLike c = true → isDigit c = true :=
    forall_of_all (by decide)
  have unread : unclosed.parse.toOption.isSome = false := by decide +kernel
  rcases parse_or_refuse digits with ⟨tree, read⟩ | refused
  · rw [read] at unread
    cases unread
  · exact ⟨digits, refused⟩

end Source
end DiceNotation
