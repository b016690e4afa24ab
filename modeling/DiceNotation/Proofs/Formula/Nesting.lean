import DiceNotation.Proofs.Formula.Closing
import DiceNotation.Proofs.Formula.Rereading

namespace DiceNotation

open Text

/-!
# How deep a formula is read

The scanner has no counter of brackets.  A reader is given the reader of the next level, or
none if no further bracket may be opened.  Here the counter is made explicit.  The course of
a reading is told step by step, from the beginning of the formula to every place at which a
reader is called, and each step says how many brackets it opens or closes.

The count is right in two ways.  It is the number of brackets that are open in the text before
the place, and the reader called there has what is left of the limit for its own brackets.
A fault of a reader that is called is a fault of the whole formula.  A bracket too many is
therefore refused where it stands.
-/

/-- The brackets around a list of expressions. -/
inductive ListBrackets where
  | round
  | curly
  deriving DecidableEq, Repr

namespace ListBrackets

def opening : ListBrackets → Char
  | round => '('
  | curly => '\x7b'

def closing : ListBrackets → Char
  | round => ')'
  | curly => '\x7d'

theorem mark_opening (brackets : ListBrackets) : BracketMark.of brackets.opening = .opening := by
  cases brackets <;> rfl

theorem mark_closing (brackets : ListBrackets) : BracketMark.of brackets.closing = .closing := by
  cases brackets <;> rfl

end ListBrackets

/-- What the scanner does next. -/
inductive Stage where
  /-- It reads an expression. -/
  | expression
  /-- It has read an expression. -/
  | expressionEnd
  /-- It reads a clause, behind signs or operators. -/
  | clause
  /-- It has read a clause and looks for operators. -/
  | clauseEnd
  /-- It reads dice behind their die sign. -/
  | dice (number : Option (Amount Clause)) (start : List Char)
  /-- It opens brackets around one expression. -/
  | group
  /-- It opens brackets around a list. -/
  | list (brackets : ListBrackets)
  /-- It reads the expressions of a list that was opened at a place. -/
  | items (brackets : ListBrackets) (opened : List Char)
  /-- It has closed brackets. -/
  | closed

/-- The opening bracket that the scanner meets at a stage. -/
def Stage.opening : Stage → Option Char
  | group => some '('
  | list brackets => some brackets.opening
  | _ => none

namespace Source

variable (source : Source)

/-- The reader of expressions where a number of brackets is open. -/
def reader (depth : Nat) : ExpressionReader := source.expressionAt (source.maxNesting - depth)

/-- The reader of what stands in a further bracket, if one may be opened. -/
def inside (depth : Nat) : Option ExpressionReader := source.nested (source.maxNesting - depth)

theorem reader_eq (depth : Nat) :
    source.reader depth = source.expression (source.clause (source.inside depth)) :=
  source.expressionAt_eq _

theorem inside_of_lt {depth : Nat} (fewer : depth < source.maxNesting) :
    source.inside depth = some (source.reader (depth + 1)) := by
  have levels : source.maxNesting - depth = source.maxNesting - (depth + 1) + 1 := by omega
  rw [inside, levels]
  rfl

theorem inside_maxNesting : source.inside source.maxNesting = none := by
  rw [inside, Nat.sub_self]
  rfl

theorem lt_of_inside {depth : Nat} {read : ExpressionReader}
    (some : source.inside depth = some read) :
    depth < source.maxNesting ∧ read = source.reader (depth + 1) := by
  by_cases fewer : depth < source.maxNesting
  · rw [source.inside_of_lt fewer] at some
    cases some
    exact ⟨fewer, rfl⟩
  · rw [inside, Nat.sub_eq_zero_of_le (Nat.le_of_not_lt fewer)] at some
    cases some

/-! ## The course of a reading -/

/-- The stages that the reading of a formula comes to, each with the number of open brackets
and the place.  Brackets are opened on the way to what stands in them, and they are closed
again behind it. -/
inductive Arrives (source : Source) : Stage → Nat → List Char → Prop
  | formula : Arrives source .expression 0 source.text
  | first {depth : Nat} {text : List Char} (here : Arrives source .expression depth text) :
      Arrives source .clause depth (Lexeme.splitSigns text).2
  | firstEnd {depth : Nat} {text rest : List Char} {clause : Clause}
      (here : Arrives source .expression depth text)
      (found : Finds (source.clause (source.inside depth) (Lexeme.splitSigns text).2) clause rest) :
      Arrives source .clauseEnd depth rest
  | next {depth : Nat} {text : List Char} {row : Scanned (List Char) text}
      (here : Arrives source .clauseEnd depth text) (joined : Lexeme.operators text = some row) :
      Arrives source .clause depth row.rest
  | nextEnd {depth : Nat} {text rest : List Char} {row : Scanned (List Char) text} {clause : Clause}
      (here : Arrives source .clauseEnd depth text) (joined : Lexeme.operators text = some row)
      (found : Finds (source.clause (source.inside depth) row.rest) clause rest) :
      Arrives source .clauseEnd depth rest
  | expressionEnd {depth : Nat} {text rest : List Char} {tree : Tree Clause}
      (here : Arrives source .expression depth text)
      (found : Finds (source.reader depth text) tree rest) :
      Arrives source .expressionEnd depth rest
  /-- A clause in brackets, or the bracketed number of dice. -/
  | group {depth : Nat} {text rest : List Char} (here : Arrives source .clause depth text)
      (begun : skipBlanks text = '(' :: rest) : Arrives source .group depth ('(' :: rest)
  | pool {depth : Nat} {text rest : List Char} (here : Arrives source .clause depth text)
      (begun : skipBlanks text = '\x7b' :: rest) :
      Arrives source (.list .curly) depth ('\x7b' :: rest)
  | function {depth : Nat} {text rest inside : List Char} {c : Char}
      {name : Scanned (List Char) (c :: rest)} (here : Arrives source .clause depth text)
      (begun : skipBlanks text = c :: rest)
      (called : Lexeme.functionName c rest = some name) (opens : name.rest = '(' :: inside) :
      Arrives source (.list .round) depth ('(' :: inside)
  /-- Dice behind a bracketed number. -/
  | computedDice {depth : Nat} {text rest more : List Char} {d : Char} {tree : Tree Clause}
      (here : Arrives source .clause depth text) (begun : skipBlanks text = '(' :: rest)
      (found : Finds (source.bracketed (source.inside depth) '(' rest) tree (d :: more))
      (sign : Lexeme.isDieSign d = true) :
      Arrives source (.dice (some (.computed tree (textBetween ('(' :: rest) (d :: more))))
        ('(' :: rest)) depth more
  /-- Dice behind digits. -/
  | countedDice {depth : Nat} {text rest digits more : List Char} {c d : Char}
      (here : Arrives source .clause depth text) (begun : skipBlanks text = c :: rest)
      (first : isDigit c = true) (number : Lexeme.splitNumber (c :: rest) = (digits, d :: more))
      (whole : Lexeme.hasPoint digits = false) (sign : Lexeme.isDieSign d = true) :
      Arrives source (.dice (some (.known (natOfDigits digits))) (c :: rest)) depth more
  /-- Dice without a number. -/
  | bareDice {depth : Nat} {text rest : List Char} {c : Char}
      (here : Arrives source .clause depth text) (begun : skipBlanks text = c :: rest)
      (noName : Lexeme.functionName c rest = none) (sign : Lexeme.isDieSign c = true)
      (opens : Lexeme.opensDice rest = true) :
      Arrives source (.dice none (c :: rest)) depth rest
  /-- The bracketed faces of dice. -/
  | faces {depth : Nat} {number : Option (Amount Clause)} {start rest : List Char}
      (here : Arrives source (.dice number start) depth ('(' :: rest)) :
      Arrives source .group depth ('(' :: rest)
  | enter {depth : Nat} {rest : List Char} {c : Char}
      (here : Arrives source .group depth (c :: rest)) (fewer : depth < source.maxNesting) :
      Arrives source .expression (depth + 1) rest
  | leave {depth : Nat} {rest after : List Char} {c : Char} {tree : Tree Clause}
      (here : Arrives source .group depth (c :: rest))
      (found : Finds (source.bracketed (source.inside depth) c rest) tree after) :
      Arrives source .closed depth after
  | enterList {depth : Nat} {rest : List Char} {c : Char} {brackets : ListBrackets}
      (here : Arrives source (.list brackets) depth (c :: rest))
      (fewer : depth < source.maxNesting)
      (some : (skipBlanks rest).head? ≠ some brackets.closing) :
      Arrives source (.items brackets (c :: rest)) (depth + 1) (skipBlanks rest)
  | item {depth : Nat} {text opened : List Char} {brackets : ListBrackets}
      (here : Arrives source (.items brackets opened) depth text) :
      Arrives source .expression depth text
  | comma {depth : Nat} {text opened behind next : List Char} {brackets : ListBrackets}
      {tree : Tree Clause} (here : Arrives source (.items brackets opened) (depth + 1) text)
      (found : Finds (source.reader (depth + 1) text) tree behind)
      (ended : skipBlanks behind = ',' :: next) :
      Arrives source (.items brackets opened) (depth + 1) next
  | leaveList {depth : Nat} {rest after : List Char} {c : Char} {brackets : ListBrackets}
      {trees : List (Tree Clause)} (here : Arrives source (.list brackets) depth (c :: rest))
      (found : Finds (source.listed (source.inside depth) brackets.closing c rest) trees after) :
      Arrives source .closed depth after

/-! ## The brackets open at a place -/

variable {source}

/-- Every reader that is called in a further bracket closes what it opens. -/
theorem closes_inside (depth : Nat) (read : ExpressionReader)
    (some : source.inside depth = some read) : read.Closes := by
  obtain ⟨_, rfl⟩ := source.lt_of_inside some
  exact source.closes_expressionAt _

/-- A place of the formula with a number of brackets open before it. -/
def IsOpen (source : Source) (depth : Nat) (place : List Char) : Prop :=
  ∃ read, source.text = read ++ place ∧ (Opening.outside 0).after read = .outside depth

namespace IsOpen

variable {depth : Nat} {place rest : List Char}

theorem encloses (here : source.IsOpen depth place) (read : Encloses place rest) :
    source.IsOpen depth rest := by
  obtain ⟨before, whole, opened⟩ := here
  obtain ⟨between, closed, rfl⟩ := read
  refine ⟨before ++ between, by rw [whole, List.append_assoc], ?_⟩
  rw [Opening.after_append, opened, closed]

/-- The place behind one more character. -/
theorem behind {c : Char} (here : source.IsOpen depth (c :: rest)) {opening : Opening}
    (next : (Opening.outside depth).next (.of c) = opening) :
    ∃ read, source.text = read ++ rest ∧ (Opening.outside 0).after read = opening := by
  obtain ⟨before, whole, opened⟩ := here
  refine ⟨before ++ [c], by rw [whole, List.append_assoc]; rfl, ?_⟩
  rw [Opening.after_append, opened]
  exact next

theorem opening {c : Char} (here : source.IsOpen depth (c :: rest))
    (opens : BracketMark.of c = .opening) : source.IsOpen (depth + 1) rest :=
  here.behind (by rw [opens]; rfl)

theorem comma (here : source.IsOpen (depth + 1) (',' :: rest)) :
    source.IsOpen (depth + 1) rest :=
  here.behind rfl

theorem skipBlanks (here : source.IsOpen depth place) : source.IsOpen depth (skipBlanks place) :=
  here.encloses (encloses_skipBlanks place)

/-- The position of a place is the length of what was read before it. -/
theorem position (here : source.IsOpen depth place) :
    ∃ read, source.text = read ++ place ∧ source.position place = read.length := by
  obtain ⟨read, whole, _⟩ := here
  refine ⟨read, whole, ?_⟩
  rw [Source.position, whole, List.length_append, Nat.add_sub_cancel]

end IsOpen

/-- What the scanner meets an opening bracket for. -/
theorem Arrives.begins {stage : Stage} {depth : Nat} {place : List Char}
    (here : source.Arrives stage depth place) {opening : Char}
    (opens : stage.opening = some opening) :
    BracketMark.of opening = .opening ∧ ∃ rest, place = opening :: rest := by
  cases here <;> cases opens
  all_goals exact ⟨rfl, _, rfl⟩

/-- The scanner's count of brackets is that of the text, and it keeps to the limit. -/
theorem Arrives.isOpen {stage : Stage} {depth : Nat} {place : List Char}
    (here : source.Arrives stage depth place) :
    depth ≤ source.maxNesting ∧ source.IsOpen depth place := by
  -- the brackets that a step opens or closes are those of the text that it goes along
  induction here with
  | formula => exact ⟨Nat.zero_le _, [], rfl, rfl⟩
  | first _ ih => exact ⟨ih.1, ih.2.encloses (Lexeme.encloses_splitSigns _)⟩
  | @firstEnd depth _ _ _ _ found ih =>
    have signs := ih.2.encloses (Lexeme.encloses_splitSigns _)
    exact ⟨ih.1, signs.encloses (encloses_clause (closes_inside depth) found)⟩
  | next _ joined ih => exact ⟨ih.1, ih.2.encloses (Lexeme.encloses_operators joined)⟩
  | @nextEnd depth _ _ _ _ _ joined found ih =>
    have operators := ih.2.encloses (Lexeme.encloses_operators joined)
    exact ⟨ih.1, operators.encloses (encloses_clause (closes_inside depth) found)⟩
  | expressionEnd _ found ih =>
    exact ⟨ih.1, ih.2.encloses (source.closes_expressionAt _ _ _ _ found)⟩
  | group _ begun ih => exact ⟨ih.1, begun ▸ ih.2.skipBlanks⟩
  | pool _ begun ih => exact ⟨ih.1, begun ▸ ih.2.skipBlanks⟩
  | function _ begun called opens ih =>
    have named := Lexeme.encloses_functionName called
    rw [opens, ← begun] at named
    exact ⟨ih.1, ih.2.skipBlanks.encloses named⟩
  | @computedDice depth _ _ _ _ _ _ begun found sign ih =>
    have bracket := encloses_bracketed (closes_inside depth) found
    rw [← begun] at bracket
    refine ⟨ih.1, (ih.2.skipBlanks.encloses bracket).encloses ?_⟩
    exact .cons_of_class (by simp [BracketMark.classes, lexemeClasses]) sign _
  | @countedDice _ _ rest _ _ c _ _ begun _ number _ sign ih =>
    have digits := Lexeme.encloses_splitNumber (c :: rest)
    rw [number, ← begun] at digits
    refine ⟨ih.1, (ih.2.skipBlanks.encloses digits).encloses ?_⟩
    exact .cons_of_class (by simp [BracketMark.classes, lexemeClasses]) sign _
  | bareDice _ begun _ sign _ ih =>
    refine ⟨ih.1, (begun ▸ ih.2.skipBlanks).encloses ?_⟩
    exact .cons_of_class (by simp [BracketMark.classes, lexemeClasses]) sign _
  | faces _ ih => exact ih
  | enter here fewer ih =>
    obtain ⟨mark, _, same⟩ := here.begins rfl
    cases same
    exact ⟨fewer, ih.2.opening mark⟩
  | @leave depth _ _ _ _ here found ih =>
    obtain ⟨mark, _, same⟩ := here.begins rfl
    cases same
    exact ⟨ih.1, ih.2.encloses (encloses_bracketed (closes_inside depth) found)⟩
  | enterList here fewer _ ih =>
    obtain ⟨mark, _, same⟩ := here.begins rfl
    cases same
    exact ⟨fewer, (ih.2.opening mark).skipBlanks⟩
  | item _ ih => exact ih
  | @comma depth _ _ behind _ _ _ _ found ended ih =>
    have after := (ih.2.encloses (source.closes_expressionAt _ _ _ _ found)).skipBlanks
    rw [ended] at after
    exact ⟨ih.1, after.comma⟩
  | @leaveList depth _ _ _ brackets _ here found ih =>
    obtain ⟨mark, _, same⟩ := here.begins rfl
    cases same
    exact ⟨ih.1, ih.2.encloses
      (encloses_listed (closes_inside depth) brackets.mark_opening brackets.mark_closing found)⟩

/-! ## Faults of the readers that are called -/

section

variable {clause : ClauseReader} {inner : Option ExpressionReader} {read : ExpressionReader}
  {fault : Fault}

theorem expression_fails {text : List Char}
    (failed : clause (Lexeme.splitSigns text).2 = .error fault) :
    source.expression clause text = .error fault := by
  unfold expression
  simp only [Lexeme.signs, failed]

theorem expression_fails_behind {text behind : List Char} {first : Clause}
    (found : Finds (clause (Lexeme.splitSigns text).2) first behind)
    (failed : Scan.following clause behind = .error fault) :
    source.expression clause text = .error fault := by
  obtain ⟨_, found⟩ := found
  unfold expression
  simp only [Lexeme.signs, found, failed]

theorem following_fails {text : List Char} {row : Scanned (List Char) text}
    (joined : Lexeme.operators text = some row) (failed : clause row.rest = .error fault) :
    Scan.following clause text = .error fault := by
  rw [Scan.following]
  split
  · rename_i none
    cases joined.symm.trans none
  · rename_i same
    cases joined.symm.trans same
    simp only [failed]

theorem following_fails_behind {text behind : List Char} {row : Scanned (List Char) text}
    {next : Clause} (joined : Lexeme.operators text = some row)
    (found : Finds (clause row.rest) next behind)
    (failed : Scan.following clause behind = .error fault) :
    Scan.following clause text = .error fault := by
  obtain ⟨_, found⟩ := found
  rw [Scan.following]
  split
  · rename_i none
    cases joined.symm.trans none
  · rename_i same
    cases joined.symm.trans same
    simp only [found, failed]

theorem bracketed_fails {c : Char} {rest : List Char} (failed : read rest = .error fault) :
    source.bracketed (some read) c rest = .error fault := by
  unfold bracketed
  simp only [failed]

theorem separated_fails {closing : Char} {opened text : List Char}
    (failed : read text = .error fault) :
    source.separated read closing opened text = .error fault := by
  rw [separated]
  simp only [failed]

theorem separated_fails_behind {closing : Char} {opened text behind next : List Char}
    {tree : Tree Clause} (found : Finds (read text) tree behind)
    (ended : skipBlanks behind = ',' :: next)
    (failed : source.separated read closing opened next = .error fault) :
    source.separated read closing opened text = .error fault := by
  obtain ⟨_, found⟩ := found
  rw [separated]
  simp only [found]
  split
  · rename_i none
    cases ended.symm.trans none
  · rename_i same
    cases ended.symm.trans same
    simp only [BEq.rfl, if_true, failed]

theorem listed_fails {closing c : Char} {rest : List Char}
    (some : (skipBlanks rest).head? ≠ some closing)
    (failed : source.separated read closing (c :: rest) (skipBlanks rest) = .error fault) :
    source.listed (.some read) closing c rest = .error fault := by
  unfold listed
  simp only
  split
  · rename_i begun
    rw [begun] at failed
    simp only [failed]
  · rename_i m after begun
    rw [begun] at failed some
    rw [if_neg fun closes => some (congrArg _ (beq_iff_eq.1 closes))]
    simp only [failed]

theorem dice_fails {number : Option (Amount Clause)} {start rest : List Char}
    (failed : source.bracketed inner '(' rest = .error fault) :
    source.dice inner number start ('(' :: rest) = .error fault := by
  have faces : source.faces inner ('(' :: rest) = .error fault := by
    unfold Source.faces
    simp only [BEq.rfl, if_true, failed]
  unfold dice
  simp only [faces]

theorem clause_fails {c : Char} {text rest : List Char} (begun : skipBlanks text = c :: rest)
    (failed : source.clauseAt inner c rest = .error fault) :
    source.clause inner text = .error fault := by
  unfold Source.clause
  split
  · rename_i none
    cases begun.symm.trans none
  · rename_i same
    cases begun.symm.trans same
    simp only [failed]

theorem clauseAt_fails_group {rest : List Char}
    (failed : source.bracketed inner '(' rest = .error fault) :
    source.clauseAt inner '(' rest = .error fault := by
  change source.bracketClause inner '(' rest = _
  unfold bracketClause
  simp only [failed]

theorem clauseAt_fails_pool {rest : List Char}
    (failed : source.listed inner '\x7d' '\x7b' rest = .error fault) :
    source.clauseAt inner '\x7b' rest = .error fault := by
  change source.poolClause inner '\x7b' rest = _
  unfold poolClause
  simp only [failed]

theorem clauseAt_fails_computedDice {d : Char} {rest more : List Char} {tree : Tree Clause}
    (found : Finds (source.bracketed inner '(' rest) tree (d :: more))
    (sign : Lexeme.isDieSign d = true)
    (failed : source.dice inner (some (.computed tree (textBetween ('(' :: rest) (d :: more))))
      ('(' :: rest) more = .error fault) :
    source.clauseAt inner '(' rest = .error fault := by
  obtain ⟨_, found⟩ := found
  change source.bracketClause inner '(' rest = _
  unfold bracketClause
  simp only [found, sign, if_true, failed]

theorem clauseAt_fails_countedDice {c d : Char} {rest digits more : List Char}
    (first : isDigit c = true) (number : Lexeme.splitNumber (c :: rest) = (digits, d :: more))
    (whole : Lexeme.hasPoint digits = false) (sign : Lexeme.isDieSign d = true)
    (failed : source.dice inner (some (.known (natOfDigits digits))) (c :: rest) more =
      .error fault) :
    source.clauseAt inner c rest = .error fault := by
  rw [source.clauseAt_of_digit first]
  obtain ⟨rfl, behind⟩ := Prod.ext_iff.1 number
  unfold numberClause
  simp only
  split
  · rename_i none
    cases behind.symm.trans none
  · rename_i same
    cases behind.symm.trans same
    simp only [sign, if_true, Lexeme.number, whole, Bool.false_eq_true, if_false, failed]

/-- Neither a name nor a die sign is one of the characters that tell other clauses. -/
theorem clauseAt_of_beginsName {c : Char} (rest : List Char) (first : Lexeme.beginsName c = true) :
    source.clauseAt inner c rest = source.wordClause inner c rest := by
  refine source.clauseAt_of_word ?_ ?_ (isDigitLike_of_beginsName first) rest
  · rintro rfl
    cases first
  · rintro rfl
    cases first

theorem clauseAt_fails_function {c : Char} {rest inside : List Char}
    {name : Scanned (List Char) (c :: rest)} (called : Lexeme.functionName c rest = some name)
    (opens : name.rest = '(' :: inside)
    (failed : source.listed inner ')' '(' inside = .error fault) :
    source.clauseAt inner c rest = .error fault := by
  rw [clauseAt_of_beginsName rest (Lexeme.functionName_found called).1]
  unfold wordClause
  simp only [called]
  split
  · rename_i none
    cases opens.symm.trans none
  · rename_i same
    cases opens.symm.trans same
    simp only [failed]

theorem clauseAt_fails_bareDice {c : Char} {rest : List Char}
    (noName : Lexeme.functionName c rest = none) (sign : Lexeme.isDieSign c = true)
    (opens : Lexeme.opensDice rest = true)
    (failed : source.dice inner none (c :: rest) rest = .error fault) :
    source.clauseAt inner c rest = .error fault := by
  have letter : Lexeme.beginsName c = true := by
    rcases Bool.or_eq_true_iff.1 sign with small | large
    · rw [beq_iff_eq.1 small]
      decide
    · rw [beq_iff_eq.1 large]
      decide
  rw [clauseAt_of_beginsName rest letter]
  unfold wordClause
  simp only [noName, sign, opens, Bool.and_self, if_true, failed]

end

/-- A reader that is called at a stage fails. -/
def FailsAt (source : Source) (fault : Fault) : Stage → Nat → List Char → Prop
  | .expression, depth, text => source.reader depth text = .error fault
  | .clause, depth, text => source.clause (source.inside depth) text = .error fault
  | .clauseEnd, depth, text =>
    Scan.following (source.clause (source.inside depth)) text = .error fault
  | .dice number start, depth, text =>
    source.dice (source.inside depth) number start text = .error fault
  | .group, depth, c :: rest => source.bracketed (source.inside depth) c rest = .error fault
  | .list brackets, depth, c :: rest =>
    source.listed (source.inside depth) brackets.closing c rest = .error fault
  | .items brackets opened, depth, text =>
    source.separated (source.reader depth) brackets.closing opened text = .error fault
  | _, _, _ => False

/-- A fault of a reader that the scanner calls is the fault of the formula. -/
theorem Arrives.parse_fails {stage : Stage} {depth : Nat} {place : List Char}
    (here : source.Arrives stage depth place) {fault : Fault}
    (failed : source.FailsAt fault stage depth place) : source.parse = .error fault := by
  -- each step hands the fault over to the reader that made the call
  induction here with
  | formula =>
    unfold parse
    change source.expressionAt source.maxNesting source.text = .error fault at failed
    simp only [failed]
  | first _ ih =>
    refine ih ?_
    rw [FailsAt, reader_eq]
    exact expression_fails failed
  | firstEnd _ found ih =>
    refine ih ?_
    rw [FailsAt, reader_eq]
    exact expression_fails_behind found failed
  | next _ joined ih => exact ih (following_fails joined failed)
  | nextEnd _ joined found ih => exact ih (following_fails_behind joined found failed)
  | expressionEnd _ found ih => exact failed.elim
  | group _ begun ih => exact ih (clause_fails begun (clauseAt_fails_group failed))
  | pool _ begun ih => exact ih (clause_fails begun (clauseAt_fails_pool failed))
  | function _ begun called opens ih =>
    exact ih (clause_fails begun (clauseAt_fails_function called opens failed))
  | computedDice _ begun found sign ih =>
    exact ih (clause_fails begun (clauseAt_fails_computedDice found sign failed))
  | countedDice _ begun first number whole sign ih =>
    exact ih (clause_fails begun (clauseAt_fails_countedDice first number whole sign failed))
  | bareDice _ begun noName sign opens ih =>
    exact ih (clause_fails begun (clauseAt_fails_bareDice noName sign opens failed))
  | faces _ ih => exact ih (dice_fails failed)
  | enter _ fewer ih =>
    refine ih ?_
    rw [FailsAt, source.inside_of_lt fewer]
    exact bracketed_fails failed
  | leave _ _ ih => exact failed.elim
  | enterList _ fewer some ih =>
    refine ih ?_
    rw [FailsAt, source.inside_of_lt fewer]
    exact listed_fails some failed
  | item _ ih => exact ih (separated_fails failed)
  | comma _ found ended ih => exact ih (separated_fails_behind found ended failed)
  | leaveList _ _ ih => exact failed.elim

/-- A bracket that is met when as many are open as may be is refused where it stands. -/
theorem Arrives.tooDeep {stage : Stage} {c : Char} {rest : List Char}
    (here : source.Arrives stage source.maxNesting (c :: rest)) (opens : stage.opening = some c) :
    source.parse = .error (.parse (.tooDeep source.maxNesting) (String.ofList source.text)
      (.string (String.ofList [c])) (some (source.position (c :: rest)))) := by
  refine here.parse_fails ?_
  cases stage with
  | group =>
    rw [FailsAt, inside_maxNesting]
    rfl
  | list brackets =>
    rw [FailsAt, inside_maxNesting]
    rfl
  | _ => cases opens

end Source

/-! ## The height of a tree -/

/-- A sign puts at most one bracket around a clause. -/
theorem Clause.nesting_signed (clause : Clause) (negative : Bool) :
    (clause.signed negative).nesting ≤ clause.nesting + 1 := by
  have group (raw : String) :
      (Clause.group (.node .mul (.leaf clause) (.leaf minusOne)) none raw).nesting =
        clause.nesting + 1 := by
    change max clause.nesting 0 + 1 = _
    rw [Nat.max_zero]
  cases negative with
  | false => exact Nat.le_succ _
  | true =>
    cases clause with
    | numeric value flavor raw => exact Nat.zero_le _
    | _ => exact Nat.le_of_eq (group _)

namespace Run

theorem joined_nesting {rest : List (List Char × Clause)} {clauses : List (Operator × Clause)}
    (reduces : joined rest = some clauses) {limit : Nat}
    (few : ∀ next ∈ rest, next.2.nesting ≤ limit) :
    ∀ next ∈ clauses, next.2.nesting ≤ limit + 1 := by
  induction rest generalizing clauses with
  | nil =>
    cases reduces
    exact fun next member => absurd member List.not_mem_nil
  | cons next rest ih =>
    obtain ⟨operators, clause⟩ := next
    simp only [joined, Option.bind_eq_bind, Option.bind_eq_some_iff, Option.pure_def,
      Option.some.injEq] at reduces
    obtain ⟨⟨op, negative⟩, reduced, more, later, rfl⟩ := reduces
    obtain ⟨here, behind⟩ := List.forall_mem_cons.1 few
    exact List.forall_mem_cons.2
      ⟨(clause.nesting_signed negative).trans (Nat.succ_le_succ here), ih later behind⟩

/-- The tree of a run is higher than its clauses by one bracket at most. -/
theorem tree_nesting {run : Run} {tree : Tree Clause} (built : run.tree = .ok tree) {limit : Nat}
    (first : run.first.nesting ≤ limit) (rest : ∀ next ∈ run.rest, next.2.nesting ≤ limit) :
    treeNesting tree ≤ limit + 1 := by
  cases reduces : joined run.rest with
  | none =>
    obtain ⟨row, clause, _, _, stuck⟩ := tree_of_not_joined run reduces
    cases stuck.symm.trans built
  | some clauses =>
    rw [tree_of_joined run reduces] at built
    cases built
    rw [treeNesting_le_iff, Tree.row_ofRun]
    exact ⟨(run.first.nesting_signed _).trans (Nat.succ_le_succ first), joined_nesting reduces rest⟩

end Run

/-- Whether the trees of a reader are not higher than a limit. -/
def ExpressionReader.KeepsLow (read : ExpressionReader) (limit : Nat) : Prop :=
  ∀ text tree rest, Finds (read text) tree rest → treeNesting tree ≤ limit

namespace Source

variable {source : Source}

theorem separated_nesting {read : ExpressionReader} {limit : Nat} (low : read.KeepsLow limit)
    {closing : Char} {opened text after : List Char} {trees : List (Tree Clause)}
    (found : Finds (source.separated read closing opened text) trees after) :
    treesNesting trees ≤ limit := by
  induction trees generalizing text with
  | nil => exact Nat.zero_le _
  | cons tree trees ih =>
    obtain ⟨_, _, begun, ⟨_, _, _, same, later⟩ | ⟨_, _, same⟩⟩ := separated_found found
    · cases same
      exact Nat.max_le.2 ⟨low _ _ _ begun, ih later⟩
    · cases same
      exact Nat.max_le.2 ⟨low _ _ _ begun, Nat.zero_le _⟩

section

variable {inner : Option ExpressionReader} {limit : Nat}
  (low : ∀ read, inner = some read → 0 < limit ∧ read.KeepsLow (limit - 1))

include low

theorem bracketed_nesting {c : Char} {rest after : List Char} {tree : Tree Clause}
    (found : Finds (source.bracketed inner c rest) tree after) : treeNesting tree + 1 ≤ limit := by
  obtain ⟨read, behind, some, begun, _⟩ := bracketed_found found
  have here := (low read some).2 _ _ _ begun
  have := (low read some).1
  omega

theorem listed_nesting {closing c : Char} {rest after : List Char} {trees : List (Tree Clause)}
    (found : Finds (source.listed inner closing c rest) trees after) :
    treesNesting trees + 1 ≤ limit := by
  obtain ⟨read, some, ⟨_, rfl⟩ | ⟨_, expressions⟩⟩ := listed_found found
  · exact (low read some).1
  · have here := separated_nesting (low read some).2 expressions
    have := (low read some).1
    omega

theorem dice_nesting {number : Option (Amount Clause)} {start text rest : List Char}
    {clause : Clause} (counted : ∀ amount, number = some amount → amountNesting amount ≤ limit)
    (found : Reaches (source.dice inner number start text) clause rest) :
    clause.nesting ≤ limit := by
  obtain ⟨amount, faces, after, counts, written, rfl, _⟩ := dice_found found
  have number_le : amountNesting amount ≤ limit := by
    rcases Option.or_eq_some_iff.1 counts with given | ⟨_, assumed⟩
    · exact counted amount given
    · split at assumed
      · cases assumed
        exact Nat.zero_le _
      · cases assumed
  have faces_le : facesNesting faces ≤ limit := by
    cases written with
    | bracketed inside => exact bracketed_nesting low inside
    | digits first => exact Nat.zero_le _
    | letter _ _ _ => exact Nat.zero_le _
  exact Nat.max_le.2 ⟨number_le, faces_le⟩

theorem clause_nesting {text after : List Char} {clause : Clause}
    (found : Finds (source.clause inner text) clause after) : clause.nesting ≤ limit := by
  obtain ⟨c, rest, _, found⟩ := clause_found found
  cases found with
  | bracket found =>
    obtain ⟨tree, behind, inside, ⟨_, _, _, _, die⟩ | ⟨_, rfl, _⟩⟩ := bracketClause_found found
    · refine dice_nesting low ?_ die
      rintro _ ⟨⟩
      exact bracketed_nesting low inside
    · exact bracketed_nesting low inside
  | pool found =>
    obtain ⟨_, _, inside, _, rfl, _⟩ := poolClause_found found
    exact listed_nesting low inside
  | number first found =>
    obtain ⟨_, _, _, _, _, die⟩ | ⟨_, rfl, _⟩ := numberClause_found found
    · refine dice_nesting low ?_ die
      rintro _ ⟨⟩
      exact Nat.zero_le _
    · exact Nat.zero_le _
  | word _ _ _ found =>
    cases found with
    | function _ _ inside => exact listed_nesting low inside
    | dice _ _ die =>
      refine dice_nesting low ?_ die
      rintro _ ⟨⟩
    | word _ _ _ => exact Nat.zero_le _

theorem following_nesting {text after : List Char} {more : List (List Char × Clause)}
    (found : Reaches (Scan.following (source.clause inner) text) more after) :
    ∀ next ∈ more, next.2.nesting ≤ limit := by
  induction more generalizing text with
  | nil => exact fun next member => absurd member List.not_mem_nil
  | cons next more ih =>
    obtain ⟨_, none, _⟩ | ⟨_, _, _, _, _, begun, same, later⟩ := following_found found
    · cases none
    · cases same
      exact List.forall_mem_cons.2 ⟨clause_nesting low begun, ih later⟩

theorem expression_nesting : (source.expression (source.clause inner)).KeepsLow (limit + 1) := by
  intro text tree rest found
  obtain ⟨first, behind, more, begun, continues, built⟩ := expression_found found
  exact Run.tree_nesting built (clause_nesting low begun) (following_nesting low continues)

end

/-- A further bracket may add two levels to a tree: its own, and one for a sign before it. -/
theorem expressionAt_nesting (source : Source) (levels : Nat) :
    (source.expressionAt levels).KeepsLow (2 * levels + 1) := by
  induction levels with
  | zero =>
    refine expression_nesting ?_
    rintro read ⟨⟩
  | succ levels ih =>
    refine expression_nesting ?_
    rintro read ⟨⟩
    exact ⟨Nat.succ_pos _, ih⟩

/-- Nesting is bounded.  Wherever the scanner comes to, it counts the brackets that are open in
the text before, and it never exceeds the limit.  An opening bracket that it meets at the limit
is refused, and the position of the refusal is that of the bracket.  No path in the tree of a
formula passes through more brackets, functions and pools than twice the limit and one more. -/
theorem nesting_bounded (source : Source) :
    (∀ stage depth place, source.Arrives stage depth place →
      depth ≤ source.maxNesting ∧ source.IsOpen depth place) ∧
    (∀ stage c rest, source.Arrives stage source.maxNesting (c :: rest) → stage.opening = some c →
      ∃ read, source.text = read ++ c :: rest ∧
        source.parse = .error (.parse (.tooDeep source.maxNesting) (String.ofList source.text)
          (.string (String.ofList [c])) (some read.length))) ∧
    ∀ tree, source.parse = .ok tree → treeNesting tree ≤ 2 * source.maxNesting + 1 := by
  refine ⟨fun stage depth place here => here.isOpen, fun stage c rest here opens => ?_,
    fun tree parsed => ?_⟩
  · obtain ⟨read, whole, position⟩ := here.isOpen.2.position
    refine ⟨read, whole, ?_⟩
    rw [here.tooDeep opens, position]
  · obtain ⟨rest, found, _⟩ := parse_found parsed
    exact expressionAt_nesting _ _ _ _ _ found

/-- The bound on the height of a tree is reached. -/
example : (Source.parse ⟨"-(-d6)".toList, true, 1⟩).toOption.map treeNesting = some 3 := by
  decide +kernel

/-- Dice in two brackets, where one may be open. -/
def twiceBracketed : Source := ⟨"2 * ((d6))".toList, true, 1⟩

theorem nesting_bounded_of_twiceBracketed : twiceBracketed.parse =
    .error (.parse (.tooDeep 1) "2 * ((d6))" (.string "(") (some 5)) := by
  have two : Finds (twiceBracketed.clause (twiceBracketed.inside 0) "2 * ((d6))".toList)
      (.numeric (.int 2) none "2") " * ((d6))".toList := ⟨by decide, rfl⟩
  have times : Lexeme.operators " * ((d6))".toList =
      some ⟨['*'], " ((d6))".toList, by decide⟩ := rfl
  have outer : twiceBracketed.Arrives .group 0 "((d6))".toList :=
    ((Arrives.formula.firstEnd two).next times).group rfl
  have inner : twiceBracketed.Arrives .group 1 "(d6))".toList :=
    (outer.enter (by decide)).first.group rfl
  obtain ⟨read, whole, refused⟩ := twiceBracketed.nesting_bounded.2.1 _ _ _ inner rfl
  have before : read = "2 * (".toList := List.append_cancel_right whole.symm
  rw [refused, before]
  rfl

end Source
end DiceNotation
