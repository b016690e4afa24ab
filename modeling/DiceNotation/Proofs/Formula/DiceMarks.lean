import DiceNotation.Proofs.Formula.Exchange
import DiceNotation.Proofs.Formula.ScaledTexts

namespace DiceNotation

open Text

/-!
# Dice in texts that are read again

The canonical text of a tree need not be read as the canonical tree.  A real that is equal to
an integer is written as the integer, an infinite one as a word, and one with an exponent is read
up to the exponent only, where nothing can go on.  But if the text can be read at all, the dice
in it are the same.  This is shown for every reader of the scanner: what it finds has the same
dice, and it leaves what stands behind the text, or an exponent.
-/

/-! ## Dice of a tree -/

/-- What the clause of dice says about them apart from their amounts. -/
structure DieMark where
  kind : DieKind
  modifiers : String
  flavor : Option String

mutual

/-- The dice in a clause in the order of their records: dice come before what is inside them. -/
def Clause.marks : Clause → List DieMark
  | .dice number faces modifiers flavor _ =>
    ⟨faces.kind, modifiers, keptFlavor flavor⟩ :: (amountMarks number ++ facesMarks faces)
  | .function _ arguments _ _ => treesMarks arguments
  | .pool members _ _ _ => treesMarks members
  | .group inner _ _ => treeMarks inner
  | .numeric _ _ _ => []
  | .text _ _ _ => []

def treeMarks : Tree Clause → List DieMark
  | .leaf part => part.marks
  | .node _ left right => treeMarks left ++ treeMarks right

def treesMarks : List (Tree Clause) → List DieMark
  | [] => []
  | tree :: rest => treeMarks tree ++ treesMarks rest

def amountMarks : Amount Clause → List DieMark
  | .known _ => []
  | .computed inner _ => treeMarks inner

def facesMarks : Faces Clause → List DieMark
  | .amount a => amountMarks a
  | .letter _ => []

end

/-- The dice of a tree are those of its row. -/
theorem treeMarks_eq (tree : Tree Clause) :
    treeMarks tree = tree.row.1.marks ++ tree.row.2.flatMap (·.2.marks) := by
  induction tree with
  | leaf part => exact (List.append_nil _).symm
  | node op left right left_ih right_ih =>
    rw [treeMarks, left_ih, right_ih, Tree.row, List.flatMap_append, List.flatMap_cons,
      List.append_assoc]

theorem Clause.marks_signed (negative : Bool) (part : Clause) :
    (part.signed negative).marks = part.marks := by
  cases negative with
  | false => rfl
  | true =>
    cases part with
    | numeric value flavor raw => rfl
    | _ => exact List.append_nil _

theorem Run.joined_marks {found : List (List Char × Clause)} {clauses : List (Operator × Clause)}
    (reduces : Run.joined found = some clauses) :
    clauses.flatMap (·.2.marks) = found.flatMap (·.2.marks) := by
  induction found generalizing clauses with
  | nil =>
    cases reduces
    rfl
  | cons next rest ih =>
    obtain ⟨row, part⟩ := next
    obtain ⟨meaning, _, later⟩ := Option.bind_eq_some_iff.1 reduces
    obtain ⟨more, others, same⟩ := Option.bind_eq_some_iff.1 later
    cases same
    rw [List.flatMap_cons, List.flatMap_cons, ih others, Clause.marks_signed]

/-- A run has the dice of its clauses, whatever signs and operators it has. -/
theorem Run.tree_marks {run : Run} {tree : Tree Clause} (made : run.tree = .ok tree) :
    treeMarks tree = run.first.marks ++ run.rest.flatMap (·.2.marks) := by
  cases reduces : Run.joined run.rest with
  | none =>
    obtain ⟨row, part, _, _, refused⟩ := run.tree_of_not_joined reduces
    rw [refused] at made
    cases made
  | some clauses =>
    rw [run.tree_of_joined reduces] at made
    cases made
    rw [treeMarks_eq, Tree.row_ofRun, Clause.marks_signed, Run.joined_marks reduces]

theorem keptFlavor_keptFlavor (flavor : Option String) :
    keptFlavor (keptFlavor flavor) = keptFlavor flavor := by
  rw [keptFlavor, keptFlavor, Option.filter_filter]
  simp

/-! ## How numbers are written -/

/-- Whether a text is read as a number to its end: digits, perhaps with a point and places. -/
inductive Lexeme.IsNumeral : List Char → Prop
  | digits {text : List Char} (present : text ≠ []) (decimal : ∀ c ∈ text, isDigit c = true) :
    IsNumeral text
  | point {front places : List Char} (present : front ≠ [])
    (decimal : ∀ c ∈ front, isDigit c = true) (some : places ≠ [])
    (decimals : ∀ c ∈ places, isDigit c = true) : IsNumeral (front ++ '.' :: places)

/-- The texts of numbers without a minus sign: numerals, numerals with an exponent behind them, and
two words. -/
inductive Lexeme.IsNumberText : List Char → Prop
  | numeral {text : List Char} (numeral : IsNumeral text) : IsNumberText text
  | exponent {text : List Char} (numeral : IsNumeral text) (more : List Char) :
    IsNumberText (text ++ 'e' :: more)
  | word {text : List Char} (listed : text ∈ [['i', 'n', 'f'], ['n', 'a', 'n']]) :
    IsNumberText text

namespace Number

open Lexeme

theorem isDigit_of_zeroRun (count : Int) : ∀ c ∈ zeroRun count, isDigit c = true := by
  intro c member
  obtain rfl := List.eq_of_mem_replicate member
  decide

theorem isNumberText_toDigits (n : Nat) : IsNumberText (Nat.toDigits 10 n) :=
  .numeral (.digits Nat.toDigits_ne_nil fun _ member => isDigit_of_mem_toDigits member)

/-- A positive decimal is written as a numeral, perhaps with an exponent. -/
theorem isNumberText_decimal (d : Decimal) : IsNumberText d.text := by
  have present : Nat.toDigits 10 d.digits ≠ [] := Nat.toDigits_ne_nil
  have decimal : ∀ c ∈ Nat.toDigits 10 d.digits, isDigit c = true :=
    fun _ member => isDigit_of_mem_toDigits member
  have length : 0 < (Nat.toDigits 10 d.digits).length := List.length_pos_of_ne_nil present
  unfold Decimal.text
  simp only
  split
  · split
    · -- all digits stand behind the point
      refine .numeral (.point (by simp : ['0'] ≠ []) (forall_of_all (by decide)) ?_ ?_)
      · exact fun none => present (List.append_eq_nil_iff.1 none).2
      · intro c member
        rcases List.mem_append.1 member with member | member
        · exact isDigit_of_zeroRun _ c member
        · exact decimal c member
    · split
      · -- all digits stand before the point
        refine .numeral (.point ?_ ?_ (by simp) (forall_of_all (by decide)))
        · exact fun none => present (List.append_eq_nil_iff.1 none).1
        · intro c member
          rcases List.mem_append.1 member with member | member
          · exact decimal c member
          · exact isDigit_of_zeroRun _ c member
      · rename_i positive short
        refine .numeral (.point ?_ (fun c member => decimal c (List.mem_of_mem_take member)) ?_
          fun c member => decimal c (List.mem_of_mem_drop member))
        · intro none
          rcases List.take_eq_nil_iff.1 none with zero | empty
          · omega
          · exact present empty
        · intro none
          have all := List.drop_eq_nil_iff.1 none
          omega
  · have front : (Nat.toDigits 10 d.digits).take 1 ≠ [] := by
      intro none
      rcases List.take_eq_nil_iff.1 none with zero | empty
      · cases zero
      · exact present empty
    have fronts : ∀ c ∈ (Nat.toDigits 10 d.digits).take 1, isDigit c = true :=
      fun c member => decimal c (List.mem_of_mem_take member)
    unfold exponentText
    simp only
    split
    · rw [List.append_nil]
      exact .exponent (.digits front fronts) _
    · rename_i some
      exact .exponent (.point front fronts (fun none => some (List.isEmpty_iff.2 none))
        fun c member => decimal c (List.mem_of_mem_drop member)) _

/-- A number is written with at most a minus sign in front of its text. -/
theorem text_eq (value : Number) : ∃ negative body,
    value.text.toList = signText negative ++ body ∧ IsNumberText body := by
  cases value with
  | int n =>
    cases n with
    | ofNat n => exact ⟨false, _, toList_toString_ofNat n, isNumberText_toDigits n⟩
    | negSucc n => exact ⟨true, _, toList_toString_negSucc n, isNumberText_toDigits (n + 1)⟩
  | real x =>
    have sign : (if isNegative x then ['-'] else []) = signText (isNegative x) := rfl
    unfold text realText
    simp only [sign]
    split
    · exact ⟨false, ['n', 'a', 'n'], rfl, .word (by simp)⟩
    · exact ⟨isNegative x, ['i', 'n', 'f'], String.toList_ofList, .word (by simp)⟩
    · split
      · exact ⟨isNegative x, ['0', '.', '0'], String.toList_ofList,
          .numeral (.point (by simp : ['0'] ≠ []) (forall_of_all (by decide)) (by simp)
            (forall_of_all (by decide)))⟩
      · exact ⟨isNegative x, _, String.toList_ofList, isNumberText_decimal _⟩

/-- In a formula a number is written as in a message, or as the integer that it is equal to. -/
theorem plainText_eq (value : Number) : ∃ negative body,
    value.plainText.toList = signText negative ++ body ∧ IsNumberText body := by
  cases value with
  | int n => exact text_eq (.int n)
  | real x =>
    rw [plainText]
    split
    · exact text_eq (.int _)
    · exact text_eq (.real x)

end Number

namespace Lexeme

/-- A numeral is read to its end. -/
theorem splitNumber_numeral {text : List Char} (numeral : IsNumeral text) {rest : List Char}
    (ends : ∀ c, rest.head? = some c → isDigit c = false ∧ c ≠ '.') :
    splitNumber (text ++ rest) = (text, rest) := by
  cases numeral with
  | digits present decimal => exact splitNumber_append decimal ends
  | @point front places present decimal some decimals =>
    have stop : ∀ c, ('.' :: (places ++ rest)).head? = Option.some c → isDigit c = false := by
      rintro c ⟨⟩
      decide
    obtain ⟨taken, left⟩ := Command.span_append decimal stop
    obtain ⟨takenToo, leftToo⟩ := Command.span_append decimals fun c first => (ends c first).1
    have nonempty : places.isEmpty = false := by
      cases places with
      | nil => exact absurd rfl some
      | cons c more => rfl
    rw [List.append_assoc, List.cons_append]
    unfold splitNumber
    simp only [taken, left, takenToo, leftToo, nonempty, Bool.false_eq_true, if_false]

theorem numeral_begins {text : List Char} (numeral : IsNumeral text) :
    ∃ c more, text = c :: more ∧ isDigit c = true := by
  cases numeral with
  | digits present decimal =>
    obtain ⟨c, more, rfl⟩ := List.exists_cons_of_ne_nil present
    exact ⟨c, more, rfl, decimal c List.mem_cons_self⟩
  | point present decimal _ _ =>
    obtain ⟨c, more, rfl⟩ := List.exists_cons_of_ne_nil present
    exact ⟨c, _, rfl, decimal c List.mem_cons_self⟩

end Lexeme

/-! ## Readings -/

/-- A reader has stopped at the exponent of a number.  No reader goes on from there. -/
def Stuck (text : List Char) : Prop := text.head? = some 'e'

/-- Whether a clause that is found where a text begins has certain dice, and the reader stops at
the end of the text or is stuck in it. -/
def ClauseReads (source : Source) (inner : Option ExpressionReader) (text : List Char)
    (marks : List DieMark) : Prop :=
  ∃ c more, text = c :: more ∧ isBoundary c = false ∧ ∀ rest part after, EndsClause rest →
    Finds (source.clauseAt inner c (more ++ rest)) part after →
      part.marks = marks ∧ (after = rest ∨ Stuck after)

/-- Whether a tree that is found where the canonical text of another one begins has the same dice,
and the reader stops at the end of the text.  The reader may be stuck in the text as well. -/
def ExpressionReader.KeepsMarks (read : ExpressionReader) (tree : Tree Clause) : Prop :=
  ∀ gap rest found after, (∀ c ∈ gap, isBlank c = true) → EndsExpression rest →
    Finds (read (gap ++ ((canonicalTree tree).raw.toList ++ rest))) found after →
      treeMarks found = treeMarks tree ∧ after = rest ∨ Stuck after

/-- Whether what a clause says, apart from numbers and from what is inside it, is read from its
canonical text. -/
def Clause.IsClear (clause : Clause) : Prop := clause.IsLegible ∧ clause.HasKnownFaces

theorem no_blanks : ∀ c ∈ ([] : List Char), isBlank c = true :=
  fun _ none => absurd none List.not_mem_nil

theorem finds_unique {α : Type} {text : List Char} {result : Except Fault (Scanned α text)}
    {a b : α} {after rest : List Char} (found : Finds result a after)
    (other : Finds result b rest) : a = b ∧ after = rest := by
  obtain ⟨_, found⟩ := found
  obtain ⟨_, other⟩ := other
  cases found.symm.trans other
  exact ⟨rfl, rfl⟩

theorem Stuck.skipBlanks {text : List Char} (stuck : Stuck text) : Text.skipBlanks text = text := by
  cases text with
  | nil => rfl
  | cons c more =>
    cases stuck
    exact skipBlanks_cons (by decide) more

/-- Behind blanks, a reader that is stuck sees the exponent. -/
theorem Stuck.sees {text after : List Char} {c : Char} (stuck : Stuck text)
    (seen : Text.skipBlanks text = c :: after) : c = 'e' := by
  rw [stuck.skipBlanks] at seen
  subst seen
  exact Option.some.inj stuck

theorem Stuck.no_operators {text : List Char} (stuck : Stuck text) : Lexeme.operators text = none := by
  refine Lexeme.operators_of_not_operator fun c first => ?_
  rw [stuck.skipBlanks] at first
  cases stuck.symm.trans first
  decide

/-- Whether readers of what is in brackets find the dice that it has. -/
def ReadsInside (inner : Option ExpressionReader) : Prop :=
  ∀ read, inner = some read → ∀ tree, TreeThroughout Clause.IsClear tree → read.KeepsMarks tree

/-- The text of a clause, and whether it has a sign in front that is read with the operators. -/
structure Clause.Spelled (source : Source) (inner : Option ExpressionReader) (part : Clause)
    (negative : Bool) (body : List Char) : Prop where
  text : part.canonical.raw.toList = signText negative ++ body
  reads : ClauseReads source inner body part.marks

/-- Whether all clauses of a tree are read with the dice that they have. -/
def Tree.IsSpelled (source : Source) (inner : Option ExpressionReader) (tree : Tree Clause) : Prop :=
  (∃ negative body, tree.row.1.Spelled source inner negative body) ∧
    ∀ next ∈ tree.row.2, ∃ negative body, next.2.Spelled source inner negative body

section

variable {source : Source} {inner : Option ExpressionReader}

theorem ClauseReads.begins {text : List Char} {marks : List DieMark}
    (reads : ClauseReads source inner text marks) :
    ∃ c more, text = c :: more ∧ isBlank c = false ∧ Lexeme.isOperator c = false ∧
      isClosing c = false ∧ isSign c = false := by
  obtain ⟨c, more, rfl, inside, _⟩ := reads
  exact ⟨c, more, rfl, visible_of_not_boundary inside⟩

/-- The same behind blanks. -/
theorem ClauseReads.clause {text : List Char} {marks : List DieMark}
    (reads : ClauseReads source inner text marks) {gap rest : List Char}
    (blank : ∀ c ∈ gap, isBlank c = true) (ends : EndsClause rest) {part : Clause}
    {after : List Char} (found : Finds (source.clause inner (gap ++ (text ++ rest))) part after) :
    part.marks = marks ∧ (after = rest ∨ Stuck after) := by
  obtain ⟨c, more, rfl, inside, finds⟩ := reads
  have begun : skipBlanks (gap ++ (c :: more ++ rest)) = c :: (more ++ rest) := by
    rw [skipBlanks_append blank, List.cons_append,
      skipBlanks_cons (visible_of_not_boundary inside).1]
  refine finds rest part after ends ?_
  obtain ⟨shorter, found⟩ := found
  unfold Source.clause at found
  split at found
  · cases found
  · rename_i d others begins
    cases begun.symm.trans begins
    split at found
    · cases found
    · rename_i scanned read
      cases found
      exact ⟨scanned.shorter, read⟩

theorem ClauseReads.no_operator {text : List Char} {marks : List DieMark}
    (reads : ClauseReads source inner text marks) (gap : List Char)
    (blank : ∀ c ∈ gap, isBlank c = true) (rest : List Char) :
    ∀ c, (skipBlanks (gap ++ (text ++ rest))).head? = some c → Lexeme.isOperator c = false := by
  obtain ⟨c, more, rfl, visible, operand, _⟩ := reads.begins
  rw [skipBlanks_append blank, List.cons_append, skipBlanks_cons visible]
  rintro d ⟨⟩
  exact operand

/-- What is found where its text begins has the dice that it has. -/
theorem Clause.Rereads.reads {part : Clause} (rereads : part.Rereads source inner)
    {marks : List DieMark} (same : part.canonical.marks = marks) :
    ClauseReads source inner part.canonical.raw.toList marks := by
  obtain ⟨c, more, text, inside, finds⟩ := rereads
  refine ⟨c, more, text, inside, fun rest other after ends found => ?_⟩
  obtain ⟨rfl, rfl⟩ := finds_unique found (finds rest ends)
  exact ⟨same, .inl rfl⟩

/-! ## Numbers -/

/-- A numeral with a flavor behind it, or with an exponent. -/
theorem numeral_reads {text : List Char} (numeral : Lexeme.IsNumeral text) {behind : List Char}
    (stops : ∀ rest, EndsClause rest →
      (∀ c, (behind ++ rest).head? = some c →
        isDigit c = false ∧ c ≠ '.' ∧ Lexeme.isDieSign c = false) ∧
      ((Lexeme.splitFlavor (behind ++ rest)).2 = rest ∨
        Stuck (Lexeme.splitFlavor (behind ++ rest)).2)) :
    ClauseReads source inner (text ++ behind) [] := by
  obtain ⟨c, more, rfl, digit⟩ := Lexeme.numeral_begins numeral
  refine ⟨c, more ++ behind, rfl, isBoundary_of_isDigit digit, ?_⟩
  intro rest part after ends found
  obtain ⟨stop, flavor⟩ := stops rest ends
  have read : Lexeme.splitNumber (c :: (more ++ behind ++ rest)) = (c :: more, behind ++ rest) := by
    rw [List.append_assoc]
    exact Lexeme.splitNumber_numeral numeral fun d first => ⟨(stop d first).1, (stop d first).2.1⟩
  cases Source.clauseAt_found found with
  | bracket => exact absurd digit (by decide)
  | pool => exact absurd digit (by decide)
  | word _ _ other =>
    rw [isDigitLike, digit] at other
    cases other
  | number first found =>
    rcases Source.numberClause_found found with ⟨d, others, begins, sign, _⟩ | ⟨_, rfl, rfl⟩
    · rw [read] at begins
      have noDie := (stop d (congrArg List.head? begins)).2.2
      rw [sign] at noDie
      cases noDie
    · rw [read]
      exact ⟨rfl, flavor⟩

theorem numberText_reads {body : List Char} (shape : Lexeme.IsNumberText body)
    {flavor : Option String} (legible : Lexeme.IsFlavor flavor) :
    ClauseReads source inner (body ++ Lexeme.flavorText (keptFlavor flavor)) [] := by
  cases shape with
  | numeral numeral =>
    refine numeral_reads numeral fun rest ends => ⟨fun c first => ?_, ?_⟩
    · have boundary := Lexeme.endsLexeme_flavorText (keptFlavor flavor) ends c first
      exact ⟨isDigit_of_isBoundary boundary, ne_of_isBoundary boundary (by decide),
        isDieSign_of_isBoundary boundary⟩
    · rw [splitFlavor_canonical legible ends]
      exact .inl rfl
  | exponent numeral more =>
    rw [List.append_assoc, List.cons_append]
    refine numeral_reads numeral fun rest ends => ⟨?_, ?_⟩
    · rintro c ⟨⟩
      decide
    · -- there is no flavor where the exponent begins
      have seen : skipBlanks ('e' :: (more ++ Lexeme.flavorText (keptFlavor flavor)) ++ rest) =
          'e' :: (more ++ Lexeme.flavorText (keptFlavor flavor)) ++ rest :=
        skipBlanks_cons (by decide) _
      right
      unfold Lexeme.splitFlavor
      rw [seen]
      exact rfl
  | word listed =>
    have word : Lexeme.IsWord body := by
      rcases List.mem_cons.1 listed with rfl | listed
      · exact ⟨'i', ['n', 'f'], rfl, forall_of_all (by decide), by decide⟩
      · obtain rfl := List.mem_singleton.1 listed
        exact ⟨'n', ['a', 'n'], rfl, forall_of_all (by decide), by decide⟩
    have shape : Lexeme.IsWord (String.ofList body).toList := by
      rwa [String.toList_ofList]
    have rereads : (Clause.text (String.ofList body) flavor "").Rereads source inner :=
      text_rereads shape legible ""
    have none : (Clause.text (String.ofList body) flavor "").canonical.marks = [] := rfl
    have reads := rereads.reads none
    have text : (Clause.text (String.ofList body) flavor "").canonical.raw.toList =
        body ++ Lexeme.flavorText (keptFlavor flavor) := by
      rw [Clause.canonical, Clause.raw, toList_withFlavor, String.toList_ofList]
    rwa [text] at reads

/-- A number is read without its sign. -/
theorem numeric_spelled (value : Number) {flavor : Option String}
    (legible : Lexeme.IsFlavor flavor) (raw : String) : ∃ negative body,
      (Clause.numeric value flavor raw).Spelled source inner negative body := by
  obtain ⟨negative, body, text, shape⟩ := value.plainText_eq
  refine ⟨negative, _, ?_, numberText_reads shape legible⟩
  rw [Clause.canonical, Clause.raw, toList_withFlavor, text, List.append_assoc]

/-- The same of a number that is written as in a message. -/
theorem numberText_spelled (value : Number) : ∃ negative body,
    (Clause.text value.text none "").Spelled source inner negative body := by
  obtain ⟨negative, body, text, shape⟩ := value.text_eq
  refine ⟨negative, _, ?_, numberText_reads shape isFlavor_none⟩
  rw [Clause.canonical, Clause.raw, toList_withFlavor, text, List.append_assoc]

/-! ## Brackets and lists -/

variable {read : ExpressionReader}

/-- A stuck reader does not see the end of brackets. -/
theorem not_stuck {text after : List Char} {c : Char} (closing : isClosing c = true)
    (seen : skipBlanks text = c :: after) : ¬Stuck text := by
  intro stuck
  cases stuck.sees seen
  cases closing

theorem skipBlanks_closing {c : Char} (closing : isClosing c = true) (rest : List Char) :
    skipBlanks (c :: rest) = c :: rest := by
  simp only [isClosing, Bool.or_eq_true, beq_iff_eq] at closing
  rcases closing with (rfl | rfl) | rfl <;> exact skipBlanks_cons (by decide) rest

/-- A reader behind which brackets go on is not stuck. -/
theorem ExpressionReader.KeepsMarks.closed {tree found : Tree Clause} (keeps : read.KeepsMarks tree)
    {gap rest behind others : List Char} (blank : ∀ c ∈ gap, isBlank c = true)
    (ends : EndsExpression rest)
    (finds : Finds (read (gap ++ ((canonicalTree tree).raw.toList ++ rest))) found behind) {c : Char}
    (closing : isClosing c = true) (seen : skipBlanks behind = c :: others) :
    treeMarks found = treeMarks tree ∧ behind = rest := by
  rcases keeps gap rest found behind blank ends finds with same | stuck
  · exact same
  · exact absurd stuck (not_stuck closing seen)

theorem bracketed_keepsMarks {tree found : Tree Clause}
    (keeps : ∀ read, inner = some read → read.KeepsMarks tree) {rest after : List Char}
    (finds : Finds (source.bracketed inner '(' ((canonicalTree tree).raw.toList ++ ')' :: rest))
      found after) : treeMarks found = treeMarks tree ∧ after = rest := by
  obtain ⟨read, behind, given, inside, ended⟩ := Source.bracketed_found finds
  obtain ⟨same, rfl⟩ := (keeps read given).closed no_blanks (endsExpression_cons (by decide) rest)
    inside (by decide) ended
  rw [skipBlanks_closing (by decide)] at ended
  cases ended
  exact ⟨same, rfl⟩

/-- The first tree of a list, and what stands behind it. -/
theorem separated_first {closing : Char} (mark : isClosing closing = true)
    {opened : List Char} {tree : Tree Clause} (keeps : read.KeepsMarks tree)
    {gap rest after : List Char} (blank : ∀ c ∈ gap, isBlank c = true) (ends : EndsExpression rest)
    {found : List (Tree Clause)} (finds : Finds (source.separated read closing opened
      (gap ++ ((canonicalTree tree).raw.toList ++ rest))) found after) :
    ∃ first, treeMarks first = treeMarks tree ∧
      ((∃ next more, skipBlanks rest = ',' :: next ∧ found = first :: more ∧
          Finds (source.separated read closing opened next) more after) ∨
        skipBlanks rest = closing :: after ∧ found = [first]) := by
  obtain ⟨first, behind, inside, kind⟩ := Source.separated_found finds
  have closes : ∃ c others, isClosing c = true ∧ skipBlanks behind = c :: others := by
    rcases kind with ⟨next, _, comma, _⟩ | ⟨_, ended, _⟩
    · exact ⟨',', next, by decide, comma⟩
    · exact ⟨closing, after, mark, ended⟩
  obtain ⟨c, others, closed, seen⟩ := closes
  obtain ⟨same, rfl⟩ := keeps.closed blank ends inside closed seen
  exact ⟨first, same, kind.imp_right And.right⟩

theorem separated_keepsMarks {closing : Char} (mark : isClosing closing = true)
    (other : closing ≠ ',') {opened : List Char} {tree : Tree Clause} {more : List (Tree Clause)}
    (keeps : ∀ member ∈ tree :: more, read.KeepsMarks member) {gap rest after : List Char}
    (blank : ∀ c ∈ gap, isBlank c = true) {found : List (Tree Clause)}
    (finds : Finds (source.separated read closing opened
      (gap ++ ((canonicalTree tree).raw.toList ++ (textBehindComma more ++ closing :: rest))))
      found after) : treesMarks found = treesMarks (tree :: more) ∧ after = rest := by
  induction more generalizing tree gap found with
  | nil =>
    obtain ⟨first, same, kind⟩ := separated_first mark (keeps tree List.mem_cons_self) blank
      (endsExpression_cons mark rest) finds
    rw [skipBlanks_closing mark] at kind
    rcases kind with ⟨next, others, comma, _⟩ | ⟨ended, rfl⟩
    · cases comma
      exact absurd rfl other
    · cases ended
      rw [treesMarks, treesMarks, same]
      exact ⟨rfl, rfl⟩
  | cons next more ih =>
    have text : textBehindComma (next :: more) ++ closing :: rest = ',' :: ([' '] ++
        ((canonicalTree next).raw.toList ++ (textBehindComma more ++ closing :: rest))) := by
      simp [textBehindComma]
    rw [text] at finds
    obtain ⟨first, same, kind⟩ := separated_first mark (keeps tree List.mem_cons_self) blank
      (endsExpression_cons (by decide) _) finds
    rw [skipBlanks_closing (by decide)] at kind
    rcases kind with ⟨_, others, comma, rfl, later⟩ | ⟨ended, _⟩
    · cases comma
      obtain ⟨sameToo, ended⟩ := ih
        (fun member inside => keeps member (List.mem_cons_of_mem _ inside))
        (forall_of_all (by decide)) later
      rw [treesMarks, treesMarks, same, sameToo]
      exact ⟨rfl, ended⟩
    · cases ended
      exact absurd rfl other

theorem listed_keepsMarks {closing c : Char} (mark : isClosing closing = true)
    (other : closing ≠ ',') {trees found : List (Tree Clause)}
    (begins : ∀ tree ∈ trees, ∃ d others, (canonicalTree tree).raw.toList = d :: others ∧
      isBlank d = false ∧ isClosing d = false)
    (keeps : ∀ read, inner = some read → ∀ tree ∈ trees, read.KeepsMarks tree)
    {rest after : List Char}
    (finds : Finds (source.listed inner closing c
      ((listText (canonicalTrees trees)).toList ++ closing :: rest)) found after) :
    treesMarks found = treesMarks trees ∧ after = rest := by
  obtain ⟨read, given, kind⟩ := Source.listed_found finds
  cases trees with
  | nil =>
    have nothing : skipBlanks ((listText (canonicalTrees [])).toList ++ closing :: rest) =
        closing :: rest := skipBlanks_closing mark rest
    rw [nothing] at kind
    rcases kind with ⟨ended, rfl⟩ | ⟨open_, _⟩
    · cases ended
      exact ⟨rfl, rfl⟩
    · exact absurd rfl open_
  | cons tree more =>
    obtain ⟨d, others, text, visible, inside⟩ := begins tree List.mem_cons_self
    have first : skipBlanks ((listText (canonicalTrees (tree :: more))).toList ++ closing :: rest) =
        (canonicalTree tree).raw.toList ++ (textBehindComma more ++ closing :: rest) := by
      rw [toList_listText, List.append_assoc, text, List.cons_append, skipBlanks_cons visible]
    rw [first] at kind
    rcases kind with ⟨ended, _⟩ | ⟨_, found⟩
    · rw [text] at ended
      cases ended
      rw [mark] at inside
      cases inside
    · exact separated_keepsMarks mark other (keeps read given) no_blanks found

theorem group_reads {tree : Tree Clause}
    (keeps : ∀ read, inner = some read → read.KeepsMarks tree) {flavor : Option String}
    (legible : Lexeme.IsFlavor flavor) (raw : String) :
    ClauseReads source inner (Clause.group tree flavor raw).canonical.raw.toList
      (treeMarks tree) := by
  have text : (withFlavor ("(" ++ (canonicalTree tree).raw ++ ")") flavor).toList =
      '(' :: ((canonicalTree tree).raw.toList ++ ')' :: Lexeme.flavorText (keptFlavor flavor)) := by
    simp [toList_withFlavor]
  refine ⟨'(', _, text, by decide, ?_⟩
  intro rest part after ends found
  have lexeme := Lexeme.endsLexeme_flavorText (keptFlavor flavor) ends
  rw [List.append_assoc, List.cons_append] at found
  obtain ⟨inside, behind, bracketed, kind⟩ := Source.bracketClause_found found
  obtain ⟨same, rfl⟩ := bracketed_keepsMarks keeps bracketed
  rcases kind with ⟨d, more, begins, sign, _⟩ | ⟨_, rfl, rfl⟩
  · rw [isDieSign_of_isBoundary (lexeme d (by rw [begins]; rfl))] at sign
    cases sign
  · rw [splitFlavor_canonical legible ends]
    exact ⟨same, .inl rfl⟩

theorem function_reads {name : String} {arguments : List (Tree Clause)} {flavor : Option String}
    (called : Lexeme.IsName name.toList)
    (begins : ∀ tree ∈ arguments, ∃ d others, (canonicalTree tree).raw.toList = d :: others ∧
      isBlank d = false ∧ isClosing d = false)
    (keeps : ∀ read, inner = some read → ∀ tree ∈ arguments, read.KeepsMarks tree)
    (legible : Lexeme.IsFlavor flavor) (raw : String) :
    ClauseReads source inner (Clause.function name arguments flavor raw).canonical.raw.toList
      (treesMarks arguments) := by
  obtain ⟨c, more, shown, first, inside, other⟩ := called
  have text : (withFlavor (name ++ "(" ++ listText (canonicalTrees arguments) ++ ")") flavor).toList =
      c :: (more ++ '(' :: ((listText (canonicalTrees arguments)).toList ++
        ')' :: Lexeme.flavorText (keptFlavor flavor))) := by
    simp [toList_withFlavor, shown]
  rw [shown] at inside other
  refine ⟨c, _, text, not_boundary_of insideName_of_isBoundary (inside c List.mem_cons_self), ?_⟩
  intro rest part after ends found
  rw [List.append_assoc, List.cons_append, List.append_assoc, List.cons_append] at found
  have word : ∃ d others, c :: more = d :: others ∧ Lexeme.beginsName d = true ∧
      (∀ e ∈ c :: more, Lexeme.insideName e = true) ∧ lower (c :: more) ≠ ['d'] :=
    ⟨c, more, rfl, first, inside, other⟩
  obtain ⟨_, named⟩ := functionName_append word
    ((listText (canonicalTrees arguments)).toList ++
      ')' :: (Lexeme.flavorText (keptFlavor flavor) ++ rest))
  cases Source.clauseAt_found found with
  | bracket => exact absurd first (by decide)
  | pool => exact absurd first (by decide)
  | number digit =>
    have noDigit := isDigitLike_of_beginsName first
    rw [isDigitLike, digit] at noDigit
    cases noDigit
  | word _ _ _ found =>
    cases found with
    | function calledToo opens listed =>
      cases named.symm.trans calledToo
      cases opens
      obtain ⟨same, rfl⟩ := listed_keepsMarks (by decide) (by decide) begins keeps listed
      rw [splitFlavor_canonical legible ends]
      exact ⟨same, .inl rfl⟩
    | dice noName => cases named.symm.trans noName
    | word noName => cases named.symm.trans noName

theorem pool_reads {members : List (Tree Clause)} {modifiers : String} {flavor : Option String}
    (begins : ∀ tree ∈ members, ∃ d others, (canonicalTree tree).raw.toList = d :: others ∧
      isBlank d = false ∧ isClosing d = false)
    (keeps : ∀ read, inner = some read → ∀ tree ∈ members, read.KeepsMarks tree)
    (run : Command.IsRun modifiers.toList) (legible : Lexeme.IsFlavor flavor) (raw : String) :
    ClauseReads source inner (Clause.pool members modifiers flavor raw).canonical.raw.toList
      (treesMarks members) := by
  have text : (withFlavor ("\x7b" ++ listText (canonicalTrees members) ++ "\x7d" ++ modifiers)
      flavor).toList = '\x7b' :: ((listText (canonicalTrees members)).toList ++
        '\x7d' :: (modifiers.toList ++ Lexeme.flavorText (keptFlavor flavor))) := by
    simp [toList_withFlavor]
  refine ⟨'\x7b', _, text, by decide, ?_⟩
  intro rest part after ends found
  have lexeme := Lexeme.endsLexeme_flavorText (keptFlavor flavor) ends
  rw [List.append_assoc, List.cons_append, List.append_assoc] at found
  obtain ⟨inside, behind, listed, _, rfl, rfl⟩ := Source.poolClause_found found
  obtain ⟨same, rfl⟩ := listed_keepsMarks (by decide) (by decide) begins keeps listed
  rw [Command.readRun_of_isRun run lexeme, splitFlavor_canonical legible ends]
  exact ⟨same, .inl rfl⟩

/-! ## Dice -/

/-- Whether the expression that computes an amount keeps its dice. -/
def Amount.KeepsMarks (inner : Option ExpressionReader) : Amount Clause → Prop
  | known _ => True
  | computed tree _ => ∀ read, inner = some read → read.KeepsMarks tree

def Faces.KeepsMarks (inner : Option ExpressionReader) : Faces Clause → Prop
  | amount a => a.KeepsMarks inner
  | letter _ => True

theorem faces_keepsMarks {faces : Faces Clause} (keeps : faces.KeepsMarks inner)
    (known : ∀ code, faces = .letter code → ∃ kind, DieKind.ofLetter? code = some kind)
    {rest after : List Char} (ends : ∀ d, rest.head? = some d → isDigit d = false)
    {found : Faces Clause} (reached : Source.FacesFound source inner
      ((canonicalFaces faces).text.toList ++ rest) found after) :
    found.kind = faces.kind ∧ facesMarks found = facesMarks faces ∧ after = rest := by
  cases faces with
  | letter code =>
    obtain ⟨kind, named⟩ := known code rfl
    obtain ⟨c, text, _, other, round, lower⟩ := letter_rereads named
    rw [canonicalFaces, Faces.text, text] at reached
    cases reached with
    | bracketed => exact absurd rfl round
    | digits first =>
      rw [isDigitLike, first] at other
      cases other
    | letter => exact ⟨congrArg (fun code => Faces.kind (.letter code)) lower, rfl, rfl⟩
  | amount a =>
    cases a with
    | known n =>
      obtain ⟨c, more, digits⟩ := toDigits_eq_cons n
      have decimal := isDigit_of_toDigits digits
      have first := decimal c List.mem_cons_self
      rw [canonicalFaces, canonicalAmount, Faces.text, Amount.text, toList_toString, digits] at reached
      cases reached with
      | bracketed => exact absurd first (by decide)
      | digits _ =>
        refine ⟨rfl, rfl, ?_⟩
        exact (Command.span_append decimal ends).2
      | letter _ other =>
        rw [isDigitLike, first] at other
        cases other
    | computed tree raw =>
      rw [canonicalFaces, canonicalAmount, Faces.text, Amount.text, toList_bracketed,
        List.cons_append, List.append_assoc] at reached
      cases reached with
      | bracketed inside =>
        obtain ⟨same, rfl⟩ := bracketed_keepsMarks keeps inside
        exact ⟨rfl, same, rfl⟩
      | digits first => exact absurd first (by decide)
      | letter round => exact absurd rfl round

/-- What stands behind the die sign says what the dice say. -/
theorem dice_reads {number : Amount Clause} {faces : Faces Clause} {modifiers : String}
    {flavor : Option String} (keeps : faces.KeepsMarks inner)
    (known : ∀ code, faces = .letter code → ∃ kind, DieKind.ofLetter? code = some kind)
    (run : Command.IsRun modifiers.toList) (legible : Lexeme.IsFlavor flavor)
    {start rest after : List Char} (ends : EndsClause rest) {part : Clause}
    (reached : Reaches (source.dice inner (some number) start ((canonicalFaces faces).text.toList ++
        (modifiers.toList ++ (Lexeme.flavorText (keptFlavor flavor) ++ rest)))) part after) :
    part.marks = ⟨faces.kind, modifiers, keptFlavor flavor⟩ ::
      (amountMarks number ++ facesMarks faces) ∧ after = rest := by
  have lexeme := Lexeme.endsLexeme_flavorText (keptFlavor flavor) ends
  obtain ⟨amount, found, behind, ⟨⟩, written, rfl, rfl⟩ := Source.dice_found reached
  obtain ⟨kind, same, rfl⟩ :=
    faces_keepsMarks keeps known (Command.not_digit_of_run run lexeme) written
  rw [Command.readRun_of_isRun run lexeme, splitFlavor_canonical legible ends]
  refine ⟨?_, rfl⟩
  rw [Clause.marks, kind, same, String.ofList_toList, keptFlavor_keptFlavor]

theorem dice_clause_reads {number : Amount Clause} {faces : Faces Clause} {modifiers : String}
    {flavor : Option String} (counted : number.KeepsMarks inner) (keeps : faces.KeepsMarks inner)
    (known : ∀ code, faces = .letter code → ∃ kind, DieKind.ofLetter? code = some kind)
    (run : Command.IsRun modifiers.toList) (legible : Lexeme.IsFlavor flavor) (raw : String) :
    ClauseReads source inner (Clause.dice number faces modifiers flavor raw).canonical.raw.toList
      (Clause.dice number faces modifiers flavor raw).marks := by
  have text : (withFlavor ((canonicalAmount number).text ++ "d" ++ (canonicalFaces faces).text ++
      modifiers) flavor).toList = (canonicalAmount number).text.toList ++
        ('d' :: ((canonicalFaces faces).text.toList ++
          (modifiers.toList ++ Lexeme.flavorText (keptFlavor flavor)))) := by
    simp [toList_withFlavor]
  cases number with
  | known n =>
    obtain ⟨c, more, digits⟩ := toDigits_eq_cons n
    have decimal := isDigit_of_toDigits digits
    have digit := decimal c List.mem_cons_self
    rw [canonicalAmount, Amount.text, toList_toString, digits, List.cons_append] at text
    refine ⟨c, _, text, isBoundary_of_isDigit digit, ?_⟩
    intro rest part after ends found
    rw [List.append_assoc, List.cons_append, List.append_assoc, List.append_assoc] at found
    have read (behind : List Char) :
        Lexeme.splitNumber (c :: (more ++ 'd' :: behind)) = (c :: more, 'd' :: behind) := by
      rw [← List.cons_append]
      refine Lexeme.splitNumber_append decimal ?_
      rintro d ⟨⟩
      decide
    cases Source.clauseAt_found found with
    | bracket => exact absurd digit (by decide)
    | pool => exact absurd digit (by decide)
    | word _ _ other =>
      rw [isDigitLike, digit] at other
      cases other
    | number first found =>
      have kind := Source.numberClause_found found
      rw [read] at kind
      rcases kind with ⟨d, others, ⟨⟩, _, _, die⟩ | ⟨plain, _⟩
      · obtain ⟨same, rfl⟩ := dice_reads keeps known run legible ends die
        exact ⟨same, .inl rfl⟩
      · exact absurd (plain 'd' rfl) (by decide)
  | computed tree written =>
    rw [canonicalAmount, Amount.text, toList_bracketed, List.cons_append] at text
    refine ⟨'(', _, text, by decide, ?_⟩
    intro rest part after ends found
    rw [List.append_assoc, List.append_assoc, List.singleton_append, List.cons_append,
      List.append_assoc, List.append_assoc] at found
    obtain ⟨inside, behind, bracketed, kind⟩ := Source.bracketClause_found found
    obtain ⟨same, rfl⟩ := bracketed_keepsMarks counted bracketed
    rcases kind with ⟨d, others, ⟨⟩, _, die⟩ | ⟨plain, _⟩
    · obtain ⟨sameToo, rfl⟩ := dice_reads keeps known run legible ends die
      refine ⟨?_, .inl rfl⟩
      rw [sameToo, Clause.marks, amountMarks, amountMarks, same]
    · exact absurd (plain 'd' rfl) (by decide)

/-! ## Clauses -/

/-- Whether a tree begins with neither a blank nor the end of brackets. -/
def Tree.Begins (tree : Tree Clause) : Prop :=
  ∃ d others, (canonicalTree tree).raw.toList = d :: others ∧ isBlank d = false ∧
    isClosing d = false

theorem Clause.Spelled.begins {part : Clause} {negative : Bool} {body : List Char}
    (spelled : part.Spelled source inner negative body) : (Tree.leaf part).Begins := by
  obtain ⟨text, reads⟩ := spelled
  obtain ⟨c, more, rfl, visible, _, inside, _⟩ := reads.begins
  cases negative with
  | false => exact ⟨c, more, text, visible, inside⟩
  | true => exact ⟨'-', c :: more, text, by decide, by decide⟩

theorem ClauseReads.spelled {part : Clause}
    (reads : ClauseReads source inner part.canonical.raw.toList part.marks) :
    ∃ negative body, part.Spelled source inner negative body :=
  ⟨false, _, rfl, reads⟩

theorem amount_keepsMarks (keeps : ReadsInside inner) {amount : Amount Clause}
    (clear : WrittenThroughout Clause.IsClear amount) : amount.KeepsMarks inner := by
  cases amount with
  | known n => trivial
  | computed tree raw => exact fun read given => keeps read given tree clear

mutual

/-- A clear clause is read with the dice that it has, if what is in its brackets is. -/
theorem clause_spelled (source : Source) (inner : Option ExpressionReader)
    (keeps : ReadsInside inner) : (part : Clause) → part.Throughout Clause.IsClear →
    ∃ negative body, part.Spelled source inner negative body
  | .numeric value flavor raw, ⟨legible, _⟩ => numeric_spelled value legible raw
  | .text word flavor raw, ⟨⟨shape, legible⟩, _⟩ =>
    ((text_rereads shape legible raw).reads rfl).spelled
  | .group tree flavor raw, ⟨⟨⟨_, legible⟩, _⟩, clear⟩ =>
    (group_reads (fun read given => keeps read given tree clear) legible raw).spelled
  | .function name arguments flavor raw, ⟨⟨⟨called, _, legible⟩, _⟩, clear⟩ =>
    (function_reads called (trees_begin arguments clear)
      (fun read given tree member => keeps read given tree ((treesThroughout_iff _).1 clear tree member))
      legible raw).spelled
  | .pool members modifiers flavor raw, ⟨⟨⟨_, _, run, legible⟩, _⟩, clear⟩ =>
    (pool_reads (trees_begin members clear)
      (fun read given tree member => keeps read given tree ((treesThroughout_iff _).1 clear tree member))
      run legible raw).spelled
  | .dice number (.letter code) modifiers flavor raw,
      ⟨⟨⟨_, _, run, legible⟩, known⟩, counted, _⟩ => by
    have faces : (Faces.letter code).KeepsMarks inner := trivial
    refine (dice_clause_reads (amount_keepsMarks keeps counted) faces ?_ run legible raw).spelled
    rintro code ⟨⟩
    exact known
  | .dice number (.amount a) modifiers flavor raw,
      ⟨⟨⟨_, _, run, legible⟩, _⟩, counted, sided⟩ => by
    have faces : (Faces.amount a).KeepsMarks inner := amount_keepsMarks keeps sided
    exact (dice_clause_reads (amount_keepsMarks keeps counted) faces nofun run legible raw).spelled

theorem tree_begins : (tree : Tree Clause) → TreeThroughout Clause.IsClear tree → tree.Begins
  | .leaf part, clear => by
    obtain ⟨_, _, spelled⟩ := clause_spelled ⟨[], true, 0⟩ none nofun part clear
    exact spelled.begins
  | .node op left right, clear => by
    obtain ⟨d, others, text, visible, inside⟩ := tree_begins left clear.1
    refine ⟨d, others ++ (" " ++ op.symbol ++ " " ++ (canonicalTree right).raw).toList, ?_, visible,
      inside⟩
    change ((canonicalTree left).raw ++ " " ++ op.symbol ++ " " ++ (canonicalTree right).raw).toList = _
    simp only [String.toList_append, text, List.cons_append, List.append_assoc]

theorem trees_begin : (trees : List (Tree Clause)) → TreesThroughout Clause.IsClear trees →
    ∀ tree ∈ trees, tree.Begins
  | [], _ => fun _ member => absurd member List.not_mem_nil
  | first :: rest, clear => by
    intro tree member
    rcases List.mem_cons.1 member with is | member
    · rw [is]
      exact tree_begins first clear.1
    · exact trees_begin rest clear.2 tree member

end

/-! ## Rows -/

/-- An operator is read with the sign of the clause behind it. -/
theorem operators_spelled (op : Operator) {part : Clause} {negative : Bool} {body : List Char}
    (spelled : part.Spelled source inner negative body) (rest : List Char) :
    ∃ row gap, (∀ c ∈ gap, isBlank c = true) ∧ ∃ shorter,
      Lexeme.operators (' ' :: (op.symbol.toList ++ ' ' :: (part.canonical.raw.toList ++ rest))) =
        some ⟨row, gap ++ (body ++ rest), shorter⟩ := by
  obtain ⟨c, symbol, operator, _⟩ := op.symbol_eq
  have space : isBlank ' ' = true := by decide
  have minus : Lexeme.isOperator '-' = true := by decide
  rw [symbol, spelled.text]
  cases negative with
  | false =>
    have spaced : ∀ d ∈ [' ', c], isBlank d = true ∨ Lexeme.isOperator d = true := by
      simp [space, operator]
    obtain ⟨shorter, found⟩ := Lexeme.operators_append spaced rfl operator
      (spelled.reads.no_operator [' '] (by simp [space]) rest)
    exact ⟨_, [' '], by simp [space], shorter, found⟩
  | true =>
    have spaced : ∀ d ∈ [' ', c, ' ', '-'], isBlank d = true ∨ Lexeme.isOperator d = true := by
      simp [space, operator, minus]
    obtain ⟨shorter, found⟩ := Lexeme.operators_append spaced rfl minus
      (spelled.reads.no_operator [] (by simp) rest)
    exact ⟨_, [], by simp, shorter, found⟩

/-- Where no operator stands, a row has ended. -/
theorem following_ended {text after : List Char} (none : Lexeme.operators text = none)
    {found : List (List Char × Clause)}
    (reached : Reaches (Scan.following (source.clause inner) text) found after) :
    found = [] ∧ after = text := by
  rcases Source.following_found reached with ⟨_, rfl, rfl⟩ | ⟨_, _, _, _, some, _⟩
  · exact ⟨rfl, rfl⟩
  · cases none.symm.trans some

/-- The rest of a row is read with the dice that it has. -/
theorem following_keepsMarks {row : List (Operator × Clause)}
    (spelled : ∀ next ∈ row, ∃ negative body, next.2.Spelled source inner negative body)
    {rest after : List Char} (ends : EndsExpression rest) {found : List (List Char × Clause)}
    (reached : Reaches (Scan.following (source.clause inner) (textBehind row ++ rest)) found after) :
    found.flatMap (·.2.marks) = row.flatMap (·.2.marks) ∧ after = rest ∨ Stuck after := by
  induction row generalizing found with
  | nil =>
    have none : Lexeme.operators rest = none :=
      Lexeme.operators_of_not_operator fun c first => Lexeme.isOperator_of_isClosing (ends c first)
    obtain ⟨rfl, rfl⟩ := following_ended none reached
    exact .inl ⟨rfl, rfl⟩
  | cons next row ih =>
    obtain ⟨op, part⟩ := next
    obtain ⟨negative, body, here⟩ := spelled _ List.mem_cons_self
    obtain ⟨operators, gap, blank, _, taken⟩ := operators_spelled op here (textBehind row ++ rest)
    have text : textBehind ((op, part) :: row) ++ rest = ' ' :: (op.symbol.toList ++
        ' ' :: (part.canonical.raw.toList ++ (textBehind row ++ rest))) := by
      simp [textBehind]
    rw [text] at reached
    rcases Source.following_found reached with
      ⟨none, _⟩ | ⟨_, other, behind, more, some, first, rfl, later⟩
    · cases taken.symm.trans none
    cases taken.symm.trans some
    obtain ⟨same, rfl | stuck⟩ := here.reads.clause blank (endsClause_textBehind row ends) first
    · rcases ih (fun next member => spelled next (List.mem_cons_of_mem _ member)) later with
        ⟨others, rfl⟩ | stuck
      · refine .inl ⟨?_, rfl⟩
        rw [List.flatMap_cons, List.flatMap_cons, same, others]
      · exact .inr stuck
    · obtain ⟨_, rfl⟩ := following_ended stuck.no_operators later
      exact .inr stuck

theorem tree_spelled (keeps : ReadsInside inner) {tree : Tree Clause}
    (clear : TreeThroughout Clause.IsClear tree) : tree.IsSpelled source inner := by
  obtain ⟨first, others⟩ := (treeThroughout_iff tree).1 clear
  exact ⟨clause_spelled source inner keeps _ first,
    fun next member => clause_spelled source inner keeps _ (others next member)⟩

/-- The sign in front of a tree is read before its first clause. -/
theorem splitSigns_spelled {part : Clause} {negative : Bool} {body : List Char}
    (spelled : part.Spelled source inner negative body) {gap : List Char}
    (blank : ∀ c ∈ gap, isBlank c = true) (rest : List Char) :
    Lexeme.splitSigns (gap ++ (part.canonical.raw.toList ++ rest)) =
      ((gap ++ signText negative).filter isSign, body ++ rest) := by
  rw [spelled.text, List.append_assoc, ← List.append_assoc gap, Lexeme.splitSigns_append]
  · intro c member
    rcases List.mem_append.1 member with member | member
    · exact .inl (blank c member)
    · exact .inr (isSign_of_mem_signText member)
  · obtain ⟨c, others, rfl, visible, _, _, sign⟩ := spelled.reads.begins
    rintro d ⟨⟩
    exact ⟨visible, sign⟩

/-- A tree is read with the dice that it has, if its clauses are. -/
theorem expression_keepsMarks {tree : Tree Clause} (clauses : tree.IsSpelled source inner) :
    (source.expression (source.clause inner)).KeepsMarks tree := by
  intro gap rest found after blank ends finds
  obtain ⟨⟨negative, body, spelled⟩, others⟩ := clauses
  obtain ⟨first, behind, more, begun, reached, made⟩ := Source.expression_found finds
  rw [raw_canonicalTree, List.append_assoc, splitSigns_spelled spelled blank] at begun made
  obtain ⟨same, rfl | stuck⟩ := spelled.reads.clause no_blanks
    (endsClause_textBehind tree.row.2 ends) begun
  · rcases following_keepsMarks others ends reached with ⟨behind, rfl⟩ | stuck
    · refine .inl ⟨?_, rfl⟩
      rw [Run.tree_marks made, treeMarks_eq, same, behind]
    · exact .inr stuck
  · obtain ⟨_, rfl⟩ := following_ended stuck.no_operators reached
    exact .inr stuck

end

/-- However deep brackets may be nested, what is in them is read with the dice that it has. -/
theorem expressionAt_inside (source : Source) (levels : Nat) : ∃ inner,
    source.expressionAt levels = source.expression (source.clause inner) ∧ ReadsInside inner := by
  induction levels with
  | zero =>
    refine ⟨none, source.expressionAt_eq 0, fun read given => ?_⟩
    cases given
  | succ levels ih =>
    obtain ⟨inner, is, keeps⟩ := ih
    refine ⟨some (source.expressionAt levels), source.expressionAt_eq _, ?_⟩
    intro read given tree clear
    cases given
    rw [is]
    exact expression_keepsMarks (tree_spelled keeps clear)

/-- If the canonical text of a tree can be parsed, its dice are those of the tree, in the same
order. -/
theorem parse_marks {tree : Tree Clause} {source : Source}
    (spelled : ∀ inner, ReadsInside inner → tree.IsSpelled source inner)
    (text : source.text = (canonicalTree tree).raw.toList) {found : Tree Clause}
    (parsed : source.parse = .ok found) : treeMarks found = treeMarks tree := by
  obtain ⟨rest, finds, ended⟩ := Source.parse_found parsed
  obtain ⟨inner, is, keeps⟩ := expressionAt_inside source source.maxNesting
  have nothing : EndsExpression [] := fun _ first => nomatch first
  have whole : source.text = [] ++ ((canonicalTree tree).raw.toList ++ []) := by
    rw [text, List.append_nil, List.nil_append]
  rw [whole, is] at finds
  rcases expression_keepsMarks (spelled inner keeps) [] [] found rest no_blanks nothing finds with
    ⟨same, _⟩ | stuck
  · exact same
  · rw [stuck.skipBlanks] at ended
    subst ended
    cases stuck

end DiceNotation
