import DiceNotation.Proofs.Dice.Commands
import DiceNotation.Proofs.Formula.Found

namespace DiceNotation

open Text

/-!
# What a text opens and closes

Brackets nest in a formula, and a flavor ends at the first square bracket that closes,
whatever stands in it.  One pass over a text, from the left, therefore tells which brackets
are open behind it and whether a flavor is.  A text is closed if all that it opens is
closed in it and if it neither closes anything else nor has a comma outside of brackets.

Whatever a reader of the scanner has read is closed.  Hence an opened bracket is always
closed where the count of brackets says so, no matter what the text in it means.
-/

/-- What a character means for the brackets of a text. -/
inductive BracketMark where
  | opening
  | closing
  | comma
  | flavor
  | flavorEnd
  | other
  deriving DecidableEq, Repr

def BracketMark.of (c : Char) : BracketMark :=
  if c == '(' || c == '\x7b' then opening
  else if c == ')' || c == '\x7d' then closing
  else if c == ',' then comma
  else if c == '[' then flavor
  else if c == ']' then flavorEnd
  else other

namespace BracketMark

theorem eq_of_flavor {c : Char} (mark : of c = flavor) : c = '[' := by
  unfold of at mark
  grind

theorem eq_of_flavorEnd {c : Char} (mark : of c = flavorEnd) : c = ']' := by
  unfold of at mark
  grind

/-- The characters that have a meaning for brackets. -/
def characters : List Char := ['(', '\x7b', ')', '\x7d', ',', '[', ']']

theorem mem_characters {c : Char} (mark : of c ≠ other) : c ∈ characters := by
  unfold of at mark
  simp only [characters, List.mem_cons, List.not_mem_nil, or_false]
  grind

/-- The classes by which readers tell the other characters apart. -/
def classes : List (Char → Bool) := isBlank :: isSign :: Lexeme.isOperator :: lexemeClasses

theorem outside_of_class : ∀ p ∈ classes, ∀ c ∈ characters, p c = false := by
  have outside : (classes.all fun p => characters.all fun c => !p c) = true := by
    decide +kernel
  intro p known c member
  simpa using List.all_eq_true.1 (List.all_eq_true.1 outside p known) c member

/-- The characters of a class have no meaning for brackets. -/
theorem other_of_class {p : Char → Bool} (known : p ∈ classes) {c : Char} (inside : p c = true) :
    of c = other := by
  by_contra mark
  cases inside.symm.trans (outside_of_class p known c (mem_characters mark))

end BracketMark

/-- What is open behind a text: brackets, and perhaps a flavor.  A text is broken if it
closes what it has not opened, or has a comma where no bracket is open. -/
inductive Opening where
  | outside (depth : Nat)
  | inFlavor (depth : Nat)
  | broken
  deriving DecidableEq, Repr

namespace Opening

/-- What is open behind one more character. -/
def next : Opening → BracketMark → Opening
  | outside depth, .opening => outside (depth + 1)
  | outside (depth + 1), .closing => outside depth
  | outside (depth + 1), .comma => outside (depth + 1)
  | outside 0, .closing | outside 0, .comma => broken
  | outside depth, .flavor => inFlavor depth
  | outside depth, .flavorEnd | outside depth, .other => outside depth
  | inFlavor depth, .flavorEnd => outside depth
  | inFlavor depth, _ => inFlavor depth
  | broken, _ => broken

/-- What is open behind a text. -/
def after (opening : Opening) (text : List Char) : Opening :=
  text.foldl (fun opening c => opening.next (.of c)) opening

theorem after_cons (opening : Opening) (c : Char) (text : List Char) :
    opening.after (c :: text) = (opening.next (.of c)).after text := rfl

theorem after_append (opening : Opening) (front back : List Char) :
    opening.after (front ++ back) = (opening.after front).after back :=
  List.foldl_append

/-- What is broken stays so. -/
theorem after_broken (text : List Char) : broken.after text = broken := by
  induction text with
  | nil => rfl
  | cons c text ih => exact ih

/-- Characters without a meaning for brackets open and close nothing. -/
theorem after_of_other {text : List Char} (others : ∀ c ∈ text, BracketMark.of c = .other)
    (opening : Opening) : opening.after text = opening := by
  induction text with
  | nil => rfl
  | cons c text ih =>
    obtain ⟨first, later⟩ := List.forall_mem_cons.1 others
    have same : opening.next .other = opening := by
      rcases opening with depth | depth | _
      · cases depth <;> rfl
      · rfl
      · rfl
    rw [after_cons, first, same]
    exact ih later

/-- A flavor lasts as long as no square bracket closes it. -/
theorem after_inFlavor {text : List Char} (inside : ']' ∉ text) (depth : Nat) :
    (inFlavor depth).after text = inFlavor depth := by
  induction text with
  | nil => rfl
  | cons c text ih =>
    rw [List.mem_cons, not_or] at inside
    have stays : (inFlavor depth).next (.of c) = inFlavor depth := by
      cases mark : BracketMark.of c with
      | flavorEnd => exact absurd (BracketMark.eq_of_flavorEnd mark).symm inside.1
      | _ => rfl
    rw [after_cons, stays]
    exact ih inside.2

end Opening

/-- Whether a text closes what it opens and nothing else, and has no comma outside of
brackets. -/
def IsClosed (text : List Char) : Prop := (Opening.outside 0).after text = .outside 0

instance (text : List Char) : Decidable (IsClosed text) :=
  inferInstanceAs (Decidable (_ = _))

/-- What was read between two places leaves open what is open before it. -/
def Encloses (text rest : List Char) : Prop :=
  ∃ read, (∀ depth, (Opening.outside depth).after read = .outside depth) ∧ text = read ++ rest

namespace Encloses

variable {text place rest : List Char}

theorem refl (text : List Char) : Encloses text text := ⟨[], fun _ => rfl, rfl⟩

theorem trans (first : Encloses text place) (second : Encloses place rest) :
    Encloses text rest := by
  obtain ⟨read, closed, rfl⟩ := first
  obtain ⟨more, later, rfl⟩ := second
  refine ⟨read ++ more, fun depth => ?_, (List.append_assoc ..).symm⟩
  rw [Opening.after_append, closed, later]

theorem length_le (encloses : Encloses text rest) : rest.length ≤ text.length := by
  obtain ⟨read, _, rfl⟩ := encloses
  simp

theorem of_others {read : List Char} (others : ∀ c ∈ read, BracketMark.of c = .other)
    (rest : List Char) : Encloses (read ++ rest) rest :=
  ⟨read, fun _ => Opening.after_of_other others _, rfl⟩

theorem cons {c : Char} (other : BracketMark.of c = .other) (rest : List Char) :
    Encloses (c :: rest) rest :=
  of_others (List.forall_mem_singleton.2 other) rest

theorem cons_of_class {p : Char → Bool} (known : p ∈ BracketMark.classes) {c : Char}
    (inside : p c = true) (rest : List Char) : Encloses (c :: rest) rest :=
  cons (BracketMark.other_of_class known inside) rest

/-- A stretch of characters without a meaning for brackets. -/
theorem dropWhile {p : Char → Bool} (known : p ∈ BracketMark.classes)
    (text : List Char) : Encloses text (text.dropWhile p) := by
  have others : ∀ c ∈ text.takeWhile p, BracketMark.of c = .other := fun c member =>
    BracketMark.other_of_class known (List.mem_takeWhile_imp member)
  have whole := of_others others (text.dropWhile p)
  rwa [List.takeWhile_append_dropWhile] at whole

/-- What stands between brackets, with the brackets. -/
theorem brackets {opening closing : Char} (opens : BracketMark.of opening = .opening)
    (closes : BracketMark.of closing = .closing) {inside : List Char}
    (closed : ∀ depth, (Opening.outside (depth + 1)).after inside = .outside (depth + 1))
    (rest : List Char) : Encloses (opening :: (inside ++ closing :: rest)) rest := by
  refine ⟨opening :: (inside ++ [closing]), fun depth => ?_, by simp⟩
  rw [Opening.after_cons, opens, Opening.after_append]
  change (((Opening.outside (depth + 1)).after inside).next (.of closing)) = _
  rw [closed, closes]
  rfl

/-- A closed text ends at the first place where what follows would break it. -/
theorem eq_of_isClosed {c d : Char} {back : List Char} (closed : IsClosed text)
    (ends : (Opening.outside 0).next (.of c) = .broken)
    (stops : (Opening.outside 0).next (.of d) = .broken)
    (encloses : Encloses (text ++ c :: back) (d :: rest)) : c = d ∧ rest = back := by
  -- what is read behind the place would be broken, and so would the text if less were read
  have broken {front : List Char} (whole : (Opening.outside 0).after front = .outside 0) {e : Char}
      (breaks : (Opening.outside 0).next (.of e) = .broken) (more : List Char) :
      (Opening.outside 0).after (front ++ e :: more) ≠ .outside 0 := by
    rw [Opening.after_append, whole, Opening.after_cons, breaks, Opening.after_broken]
    exact Opening.noConfusion
  obtain ⟨read, whole, same⟩ := encloses
  rcases List.append_eq_append_iff.1 same with ⟨more, rfl, left⟩ | ⟨more, rfl, left⟩
  · cases more with
    | nil =>
      cases left
      exact ⟨rfl, rfl⟩
    | cons e more =>
      cases left
      exact absurd (whole 0) (broken closed ends more)
  · cases more with
    | nil =>
      cases left
      exact ⟨rfl, rfl⟩
    | cons e more =>
      cases left
      exact absurd closed (broken (whole 0) stops more)

end Encloses

namespace Text

theorem encloses_skipBlanks (text : List Char) : Encloses text (skipBlanks text) :=
  .dropWhile (by simp [BracketMark.classes, lexemeClasses]) text

end Text

namespace Lexeme

theorem encloses_splitSigns (text : List Char) : Encloses text (splitSigns text).2 := by
  fun_induction splitSigns text with
  | case1 => exact .refl _
  | case2 c rest sign ih =>
    exact (Encloses.cons_of_class (by simp [BracketMark.classes]) sign rest).trans ih
  | case3 c rest sign blank ih =>
    exact (Encloses.cons_of_class (by simp [BracketMark.classes]) blank rest).trans ih
  | case4 c rest sign blank => exact .refl _

theorem encloses_splitOperators {place text start : List Char} (before : Encloses start text)
    (inside : Encloses start place) : Encloses start (splitOperators place text).2 := by
  fun_induction splitOperators place text with
  | case1 place => exact inside
  | case2 place c rest operator ih =>
    have later := before.trans (.cons_of_class (by simp [BracketMark.classes]) operator rest)
    exact ih later later
  | case3 place c rest operator blank ih =>
    exact ih (before.trans (.cons_of_class (by simp [BracketMark.classes]) blank rest)) inside
  | case4 place c rest operator blank => exact inside

theorem encloses_operators {text : List Char} {row : Scanned (List Char) text}
    (found : operators text = some row) : Encloses text row.rest := by
  rw [(operators_found found).2.1]
  exact encloses_splitOperators (.refl text) (.refl text)

theorem encloses_splitFlavor (text : List Char) : Encloses text (splitFlavor text).2 := by
  unfold splitFlavor
  split
  · rename_i more opened
    split
    · rename_i mark rest closed
      have whole := List.takeWhile_append_dropWhile (p := (· != ']')) (l := more)
      have ends : mark = ']' := by
        have outside := Command.head?_dropWhile (p := (· != ']')) more mark (by rw [closed]; rfl)
        simpa using outside
      have inside : ']' ∉ more.takeWhile (· != ']') := fun member => by
        simpa using List.mem_takeWhile_imp member
      rw [closed, ends] at whole
      refine (encloses_skipBlanks text).trans ?_
      rw [opened, ← whole]
      refine ⟨'[' :: (more.takeWhile (· != ']') ++ [']']), fun depth => ?_, by simp⟩
      rw [Opening.after_cons, Opening.after_append]
      change ((Opening.inFlavor depth).after (more.takeWhile (· != ']'))).next (.of ']') = _
      rw [Opening.after_inFlavor inside]
      rfl
    · exact .refl _
  · exact .refl _

theorem encloses_splitNumber (text : List Char) : Encloses text (splitNumber text).2 := by
  have digits (text : List Char) : Encloses text (text.dropWhile isDigit) :=
    .dropWhile (by simp [BracketMark.classes, lexemeClasses]) text
  unfold splitNumber
  simp only
  split
  · rename_i more point
    have whole : Encloses text ('.' :: more) := point ▸ digits text
    split
    · exact whole
    · exact whole.trans ((Encloses.cons (by decide) more).trans (digits more))
  · exact digits text

theorem encloses_functionName {c : Char} {rest : List Char} {name : Scanned (List Char) (c :: rest)}
    (found : functionName c rest = some name) : Encloses (c :: rest) name.rest := by
  rw [(functionName_found found).2.2.1]
  exact (Encloses.dropWhile (by simp [BracketMark.classes, lexemeClasses]) _).trans
    (encloses_skipBlanks _)

theorem encloses_word {c : Char} {rest : List Char} {word : Scanned (List Char) (c :: rest)}
    (found : Lexeme.word c rest = some word) : Encloses (c :: rest) word.rest := by
  rw [(word_found found).2.2]
  exact .dropWhile (by simp [BracketMark.classes, lexemeClasses]) _

end Lexeme

namespace Command

theorem IsRun.others {run : List Char} (isRun : IsRun run) : ∀ c ∈ run, BracketMark.of c = .other := by
  have letters {c : Char} : isBasicLetter c = true → BracketMark.of c = .other :=
    BracketMark.other_of_class (by simp [BracketMark.classes, lexemeClasses])
  have marks {c : Char} : isMark c = true → BracketMark.of c = .other :=
    BracketMark.other_of_class (by simp [BracketMark.classes, lexemeClasses])
  have digits {c : Char} : isDigit c = true → BracketMark.of c = .other :=
    BracketMark.other_of_class (by simp [BracketMark.classes, lexemeClasses])
  induction isRun with
  | nil => exact fun c member => absurd member List.not_mem_nil
  | code _ basic => exact fun c member => letters (basic c member)
  | counted basic comparing _ _ _ decimal _ ih =>
    intro c member
    simp only [List.mem_append] at member
    rcases member with ((letter | mark) | digit) | later
    · exact letters (basic c letter)
    · exact marks (comparing c mark)
    · exact digits (decimal c digit)
    · exact ih c later

theorem encloses_readRun (text : List Char) : Encloses text (readRun text).2 := by
  have whole := Encloses.of_others (isRun_readRun text).others (readRun text).2
  rwa [readRun_append] at whole

end Command

/-! ## Readers -/

/-- Whether a reader of expressions leaves nothing open. -/
def ExpressionReader.Closes (read : ExpressionReader) : Prop :=
  ∀ text tree rest, Finds (read text) tree rest → Encloses text rest

namespace Source

variable {source : Source} {inner : Option ExpressionReader}

/-- The modifiers and the flavor of dice and pools. -/
theorem encloses_trailer (text : List Char) :
    Encloses text (Lexeme.splitFlavor (Command.readRun text).2).2 :=
  (Command.encloses_readRun text).trans (Lexeme.encloses_splitFlavor _)

section

variable (closes : ∀ read, inner = some read → read.Closes)

include closes

theorem encloses_bracketed {rest after : List Char} {tree : Tree Clause}
    (found : Finds (source.bracketed inner '(' rest) tree after) : Encloses ('(' :: rest) after := by
  obtain ⟨read, behind, same, begun, ended⟩ := bracketed_found found
  have blanks := encloses_skipBlanks behind
  rw [ended] at blanks
  obtain ⟨inside, closed, rfl⟩ := (closes read same _ _ _ begun).trans blanks
  exact .brackets rfl rfl (fun depth => closed (depth + 1)) after

end

/-- A list closes all that its expressions open.  Its commas stand in its own brackets. -/
theorem separated_closes {read : ExpressionReader} (closes : read.Closes) {closing : Char}
    {opened text after : List Char} {trees : List (Tree Clause)}
    (found : Finds (source.separated read closing opened text) trees after) :
    ∃ inside, (∀ depth, (Opening.outside (depth + 1)).after inside = .outside (depth + 1)) ∧
      text = inside ++ closing :: after := by
  induction trees generalizing text with
  | nil =>
    obtain ⟨tree, behind, _, ⟨_, _, _, none, _⟩ | ⟨_, _, none⟩⟩ := separated_found found
    · cases none
    · cases none
  | cons tree trees ih =>
    obtain ⟨tree, behind, begun, ⟨next, more, comma, same, later⟩ | ⟨_, ended, _⟩⟩ :=
      separated_found found
    · have blanks := encloses_skipBlanks behind
      rw [comma] at blanks
      obtain ⟨first, closed, rfl⟩ := (closes _ _ _ begun).trans blanks
      cases same
      obtain ⟨inside, nested, rfl⟩ := ih later
      refine ⟨first ++ ',' :: inside, fun depth => ?_, by simp⟩
      rw [Opening.after_append, closed]
      exact nested depth
    · have blanks := encloses_skipBlanks behind
      rw [ended] at blanks
      obtain ⟨inside, closed, rfl⟩ := (closes _ _ _ begun).trans blanks
      exact ⟨inside, fun depth => closed (depth + 1), rfl⟩

section

variable (closes : ∀ read, inner = some read → read.Closes)

include closes

theorem encloses_listed {opening closing : Char} (opens : BracketMark.of opening = .opening)
    (ends : BracketMark.of closing = .closing) {rest after : List Char} {trees : List (Tree Clause)}
    (found : Finds (source.listed inner closing opening rest) trees after) :
    Encloses (opening :: rest) after := by
  obtain ⟨read, same, ⟨ended, _⟩ | ⟨_, later⟩⟩ := listed_found found
  · obtain ⟨inside, closed, whole⟩ := encloses_skipBlanks rest
    rw [whole, ended]
    exact .brackets opens ends (fun depth => closed (depth + 1)) after
  · obtain ⟨blanks, closed, whole⟩ := encloses_skipBlanks rest
    obtain ⟨inside, nested, more⟩ := separated_closes (closes read same) later
    rw [whole, more, ← List.append_assoc]
    refine .brackets opens ends (fun depth => ?_) after
    rw [Opening.after_append, closed, nested]

theorem encloses_faces {text after : List Char} {faces : Faces Clause}
    (found : FacesFound source inner text faces after) : Encloses text after := by
  cases found with
  | bracketed found => exact encloses_bracketed closes found
  | digits first => exact .dropWhile (by simp [BracketMark.classes, lexemeClasses]) _
  | letter _ _ letter =>
    exact .cons_of_class (p := isLetter) (by simp [BracketMark.classes, lexemeClasses]) letter _

theorem encloses_dice {number : Option (Amount Clause)} {start text rest : List Char}
    {clause : Clause} (found : Reaches (source.dice inner number start text) clause rest) :
    Encloses text rest := by
  obtain ⟨_, _, after, _, faces, _, rfl⟩ := dice_found found
  exact (encloses_faces closes faces).trans (encloses_trailer after)

theorem encloses_dieSign {number : Option (Amount Clause)} {start text rest : List Char} {d : Char}
    (sign : Lexeme.isDieSign d = true) {clause : Clause}
    (found : Reaches (source.dice inner number start text) clause rest) :
    Encloses (d :: text) rest :=
  (Encloses.cons_of_class (by simp [BracketMark.classes, lexemeClasses]) sign text).trans
    (encloses_dice closes found)

theorem encloses_wordFound {c : Char} {rest after : List Char} {clause : Clause}
    (found : WordFound source inner c rest clause after) : Encloses (c :: rest) after := by
  cases found with
  | function called opens found =>
    have named := Lexeme.encloses_functionName called
    rw [opens] at named
    exact named.trans ((encloses_listed closes rfl rfl found).trans (Lexeme.encloses_splitFlavor _))
  | dice _ opens found =>
    exact encloses_dieSign closes (Bool.and_eq_true_iff.1 opens).1 found
  | word _ _ found =>
    exact (Lexeme.encloses_word found).trans (Lexeme.encloses_splitFlavor _)

theorem encloses_clauseFound {c : Char} {rest after : List Char} {clause : Clause}
    (found : ClauseFound source inner c rest clause after) : Encloses (c :: rest) after := by
  cases found with
  | bracket found =>
    obtain ⟨_, behind, inside, ⟨d, more, rfl, sign, die⟩ | ⟨_, _, rfl⟩⟩ := bracketClause_found found
    · exact (encloses_bracketed closes inside).trans (encloses_dieSign closes sign die)
    · exact (encloses_bracketed closes inside).trans (Lexeme.encloses_splitFlavor _)
  | pool found =>
    obtain ⟨_, behind, inside, _, _, rfl⟩ := poolClause_found found
    exact (encloses_listed closes rfl rfl inside).trans (encloses_trailer behind)
  | number first found =>
    have digits := Lexeme.encloses_splitNumber (c :: rest)
    rcases numberClause_found found with ⟨d, more, behind, sign, _, die⟩ | ⟨_, _, rfl⟩
    · rw [behind] at digits
      exact digits.trans (encloses_dieSign closes sign die)
    · exact digits.trans (Lexeme.encloses_splitFlavor _)
  | word _ _ _ found => exact encloses_wordFound closes found

theorem encloses_clause {text after : List Char} {clause : Clause}
    (found : Finds (source.clause inner text) clause after) : Encloses text after := by
  obtain ⟨c, rest, begun, found⟩ := clause_found found
  exact (encloses_skipBlanks text).trans (begun ▸ encloses_clauseFound closes found)

theorem encloses_following {text after : List Char} {more : List (List Char × Clause)}
    (found : Reaches (Scan.following (source.clause inner) text) more after) :
    Encloses text after := by
  induction more generalizing text with
  | nil =>
    obtain ⟨_, _, rfl⟩ | ⟨_, _, _, _, _, _, none, _⟩ := following_found found
    · exact .refl _
    · cases none
  | cons next more ih =>
    obtain ⟨_, none, _⟩ | ⟨row, next, behind, more, some, begun, same, later⟩ :=
      following_found found
    · cases none
    · cases same
      exact (Lexeme.encloses_operators some).trans ((encloses_clause closes begun).trans (ih later))

theorem closes_expression : (source.expression (source.clause inner)).Closes := by
  intro text tree rest found
  obtain ⟨first, behind, more, begun, continues, _⟩ := expression_found found
  exact (Lexeme.encloses_splitSigns text).trans
    ((encloses_clause closes begun).trans (encloses_following closes continues))

end

/-- Whatever is read at any level leaves nothing open. -/
theorem closes_expressionAt (levels : Nat) : (source.expressionAt levels).Closes := by
  induction levels with
  | zero =>
    refine closes_expression ?_
    rintro read ⟨⟩
  | succ levels ih =>
    refine closes_expression ?_
    rintro read ⟨⟩
    exact ih

/-- A formula that can be read is closed. -/
theorem isClosed_of_parse {tree : Tree Clause} (parsed : source.parse = .ok tree) :
    IsClosed source.text := by
  obtain ⟨rest, found, ended⟩ := parse_found parsed
  have blanks := encloses_skipBlanks rest
  rw [ended] at blanks
  obtain ⟨read, closed, same⟩ := (closes_expressionAt _ _ _ _ found).trans blanks
  rw [same, List.append_nil]
  exact closed 0

end Source
end DiceNotation
