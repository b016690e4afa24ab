import DiceNotation.Dice.Command
import DiceNotation.Dice.Kind
import DiceNotation.Formula.Clause
import DiceNotation.Text.Find

namespace DiceNotation

/-!
# Lexemes of a formula

What the scanner reads without looking into brackets: signs, rows of
operators, numbers, names, words, modifiers and flavors.  A place in the
formula is given by the text that is left from there on.  Every reader returns
the rest together with the reason why it is not longer than the text, or why
it is strictly shorter.
-/

/-- What was read at the beginning of `text`, if anything, and what is left. -/
structure Reached (α : Type) (text : List Char) where
  value : α
  rest : List Char
  within : rest.length ≤ text.length

/-- What was read at the beginning of `text`, and the shorter text that is left. -/
structure Scanned (α : Type) (text : List Char) where
  value : α
  rest : List Char
  shorter : rest.length < text.length

/-- The text between two places. -/
def textBetween (start stop : List Char) : String := String.ofList (Text.stretch start stop)

namespace Lexeme

/-- Whether a character is one of the five operators. -/
def isOperator (c : Char) : Bool := (Operator.ofChar? c).isSome

/-- Whether a character is the die sign. -/
def isDieSign (c : Char) : Bool := c == 'd' || c == 'D'

theorem length_dropWhile_le (p : Char → Bool) (text : List Char) :
    (text.dropWhile p).length ≤ text.length :=
  (List.dropWhile_sublist _).length_le

theorem length_dropWhile_cons_lt (p : Char → Bool) (c : Char) (rest : List Char)
    (first : p c = true) : ((c :: rest).dropWhile p).length < (c :: rest).length := by
  have := length_dropWhile_le p rest
  simp only [List.dropWhile_cons, first, if_true, List.length_cons]
  omega

/-- Leading signs with the blanks among and behind them. -/
def splitSigns : List Char → List Char × List Char
  | [] => ([], [])
  | c :: rest =>
    if isSign c then (c :: (splitSigns rest).1, (splitSigns rest).2)
    else if Text.isBlank c then splitSigns rest
    else ([], c :: rest)

theorem length_splitSigns_le (text : List Char) : (splitSigns text).2.length ≤ text.length := by
  fun_induction splitSigns text with
  | case1 => exact Nat.le_refl _
  | case2 c rest sign ih => exact Nat.le_succ_of_le ih
  | case3 c rest sign blank ih => exact Nat.le_succ_of_le ih
  | case4 c rest sign blank => exact Nat.le_refl _

/-- The leading signs of an expression. -/
def signs (text : List Char) : Reached (List Char) text :=
  ⟨(splitSigns text).1, (splitSigns text).2, length_splitSigns_le text⟩

/-- Operators with blanks among them.  Blanks behind the last operator are not
taken: the rest is then the place right behind it. -/
def splitOperators (place : List Char) : List Char → List Char × List Char
  | [] => ([], place)
  | c :: rest =>
    if isOperator c then (c :: (splitOperators rest rest).1, (splitOperators rest rest).2)
    else if Text.isBlank c then splitOperators place rest
    else ([], place)

theorem length_splitOperators_le (place text : List Char) (inside : text.length ≤ place.length) :
    (splitOperators place text).2.length ≤ place.length := by
  fun_induction splitOperators place text with
  | case1 place => exact Nat.le_refl _
  | case2 place c rest operator ih =>
    have := ih (Nat.le_refl _)
    simp only [List.length_cons] at inside ⊢
    omega
  | case3 place c rest operator blank ih =>
    exact ih (Nat.le_of_succ_le inside)
  | case4 place c rest operator blank => exact Nat.le_refl _

theorem length_splitOperators_lt (place text : List Char) (inside : text.length ≤ place.length)
    (taken : (splitOperators place text).1 ≠ []) :
    (splitOperators place text).2.length < place.length := by
  fun_induction splitOperators place text with
  | case1 place => exact absurd rfl taken
  | case2 place c rest operator ih =>
    have := length_splitOperators_le rest rest (Nat.le_refl _)
    simp only [List.length_cons] at inside ⊢
    omega
  | case3 place c rest operator blank ih =>
    exact ih (Nat.le_of_succ_le inside) taken
  | case4 place c rest operator blank => exact absurd rfl taken

/-- The row of operators before the next clause, if there is one. -/
def operators (text : List Char) : Option (Scanned (List Char) text) :=
  if taken : (splitOperators text text).1 = [] then none
  else some ⟨(splitOperators text text).1, (splitOperators text text).2,
    length_splitOperators_lt text text (Nat.le_refl _) taken⟩

/-- A flavor with the blanks before it, and what follows. -/
def splitFlavor (text : List Char) : Option String × List Char :=
  match Text.skipBlanks text with
  | '[' :: more =>
    match more.dropWhile (· != ']') with
    | _ :: rest => (some (String.ofList (more.takeWhile (· != ']'))), rest)
    | [] => (none, text)
  | _ => (none, text)

theorem length_splitFlavor_le (text : List Char) :
    (splitFlavor text).2.length ≤ text.length := by
  have skipped := Text.length_skipBlanks_le text
  simp only [splitFlavor]
  split
  · rename_i more opened
    rw [opened, List.length_cons] at skipped
    split
    · rename_i mark rest closed
      have dropped := length_dropWhile_le (· != ']') more
      rw [closed, List.length_cons] at dropped
      simp only
      omega
    · exact Nat.le_refl _
  · exact Nat.le_refl _

/-- The flavor of a clause, if there is one. -/
def flavor (text : List Char) : Reached (Option String) text :=
  ⟨(splitFlavor text).1, (splitFlavor text).2, length_splitFlavor_le text⟩

/-- The modifiers of dice or of a pool, which may be empty. -/
def modifiers (text : List Char) : Reached (List Char) text :=
  ⟨(Command.readRun text).1, (Command.readRun text).2, Command.length_readRun_le text⟩

/-- Digits, with a point and places if there are any, and what follows. -/
def splitNumber (text : List Char) : List Char × List Char :=
  let whole := text.takeWhile Text.isDigit
  match text.dropWhile Text.isDigit with
  | '.' :: more =>
    let places := more.takeWhile Text.isDigit
    if places.isEmpty then (whole, '.' :: more)
    else (whole ++ '.' :: places, more.dropWhile Text.isDigit)
  | after => (whole, after)

theorem length_splitNumber_le (text : List Char) :
    (splitNumber text).2.length ≤ (text.dropWhile Text.isDigit).length := by
  simp only [splitNumber]
  split
  · rename_i more point
    rw [point]
    split
    · exact Nat.le_refl _
    · exact Nat.le_succ_of_le (length_dropWhile_le Text.isDigit more)
  · exact Nat.le_refl _

/-- The number at the beginning of a text, whose first character is a digit. -/
def number (c : Char) (rest : List Char) (first : Text.isDigit c = true) :
    Scanned (List Char) (c :: rest) :=
  ⟨(splitNumber (c :: rest)).1, (splitNumber (c :: rest)).2,
    Nat.lt_of_le_of_lt (length_splitNumber_le _) (length_dropWhile_cons_lt _ c rest first)⟩

/-- The whole number at the beginning of a text, whose first character is a digit. -/
def wholeNumber (c : Char) (rest : List Char) (first : Text.isDigit c = true) :
    Scanned (List Char) (c :: rest) :=
  ⟨(c :: rest).takeWhile Text.isDigit, (c :: rest).dropWhile Text.isDigit,
    length_dropWhile_cons_lt _ c rest first⟩

/-- Whether a number has a point. -/
def hasPoint (digits : List Char) : Bool := digits.contains '.'

/-- The number that digits with or without a point denote. -/
def numberValue (digits : List Char) : Number :=
  match digits.dropWhile (· != '.') with
  | _ :: places =>
    let whole := digits.takeWhile (· != '.')
    .real (Number.realOfDecimal (Text.natOfDigits (whole ++ places)) (-(places.length : Int)))
  | [] => .int (Text.natOfDigits digits)

/-- Whether a character may begin a function name. -/
def beginsName (c : Char) : Bool := Text.isBasicLetter c || c == '_'

/-- Whether a character may stand in a function name. -/
def insideName (c : Char) : Bool := beginsName c || Text.isBasicDigit c

/-- The name of a function.  The rest begins with the bracket of its arguments. -/
def functionName (c : Char) (rest : List Char) : Option (Scanned (List Char) (c :: rest)) :=
  if first : beginsName c = true then
    let name := (c :: rest).takeWhile insideName
    let after := Text.skipBlanks ((c :: rest).dropWhile insideName)
    if after.head? == some '(' && Text.lower name != ['d'] then
      some ⟨name, after, by
        have skipped := Text.length_skipBlanks_le ((c :: rest).dropWhile insideName)
        have dropped := length_dropWhile_cons_lt insideName c rest (by simp [insideName, first])
        exact Nat.lt_of_le_of_lt skipped dropped⟩
    else none
  else none

/-- Whether a character can be part of a word. -/
def insideWord (c : Char) : Bool :=
  !Text.isBlank c && !isOperator c && c != '(' && c != ')' && c != '\x7b' && c != '\x7d' &&
    c != ',' && c != '[' && c != ']'

/-- A word: text that is nothing else. -/
def word (c : Char) (rest : List Char) : Option (Scanned (List Char) (c :: rest)) :=
  if first : insideWord c = true then
    some ⟨(c :: rest).takeWhile insideWord, (c :: rest).dropWhile insideWord,
      length_dropWhile_cons_lt _ c rest first⟩
  else none

/-- Whether a die sign begins dice and not a word, by what stands behind it: a
digit, a bracket, or a letter for the faces that is followed by no letters or
by a modifier of those dice. -/
def opensDice : List Char → Bool
  | [] => false
  | c :: rest =>
    if Text.isDigitLike c || c == '(' then true
    else
      match DieKind.ofLetter? (String.ofList (Text.lowerChar c)) with
      | none => false
      | some kind =>
        let letters := rest.takeWhile Text.isBasicLetter
        letters.isEmpty || (kind.actions.action? (String.ofList (Text.lower letters))).isSome

end Lexeme
end DiceNotation
