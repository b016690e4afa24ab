import DiceNotation.Dice.Comparator
import DiceNotation.Fault
import DiceNotation.Text.Classes
import DiceNotation.Text.Letter
import DiceNotation.Text.LowerCase

namespace DiceNotation

/-!
# Modifier commands

The modifiers of dice and pools are written one after another without blanks,
as in `kh3x6ro<2`.  A command is a code of letters with an optional target,
before which a comparison may stand, or a bare comparison.  The scanner of
formulas and the splitter of modifier texts cut commands by the same rule,
`readCommand`.
-/

namespace Command

/-- Whether a character can be part of a comparison. -/
def isMark (c : Char) : Bool := c == '<' || c == '>' || c == '='

/-- One or two comparison marks with a number behind them, and what follows. -/
def readComparison (text : List Char) : Option (List Char × List Char) :=
  let marks := text.takeWhile isMark
  let after := text.dropWhile isMark
  let digits := after.takeWhile Text.isDigit
  if (marks.length == 1 || marks.length == 2) && !digits.isEmpty then
    some (marks ++ digits, after.dropWhile Text.isDigit)
  else none

/-- The command that a text begins with, which may be empty, and what follows. -/
def readCommand (text : List Char) : List Char × List Char :=
  let letters := text.takeWhile Text.isBasicLetter
  let after := text.dropWhile Text.isBasicLetter
  match readComparison after with
  | some (comparison, rest) => (letters ++ comparison, rest)
  | none => (letters ++ after.takeWhile Text.isDigit, after.dropWhile Text.isDigit)

theorem readComparison_append {text comparison rest : List Char}
    (h : readComparison text = some (comparison, rest)) : comparison ++ rest = text := by
  simp only [readComparison] at h
  split at h
  · simp only [Option.some.injEq, Prod.mk.injEq] at h
    obtain ⟨rfl, rfl⟩ := h
    simp [List.append_assoc, List.takeWhile_append_dropWhile]
  · simp at h

theorem readCommand_append (text : List Char) :
    (readCommand text).1 ++ (readCommand text).2 = text := by
  simp only [readCommand]
  split
  · rename_i comparison rest h
    rw [List.append_assoc, readComparison_append h, List.takeWhile_append_dropWhile]
  · simp [List.append_assoc, List.takeWhile_append_dropWhile]

theorem length_readCommand_lt (text : List Char) (taken : (readCommand text).1 ≠ []) :
    (readCommand text).2.length < text.length := by
  have whole := congrArg List.length (readCommand_append text)
  rw [List.length_append] at whole
  have positive := List.length_pos_iff.2 taken
  omega

/-- Whether a command can stand in a formula behind dice or a pool: it is not
empty and no bare number. -/
def isAttached (command : List Char) : Bool :=
  match command with
  | [] => false
  | c :: _ => !Text.isDigit c

/-- The commands that a text begins with, as one stretch, and what follows. -/
def readRun (text : List Char) : List Char × List Char :=
  if _attached : isAttached (readCommand text).1 = true then
    let more := readRun (readCommand text).2
    ((readCommand text).1 ++ more.1, more.2)
  else ([], text)
termination_by text.length
decreasing_by
  apply length_readCommand_lt
  intro empty
  simp [empty, isAttached] at _attached

theorem readRun_append (text : List Char) : (readRun text).1 ++ (readRun text).2 = text := by
  fun_induction readRun text with
  | case1 text attached more ih => rw [List.append_assoc, ih, readCommand_append]
  | case2 text attached => rfl

theorem length_readRun_le (text : List Char) : (readRun text).2.length ≤ text.length := by
  have whole := congrArg List.length (readRun_append text)
  rw [List.length_append] at whole
  omega

/-- Whether a text is a counting code that a comparison before it belongs to. -/
def isCountingCode (text : List Char) : Bool :=
  let word := Text.lower text
  word == ['c', 's'] || word == ['c', 'f']

/-- A command, and the counting code right behind it if the command is a bare
comparison. -/
def joinCounting (command rest : List Char) : List Char × List Char :=
  if (command.head?.map isMark).getD false && isCountingCode (readCommand rest).1 then
    (command ++ (readCommand rest).1, (readCommand rest).2)
  else (command, rest)

theorem length_joinCounting_le (command rest : List Char) :
    (joinCounting command rest).2.length ≤ rest.length := by
  simp only [joinCounting]
  split
  · have whole := congrArg List.length (readCommand_append rest)
    rw [List.length_append] at whole
    simp only
    omega
  · exact Nat.le_refl _

/-- Cuts a text into commands.  A stretch that begins no command goes up to
the next letter and is kept as a fragment of its own. -/
def split (text : List Char) : List (List Char) :=
  match text with
  | [] => []
  | c :: tail =>
    if _none : (readCommand (c :: tail)).1 = [] then
      (c :: tail.takeWhile (!Text.isLetter ·)) :: split (tail.dropWhile (!Text.isLetter ·))
    else
      let joined := joinCounting (readCommand (c :: tail)).1 (readCommand (c :: tail)).2
      joined.1 :: split joined.2
termination_by text.length
decreasing_by
  · have shorter := (List.dropWhile_sublist (l := tail) (!Text.isLetter ·)).length_le
    simp only [List.length_cons]
    omega
  · have shorter := length_readCommand_lt (c :: tail) _none
    have joined := length_joinCounting_le (readCommand (c :: tail)).1 (readCommand (c :: tail)).2
    omega

/-- The commands of a modifier text. -/
def splitText (text : String) : List String := (split text.toList).map String.ofList

end Command

/-- One modifier: its code in lower case and what is written behind it. -/
structure Command where
  raw : String
  name : String
  comparator : Option Comparator := none
  target : Option Int := none
  deriving DecidableEq, Repr

namespace Command

/-- Whether nothing is left of a command but perhaps one line end. -/
def isEnd (rest : List Char) : Bool := rest == [] || rest == ['\n']

/-- The parts of a command: letters, comparison marks and digits. -/
structure Parts where
  name : List Char
  marks : List Char
  digits : List Char
  deriving DecidableEq, Repr

/-- Letters, then perhaps a target with a comparison before it. -/
def leadingParts (text : List Char) : Option Parts :=
  let name := text.takeWhile Text.isBasicLetter
  let after := text.dropWhile Text.isBasicLetter
  let marks := after.takeWhile isMark
  let digits := (after.dropWhile isMark).takeWhile Text.isDigit
  let rest := (after.dropWhile isMark).dropWhile Text.isDigit
  if !isEnd rest then none
  else if digits.isEmpty then if marks.isEmpty then some ⟨name, [], []⟩ else none
  else if marks.length ≤ 2 then some ⟨name, marks, digits⟩
  else none

/-- A comparison with its target, and then a counting code. -/
def trailingParts (text : List Char) : Option Parts :=
  let marks := text.takeWhile isMark
  let after := text.dropWhile isMark
  let digits := after.takeWhile Text.isDigit
  match after.dropWhile Text.isDigit with
  | c :: s :: rest =>
    let counting := (c == 'c' || c == 'C') &&
      (s == 's' || s == 'S' || s == '\u017f' || s == 'f' || s == 'F')
    if counting && isEnd rest && !digits.isEmpty && (marks.length == 1 || marks.length == 2) then
      some ⟨[c, s], marks, digits⟩
    else none
  | _ => none

/-- Reads one command of the term with the given formula. -/
def parse (raw term : String) : Except Fault Command :=
  match (leadingParts raw.toList).or (trailingParts raw.toList) with
  | none => .error (.modifier .malformed term raw)
  | some parts =>
    let name := String.ofList (Text.lower parts.name)
    let target : Option Int :=
      if parts.digits.isEmpty then none else some (Text.natOfDigits parts.digits)
    if parts.marks.isEmpty then .ok { raw := raw, name := name, target := target }
    else
      let marks := String.ofList parts.marks
      match Comparator.ofText? marks with
      | some c => .ok { raw := raw, name := name, comparator := some c, target := target }
      | none => .error (.modifier (.unknownComparator marks) term raw)

/-- Reads one command that should be a text. -/
def ofData (raw : Json) (term : String) : Except Fault Command :=
  match raw with
  | .string text => parse text term
  | _ => .error .wrongKind

/-- The commands of modifiers given as a text, as a list, or as the names of a
record.  What does not count as set is left out; whether the rest are commands
shows when they are carried out. -/
def listOfData : Json → Except Fault (List Json)
  | .string text => .ok ((splitText text).map .string)
  | modifiers =>
    if modifiers.isSet then (modifiers.elements).map (·.filter Json.isSet) else .ok []

end Command

/-- Compares by a comparison given as text. -/
def compareBy (symbol : String) (value target : Json) : Except Fault Bool :=
  match Comparator.ofText? symbol with
  | some c => c.holds value target
  | none => .error (.modifier (.unknownComparator symbol) "" "")

end DiceNotation
