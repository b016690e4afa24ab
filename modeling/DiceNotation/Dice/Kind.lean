namespace DiceNotation

/-!
# Kinds of dice

Numbered dice have the faces one to a given number.  A coin shows one for
heads and zero for tails, and a fate die shows minus one, zero or one; both
are written with a letter in place of the number of faces.  Dice of the plain
kind have numbered faces but no modifiers.
-/

/-- What a modifier does to the results of dice or of a pool. -/
inductive Action where
  /-- Roll matching results again, until none matches or only once. -/
  | reroll (once : Bool)
  /-- Add one result for each matching one, repeatedly or only once. -/
  | explode (once : Bool)
  | keep
  | drop
  | countSuccesses
  | countFailures
  | deductFailures
  /-- Count the odd results, or the even ones. -/
  | countParity (odd : Bool)
  /-- Count the flips that land on the called side. -/
  | call
  deriving DecidableEq, Repr

/-- Modifier codes with what they do. -/
abbrev ActionTable := List (String × Action)

namespace ActionTable

/-- The codes that keep or drop results. -/
def selection : ActionTable :=
  [("k", .keep), ("kh", .keep), ("kl", .keep), ("d", .drop), ("dh", .drop), ("dl", .drop)]

/-- The codes that count results.  A bare comparison has the empty code. -/
def counting : ActionTable :=
  [("", .countSuccesses), ("cs", .countSuccesses), ("cf", .countFailures),
    ("df", .deductFailures), ("f", .deductFailures)]

/-- The codes that roll matching results again. -/
def rerolling : ActionTable :=
  [("r", .reroll false), ("rr", .reroll false), ("ro", .reroll true)]

/-- The codes of numbered dice. -/
def numbered : ActionTable :=
  rerolling ++ [("x", .explode false), ("xo", .explode true)] ++ selection ++ counting ++
    [("even", .countParity false), ("odd", .countParity true)]

/-- The codes of pools. -/
def pool : ActionTable := selection ++ counting

/-- What a code does. -/
def action? (table : ActionTable) (code : String) : Option Action := List.lookup code table

end ActionTable

/-- A kind of dice. -/
inductive DieKind where
  | plain
  | numbered
  | coin
  | fate
  deriving DecidableEq, Repr

namespace DieKind

/-- The letter that stands for the faces. -/
def letter? : DieKind → Option String
  | plain => none
  | numbered => none
  | coin => some "c"
  | fate => some "f"

/-- The number of faces that a letter stands for. -/
def fixedFaces? : DieKind → Option Nat
  | plain => none
  | numbered => none
  | coin => some 2
  | fate => some 3

def denomination : DieKind → String
  | plain => ""
  | numbered => "d"
  | coin => "c"
  | fate => "f"

/-- The kind that a letter stands for. -/
def ofLetter? (letter : String) : Option DieKind :=
  if letter == "c" then some coin else if letter == "f" then some fate else none

theorem ofLetter?_letter (kind : DieKind) (letter : String) (named : kind.letter? = some letter) :
    ofLetter? letter = some kind := by
  cases kind <;> simp [letter?] at named <;> subst named <;> decide

/-- The modifiers that dice of the kind take. -/
def actions : DieKind → ActionTable
  | plain => []
  | numbered => ActionTable.numbered
  | coin => [("c", .call)]
  | fate => ActionTable.rerolling ++ ActionTable.selection

/-- The least result. -/
def minimum : DieKind → Int
  | plain => 1
  | numbered => 1
  | coin => 0
  | fate => -1

/-- The greatest result of a kind whose faces are fixed. -/
def fixedMaximum? : DieKind → Option Int
  | plain => none
  | numbered => none
  | coin => some 1
  | fate => some 1

end DieKind
end DiceNotation
