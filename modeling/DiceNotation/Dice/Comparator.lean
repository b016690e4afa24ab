import DiceNotation.Json.Amount

namespace DiceNotation

/-!
# Comparisons

A modifier may pick out the results that stand in a certain order to a target.
Amounts are compared exactly, whatever their kinds.  Every value is equal to
the target or not, but the order of values that are not alike is refused.
-/

/-- How a result is compared with a target. -/
inductive Comparator where
  | equal
  | below
  | atMost
  | above
  | atLeast
  deriving DecidableEq, Repr

namespace Comparator

/-- The comparison of a text; equality may be written twice. -/
def ofText? (text : String) : Option Comparator :=
  if text == "=" || text == "==" then some .equal
  else if text == "<" then some .below
  else if text == "<=" then some .atMost
  else if text == ">" then some .above
  else if text == ">=" then some .atLeast
  else none

def text : Comparator → String
  | .equal => "="
  | .below => "<"
  | .atMost => "<="
  | .above => ">"
  | .atLeast => ">="

theorem ofText?_text (c : Comparator) : ofText? c.text = some c := by
  cases c <;> decide

/-- Whether one amount stands in the given order to another. -/
def relates (c : Comparator) (amount target : Number) : Bool :=
  match c with
  | .equal => Number.same amount target
  | .below => Number.below amount target
  | .atMost => Number.atMost amount target
  | .above => Number.below target amount
  | .atLeast => Number.atMost target amount

/-- Whether a value stands in the given order to a target. -/
def holds (c : Comparator) (value target : Json) : Except Fault Bool :=
  match c with
  | .equal => .ok (value.same target)
  | .below => value.precedes target
  | .atMost => value.atMost target
  | .above => target.precedes value
  | .atLeast => target.atMost value

/-- Numbers are compared as amounts, and never refused. -/
theorem holds_number (c : Comparator) (m n : Number) :
    c.holds (.number m) (.number n) = .ok (c.relates m n) := by
  cases c <;> simp [holds, relates, Json.same_number, Json.precedes_number, Json.atMost_number]

end Comparator
end DiceNotation
