import DiceNotation.Roll.Total
import DiceNotation.Roll.Walk

namespace DiceNotation
namespace Ledger

/-!
# Results and explanations

The result of a roll is its formula with every evaluated term replaced by its
total.  The explanation lists the outcomes of all dice and of the pools, and
ends with the result and the total.
-/

variable (ledger : Ledger)

/-- A term in a result: its total, or its formula while it has none. -/
def resultPart (term : Term) : Except Fault String :=
  if ledger.isEvaluated term then (ledger.totalOf term).map Json.shown else .ok term.formula

/-- The result of a roll. -/
def result (roll : Roll) : Except Fault String := do
  return " ".intercalate (← roll.terms.mapM ledger.resultPart)

/-- A list of values as a message quotes it. -/
def quotedValues (values : List Json) : String := (Json.array values).quoted

/-- The line of dice in an explanation. -/
def diceLine (dice : Dice) : Except Fault String := do
  let outcomes := ledger.outcomes dice.tag.id
  let kept := Outcome.activeValues outcomes
  let selection := if kept.length == outcomes.length then "" else " -> keep " ++ quotedValues kept
  let total ← ledger.total (.dice dice)
  let rolled := quotedValues (outcomes.map (·.value))
  return dice.formula ++ ": rolls " ++ rolled ++ selection ++ " => " ++
    total.shown

/-- The line of a pool in an explanation. -/
def poolLine (pool : Pool) : Except Fault String := do
  let total ← ledger.total (.pool pool)
  return pool.formula ++ ": " ++ quotedValues ((ledger.outcomes pool.tag.id).map (·.value)) ++
    " => " ++ total.shown

/-- The pools among terms. -/
def poolsAmong (terms : List Term) : List Pool :=
  terms.filterMap fun term =>
    match term with
    | .pool p => some p
    | _ => none

/-- How an evaluated roll came to its total. -/
def explanation (roll : Roll) : Except Fault String :=
  if ledger.isRollEvaluated roll then do
    let dice ← roll.dice.mapM ledger.diceLine
    let pools ← (poolsAmong roll.terms).mapM ledger.poolLine
    let result ← ledger.result roll
    return "; ".intercalate
      (dice ++ pools ++ [result ++ " => " ++ (ledger.rollTotal roll).shown])
  else .error (.use (.unevaluated roll.formula))

end Ledger
end DiceNotation
