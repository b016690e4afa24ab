import DiceNotation.Dice.Outcome
import DiceNotation.Roll.Total

namespace DiceNotation

/-!
# Records of terms and rolls

The record of a term names its class and has its options, whether it has been
evaluated, and what the class needs.  The record of a roll also has its data,
its formula and its total.
-/

/-!
## Classes of terms

Records of terms name the class of the term, and so does the short form in
which a term shows itself.
-/

/-- The class of a term. -/
inductive TermClass where
  | numeric
  | operator
  | text
  | group
  | function
  | pool
  | dice (kind : DieKind)
  deriving DecidableEq, Repr

namespace TermClass

def all : List TermClass :=
  [numeric, operator, text, group, function, pool, dice .plain, dice .numbered, dice .coin,
    dice .fate]

def name : TermClass → String
  | numeric => "NumericTerm"
  | operator => "OperatorTerm"
  | text => "StringTerm"
  | group => "ParentheticalTerm"
  | function => "FunctionTerm"
  | pool => "PoolTerm"
  | dice .plain => "DiceTerm"
  | dice .numbered => "Die"
  | dice .coin => "Coin"
  | dice .fate => "FateDie"

/-- The names of what a term of the class is made from, besides its options. -/
def parts : TermClass → List String
  | numeric => ["number"]
  | operator => ["operator"]
  | text => ["term"]
  | group => ["roll"]
  | function => ["fn", "rolls"]
  | pool => ["rolls", "modifiers", "results"]
  | dice _ => ["number", "faces", "modifiers", "results", "method"]

/-- Whether a term of the class can be given a part of some name. -/
def takes (c : TermClass) (name : String) : Bool := name == "options" || c.parts.contains name

def ofName? (name : String) : Option TermClass := all.find? (·.name == name)

theorem ofName?_name (c : TermClass) : ofName? c.name = some c := by
  rcases c with _ | _ | _ | _ | _ | _ | kind
  case dice => cases kind <;> decide
  all_goals decide

/-- Whether a class is among those that an expected class stands for: itself,
and all kinds of dice in the case of plain dice. -/
def isA (given expected : TermClass) : Bool :=
  given == expected ||
    match given, expected with
    | dice _, dice .plain => true
    | _, _ => false

end TermClass

/-- The class of a term. -/
def Term.termClass : Term → TermClass
  | .numeric _ _ => .numeric
  | .operator _ _ => .operator
  | .text _ _ => .text
  | .group _ _ => .group
  | .function _ _ _ => .function
  | .dice d => .dice d.kind
  | .pool _ => .pool

/-- The short form of a term: its class and its formula. -/
def Term.shown (term : Term) : String := term.termClass.name ++ "<" ++ term.formula ++ ">"

/-- The short form of a roll. -/
def RollOf.shown (roll : Roll) : String := "Roll<" ++ roll.formula ++ ">"


/-! ## Records -/

namespace Ledger

variable (ledger : Ledger)

/-- The record of the outcomes of a term. -/
def outcomesRecord (id : Identity) : Json := .array ((ledger.outcomes id).map Outcome.record)

/-- What the records of all terms have in common, in front of what is special. -/
def termRecord (term : Term) (special : Fields) : Json :=
  .object ([("class", .string term.termClass.name), ("options", .object term.tag.options),
    ("evaluated", .bool (ledger.isEvaluated term))] ++ special)

/-- The record of a roll whose terms have the given records. -/
def rollRecord (roll : Roll) (terms : List Json) : Json :=
  .object [("class", .string "Roll"), ("options", .object roll.options),
    ("data", .object roll.data), ("formula", .string roll.formula), ("terms", .array terms),
    ("total", ledger.rollTotal roll),
    ("evaluated", .bool (ledger.isRollEvaluated roll))]

mutual

/-- The record of a term. -/
def record : Term → Json
  | .numeric tag value => ledger.termRecord (.numeric tag value) [("number", value)]
  | .operator tag op => ledger.termRecord (.operator tag op) [("operator", .string op.symbol)]
  | .text tag word => ledger.termRecord (.text tag word) [("term", word)]
  | .group tag roll => ledger.termRecord (.group tag roll)
      [("roll", ledger.rollRecord roll (records roll.terms))]
  | .function tag fn rolls => ledger.termRecord (.function tag fn rolls)
      [("fn", .string fn.name), ("rolls", .array (rollRecords rolls))]
  | .dice d => ledger.termRecord (.dice d)
      [("number", amountRecord d.number), ("faces", amountRecord d.faces),
        ("modifiers", .array d.modifiers), ("results", ledger.outcomesRecord d.tag.id),
        ("method", (ledger.term d.tag.id).method)]
  | .pool p => ledger.termRecord (.pool p)
      [("rolls", .array (rollRecords p.rolls)), ("modifiers", .array p.modifiers),
        ("results", ledger.outcomesRecord p.tag.id)]

/-- The records of terms. -/
def records : List Term → List Json
  | [] => []
  | term :: rest => record term :: records rest

/-- The records of rolls. -/
def rollRecords : List (RollOf Term) → List Json
  | [] => []
  | roll :: rest => ledger.rollRecord roll (records roll.terms) :: rollRecords rest

/-- The record of an amount of dice. -/
def amountRecord : Operand Term → Json
  | .known n => .ofInt n
  | .computed term => record term

end

/-- The record of a roll. -/
def recordOfRoll (roll : Roll) : Json := ledger.rollRecord roll (ledger.records roll.terms)

end Ledger
end DiceNotation
