import DiceNotation.Dice.Kind
import DiceNotation.Formula.Clause
import DiceNotation.Formula.Function

namespace DiceNotation

/-!
# Terms and rolls

A roll is a row of terms: operands with operators between them.  A term is a
number, an operator, a word, dice, or it has rolls inside: a bracketed roll, a
function or a pool.  Dice may have terms in place of their amounts.

Terms and rolls never change.  What changes when they are evaluated is kept in
a ledger under their identity, so everyone who holds the same term sees the
same results.

A formula gives numbers that are numbers, words that are texts and modifiers
that are texts.  A term that was restored keeps the data of its record in their
place, whatever it is, and its formula shows them.  Only data in the place of a
modifier cannot be shown: such a term has no formula.
-/

/-- What tells a term or roll apart from all others. -/
abbrev Identity := Nat

/-- What every term has: an identity and options such as the flavor. -/
structure Tag where
  id : Identity
  options : Fields

/-- An amount of dice: a known number, or a term that is evaluated first. -/
inductive Operand (τ : Type) where
  | known (n : Int)
  | computed (term : τ)

/-- The term that computes an amount. -/
def Operand.term? {τ : Type} : Operand τ → Option τ
  | .known _ => none
  | .computed term => some term

/-- Dice: a number of dice with the same faces, and their modifiers. -/
structure DiceOf (τ : Type) where
  tag : Tag
  kind : DieKind
  number : Operand τ
  faces : Operand τ
  modifiers : List Json

/-- A row of terms with the data and options it was made with. -/
structure RollOf (τ : Type) where
  id : Identity
  options : Fields
  data : Fields
  terms : List τ

/-- A pool of rolls whose totals are its results. -/
structure PoolOf (τ : Type) where
  tag : Tag
  rolls : List (RollOf τ)
  modifiers : List Json

/-- A term of a roll. -/
inductive Term where
  | numeric (tag : Tag) (value : Json)
  | operator (tag : Tag) (op : Operator)
  | text (tag : Tag) (word : Json)
  | group (tag : Tag) (roll : RollOf Term)
  | function (tag : Tag) (fn : Function) (rolls : List (RollOf Term))
  | dice (d : DiceOf Term)
  | pool (p : PoolOf Term)

/-- Dice whose amounts are terms of rolls. -/
abbrev Dice := DiceOf Term

/-- A pool of rolls. -/
abbrev Pool := PoolOf Term

/-- A roll. -/
abbrev Roll := RollOf Term

/-- The flavor among options, if it is set. -/
def Tag.flavor? (tag : Tag) : Option Json :=
  (Fields.get? tag.options "flavor").filter Json.isSet

/-- Modifiers as they stand behind dice and pools. -/
def modifierText (modifiers : List Json) : String := String.join (modifiers.map Json.plainText)

/-- A text with the flavor of a tag behind it. -/
def Tag.flavored (tag : Tag) (text : String) : String :=
  match tag.flavor? with
  | some flavor => text ++ "[" ++ flavor.plainText ++ "]"
  | none => text

namespace Term

def tag : Term → Tag
  | numeric tag _ => tag
  | operator tag _ => tag
  | text tag _ => tag
  | group tag _ => tag
  | function tag _ _ => tag
  | dice d => d.tag
  | pool p => p.tag

def id (term : Term) : Identity := term.tag.id

mutual

/-- The formula of a term. -/
def formula : Term → String
  | numeric tag value => tag.flavored value.shown
  | operator tag op => tag.flavored op.symbol
  | text tag word => tag.flavored word.plainText
  | group tag roll => tag.flavored ("(" ++ " ".intercalate (formulas roll.terms) ++ ")")
  | function tag fn rolls =>
    tag.flavored (fn.name ++ "(" ++ ", ".intercalate (rollFormulas rolls) ++ ")")
  | dice d =>
    d.tag.flavored (amountFormula d.number ++ "d" ++
      (match d.kind.letter? with
        | some letter => letter
        | none => amountFormula d.faces) ++ modifierText d.modifiers)
  | pool p =>
    p.tag.flavored ("\x7b" ++ ", ".intercalate (rollFormulas p.rolls) ++ "\x7d" ++
      modifierText p.modifiers)

/-- The formulas of terms. -/
def formulas : List Term → List String
  | [] => []
  | term :: rest => formula term :: formulas rest

/-- The formulas of rolls. -/
def rollFormulas : List (RollOf Term) → List String
  | [] => []
  | roll :: rest => " ".intercalate (formulas roll.terms) :: rollFormulas rest

/-- The formula of an amount. -/
def amountFormula : Operand Term → String
  | .known n => toString n
  | .computed term => formula term

end

/-- Whether a term has a formula: every modifier in it is a text. -/
def hasFormula : Term → Bool
  | dice d =>
    amountHasFormula d.number && (d.kind.letter?.isSome || amountHasFormula d.faces) &&
      d.modifiers.all Json.isText
  | pool p => p.modifiers.all Json.isText
  | _ => true
where
  /-- Whether an amount can be shown. -/
  amountHasFormula : Operand Term → Bool
    | .known _ => true
    | .computed term => hasFormula term

/-- The formula of a term as data.  It is what the record held in the place of
a word, if nothing stands behind it. -/
def formulaData : Term → Json
  | text tag word => if tag.flavor?.isSome then .string (formula (text tag word)) else word
  | term => .string (formula term)

/-- Whether a term can stand in a row: its formula is a text. -/
def isWritten (term : Term) : Bool := term.hasFormula && term.formulaData.isText

/-- A fault whose message names the formula of a term, if the term has one. -/
def blame (term : Term) (fault : Fault) : Fault := if term.hasFormula then fault else .wrongKind

end Term

/-- The formula of a row of terms. -/
def formulaOf (terms : List Term) : String := " ".intercalate (Term.formulas terms)

/-- The formula of a roll. -/
def RollOf.formula (roll : Roll) : String := formulaOf roll.terms

/-- The formula of dice. -/
def DiceOf.formula (dice : Dice) : String := (Term.dice dice).formula

/-- The formula of a pool. -/
def PoolOf.formula (pool : Pool) : String := (Term.pool pool).formula

namespace Term

mutual

/-- Whether the total of a term is fixed by its formula alone. -/
def isDeterministic : Term → Bool
  | numeric _ _ => true
  | operator _ _ => true
  | text _ _ => false
  | group _ roll => allDeterministic roll.terms
  | function _ _ rolls => allRollsDeterministic rolls
  | dice _ => false
  | pool p => allRollsDeterministic p.rolls

def allDeterministic : List Term → Bool
  | [] => true
  | term :: rest => isDeterministic term && allDeterministic rest

def allRollsDeterministic : List (RollOf Term) → Bool
  | [] => true
  | roll :: rest => allDeterministic roll.terms && allRollsDeterministic rest

end

/-- The terms directly inside a term, in the order of its formula. -/
def children : Term → List Term
  | numeric _ _ => []
  | operator _ _ => []
  | text _ _ => []
  | group _ roll => roll.terms
  | function _ _ rolls => rolls.flatMap (·.terms)
  | dice d => d.number.term?.toList ++ d.faces.term?.toList
  | pool p => p.rolls.flatMap (·.terms)

/-- The dice that a term is. -/
def dice? : Term → Option Dice
  | dice d => some d
  | _ => none

end Term

/-- Whether the total of a roll is fixed by its formula alone. -/
def RollOf.isDeterministic (roll : Roll) : Bool := Term.allDeterministic roll.terms

end DiceNotation
