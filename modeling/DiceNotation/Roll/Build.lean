import DiceNotation.Dice.Command
import DiceNotation.Dice.Outcome
import DiceNotation.Formula.Reference
import DiceNotation.Formula.Scanner
import DiceNotation.Fulfillment.Method
import DiceNotation.Json.Amount
import DiceNotation.Roll.Record
import DiceNotation.Roll.Total
import DiceNotation.Roll.Walk
import DiceNotation.Settings

namespace DiceNotation

/-!
# Building terms and rolls

Terms are built from clauses, from data, or from other terms.  Whatever the
way, the amounts of dice are checked, the modifiers are cut into commands, and
the method is looked up, in this order.  A roll is built around terms only if
operands and operators alternate in them.
-/

/-- What rolls are made with: the settings, which may be invalid, and the
known methods. -/
structure Setup where
  settings : Except Fault Settings
  methods : MethodTable

/-- A construction that takes new identities from the ledger. -/
abbrev Build := StateT Ledger (Except Fault)

namespace Build

/-- An identity that is not in use. -/
def fresh : Build Identity := fun ledger => .ok (ledger.next, ledger.allot)

/-- Reads the ledger. -/
def read {α : Type} (f : Ledger → Except Fault α) : Build α := fun ledger =>
  match f ledger with
  | .ok a => .ok (a, ledger)
  | .error fault => .error fault

/-- Changes the ledger. -/
def change (f : Ledger → Ledger) : Build Unit := fun ledger => .ok ((), f ledger)

/-- A construction that cannot take place. -/
def refuse {α : Type} (fault : Fault) : Build α := fun _ => .error fault

/-- What a computation gives, as a construction. -/
def lift {α : Type} (result : Except Fault α) : Build α := fun ledger =>
  match result with
  | .ok a => .ok (a, ledger)
  | .error fault => .error fault

/-- The refusal of the parts of a clause as a refusal of the whole clause. -/
def within {α : Type} (raw : String) (construction : Build α) : Build α := fun ledger =>
  match construction ledger with
  | .error (.parse reason _ _ _) => .error (.clause reason raw)
  | result => result

end Build

/-- An amount of dice as it is given: plain data, a term, or a roll, which is
always refused. -/
inductive AmountInput where
  | data (value : Json)
  | term (inner : Term)
  | roll (inner : Roll)

namespace AmountInput

/-- The amount as a message shows it. -/
def shown : AmountInput → String
  | data value => value.plainText
  | term inner => inner.shown
  | roll inner => inner.shown

/-- The amount as a formula shows it. -/
def formula : AmountInput → String
  | data value => value.plainText
  | term inner => inner.formula
  | roll inner => inner.shown

/-- A fault whose message shows an amount, if the amount can be shown. -/
def blame (amount : AmountInput) (fault : Fault) : Fault :=
  match amount with
  | term inner => inner.blame fault
  | _ => fault

/-- An amount that is a term or an integer from `minimum` on. -/
def check (what : DiceAmount) (minimum : Nat) : AmountInput → Except Fault (Operand Term)
  | term inner => .ok (.computed inner)
  | data value =>
    match value.wholeNumber with
    | .number (.int n) =>
      if n < minimum then .error (.clause (.badAmount what minimum) (toString n))
      else .ok (.known n)
    | other => .error (.clause (.badAmount what minimum) other.plainText)
  | other => .error (.clause (.badAmount what minimum) other.shown)

/-- Whether an amount is the given number, or absent. -/
def agrees (fixed : Nat) : AmountInput → Bool
  | data .null => true
  | data value => value.same (.ofNat fixed)
  | _ => false

end AmountInput

/-- The options that carry a flavor. -/
def flavorOptions : Option String → Fields
  | none => []
  | some flavor => if flavor == "" then [] else [("flavor", .string flavor)]

/-- What dice are made from.  Modifiers, results and the method are data that is
looked into when the amounts are in order. -/
structure DiceInput where
  kind : DieKind
  number : AmountInput
  faces : AmountInput
  modifiers : Json := .null
  results : Json := .null
  method : Json := .null
  options : Fields

namespace DiceInput

/-- The faces of dice, fixed by their kind or as given. -/
def checkFaces (input : DiceInput) : Except Fault AmountInput :=
  match input.kind.fixedFaces? with
  | some fixed =>
    if input.faces.agrees fixed then .ok (.data (.ofNat fixed))
    else
      .error (input.faces.blame
        (.clause (.fixedFaces (input.kind.letter?.getD "") fixed) input.faces.shown))
  | none =>
    match input.faces with
    | .data .null =>
      .error (input.number.blame (.clause .missingFaces (input.number.formula ++ "d")))
    | faces => .ok faces

/-- The method of dice for which none is given: the one that the settings name
for dice of this denomination, or for all dice. -/
def defaultMethod (setup : Setup) (kind : DieKind) (faces : Operand Term) :
    Except Fault String := do
  let settings ← setup.settings
  match faces with
  | .computed _ => return settings.defaultMethod
  | .known n =>
    let denomination := match kind with
      | .plain => "dNone"
      | .numbered => "d" ++ toString n
      | .coin => "dc"
      | .fate => "df"
    return (List.lookup denomination settings.methods).getD settings.defaultMethod

/-- The method that is given, if it counts as set, or the one that stands in for it. -/
def chooseMethod (setup : Setup) (input : DiceInput) (faces : Operand Term) : Except Fault Json :=
  if input.method.isSet then .ok input.method
  else (defaultMethod setup input.kind faces).map .string

/-- Builds dice. -/
def build (setup : Setup) (input : DiceInput) : Build Dice := do
  let given ← Build.lift input.checkFaces
  let number ← Build.lift (input.number.check .number 0)
  let faces ← Build.lift (given.check .faces 1)
  let modifiers ← Build.lift (Command.listOfData input.modifiers)
  let outcomes ← Build.lift (Outcome.restoreAll input.results)
  let method ← Build.lift (input.chooseMethod setup faces)
  let _ ← Build.lift (setup.methods.named method)
  let id ← Build.fresh
  Build.change (·.updateTerm id fun state => { state with outcomes := outcomes, method := method })
  return { tag := ⟨id, input.options⟩, kind := input.kind, number := number, faces := faces,
           modifiers := modifiers }

end DiceInput

namespace Build

/-- A tag with a new identity. -/
def tag (options : Fields) : Build Tag := do return ⟨← fresh, options⟩

/-- A number, or the data in its place. -/
def numeric (options : Fields) (value : Json) : Build Term := do
  return .numeric (← tag options) value

/-- A word, or the data in its place. -/
def word (options : Fields) (value : Json) : Build Term := do
  return .text (← tag options) value

/-- An operator, given by its symbol. -/
def operator (options : Fields) (symbol : String) : Build Term := do
  let op ← lift (Operator.select (.string symbol))
  return .operator (← tag options) op

/-- A function of rolls. -/
def function (options : Fields) (name : String) (rolls : List Roll) : Build Term := do
  let fn ← lift (Function.select (.string name) rolls.length)
  return .function (← tag options) fn rolls

/-- A pool of rolls, with the results that it has already. -/
def pool (options : Fields) (rolls : List Roll) (modifiers results : Json) : Build Term := do
  let commands ← lift (Command.listOfData modifiers)
  let outcomes ← lift (Outcome.restoreAll results)
  let tag ← tag options
  change (·.updateTerm tag.id fun state => { state with outcomes := outcomes })
  return .pool ⟨tag, rolls, commands⟩

/-- Refuses terms that do not make a row: there must be some, each with a text
for a formula, and operands and operators must alternate. -/
def checkRow (terms : List Term) : Except Fault Unit :=
  if terms.isEmpty then .error (.use .noTerms)
  else if !terms.all Term.isWritten then .error .wrongKind
  else (treeOfTerms (formulaOf terms) terms).map fun _ => ()

/-- A roll around a row of terms.  If all of them are evaluated, so is the roll. -/
def ofRow (options data : Fields) (terms : List Term) : Build Roll := do
  let ledger ← get
  let id ← fresh
  if terms.all ledger.isEvaluated then
    let total ← lift (ledger.totalOfTerms terms)
    change (·.updateRoll id fun _ => { phase := .evaluated, total := total })
  return { id := id, options := options, data := data, terms := terms }

/-- A roll around terms. -/
def roll (options data : Fields) (terms : List Term) : Build Roll := do
  lift (checkRow terms)
  ofRow options data terms

/-- A roll around terms whose options and data are given as data, which is
looked into when the terms are in order. -/
def rollOfData (options data : Json) (terms : List Term) : Build Roll := do
  lift (checkRow terms)
  let data ← lift (Fields.ofData data)
  let options ← lift (Fields.ofData options)
  ofRow options data terms

variable (setup : Setup)

mutual

/-- The term of a clause. -/
def clause : Clause → Build Term
  | .numeric value flavor _ => numeric (flavorOptions flavor) (.number value)
  | .dice number faces modifiers flavor raw => do
    let number ← amount number
    within raw (diceClause number faces modifiers flavor)
  | .function name arguments flavor raw =>
    within raw do
      let rolls ← rolls arguments
      function (flavorOptions flavor) name rolls
  | .pool members modifiers flavor _ => do
    let rolls ← rolls members
    pool (flavorOptions flavor) rolls (.string modifiers) .null
  | .group inner flavor _ => do
    let terms ← terms inner
    let inside ← roll [] [] terms
    return .group (← tag (flavorOptions flavor)) inside
  | .text text flavor _ => word (flavorOptions flavor) (.string text)

/-- The dice of a clause whose number is built already. -/
def diceClause (number : AmountInput) (faces : Faces Clause) (modifiers : String)
    (flavor : Option String) : Build Term :=
  match faces with
  | .letter code =>
    match DieKind.ofLetter? code with
    | none => refuse (.clause (.unknownFaces code) "")
    | some kind => do
      let dice ← DiceInput.build setup {
        kind := kind, number := number, faces := .data .null, modifiers := .string modifiers,
        options := flavorOptions flavor }
      return .dice dice
  | .amount given => do
    let faces ← amount given
    let dice ← DiceInput.build setup {
      kind := .numbered, number := number, faces := faces, modifiers := .string modifiers,
      options := flavorOptions flavor }
    return .dice dice

/-- An amount of dice: a number, or the term of a bracketed formula. -/
def amount : Amount Clause → Build AmountInput
  | .known n => pure (.data (.ofNat n))
  | .computed inner _ => do
    let terms ← terms inner
    let inside ← roll [] [] terms
    return .term (.group (← tag []) inside)

/-- The terms of a tree, in the order of its row. -/
def terms : Tree Clause → Build (List Term)
  | .leaf part => do return [← clause part]
  | .node op left right => do
    let before ← terms left
    let joining ← operator [] op.symbol
    let after ← terms right
    return before ++ joining :: after

/-- The rolls of trees. -/
def rolls : List (Tree Clause) → Build (List Roll)
  | [] => pure []
  | tree :: rest => do
    let terms ← terms tree
    let first ← roll [] [] terms
    return first :: (← rolls rest)

end

/-- The term of a tree that is one clause. -/
def clauseOfTree : Tree Clause → Build Term
  | .leaf part => clause setup part
  | tree => refuse (.clause .unknownClause tree.raw)

/-- The tree of a formula under the settings. -/
def parseFormula (formula : String) (imputeNumber : Option Bool) : Except Fault (Tree Clause) := do
  let settings ← setup.settings
  Source.parse { text := formula.toList, imputeNumber := imputeNumber.getD settings.imputeNumber,
                 maxNesting := settings.maxNesting }

/-- Gives all dice of a roll a method. -/
def useMethod (name : Json) (roll : Roll) : Build Unit :=
  roll.dice.forM fun dice =>
    change (·.updateTerm dice.tag.id fun state => { state with method := name })

/-- Gives a roll a method, which must be known, if there is one to give. -/
def giveMethod (method : Json) (roll : Roll) : Build Roll :=
  match method with
  | .null => pure roll
  | name => do
    let _ ← lift (setup.methods.named name)
    useMethod name roll
    return roll

/-- What a roll is made from: a formula, data for its references, options, and
a method for all of its dice, which is null if none is given. -/
structure RollInput where
  formula : String
  data : Fields := []
  options : Fields := []
  method : Json := .null

/-- Builds the roll of a formula. -/
def ofFormula (input : RollInput) : Build Roll := do
  let text ← lift (Reference.replaceText input.formula input.data none)
  let tree ← lift (parseFormula setup text none)
  let terms ← terms setup tree
  let roll ← roll input.options input.data terms
  giveMethod setup input.method roll

end Build
end DiceNotation
