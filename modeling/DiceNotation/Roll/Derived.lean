import DiceNotation.Roll.Restore

namespace DiceNotation

/-!
# Derived rolls

A clone has the same terms as before anything was evaluated.  An altered roll
has more or fewer dice: each top-level number of dice is multiplied, and then
some are added.  Both are made by way of records, so nothing is shared with
the first roll.

To clone a term, its record is gone through as data.  Whatever has a class in
it is taken for the record of a term or a roll and loses its results, its total
and its evaluation.  Options and data are left alone: they are not records of
terms even where they look like it.
-/

namespace Json

mutual

/-- Data in which no record says that it was evaluated. -/
def renewed : Json → Json
  | .array items => .array (renewedItems items)
  | .object fields =>
    if (Fields.get? fields "class").isSome then
      .object (Fields.set (renewedParts fields) "evaluated" (.bool false))
    else .object (renewedFields fields)
  | value => value

def renewedItems : List Json → List Json
  | [] => []
  | item :: rest => renewed item :: renewedItems rest

/-- The fields of data that is not the record of a term or a roll. -/
def renewedFields : Fields → Fields
  | [] => []
  | (name, value) :: rest => (name, renewed value) :: renewedFields rest

/-- The fields of the record of a term or a roll. -/
def renewedParts : Fields → Fields
  | [] => []
  | (name, value) :: rest =>
    (name,
      if name == "options" || name == "data" then value
      else if name == "results" then .array []
      else if name == "total" then .null
      else renewed value) :: renewedParts rest

end

end Json

namespace Build

variable (setup : Setup)

/-- A copy of a term, evaluated as far as the term is. -/
def copy (term : Term) : Build Term := fun ledger =>
  restoreTerm setup none (ledger.record term) ledger

/-- A copy of a term as before anything was evaluated. -/
def renew (term : Term) : Build Term := fun ledger =>
  restoreTerm setup none (ledger.record term).renewed ledger

/-- Applies a construction to each element of a list. -/
def each {α β : Type} (construction : α → Build β) : List α → Build (List β)
  | [] => pure []
  | a :: rest => do
    let first ← construction a
    return first :: (← each construction rest)

/-- A copy of a roll as before anything was evaluated. -/
def clone (model : Roll) : Build Roll := do
  let terms ← each (renew setup) model.terms
  roll model.options model.data terms

/-- How the number of dice changes. -/
structure Change where
  multiply : Json := .ofNat 1
  add : Json := .ofNat 0
  /-- Whether numbers outside of dice are multiplied too. -/
  numeric : Bool := false

/-- The change that arguments describe.  The first two can be given by their
place, and all by the names in `allowed`, but none twice. -/
def changeOf (allowed : List String) (positional : List Json) (named : Fields) :
    Except Fault Change :=
  let places := (["multiply", "add"].zip positional).map (·.1)
  let known := named.all fun argument =>
    allowed.contains argument.1 && !places.contains argument.1
  if known && positional.length ≤ 2 then
    let argument := fun (name : String) (place : Nat) (missing : Json) =>
      ((Fields.get? named name).or positional[place]?).getD missing
    .ok { multiply := argument "multiply" 0 (.ofNat 1), add := argument "add" 1 (.ofNat 0),
          numeric := ((Fields.get? named "multiply_numeric").map Json.isSet).getD false }
  else .error .wrongKind

/-- The number of dice after a change.  If it is computed, so is the new one. -/
def changeNumber (change : Change) : Operand Term → Build AmountInput
  | .known n => do
    let product ← lift (Json.mul (.ofInt n) change.multiply)
    return .data (← lift (product.add change.add))
  | .computed term => do
    if !term.hasFormula then refuse .wrongKind
    let inside ← ofFormula setup {
      formula := term.formula ++ " * " ++ change.multiply.plainText ++ " + " ++
        change.add.plainText }
    return .term (.group (← tag []) inside)

/-- A copy of an amount. -/
def copyAmount : Operand Term → Build AmountInput
  | .known n => pure (.data (.ofInt n))
  | .computed term => do return .term (← copy setup term)

/-- Dice with a changed number. -/
def alterDice (change : Change) (dice : Dice) : Build Dice := do
  let ledger ← get
  if ledger.isEvaluated (.dice dice) then
    refuse ((Term.dice dice).blame (.use (.termNoLongerAlters dice.formula)))
  let number ← changeNumber setup change dice.number
  let faces ← copyAmount setup dice.faces
  DiceInput.build setup {
    kind := dice.kind, number := number, faces := faces, modifiers := .array dice.modifiers,
    method := (ledger.term dice.tag.id).method, options := dice.tag.options }

/-- A term of an altered roll. -/
def alterTerm (change : Change) : Term → Build Term
  | .dice d => do return .dice (← alterDice setup change d)
  | .numeric old value =>
    if change.numeric then do
      let product ← lift (value.mul change.multiply)
      numeric old.options product
    else copy setup (.numeric old value)
  | term => copy setup term

/-- A roll with changed numbers of dice. -/
def alter (change : Change) (model : Roll) : Build Roll := do
  let ledger ← get
  if ledger.isRollEvaluated model then
    refuse (.use (.rollNoLongerAlters model.formula))
  let terms ← each (alterTerm setup change) model.terms
  roll model.options model.data terms

end Build
end DiceNotation
