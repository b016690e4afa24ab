import DiceNotation.Roll.Build
import DiceNotation.Roll.Record

namespace DiceNotation

/-!
# Restoring terms and rolls

A record is read in the order in which its parts are needed: the class first,
then the terms and rolls inside, and the whole last.  What is said to have
been evaluated counts as evaluated.  A roll whose terms are all evaluated has
the total that they give, whatever its record says.
-/

/-- A field of a record that must be there. -/
def Fields.require (fields : Fields) (name : String) : Except Fault Json :=
  match Fields.get? fields name with
  | some value => .ok value
  | none => .error .missingField

/-- Whether a record says that it was evaluated. -/
def Fields.isEvaluated (fields : Fields) : Bool :=
  ((Fields.get? fields "evaluated").map Json.isSet).getD false

theorem Fields.sizeOf_get?_lt {fields : Fields} {name : String} {value : Json}
    (found : Fields.get? fields name = some value) : sizeOf value < sizeOf fields := by
  induction fields with
  | nil => simp [Fields.get?_nil] at found
  | cons field rest ih =>
    obtain ⟨key, old⟩ := field
    rw [Fields.get?_cons] at found
    split at found
    · cases found
      simp only [List.cons.sizeOf_spec, Prod.mk.sizeOf_spec]
      omega
    · have := ih found
      simp only [List.cons.sizeOf_spec]
      omega

/-- A field of a record as a part of the record, which is smaller. -/
def Fields.part? (fields : Fields) (name : String) :
    Option { value : Json // sizeOf value < sizeOf fields } :=
  match found : Fields.get? fields name with
  | none => none
  | some value => some ⟨value, Fields.sizeOf_get?_lt found⟩

theorem Fields.part?_eq_none {fields : Fields} {name : String}
    (absent : Fields.get? fields name = none) : Fields.part? fields name = none := by
  unfold Fields.part?
  split
  · rfl
  · rename_i value found
    rw [absent] at found
    cases found

theorem Fields.part?_eq_some {fields : Fields} {name : String} {value : Json}
    (found : Fields.get? fields name = some value) :
    Fields.part? fields name = some ⟨value, Fields.sizeOf_get?_lt found⟩ := by
  unfold Fields.part?
  split
  · rename_i absent
    rw [absent] at found
    cases found
  · rename_i other same
    rw [found] at same
    cases same
    rfl

namespace Build

/-- The class that a record names, if it is one of those that are expected. -/
def classOf (fields : Fields) (expected : Option TermClass) : Except Fault TermClass :=
  let given := (Fields.get? fields "class").getD .null
  let refusal : Fault := .use (.wrongClass ((expected.map TermClass.name).getD "RollTerm")
    given.plainText)
  match given with
  | .string name =>
    match TermClass.ofName? name with
    | some found => if expected.all found.isA then .ok found else .error refusal
    | none => .error refusal
  | .array _ => .error .wrongKind
  | .object _ => .error .wrongKind
  | _ => .error refusal

/-- Whether a record is one of a roll; a record without a class is. -/
def checkRollClass (fields : Fields) : Except Fault Unit :=
  match Fields.get? fields "class" with
  | none => .ok ()
  | some given =>
    match given with
    | .string "Roll" => .ok ()
    | other => .error (.use (.wrongClass "Roll" other.plainText))

/-- Marks a restored term as evaluated if its record says so. -/
def settleTerm (fields : Fields) (term : Term) : Build Term := do
  if Fields.isEvaluated fields then
    change (·.updateTerm term.id fun state => { state with phase := .evaluated })
  return term

/-- A field of a record, or null. -/
def fieldOf (fields : Fields) (name : String) : Json := (Fields.get? fields name).getD .null

/-- The options of a record. -/
def optionsIn (fields : Fields) : Build Fields := lift (Fields.ofData (fieldOf fields "options"))

/-- A number, an operator or a word, from a record. -/
def restoreSimple (fields : Fields) : TermClass → Build Term
  | .numeric =>
    match Fields.get? fields "number" with
    | some value => do numeric (← optionsIn fields) value
    | none => refuse .wrongKind
  | .operator =>
    match Fields.get? fields "operator" with
    | some symbol => do
      let op ← lift (Operator.select symbol)
      return .operator (← tag (← optionsIn fields)) op
    | none => refuse .wrongKind
  | .text =>
    match Fields.get? fields "term" with
    | some value => do word (← optionsIn fields) value
    | none => refuse .wrongKind
  | _ => refuse .wrongKind

variable (setup : Setup)

/-- Dice from a record whose amounts are restored. -/
def restoreDice (fields : Fields) (kind : DieKind) (number faces : AmountInput) : Build Term := do
  let options ← optionsIn fields
  return .dice (← DiceInput.build setup {
    kind := kind, number := number, faces := faces, modifiers := fieldOf fields "modifiers",
    results := fieldOf fields "results", method := fieldOf fields "method", options := options })

/-- A function from a record whose rolls are restored. -/
def restoreFunction (fields : Fields) (name : Json) (rolls : List Roll) : Build Term := do
  let fn ← lift (Function.select name rolls.length)
  return .function (← tag (← optionsIn fields)) fn rolls

/-- A pool from a record whose rolls are restored. -/
def restorePool (fields : Fields) (rolls : List Roll) : Build Term := do
  pool (← optionsIn fields) rolls (fieldOf fields "modifiers") (fieldOf fields "results")

/-- A bracketed roll from a record whose roll is restored. -/
def restoreGroup (fields : Fields) (inside : Roll) : Build Term := do
  let options ← optionsIn fields
  return .group (← tag options) inside

/-- A roll from a record whose terms are restored. -/
def restoreRow (fields : Fields) (terms : List Term) : Build Roll := do
  let restored ← rollOfData (fieldOf fields "options") (fieldOf fields "data") terms
  let ledger ← get
  if Fields.isEvaluated fields && !ledger.isRollEvaluated restored then
    change (·.updateRoll restored.id fun _ =>
      { phase := .evaluated, total := fieldOf fields "total" })
  return restored

mutual

/-- Restores a term that must be of an expected class, if one is given. -/
def restoreTerm (expected : Option TermClass) : Json → Build Term
  | .object fields => do
    match ← lift (classOf fields expected) with
    | .group =>
      match Fields.part? fields "roll" with
      | none => refuse .missingField
      | some ⟨inner, _⟩ => do
        let inside ← restoreRoll inner
        settleTerm fields (← restoreGroup fields inside)
    | .function => do
      let name ← lift (Fields.require fields "fn")
      match Fields.part? fields "rolls" with
      | none => refuse .missingField
      | some ⟨inner, _⟩ => do
        let rolls ← restoreRolls inner
        settleTerm fields (← restoreFunction fields name rolls)
    | .pool =>
      match Fields.part? fields "rolls" with
      | none => refuse .missingField
      | some ⟨inner, _⟩ => do
        let rolls ← restoreRolls inner
        settleTerm fields (← restorePool fields rolls)
    | .dice kind => do
      let number ← match Fields.part? fields "number" with
        | none => pure (.data (.ofNat 1))
        | some ⟨inner, _⟩ => restoreAmount inner
      let faces ← match Fields.part? fields "faces" with
        | none => pure (.data .null)
        | some ⟨inner, _⟩ => restoreAmount inner
      settleTerm fields (← restoreDice setup fields kind number faces)
    | simple => do settleTerm fields (← restoreSimple fields simple)
  | _ => refuse .notARecord
termination_by json => 2 * sizeOf json
decreasing_by
  all_goals
    simp only [Json.object.sizeOf_spec]
    omega

/-- Restores an amount of dice: the record of a term, or plain data. -/
def restoreAmount : Json → Build AmountInput
  | .object fields => do return .term (← restoreTerm none (.object fields))
  | other => pure (.data other)
termination_by json => 2 * sizeOf json + 1

/-- Restores a roll. -/
def restoreRoll : Json → Build Roll
  | .object fields => do
    lift (checkRollClass fields)
    match Fields.part? fields "terms" with
    | none => refuse .missingField
    | some ⟨inner, _⟩ => do restoreRow fields (← restoreTerms inner)
  | _ => refuse .notARecord
termination_by json => 2 * sizeOf json
decreasing_by
  simp only [Json.object.sizeOf_spec] at *
  omega

/-- Restores the terms of a roll. -/
def restoreTerms : Json → Build (List Term)
  | .array items => restoreTermItems items
  | other => do
    if (← lift other.elements).isEmpty then return [] else refuse .notARecord
termination_by json => 2 * sizeOf json

/-- Restores the records of a list as terms. -/
def restoreTermItems : List Json → Build (List Term)
  | [] => pure []
  | item :: rest => do
    let first ← restoreTerm none item
    return first :: (← restoreTermItems rest)
termination_by items => 2 * sizeOf items

/-- Restores the rolls of a function or a pool. -/
def restoreRolls : Json → Build (List Roll)
  | .array items => restoreRollItems items
  | other => do
    if (← lift other.elements).isEmpty then return [] else refuse .notARecord
termination_by json => 2 * sizeOf json

/-- Restores the records of a list as rolls. -/
def restoreRollItems : List Json → Build (List Roll)
  | [] => pure []
  | item :: rest => do
    let first ← restoreRoll item
    return first :: (← restoreRollItems rest)
termination_by items => 2 * sizeOf items

end

end Build
end DiceNotation
