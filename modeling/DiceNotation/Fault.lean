import DiceNotation.Json.Value

namespace DiceNotation

/-!
# Faults

Every way in which work on a roll can fail, by cause.  The wording of each
message is given here once.  The faults of the first group are addressed to
whoever wrote the formula and carry a code in brackets; the others report data
of the wrong shape or numbers out of range.
-/

/-- The two amounts of a dice term. -/
inductive DiceAmount where
  | number
  | faces
  deriving DecidableEq, Repr

def DiceAmount.name : DiceAmount → String
  | .number => "number"
  | .faces => "faces"

/-- Why a text is no formula, or a clause no term. -/
inductive ParseReason where
  | unexpectedCharacter
  | formulaEnded
  | fractionalNumber
  | tooDeep (limit : Nat)
  | missingClose (mark : Char)
  | emptyPool
  | missingFaces
  | missingNumber
  | notASign (symbol : String)
  | operatorSequence (symbols : String)
  | emptyFormula
  | missingLeft
  | unknownOperator (symbol : String)
  | missingOperator
  | missingRight
  | unknownClause
  | unrecognizedTerm
  | unknownFunction (name : String)
  | argumentCount (name : String) (arity : Option Nat) (given : Nat)
  | textArgument (name : String)
  | textInPool
  | fixedFaces (code : String) (faces : Nat)
  | badAmount (what : DiceAmount) (minimum : Nat)
  | badTotal (what : DiceAmount) (value : String) (minimum : Nat)
  | unknownFaces (code : String)
  deriving DecidableEq, Repr

def ParseReason.message : ParseReason → String
  | .unexpectedCharacter => "Unexpected character"
  | .formulaEnded => "Expected a term but the formula ended"
  | .fractionalNumber => "The number of dice must be an integer"
  | .tooDeep limit => "Brackets nested deeper than " ++ toString limit ++ " levels"
  | .missingClose mark => "Missing closing '" ++ mark.toString ++ "'"
  | .emptyPool => "A dice pool needs at least one term"
  | .missingFaces => "Dice term is missing its faces"
  | .missingNumber => "Dice term is missing its number of dice"
  | .notASign symbol => "Cannot collapse operator '" ++ symbol ++ "'"
  | .operatorSequence symbols => "Invalid operator sequence '" ++ symbols ++ "'"
  | .emptyFormula => "Empty formula"
  | .missingLeft => "Operator is missing its left operand"
  | .unknownOperator symbol => "Unknown operator '" ++ symbol ++ "'"
  | .missingOperator => "Missing operator before term"
  | .missingRight => "Operator is missing its right operand"
  | .unknownClause => "Cannot build a term from this clause"
  | .unrecognizedTerm => "Unrecognized term"
  | .unknownFunction name => "Unknown function '" ++ name ++ "'"
  | .argumentCount name arity given =>
    let expected := match arity with
      | none => "at least 1"
      | some count => toString count
    "Function '" ++ name ++ "' expects " ++ expected ++ " argument(s), got " ++ toString given
  | .textArgument name => "Function '" ++ name ++ "' needs numeric arguments"
  | .textInPool => "Dice pool terms must be numeric"
  | .fixedFaces code faces => "A d" ++ code ++ " always has " ++ toString faces ++ " faces"
  | .badAmount what minimum =>
    "The " ++ what.name ++ " of dice must be an integer of at least " ++ toString minimum
  | .badTotal what value minimum =>
    "The " ++ what.name ++ " of dice evaluated to " ++ value ++
      ", expected an integer of at least " ++ toString minimum
  | .unknownFaces code => "Unknown die denomination 'd" ++ code ++ "'"

/-- Why a modifier cannot be carried out. -/
inductive ModifierReason where
  | malformed
  | unknownComparator (symbol : String)
  | unknown
  | takesCount
  | needsTarget
  | takesNoValue
  | tooManyRolls (limit : Int)
  | callSide
  | noSuchSide
  deriving DecidableEq, Repr

def ModifierReason.message : ModifierReason → String
  | .malformed => "Malformed modifier."
  | .unknownComparator symbol => "Unknown comparator '" ++ symbol ++ "'."
  | .unknown => "Unknown modifier."
  | .takesCount => "This modifier takes a count, not a comparison."
  | .needsTarget => "This modifier needs a target value."
  | .takesNoValue => "This modifier takes no value."
  | .tooManyRolls limit =>
    "More than " ++ toString limit ++ " additional rolls; the condition may never stop matching."
  | .callSide => "Call a side with c1 (heads) or c0 (tails)."
  | .noSuchSide => "A coin can only be called heads (1) or tails (0)."

/-- Why a strict evaluation cannot go on without the outside. -/
inductive DeterminismReason where
  | hadToWait
  | asynchronousMethod (method : String)
  | externalResult (method : String)
  deriving DecidableEq, Repr

def DeterminismReason.message : DeterminismReason → String
  | .hadToWait => "Synchronous evaluation had to wait for an external result."
  | .asynchronousMethod method => "Fulfillment method '" ++ method ++ "' is asynchronous."
  | .externalResult method =>
    "Fulfillment method '" ++ method ++ "' needs an externally supplied result."

/-- Other faults in the use of terms and rolls. -/
inductive UseReason where
  | termEvaluated (formula : String)
  | termNoLongerRolls (formula : String)
  | termNoLongerAlters (formula : String)
  | rollEvaluated (formula : String)
  | rollNoLongerAlters (formula : String)
  | unevaluated (formula : String)
  | wrongClass (expected given : String)
  | notComputable (formula : String) (failure : NumberFault)
  | referenceKind (path : String)
  | textInArithmetic (formula : String)
  | divisionByZero (formula : String)
  | noTerms
  | notATerm (shown : String)
  | badMethodName (name : String)
  | unknownMethod (name : String) (known : List String)
  | impossibleResult (shown formula method : String)
  deriving DecidableEq, Repr

def UseReason.message : UseReason → String
  | .termEvaluated formula =>
    "[ALREADY_EVALUATED] Term '" ++ formula ++ "' has already been evaluated."
  | .termNoLongerRolls formula =>
    "[ALREADY_EVALUATED] Term '" ++ formula ++ "' can no longer be rolled."
  | .termNoLongerAlters formula =>
    "[ALREADY_EVALUATED] Cannot alter evaluated term '" ++ formula ++ "'."
  | .rollEvaluated formula =>
    "[ALREADY_EVALUATED] Roll '" ++ formula ++ "' has already been evaluated."
  | .rollNoLongerAlters formula =>
    "[ALREADY_EVALUATED] Cannot alter evaluated roll '" ++ formula ++ "'."
  | .unevaluated formula => "[UNEVALUATED] Roll '" ++ formula ++ "' has not been evaluated."
  | .wrongClass expected given =>
    "[INVALID_TERM] Cannot restore a " ++ expected ++ " from class '" ++ given ++ "'."
  | .notComputable formula failure =>
    "[INVALID_TERM] " ++ formula ++ " could not be computed: " ++ failure.message ++ "."
  | .referenceKind path =>
    "[INVALID_TERM] Formula data '@" ++ path ++ "' is not a number or formula."
  | .textInArithmetic formula =>
    "[INVALID_TERM] Text cannot take part in arithmetic in '" ++ formula ++ "'."
  | .divisionByZero formula => "[INVALID_TERM] Division by zero in '" ++ formula ++ "'."
  | .noTerms => "[INVALID_TERM] A roll needs at least one term."
  | .notATerm shown => "[INVALID_TERM] " ++ shown ++ " is not a roll term."
  | .badMethodName name =>
    "[INVALID_METHOD] '" ++ name ++ "' is not a valid fulfillment method name."
  | .unknownMethod name known =>
    "[INVALID_METHOD] Unknown fulfillment method '" ++ name ++ "'. Known methods: " ++
      ", ".intercalate known ++ "."
  | .impossibleResult shown formula method =>
    "[INVALID_RESULT] " ++ shown ++ " is not a possible result of '" ++ formula ++
      "' (method '" ++ method ++ "')."

/-- A fault, by cause.  The part that a refusal points at is a text as a rule; for
terms that were restored from data it can be what the data held in its place. -/
inductive Fault where
  | parse (reason : ParseReason) (formula : String) (part : Json) (position : Option Nat)
  | modifier (reason : ModifierReason) (term command : String)
  | determinism (reason : DeterminismReason) (term : String)
  | cancelled
  | use (reason : UseReason)
  /-- A number out of range outside of a function. -/
  | number (failure : NumberFault)
  /-- A value of a kind that the operation does not take, or an argument that is missing. -/
  | wrongKind
  /-- A pair without exactly two elements, or an integer with more digits than can be read. -/
  | wrongLength
  /-- A record without a field that it must have. -/
  | missingField
  /-- Data that is no record where one is read. -/
  | notARecord
  /-- A mark that looks like a digit where a number begins. -/
  | notADigit
  | invalidSettings
  /-- A setting that should be a record but cannot be read as data. -/
  | unreadableSettings
  | invalidText
  /-- A text of data with more containers open at once than can be read. -/
  | tooNested
  | unknownLevel

namespace Fault

/-- A refusal of a clause that is not tied to a place in a formula. -/
def clause (reason : ParseReason) (substring : String) : Fault :=
  .parse reason "" (.string substring) none

/-- A refusal of data in the place of a clause. -/
def clauseData (reason : ParseReason) (part : Json) : Fault := .parse reason "" part none

/-- The message of a fault that is addressed to the writer of the formula. -/
def message? : Fault → Option String
  | .parse reason _ part position =>
    let shown := if part.isSet then " in '" ++ part.plainText ++ "'" else ""
    let place := match position with
      | none => ""
      | some p => " at position " ++ toString p
    some ("[PARSE_ERROR] " ++ reason.message ++ shown ++ place ++ ".")
  | .modifier reason term command =>
    some ("[MODIFIER_ERROR] " ++ reason.message ++ " Modifier '" ++ command ++ "' of term '" ++
      term ++ "'.")
  | .determinism reason term =>
    some ("[DETERMINISM_ERROR] " ++ reason.message ++ " Term '" ++ term ++ "'.")
  | .cancelled =>
    some "[FULFILLMENT_CANCELLED] The roll resolver was closed before all dice were fulfilled."
  | .use reason => some reason.message
  | _ => none

/-- Whether the fault is addressed to the writer of the formula. -/
def isAddressed (fault : Fault) : Bool := fault.message?.isSome

end Fault

/-- The result of an operation on numbers, with its failure as a fault. -/
def liftNumber {α : Type} : Except NumberFault α → Except Fault α
  | .ok a => .ok a
  | .error failure => .error (.number failure)

end DiceNotation
