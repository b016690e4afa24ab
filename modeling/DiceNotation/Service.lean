import DiceNotation.Evaluation.Run
import DiceNotation.Number.Arithmetic
import DiceNotation.Roll.Derived
import DiceNotation.Roll.Explanation

namespace DiceNotation
namespace Service

/-!
# Services

What the program offers beyond single rolls: formulas are checked without
rolling, rolled many times over, or rolled once with a record that explains
the roll.
-/

/-- Builds the roll of a formula and evaluates it. -/
def roll (options : Options) (surroundings : Surroundings) (formula : String)
    (progress : Progress) : Except Fault Roll × Progress :=
  match Build.ofFormula surroundings.setup { formula := formula } progress.ledger with
  | .error fault => (.error fault, progress)
  | .ok (roll, ledger) =>
    let (result, later) := roll.run options surroundings { progress with ledger := ledger }
    (result.map fun _ => roll, later)

/-- The options that roll without chance and without the outside. -/
def checking : Options := { strict := false, minimize := true, allowInteractive := false }

/-- Surroundings in which nothing is left to chance. -/
def quiet (setup : Setup) : Surroundings where
  setup := setup
  synchronous := true
  uniform := fun _ => 0.0

/-- Rolls a formula only to see whether that is possible. -/
def check (setup : Setup) (formula : String) : Except Fault (Roll × Ledger) :=
  match roll checking (quiet setup) formula (.ofLedger .empty) with
  | (.ok checked, progress) => .ok (checked, progress.ledger)
  | (.error fault, _) => .error fault

/-- Whether a formula could be rolled, with zero for all of its references. -/
def validate (setup : Setup) (formula : String) : Except Fault Bool := do
  let outcome := do
    let text ← Reference.replaceText formula [] (some "0")
    check setup text
  match outcome with
  | .ok _ => return true
  | .error fault => if fault.isAddressed then return false else .error fault

/-- A formula that was checked, and the message why it cannot be rolled. -/
structure Verdict where
  formula : String
  refusal : Option String

/-- Checks a formula. -/
def judge (setup : Setup) (formula : String) : Except Fault Verdict :=
  match check setup formula with
  | .ok (checked, _) => .ok ⟨checked.formula, none⟩
  | .error fault =>
    match fault.message? with
    | some message => .ok ⟨formula, some message⟩
    | none => .error fault

/-- The totals of a formula that is rolled a number of times, the latest one
first, after those that are given. -/
def totals (options : Options) (surroundings : Surroundings) (formula : String) :
    Nat → List Json → Progress → Except Fault (List Json) × Progress
  | 0, earlier, progress => (.ok earlier, progress)
  | times + 1, earlier, progress =>
    match roll options surroundings formula { progress with ledger := .empty } with
    | (.error fault, later) => (.error fault, later)
    | (.ok rolled, later) =>
      totals options surroundings formula times (later.ledger.rollTotal rolled :: earlier) later

/-- A total as a number, for statistics. -/
def statistic : Json → Except Fault Number
  | .number n => .ok n
  | _ => .error .wrongKind

/-- The message about many rolls. -/
def summary (formula : String) (times : Nat) : List Number → Except Fault String
  | [] => .error .wrongKind
  | first :: rest => do
    let mean ← liftNumber (Number.mean (first :: rest))
    return "Simulated '" ++ formula ++ "' " ++ toString times ++ " times: mean " ++
      Number.fixedText 3 mean ++ ", min " ++ (Number.least first rest).text ++ ", max " ++
      (Number.greatest first rest).text

/-- Rolls a formula a number of times and reports statistics of the totals. -/
def simulate (options : Options) (surroundings : Surroundings) (formula : String) (times : Nat)
    (progress : Progress) : Except Fault (List Json) × Progress :=
  match totals options surroundings formula times [] progress with
  | (.error fault, later) => (.error fault, later)
  | (.ok latest, later) =>
    let all := latest.reverse
    if all.isEmpty then (.ok [], later)
    else
      match all.mapM statistic >>= summary formula times with
      | .error fault => (.error fault, later)
      | .ok message => (.ok all, later.report .info message)

/-- Where the results of a recorded roll come from. -/
def sourceName (minimize maximize : Bool) : String :=
  if minimize then "minimize" else if maximize then "maximize" else "secrets.SystemRandom"

/-- The record of an evaluated roll with its explanation. -/
def auditRecord (ledger : Ledger) (rolled : Roll) (input source : String) : Except Fault Json := do
  let result ← ledger.result rolled
  let explanation ← ledger.explanation rolled
  return .object [("input", .string input), ("formula", .string rolled.formula),
    ("rng", .object [("source", .string source)]), ("terms", .array (ledger.records rolled.terms)),
    ("total", ledger.rollTotal rolled), ("result", .string result),
    ("explanation", .string explanation)]

/-- Rolls a formula and gives the record of the roll. -/
def audit (surroundings : Surroundings) (formula : String) (minimize maximize : Bool)
    (progress : Progress) : Except Fault Json × Progress :=
  let options : Options := { strict := false, minimize := minimize, maximize := maximize }
  match roll options surroundings formula progress with
  | (.error fault, later) => (.error fault, later)
  | (.ok rolled, later) =>
    (auditRecord later.ledger rolled formula (sourceName minimize maximize), later)

/-- Why a request for a roll is not granted. -/
inductive Refusal where
  /-- With a message for whoever made the request. -/
  | explained (message : String)
  | fault (fault : Fault)

/-- Grants a request for a roll.  Refusals that are addressed to the writer of
the formula are passed on with their message. -/
def request (surroundings : Surroundings) (formula : String) (minimize maximize : Bool)
    (progress : Progress) : Except Refusal Json × Progress :=
  if minimize && maximize then
    (.error (.explained "[INVALID_OPTIONS] Choose at most one of minimize and maximize."), progress)
  else
    match audit surroundings formula minimize maximize progress with
    | (.ok record, later) => (.ok record, later)
    | (.error fault, later) =>
      match fault.message? with
      | some message => (.error (.explained message), later)
      | none => (.error (.fault fault), later)

/-- A formula with its references replaced, and messages about those that lead nowhere. -/
def replaceReferences (formula : String) (data : Fields) (missing : Option String) (warn : Bool) :
    Except Fault (String × List Message) := do
  let replaced ← Reference.replace data missing formula.toList
  let messages := replaced.unknown.map fun path =>
    ⟨.warning, "Formula data '@" ++ String.ofList path ++ "' is not defined"⟩
  return (String.ofList replaced.text, if warn then messages else [])

end Service
end DiceNotation
