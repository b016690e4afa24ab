import DiceNotation.Json.Value

namespace DiceNotation
namespace Fields

/-!
# Reading fields

Fields of a record by the kind of value that is expected.  A field that is
null, or of another kind, is as good as missing.
-/

/-- A field that is there and not null. -/
def given? (fields : Fields) (name : String) : Option Json :=
  match fields.get? name with
  | some .null => none
  | other => other

/-- A text. -/
def text? (fields : Fields) (name : String) : Option String :=
  match fields.get? name with
  | some (.string text) => some text
  | _ => none

/-- A text, which is empty if it is missing. -/
def text (fields : Fields) (name : String) : String := (fields.text? name).getD ""

/-- A number. -/
def number? (fields : Fields) (name : String) : Option Number :=
  match fields.get? name with
  | some (.number n) => some n
  | _ => none

/-- An integer. -/
def integer? (fields : Fields) (name : String) : Option Int :=
  match fields.get? name with
  | some (.number (.int n)) => some n
  | _ => none

/-- Whether a field counts as set, or what holds if it is missing. -/
def flag (fields : Fields) (name : String) (missing : Bool) : Bool :=
  match fields.given? name with
  | some value => value.isSet
  | none => missing

/-- The fields of a record inside, none if it is missing. -/
def record (fields : Fields) (name : String) : Fields :=
  match fields.get? name with
  | some (.object inner) => inner
  | _ => []

/-- The items of a list, none if it is missing. -/
def items (fields : Fields) (name : String) : List Json :=
  match fields.get? name with
  | some (.array list) => list
  | _ => []

/-- The fields of a value that should be a record. -/
def ofJson : Json → Fields
  | .object fields => fields
  | _ => []

end Fields
end DiceNotation
