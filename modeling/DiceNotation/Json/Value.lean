import DiceNotation.Number.Text
import DiceNotation.Text.Quoted

namespace DiceNotation

/-!
# Data records

Rolls and terms are stored as plain data: null, truth values, numbers, texts,
lists and records of named fields.  Fields keep the order in which they were
first written; writing a field again replaces its value in place.
-/

/-- Plain data. -/
inductive Json where
  | null
  | bool (value : Bool)
  | number (value : Number)
  | string (value : String)
  | array (items : List Json)
  | object (fields : List (String × Json))

/-- Named fields in the order of their first writing. -/
abbrev Fields := List (String × Json)

namespace Fields

/-- The value of a field. -/
def get? (fields : Fields) (name : String) : Option Json :=
  (fields.find? fun field => field.1 == name).map (·.2)

/-- Writes a field: in place if it is there, at the end otherwise. -/
def set : Fields → String → Json → Fields
  | [], name, value => [(name, value)]
  | (key, old) :: rest, name, value =>
    if key == name then (key, value) :: rest else (key, old) :: set rest name value

theorem get?_nil (name : String) : get? [] name = none := rfl

theorem get?_cons (key name : String) (value : Json) (rest : Fields) :
    get? ((key, value) :: rest) name = if key == name then some value else get? rest name := by
  cases h : key == name <;> simp [get?, h]

theorem get?_set_self (fields : Fields) (name : String) (value : Json) :
    (fields.set name value).get? name = some value := by
  induction fields with
  | nil => simp [set, get?_cons]
  | cons field rest ih =>
    obtain ⟨key, old⟩ := field
    cases h : key == name <;> simp [set, h, get?_cons, ih]

theorem get?_set_of_ne (fields : Fields) (name other : String) (value : Json)
    (different : name ≠ other) : (fields.set name value).get? other = fields.get? other := by
  induction fields with
  | nil => simp [set, get?_cons, get?_nil, different]
  | cons field rest ih =>
    obtain ⟨key, old⟩ := field
    cases h : key == name
    · simp [set, h, get?_cons, ih]
    · have same : key = name := by simpa using h
      subst same
      simp [set, get?_cons, different]

end Fields

namespace Json

def ofInt (n : Int) : Json := .number (.int n)

def ofNat (n : Nat) : Json := .number (.int n)

/-- A text, or null. -/
def ofText? : Option String → Json
  | some text => .string text
  | none => .null

/-- Whether a value counts as set: null, false, zero and empty values do not. -/
def isSet : Json → Bool
  | .null => false
  | .bool value => value
  | .number value => !value.isZero
  | .string value => value != ""
  | .array items => !items.isEmpty
  | .object fields => !fields.isEmpty

mutual

/-- A value as a message quotes it. -/
def quoted : Json → String
  | .null => "None"
  | .bool true => "True"
  | .bool false => "False"
  | .number value => value.text
  | .string value => Text.quoted value
  | .array items => "[" ++ ", ".intercalate (quotedItems items) ++ "]"
  | .object fields => "\x7b" ++ ", ".intercalate (quotedFields fields) ++ "\x7d"

def quotedItems : List Json → List String
  | [] => []
  | item :: rest => quoted item :: quotedItems rest

def quotedFields : Fields → List String
  | [] => []
  | (name, value) :: rest => (Text.quoted name ++ ": " ++ quoted value) :: quotedFields rest

end

/-- A value as a message shows it: a text stands without quotes. -/
def plainText : Json → String
  | .string value => value
  | value => value.quoted

/-- A value as formulas and results show it: a real that is equal to an integer
is written as the integer. -/
def shown : Json → String
  | .number value => value.plainText
  | value => value.plainText

end Json
end DiceNotation
