import DiceNotation.Fault
import DiceNotation.Json.Value
import DiceNotation.Text.Identifier

namespace DiceNotation

/-!
# Fulfillment methods

A method names where the value of a die comes from.  Interactive methods wait
for the outside.  The others ask a handler, and where there is none, or where
it has no answer, the uniform source decides.
-/

/-- How a handler hands over its answers. -/
inductive Delivery where
  /-- At once. -/
  | direct
  /-- When they are waited for; nothing happens before. -/
  | deferred
  /-- When they are waited for, but they are taken at the call. -/
  | promised
  deriving DecidableEq, Repr

/-- What answers for a die. -/
inductive Handler where
  | lowest
  | highest
  /-- Prepared answers, in turn and repeated for ever. -/
  | prepared (delivery : Delivery) (answers : List Json)

/-- A fulfillment method. -/
structure Method where
  interactive : Bool := false
  handler : Option Handler := none

/-- The known methods by name.  Every name is an identifier. -/
structure MethodTable where
  entries : List (String × Method)
  identifiers : ∀ entry ∈ entries, Text.isIdentifier entry.1.toList = true

namespace MethodTable

/-- The methods that are always known. -/
def standard : MethodTable where
  entries := [("random", {}), ("manual", { interactive := true }),
    ("minimum", { handler := some .lowest }), ("maximum", { handler := some .highest })]
  identifiers := by decide

def find? (table : MethodTable) (name : String) : Option Method := List.lookup name table.entries

/-- Makes a method known under a name, which must be an identifier. -/
def register (table : MethodTable) (name : String) (method : Method) : Except Fault MethodTable :=
  if named : Text.isIdentifier name.toList = true then
    .ok {
      entries := (name, method) :: table.entries.filter fun entry => entry.1 != name
      identifiers := fun entry member => by
        rcases List.mem_cons.1 member with rfl | earlier
        · exact named
        · exact table.identifiers entry (List.mem_filter.1 earlier).1 }
  else .error (.use (.badMethodName name))

/-- The names of the known methods in ascending order. -/
def names (table : MethodTable) : List String :=
  (table.entries.map (·.1)).mergeSort fun a b => !(b < a)

/-- The method of a name. -/
def get (table : MethodTable) (name : String) : Except Fault Method :=
  match table.find? name with
  | some method => .ok method
  | none => .error (.use (.unknownMethod name table.names))

/-- The method that data names.  Other data than a text is the name of none. -/
def named (table : MethodTable) : Json → Except Fault Method
  | .string name => table.get name
  | .array _ => .error .wrongKind
  | .object _ => .error .wrongKind
  | other => .error (.use (.unknownMethod other.plainText table.names))

end MethodTable
end DiceNotation
