import DiceNotation.Fault
import DiceNotation.Number.Arithmetic

namespace DiceNotation
namespace Json

/-!
# Data in arithmetic

A record can hold any data where an amount belongs, and it keeps what it holds.
Whether that makes sense shows when it is used.  Numbers are added, multiplied
and compared by amount, and a truth value counts as one or zero.  Texts and
lists can be joined, repeated and compared with their like.  Everything else is
of the wrong kind.
-/

/-- The number that a value counts as. -/
def number? : Json → Option Number
  | .number n => some n
  | .bool b => some (.int (if b then 1 else 0))
  | _ => none

/-- A real that is equal to an integer, as that integer. -/
def wholeNumber : Json → Json
  | .number (.real x) =>
    match Number.integral? x with
    | some n => .ofInt n
    | none => .number (.real x)
  | value => value

/-- Whether a value is a text. -/
def isText : Json → Bool
  | .string _ => true
  | _ => false

/-- The elements of a value: the items of a list, the characters of a text or
the names of a record. -/
def elements : Json → Except Fault (List Json)
  | .array items => .ok items
  | .string text => .ok (text.toList.map fun c => .string c.toString)
  | .object fields => .ok (fields.map fun field => .string field.1)
  | _ => .error .wrongKind

/-! ## Equality and order -/

mutual

/-- Whether two values are equal.  Numbers are compared by amount, records
whatever the order of their fields. -/
def same : Json → Json → Bool
  | .null, .null => true
  | .string a, .string b => a == b
  | .array a, .array b => sameItems a b
  | .object a, .object b => a.length == b.length && sameFields a b
  | a, b =>
    match a.number?, b.number? with
    | some m, some n => Number.same m n
    | _, _ => false

def sameItems : List Json → List Json → Bool
  | [], [] => true
  | a :: rest, b :: others => same a b && sameItems rest others
  | _, _ => false

/-- Whether each field is equal to the one of the same name in another record. -/
def sameFields : Fields → Fields → Bool
  | [], _ => true
  | (name, a) :: rest, other =>
    (match Fields.get? other name with
      | some b => same a b
      | none => false) && sameFields rest other

end

/-- Whether a value is equal to zero. -/
def isZero (value : Json) : Bool := same value (.ofNat 0)

mutual

/-- Whether one value comes before another: numbers by amount, texts by their
characters, and lists by the first items that differ. -/
def precedes : Json → Json → Except Fault Bool
  | .string a, .string b => .ok (a < b)
  | .array a, .array b => precedesItems a b
  | a, b =>
    match a.number?, b.number? with
    | some m, some n => .ok (Number.below m n)
    | _, _ => .error .wrongKind

def precedesItems : List Json → List Json → Except Fault Bool
  | _, [] => .ok false
  | [], _ :: _ => .ok true
  | a :: rest, b :: others => if same a b then precedesItems rest others else precedes a b

end

/-- Whether one value comes before another or is equal to it. -/
def atMost (a b : Json) : Except Fault Bool := (precedes a b).map (· || same a b)

theorem same_number (m n : Number) : same (.number m) (.number n) = Number.same m n := by
  simp [same, number?]

theorem precedes_number (m n : Number) :
    precedes (.number m) (.number n) = .ok (Number.below m n) := by
  simp [precedes, number?]

theorem atMost_number (m n : Number) :
    atMost (.number m) (.number n) = .ok (Number.atMost m n) := by
  simp [atMost, precedes_number, same_number, Number.atMost, Except.map]

/-! ## Arithmetic -/

/-- The result of an operation on two values that count as numbers. -/
def combine (operation : Number → Number → Except NumberFault Number) (a b : Json) :
    Except Fault Json :=
  match a.number?, b.number? with
  | some m, some n => (liftNumber (operation m n)).map .number
  | _, _ => .error .wrongKind

/-- How often a text or a list is repeated.  Below zero it is as good as never. -/
def repetitions (count : Json) : Except Fault Nat :=
  match count.number? with
  | some (.int n) =>
    if n.natAbs < Number.twoTo 63 then .ok n.toNat else .error (.number .overflow)
  | _ => .error .wrongKind

/-- The sum of two numbers, or two texts or lists one behind the other. -/
def add : Json → Json → Except Fault Json
  | .string a, .string b => .ok (.string (a ++ b))
  | .array a, .array b => .ok (.array (a ++ b))
  | a, b => combine Number.add a b

def sub : Json → Json → Except Fault Json := combine Number.sub

/-- The product of two numbers, or a repeated text or list. -/
def mul : Json → Json → Except Fault Json
  | .string text, count => count.repetitions.map (repeated text)
  | count, .string text => count.repetitions.map (repeated text)
  | .array items, count => count.repetitions.map (repeatedItems items)
  | count, .array items => count.repetitions.map (repeatedItems items)
  | a, b => combine Number.mul a b
where
  repeated (text : String) (count : Nat) : Json := .string (String.join (List.replicate count text))
  repeatedItems (items : List Json) (count : Nat) : Json :=
    .array (List.replicate count items).flatten

/-- The quotient by a value other than zero. -/
def divide : Json → Json → Except Fault Json := combine Number.divide

/-- The remainder by a value other than zero. -/
def remainder : Json → Json → Except Fault Json := combine Number.remainder

def neg (value : Json) : Except Fault Json :=
  match value.number? with
  | some n => .ok (.number n.neg)
  | none => .error .wrongKind

/-- Whether a value leaves the given rest modulo two. -/
def leavesModTwo (rest : Int) (value : Json) : Except Fault Bool :=
  match value.number? with
  | some n => .ok (n.leavesModTwo rest)
  | none => .error .wrongKind

/-- The sum of values from the left, starting at the integer zero. -/
def total (values : List Json) : Except Fault Json := values.foldlM add (.ofNat 0)

theorem add_number (m n : Number) :
    add (.number m) (.number n) = (liftNumber (m.add n)).map .number := by
  simp [add, combine, number?]

theorem add_int (a b : Int) : add (.ofInt a) (.ofInt b) = .ok (.ofInt (a + b)) := rfl

theorem sub_int (a b : Int) : sub (.ofInt a) (.ofInt b) = .ok (.ofInt (a - b)) := rfl

theorem mul_int (a b : Int) : mul (.ofInt a) (.ofInt b) = .ok (.ofInt (a * b)) := rfl

/-- The first of `best :: rest` that none of the others comes before, in the
order in which `before` says what comes first. -/
def first (before : Json → Json → Except Fault Bool) (best : Json) : List Json → Except Fault Json
  | [] => .ok best
  | value :: rest => do
    if ← before value best then first before value rest else first before best rest

/-- The first greatest of the values `best :: rest`. -/
def greatest : Json → List Json → Except Fault Json := first fun a b => precedes b a

/-- The first least of the values `best :: rest`. -/
def least : Json → List Json → Except Fault Json := first precedes

/-! ## Records from pairs

Where a record of options or data is expected, a list of pairs will do as well: each pair names a
field and gives its value.  A later pair of the same name wins.  What counts as not set stands for
the empty record. -/

/-- The name that a value gives to a field. -/
def fieldName : Json → Except Fault String
  | .string text => .ok text
  | .number n => .ok n.text
  | .bool true => .ok "true"
  | .bool false => .ok "false"
  | .null => .ok "null"
  | _ => .error .wrongKind

/-- The field that a pair describes. -/
def field (pair : Json) : Except Fault (String × Json) := do
  match ← pair.elements with
  | [name, value] => return (← name.fieldName, value)
  | _ => .error .wrongLength

end Json

/-- The fields that a value gives, as a record or as pairs. -/
def Fields.ofData : Json → Except Fault Fields
  | .object fields => .ok fields
  | value =>
    if value.isSet then do
      (← value.elements).foldlM (fun fields pair => do
        let (name, content) ← pair.field
        return Fields.set fields name content) ([] : Fields)
    else .ok []

theorem Fields.ofData_object (fields : Fields) : Fields.ofData (.object fields) = .ok fields := rfl

end DiceNotation
