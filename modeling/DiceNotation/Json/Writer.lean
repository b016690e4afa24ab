import DiceNotation.Json.Value

namespace DiceNotation
namespace Json

/-!
# Writing data as text

Data is written without blanks.  Controls, the quote and the backslash are
escaped; every other character stands for itself.
-/

/-- One character inside a written text. -/
def writtenChar (c : Char) : List Char :=
  if c == '\x22' || c == '\\' then ['\\', c]
  else if c == '\n' then ['\\', 'n']
  else if c == '\r' then ['\\', 'r']
  else if c == '\t' then ['\\', 't']
  else if c.toNat < 0x20 then '\\' :: 'u' :: Text.hexadecimal 4 c.toNat
  else [c]

/-- A text between quotes. -/
def writtenText (text : String) : String :=
  String.ofList ('\x22' :: text.toList.flatMap writtenChar ++ ['\x22'])

/-- A number; the special reals have names of their own. -/
def writtenNumber : Number → String
  | .int n => toString n
  | .real x =>
    match Exact.ofReal x with
    | .undefined => "NaN"
    | .infinite false => "Infinity"
    | .infinite true => "-Infinity"
    | .finite _ _ => Number.realText x

mutual

/-- Data as text. -/
def written : Json → String
  | .null => "null"
  | .bool true => "true"
  | .bool false => "false"
  | .number value => writtenNumber value
  | .string value => writtenText value
  | .array items => "[" ++ ",".intercalate (writtenItems items) ++ "]"
  | .object fields => "\x7b" ++ ",".intercalate (writtenFields fields) ++ "\x7d"

def writtenItems : List Json → List String
  | [] => []
  | item :: rest => written item :: writtenItems rest

def writtenFields : Fields → List String
  | [] => []
  | (name, value) :: rest => (writtenText name ++ ":" ++ written value) :: writtenFields rest

end

end Json
end DiceNotation
