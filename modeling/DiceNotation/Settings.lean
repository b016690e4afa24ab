import DiceNotation.Fault
import DiceNotation.Json.Reader
import DiceNotation.Text.Classes
import DiceNotation.Text.LowerCase

namespace DiceNotation

/-!
# Settings

Settings come from named texts such as the environment gives them.  A name is
known whatever its case, and names that mean nothing here are ignored.  A
value that does not fit refuses the settings as a whole.
-/

/-- What can be set for all rolls. -/
structure Settings where
  /-- The method of dice for which no other is named. -/
  defaultMethod : String := "random"
  /-- The method of the dice of one denomination. -/
  methods : List (String × String) := []
  /-- The most dice that one reroll or explosion may add. -/
  maxChainRolls : Nat := 100
  /-- The most brackets that may be open at once. -/
  maxNesting : Nat := 64
  lenientModifiers : Bool := false
  /-- Whether a die written without a number stands for one die. -/
  imputeNumber : Bool := true
  debugParsing : Bool := false
  logLevel : String := "INFO"

namespace Settings

/-- A truth value in one of its spellings. -/
def readBool? (text : String) : Option Bool :=
  let word := String.ofList (Text.lower text.toList)
  if ["1", "on", "t", "true", "y", "yes"].contains word then some true
  else if ["0", "off", "f", "false", "n", "no"].contains word then some false
  else none

/-- Digits in which single underscores may stand between two digits. -/
def readGrouped? : List Char → Option Nat
  | [] => none
  | text =>
    let groups := text.splitOn '_'
    if groups.all fun group => !group.isEmpty && group.all Json.isDigit then
      some (Json.natOfDigits groups.flatten)
    else none

/-- Whether a character can stand in the margin of a number: white space other
than the four information separators. -/
def isMargin (c : Char) : Bool := Text.isBlank c && !(0x1C ≤ c.toNat && c.toNat ≤ 0x1F)

/-- The text without its margins. -/
def withoutMargins (text : List Char) : List Char :=
  ((text.dropWhile isMargin).reverse.dropWhile isMargin).reverse

/-- The text without a fraction of zeros. -/
def withoutZeroPlaces (text : List Char) : List Char :=
  let places := text.dropWhile (· != '.')
  if 2 ≤ places.length && (places.drop 1).all (· == '0') then text.takeWhile (· != '.') else text

/-- A positive integer, with margins, a plus sign, zeros in front or a fraction
of zeros. -/
def readPositive? (text : String) : Option Nat :=
  let unsigned := match withoutMargins text.toList with
    | '+' :: rest => rest
    | rest => rest
  let significant :=
    if unsigned.head? == some '0' then unsigned.dropWhile fun c => c == '0' || c == '_'
    else unsigned
  let whole := withoutZeroPlaces significant
  if Json.digitLimit < (whole.filter (· != '_')).length then none else readGrouped? whole

/-- A positive integer up to a bound. -/
def readBounded? (most : Option Nat) (text : String) : Option Nat := do
  let n ← readPositive? text
  if most.all fun bound => n ≤ bound then return n else none

/-- A record in which every value is a text.  Null stands for no methods. -/
def readMethods? (text : String) : Option (List (String × String)) := do
  match ← Json.read? text with
  | .null => some []
  | .object fields =>
    fields.mapM fun field => match field.2 with
      | .string method => some (field.1, method)
      | _ => none
  | _ => none

/-- A name in small letters. -/
def key (name : String) : String := String.ofList (Text.lower name.toList)

/-- The named texts with their names in small letters.  Of several texts with
one name the last one counts. -/
def byKey (texts : List (String × String)) : List (String × String) :=
  texts.foldl (fun known text =>
    known.filter (·.1 != key text.1) ++ [(key text.1, text.2)]) []

/-- Why a named text that must hold data cannot be read, if it cannot. -/
def unreadable? (text : String × String) : Option Fault :=
  if text.1 != "dice_methods" then none
  else
    match Json.read text.2 with
    | .ok _ => none
    | .error .tooNested => some .tooNested
    | .error _ => some .unreadableSettings

/-- Applies one named text to the settings. -/
def apply (settings : Settings) (name value : String) : Option Settings :=
  match name with
  | "dice_default_method" => some { settings with defaultMethod := value }
  | "dice_methods" => (readMethods? value).map fun m => { settings with methods := m }
  | "dice_max_chain_rolls" =>
    (readBounded? none value).map fun n => { settings with maxChainRolls := n }
  | "dice_max_nesting" =>
    (readBounded? (some 128) value).map fun n => { settings with maxNesting := n }
  | "dice_lenient_modifiers" =>
    (readBool? value).map fun b => { settings with lenientModifiers := b }
  | "dice_impute_number" => (readBool? value).map fun b => { settings with imputeNumber := b }
  | "dice_debug_parsing" => (readBool? value).map fun b => { settings with debugParsing := b }
  | "dice_log_level" => some { settings with logLevel := value }
  | _ => some settings

/-- The settings that named texts give. -/
def ofNamed (texts : List (String × String)) : Except Fault Settings :=
  let known := byKey texts
  match known.findSome? unreadable? with
  | some fault => .error fault
  | none =>
    match known.foldlM (fun settings text => apply settings text.1 text.2) {} with
    | some settings => .ok settings
    | none => .error .invalidSettings

end Settings
end DiceNotation
