import DiceNotation.Fault

namespace DiceNotation
namespace Json

/-!
# Reading data from text

The text is cut into tokens, and the tokens are taken one by one into the
containers that are still open.  Blanks are the space, the tab and the two
line ends.  A number with a point or an exponent is a real, any other an
integer.  An integer can have so many digits, and containers can nest so deep,
that they are not read; each is a fault of its own where a value may stand.
-/

/-- A token: a mark of structure, a whole value, or what cannot be read. -/
inductive Token where
  | openArray
  | closeArray
  | openObject
  | closeObject
  | comma
  | colon
  | value (v : Json)
  /-- An integer with too many digits. -/
  | overlong
  /-- A text that begins no token. -/
  | unreadable

/-- The most digits that an integer may have. -/
def digitLimit : Nat := 4300

/-- The most containers that may be open at once. -/
def nestingLimit : Nat := 985

/-- The value of a hexadecimal digit. -/
def hexDigit? (c : Char) : Option Nat :=
  if '0' ≤ c && c ≤ '9' then some (c.toNat - 48)
  else if 'a' ≤ c && c ≤ 'f' then some (c.toNat - 87)
  else if 'A' ≤ c && c ≤ 'F' then some (c.toNat - 55)
  else none

/-- The number written by four hexadecimal digits. -/
def hexUnit? (a b c d : Char) : Option Nat := do
  let a ← hexDigit? a
  let b ← hexDigit? b
  let c ← hexDigit? c
  let d ← hexDigit? d
  return 4096 * a + 256 * b + 16 * c + d

/-- A lone half of a pair has no character of its own; it becomes the
replacement character. -/
def charOfUnit (unit : Nat) : Char :=
  if 0xD800 ≤ unit && unit < 0xE000 then '\ufffd' else Char.ofNat unit

/-- The character of two halves, the first below and the second above. -/
def charOfPair (high low : Nat) : Char :=
  Char.ofNat (0x10000 + (high - 0xD800) * 0x400 + (low - 0xDC00))

/-- The character of a one-letter escape. -/
def escape? : Char → Option Char
  | '\x22' => some '\x22'
  | '\\' => some '\\'
  | '/' => some '/'
  | 'b' => some '\x08'
  | 'f' => some '\x0c'
  | 'n' => some '\n'
  | 'r' => some '\r'
  | 't' => some '\t'
  | _ => none

/-- Reads a text after its opening quote.  `high` is the first half of a pair
that waits for the second one.  The result is the text and what follows the
closing quote. -/
def readText (taken : List Char) (high : Option Nat) : List Char → Option (List Char × List Char)
  | [] => none
  | '\x22' :: rest =>
    some ((match high with | some _ => '\ufffd' :: taken | none => taken).reverse, rest)
  | '\\' :: 'u' :: a :: b :: c :: d :: rest =>
    match hexUnit? a b c d, high with
    | none, _ => none
    | some unit, none =>
      if 0xD800 ≤ unit && unit < 0xDC00 then readText taken (some unit) rest
      else readText (charOfUnit unit :: taken) none rest
    | some unit, some first =>
      if 0xDC00 ≤ unit && unit < 0xE000 then readText (charOfPair first unit :: taken) none rest
      else if 0xD800 ≤ unit && unit < 0xDC00 then
        readText ('\ufffd' :: taken) (some unit) rest
      else readText (charOfUnit unit :: '\ufffd' :: taken) none rest
  | '\\' :: c :: rest =>
    match escape? c with
    | none => none
    | some plain =>
      readText (plain :: (match high with | some _ => '\ufffd' :: taken | none => taken)) none rest
  | c :: rest =>
    if c.toNat < 0x20 || c == '\\' then none
    else readText (c :: (match high with | some _ => '\ufffd' :: taken | none => taken)) none rest

/-- Whether a character is one of the ten digits. -/
def isDigit (c : Char) : Bool := '0' ≤ c && c ≤ '9'

/-- The number that a run of digits denotes. -/
def natOfDigits (digits : List Char) : Nat :=
  digits.foldl (fun n c => 10 * n + (c.toNat - 48)) 0

/-- The exponent part of a number, if it is complete, and what follows. -/
def readExponent (text : List Char) : Option (Int × List Char) :=
  match text with
  | mark :: rest =>
    if mark == 'e' || mark == 'E' then
      let (negative, digits) := match rest with
        | '-' :: more => (true, more)
        | '+' :: more => (false, more)
        | more => (false, more)
      let run := digits.takeWhile isDigit
      if run.isEmpty then none
      else
        let size : Int := natOfDigits run
        some (if negative then -size else size, digits.dropWhile isDigit)
    else none
  | [] => none

/-- The places after the point, if there are any, and what follows. -/
def readPlaces (text : List Char) : Option (List Char × List Char) :=
  match text with
  | '.' :: rest =>
    let run := rest.takeWhile isDigit
    if run.isEmpty then none else some (run, rest.dropWhile isDigit)
  | _ => none

/-- The token of a number without its sign, and what follows.  A leading zero
stands alone. -/
def readNumber (negative : Bool) (text : List Char) : Option (Token × List Char) :=
  let run := text.takeWhile isDigit
  let (whole, afterWhole) : List Char × List Char :=
    if run.head? == some '0' then (['0'], text.drop 1) else (run, text.dropWhile isDigit)
  if whole.isEmpty then none
  else
    let places := readPlaces afterWhole
    let afterPlaces := (places.map (·.2)).getD afterWhole
    let exponent := readExponent afterPlaces
    let rest := (exponent.map (·.2)).getD afterPlaces
    if places.isNone && exponent.isNone then
      if digitLimit < whole.length then some (.overlong, rest)
      else
        let n : Int := natOfDigits whole
        some (.value (.ofInt (if negative then -n else n)), rest)
    else
      let fraction := (places.map (·.1)).getD []
      let shift := (exponent.map (·.1)).getD 0
      let x := Number.realOfDecimal (natOfDigits (whole ++ fraction)) (shift - fraction.length)
      some (.value (.number (.real (if negative then -x else x))), rest)

/-- The names of values. -/
def names : List (List Char × Json) :=
  [("null".toList, .null), ("true".toList, .bool true), ("false".toList, .bool false),
    ("NaN".toList, .number (.real (0.0 / 0.0))),
    ("Infinity".toList, .number (.real (1.0 / 0.0))),
    ("-Infinity".toList, .number (.real (-1.0 / 0.0)))]

/-- The first token of a text that does not begin with a blank, and what
follows it. -/
def nextToken (text : List Char) : Option (Token × List Char) :=
  match text with
  | '[' :: rest => some (.openArray, rest)
  | ']' :: rest => some (.closeArray, rest)
  | '\x7b' :: rest => some (.openObject, rest)
  | '\x7d' :: rest => some (.closeObject, rest)
  | ',' :: rest => some (.comma, rest)
  | ':' :: rest => some (.colon, rest)
  | '\x22' :: rest =>
    (readText [] none rest).map fun (taken, more) => (.value (.string (String.ofList taken)), more)
  | _ =>
    match names.find? fun name => name.1.isPrefixOf text with
    | some (name, v) => some (.value v, text.drop name.length)
    | none =>
      let (negative, unsigned) := match text with
        | '-' :: rest => (true, rest)
        | rest => (false, rest)
      readNumber negative unsigned

/-- Whether a character separates tokens. -/
def isBlank (c : Char) : Bool := c == ' ' || c == '\t' || c == '\n' || c == '\r'

/-- The tokens of a text, up to the first that cannot be read.  A token that
leaves no shorter rest counts as one, so the text is used up. -/
def tokens (text : List Char) : List Token :=
  match text with
  | [] => []
  | c :: rest =>
    if isBlank c then tokens rest
    else
      match nextToken (c :: rest) with
      | none => [.unreadable]
      | some (token, more) =>
        if more.length < (c :: rest).length then token :: tokens more else [.unreadable]
termination_by text.length
decreasing_by
  · exact Nat.lt_succ_self _
  · assumption

/-- A container that is still open. -/
inductive Frame where
  | array (items : List Json)
  | object (fields : Fields) (name : String)

/-- What may come next, with the open containers from the inside out. -/
inductive Stage where
  | value (frames : List Frame)
  | firstItem (frames : List Frame)
  | afterItem (items : List Json) (frames : List Frame)
  | firstName (frames : List Frame)
  | nextName (fields : Fields) (frames : List Frame)
  | colon (fields : Fields) (name : String) (frames : List Frame)
  | afterField (fields : Fields) (frames : List Frame)
  | finished (value : Json)

/-- Hands a complete value to the innermost open container.  Items are kept
latest first. -/
def deliver (v : Json) : List Frame → Stage
  | [] => .finished v
  | .array items :: frames => .afterItem (v :: items) frames
  | .object fields name :: frames => .afterField (fields.set name v) frames

/-- Opens one more container, if that is allowed. -/
def openContainer (frames : List Frame) (stage : Stage) : Except Fault Stage :=
  if frames.length < nestingLimit then .ok stage else .error .tooNested

/-- Takes a token where a value may stand. -/
def startValue (frames : List Frame) : Token → Except Fault Stage
  | .value v => .ok (deliver v frames)
  | .openArray => openContainer frames (.firstItem frames)
  | .openObject => openContainer frames (.firstName frames)
  | .overlong => .error .wrongLength
  | _ => .error .invalidText

/-- Takes one token. -/
def Stage.take : Stage → Token → Except Fault Stage
  | .value frames, token => startValue frames token
  | .firstItem frames, .closeArray => .ok (deliver (.array []) frames)
  | .firstItem frames, token => startValue (.array [] :: frames) token
  | .afterItem items frames, .comma => .ok (.value (.array items :: frames))
  | .afterItem items frames, .closeArray => .ok (deliver (.array items.reverse) frames)
  | .firstName frames, .closeObject => .ok (deliver (.object []) frames)
  | .firstName frames, .value (.string key) => .ok (.colon [] key frames)
  | .nextName fields frames, .value (.string key) => .ok (.colon fields key frames)
  | .colon fields key frames, .colon => .ok (.value (.object fields key :: frames))
  | .afterField fields frames, .comma => .ok (.nextName fields frames)
  | .afterField fields frames, .closeObject => .ok (deliver (.object fields) frames)
  | _, _ => .error .invalidText

/-- The data that a text holds, if it is well formed. -/
def read (text : String) : Except Fault Json := do
  match ← (tokens text.toList).foldlM Stage.take (.value []) with
  | .finished v => .ok v
  | _ => .error .invalidText

/-- The data that a text holds, if there is any. -/
def read? (text : String) : Option Json := (read text).toOption

end Json
end DiceNotation
