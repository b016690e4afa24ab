import DiceNotation.Fault
import DiceNotation.Json.Value
import DiceNotation.Text.Classes
import DiceNotation.Text.Letter

namespace DiceNotation

/-!
# References to data

A formula may refer to data by `@path.to.value`.  A number takes the place of
its reference as it is written in formulas, a truth value as one or zero.  A
text that is a plain number does so as well; any other text is put in
brackets, so that it keeps its meaning inside the formula around it.
-/

namespace Reference

/-- Whether a character can be part of a path. -/
def insidePath (c : Char) : Bool :=
  Text.isBasicLetter c || Text.isBasicDigit c || c == '_' || c == '.' || c == '-'

/-- The value that a path of names leads to.  Null is as good as no value. -/
def lookUp : Json → List (List Char) → Option Json
  | .null, [] => none
  | value, [] => some value
  | .object fields, name :: path =>
    match Fields.get? fields (String.ofList name) with
    | some value => lookUp value path
    | none => none
  | _, _ :: _ => none

/-- Digits with or without a point and places. -/
def isUnsignedNumber (text : List Char) : Bool :=
  let whole := text.takeWhile Text.isDigit
  match text.dropWhile Text.isDigit with
  | [] => !whole.isEmpty
  | '.' :: places => !whole.isEmpty && !places.isEmpty && places.all Text.isDigit
  | _ => false

/-- Whether a text is a plain number, perhaps with a minus sign. -/
def isPlainNumber : List Char → Bool
  | '-' :: rest => isUnsignedNumber rest
  | text => isUnsignedNumber text

/-- The text that stands for a value in a formula. -/
def replacement (path : List Char) : Json → Except Fault (List Char)
  | .bool true => .ok ['1']
  | .bool false => .ok ['0']
  | .number value => .ok value.plainText.toList
  | .string value =>
    let text := Text.trim value.toList
    .ok (if isPlainNumber text then text else '(' :: text ++ [')'])
  | _ => .error (.use (.referenceKind (String.ofList path)))

/-- A formula with its references replaced, and the paths that lead nowhere.
Those become `missing` if it is given and stay otherwise. -/
structure Replaced where
  text : List Char
  unknown : List (List Char)

/-- Puts a text in front of what was replaced behind it. -/
def Replaced.behind (front : List Char) (replaced : Replaced) : Replaced :=
  { replaced with text := front ++ replaced.text }

/-- Replaces the references of a formula from the left to the right. -/
def replace (data : Fields) (missing : Option String) (formula : List Char) :
    Except Fault Replaced :=
  match formula with
  | [] => .ok ⟨[], []⟩
  | c :: rest =>
    if c == '@' && !(rest.takeWhile insidePath).isEmpty then
      let path := rest.takeWhile insidePath
      match lookUp (.object data) (path.splitOn '.') with
      | none =>
        match replace data missing (rest.dropWhile insidePath) with
        | .error fault => .error fault
        | .ok more =>
          let text := (missing.map String.toList).getD (c :: path)
          .ok ⟨text ++ more.text, path :: more.unknown⟩
      | some value =>
        match replacement path value with
        | .error fault => .error fault
        | .ok text =>
          match replace data missing (rest.dropWhile insidePath) with
          | .error fault => .error fault
          | .ok more => .ok (more.behind text)
    else
      match replace data missing rest with
      | .error fault => .error fault
      | .ok more => .ok (more.behind [c])
termination_by formula.length
decreasing_by
  all_goals
    have := (List.dropWhile_sublist (l := rest) insidePath).length_le
    simp only [List.length_cons]
    omega

/-- The text of a formula with its references replaced. -/
def replaceText (formula : String) (data : Fields) (missing : Option String) :
    Except Fault String :=
  match replace data missing formula.toList with
  | .error fault => .error fault
  | .ok replaced => .ok (String.ofList replaced.text)

end Reference
end DiceNotation
