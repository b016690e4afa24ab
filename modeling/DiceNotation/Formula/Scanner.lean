import DiceNotation.Formula.Lexeme

namespace DiceNotation

/-!
# Scanning formulas

The scanner reads a formula from the left, one clause after another.  Brackets
nest: an expression inside brackets is read by the scanner of the next level,
and there are as many levels as brackets may be open at once.
`Source.expressionAt` is defined by recursion on the levels that are left.
Within one level every loop goes along the text, which each step shortens.
-/

/-- A formula to be read, with the choices that decide how. -/
structure Source where
  text : List Char
  imputeNumber : Bool
  maxNesting : Nat

/-- A reader of clauses. -/
abbrev ClauseReader := (text : List Char) → Except Fault (Scanned Clause text)

/-- A reader of expressions. -/
abbrev ExpressionReader := (text : List Char) → Except Fault (Scanned (Tree Clause) text)

/-- The clauses behind the first one of an expression, each with the row of
operators before it. -/
def Scan.following (clause : ClauseReader) (text : List Char) :
    Except Fault (Reached (List (List Char × Clause)) text) :=
  match Lexeme.operators text with
  | none => .ok ⟨[], text, Nat.le_refl _⟩
  | some row =>
    match clause row.rest with
    | .error fault => .error fault
    | .ok next =>
      match Scan.following clause next.rest with
      | .error fault => .error fault
      | .ok more => .ok ⟨(row.value, next.value) :: more.value, more.rest, by
          have := row.shorter
          have := next.shorter
          have := more.within
          omega⟩
termination_by text.length
decreasing_by
  have := row.shorter
  have := next.shorter
  omega

namespace Source

variable (source : Source)

/-- The position of a place, given by the text left from there on. -/
def position (place : List Char) : Nat := source.text.length - place.length

/-- The refusal of a part of the formula at a place. -/
def refuse {α : Type} (reason : ParseReason) (part place : List Char) : Except Fault α :=
  .error (.parse reason (String.ofList source.text) (.string (String.ofList part))
    (some (source.position place)))

/-- Puts the clauses of an expression together, or refuses the first row of
operators that does not reduce.  `start` and `stop` delimit the expression. -/
def assemble (run : Run) (start stop : List Char) : Except Fault (Tree Clause) :=
  match run.tree with
  | .ok tree => .ok tree
  | .error row =>
    .error (.parse (.operatorSequence (String.ofList row)) (String.ofList source.text)
      (.string (String.ofList (Text.trim (Text.stretch start stop)))) (Text.find? row source.text))

/-- An expression: leading signs, a clause, and clauses joined by operators. -/
def expression (clause : ClauseReader) : ExpressionReader := fun text =>
  let opening := Lexeme.signs text
  match clause opening.rest with
  | .error fault => .error fault
  | .ok first =>
    match Scan.following clause first.rest with
    | .error fault => .error fault
    | .ok more =>
      let run : Run := ⟨opening.value, first.value, more.value⟩
      match source.assemble run (Text.skipBlanks text) more.rest with
      | .error fault => .error fault
      | .ok tree => .ok ⟨tree, more.rest, by
          have := opening.within
          have := first.shorter
          have := more.within
          omega⟩

/-- An expression in round brackets.  The text begins with the opening one;
`inner` reads the next level, if a further bracket may be opened. -/
def bracketed (inner : Option ExpressionReader) (c : Char) (rest : List Char) :
    Except Fault (Scanned (Tree Clause) (c :: rest)) :=
  match inner with
  | none => source.refuse (.tooDeep source.maxNesting) [c] (c :: rest)
  | some read =>
    match read rest with
    | .error fault => .error fault
    | .ok scanned =>
      match ended : Text.skipBlanks scanned.rest with
      | ')' :: after => .ok ⟨scanned.value, after, by
          have skipped := Text.length_skipBlanks_le scanned.rest
          have shorter := scanned.shorter
          rw [ended] at skipped
          simp only [List.length_cons] at *
          omega⟩
      | other =>
        source.refuse (.missingClose ')') (Text.stretch (c :: rest) other) (c :: rest)

/-- Expressions separated by commas, up to the closing mark.  `opened` is the
place of the opening bracket. -/
def separated (read : ExpressionReader) (closing : Char) (opened text : List Char) :
    Except Fault (Scanned (List (Tree Clause)) text) :=
  match read text with
  | .error fault => .error fault
  | .ok scanned =>
    match ended : Text.skipBlanks scanned.rest with
    | [] => source.refuse (.missingClose closing) (Text.stretch opened []) opened
    | c :: after =>
      have shorter : after.length < text.length := by
        have skipped := Text.length_skipBlanks_le scanned.rest
        have shorter := scanned.shorter
        rw [ended] at skipped
        simp only [List.length_cons] at *
        omega
      if c == ',' then
        match separated read closing opened after with
        | .error fault => .error fault
        | .ok more =>
          .ok ⟨scanned.value :: more.value, more.rest, Nat.lt_trans more.shorter shorter⟩
      else if c == closing then .ok ⟨[scanned.value], after, shorter⟩
      else source.refuse (.missingClose closing) (Text.stretch opened (c :: after)) opened
termination_by text.length

/-- A list of expressions in brackets, which may be empty.  The text begins
with the opening bracket. -/
def listed (inner : Option ExpressionReader) (closing c : Char) (rest : List Char) :
    Except Fault (Scanned (List (Tree Clause)) (c :: rest)) :=
  match inner with
  | none => source.refuse (.tooDeep source.maxNesting) [c] (c :: rest)
  | some read =>
    have within : (Text.skipBlanks rest).length < (c :: rest).length :=
      Nat.lt_succ_of_le (Text.length_skipBlanks_le rest)
    match begun : Text.skipBlanks rest with
    | [] =>
      match source.separated read closing (c :: rest) [] with
      | .error fault => .error fault
      | .ok scanned =>
        .ok ⟨scanned.value, scanned.rest, Nat.lt_trans scanned.shorter (Nat.zero_lt_succ _)⟩
    | m :: after =>
      if m == closing then
        .ok ⟨[], after, by
          rw [begun, List.length_cons] at within
          exact Nat.lt_of_succ_lt within⟩
      else
        match source.separated read closing (c :: rest) (m :: after) with
        | .error fault => .error fault
        | .ok scanned =>
          .ok ⟨scanned.value, scanned.rest, Nat.lt_trans scanned.shorter (begun ▸ within)⟩

/-- The faces behind a die sign: a bracketed expression, a number or a letter. -/
def faces (inner : Option ExpressionReader) (text : List Char) :
    Except Fault (Reached (Option (Faces Clause)) text) :=
  match text with
  | [] => .ok ⟨none, [], Nat.le_refl _⟩
  | c :: rest =>
    if c == '(' then
      match source.bracketed inner c rest with
      | .error fault => .error fault
      | .ok scanned =>
        let computed := Amount.computed scanned.value (textBetween (c :: rest) scanned.rest)
        .ok ⟨some (.amount computed), scanned.rest, Nat.le_of_lt scanned.shorter⟩
    else if Text.isDigitLike c then
      if first : Text.isDigit c = true then
        let scanned := Lexeme.wholeNumber c rest first
        .ok ⟨some (.amount (.known (Text.natOfDigits scanned.value))), scanned.rest,
          Nat.le_of_lt scanned.shorter⟩
      else .error .notADigit
    else if Text.isLetter c then
      .ok ⟨some (.letter (String.ofList (Text.lowerChar c))), rest, Nat.le_succ _⟩
    else .ok ⟨none, c :: rest, Nat.le_refl _⟩

/-- The refusal of dice that lack a part. -/
def refuseDice {α : Type} (reason : ParseReason) (start stop : List Char) : Except Fault α :=
  source.refuse reason (Text.stretch start stop) start

/-- Dice from behind the die sign on.  `start` is the place where the clause
begins and `number` what was read before the die sign. -/
def dice (inner : Option ExpressionReader) (number : Option (Amount Clause))
    (start text : List Char) : Except Fault (Reached Clause text) :=
  match source.faces inner text with
  | .error fault => .error fault
  | .ok read =>
    let modifiers := Lexeme.modifiers read.rest
    let flavor := Lexeme.flavor modifiers.rest
    match read.value, number.or (if source.imputeNumber then some (.known 1) else none) with
    | none, _ => source.refuseDice .missingFaces start flavor.rest
    | some _, none => source.refuseDice .missingNumber start flavor.rest
    | some found, some amount =>
      .ok ⟨.dice amount found (String.ofList modifiers.value) flavor.value
          (textBetween start flavor.rest), flavor.rest,
        Nat.le_trans flavor.within (Nat.le_trans modifiers.within read.within)⟩

/-- A clause that begins with an opening bracket: a bracketed expression, or
dice whose number it computes. -/
def bracketClause (inner : Option ExpressionReader) (c : Char) (rest : List Char) :
    Except Fault (Scanned Clause (c :: rest)) :=
  match source.bracketed inner c rest with
  | .error fault => .error fault
  | .ok scanned =>
    let group : Except Fault (Scanned Clause (c :: rest)) :=
      let flavor := Lexeme.flavor scanned.rest
      .ok ⟨.group scanned.value flavor.value (textBetween (c :: rest) flavor.rest), flavor.rest,
        Nat.lt_of_le_of_lt flavor.within scanned.shorter⟩
    match ended : scanned.rest with
    | [] => group
    | d :: after =>
      if Lexeme.isDieSign d then
        let number := Amount.computed scanned.value (textBetween (c :: rest) scanned.rest)
        match source.dice inner (some number) (c :: rest) after with
        | .error fault => .error fault
        | .ok found => .ok ⟨found.value, found.rest, by
            have shorter := scanned.shorter
            rw [ended, List.length_cons] at shorter
            exact Nat.lt_of_le_of_lt found.within (Nat.lt_of_succ_lt shorter)⟩
      else group

/-- A pool in braces. -/
def poolClause (inner : Option ExpressionReader) (c : Char) (rest : List Char) :
    Except Fault (Scanned Clause (c :: rest)) :=
  match source.listed inner '\x7d' c rest with
  | .error fault => .error fault
  | .ok scanned =>
    if scanned.value.isEmpty then
      source.refuse .emptyPool (Text.stretch (c :: rest) scanned.rest) (c :: rest)
    else
      let modifiers := Lexeme.modifiers scanned.rest
      let flavor := Lexeme.flavor modifiers.rest
      .ok ⟨.pool scanned.value (String.ofList modifiers.value) flavor.value
          (textBetween (c :: rest) flavor.rest), flavor.rest,
        Nat.lt_of_le_of_lt (Nat.le_trans flavor.within modifiers.within) scanned.shorter⟩

/-- A clause that begins with a digit: a number, or dice with that number. -/
def numberClause (inner : Option ExpressionReader) (c : Char) (rest : List Char)
    (first : Text.isDigit c = true) : Except Fault (Scanned Clause (c :: rest)) :=
  let scanned := Lexeme.number c rest first
  let plain : Except Fault (Scanned Clause (c :: rest)) :=
    let flavor := Lexeme.flavor scanned.rest
    .ok ⟨.numeric (Lexeme.numberValue scanned.value) flavor.value
        (textBetween (c :: rest) flavor.rest), flavor.rest,
      Nat.lt_of_le_of_lt flavor.within scanned.shorter⟩
  match ended : scanned.rest with
  | [] => plain
  | d :: after =>
    if Lexeme.isDieSign d then
      if Lexeme.hasPoint scanned.value then
        source.refuse .fractionalNumber scanned.value (c :: rest)
      else
        let number := Amount.known (Text.natOfDigits scanned.value)
        match source.dice inner (some number) (c :: rest) after with
        | .error fault => .error fault
        | .ok found => .ok ⟨found.value, found.rest, by
            have shorter := scanned.shorter
            rw [ended, List.length_cons] at shorter
            exact Nat.lt_of_le_of_lt found.within (Nat.lt_of_succ_lt shorter)⟩
    else plain

/-- A clause that begins with a letter or another character: a function, dice
without a number, or a word. -/
def wordClause (inner : Option ExpressionReader) (c : Char) (rest : List Char) :
    Except Fault (Scanned Clause (c :: rest)) :=
  match Lexeme.functionName c rest with
  | some name =>
    match ended : name.rest with
    | [] => source.refuse .unexpectedCharacter [c] (c :: rest)
    | opening :: inside =>
      match source.listed inner ')' opening inside with
      | .error fault => .error fault
      | .ok scanned =>
        let flavor := Lexeme.flavor scanned.rest
        .ok ⟨.function (String.ofList name.value) scanned.value flavor.value
            (textBetween (c :: rest) flavor.rest), flavor.rest, by
          have shorter := name.shorter
          rw [ended] at shorter
          exact Nat.lt_trans (Nat.lt_of_le_of_lt flavor.within scanned.shorter) shorter⟩
  | none =>
    if Lexeme.isDieSign c && Lexeme.opensDice rest then
      match source.dice inner none (c :: rest) rest with
      | .error fault => .error fault
      | .ok found => .ok ⟨found.value, found.rest, Nat.lt_succ_of_le found.within⟩
    else
      match Lexeme.word c rest with
      | none => source.refuse .unexpectedCharacter [c] (c :: rest)
      | some word =>
        let flavor := Lexeme.flavor word.rest
        .ok ⟨.text (String.ofList word.value) flavor.value
            (textBetween (c :: rest) flavor.rest), flavor.rest,
          Nat.lt_of_le_of_lt flavor.within word.shorter⟩

/-- One clause, told apart by its first character. -/
def clauseAt (inner : Option ExpressionReader) (c : Char) (rest : List Char) :
    Except Fault (Scanned Clause (c :: rest)) :=
  if c == '(' then source.bracketClause inner c rest
  else if c == '\x7b' then source.poolClause inner c rest
  else if Text.isDigitLike c then
    if first : Text.isDigit c = true then source.numberClause inner c rest first
    else .error .notADigit
  else source.wordClause inner c rest

/-- One clause with the blanks before it. -/
def clause (inner : Option ExpressionReader) : ClauseReader := fun text =>
  match begun : Text.skipBlanks text with
  | [] => source.refuse .formulaEnded (source.text.drop (source.text.length - 1)) []
  | c :: rest =>
    match source.clauseAt inner c rest with
    | .error fault => .error fault
    | .ok found => .ok ⟨found.value, found.rest, by
        have skipped := Text.length_skipBlanks_le text
        rw [begun] at skipped
        exact Nat.lt_of_lt_of_le found.shorter skipped⟩

/-- The reader of expressions that may open a number of further brackets. -/
def expressionAt : Nat → ExpressionReader
  | 0 => source.expression (source.clause none)
  | levels + 1 => source.expression (source.clause (some (expressionAt levels)))

/-- The tree of the whole formula. -/
def parse : Except Fault (Tree Clause) :=
  match source.expressionAt source.maxNesting source.text with
  | .error fault => .error fault
  | .ok scanned =>
    match Text.skipBlanks scanned.rest with
    | [] => .ok scanned.value
    | c :: rest => source.refuse .unexpectedCharacter (c :: rest) (c :: rest)

end Source
end DiceNotation
