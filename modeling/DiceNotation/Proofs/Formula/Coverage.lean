import DiceNotation.Proofs.Formula.ArithmeticScan
import DiceNotation.Proofs.Formula.Nesting

namespace DiceNotation

open Text Arithmetic

/-!
# What a reading covers

An expression is read as signs and clauses with rows of operators between them.  Written one
behind the other, with blanks before any of them, they are the text of the expression.  Nothing
of it is left out and nothing is read twice.  In a formula that can be read this holds of every
expression in it, and the expression of the whole formula leaves nothing but blanks.
-/

/-! ## Signs, operators and the text of a clause -/

theorem Arithmetic.Spaced.blank {token text : List Char} {tokens : List (List Char)} {c : Char}
    (blank : isBlank c = true) (spaced : Spaced (token :: tokens) text) :
    Spaced (token :: tokens) (c :: text) := by
  cases spaced with
  | @cons gap _ _ others blanks later =>
    have blanks : ∀ d ∈ c :: gap, isBlank d = true := List.forall_mem_cons.2 ⟨blank, blanks⟩
    exact .cons blanks later

theorem Arithmetic.Spaced.mark (c : Char) (gap : List Char) {row text : List Char}
    (blanks : ∀ d ∈ gap, isBlank d = true) (spaced : Spaced (marks row) text) :
    Spaced (marks (c :: row)) (gap ++ c :: text) := .cons blanks spaced

namespace Run

/-- The signs or operators before clauses, and the clauses, as they are written. -/
def tokensOf (pieces : List (List Char × Clause)) : List (List Char) :=
  pieces.flatMap fun piece => marks piece.1 ++ [piece.2.raw.toList]

theorem tokensOf_cons (row : List Char) (clause : Clause) (more : List (List Char × Clause)) :
    tokensOf ((row, clause) :: more) = marks row ++ clause.raw.toList :: tokensOf more := by
  simp [tokensOf]

/-- What is written of a run. -/
def tokens (run : Run) : List (List Char) := tokensOf ((run.signs, run.first) :: run.rest)

end Run

namespace Lexeme

/-- Leading signs are read with the blanks before the first clause. -/
theorem splitSigns_spaced (text : List Char) :
    (∀ c ∈ (splitSigns text).1, isSign c = true) ∧
    ∃ lead gap, text = lead ++ (gap ++ (splitSigns text).2) ∧
      Spaced (marks (splitSigns text).1) lead ∧ ∀ c ∈ gap, isBlank c = true := by
  fun_induction splitSigns text with
  | case1 => exact ⟨by simp, [], [], rfl, .nil, by simp⟩
  | case2 c rest sign ih =>
    obtain ⟨signs, lead, gap, whole, spaced, blanks⟩ := ih
    refine ⟨List.forall_mem_cons.2 ⟨sign, signs⟩, c :: lead, gap, ?_, ?_, blanks⟩
    · rw [List.cons_append, ← whole]
    · exact spaced.mark c [] (by simp)
  | case3 c rest sign blank ih =>
    obtain ⟨signs, lead, gap, whole, spaced, blanks⟩ := ih
    refine ⟨signs, ?_⟩
    cases row : (splitSigns rest).1 with
    | nil =>
      rw [row] at spaced
      cases spaced
      refine ⟨[], c :: gap, ?_, .nil, List.forall_mem_cons.2 ⟨blank, blanks⟩⟩
      rw [List.nil_append, List.cons_append, ← List.nil_append (gap ++ _), ← whole]
    | cons first more =>
      rw [row] at spaced
      refine ⟨c :: lead, gap, ?_, spaced.blank blank, blanks⟩
      rw [List.cons_append, ← whole]
  | case4 c rest sign blank => exact ⟨by simp, [], [], rfl, .nil, by simp⟩

theorem splitOperators_spaced (gap : List Char) {place text : List Char}
    (blanks : ∀ c ∈ gap, isBlank c = true) (before : place = gap ++ text) :
    (∀ c ∈ (splitOperators place text).1, isOperator c = true) ∧
    ∃ lead, place = lead ++ (splitOperators place text).2 ∧
      Spaced (marks (splitOperators place text).1) lead := by
  fun_induction splitOperators place text generalizing gap with
  | case1 place => exact ⟨by simp, [], rfl, .nil⟩
  | case2 place c rest operator ih =>
    obtain ⟨operators, lead, whole, spaced⟩ := ih [] (by simp) rfl
    refine ⟨List.forall_mem_cons.2 ⟨operator, operators⟩, gap ++ c :: lead, ?_,
      spaced.mark c gap blanks⟩
    rw [before, List.append_assoc, List.cons_append, ← whole]
  | case3 place c rest operator blank ih =>
    refine ih (gap ++ [c]) ?_ (by rw [before, List.append_assoc]; rfl)
    exact List.forall_mem_append.2 ⟨blanks, List.forall_mem_singleton.2 blank⟩
  | case4 place c rest operator blank => exact ⟨by simp, [], rfl, .nil⟩

/-- A row of operators has blanks before each of them. -/
theorem operators_spaced {text : List Char} {row : Scanned (List Char) text}
    (found : operators text = some row) :
    row.value ≠ [] ∧ (∀ c ∈ row.value, isOperator c = true) ∧
    ∃ lead, text = lead ++ row.rest ∧ Spaced (marks row.value) lead := by
  obtain ⟨value, rest, some⟩ := operators_found found
  rw [value, rest]
  exact ⟨some, splitOperators_spaced [] (by simp) rfl⟩

end Lexeme

namespace Source

variable {source : Source} {inner : Option ExpressionReader}

/-- A clause keeps the text between the place where it begins and the place where it ends. -/
theorem raw_of_clauseFound {c : Char} {rest after : List Char} {clause : Clause}
    (found : ClauseFound source inner c rest clause after) :
    clause.raw = textBetween (c :: rest) after := by
  have die {number : Option (Amount Clause)} {text : List Char}
      (found : Reaches (source.dice inner number (c :: rest) text) clause after) :
      clause.raw = textBetween (c :: rest) after := by
    obtain ⟨_, _, _, _, _, rfl, _⟩ := dice_found found
    rfl
  cases found with
  | bracket found =>
    obtain ⟨_, _, _, ⟨_, _, _, _, dice⟩ | ⟨_, rfl, _⟩⟩ := bracketClause_found found
    · exact die dice
    · rfl
  | pool found =>
    obtain ⟨_, _, _, _, rfl, _⟩ := poolClause_found found
    rfl
  | number first found =>
    obtain ⟨_, _, _, _, _, dice⟩ | ⟨_, rfl, _⟩ := numberClause_found found
    · exact die dice
    · rfl
  | word _ _ _ found =>
    cases found with
    | function _ _ _ => rfl
    | dice _ _ dice => exact die dice
    | word _ _ _ => rfl

/-- A clause is read from its own text. -/
theorem clause_slice (closes : ∀ read, inner = some read → read.Closes) {text after : List Char}
    {clause : Clause} (found : Finds (source.clause inner text) clause after) :
    skipBlanks text = clause.raw.toList ++ after := by
  obtain ⟨c, rest, begun, found⟩ := clause_found found
  obtain ⟨read, _, whole⟩ := encloses_clauseFound closes found
  rw [begun, raw_of_clauseFound found, whole, textBetween_append, String.toList_ofList]

/-! ## Expressions as they are read -/

/-- Reading on from the signs, through the first clause and those behind it, uses the text up. -/
theorem shorter_of_following {α β γ : Type} {text : List Char} (opening : Reached α text)
    (first : Scanned β opening.rest) (more : Reached γ first.rest) :
    more.rest.length < text.length :=
  (more.within.trans_lt first.shorter).trans_le opening.within

/-- The signs and clauses of an expression, before they are put together. -/
def run (clause : ClauseReader) (text : List Char) : Except Fault (Scanned Run text) :=
  let opening := Lexeme.signs text
  match clause opening.rest with
  | .error fault => .error fault
  | .ok first =>
    match Scan.following clause first.rest with
    | .error fault => .error fault
    | .ok more => .ok ⟨⟨opening.value, first.value, more.value⟩, more.rest,
        shorter_of_following opening first more⟩

/-- An expression is its signs and clauses put together. -/
theorem expression_eq_run (source : Source) (clause : ClauseReader) (text : List Char) :
    source.expression clause text =
      match run clause text with
      | .error fault => .error fault
      | .ok scanned =>
        match source.assemble scanned.value (skipBlanks text) scanned.rest with
        | .error fault => .error fault
        | .ok tree => .ok ⟨tree, scanned.rest, scanned.shorter⟩ := by
  unfold expression run
  simp only
  cases clause (Lexeme.signs text).rest with
  | error fault => rfl
  | ok first =>
    simp only
    cases Scan.following clause first.rest with
    | error fault => rfl
    | ok more => rfl

/-- A run is found if its clauses are found. -/
theorem run_finds {clause : ClauseReader} {text behind rest : List Char} {first : Clause}
    {more : List (List Char × Clause)}
    (begun : Finds (clause (Lexeme.splitSigns text).2) first behind)
    (continues : Reaches (Scan.following clause behind) more rest) :
    Finds (run clause text) ⟨(Lexeme.splitSigns text).1, first, more⟩ rest := by
  have inside := Lexeme.length_splitSigns_le text
  obtain ⟨shorter, begun⟩ := begun
  obtain ⟨within, continues⟩ := continues
  refine ⟨by omega, ?_⟩
  unfold run
  simp only [Lexeme.signs, begun, continues]

/-- The clauses of an expression with the signs or operators before them, laid out along the
text.  Each clause was read at its place, and its text is what was read there. -/
inductive Tiles (source : Source) (depth : Nat) :
    List (List Char × Clause) → List Char → List Char → Prop
  | done (rest : List Char) : Tiles source depth [] rest rest
  | next {row text lead gap place behind rest : List Char} {clause : Clause}
      {more : List (List Char × Clause)} (marked : Spaced (marks row) lead)
      (blanks : ∀ c ∈ gap, isBlank c = true)
      (whole : text = lead ++ (gap ++ (clause.raw.toList ++ behind)))
      (here : source.Arrives .clause depth place)
      (found : Finds (source.clause (source.inside depth) place) clause behind)
      (slice : skipBlanks place = clause.raw.toList ++ behind)
      (later : Tiles source depth more behind rest) :
      Tiles source depth ((row, clause) :: more) text rest

/-- Laid out behind one another, signs, operators and clauses are the text with its blanks. -/
theorem Tiles.spaced {depth : Nat} {text rest : List Char} {pieces : List (List Char × Clause)}
    (tiles : source.Tiles depth pieces text rest) :
    ∃ read, text = read ++ rest ∧ Spaced (Run.tokensOf pieces) read := by
  induction tiles with
  | done rest => exact ⟨[], rfl, .nil⟩
  | @next row text lead gap place behind rest clause more marked blanks whole _ _ _ _ ih =>
    obtain ⟨read, same, spaced⟩ := ih
    refine ⟨lead ++ (gap ++ (clause.raw.toList ++ read)), ?_, ?_⟩
    · rw [whole, same]
      simp only [List.append_assoc]
    · rw [Run.tokensOf_cons]
      exact marked.join (.cons blanks spaced)

/-- A run is the text of an expression, from a place to the place where the expression ends. -/
structure Covers (source : Source) (depth : Nat) (run : Run) (text rest : List Char) : Prop where
  tiles : source.Tiles depth ((run.signs, run.first) :: run.rest) text rest
  signs : ∀ c ∈ run.signs, isSign c = true
  operators : ∀ next ∈ run.rest, next.1 ≠ [] ∧ ∀ c ∈ next.1, Lexeme.isOperator c = true

theorem tiles_following {depth : Nat} {text rest : List Char} {more : List (List Char × Clause)}
    (here : source.Arrives .clauseEnd depth text)
    (found : Reaches (Scan.following (source.clause (source.inside depth)) text) more rest) :
    source.Tiles depth more text rest ∧
      ∀ next ∈ more, next.1 ≠ [] ∧ ∀ c ∈ next.1, Lexeme.isOperator c = true := by
  induction more generalizing text with
  | nil =>
    obtain ⟨_, _, rfl⟩ | ⟨_, _, _, _, _, _, none, _⟩ := following_found found
    · exact ⟨.done _, by simp⟩
    · cases none
  | cons next more ih =>
    obtain ⟨_, none, _⟩ | ⟨row, clause, behind, _, joined, begun, same, later⟩ :=
      following_found found
    · cases none
    · cases same
      obtain ⟨some, operators, lead, whole, spaced⟩ := Lexeme.operators_spaced joined
      obtain ⟨tiles, rows⟩ := ih (here.nextEnd joined begun) later
      have slice := clause_slice (closes_inside depth) begun
      have blanks : ∀ c ∈ row.rest.takeWhile isBlank, isBlank c = true :=
        fun c member => List.mem_takeWhile_imp member
      refine ⟨.next spaced blanks ?_ (here.next joined) begun slice tiles,
        List.forall_mem_cons.2 ⟨⟨some, operators⟩, rows⟩⟩
      rw [← slice, skipBlanks, List.takeWhile_append_dropWhile, ← whole]

/-- Every expression of a formula that can be read is covered by its run. -/
theorem Arrives.covers {depth : Nat} {text : List Char}
    (here : source.Arrives .expression depth text) {tree : Tree Clause} {rest : List Char}
    (found : Finds (source.reader depth text) tree rest) :
    ∃ run, Finds (Source.run (source.clause (source.inside depth)) text) run rest ∧
      run.tree = .ok tree ∧ source.Covers depth run text rest := by
  rw [reader_eq] at found
  obtain ⟨first, behind, more, begun, continues, built⟩ := expression_found found
  obtain ⟨tiles, operators⟩ := tiles_following (here.firstEnd begun) continues
  obtain ⟨signs, lead, gap, whole, spaced, blanks⟩ := Lexeme.splitSigns_spaced text
  have slice := clause_slice (closes_inside depth) begun
  have within : ∀ c ∈ gap ++ (Lexeme.splitSigns text).2.takeWhile isBlank, isBlank c = true :=
    List.forall_mem_append.2 ⟨blanks, fun c member => List.mem_takeWhile_imp member⟩
  refine ⟨_, run_finds begun continues, built, ?_, signs, operators⟩
  refine .next spaced within ?_ here.first begun slice tiles
  rw [← slice, skipBlanks, List.append_assoc, List.takeWhile_append_dropWhile, ← whole]

/-- The expressions of a formula that can be read have been found. -/
theorem Arrives.finds {depth : Nat} {text : List Char}
    (here : source.Arrives .expression depth text) {tree : Tree Clause}
    (parsed : source.parse = .ok tree) :
    ∃ inner rest, Finds (source.reader depth text) inner rest := by
  cases read : source.reader depth text with
  | error fault => cases parsed.symm.trans (here.parse_fails read)
  | ok scanned => exact ⟨scanned.value, scanned.rest, scanned.shorter, rfl⟩

/-- Reading loses and repeats nothing.  In a formula that can be read, the text of every
expression that the scanner comes to is what its run says: the signs, the first clause, and then
each row of operators with the clause behind it, with nothing but blanks in between.  These are
the clauses that are put together, and the text of each is where it was read.  The whole formula
is such an expression with blanks at its ends. -/
theorem parse_covers {tree : Tree Clause} (parsed : source.parse = .ok tree) :
    (∀ depth text, source.Arrives .expression depth text →
      ∃ (run : Run) (inner : Tree Clause) (rest read : List Char),
        Finds (source.reader depth text) inner rest ∧
        Finds (Source.run (source.clause (source.inside depth)) text) run rest ∧
        run.tree = .ok inner ∧ source.Covers depth run text rest ∧
        text = read ++ rest ∧ Spaced run.tokens read) ∧
    ∃ (run : Run) (gap read : List Char), run.tree = .ok tree ∧
      source.Covers 0 run source.text gap ∧ source.text = read ++ gap ∧ Spaced run.tokens read ∧
      ∀ c ∈ gap, isBlank c = true := by
  constructor
  · intro depth text here
    obtain ⟨inner, rest, found⟩ := here.finds parsed
    obtain ⟨run, begun, built, covers⟩ := here.covers found
    obtain ⟨read, whole, spaced⟩ := covers.tiles.spaced
    exact ⟨run, inner, rest, read, found, begun, built, covers, whole, spaced⟩
  · obtain ⟨gap, found, ended⟩ := parse_found parsed
    obtain ⟨run, _, built, covers⟩ := Arrives.formula.covers found
    obtain ⟨read, whole, spaced⟩ := covers.tiles.spaced
    exact ⟨run, gap, read, built, covers, whole, spaced, List.dropWhile_eq_nil_iff.1 ended⟩

/-- A product with a bracketed sum, as it may be written. -/
def spacedProduct : Source := ⟨" - 2 *- (d6 + 1)[cold] ".toList, true, 64⟩

/-- The sum in the brackets is read from its own text. -/
theorem parse_covers_of_spacedProduct :
    ∃ (run : Run) (inner : Tree Clause) (rest read : List Char),
      Finds (spacedProduct.reader 1 "d6 + 1)[cold] ".toList) inner rest ∧ run.tree = .ok inner ∧
      "d6 + 1)[cold] ".toList = read ++ rest ∧ Spaced run.tokens read := by
  have two : Finds (spacedProduct.clause (spacedProduct.inside 0) "2 *- (d6 + 1)[cold] ".toList)
      (.numeric (.int 2) none "2") " *- (d6 + 1)[cold] ".toList := ⟨by decide, rfl⟩
  have times : Lexeme.operators " *- (d6 + 1)[cold] ".toList =
      some ⟨['*', '-'], " (d6 + 1)[cold] ".toList, by decide⟩ := rfl
  have sum : spacedProduct.Arrives .expression 1 "d6 + 1)[cold] ".toList :=
    (((Arrives.formula.firstEnd two).next times).group rfl).enter (by decide)
  have parsed : spacedProduct.parse.toBool = true := by decide +kernel
  cases tree : spacedProduct.parse with
  | error fault =>
    rw [tree] at parsed
    cases parsed
  | ok found =>
    obtain ⟨run, inner, rest, read, finds, _, built, _, whole, spaced⟩ :=
      (parse_covers tree).1 _ _ sum
    exact ⟨run, inner, rest, read, finds, built, whole, spaced⟩

end Source
end DiceNotation
