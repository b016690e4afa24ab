import DiceNotation.Proofs.Formula.Partings
import DiceNotation.Proofs.Formula.Rows
import Mathlib.Data.List.DropRight

namespace DiceNotation

open Text

/-!
# Reading texts that part

What every reader makes of two texts that part: what it reads in the first one it reads in
the second one as well, it stops at corresponding places, and what it finds is of the same
classes.  The readers may belong to different formulas, and more brackets may be opened in
the second one.

A bracket that opens where the texts part is a matter of its own.  It is asked that what
the bracket holds in the second text can be read, and that both readings stop at the same
place behind it.
-/

/-! ## Classes of what is found -/

/-- The kind of the dice with these faces. -/
def Faces.kind : Faces Clause → DieKind
  | .amount _ => .numbered
  | .letter code => (DieKind.ofLetter? code).getD .numbered

/-- The class of the term that is built from a clause. -/
def Clause.termClass : Clause → TermClass
  | .numeric _ _ _ => .numeric
  | .dice _ faces _ _ _ => .dice faces.kind
  | .function _ _ _ _ => .function
  | .pool _ _ _ _ => .pool
  | .group _ _ _ => .group
  | .text _ _ _ => .text

namespace Run

/-- The rows of operators of a run, each with the class of the clause behind it. -/
def classes (rest : List (List Char × Clause)) : List (List Char × TermClass) :=
  rest.map fun next => (next.1, next.2.termClass)

theorem map_negated {clause other : Clause} (same : other.termClass = clause.termClass)
    (negative : Bool) :
    (if negative then (Tree.leaf other).negated else .leaf other).map Clause.termClass =
      (if negative then (Tree.leaf clause).negated else .leaf clause).map Clause.termClass := by
  cases negative with
  | false => exact congrArg Tree.leaf same
  | true => cases clause <;> cases other <;> first | rfl | cases same

/-- The shape of the operands depends on the classes of the clauses alone. -/
theorem operands_of_classes {rest others : List (List Char × Clause)}
    (same : classes others = classes rest) {joined : List (Operator × Tree Clause)}
    (reduces : operands rest = .ok joined) :
    ∃ another, operands others = .ok another ∧
      another.map (fun next => (next.1, next.2.map Clause.termClass)) =
        joined.map (fun next => (next.1, next.2.map Clause.termClass)) := by
  induction rest generalizing others joined with
  | nil =>
    obtain rfl : others = [] := List.map_eq_nil_iff.1 same
    exact ⟨joined, reduces, rfl⟩
  | cons next rest ih =>
    cases others with
    | nil => cases same
    | cons another others =>
      obtain ⟨row, clause⟩ := next
      obtain ⟨again, other⟩ := another
      simp only [classes, List.map_cons, List.cons.injEq, Prod.mk.injEq] at same
      obtain ⟨⟨rfl, alike⟩, same⟩ := same
      rw [operands, operand] at reduces
      rw [operands, operand]
      cases means : reduceRun again with
      | none =>
        rw [means] at reduces
        cases reduces
      | some meaning =>
        rw [means] at reduces
        simp only [Option.map_some] at reduces ⊢
        cases later : operands rest with
        | error fault =>
          rw [later] at reduces
          cases reduces
        | ok more =>
          rw [later] at reduces
          cases reduces
          obtain ⟨found, others, shape⟩ := ih same later
          refine ⟨_, by rw [others], ?_⟩
          rw [List.map_cons, List.map_cons, shape, map_negated alike]

/-- The shape of a tree depends on the classes of the clauses alone. -/
theorem tree_of_classes {signs : List Char} {first other : Clause}
    (alike : other.termClass = first.termClass) {rest others : List (List Char × Clause)}
    (same : classes others = classes rest) {tree : Tree Clause}
    (reduces : Run.tree ⟨signs, first, rest⟩ = .ok tree) :
    ∃ another, Run.tree ⟨signs, other, others⟩ = .ok another ∧
      another.map Clause.termClass = tree.map Clause.termClass := by
  unfold Run.tree at reduces ⊢
  cases joined : operands rest with
  | error row =>
    rw [joined] at reduces
    cases reduces
  | ok joint =>
    rw [joined] at reduces
    cases reduces
    obtain ⟨found, reads, shape⟩ := operands_of_classes same joined
    refine ⟨_, by rw [reads], ?_⟩
    rw [Tree.ofRun, Tree.ofRun, Tree.map_group, Tree.map_group, shape]
    exact congrArg (Tree.group none · _) (map_negated alike _)

end Run

/-! ## Where an expression begins -/

namespace Lexeme

theorem splitSigns_skipBlanks (text : List Char) :
    splitSigns (skipBlanks text) = splitSigns text := by
  induction text with
  | nil => rfl
  | cons c rest ih =>
    cases blank : isBlank c with
    | true =>
      rw [skipBlanks_cons_blank blank, splitSigns, if_neg (by simp [isSign_of_isBlank blank]),
        if_pos blank, ih]
    | false => rw [skipBlanks_cons blank]

end Lexeme

/-- Whether a reader finds something only where something other than the end of a bracket
is visible. -/
def ExpressionReader.IsSighted (read : ExpressionReader) : Prop :=
  ∀ text tree rest, Finds (read text) tree rest →
    ∃ c more, skipBlanks text = c :: more ∧ c ≠ ')'

namespace Source

variable {source : Source} {inner : Option ExpressionReader}

/-- No clause begins with a bracket that closes. -/
theorem ClauseFound.ne_closing {c : Char} {rest after : List Char} {clause : Clause}
    (found : ClauseFound source inner c rest clause after) : c ≠ ')' := by
  rintro rfl
  cases found with
  | number first _ => cases first
  | word _ _ _ found =>
    cases found with
    | function called _ _ => cases (Lexeme.functionName_found called).1
    | dice _ opens _ => cases opens
    | word _ _ found => cases (Lexeme.word_found found).1

theorem isSighted_expressionAt (levels : Nat) : (source.expressionAt levels).IsSighted := by
  intro text tree rest found
  rw [expressionAt_eq] at found
  obtain ⟨first, behind, more, begun, _, _⟩ := expression_found found
  obtain ⟨c, after, visible, clause⟩ := clause_found begun
  rw [← Lexeme.splitSigns_skipBlanks] at visible
  cases seen : skipBlanks text with
  | nil =>
    rw [seen] at visible
    cases visible
  | cons d others =>
    refine ⟨d, others, rfl, ?_⟩
    rintro rfl
    rw [seen] at visible
    cases visible
    exact clause.ne_closing rfl

end Source

/-! ## Readers -/

/-- What one reader finds in the first text, the other one finds in the second text. -/
def ExpressionReader.Follows (here there : List Char) (limit : Nat)
    (read other : ExpressionReader) : Prop :=
  ∀ x y, Meets here there x y → ∀ tree rest, Finds (read x) tree rest → limit ≤ rest.length →
    ∃ another more, Finds (other y) another more ∧
      another.map Clause.termClass = tree.map Clause.termClass ∧ Meets here there rest more

namespace Source

variable {source other : Source} {here there : List Char} {limit : Nat}

/-- What stands in the brackets that open where the texts part can be read in both texts,
and the readings stop at the same place. -/
structure Bridges (source other : Source) (here there : List Char)
    (inner outer : Option ExpressionReader) : Prop where
  bracketed : ∀ one another, here = '(' :: one → there = '(' :: another → ∀ tree rest,
    Finds (source.bracketed inner '(' one) tree rest →
      ∃ found, Finds (other.bracketed outer '(' another) found rest
  listed : ∀ one another, here = '(' :: one → there = '(' :: another → ∀ trees rest,
    Finds (source.listed inner ')' '(' one) trees rest →
      ∃ found, Finds (other.listed outer ')' '(' another) found rest

/-- The readers of what stands in brackets follow one another. -/
structure Exchanges (source other : Source) (here there : List Char) (limit : Nat)
    (inner outer : Option ExpressionReader) : Prop where
  bridges : source.Bridges other here there inner outer
  sighted : ∀ read, inner = some read → read.IsSighted
  follows : ∀ read, inner = some read →
    ∃ reads, outer = some reads ∧ read.Follows here there limit reads

section

variable {inner outer : Option ExpressionReader} (parting : Parting here there limit)
  (exchanges : source.Exchanges other here there limit inner outer)

include parting exchanges

theorem bracketed_follows {rest more : List Char}
    (meets : Meets here there ('(' :: rest) ('(' :: more)) {tree : Tree Clause} {after : List Char}
    (found : Finds (source.bracketed inner '(' rest) tree after) (limited : limit ≤ after.length) :
    ∃ another left, Finds (other.bracketed outer '(' more) another left ∧
      Meets here there after left := by
  obtain ⟨_, same, meets | ⟨begins, opens⟩⟩ := meets.inside parting
  · cases same
    obtain ⟨read, behind, is, begun, ended⟩ := bracketed_found found
    obtain ⟨reads, rfl, follows⟩ := exchanges.follows read is
    have shorter := Text.length_skipBlanks_le behind
    rw [ended, List.length_cons] at shorter
    obtain ⟨another, left, finds, _, meets⟩ := follows _ _ meets tree behind begun (by omega)
    obtain ⟨left, closed, meets⟩ := meets.visible parting ended fun _ => limited
    obtain ⟨_, same, meets⟩ := meets.tail parting (by decide) (by decide) fun _ => limited
    cases same
    exact ⟨another, left, other.bracketed_finds finds closed, meets⟩
  · cases same
    obtain ⟨another, finds⟩ := exchanges.bridges.bracketed _ _ begins opens tree after found
    exact ⟨another, after, finds, .same begins after⟩

end

theorem separated_follows (parting : Parting here there limit) {read reads : ExpressionReader}
    (follows : read.Follows here there limit reads) {closing : Char} (round : closing ≠ '(')
    (square : closing ≠ '[') {x y opened another after : List Char} (meets : Meets here there x y)
    {trees : List (Tree Clause)} (found : Finds (source.separated read closing opened x) trees after)
    (limited : limit ≤ after.length) :
    ∃ others left, others ≠ [] ∧ Finds (other.separated reads closing another y) others left ∧
      Meets here there after left := by
  induction trees generalizing x y with
  | nil =>
    obtain ⟨tree, behind, _, ⟨_, _, _, none, _⟩ | ⟨_, _, none⟩⟩ := separated_found found
    · cases none
    · cases none
  | cons tree trees ih =>
    obtain ⟨tree, behind, begun, ⟨next, more, comma, same, later⟩ | ⟨plain, ended, _⟩⟩ :=
      separated_found found
    · cases same
      have shorter := Text.length_skipBlanks_le behind
      rw [comma, List.length_cons] at shorter
      have fewer : after.length < next.length := later.elim fun shorter _ => shorter
      obtain ⟨first, left, finds, _, meets⟩ := follows _ _ meets tree behind begun (by omega)
      obtain ⟨left, separated, meets⟩ := meets.visible parting comma fun same => by cases same
      obtain ⟨_, same, meets⟩ := meets.tail parting (by decide) (by decide) fun same => by cases same
      cases same
      obtain ⟨others, left, _, continues, meets⟩ := ih meets later
      exact ⟨first :: others, left, List.cons_ne_nil _ _,
        other.separated_finds_more finds separated continues, meets⟩
    · have shorter := Text.length_skipBlanks_le behind
      rw [ended, List.length_cons] at shorter
      obtain ⟨last, left, finds, _, meets⟩ := follows _ _ meets _ behind begun (by omega)
      obtain ⟨left, closed, meets⟩ := meets.visible parting ended fun _ => limited
      obtain ⟨_, same, meets⟩ := meets.tail parting round square fun _ => limited
      cases same
      exact ⟨[last], left, List.cons_ne_nil _ _, other.separated_finds_last plain finds closed,
        meets⟩

section

variable {inner outer : Option ExpressionReader} (parting : Parting here there limit)
  (exchanges : source.Exchanges other here there limit inner outer)

include parting exchanges

/-- A list whose opening bracket is in front of where the texts part. -/
theorem listed_follows {closing c d : Char} (round : closing ≠ '(') (square : closing ≠ '[')
    {rest more : List Char} (meets : Meets here there rest more) {trees : List (Tree Clause)}
    {after : List Char} (found : Finds (source.listed inner closing c rest) trees after)
    (limited : limit ≤ after.length) :
    ∃ others left, (trees ≠ [] → others ≠ []) ∧ Finds (other.listed outer closing d more) others left ∧
      Meets here there after left := by
  obtain ⟨read, is, ⟨ended, rfl⟩ | ⟨plain, later⟩⟩ := listed_found found
  · obtain ⟨reads, rfl, _⟩ := exchanges.follows read is
    obtain ⟨left, closed, meets⟩ := meets.visible parting ended fun _ => limited
    obtain ⟨_, same, meets⟩ := meets.tail parting round square fun _ => limited
    cases same
    exact ⟨[], left, id, other.listed_finds_nothing reads d closed, meets⟩
  · obtain ⟨reads, rfl, follows⟩ := exchanges.follows read is
    obtain ⟨tree, behind, begun, _⟩ := separated_found later
    obtain ⟨m, others, seen, visible⟩ := exchanges.sighted read is _ _ _ begun
    have same : skipBlanks rest = m :: others := by
      rw [← seen]
      exact (List.dropWhile_idempotent ..).symm
    obtain ⟨left, begins, meets⟩ := meets.visible parting same fun same => absurd same visible
    rw [same] at later plain
    obtain ⟨found, left, some, finds, meets⟩ := separated_follows parting follows round square
      meets later limited
    refine ⟨found, left, fun _ => some, other.listed_finds begins ?_ finds, meets⟩
    rintro rfl
    exact plain rfl

/-- The faces behind a die sign. -/
theorem faces_follow {text another : List Char} (meets : Meets here there text another)
    {faces : Faces Clause} {after : List Char}
    (found : FacesFound source inner text faces after) (limited : limit ≤ after.length) :
    ∃ others left, Reaches (other.faces outer another) (some others) left ∧
      others.kind = faces.kind ∧ Meets here there after left := by
  cases found with
  | bracketed found =>
    obtain ⟨more, rfl, _⟩ := meets.inside parting
    obtain ⟨tree, left, finds, meets⟩ := bracketed_follows parting exchanges meets found limited
    exact ⟨_, left, other.faces_reaches_bracketed finds, rfl, meets⟩
  | @digits c rest first =>
    have digit : isDigit ∈ lexemeClasses := by simp [lexemeClasses]
    obtain ⟨more, rfl, _⟩ :=
      meets.tail_of_class parting (by simp [BracketMark.classes, digit]) first
    obtain ⟨_, meets⟩ := meets.span parting digit
    exact ⟨_, _, other.faces_reaches_number outer first more, rfl, meets⟩
  | @letter c after round digit letter =>
    obtain ⟨more, rfl, left⟩ :=
      meets.tail_of_class parting (by simp [BracketMark.classes, lexemeClasses]) letter
    exact ⟨_, more, other.faces_reaches_letter outer letter digit round more, rfl, left⟩

theorem dice_follow (impute : other.imputeNumber = source.imputeNumber)
    {number : Option (Amount Clause)} {start begin text another : List Char}
    (meets : Meets here there text another) {clause : Clause} {after : List Char}
    (found : Reaches (source.dice inner number start text) clause after)
    (limited : limit ≤ after.length) (again : Option (Amount Clause))
    (counted : again.isSome = number.isSome) :
    ∃ die left, Reaches (other.dice outer again begin another) die left ∧
      die.termClass = clause.termClass ∧ Meets here there after left := by
  obtain ⟨amount, faces, behind, counts, faced, rfl, rfl⟩ := dice_found found
  have within := Nat.le_trans limited (encloses_trailer behind).length_le
  obtain ⟨others, left, reached, same, meets⟩ := faces_follow parting exchanges meets faced within
  obtain ⟨assumed, counts⟩ : ∃ assumed,
      again.or (if other.imputeNumber then some (.known 1) else none) = some assumed := by
    rw [impute]
    cases again with
    | some given => exact ⟨given, rfl⟩
    | none =>
      cases number with
      | some given => cases counted
      | none => exact ⟨amount, counts⟩
  exact ⟨_, _, other.dice_reaches_counted counts reached rfl rfl, congrArg TermClass.dice same,
    (meets.modifiers parting).flavor parting⟩

/-- Dice from the die sign on. -/
theorem dieSign_follows (impute : other.imputeNumber = source.imputeNumber)
    {number : Option (Amount Clause)} {d : Char} (sign : Lexeme.isDieSign d = true)
    {start begin text another : List Char} (meets : Meets here there (d :: text) another)
    {clause : Clause} {after : List Char}
    (found : Reaches (source.dice inner number start text) clause after)
    (limited : limit ≤ after.length) (again : Option (Amount Clause))
    (counted : again.isSome = number.isSome) :
    ∃ more die left, another = d :: more ∧
      Reaches (other.dice outer again begin more) die left ∧
      die.termClass = clause.termClass ∧ Meets here there after left := by
  obtain ⟨more, rfl, inside⟩ :=
    meets.tail_of_class parting (by simp [BracketMark.classes, lexemeClasses]) sign
  obtain ⟨die, left, reached, same, meets⟩ :=
    dice_follow parting exchanges impute inside found limited again counted
  exact ⟨more, die, left, rfl, reached, same, meets⟩

theorem bracketClause_follows (impute : other.imputeNumber = source.imputeNumber)
    {rest more : List Char} (meets : Meets here there ('(' :: rest) ('(' :: more)) {clause : Clause}
    {after : List Char} (found : Finds (source.bracketClause inner '(' rest) clause after)
    (limited : limit ≤ after.length) :
    ∃ another left, Finds (other.clauseAt outer '(' more) another left ∧
      another.termClass = clause.termClass ∧ Meets here there after left := by
  obtain ⟨tree, behind, inside, ⟨d, next, rfl, sign, die⟩ | ⟨plain, rfl, rfl⟩⟩ :=
    bracketClause_found found
  · have within : after.length ≤ next.length := die.elim fun within _ => within
    obtain ⟨number, left, finds, behind⟩ := bracketed_follows parting exchanges meets inside
      (Nat.le_succ_of_le (Nat.le_trans limited within))
    obtain ⟨text, die, left, rfl, reached, same, meets⟩ := dieSign_follows parting exchanges impute
      sign behind die limited (some (.computed number (textBetween ('(' :: more) left))) rfl
    exact ⟨die, left, other.bracketClause_finds_dice finds sign reached, same, meets⟩
  · obtain ⟨group, left, finds, behind⟩ := bracketed_follows parting exchanges meets inside
      (Nat.le_trans limited (Lexeme.length_splitFlavor_le _))
    exact ⟨_, _, other.bracketClause_finds_group finds (behind.noDie parting plain) rfl, rfl,
      behind.flavor parting⟩

theorem poolClause_follows {rest more : List Char}
    (meets : Meets here there ('\x7b' :: rest) ('\x7b' :: more)) {clause : Clause}
    {after : List Char} (found : Finds (source.poolClause inner '\x7b' rest) clause after)
    (limited : limit ≤ after.length) :
    ∃ another left, Finds (other.clauseAt outer '\x7b' more) another left ∧
      another.termClass = clause.termClass ∧ Meets here there after left := by
  obtain ⟨members, behind, inside, some, rfl, rfl⟩ := poolClause_found found
  have within := Nat.le_trans limited (encloses_trailer behind).length_le
  obtain ⟨_, same, opened⟩ := meets.tail parting (by decide) (by decide) fun same => by cases same
  cases same
  obtain ⟨others, left, present, finds, meets⟩ := listed_follows parting exchanges (by decide)
    (by decide) opened inside within
  exact ⟨_, _, other.poolClause_finds finds (present some) rfl rfl, rfl,
    (meets.modifiers parting).flavor parting⟩

theorem numberClause_follows (impute : other.imputeNumber = source.imputeNumber) {c : Char}
    {rest more : List Char} (meets : Meets here there (c :: rest) (c :: more))
    (first : isDigit c = true) {clause : Clause} {after : List Char}
    (found : Finds (source.numberClause inner c rest first) clause after)
    (limited : limit ≤ after.length) :
    ∃ another left, Finds (other.clauseAt outer c more) another left ∧
      another.termClass = clause.termClass ∧ Meets here there after left := by
  obtain ⟨same, behind⟩ := meets.lexeme parting Lexeme.splitNumber
    (fun ends _ _ => Lexeme.splitNumber_joint ends _) Lexeme.encloses_splitNumber
  rcases numberClause_found found with ⟨d, next, ended, sign, whole, die⟩ | ⟨plain, rfl, rfl⟩
  · rw [ended] at behind
    obtain ⟨text, die, left, begun, reached, alike, meets⟩ := dieSign_follows parting exchanges
      impute sign behind die limited
      (some (.known (natOfDigits (Lexeme.splitNumber (c :: more)).1))) rfl
    rw [← same] at whole
    exact ⟨die, left, other.numberClause_finds_dice first (Prod.ext rfl begun) sign whole reached,
      alike, meets⟩
  · exact ⟨_, _, other.numberClause_finds_numeric outer first rfl (behind.noDie parting plain) rfl,
      rfl, behind.flavor parting⟩

/-- The arguments of a function, whose bracket may be the one where the texts part. -/
theorem arguments_follow {rest more : List Char}
    (meets : Meets here there ('(' :: rest) ('(' :: more)) {trees : List (Tree Clause)}
    {after : List Char} (found : Finds (source.listed inner ')' '(' rest) trees after)
    (limited : limit ≤ after.length) :
    ∃ others left, Finds (other.listed outer ')' '(' more) others left ∧
      Meets here there after left := by
  obtain ⟨_, same, meets | ⟨begins, opens⟩⟩ := meets.inside parting
  · cases same
    obtain ⟨others, left, _, finds, meets⟩ := listed_follows parting exchanges (by decide)
      (by decide) meets found limited
    exact ⟨others, left, finds, meets⟩
  · cases same
    obtain ⟨others, finds⟩ := exchanges.bridges.listed _ _ begins opens trees after found
    exact ⟨others, after, finds, .same begins after⟩

theorem wordFound_follows (impute : other.imputeNumber = source.imputeNumber) {c : Char}
    {rest more : List Char} (meets : Meets here there (c :: rest) (c :: more)) {clause : Clause}
    {after : List Char} (found : WordFound source inner c rest clause after)
    (limited : limit ≤ after.length) :
    ∃ another left, Finds (other.wordClause outer c more) another left ∧
      another.termClass = clause.termClass ∧ Meets here there after left := by
  cases found with
  | function called opens found =>
    obtain ⟨others, shorter, called, opened⟩ := meets.functionName parting called opens
    obtain ⟨arguments, left, finds, meets⟩ := arguments_follow parting exchanges opened found
      (Nat.le_trans limited (Lexeme.length_splitFlavor_le _))
    exact ⟨_, _, other.wordClause_finds_function ⟨shorter, called⟩ finds rfl, rfl,
      meets.flavor parting⟩
  | dice noName opens found =>
    have sign := (Bool.and_eq_true_iff.1 opens).1
    obtain ⟨_, same, inside⟩ :=
      meets.tail_of_class parting (by simp [BracketMark.classes, lexemeClasses]) sign
    cases same
    obtain ⟨die, left, reached, same, behind⟩ := dice_follow parting exchanges impute inside
      found limited none rfl
    rw [← inside.opensDice parting] at opens
    exact ⟨die, left, other.wordClause_finds_dice (meets.noFunctionName parting noName) opens
      reached, same, behind⟩
  | @word word noName noDie found =>
    obtain ⟨inside, value, behind⟩ := Lexeme.word_found found
    have listed : Lexeme.insideWord ∈ lexemeClasses := by simp [lexemeClasses]
    obtain ⟨_, same, later⟩ :=
      meets.tail_of_class parting (by simp [BracketMark.classes, listed]) inside
    cases same
    obtain ⟨taken, left⟩ := meets.span parting listed
    rw [← later.opensDice parting] at noDie
    have read : ∃ shorter, Lexeme.word c more = some
        ⟨(c :: more).takeWhile Lexeme.insideWord, (c :: more).dropWhile Lexeme.insideWord,
          shorter⟩ :=
      ⟨Lexeme.length_dropWhile_cons_lt _ c more inside, by rw [Lexeme.word, dif_pos inside]⟩
    have ended := left.flavor parting
    rw [← behind] at ended
    exact ⟨_, _, other.wordClause_finds_word outer (meets.noFunctionName parting noName) noDie read
      rfl, rfl, ended⟩

theorem clause_follows (impute : other.imputeNumber = source.imputeNumber) {x y : List Char}
    (meets : Meets here there x y) {clause : Clause} {after : List Char}
    (found : Finds (source.clause inner x) clause after) (limited : limit ≤ after.length) :
    ∃ another left, Finds (other.clause outer y) another left ∧
      another.termClass = clause.termClass ∧ Meets here there after left := by
  obtain ⟨c, rest, begun, found⟩ := clause_found found
  obtain ⟨more, begins, meets⟩ := meets.visible parting begun fun same => absurd same found.ne_closing
  have reads : ∃ another left, Finds (other.clauseAt outer c more) another left ∧
      another.termClass = clause.termClass ∧ Meets here there after left := by
    cases found with
    | bracket found => exact bracketClause_follows parting exchanges impute meets found limited
    | pool found => exact poolClause_follows parting exchanges meets found limited
    | number first found =>
      exact numberClause_follows parting exchanges impute meets first found limited
    | word round curly digit found =>
      rw [other.clauseAt_of_word round curly digit]
      exact wordFound_follows parting exchanges impute meets found limited
  obtain ⟨another, left, finds, same, meets⟩ := reads
  exact ⟨another, left, other.clause_finds begins finds, same, meets⟩

theorem following_follows (impute : other.imputeNumber = source.imputeNumber) {x y : List Char}
    (meets : Meets here there x y) {more : List (List Char × Clause)} {after : List Char}
    (found : Reaches (Scan.following (source.clause inner) x) more after)
    (limited : limit ≤ after.length) :
    ∃ others left, Reaches (Scan.following (other.clause outer) y) others left ∧
      Run.classes others = Run.classes more ∧ Meets here there after left := by
  induction more generalizing x y with
  | nil =>
    have same := (meets.operators parting).1
    obtain ⟨none, _, rfl⟩ | ⟨_, _, _, _, _, _, none, _⟩ := following_found found
    · have nothing : Lexeme.operators y = .none := by
        unfold Lexeme.operators at none ⊢
        split at none
        · rename_i empty
          exact dif_pos (same.trans empty)
        · cases none
      exact ⟨[], y, Scan.following_of_no_operators nothing, rfl, meets⟩
    · cases none
  | cons next more ih =>
    obtain ⟨_, none, _⟩ | ⟨row, next, behind, more, some, begun, is, later⟩ := following_found found
    · cases none
    · cases is
      obtain ⟨value, place, taken⟩ := Lexeme.operators_found some
      have within : after.length ≤ behind.length := later.elim fun within _ => within
      obtain ⟨same, rows⟩ := meets.operators parting
      rw [← place] at rows
      obtain ⟨clause, left, finds, alike, meets⟩ := clause_follows parting exchanges impute rows
        begun (Nat.le_trans limited within)
      obtain ⟨others, left, continues, classes, meets⟩ := ih meets later
      have joins : ∃ shorter, Lexeme.operators y = .some
          ⟨(Lexeme.splitOperators y y).1, (Lexeme.splitOperators y y).2, shorter⟩ := by
        rw [← same] at taken
        exact ⟨_, dif_neg taken⟩
      refine ⟨_, left, Scan.following_of_operators joins finds continues, ?_, meets⟩
      rw [Run.classes, Run.classes, List.map_cons, List.map_cons, alike, value, same]
      exact congrArg _ classes

theorem expression_follows (impute : other.imputeNumber = source.imputeNumber) :
    ExpressionReader.Follows here there limit (source.expression (source.clause inner))
      (other.expression (other.clause outer)) := by
  intro x y meets tree after found limited
  obtain ⟨first, behind, more, begun, continues, reduces⟩ := expression_found found
  have within : after.length ≤ behind.length := continues.elim fun within _ => within
  obtain ⟨c, rest, visible, clause⟩ := clause_found begun
  obtain ⟨same, place⟩ := meets.signs parting visible clause.ne_closing
  obtain ⟨another, left, finds, alike, meets⟩ := clause_follows parting exchanges impute place begun
    (Nat.le_trans limited within)
  obtain ⟨others, left, reached, classes, meets⟩ := following_follows parting exchanges impute meets
    continues limited
  obtain ⟨grouped, again, shape⟩ := Run.tree_of_classes alike classes reduces
  rw [← same] at again
  exact ⟨grouped, left, other.expression_finds rfl finds reached again, shape, meets⟩

end

/-- A formula that opens brackets up to some level follows another one that may open more. -/
theorem expressionAt_follows (parting : Parting here there limit)
    (impute : other.imputeNumber = source.imputeNumber)
    {levels more : Nat} (fewer : levels ≤ more)
    (bridges : ∀ below above, below ≤ levels → below ≤ above →
      source.Bridges other here there (source.nested below) (other.nested above)) :
    ExpressionReader.Follows here there limit (source.expressionAt levels)
      (other.expressionAt more) := by
  induction levels generalizing more with
  | zero =>
    rw [source.expressionAt_eq, other.expressionAt_eq]
    refine expression_follows parting ⟨bridges 0 more (Nat.le_refl 0) fewer, ?_, ?_⟩ impute
    · rintro read ⟨⟩
    · rintro read ⟨⟩
  | succ levels ih =>
    rw [source.expressionAt_eq, other.expressionAt_eq]
    refine expression_follows parting ⟨bridges _ more (Nat.le_refl _) fewer, ?_, ?_⟩ impute
    · rintro read ⟨⟩
      exact isSighted_expressionAt levels
    · rintro read ⟨⟩
      obtain ⟨more, rfl⟩ := Nat.exists_eq_add_of_lt fewer
      refine ⟨_, rfl, ih (Nat.le_add_right levels more) fun below above within => ?_⟩
      exact bridges below above (Nat.le_succ_of_le within)

end Source
end DiceNotation
