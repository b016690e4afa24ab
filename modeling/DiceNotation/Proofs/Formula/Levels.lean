import DiceNotation.Proofs.Formula.Found
import DiceNotation.Proofs.Formula.ReadingClauses

namespace DiceNotation

open Text

/-!
# More brackets than needed

A formula that can be read when some brackets may be opened is read in the same way when more
of them may be opened.  Each reader finds the same with readers of its brackets that find more,
and the levels differ in these readers only.
-/

/-- Whatever is found in brackets is found in brackets by the other reader as well. -/
def Source.Widens (inner outer : Option ExpressionReader) : Prop :=
  ∀ read, inner = some read → ∃ wide, outer = some wide ∧
    ∀ text tree rest, Finds (read text) tree rest → Finds (wide text) tree rest

namespace Source

variable {source : Source} {inner outer : Option ExpressionReader}

theorem separated_widens {read wide : ExpressionReader}
    (wider : ∀ text tree rest, Finds (read text) tree rest → Finds (wide text) tree rest)
    {closing : Char} {opened text after : List Char} {trees : List (Tree Clause)}
    (found : Finds (source.separated read closing opened text) trees after) :
    Finds (source.separated wide closing opened text) trees after := by
  induction trees generalizing text with
  | nil =>
    obtain ⟨_, _, _, ⟨_, _, _, none, _⟩ | ⟨_, _, none⟩⟩ := separated_found found <;> cases none
  | cons tree trees ih =>
    obtain ⟨_, _, begun, ⟨_, _, comma, same, later⟩ | ⟨other, closed, same⟩⟩ :=
      separated_found found
    · cases same
      exact source.separated_finds_more (wider _ _ _ begun) comma (ih later)
    · cases same
      exact source.separated_finds_last other (wider _ _ _ begun) closed

section

variable (wider : Widens inner outer)
include wider

theorem bracketed_widens {rest after : List Char} {tree : Tree Clause}
    (found : Finds (source.bracketed inner '(' rest) tree after) :
    Finds (source.bracketed outer '(' rest) tree after := by
  obtain ⟨read, behind, is, begun, closed⟩ := bracketed_found found
  obtain ⟨wide, rfl, finds⟩ := wider read is
  exact source.bracketed_finds (finds _ _ _ begun) closed

theorem listed_widens {closing c : Char} {rest after : List Char} {trees : List (Tree Clause)}
    (found : Finds (source.listed inner closing c rest) trees after) :
    Finds (source.listed outer closing c rest) trees after := by
  obtain ⟨read, is, ⟨closed, rfl⟩ | ⟨open_, later⟩⟩ := listed_found found
  · obtain ⟨wide, rfl, _⟩ := wider read is
    exact source.listed_finds_nothing wide c closed
  · obtain ⟨wide, rfl, finds⟩ := wider read is
    have later := separated_widens finds later
    cases begun : skipBlanks rest with
    | nil =>
      -- behind the end of the text there is no expression
      rw [begun] at later
      obtain ⟨shorter, _⟩ := later
      exact absurd shorter (Nat.not_lt_zero _)
    | cons m more =>
      rw [begun] at later open_
      exact source.listed_finds begun (fun same => open_ (congrArg some same)) later

theorem faces_widens {text after : List Char} {faces : Faces Clause}
    (found : FacesFound source inner text faces after) :
    Reaches (source.faces outer text) (some faces) after := by
  cases found with
  | bracketed inside => exact source.faces_reaches_bracketed (bracketed_widens wider inside)
  | digits first => exact source.faces_reaches_number outer first _
  | letter round other letter => exact source.faces_reaches_letter outer letter other round after

theorem dice_widens {number : Option (Amount Clause)} {start text rest : List Char}
    {clause : Clause} (found : Reaches (source.dice inner number start text) clause rest) :
    Reaches (source.dice outer number start text) clause rest := by
  obtain ⟨amount, faces, after, counts, written, rfl, rfl⟩ := dice_found found
  exact source.dice_reaches_counted counts (faces_widens wider written) rfl rfl

theorem clauseAt_widens {c : Char} {rest after : List Char} {clause : Clause}
    (found : ClauseFound source inner c rest clause after) :
    Finds (source.clauseAt outer c rest) clause after := by
  cases found with
  | bracket found =>
    obtain ⟨tree, behind, inside, ⟨d, more, rfl, sign, die⟩ | ⟨noDie, rfl, rfl⟩⟩ :=
      bracketClause_found found
    · exact source.bracketClause_finds_dice (bracketed_widens wider inside) sign
        (dice_widens wider die)
    · exact source.bracketClause_finds_group (bracketed_widens wider inside) noDie rfl
  | pool found =>
    obtain ⟨members, behind, inside, some, rfl, rfl⟩ := poolClause_found found
    exact source.poolClause_finds (listed_widens wider inside) some rfl rfl
  | number first found =>
    obtain ⟨d, more, behind, sign, whole, die⟩ | ⟨noDie, rfl, rfl⟩ := numberClause_found found
    · exact source.numberClause_finds_dice first (Prod.ext rfl behind) sign whole
        (dice_widens wider die)
    · exact source.numberClause_finds_numeric outer first rfl noDie rfl
  | word round curly other found =>
    rw [source.clauseAt_of_word round curly other]
    cases found with
    | @function name _ _ _ called opens inside =>
      obtain ⟨value, left, shorter⟩ := name
      subst opens
      exact source.wordClause_finds_function ⟨shorter, called⟩ (listed_widens wider inside) rfl
    | dice noName opens die =>
      exact source.wordClause_finds_dice noName opens (dice_widens wider die)
    | @word word noName noDie read =>
      exact source.wordClause_finds_word outer noName noDie ⟨word.shorter, read⟩ rfl

theorem clause_widens {text after : List Char} {clause : Clause}
    (found : Finds (source.clause inner text) clause after) :
    Finds (source.clause outer text) clause after := by
  obtain ⟨c, rest, begun, found⟩ := clause_found found
  exact source.clause_finds begun (clauseAt_widens wider found)

theorem following_widens {text after : List Char} {more : List (List Char × Clause)}
    (found : Reaches (Scan.following (source.clause inner) text) more after) :
    Reaches (Scan.following (source.clause outer) text) more after := by
  induction more generalizing text with
  | nil =>
    obtain ⟨none, _, rfl⟩ | ⟨_, _, _, _, _, _, none, _⟩ := following_found found
    · exact Scan.following_of_no_operators none
    · cases none
  | cons next more ih =>
    obtain ⟨_, none, _⟩ | ⟨row, _, _, _, operators, begun, same, later⟩ := following_found found
    · cases none
    · cases same
      exact Scan.following_of_operators ⟨row.shorter, operators⟩ (clause_widens wider begun)
        (ih later)

theorem expression_widens {text rest : List Char} {tree : Tree Clause}
    (found : Finds (source.expression (source.clause inner) text) tree rest) :
    Finds (source.expression (source.clause outer) text) tree rest := by
  obtain ⟨first, behind, more, begun, continues, built⟩ := expression_found found
  exact source.expression_finds rfl (clause_widens wider begun) (following_widens wider continues)
    built

end

/-- What is found at one level is found at every further level. -/
theorem expressionAt_mono {levels more : Nat} (fewer : levels ≤ more) {text rest : List Char}
    {tree : Tree Clause} (found : Finds (source.expressionAt levels text) tree rest) :
    Finds (source.expressionAt more text) tree rest := by
  induction levels generalizing more text rest tree with
  | zero =>
    rw [expressionAt_eq] at found ⊢
    refine expression_widens ?_ found
    rintro read ⟨⟩
  | succ levels ih =>
    obtain ⟨above, rfl⟩ : ∃ above, more = above + 1 :=
      ⟨more - 1, (Nat.sub_add_cancel (Nat.le_trans (Nat.succ_pos levels) fewer)).symm⟩
    rw [expressionAt_eq] at found ⊢
    refine expression_widens ?_ found
    rintro read ⟨⟩
    exact ⟨_, rfl, fun _ _ _ inside => ih (Nat.le_of_succ_le_succ fewer) inside⟩

/-- However many brackets may be opened to find a tree, no other tree is parsed. -/
theorem parse_eq_of_finds {tree other : Tree Clause} (parsed : source.parse = .ok tree)
    {levels : Nat} {rest : List Char}
    (found : Finds (source.expressionAt levels source.text) other rest) : tree = other := by
  obtain ⟨_, parses, _⟩ := parse_found parsed
  obtain ⟨_, here⟩ := expressionAt_mono (Nat.le_max_left source.maxNesting levels) parses
  obtain ⟨_, there⟩ := expressionAt_mono (Nat.le_max_right source.maxNesting levels) found
  cases here.symm.trans there
  rfl

end Source
end DiceNotation
