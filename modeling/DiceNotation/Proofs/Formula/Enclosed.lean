import DiceNotation.Proofs.Formula.Exchange

namespace DiceNotation

open Text

/-!
# Closed texts in brackets

A closed text that stands in brackets in a formula is read up to the bracket that closes
behind it, and not any further.  So it can be read on its own if the formula can be read.
The rest of the formula is read as with any other closed text in these brackets, and it
could also be read with a number there.

The front of the formula must end outside of flavors, because in a flavor the brackets
would not be read at all.
-/

namespace Source

variable {source other : Source}

/-- An expression is read with the blanks before it. -/
theorem expressionAt_finds_behind_blanks {levels : Nat} {text place rest : List Char}
    (same : skipBlanks text = skipBlanks place) {tree : Tree Clause}
    (found : Finds (source.expressionAt levels place) tree rest) :
    Finds (source.expressionAt levels text) tree rest := by
  rw [expressionAt_eq] at found ⊢
  obtain ⟨first, behind, more, begun, continues, reduces⟩ := expression_found found
  have signs : Lexeme.splitSigns text = Lexeme.splitSigns place := by
    rw [← Lexeme.splitSigns_skipBlanks text, same, Lexeme.splitSigns_skipBlanks]
  exact source.expression_finds signs begun continues reduces

/-- Where a bracket closes in the first text, no brackets have to be compared. -/
theorem bridges_of_closing (back there : List Char) (inner outer : Option ExpressionReader) :
    source.Bridges other (')' :: back) there inner outer where
  bracketed := by
    intro one another opens
    cases opens
  listed := by
    intro one another opens
    cases opens

section

variable (impute : other.imputeNumber = source.imputeNumber)

include impute

/-- A closed text that was read up to a bracket can be read on its own. -/
theorem parse_of_closed {levels : Nat} (fewer : levels ≤ other.maxNesting)
    {lead inside gap back : List Char} (text : other.text = lead ++ (inside ++ gap))
    (before : ∀ c ∈ lead, isBlank c = true) (blank : ∀ c ∈ gap, isBlank c = true)
    (closed : IsClosed inside) {tree : Tree Clause} {behind : List Char}
    (found : Finds (source.expressionAt levels (inside ++ ')' :: back)) tree behind)
    (ended : skipBlanks behind = ')' :: back) : ∃ alone, other.parse = .ok alone := by
  have follows := expressionAt_follows (.closing back blank) impute fewer fun _ _ _ _ =>
    bridges_of_closing back gap _ _
  have limited : back.length + 1 ≤ behind.length := by
    have shorter := Text.length_skipBlanks_le behind
    rwa [ended] at shorter
  obtain ⟨alone, rest, finds, _, meets⟩ :=
    follows _ _ (.front ⟨0, 0, closed⟩) tree behind found limited
  have whole : Finds (other.expressionAt other.maxNesting other.text) alone rest := by
    rw [text]
    exact expressionAt_finds_behind_blanks (skipBlanks_append before _) finds
  refine ⟨alone, other.parse_of_finds whole ?_⟩
  cases meets with
  | same opens text => cases opens
  | @front front whole =>
    cases seen : skipBlanks front with
    | nil =>
      rw [skipBlanks_append_of_nil seen]
      exact List.dropWhile_eq_nil_iff.2 blank
    | cons c more =>
      rw [skipBlanks_append_of_cons seen] at ended
      have lengths := congrArg List.length ended
      simp only [List.length_cons, List.length_append] at lengths
      omega

/-- A formula is read with other brackets in the place of some if those can be read as well. -/
theorem parse_follows (nesting : source.maxNesting ≤ other.maxNesting)
    {front one another : List Char} (text : source.text = front ++ '(' :: one)
    (otherText : other.text = front ++ '(' :: another) (whole : EndsOutside front)
    (bridges : ∀ below above, below ≤ source.maxNesting → below ≤ above →
      source.Bridges other ('(' :: one) ('(' :: another) (source.nested below) (other.nested above))
    {tree : Tree Clause} (parsed : source.parse = .ok tree) :
    ∃ again, other.parse = .ok again ∧
      again.map Clause.termClass = tree.map Clause.termClass := by
  obtain ⟨rest, found, ended⟩ := parse_found parsed
  have follows := expressionAt_follows (.opening one another) impute nesting bridges
  rw [text] at found
  obtain ⟨again, left, finds, same, meets⟩ :=
    follows _ _ (.front whole) tree rest found (Nat.zero_le _)
  rw [← otherText] at finds
  refine ⟨again, other.parse_of_finds finds ?_, same⟩
  cases meets with
  | same opens text => exact ended
  | @front front whole =>
    cases seen : skipBlanks front with
    | nil =>
      rw [skipBlanks_append_of_nil seen, skipBlanks_cons (by decide)] at ended
      cases ended
    | cons c more =>
      rw [skipBlanks_append_of_cons seen] at ended
      cases ended

end

section

variable {inside back : List Char} (closed : IsClosed inside)

include closed

/-- The brackets around a closed text close right behind it. -/
theorem bracketed_closed {levels : Nat} {tree : Tree Clause} {rest : List Char}
    (found : Finds (source.bracketed (source.nested levels) '(' (inside ++ ')' :: back)) tree rest) :
    ∃ below behind, levels = below + 1 ∧
      Finds (source.expressionAt below (inside ++ ')' :: back)) tree behind ∧
      skipBlanks behind = ')' :: back ∧ rest = back := by
  obtain ⟨read, behind, is, begun, ended⟩ := bracketed_found found
  cases levels with
  | zero => cases is
  | succ below =>
    cases is
    have encloses := (closes_expressionAt below _ _ _ begun).trans (encloses_skipBlanks behind)
    rw [ended] at encloses
    obtain ⟨_, rfl⟩ := encloses.eq_of_isClosed closed rfl rfl
    exact ⟨below, behind, rfl, begun, ended, rfl⟩

/-- A list of arguments that is a closed text is empty or has one argument. -/
theorem listed_closed {levels : Nat} {trees : List (Tree Clause)} {rest : List Char}
    (found : Finds (source.listed (source.nested levels) ')' '(' (inside ++ ')' :: back)) trees rest) :
    rest = back ∧ ∃ below, levels = below + 1 ∧
      (skipBlanks inside = [] ∨ ∃ tree behind,
        Finds (source.expressionAt below (inside ++ ')' :: back)) tree behind ∧
        skipBlanks behind = ')' :: back) := by
  obtain ⟨read, is, ended⟩ := listed_found found
  cases levels with
  | zero => cases is
  | succ below =>
    cases is
    have blanks := encloses_skipBlanks (inside ++ ')' :: back)
    rcases ended with ⟨ended, _⟩ | ⟨_, later⟩
    · rw [ended] at blanks
      obtain ⟨_, rfl⟩ := blanks.eq_of_isClosed closed rfl rfl
      refine ⟨rfl, below, rfl, .inl ?_⟩
      cases seen : skipBlanks inside with
      | nil => rfl
      | cons c more =>
        rw [skipBlanks_append_of_cons seen] at ended
        have lengths := congrArg List.length ended
        simp only [List.length_cons, List.length_append] at lengths
        omega
    · obtain ⟨tree, behind, begun, ended⟩ := separated_found later
      have encloses := blanks.trans
        ((closes_expressionAt below _ _ _ begun).trans (encloses_skipBlanks behind))
      rcases ended with ⟨next, _, comma, _⟩ | ⟨_, ended, _⟩
      · rw [comma] at encloses
        cases (encloses.eq_of_isClosed closed rfl rfl).1
      · rw [ended] at encloses
        obtain ⟨_, rfl⟩ := encloses.eq_of_isClosed closed rfl rfl
        refine ⟨rfl, below, rfl, .inr ⟨tree, behind, ?_, ended⟩⟩
        exact expressionAt_finds_behind_blanks (List.dropWhile_idempotent ..).symm begun

end

/-- A digit is read at every level. -/
theorem expressionAt_finds_digit (source : Source) (levels : Nat) (back : List Char) :
    ∃ tree, Finds (source.expressionAt levels ('1' :: ')' :: back)) tree (')' :: back) := by
  have stops : EndsClause (')' :: back) := by
    intro c first
    rw [skipBlanks_cons (by decide)] at first
    cases first
    rfl
  have decimal : ∀ c ∈ ['1'], isDigit c = true := forall_of_all (by decide)
  have digits : Lexeme.splitNumber ('1' :: ')' :: back) = (['1'], ')' :: back) := by
    refine Lexeme.splitNumber_append decimal ?_
    rintro _ ⟨⟩
    exact ⟨by decide, by decide⟩
  have clause := source.numberClause_finds_numeric (source.nested levels) (decimal '1' (by simp))
    digits (by rintro _ ⟨⟩; rfl) (Lexeme.splitFlavor_of_endsClause stops)
  have begun : skipBlanks ('1' :: ')' :: back) = '1' :: ')' :: back := skipBlanks_cons (by decide) _
  have last : Lexeme.operators (')' :: back) = none := by
    refine Lexeme.operators_of_not_operator fun c first => ?_
    rw [skipBlanks_cons (by decide)] at first
    cases first
    rfl
  rw [expressionAt_eq]
  exact ⟨_, source.expression_finds rfl (source.clause_finds begun clause)
    (Scan.following_of_no_operators last) rfl⟩

section

variable (impute : other.imputeNumber = source.imputeNumber)
  {front inside back : List Char} (text : source.text = front ++ '(' :: (inside ++ ')' :: back))
  (whole : EndsOutside front) (closed : IsClosed inside)

include impute text whole closed

/-- A formula with a closed text in brackets can be read with a number in these brackets,
and its clauses are of the same classes then. -/
theorem parse_with_digit (nesting : other.maxNesting = source.maxNesting)
    (otherText : other.text = front ++ '(' :: '1' :: ')' :: back) {tree : Tree Clause}
    (parsed : source.parse = .ok tree) :
    ∃ again, other.parse = .ok again ∧
      again.map Clause.termClass = tree.map Clause.termClass := by
  refine parse_follows impute (Nat.le_of_eq nesting.symm) text otherText whole ?_ parsed
  intro below above _ fewer
  refine ⟨fun _ _ one another tree rest found => ?_, fun _ _ one another trees rest found => ?_⟩
  · cases one
    cases another
    obtain ⟨levels, behind, rfl, _, _, rfl⟩ := bracketed_closed closed found
    obtain ⟨above, rfl⟩ := Nat.exists_eq_add_of_lt fewer
    obtain ⟨number, finds⟩ := other.expressionAt_finds_digit (levels + above) rest
    exact ⟨number, other.bracketed_finds finds (skipBlanks_cons (by decide) rest)⟩
  · cases one
    cases another
    obtain ⟨rfl, levels, rfl, _⟩ := listed_closed closed found
    obtain ⟨above, rfl⟩ := Nat.exists_eq_add_of_lt fewer
    obtain ⟨number, finds⟩ := other.expressionAt_finds_digit (levels + above) rest
    exact ⟨[number], other.listed_finds (skipBlanks_cons (by decide) _) (by decide)
      (other.separated_finds_last (by decide) finds (skipBlanks_cons (by decide) rest))⟩

/-- If a formula with a closed text in brackets can be read, then so can the text alone,
unless it is blank. -/
theorem parse_alone (nesting : other.maxNesting = source.maxNesting) {lead gap : List Char}
    (otherText : other.text = lead ++ (inside ++ gap)) (before : ∀ c ∈ lead, isBlank c = true)
    (blank : ∀ c ∈ gap, isBlank c = true) (visible : skipBlanks inside ≠ []) {tree : Tree Clause}
    (parsed : source.parse = .ok tree) : ∃ alone, other.parse = .ok alone := by
  by_contra unread
  have refused {levels : Nat} (fewer : levels + 1 ≤ source.maxNesting) {tree : Tree Clause}
      {behind : List Char}
      (found : Finds (source.expressionAt levels (inside ++ ')' :: back)) tree behind)
      (ended : skipBlanks behind = ')' :: back) : False := by
    rw [← nesting] at fewer
    exact unread (parse_of_closed impute (Nat.le_of_succ_le fewer) otherText before blank closed
      found ended)
  -- the brackets are never read, so the formula could be read if it ended inside of them
  let short : Source := ⟨front ++ ['('], source.imputeNumber, source.maxNesting⟩
  have alike : short.imputeNumber = source.imputeNumber := rfl
  obtain ⟨_, cut, _⟩ := parse_follows alike (Nat.le_refl _) text rfl whole (by
    intro below above fewer _
    refine ⟨fun _ _ one another tree rest found => ?_, fun _ _ one another trees rest found => ?_⟩
    · cases one
      obtain ⟨levels, behind, rfl, begun, ended, _⟩ := bracketed_closed closed found
      exact (refused fewer begun ended).elim
    · cases one
      obtain ⟨_, levels, rfl, none | ⟨tree, behind, begun, ended⟩⟩ := listed_closed closed found
      · exact absurd none visible
      · exact (refused fewer begun ended).elim) parsed
  have outside := isClosed_of_parse cut
  rw [IsClosed, Opening.after_append] at outside
  cases open_ : (Opening.outside 0).after front <;> rw [open_] at outside <;> cases outside

end

/-- Any two closed texts in the same brackets of a formula leave its clauses of the same
classes, if the formula can be read with both. -/
theorem classes_of_closed {front inside another back : List Char} (impute : Bool)
    (maxNesting : Nat) (whole : EndsOutside front) (closed : IsClosed inside)
    (otherClosed : IsClosed another) {tree again : Tree Clause}
    (parsed : Source.parse ⟨front ++ '(' :: (inside ++ ')' :: back), impute, maxNesting⟩ = .ok tree)
    (otherParsed :
      Source.parse ⟨front ++ '(' :: (another ++ ')' :: back), impute, maxNesting⟩ = .ok again) :
    again.map Clause.termClass = tree.map Clause.termClass := by
  let number : Source := ⟨front ++ '(' :: '1' :: ')' :: back, impute, maxNesting⟩
  let one : Source := ⟨front ++ '(' :: (inside ++ ')' :: back), impute, maxNesting⟩
  let two : Source := ⟨front ++ '(' :: (another ++ ')' :: back), impute, maxNesting⟩
  have alike : number.imputeNumber = one.imputeNumber := rfl
  have alikeToo : number.imputeNumber = two.imputeNumber := rfl
  obtain ⟨first, read, same⟩ := parse_with_digit alike rfl whole closed rfl rfl parsed
  obtain ⟨second, readAgain, sameAgain⟩ :=
    parse_with_digit alikeToo rfl whole otherClosed rfl rfl otherParsed
  rw [read] at readAgain
  cases readAgain
  exact sameAgain.symm.trans same

end Source
end DiceNotation
