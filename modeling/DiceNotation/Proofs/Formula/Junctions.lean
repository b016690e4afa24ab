import DiceNotation.Proofs.Formula.Closing
import DiceNotation.Proofs.Formula.ReadingClauses

namespace DiceNotation

open Text

/-!
# Where texts part

Two texts with the same front are read alike as long as the reading stays in the front,
whatever they go on with, if only no lexeme of the front goes on there.  A round bracket
and a blank end all lexemes.  But a flavor does not end with them, so the front must not
end inside of one, and a bracket that opens makes a function of the name before it, so
either both texts go on with such a bracket or none of them does.
-/

namespace Text

/-- What a text may go on with if no lexeme of it is to go on. -/
inductive Joint : List Char → Prop
  | opening (rest : List Char) : Joint ('(' :: rest)
  | closing (rest : List Char) : Joint (')' :: rest)
  | blank {gap : List Char} (blank : ∀ c ∈ gap, isBlank c = true) : Joint gap

namespace Joint

variable {joint : List Char}

/-- No class that begins or continues a lexeme has the first character. -/
theorem outside (ends : Joint joint) {c : Char} (first : joint.head? = some c) :
    ∀ inside ∈ lexemeClasses, inside c = false := by
  cases ends with
  | opening rest =>
    cases first
    have outside : (lexemeClasses.all fun inside => !inside '(') = true := by decide +kernel
    intro inside member
    simpa using List.all_eq_true.1 outside inside member
  | closing rest =>
    cases first
    exact outside_of_isBoundary (by decide)
  | blank blank =>
    exact outside_of_isBoundary (isBoundary_of_isBlank (blank c (List.mem_of_mem_head? first)))

/-- The first visible character is a round bracket. -/
theorem visible (ends : Joint joint) {c : Char} (first : (skipBlanks joint).head? = some c) :
    c = '(' ∨ c = ')' := by
  cases ends with
  | opening rest =>
    rw [skipBlanks_cons (by decide)] at first
    cases first
    exact .inl rfl
  | closing rest =>
    rw [skipBlanks_cons (by decide)] at first
    cases first
    exact .inr rfl
  | blank blank =>
    have none : skipBlanks joint = [] := List.dropWhile_eq_nil_iff.2 blank
    rw [none] at first
    cases first

/-- A class of characters that ends before the joint splits a text in front of it as it
splits the text alone. -/
theorem span {p : Char → Bool} (ends : Joint joint) (listed : p ∈ lexemeClasses)
    (text : List Char) :
    (text ++ joint).takeWhile p = text.takeWhile p ∧
      (text ++ joint).dropWhile p = text.dropWhile p ++ joint := by
  have stops : ∀ c, joint.head? = some c → p c = false := fun c first => ends.outside first p listed
  obtain ⟨none, all⟩ := Command.span_of_outside stops
  induction text with
  | nil => exact ⟨none, all⟩
  | cons c text ih =>
    cases inside : p c with
    | true => simp [inside, ih.1, ih.2]
    | false => simp [inside]

end Joint

theorem skipBlanks_append_of_cons {front rest : List Char} {c : Char}
    (begun : skipBlanks front = c :: rest) (back : List Char) :
    skipBlanks (front ++ back) = c :: (rest ++ back) := by
  change List.dropWhile isBlank front = _ at begun
  change List.dropWhile isBlank _ = _
  rw [List.dropWhile_append, begun]
  rfl

theorem skipBlanks_append_of_nil {front : List Char} (none : skipBlanks front = [])
    (back : List Char) : skipBlanks (front ++ back) = skipBlanks back :=
  skipBlanks_append (List.dropWhile_eq_nil_iff.1 none) back

end Text

/-! ## Fronts that end outside of flavors -/

/-- Whether a text ends outside of flavors, if some brackets are open before it. -/
def EndsOutside (front : List Char) : Prop :=
  ∃ depth below, (Opening.outside depth).after front = .outside below

namespace EndsOutside

variable {front rest : List Char}

theorem nil : EndsOutside [] := ⟨0, 0, rfl⟩

theorem of_encloses (ends : EndsOutside front) (encloses : Encloses front rest) :
    EndsOutside rest := by
  obtain ⟨depth, below, whole⟩ := ends
  obtain ⟨read, closed, rfl⟩ := encloses
  rw [Opening.after_append, closed] at whole
  exact ⟨depth, below, whole⟩

/-- What is left behind a character that begins no flavor. -/
theorem tail {c : Char} (ends : EndsOutside (c :: rest)) (plain : c ≠ '[') : EndsOutside rest := by
  obtain ⟨depth, below, whole⟩ := ends
  rw [Opening.after_cons] at whole
  have broken : Opening.broken.after rest ≠ .outside below := by
    rw [Opening.after_broken]
    exact Opening.noConfusion
  generalize same : BracketMark.of c = mark at whole
  cases mark with
  | flavor => exact absurd (BracketMark.eq_of_flavor same) plain
  | opening => exact ⟨depth + 1, below, whole⟩
  | flavorEnd => exact ⟨depth, below, whole⟩
  | other => exact ⟨depth, below, whole⟩
  | closing =>
    cases depth with
    | zero => exact absurd whole broken
    | succ depth => exact ⟨depth, below, whole⟩
  | comma =>
    cases depth with
    | zero => exact absurd whole broken
    | succ depth => exact ⟨depth + 1, below, whole⟩

/-- A flavor that begins in the text ends in it. -/
theorem flavor (ends : EndsOutside ('[' :: rest)) : ']' ∈ rest := by
  obtain ⟨depth, below, whole⟩ := ends
  by_contra open_
  have inside : (Opening.inFlavor depth).after rest = .outside below := whole
  rw [Opening.after_inFlavor open_] at inside
  cases inside

end EndsOutside

/-! ## Lexemes in front of a joint -/

namespace Command

variable {joint : List Char}

theorem readComparison_joint (ends : Joint joint) (text : List Char) :
    readComparison (text ++ joint) =
      (readComparison text).map fun read => (read.1, read.2 ++ joint) := by
  obtain ⟨marks, after⟩ := ends.span (p := isMark) (by simp [lexemeClasses]) text
  obtain ⟨digits, rest⟩ := ends.span (p := isDigit) (by simp [lexemeClasses])
    (text.dropWhile isMark)
  simp only [readComparison, marks, after, digits, rest]
  split <;> rfl

theorem readCommand_joint (ends : Joint joint) (text : List Char) :
    readCommand (text ++ joint) = ((readCommand text).1, (readCommand text).2 ++ joint) := by
  obtain ⟨letters, after⟩ := ends.span (p := isBasicLetter) (by simp [lexemeClasses]) text
  obtain ⟨digits, rest⟩ := ends.span (p := isDigit) (by simp [lexemeClasses])
    (text.dropWhile isBasicLetter)
  unfold readCommand
  simp only [letters, after, readComparison_joint ends]
  cases readComparison (text.dropWhile isBasicLetter) with
  | some read => rfl
  | none => simp only [Option.map_none, digits, rest]

theorem readRun_joint (ends : Joint joint) (text : List Char) :
    readRun (text ++ joint) = ((readRun text).1, (readRun text).2 ++ joint) := by
  have command := readCommand_joint ends text
  fun_induction readRun text with
  | case1 text attached more ih =>
    rw [readRun, dif_pos (by rw [command]; exact attached), command]
    simp only [ih (readCommand_joint ends _), more]
  | case2 text attached =>
    rw [readRun, dif_neg (by rw [command]; exact attached)]

end Command

namespace Lexeme

variable {joint : List Char}

theorem splitNumber_joint (ends : Joint joint) (text : List Char) :
    splitNumber (text ++ joint) = ((splitNumber text).1, (splitNumber text).2 ++ joint) := by
  have digits := ends.span (p := isDigit) (by simp [lexemeClasses])
  unfold splitNumber
  simp only [digits]
  cases behind : text.dropWhile isDigit with
  | nil =>
    have plain : ∀ more, joint ≠ '.' :: more := by
      rintro more rfl
      rcases ends.visible (c := '.') rfl with same | same <;> cases same
    rw [List.nil_append]
    split
    · rename_i more
      exact absurd rfl (plain more)
    · rfl
  | cons c more =>
    rw [List.cons_append]
    split
    · rename_i places point
      cases point
      simp only [digits]
      split <;> rfl
    · rename_i other
      split
      · rename_i places point
        cases point
        exact absurd rfl (other (more ++ joint))
      · rfl

/-- Signs are split off a text as they are if something visible ends them. -/
theorem splitSigns_append_of_visible {back : List Char}
    (visible : ∀ c, back.head? = some c → isBlank c = false ∧ isSign c = false)
    (text : List Char) :
    splitSigns (text ++ back) = ((splitSigns text).1, (splitSigns text).2 ++ back) := by
  have nothing : splitSigns back = ([], back) :=
    splitSigns_append (fun _ member => absurd member List.not_mem_nil) visible
  fun_induction splitSigns text with
  | case1 => exact nothing
  | case2 c rest sign ih => rw [List.cons_append, splitSigns, if_pos sign, ih]
  | case3 c rest sign blank ih => rw [List.cons_append, splitSigns, if_neg sign, if_pos blank, ih]
  | case4 c rest sign blank => rw [List.cons_append, splitSigns, if_neg sign, if_neg blank]

/-- Signs are split off a text as they are if they end in it. -/
theorem splitSigns_append_of_ne_nil {text : List Char} (ended : (splitSigns text).2 ≠ [])
    (back : List Char) :
    splitSigns (text ++ back) = ((splitSigns text).1, (splitSigns text).2 ++ back) := by
  fun_induction splitSigns text with
  | case1 => exact absurd rfl ended
  | case2 c rest sign ih => rw [List.cons_append, splitSigns, if_pos sign, ih ended]
  | case3 c rest sign blank ih =>
    rw [List.cons_append, splitSigns, if_neg sign, if_pos blank, ih ended]
  | case4 c rest sign blank => rw [List.cons_append, splitSigns, if_neg sign, if_neg blank]

/-- A name with a bracket behind it is the name of a function. -/
theorem functionName_finds {c : Char} {rest inside : List Char} (begins : beginsName c = true)
    (called : skipBlanks ((c :: rest).dropWhile insideName) = '(' :: inside)
    (noDie : lower ((c :: rest).takeWhile insideName) ≠ ['d']) :
    ∃ shorter, functionName c rest =
      some ⟨(c :: rest).takeWhile insideName, '(' :: inside, shorter⟩ := by
  have shorter : ('(' :: inside).length < (c :: rest).length := by
    rw [← called]
    exact Nat.lt_of_le_of_lt (Text.length_skipBlanks_le _)
      (length_dropWhile_cons_lt insideName c rest (by simp [insideName, begins]))
  refine ⟨shorter, ?_⟩
  unfold functionName
  rw [dif_pos begins]
  simp only [called]
  rw [if_pos (by simp [noDie])]

theorem splitOperators_joint (ends : Joint joint) (place text : List Char) :
    splitOperators (place ++ joint) (text ++ joint) =
      ((splitOperators place text).1, (splitOperators place text).2 ++ joint) := by
  fun_induction splitOperators place text with
  | case1 place =>
    refine splitOperators_of_not_operator (fun c first => ?_) _
    rcases ends.visible first with rfl | rfl <;> rfl
  | case2 place c rest operator ih =>
    rw [List.cons_append, splitOperators_cons_operator operator, ih]
  | case3 place c rest operator blank ih =>
    rw [List.cons_append, splitOperators_cons_blank blank, ih]
  | case4 place c rest operator blank =>
    rw [List.cons_append, splitOperators, if_neg operator, if_neg blank]

theorem splitFlavor_joint (ends : Joint joint) {text : List Char} (whole : EndsOutside text) :
    splitFlavor (text ++ joint) = ((splitFlavor text).1, (splitFlavor text).2 ++ joint) := by
  unfold splitFlavor
  cases begun : skipBlanks text with
  | nil =>
    rw [skipBlanks_append_of_nil begun]
    split
    · rename_i more opened
      rcases ends.visible (c := '[') (by rw [opened]; rfl) with same | same <;> cases same
    · rfl
  | cons c more =>
    rw [skipBlanks_append_of_cons begun]
    by_cases opens : c = '['
    · subst opens
      have closed : ']' ∈ more := by
        have inside := whole.of_encloses (encloses_skipBlanks text)
        rw [begun] at inside
        exact inside.flavor
      cases behind : more.dropWhile (· != ']') with
      | nil =>
        have none := List.dropWhile_eq_nil_iff.1 behind ']' closed
        simp at none
      | cons mark rest =>
        have taken : (more.takeWhile (· != ']')).length ≠ more.length := by
          intro same
          have split := congrArg List.length
            (List.takeWhile_append_dropWhile (p := (· != ']')) (l := more))
          rw [List.length_append, behind, List.length_cons] at split
          omega
        simp only [List.dropWhile_append, List.takeWhile_append, behind, List.isEmpty_cons,
          Bool.false_eq_true, if_false, if_neg taken, List.cons_append]
    · split
      · rename_i others same
        cases same
        exact absurd rfl opens
      · split
        · rename_i others same
          cases same
          exact absurd rfl opens
        · rfl

end Lexeme
end DiceNotation
