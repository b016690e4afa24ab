import DiceNotation.Dice.Command
import DiceNotation.Formula.Lexeme
import Mathlib.Tactic.IntervalCases

namespace DiceNotation
namespace Text

/-!
# Where lexemes end

A blank, an operator, a closing mark, a comma or the bracket of a flavor ends
every number, word, name and modifier before it.  There are thirty-eight such
characters, and none of them belongs to a class that continues a lexeme.  For a
class that is a table of ranges, the table is compared with that of these
characters, by `has_of_isBoundary`.  Other facts are checked on the list of the
characters, by `of_isBoundary`.
-/

/-! ## Tables of ranges -/

namespace Ranges

variable {ranges : Ranges} {code : Nat}

/-- No range of the first table meets one of the second.  Both tables are walked once: what lies
below a range is not looked at again. -/
def apart : Ranges → Ranges → Bool
  | [], _ => true
  | range :: rest, others =>
    let beyond := others.dropWhile fun other => other.2 < range.1
    (beyond.head?.all fun other => range.2 < other.1) && apart rest beyond

theorem has_eq_true :
    ranges.has code = true ↔ ∃ range ∈ ranges, range.1 ≤ code ∧ code ≤ range.2 := by
  simp [has]

theorem has_eq_false :
    ranges.has code = false ↔ ∀ range ∈ ranges, range.1 ≤ code → range.2 < code := by
  simp [has]

theorem pairwise_of_ascending (ascending : ranges.ascending = true) :
    ranges.Pairwise fun range next => range.1 < next.1 := by
  induction ranges with
  | nil => exact .nil
  | cons range rest ih =>
    cases rest with
    | nil => exact List.pairwise_singleton _ _
    | cons next rest =>
      simp only [Ranges.ascending, Bool.and_eq_true, decide_eq_true_eq] at ascending
      obtain ⟨⟨inOrder, below⟩, later⟩ := ascending
      have behind := ih later
      refine List.pairwise_cons.2 ⟨fun other member => ?_, behind⟩
      rcases List.mem_cons.1 member with rfl | member
      · omega
      · have further := (List.pairwise_cons.1 behind).1 other member
        omega

/-- What ends before a code point may be left out. -/
theorem has_dropWhile {low : Nat} (reached : low ≤ code) :
    Ranges.has (ranges.dropWhile fun range => range.2 < low) code = ranges.has code := by
  induction ranges with
  | nil => rfl
  | cons range rest ih =>
    rw [List.dropWhile_cons]
    split
    · rename_i below
      have outside : ¬code ≤ range.2 := by
        have ends := of_decide_eq_true below
        omega
      rw [ih]
      simp [has, outside]
    · rfl

/-- A table that begins above a code point does not have it. -/
theorem has_of_head (ascending : ranges.Pairwise fun range next => range.1 < next.1)
    (above : ranges.head?.all (fun range => code < range.1) = true) : ranges.has code = false := by
  cases ranges with
  | nil => rfl
  | cons first rest =>
    have begins : code < first.1 := of_decide_eq_true above
    refine has_eq_false.2 fun range member reached => ?_
    rcases List.mem_cons.1 member with rfl | later
    · omega
    · have further := (List.pairwise_cons.1 ascending).1 range later
      omega

/-- What a table has, no table has that is apart from it. -/
theorem has_of_apart {others : Ranges} (apart : ranges.apart others = true)
    (ascending : ranges.Pairwise fun range next => range.1 < next.1)
    (others_ascending : others.Pairwise fun range next => range.1 < next.1)
    (inside : ranges.has code = true) : others.has code = false := by
  induction ranges generalizing others with
  | nil => cases inside
  | cons range rest ih =>
    obtain ⟨before, later⟩ := List.pairwise_cons.1 ascending
    obtain ⟨meets, further⟩ := Bool.and_eq_true_iff.1 apart
    have behind : List.Pairwise (fun range next => range.1 < next.1)
        (others.dropWhile fun other => other.2 < range.1) :=
      others_ascending.sublist (List.dropWhile_sublist _)
    obtain ⟨home, member, low, high⟩ := has_eq_true.1 inside
    rcases List.mem_cons.1 member with rfl | member
    · rw [← has_dropWhile low]
      refine has_of_head behind ?_
      cases left : others.dropWhile fun other => other.2 < home.1 with
      | nil => rfl
      | cons other _ =>
        rw [left] at meets
        exact decide_eq_true (high.trans_lt (of_decide_eq_true meets))
    · rw [← has_dropWhile ((before home member).le.trans low)]
      exact ih further later behind (has_eq_true.2 ⟨home, member, low, high⟩)

end Ranges

/-- The ranges of the decimal digits. -/
def digitRanges : Ranges := zeros.map fun first => (first, first + 9)

theorem isDigit_eq_has (c : Char) : isDigit c = digitRanges.has c.toNat := by
  rw [isDigit, digit?, Option.isSome_map, List.isSome_find?, digitRanges, Ranges.has, List.any_map]
  simp only [Function.comp_def, Nat.lt_succ_iff]

/-- The ranges of the characters whose lower case is another one, but for the dotted capital I. -/
def capitalRanges : Ranges := lowerRuns.map fun run => (run.1, run.2.1)

theorem lowerChar_of_outside {c : Char} (outside : capitalRanges.has c.toNat = false)
    (other : c ≠ '\u0130') : lowerChar c = [c] := by
  have none : (lowerRuns.find? fun run => run.1 ≤ c.toNat && c.toNat ≤ run.2.1 &&
      (c.toNat - run.1) % run.2.2.1 == 0) = none := by
    refine List.find?_eq_none.2 fun run member => ?_
    have below := Ranges.has_eq_false.1 outside _ (List.mem_map_of_mem member)
    simp only [Bool.and_eq_true, decide_eq_true_eq]
    rintro ⟨⟨low, high⟩, _⟩
    have ends := below low
    omega
  unfold lowerChar
  rw [if_neg (by simpa using other)]
  dsimp only
  rw [none]

/-! ## The characters that end lexemes -/

/-- Whether a character closes the expression before it. -/
def isClosing (c : Char) : Bool := c == ')' || c == '\x7d' || c == ','

/-- Whether a character ends every lexeme before it. -/
def isBoundary (c : Char) : Bool :=
  isBlank c || Lexeme.isOperator c || isClosing c || c == '['

/-- The blanks, one by one. -/
def blanks : List Char :=
  [9, 10, 11, 12, 13, 0x1C, 0x1D, 0x1E, 0x1F, 0x20, 0x85, 0xA0, 0x1680, 0x2000, 0x2001, 0x2002,
    0x2003, 0x2004, 0x2005, 0x2006, 0x2007, 0x2008, 0x2009, 0x200A, 0x2028, 0x2029, 0x202F, 0x205F,
    0x3000].map Char.ofNat

/-- The characters that end lexemes, one by one. -/
def boundaries : List Char := blanks ++ ['+', '-', '*', '/', '%', ')', '\x7d', ',', '[']

theorem mem_blanks_of_isBlank {c : Char} (blank : isBlank c = true) : c ∈ blanks := by
  have member : c.toNat ∈ blanks.map Char.toNat := by
    simp only [isBlank, blankRanges, Ranges.has, List.any_cons, List.any_nil, Bool.or_false,
      Bool.or_eq_true, Bool.and_eq_true, decide_eq_true_eq] at blank
    generalize c.toNat = n at blank ⊢
    rcases blank with h | h | h | h | h | h | h | h | h | h <;>
      obtain ⟨low, high⟩ := h <;> interval_cases n <;> decide
  obtain ⟨d, listed, same⟩ := List.mem_map.1 member
  rwa [← Char.toNat_inj.1 same]

theorem mem_boundaries_of_isOperator {c : Char} (operator : Lexeme.isOperator c = true) :
    c ∈ ['+', '-', '*', '/', '%'] := by
  unfold Lexeme.isOperator Operator.ofChar? at operator
  split at operator <;> simp at operator ⊢

theorem mem_boundaries_of_isBoundary {c : Char} (boundary : isBoundary c = true) :
    c ∈ boundaries := by
  simp only [isBoundary, isClosing, Bool.or_eq_true, beq_iff_eq] at boundary
  unfold boundaries
  rcases boundary with ((blank | operator) | (rfl | rfl) | rfl) | rfl
  · exact List.mem_append_left _ (mem_blanks_of_isBlank blank)
  · have listed := mem_boundaries_of_isOperator operator
    refine List.mem_append_right _ ?_
    exact List.mem_append_left [')', '\x7d', ',', '['] listed
  all_goals exact List.mem_append_right _ (by decide)

/-- What is checked for the characters of a list holds of each of them.  Decidability is
asked for one character, so that not all characters there are have to be gone through. -/
theorem forall_of_all {P : Char → Prop} [DecidablePred P] {listed : List Char}
    (checked : listed.all (fun c => decide (P c)) = true) : ∀ c ∈ listed, P c :=
  fun c member => of_decide_eq_true (List.all_eq_true.1 checked c member)

/-- What holds of the listed characters holds of every character that ends lexemes. -/
theorem of_isBoundary {P : Char → Prop} [DecidablePred P]
    (checked : boundaries.all (fun c => decide (P c)) = true) {c : Char}
    (boundary : isBoundary c = true) : P c :=
  forall_of_all checked c (mem_boundaries_of_isBoundary boundary)

/-- The ranges of the characters that end lexemes. -/
def boundaryRanges : Ranges :=
  [
    (0x9, 0xD), (0x1C, 0x20), (0x25, 0x25), (0x29, 0x2D), (0x2F, 0x2F), (0x5B, 0x5B),
    (0x7D, 0x7D), (0x85, 0x85), (0xA0, 0xA0), (0x1680, 0x1680), (0x2000, 0x200A),
    (0x2028, 0x2029), (0x202F, 0x202F), (0x205F, 0x205F), (0x3000, 0x3000)]

/-- A table that is apart from them has none of the characters that end lexemes. -/
theorem has_of_isBoundary {others : Ranges} (apart : boundaryRanges.apart others = true)
    (ascending : others.ascending = true) {c : Char} (boundary : isBoundary c = true) :
    others.has c.toNat = false := by
  have inside : boundaryRanges.has c.toNat = true :=
    of_isBoundary (P := fun c => boundaryRanges.has c.toNat = true) (by decide) boundary
  exact Ranges.has_of_apart apart (Ranges.pairwise_of_ascending (by decide))
    (Ranges.pairwise_of_ascending ascending) inside

theorem isBoundary_of_isBlank {c : Char} (blank : isBlank c = true) : isBoundary c = true := by
  simp [isBoundary, blank]

theorem isBoundary_of_isOperator {c : Char} (operator : Lexeme.isOperator c = true) :
    isBoundary c = true := by
  simp [isBoundary, operator]

theorem isBoundary_of_isClosing {c : Char} (closing : isClosing c = true) :
    isBoundary c = true := by
  simp [isBoundary, closing]

/-- The classes of characters that begin or continue a lexeme. -/
def lexemeClasses : List (Char → Bool) :=
  [isDigit, isDigitLike, isBasicLetter, isLetter, Command.isMark, Lexeme.isDieSign,
    Lexeme.insideName, Lexeme.insideWord]

section

variable {c : Char} (boundary : isBoundary c = true)

include boundary

theorem isDigit_of_isBoundary : isDigit c = false := by
  rw [isDigit_eq_has]
  exact has_of_isBoundary (by decide) (by decide) boundary

theorem isDigitLike_of_isBoundary : isDigitLike c = false := by
  rw [isDigitLike, isDigit_of_isBoundary boundary, Bool.false_or]
  exact has_of_isBoundary (by decide) (by decide) boundary

theorem isLetter_of_isBoundary : isLetter c = false :=
  has_of_isBoundary (by decide) (by decide +kernel) boundary

theorem isBasicLetter_of_isBoundary : isBasicLetter c = false :=
  of_isBoundary (P := fun c => isBasicLetter c = false) (by decide) boundary

theorem isMark_of_isBoundary : Command.isMark c = false :=
  of_isBoundary (P := fun c => Command.isMark c = false) (by decide) boundary

theorem isDieSign_of_isBoundary : Lexeme.isDieSign c = false :=
  of_isBoundary (P := fun c => Lexeme.isDieSign c = false) (by decide) boundary

theorem insideName_of_isBoundary : Lexeme.insideName c = false :=
  of_isBoundary (P := fun c => Lexeme.insideName c = false) (by decide) boundary

theorem insideWord_of_isBoundary : Lexeme.insideWord c = false :=
  of_isBoundary (P := fun c => Lexeme.insideWord c = false) (by decide) boundary

/-- No class that begins or continues a lexeme has a character that ends one. -/
theorem outside_of_isBoundary : ∀ inside ∈ lexemeClasses, inside c = false := by
  simp only [lexemeClasses, List.forall_mem_cons]
  exact ⟨isDigit_of_isBoundary boundary, isDigitLike_of_isBoundary boundary,
    isBasicLetter_of_isBoundary boundary, isLetter_of_isBoundary boundary,
    isMark_of_isBoundary boundary, isDieSign_of_isBoundary boundary,
    insideName_of_isBoundary boundary, insideWord_of_isBoundary boundary, by simp⟩

theorem lowerChar_of_isBoundary : lowerChar c = [c] :=
  lowerChar_of_outside (has_of_isBoundary (by decide) (by decide) boundary)
    (of_isBoundary (P := fun c => c ≠ '\u0130') (by decide) boundary)

theorem ofLetter?_of_isBoundary : DieKind.ofLetter? (String.ofList (lowerChar c)) = none := by
  rw [lowerChar_of_isBoundary boundary]
  exact of_isBoundary (P := fun c => DieKind.ofLetter? (String.ofList [c]) = none) (by decide)
    boundary

theorem ne_of_isBoundary {d : Char} (other : isBoundary d = false) : c ≠ d := by
  rintro rfl
  rw [boundary] at other
  cases other

end

/-- A character of a class that ends no lexeme. -/
theorem not_boundary_of {p : Char → Bool} (outside : ∀ {c}, isBoundary c = true → p c = false)
    {c : Char} (member : p c = true) : isBoundary c = false := by
  cases boundary : isBoundary c with
  | false => rfl
  | true =>
    rw [outside boundary] at member
    cases member

theorem isBoundary_of_isDigit {c : Char} (digit : isDigit c = true) : isBoundary c = false :=
  not_boundary_of isDigit_of_isBoundary digit

end Text
end DiceNotation
