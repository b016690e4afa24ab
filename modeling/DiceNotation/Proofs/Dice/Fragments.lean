import DiceNotation.Proofs.Dice.Commands

namespace DiceNotation

open Text

/-!
# Fragments of modifier texts

A modifier text is cut into fragments that are not empty and that make up the text.  Of what is
read as modifiers in a formula, every fragment is a code with what is behind it, a bare comparison,
or a comparison with the counting code that belongs to it.  Each of these is a command, unless its
two comparison marks are no comparison.
-/

/-! ## Counting codes -/

namespace Text

theorem lowerChar_ne_nil (c : Char) : lowerChar c ≠ [] := by
  unfold lowerChar
  split
  · simp
  · dsimp only
    split <;> simp

/-- Of the runs of capitals, only the basic one leads to the letters of counting codes. -/
theorem shift_of_counting : ∀ run ∈ lowerRuns, ∀ n ∈ ([99, 115, 102] : List Nat),
    (run.1 : Int) ≤ n - run.2.2.2 → (n : Int) - run.2.2.2 ≤ run.2.1 → run.2.2.2 = 32 := by
  decide +kernel

/-- Only the letter itself and its capital have the lower case `c`, `s` or `f`. -/
theorem eq_or_capital_of_mem_lowerChar {c letter : Char} (code : letter ∈ ['c', 's', 'f'])
    (member : letter ∈ lowerChar c) : c = letter ∨ c = letter.toUpper := by
  have known : letter.toNat ∈ [99, 115, 102] := List.mem_map.2 ⟨letter, code, rfl⟩
  unfold lowerChar at member
  split at member
  · have outside : ∀ d ∈ ['c', 's', 'f'], d ∉ ['i', '\u0307'] := forall_of_all (by decide)
    exact absurd member (outside letter code)
  · dsimp only at member
    split at member
    · rename_i run found
      have inside := List.find?_some found
      simp only [Bool.and_eq_true, decide_eq_true_eq] at inside
      have positive : letter.toNat ≠ 0 := by
        intro zero
        rw [zero] at known
        exact absurd known (by decide)
      have shifted : letter.toNat = ((c.toNat : Int) + run.2.2.2).toNat := by
        have same := congrArg Char.toNat (List.mem_singleton.1 member)
        by_cases valid : ((c.toNat : Int) + run.2.2.2).toNat.isValidChar
        · rw [Char.ofNat, dif_pos valid] at same
          exact same
        · rw [Char.ofNat, dif_neg valid] at same
          exact absurd same positive
      have capital := shift_of_counting run (List.mem_of_find?_eq_some found) letter.toNat known
        (by omega) (by omega)
      have upper : ∀ d ∈ ['c', 's', 'f'], d.toNat = d.toUpper.toNat + 32 :=
        forall_of_all (by decide)
      have higher := upper letter code
      exact .inr (Char.toNat_inj.1 (by omega))
    · exact .inl (List.mem_singleton.1 member).symm

/-- A text whose lower case begins with a letter of a counting code begins with that letter. -/
theorem eq_cons_of_lower {text more : List Char} {letter : Char} (code : letter ∈ ['c', 's', 'f'])
    (whole : lower text = letter :: more) :
    ∃ c rest, text = c :: rest ∧ (c = letter ∨ c = letter.toUpper) ∧ lower rest = more := by
  cases text with
  | nil => cases whole
  | cons c rest =>
    rw [lower, List.flatMap_cons] at whole
    have member : letter ∈ lowerChar c := by
      cases changed : lowerChar c with
      | nil => exact absurd changed (lowerChar_ne_nil c)
      | cons d others =>
        rw [changed, List.cons_append] at whole
        rw [(List.cons.inj whole).1]
        exact List.mem_cons_self
    have letters := eq_or_capital_of_mem_lowerChar code member
    have single : ∀ d ∈ ['c', 's', 'f'], lowerChar d = [d] ∧ lowerChar d.toUpper = [d] :=
      forall_of_all (by decide)
    have lowered : lowerChar c = [letter] := by
      rcases letters with rfl | rfl
      · exact (single c code).1
      · exact (single letter code).2
    rw [lowered] at whole
    exact ⟨c, rest, rfl, letters, (List.cons.inj whole).2⟩

theorem eq_nil_of_lower {text : List Char} (none : lower text = []) : text = [] := by
  cases text with
  | nil => rfl
  | cons c rest =>
    rw [lower, List.flatMap_cons, List.append_eq_nil_iff] at none
    exact absurd none.1 (lowerChar_ne_nil c)

end Text

namespace Command

/-- A counting code is written with two letters, each of which may be a capital. -/
theorem eq_of_isCountingCode {code : List Char} (counting : isCountingCode code = true) :
    ∃ c s, code = [c, s] ∧ c ∈ ['c', 'C'] ∧ s ∈ ['s', 'S', 'f', 'F'] := by
  have written : ∃ letter ∈ ['s', 'f'], lower code = ['c', letter] := by
    simp only [isCountingCode, Bool.or_eq_true, beq_iff_eq] at counting
    rcases counting with success | failure
    · exact ⟨'s', by decide, success⟩
    · exact ⟨'f', by decide, failure⟩
  rcases written with ⟨letter, kind, whole⟩
  rcases eq_cons_of_lower (by decide) whole with ⟨c, behind, rfl, first, later⟩
  rcases eq_cons_of_lower (List.mem_cons_of_mem _ kind) later with ⟨s, rest, rfl, second, ended⟩
  rw [eq_nil_of_lower ended]
  refine ⟨c, s, rfl, ?_, ?_⟩
  · rcases first with rfl | rfl <;> decide
  · have listed : ∀ d ∈ ['s', 'f'],
        d ∈ ['s', 'S', 'f', 'F'] ∧ d.toUpper ∈ ['s', 'S', 'f', 'F'] := forall_of_all (by decide)
    rcases second with rfl | rfl
    · exact (listed s kind).1
    · exact (listed letter kind).2

theorem isBasicLetter_of_isCountingCode {code : List Char} (counting : isCountingCode code = true) :
    ∀ c ∈ code, isBasicLetter c = true := by
  rcases eq_of_isCountingCode counting with ⟨c, s, rfl, first, second⟩
  have begins : ∀ d ∈ ['c', 'C'], isBasicLetter d = true := forall_of_all (by decide)
  have ends : ∀ d ∈ ['s', 'S', 'f', 'F'], isBasicLetter d = true := forall_of_all (by decide)
  intro d member
  rcases List.mem_cons.1 member with rfl | behind
  · exact begins d first
  · rw [List.mem_singleton.1 behind]
    exact ends s second

/-! ## The shape of fragments -/

/-- The parts of what is read as one command: letters, marks only before a target, and digits. -/
structure Parts.Scanned (parts : Parts) : Prop where
  basic : ∀ c ∈ parts.name, isBasicLetter c = true
  comparing : ∀ c ∈ parts.marks, isMark c = true
  few : parts.marks.length ≤ 2
  decimal : ∀ c ∈ parts.digits, isDigit c = true
  targeted : parts.digits = [] → parts.marks = []

/-- A fragment with its parts: the code comes first, or it is a counting code behind the target
of a comparison. -/
inductive IsFragment : Parts → List Char → Prop
  | leading {parts : Parts} (scanned : parts.Scanned) :
    IsFragment parts (parts.name ++ (parts.marks ++ parts.digits))
  | trailing {parts : Parts} (scanned : parts.Scanned) (compared : parts.marks ≠ [])
    (counting : isCountingCode parts.name = true) :
    IsFragment parts (parts.marks ++ (parts.digits ++ parts.name))

/-- What is read first from a run of commands is a fragment with its code in front, and a run of
commands is left. -/
theorem IsRun.first {text : List Char} (run : IsRun text) :
    (∃ parts : Parts, parts.Scanned ∧
      (readCommand text).1 = parts.name ++ (parts.marks ++ parts.digits)) ∧
    IsRun (readCommand text).2 ∧ (text ≠ [] → (readCommand text).1 ≠ []) := by
  cases run with
  | nil =>
    refine ⟨⟨⟨[], [], []⟩, ⟨?_, ?_, ?_, ?_, ?_⟩, rfl⟩, .nil, fun some => absurd rfl some⟩ <;> simp
  | code some basic =>
    have code : text.takeWhile isBasicLetter = text := List.takeWhile_eq_self_iff.2 basic
    have after : text.dropWhile isBasicLetter = [] := List.dropWhile_eq_nil_iff.2 basic
    have read : readCommand text = (text, []) := by
      simp only [readCommand, code, after]
      exact congrArg (·, []) (List.append_nil text)
    rw [read]
    refine ⟨⟨⟨text, [], []⟩, ⟨basic, ?_, ?_, ?_, ?_⟩, ?_⟩, .nil, id⟩ <;> simp
  | @counted letters marks digits more basic comparing few begins number decimal later =>
    have ends : ∀ c, more.head? = Option.some c → isDigit c = false := by
      have followed := not_digit_of_run later endsLexeme_nil
      rwa [List.append_nil] at followed
    have read := readCommand_counted basic comparing few number decimal ends
    have flat : letters ++ marks ++ digits ++ more = letters ++ (marks ++ (digits ++ more)) := by
      simp only [List.append_assoc]
    rw [flat, read]
    refine ⟨⟨⟨letters, marks, digits⟩, ⟨basic, comparing, few, decimal, ?_⟩, ?_⟩, later, ?_⟩
    · intro none
      exact absurd none number
    · exact List.append_assoc _ _ _
    · intro _ none
      simp [number] at none

/-- Only a bare comparison begins with a mark. -/
theorem Parts.Scanned.bare {parts : Parts} (scanned : parts.Scanned)
    (begins : ((parts.name ++ (parts.marks ++ parts.digits)).head?.map isMark).getD false = true) :
    parts.name = [] ∧ parts.marks ≠ [] := by
  rcases parts with ⟨name, marks, digits⟩
  cases name with
  | cons letter others =>
    have plain := plain_of_isBasicLetter (scanned.basic letter List.mem_cons_self)
    exact absurd begins (by simp [plain.2])
  | nil =>
    cases marks with
    | cons mark others => exact ⟨rfl, List.cons_ne_nil mark others⟩
    | nil =>
      cases digits with
      | nil => cases begins
      | cons digit others =>
        have plain := plain_of_isDigit (scanned.decimal digit List.mem_cons_self)
        exact absurd begins (by simp [plain.2])

/-- Behind a bare comparison, the counting code belongs to the fragment. -/
theorem isFragment_joinCounting {parts : Parts} (scanned : parts.Scanned) {command rest : List Char}
    (written : command = parts.name ++ (parts.marks ++ parts.digits)) (run : IsRun rest) :
    (∃ whole, IsFragment whole (joinCounting command rest).1) ∧
      IsRun (joinCounting command rest).2 := by
  rw [joinCounting]
  split
  · rename_i joins
    simp only [Bool.and_eq_true] at joins
    rcases joins with ⟨bare, counting⟩
    rw [written] at bare
    rcases scanned.bare bare with ⟨unnamed, compared⟩
    refine ⟨⟨⟨(readCommand rest).1, parts.marks, parts.digits⟩, ?_⟩, run.first.2.1⟩
    rw [written, unnamed, List.nil_append, List.append_assoc]
    exact .trailing ⟨fun c member => isBasicLetter_of_isCountingCode counting c member,
      scanned.comparing, scanned.few, scanned.decimal, scanned.targeted⟩ compared counting
  · exact ⟨⟨parts, written ▸ .leading scanned⟩, run⟩

/-- The fragments of a run of commands are commands with their parts in place. -/
theorem isFragment_of_mem_split {text : List Char} (run : IsRun text) :
    ∀ fragment ∈ split text, ∃ parts, IsFragment parts fragment := by
  fun_induction split text with
  | case1 =>
    intro fragment member
    cases member
  | case2 c tail none ih => exact absurd none (run.first.2.2 (by simp))
  | case3 c tail some joined ih =>
    rcases run.first with ⟨⟨parts, scanned, written⟩, later, _⟩
    have read := isFragment_joinCounting scanned written later
    intro fragment member
    rcases List.mem_cons.1 member with rfl | behind
    · exact read.1
    · exact ih read.2 fragment behind

/-! ## Fragments read as commands -/

/-- The pairs of marks that are no comparison: all but `==`, `<=` and `>=`. -/
def foreignPairs : List (List Char) :=
  [['<', '<'], ['<', '>'], ['>', '<'], ['>', '>'], ['=', '<'], ['=', '>']]

/-- Whether two marks stand side by side in a text that are no comparison together. -/
def HasForeignPair (text : List Char) : Prop := ∃ pair ∈ foreignPairs, pair <:+: text

instance (text : List Char) : Decidable (HasForeignPair text) :=
  inferInstanceAs (Decidable (∃ pair ∈ foreignPairs, pair <:+: text))

/-- Marks and digits are told apart, whatever plain text follows. -/
theorem Parts.Scanned.target {parts : Parts} (scanned : parts.Scanned) {rest : List Char}
    (plain : ∀ c, rest.head? = some c → isDigit c = false ∧ isMark c = false) :
    ((parts.marks ++ (parts.digits ++ rest)).takeWhile isMark = parts.marks ∧
      (parts.marks ++ (parts.digits ++ rest)).dropWhile isMark = parts.digits ++ rest) ∧
    (parts.digits ++ rest).takeWhile isDigit = parts.digits ∧
      (parts.digits ++ rest).dropWhile isDigit = rest := by
  have behindMarks : ∀ c, (parts.digits ++ rest).head? = some c → isMark c = false := by
    intro c first
    by_cases none : parts.digits = []
    · rw [none] at first
      exact (plain c first).2
    · exact (plain_of_isDigit (scanned.decimal c (mem_of_head?_append none first))).2
  exact ⟨span_append scanned.comparing behindMarks,
    span_append scanned.decimal fun c first => (plain c first).1⟩

theorem leadingParts_of_scanned {parts : Parts} (scanned : parts.Scanned) :
    leadingParts (parts.name ++ (parts.marks ++ parts.digits)) = some parts := by
  have behindName : ∀ c, (parts.marks ++ parts.digits).head? = some c → isBasicLetter c = false := by
    intro c first
    rcases List.mem_append.1 (List.mem_of_mem_head? first) with mark | digit
    · exact (plain_of_isMark (scanned.comparing c mark)).2
    · exact (plain_of_isDigit (scanned.decimal c digit)).1
  rcases span_append scanned.basic behindName with ⟨code, after⟩
  have targets := @Parts.Scanned.target parts scanned [] (by simp)
  simp only [List.append_nil] at targets
  rcases targets with ⟨⟨marked, compared⟩, counted, left⟩
  simp only [leadingParts, code, after, marked, compared, counted, left]
  by_cases none : parts.digits = []
  · rcases parts with ⟨name, marks, digits⟩
    cases none
    cases scanned.targeted rfl
    rfl
  · have targeted : parts.digits.isEmpty = false := List.isEmpty_eq_false_iff.2 none
    simp [isEnd, targeted, scanned.few]

/-- What begins with a comparison and goes on with a code is read from behind. -/
theorem parts_of_trailing {parts : Parts} (scanned : parts.Scanned) (compared : parts.marks ≠ [])
    (counting : isCountingCode parts.name = true) :
    leadingParts (parts.marks ++ (parts.digits ++ parts.name)) = none ∧
      trailingParts (parts.marks ++ (parts.digits ++ parts.name)) = some parts := by
  have unnamed : ∀ c, (parts.marks ++ (parts.digits ++ parts.name)).head? = some c →
      isBasicLetter c = false := fun c first =>
    (plain_of_isMark (scanned.comparing c (mem_of_head?_append compared first))).2
  have plain : ∀ c, parts.name.head? = some c → isDigit c = false ∧ isMark c = false :=
    fun c first => plain_of_isBasicLetter (scanned.basic c (List.mem_of_mem_head? first))
  rcases span_of_outside unnamed with ⟨noCode, all⟩
  rcases scanned.target plain with ⟨⟨marked, after⟩, counted, left⟩
  rcases eq_of_isCountingCode counting with ⟨c, s, written, first, second⟩
  constructor
  · have continued : isEnd parts.name = false := by
      rw [written]
      simp [isEnd]
    simp only [leadingParts, noCode, all, marked, after, counted, left, continued]
    rfl
  · have targeted : parts.digits.isEmpty = false :=
      List.isEmpty_eq_false_iff.2 fun none => compared (scanned.targeted none)
    have pair : (parts.marks.length == 1 || parts.marks.length == 2) = true := by
      have present := List.length_pos_iff.2 compared
      have few := scanned.few
      simp only [Bool.or_eq_true, beq_iff_eq]
      omega
    have letters : ((c == 'c' || c == 'C') &&
        (s == 's' || s == 'S' || s == '\u017f' || s == 'f' || s == 'F')) = true := by
      have begins : ∀ d ∈ ['c', 'C'], (d == 'c' || d == 'C') = true := forall_of_all (by decide)
      have ends : ∀ d ∈ ['s', 'S', 'f', 'F'],
          (d == 's' || d == 'S' || d == '\u017f' || d == 'f' || d == 'F') = true :=
        forall_of_all (by decide)
      rw [begins c first, ends s second]
      rfl
    rcases parts with ⟨name, marks, digits⟩
    cases written
    simp only [trailingParts, marked, after, counted, left, letters, targeted, pair]
    rfl

/-- The parts of a fragment are found where they stand. -/
theorem IsFragment.read {parts : Parts} {text : List Char} (fragment : IsFragment parts text) :
    (leadingParts text).or (trailingParts text) = some parts := by
  cases fragment with
  | leading scanned => rw [leadingParts_of_scanned scanned, Option.some_or]
  | trailing scanned compared counting =>
    rcases parts_of_trailing scanned compared counting with ⟨front, behind⟩
    rw [front, Option.none_or, behind]

theorem IsFragment.scanned {parts : Parts} {text : List Char} (fragment : IsFragment parts text) :
    parts.Scanned := by
  cases fragment with
  | leading scanned => exact scanned
  | trailing scanned compared counting => exact scanned

/-- The marks of a fragment are those of its comparison. -/
theorem IsFragment.filter_isMark {parts : Parts} {text : List Char}
    (fragment : IsFragment parts text) : text.filter isMark = parts.marks := by
  have without {plain : List Char} (unmarked : ∀ c ∈ plain, isMark c = false) :
      plain.filter isMark = [] := by
    refine List.filter_eq_nil_iff.2 fun c member => ?_
    rw [unmarked c member]
    exact Bool.false_ne_true
  have scanned := fragment.scanned
  have name := without fun c member => (plain_of_isBasicLetter (scanned.basic c member)).2
  have digits := without fun c member => (plain_of_isDigit (scanned.decimal c member)).2
  have marks : parts.marks.filter isMark = parts.marks := List.filter_eq_self.2 scanned.comparing
  cases fragment <;> simp [name, digits, marks]

/-- One mark is always a comparison, and two marks are unless they are a foreign pair. -/
theorem ofText?_isSome_iff {marks : List Char} (comparing : ∀ c ∈ marks, isMark c = true)
    (some : marks ≠ []) (few : marks.length ≤ 2) :
    (Comparator.ofText? (String.ofList marks)).isSome = true ↔ marks ∉ foreignPairs := by
  match marks, comparing with
  | [], _ => exact absurd rfl some
  | [a], comparing =>
    have single : ∀ d ∈ ['<', '>', '='],
        (Comparator.ofText? (String.ofList [d])).isSome = true ↔ [d] ∉ foreignPairs :=
      forall_of_all (by decide)
    exact single a (mem_of_isMark (comparing a List.mem_cons_self))
  | [a, b], comparing =>
    have pair : ∀ e ∈ ['<', '>', '='],
        (Comparator.ofText? (String.ofList [a, e])).isSome = true ↔ [a, e] ∉ foreignPairs := by
      have known := mem_of_isMark (comparing a List.mem_cons_self)
      simp only [List.mem_cons, List.not_mem_nil, or_false] at known
      rcases known with rfl | rfl | rfl <;> exact forall_of_all (by decide)
    exact pair b (mem_of_isMark (comparing b (by simp)))
  | a :: b :: c :: more, _ =>
    simp only [List.length_cons] at few
    omega

theorem IsFragment.marks_infix {parts : Parts} {text : List Char}
    (fragment : IsFragment parts text) : parts.marks <:+: text := by
  cases fragment with
  | leading scanned => exact ⟨parts.name, parts.digits, List.append_assoc _ _ _⟩
  | trailing scanned compared counting => exact ⟨[], parts.digits ++ parts.name, rfl⟩

/-- A fragment has a foreign pair of marks if that is its comparison. -/
theorem IsFragment.hasForeignPair_iff {parts : Parts} {text : List Char}
    (fragment : IsFragment parts text) : HasForeignPair text ↔ parts.marks ∈ foreignPairs := by
  constructor
  · rintro ⟨pair, foreign, inside⟩
    have marked : ∀ two ∈ foreignPairs, two.filter isMark = two ∧ two.length = 2 := by decide
    have within := inside.filter isMark
    rw [fragment.filter_isMark, (marked pair foreign).1] at within
    have few := fragment.scanned.few
    rw [← within.eq_of_length_le ((marked pair foreign).2 ▸ few)]
    exact foreign
  · intro foreign
    exact ⟨parts.marks, foreign, fragment.marks_infix⟩

/-- A fragment is a command unless its two marks are no comparison. -/
theorem IsFragment.parse_ok_iff {parts : Parts} {raw : String}
    (fragment : IsFragment parts raw.toList) (term : String) :
    (∃ command, parse raw term = .ok command) ↔ ¬ HasForeignPair raw.toList := by
  rw [fragment.hasForeignPair_iff, parse, fragment.read]
  dsimp only
  by_cases bare : parts.marks = []
  · have plain : [] ∉ foreignPairs := by decide
    simp [bare, plain]
  · have known := ofText?_isSome_iff fragment.scanned.comparing bare fragment.scanned.few
    have marked : parts.marks.isEmpty = false := List.isEmpty_eq_false_iff.2 bare
    rw [marked, ← known]
    cases compared : Comparator.ofText? (String.ofList parts.marks) with
    | none => simp
    | some comparator => simp

/-! ## Texts cut into fragments -/

theorem split_of_command {c : Char} {tail fragment rest : List Char}
    (some : (readCommand (c :: tail)).1 ≠ [])
    (joined : joinCounting (readCommand (c :: tail)).1 (readCommand (c :: tail)).2 =
      (fragment, rest)) : split (c :: tail) = fragment :: split rest := by
  rw [split.eq_def]
  simp only [dif_neg some, joined]

/-- A text is cut into fragments that are not empty and, joined, are the text.  Every fragment of
what is read as modifiers in a formula is a command, unless its marks are no comparison. -/
theorem fragments_are_commands :
    (∀ text : String, "" ∉ splitText text ∧ String.join (splitText text) = text) ∧
      ∀ source : List Char, ∀ fragment ∈ splitText (String.ofList (readRun source).1),
        ∀ term : String,
          (∃ command, parse fragment term = .ok command) ↔ ¬ HasForeignPair fragment.toList := by
  refine ⟨fun text => ⟨?_, join_splitText text⟩, fun source fragment member term => ?_⟩
  · intro member
    rcases List.mem_map.1 member with ⟨fragment, listed, empty⟩
    exact ne_nil_of_mem_split listed (String.ofList_eq_empty_iff.1 empty)
  · rw [splitText, String.toList_ofList] at member
    rcases List.mem_map.1 member with ⟨characters, listed, rfl⟩
    rcases isFragment_of_mem_split (isRun_readRun source) characters listed with ⟨parts, fragment⟩
    exact IsFragment.parse_ok_iff (by rwa [String.toList_ofList]) term

/-- Of a row of modifiers, the comparison with its counting code is a command, and the two marks
that are no comparison are refused. -/
theorem fragments_of_counted :
    splitText (String.ofList (readRun "=>2>=4cs+1".toList).1) = ["=>2", ">=4cs"] ∧
      (∃ command, parse ">=4cs" "4d6" = .ok command) ∧
      ¬ ∃ command, parse "=>2" "4d6" = .ok command := by
  have scanned : (readRun "=>2>=4cs+1".toList).1 = "=>2>=4cs".toList := by
    decide +kernel
  have refused : split ('=' :: ">2>=4cs".toList) = "=>2".toList :: split ('>' :: "=4cs".toList) :=
    split_of_command (by decide +kernel) (by decide +kernel)
  have joined : split ('>' :: "=4cs".toList) = ">=4cs".toList :: split [] :=
    split_of_command (by decide +kernel) (by decide +kernel)
  have ended : split [] = [] := by
    unfold split
    rfl
  have cut : splitText "=>2>=4cs" = ["=>2", ">=4cs"] := by
    change (split ('=' :: ">2>=4cs".toList)).map String.ofList = _
    rw [refused, joined, ended]
    rfl
  have read := fragments_are_commands.2 "=>2>=4cs+1".toList
  rw [scanned, String.ofList_toList, cut] at read ⊢
  refine ⟨rfl, (read ">=4cs" (by simp) "4d6").2 (by decide), fun accepted => ?_⟩
  exact (read "=>2" (by simp) "4d6").1 accepted (by decide)

end Command
end DiceNotation
