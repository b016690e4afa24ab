import DiceNotation.Proofs.Formula.Junctions
import DiceNotation.Roll.Record
import DiceNotation.Roll.Parts

namespace DiceNotation

open Text

/-!
# Readings of texts that part

Two texts have the same front and then part.  Either a bracket of their own opens in both
of them, or one goes on with a bracket that closes and the other has ended.  In the first
case the two brackets may hold different texts, as long as both can be read and end where
the texts come together again.  Then what is read in one text is read in the other one as
well, and the clauses of the two readings are of the same classes.  In the second case
this holds of a reading that stops before the texts part.
-/

/-- How two texts part, and how much is left of the first one at least if a reading of it
stops in front.  Nothing is asked for if a bracket opens. -/
inductive Parting : List Char → List Char → Nat → Prop
  | opening (one other : List Char) : Parting ('(' :: one) ('(' :: other) 0
  | closing (one : List Char) {gap : List Char} (blank : ∀ c ∈ gap, isBlank c = true) :
    Parting (')' :: one) gap (one.length + 1)

/-- Places in two texts that correspond: both are in front of where the texts part, or the
same text is left behind brackets of their own. -/
inductive Meets (here there : List Char) : List Char → List Char → Prop
  | front {front : List Char} (whole : EndsOutside front) :
    Meets here there (front ++ here) (front ++ there)
  | same {one : List Char} (opens : here = '(' :: one) (text : List Char) :
    Meets here there text text

namespace Parting

variable {here there : List Char} {limit : Nat}

theorem here_joint (parting : Parting here there limit) : Joint here := by
  cases parting with
  | opening one other => exact .opening one
  | closing one blank => exact .closing one

theorem there_joint (parting : Parting here there limit) : Joint there := by
  cases parting with
  | opening one other => exact .opening other
  | closing one blank => exact .blank blank

end Parting

namespace Meets

variable {here there x y : List Char} {limit : Nat}

/-- Where both texts open a bracket. -/
theorem opening (one other : List Char) : Meets ('(' :: one) ('(' :: other) ('(' :: one)
    ('(' :: other) :=
  .front .nil

variable (parting : Parting here there limit)

include parting

/-- What splits the front of a text splits it in both texts alike. -/
theorem lexeme {α : Type} (split : List Char → α × List Char)
    (reads : ∀ {joint : List Char}, Joint joint → ∀ {front : List Char}, EndsOutside front →
      split (front ++ joint) = ((split front).1, (split front).2 ++ joint))
    (encloses : ∀ text, Encloses text (split text).2) (meets : Meets here there x y) :
    (split y).1 = (split x).1 ∧ Meets here there (split x).2 (split y).2 := by
  cases meets with
  | front whole =>
    rw [reads parting.here_joint whole, reads parting.there_joint whole]
    exact ⟨rfl, .front (whole.of_encloses (encloses _))⟩
  | same opens text => exact ⟨rfl, .same opens _⟩

/-- What a class of characters splits off. -/
theorem span {p : Char → Bool} (listed : p ∈ lexemeClasses) (meets : Meets here there x y) :
    y.takeWhile p = x.takeWhile p ∧ Meets here there (x.dropWhile p) (y.dropWhile p) := by
  refine meets.lexeme parting (fun text => (text.takeWhile p, text.dropWhile p)) ?_ fun _ =>
    .dropWhile (by simp [BracketMark.classes, listed]) _
  intro joint ends front _
  rw [(ends.span listed front).1, (ends.span listed front).2]

/-- The modifiers of dice or of a pool. -/
theorem modifiers (meets : Meets here there x y) :
    Meets here there (Command.readRun x).2 (Command.readRun y).2 :=
  (meets.lexeme parting Command.readRun (fun ends _ _ => Command.readRun_joint ends _)
    Command.encloses_readRun).2

theorem flavor (meets : Meets here there x y) :
    Meets here there (Lexeme.splitFlavor x).2 (Lexeme.splitFlavor y).2 :=
  (meets.lexeme parting Lexeme.splitFlavor (fun ends _ whole => Lexeme.splitFlavor_joint ends whole)
    Lexeme.encloses_splitFlavor).2

/-- The operators behind a clause. -/
theorem operators (meets : Meets here there x y) :
    (Lexeme.splitOperators y y).1 = (Lexeme.splitOperators x x).1 ∧
      Meets here there (Lexeme.splitOperators x x).2 (Lexeme.splitOperators y y).2 :=
  meets.lexeme parting (fun text => Lexeme.splitOperators text text)
    (fun ends _ _ => Lexeme.splitOperators_joint ends _ _)
    fun text => Lexeme.encloses_splitOperators (.refl text) (.refl text)

/-- The first visible character is the same, unless it closes what is around the front. -/
theorem visible (meets : Meets here there x y) {c : Char} {rest : List Char}
    (begun : skipBlanks x = c :: rest) (bound : c = ')' → limit ≤ rest.length) :
    ∃ more, skipBlanks y = c :: more ∧ Meets here there (c :: rest) (c :: more) := by
  cases meets with
  | same opens text => exact ⟨rest, begun, .same opens _⟩
  | @front front whole =>
    cases blanks : skipBlanks front with
    | cons d more =>
      rw [skipBlanks_append_of_cons blanks] at begun
      cases begun
      have inside := whole.of_encloses (encloses_skipBlanks front)
      rw [blanks] at inside
      exact ⟨more ++ there, skipBlanks_append_of_cons blanks there, .front inside⟩
    | nil =>
      rw [skipBlanks_append_of_nil blanks] at begun ⊢
      cases parting with
      | opening one other =>
        rw [skipBlanks_cons (by decide)] at begun ⊢
        cases begun
        exact ⟨other, rfl, .opening _ other⟩
      | closing one blank =>
        rw [skipBlanks_cons (by decide)] at begun
        cases begun
        exact absurd (bound rfl) (Nat.not_succ_le_self _)

/-- Behind a character that neither opens a bracket or a flavor nor closes what is around. -/
theorem tail {c : Char} {rest : List Char} (meets : Meets here there (c :: rest) y)
    (round : c ≠ '(') (square : c ≠ '[') (bound : c = ')' → limit ≤ rest.length) :
    ∃ more, y = c :: more ∧ Meets here there rest more := by
  generalize same : c :: rest = text at meets
  cases meets with
  | same opens text => exact ⟨rest, same.symm, .same opens rest⟩
  | @front front whole =>
    cases front with
    | cons d front =>
      cases same
      exact ⟨front ++ there, rfl, .front (whole.tail square)⟩
    | nil =>
      cases parting with
      | opening one other =>
        cases same
        exact absurd rfl round
      | closing one blank =>
        cases same
        exact absurd (bound rfl) (Nat.not_succ_le_self _)

/-- Behind a character of a class that has no meaning for brackets. -/
theorem tail_of_class {p : Char → Bool} (known : p ∈ BracketMark.classes) {c : Char}
    {rest : List Char} (inside : p c = true) (meets : Meets here there (c :: rest) y) :
    ∃ more, y = c :: more ∧ Meets here there rest more := by
  have plain {d : Char} (mark : BracketMark.of d ≠ .other) : c ≠ d := by
    rintro rfl
    exact mark (BracketMark.other_of_class known inside)
  exact meets.tail parting (plain (by decide)) (plain (by decide)) fun same =>
    absurd same (plain (by decide))

/-- Behind a bracket that opens the texts correspond, if it is not the bracket where
they part. -/
theorem inside {rest : List Char} (meets : Meets here there ('(' :: rest) y) :
    ∃ more, y = '(' :: more ∧
      (Meets here there rest more ∨ here = '(' :: rest ∧ there = '(' :: more) := by
  generalize same : '(' :: rest = text at meets
  cases meets with
  | same opens text => exact ⟨rest, same.symm, .inl (.same opens rest)⟩
  | @front front whole =>
    cases front with
    | cons d front =>
      cases same
      exact ⟨front ++ there, rfl, .inl (.front (whole.tail (by decide)))⟩
    | nil =>
      cases parting with
      | opening one other =>
        cases same
        exact ⟨other, rfl, .inr ⟨rfl, rfl⟩⟩
      | closing one blank => cases same

/-- No die sign stands where none stands in the other text. -/
theorem noDie (meets : Meets here there x y)
    (plain : ∀ d, x.head? = some d → Lexeme.isDieSign d = false) :
    ∀ d, y.head? = some d → Lexeme.isDieSign d = false := by
  cases meets with
  | same opens text => exact plain
  | @front front whole =>
    cases front with
    | cons d front => exact plain
    | nil =>
      intro d first
      exact parting.there_joint.outside first _ (by simp [lexemeClasses])

theorem opensDice (meets : Meets here there x y) : Lexeme.opensDice y = Lexeme.opensDice x := by
  cases meets with
  | same opens text => rfl
  | @front front whole =>
    cases front with
    | cons d front =>
      have letters {joint : List Char} (ends : Joint joint) :=
        (ends.span (p := isBasicLetter) (by simp [lexemeClasses]) front).1
      simp only [List.cons_append, Lexeme.opensDice, letters parting.here_joint,
        letters parting.there_joint]
    | nil =>
      have closed {joint : List Char} (ends : EndsLexeme joint) (round : joint.head? ≠ some '(') :
          Lexeme.opensDice joint = false := by
        cases joint with
        | nil => rfl
        | cons c rest =>
          have other : (c == '(') = false := beq_eq_false_iff_ne.2 fun same => round (same ▸ rfl)
          simp only [Lexeme.opensDice, isDigitLike_of_isBoundary (ends c rfl), other,
            ofLetter?_of_isBoundary (ends c rfl), Bool.or_self, Bool.false_eq_true, if_false]
      cases parting with
      | opening one other => rfl
      | closing one blank =>
        have gapEnds : EndsLexeme there := fun c first =>
          isBoundary_of_isBlank (blank c (List.mem_of_mem_head? first))
        have plain : there.head? ≠ some '(' := fun first => by
          have none := blank '(' (List.mem_of_mem_head? first)
          revert none
          decide
        rw [List.nil_append, List.nil_append, closed gapEnds plain,
          closed (endsLexeme_cons (by decide) one) (by simp)]

/-- The signs in front of a clause. -/
theorem signs (meets : Meets here there x y) {c : Char} {rest : List Char}
    (begun : skipBlanks (Lexeme.splitSigns x).2 = c :: rest) (other : c ≠ ')') :
    (Lexeme.splitSigns y).1 = (Lexeme.splitSigns x).1 ∧
      Meets here there (Lexeme.splitSigns x).2 (Lexeme.splitSigns y).2 := by
  cases meets with
  | same opens text => exact ⟨rfl, .same opens _⟩
  | @front front whole =>
    have inside := whole.of_encloses (Lexeme.encloses_splitSigns front)
    by_cases ended : (Lexeme.splitSigns front).2 = []
    · have bracket {d : Char} (round : d = '(' ∨ d = ')') (back : List Char) :
          ∀ c, (d :: back).head? = some c → isBlank c = false ∧ isSign c = false := by
        rintro _ ⟨⟩
        rcases round with rfl | rfl <;> exact ⟨by decide, by decide⟩
      cases parting with
      | opening one other =>
        rw [Lexeme.splitSigns_append_of_visible (bracket (.inl rfl) one),
          Lexeme.splitSigns_append_of_visible (bracket (.inl rfl) other)]
        exact ⟨rfl, .front inside⟩
      | closing one blank =>
        rw [Lexeme.splitSigns_append_of_visible (bracket (.inr rfl) one), ended] at begun
        rw [List.nil_append, skipBlanks_cons (by decide)] at begun
        cases begun
        exact absurd rfl other
    · rw [Lexeme.splitSigns_append_of_ne_nil ended, Lexeme.splitSigns_append_of_ne_nil ended]
      exact ⟨rfl, .front inside⟩

/-- A bracket opens behind blanks in both texts or in none. -/
theorem opens (meets : Meets here there x y) {inside : List Char}
    (begun : skipBlanks y = '(' :: inside) : ∃ more, skipBlanks x = '(' :: more := by
  cases meets with
  | same opens text => exact ⟨inside, begun⟩
  | @front front whole =>
    cases blanks : skipBlanks front with
    | cons d more =>
      rw [skipBlanks_append_of_cons blanks] at begun ⊢
      cases begun
      exact ⟨_, rfl⟩
    | nil =>
      rw [skipBlanks_append_of_nil blanks] at begun ⊢
      cases parting with
      | opening one other => exact ⟨one, skipBlanks_cons (by decide) one⟩
      | closing one blank =>
        have none : skipBlanks there = [] := List.dropWhile_eq_nil_iff.2 blank
        rw [none] at begun
        cases begun

section

variable {c : Char} {rest more : List Char} (meets : Meets here there (c :: rest) (c :: more))

include meets

/-- A function name in one text is a function name in the other one. -/
theorem functionName {name : Scanned (List Char) (c :: rest)} {inside : List Char}
    (called : Lexeme.functionName c rest = some name) (opened : name.rest = '(' :: inside) :
    ∃ others shorter, Lexeme.functionName c more = some ⟨name.value, '(' :: others, shorter⟩ ∧
      Meets here there ('(' :: inside) ('(' :: others) := by
  obtain ⟨begins, value, behind, _, noDie⟩ := Lexeme.functionName_found called
  obtain ⟨same, left⟩ := meets.span parting (p := Lexeme.insideName) (by simp [lexemeClasses])
  rw [behind] at opened
  obtain ⟨others, begun, meets⟩ := left.visible parting opened (fun same => by cases same)
  rw [value, ← same] at noDie
  obtain ⟨shorter, found⟩ := Lexeme.functionName_finds begins begun noDie
  rw [same, ← value] at found
  exact ⟨others, shorter, found, meets⟩

theorem noFunctionName (none : Lexeme.functionName c rest = none) :
    Lexeme.functionName c more = .none := by
  cases called : Lexeme.functionName c more with
  | none => rfl
  | some name =>
    obtain ⟨begins, value, behind, round, noDie⟩ := Lexeme.functionName_found called
    obtain ⟨same, left⟩ := meets.span parting (p := Lexeme.insideName) (by simp [lexemeClasses])
    cases opened : name.rest with
    | nil =>
      rw [opened] at round
      cases round
    | cons d inside =>
      rw [opened] at round
      cases round
      obtain ⟨others, begun⟩ := left.opens parting (behind ▸ opened)
      rw [value, same] at noDie
      obtain ⟨shorter, found⟩ := Lexeme.functionName_finds begins begun noDie
      rw [none] at found
      cases found

end

end Meets
end DiceNotation
