import DiceNotation.Text.Classes
import Mathlib.Data.List.Basic

namespace DiceNotation
namespace Text

/-!
# Decimals

A natural number is written in the ten basic digits, and the digits denote it again.  An
integer has at most a sign in front of them.
-/

/-- A basic digit is a digit with the value that it shows. -/
theorem digit?_of_isDigit {c : Char} (digit : c.isDigit = true) :
    digit? c = some (c.toNat - '0'.toNat) := by
  rcases Char.isDigit_iff_toNat.1 digit with ⟨low, high⟩
  have first : zeros.find? (fun first => first ≤ c.toNat && c.toNat < first + 10) = some 0x30 := by
    refine List.find?_cons_of_pos ?_
    simp only [Bool.and_eq_true, decide_eq_true_eq]
    exact ⟨low, Nat.lt_succ_of_le high⟩
  rw [digit?, first]
  rfl

theorem isDigit_of_mem_toDigits {n : Nat} {c : Char} (member : c ∈ Nat.toDigits 10 n) :
    isDigit c = true := by
  rw [isDigit, digit?_of_isDigit (Nat.isDigit_of_mem_toDigits (by decide) (by decide) member)]
  rfl

theorem readDigits_of_isDigit {digits : List Char} (basic : ∀ c ∈ digits, c.isDigit = true)
    (value : Nat) : readDigits value digits = Nat.ofDigitChars 10 digits value := by
  induction digits generalizing value with
  | nil => rfl
  | cons c rest ih =>
    rw [readDigits, digit?_of_isDigit (basic c List.mem_cons_self), Nat.ofDigitChars_cons]
    exact ih (fun d member => basic d (List.mem_cons_of_mem c member)) _

/-- The digits of a number denote the number. -/
theorem natOfDigits_toDigits (n : Nat) : natOfDigits (Nat.toDigits 10 n) = n := by
  have basic : ∀ c ∈ Nat.toDigits 10 n, c.isDigit = true :=
    fun _ member => Nat.isDigit_of_mem_toDigits (by decide) (by decide) member
  rw [natOfDigits, readDigits_of_isDigit basic, Nat.ofDigitChars_ten_toDigits]

theorem toDigits_injective {m n : Nat} (same : Nat.toDigits 10 m = Nat.toDigits 10 n) : m = n := by
  rw [← natOfDigits_toDigits m, same, natOfDigits_toDigits]

theorem toList_toString_ofNat (m : Nat) : (toString (Int.ofNat m)).toList = Nat.toDigits 10 m :=
  String.toList_ofList

theorem toList_toString_negSucc (m : Nat) :
    (toString (Int.negSucc m)).toList = '-' :: Nat.toDigits 10 (m + 1) := by
  change ("-" ++ String.ofList (Nat.toDigits 10 (m + 1))).toList = _
  rw [String.toList_append]
  exact congrArg ('-' :: ·) String.toList_ofList

/-- The sign is no digit. -/
theorem toDigits_ne_sign (n : Nat) (more : List Char) : Nat.toDigits 10 n ≠ '-' :: more := by
  intro same
  have digit := Nat.isDigit_of_mem_toDigits (by decide) (by decide) (same ▸ List.mem_cons_self)
  cases digit

/-- Different integers are written differently. -/
theorem toString_injective {m n : Int} (same : toString m = toString n) : m = n := by
  have written := congrArg String.toList same
  cases m with
  | ofNat m =>
    rw [toList_toString_ofNat] at written
    cases n with
    | ofNat n =>
      rw [toList_toString_ofNat] at written
      rw [toDigits_injective written]
    | negSucc n =>
      rw [toList_toString_negSucc] at written
      exact absurd written (toDigits_ne_sign m _)
  | negSucc m =>
    rw [toList_toString_negSucc] at written
    cases n with
    | ofNat n =>
      rw [toList_toString_ofNat] at written
      exact absurd written.symm (toDigits_ne_sign n _)
    | negSucc n =>
      rw [toList_toString_negSucc] at written
      rw [Nat.succ.inj (toDigits_injective (List.cons.inj written).2)]

/-- No integer is written as a single letter. -/
theorem toString_ne_letter {n : Int} {c : Char} (letter : c.isDigit = false) (sign : c ≠ '-') :
    toString n ≠ String.ofList [c] := by
  intro same
  have written := congrArg String.toList same
  rw [String.toList_ofList] at written
  cases n with
  | ofNat m =>
    rw [toList_toString_ofNat] at written
    have digit := Nat.isDigit_of_mem_toDigits (by decide) (by decide)
      (written ▸ List.mem_singleton_self c)
    rw [letter] at digit
    cases digit
  | negSucc m =>
    rw [toList_toString_negSucc] at written
    exact sign (List.cons.inj written).1.symm

end Text
end DiceNotation
