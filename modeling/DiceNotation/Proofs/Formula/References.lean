import DiceNotation.Formula.Reference
import Mathlib.Data.List.TakeWhile

namespace DiceNotation
namespace Reference

/-!
# Formulas with their references replaced

A formula stays what it is if there is no data for its references.  Every path then
leads nowhere, and what leads nowhere is left alone.

A formula with data is replaced part by part.  A part without references stays as it is,
and a reference is replaced by the text of its value, as far as its path goes.
-/

/-! ## Formulas without data -/

theorem lookUp_nothing (name : List Char) (path : List (List Char)) :
    lookUp (.object []) (name :: path) = none := rfl

/-- Without data no path leads anywhere. -/
theorem lookUp_splitOn (path : List Char) :
    lookUp (.object []) (path.splitOn '.') = none := by
  cases names : path.splitOn '.' with
  | nil => exact absurd names (List.splitOn_ne_nil _ _)
  | cons name rest => exact lookUp_nothing name rest

/-- Without data every reference stays. -/
theorem replace_nothing (formula : List Char) :
    ∃ unknown, replace [] none formula = .ok ⟨formula, unknown⟩ := by
  fun_induction replace [] none formula with
  | case1 => exact ⟨[], rfl⟩
  | case2 c rest sign path nowhere fault stuck ih =>
    obtain ⟨unknown, later⟩ := ih
    rw [later] at stuck
    cases stuck
  | case3 c rest sign path nowhere more replaced text ih =>
    obtain ⟨unknown, later⟩ := ih
    rw [later] at replaced
    cases replaced
    refine ⟨path :: unknown, ?_⟩
    change Except.ok (Replaced.mk (c :: rest.takeWhile insidePath ++ rest.dropWhile insidePath) _) = _
    rw [List.cons_append, List.takeWhile_append_dropWhile]
  | case4 c rest sign path value found fault stuck =>
    rw [lookUp_splitOn] at found
    cases found
  | case5 c rest sign path value found text replaced fault stuck ih =>
    rw [lookUp_splitOn] at found
    cases found
  | case6 c rest sign path value found text replaced more later ih =>
    rw [lookUp_splitOn] at found
    cases found
  | case7 c rest plain fault stuck ih =>
    obtain ⟨unknown, later⟩ := ih
    rw [later] at stuck
    cases stuck
  | case8 c rest plain more replaced ih =>
    obtain ⟨unknown, later⟩ := ih
    rw [later] at replaced
    cases replaced
    exact ⟨unknown, rfl⟩

theorem replaceText_nothing (formula : String) : replaceText formula [] none = .ok formula := by
  obtain ⟨unknown, replaced⟩ := replace_nothing formula.toList
  rw [replaceText, replaced]
  exact congrArg Except.ok (String.ofList_toList)

/-! ## Parts of formulas -/

/-- What was replaced in a text and in the text behind it. -/
def Replaced.followedBy (before behind : Replaced) : Replaced :=
  ⟨before.text ++ behind.text, before.unknown ++ behind.unknown⟩

section

variable {data : Fields}

/-- What holds no reference stays as it is. -/
theorem replace_append {front rest : List Char} (plain : '@' ∉ front) {more : Replaced}
    (later : replace data none rest = .ok more) :
    replace data none (front ++ rest) = .ok (more.behind front) := by
  induction front with
  | nil => exact later
  | cons c front ih =>
    obtain ⟨here, others⟩ := not_or.1 (mt List.mem_cons.2 plain)
    have other : (c == '@') = false := beq_eq_false_iff_ne.2 fun same => here same.symm
    rw [List.cons_append, replace, other, Bool.false_and,
      if_neg Bool.false_ne_true, ih others]
    rfl

/-- What holds no reference stays itself. -/
theorem replace_plain {text : List Char} (plain : '@' ∉ text) :
    replace data none text = .ok ⟨text, []⟩ := by
  have ended : replace data none [] = .ok ⟨[], []⟩ := by rw [replace]
  have replaced := replace_append plain ended
  rwa [List.append_nil, Replaced.behind, List.append_nil] at replaced

section

variable {rest : List Char} (ends : ∀ c, rest.head? = some c → insidePath c = false)

include ends

/-- A path ends where another text follows that cannot be part of it. -/
theorem path_append (text : List Char) :
    (text ++ rest).takeWhile insidePath = text.takeWhile insidePath ∧
      (text ++ rest).dropWhile insidePath = text.dropWhile insidePath ++ rest := by
  induction text with
  | nil =>
    cases rest with
    | nil => exact ⟨rfl, rfl⟩
    | cons c rest => simp [ends c rfl]
  | cons c text ih => cases inside : insidePath c <;> simp [inside, ih]

theorem replace_reference {path : List Char} (present : path ≠ [])
    (inside : ∀ c ∈ path, insidePath c = true) {value : Json}
    (found : lookUp (.object data) (path.splitOn '.') = some value) {text : List Char}
    (replaced : replacement path value = .ok text) {more : Replaced}
    (later : replace data none rest = .ok more) :
    replace data none ('@' :: path ++ rest) = .ok (more.behind text) := by
  obtain ⟨taken, left⟩ := path_append ends path
  rw [List.takeWhile_eq_self_iff.2 inside] at taken
  rw [List.dropWhile_eq_nil_iff.2 inside, List.nil_append] at left
  have names : ('@' == '@' && !path.isEmpty) = true := by
    cases path with
    | nil => exact absurd rfl present
    | cons c path => rfl
  rw [List.cons_append, replace]
  simp only [taken, left, names, if_true, found, replaced, later]

/-- A formula is replaced part by part where no path goes on. -/
theorem replace_parts (front : List Char) :
    replace data none (front ++ rest) = (replace data none front).bind fun before =>
      (replace data none rest).map before.followedBy := by
  have path := path_append ends
  fun_induction replace data none front
  case case1 =>
    rw [List.nil_append]
    cases replace data none rest <;> rfl
  case case2 c text sign names nowhere fault stuck ih =>
    subst names
    rw [List.cons_append, replace, (path text).1, (path text).2, if_pos sign, ih, stuck]
    simp only [nowhere]
    rfl
  case case3 c text sign names nowhere more later shown ih =>
    subst names
    rw [List.cons_append, replace, (path text).1, (path text).2, if_pos sign, ih, later]
    simp only [nowhere]
    cases replace data none rest with
    | error fault => rfl
    | ok behind =>
      refine congrArg Except.ok ?_
      simp [Replaced.followedBy, shown]
  case case4 c text sign names value found fault stuck =>
    subst names
    rw [List.cons_append, replace, (path text).1, (path text).2, if_pos sign]
    simp only [found, stuck]
    rfl
  case case5 c text sign names value found shown is fault stuck ih =>
    subst names
    rw [List.cons_append, replace, (path text).1, (path text).2, if_pos sign, ih, stuck]
    simp only [found, is]
    rfl
  case case6 c text sign names value found shown is more later ih =>
    subst names
    rw [List.cons_append, replace, (path text).1, (path text).2, if_pos sign, ih, later]
    simp only [found, is]
    cases replace data none rest with
    | error fault => rfl
    | ok behind =>
      refine congrArg Except.ok ?_
      simp [Replaced.followedBy, Replaced.behind]
  case case7 c text plain fault stuck ih =>
    rw [List.cons_append, replace, (path text).1, if_neg plain, ih, stuck]
    rfl
  case case8 c text plain more later ih =>
    rw [List.cons_append, replace, (path text).1, if_neg plain, ih, later]
    cases replace data none rest <;> rfl

theorem replace_parts_eq_ok {front : List Char} {whole : Replaced} :
    replace data none (front ++ rest) = .ok whole ↔
      ∃ before behind, replace data none front = .ok before ∧
        replace data none rest = .ok behind ∧ whole = before.followedBy behind := by
  rw [replace_parts ends]
  cases replace data none front with
  | error fault => simp [Except.bind]
  | ok before => cases replace data none rest <;> simp [Except.bind, Except.map, eq_comm]

end

end

end Reference
end DiceNotation
