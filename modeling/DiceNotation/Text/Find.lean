namespace DiceNotation
namespace Text

/-!
# Finding one text in another

Refusals point at the first place where the refused text occurs, and clauses
keep the stretch of the formula that they were read from.
-/

/-- The position at which `part` first occurs. -/
def find? (part : List Char) : List Char → Option Nat
  | [] => if part.isEmpty then some 0 else none
  | c :: rest =>
    if part.isPrefixOf (c :: rest) then some 0 else (find? part rest).map (· + 1)

/-- The stretch between two places of one text, each given by what follows it. -/
def stretch (start stop : List Char) : List Char :=
  start.take (start.length - stop.length)

theorem stretch_append (front stop : List Char) : stretch (front ++ stop) stop = front := by
  simp [stretch]

theorem find?_le_length (part text : List Char) (position : Nat)
    (h : find? part text = some position) : position ≤ text.length := by
  induction text generalizing position with
  | nil =>
    simp only [find?] at h
    split at h
    · simp at h
      simp [← h]
    · simp at h
  | cons c rest ih =>
    simp only [find?] at h
    split at h
    · simp at h
      simp [← h]
    · obtain ⟨earlier, found, rfl⟩ := Option.map_eq_some_iff.1 h
      simpa using ih earlier found

end Text
end DiceNotation
