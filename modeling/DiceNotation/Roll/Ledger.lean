import DiceNotation.Dice.Outcome
import DiceNotation.Roll.Basic

namespace DiceNotation

/-!
# The ledger

The ledger holds what changes about terms and rolls: how far their evaluation
has come, the outcomes of dice and pools, the method of dice, and the totals
of rolls.  Entries are found by identity.  What has no entry yet reads as not
evaluated.
-/

/-- How far an evaluation has come.  It never goes back. -/
inductive Phase where
  | unevaluated
  | evaluating
  | evaluated
  deriving DecidableEq, Repr

/-- What changes about a term. -/
structure TermState where
  phase : Phase := .unevaluated
  outcomes : List Outcome := []
  /-- Whether successes have been counted. -/
  counting : Bool := false
  /-- The name of the method by which dice are rolled.  Whether it is a name
  shows when they are rolled. -/
  method : Json := .null

instance : Inhabited TermState := ⟨{}⟩

/-- What changes about a roll. -/
structure RollState where
  phase : Phase := .unevaluated
  /-- The total, which is null as long as there is none. -/
  total : Json := .null

instance : Inhabited RollState := ⟨{}⟩

/-- Rows found by number.  A row that was never written reads as the blank row. -/
structure Table (α : Type) where
  rows : Array α

namespace Table

variable {α : Type} [Inhabited α]

def empty : Table α := ⟨#[]⟩

/-- The row of a number. -/
def get (table : Table α) (i : Nat) : α := table.rows[i]?.getD default

/-- Writes the row of a number. -/
def set (table : Table α) (i : Nat) (row : α) : Table α :=
  if i < table.rows.size then ⟨table.rows.setIfInBounds i row⟩
  else ⟨(table.rows ++ Array.replicate (i - table.rows.size) default).push row⟩

/-- Changes the row of a number. -/
def modify (table : Table α) (i : Nat) (change : α → α) : Table α :=
  table.set i (change (table.get i))

theorem get_empty (i : Nat) : (empty : Table α).get i = default := rfl

theorem get_set (table : Table α) (i j : Nat) (row : α) :
    (table.set i row).get j = if i = j then row else table.get j := by
  by_cases inside : i < table.rows.size
  · by_cases same : i = j
    · subst same
      simp [set, get, inside]
    · simp [set, get, inside, same]
  · simp only [set, inside, if_false, get, Array.getElem?_push, Array.size_append,
      Array.size_replicate, Array.getElem?_append, Array.getElem?_replicate]
    by_cases same : i = j
    · subst same
      have : i = table.rows.size + (i - table.rows.size) := by omega
      simp [← this]
    · have other : ¬ j = table.rows.size + (i - table.rows.size) := by omega
      simp only [other, same, if_false]
      by_cases before : j < table.rows.size
      · simp [before]
      · simp only [before, if_false]
        have missing : table.rows[j]? = none := by simp; omega
        rw [missing]
        split <;> rfl

theorem get_set_self (table : Table α) (i : Nat) (row : α) : (table.set i row).get i = row := by
  simp [get_set]

theorem get_set_of_ne (table : Table α) (i j : Nat) (row : α) (different : i ≠ j) :
    (table.set i row).get j = table.get j := by
  simp [get_set, different]

end Table

/-- The state of all terms and rolls. -/
structure Ledger where
  terms : Table TermState
  rolls : Table RollState
  /-- The least identity that is not in use. -/
  next : Identity

namespace Ledger

def empty : Ledger where
  terms := Table.empty
  rolls := Table.empty
  next := 0

/-- The ledger with its next identity in use.  Nothing is known about it yet. -/
def allot (ledger : Ledger) : Ledger where
  terms := ledger.terms.set ledger.next default
  rolls := ledger.rolls.set ledger.next default
  next := ledger.next + 1

/-- The state of a term. -/
def term (ledger : Ledger) (id : Identity) : TermState := ledger.terms.get id

/-- The state of a roll. -/
def roll (ledger : Ledger) (id : Identity) : RollState := ledger.rolls.get id

/-- Changes the state of a term. -/
def updateTerm (ledger : Ledger) (id : Identity) (change : TermState → TermState) : Ledger :=
  { ledger with terms := ledger.terms.modify id change }

/-- Changes the state of a roll. -/
def updateRoll (ledger : Ledger) (id : Identity) (change : RollState → RollState) : Ledger :=
  { ledger with rolls := ledger.rolls.modify id change }

/-- Whether a term has been evaluated. -/
def isEvaluated (ledger : Ledger) (term : Term) : Bool :=
  (ledger.term term.id).phase == .evaluated

/-- Whether a roll has been evaluated. -/
def isRollEvaluated (ledger : Ledger) (roll : Roll) : Bool :=
  (ledger.roll roll.id).phase == .evaluated

/-- The total of a roll, once it has been evaluated, and null before. -/
def rollTotal (ledger : Ledger) (roll : Roll) : Json :=
  if ledger.isRollEvaluated roll then (ledger.roll roll.id).total else .null

/-- The outcomes of a term. -/
def outcomes (ledger : Ledger) (id : Identity) : List Outcome := (ledger.term id).outcomes

end Ledger

end DiceNotation
