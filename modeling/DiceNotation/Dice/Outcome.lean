import DiceNotation.Dice.Comparator

namespace DiceNotation

/-!
# Outcomes

An outcome is one value of dice or of a pool.  It is kept for history even
when it no longer counts: discarded by a modifier, or rolled again.

Rolling gives integers and truth values only.  An outcome that was restored
keeps the data of its record instead; a mark holds if its data counts as set.
-/

/-- One value with what has become of it. -/
structure Outcome where
  value : Json
  active : Json := .bool true
  discarded : Json := .bool false
  rerolled : Json := .bool false
  exploded : Json := .bool false
  success : Json := .bool false
  failure : Json := .bool false
  /-- What the outcome counts for; null if it is not counted. -/
  count : Json := .null

namespace Outcome

/-- Whether an outcome still counts. -/
def isActive (outcome : Outcome) : Bool := outcome.active.isSet

/-- Whether an outcome has been counted. -/
def isCounted (outcome : Outcome) : Bool :=
  match outcome.count with
  | .null => false
  | _ => true

/-- What an outcome adds to a total: its count if it has one. -/
def worth (outcome : Outcome) : Json := if outcome.isCounted then outcome.count else outcome.value

/-- Puts an outcome aside. -/
def discard (outcome : Outcome) : Outcome :=
  { outcome with active := .bool false, discarded := .bool true }

/-- The values that still count. -/
def activeValues (outcomes : List Outcome) : List Json :=
  (outcomes.filter isActive).map (·.value)

/-- The sum of what the active outcomes are worth. -/
def total (outcomes : List Outcome) : Except Fault Json :=
  Json.total ((outcomes.filter isActive).map worth)

/-- Changes the active outcomes in order.  The first one that cannot be changed
ends this; those before it stay changed. -/
def mapActive (change : Outcome → Except Fault Outcome) :
    List Outcome → List Outcome × Except Fault Unit
  | [] => ([], .ok ())
  | outcome :: rest =>
    if outcome.isActive then
      match change outcome with
      | .error fault => (outcome :: rest, .error fault)
      | .ok changed =>
        let (others, result) := mapActive change rest
        (changed :: others, result)
    else
      let (others, result) := mapActive change rest
      (outcome :: others, result)

/-- A change that never fails reaches all active outcomes. -/
theorem mapActive_ok (change : Outcome → Outcome) (outcomes : List Outcome) :
    mapActive (fun outcome => .ok (change outcome)) outcomes =
      (outcomes.map fun outcome => if outcome.isActive then change outcome else outcome,
        .ok ()) := by
  induction outcomes with
  | nil => rfl
  | cons outcome rest ih =>
    cases active : outcome.isActive <;> simp [mapActive, active, ih]

/-- Changing outcomes neither adds nor removes any. -/
theorem length_mapActive (change : Outcome → Except Fault Outcome) (outcomes : List Outcome) :
    (mapActive change outcomes).1.length = outcomes.length := by
  induction outcomes with
  | nil => rfl
  | cons outcome rest ih =>
    simp only [mapActive]
    split
    · split
      · rfl
      · simp [ih]
    · simp [ih]

/-!
## Outcomes as data

The record of an outcome has its value, its six marks and its count.  The
count is left out if there is none.  When an outcome is restored, marks that
are missing have their first values, but the value must be there.
-/

/-- The record of an outcome. -/
def record (outcome : Outcome) : Json :=
  let marks : Fields := [("value", outcome.value), ("active", outcome.active),
    ("discarded", outcome.discarded), ("rerolled", outcome.rerolled),
    ("exploded", outcome.exploded), ("success", outcome.success), ("failure", outcome.failure)]
  .object (if outcome.isCounted then marks ++ [("count", outcome.count)] else marks)

/-- The outcome of a record. -/
def restore : Json → Except Fault Outcome
  | .object fields =>
    match Fields.get? fields "value" with
    | none => .error .wrongKind
    | some value =>
      let mark := fun (name : String) (first : Bool) =>
        (Fields.get? fields name).getD (.bool first)
      .ok {
        value := value
        active := mark "active" true
        discarded := mark "discarded" false
        rerolled := mark "rerolled" false
        exploded := mark "exploded" false
        success := mark "success" false
        failure := mark "failure" false
        count := (Fields.get? fields "count").getD .null }
  | _ => .error .notARecord

/-- Restoring the record of an outcome gives the outcome back. -/
theorem restore_record (outcome : Outcome) : restore outcome.record = .ok outcome := by
  obtain ⟨value, active, discarded, rerolled, exploded, success, failure, count⟩ := outcome
  cases count <;> simp [record, restore, isCounted, Fields.get?_cons, Fields.get?_nil]

/-- The outcomes of a list of records.  Nothing that is set but a list can be
such a list: the characters of a text and the names of a record are no records. -/
def restoreAll (results : Json) : Except Fault (List Outcome) :=
  if results.isSet then do (← results.elements).mapM restore else .ok []

end Outcome
end DiceNotation
