import DiceNotation.Proofs.Fulfillment.Conserving
import DiceNotation.Proofs.Number.Decimals

namespace DiceNotation

/-!
# Dice with prepared values

What was delivered to the dice of a roll can be rolled once more without anyone who
delivers it.  For this, every die gets a method of its own, whose handler gives the values
that the die took, one after another.  The methods of the dice are told apart by the
identities of the dice, and nothing else about the roll changes.
-/

/-! ## Methods of single dice -/

/-- The name of the method that belongs to a single die. -/
def ownName (id : Identity) : String := "die" ++ Nat.repr id

theorem toList_ownName (id : Identity) :
    (ownName id).toList = 'd' :: 'i' :: 'e' :: Nat.toDigits 10 id := by
  have digits : (Nat.repr id).toList = Nat.toDigits 10 id := String.toList_ofList
  unfold ownName
  rw [String.toList_append, digits]
  rfl

theorem ownName_injective {id other : Identity} (same : ownName id = ownName other) :
    id = other := by
  have written := congrArg String.toList same
  rw [toList_ownName, toList_ownName] at written
  injection written with _ written
  injection written with _ written
  injection written with _ digits
  exact Text.toDigits_injective digits

/-- A basic digit may follow inside an identifier. -/
theorem continuesIdentifier_of_isDigit {c : Char} (digit : c.isDigit = true) :
    Text.continuesIdentifier c = true := by
  have inside : Text.extraContinueRanges.has c.toNat = true := by
    refine List.any_eq_true.2 ⟨(0x30, 0x39), by decide, ?_⟩
    rcases Char.isDigit_iff_toNat.1 digit with ⟨low, high⟩
    exact Bool.and_eq_true_iff.2 ⟨decide_eq_true low, decide_eq_true high⟩
  unfold Text.continuesIdentifier
  rw [inside, Bool.or_true]

theorem isIdentifier_ownName (id : Identity) : Text.isIdentifier (ownName id).toList = true := by
  have begins : Text.startsIdentifier 'd' = true ∧ Text.continuesIdentifier 'i' = true ∧
      Text.continuesIdentifier 'e' = true := by decide
  rw [toList_ownName]
  refine Bool.and_eq_true_iff.2 ⟨begins.1, List.all_eq_true.2 ?_⟩
  refine List.forall_mem_cons.2 ⟨begins.2.1, List.forall_mem_cons.2 ⟨begins.2.2, ?_⟩⟩
  intro c member
  exact continuesIdentifier_of_isDigit (Nat.isDigit_of_mem_toDigits (by decide) (by decide) member)

/-- The receipts of the values that went to an identity. -/
def shareOf (receipts : List Receipt) (id : Identity) : List Receipt := receipts.filter (·.id == id)

theorem shareOf_append (front back : List Receipt) (id : Identity) :
    shareOf (front ++ back) id = shareOf front id ++ shareOf back id := List.filter_append _ _

section

variable {taken : List Receipt} {receipt : Receipt}

theorem shareOf_append_self :
    shareOf (taken ++ [receipt]) receipt.id = shareOf taken receipt.id ++ [receipt] := by
  have own : [receipt].filter (·.id == receipt.id) = [receipt] :=
    List.filter_eq_self.2 (List.forall_mem_singleton.2 (beq_self_eq_true receipt.id))
  rw [shareOf_append]
  exact congrArg _ own

theorem shareOf_append_of_ne {id : Identity} (apart : id ≠ receipt.id) :
    shareOf (taken ++ [receipt]) id = shareOf taken id := by
  have none : [receipt].filter (·.id == id) = [] :=
    List.filter_eq_nil_iff.2 (List.forall_mem_singleton.2 fun is => apart (beq_iff_eq.1 is).symm)
  rw [shareOf_append]
  exact (congrArg _ none).trans (List.append_nil _)

end

/-- The values that went to an identity, in the order in which they were taken. -/
def valuesFor (receipts : List Receipt) (id : Identity) : List Json :=
  (shareOf receipts id).map fun receipt => .number receipt.number

/-- The values that went to an identity early are the first ones. -/
theorem getElem?_valuesFor {taken whole : List Receipt} (within : taken <+: whole) {id : Identity}
    {count : Nat} {receipt : Receipt} (is : (shareOf taken id)[count]? = some receipt) :
    (valuesFor whole id)[count]? = some (.number receipt.number) := by
  rcases within with ⟨rest, rfl⟩
  unfold valuesFor
  rw [shareOf_append, List.getElem?_map,
    List.getElem?_append_left (List.getElem?_eq_some_iff.1 is).1, is]
  rfl

/-- The method that gives the values which went to an identity. -/
def preparedMethod (receipts : List Receipt) (id : Identity) : Method where
  handler := some (.prepared .direct (valuesFor receipts id))

/-- The methods of dice, each of which gives the values that went to its die. -/
def MethodTable.prepared (receipts : List Receipt) (dice : List Dice) : MethodTable where
  entries := dice.map fun die => (ownName die.tag.id, preparedMethod receipts die.tag.id)
  identifiers entry member := by
    rcases List.mem_map.1 member with ⟨die, _, rfl⟩
    exact isIdentifier_ownName die.tag.id

theorem named_prepared (receipts : List Receipt) {dice : List Dice} {die : Dice}
    (member : die ∈ dice) :
    (MethodTable.prepared receipts dice).named (.string (ownName die.tag.id)) =
      .ok (preparedMethod receipts die.tag.id) := by
  suffices found : (MethodTable.prepared receipts dice).find? (ownName die.tag.id) =
      some (preparedMethod receipts die.tag.id) by
    change (MethodTable.prepared receipts dice).get _ = _
    unfold MethodTable.get
    rw [found]
  change List.lookup (ownName die.tag.id)
    (dice.map fun die => (ownName die.tag.id, preparedMethod receipts die.tag.id)) = _
  induction dice with
  | nil => cases member
  | cons head rest ih =>
    rw [List.map_cons, List.lookup_cons]
    by_cases same : ownName die.tag.id = ownName head.tag.id
    · rw [beq_iff_eq.2 same, ownName_injective same]
    · rw [beq_eq_false_iff_ne.2 same]
      rcases List.mem_cons.1 member with rfl | later
      · exact absurd rfl same
      · exact ih later

namespace Ledger

/-! ## Ledgers in which dice have other methods -/

/-- The ledger in which every one of the dice has the method of its identity. -/
def withMethods (method : Identity → Json) (dice : List Dice) (ledger : Ledger) : Ledger :=
  dice.foldl (fun ledger die => ledger.withMethod (method die.tag.id) [die]) ledger

variable {method : Identity → Json} {ledger : Ledger}

theorem withMethods_cons (die : Dice) (dice : List Dice) :
    ledger.withMethods method (die :: dice) =
      (ledger.withMethod (method die.tag.id) [die]).withMethods method dice := rfl

theorem roll_withMethods (dice : List Dice) (id : Identity) :
    (ledger.withMethods method dice).roll id = ledger.roll id := by
  induction dice generalizing ledger with
  | nil => rfl
  | cons die rest ih =>
    rw [withMethods_cons, ih]
    rfl

theorem next_withMethods (dice : List Dice) :
    (ledger.withMethods method dice).next = ledger.next := by
  induction dice generalizing ledger with
  | nil => rfl
  | cons die rest ih =>
    rw [withMethods_cons, ih]
    rfl

theorem FreshOn.withMethods {first stop : Nat} (fresh : FreshOn ledger first stop)
    (method : Identity → Json) (dice : List Dice) : FreshOn (ledger.withMethods method dice) first stop := by
  induction dice generalizing ledger with
  | nil => exact fresh
  | cons die rest ih =>
    rw [withMethods_cons]
    exact ih (fresh.withMethod (method die.tag.id) [die])

/-- Only the methods of the dice are others, and a method does not depend on how often a
die is listed. -/
theorem term_withMethods (method : Identity → Json) (dice : List Dice) (ledger : Ledger)
    (id : Identity) :
    (ledger.withMethods method dice).term id =
      if id ∈ dice.map (·.tag.id) then { ledger.term id with method := method id }
      else ledger.term id := by
  induction dice generalizing ledger with
  | nil => rfl
  | cons die rest ih =>
    have head : (ledger.withMethod (method die.tag.id) [die]).term id =
        if die.tag.id = id then { ledger.term id with method := method id } else ledger.term id := by
      refine (ledger.term_updateTerm die.tag.id id _).trans ?_
      by_cases same : die.tag.id = id
      · rw [if_pos same, if_pos same, same]
      · rw [if_neg same, if_neg same]
    rw [withMethods_cons, ih, head, List.map_cons]
    by_cases same : die.tag.id = id
    · rw [if_pos same, if_pos (List.mem_cons.2 (.inl same.symm))]
      split
      · rfl
      · rfl
    · rw [if_neg same]
      refine if_congr ?_ rfl rfl
      rw [List.mem_cons]
      exact ⟨.inr, fun either => either.resolve_left fun is => same is.symm⟩

theorem term_withMethods_of_mem {dice : List Dice} {die : Dice} (member : die ∈ dice) :
    (ledger.withMethods method dice).term die.tag.id =
      { ledger.term die.tag.id with method := method die.tag.id } := by
  rw [term_withMethods, if_pos (List.mem_map_of_mem member)]

/-- A ledger in which dice have other methods knows the same otherwise. -/
theorem term_withMethods_eq (method : Identity → Json) (dice : List Dice) (ledger : Ledger)
    (id : Identity) : ∃ own, (ledger.withMethods method dice).term id =
      { ledger.term id with method := own } := by
  rw [term_withMethods]
  split
  · exact ⟨_, rfl⟩
  · exact ⟨_, rfl⟩

/-- The ledger in which every one of the dice has a method of its own. -/
def withOwnMethods (ledger : Ledger) (dice : List Dice) : Ledger :=
  ledger.withMethods (fun id => .string (ownName id)) dice

end Ledger
end DiceNotation
