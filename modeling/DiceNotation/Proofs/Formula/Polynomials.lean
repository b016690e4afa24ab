import DiceNotation.Proofs.Formula.Arithmetic

namespace DiceNotation
namespace Arithmetic

/-!
# Sums, differences and products

An expression without quotients and remainders has an exact value among the
integers, and this integer is its value among the numbers too.  The second part is
true of any two kinds of values as long as the joins of the first kind are joins of
the second kind.
-/

/-! ## From one kind of value to another -/

/-- A map between two kinds of values that respects literals, negation and every
join that succeeds. -/
structure Embeds {α β : Type} (source : Carrier α) (target : Carrier β) (f : α → β) : Prop where
  literal : ∀ n, f (source.literal n) = target.literal n
  negate : ∀ a, f (source.negate a) = target.negate (f a)
  join : ∀ op a b c, source.join op a b = some c → target.join op (f a) (f b) = some (f c)

/-- Operands with their values mapped. -/
def mapped {α β : Type} (f : α → β) (rest : List (Operator × α)) : List (Operator × β) :=
  rest.map fun next => (next.1, f next.2)

/-- Summands with their values mapped. -/
def mappedSummands {α β : Type} (f : α → β) (rest : List (Operator × α × List (Operator × α))) :
    List (Operator × β × List (Operator × β)) :=
  rest.map fun next => (next.1, f next.2.1, mapped f next.2.2)

variable {α β : Type} {source : Carrier α} {target : Carrier β} {f : α → β}

theorem summands_mapped (f : α → β) (rest : List (Operator × α)) :
    Carrier.summands (mapped f rest) =
      (mapped f (Carrier.summands rest).1, mappedSummands f (Carrier.summands rest).2) := by
  induction rest with
  | nil => rfl
  | cons next rest ih =>
    obtain ⟨op, a⟩ := next
    change Carrier.summands ((op, f a) :: mapped f rest) = _
    rw [Carrier.summands, Carrier.summands, ih]
    cases op.isMultiplicative <;> rfl

theorem Embeds.signed (embeds : Embeds source target f) (negative : Bool) (a : α) :
    f (source.signed negative a) = target.signed negative (f a) := by
  cases negative with
  | false => rfl
  | true => exact embeds.negate a

theorem Embeds.product (embeds : Embeds source target f) {first last : α}
    {factors : List (Operator × α)} (joined : source.product first factors = some last) :
    target.product (f first) (mapped f factors) = some (f last) := by
  induction factors generalizing first with
  | nil =>
    cases joined
    rfl
  | cons next rest ih =>
    obtain ⟨op, a⟩ := next
    change (source.join op first a).bind _ = some last at joined
    obtain ⟨middle, step, later⟩ := Option.bind_eq_some_iff.1 joined
    change (target.join op (f first) (f a)).bind _ = _
    rw [embeds.join op first a middle step]
    exact ih later

theorem Embeds.sum (embeds : Embeds source target f) {first last : α}
    {rest : List (Operator × α × List (Operator × α))} (joined : source.sum first rest = some last) :
    target.sum (f first) (mappedSummands f rest) = some (f last) := by
  induction rest generalizing first with
  | nil =>
    cases joined
    rfl
  | cons next rest ih =>
    obtain ⟨op, a, factors⟩ := next
    change ((source.product a factors).bind fun b => source.join op first b).bind _ = some last
      at joined
    obtain ⟨middle, step, later⟩ := Option.bind_eq_some_iff.1 joined
    obtain ⟨b, multiplied, added⟩ := Option.bind_eq_some_iff.1 step
    change ((target.product (f a) (mapped f factors)).bind
      fun b => target.join op (f first) b).bind _ = _
    rw [embeds.product multiplied, Option.bind_some, embeds.join op first b middle added]
    exact ih later

theorem Embeds.total (embeds : Embeds source target f) {first last : α}
    {rest : List (Operator × α)} (joined : source.total first rest = some last) :
    target.total (f first) (mapped f rest) = some (f last) := by
  obtain ⟨middle, multiplied, added⟩ := Option.bind_eq_some_iff.1 joined
  change (target.product (f first) (Carrier.summands (mapped f rest)).1).bind _ = _
  rw [summands_mapped, embeds.product multiplied]
  exact embeds.sum added

mutual

theorem Embeds.ofOperand (embeds : Embeds source target f) : (operand : Operand) → {a : α} →
    source.ofOperand operand = some a → target.ofOperand operand = some (f a)
  | .literal digits, a, value => by
    cases value
    exact congrArg some (embeds.literal _).symm
  | .group inner, a, value => embeds.ofExpression inner value

/-- What an expression amounts to is respected by such a map. -/
theorem Embeds.ofExpression (embeds : Embeds source target f) : (expression : Expression) →
    {a : α} → source.ofExpression expression = some a →
    target.ofExpression expression = some (f a)
  | .run signs first rest, a, value => by
    obtain ⟨head, headValue, others⟩ := Option.bind_eq_some_iff.1 value
    obtain ⟨joined, restValues, total⟩ := Option.bind_eq_some_iff.1 others
    change (target.ofOperand first).bind _ = _
    rw [embeds.ofOperand first headValue, Option.bind_some]
    change (target.ofJoined rest).bind _ = _
    rw [embeds.ofJoined rest restValues, Option.bind_some, ← embeds.signed]
    exact embeds.total total

theorem Embeds.ofJoined (embeds : Embeds source target f) :
    (rest : List (List Char × Operand)) → {joined : List (Operator × α)} →
    source.ofJoined rest = some joined → target.ofJoined rest = some (mapped f joined)
  | [], joined, values => by
    cases values
    rfl
  | (row, next) :: rest, joined, values => by
    obtain ⟨⟨op, negative⟩, means, others⟩ := Option.bind_eq_some_iff.1 values
    obtain ⟨value, nextValue, others⟩ := Option.bind_eq_some_iff.1 others
    obtain ⟨more, restValues, same⟩ := Option.bind_eq_some_iff.1 others
    cases same
    change (meaning? row).bind _ = _
    rw [means, Option.bind_some]
    change (target.ofOperand next).bind _ = _
    rw [embeds.ofOperand next nextValue, Option.bind_some]
    change (target.ofJoined rest).bind _ = _
    rw [embeds.ofJoined rest restValues, Option.bind_some, ← embeds.signed]
    rfl

end

/-! ## Exact values -/

/-- Sums, differences and products of integers are the same as numbers. -/
theorem integers_embed : Embeds integers numbers Number.int where
  literal _ := rfl
  negate _ := rfl
  join := by
    intro op a b c joined
    cases op with
    | add =>
      cases joined
      rfl
    | sub =>
      cases joined
      rfl
    | mul =>
      cases joined
      rfl
    | div => cases joined
    | rem => cases joined

/-- Whether an operator joins integers exactly. -/
def IsExact (op : Operator) : Prop := op ≠ .div ∧ op ≠ .rem

theorem IsExact.joins {op : Operator} (isExact : IsExact op) (a b : Int) :
    ∃ c, integers.join op a b = some c := by
  cases op with
  | add => exact ⟨_, rfl⟩
  | sub => exact ⟨_, rfl⟩
  | mul => exact ⟨_, rfl⟩
  | div => exact absurd rfl isExact.1
  | rem => exact absurd rfl isExact.2

/-- The operator of a row without the signs of division and remainder is exact. -/
theorem isExact_of_meaning? {row : List Char} {op : Operator} {negative : Bool}
    (means : meaning? row = some (op, negative)) (noQuotient : '/' ∉ row)
    (noRemainder : '%' ∉ row) : IsExact op := by
  unfold meaning? at means
  split at means
  · cases means
    cases isOdd row <;> exact ⟨by decide, by decide⟩
  · split at means
    · cases means
    · rename_i c signs _
      split at means
      · obtain ⟨found, given, same⟩ := Option.map_eq_some_iff.1 means
        cases same
        unfold multiplicative? at given
        split at given
        · cases given
          exact ⟨by decide, by decide⟩
        · exact absurd List.mem_cons_self noQuotient
        · exact absurd List.mem_cons_self noRemainder
        · cases given
      · cases means

theorem exists_product {factors : List (Operator × Int)}
    (allExact : ∀ next ∈ factors, IsExact next.1) (first : Int) :
    ∃ n, integers.product first factors = some n := by
  induction factors generalizing first with
  | nil => exact ⟨first, rfl⟩
  | cons next rest ih =>
    obtain ⟨c, joined⟩ := (allExact next List.mem_cons_self).joins first next.2
    obtain ⟨n, later⟩ := ih (fun other member => allExact other (List.mem_cons_of_mem _ member)) c
    refine ⟨n, ?_⟩
    change (integers.join next.1 first next.2).bind _ = _
    rw [joined]
    exact later

/-- Summands whose operators are all exact. -/
theorem exact_summands {rest : List (Operator × Int)}
    (allExact : ∀ next ∈ rest, IsExact next.1) :
    (∀ next ∈ (Carrier.summands rest).1, IsExact next.1) ∧
      ∀ summand ∈ (Carrier.summands rest).2,
        IsExact summand.1 ∧ ∀ next ∈ summand.2.2, IsExact next.1 := by
  induction rest with
  | nil => exact ⟨fun _ member => absurd member List.not_mem_nil,
      fun _ member => absurd member List.not_mem_nil⟩
  | cons next rest ih =>
    obtain ⟨op, a⟩ := next
    have here := allExact (op, a) List.mem_cons_self
    obtain ⟨factors, summands⟩ := ih fun other member => allExact other (List.mem_cons_of_mem _ member)
    rw [Carrier.summands]
    split
    · refine ⟨fun other member => ?_, summands⟩
      rcases List.mem_cons.1 member with rfl | member
      · exact here
      · exact factors other member
    · refine ⟨fun _ member => absurd member List.not_mem_nil, fun summand member => ?_⟩
      rcases List.mem_cons.1 member with rfl | member
      · exact ⟨here, factors⟩
      · exact summands summand member

theorem exists_sum {rest : List (Operator × Int × List (Operator × Int))}
    (allExact : ∀ summand ∈ rest, IsExact summand.1 ∧ ∀ next ∈ summand.2.2, IsExact next.1)
    (first : Int) : ∃ n, integers.sum first rest = some n := by
  induction rest generalizing first with
  | nil => exact ⟨first, rfl⟩
  | cons summand rest ih =>
    obtain ⟨op, a, factors⟩ := summand
    obtain ⟨here, inner⟩ := allExact _ List.mem_cons_self
    obtain ⟨b, multiplied⟩ := exists_product inner a
    obtain ⟨c, joined⟩ := here.joins first b
    obtain ⟨n, later⟩ := ih (fun other member => allExact other (List.mem_cons_of_mem _ member)) c
    refine ⟨n, ?_⟩
    change ((integers.product a factors).bind fun b => integers.join op first b).bind _ = _
    rw [multiplied, Option.bind_some, joined]
    exact later

theorem exists_total {rest : List (Operator × Int)} (allExact : ∀ next ∈ rest, IsExact next.1)
    (first : Int) : ∃ n, integers.total first rest = some n := by
  obtain ⟨factors, summands⟩ := exact_summands allExact
  obtain ⟨middle, multiplied⟩ := exists_product factors first
  obtain ⟨n, added⟩ := exists_sum summands middle
  refine ⟨n, ?_⟩
  change (integers.product first _).bind _ = _
  rw [multiplied]
  exact added

mutual

theorem Operand.exists_integer : (operand : Operand) → operand.IsMeaningful →
    operand.IsPolynomial → ∃ n, integers.ofOperand operand = some n
  | .literal _, _, _ => ⟨_, rfl⟩
  | .group inner, meaningful, polynomial => inner.exists_integer meaningful polynomial

/-- An expression without quotients and remainders has an exact value. -/
theorem Expression.exists_integer : (expression : Expression) → expression.IsMeaningful →
    expression.IsPolynomial → ∃ n, integers.ofExpression expression = some n
  | .run signs first rest, ⟨_, meaningful, others⟩, ⟨polynomial, more⟩ => by
    obtain ⟨head, headValue⟩ := first.exists_integer meaningful polynomial
    obtain ⟨joined, restValues, allExact⟩ := joined_exists_integers rest others more
    obtain ⟨n, total⟩ := exists_total allExact (integers.signed (isOdd signs) head)
    refine ⟨n, ?_⟩
    change (integers.ofOperand first).bind _ = _
    rw [headValue, Option.bind_some]
    change (integers.ofJoined rest).bind _ = _
    rw [restValues]
    exact total

theorem joined_exists_integers : (rest : List (List Char × Operand)) → JoinedAreMeaningful rest →
    JoinedArePolynomial rest →
    ∃ joined, integers.ofJoined rest = some joined ∧ ∀ next ∈ joined, IsExact next.1
  | [], _, _ => ⟨[], rfl, fun _ member => absurd member List.not_mem_nil⟩
  | (row, next) :: rest, ⟨means, meaningful, others⟩, ⟨⟨noQuotient, noRemainder⟩, polynomial, more⟩ => by
    obtain ⟨⟨op, negative⟩, means⟩ := Option.isSome_iff_exists.1 means
    obtain ⟨value, nextValue⟩ := next.exists_integer meaningful polynomial
    obtain ⟨joined, restValues, allExact⟩ := joined_exists_integers rest others more
    refine ⟨(op, integers.signed negative value) :: joined, ?_, ?_⟩
    · change (meaning? row).bind _ = _
      rw [means, Option.bind_some]
      change (integers.ofOperand next).bind _ = _
      rw [nextValue, Option.bind_some]
      change (integers.ofJoined rest).bind _ = _
      rw [restValues]
      rfl
    · intro other member
      rcases List.mem_cons.1 member with rfl | member
      · exact isExact_of_meaning? means noQuotient noRemainder
      · exact allExact other member

end

/-- The value of an expression without quotients and remainders is its exact value. -/
theorem Expression.value_of_polynomial {expression : Expression}
    (meaningful : expression.IsMeaningful) (polynomial : expression.IsPolynomial) :
    ∃ n, expression.integer = some n ∧ expression.value = some (.int n) := by
  obtain ⟨n, integer⟩ := expression.exists_integer meaningful polynomial
  exact ⟨n, integer, integers_embed.ofExpression expression integer⟩

end Arithmetic
end DiceNotation
