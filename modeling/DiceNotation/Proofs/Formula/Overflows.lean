import DiceNotation.Proofs.Formula.Polynomials
import DiceNotation.Proofs.Roll.TermRows

namespace DiceNotation

/-!
# Sums, differences and products that overflow

Numbers can be added, subtracted and multiplied, with one exception: an integer that
meets a decimal is converted to a real, and it can be too large for that.  Without
decimals there is no exception.
-/

/-- Whether a number is an integer, unless decimals are allowed. -/
def Number.IsAmong (decimals : Bool) : Number → Prop
  | .int _ => True
  | .real _ => decimals = true

/-- Whether data is an integer, or any number if decimals are allowed. -/
def Json.IsAmong (decimals : Bool) (value : Json) : Prop :=
  ∃ n : Number, value = .number n ∧ n.IsAmong decimals

instance (decimals : Bool) : DecidablePred (Number.IsAmong decimals)
  | .int _ => .isTrue trivial
  | .real _ => inferInstanceAs (Decidable (decimals = true))

instance (decimals : Bool) : DecidablePred (Json.IsAmong decimals)
  | .number n => decidable_of_iff (n.IsAmong decimals)
    ⟨fun among => ⟨n, rfl, among⟩, fun ⟨_, is, among⟩ => Json.number.inj is ▸ among⟩
  | .null => .isFalse nofun
  | .bool _ => .isFalse nofun
  | .string _ => .isFalse nofun
  | .array _ => .isFalse nofun
  | .object _ => .isFalse nofun

/-- Whether what a computation gives is of one kind, and the fault that it fails with of
another. -/
def Yields {α : Type} (kind : Fault → Prop) (holds : α → Prop) : Except Fault α → Prop
  | .ok a => holds a
  | .error fault => kind fault

/-- Whether a computation gives a number, or overflows because of decimals. -/
abbrev Computes (decimals : Bool) : Except Fault Json → Prop :=
  Yields (fun fault => fault = .number .overflow ∧ decimals = true) (·.IsAmong decimals)

namespace Yields

variable {α β : Type} {kind : Fault → Prop} {holds : α → Prop} {further : β → Prop}

theorem imp {result : Except Fault α} (yields : Yields kind holds result)
    {other : Fault → Prop} {weaker : α → Prop} (faults : ∀ fault, kind fault → other fault)
    (values : ∀ a, holds a → weaker a) : Yields other weaker result := by
  cases result with
  | error fault => exact faults fault yields
  | ok a => exact values a yields

theorem bind {result : Except Fault α} {next : α → Except Fault β}
    (yields : Yields kind holds result)
    (more : ∀ a, holds a → Yields kind further (next a)) :
    Yields kind further (result >>= next) := by
  cases result with
  | error fault => exact yields
  | ok a => exact more a yields

end Yields

variable {decimals : Bool}

theorem Json.isAmong_ofInt (n : Int) : (Json.ofInt n).IsAmong decimals := ⟨.int n, rfl, trivial⟩

namespace Number

theorem toReal_cases (n : Number) : (∃ x, n.toReal = .ok x) ∨ n.toReal = .error .overflow := by
  cases n with
  | real x => exact .inl ⟨x, rfl⟩
  | int n =>
    unfold toReal
    simp only
    split
    · exact .inr rfl
    · exact .inl ⟨_, rfl⟩

/-- As soon as there are decimals, two numbers are joined as reals. -/
theorem computes_reals (allowed : decimals = true) (operation : Float → Float → Float)
    (m n : Number) :
    Computes decimals ((liftNumber (do
      let x ← m.toReal
      let y ← n.toReal
      return .real (operation x y))).map .number) := by
  rcases m.toReal_cases with ⟨x, first⟩ | first <;> rw [first]
  · rcases n.toReal_cases with ⟨y, second⟩ | second <;> rw [second]
    · exact ⟨_, rfl, allowed⟩
    · exact ⟨rfl, allowed⟩
  · exact ⟨rfl, allowed⟩

/-- Integers are joined exactly, and as reals what has a real in it. -/
theorem computes_of (operation : Number → Number → Except NumberFault Number)
    (reals : Float → Float → Float)
    (whole : ∀ a b, ∃ c, operation (.int a) (.int b) = .ok (.int c))
    (left : ∀ x n, operation (.real x) n = (do
      let x ← (Number.real x).toReal
      let y ← n.toReal
      return .real (reals x y)))
    (right : ∀ a y, operation (.int a) (.real y) = (do
      let x ← (Number.int a).toReal
      let y ← (Number.real y).toReal
      return .real (reals x y))) {m n : Number} (first : m.IsAmong decimals)
    (second : n.IsAmong decimals) :
    Computes decimals ((liftNumber (operation m n)).map .number) := by
  cases m with
  | int a =>
    cases n with
    | int b =>
      rcases whole a b with ⟨c, joined⟩
      rw [joined]
      exact ⟨.int c, rfl, trivial⟩
    | real y =>
      rw [right]
      exact computes_reals second reals _ _
  | real x =>
    rw [left]
    exact computes_reals first reals _ _

end Number

namespace Json

theorem computes_add {a b : Json} (first : a.IsAmong decimals) (second : b.IsAmong decimals) :
    Computes decimals (a.add b) := by
  rcases first with ⟨m, rfl, first⟩
  rcases second with ⟨n, rfl, second⟩
  rw [add_number]
  exact Number.computes_of Number.add (· + ·) (fun a b => ⟨a + b, rfl⟩) (fun _ _ => rfl)
    (fun _ _ => rfl) first second

/-- The sum of numbers. -/
theorem computes_total {values : List Json} (all : ∀ value ∈ values, value.IsAmong decimals) :
    Computes decimals (Json.total values) := by
  have from_start (start : Json) (known : start.IsAmong decimals) :
      Computes decimals (values.foldlM add start) := by
    induction values generalizing start with
    | nil => exact known
    | cons value rest ih =>
      rcases List.forall_mem_cons.1 all with ⟨here, later⟩
      rw [List.foldlM_cons]
      have joined := computes_add known here
      cases sum : start.add value with
      | error fault =>
        rw [sum] at joined
        exact joined
      | ok next =>
        rw [sum] at joined
        exact ih later next joined
  exact from_start _ (isAmong_ofInt 0)

end Json

/-- A sum, difference or product of two numbers. -/
theorem Operator.computes_apply {a b : Json} (first : a.IsAmong decimals)
    (second : b.IsAmong decimals) {op : Operator} (isExact : Arithmetic.IsExact op)
    (formula : String) : Computes decimals (op.apply formula a b) := by
  rcases first with ⟨m, rfl, among⟩
  rcases second with ⟨n, rfl, amongToo⟩
  cases op with
  | add => exact Json.computes_add ⟨m, rfl, among⟩ ⟨n, rfl, amongToo⟩
  | sub =>
    exact Number.computes_of Number.sub (· - ·) (fun a b => ⟨a - b, rfl⟩) (fun _ _ => rfl)
      (fun _ _ => rfl) among amongToo
  | mul =>
    exact Number.computes_of Number.mul (· * ·) (fun a b => ⟨a * b, rfl⟩) (fun _ _ => rfl)
      (fun _ _ => rfl) among amongToo
  | div => exact absurd rfl isExact.1
  | rem => exact absurd rfl isExact.2

/-! ## Precedence trees -/

namespace Tree

variable {α : Type} {totalOf : α → Except Fault Json} {formula : String} {tree : Tree α}

/-- The total of a tree is of the kind that its operands are of, if its operators keep to it. -/
theorem yields_total {kind : Fault → Prop} {holds : Json → Prop}
    (applies : ∀ next ∈ tree.row.2, ∀ l r, holds l → holds r →
      Yields kind holds (next.1.apply formula l r))
    (known : ∀ a ∈ tree.leaves, Yields kind holds (totalOf a)) :
    Yields kind holds (tree.total totalOf formula) := by
  induction tree with
  | leaf a => exact known a (List.mem_singleton.2 rfl)
  | node op left right left_ih right_ih =>
    rcases List.forall_mem_append.1 applies with ⟨before, later⟩
    rcases List.forall_mem_cons.1 later with ⟨here, behind⟩
    rcases List.forall_mem_append.1 known with ⟨knownLeft, knownRight⟩
    refine (left_ih before knownLeft).bind fun l first => ?_
    exact (right_ih behind knownRight).bind fun r second => here l r first second

/-- A tree has a total only if each of its operands has one. -/
theorem totals_of_total {total : Json} (sum : tree.total totalOf formula = .ok total) :
    ∀ a ∈ tree.leaves, ∃ value, totalOf a = .ok value := by
  induction tree generalizing total with
  | leaf a =>
    intro b member
    obtain rfl := List.mem_singleton.1 member
    exact ⟨total, sum⟩
  | node op left right left_ih right_ih =>
    unfold Tree.total at sum
    cases first : left.total totalOf formula with
    | error fault =>
      rw [first] at sum
      cases sum
    | ok l =>
      cases second : right.total totalOf formula with
      | error fault =>
        rw [first, second] at sum
        cases sum
      | ok r => exact List.forall_mem_append.2 ⟨left_ih first, right_ih second⟩

end Tree

/-! ## Rows of terms -/

namespace TermRow

variable {row : TermRow}

theorem mem_terms_of_mem_joined {next : Operator × Term} (member : next ∈ row.joined) :
    ∃ tag, Term.operator tag next.1 ∈ row.terms := by
  rcases List.mem_map.1 member with ⟨⟨tag, op, term⟩, inside, rfl⟩
  refine ⟨tag, List.mem_cons_of_mem _ (List.mem_flatMap.2 ⟨_, inside, ?_⟩)⟩
  exact List.mem_cons_self

theorem mem_operands_of_mem_terms {term : Term} (member : term ∈ row.terms)
    (operand : term.isOperand = true) : term ∈ row.operands := by
  rcases List.mem_cons.1 member with rfl | member
  · exact List.mem_cons_self
  · rcases List.mem_flatMap.1 member with ⟨next, inside, here⟩
    rcases List.mem_cons.1 here with rfl | here
    · cases operand
    · obtain rfl := List.mem_singleton.1 here
      exact List.mem_cons_of_mem _ (List.mem_map_of_mem inside)

end TermRow

namespace RollOf.IsSound

variable {roll : Roll} {ledger : Ledger} (sound : roll.IsSound)
include sound

/-- The total of a roll is of the kind that its operands are of, if its operators keep to it. -/
theorem yields_totalOfTerms {kind : Fault → Prop} {holds : Json → Prop}
    (applies : ∀ tag op, Term.operator tag op ∈ roll.terms → ∀ formula l r, holds l → holds r →
      Yields kind holds (op.apply formula l r))
    (known : ∀ term ∈ roll.terms, term.isOperand = true →
      Yields kind holds (ledger.total term)) :
    Yields kind holds (ledger.totalOfTerms roll.terms) := by
  rcases sound.alternates with ⟨row, same, proper⟩
  rw [same] at applies known ⊢
  rw [Ledger.totalOfTerms, TermRow.treeOfTerms_terms proper]
  apply Tree.yields_total
  · intro next member
    rw [Tree.row_ofRun] at member
    rcases TermRow.mem_terms_of_mem_joined member with ⟨tag, inside⟩
    exact applies tag next.1 inside _
  · intro term member
    rw [TermRow.leaves_tree] at member
    exact known term (TermRow.mem_terms_of_mem_operands member) (proper term member)

/-- The total of a roll without quotients and remainders, if its operands are numbers. -/
theorem computes_totalOfTerms
    (isExact : ∀ tag op, Term.operator tag op ∈ roll.terms → Arithmetic.IsExact op)
    (known : ∀ term ∈ roll.terms, term.isOperand = true → Computes decimals (ledger.total term)) :
    Computes decimals (ledger.totalOfTerms roll.terms) :=
  sound.yields_totalOfTerms (fun tag op member formula _ _ first second =>
    op.computes_apply first second (isExact tag op member) formula) known

/-- A roll has a total only if each of its operands has one. -/
theorem totals_of_totalOfTerms {total : Json} (sum : ledger.totalOfTerms roll.terms = .ok total) :
    ∀ term ∈ roll.terms, term.isOperand = true → ∃ value, ledger.total term = .ok value := by
  rcases sound.alternates with ⟨row, same, proper⟩
  rw [same] at sum ⊢
  rw [Ledger.totalOfTerms, TermRow.treeOfTerms_terms proper] at sum
  intro term member operand
  have leaf := TermRow.mem_operands_of_mem_terms member operand
  rw [← TermRow.leaves_tree] at leaf
  exact Tree.totals_of_total sum term leaf

end RollOf.IsSound
end DiceNotation
