import DiceNotation.Proofs.Formula.Arithmetic
import DiceNotation.Proofs.Formula.Rows

namespace DiceNotation

/-!
# Totals of precedence trees

The value of written arithmetic is defined by summands and factors, and the total
of a row is read off its precedence tree.  Both are the same.  The tree is built
from the left to the right with one sum that waits for the product being built,
and the proof is an induction that follows it with what the waiting sum amounts to.
-/

namespace Tree

open Arithmetic

variable {α β : Type} (carrier : Carrier β) (value : α → β)

/-- What a tree amounts to when its operators join the values of its operands. -/
def amount : Tree α → Option β
  | leaf a => some (value a)
  | node op left right => do carrier.join op (← amount left) (← amount right)

/-- What a waiting sum amounts to when it is joined to a product. -/
def pendingAmount (pending : Option (Tree α × Operator)) (product : β) : Option β :=
  match pending with
  | none => some product
  | some (sum, op) => do carrier.join op (← amount carrier value sum) product

theorem amount_close (pending : Option (Tree α × Operator)) (product : Tree α) :
    (close pending product).amount carrier value =
      (product.amount carrier value).bind (pendingAmount carrier value pending) := by
  cases pending with
  | none =>
    change product.amount carrier value = (product.amount carrier value).bind some
    rw [Option.bind_fun_some]
  | some waiting =>
    obtain ⟨sum, op⟩ := waiting
    change ((sum.amount carrier value).bind fun left =>
      (product.amount carrier value).bind fun right => carrier.join op left right) =
        (product.amount carrier value).bind fun right =>
          (sum.amount carrier value).bind fun left => carrier.join op left right
    cases sum.amount carrier value <;> cases product.amount carrier value <;> rfl

/-- The values behind the first one, with the operators that join them. -/
def valued (rest : List (Operator × α)) : List (Operator × β) :=
  rest.map fun next => (next.1, value next.2)

/-- What precedence builds from a product and the operands behind it amounts to the
product with its factors, joined to the waiting sum, with all further summands. -/
theorem amount_group (pending : Option (Tree α × Operator)) (product : Tree α)
    (rest : List (Operator × α)) :
    (group pending product (singles rest)).amount carrier value = (do
      let start ← product.amount carrier value
      let finished ← carrier.product start (Carrier.summands (valued value rest)).1
      let sum ← pendingAmount carrier value pending finished
      carrier.sum sum (Carrier.summands (valued value rest)).2) := by
  induction rest generalizing pending product with
  | nil =>
    change (close pending product).amount carrier value = _
    rw [amount_close]
    cases product.amount carrier value with
    | none => rfl
    | some start =>
      change pendingAmount carrier value pending start =
        (pendingAmount carrier value pending start).bind some
      rw [Option.bind_fun_some]
  | cons next rest ih =>
    obtain ⟨op, a⟩ := next
    change (group pending product ((op, leaf a) :: singles rest)).amount carrier value = _
    rw [group]
    change _ = (product.amount carrier value).bind fun start =>
      (carrier.product start (Carrier.summands ((op, value a) :: valued value rest)).1).bind
        fun finished => (pendingAmount carrier value pending finished).bind fun sum =>
          carrier.sum sum (Carrier.summands ((op, value a) :: valued value rest)).2
    cases tight : op.isMultiplicative with
    | true =>
      -- the operand is one more factor of the product
      rw [if_pos rfl, ih, Carrier.summands, if_pos tight]
      change (((product.amount carrier value).bind fun left => carrier.join op left (value a)).bind
        fun start => _) = _
      rw [Option.bind_assoc]
      cases product.amount carrier value with
      | none => rfl
      | some start =>
        change _ = ((carrier.join op start (value a)).bind fun joined =>
          carrier.product joined (Carrier.summands (valued value rest)).1).bind _
        rw [Option.bind_assoc]
        rfl
    | false =>
      -- the product is finished, and the operand starts the next one
      rw [if_neg (by simp), ih, Carrier.summands, if_neg (by simp [tight])]
      change ((carrier.product (value a) (Carrier.summands (valued value rest)).1).bind
        fun finished => (((close pending product).amount carrier value).bind
          fun sum => carrier.join op sum finished).bind _) = _
      rw [amount_close]
      cases product.amount carrier value with
      | none => cases carrier.product (value a) (Carrier.summands (valued value rest)).1 <;> rfl
      | some start =>
        change _ = (pendingAmount carrier value pending start).bind fun sum =>
          ((carrier.product (value a) (Carrier.summands (valued value rest)).1).bind
            fun finished => carrier.join op sum finished).bind _
        change ((carrier.product (value a) (Carrier.summands (valued value rest)).1).bind
          fun finished => ((pendingAmount carrier value pending start).bind
            fun sum => carrier.join op sum finished).bind _) = _
        cases pendingAmount carrier value pending start with
        | none => cases carrier.product (value a) (Carrier.summands (valued value rest)).1 <;> rfl
        | some sum =>
          cases carrier.product (value a) (Carrier.summands (valued value rest)).1 <;> rfl

/-- The precedence tree of a row amounts to the total of the row. -/
theorem amount_ofRun (first : α) (rest : List (Operator × α)) :
    (ofRun (leaf first) (singles rest)).amount carrier value =
      carrier.total (value first) (valued value rest) := by
  rw [ofRun, amount_group]
  change ((carrier.product (value first) (Carrier.summands (valued value rest)).1).bind _) = _
  rfl

end Tree

namespace Arithmetic

/-! ## Numbers -/

/-- A computation gives a number, or it fails where there is none. -/
def Gives (result : Except Fault Json) : Option Number → Prop
  | some n => result = .ok (.number n)
  | none => ∃ fault, result = .error fault

/-- What a computation with numbers gives, whatever it is shown as. -/
theorem gives_of_lift (result : Except NumberFault Number) :
    Gives ((liftNumber result).map .number) result.toOption := by
  cases result with
  | error failure => exact ⟨_, rfl⟩
  | ok n => rfl

/-- Joining two numbers gives a number or fails, and the formula that a refusal
shows has no influence on that. -/
theorem apply_gives (op : Operator) (formula : String) (m n : Number) :
    Gives (op.apply formula (.number m) (.number n)) (joinNumbers op m n) := by
  have given : ∃ value, Gives (op.apply formula (.number m) (.number n)) value ∧
      Gives (op.apply "" (.number m) (.number n)) value := by
    cases op with
    | add => exact ⟨_, gives_of_lift (m.add n), gives_of_lift (m.add n)⟩
    | sub => exact ⟨_, gives_of_lift (m.sub n), gives_of_lift (m.sub n)⟩
    | mul => exact ⟨_, gives_of_lift (m.mul n), gives_of_lift (m.mul n)⟩
    | div =>
      cases zero : (Json.number n).isZero with
      | true =>
        refine ⟨none, ⟨.use (.divisionByZero formula), ?_⟩, ⟨.use (.divisionByZero ""), ?_⟩⟩ <;>
          simp [Operator.apply, Json.isText, zero]
      | false =>
        have both (shown : String) : Operator.div.apply shown (.number m) (.number n) =
            (liftNumber (m.divide n)).map .number := by
          simp [Operator.apply, Json.isText, zero, Json.divide, Json.combine, Json.number?]
        rw [both, both]
        exact ⟨_, gives_of_lift _, gives_of_lift _⟩
    | rem =>
      cases zero : (Json.number n).isZero with
      | true =>
        refine ⟨none, ⟨.use (.divisionByZero formula), ?_⟩, ⟨.use (.divisionByZero ""), ?_⟩⟩ <;>
          simp [Operator.apply, Json.isText, zero]
      | false =>
        have both (shown : String) : Operator.rem.apply shown (.number m) (.number n) =
            (liftNumber (m.remainder n)).map .number := by
          simp [Operator.apply, Json.isText, zero, Json.remainder, Json.combine, Json.number?]
        rw [both, both]
        exact ⟨_, gives_of_lift _, gives_of_lift _⟩
  obtain ⟨value, shown, plain⟩ := given
  have same : joinNumbers op m n = value := by
    unfold joinNumbers
    cases value with
    | none =>
      obtain ⟨fault, refused⟩ := plain
      rw [refused]
    | some sum =>
      change op.apply "" _ _ = _ at plain
      rw [plain]
  rw [same]
  exact shown

end Arithmetic

/-- If all operands of a tree are numbers, its total is what they amount to. -/
theorem Tree.total_gives {α : Type} {totalOf : α → Except Fault Json} {value : α → Number}
    (formula : String) {tree : Tree α}
    (known : ∀ a ∈ tree.leaves, totalOf a = .ok (.number (value a))) :
    Arithmetic.Gives (tree.total totalOf formula) (tree.amount Arithmetic.numbers value) := by
  induction tree with
  | leaf a => exact known a (List.mem_singleton.2 rfl)
  | node op left right left_ih right_ih =>
    have before := left_ih fun a member => known a (List.mem_append_left _ member)
    have behind := right_ih fun a member => known a (List.mem_append_right _ member)
    change Arithmetic.Gives (left.total totalOf formula >>= fun l =>
      right.total totalOf formula >>= fun r => op.apply formula l r)
      ((left.amount Arithmetic.numbers value).bind fun m =>
        (right.amount Arithmetic.numbers value).bind fun n => Arithmetic.joinNumbers op m n)
    cases first : left.amount Arithmetic.numbers value with
    | none =>
      rw [first] at before
      obtain ⟨fault, refused⟩ := before
      rw [refused]
      exact ⟨fault, rfl⟩
    | some m =>
      rw [first] at before
      change left.total totalOf formula = _ at before
      rw [before]
      cases second : right.amount Arithmetic.numbers value with
      | none =>
        rw [second] at behind
        obtain ⟨fault, refused⟩ := behind
        rw [refused]
        exact ⟨fault, rfl⟩
      | some n =>
        rw [second] at behind
        change right.total totalOf formula = _ at behind
        rw [behind]
        exact Arithmetic.apply_gives op formula m n

end DiceNotation
