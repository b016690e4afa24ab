import DiceNotation.Proofs.Evaluation.Chances
import DiceNotation.Proofs.Formula.Overflows

namespace DiceNotation

/-!
# Computations that slip

Computing with numbers can fail in two ways that the writer of a formula is not told about.
A number can be out of range; for this, there must be something else than an integer.  And
the greatest or the least of a single argument can be asked for: a number has no elements to
choose among.  All other computations give numbers, or the writer is told why not.
-/

/-- Whether the writer of the formula is told about a fault.  If there are decimals, a number
can also be out of range, and if single arguments are compared, one can have no elements. -/
def Fault.IsAllowed (decimals single : Bool) : Fault → Prop
  | .number _ => decimals = true
  | .wrongKind => single = true
  | fault => fault.isAddressed = true

theorem Fault.IsAllowed.of_addressed {decimals single : Bool} {fault : Fault}
    (addressed : fault.isAddressed = true) : fault.IsAllowed decimals single := by
  cases fault with
  | number failure => cases addressed
  | wrongKind => cases addressed
  | _ => exact addressed

/-- A computation gives a number, or it fails in a way that is allowed. -/
abbrev Slips (decimals single : Bool) : Except Fault Json → Prop :=
  Yields (Fault.IsAllowed decimals single) (·.IsAmong decimals)

variable {decimals single : Bool}

theorem Computes.slips {result : Except Fault Json} (computes : Computes decimals result) :
    Slips decimals single result := by
  refine computes.imp ?_ fun _ among => among
  rintro _ ⟨rfl, allowed⟩
  exact allowed

/-- Where there are decimals, anything may come out of a computation with numbers. -/
theorem slips_number (result : Except NumberFault Number) :
    Slips true single ((liftNumber result).map .number) := by
  cases result with
  | error failure => exact (rfl : true = true)
  | ok n =>
    refine ⟨n, rfl, ?_⟩
    cases n with
    | int _ => trivial
    | real _ => rfl

/-! ## Operators -/

theorem Operator.slips_apply {a b : Json} (first : a.IsAmong decimals)
    (second : b.IsAmong decimals) (op : Operator)
    (isExact : decimals = false → Arithmetic.IsExact op) (formula : String) :
    Slips decimals single (op.apply formula a b) := by
  cases decimals with
  | false => exact (op.computes_apply first second (isExact rfl) formula).slips
  | true =>
    rcases first with ⟨m, rfl, _⟩
    rcases second with ⟨n, rfl, _⟩
    have nonzero (result : Except NumberFault Number) :
        Slips true single (if (Json.number n).isZero then .error (.use (.divisionByZero formula))
          else (liftNumber result).map .number) := by
      split
      · exact (rfl : true = true)
      · exact slips_number result
    cases op with
    | add => exact slips_number (m.add n)
    | sub => exact slips_number (m.sub n)
    | mul => exact slips_number (m.mul n)
    | div => exact nonzero (m.divide n)
    | rem => exact nonzero (m.remainder n)

/-! ## Functions -/

namespace Json

/-- A choice among numbers is one of them. -/
theorem first_of_numbers {before : Json → Json → Except Fault Bool}
    (answers : ∀ m n, ∃ answer, before (.number m) (.number n) = .ok answer)
    {best : Json} {values : List Json} (known : best.IsAmong decimals)
    (all : ∀ value ∈ values, value.IsAmong decimals) :
    ∃ chosen, first before best values = .ok chosen ∧ chosen.IsAmong decimals := by
  induction values generalizing best with
  | nil => exact ⟨best, rfl, known⟩
  | cons value rest ih =>
    rcases List.forall_mem_cons.1 all with ⟨here, later⟩
    have ⟨m, is, _⟩ := here
    have ⟨n, isToo, _⟩ := known
    rcases answers m n with ⟨answer, told⟩
    rw [← is, ← isToo] at told
    unfold first
    rw [told]
    cases answer with
    | true => exact ih here later
    | false => exact ih known later

end Json

namespace Function

/-- Functions of one argument keep integers, except for those that round and for roots. -/
def KeepsIntegers (fn : Function) : Prop := fn ≠ .round ∧ fn ≠ .sqrt

theorem slips_value1 (fn : Function) (keeps : decimals = false → fn.KeepsIntegers) {n : Number}
    (among : n.IsAmong decimals) :
    Slips decimals single ((liftNumber (fn.value1 n)).map .number) := by
  cases decimals with
  | true => exact slips_number _
  | false =>
    cases n with
    | real x => cases among
    | int n =>
      have kept : ∃ m, fn.value1 (.int n) = .ok (.int m) := by
        cases fn with
        | abs => exact ⟨_, rfl⟩
        | ceil => exact ⟨_, rfl⟩
        | floor => exact ⟨_, rfl⟩
        | round => exact absurd rfl (keeps rfl).1
        | trunc => exact ⟨_, rfl⟩
        | sign =>
          change ∃ m, Except.ok (Number.signum (.int n)) = .ok (.int m)
          unfold Number.signum
          split
          · exact ⟨_, rfl⟩
          · split
            · exact ⟨_, rfl⟩
            · exact ⟨_, rfl⟩
        | sqrt => exact absurd rfl (keeps rfl).2
        | max => exact ⟨_, rfl⟩
        | min => exact ⟨_, rfl⟩
      rcases kept with ⟨m, kept⟩
      rw [kept]
      exact ⟨.int m, rfl, trivial⟩

/-- The value of a function that has as many arguments as it takes. -/
theorem slips_value (fn : Function) {arguments : List Json}
    (all : ∀ argument ∈ arguments, argument.IsAmong decimals)
    (takes : fn.takes arguments.length = true) (keeps : decimals = false → fn.KeepsIntegers)
    (several : single = false → fn.arity = none → arguments.length ≠ 1) :
    Slips decimals single (fn.value arguments) := by
  match arguments with
  | [] =>
    refine absurd takes ?_
    cases fn <;> decide
  | [a] =>
    rcases all a List.mem_cons_self with ⟨n, rfl, among⟩
    have compares (free : fn.arity = none) :
        Slips decimals single (.error .wrongKind : Except Fault Json) := by
      cases single with
      | true => exact (rfl : true = true)
      | false => exact absurd rfl (several rfl free)
    cases fn with
    | max => exact compares rfl
    | min => exact compares rfl
    | _ => exact slips_value1 _ keeps among
  | a :: b :: rest =>
    rcases List.forall_mem_cons.1 all with ⟨here, others⟩
    have chooses {before : Json → Json → Except Fault Bool}
        (answers : ∀ m n, ∃ answer, before (.number m) (.number n) = .ok answer) :
        Slips decimals single (Json.first before a (b :: rest)) := by
      rcases Json.first_of_numbers answers here others with ⟨chosen, found, among⟩
      rw [found]
      exact among
    cases fn with
    | max => exact @chooses (fun a b => b.precedes a) fun m n => ⟨_, Json.precedes_number n m⟩
    | min => exact chooses fun m n => ⟨_, Json.precedes_number m n⟩
    | _ =>
      refine absurd takes ?_
      simp [Function.takes, Function.arity]

end Function

/-! ## Dice -/

theorem Json.IsAmong.wholeNumber {value : Json} (among : value.IsAmong decimals) :
    value.wholeNumber.IsAmong decimals := by
  rcases among with ⟨n, rfl, among⟩
  cases n with
  | int n => exact ⟨.int n, rfl, trivial⟩
  | real x =>
    unfold Json.wholeNumber
    dsimp only
    split
    · exact Json.isAmong_ofInt _
    · exact ⟨.real x, rfl, among⟩

namespace Ledger

variable {ledger : Ledger} {dice : Dice} {greatest : Json}

/-- What can be compared with the greatest result of dice is accepted or not. -/
theorem accepts_ok (range : ledger.maximumValue dice = .ok greatest)
    (among : greatest.IsAmong decimals) (value : Json) :
    ∃ answer, ledger.accepts dice value = .ok answer ∧
      (answer = true → value.IsAmong decimals) := by
  unfold accepts
  split
  · split
    · exact ⟨false, rfl, nofun⟩
    · rename_i n _
      rcases among with ⟨m, rfl, _⟩
      rw [range]
      exact ⟨_, Json.atMost_number (.int n) m, fun _ => Json.isAmong_ofInt n⟩
  · exact ⟨false, rfl, nofun⟩

/-- A share below one picks a result, if the faces are known or there may be decimals. -/
theorem slips_mapUniform (sound : dice.IsSound) (range : ledger.maximumValue dice = .ok greatest)
    (among : greatest.IsAmong decimals) (moderate : decimals = false → dice.HasModerateFaces)
    {u : Float} (above : 0 ≤ u) (below : u < 1) :
    Slips decimals single (ledger.mapUniform dice (.number (.real u))) := by
  cases decimals with
  | false =>
    have picked : ∃ n : Int, ledger.mapUniform dice (.number (.real u)) = .ok (.ofInt n) :=
      Context.mapUniform_ok (moderate rfl) sound above below
    rcases picked with ⟨n, picked⟩
    rw [picked]
    exact Json.isAmong_ofInt n
  | true =>
    rcases among with ⟨m, rfl, _⟩
    unfold mapUniform
    rw [range]
    change Slips true single (liftNumber (rangeSize dice.kind.minimum m) >>= fun size =>
      uniformNumber size (.number (.real u)) >>= fun u =>
        (liftNumber (pickUniform dice.kind.minimum m u)).map Json.number)
    cases rangeSize dice.kind.minimum m with
    | error failure => exact (rfl : true = true)
    | ok size => exact slips_number _

end Ledger
end DiceNotation
