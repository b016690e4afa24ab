import DiceNotation.Proofs.Evaluation.Attempts
import DiceNotation.Proofs.Evaluation.Explaining
import DiceNotation.Proofs.Evaluation.RollSlips
import DiceNotation.Proofs.Roll.Rejections

namespace DiceNotation

/-!
# Faults that escape

The services give what they promise, or they refuse with a message that begins with a code.
There are three ways around this.  A mark of the formula can count as a digit without being
one, the greatest or least of a single argument can be asked for, and a number can be out of
range.  The last can happen only if something in the formula need not be a small integer: a
decimal, a quotient, a remainder, a root, a rounded number, or faces that are computed or are
too many.
-/

/-! ## Messages with a code -/

/-- The codes of messages. -/
def messageCodes : List String :=
  ["PARSE_ERROR", "MODIFIER_ERROR", "DETERMINISM_ERROR", "FULFILLMENT_CANCELLED",
    "ALREADY_EVALUATED", "UNEVALUATED", "INVALID_TERM", "INVALID_METHOD", "INVALID_RESULT"]

/-- Whether a message begins with a code in brackets. -/
def IsCoded (message : String) : Prop :=
  ∃ code ∈ messageCodes, ("[" ++ code ++ "] ").toList <+: message.toList

instance (message : String) : Decidable (IsCoded message) :=
  inferInstanceAs
    (Decidable (∃ code ∈ messageCodes, ("[" ++ code ++ "] ").toList <+: message.toList))

theorem IsCoded.append {message : String} (coded : IsCoded message) (more : String) :
    IsCoded (message ++ more) := by
  rcases coded with ⟨code, known, begins⟩
  refine ⟨code, known, begins.trans ?_⟩
  rw [String.toList_append]
  exact List.prefix_append _ _

/-- A text that goes around a part begins with a code if it begins so before the part. -/
theorem IsCoded.around {opening : String} (coded : IsCoded opening) (part closing : String) :
    IsCoded (opening ++ part ++ closing) :=
  (coded.append part).append closing

/-- A text that starts with a code in brackets begins with a code. -/
theorem IsCoded.of_code (code : String) (known : code ∈ messageCodes) (more : String) :
    IsCoded ("[" ++ code ++ "] " ++ more) := by
  refine ⟨code, known, ?_⟩
  rw [String.toList_append (t := more)]
  exact List.prefix_append _ _

/-- The message about the use of a term or roll begins with a code. -/
theorem UseReason.isCoded_message (reason : UseReason) : IsCoded reason.message := by
  have evaluated := IsCoded.of_code "ALREADY_EVALUATED" (by decide)
  have term := IsCoded.of_code "INVALID_TERM" (by decide)
  have method := IsCoded.of_code "INVALID_METHOD" (by decide)
  cases reason with
  | termEvaluated formula => exact .around (evaluated "Term '") _ _
  | termNoLongerRolls formula => exact .around (evaluated "Term '") _ _
  | termNoLongerAlters formula => exact .around (evaluated "Cannot alter evaluated term '") _ _
  | rollEvaluated formula => exact .around (evaluated "Roll '") _ _
  | rollNoLongerAlters formula => exact .around (evaluated "Cannot alter evaluated roll '") _ _
  | unevaluated formula => exact .around (.of_code "UNEVALUATED" (by decide) "Roll '") _ _
  | wrongClass expected given => exact .around (.around (term "Cannot restore a ") _ _) _ _
  | notComputable formula failure => exact .around (.around (term "") _ _) _ _
  | referenceKind path => exact .around (term "Formula data '@") _ _
  | textInArithmetic formula => exact .around (term "Text cannot take part in arithmetic in '") _ _
  | divisionByZero formula => exact .around (term "Division by zero in '") _ _
  | noTerms => exact term "A roll needs at least one term."
  | notATerm shown => exact .around (term "") _ _
  | badMethodName name => exact .around (method "'") _ _
  | unknownMethod name known =>
    exact .around (.around (method "Unknown fulfillment method '") _ _) _ _
  | impossibleResult shown formula method =>
    exact .around (.around (.around (.of_code "INVALID_RESULT" (by decide) "") _ _) _ _) _ _

/-- Every message for the writer of a formula begins with a code. -/
theorem Fault.isCoded_message {fault : Fault} {message : String}
    (told : fault.message? = some message) : IsCoded message := by
  cases fault with
  | parse reason formula part position =>
    obtain rfl := Option.some.inj told
    exact .around (.around (.of_code "PARSE_ERROR" (by decide) "") _ _) _ _
  | modifier reason term command =>
    obtain rfl := Option.some.inj told
    have opening := IsCoded.of_code "MODIFIER_ERROR" (by decide) ""
    exact .around (.around (.around opening _ _) _ _) _ _
  | determinism reason term =>
    obtain rfl := Option.some.inj told
    exact .around (.around (.of_code "DETERMINISM_ERROR" (by decide) "") _ _) _ _
  | cancelled =>
    obtain rfl := Option.some.inj told
    exact .of_code "FULFILLMENT_CANCELLED" (by decide)
      "The roll resolver was closed before all dice were fulfilled."
  | use reason =>
    obtain rfl := Option.some.inj told
    exact reason.isCoded_message
  | _ => cases told

/-- A fault without a message is not told to the writer of a formula. -/
theorem Fault.of_untold {fault : Fault} {escapes : Prop} (untold : fault.message? = none)
    (concludes : fault.isAddressed = true ∨ escapes) : escapes := by
  rcases concludes with addressed | escapes
  · unfold isAddressed at addressed
    rw [untold] at addressed
    cases addressed
  · exact escapes

/-! ## What escapes -/

/-- Whether a term keeps to integers that can be multiplied with a share, whatever is in it. -/
def Term.IsWhole : Term → Prop
  | .numeric _ value => value.IsAmong false
  | .operator _ op => Arithmetic.IsExact op
  | .function _ fn _ => fn.KeepsIntegers
  | .dice d => d.HasModerateFaces
  | _ => True

/-- Whether a term asks for the greatest or the least of several arguments, if at all. -/
def Term.ComparesSeveral : Term → Prop
  | .function _ fn rolls => fn.arity = none → rolls.length ≠ 1
  | _ => True

/-- Whether everything in a roll keeps to integers. -/
def RollOf.IsWhole (roll : Roll) : Prop := RowThroughout Term.IsWhole (fun _ => True) roll.terms

/-- Whether nothing in a roll asks for the greatest or the least of a single argument. -/
def RollOf.ComparesSeveral (roll : Roll) : Prop :=
  RowThroughout Term.ComparesSeveral (fun _ => True) roll.terms

/-- The faults that nobody is told about, each with what in the formula makes for it. -/
inductive Escapes (setup : Setup) (formula : String) (ledger : Ledger) : Fault → Prop
  | mark {c : Char} (inside : c ∈ formula.toList) (like : Text.isDigitLike c = true)
    (not : Text.isDigit c = false) : Escapes setup formula ledger .notADigit
  | single {roll : Roll} {made : Ledger}
    (built : Build.ofFormula setup { formula := formula } ledger = .ok (roll, made))
    (compares : ¬roll.ComparesSeveral) : Escapes setup formula ledger .wrongKind
  | range {roll : Roll} {made : Ledger} (failure : NumberFault)
    (built : Build.ofFormula setup { formula := formula } ledger = .ok (roll, made))
    (fractional : ¬roll.IsWhole) : Escapes setup formula ledger (.number failure)

section

variable {setup : Setup} {made : Ledger} {decimals single : Bool}

/-- A term of a roll that was made is tame if it keeps to what is not allowed otherwise. -/
theorem Term.IsRestorable.isTame {term : Term} (restorable : term.IsRestorable setup made)
    (whole : decimals = false → term.IsWhole) (several : single = false → term.ComparesSeveral) :
    term.IsTame setup.methods made decimals single := by
  have sound := restorable.sound
  cases term with
  | numeric tag value =>
    cases decimals with
    | false => exact whole rfl
    | true =>
      rcases sound with ⟨n, rfl⟩
      refine ⟨n, rfl, ?_⟩
      cases n with
      | int _ => trivial
      | real _ => rfl
  | operator tag op => exact whole
  | function tag fn rolls => exact ⟨sound, whole, several⟩
  | dice d =>
    rcases restorable.method d rfl with ⟨name, known, found, method⟩
    refine ⟨sound, ⟨known, ?_⟩, whole⟩
    rw [method]
    exact found
  | pool p => exact sound
  | text tag word => trivial
  | group tag roll => trivial

/-- A condition that something asks for holds throughout if it holds when it is asked for. -/
theorem RowThroughout.unless {P : Term → Prop} {terms : List Term} {first stop : Nat}
    (spans : RowSpans terms first stop) {allowed : Bool}
    (holds : allowed = false → RowThroughout P (fun _ => True) terms) :
    RowThroughout (fun term => allowed = false → P term) (fun _ => True) terms := by
  cases allowed with
  | false => exact (holds rfl).imp spans (fun _ _ _ here _ => here) fun _ _ _ _ => trivial
  | true => exact (rowThroughout_true terms).imp spans (fun _ _ _ _ => nofun) fun _ _ _ _ => trivial

/-- The terms of a roll that was made are tame. -/
theorem RollOf.IsMade.tame {first : Nat} {roll : Roll} (isMade : roll.IsMade setup first made)
    (whole : decimals = false → roll.IsWhole) (several : single = false → roll.ComparesSeveral) :
    RowThroughout (Term.IsTame setup.methods made decimals single) RollOf.IsSound roll.terms := by
  have row := isMade.spans.1
  have asked := (RowThroughout.unless row whole).and (RowThroughout.unless row several)
  exact (isMade.row.and asked).imp row
    (fun _ _ _ ⟨restorable, whole, several⟩ => restorable.isTame whole several)
    fun _ _ _ ⟨sound, _⟩ => sound

end

/-- Whether nothing is left to wait for, and the uniform values are in range. -/
structure Surroundings.ArePrompt (surroundings : Surroundings) (settings : Settings) : Prop where
  valid : surroundings.setup.settings = .ok settings
  synchronous : surroundings.synchronous = true
  range : ∀ k, 0 ≤ surroundings.uniform k ∧ surroundings.uniform k < 1

section

variable {surroundings : Surroundings} {settings : Settings} {options : Options}

/-- A roll that was made is settled when it is rolled, or the fault is told to the writer of its
formula, or something in the roll allows for another fault. -/
theorem RollOf.IsMade.settles (prompt : surroundings.ArePrompt settings)
    (wordless : options.allowStrings = false) {first : Nat} {roll : Roll} {progress : Progress}
    (isMade : roll.IsMade surroundings.setup first progress.ledger) :
    Yields (fun fault => fault.isAddressed = true ∨
        (∃ failure, fault = .number failure) ∧ ¬roll.IsWhole ∨
        fault = .wrongKind ∧ ¬roll.ComparesSeveral)
      (fun _ => roll.Settled (roll.run options surroundings progress).2.ledger)
      (roll.run options surroundings progress).1 := by
  have found := options.forRoll_of_settings prompt.valid
  let context := options.contextWith surroundings (options.lenient.getD settings.lenientModifiers)
    (options.maxChainRolls.getD settings.maxChainRolls)
  have calm : context.IsPrompt := ⟨prompt.synchronous, wordless, prompt.range⟩
  have intact : progress.ledger.IsIntact first progress.ledger.next progress.ledger :=
    ⟨isMade.fresh, Ledger.SameOn.refl progress.ledger, Nat.le_refl _⟩
  -- what the roll allows for
  have answers (condition : Prop) : ∃ answer : Bool, answer = true ↔ condition := by
    classical exact ⟨decide condition, decide_eq_true_iff⟩
  rcases answers (¬roll.IsWhole) with ⟨decimals, fractional⟩
  rcases answers (¬roll.ComparesSeveral) with ⟨single, compares⟩
  have unasked {answer : Bool} {condition : Prop} (is : answer = true ↔ ¬condition)
      (none : answer = false) : condition := by
    rw [none] at is
    exact Classical.not_not.1 fun not => absurd (is.2 not) Bool.false_ne_true
  have tame : RowThroughout (Term.IsTame context.methods progress.ledger decimals single)
      RollOf.IsSound roll.terms := isMade.tame (unasked fractional) (unasked compares)
  rcases Context.evaluateRoll_fares calm isMade.spans isMade.sound tame intact with
    ⟨result, last, evaluated, fares⟩
  have run := RollOf.run_of_forRoll prompt.synchronous found roll progress
  rw [evaluated] at run
  rw [run]
  cases result with
  | ok _ =>
    have stands : Context.Stands (fun _ => False) first progress.ledger.next progress :=
      ⟨fun _ _ _ none => none, intact.waits⟩
    have settles := context.evaluateRoll_settles isMade.spans isMade.sound
      (isMade.row.imp isMade.spans.1 (fun _ _ _ _ => trivial) fun _ _ _ sound => sound) stands
    rw [evaluated] at settles
    exact settles
  | error fault =>
    cases fault with
    | number failure => exact .inr (.inl ⟨⟨failure, rfl⟩, fractional.1 fares⟩)
    | wrongKind => exact .inr (.inr ⟨rfl, compares.1 fares⟩)
    | _ => exact .inl fares

end

namespace Service

variable {surroundings : Surroundings} {settings : Settings} {options : Options}

/-- A roll is rolled, or the fault is told to the writer of its formula, or it escapes. -/
theorem yields_roll (prompt : surroundings.ArePrompt settings)
    (wordless : options.allowStrings = false) (formula : String) (progress : Progress) :
    Yields (fun fault =>
        fault.isAddressed = true ∨ Escapes surroundings.setup formula progress.ledger fault)
      (fun rolled =>
        rolled.Settled (roll options surroundings formula progress).2.ledger ∧
          RowThroughout Term.IsSound (fun _ => True) rolled.terms)
      (roll options surroundings formula progress).1 := by
  unfold roll
  cases built : Build.ofFormula surroundings.setup { formula := formula } progress.ledger with
  | error fault =>
    rcases Build.blames_of_ofFormula prompt.valid built with told | ⟨rfl, c, inside, like, not⟩
    · exact .inl told
    · exact .inr (.mark inside like not)
  | ok pair =>
    rcases pair with ⟨rolled, made⟩
    have isMade := Build.ofFormula_isMade built
    have sound : RowThroughout Term.IsSound (fun _ => True) rolled.terms :=
      isMade.row.imp isMade.spans.1 (fun _ _ _ restorable => restorable.sound)
        fun _ _ _ _ => trivial
    have settles := @RollOf.IsMade.settles surroundings settings options prompt wordless _ rolled
      { progress with ledger := made } isMade
    dsimp only
    cases ran : rolled.run options surroundings { progress with ledger := made } with
    | mk result last =>
      rw [ran] at settles
      cases result with
      | ok _ => exact ⟨settles, sound⟩
      | error fault =>
        rcases settles with told | ⟨⟨failure, rfl⟩, fractional⟩ | ⟨rfl, compares⟩
        · exact .inl told
        · exact .inr (.range failure built fractional)
        · exact .inr (.single built compares)

/-- What checking comes to is told by a roll with the lowest faces. -/
theorem judge_eq (setup : Setup) (formula : String) :
    judge setup formula =
      match (roll checking (quiet setup) formula (.ofLedger .empty)).1 with
      | .ok checked => .ok ⟨checked.formula, none⟩
      | .error fault =>
        match fault.message? with
        | some message => .ok ⟨formula, some message⟩
        | none => .error fault := by
  unfold judge check
  cases roll checking (quiet setup) formula (.ofLedger .empty) with
  | mk result later =>
    cases result with
    | ok checked => rfl
    | error fault => rfl

/-- Nothing is left to wait for while a formula is checked. -/
theorem quiet_arePrompt {setup : Setup} (valid : setup.settings = .ok settings) :
    (quiet setup).ArePrompt settings where
  valid := valid
  synchronous := rfl
  range _ := (by decide : (0 : Float) ≤ 0.0 ∧ (0.0 : Float) < 1)

/-- Checking a formula gives a verdict, with a coded message if it is refused, or the fault
escapes. -/
theorem judge_concludes {setup : Setup} (valid : setup.settings = .ok settings)
    (formula : String) :
    Yields (Escapes setup formula .empty)
      (fun verdict => ∀ message, verdict.refusal = some message → IsCoded message)
      (judge setup formula) := by
  have concludes := @yields_roll _ _ checking (quiet_arePrompt valid) rfl formula
    (.ofLedger .empty)
  rw [judge_eq]
  cases ran : (roll checking (quiet setup) formula (.ofLedger .empty)).1 with
  | ok checked => exact nofun
  | error fault =>
    rw [ran] at concludes
    dsimp only
    cases told : fault.message? with
    | some message =>
      intro same is
      obtain rfl := Option.some.inj is
      exact Fault.isCoded_message told
    | none => exact Fault.of_untold told concludes

/-- A settled roll has a record. -/
theorem auditRecord_ok {ledger : Ledger} {rolled : Roll} (settled : rolled.Settled ledger)
    (sound : RowThroughout Term.IsSound (fun _ => True) rolled.terms) (input source : String) :
    ∃ fields, auditRecord ledger rolled input source = .ok (.object fields) := by
  rcases Ledger.result_ok settled with ⟨text, written⟩
  rcases Ledger.explanation_ok settled sound with ⟨more, explained⟩
  unfold auditRecord
  rw [written, explained]
  exact ⟨_, rfl⟩

section

variable {formula : String} {minimize maximize : Bool} {progress : Progress}

/-- A request is answered with a record if the formula is rolled. -/
theorem request_of_ok (prompt : surroundings.ArePrompt settings)
    (choice : (minimize && maximize) = false) {rolled : Roll}
    (ran : (roll { strict := false, minimize := minimize, maximize := maximize } surroundings
      formula progress).1 = .ok rolled) :
    ∃ fields, (request surroundings formula minimize maximize progress).1 =
      .ok (.object fields) := by
  have concludes := @yields_roll _ _
    { strict := false, minimize := minimize, maximize := maximize } prompt rfl formula progress
  rw [ran] at concludes
  rcases auditRecord_ok concludes.1 concludes.2 formula (sourceName minimize maximize) with
    ⟨fields, recorded⟩
  refine ⟨fields, ?_⟩
  unfold request
  rw [if_neg (Bool.eq_false_iff.1 choice)]
  unfold audit
  dsimp only
  cases all : roll { strict := false, minimize := minimize, maximize := maximize } surroundings
      formula progress with
  | mk result later =>
    rw [all] at ran recorded
    obtain rfl : result = .ok rolled := ran
    dsimp only at recorded ⊢
    rw [recorded]

/-- A request is refused, with the message of the fault if it has one, if the formula is not
rolled. -/
theorem request_of_error (choice : (minimize && maximize) = false) {fault : Fault}
    (ran : (roll { strict := false, minimize := minimize, maximize := maximize } surroundings
      formula progress).1 = .error fault) :
    (request surroundings formula minimize maximize progress).1 =
      .error (match fault.message? with
        | some message => .explained message
        | none => .fault fault) := by
  unfold request
  rw [if_neg (Bool.eq_false_iff.1 choice)]
  unfold audit
  dsimp only
  cases all : roll { strict := false, minimize := minimize, maximize := maximize } surroundings
      formula progress with
  | mk result later =>
    rw [all] at ran
    obtain rfl : result = .error fault := ran
    dsimp only
    cases fault.message? with
    | some message => rfl
    | none => rfl

end

/-- A roll with its record is given, or refused with a coded message, or the fault escapes. -/
def Answers (escapes : Fault → Prop) : Except Refusal Json → Prop
  | .ok record => ∃ fields, record = .object fields
  | .error (.explained message) => IsCoded message
  | .error (.fault fault) => escapes fault

theorem request_concludes (prompt : surroundings.ArePrompt settings) (formula : String)
    {minimize maximize : Bool} (choice : (minimize && maximize) = false) (progress : Progress) :
    Answers (Escapes surroundings.setup formula progress.ledger)
      (request surroundings formula minimize maximize progress).1 := by
  have concludes := @yields_roll _ _
    { strict := false, minimize := minimize, maximize := maximize } prompt rfl formula progress
  cases ran : (roll { strict := false, minimize := minimize, maximize := maximize } surroundings
      formula progress).1 with
  | ok rolled =>
    rcases request_of_ok prompt choice ran with ⟨fields, answered⟩
    rw [answered]
    exact ⟨fields, rfl⟩
  | error fault =>
    rw [request_of_error choice ran]
    rw [ran] at concludes
    cases told : fault.message? with
    | some message => exact Fault.isCoded_message told
    | none => exact Fault.of_untold told concludes

/-- A formula with dice that are kept or dropped, and with the greatest of two arguments. -/
def keptAndCompared : String := "4d6kh3 + max(1d4, 2)"

/-- The check of the greatest of a single argument ends with a fault. -/
theorem judge_of_singleArgument :
    (judge Build.usual "max(1)" matches .error .wrongKind) = true := by
  decide +kernel

/-- A raised two counts as a digit, but no number begins with it. -/
example : (judge Build.usual "1 + \u00b2" matches .error .notADigit) = true := by decide +kernel

end Service
end DiceNotation
