import DiceNotation.Proofs.Dice.Commands
import DiceNotation.Proofs.Roll.TermRows
import DiceNotation.Proofs.Roll.Throughout

namespace DiceNotation

/-!
# What was built from clauses

Terms that were built from the clauses of a formula are new: their identities are
those that building took from the ledger, and nothing has happened to them yet.
They are also sound, which is what restoring their records will check again:
operands and operators alternate in every row, functions have as many arguments as
they take, amounts of dice are in range, and modifiers are texts that count as set.
Every die has the method that the settings name for it.
-/

namespace Ledger

/-- A ledger was extended by identities to which nothing has happened yet. -/
structure Grown (before after : Ledger) : Prop where
  extended : Extends before after
  fresh : FreshOn after before.next after.next

variable {ledger other third : Ledger}

theorem Grown.refl (ledger : Ledger) : Grown ledger ledger := ⟨Extends.refl ledger, FreshOn.nil ledger⟩

theorem Grown.allot (ledger : Ledger) : Grown ledger ledger.allot :=
  ⟨Extends.allot ledger, FreshOn.allot ledger⟩

theorem Grown.trans (grown : Grown ledger other) (further : Grown other third) :
    Grown ledger third where
  extended := grown.extended.trans further.extended
  fresh := by
    have kept : FreshOn third ledger.next other.next :=
      grown.fresh.of_same (further.extended.same.mono (Nat.zero_le _) (Nat.le_refl _))
    exact kept.append further.fresh

theorem Grown.next_le (grown : Grown ledger other) : ledger.next ≤ other.next :=
  grown.extended.next_le

theorem Grown.withPool (ledger : Ledger) : Grown ledger (Build.withPool ledger []) where
  extended := (Extends.allot ledger).updateTerm (Nat.le_refl _) _
  fresh := by
    intro id from_ below
    obtain rfl : ledger.next = id := Nat.le_antisymm from_ (Nat.le_of_lt_succ below)
    unfold Build.withPool
    rw [term_updateTerm, if_pos rfl, roll_updateTerm, roll_allot, if_pos rfl, term_allot, if_pos rfl]
    exact ⟨rfl, rfl⟩

theorem Grown.withDice (ledger : Ledger) (method : Json) :
    Grown ledger (Build.withDice ledger [] method) where
  extended := (Extends.allot ledger).updateTerm (Nat.le_refl _) _
  fresh := by
    intro id from_ below
    obtain rfl : ledger.next = id := Nat.le_antisymm from_ (Nat.le_of_lt_succ below)
    unfold Build.withDice
    rw [term_updateTerm, if_pos rfl, roll_updateTerm, roll_allot, if_pos rfl, term_allot, if_pos rfl]
    exact ⟨rfl, rfl⟩

theorem term_withDice (ledger : Ledger) (outcomes : List Outcome) (method : Json) :
    (Build.withDice ledger outcomes method).term ledger.next =
      { outcomes := outcomes, method := method } := by
  unfold Build.withDice
  rw [term_updateTerm, if_pos rfl, term_allot, if_pos rfl]
  rfl

end Ledger

/-! ## Soundness -/

/-- Whether modifiers are texts that count as set. -/
def AreModifiers (modifiers : List Json) : Prop :=
  ∀ modifier ∈ modifiers, ∃ text, modifier = .string text ∧ text ≠ ""

/-- Whether an amount is computed, or known and not below a bound. -/
def Operand.AtLeast (least : Int) : Operand Term → Prop
  | .known n => least ≤ n
  | .computed _ => True

/-- Whether an amount is known, or computed by a bracketed roll. -/
def Operand.IsBracketed : Operand Term → Prop
  | .known _ => True
  | .computed term => ∃ tag roll, term = .group tag roll

/-- Whether dice have amounts in range, the faces of their kind, and modifiers. -/
structure DiceOf.IsSound (dice : Dice) : Prop where
  number : dice.number.AtLeast 0
  numberBracketed : dice.number.IsBracketed
  faces : dice.faces.AtLeast 1
  facesBracketed : dice.faces.IsBracketed
  fixed : ∀ count, dice.kind.fixedFaces? = some count → dice.faces = .known count
  numbered : dice.kind.fixedFaces? = none → dice.kind = .numbered
  modifiers : AreModifiers dice.modifiers

/-- Whether a single term is sound, whatever is inside it. -/
def Term.IsSound : Term → Prop
  | .numeric _ value => ∃ n, value = .number n
  | .text _ word => ∃ text, word = .string text
  | .function _ fn rolls => fn.takes rolls.length = true
  | .dice d => d.IsSound
  | .pool p => AreModifiers p.modifiers
  | _ => True

theorem AreModifiers.areTexts {modifiers : List Json} (are : AreModifiers modifiers) :
    modifiers.all Json.isText = true := by
  refine List.all_eq_true.2 fun modifier member => ?_
  rcases are modifier member with ⟨text, rfl, _⟩
  rfl

/-- Sound dice have a formula. -/
theorem DiceOf.IsSound.hasFormula {dice : Dice} (sound : dice.IsSound) :
    (Term.dice dice).hasFormula = true := by
  have shown {amount : Operand Term} (bracketed : amount.IsBracketed) :
      Term.hasFormula.amountHasFormula amount = true := by
    cases amount with
    | known n => rfl
    | computed term =>
      rcases bracketed with ⟨tag, roll, rfl⟩
      rfl
  unfold Term.hasFormula
  rw [shown sound.numberBracketed, shown sound.facesBracketed, sound.modifiers.areTexts,
    Bool.or_true]
  rfl

/-- Whether dice have the method that the settings name for them, and it is known. -/
def Term.HasDefaultMethod (setup : Setup) (ledger : Ledger) (term : Term) : Prop :=
  ∀ dice, term = .dice dice → ∃ name known,
    DiceInput.defaultMethod setup dice.kind dice.faces = .ok name ∧
    setup.methods.get name = .ok known ∧ (ledger.term dice.tag.id).method = .string name

/-- A term as it was built. -/
def Term.IsBuilt (setup : Setup) (ledger : Ledger) (term : Term) : Prop :=
  term.IsSound ∧ term.HasDefaultMethod setup ledger

/-- To be as built depends on the ledger at the identity of the term only. -/
theorem Term.IsBuilt.of_same {setup : Setup} {ledger other : Ledger} {term : Term}
    (built : term.IsBuilt setup ledger) (same : Ledger.SameAt ledger other term.id) :
    term.IsBuilt setup other := by
  refine ⟨built.1, fun dice is => ?_⟩
  obtain ⟨name, known, default, found, method⟩ := built.2 dice is
  subst is
  have kept : ledger.term dice.tag.id = other.term dice.tag.id := same.term
  exact ⟨name, known, default, found, by rw [← kept, method]⟩

/-! ## Modifiers and functions -/

namespace Command

theorem areModifiers_splitText (text : String) :
    AreModifiers ((splitText text).map Json.string) := by
  intro modifier member
  obtain ⟨command, inside, rfl⟩ := List.mem_map.1 member
  obtain ⟨characters, cut, rfl⟩ := List.mem_map.1 inside
  refine ⟨_, rfl, fun empty => ne_nil_of_mem_split cut ?_⟩
  have characters := congrArg String.toList empty
  rwa [String.toList_ofList] at characters

end Command

theorem Function.takes_of_select {name : String} {count : Nat} {fn : Function}
    (selected : Function.select (.string name) count = .ok fn) : fn.takes count = true := by
  simp only [Function.select] at selected
  split at selected
  · cases selected
  · split at selected
    · cases selected
      assumption
    · cases selected

theorem Function.name_of_select {name : String} {count : Nat} {fn : Function}
    (selected : Function.select (.string name) count = .ok fn) : fn.name = name := by
  simp only [Function.select] at selected
  split at selected
  · cases selected
  · rename_i fn found
    split at selected
    · cases selected
      have found : Function.all.find? (·.name == name) = some fn := found
      have called := List.find?_some found
      exact beq_iff_eq.1 called
    · cases selected

/-- Dice that a letter stands for have fixed faces. -/
theorem DieKind.fixed_of_ofLetter? {code : String} {kind : DieKind}
    (named : DieKind.ofLetter? code = some kind) : ∃ count, kind.fixedFaces? = some count := by
  cases kind with
  | coin => exact ⟨2, rfl⟩
  | fate => exact ⟨3, rfl⟩
  | _ =>
    unfold DieKind.ofLetter? at named
    split at named
    · cases named
    · split at named <;> cases named

/-! ## Amounts of dice -/

namespace AmountInput

/-- What holds of an amount that was built: it is a number, or a bracketed roll whose
identities are those of a range and all of whose parts satisfy two conditions. -/
def Holds (P : Term → Prop) (Q : Roll → Prop) (first stop : Nat) : AmountInput → Prop
  | .data value => (∃ n : Nat, value = .ofNat n) ∧ stop = first
  | .term inner =>
    inner.Spans first stop ∧ inner.Throughout P Q ∧ ∃ tag roll, inner = .group tag roll
  | .roll _ => False

theorem check_number_eq_ok {what : DiceAmount} {least n : Nat} {operand : Operand Term}
    (checked : (data (.ofNat n)).check what least = .ok operand) :
    least ≤ n ∧ operand = .known n := by
  change (if (n : Int) < (least : Int) then _ else _) = _ at checked
  split at checked
  · cases checked
  · cases checked
    exact ⟨by omega, rfl⟩

/-- An amount that was built and checked. -/
theorem Holds.check {P : Term → Prop} {Q : Roll → Prop} {first stop : Nat} {given : AmountInput}
    (holds : given.Holds P Q first stop) {what : DiceAmount} {least : Nat}
    {operand : Operand Term} (checked : given.check what least = .ok operand) :
    AmountSpans operand first stop ∧ AmountThroughout P Q operand ∧ operand.AtLeast least ∧
      operand.IsBracketed := by
  cases given with
  | data value =>
    obtain ⟨⟨n, rfl⟩, ended⟩ := holds
    obtain ⟨enough, rfl⟩ := check_number_eq_ok checked
    exact ⟨ended, trivial, Int.ofNat_le.2 enough, trivial⟩
  | term inner =>
    cases checked
    exact ⟨holds.1, holds.2.1, trivial, holds.2.2⟩
  | roll inner => exact absurd holds id

theorem Holds.imp {P P' : Term → Prop} {Q Q' : Roll → Prop} {first stop : Nat}
    {given : AmountInput} (holds : given.Holds P Q first stop)
    (ofTerm : ∀ inner : Term, first ≤ inner.id → inner.id < stop → P inner → P' inner)
    (ofRoll : ∀ roll : Roll, first ≤ roll.id → roll.id < stop → Q roll → Q' roll) :
    given.Holds P' Q' first stop := by
  cases given with
  | data value => exact holds
  | term inner => exact ⟨holds.1, Term.Throughout.imp holds.1 ofTerm ofRoll holds.2.1, holds.2.2⟩
  | roll inner => exact absurd holds id

end AmountInput

/-- The method of new dice is the one that the settings name. -/
theorem DiceInput.Accepts.default {setup : Setup} {input : DiceInput} {number faces : Operand Term}
    {modifiers : List Json} {outcomes : List Outcome} {method : Json}
    (accepts : input.Accepts setup number faces modifiers outcomes method)
    (none : input.method = .null) : ∃ name known,
      DiceInput.defaultMethod setup input.kind faces = .ok name ∧
      setup.methods.get name = .ok known ∧ method = .string name := by
  have chosen := accepts.method_chosen
  obtain ⟨known, named⟩ := accepts.method_known
  unfold DiceInput.chooseMethod at chosen
  rw [none, if_neg (by decide)] at chosen
  cases default : DiceInput.defaultMethod setup input.kind faces with
  | error fault =>
    rw [default] at chosen
    cases chosen
  | ok name =>
    rw [default] at chosen
    cases chosen
    exact ⟨name, known, rfl, named, rfl⟩

/-! ## Rolls around new terms -/

namespace Build

variable {setup : Setup}

theorem ne_nil_of_checkRow {terms : List Term} (checked : checkRow terms = .ok ()) :
    terms ≠ [] := by
  rintro rfl
  cases checked

/-- A row of terms that wait is not evaluated. -/
theorem unevaluated_of_waits {terms : List Term} {ledger : Ledger} {first stop : Nat}
    (waits : ledger.Waits first stop) (spans : RowSpans terms first stop) (some : terms ≠ []) :
    terms.all ledger.isEvaluated = false := by
  cases terms with
  | nil => exact absurd rfl some
  | cons term rest =>
    obtain ⟨middle, here, later⟩ := spans
    have below := Nat.lt_of_lt_of_le here.id_lt (rowSpans_le later)
    rw [List.all_cons, waits.isEvaluated here.first_le below]
    rfl

/-- A roll around new terms comes right behind them. -/
theorem roll_of_fresh {options data : Fields} {terms : List Term} {before ledger last : Ledger}
    {roll : Roll} (grown : Ledger.Grown before ledger)
    (spans : RowSpans terms before.next ledger.next)
    (built : Build.roll options data terms ledger = .ok (roll, last)) :
    roll = { id := ledger.next, options := options, data := data, terms := terms } ∧
      last = ledger.allot ∧ checkRow terms = .ok () := by
  obtain ⟨checked, around⟩ := roll_eq_ok.1 built
  have unevaluated := unevaluated_of_waits (.of_fresh grown.fresh (Nat.le_refl _)) spans
    (ne_nil_of_checkRow checked)
  rw [ofRow_of_unevaluated _ _ unevaluated] at around
  cases around
  exact ⟨rfl, rfl, checked⟩

/-- A roll can be made around new terms that make a row. -/
theorem roll_builds {terms : List Term} {before ledger : Ledger}
    (grown : Ledger.Grown before ledger) (spans : RowSpans terms before.next ledger.next)
    (checked : checkRow terms = .ok ()) (options data : Fields) :
    Build.roll options data terms ledger = .ok
      ({ id := ledger.next, options := options, data := data, terms := terms }, ledger.allot) := by
  have unevaluated := unevaluated_of_waits (.of_fresh grown.fresh (Nat.le_refl _)) spans
    (ne_nil_of_checkRow checked)
  exact roll_eq_ok.2 ⟨checked, ofRow_of_unevaluated _ _ unevaluated⟩

/-- The conditions under which a row was built. -/
abbrev RowBuilt (setup : Setup) (ledger : Ledger) (terms : List Term) : Prop :=
  RowThroughout (Term.IsBuilt setup ledger) RollOf.IsSound terms

/-- What was built stays as it was built when more is built. -/
theorem rowBuilt_extend {terms : List Term} {first : Nat} {ledger other : Ledger}
    (built : RowBuilt setup ledger terms) (spans : RowSpans terms first ledger.next)
    (grown : Ledger.Grown ledger other) : RowBuilt setup other terms :=
  built.imp spans
    (fun inner _ below holds => holds.of_same (grown.extended.same inner.id (Nat.zero_le _) below))
    (fun _ _ _ holds => holds)

/-- The faces of dice of a kind with fixed faces are these. -/
theorem checkFaces_of_fixed {input : DiceInput} {count : Nat}
    (fixed : input.kind.fixedFaces? = some count) {given : AmountInput}
    (checked : input.checkFaces = .ok given) : given = .data (.ofNat count) := by
  unfold DiceInput.checkFaces at checked
  rw [fixed] at checked
  simp only at checked
  split at checked
  · cases checked
    rfl
  · cases checked

/-- The faces of other dice are the ones that are given. -/
theorem checkFaces_of_not_fixed {input : DiceInput} (free : input.kind.fixedFaces? = none)
    {given : AmountInput} (checked : input.checkFaces = .ok given) : given = input.faces := by
  unfold DiceInput.checkFaces at checked
  rw [free] at checked
  simp only at checked
  split at checked
  · cases checked
  · cases checked
    rfl

/-- Dice whose amounts were built, from the input that a clause gives. -/
theorem dice_built {input : DiceInput} {before middle ledger last : Ledger} {dice : Dice}
    {modifiers : String} (numberGrown : Ledger.Grown before middle)
    (facesGrown : Ledger.Grown middle ledger)
    (number : input.number.Holds (Term.IsBuilt setup middle) RollOf.IsSound before.next middle.next)
    (faces : ∀ given, input.checkFaces = .ok given →
      given.Holds (Term.IsBuilt setup ledger) RollOf.IsSound middle.next ledger.next)
    (numbered : input.kind.fixedFaces? = none → input.kind = .numbered)
    (text : input.modifiers = .string modifiers) (noResults : input.results = .null)
    (noMethod : input.method = .null)
    (built : DiceInput.build setup input ledger = .ok (dice, last)) :
    Ledger.Grown before last ∧ (Term.dice dice).Spans before.next last.next ∧
      (Term.dice dice).Throughout (Term.IsBuilt setup last) RollOf.IsSound := by
  obtain ⟨count, sides, commands, outcomes, method, accepts, rfl, rfl⟩ := dice_eq_ok.1 built
  obtain ⟨given, checked, sided⟩ := accepts.faces_checked
  have none : outcomes = [] := by
    have restored := accepts.outcomes_restored
    rw [noResults] at restored
    cases restored
    rfl
  subst none
  have grown : Ledger.Grown ledger (withDice ledger [] method) := Ledger.Grown.withDice ledger method
  -- the amounts stay what they were when more is built
  have number' : input.number.Holds (Term.IsBuilt setup (withDice ledger [] method))
      RollOf.IsSound before.next middle.next :=
    number.imp (fun inner _ below holds => holds.of_same
      ((facesGrown.trans grown).extended.same inner.id (Nat.zero_le _) below))
      (fun _ _ _ holds => holds)
  have faces' : given.Holds (Term.IsBuilt setup (withDice ledger [] method))
      RollOf.IsSound middle.next ledger.next :=
    (faces given checked).imp (fun inner _ below holds => holds.of_same
      (grown.extended.same inner.id (Nat.zero_le _) below)) (fun _ _ _ holds => holds)
  obtain ⟨numberSpans, numberBuilt, numberBound, numberBracketed⟩ :=
    number'.check accepts.number_checked
  obtain ⟨facesSpan, facesBuilt, facesBound, facesBracketed⟩ := faces'.check sided
  obtain ⟨name, known, default, found, same⟩ := accepts.default noMethod
  refine ⟨(numberGrown.trans facesGrown).trans grown, ⟨⟨_, numberSpans, facesSpan⟩, rfl⟩, ?_,
    numberBuilt, facesBuilt⟩
  constructor
  · constructor
    · exact numberBound
    · exact numberBracketed
    · exact facesBound
    · exact facesBracketed
    · intro fixedCount fixed
      rw [checkFaces_of_fixed fixed checked] at sided
      exact (AmountInput.check_number_eq_ok sided).2
    · exact numbered
    · have cut := accepts.modifiers_cut
      rw [text] at cut
      cases cut
      exact Command.areModifiers_splitText modifiers
  · intro dice is
    cases is
    refine ⟨name, known, default, found, ?_⟩
    change ((withDice ledger [] method).term ledger.next).method = _
    rw [Ledger.term_withDice]
    exact same

mutual

/-- The term of a clause. -/
theorem clause_built : (part : Clause) → {ledger last : Ledger} → {term : Term} →
    clause setup part ledger = .ok (term, last) →
    Ledger.Grown ledger last ∧ term.Spans ledger.next last.next ∧
      term.Throughout (Term.IsBuilt setup last) RollOf.IsSound
  | .numeric value flavor _, ledger, last, term, built => by
    obtain ⟨rfl, rfl⟩ := numeric_eq_ok.1 built
    refine ⟨Ledger.Grown.allot ledger, ⟨rfl, rfl⟩, ⟨value, rfl⟩, ?_⟩
    intro dice is
    cases is
  | .text text flavor _, ledger, last, term, built => by
    obtain ⟨rfl, rfl⟩ := word_eq_ok.1 built
    refine ⟨Ledger.Grown.allot ledger, ⟨rfl, rfl⟩, ⟨text, rfl⟩, ?_⟩
    intro dice is
    cases is
  | .group inner flavor raw, ledger, last, term, built => by
    obtain ⟨row, middle, roll, later, inside, around, rfl, rfl⟩ := group_eq_ok.1 built
    obtain ⟨grown, spans, parts⟩ := terms_built inner inside
    obtain ⟨rfl, rfl, checked⟩ := roll_of_fresh grown spans around
    have rest := (Ledger.Grown.allot middle).trans (Ledger.Grown.allot middle.allot)
    refine ⟨grown.trans rest, ⟨spans, rfl, rfl⟩, ⟨trivial, ?_⟩,
      isSound_of_terms inside checked rfl, rowBuilt_extend parts spans rest⟩
    intro dice is
    cases is
  | .function name arguments flavor raw, ledger, last, term, built => by
    obtain ⟨rolls, middle, fn, inside, selected, rfl, rfl⟩ := clauseFunction_eq_ok.1 built
    obtain ⟨grown, spans, parts⟩ := rolls_built arguments inside
    have rest := Ledger.Grown.allot middle
    refine ⟨grown.trans rest, ⟨spans, rfl⟩, ⟨Function.takes_of_select selected, ?_⟩,
      parts.imp spans (fun inner _ below holds => holds.of_same
        (rest.extended.same inner.id (Nat.zero_le _) below)) (fun _ _ _ holds => holds)⟩
    intro dice is
    cases is
  | .pool members modifiers flavor raw, ledger, last, term, built => by
    obtain ⟨rolls, middle, inside, rfl, rfl⟩ := clausePool_eq_ok.1 built
    obtain ⟨grown, spans, parts⟩ := rolls_built members inside
    have rest := Ledger.Grown.withPool middle
    refine ⟨grown.trans rest, ⟨spans, rfl⟩, ⟨Command.areModifiers_splitText modifiers, ?_⟩,
      parts.imp spans (fun inner _ below holds => holds.of_same
        (rest.extended.same inner.id (Nat.zero_le _) below)) (fun _ _ _ holds => holds)⟩
    intro dice is
    cases is
  | .dice number (.letter code) modifiers flavor raw, ledger, last, term, built => by
    obtain ⟨given, middle, first, dice⟩ := clauseDice_eq_ok.1 built
    obtain ⟨kind, made, named, rolled, rfl⟩ := diceLetter_eq_ok.1 dice
    obtain ⟨grown, holds⟩ := amount_built number first
    obtain ⟨count, fixed⟩ := DieKind.fixed_of_ofLetter? named
    refine dice_built grown (Ledger.Grown.refl middle) holds ?_ ?_ rfl rfl rfl rolled
    · intro sides checked
      obtain rfl := checkFaces_of_fixed fixed checked
      exact ⟨⟨count, rfl⟩, rfl⟩
    · intro free
      change kind.fixedFaces? = none at free
      rw [fixed] at free
      cases free
  | .dice number (.amount faces) modifiers flavor raw, ledger, last, term, built => by
    obtain ⟨given, middle, first, dice⟩ := clauseDice_eq_ok.1 built
    obtain ⟨sides, later, made, second, rolled, rfl⟩ := diceAmount_eq_ok.1 dice
    obtain ⟨grown, holds⟩ := amount_built number first
    obtain ⟨grownMore, holdsMore⟩ := amount_built faces second
    refine dice_built grown grownMore holds ?_ (fun _ => rfl) rfl rfl rfl rolled
    intro found checked
    obtain rfl : found = sides := checkFaces_of_not_fixed rfl checked
    exact holdsMore

/-- The terms of a tree. -/
theorem terms_built : (tree : Tree Clause) → {ledger last : Ledger} → {row : List Term} →
    terms setup tree ledger = .ok (row, last) →
    Ledger.Grown ledger last ∧ RowSpans row ledger.next last.next ∧ RowBuilt setup last row
  | .leaf part, ledger, last, row, built => by
    obtain ⟨term, single, rfl⟩ := leaf_eq_ok.1 built
    obtain ⟨grown, spans, parts⟩ := clause_built part single
    exact ⟨grown, ⟨last.next, spans, rfl⟩, parts, trivial⟩
  | .node op left right, ledger, last, row, built => by
    obtain ⟨before, middle, behind, first, second, rfl⟩ := node_eq_ok.1 built
    obtain ⟨grown, spans, parts⟩ := terms_built left first
    obtain ⟨grownMore, spansMore, partsMore⟩ := terms_built right second
    have rest := (Ledger.Grown.allot middle).trans grownMore
    refine ⟨grown.trans rest, rowSpans_append.2 ⟨middle.next, spans, _, ⟨rfl, rfl⟩, spansMore⟩,
      rowThroughout_append.2 ⟨rowBuilt_extend parts spans rest, ⟨trivial, ?_⟩, partsMore⟩⟩
    intro dice is
    cases is

/-- The rolls of trees. -/
theorem rolls_built : (trees : List (Tree Clause)) → {ledger last : Ledger} →
    {built : List Roll} → rolls setup trees ledger = .ok (built, last) →
    Ledger.Grown ledger last ∧ RollsSpan built ledger.next last.next ∧
      RollsThroughout (Term.IsBuilt setup last) RollOf.IsSound built
  | [], ledger, last, built, given => by
    obtain ⟨rfl, rfl⟩ := rolls_nil_eq_ok.1 given
    exact ⟨Ledger.Grown.refl _, rfl, trivial⟩
  | tree :: rest, ledger, last, built, given => by
    obtain ⟨row, middle, first, later, more, inside, around, others, rfl⟩ :=
      rolls_cons_eq_ok.1 given
    obtain ⟨grown, spans, parts⟩ := terms_built tree inside
    obtain ⟨rfl, rfl, checked⟩ := roll_of_fresh grown spans around
    obtain ⟨grownMore, spansMore, partsMore⟩ := rolls_built rest others
    have after := (Ledger.Grown.allot middle).trans grownMore
    exact ⟨grown.trans after, ⟨spans, spansMore⟩, isSound_of_terms inside checked rfl,
      rowBuilt_extend parts spans after, partsMore⟩

/-- An amount of dice. -/
theorem amount_built : (given : Amount Clause) → {ledger last : Ledger} → {built : AmountInput} →
    amount setup given ledger = .ok (built, last) →
    Ledger.Grown ledger last ∧
      built.Holds (Term.IsBuilt setup last) RollOf.IsSound ledger.next last.next
  | .known n, ledger, last, built, given => by
    obtain ⟨rfl, rfl⟩ := known_eq_ok.1 given
    exact ⟨Ledger.Grown.refl _, ⟨n, rfl⟩, rfl⟩
  | .computed inner raw, ledger, last, built, given => by
    obtain ⟨row, middle, roll, later, inside, around, rfl, rfl⟩ := computed_eq_ok.1 given
    obtain ⟨grown, spans, parts⟩ := terms_built inner inside
    obtain ⟨rfl, rfl, checked⟩ := roll_of_fresh grown spans around
    have rest := (Ledger.Grown.allot middle).trans (Ledger.Grown.allot middle.allot)
    refine ⟨grown.trans rest, ⟨spans, rfl, rfl⟩, ⟨⟨trivial, ?_⟩,
      isSound_of_terms inside checked rfl, rowBuilt_extend parts spans rest⟩, _, _, rfl⟩
    intro dice is
    cases is

end

end Build
end DiceNotation
