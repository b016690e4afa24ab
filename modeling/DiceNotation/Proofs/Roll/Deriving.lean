import DiceNotation.Proofs.Roll.Made
import DiceNotation.Roll.Derived

namespace DiceNotation

/-!
# What constructions leave alone

A construction takes identities that are not in use, and what it notes down it notes down about
these.  So whatever is restored, cloned or altered lies apart from all that was there before, and
what was there before stays as it is.
-/

/-- An amount of dice as it is given lies inside. -/
def AmountInput.Inside (inside : Identity → Prop) : AmountInput → Prop
  | .data _ => True
  | .term inner => inner.Inside inside
  | .roll inner => inner.Inside inside

/-- An amount that is in order lies where it lay. -/
theorem AmountInput.Inside.check {inside : Identity → Prop} {given : AmountInput}
    (lies : given.Inside inside) {what : DiceAmount} {least : Nat} {amount : Operand Term}
    (checked : given.check what least = .ok amount) :
    AmountThroughout (fun inner => inside inner.id) (fun roll => inside roll.id) amount := by
  cases amount with
  | known n => trivial
  | computed term =>
    cases given with
    | term inner =>
      cases checked
      exact lies
    | data value =>
      simp only [AmountInput.check] at checked
      split at checked
      · split at checked <;> cases checked
      · cases checked
    | roll inner => cases checked

/-- The faces of dice are fixed or given. -/
theorem DiceInput.faces_of_checkFaces {input : DiceInput} {given : AmountInput}
    (checked : input.checkFaces = .ok given) :
    (∃ value, given = .data value) ∨ given = input.faces := by
  unfold DiceInput.checkFaces at checked
  split at checked
  · split at checked
    · cases checked
      exact .inl ⟨_, rfl⟩
    · cases checked
  · split at checked
    · cases checked
    · cases checked
      exact .inr rfl

namespace Build

variable {α β : Type} {used : Identity}

/-- What is made out of a ledger satisfies a condition, and everything below `used` is left as it
is. -/
def Spares (used : Identity) (made : α → Prop) (construction : Build α) : Prop :=
  ∀ (ledger last : Ledger) (a : α), used ≤ ledger.next → construction ledger = .ok (a, last) →
    (used ≤ last.next ∧ Ledger.SameOn ledger last 0 used) ∧ made a

/-- A construction that leaves alone whatever is used extends the ledger. -/
theorem Spares.extends {made : Identity → α → Prop} {construction : Build α}
    (spares : ∀ used, Spares used (made used) construction) {ledger last : Ledger} {a : α}
    (built : construction ledger = .ok (a, last)) :
    Ledger.Extends ledger last ∧ made ledger.next a := by
  rcases spares ledger.next ledger last a (Nat.le_refl _) built with ⟨⟨next_le, same⟩, holds⟩
  exact ⟨⟨next_le, same⟩, holds⟩

namespace Spares

variable {made : α → Prop} {further : β → Prop}

/-- A construction that extends the ledger leaves alone what was used. -/
theorem of_extends {construction : Build α}
    (grows : ∀ (ledger last : Ledger) (a : α), used ≤ ledger.next →
      construction ledger = .ok (a, last) → Ledger.Extends ledger last ∧ made a) :
    Spares used made construction := by
  intro ledger last a enough built
  rcases grows ledger last a enough built with ⟨extended, holds⟩
  exact ⟨⟨Nat.le_trans enough extended.next_le, extended.same.mono (Nat.le_refl 0) enough⟩, holds⟩

theorem pure {a : α} (holds : made a) : Spares used made (pure a : Build α) := by
  intro ledger last b enough built
  rcases pure_eq_ok.1 built with ⟨rfl, rfl⟩
  exact ⟨⟨enough, Ledger.SameOn.refl _⟩, holds⟩

theorem bind {first : Build α} {next : α → Build β} (spares : Spares used made first)
    (more : ∀ a, made a → Spares used further (next a)) : Spares used further (first >>= next) := by
  intro ledger last b enough built
  rcases bind_eq_ok.1 built with ⟨a, middle, begun, ended⟩
  rcases spares _ _ _ enough begun with ⟨⟨still, same⟩, holds⟩
  rcases more a holds _ _ _ still ended with ⟨⟨yet, since⟩, result⟩
  exact ⟨⟨yet, same.trans since⟩, result⟩

theorem lift (result : Except Fault α) : Spares used (fun _ => True) (lift result) := by
  intro ledger last a enough built
  rcases lift_eq_ok.1 built with ⟨_, rfl⟩
  exact ⟨⟨enough, Ledger.SameOn.refl _⟩, trivial⟩

theorem refuse (fault : Fault) : Spares used made (refuse fault : Build α) :=
  fun _ _ _ _ built => (refuse_ne_ok built).elim

theorem get : Spares used (fun _ => True) (MonadState.get : Build Ledger) := by
  intro ledger last a enough built
  cases built
  exact ⟨⟨enough, Ledger.SameOn.refl _⟩, trivial⟩

theorem fresh : Spares used (used ≤ ·) fresh :=
  .of_extends fun _ _ _ enough built => by
    rcases fresh_eq_ok.1 built with ⟨rfl, rfl⟩
    exact ⟨.allot _, enough⟩

theorem tag (options : Fields) : Spares used (used ≤ ·.id) (Build.tag options) :=
  fresh.bind fun _ above => .pure above

theorem updateTerm {id : Identity} (above : used ≤ id) (change : TermState → TermState) :
    Spares used (fun _ => True) (Build.change (·.updateTerm id change)) := by
  intro ledger last a enough built
  obtain rfl := change_eq_ok.1 built
  exact ⟨⟨enough, .updateTerm ledger above change⟩, trivial⟩

theorem updateRoll {id : Identity} (above : used ≤ id) (change : RollState → RollState) :
    Spares used (fun _ => True) (Build.change (·.updateRoll id change)) := by
  intro ledger last a enough built
  obtain rfl := change_eq_ok.1 built
  exact ⟨⟨enough, .updateRoll ledger above change⟩, trivial⟩

theorem ite {p : Prop} [Decidable p] {yes no : Build α} (first : Spares used made yes)
    (second : Spares used made no) : Spares used made (if p then yes else no) := by
  split
  · exact first
  · exact second

end Spares

/-! ## Terms -/

variable {setup : Setup}

theorem spares_numeric (options : Fields) (value : Json) :
    Spares used (·.Inside (used ≤ ·)) (numeric options value) :=
  (Spares.tag options).bind fun _ above => .pure above

theorem spares_word (options : Fields) (value : Json) :
    Spares used (·.Inside (used ≤ ·)) (word options value) :=
  (Spares.tag options).bind fun _ above => .pure above

theorem spares_optionsIn (fields : Fields) : Spares used (fun _ => True) (optionsIn fields) :=
  .lift _

theorem spares_dice {input : DiceInput} (number : input.number.Inside (used ≤ ·))
    (faces : input.faces.Inside (used ≤ ·)) :
    Spares used (fun dice => (Term.dice dice).Inside (used ≤ ·)) (DiceInput.build setup input) :=
  .of_extends fun ledger _ _ enough built => by
    rcases dice_eq_ok.1 built with
      ⟨n, sides, modifiers, outcomes, method, accepts, rfl, rfl⟩
    rcases accepts.faces_checked with ⟨given, checked, faced⟩
    refine ⟨(Ledger.Extends.allot ledger).updateTerm (Nat.le_refl _) _, enough,
      number.check accepts.number_checked, ?_⟩
    rcases input.faces_of_checkFaces checked with ⟨value, rfl⟩ | rfl
    · exact @AmountInput.Inside.check _ (.data value) trivial _ _ _ faced
    · exact faces.check faced

theorem spares_pool (options : Fields) {rolls : List Roll}
    (lie : RollsThroughout (used ≤ ·.id) (used ≤ ·.id) rolls) (modifiers results : Json) :
    Spares used (·.Inside (used ≤ ·)) (pool options rolls modifiers results) :=
  .of_extends fun ledger _ _ enough built => by
    rcases pool_eq_ok.1 built with ⟨commands, outcomes, _, _, rfl, rfl⟩
    exact ⟨(Ledger.Extends.allot ledger).updateTerm (Nat.le_refl _) _, enough, lie⟩

theorem spares_ofRow (options data : Fields) {terms : List Term}
    (lie : RowInside (used ≤ ·) terms) :
    Spares used (RollOf.Inside (used ≤ ·)) (ofRow options data terms) := by
  refine Spares.get.bind fun ledger _ => Spares.fresh.bind fun id above => ?_
  refine .ite ((Spares.lift _).bind fun total _ => ?_) (.pure ⟨above, lie⟩)
  exact (Spares.updateRoll above _).bind fun _ _ => .pure ⟨above, lie⟩

theorem spares_roll (options data : Fields) {terms : List Term} (lie : RowInside (used ≤ ·) terms) :
    Spares used (RollOf.Inside (used ≤ ·)) (roll options data terms) :=
  (Spares.lift _).bind fun _ _ => spares_ofRow options data lie

theorem spares_rollOfData (options data : Json) {terms : List Term}
    (lie : RowInside (used ≤ ·) terms) :
    Spares used (RollOf.Inside (used ≤ ·)) (rollOfData options data terms) :=
  (Spares.lift _).bind fun _ _ => (Spares.lift _).bind fun _ _ => (Spares.lift _).bind fun _ _ =>
    spares_ofRow _ _ lie

/-! ## Records -/

theorem Spares.settleTerm {construction : Build Term} (fields : Fields)
    (spares : Spares used (·.Inside (used ≤ ·)) construction) :
    Spares used (·.Inside (used ≤ ·)) (construction >>= Build.settleTerm fields) :=
  spares.bind fun _ lies =>
    .ite ((Spares.updateTerm lies.here _).bind fun _ _ => .pure lies) (.pure lies)

theorem spares_restoreSimple (fields : Fields) (known : TermClass) :
    Spares used (·.Inside (used ≤ ·)) (restoreSimple fields known) := by
  unfold restoreSimple
  split
  · split
    · exact (spares_optionsIn fields).bind fun _ _ => spares_numeric _ _
    · exact .refuse _
  · split
    · exact (Spares.lift _).bind fun _ _ => (spares_optionsIn fields).bind fun _ _ =>
        (Spares.tag _).bind fun _ above => .pure above
    · exact .refuse _
  · split
    · exact (spares_optionsIn fields).bind fun _ _ => spares_word _ _
    · exact .refuse _
  · exact .refuse _

theorem spares_restoreRow (fields : Fields) {terms : List Term} (lie : RowInside (used ≤ ·) terms) :
    Spares used (RollOf.Inside (used ≤ ·)) (restoreRow fields terms) := by
  refine (spares_rollOfData _ _ lie).bind fun restored lies => Spares.get.bind fun ledger _ => ?_
  exact .ite ((Spares.updateRoll lies.around _).bind fun _ _ => .pure lies) (.pure lies)

mutual

/-- What is restored lies apart. -/
theorem spares_restoreTerm (expected : Option TermClass) : (json : Json) →
    Spares used (·.Inside (used ≤ ·)) (restoreTerm setup expected json)
  | .object fields => by
    rw [restoreTerm]
    refine (Spares.lift _).bind fun known _ => ?_
    cases known with
    | group =>
      rcases Fields.part? fields "roll" with _ | ⟨inner, smaller⟩
      · exact .refuse _
      · refine (spares_restoreRoll inner).bind fun inside lies => .settleTerm fields ?_
        refine (spares_optionsIn fields).bind fun options _ => (Spares.tag options).bind ?_
        exact fun _ above => .pure ⟨above, lies.around, lies.row⟩
    | function =>
      refine (Spares.lift _).bind fun name _ => ?_
      rcases Fields.part? fields "rolls" with _ | ⟨inner, smaller⟩
      · exact .refuse _
      · refine (spares_restoreRolls inner).bind fun rolls lie => .settleTerm fields ?_
        refine (Spares.lift _).bind fun fn _ => (spares_optionsIn fields).bind fun options _ => ?_
        exact (Spares.tag options).bind fun _ above => .pure ⟨above, lie⟩
    | pool =>
      rcases Fields.part? fields "rolls" with _ | ⟨inner, smaller⟩
      · exact .refuse _
      · refine (spares_restoreRolls inner).bind fun rolls lie => .settleTerm fields ?_
        exact (spares_optionsIn fields).bind fun options _ => spares_pool options lie _ _
    | dice kind =>
      have absent (missing : Json) :
          Spares used (AmountInput.Inside (used ≤ ·)) (pure (.data missing)) := .pure trivial
      have whole (number faces : AmountInput) (lies : number.Inside (used ≤ ·))
          (lie : faces.Inside (used ≤ ·)) : Spares used (·.Inside (used ≤ ·))
            (restoreDice setup fields kind number faces >>= settleTerm fields) :=
        .settleTerm fields ((spares_optionsIn fields).bind fun _ _ =>
          (spares_dice lies lie).bind fun _ inside => .pure inside)
      rcases Fields.part? fields "number" with _ | ⟨inner, smaller⟩
      · refine (absent _).bind fun number lies => ?_
        rcases Fields.part? fields "faces" with _ | ⟨inner, smaller⟩
        · exact (absent _).bind fun faces lie => whole number faces lies lie
        · exact (spares_restoreAmount inner).bind fun faces lie => whole number faces lies lie
      · refine (spares_restoreAmount inner).bind fun number lies => ?_
        rcases Fields.part? fields "faces" with _ | ⟨inner, smaller⟩
        · exact (absent _).bind fun faces lie => whole number faces lies lie
        · exact (spares_restoreAmount inner).bind fun faces lie => whole number faces lies lie
    | _ => exact .settleTerm fields (spares_restoreSimple fields _)
  | .null | .bool _ | .number _ | .string _ | .array _ => by
    rw [restoreTerm]
    · exact .refuse _
    · exact nofun
termination_by json => 2 * sizeOf json
decreasing_by
  all_goals
    simp only [Json.object.sizeOf_spec]
    omega

theorem spares_restoreAmount : (json : Json) →
    Spares used (AmountInput.Inside (used ≤ ·)) (restoreAmount setup json)
  | .object fields => by
    rw [restoreAmount]
    exact (spares_restoreTerm none (.object fields)).bind fun _ lies => .pure lies
  | .null | .bool _ | .number _ | .string _ | .array _ => by
    rw [restoreAmount]
    · exact .pure trivial
    · exact nofun
termination_by json => 2 * sizeOf json + 1

theorem spares_restoreRoll : (json : Json) →
    Spares used (RollOf.Inside (used ≤ ·)) (restoreRoll setup json)
  | .object fields => by
    rw [restoreRoll]
    refine (Spares.lift _).bind fun _ _ => ?_
    rcases Fields.part? fields "terms" with _ | ⟨inner, smaller⟩
    · exact .refuse _
    · exact (spares_restoreTerms inner).bind fun _ lie => spares_restoreRow fields lie
  | .null | .bool _ | .number _ | .string _ | .array _ => by
    rw [restoreRoll]
    · exact .refuse _
    · exact nofun
termination_by json => 2 * sizeOf json
decreasing_by
  simp only [Json.object.sizeOf_spec]
  omega

theorem spares_restoreTerms : (json : Json) →
    Spares used (RowInside (used ≤ ·)) (restoreTerms setup json)
  | .array items => by
    rw [restoreTerms]
    exact spares_restoreTermItems items
  | .null | .bool _ | .number _ | .string _ | .object _ => by
    rw [restoreTerms]
    · exact (Spares.lift _).bind fun _ _ => .ite (.pure trivial) (.refuse _)
    · exact nofun
termination_by json => 2 * sizeOf json

theorem spares_restoreTermItems : (items : List Json) →
    Spares used (RowInside (used ≤ ·)) (restoreTermItems setup items)
  | [] => by
    rw [restoreTermItems]
    exact .pure trivial
  | item :: rest => by
    rw [restoreTermItems]
    exact (spares_restoreTerm none item).bind fun _ lies =>
      (spares_restoreTermItems rest).bind fun _ lie => .pure ⟨lies, lie⟩
termination_by items => 2 * sizeOf items

theorem spares_restoreRolls : (json : Json) →
    Spares used (RollsThroughout (used ≤ ·.id) (used ≤ ·.id)) (restoreRolls setup json)
  | .array items => by
    rw [restoreRolls]
    exact spares_restoreRollItems items
  | .null | .bool _ | .number _ | .string _ | .object _ => by
    rw [restoreRolls]
    · exact (Spares.lift _).bind fun _ _ => .ite (.pure trivial) (.refuse _)
    · exact nofun
termination_by json => 2 * sizeOf json

theorem spares_restoreRollItems : (items : List Json) →
    Spares used (RollsThroughout (used ≤ ·.id) (used ≤ ·.id)) (restoreRollItems setup items)
  | [] => by
    rw [restoreRollItems]
    exact .pure trivial
  | item :: rest => by
    rw [restoreRollItems]
    exact (spares_restoreRoll item).bind fun _ lies =>
      (spares_restoreRollItems rest).bind fun _ lie => .pure ⟨lies.around, lies.row, lie⟩
termination_by items => 2 * sizeOf items

end

/-! ## Formulas -/

theorem spares_useMethod (name : Json) {roll : Roll} (lies : roll.Inside (used ≤ ·)) :
    Spares used (fun _ => True) (useMethod name roll) := by
  have above : ∀ dice ∈ roll.dice, used ≤ dice.tag.id := lies.row.diceFrom
  unfold useMethod
  generalize roll.dice = dice at above ⊢
  induction dice with
  | nil => exact .pure trivial
  | cons die rest ih =>
    rcases List.forall_mem_cons.1 above with ⟨here, others⟩
    exact (Spares.updateTerm here _).bind fun _ _ => ih others

theorem spares_giveMethod (method : Json) {roll : Roll} (lies : roll.Inside (used ≤ ·)) :
    Spares used (RollOf.Inside (used ≤ ·)) (giveMethod setup method roll) := by
  unfold giveMethod
  split
  · exact .pure lies
  · exact (Spares.lift _).bind fun _ _ => (spares_useMethod _ lies).bind fun _ _ => .pure lies

/-- The roll of a formula lies apart. -/
theorem spares_ofFormula (input : RollInput) :
    Spares used (RollOf.Inside (used ≤ ·)) (ofFormula setup input) := by
  refine (Spares.lift _).bind fun text _ => (Spares.lift _).bind fun tree _ => ?_
  have terms : Spares used (RowInside (used ≤ ·)) (Build.terms setup tree) :=
    .of_extends fun ledger last row enough built => by
      rcases terms_built tree built with ⟨grown, spans, _⟩
      refine ⟨grown.extended, spans.inside.imp spans ?_ ?_⟩
      · exact fun _ _ _ between => Nat.le_trans enough between.1
      · exact fun _ _ _ between => Nat.le_trans enough between.1
  exact terms.bind fun row lie => (spares_roll _ _ lie).bind fun roll lies =>
    spares_giveMethod _ lies

/-! ## Derived rolls -/

theorem spares_copy (term : Term) : Spares used (·.Inside (used ≤ ·)) (copy setup term) :=
  fun ledger => spares_restoreTerm none (ledger.record term) ledger

theorem spares_renew (term : Term) : Spares used (·.Inside (used ≤ ·)) (renew setup term) :=
  fun ledger => spares_restoreTerm none (ledger.record term).renewed ledger

theorem spares_each {construction : Term → Build Term}
    (spares : ∀ term, Spares used (·.Inside (used ≤ ·)) (construction term)) (terms : List Term) :
    Spares used (RowInside (used ≤ ·)) (each construction terms) := by
  induction terms with
  | nil => exact .pure trivial
  | cons term rest ih =>
    exact (spares term).bind fun _ lies => ih.bind fun _ lie => .pure ⟨lies, lie⟩

/-- A clone lies apart from all that was there before. -/
theorem spares_clone (model : Roll) : Spares used (RollOf.Inside (used ≤ ·)) (clone setup model) :=
  (spares_each spares_renew model.terms).bind fun _ lie => spares_roll _ _ lie

theorem spares_changeNumber (change : Change) (number : Operand Term) :
    Spares used (AmountInput.Inside (used ≤ ·)) (changeNumber setup change number) := by
  cases number with
  | known n =>
    exact (Spares.lift _).bind fun _ _ => (Spares.lift _).bind fun _ _ => .pure trivial
  | computed term =>
    refine .ite ((Spares.refuse _).bind fun _ (_ : True) => ?_) ?_ <;>
    exact (spares_ofFormula _).bind fun _ lies => (Spares.tag _).bind fun _ above =>
      .pure ⟨above, lies.around, lies.row⟩

theorem spares_copyAmount (amount : Operand Term) :
    Spares used (AmountInput.Inside (used ≤ ·)) (copyAmount setup amount) := by
  cases amount with
  | known n => exact .pure trivial
  | computed term => exact (spares_copy term).bind fun _ lies => .pure lies

theorem spares_alterDice (change : Change) (dice : Dice) :
    Spares used (fun altered => (Term.dice altered).Inside (used ≤ ·))
      (alterDice setup change dice) := by
  have altered (ledger : Ledger) : Spares used
      (fun altered => (Term.dice altered).Inside (used ≤ ·)) (do
        let number ← changeNumber setup change dice.number
        let faces ← copyAmount setup dice.faces
        DiceInput.build setup {
          kind := dice.kind, number := number, faces := faces, modifiers := .array dice.modifiers,
          method := (ledger.term dice.tag.id).method, options := dice.tag.options }) :=
    (spares_changeNumber change dice.number).bind fun _ lies =>
      (spares_copyAmount dice.faces).bind fun _ lie => spares_dice lies lie
  refine Spares.get.bind fun ledger _ => .ite ?_ (altered ledger)
  exact (Spares.refuse _).bind fun _ (_ : True) => altered ledger

theorem spares_alterTerm (change : Change) (term : Term) :
    Spares used (·.Inside (used ≤ ·)) (alterTerm setup change term) := by
  cases term with
  | dice d => exact (spares_alterDice change d).bind fun _ lies => .pure lies
  | numeric old value =>
    exact .ite ((Spares.lift _).bind fun _ _ => spares_numeric _ _) (spares_copy _)
  | _ => exact spares_copy _

/-- An altered roll lies apart from all that was there before. -/
theorem spares_alter (change : Change) (model : Roll) :
    Spares used (RollOf.Inside (used ≤ ·)) (alter setup change model) := by
  have altered : Spares used (RollOf.Inside (used ≤ ·)) (do
      let terms ← each (alterTerm setup change) model.terms
      roll model.options model.data terms) :=
    (spares_each (spares_alterTerm change) model.terms).bind fun _ lie => spares_roll _ _ lie
  refine Spares.get.bind fun ledger _ => .ite ?_ altered
  exact (Spares.refuse _).bind fun _ (_ : True) => altered

end Build
end DiceNotation
