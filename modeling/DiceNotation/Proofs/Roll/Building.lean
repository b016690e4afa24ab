import DiceNotation.Roll.Build

namespace DiceNotation

/-!
# What constructions do

A construction succeeds exactly if its parts succeed one after another, each from
the ledger that the one before it left.  For every way to build a term or a roll
there is a lemma that says so, and all that later proofs know about building they
know from these lemmas.
-/

/-- A chain of results ends well if each of them does. -/
theorem result_bind {α β : Type} {first : Except Fault α} {next : α → Except Fault β} {b : β}
    (well : first >>= next = .ok b) : ∃ a, first = .ok a ∧ next a = .ok b := by
  cases first with
  | error fault => cases well
  | ok a => exact ⟨a, rfl, well⟩

theorem result_of_toOption {α : Type} {result : Except Fault α} {a : α}
    (some : result.toOption = some a) : result = .ok a := by
  cases result with
  | error fault => cases some
  | ok b => exact congrArg Except.ok (Option.some.inj some)

theorem mem_of_head {α : Type} {a : α} {list : List α}
    (first : list.head?.elim (.error Fault.wrongKind) Except.ok = .ok a) : a ∈ list := by
  cases list with
  | nil => cases first
  | cons head rest => exact Except.ok.inj first ▸ List.mem_cons_self

namespace Build

variable {α β : Type}

theorem bind_eq_ok {first : Build α} {next : α → Build β} {ledger last : Ledger} {b : β} :
    (first >>= next) ledger = .ok (b, last) ↔
      ∃ a middle, first ledger = .ok (a, middle) ∧ next a middle = .ok (b, last) := by
  change (first ledger >>= fun pair => next pair.1 pair.2) = .ok (b, last) ↔ _
  cases first ledger with
  | error fault => simp [bind, Except.bind]
  | ok pair =>
    obtain ⟨a, middle⟩ := pair
    simp [bind, Except.bind, and_assoc]

theorem map_eq_ok {f : α → β} {construction : Build α} {ledger last : Ledger} {b : β} :
    (f <$> construction) ledger = .ok (b, last) ↔
      ∃ a, construction ledger = .ok (a, last) ∧ b = f a := by
  change (construction ledger >>= fun pair => pure (f pair.1, pair.2)) = .ok (b, last) ↔ _
  cases construction ledger with
  | error fault => simp [bind, Except.bind]
  | ok pair =>
    obtain ⟨a, middle⟩ := pair
    simp only [bind, Except.bind, pure, Except.pure, Except.ok.injEq, Prod.mk.injEq]
    constructor
    · rintro ⟨rfl, rfl⟩
      exact ⟨a, ⟨rfl, rfl⟩, rfl⟩
    · rintro ⟨_, ⟨rfl, rfl⟩, rfl⟩
      exact ⟨rfl, rfl⟩

theorem pure_eq_ok {a b : α} {ledger last : Ledger} :
    (pure a : Build α) ledger = .ok (b, last) ↔ b = a ∧ last = ledger := by
  change Except.ok (a, ledger) = .ok (b, last) ↔ _
  simp [eq_comm]

theorem lift_eq_ok {result : Except Fault α} {ledger last : Ledger} {a : α} :
    lift result ledger = .ok (a, last) ↔ result = .ok a ∧ last = ledger := by
  unfold lift
  cases result <;> simp [eq_comm]

theorem lift_bind_eq_ok {result : Except Fault α} {next : α → Build β} {ledger last : Ledger}
    {b : β} :
    (lift result >>= next) ledger = .ok (b, last) ↔
      ∃ a, result = .ok a ∧ next a ledger = .ok (b, last) := by
  simp only [bind_eq_ok, lift_eq_ok]
  constructor
  · rintro ⟨a, _, ⟨given, rfl⟩, rest⟩
    exact ⟨a, given, rest⟩
  · rintro ⟨a, given, rest⟩
    exact ⟨a, ledger, ⟨given, rfl⟩, rest⟩

theorem lift_ok_bind (a : α) (next : α → Build β) : (lift (.ok a) >>= next) = next a := rfl

theorem change_eq_ok {f : Ledger → Ledger} {ledger last : Ledger} {u : Unit} :
    change f ledger = .ok (u, last) ↔ last = f ledger := by
  simp [change, eq_comm]

theorem fresh_eq_ok {ledger last : Ledger} {id : Identity} :
    fresh ledger = .ok (id, last) ↔ id = ledger.next ∧ last = ledger.allot := by
  simp [fresh, eq_comm]

theorem tag_eq_ok {options : Fields} {ledger last : Ledger} {tag : Tag} :
    Build.tag options ledger = .ok (tag, last) ↔
      tag = ⟨ledger.next, options⟩ ∧ last = ledger.allot := by
  simp only [Build.tag, bind_pure_comp, map_eq_ok, fresh_eq_ok, and_assoc, exists_eq_left]
  exact and_comm

theorem refuse_ne_ok {fault : Fault} {ledger last : Ledger} {a : α} :
    (refuse fault : Build α) ledger ≠ .ok (a, last) := by
  intro given
  cases given

theorem within_eq_ok {raw : String} {construction : Build α} {ledger last : Ledger} {a : α} :
    within raw construction ledger = .ok (a, last) ↔ construction ledger = .ok (a, last) := by
  unfold within
  split
  · rename_i failed
    simp [failed]
  · rfl

/-! ## Simple terms -/

theorem numeric_eq_ok {options : Fields} {value : Json} {ledger last : Ledger} {term : Term} :
    numeric options value ledger = .ok (term, last) ↔
      term = .numeric ⟨ledger.next, options⟩ value ∧ last = ledger.allot := by
  simp only [numeric, bind_pure_comp, map_eq_ok, tag_eq_ok, and_assoc, exists_eq_left]
  exact and_comm

theorem word_eq_ok {options : Fields} {value : Json} {ledger last : Ledger} {term : Term} :
    word options value ledger = .ok (term, last) ↔
      term = .text ⟨ledger.next, options⟩ value ∧ last = ledger.allot := by
  simp only [word, bind_pure_comp, map_eq_ok, tag_eq_ok, and_assoc, exists_eq_left]
  exact and_comm

theorem operator_eq_ok {options : Fields} {op : Operator} {ledger last : Ledger} {term : Term} :
    operator options op.symbol ledger = .ok (term, last) ↔
      term = .operator ⟨ledger.next, options⟩ op ∧ last = ledger.allot := by
  simp only [operator, bind_pure_comp, Operator.select_symbol, lift_ok_bind, map_eq_ok, tag_eq_ok,
    and_assoc, exists_eq_left]
  exact and_comm

/-! ## Rows and rolls -/

/-- A roll around terms of which some are not evaluated is not evaluated. -/
theorem ofRow_of_unevaluated (options data : Fields) {terms : List Term} {ledger : Ledger}
    (unevaluated : terms.all ledger.isEvaluated = false) :
    ofRow options data terms ledger = .ok
      ({ id := ledger.next, options := options, data := data, terms := terms }, ledger.allot) := by
  change (if terms.all ledger.isEvaluated then _ else _ : Build Roll) ledger.allot = _
  rw [unevaluated]
  rfl

/-- A roll around evaluated terms has the total that they give. -/
theorem ofRow_of_evaluated (options data : Fields) {terms : List Term} {ledger : Ledger}
    (evaluated : terms.all ledger.isEvaluated = true) {total : Json}
    (given : ledger.totalOfTerms terms = .ok total) :
    ofRow options data terms ledger = .ok
      ({ id := ledger.next, options := options, data := data, terms := terms },
        ledger.allot.updateRoll ledger.next fun _ => { phase := .evaluated, total := total }) := by
  change (if terms.all ledger.isEvaluated then _ else _ : Build Roll) ledger.allot = _
  rw [evaluated, if_pos rfl, given]
  rfl

theorem roll_eq_ok {options data : Fields} {terms : List Term} {ledger last : Ledger}
    {roll : Roll} :
    Build.roll options data terms ledger = .ok (roll, last) ↔
      checkRow terms = .ok () ∧ ofRow options data terms ledger = .ok (roll, last) := by
  simp only [Build.roll, lift_bind_eq_ok]
  constructor
  · rintro ⟨_, checked, built⟩
    exact ⟨checked, built⟩
  · rintro ⟨checked, built⟩
    exact ⟨(), checked, built⟩

variable {setup : Setup}

theorem leaf_eq_ok {part : Clause} {ledger last : Ledger} {row : List Term} :
    terms setup (.leaf part) ledger = .ok (row, last) ↔
      ∃ term, clause setup part ledger = .ok (term, last) ∧ row = [term] := by
  simp [terms, map_eq_ok]

theorem node_eq_ok {op : Operator} {left right : Tree Clause} {ledger last : Ledger}
    {row : List Term} :
    terms setup (.node op left right) ledger = .ok (row, last) ↔
      ∃ before middle behind, terms setup left ledger = .ok (before, middle) ∧
        terms setup right middle.allot = .ok (behind, last) ∧
        row = before ++ .operator ⟨middle.next, []⟩ op :: behind := by
  simp only [terms, bind_pure_comp, bind_eq_ok, map_eq_ok, operator_eq_ok]
  constructor
  · rintro ⟨before, middle, left, _, _, ⟨rfl, rfl⟩, behind, right, rfl⟩
    exact ⟨before, middle, behind, left, right, rfl⟩
  · rintro ⟨before, middle, behind, left, right, rfl⟩
    exact ⟨before, middle, left, _, _, ⟨rfl, rfl⟩, behind, right, rfl⟩

theorem group_eq_ok {inner : Tree Clause} {flavor : Option String} {raw : String}
    {ledger last : Ledger} {term : Term} :
    clause setup (.group inner flavor raw) ledger = .ok (term, last) ↔
      ∃ row middle roll later, terms setup inner ledger = .ok (row, middle) ∧
        Build.roll [] [] row middle = .ok (roll, later) ∧
        term = .group ⟨later.next, flavorOptions flavor⟩ roll ∧ last = later.allot := by
  simp only [clause, bind_pure_comp, bind_eq_ok, map_eq_ok, tag_eq_ok, and_assoc, exists_eq_left]
  constructor
  · rintro ⟨row, middle, built, roll, later, around, rfl, rfl⟩
    exact ⟨row, middle, roll, later, built, around, rfl, rfl⟩
  · rintro ⟨row, middle, roll, later, built, around, rfl, rfl⟩
    exact ⟨row, middle, built, roll, later, around, rfl, rfl⟩

theorem computed_eq_ok {inner : Tree Clause} {raw : String} {ledger last : Ledger}
    {given : AmountInput} :
    amount setup (.computed inner raw) ledger = .ok (given, last) ↔
      ∃ row middle roll later, terms setup inner ledger = .ok (row, middle) ∧
        Build.roll [] [] row middle = .ok (roll, later) ∧
        given = .term (.group ⟨later.next, []⟩ roll) ∧ last = later.allot := by
  simp only [amount, bind_pure_comp, bind_eq_ok, map_eq_ok, tag_eq_ok, and_assoc, exists_eq_left]
  constructor
  · rintro ⟨row, middle, built, roll, later, around, rfl, rfl⟩
    exact ⟨row, middle, roll, later, built, around, rfl, rfl⟩
  · rintro ⟨row, middle, roll, later, built, around, rfl, rfl⟩
    exact ⟨row, middle, built, roll, later, around, rfl, rfl⟩

end Build

/-! ## Dice -/

/-- What dice are made of when their input is in order. -/
structure DiceInput.Accepts (setup : Setup) (input : DiceInput) (number faces : Operand Term)
    (modifiers : List Json) (outcomes : List Outcome) (method : Json) : Prop where
  number_checked : input.number.check .number 0 = .ok number
  faces_checked : ∃ given, input.checkFaces = .ok given ∧ given.check .faces 1 = .ok faces
  modifiers_cut : Command.listOfData input.modifiers = .ok modifiers
  outcomes_restored : Outcome.restoreAll input.results = .ok outcomes
  method_chosen : input.chooseMethod setup faces = .ok method
  method_known : ∃ known, setup.methods.named method = .ok known

namespace Build

/-- The ledger after dice were built. -/
def withDice (ledger : Ledger) (outcomes : List Outcome) (method : Json) : Ledger :=
  ledger.allot.updateTerm ledger.next fun state =>
    { state with outcomes := outcomes, method := method }

theorem dice_eq_ok {setup : Setup} {input : DiceInput} {ledger last : Ledger} {dice : Dice} :
    DiceInput.build setup input ledger = .ok (dice, last) ↔
      ∃ number faces modifiers outcomes method,
        input.Accepts setup number faces modifiers outcomes method ∧
        dice = { tag := ⟨ledger.next, input.options⟩, kind := input.kind, number := number,
                 faces := faces, modifiers := modifiers } ∧
        last = withDice ledger outcomes method := by
  unfold DiceInput.build
  simp only [lift_bind_eq_ok]
  simp only [bind_eq_ok, fresh_eq_ok, change_eq_ok, pure_eq_ok]
  constructor
  · rintro ⟨given, checked, number, numbered, faces, faced, modifiers, cut, outcomes, restored,
      method, chosen, known, named, _, _, ⟨rfl, rfl⟩, _, _, rfl, rfl, rfl⟩
    exact ⟨number, faces, modifiers, outcomes, method,
      ⟨numbered, ⟨given, checked, faced⟩, cut, restored, chosen, ⟨known, named⟩⟩, rfl, rfl⟩
  · rintro ⟨number, faces, modifiers, outcomes, method,
      ⟨numbered, ⟨given, checked, faced⟩, cut, restored, chosen, ⟨known, named⟩⟩, rfl, rfl⟩
    exact ⟨given, checked, number, numbered, faces, faced, modifiers, cut, outcomes, restored,
      method, chosen, known, named, _, _, ⟨rfl, rfl⟩, (), _, rfl, rfl, rfl⟩

/-! ## Clauses -/

variable {setup : Setup}

theorem function_eq_ok {options : Fields} {name : String} {rolls : List Roll}
    {ledger last : Ledger} {term : Term} :
    function options name rolls ledger = .ok (term, last) ↔
      ∃ fn, Function.select (.string name) rolls.length = .ok fn ∧
        term = .function ⟨ledger.next, options⟩ fn rolls ∧ last = ledger.allot := by
  simp only [function, lift_bind_eq_ok, bind_pure_comp, map_eq_ok, tag_eq_ok, and_assoc,
    exists_eq_left]
  exact exists_congr fun fn => and_congr_right' and_comm

/-- The ledger after a pool was built. -/
def withPool (ledger : Ledger) (outcomes : List Outcome) : Ledger :=
  ledger.allot.updateTerm ledger.next fun state => { state with outcomes := outcomes }

theorem pool_eq_ok {options : Fields} {rolls : List Roll} {modifiers results : Json}
    {ledger last : Ledger} {term : Term} :
    pool options rolls modifiers results ledger = .ok (term, last) ↔
      ∃ commands outcomes, Command.listOfData modifiers = .ok commands ∧
        Outcome.restoreAll results = .ok outcomes ∧
        term = .pool ⟨⟨ledger.next, options⟩, rolls, commands⟩ ∧
        last = withPool ledger outcomes := by
  unfold pool
  simp only [lift_bind_eq_ok]
  simp only [bind_eq_ok, tag_eq_ok, change_eq_ok, pure_eq_ok]
  constructor
  · rintro ⟨commands, cut, outcomes, restored, _, _, ⟨rfl, rfl⟩, _, _, rfl, rfl, rfl⟩
    exact ⟨commands, outcomes, cut, restored, rfl, rfl⟩
  · rintro ⟨commands, outcomes, cut, restored, rfl, rfl⟩
    exact ⟨commands, cut, outcomes, restored, _, _, ⟨rfl, rfl⟩, (), _, rfl, rfl, rfl⟩

theorem clauseFunction_eq_ok {name : String} {arguments : List (Tree Clause)}
    {flavor : Option String} {raw : String} {ledger last : Ledger} {term : Term} :
    clause setup (.function name arguments flavor raw) ledger = .ok (term, last) ↔
      ∃ built middle fn, rolls setup arguments ledger = .ok (built, middle) ∧
        Function.select (.string name) built.length = .ok fn ∧
        term = .function ⟨middle.next, flavorOptions flavor⟩ fn built ∧ last = middle.allot := by
  simp only [clause, within_eq_ok, bind_eq_ok, function_eq_ok]
  exact exists_congr fun built => exists_congr fun middle => exists_and_left.symm

theorem clausePool_eq_ok {members : List (Tree Clause)} {modifiers : String}
    {flavor : Option String} {raw : String} {ledger last : Ledger} {term : Term} :
    clause setup (.pool members modifiers flavor raw) ledger = .ok (term, last) ↔
      ∃ built middle, rolls setup members ledger = .ok (built, middle) ∧
        term = .pool ⟨⟨middle.next, flavorOptions flavor⟩, built,
          (Command.splitText modifiers).map .string⟩ ∧
        last = withPool middle [] := by
  simp only [clause, bind_eq_ok, pool_eq_ok]
  constructor
  · rintro ⟨built, middle, inside, _, _, ⟨⟩, ⟨⟩, rfl, rfl⟩
    exact ⟨built, middle, inside, rfl, rfl⟩
  · rintro ⟨built, middle, inside, rfl, rfl⟩
    exact ⟨built, middle, inside, _, [], rfl, rfl, rfl, rfl⟩

theorem clauseDice_eq_ok {number : Amount Clause} {faces : Faces Clause} {modifiers : String}
    {flavor : Option String} {raw : String} {ledger last : Ledger} {term : Term} :
    clause setup (.dice number faces modifiers flavor raw) ledger = .ok (term, last) ↔
      ∃ given middle, amount setup number ledger = .ok (given, middle) ∧
        diceClause setup given faces modifiers flavor middle = .ok (term, last) := by
  simp only [clause, bind_eq_ok, within_eq_ok]

/-- The input of dice with a letter in the place of their faces. -/
def letterInput (kind : DieKind) (number : AmountInput) (modifiers : String)
    (flavor : Option String) : DiceInput where
  kind := kind
  number := number
  faces := .data .null
  modifiers := .string modifiers
  options := flavorOptions flavor

/-- The input of dice with an amount of faces. -/
def facesInput (number faces : AmountInput) (modifiers : String) (flavor : Option String) :
    DiceInput where
  kind := .numbered
  number := number
  faces := faces
  modifiers := .string modifiers
  options := flavorOptions flavor

theorem diceLetter_eq_ok {given : AmountInput} {code : String} {modifiers : String}
    {flavor : Option String} {ledger last : Ledger} {term : Term} :
    diceClause setup given (.letter code) modifiers flavor ledger = .ok (term, last) ↔
      ∃ kind dice, DieKind.ofLetter? code = some kind ∧
        DiceInput.build setup (letterInput kind given modifiers flavor) ledger = .ok (dice, last) ∧
        term = .dice dice := by
  cases named : DieKind.ofLetter? code with
  | none => simp [diceClause, named, refuse_ne_ok]
  | some kind => simp [diceClause, named, map_eq_ok, letterInput]

theorem diceAmount_eq_ok {given : AmountInput} {faces : Amount Clause} {modifiers : String}
    {flavor : Option String} {ledger last : Ledger} {term : Term} :
    diceClause setup given (.amount faces) modifiers flavor ledger = .ok (term, last) ↔
      ∃ found middle dice, amount setup faces ledger = .ok (found, middle) ∧
        DiceInput.build setup (facesInput given found modifiers flavor) middle = .ok (dice, last) ∧
        term = .dice dice := by
  simp [diceClause, bind_eq_ok, map_eq_ok, facesInput]

theorem known_eq_ok {n : Nat} {ledger last : Ledger} {given : AmountInput} :
    amount setup (.known n) ledger = .ok (given, last) ↔
      given = .data (.ofNat n) ∧ last = ledger :=
  pure_eq_ok

theorem rolls_nil_eq_ok {ledger last : Ledger} {built : List Roll} :
    rolls setup [] ledger = .ok (built, last) ↔ built = [] ∧ last = ledger :=
  pure_eq_ok

theorem rolls_cons_eq_ok {tree : Tree Clause} {rest : List (Tree Clause)} {ledger last : Ledger}
    {built : List Roll} :
    rolls setup (tree :: rest) ledger = .ok (built, last) ↔
      ∃ row middle first later more, terms setup tree ledger = .ok (row, middle) ∧
        Build.roll [] [] row middle = .ok (first, later) ∧
        rolls setup rest later = .ok (more, last) ∧ built = first :: more := by
  simp only [rolls, bind_pure_comp, bind_eq_ok, map_eq_ok]
  constructor
  · rintro ⟨row, middle, inside, first, later, around, more, others, rfl⟩
    exact ⟨row, middle, first, later, more, inside, around, others, rfl⟩
  · rintro ⟨row, middle, first, later, more, inside, around, others, rfl⟩
    exact ⟨row, middle, inside, first, later, around, more, others, rfl⟩

end Build
end DiceNotation
