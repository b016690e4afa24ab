import DiceNotation.Proofs.Formula.References
import DiceNotation.Proofs.Formula.Rereading
import DiceNotation.Proofs.Roll.Made
import DiceNotation.Proofs.Roll.Written

namespace DiceNotation

/-!
# Rolls from their own formulas

Building goes by what clauses say and not by the texts that they keep, so a canonical
clause gives the same term as the clause, in any ledger, with the identities that come
next there.  Canonical texts are read as canonical clauses, so the formula of a roll
gives the roll again, and the record of the second roll is that of the first one.
-/

/-- The amount in which every identity is replaced by another one. -/
def AmountInput.renumber (f : Identity → Identity) : AmountInput → AmountInput
  | data value => data value
  | term inner => term (inner.renumber f)
  | roll inner => roll (inner.renumber f)

theorem AmountInput.check_renumber (f : Identity → Identity) {what : DiceAmount} {least : Nat}
    {given : AmountInput} {operand : Operand Term} (checked : given.check what least = .ok operand) :
    (given.renumber f).check what least = .ok (Term.renumberAmount f operand) := by
  cases given with
  | data value =>
    simp only [AmountInput.renumber, AmountInput.check] at checked ⊢
    split at checked
    · split at checked
      · cases checked
      · rename_i enough
        cases checked
        exact if_neg enough
    · cases checked
  | term inner =>
    cases checked
    rfl
  | roll inner => cases checked

/-- The default method of dice goes by their kind and their faces, if these are known. -/
theorem DiceInput.defaultMethod_renumber (setup : Setup) (kind : DieKind) (faces : Operand Term)
    (f : Identity → Identity) :
    defaultMethod setup kind (Term.renumberAmount f faces) = defaultMethod setup kind faces := by
  cases faces <;> rfl

namespace Build

variable {setup : Setup} {low base : Nat}

/-- A construction gives a result and takes the identities up to a bound. -/
def Gives {α : Type} (construction : Build α) (start : Ledger) (result : α) (next : Nat) : Prop :=
  ∃ last, construction start = .ok (result, last) ∧ last.next = next

theorem next_withDice (ledger : Ledger) (outcomes : List Outcome) (method : Json) :
    (withDice ledger outcomes method).next = ledger.next + 1 := rfl

/-- The faces of dice are found again if the dice are of the same kind. -/
theorem checkFaces_renumber (f : Identity → Identity) {input again : DiceInput}
    (kind : again.kind = input.kind) (faces : again.faces = input.faces.renumber f)
    {given : AmountInput} (checked : input.checkFaces = .ok given) :
    again.checkFaces = .ok (given.renumber f) := by
  cases fixed : input.kind.fixedFaces? with
  | some count =>
    have agrees : input.faces.agrees count = true := by
      unfold DiceInput.checkFaces at checked
      rw [fixed] at checked
      by_contra differs
      simp only [differs, if_false] at checked
      cases checked
    have agreesToo : again.faces.agrees count = true := by
      rw [faces]
      cases shape : input.faces with
      | data value =>
        rw [shape] at agrees
        exact agrees
      | term inner =>
        rw [shape] at agrees
        cases agrees
      | roll inner =>
        rw [shape] at agrees
        cases agrees
    rw [checkFaces_of_fixed fixed checked]
    unfold DiceInput.checkFaces
    rw [kind, fixed]
    exact if_pos agreesToo
  | none =>
    have same := checkFaces_of_not_fixed fixed checked
    subst same
    unfold DiceInput.checkFaces at checked ⊢
    rw [fixed] at checked
    rw [kind, fixed, faces]
    cases shape : input.faces with
    | data value =>
      rw [shape] at checked
      cases value with
      | null => cases checked
      | _ => rfl
    | term inner => rfl
    | roll inner => rfl

/-- Dice are built again from the same amounts with other identities. -/
theorem dice_rebuilds {input again : DiceInput} {ledger last start : Ledger} {dice : Dice}
    (built : DiceInput.build setup input ledger = .ok (dice, last)) (above : low ≤ ledger.next)
    (begins : start.next = shift low base ledger.next) (kind : again.kind = input.kind)
    (number : again.number = input.number.renumber (shift low base))
    (faces : again.faces = input.faces.renumber (shift low base))
    (modifiers : again.modifiers = input.modifiers) (results : again.results = input.results)
    (method : again.method = input.method) (options : again.options = input.options) :
    Gives (DiceInput.build setup again) start (dice.renumber (shift low base))
      (shift low base last.next) := by
  rcases dice_eq_ok.1 built with ⟨count, sides, commands, outcomes, name, accepts, rfl, rfl⟩
  rcases accepts.faces_checked with ⟨given, checked, sided⟩
  refine ⟨withDice start outcomes name, dice_eq_ok.2
    ⟨Term.renumberAmount (shift low base) count, Term.renumberAmount (shift low base) sides,
      commands, outcomes, name, ?_, ?_, rfl⟩, ?_⟩
  · constructor
    · rw [number]
      exact AmountInput.check_renumber _ accepts.number_checked
    · exact ⟨_, checkFaces_renumber _ kind faces checked, AmountInput.check_renumber _ sided⟩
    · rw [modifiers]
      exact accepts.modifiers_cut
    · rw [results]
      exact accepts.outcomes_restored
    · have chosen := accepts.method_chosen
      unfold DiceInput.chooseMethod at chosen ⊢
      rwa [method, kind, DiceInput.defaultMethod_renumber]
    · exact accepts.method_known
  · rw [kind, options, begins]
    rfl
  · rw [next_withDice, next_withDice, shift_succ above, begins]

/-- A roll is made again around a row that was built again. -/
theorem roll_rebuilds {tree : Tree Clause} {row : List Term} {ledger middle start between : Ledger}
    (inside : terms setup tree ledger = .ok (row, middle)) (checked : checkRow row = .ok ())
    (again : terms setup (canonicalTree tree) start =
      .ok (Term.renumberRow (shift low base) row, between))
    (options data : Fields) :
    Build.roll options data (Term.renumberRow (shift low base) row) between = .ok
      ({ id := between.next, options := options, data := data,
         terms := Term.renumberRow (shift low base) row }, between.allot) := by
  rcases terms_built _ again with ⟨grown, spans, _⟩
  let roll : Roll := { id := middle.next, options := options, data := data, terms := row }
  have sound : roll.IsSound := isSound_of_terms inside checked rfl
  exact roll_builds grown spans (sound.renumber (shift low base)).checkRow options data

mutual

/-- The canonical clause gives the term of the clause. -/
theorem clause_rebuilds : (part : Clause) → {ledger last : Ledger} → {term : Term} →
    clause setup part ledger = .ok (term, last) → low ≤ ledger.next →
    {start : Ledger} → start.next = shift low base ledger.next →
    Gives (clause setup part.canonical) start (term.renumber (shift low base))
      (shift low base last.next)
  | .numeric value flavor _, ledger, last, term, built, above, start, begins => by
    rcases numeric_eq_ok.1 built with ⟨rfl, rfl⟩
    refine ⟨start.allot, numeric_eq_ok.2 ⟨?_, rfl⟩, ?_⟩
    · rw [begins, flavorOptions_keptFlavor]
      rfl
    · rw [Ledger.next_allot, Ledger.next_allot, shift_succ above, begins]
  | .text text flavor _, ledger, last, term, built, above, start, begins => by
    rcases word_eq_ok.1 built with ⟨rfl, rfl⟩
    refine ⟨start.allot, word_eq_ok.2 ⟨?_, rfl⟩, ?_⟩
    · rw [begins, flavorOptions_keptFlavor]
      rfl
    · rw [Ledger.next_allot, Ledger.next_allot, shift_succ above, begins]
  | .group inner flavor raw, ledger, last, term, built, above, start, begins => by
    rcases group_eq_ok.1 built with ⟨row, middle, roll, later, inside, around, rfl, rfl⟩
    rcases terms_built inner inside with ⟨grown, spans, _⟩
    rcases roll_of_fresh grown spans around with ⟨rfl, rfl, checked⟩
    rcases terms_rebuilds inner inside above begins with ⟨between, again, ended⟩
    have reached : low ≤ middle.next := Nat.le_trans above grown.extended.next_le
    have whole := roll_rebuilds inside checked again [] []
    refine ⟨between.allot.allot, group_eq_ok.2 ⟨_, between, _, between.allot, again, whole, ?_, rfl⟩, ?_⟩
    · rw [flavorOptions_keptFlavor, Ledger.next_allot between, ended, ← shift_succ reached]
      rfl
    · simp only [Ledger.next_allot, ended]
      rw [shift_succ (Nat.le_succ_of_le reached), shift_succ reached]
  | .function name arguments flavor raw, ledger, last, term, built, above, start, begins => by
    rcases clauseFunction_eq_ok.1 built with ⟨made, middle, fn, inside, selected, rfl, rfl⟩
    rcases rolls_built arguments inside with ⟨grown, _, _⟩
    rcases rolls_rebuilds arguments inside above begins with ⟨between, again, ended⟩
    have reached : low ≤ middle.next := Nat.le_trans above grown.extended.next_le
    refine ⟨between.allot, clauseFunction_eq_ok.2 ⟨_, between, fn, again, ?_, ?_, rfl⟩, ?_⟩
    · rw [Term.renumberRolls_eq_map, List.length_map]
      exact selected
    · rw [flavorOptions_keptFlavor, ended]
      rfl
    · rw [Ledger.next_allot, Ledger.next_allot, shift_succ reached, ended]
  | .pool members modifiers flavor raw, ledger, last, term, built, above, start, begins => by
    rcases clausePool_eq_ok.1 built with ⟨made, middle, inside, rfl, rfl⟩
    rcases rolls_built members inside with ⟨grown, _, _⟩
    rcases rolls_rebuilds members inside above begins with ⟨between, again, ended⟩
    have reached : low ≤ middle.next := Nat.le_trans above grown.extended.next_le
    refine ⟨withPool between [], clausePool_eq_ok.2 ⟨_, between, again, ?_, rfl⟩, ?_⟩
    · rw [flavorOptions_keptFlavor, ended]
      rfl
    · change between.next + 1 = shift low base (middle.next + 1)
      rw [shift_succ reached, ended]
  | .dice number (.letter code) modifiers flavor raw, ledger, last, term, built, above, start, begins => by
    rcases clauseDice_eq_ok.1 built with ⟨given, middle, first, dice⟩
    rcases diceLetter_eq_ok.1 dice with ⟨kind, made, named, rolled, rfl⟩
    rcases amount_built number first with ⟨grown, _⟩
    rcases amount_rebuilds number first above begins with ⟨between, again, ended⟩
    have reached : low ≤ middle.next := Nat.le_trans above grown.extended.next_le
    have rebuilt : Gives (DiceInput.build setup
        (letterInput kind (given.renumber (shift low base)) modifiers (keptFlavor flavor))) between
        (made.renumber (shift low base)) (shift low base last.next) :=
      dice_rebuilds rolled reached ended rfl rfl rfl rfl rfl rfl (flavorOptions_keptFlavor flavor)
    rcases rebuilt with ⟨final, rerolled, reached⟩
    exact ⟨final, clauseDice_eq_ok.2 ⟨_, between, again,
      diceLetter_eq_ok.2 ⟨kind, _, named, rerolled, rfl⟩⟩, reached⟩
  | .dice number (.amount faces) modifiers flavor raw, ledger, last, term, built, above, start, begins => by
    rcases clauseDice_eq_ok.1 built with ⟨given, middle, first, dice⟩
    rcases diceAmount_eq_ok.1 dice with ⟨sides, later, made, second, rolled, rfl⟩
    rcases amount_built number first with ⟨grown, _⟩
    rcases amount_built faces second with ⟨grownMore, _⟩
    rcases amount_rebuilds number first above begins with ⟨between, again, ended⟩
    have reached : low ≤ middle.next := Nat.le_trans above grown.extended.next_le
    rcases amount_rebuilds faces second reached ended with ⟨behind, sided, finished⟩
    have reachedToo : low ≤ later.next := Nat.le_trans reached grownMore.extended.next_le
    have rebuilt : Gives (DiceInput.build setup
        (facesInput (given.renumber (shift low base)) (sides.renumber (shift low base)) modifiers
          (keptFlavor flavor))) behind (made.renumber (shift low base)) (shift low base last.next) :=
      dice_rebuilds rolled reachedToo finished rfl rfl rfl rfl rfl rfl
        (flavorOptions_keptFlavor flavor)
    rcases rebuilt with ⟨final, rerolled, final_next⟩
    exact ⟨final, clauseDice_eq_ok.2 ⟨_, between, again,
      diceAmount_eq_ok.2 ⟨_, behind, _, sided, rerolled, rfl⟩⟩, final_next⟩

/-- The canonical tree gives the terms of the tree. -/
theorem terms_rebuilds : (tree : Tree Clause) → {ledger last : Ledger} → {row : List Term} →
    terms setup tree ledger = .ok (row, last) → low ≤ ledger.next →
    {start : Ledger} → start.next = shift low base ledger.next →
    Gives (terms setup (canonicalTree tree)) start (Term.renumberRow (shift low base) row)
      (shift low base last.next)
  | .leaf part, ledger, last, row, built, above, start, begins => by
    rcases leaf_eq_ok.1 built with ⟨term, single, rfl⟩
    rcases clause_rebuilds part single above begins with ⟨final, again, ended⟩
    exact ⟨final, leaf_eq_ok.2 ⟨_, again, rfl⟩, ended⟩
  | .node op left right, ledger, last, row, built, above, start, begins => by
    rcases node_eq_ok.1 built with ⟨before, middle, behind, first, second, rfl⟩
    rcases terms_built left first with ⟨grown, _, _⟩
    rcases terms_rebuilds left first above begins with ⟨between, again, ended⟩
    have reached : low ≤ middle.next := Nat.le_trans above grown.extended.next_le
    have joining : between.allot.next = shift low base middle.allot.next := by
      rw [Ledger.next_allot, Ledger.next_allot, shift_succ reached, ended]
    rcases terms_rebuilds right second (Nat.le_succ_of_le reached) joining with
      ⟨final, further, finished⟩
    refine ⟨final, node_eq_ok.2 ⟨_, between, _, again, further, ?_⟩, finished⟩
    rw [Term.renumberRow_eq_map, Term.renumberRow_eq_map, Term.renumberRow_eq_map, List.map_append,
      List.map_cons, ended]
    rfl

/-- The canonical trees give the rolls of the trees. -/
theorem rolls_rebuilds : (trees : List (Tree Clause)) → {ledger last : Ledger} →
    {built : List Roll} → rolls setup trees ledger = .ok (built, last) → low ≤ ledger.next →
    {start : Ledger} → start.next = shift low base ledger.next →
    Gives (rolls setup (canonicalTrees trees)) start (Term.renumberRolls (shift low base) built)
      (shift low base last.next)
  | [], ledger, last, built, given, above, start, begins => by
    rcases rolls_nil_eq_ok.1 given with ⟨rfl, rfl⟩
    exact ⟨start, rolls_nil_eq_ok.2 ⟨rfl, rfl⟩, begins⟩
  | tree :: rest, ledger, last, built, given, above, start, begins => by
    rcases rolls_cons_eq_ok.1 given with
      ⟨row, middle, first, later, more, inside, around, others, rfl⟩
    rcases terms_built tree inside with ⟨grown, spans, _⟩
    rcases roll_of_fresh grown spans around with ⟨rfl, rfl, checked⟩
    rcases terms_rebuilds tree inside above begins with ⟨between, again, ended⟩
    have reached : low ≤ middle.next := Nat.le_trans above grown.extended.next_le
    have whole := roll_rebuilds inside checked again [] []
    have behind : between.allot.next = shift low base middle.allot.next := by
      rw [Ledger.next_allot, Ledger.next_allot, shift_succ reached, ended]
    rcases rolls_rebuilds rest others (Nat.le_succ_of_le reached) behind with
      ⟨final, further, finished⟩
    refine ⟨final, rolls_cons_eq_ok.2 ⟨_, between, _, _, _, again, whole, further, ?_⟩, finished⟩
    rw [Term.renumberRolls_eq_map, Term.renumberRolls_eq_map, List.map_cons, ended]
    rfl

/-- The canonical amount gives the amount. -/
theorem amount_rebuilds : (given : Amount Clause) → {ledger last : Ledger} →
    {built : AmountInput} → amount setup given ledger = .ok (built, last) → low ≤ ledger.next →
    {start : Ledger} → start.next = shift low base ledger.next →
    Gives (amount setup (canonicalAmount given)) start (built.renumber (shift low base))
      (shift low base last.next)
  | .known n, ledger, last, built, given, above, start, begins => by
    rcases known_eq_ok.1 given with ⟨rfl, rfl⟩
    exact ⟨start, known_eq_ok.2 ⟨rfl, rfl⟩, begins⟩
  | .computed inner raw, ledger, last, built, given, above, start, begins => by
    rcases computed_eq_ok.1 given with ⟨row, middle, roll, later, inside, around, rfl, rfl⟩
    rcases terms_built inner inside with ⟨grown, spans, _⟩
    rcases roll_of_fresh grown spans around with ⟨rfl, rfl, checked⟩
    rcases terms_rebuilds inner inside above begins with ⟨between, again, ended⟩
    have reached : low ≤ middle.next := Nat.le_trans above grown.extended.next_le
    have whole := roll_rebuilds inside checked again [] []
    refine ⟨between.allot.allot,
      computed_eq_ok.2 ⟨_, between, _, between.allot, again, whole, ?_, rfl⟩, ?_⟩
    · rw [Ledger.next_allot between, ended, ← shift_succ reached]
      rfl
    · simp only [Ledger.next_allot, ended]
      rw [shift_succ (Nat.le_succ_of_le reached), shift_succ reached]

end

/-! ## Records of what was built twice -/

/-- What was built from the same amounts and is not evaluated yet is alike in two ledgers. -/
theorem alike_of_built {term : Term} {ledger other : Ledger} {f : Identity → Identity}
    (built : term.IsBuilt setup ledger) (again : (term.renumber f).IsBuilt setup other)
    (fresh : (ledger.term term.id).IsFresh) (freshToo : (other.term (f term.id)).IsFresh) :
    term.Alike f ledger other := by
  refine ⟨?_, ?_, ?_⟩
  · rw [Ledger.isEvaluated, Ledger.isEvaluated, Term.id_renumber, fresh, freshToo]
  · rintro dice rfl
    rcases built.2 dice rfl with ⟨name, _, default, _, method⟩
    rcases again.2 (dice.renumber f) rfl with ⟨nameToo, _, defaultToo, _, methodToo⟩
    have same : DiceInput.defaultMethod setup dice.kind (Term.renumberAmount f dice.faces) =
        .ok nameToo := defaultToo
    rw [DiceInput.defaultMethod_renumber, default] at same
    cases same
    have none : ledger.outcomes dice.tag.id = [] := congrArg TermState.outcomes fresh
    have noneToo : other.outcomes (f dice.tag.id) = [] := congrArg TermState.outcomes freshToo
    exact ⟨noneToo.trans none.symm, methodToo.trans method.symm⟩
  · rintro pool rfl
    have none : ledger.outcomes pool.tag.id = [] := congrArg TermState.outcomes fresh
    have noneToo : other.outcomes (f pool.tag.id) = [] := congrArg TermState.outcomes freshToo
    exact noneToo.trans none.symm

/-- Rolls that are not evaluated yet are alike. -/
theorem alike_of_unevaluated {roll : Roll} {ledger other : Ledger} {f : Identity → Identity}
    (fresh : ledger.roll roll.id = default) (freshToo : other.roll (f roll.id) = default) :
    RollOf.Alike f ledger other roll := by
  have unevaluated : ledger.isRollEvaluated roll = false := by
    rw [Ledger.isRollEvaluated, fresh]
    rfl
  have unevaluatedToo : other.isRollEvaluated (roll.renumber f) = false :=
    congrArg (fun state => RollState.phase state == .evaluated) freshToo
  refine ⟨unevaluatedToo.trans unevaluated.symm, ?_⟩
  rw [Ledger.rollTotal, Ledger.rollTotal, unevaluated, unevaluatedToo]
  rfl

/-- A roll that was built twice and is not evaluated yet is a copy of itself. -/
theorem copied_of_built {roll : Roll} {first base : Nat} {ledger other : Ledger}
    (spans : roll.Spans first ledger.next) (fresh : Ledger.FreshOn ledger first ledger.next)
    (freshToo : Ledger.FreshOn other base other.next)
    (ended : other.next = shift first base ledger.next)
    (built : RowBuilt setup ledger roll.terms)
    (again : RowBuilt setup other (Term.renumberRow (shift first base) roll.terms)) :
    roll.Copied (shift first base) ledger other := by
  have bounds := spans.bounds
  have there {id : Identity} (above : first ≤ id) (below : id < ledger.next) :
      (other.term (shift first base id)).IsFresh ∧ other.roll (shift first base id) = default := by
    refine freshToo _ (Nat.le_add_right _ _) ?_
    rw [ended]
    exact shift_lt above below
  refine ⟨alike_of_unevaluated (fresh _ bounds.1 bounds.2).2 (there bounds.1 bounds.2).2, ?_⟩
  refine (built.and again.of_renumber).imp spans.1 ?_ ?_
  · intro term above below ⟨here, copied⟩
    have used := Nat.lt_trans below bounds.2
    exact alike_of_built here copied (fresh _ above used).1 (there above used).1
  · intro inner above below _
    have used := Nat.lt_trans below bounds.2
    exact alike_of_unevaluated (fresh _ above used).2 (there above used).2

/-! ## Formulas of rolls -/

/-- The canonical text of the tree of a formula is parsed as the canonical tree. -/
theorem parseFormula_canonical {formula : String} {tree : Tree Clause} {settings : Settings}
    (given : setup.settings = .ok settings) (parsed : parseFormula setup formula none = .ok tree)
    (whole : TreeThroughout Clause.IsWhole tree)
    (known : TreeThroughout Clause.HasKnownFaces tree)
    (few : treeNesting tree ≤ settings.maxNesting) :
    parseFormula setup (canonicalTree tree).raw none = .ok (canonicalTree tree) := by
  unfold parseFormula at parsed ⊢
  rw [given] at parsed ⊢
  rcases Source.parse_sound parsed with ⟨row, legible⟩
  have readable : TreeThroughout Clause.IsReadable tree :=
    treeThroughout_both tree legible (treeThroughout_both tree whole known)
  exact parse_canonical row readable few _

/-- A roll can be built from its own formula, if the numbers in the formula that it was
built from are integers and the formula does not open more brackets than allowed.  The
second roll has the record of the first one. -/
theorem ofFormula_formula {formula : String} {ledger made : Ledger} {roll : Roll}
    (built : ofFormula setup { formula := formula } ledger = .ok (roll, made))
    {settings : Settings} (given : setup.settings = .ok settings) {tree : Tree Clause}
    (parsed : parseFormula setup formula none = .ok tree)
    (whole : TreeThroughout Clause.IsWhole tree) (few : treeNesting tree ≤ settings.maxNesting)
    (other : Ledger) :
    ∃ copy final, ofFormula setup { formula := roll.formula } other = .ok (copy, final) ∧
      final.recordOfRoll copy = made.recordOfRoll roll ∧ copy.formula = roll.formula := by
  rcases ofFormula_eq_ok.1 built with
    ⟨text, found, row, middle, later, replaced, read, inside, around, _, rfl⟩
  cases replaced.symm.trans (Reference.replaceText_nothing formula)
  cases read.symm.trans parsed
  rcases terms_built tree inside with ⟨grown, spans, parts⟩
  rcases roll_of_fresh grown spans around with ⟨rfl, rfl, checked⟩
  rcases terms_written tree inside with ⟨written, known⟩
  rcases terms_rebuilds tree inside (Nat.le_refl _) (shift_first ledger.next other.next) with
    ⟨between, again, ended⟩
  rcases terms_built _ again with ⟨grownToo, spansToo, partsToo⟩
  let roll : Roll := { id := middle.next, options := [], data := [], terms := row }
  let f := shift ledger.next other.next
  have text : roll.formula = (canonicalTree tree).raw := written
  have around := roll_rebuilds inside checked again [] []
  have named : { id := between.next, options := [], data := [], terms := Term.renumberRow f row } =
      roll.renumber f := by
    rw [ended]
    rfl
  rw [named] at around
  have copied : roll.Copied f middle.allot between.allot := by
    refine copied_of_built ⟨spans, rfl⟩ (grown.trans (.allot middle)).fresh
      (grownToo.trans (.allot between)).fresh ?_ (rowBuilt_extend parts spans (.allot middle))
      (rowBuilt_extend partsToo spansToo (.allot between))
    rw [Ledger.next_allot, Ledger.next_allot, shift_succ grown.next_le, ended]
  refine ⟨roll.renumber f, between.allot, ofFormula_eq_ok.2 ?_, copied.record,
    RollOf.formula_renumber f roll⟩
  refine ⟨roll.formula, canonicalTree tree, _, between, between.allot,
    Reference.replaceText_nothing _, ?_, again, around, fun given => absurd rfl given, rfl⟩
  rw [text]
  exact parseFormula_canonical given parsed whole known few

/-- A formula with clauses of every kind, which is not in canonical form. -/
def variedFormula : String :=
  "--2d6kh [hot] - -(d8) * {(1+1)d(4)r<2, dc , 3}kl1 % max( 5, -2 )-+ word[x] / 4[]"

theorem ofFormula_formula_of_varied : ∃ roll made tree,
    ofFormula usual { formula := variedFormula } .empty = .ok (roll, made) ∧
    parseFormula usual variedFormula none = .ok tree ∧
    TreeThroughout Clause.IsWhole tree ∧ treeNesting tree ≤ Settings.maxNesting {} ∧
    ∃ copy final, ofFormula usual { formula := roll.formula } made = .ok (copy, final) ∧
      final.recordOfRoll copy = made.recordOfRoll roll ∧ copy.formula = roll.formula := by
  have valid : usual.settings = .ok {} := rfl
  have computed : (match parseFormula usual variedFormula none with
      | .ok tree => decide (TreeThroughout Clause.IsWhole tree) && decide (treeNesting tree ≤ 2) &&
          ((terms usual tree >>= Build.roll [] []) .empty).isOk
      | .error _ => false) = true := by
    -- the characters are listed first, since it takes the kernel long to read them from a string
    rw [parseFormula_of_settings valid, show variedFormula.toList = _ from String.toList_ofList]
    decide +kernel
  cases parsed : parseFormula usual variedFormula none with
  | error fault =>
    rw [parsed] at computed
    cases computed
  | ok tree =>
    rw [parsed] at computed
    simp only [Bool.and_eq_true] at computed
    obtain ⟨⟨whole, few⟩, builds⟩ := computed
    have whole := of_decide_eq_true whole
    have few : treeNesting tree ≤ Settings.maxNesting {} :=
      Nat.le_trans (of_decide_eq_true few) (by decide)
    cases made : (terms usual tree >>= Build.roll [] []) .empty with
    | error fault =>
      rw [made] at builds
      cases builds
    | ok pair =>
      obtain ⟨row, middle, inside, around⟩ := bind_eq_ok.1 made
      have built : ofFormula usual { formula := variedFormula } .empty = .ok (pair.1, pair.2) :=
        ofFormula_eq_ok.2 ⟨variedFormula, tree, row, middle, pair.2,
          Reference.replaceText_nothing _, parsed, inside, around, fun given => absurd rfl given,
          rfl⟩
      exact ⟨pair.1, pair.2, tree, built, rfl, whole, few,
        ofFormula_formula built valid parsed whole few pair.2⟩

end Build
end DiceNotation
