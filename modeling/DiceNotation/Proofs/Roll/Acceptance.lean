import DiceNotation.Proofs.Formula.Grouping
import DiceNotation.Proofs.Roll.Building

namespace DiceNotation

/-!
# The rows that are accepted

A row of operands and operators is accepted exactly if it alternates.  Any other row is refused
because of the first item that offends in it: an item is judged by its place alone, and only the
last one also by being the last.
-/

namespace Item

variable {α : Type}

/-! ## The first offence of a row -/

/-- What is wrong with an item at a place: operands stand at even places, operators that exist at
odd ones, and no operator stands last. -/
def offence? (place : Nat) (last : Bool) : Item α → Option (Misplaced α)
  | operand a => if place % 2 = 0 then none else some (.noOperator a)
  | operator symbol shown =>
    if place % 2 = 0 then some (.noLeft shown)
    else if Operator.ofSymbol? symbol = none then some (.noSuchOperator symbol shown)
    else if last then some (.noRight shown)
    else none

/-- An item of a row offends, and none before it does, if the row begins at the given place. -/
def OffendsFrom (start : Nat) (items : List (Item α)) (misplaced : Misplaced α) : Prop :=
  ∃ before item after, items = before ++ item :: after ∧
    (∀ entry ∈ before.zipIdx start, entry.1.offence? entry.2 false = none) ∧
    item.offence? (start + before.length) after.isEmpty = some misplaced

/-- Why a row is refused: it is empty, or because of the first item that offends. -/
def FirstOffence (items : List (Item α)) (misplaced : Misplaced α) : Prop :=
  (items = [] ∧ misplaced = .nothing) ∨ OffendsFrom 0 items misplaced

theorem offendsFrom_cons {start : Nat} {item : Item α} {rest : List (Item α)}
    {misplaced : Misplaced α} : OffendsFrom start (item :: rest) misplaced ↔
      item.offence? start rest.isEmpty = some misplaced ∨
        item.offence? start false = none ∧ OffendsFrom (start + 1) rest misplaced := by
  constructor
  · rintro ⟨before, other, after, split, fine, offends⟩
    cases before with
    | nil =>
      obtain ⟨rfl, rfl⟩ := List.cons.inj split
      exact .inl offends
    | cons first before =>
      obtain ⟨rfl, rfl⟩ := List.cons.inj split
      rw [List.zipIdx_cons, List.forall_mem_cons] at fine
      refine .inr ⟨fine.1, before, other, after, rfl, fine.2, ?_⟩
      rw [Nat.add_right_comm, Nat.add_assoc]
      exact offends
  · rintro (offends | ⟨fine, before, other, after, rfl, others, offends⟩)
    · exact ⟨[], item, rest, rfl, nofun, offends⟩
    · refine ⟨item :: before, other, after, rfl, ?_, ?_⟩
      · rw [List.zipIdx_cons, List.forall_mem_cons]
        exact ⟨fine, others⟩
      · rw [Nat.add_right_comm, Nat.add_assoc] at offends
        exact offends

theorem not_offendsFrom_nil {start : Nat} {misplaced : Misplaced α} :
    ¬ OffendsFrom start [] misplaced := by
  rintro ⟨before, _, _, split, _⟩
  cases before <;> cases split

mutual

/-- Where an operand must stand, a row is refused because of its first offence, or because it
ends behind an operator. -/
theorem readOperand_eq_error {misplaced : Misplaced α} (behind : String) {start : Nat}
    (even : start % 2 = 0) : (items : List (Item α)) →
    (readOperand behind items = .error misplaced ↔
      (items = [] ∧ misplaced = .noRight behind) ∨ OffendsFrom start items misplaced)
  | [] => by
    simp [readOperand, not_offendsFrom_nil, eq_comm]
  | .operator symbol shown :: rest => by
    simp [readOperand, offendsFrom_cons, offence?, even]
  | .operand a :: rest => by
    have odd : (start + 1) % 2 = 1 := by omega
    rw [readOperand, offendsFrom_cons, ← readOperators_eq_error odd rest]
    simp only [offence?, even]
    cases readOperators rest <;> simp

/-- Where an operator must stand, a row is refused because of its first offence. -/
theorem readOperators_eq_error {misplaced : Misplaced α} {start : Nat} (odd : start % 2 = 1) :
    (items : List (Item α)) →
    (readOperators items = .error misplaced ↔ OffendsFrom start items misplaced)
  | [] => by
    simp [readOperators, not_offendsFrom_nil]
  | .operand a :: rest => by
    simp [readOperators, offendsFrom_cons, offence?, odd]
  | .operator symbol shown :: rest => by
    have even : (start + 1) % 2 = 0 := by omega
    rw [readOperators, offendsFrom_cons]
    cases known : Operator.ofSymbol? symbol with
    | none => simp [offence?, odd, known]
    | some op =>
      have goes : (match readOperand shown rest with
          | .error misplaced => .error misplaced
          | .ok (a, more) => .ok ((op, a) :: more) : Except (Misplaced α) _) = .error misplaced ↔
          readOperand shown rest = .error misplaced := by
        cases readOperand shown rest <;> simp
      refine goes.trans ((readOperand_eq_error shown even rest).trans ?_)
      cases rest <;> simp [offence?, odd, known, eq_comm]

end

/-- A row is refused exactly because of its first offence. -/
theorem alternating_eq_error {items : List (Item α)} {misplaced : Misplaced α} :
    alternating items = .error misplaced ↔ FirstOffence items misplaced := by
  unfold FirstOffence
  cases items with
  | nil => simp [alternating, not_offendsFrom_nil, eq_comm]
  | cons item rest =>
    rw [alternating, readOperand_eq_error "" (Nat.zero_mod 2)]
    · simp
    · intro isOdd
      cases isOdd

/-! ## Rows that are read -/

/-- Exactly the alternating rows are read.  The induction takes an operand and the operator behind
it at a time. -/
theorem readOperand_isOk (behind : String) : (items : List (Item α)) →
    ((∃ result, readOperand behind items = .ok result) ↔ Alternates items)
  | [] => ⟨nofun, nofun⟩
  | .operator _ _ :: _ => ⟨nofun, nofun⟩
  | [.operand a] => ⟨fun _ => .single a, fun _ => ⟨(a, []), rfl⟩⟩
  | .operand _ :: .operand _ :: _ => ⟨nofun, nofun⟩
  | .operand a :: .operator symbol shown :: rest => by
    rw [alternates_join, ← readOperand_isOk shown rest, readOperand, readOperators]
    cases Operator.ofSymbol? symbol with
    | none => simp
    | some op => cases readOperand shown rest <;> simp

theorem alternating_isOk {items : List (Item α)} :
    (∃ result, alternating items = .ok result) ↔ Alternates items := by
  cases items with
  | nil => exact ⟨nofun, nofun⟩
  | cons item rest => exact readOperand_isOk "" (item :: rest)

end Item

/-! ## Rows of parts -/

/-- Whether a part can stand in a row: its formula is a text. -/
def Part.isWritten : Part → Bool
  | clause _ => true
  | term t => t.isWritten

/-- The formula of a written term is what its data is. -/
theorem Term.formulaData_of_isWritten {term : Term} (written : term.isWritten = true) :
    term.hasFormula = true ∧ term.formulaData = .string term.formula := by
  unfold isWritten at written
  rw [Bool.and_eq_true] at written
  refine ⟨written.1, ?_⟩
  cases term with
  | text tag word =>
    have isText := written.2
    simp only [formulaData] at isText ⊢
    cases flavor : tag.flavor? with
    | some _ => rfl
    | none =>
      rw [flavor] at isText
      cases word with
      | string text => simp [formula, Tag.flavored, flavor, Json.plainText]
      | _ => cases isText
  | _ => rfl

/-- The refusal of an operand that is written names its text. -/
theorem refuseMisplaced_eq {formula : String} {misplaced : Misplaced (Tree Part)}
    (written : ∀ part, misplaced = .noOperator (.leaf part) → part.isWritten = true) :
    refuseMisplaced formula misplaced = misplaced.fault (Tree.text Part.text) formula := by
  cases misplaced with
  | noOperator operand =>
    cases operand with
    | node op left right => rfl
    | leaf part =>
      cases part with
      | clause c => rfl
      | term t =>
        have ⟨hasFormula, data⟩ := Term.formulaData_of_isWritten (written _ rfl)
        rw [refuseMisplaced, refuseOperand, Part.hasText, Part.textData, hasFormula, data]
        rfl
  | _ => rfl

theorem Stacks.mem_operandsOf {α : Type} {items : List (Item (Tree α))} {tree : Tree α} :
    tree ∈ operandsOf items ↔ .operand tree ∈ items := by
  simp only [operandsOf, List.mem_filterMap]
  constructor
  · rintro ⟨item, member, is⟩
    cases item with
    | operand a => cases is; exact member
    | operator symbol shown => cases is
  · exact fun member => ⟨_, member, rfl⟩

/-- An operand that is refused is one of the row. -/
theorem Item.FirstOffence.mem {α : Type} {items : List (Item α)} {a : α}
    (offence : FirstOffence items (.noOperator a)) : .operand a ∈ items := by
  rcases offence with ⟨_, is⟩ | ⟨before, item, after, rfl, _, offends⟩
  · cases is
  · refine List.mem_append_right _ (List.mem_cons.2 (.inl ?_))
    cases item with
    | operand b =>
      simp only [offence?] at offends
      split at offends <;> cases offends
      rfl
    | operator symbol shown =>
      simp only [offence?] at offends
      repeat' split at offends
      all_goals cases offends

/-- What stops the pass over a row of parts is the first offence, or a part that has no text. -/
theorem Stacks.treeOf_eq_error {items : List (Item (Tree Part))} {halt : Halt Part}
    (stopped : treeOf Part.hasText items = .error halt) :
    (∃ misplaced, halt = .misplaced misplaced ∧ Item.FirstOffence items misplaced) ∨
      halt = .noText ∧ ∃ part, .operand (.leaf part) ∈ items ∧ part.hasText = false := by
  rcases treeOf_sameUnless Part.hasText items with same | ⟨same, tree, member, missing⟩
  · rw [same, passed, Tree.ofItems] at stopped
    cases read : Item.alternating items with
    | error misplaced =>
      rw [read] at stopped
      cases stopped
      exact .inl ⟨misplaced, rfl, Item.alternating_eq_error.1 read⟩
    | ok run =>
      rw [read] at stopped
      cases stopped
  · rw [same] at stopped
    cases stopped
    cases tree with
    | leaf part => exact .inr ⟨rfl, part, mem_operandsOf.1 member, missing⟩
    | node op left right => cases missing

/-- A row of written parts has the tree of its items, or is refused at its first offence. -/
theorem treeOfParts_of_isWritten (formula : String) {items : List (Item (Tree Part))}
    (written : ∀ part, .operand (.leaf part) ∈ items → part.isWritten = true) :
    treeOfParts formula items = match Tree.ofItems items with
      | .ok tree => .ok tree
      | .error misplaced => .error (misplaced.fault (Tree.text Part.text) formula) := by
  have shown (tree : Tree Part) (member : tree ∈ Stacks.operandsOf items) :
      tree.isShown Part.hasText = true := by
    cases tree with
    | node op left right => rfl
    | leaf part =>
      have isWritten := written part (Stacks.mem_operandsOf.1 member)
      cases part with
      | clause c => rfl
      | term t => exact (Term.formulaData_of_isWritten isWritten).1
  rw [treeOfParts, Stacks.treeOf_eq _ shown, Tree.ofItems]
  cases read : Item.alternating items with
  | ok run => rfl
  | error misplaced =>
    refine congrArg Except.error (refuseMisplaced_eq fun part is => ?_)
    exact written part (is ▸ Item.alternating_eq_error.1 read).mem

/-- A roll is made around written terms of which some are not evaluated, exactly if operands and
operators alternate in them. -/
theorem Build.roll_isOk_of_unevaluated (options data : Fields) {terms : List Term} {ledger : Ledger}
    (written : ∀ term ∈ terms, term.isWritten = true)
    (unevaluated : ∃ term ∈ terms, ledger.isEvaluated term = false) :
    (∃ roll last, Build.roll options data terms ledger = .ok (roll, last)) ↔
      Item.Alternates (terms.map Term.item) := by
  have all : terms.all Term.isWritten = true := List.all_eq_true.2 written
  have some : terms.all ledger.isEvaluated = false := by
    rcases unevaluated with ⟨term, member, is⟩
    exact List.all_eq_false.2 ⟨term, member, is ▸ Bool.false_ne_true⟩
  have filled : terms.isEmpty = false := by
    rcases unevaluated with ⟨term, member, _⟩
    exact List.isEmpty_eq_false_iff.2 (List.ne_nil_of_mem member)
  have checked : checkRow terms = .ok () ↔ Item.Alternates (terms.map Term.item) := by
    rw [← Item.alternating_isOk, checkRow, filled, all, treeOfTerms_eq, Tree.ofItems]
    cases Item.alternating (terms.map Term.item) with
    | error misplaced => simp [Except.map]
    | ok run => exact ⟨fun _ => ⟨run, rfl⟩, fun _ => rfl⟩
  simp only [roll_eq_ok, ofRow_of_unevaluated options data some, checked]
  constructor
  · rintro ⟨_, _, alternates, _⟩
    exact alternates
  · intro alternates
    exact ⟨_, _, alternates, rfl⟩

/-- Exactly the alternating rows are accepted.  Whatever stands in a row, the pass over it finds on
its stacks what it asks for, and only a misplaced item or a part without a text stops it.  A row
of written parts has a tree exactly if it alternates; else it is refused with the first offence in
it, whose text the refusal names, and an operator at the end of a row offends as the last one.  So
a roll can be made around terms that are not all evaluated exactly if they alternate. -/
theorem treeOfParts_accepts_alternating (formula : String) :
    (∀ (items : List (Item (Tree Part))) (halt : Halt Part),
      Stacks.treeOf Part.hasText items = .error halt →
        (∃ misplaced, halt = .misplaced misplaced ∧ Item.FirstOffence items misplaced) ∨
        halt = .noText ∧ ∃ part, .operand (.leaf part) ∈ items ∧ part.hasText = false) ∧
    (∀ items : List (Item (Tree Part)),
      (∀ part, .operand (.leaf part) ∈ items → part.isWritten = true) →
      ((∃ tree, treeOfParts formula items = .ok tree) ↔ Item.Alternates items) ∧
      ∀ fault, treeOfParts formula items = .error fault ↔
        ∃ misplaced, Item.FirstOffence items misplaced ∧
          fault = misplaced.fault (Tree.text Part.text) formula) ∧
    ∀ (options data : Fields) (terms : List Term) (ledger : Ledger),
      (∀ term ∈ terms, term.isWritten = true) →
      (∃ term ∈ terms, ledger.isEvaluated term = false) →
      ((∃ roll last, Build.roll options data terms ledger = .ok (roll, last)) ↔
        Item.Alternates (terms.map Term.item)) := by
  refine ⟨fun items halt => Stacks.treeOf_eq_error, fun items written => ?_,
    fun options data terms ledger => Build.roll_isOk_of_unevaluated options data⟩
  rw [treeOfParts_of_isWritten formula written, Tree.ofItems, ← Item.alternating_isOk]
  constructor
  · cases Item.alternating items with
    | error misplaced => simp
    | ok run => exact ⟨fun _ => ⟨run, rfl⟩, fun _ => ⟨_, rfl⟩⟩
  · intro fault
    simp only [← Item.alternating_eq_error]
    cases Item.alternating items with
    | error misplaced => simp [eq_comm]
    | ok run => simp

/-- The row of `2 +`, which ends behind an operator. -/
def openRow : List (Item (Tree Part)) :=
  [.operand (.leaf (.clause (.numeric (.int 2) none "2"))), .operator "+" "+"]

/-- The terms of `2 * 3`. -/
def productTerms : List Term :=
  [.numeric ⟨0, []⟩ (.number (.int 2)), .operator ⟨1, []⟩ .mul,
    .numeric ⟨2, []⟩ (.number (.int 3))]

/-- `2 +` is refused with its last operator, which stands behind two characters, and a roll is made
around the terms of `2 * 3`. -/
theorem openRow_refused :
    Stacks.treeOf Part.hasText openRow = .error (.misplaced (.noRight "+")) ∧
    Item.FirstOffence openRow (.noRight "+") ∧
    (∀ part, .operand (.leaf part) ∈ openRow → part.isWritten = true) ∧
    treeOfParts "2 +" openRow = .error (.parse .missingRight "2 +" (.string "+") (some 2)) ∧
    (∀ term ∈ productTerms, term.isWritten = true) ∧
    (∃ term ∈ productTerms, Ledger.empty.isEvaluated term = false) ∧
    ∃ roll last, Build.roll [] [] productTerms Ledger.empty = .ok (roll, last) := by
  have accepts := treeOfParts_accepts_alternating "2 +"
  have stopped : Stacks.treeOf Part.hasText openRow = .error (.misplaced (.noRight "+")) := rfl
  have written : ∀ part, .operand (.leaf part) ∈ openRow → part.isWritten = true := by
    simp [openRow, Part.isWritten]
  have shown : ∀ term ∈ productTerms, term.isWritten = true := by decide
  have waits : ∃ term ∈ productTerms, Ledger.empty.isEvaluated term = false :=
    ⟨_, List.mem_cons_self, rfl⟩
  have offence : Item.FirstOffence openRow (.noRight "+") := by
    rcases accepts.1 openRow _ stopped with ⟨misplaced, is, offence⟩ | ⟨is, _⟩
    · cases is
      exact offence
    · cases is
  refine ⟨stopped, offence, written, ?_, shown, waits, ?_⟩
  · refine ((accepts.2.1 openRow written).2 _).2 ⟨_, offence, ?_⟩
    have place : placeIn "2 +" "+" = some 2 := by decide
    rw [Misplaced.fault, Misplaced.fault.refuse, place]
  · refine (accepts.2.2 [] [] productTerms Ledger.empty shown waits).2 ?_
    exact .join _ .mul _ (.single _)

end DiceNotation
