import DiceNotation.Proofs.Formula.Rows
import DiceNotation.Proofs.Formula.Shunting

namespace DiceNotation

/-!
# The tree that precedence prescribes

Every alternating row has exactly one tree in which operators that bind tighter stand below
those that bind weaker and operators of equal precedence group to the left.  This is the tree
that is built from the row, and written again it gives the row back, so building and writing
undo each other on such trees.
-/

/-! ## Alternating rows -/

namespace Item

variable {α : Type}

/-- Rows in which operands and operators alternate, with an operand at both ends.  An operator
may be shown with any text. -/
inductive Alternates : List (Item α) → Prop
  | single (a : α) : Alternates [.operand a]
  | join (a : α) (op : Operator) (shown : String) {rest : List (Item α)}
    (alternates : Alternates rest) : Alternates (.operand a :: .operator op.symbol shown :: rest)

theorem alternates_join {a : α} {symbol shown : String} {rest : List (Item α)} :
    Alternates (.operand a :: .operator symbol shown :: rest) ↔
      (∃ op, Operator.ofSymbol? symbol = some op) ∧ Alternates rest := by
  constructor
  · intro alternates
    cases alternates with
    | join _ op _ later => exact ⟨⟨op, Operator.ofSymbol?_symbol op⟩, later⟩
  · rintro ⟨⟨op, known⟩, later⟩
    rw [Operator.eq_symbol_of_ofSymbol? known]
    exact .join a op shown later

/-- An item whose operand is a tree of its own. -/
def asLeaf : Item α → Item (Tree α)
  | operand a => operand (.leaf a)
  | operator symbol shown => operator symbol shown

/-- An item whose operator is shown with its symbol. -/
def bare : Item α → Item α
  | operand a => operand a
  | operator symbol _ => operator symbol symbol

/-- An alternating row is read as its first operand and the operands joined to it. -/
theorem Alternates.reads {row : List (Item α)} (alternates : Alternates row) :
    ∃ (first : α) (rest : List (Operator × α)), row.map bare = .operand first :: joined rest ∧
      ∀ behind, readOperand behind (row.map asLeaf) = .ok (.leaf first, Tree.singles rest) := by
  induction alternates with
  | single a => exact ⟨a, [], rfl, fun _ => rfl⟩
  | @join a op shown items _ ih =>
    rcases ih with ⟨first, rest, written, read⟩
    refine ⟨a, (op, first) :: rest, ?_, fun behind => ?_⟩
    · rw [joined_cons, ← written]
      rfl
    · change readOperand behind (.operand (.leaf a) :: .operator op.symbol shown ::
        items.map asLeaf) = _
      rw [readOperand, readOperators, Operator.ofSymbol?_symbol]
      simp only [read]
      rfl

/-- A written row alternates. -/
theorem alternates_joined (first : α) (rest : List (Operator × α)) :
    Alternates (.operand first :: joined rest) := by
  induction rest generalizing first with
  | nil => exact .single first
  | cons next rest ih =>
    rw [joined_cons]
    exact .join first next.1 _ (ih next.2)

theorem map_bare_joined (rest : List (Operator × α)) : (joined rest).map bare = joined rest := by
  induction rest with
  | nil => rfl
  | cons next rest ih =>
    rw [joined_cons, List.map_cons, List.map_cons, ih]
    rfl

theorem joined_injective {rest other : List (Operator × α)} (same : joined rest = joined other) :
    rest = other := by
  have read := congrArg readOperators same
  rw [readOperators_joined, readOperators_joined] at read
  exact Except.ok.inj read

end Item

namespace Tree

variable {α : Type}

/-! ## Trees grouped by precedence -/

/-- The operator at the root of a tree, if it is not a single operand. -/
def root? : Tree α → Option Operator
  | leaf _ => none
  | node op _ _ => some op

/-- At every operator of a tree, the operator at the root of the left side binds no weaker and
the one at the root of the right side strictly tighter. -/
def IsGrouped : Tree α → Prop
  | leaf _ => True
  | node op left right =>
    (∀ before, left.root? = some before → op.precedence ≤ before.precedence) ∧
    (∀ behind, right.root? = some behind → op.precedence < behind.precedence) ∧
    left.IsGrouped ∧ right.IsGrouped

/-- Whether a tree is no sum: a single operand, or a product at its root. -/
def IsProduct (tree : Tree α) : Prop :=
  ∀ op, tree.root? = some op → op.isMultiplicative = true

theorem isProduct_leaf (a : α) : (leaf a).IsProduct := nofun

/-! ## What is built is grouped -/

/-- A product may be multiplied by an operand. -/
theorem IsGrouped.times {product : Tree α} (grouped : product.IsGrouped)
    (isProduct : product.IsProduct) {op : Operator} (tight : op.isMultiplicative = true) (a : α) :
    (node op product (leaf a)).IsGrouped ∧ (node op product (leaf a)).IsProduct := by
  refine ⟨⟨fun before root => ?_, nofun, grouped, trivial⟩, fun other root => ?_⟩
  · have twenty := Operator.precedence_of_multiplicative (isProduct before root)
    exact Nat.le_of_eq ((Operator.precedence_of_multiplicative tight).trans twenty.symm)
  · cases root
    exact tight

/-- A product may be added to any tree. -/
theorem IsGrouped.plus {sum product : Tree α} (groupedSum : sum.IsGrouped)
    (grouped : product.IsGrouped) (isProduct : product.IsProduct) {op : Operator}
    (loose : op.isMultiplicative = false) : (node op sum product).IsGrouped := by
  have weak := Operator.precedence_of_additive loose
  refine ⟨fun before _ => ?_, fun behind root => ?_, groupedSum, grouped⟩
  · rw [weak]
    exact (Operator.precedence_bounds before).1
  · rw [weak, Operator.precedence_of_multiplicative (isProduct behind root)]
    decide

/-- A sum that waits for a product: it is grouped, and it is joined by an additive operator. -/
def Waits (pending : Option (Tree α × Operator)) : Prop :=
  ∀ sum op, pending = some (sum, op) → sum.IsGrouped ∧ op.isMultiplicative = false

theorem IsGrouped.close {pending : Option (Tree α × Operator)} {product : Tree α}
    (waits : Waits pending) (grouped : product.IsGrouped) (isProduct : product.IsProduct) :
    (Tree.close pending product).IsGrouped := by
  cases pending with
  | none => exact grouped
  | some pair =>
    rcases waits pair.1 pair.2 rfl with ⟨groupedSum, loose⟩
    exact groupedSum.plus grouped isProduct loose

theorem waits_none : Waits (none : Option (Tree α × Operator)) := fun _ _ waits => by cases waits

/-- The invariant of building: the product is a product, and the sum before it waits. -/
theorem isGrouped_group {pending : Option (Tree α × Operator)} {product : Tree α}
    (waits : Waits pending) (grouped : product.IsGrouped) (isProduct : product.IsProduct)
    (rest : List (Operator × α)) : (group pending product (singles rest)).IsGrouped := by
  induction rest generalizing pending product with
  | nil => exact grouped.close waits isProduct
  | cons next rest ih =>
    rcases next with ⟨op, a⟩
    change (group pending product ((op, leaf a) :: singles rest)).IsGrouped
    rw [group]
    cases tight : op.isMultiplicative with
    | true =>
      rw [if_pos rfl]
      rcases grouped.times isProduct tight a with ⟨more, still⟩
      exact ih waits more still
    | false =>
      rw [if_neg Bool.false_ne_true]
      refine ih (fun sum other is => ?_) trivial (isProduct_leaf a)
      cases is
      exact ⟨grouped.close waits isProduct, tight⟩

/-- The tree that is built from a row is grouped. -/
theorem isGrouped_ofRun (first : α) (rest : List (Operator × α)) :
    (ofRun (leaf first) (singles rest)).IsGrouped :=
  isGrouped_group waits_none (show (leaf first).IsGrouped from trivial) (isProduct_leaf first) rest

/-! ## What is grouped is built -/

theorem singles_append (rest more : List (Operator × α)) :
    singles (rest ++ more) = singles rest ++ singles more := List.map_append

/-- What is built from the row of a node: the row of its left side, its operator, and the row
of its right side. -/
theorem singles_row_node (op : Operator) (left right : Tree α) (more : List (Operator × Tree α)) :
    singles (node op left right).row.2 ++ more = singles left.row.2 ++
      (op, leaf right.row.1) :: (singles right.row.2 ++ more) := by
  change singles (left.row.2 ++ (op, right.row.1) :: right.row.2) ++ more = _
  rw [singles_append, List.append_assoc]
  rfl

/-- The right side of a product is a single operand. -/
theorem IsGrouped.right_of_product {op : Operator} {left right : Tree α}
    (grouped : (node op left right).IsGrouped) (tight : op.isMultiplicative = true) :
    ∃ a, right = leaf a := by
  cases right with
  | leaf a => exact ⟨a, rfl⟩
  | node other _ _ =>
    have tighter := grouped.2.1 other rfl
    have bound := (Operator.precedence_bounds other).2
    rw [Operator.precedence_of_multiplicative tight] at tighter
    omega

/-- The left side of a product is a product. -/
theorem IsGrouped.left_of_product {op : Operator} {left right : Tree α}
    (grouped : (node op left right).IsGrouped) (tight : op.isMultiplicative = true) :
    left.IsProduct := by
  intro before root
  have bound := grouped.1 before root
  rw [Operator.precedence_of_multiplicative tight] at bound
  exact beq_iff_eq.2 (Nat.le_antisymm (Operator.precedence_bounds before).2 bound)

/-- The right side of a sum is a product. -/
theorem IsGrouped.right_of_sum {op : Operator} {left right : Tree α}
    (grouped : (node op left right).IsGrouped) : right.IsProduct := by
  intro behind root
  cases tight : behind.isMultiplicative with
  | true => rfl
  | false =>
    have tighter := grouped.2.1 behind root
    have bound := (Operator.precedence_bounds op).1
    rw [Operator.precedence_of_additive tight] at tighter
    omega

/-- To build from the row of a product is to go on with the product. -/
theorem group_product {product : Tree α} (grouped : product.IsGrouped)
    (isProduct : product.IsProduct) (pending : Option (Tree α × Operator))
    (more : List (Operator × Tree α)) :
    group pending (leaf product.row.1) (singles product.row.2 ++ more) =
      group pending product more := by
  induction product generalizing more with
  | leaf a => rfl
  | node op left right left_ih _ =>
    have tight := isProduct op rfl
    rcases grouped.right_of_product tight with ⟨a, rfl⟩
    have before := left_ih grouped.2.2.1 (grouped.left_of_product tight)
    rw [singles_row_node]
    refine (before _).trans ?_
    rw [group, if_pos tight]
    rfl

/-- The sum that waits in a tree, and its last product. -/
def parts : Tree α → Option (Tree α × Operator) × Tree α
  | leaf a => (none, leaf a)
  | node op left right =>
    if op.isMultiplicative then (none, node op left right) else (some (left, op), right)

theorem parts_of_product {op : Operator} (tight : op.isMultiplicative = true)
    (left right : Tree α) : (node op left right).parts = (none, node op left right) :=
  if_pos tight

theorem parts_of_sum {op : Operator} (loose : op.isMultiplicative = false)
    (left right : Tree α) : (node op left right).parts = (some (left, op), right) :=
  if_neg (loose ▸ Bool.false_ne_true)

theorem close_parts (tree : Tree α) : close tree.parts.1 tree.parts.2 = tree := by
  cases tree with
  | leaf a => rfl
  | node op left right =>
    cases tight : op.isMultiplicative with
    | true => rw [parts_of_product tight]; rfl
    | false => rw [parts_of_sum tight]; rfl

/-- To build from the row of a grouped tree is to go on with its last product, while the sum
before it waits.  The induction is on the left side, along which the sum was built. -/
theorem group_row {tree : Tree α} (grouped : tree.IsGrouped)
    (more : List (Operator × Tree α)) :
    group none (leaf tree.row.1) (singles tree.row.2 ++ more) =
      group tree.parts.1 tree.parts.2 more := by
  induction tree generalizing more with
  | leaf a => rfl
  | node op left right left_ih _ =>
    cases tight : op.isMultiplicative with
    | true =>
      rw [parts_of_product tight]
      refine group_product grouped (fun other root => ?_) none more
      cases root
      exact tight
    | false =>
      rw [parts_of_sum tight, singles_row_node]
      refine (left_ih grouped.2.2.1 _).trans ?_
      rw [group, tight, if_neg Bool.false_ne_true, close_parts]
      exact group_product grouped.2.2.2 grouped.right_of_sum _ more

/-- A grouped tree is built from its row. -/
theorem ofRun_row {tree : Tree α} (grouped : tree.IsGrouped) :
    ofRun (leaf tree.row.1) (singles tree.row.2) = tree := by
  have built := group_row grouped []
  rw [List.append_nil] at built
  exact built.trans (close_parts tree)

/-! ## Building and writing -/

/-- An alternating row has exactly one grouped tree, and this is the tree that is built. -/
theorem ofItems_of_alternates {row : List (Item α)} (alternates : Item.Alternates row) :
    ∃ tree, Tree.ofItems (row.map Item.asLeaf) = .ok tree ∧ tree.IsGrouped ∧
      tree.flatten = row.map Item.bare ∧
      ∀ other : Tree α, other.IsGrouped → other.flatten = row.map Item.bare → other = tree := by
  rcases alternates.reads with ⟨first, rest, written, read⟩
  have read : Item.alternating (row.map Item.asLeaf) = .ok (leaf first, singles rest) := by
    cases alternates <;> exact read ""
  refine ⟨ofRun (leaf first) (singles rest), ?_, isGrouped_ofRun first rest, ?_, ?_⟩
  · rw [Tree.ofItems, read]
  · rw [flatten_eq_row, row_ofRun, written]
  · intro other grouped same
    rw [written, flatten_eq_row] at same
    have firsts : other.row.1 = first := Item.operand.inj (List.cons.inj same).1
    have rests : other.row.2 = rest := Item.joined_injective (List.cons.inj same).2
    rw [← firsts, ← rests, ofRun_row grouped]

/-- The row of a tree alternates, and its operators are shown with their symbols. -/
theorem alternates_flatten (tree : Tree α) :
    Item.Alternates tree.flatten ∧ tree.flatten.map Item.bare = tree.flatten := by
  rw [flatten_eq_row]
  exact ⟨Item.alternates_joined _ _, congrArg (_ :: ·) (Item.map_bare_joined _)⟩

/-- A grouped tree is built again from what it is written as. -/
theorem ofItems_flatten_of_isGrouped {tree : Tree α} (grouped : tree.IsGrouped) :
    Tree.ofItems (tree.flatten.map Item.asLeaf) = .ok tree := by
  rcases tree.alternates_flatten with ⟨alternates, bare⟩
  rcases ofItems_of_alternates alternates with ⟨built, found, _, _, unique⟩
  rw [found, unique tree grouped bare.symm]

theorem mem_leaves_iff (tree : Tree α) (a : α) : a ∈ tree.leaves ↔ .operand a ∈ tree.flatten := by
  induction tree with
  | leaf b => simp [leaves, flatten]
  | node op left right left_ih right_ih => simp [leaves, flatten, left_ih, right_ih]

end Tree

/-! ## Rows of parts -/

/-- From every alternating row of clauses and terms that can be shown a tree is built.  At each
of its operators the root of the left side binds no weaker and that of the right side strictly
tighter, it is written as the row, and no other such tree is.  And every tree of this kind is
built again from what it is written as.  The parts must be shown because the text of a tree is
joined from theirs; only a term whose modifiers are no texts cannot be. -/
theorem treeOfParts_undoes_flatten (formula : String) :
    (∀ row : List (Item Part), Item.Alternates row →
      (∀ part, .operand part ∈ row → part.hasText = true) →
      ∃ tree, treeOfParts formula (row.map Item.asLeaf) = .ok tree ∧ tree.IsGrouped ∧
        tree.flatten = row.map Item.bare ∧
        ∀ other : Tree Part, other.IsGrouped → other.flatten = row.map Item.bare → other = tree) ∧
    ∀ tree : Tree Part, tree.IsGrouped → (∀ part ∈ tree.leaves, part.hasText = true) →
      treeOfParts formula (tree.flatten.map Item.asLeaf) = .ok tree := by
  constructor
  · intro row alternates written
    rcases Tree.ofItems_of_alternates alternates with ⟨tree, built, grouped, same, unique⟩
    refine ⟨tree, treeOfParts_of_ofItems built fun part member => ?_, grouped, same, unique⟩
    rw [Tree.mem_leaves_iff, same] at member
    rcases List.mem_map.1 member with ⟨item, inside, is⟩
    cases item with
    | operand a => exact written part (Item.operand.inj is ▸ inside)
    | operator symbol shown => cases is
  · exact fun tree grouped written =>
      treeOfParts_of_ofItems (Tree.ofItems_flatten_of_isGrouped grouped) written

/-- The row of `1 - 2 * 3 + 4`. -/
def mixedRow : List (Item Part) :=
  [numeral 1, .operator "-" "-", numeral 2, .operator "*" "*", numeral 3, .operator "+" "+",
    numeral 4]
where
  /-- A number as an operand. -/
  numeral (n : Int) : Item Part := .operand (.clause (.numeric (.int n) none (toString n)))

/-- The row of `1 - 2 * 3 + 4` has its tree, which is built again from what it is written as. -/
theorem mixedRow_undone :
    Item.Alternates mixedRow ∧ (∀ part, .operand part ∈ mixedRow → part.hasText = true) ∧
    ∃ tree, treeOfParts "" (mixedRow.map Item.asLeaf) = .ok tree ∧ tree.IsGrouped ∧
      tree.flatten = mixedRow.map Item.bare ∧ (∀ part ∈ tree.leaves, part.hasText = true) ∧
      treeOfParts "" (tree.flatten.map Item.asLeaf) = .ok tree := by
  have alternates : Item.Alternates mixedRow :=
    .join _ .sub "-" (.join _ .mul "*" (.join _ .add "+" (.single _)))
  have written : ∀ part, .operand part ∈ mixedRow → part.hasText = true := by
    simp [mixedRow, mixedRow.numeral, Part.hasText]
  rcases (treeOfParts_undoes_flatten "").1 mixedRow alternates written with
    ⟨tree, built, grouped, same, _⟩
  have shown : ∀ part ∈ tree.leaves, part.hasText = true := by
    intro part member
    rw [Tree.mem_leaves_iff, same] at member
    exact written part member
  exact ⟨alternates, written, tree, built, grouped, same, shown,
    (treeOfParts_undoes_flatten "").2 tree grouped shown⟩

end DiceNotation
