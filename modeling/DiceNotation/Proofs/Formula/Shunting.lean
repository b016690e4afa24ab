import DiceNotation.Roll.Parts

namespace DiceNotation

/-!
# What waits on the two stacks

When an operand has been read, the trees below it and the operators wait in pairs: at most one
product or quotient waits for its right side, and below it at most one sum or difference.  So
there is a tree for every join, and the operators on the stack are known.  The pass builds the
tree that the recursive reading of the row gives, and is stopped by the same misplaced item; only
an operand that has no text can stop it before.
-/

namespace Stacks

variable {α β : Type}

/-- A tree that waits for the operand to the right of the operator behind it. -/
structure Side (α : Type) where
  tree : Tree α
  op : Operator
  shown : String

namespace Side

/-- The operator of a side, as it stands on the stack. -/
def entry (side : Side α) : String × String := (side.op.symbol, side.shown)

/-- Joins waiting sides to an operand, the nearest side first. -/
def settle (sides : List (Side α)) (tree : Tree α) : Tree α :=
  sides.foldl (fun right side => .node side.op side.tree right) tree

end Side

theorem Side.isShown_settle {shows : α → Bool} (sides : List (Side α)) {tree : Tree α}
    (missing : (settle sides tree).isShown shows = false) : tree.isShown shows = false := by
  induction sides generalizing tree with
  | nil => exact missing
  | cons side sides ih => cases ih missing

/-- What waits below an operand: a product that goes on, and a sum that goes on behind it. -/
structure Waiting (α : Type) where
  factor : Option (Side α)
  summand : Option (Side α)
  tight : ∀ side ∈ factor, side.op.isMultiplicative = true
  loose : ∀ side ∈ summand, side.op.isMultiplicative = false

namespace Waiting

/-- Nothing waits below the first operand. -/
def nothing : Waiting α := ⟨none, none, nofun, nofun⟩

/-- The waiting sides, the nearest first. -/
def sides (waiting : Waiting α) : List (Side α) :=
  waiting.factor.toList ++ waiting.summand.toList

/-- The stacks when an operand has been read. -/
def asStacks (waiting : Waiting α) (tree : Tree α) : Stacks α :=
  ⟨tree :: waiting.sides.map Side.tree, waiting.sides.map Side.entry, false⟩

/-- The stacks when an operator has been read. -/
def awaiting (waiting : Waiting α) : Stacks α :=
  ⟨waiting.sides.map Side.tree, waiting.sides.map Side.entry, true⟩

/-- The product that the operand ends. -/
def product (waiting : Waiting α) (tree : Tree α) : Tree α :=
  Side.settle waiting.factor.toList tree

/-- The sum that waits for the product. -/
def sum (waiting : Waiting α) : Option (Tree α × Operator) :=
  waiting.summand.map fun side => (side.tree, side.op)

/-- What waits when an operator has been read behind an operand. -/
def behind (waiting : Waiting α) (tree : Tree α) (op : Operator) (shown : String) : Waiting α :=
  match tight : op.isMultiplicative with
  | true => ⟨some ⟨waiting.product tree, op, shown⟩, waiting.summand,
      fun _ is => Option.some.inj is ▸ tight, waiting.loose⟩
  | false => ⟨none, some ⟨Side.settle waiting.sides tree, op, shown⟩, nofun,
      fun _ is => Option.some.inj is ▸ tight⟩

theorem behind_of_tight (waiting : Waiting α) (tree : Tree α) {op : Operator} (shown : String)
    (tight : op.isMultiplicative = true) :
    (waiting.behind tree op shown).factor = some ⟨waiting.product tree, op, shown⟩ ∧
      (waiting.behind tree op shown).summand = waiting.summand := by
  unfold behind
  split
  · exact ⟨rfl, rfl⟩
  · rename_i loose
    cases tight.symm.trans loose

theorem behind_of_loose (waiting : Waiting α) (tree : Tree α) {op : Operator} (shown : String)
    (loose : op.isMultiplicative = false) :
    (waiting.behind tree op shown).factor = none ∧
      (waiting.behind tree op shown).summand =
        some ⟨Side.settle waiting.sides tree, op, shown⟩ := by
  unfold behind
  split
  · rename_i tight
    cases tight.symm.trans loose
  · exact ⟨rfl, rfl⟩

/-- An operator parts the waiting sides: those that bind no weaker are joined to the operand before
it, and wait behind it as one side, above those that bind weaker. -/
theorem sides_behind (waiting : Waiting α) (tree : Tree α) (op : Operator) (shown : String) :
    ∃ upper lower, waiting.sides = upper ++ lower ∧
      (waiting.behind tree op shown).sides = ⟨Side.settle upper tree, op, shown⟩ :: lower ∧
      (∀ side ∈ upper, op.precedence ≤ side.op.precedence) ∧
      ∀ side ∈ lower, side.op.precedence < op.precedence := by
  cases kind : op.isMultiplicative with
  | true =>
    have ⟨factor, summand⟩ := waiting.behind_of_tight tree shown kind
    have twenty := Operator.precedence_of_multiplicative kind
    refine ⟨waiting.factor.toList, waiting.summand.toList, rfl, ?_, fun side member => ?_,
      fun side member => ?_⟩
    · rw [sides, factor, summand]
      rfl
    · have tight := waiting.tight side (Option.mem_toList.1 member)
      exact Nat.le_of_eq (twenty.trans (Operator.precedence_of_multiplicative tight).symm)
    · have loose := waiting.loose side (Option.mem_toList.1 member)
      rw [twenty, Operator.precedence_of_additive loose]
      decide
  | false =>
    have ⟨factor, summand⟩ := waiting.behind_of_loose tree shown kind
    refine ⟨waiting.sides, [], (List.append_nil _).symm, ?_, fun side _ => ?_, nofun⟩
    · rw [sides, factor, summand]
      rfl
    · rw [Operator.precedence_of_additive kind]
      exact side.op.precedence_bounds.1

/-- All that waits is joined to an operand as a sum is closed. -/
theorem settle_sides (waiting : Waiting α) (tree : Tree α) :
    Side.settle waiting.sides tree = Tree.close waiting.sum (waiting.product tree) := by
  unfold sides sum product Side.settle
  rw [List.foldl_append]
  cases waiting.summand <;> rfl

/-- To read an operator and an operand is one turn of grouping. -/
theorem group_behind (waiting : Waiting α) (tree : Tree α) (op : Operator) (shown : String)
    (next : Tree α) (rest : List (Operator × Tree α)) :
    Tree.group waiting.sum (waiting.product tree) ((op, next) :: rest) =
      Tree.group (waiting.behind tree op shown).sum
        ((waiting.behind tree op shown).product next) rest := by
  rw [Tree.group]
  cases kind : op.isMultiplicative with
  | true =>
    have ⟨factor, summand⟩ := waiting.behind_of_tight tree shown kind
    rw [if_pos rfl, sum, sum, summand]
    unfold product
    rw [factor]
    rfl
  | false =>
    have ⟨factor, summand⟩ := waiting.behind_of_loose tree shown kind
    rw [if_neg Bool.false_ne_true, ← settle_sides, sum, product, summand, factor]
    rfl

end Waiting

/-- Two results are the same, unless the first is stopped by a text that is missing. -/
def SameUnless (hidden : Prop) (result expected : Except (Halt α) β) : Prop :=
  result = expected ∨ (result = .error .noText ∧ hidden)

theorem SameUnless.mono {hidden other : Prop} {result expected : Except (Halt α) β}
    (same : SameUnless hidden result expected) (more : hidden → other) :
    SameUnless other result expected :=
  same.imp id fun ⟨stopped, missing⟩ => ⟨stopped, more missing⟩

/-- What goes on alike after the same result is the same again. -/
theorem SameUnless.bind {γ : Type} {hidden : Prop} {result : Except (Halt α) β} {value : β}
    (same : SameUnless hidden result (.ok value)) (next : β → Except (Halt α) γ) :
    SameUnless hidden (result >>= next) (next value) := by
  rcases same with rfl | ⟨rfl, missing⟩
  · exact .inl rfl
  · exact .inr ⟨rfl, missing⟩

theorem SameUnless.trans {hidden : Prop} {first second third : Except (Halt α) β}
    (same : SameUnless hidden first second) (more : SameUnless hidden second third) :
    SameUnless hidden first third := by
  rcases same with rfl | stopped
  · exact more
  · exact .inr stopped

variable (shows : α → Bool)

/-- Whether one of some trees has no text. -/
def Hides (trees : List (Tree α)) : Prop := ∃ tree ∈ trees, tree.isShown shows = false

theorem Hides.mono {shows : α → Bool} {trees more : List (Tree α)} (hides : Hides shows trees)
    (inside : trees ⊆ more) : Hides shows more := by
  rcases hides with ⟨tree, member, missing⟩
  exact ⟨tree, inside member, missing⟩

theorem join_sides (side : Side α) (tree : Tree α) (below : List (Tree α)) :
    SameUnless (Hides shows [side.tree, tree])
      (join shows side.op.symbol (tree :: side.tree :: below))
      (.ok (.node side.op side.tree tree :: below)) := by
  rw [join, Operator.ofSymbol?_symbol]
  cases left : side.tree.isShown shows with
  | false => exact .inr ⟨rfl, side.tree, List.mem_cons_self, left⟩
  | true =>
    cases right : tree.isShown shows with
    | false => exact .inr ⟨rfl, tree, List.mem_cons_of_mem _ List.mem_cons_self, right⟩
    | true => exact .inl rfl

/-- Sides whose operators give way are joined to the operand above them, down to one whose
operator does not. -/
theorem reduce_sides (gives : String → Except (Halt α) Bool) (upper lower : List (Side α))
    (yield : ∀ side ∈ upper, gives side.op.symbol = .ok true)
    (stay : ∀ side ∈ lower, gives side.op.symbol = .ok false) (tree : Tree α) :
    SameUnless (Hides shows (tree :: upper.map Side.tree))
      (reduce shows gives ((upper ++ lower).map Side.entry)
        (tree :: (upper ++ lower).map Side.tree))
      (.ok (lower.map Side.entry, Side.settle upper tree :: lower.map Side.tree)) := by
  induction upper generalizing tree with
  | nil =>
    cases lower with
    | nil => exact .inl rfl
    | cons side below =>
      refine .inl ?_
      change (gives side.op.symbol >>= _) = _
      rw [stay side List.mem_cons_self]
      rfl
  | cons side upper ih =>
    change SameUnless _ (gives side.op.symbol >>= _) _
    rw [yield side List.mem_cons_self]
    have joined := (join_sides shows side tree ((upper ++ lower).map Side.tree)).bind
      fun output => reduce shows gives ((upper ++ lower).map Side.entry) output
    refine (joined.mono fun hides => hides.mono ?_).trans ((ih (fun other member =>
      yield other (List.mem_cons_of_mem _ member)) _).mono ?_)
    · intro other member
      simp only [List.mem_cons, List.not_mem_nil, or_false] at member
      rcases member with rfl | rfl
      · exact List.mem_cons_of_mem _ List.mem_cons_self
      · exact List.mem_cons_self
    · rintro ⟨other, member, missing⟩
      rcases List.mem_cons.1 member with rfl | member
      · cases missing
      · exact ⟨other, List.mem_cons_of_mem _ (List.mem_cons_of_mem _ member), missing⟩

theorem givesWay_symbol (precedence : Nat) (op : Operator) :
    (givesWay precedence op.symbol : Except (Halt α) Bool) =
      .ok (decide (precedence ≤ op.precedence)) := by
  rw [givesWay, precedence?, Operator.ofSymbol?_symbol]
  rfl

/-- When an operator comes, the sides that bind no weaker are joined to the operand before it. -/
theorem read_operator (waiting : Waiting α) (tree : Tree α) (op : Operator) (shown : String) :
    SameUnless (Hides shows (tree :: waiting.sides.map Side.tree))
      (read shows (waiting.asStacks tree) (.operator op.symbol shown))
      (.ok (waiting.behind tree op shown).awaiting) := by
  have known : precedence? op.symbol = some op.precedence := by
    rw [precedence?, Operator.ofSymbol?_symbol]
    rfl
  have behindOperand : (waiting.asStacks tree).awaitsOperand = false := rfl
  rcases waiting.sides_behind tree op shown with ⟨upper, lower, before, after, tight, loose⟩
  have reduced := reduce_sides shows (givesWay op.precedence) upper lower
    (fun side member => by rw [givesWay_symbol, decide_eq_true (tight side member)])
    (fun side member => by
      rw [givesWay_symbol, decide_eq_false (Nat.not_le_of_lt (loose side member))]) tree
  have reduced := reduced.mono fun hides => hides.mono
    (List.cons_subset_cons tree (List.map_subset Side.tree (List.subset_append_left upper lower)))
  rw [read, behindOperand, if_neg Bool.false_ne_true, known, Waiting.awaiting, after,
    Waiting.asStacks, before]
  exact reduced.bind _

/-- When the row ends, all that waits is joined to the last operand. -/
theorem finish_waiting (waiting : Waiting α) (tree : Tree α) :
    SameUnless (Hides shows (tree :: waiting.sides.map Side.tree))
      (finish shows (waiting.asStacks tree))
      (.ok (Tree.close waiting.sum (waiting.product tree))) := by
  have reduced := reduce_sides shows (fun _ => .ok true) waiting.sides [] (fun _ _ => rfl)
    (fun _ member => absurd member List.not_mem_nil) tree
  have behindOperand : (waiting.asStacks tree).awaitsOperand = false := rfl
  rw [List.append_nil] at reduced
  rw [← waiting.settle_sides, finish, behindOperand, if_neg Bool.false_ne_true]
  exact reduced.bind _

/-- The operands of a row that are trees. -/
def operandsOf (items : List (Item (Tree α))) : List (Tree α) := items.filterMap fun
  | .operand tree => some tree
  | .operator _ _ => none

/-- The result of a reading as that of a pass. -/
def passed (reading : Except (Misplaced (Tree α)) (Tree α)) : Except (Halt α) (Tree α) :=
  reading.mapError .misplaced

/-- An operator with an operand behind it is read as one more operand that is joined. -/
theorem readOperators_pair (op : Operator) (shown : String) (next : Tree α)
    (rest : List (Item (Tree α))) :
    Item.readOperators (.operator op.symbol shown :: .operand next :: rest) =
      (Item.readOperators rest).map fun more => (op, next) :: more := by
  rw [Item.readOperators, Operator.ofSymbol?_symbol]
  dsimp only
  rw [Item.readOperand]
  cases Item.readOperators rest <;> rfl

/-- What has no text behind an operator and an operand had none before them: a side that was
joined has a text. -/
theorem hides_behind {shows : α → Bool} {waiting : Waiting α} {tree : Tree α} {op : Operator}
    {shown : String} {next : Tree α} {rest : List (Tree α)}
    (hides : Hides shows (next :: (waiting.behind tree op shown).sides.map Side.tree ++ rest)) :
    Hides shows (tree :: waiting.sides.map Side.tree ++ next :: rest) := by
  rcases waiting.sides_behind tree op shown with ⟨upper, lower, before, after, _⟩
  rcases hides with ⟨other, member, missing⟩
  rw [after] at member
  rw [before]
  simp only [List.map_cons, List.cons_append, List.mem_cons, List.mem_append] at member
  rcases member with rfl | rfl | member | member
  · exact ⟨other, by simp, missing⟩
  · exact ⟨tree, by simp, Side.isShown_settle upper missing⟩
  · exact ⟨other, by simp [member], missing⟩
  · exact ⟨other, by simp [member], missing⟩

/-- The pass goes on as the recursive reading does.  The invariant is that the stacks hold what
waits; an operator together with the operand behind it leads from such stacks to such stacks. -/
theorem run_waiting (waiting : Waiting α) (tree : Tree α) : (items : List (Item (Tree α))) →
    SameUnless (Hides shows (tree :: waiting.sides.map Side.tree ++ operandsOf items))
      (run shows (waiting.asStacks tree) items)
      (passed ((Item.readOperators items).map (Tree.group waiting.sum (waiting.product tree))))
  | [] => (finish_waiting shows waiting tree).mono fun hides => hides.mono (by simp)
  | .operand next :: rest => .inl rfl
  | .operator symbol shown :: rest => by
    cases known : Operator.ofSymbol? symbol with
    | none =>
      refine .inl ?_
      rw [Item.readOperators, run, read, precedence?, known]
      rfl
    | some op =>
      obtain rfl := Operator.eq_symbol_of_ofSymbol? known
      have turned := (read_operator shows waiting tree op shown).bind (run shows · rest)
      refine (turned.mono (Hides.mono · (List.subset_append_left _ (operandsOf rest)))).trans ?_
      match rest with
      | [] =>
        rcases waiting.sides_behind tree op shown with ⟨_, _, _, after, _⟩
        refine .inl ?_
        rw [run, Waiting.awaiting, after, Item.readOperators, known]
        rfl
      | .operator _ other :: _ =>
        rw [Item.readOperators, known]
        exact .inl rfl
      | .operand next :: rest =>
        have later := (run_waiting (waiting.behind tree op shown) next rest).mono hides_behind
        have grouped : ((Item.readOperators rest).map fun more => (op, next) :: more).map
            (Tree.group waiting.sum (waiting.product tree)) = (Item.readOperators rest).map
              (Tree.group (waiting.behind tree op shown).sum
                ((waiting.behind tree op shown).product next)) := by
          cases Item.readOperators rest with
          | error misplaced => rfl
          | ok more => exact congrArg Except.ok (waiting.group_behind tree op shown next more)
        rw [readOperators_pair, grouped]
        exact later

/-- The pass over a row gives the tree of its items, or is stopped by the item that is misplaced
in them, unless an operand that is no text stops it before. -/
theorem treeOf_sameUnless (items : List (Item (Tree α))) :
    SameUnless (Hides shows (operandsOf items)) (treeOf shows items)
      (passed (Tree.ofItems items)) := by
  match items with
  | [] => exact .inl rfl
  | .operator _ shown :: rest => exact .inl rfl
  | .operand first :: rest =>
    refine (run_waiting shows .nothing first rest).trans (.inl ?_)
    rw [Tree.ofItems, Item.alternating, Item.readOperand]
    · cases Item.readOperators rest <;> rfl
    · nofun

/-- If all operands have a text, the pass gives what the recursive reading gives. -/
theorem treeOf_eq {items : List (Item (Tree α))}
    (shown : ∀ tree ∈ operandsOf items, tree.isShown shows = true) :
    treeOf shows items = passed (Tree.ofItems items) := by
  rcases treeOf_sameUnless shows items with same | ⟨_, tree, member, missing⟩
  · exact same
  · cases (shown tree member).symm.trans missing

/-- The operands of a row that is read are those that its reading gives. -/
theorem operandsOf_of_readOperators : (items : List (Item (Tree α))) →
    {more : List (Operator × Tree α)} → Item.readOperators items = .ok more →
    operandsOf items = more.map (·.2)
  | [], _, read => by
    cases read
    rfl
  | .operator symbol shown :: rest, more, read => by
    cases known : Operator.ofSymbol? symbol with
    | none =>
      rw [Item.readOperators, known] at read
      cases read
    | some op =>
      obtain rfl := Operator.eq_symbol_of_ofSymbol? known
      match rest with
      | [] =>
        rw [Item.readOperators, known] at read
        cases read
      | .operator _ _ :: _ =>
        rw [Item.readOperators, known] at read
        cases read
      | .operand next :: rest =>
        rw [readOperators_pair] at read
        cases later : Item.readOperators rest with
        | error misplaced =>
          rw [later] at read
          cases read
        | ok others =>
          rw [later] at read
          cases read
          exact congrArg (next :: ·) (operandsOf_of_readOperators rest later)

theorem leaves_group (pending : Option (Tree α × Operator)) (product : Tree α)
    (rest : List (Operator × Tree α)) :
    (Tree.group pending product rest).leaves =
      (Tree.close pending product).leaves ++ rest.flatMap (·.2.leaves) := by
  induction rest generalizing pending product with
  | nil => exact (List.append_nil _).symm
  | cons next rest ih =>
    rw [Tree.group]
    split
    · rw [ih]
      cases pending <;> simp [Tree.close, Tree.leaves]
    · rw [ih]
      simp [Tree.close, Tree.leaves]

/-- The tree of a row has the leaves of all operands. -/
theorem leaves_of_ofItems {items : List (Item (Tree α))} {tree : Tree α}
    (built : Tree.ofItems items = .ok tree) :
    tree.leaves = (operandsOf items).flatMap Tree.leaves := by
  match items with
  | [] => cases built
  | .operator _ _ :: _ => cases built
  | .operand first :: rest =>
    rw [Tree.ofItems, Item.alternating, Item.readOperand] at built
    · cases read : Item.readOperators rest with
      | error misplaced =>
        rw [read] at built
        cases built
      | ok more =>
        rw [read] at built
        cases built
        rw [Tree.ofRun, leaves_group]
        change _ = first.leaves ++ (operandsOf rest).flatMap Tree.leaves
        rw [operandsOf_of_readOperators rest read, List.flatMap_map]
        rfl
    · nofun

end Stacks

/-- The tree of a row of terms, or the refusal of the item that is misplaced. -/
theorem treeOfTerms_eq (formula : String) (terms : List Term) :
    treeOfTerms formula terms = match Tree.ofItems (terms.map Term.item) with
      | .ok tree => .ok tree
      | .error misplaced => .error (misplaced.fault Tree.formula formula) := by
  have shown (tree : Tree Term) : tree.isShown (fun _ => true) = true := by cases tree <;> rfl
  rw [treeOfTerms, Stacks.treeOf_eq _ fun tree _ => shown tree]
  cases Tree.ofItems (terms.map Term.item) <;> rfl

/-- A row of parts has the tree of its items, if all parts can be shown. -/
theorem treeOfParts_of_ofItems {formula : String} {items : List (Item (Tree Part))}
    {tree : Tree Part} (built : Tree.ofItems items = .ok tree)
    (written : ∀ part ∈ tree.leaves, part.hasText = true) :
    treeOfParts formula items = .ok tree := by
  have shown (operand : Tree Part) (member : operand ∈ Stacks.operandsOf items) :
      operand.isShown Part.hasText = true := by
    cases operand with
    | leaf part =>
      refine written part ?_
      rw [Stacks.leaves_of_ofItems built]
      exact List.mem_flatMap.2 ⟨_, member, List.mem_singleton.2 rfl⟩
    | node op left right => rfl
  rw [treeOfParts, Stacks.treeOf_eq _ shown, built]
  rfl

end DiceNotation
