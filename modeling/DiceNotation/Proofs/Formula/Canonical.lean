import DiceNotation.Proofs.Dice.Commands
import DiceNotation.Proofs.Formula.Rows

namespace DiceNotation

/-!
# Canonical clauses

A clause keeps the text that it was read from.  Its canonical form says the same, but
keeps the text that the term of the clause is written as.  The texts that were read may
differ from it in blanks, in signs, in numbers of dice that were left out, and in
flavors that are empty.
-/

/-- A flavor that is set. -/
def keptFlavor (flavor : Option String) : Option String := flavor.filter (· != "")

theorem withFlavor_keptFlavor (text : String) (flavor : Option String) :
    withFlavor text (keptFlavor flavor) = withFlavor text flavor := by
  cases flavor with
  | none => rfl
  | some flavor =>
    by_cases empty : flavor = ""
    · subst empty
      rfl
    · rw [keptFlavor, Option.filter_some, if_pos (bne_iff_ne.2 empty)]

theorem flavorOptions_keptFlavor (flavor : Option String) :
    flavorOptions (keptFlavor flavor) = flavorOptions flavor := by
  cases flavor with
  | none => rfl
  | some flavor =>
    by_cases empty : flavor = ""
    · subst empty
      rfl
    · rw [keptFlavor, Option.filter_some, if_pos (bne_iff_ne.2 empty)]

/-- The text of an amount of dice. -/
def Amount.text : Amount Clause → String
  | known n => toString n
  | computed _ raw => raw

/-- The text of the faces of dice. -/
def Faces.text : Faces Clause → String
  | amount a => a.text
  | letter code => code

/-- The texts of trees with commas between them. -/
def listText (trees : List (Tree Clause)) : String := ", ".intercalate (trees.map Tree.raw)

mutual

/-- The canonical form of a clause. -/
def Clause.canonical : Clause → Clause
  | .numeric value flavor _ =>
    .numeric value (keptFlavor flavor) (withFlavor value.plainText flavor)
  | .dice number faces modifiers flavor _ =>
    let number := canonicalAmount number
    let faces := canonicalFaces faces
    .dice number faces modifiers (keptFlavor flavor)
      (withFlavor (number.text ++ "d" ++ faces.text ++ modifiers) flavor)
  | .function name arguments flavor _ =>
    let arguments := canonicalTrees arguments
    .function name arguments (keptFlavor flavor)
      (withFlavor (name ++ "(" ++ listText arguments ++ ")") flavor)
  | .pool members modifiers flavor _ =>
    let members := canonicalTrees members
    .pool members modifiers (keptFlavor flavor)
      (withFlavor ("\x7b" ++ listText members ++ "\x7d" ++ modifiers) flavor)
  | .group inner flavor _ =>
    let inner := canonicalTree inner
    .group inner (keptFlavor flavor) (withFlavor ("(" ++ inner.raw ++ ")") flavor)
  | .text text flavor _ => .text text (keptFlavor flavor) (withFlavor text flavor)

def canonicalTree : Tree Clause → Tree Clause
  | .leaf clause => .leaf clause.canonical
  | .node op left right => .node op (canonicalTree left) (canonicalTree right)

def canonicalTrees : List (Tree Clause) → List (Tree Clause)
  | [] => []
  | tree :: rest => canonicalTree tree :: canonicalTrees rest

def canonicalAmount : Amount Clause → Amount Clause
  | .known n => .known n
  | .computed inner _ =>
    let inner := canonicalTree inner
    .computed inner ("(" ++ inner.raw ++ ")")

def canonicalFaces : Faces Clause → Faces Clause
  | .amount a => .amount (canonicalAmount a)
  | .letter code => .letter code

end

theorem canonicalTree_eq_map (tree : Tree Clause) :
    canonicalTree tree = tree.map Clause.canonical := by
  induction tree with
  | leaf clause => rfl
  | node op left right left_ih right_ih => rw [canonicalTree, left_ih, right_ih, Tree.map]

/-! ## Brackets open at once -/

mutual

/-- How many brackets the text of a clause has open at once. -/
def Clause.nesting : Clause → Nat
  | .numeric _ _ _ => 0
  | .dice number faces _ _ _ => max (amountNesting number) (facesNesting faces)
  | .function _ arguments _ _ => treesNesting arguments + 1
  | .pool members _ _ _ => treesNesting members + 1
  | .group inner _ _ => treeNesting inner + 1
  | .text _ _ _ => 0

def treeNesting : Tree Clause → Nat
  | .leaf clause => clause.nesting
  | .node _ left right => max (treeNesting left) (treeNesting right)

def treesNesting : List (Tree Clause) → Nat
  | [] => 0
  | tree :: rest => max (treeNesting tree) (treesNesting rest)

def amountNesting : Amount Clause → Nat
  | .known _ => 0
  | .computed inner _ => treeNesting inner + 1

def facesNesting : Faces Clause → Nat
  | .amount a => amountNesting a
  | .letter _ => 0

end

/-! ## Conditions on every clause -/

mutual

/-- Whether a condition holds of a clause and of every clause in it. -/
def Clause.Throughout (P : Clause → Prop) : Clause → Prop
  | .numeric value flavor raw => P (.numeric value flavor raw)
  | .dice number faces modifiers flavor raw =>
    P (.dice number faces modifiers flavor raw) ∧ WrittenThroughout P number ∧
      FacesThroughout P faces
  | .function name arguments flavor raw =>
    P (.function name arguments flavor raw) ∧ TreesThroughout P arguments
  | .pool members modifiers flavor raw =>
    P (.pool members modifiers flavor raw) ∧ TreesThroughout P members
  | .group inner flavor raw => P (.group inner flavor raw) ∧ TreeThroughout P inner
  | .text text flavor raw => P (.text text flavor raw)

def TreeThroughout (P : Clause → Prop) : Tree Clause → Prop
  | .leaf clause => clause.Throughout P
  | .node _ left right => TreeThroughout P left ∧ TreeThroughout P right

def TreesThroughout (P : Clause → Prop) : List (Tree Clause) → Prop
  | [] => True
  | tree :: rest => TreeThroughout P tree ∧ TreesThroughout P rest

def WrittenThroughout (P : Clause → Prop) : Amount Clause → Prop
  | .known _ => True
  | .computed inner _ => TreeThroughout P inner

def FacesThroughout (P : Clause → Prop) : Faces Clause → Prop
  | .amount a => WrittenThroughout P a
  | .letter _ => True

end

section

variable (P : Clause → Prop) [DecidablePred P]

mutual

/-- A condition that can be decided can be decided throughout. -/
def Clause.decideThroughout : (clause : Clause) → Decidable (clause.Throughout P)
  | .numeric value flavor raw => inferInstanceAs (Decidable (P (.numeric value flavor raw)))
  | .dice number faces _ _ _ =>
    have := decideWritten number
    have := decideFaces faces
    inferInstanceAs (Decidable (_ ∧ _ ∧ _))
  | .function _ arguments _ _ =>
    have := decideTrees arguments
    inferInstanceAs (Decidable (_ ∧ _))
  | .pool members _ _ _ =>
    have := decideTrees members
    inferInstanceAs (Decidable (_ ∧ _))
  | .group inner _ _ =>
    have := decideTree inner
    inferInstanceAs (Decidable (_ ∧ _))
  | .text text flavor raw => inferInstanceAs (Decidable (P (.text text flavor raw)))

def decideTree : (tree : Tree Clause) → Decidable (TreeThroughout P tree)
  | .leaf clause => clause.decideThroughout
  | .node _ left right =>
    have := decideTree left
    have := decideTree right
    inferInstanceAs (Decidable (_ ∧ _))

def decideTrees : (trees : List (Tree Clause)) → Decidable (TreesThroughout P trees)
  | [] => .isTrue trivial
  | tree :: rest =>
    have := decideTree tree
    have := decideTrees rest
    inferInstanceAs (Decidable (_ ∧ _))

def decideWritten : (amount : Amount Clause) → Decidable (WrittenThroughout P amount)
  | .known _ => .isTrue trivial
  | .computed inner _ => decideTree inner

def decideFaces : (faces : Faces Clause) → Decidable (FacesThroughout P faces)
  | .amount a => decideWritten a
  | .letter _ => .isTrue trivial

end

instance (tree : Tree Clause) : Decidable (TreeThroughout P tree) := decideTree P tree

end

theorem treeThroughout_iff {P : Clause → Prop} (tree : Tree Clause) :
    TreeThroughout P tree ↔ tree.row.1.Throughout P ∧ ∀ joined ∈ tree.row.2, joined.2.Throughout P := by
  induction tree with
  | leaf clause => simp [TreeThroughout, Tree.row]
  | node op left right left_ih right_ih =>
    simp only [TreeThroughout, Tree.row, left_ih, right_ih, List.mem_append, List.mem_cons]
    constructor
    · rintro ⟨⟨first, before⟩, second, behind⟩
      refine ⟨first, ?_⟩
      rintro joined (member | rfl | member)
      · exact before joined member
      · exact second
      · exact behind joined member
    · rintro ⟨first, rest⟩
      exact ⟨⟨first, fun joined member => rest joined (.inl member)⟩,
        rest _ (.inr (.inl rfl)), fun joined member => rest joined (.inr (.inr member))⟩

theorem treesThroughout_iff {P : Clause → Prop} (trees : List (Tree Clause)) :
    TreesThroughout P trees ↔ ∀ tree ∈ trees, TreeThroughout P tree := by
  induction trees with
  | nil => simp [TreesThroughout]
  | cons tree rest ih => simp [TreesThroughout, ih]

end DiceNotation
