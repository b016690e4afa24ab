import DiceNotation.Proofs.Formula.Legible

namespace DiceNotation

open Text

/-!
# Canonical texts

The text of a canonical clause, character by character, for the clauses that can be
read again: legible ones whose numbers are integers and whose faces are known.  A minus
sign stands in front of the text of a number, and the scanner reads it with the
operators, so the text is put together from a sign and an unsigned clause.
-/

/-! ## Clauses that can be read again -/

/-- Whether the number of a clause is an integer, as without a point. -/
def Clause.IsWhole : Clause → Prop
  | .numeric value _ _ => ∃ n : Int, value = .int n
  | _ => True

instance : DecidablePred Clause.IsWhole
  | .numeric (.int n) _ _ => .isTrue ⟨n, rfl⟩
  | .numeric (.real _) _ _ => .isFalse nofun
  | .dice _ _ _ _ _ => .isTrue trivial
  | .function _ _ _ _ => .isTrue trivial
  | .pool _ _ _ _ => .isTrue trivial
  | .group _ _ _ => .isTrue trivial
  | .text _ _ _ => .isTrue trivial

/-- Whether the letter for the faces of dice is the letter of a kind. -/
def Clause.HasKnownFaces : Clause → Prop
  | .dice _ (.letter code) _ _ _ => ∃ kind, DieKind.ofLetter? code = some kind
  | _ => True

/-- Whether what a clause says, apart from what is inside it, is read from its
canonical text. -/
def Clause.IsReadable (clause : Clause) : Prop :=
  clause.IsLegible ∧ clause.IsWhole ∧ clause.HasKnownFaces

section

variable {P Q : Clause → Prop}

mutual

/-- Two conditions that hold throughout hold together. -/
theorem Clause.Throughout.both : (clause : Clause) → clause.Throughout P → clause.Throughout Q →
    clause.Throughout (fun clause => P clause ∧ Q clause)
  | .numeric _ _ _, first, second => ⟨first, second⟩
  | .dice number faces _ _ _, first, second =>
    ⟨⟨first.1, second.1⟩, writtenThroughout_both number first.2.1 second.2.1,
      facesThroughout_both faces first.2.2 second.2.2⟩
  | .function _ arguments _ _, first, second =>
    ⟨⟨first.1, second.1⟩, treesThroughout_both arguments first.2 second.2⟩
  | .pool members _ _ _, first, second =>
    ⟨⟨first.1, second.1⟩, treesThroughout_both members first.2 second.2⟩
  | .group inner _ _, first, second =>
    ⟨⟨first.1, second.1⟩, treeThroughout_both inner first.2 second.2⟩
  | .text _ _ _, first, second => ⟨first, second⟩

theorem treeThroughout_both : (tree : Tree Clause) → TreeThroughout P tree →
    TreeThroughout Q tree →
    TreeThroughout (fun clause => P clause ∧ Q clause) tree
  | .leaf clause, first, second => Clause.Throughout.both clause first second
  | .node _ left right, first, second =>
    ⟨treeThroughout_both left first.1 second.1, treeThroughout_both right first.2 second.2⟩

theorem treesThroughout_both : (trees : List (Tree Clause)) → TreesThroughout P trees →
    TreesThroughout Q trees → TreesThroughout (fun clause => P clause ∧ Q clause) trees
  | [], _, _ => trivial
  | tree :: rest, first, second =>
    ⟨treeThroughout_both tree first.1 second.1, treesThroughout_both rest first.2 second.2⟩

theorem writtenThroughout_both : (amount : Amount Clause) → WrittenThroughout P amount →
    WrittenThroughout Q amount → WrittenThroughout (fun clause => P clause ∧ Q clause) amount
  | .known _, _, _ => trivial
  | .computed inner _, first, second => treeThroughout_both inner first second

theorem facesThroughout_both : (faces : Faces Clause) → FacesThroughout P faces →
    FacesThroughout Q faces → FacesThroughout (fun clause => P clause ∧ Q clause) faces
  | .amount a, first, second => writtenThroughout_both a first second
  | .letter _, _, _ => trivial

end

end

/-! ## Signs -/

/-- A clause without its minus sign. -/
def Clause.unsigned : Clause → Clause
  | .numeric (.int n) flavor raw => .numeric (.int n.natAbs) flavor raw
  | clause => clause

/-- A minus sign, if there is one. -/
def signText (negative : Bool) : List Char := if negative then ['-'] else []

theorem Clause.isNegative_unsigned (clause : Clause) : clause.unsigned.isNegative = false := by
  cases clause with
  | numeric value flavor raw =>
    cases value with
    | int n => exact decide_eq_false (Int.not_lt.2 (Int.natCast_nonneg n.natAbs))
    | real x => rfl
  | _ => rfl

theorem Clause.nesting_unsigned (clause : Clause) : clause.unsigned.nesting = clause.nesting := by
  cases clause with
  | numeric value flavor raw => cases value <;> simp only [unsigned, nesting]
  | _ => rfl

theorem Clause.readable_unsigned {clause : Clause} (readable : clause.Throughout Clause.IsReadable) :
    clause.unsigned.Throughout Clause.IsReadable := by
  cases clause with
  | numeric value flavor raw =>
    cases value with
    | int n => exact ⟨readable.1, ⟨_, rfl⟩, trivial⟩
    | real x => exact readable
  | _ => exact readable

theorem withFlavor_append (front text : String) (flavor : Option String) :
    withFlavor (front ++ text) flavor = front ++ withFlavor text flavor := by
  cases flavor with
  | none => rfl
  | some flavor =>
    by_cases empty : flavor = ""
    · simp only [withFlavor, empty, beq_self_eq_true, if_true]
    · simp only [withFlavor, beq_eq_false_iff_ne.2 empty, Bool.false_eq_true, if_false,
        String.append_assoc]

theorem isNegative_negSucc (n : Nat) (flavor : Option String) (raw : String) :
    (Clause.numeric (.int (Int.negSucc n)) flavor raw).isNegative = true :=
  decide_eq_true (Int.negSucc_lt_zero n)

theorem plainText_negSucc (n : Nat) :
    (Number.int (Int.negSucc n)).plainText = "-" ++ (Number.int (n + 1)).plainText := rfl

/-- The text of a clause is its sign and the text without it. -/
theorem Clause.raw_canonical (clause : Clause) : clause.canonical.raw.toList =
    signText clause.isNegative ++ clause.unsigned.canonical.raw.toList := by
  cases clause with
  | numeric value flavor raw =>
    cases value with
    | real x => rfl
    | int n =>
      cases n with
      | ofNat n => rfl
      | negSucc n =>
        change (withFlavor (Number.int (Int.negSucc n)).plainText flavor).toList = _
        rw [plainText_negSucc, withFlavor_append, String.toList_append, isNegative_negSucc]
        rfl
  | _ => rfl

/-- What is read behind a sign gets the sign. -/
theorem Clause.signed_unsigned (clause : Clause) :
    clause.unsigned.canonical.signed clause.isNegative = clause.canonical := by
  cases clause with
  | numeric value flavor raw =>
    cases value with
    | real x => rfl
    | int n =>
      cases n with
      | ofNat n => rfl
      | negSucc n =>
        rw [isNegative_negSucc]
        change Clause.numeric (.int (Int.negSucc n)) (keptFlavor flavor)
          (withFlavor _ (keptFlavor flavor)) = _
        rw [withFlavor_keptFlavor]
        rfl
  | _ => rfl

/-! ## Texts -/

theorem toList_withFlavor (text : String) (flavor : Option String) :
    (withFlavor text flavor).toList = text.toList ++ Lexeme.flavorText (keptFlavor flavor) := by
  cases flavor with
  | none => exact (List.append_nil _).symm
  | some flavor =>
    by_cases empty : flavor = ""
    · subst empty
      exact (List.append_nil _).symm
    · rw [keptFlavor, Option.filter_some, if_pos (bne_iff_ne.2 empty)]
      simp only [withFlavor, beq_eq_false_iff_ne.2 empty, Bool.false_eq_true, if_false,
        String.toList_append, Lexeme.flavorText]
      rw [List.append_assoc, List.append_assoc]
      rfl

theorem isFlavor_keptFlavor {flavor : Option String} (legible : Lexeme.IsFlavor flavor) :
    Lexeme.IsFlavor (keptFlavor flavor) := by
  intro text kept
  exact legible text (Option.filter_eq_some_iff.1 kept).1

/-- What is written behind a first operand. -/
def textBehind (rest : List (Operator × Clause)) : List Char :=
  rest.flatMap fun next => ' ' :: (next.1.symbol.toList ++ ' ' :: next.2.canonical.raw.toList)

/-- The text of a tree is the text of its row. -/
theorem raw_canonicalTree (tree : Tree Clause) : (canonicalTree tree).raw.toList =
    tree.row.1.canonical.raw.toList ++ textBehind tree.row.2 := by
  induction tree with
  | leaf clause => exact (List.append_nil _).symm
  | node op left right left_ih right_ih =>
    change ((canonicalTree left).raw ++ " " ++ op.symbol ++ " " ++ (canonicalTree right).raw).toList = _
    simp only [String.toList_append, left_ih, right_ih, Tree.row, textBehind, List.flatMap_append,
      List.flatMap_cons]
    simp

theorem treeNesting_le_iff {tree : Tree Clause} {levels : Nat} : treeNesting tree ≤ levels ↔
    tree.row.1.nesting ≤ levels ∧ ∀ next ∈ tree.row.2, next.2.nesting ≤ levels := by
  induction tree with
  | leaf clause => simp [treeNesting, Tree.row]
  | node op left right left_ih right_ih =>
    simp only [treeNesting, Nat.max_le, left_ih, right_ih, Tree.row, List.mem_append, List.mem_cons]
    constructor
    · rintro ⟨⟨first, before⟩, second, behind⟩
      refine ⟨first, ?_⟩
      rintro next (member | rfl | member)
      · exact before next member
      · exact second
      · exact behind next member
    · rintro ⟨first, rest⟩
      exact ⟨⟨first, fun next member => rest next (.inl member)⟩,
        rest _ (.inr (.inl rfl)), fun next member => rest next (.inr (.inr member))⟩

theorem treesNesting_le_iff {trees : List (Tree Clause)} {levels : Nat} :
    treesNesting trees ≤ levels ↔ ∀ tree ∈ trees, treeNesting tree ≤ levels := by
  induction trees with
  | nil => simp [treesNesting]
  | cons tree rest ih => simp [treesNesting, ih]

/-- Trees with commas between them, from behind the first one on. -/
def textBehindComma (trees : List (Tree Clause)) : List Char :=
  trees.flatMap fun tree => ',' :: ' ' :: (canonicalTree tree).raw.toList

theorem toList_listText (tree : Tree Clause) (rest : List (Tree Clause)) :
    (listText (canonicalTrees (tree :: rest))).toList =
      (canonicalTree tree).raw.toList ++ textBehindComma rest := by
  induction rest generalizing tree with
  | nil => exact (List.append_nil _).symm
  | cons next rest ih =>
    have first : listText (canonicalTrees (tree :: next :: rest)) =
        (canonicalTree tree).raw ++ ", " ++ listText (canonicalTrees (next :: rest)) := by
      simp [listText, canonicalTrees, String.intercalate_cons_cons]
    rw [first, String.toList_append, String.toList_append, ih]
    simp [textBehindComma]

end DiceNotation
