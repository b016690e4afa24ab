import DiceNotation.Proofs.Formula.DiceMarks
import DiceNotation.Proofs.Roll.AlteredNumbers
import DiceNotation.Proofs.Roll.DiceInTurn
import DiceNotation.Proofs.Roll.Methods
import Mathlib.Data.List.Forall2

namespace DiceNotation

/-!
# Methods of altered rolls

The dice of an altered roll stand for the dice of the roll, one by one.  Dice that are altered
are handed their method, and whatever is copied has the methods of the record.  A number in
brackets is neither copied nor handed over: it is written, extended and read again.  The formula
says nothing about methods, so the dice in it have the ones that the settings name.
-/

/-! ## Dice and what clauses say about them -/

/-- Whether dice are as a clause says. -/
structure DieMark.Describes (mark : DieMark) (dice : Dice) : Prop where
  kind : dice.kind = mark.kind
  modifiers : dice.modifiers = (Command.splitText mark.modifiers).map .string
  options : dice.tag.options = flavorOptions mark.flavor

/-- Whether dice stand for other dice, whatever their amounts and their methods are. -/
structure DiceOf.StandsFor (altered dice : Dice) : Prop where
  kind : altered.kind = dice.kind
  modifiers : altered.modifiers = dice.modifiers
  options : altered.tag.options = dice.tag.options

/-- Dice of which the same is said stand for each other. -/
theorem standFor_of_described {marks : List DieMark} {old new : List Dice}
    (said : List.Forall₂ DieMark.Describes marks old)
    (again : List.Forall₂ DieMark.Describes marks new) :
    List.Forall₂ (fun dice altered => DiceOf.StandsFor altered dice) old new := by
  induction said generalizing new with
  | nil =>
    cases again
    exact .nil
  | cons here _ ih =>
    cases again with
    | cons there later =>
      exact .cons ⟨there.kind.trans here.kind.symm, there.modifiers.trans here.modifiers.symm,
        there.options.trans here.options.symm⟩ (ih later)

namespace Term

theorem diceFrom_dice (dice : Dice) : diceFrom [.dice dice] =
    dice :: (diceFrom dice.number.term?.toList ++ diceFrom dice.faces.term?.toList) := by
  rw [diceFrom_term, ← diceFrom_append]
  rfl

theorem diceFrom_row (term : Term) (rest : List Term) :
    diceFrom (term :: rest) = diceFrom [term] ++ diceFrom rest :=
  diceFrom_append [term] rest

end Term

namespace Build

variable {setup : Setup}

/-- Dice are as the input for them says, and what is said of their amounts follows. -/
theorem dice_described {input : DiceInput} {ledger last : Ledger} {dice : Dice}
    {modifiers : String} {flavor : Option String} (text : input.modifiers = .string modifiers)
    (options : input.options = flavorOptions flavor) {inNumber inFaces : List DieMark}
    (number : ∀ operand, input.number.check .number 0 = .ok operand →
      List.Forall₂ DieMark.Describes inNumber (Term.diceFrom operand.term?.toList))
    (faces : ∀ given operand, input.checkFaces = .ok given → given.check .faces 1 = .ok operand →
      List.Forall₂ DieMark.Describes inFaces (Term.diceFrom operand.term?.toList))
    (built : DiceInput.build setup input ledger = .ok (dice, last)) :
    List.Forall₂ DieMark.Describes
      (⟨input.kind, modifiers, keptFlavor flavor⟩ :: (inNumber ++ inFaces))
      (Term.diceFrom [.dice dice]) := by
  obtain ⟨count, sides, commands, outcomes, method, accepts, rfl, rfl⟩ := dice_eq_ok.1 built
  obtain ⟨given, checked, sided⟩ := accepts.faces_checked
  have cut := accepts.modifiers_cut
  rw [text] at cut
  cases cut
  rw [Term.diceFrom_dice]
  refine .cons ⟨rfl, rfl, ?_⟩ (List.rel_append (number _ accepts.number_checked)
    (faces _ _ checked sided))
  rw [options]
  exact (flavorOptions_keptFlavor flavor).symm

/-- Data is no term. -/
theorem no_dice_of_data {value : Json} {what : DiceAmount} {least : Nat} {operand : Operand Term}
    (checked : (AmountInput.data value).check what least = .ok operand) :
    Term.diceFrom operand.term?.toList = [] := by
  cases operand with
  | known n => exact Term.diceFrom_nil
  | computed inner => cases AmountInput.eq_term_of_check checked

mutual

/-- The dice in the term of a clause are as the clause says. -/
theorem clause_described : (part : Clause) → {ledger last : Ledger} → {term : Term} →
    clause setup part ledger = .ok (term, last) →
    List.Forall₂ DieMark.Describes part.marks (Term.diceFrom [term])
  | .numeric value flavor _, ledger, last, term, built => by
    obtain ⟨rfl, rfl⟩ := numeric_eq_ok.1 built
    rw [Term.diceFrom_term]
    exact Term.diceFrom_nil ▸ .nil
  | .text text flavor _, ledger, last, term, built => by
    obtain ⟨rfl, rfl⟩ := word_eq_ok.1 built
    rw [Term.diceFrom_term]
    exact Term.diceFrom_nil ▸ .nil
  | .group inner flavor raw, ledger, last, term, built => by
    obtain ⟨row, middle, roll, later, inside, around, rfl, rfl⟩ := group_eq_ok.1 built
    obtain ⟨grown, spans, _⟩ := terms_built inner inside
    obtain ⟨rfl, rfl, _⟩ := roll_of_fresh grown spans around
    rw [Term.diceFrom_term]
    exact terms_described inner inside
  | .function name arguments flavor raw, ledger, last, term, built => by
    obtain ⟨rolls, middle, fn, inside, selected, rfl, rfl⟩ := clauseFunction_eq_ok.1 built
    rw [Term.diceFrom_term]
    exact rolls_described arguments inside
  | .pool members modifiers flavor raw, ledger, last, term, built => by
    obtain ⟨rolls, middle, inside, rfl, rfl⟩ := clausePool_eq_ok.1 built
    rw [Term.diceFrom_term]
    exact rolls_described members inside
  | .dice number (.letter code) modifiers flavor raw, ledger, last, term, built => by
    obtain ⟨given, middle, first, dice⟩ := clauseDice_eq_ok.1 built
    obtain ⟨kind, made, named, rolled, rfl⟩ := diceLetter_eq_ok.1 dice
    obtain ⟨count, fixed⟩ := DieKind.fixed_of_ofLetter? named
    have known : (Faces.letter code).kind = kind := by
      rw [Faces.kind, named, Option.getD_some]
    rw [Clause.marks, known]
    refine dice_described rfl rfl (amount_described number first) ?_ rolled
    intro sides operand checked sided
    rw [checkFaces_of_fixed fixed checked] at sided
    exact no_dice_of_data sided ▸ .nil
  | .dice number (.amount faces) modifiers flavor raw, ledger, last, term, built => by
    obtain ⟨given, middle, first, dice⟩ := clauseDice_eq_ok.1 built
    obtain ⟨sides, later, made, second, rolled, rfl⟩ := diceAmount_eq_ok.1 dice
    refine dice_described rfl rfl (amount_described number first) ?_ rolled
    intro found operand checked sided
    obtain rfl : found = sides := checkFaces_of_not_fixed rfl checked
    exact amount_described faces second operand sided

theorem terms_described : (tree : Tree Clause) → {ledger last : Ledger} → {row : List Term} →
    terms setup tree ledger = .ok (row, last) →
    List.Forall₂ DieMark.Describes (treeMarks tree) (Term.diceFrom row)
  | .leaf part, ledger, last, row, built => by
    obtain ⟨term, single, rfl⟩ := leaf_eq_ok.1 built
    exact clause_described part single
  | .node op left right, ledger, last, row, built => by
    obtain ⟨before, middle, behind, first, second, rfl⟩ := node_eq_ok.1 built
    rw [Term.diceFrom_append, Term.diceFrom_cons]
    exact List.rel_append (terms_described left first) (terms_described right second)

theorem rolls_described : (trees : List (Tree Clause)) → {ledger last : Ledger} →
    {built : List Roll} → rolls setup trees ledger = .ok (built, last) →
    List.Forall₂ DieMark.Describes (treesMarks trees) (Term.diceFrom (built.flatMap (·.terms)))
  | [], ledger, last, built, given => by
    obtain ⟨rfl, rfl⟩ := rolls_nil_eq_ok.1 given
    exact Term.diceFrom_nil ▸ .nil
  | tree :: rest, ledger, last, built, given => by
    obtain ⟨row, middle, first, later, more, inside, around, others, rfl⟩ :=
      rolls_cons_eq_ok.1 given
    obtain ⟨grown, spans, _⟩ := terms_built tree inside
    obtain ⟨rfl, rfl, _⟩ := roll_of_fresh grown spans around
    rw [List.flatMap_cons, Term.diceFrom_append]
    exact List.rel_append (terms_described tree inside) (rolls_described rest others)

theorem amount_described : (given : Amount Clause) → {ledger last : Ledger} →
    {built : AmountInput} → amount setup given ledger = .ok (built, last) →
    {what : DiceAmount} → {least : Nat} → (operand : Operand Term) →
    built.check what least = .ok operand →
    List.Forall₂ DieMark.Describes (amountMarks given) (Term.diceFrom operand.term?.toList)
  | .known n, ledger, last, built, given, what, least, operand, checked => by
    obtain ⟨rfl, rfl⟩ := known_eq_ok.1 given
    exact no_dice_of_data checked ▸ .nil
  | .computed tree raw, ledger, last, built, given, what, least, operand, checked => by
    obtain ⟨row, middle, roll, later, inside, around, rfl, rfl⟩ := computed_eq_ok.1 given
    obtain ⟨grown, spans, _⟩ := terms_built tree inside
    obtain ⟨rfl, rfl, _⟩ := roll_of_fresh grown spans around
    cases checked
    change List.Forall₂ _ _ (Term.diceFrom [_])
    rw [Term.diceFrom_term]
    exact terms_described tree inside

end

end Build

/-! ## What becomes of methods -/

/-- The dice in the number of a term, if it is dice. -/
def Term.counting : Term → List Dice
  | .dice d => diceFrom d.number.term?.toList
  | _ => []

/-- The dice in the numbers of the dice that stand in the row of a roll. -/
def RollOf.counting (roll : Roll) : List Dice := roll.terms.flatMap Term.counting

/-- Whether dice in a later ledger stand for dice of an earlier one.  If these count other dice,
the later ones have the method that the settings name for them, and otherwise they have the same
method. -/
structure DiceOf.Follows (setup : Setup) (counts : Dice → Prop) (now later : Ledger)
    (dice altered : Dice) : Prop where
  standsFor : altered.StandsFor dice
  kept : ¬ counts dice → (later.term altered.tag.id).method = (now.term dice.tag.id).method
  lost : counts dice → (Term.dice altered).HasDefaultMethod setup later
  used : altered.tag.id < later.next

variable {setup : Setup} {counts : Dice → Prop}

/-- Dice keep their methods when more is built. -/
theorem DiceOf.Follows.extend {now later last : Ledger} {dice altered : Dice}
    (follows : dice.Follows setup counts now later altered) (extended : Ledger.Extends later last) :
    dice.Follows setup counts now last altered := by
  have same := extended.same altered.tag.id (Nat.zero_le _) follows.used
  refine ⟨follows.standsFor, fun keeps => ?_, fun lost => ?_,
    Nat.lt_of_lt_of_le follows.used extended.next_le⟩
  · rw [← follows.kept keeps, same.term]
  · rintro d ⟨⟩
    obtain ⟨name, known, default, found, method⟩ := follows.lost lost altered rfl
    exact ⟨name, known, default, found, by rw [← same.term, method]⟩

/-- Dice that follow dice as they are in one ledger follow them as they are in another one, where
nothing else is known about them. -/
theorem follow_from {terms : List Term} {first stop : Nat} (spans : RowSpans terms first stop)
    {now other later : Ledger} (same : Ledger.SameOn now other first stop) {new : List Dice}
    (follow : List.Forall₂ (DiceOf.Follows setup counts other later) (Term.diceFrom terms) new) :
    List.Forall₂ (DiceOf.Follows setup counts now later) (Term.diceFrom terms) new := by
  refine ((List.forall₂_and_left _ _).2 ⟨spans.inside.diceFrom, follow⟩).imp ?_
  rintro dice altered ⟨within, follows⟩
  have here : now.term dice.tag.id = other.term dice.tag.id :=
    (same dice.tag.id within.1 within.2).term
  refine ⟨follows.standsFor, fun free => ?_, follows.lost, follows.used⟩
  rw [here, follows.kept free]

/-- Dice in the number of a term are dice in the term. -/
theorem Term.mem_diceFrom_of_counting {term : Term} {dice : Dice}
    (member : dice ∈ term.counting) : dice ∈ diceFrom [term] := by
  cases term with
  | dice d =>
    rw [diceFrom_dice]
    exact List.mem_cons_of_mem _ (List.mem_append_left _ member)
  | _ => cases member

theorem mem_diceFrom_of_counting {terms : List Term} {dice : Dice}
    (member : dice ∈ terms.flatMap Term.counting) : dice ∈ Term.diceFrom terms := by
  induction terms with
  | nil => cases member
  | cons term rest ih =>
    rw [List.flatMap_cons] at member
    rw [Term.diceFrom_row]
    exact (List.mem_append.1 member).elim
      (fun here => List.mem_append_left _ (Term.mem_diceFrom_of_counting here))
      (fun later => List.mem_append_right _ (ih later))

/-- A clause with a factor and a summand behind it.  These are numbers as messages show them, which
is not how formulas show reals, so they stand here as texts. -/
def Clause.times (clause : Clause) (m a : Number) : Tree Clause :=
  .node .add (.node .mul (.leaf clause) (.leaf (.text m.text none ""))) (.leaf (.text a.text none ""))

namespace Clause

theorem raw_times (clause : Clause) (m a : Number) : (canonicalTree (clause.times m a)).raw =
    clause.canonical.raw ++ " * " ++ m.text ++ " + " ++ a.text := by
  have star : " * " = " " ++ "*" ++ " " := rfl
  have plus : " + " = " " ++ "+" ++ " " := rfl
  rw [star, plus]
  change clause.canonical.raw ++ " " ++ "*" ++ " " ++ m.text ++ " " ++ "+" ++ " " ++ a.text = _
  simp only [String.append_assoc]

theorem marks_times (clause : Clause) (m a : Number) :
    treeMarks (clause.times m a) = clause.marks := by
  simp only [times, treeMarks, marks, List.append_nil]

theorem spelled_times {clause : Clause} (clear : clause.Throughout Clause.IsClear) (m a : Number)
    (source : Source) (inner : Option ExpressionReader) (keeps : ReadsInside inner) :
    (clause.times m a).IsSpelled source inner := by
  refine ⟨clause_spelled source inner keeps clause clear, ?_⟩
  exact List.forall_mem_cons.2 ⟨numberText_spelled m,
    List.forall_mem_cons.2 ⟨numberText_spelled a, nofun⟩⟩

end Clause

namespace Build

/-- The dice in a bracketed number stand in the changed number as well, but with the methods that
the settings name. -/
theorem changeNumber_described {number : Term} (legible : number.IsLegible Clause.IsClear setup)
    {m a : Number} {numeric : Bool} {ledger last : Ledger} {given : AmountInput}
    (built : changeNumber setup { multiply := .number m, add := .number a, numeric := numeric }
      (.computed number) ledger = .ok (given, last)) :
    ∃ changed, given = .term changed ∧
      List.Forall₂ (fun dice altered => DiceOf.StandsFor altered dice)
        (Term.diceFrom [number]) (Term.diceFrom [changed]) ∧
      ∀ dice ∈ Term.diceFrom [changed],
        (Term.dice dice).HasDefaultMethod setup last ∧ dice.tag.id < last.next := by
  obtain ⟨tree, raw, start, stop, single, row, clear⟩ := legible
  have written := (clause_written _ single).1
  obtain ⟨inside, between, made, rfl, rfl⟩ := changeNumber_eq_ok built
  obtain ⟨text, found, terms, ended, later, replaced, parsed, whole, around, _, rfl⟩ :=
    ofFormula_eq_ok.1 made
  cases replaced.symm.trans (Reference.replaceText_nothing _)
  obtain ⟨settings, valid⟩ := settings_of_parseFormula parsed
  have shown (x : Number) : (Json.number x).plainText = x.text := by
    rw [Json.plainText, Json.quoted]
    intro text is
    cases is
  rw [parseFormula_of_settings valid, written, shown, shown, ← Clause.raw_times] at parsed
  -- whatever the numbers are read as, the dice in the text are those in the brackets
  have bracketed : (Clause.group tree none raw).Throughout Clause.IsClear :=
    ⟨⟨⟨row, isFlavor_none⟩, trivial⟩, clear⟩
  have same := parse_marks (Clause.spelled_times bracketed m a _) (by dsimp only) parsed
  rw [Clause.marks_times] at same
  obtain ⟨grown, spans, parts⟩ := terms_built found whole
  obtain ⟨rfl, rfl, _⟩ := roll_of_fresh grown spans around
  have rest := (Ledger.Grown.allot ended).trans (Ledger.Grown.allot ended.allot)
  have inside (tag : Tag) (roll : Roll) : Term.diceFrom [.group tag roll] = roll.dice :=
    Term.diceFrom_term _
  refine ⟨_, rfl, ?_, ?_⟩
  · rw [inside]
    exact standFor_of_described (clause_described _ single) (same ▸ terms_described found whole)
  · rw [inside]
    intro dice member
    have within := spans.inside.diceFrom dice member
    exact ⟨((rowBuilt_extend parts spans rest).diceFrom dice member).2,
      Nat.lt_of_lt_of_le within.2 rest.next_le⟩

theorem changeNumber_known_data {change : Change} {n : Int} {ledger last : Ledger}
    {given : AmountInput} (built : changeNumber setup change (.known n) ledger = .ok (given, last)) :
    ∃ value, given = .data value := by
  obtain ⟨_, _, _, rest⟩ := bind_eq_ok.1 built
  obtain ⟨sum, _, _, ended⟩ := bind_eq_ok.1 rest
  exact ⟨sum, (pure_eq_ok.1 ended).1⟩

/-! ## Copies -/

/-- Copied dice follow, if they count no dice. -/
theorem copied_follow {terms : List Term} {first stop base : Nat} (spans : RowSpans terms first stop)
    {now last : Ledger} (copied : RowCopied (shift first base) now last terms)
    (used : shift first base stop ≤ last.next)
    (free : ∀ dice ∈ Term.diceFrom terms, ¬ counts dice) :
    List.Forall₂ (DiceOf.Follows setup counts now last) (Term.diceFrom terms)
      (Term.diceFrom (terms.map (Term.renumber (shift first base)))) := by
  rw [Term.diceFrom_renumber, List.forall₂_map_right_iff, List.forall₂_same]
  intro dice member
  have within := spans.inside.diceFrom dice member
  exact ⟨⟨rfl, rfl, rfl⟩, fun _ => ((copied.diceFrom dice member).dice dice rfl).2,
    fun lost => absurd lost (free dice member),
    Nat.lt_of_lt_of_le (shift_lt within.1 within.2) used⟩

/-- The dice in a copied amount follow, if they count no dice. -/
theorem copiedAmount_follow {amount : Operand Term} {first stop base : Nat}
    (spans : AmountSpans amount first stop) {now last : Ledger}
    (copied : AmountThroughout (Term.Alike (shift first base) now last)
      (RollOf.Alike (shift first base) now last) amount)
    (used : shift first base stop ≤ last.next)
    (free : ∀ dice ∈ Term.diceFrom amount.term?.toList, ¬ counts dice) :
    List.Forall₂ (DiceOf.Follows setup counts now last) (Term.diceFrom amount.term?.toList)
      (Term.diceFrom (Term.renumberAmount (shift first base) amount).term?.toList) := by
  cases amount with
  | known n => exact Term.diceFrom_nil ▸ .nil
  | computed term =>
    have row : RowSpans [term] first stop := ⟨stop, spans, rfl⟩
    exact copied_follow row ⟨copied, trivial⟩ used free

/-! ## Altered dice -/

/-- Altered dice follow, and so do the dice in them: those in their faces keep their methods, and
those in their number lose them. -/
theorem alterDice_follows {dice altered : Dice} {now later : Ledger} {first stop : Nat}
    (fresh : dice.IsFresh setup now first stop)
    (legible : (Term.dice dice).HasLegibleNumber Clause.IsClear setup) {m a : Number}
    {numeric : Bool} (built : alterDice setup
      { multiply := .number m, add := .number a, numeric := numeric } dice now =
        .ok (altered, later))
    (all : ∀ old ∈ Term.diceFrom [.dice dice], counts old ↔ old ∈ (Term.dice dice).counting) :
    List.Forall₂ (DiceOf.Follows setup counts now later) (Term.diceFrom [.dice dice])
      (Term.diceFrom [.dice altered]) := by
  obtain ⟨keeps, used, ⟨bound, base, faces⟩, given, middle, changed, checked, extended⟩ :=
    alterDice_keeps fresh built
  have counted := faces.number.inside.row.diceFrom
  have sided := faces.faces.inside.row.diceFrom
  have below := amountSpans_le faces.faces
  rw [Term.diceFrom_dice] at all
  rw [Term.diceFrom_dice, Term.diceFrom_dice]
  obtain ⟨own, others⟩ := List.forall_mem_cons.1 all
  obtain ⟨inNumber, inFaces⟩ := List.forall_mem_append.1 others
  refine .cons ⟨⟨keeps.kind, keeps.modifiers, keeps.options⟩, fun _ => keeps.method,
    fun lost => ?_, used⟩ (List.rel_append ?_ ?_)
  · -- the dice are not in their own number
    have within := (counted dice (own.1 lost)).2
    exact absurd below (Nat.not_le.2 within)
  · cases shape : dice.number with
    | known n =>
      rw [shape] at changed
      obtain ⟨value, rfl⟩ := changeNumber_known_data changed
      have none : Term.diceFrom (Operand.known n : Operand Term).term?.toList = [] :=
        Term.diceFrom_nil
      rw [no_dice_of_data checked, none]
      exact .nil
    | computed number =>
      have counting : (Term.dice dice).counting = Term.diceFrom [number] := by
        rw [Term.counting, shape]
        rfl
      rw [shape] at changed inNumber
      obtain ⟨new, rfl, stand, defaults⟩ :=
        changeNumber_described (legible dice number rfl shape) changed
      rw [← Except.ok.inj checked]
      obtain ⟨length, pairs⟩ := List.forall₂_iff_zip.1 stand
      refine List.forall₂_iff_zip.2 ⟨length, fun pair => ?_⟩
      obtain ⟨old, rebuilt⟩ := List.of_mem_zip pair
      obtain ⟨default, inside⟩ := defaults _ rebuilt
      have lost := (inNumber _ old).2 (counting ▸ old)
      have follows : DiceOf.Follows setup counts now middle _ _ :=
        ⟨pairs pair, fun free => absurd lost free, fun _ => default, inside⟩
      exact follows.extend extended
  · rw [faces.same]
    refine copiedAmount_follow faces.faces faces.copied
      (Nat.le_trans faces.used (Nat.le_of_lt used)) fun old member counts => ?_
    have within := (counted old ((inFaces old member).1 counts)).2
    exact absurd (sided old member).1 (Nat.not_le.2 within)

/-! ## Altered rows -/

section

variable {m a : Number} {numeric : Bool} {now start last : Ledger} {first stop : Nat}

/-- Dice in a copied term follow, if they count no dice. -/
theorem copy_follows {term new : Term} (spans : term.Spans first stop) (used : stop ≤ now.next)
    (restorable : term.Throughout (Term.IsRestorable setup now) (RollOf.IsRestorable now))
    (extended : Ledger.Extends now start) (built : copy setup term start = .ok (new, last))
    (free : ∀ dice ∈ Term.diceFrom [term], ¬ counts dice) :
    List.Forall₂ (DiceOf.Follows setup counts now last) (Term.diceFrom [term])
      (Term.diceFrom [new]) := by
  obtain ⟨_, copied, ended, _, alike⟩ :=
    copy_restores spans restorable (extended.same.mono (Nat.zero_le _) used)
  cases built.symm.trans copied
  have row : RowSpans [term] first stop := ⟨stop, spans, rfl⟩
  exact copied_follow row ⟨alike, trivial⟩ (Nat.le_of_eq ended.symm) free

/-- Dice of which nothing has happened are fresh, also when more has been built since. -/
theorem isFresh_extend {dice : Dice} (spans : (Term.dice dice).Spans first stop)
    (fresh : now.FreshOn first stop) (used : stop ≤ now.next)
    (restorable : (Term.dice dice).Throughout (Term.IsRestorable setup now)
      (RollOf.IsRestorable now)) (extended : Ledger.Extends now start) :
    dice.IsFresh setup start first stop := by
  have same : Ledger.SameOn now start first stop := extended.same.mono (Nat.zero_le _) used
  refine ⟨spans, fresh.of_same same, Nat.le_trans used extended.next_le, ?_⟩
  refine Term.Throughout.imp spans (fun inner above below holds => ⟨holds.sound, ?_⟩)
    (fun _ _ _ holds => holds.sound) restorable
  rintro die rfl
  obtain ⟨name, known, found, is⟩ := holds.method die rfl
  have state : now.term die.tag.id = start.term die.tag.id := (same _ above below).term
  exact ⟨name, known, found, by rw [← state, is]⟩

/-- The dice in a term of an altered row follow, wherever the row has been built up to. -/
theorem alterTerm_follows {term new : Term} (spans : term.Spans first stop)
    (fresh : now.FreshOn first stop) (used : stop ≤ now.next)
    (restorable : term.Throughout (Term.IsRestorable setup now) (RollOf.IsRestorable now))
    (legible : term.HasLegibleNumber Clause.IsClear setup) (extended : Ledger.Extends now start)
    (built : alterTerm setup { multiply := .number m, add := .number a, numeric := numeric } term
      start = .ok (new, last))
    (all : ∀ old ∈ Term.diceFrom [term], counts old ↔ old ∈ term.counting) :
    List.Forall₂ (DiceOf.Follows setup counts now last) (Term.diceFrom [term])
      (Term.diceFrom [new]) := by
  cases term with
  | dice d =>
    obtain ⟨altered, _, made, ended⟩ := bind_eq_ok.1 built
    obtain ⟨rfl, rfl⟩ := pure_eq_ok.1 ended
    have follow := alterDice_follows (isFresh_extend spans fresh used restorable extended) legible
      made all
    have row : RowSpans [.dice d] first stop := ⟨stop, spans, rfl⟩
    exact follow_from row (extended.same.mono (Nat.zero_le _) used) follow
  | numeric old value =>
    have none (tag : Tag) (number : Json) : Term.diceFrom [.numeric tag number] = [] := by
      rw [Term.diceFrom_term]
      exact Term.diceFrom_nil
    simp only [alterTerm] at built
    split at built
    · obtain ⟨product, _, _, made⟩ := bind_eq_ok.1 built
      obtain ⟨rfl, rfl⟩ := numeric_eq_ok.1 made
      rw [none, none]
      exact .nil
    · refine copy_follows spans used restorable extended built fun dice member => ?_
      rw [none] at member
      cases member
  | _ =>
    exact copy_follows spans used restorable extended built fun dice member counted =>
      List.not_mem_nil ((all dice member).1 counted)

/-- The dice of an altered row follow. -/
theorem alterRow_follows {terms row : List Term} (spans : RowSpans terms first stop)
    (fresh : now.FreshOn first stop) (used : stop ≤ now.next)
    (restorable : RowRestorable setup now terms)
    (legible : ∀ term ∈ terms, term.HasLegibleNumber Clause.IsClear setup)
    (extended : Ledger.Extends now start)
    (built : each (alterTerm setup
      { multiply := .number m, add := .number a, numeric := numeric }) terms start =
        .ok (row, last))
    (all : ∀ old ∈ Term.diceFrom terms, counts old ↔ old ∈ terms.flatMap Term.counting) :
    List.Forall₂ (DiceOf.Follows setup counts now last) (Term.diceFrom terms)
      (Term.diceFrom row) := by
  induction terms generalizing first start row with
  | nil =>
    obtain ⟨rfl, rfl⟩ := pure_eq_ok.1 built
    exact Term.diceFrom_nil ▸ .nil
  | cons term rest ih =>
    obtain ⟨middle, here, later⟩ := spans
    obtain ⟨new, between, made, others⟩ := bind_eq_ok.1 built
    obtain ⟨more, remaining, rfl⟩ := map_eq_ok.1 others
    obtain ⟨headLegible, tailLegible⟩ := List.forall_mem_cons.1 legible
    have below := rowSpans_le later
    have onward := (Spares.extends (fun _ => spares_alterTerm _ term) made).1
    have further := (Spares.extends (fun _ => spares_each (spares_alterTerm _) rest) remaining).1
    -- dice of the term and dice behind it are different ones
    have single : RowSpans [term] first middle := ⟨middle, here, rfl⟩
    have apart (old : Dice) (inside : old ∈ Term.diceFrom [term]) :
        old ∉ Term.diceFrom rest := fun behind =>
      Nat.not_le.2 (single.inside.diceFrom old inside).2 (later.inside.diceFrom old behind).1
    rw [Term.diceFrom_row] at all
    simp only [List.flatMap_cons, List.mem_append] at all
    rw [Term.diceFrom_row, Term.diceFrom_row new]
    refine List.rel_append ?_ ?_
    · refine (alterTerm_follows here (fresh.mono (Nat.le_refl _) below) (Nat.le_trans below used)
        restorable.1 headLegible extended made fun old member => ?_).imp
          fun _ _ follows => follows.extend further
      exact (all old (.inl member)).trans (or_iff_left fun behind =>
        apart old member (mem_diceFrom_of_counting behind))
    · refine ih later (fresh.mono (Nat.le_of_lt here.lt) (Nat.le_refl _)) restorable.2 tailLegible
        (extended.trans onward) remaining fun old member => ?_
      exact (all old (.inr member)).trans (or_iff_right fun before =>
        apart old (Term.mem_diceFrom_of_counting before) member)

end

/-! ## Altered rolls -/

/-- A roll is put around its terms, and nothing else changes. -/
theorem roll_around {options data : Fields} {terms : List Term} {ledger last : Ledger}
    {roll : Roll} (built : Build.roll options data terms ledger = .ok (roll, last)) :
    roll.terms = terms ∧ Ledger.Extends ledger last := by
  obtain ⟨_, around⟩ := roll_eq_ok.1 built
  obtain ⟨_, _, ⟨⟩, rest⟩ := bind_eq_ok.1 around
  obtain ⟨id, _, taken, rest⟩ := bind_eq_ok.1 rest
  obtain ⟨rfl, rfl⟩ := fresh_eq_ok.1 taken
  simp only at rest
  split at rest
  · obtain ⟨total, _, summed, rest⟩ := bind_eq_ok.1 rest
    obtain ⟨_, rfl⟩ := lift_eq_ok.1 summed
    obtain ⟨_, _, noted, rest⟩ := bind_eq_ok.1 rest
    obtain rfl := change_eq_ok.1 noted
    obtain ⟨rfl, rfl⟩ := pure_eq_ok.1 rest
    exact ⟨rfl, (Ledger.Extends.allot ledger).updateRoll (Nat.le_refl _) _⟩
  · obtain ⟨rfl, rfl⟩ := pure_eq_ok.1 rest
    exact ⟨rfl, .allot ledger⟩

theorem alter_eq_ok {change : Change} {model altered : Roll} {ledger last : Ledger}
    (built : alter setup change model ledger = .ok (altered, last)) :
    ∃ row middle, each (alterTerm setup change) model.terms ledger = .ok (row, middle) ∧
      Build.roll model.options model.data row middle = .ok (altered, last) := by
  unfold alter at built
  obtain ⟨_, _, ⟨⟩, rest⟩ := bind_eq_ok.1 built
  simp only at rest
  split at rest
  · obtain ⟨_, _, refused, _⟩ := bind_eq_ok.1 rest
    exact (refuse_ne_ok refused).elim
  · exact bind_eq_ok.1 rest

/-- The dice of a roll that is altered by numbers stand in the altered roll in the same order, and
all of them have the same methods but for those in the computed numbers of the dice that are
altered.  These are read again from the formula, and have the methods that the settings name. -/
theorem alter_follows {input : RollInput} {ledger made : Ledger} {roll : Roll}
    (built : ofFormula setup input ledger = .ok (roll, made)) {now later : Ledger}
    (extended : Ledger.Extends made now) {m a : Number} {numeric : Bool} {altered : Roll}
    (alters : alter setup { multiply := .number m, add := .number a, numeric := numeric } roll now =
      .ok (altered, later)) :
    List.Forall₂ (DiceOf.Follows setup (· ∈ roll.counting) now later) roll.dice altered.dice := by
  have whole := ofFormula_isMade built
  obtain ⟨text, tree, terms, middle, _, _, parsed, inside, around, _, _⟩ := ofFormula_eq_ok.1 built
  obtain ⟨settings, valid⟩ := settings_of_parseFormula parsed
  rw [parseFormula_of_settings valid] at parsed
  have clear : TreeThroughout Clause.IsClear tree :=
    treeThroughout_both tree (Source.parse_sound parsed).clauses (terms_written tree inside).2
  have legible := terms_legible (fun _ holds => holds.1) tree clear inside
  rw [← (roll_around around).1] at legible
  obtain ⟨spans, ended⟩ := whole.spans
  have below : roll.id ≤ made.next := Nat.le_trans (Nat.le_succ _) (Nat.le_of_eq ended.symm)
  obtain ⟨row, between, altering, rebuilt⟩ := alter_eq_ok alters
  have follow := alterRow_follows spans (whole.fresh.mono (Nat.le_refl _) below) below
    whole.rowRestorable (fun term member => (legible.of_mem member).here) extended altering
    fun old member => Iff.rfl
  obtain ⟨same, onward⟩ := roll_around rebuilt
  rw [RollOf.dice, RollOf.dice, same]
  exact follow_from spans (extended.same.mono (Nat.zero_le _) below).symm
    (follow.imp fun _ _ follows => follows.extend onward)

/-- A roll whose dice are all rolled by hand, the one that counts the others included. -/
def manualCount : Except Fault (Roll × Ledger) :=
  ofFormula usual { formula := "(1d6)d8", method := .string "manual" } .empty

theorem alter_follows_of_manual : ∃ roll made altered later,
    manualCount = .ok (roll, made) ∧
    alter usual { multiply := .number (.int 2), add := .number (.int (-1)) } roll made =
      .ok (altered, later) ∧
    methodNames (altered, later) = ["manual", "random"] ∧
    List.Forall₂ (DiceOf.Follows usual (· ∈ roll.counting) made later) roll.dice altered.dice := by
  have computed : (do
      let start ← manualCount
      let result ← alter usual { multiply := .number (.int 2), add := .number (.int (-1)) }
        start.1 start.2
      return decide (methodNames result = ["manual", "random"])).toOption = some true := by
    decide +kernel
  obtain ⟨⟨roll, made⟩, built, rest⟩ := result_bind (result_of_toOption computed)
  obtain ⟨⟨altered, later⟩, alters, rest⟩ := result_bind rest
  exact ⟨roll, made, altered, later, built, alters, of_decide_eq_true (Except.ok.inj rest),
    alter_follows built (.refl made) alters⟩

/-- Dice that have the same methods one by one have the same methods. -/
theorem methodNames_of_same {roll altered : Roll} {made later : Ledger}
    (same : List.Forall₂ (fun dice rebuilt =>
      (later.term rebuilt.tag.id).method = (made.term dice.tag.id).method)
        roll.dice altered.dice) :
    methodNames (altered, later) = methodNames (roll, made) := by
  change altered.dice.map _ = roll.dice.map _
  generalize roll.dice = old at same ⊢
  generalize altered.dice = new at same ⊢
  induction same with
  | nil => rfl
  | cons here _ ih => rw [List.map_cons, List.map_cons, here, ih]

/-- A die in the number of other dice loses its method, although nothing is to be multiplied or
added. -/
theorem method_lost_of_manual : ∃ roll made altered later,
    manualCount = .ok (roll, made) ∧
    alter usual { multiply := .number (.int 1), add := .number (.int 0) } roll made =
      .ok (altered, later) ∧
    methodNames (roll, made) = ["manual", "manual"] ∧
    methodNames (altered, later) = ["manual", "random"] ∧
    ¬ List.Forall₂ (fun dice rebuilt =>
      (later.term rebuilt.tag.id).method = (made.term dice.tag.id).method)
        roll.dice altered.dice := by
  have computed : (do
      let start ← manualCount
      let result ← alter usual { multiply := .number (.int 1), add := .number (.int 0) }
        start.1 start.2
      return decide (methodNames start = ["manual", "manual"] ∧
        methodNames result = ["manual", "random"])).toOption = some true := by
    decide +kernel
  obtain ⟨⟨roll, made⟩, built, rest⟩ := result_bind (result_of_toOption computed)
  obtain ⟨⟨altered, later⟩, alters, rest⟩ := result_bind rest
  obtain ⟨before, behind⟩ := of_decide_eq_true (Except.ok.inj rest)
  refine ⟨roll, made, altered, later, built, alters, before, behind, fun same => ?_⟩
  have kept := methodNames_of_same same
  rw [before, behind] at kept
  exact absurd kept (by decide)

end Build
end DiceNotation
