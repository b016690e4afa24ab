import DiceNotation.Proofs.Formula.ScaledTexts
import DiceNotation.Proofs.Roll.Deriving
import DiceNotation.Proofs.Roll.Rebuilding

namespace DiceNotation

/-!
# Numbers of altered dice

To alter dice is to build them once more with another number.  Their faces are copied, and their
modifiers, flavor and method are handed over.  A number in brackets was built from a formula that
can be read again.  Its text, with the factor and the summand behind it, is read as it is meant,
and what is built of it is the number under later identities, multiplied and added to.
-/

/-! ## Numbers of dice that are written out -/

/-- Whether a term was built from brackets around a tree whose clauses all satisfy a condition,
as that they are read again from their canonical texts. -/
def Term.IsLegible (P : Clause → Prop) (setup : Setup) (term : Term) : Prop :=
  ∃ inner raw start last, Build.clause setup (.group inner none raw) start = .ok (term, last) ∧
    inner.IsRow ∧ TreeThroughout P inner

/-- Whether the number of dice, if it is computed, is legible. -/
def Term.HasLegibleNumber (P : Clause → Prop) (setup : Setup) (term : Term) : Prop :=
  ∀ dice number, term = .dice dice → dice.number = .computed number → number.IsLegible P setup

/-- A computed amount was given as a term. -/
theorem AmountInput.eq_term_of_check {given : AmountInput} {what : DiceAmount} {least : Nat}
    {inner : Term} (checked : given.check what least = .ok (.computed inner)) :
    given = .term inner := by
  cases given with
  | term other =>
    cases checked
    rfl
  | data value =>
    simp only [AmountInput.check] at checked
    split at checked
    · split at checked <;> cases checked
    · cases checked
  | roll other => cases checked

namespace Build

variable {P : Clause → Prop} {setup : Setup}

/-- Whether all computed numbers of dice in a term are legible. -/
abbrev LegibleNumbers (P : Clause → Prop) (setup : Setup) (term : Term) : Prop :=
  term.Throughout (Term.HasLegibleNumber P setup) fun _ => True

theorem hasLegibleNumber_of_not_dice {term : Term} (other : ∀ dice, term ≠ .dice dice) :
    term.HasLegibleNumber P setup :=
  fun dice _ is => absurd is (other dice)

theorem dice_legible {input : DiceInput} {ledger last : Ledger} {dice : Dice}
    (number : ∀ inner, input.number = .term inner →
      inner.IsLegible P setup ∧ LegibleNumbers P setup inner)
    (faces : ∀ inner, input.faces = .term inner → LegibleNumbers P setup inner)
    (built : DiceInput.build setup input ledger = .ok (dice, last)) :
    LegibleNumbers P setup (.dice dice) := by
  obtain ⟨count, sides, commands, outcomes, method, accepts, rfl, rfl⟩ := dice_eq_ok.1 built
  obtain ⟨given, checked, sided⟩ := accepts.faces_checked
  refine ⟨?_, ?_, ?_⟩
  · rintro dice inner ⟨rfl⟩ (rfl : count = .computed inner)
    exact (number inner (AmountInput.eq_term_of_check accepts.number_checked)).1
  · cases count with
    | known n => trivial
    | computed inner =>
      exact (number inner (AmountInput.eq_term_of_check accepts.number_checked)).2
  · cases sides with
    | known n => trivial
    | computed inner =>
      have given := AmountInput.eq_term_of_check sided
      subst given
      rcases input.faces_of_checkFaces checked with ⟨value, data⟩ | same
      · cases data
      · exact faces inner same.symm

mutual

/-- In the term of a clause that can be read again, the computed numbers of dice can. -/
theorem clause_legible (legible : ∀ part, P part → part.IsLegible) : (part : Clause) →
    part.Throughout P → {ledger last : Ledger} → {term : Term} →
    clause setup part ledger = .ok (term, last) → LegibleNumbers P setup term
  | .numeric value flavor _, _, ledger, last, term, built => by
    obtain ⟨rfl, rfl⟩ := numeric_eq_ok.1 built
    exact hasLegibleNumber_of_not_dice nofun
  | .text text flavor _, _, ledger, last, term, built => by
    obtain ⟨rfl, rfl⟩ := word_eq_ok.1 built
    exact hasLegibleNumber_of_not_dice nofun
  | .group inner flavor raw, ⟨_, readable⟩, ledger, last, term, built => by
    obtain ⟨row, middle, roll, later, inside, around, rfl, rfl⟩ := group_eq_ok.1 built
    obtain ⟨grown, spans, _⟩ := terms_built inner inside
    obtain ⟨rfl, rfl, _⟩ := roll_of_fresh grown spans around
    exact ⟨hasLegibleNumber_of_not_dice nofun, trivial, terms_legible legible inner readable inside⟩
  | .function name arguments flavor raw, ⟨_, readable⟩, ledger, last, term, built => by
    obtain ⟨rolls, middle, fn, inside, selected, rfl, rfl⟩ := clauseFunction_eq_ok.1 built
    exact ⟨hasLegibleNumber_of_not_dice nofun, rolls_legible legible arguments readable inside⟩
  | .pool members modifiers flavor raw, ⟨_, readable⟩, ledger, last, term, built => by
    obtain ⟨rolls, middle, inside, rfl, rfl⟩ := clausePool_eq_ok.1 built
    exact ⟨hasLegibleNumber_of_not_dice nofun, rolls_legible legible members readable inside⟩
  | .dice number (.letter code) modifiers flavor raw,
      ⟨holds, readable, _⟩, ledger, last, term, built => by
    obtain ⟨given, middle, first, dice⟩ := clauseDice_eq_ok.1 built
    obtain ⟨kind, made, named, rolled, rfl⟩ := diceLetter_eq_ok.1 dice
    have row := (legible _ holds).1
    refine dice_legible (amount_legible legible number row readable first) (fun inner is => ?_) rolled
    cases is
  | .dice number (.amount faces) modifiers flavor raw,
      ⟨holds, readable, readableToo⟩, ledger, last, term, built => by
    obtain ⟨given, middle, first, dice⟩ := clauseDice_eq_ok.1 built
    obtain ⟨sides, later, made, second, rolled, rfl⟩ := diceAmount_eq_ok.1 dice
    obtain ⟨row, sided, _⟩ := legible _ holds
    exact dice_legible (amount_legible legible number row readable first)
      (fun inner is => (amount_legible legible faces sided readableToo second inner is).2) rolled

theorem terms_legible (legible : ∀ part, P part → part.IsLegible) : (tree : Tree Clause) →
    TreeThroughout P tree → {ledger last : Ledger} → {row : List Term} →
    terms setup tree ledger = .ok (row, last) →
    RowThroughout (Term.HasLegibleNumber P setup) (fun _ => True) row
  | .leaf part, readable, ledger, last, row, built => by
    obtain ⟨term, single, rfl⟩ := leaf_eq_ok.1 built
    exact ⟨clause_legible legible part readable single, trivial⟩
  | .node op left right, ⟨readable, readableToo⟩, ledger, last, row, built => by
    obtain ⟨before, middle, behind, first, second, rfl⟩ := node_eq_ok.1 built
    exact rowThroughout_append.2 ⟨terms_legible legible left readable first,
      hasLegibleNumber_of_not_dice nofun, terms_legible legible right readableToo second⟩

theorem rolls_legible (legible : ∀ part, P part → part.IsLegible) : (trees : List (Tree Clause)) →
    TreesThroughout P trees → {ledger last : Ledger} → {built : List Roll} →
    rolls setup trees ledger = .ok (built, last) →
    RollsThroughout (Term.HasLegibleNumber P setup) (fun _ => True) built
  | [], _, ledger, last, built, given => by
    obtain ⟨rfl, rfl⟩ := rolls_nil_eq_ok.1 given
    trivial
  | tree :: rest, ⟨readable, readableToo⟩, ledger, last, built, given => by
    obtain ⟨row, middle, first, later, more, inside, around, others, rfl⟩ :=
      rolls_cons_eq_ok.1 given
    obtain ⟨grown, spans, _⟩ := terms_built tree inside
    obtain ⟨rfl, rfl, _⟩ := roll_of_fresh grown spans around
    exact ⟨trivial, terms_legible legible tree readable inside,
      rolls_legible legible rest readableToo others⟩

theorem amount_legible (legible : ∀ part, P part → part.IsLegible) : (given : Amount Clause) →
    given.IsRow → WrittenThroughout P given → {ledger last : Ledger} → {built : AmountInput} →
    amount setup given ledger = .ok (built, last) → ∀ inner, built = .term inner →
      inner.IsLegible P setup ∧ LegibleNumbers P setup inner
  | .known n, _, _, ledger, last, built, given, inner, is => by
    obtain ⟨rfl, rfl⟩ := known_eq_ok.1 given
    cases is
  | .computed tree raw, row, readable, ledger, last, built, given, inner, is => by
    obtain ⟨terms, middle, roll, later, inside, around, rfl, rfl⟩ := computed_eq_ok.1 given
    obtain ⟨grown, spans, _⟩ := terms_built tree inside
    cases is
    refine ⟨⟨tree, raw, ledger, _, group_eq_ok.2
      ⟨terms, middle, roll, later, inside, around, rfl, rfl⟩, row, readable⟩, ?_⟩
    obtain ⟨rfl, rfl, _⟩ := roll_of_fresh grown spans around
    exact ⟨hasLegibleNumber_of_not_dice nofun, trivial, terms_legible legible tree readable inside⟩

end

end Build

/-! ## Altered numbers -/

/-- Brackets around a term with a factor and a summand, whose identities come behind those of
the term. -/
def Term.scaled (term : Term) (m a : Int) (next : Nat) : Term :=
  .group ⟨next + 5, []⟩ ⟨next + 4, [], [], [term, .operator ⟨next, []⟩ .mul,
    .numeric ⟨next + 1, []⟩ (.ofInt m), .operator ⟨next + 2, []⟩ (.adding a),
    .numeric ⟨next + 3, []⟩ (.ofInt a.natAbs)]⟩

namespace Build

/-- The change by an integer factor and an integer summand. -/
def Change.scale (m a : Int) : Change := { multiply := .ofInt m, add := .ofInt a }

/-- A computed number is changed by building the roll of a text. -/
theorem changeNumber_eq_ok {change : Change} {number : Term} {ledger last : Ledger}
    {given : AmountInput}
    (built : changeNumber setup change (.computed number) ledger = .ok (given, last)) :
    ∃ inside middle, ofFormula setup { formula := number.formula ++ " * " ++
        change.multiply.plainText ++ " + " ++ change.add.plainText } ledger =
          .ok (inside, middle) ∧
      given = .term (.group ⟨middle.next, []⟩ inside) ∧ last = middle.allot := by
  simp only [changeNumber] at built
  split at built
  · obtain ⟨_, _, refused, _⟩ := bind_eq_ok.1 built
    exact (refuse_ne_ok refused).elim
  · obtain ⟨inside, middle, made, around⟩ := bind_eq_ok.1 built
    obtain ⟨tag, _, tagged, ended⟩ := bind_eq_ok.1 around
    obtain ⟨rfl, rfl⟩ := tag_eq_ok.1 tagged
    obtain ⟨rfl, rfl⟩ := pure_eq_ok.1 ended
    exact ⟨inside, middle, made, rfl, rfl⟩

/-- An altered number, as far as it is computed: the number is built once more behind all that
is in use, with the factor and the summand behind it. -/
theorem changeNumber_computed {number : Term} (legible : number.IsLegible Clause.IsReadable setup)
    {m a : Int} {ledger last : Ledger} {given : AmountInput}
    (built : changeNumber setup (.scale m a) (.computed number) ledger = .ok (given, last)) :
    ∃ low stop next, number.Spans low stop ∧ next = shift low ledger.next stop ∧
      given = .term ((number.renumber (shift low ledger.next)).scaled m a next) ∧
      last.next = next + 6 ∧ Ledger.Grown ledger last ∧
      (number.renumber (shift low ledger.next)).Spans ledger.next next ∧
      (number.renumber (shift low ledger.next)).Throughout (Term.IsBuilt setup last)
        RollOf.IsSound := by
  obtain ⟨inner, raw, start, middle, single, row, readable⟩ := legible
  have written := (clause_written _ single).1
  obtain ⟨_, spans, _⟩ := clause_built _ single
  obtain ⟨inside, between, made, rfl, rfl⟩ := changeNumber_eq_ok built
  obtain ⟨text, tree, terms, ended, later, replaced, parsed, whole, around, _, rfl⟩ :=
    ofFormula_eq_ok.1 made
  cases replaced.symm.trans (Reference.replaceText_nothing _)
  obtain ⟨settings, valid⟩ := settings_of_parseFormula parsed
  rw [parseFormula_of_settings valid, written] at parsed
  have text : (Clause.group inner none raw).canonical.raw ++ " * " ++ (Json.ofInt m).plainText ++
      " + " ++ (Json.ofInt a).plainText =
      (Clause.group inner none raw).canonical.raw ++ scaleText m a := by
    simp only [scaleText, String.append_assoc]
    rfl
  -- the text is parsed as it is meant, and the brackets give the number again
  cases parse_scaled row readable (congrArg String.toList text) parsed
  obtain ⟨grown, spansToo, parts⟩ := terms_built _ whole
  obtain ⟨rfl, rfl, _⟩ := roll_of_fresh grown spansToo around
  obtain ⟨front, joined, behind, product, summand, rfl⟩ := node_eq_ok.1 whole
  obtain ⟨brackets, reached, factor, once, twice, rfl⟩ := node_eq_ok.1 product
  obtain ⟨copy, copied, rfl⟩ := leaf_eq_ok.1 once
  obtain ⟨_, multiplied, rfl⟩ := leaf_eq_ok.1 twice
  obtain ⟨_, added, rfl⟩ := leaf_eq_ok.1 summand
  obtain ⟨rfl, rfl⟩ := numeric_eq_ok.1 multiplied
  obtain ⟨rfl, rfl⟩ := numeric_eq_ok.1 added
  obtain ⟨_, rebuilt, stops⟩ :=
    clause_rebuilds _ single (Nat.le_refl _) (shift_first start.next ledger.next)
  cases copied.symm.trans rebuilt
  have rest := (Ledger.Grown.allot reached.allot.allot.allot.allot).trans
    (Ledger.Grown.allot reached.allot.allot.allot.allot.allot)
  exact ⟨start.next, middle.next, reached.next, spans, stops, rfl, rfl, grown.trans rest,
    (clause_built _ copied).2.1, (rowBuilt_extend parts spansToo rest).1⟩

/-- A known number is changed at once. -/
theorem changeNumber_known {n m a : Int} {ledger last : Ledger} {given : AmountInput}
    (built : changeNumber setup (.scale m a) (.known n) ledger = .ok (given, last)) :
    given = .data (.ofInt (n * m + a)) ∧ last = ledger := by
  cases built
  exact ⟨rfl, rfl⟩

/-! ## Altered dice -/

theorem alterDice_eq_ok {change : Change} {dice altered : Dice} {ledger last : Ledger}
    (built : alterDice setup change dice ledger = .ok (altered, last)) :
    ∃ number middle faces between,
      changeNumber setup change dice.number ledger = .ok (number, middle) ∧
      copyAmount setup dice.faces middle = .ok (faces, between) ∧
      DiceInput.build setup {
        kind := dice.kind, number := number, faces := faces, modifiers := .array dice.modifiers,
        method := (ledger.term dice.tag.id).method, options := dice.tag.options } between =
          .ok (altered, last) := by
  unfold alterDice at built
  obtain ⟨_, _, ⟨⟩, rest⟩ := bind_eq_ok.1 built
  simp only at rest
  split at rest
  · obtain ⟨_, _, refused, _⟩ := bind_eq_ok.1 rest
    exact (refuse_ne_ok refused).elim
  · obtain ⟨number, middle, changed, after⟩ := bind_eq_ok.1 rest
    obtain ⟨faces, between, copied, made⟩ := bind_eq_ok.1 after
    exact ⟨number, middle, faces, between, changed, copied, made⟩

/-- A term that can be restored is copied, also when more has been built since. -/
theorem copy_restores {term : Term} {first stop : Nat} (spans : term.Spans first stop)
    {now start : Ledger}
    (restorable : term.Throughout (Term.IsRestorable setup now) (RollOf.IsRestorable now))
    (same : Ledger.SameOn now start first stop) :
    Restores (copy setup term) start (term.renumber (shift first start.next))
      (shift first start.next stop) (Term.Copied (shift first start.next) now · term) := by
  have copies : copy setup term start = restoreTerm setup none (now.record term) start := by
    rw [copy, ← same.record spans]
  rw [Restores, copies]
  exact restore_term spans (Nat.le_refl _) restorable start (shift_first first start.next)

/-- Amounts that can be restored are copied, also when more has been built since. -/
theorem copyAmount_restores {amount : Operand Term} {first stop : Nat}
    (spans : AmountSpans amount first stop) {now start : Ledger}
    (restorable : AmountThroughout (Term.IsRestorable setup now) (RollOf.IsRestorable now) amount)
    (same : Ledger.SameOn now start first stop) :
    Restores (copyAmount setup amount) start
      (amountInput (Term.renumberAmount (shift first start.next) amount))
      (shift first start.next stop) fun last =>
        AmountThroughout (Term.Alike (shift first start.next) now last)
          (RollOf.Alike (shift first start.next) now last) amount := by
  cases amount with
  | known n =>
    obtain rfl : stop = first := spans
    exact ⟨start, rfl, shift_first stop start.next, .refl start, trivial⟩
  | computed term =>
    obtain ⟨last, built, ended, extended, copied⟩ := copy_restores spans restorable same
    exact ⟨last, bind_eq_ok.2 ⟨_, last, built, rfl⟩, ended, extended, copied⟩

end Build

/-- Dice with known methods, to which nothing has happened in a ledger. -/
structure DiceOf.IsFresh (setup : Setup) (ledger : Ledger) (first stop : Nat) (dice : Dice) :
    Prop where
  spans : (Term.dice dice).Spans first stop
  fresh : ledger.FreshOn first stop
  used : stop ≤ ledger.next
  parts : (Term.dice dice).Throughout (fun inner => inner.IsSound ∧
    inner.HasKnownMethod setup ledger) RollOf.IsSound

/-- Fresh dice as they are built from a formula that can be read again. -/
structure DiceOf.IsUntouched (setup : Setup) (ledger : Ledger) (first stop : Nat) (dice : Dice) :
    Prop extends dice.IsFresh setup ledger first stop where
  legible : (Term.dice dice).HasLegibleNumber Clause.IsReadable setup

/-- What altered dice have in common with the dice that they are made from. -/
structure DiceOf.Keeps (now later : Ledger) (dice altered : Dice) : Prop where
  kind : altered.kind = dice.kind
  faces : ∃ f, altered.faces = Term.renumberAmount f dice.faces
  facesRecord : later.amountRecord altered.faces = now.amountRecord dice.faces
  modifiers : altered.modifiers = dice.modifiers
  options : altered.tag.options = dice.tag.options
  method : (later.term altered.tag.id).method = (now.term dice.tag.id).method
  unchanged : Ledger.Extends now later

/-- What becomes of a number of dice: a known number is computed at once, and a computed one is
built once more with the factor and the summand behind it. -/
def Operand.Scales (setup : Setup) (now later : Ledger) (m a : Int) (altered : Operand Term) :
    Operand Term → Prop
  | .known n => altered = .known (n * m + a)
  | .computed number => ∃ low stop next, number.Spans low stop ∧ next = shift low now.next stop ∧
      altered = .computed ((number.renumber (shift low now.next)).scaled m a next) ∧
      next + 6 ≤ later.next ∧ later.FreshOn now.next (next + 6) ∧
      (number.renumber (shift low now.next)).Spans now.next next ∧
      (number.renumber (shift low now.next)).Throughout (Term.IsBuilt setup later) RollOf.IsSound

namespace Build

theorem isSet_of_named {table : MethodTable} {method : Json} {known : Method}
    (named : table.named method = .ok known) : method.isSet = true := by
  obtain ⟨name, rfl, found⟩ := named_eq_ok named
  exact bne_iff_ne.2 (MethodTable.ne_empty_of_get found)

/-- Amounts that wait can be restored if they are sound and their methods are known. -/
theorem restorable_of_waits {ledger : Ledger} {amount : Operand Term} {first stop : Nat}
    (spans : AmountSpans amount first stop) (waits : ledger.Waits first stop)
    (parts : AmountThroughout (fun inner => inner.IsSound ∧ inner.HasKnownMethod setup ledger)
      RollOf.IsSound amount) :
    AmountThroughout (Term.IsRestorable setup ledger) (RollOf.IsRestorable ledger) amount :=
  AmountThroughout.imp_spans spans (fun _ _ _ _ _ _ holds => ⟨holds.1, holds.2⟩)
    (fun _ _ _ above below within sound =>
      ⟨sound, sound.faithful_of_waits within (waits.mono above below)⟩) parts

/-- The faces of fresh dice are copied, however many identities have been taken since. -/
theorem copyAmount_fresh {dice : Dice} {now middle : Ledger} {first stop bound : Nat}
    (fresh : dice.IsFresh setup now first stop) (extended : Ledger.Extends now middle)
    (above : first ≤ bound) (sided : AmountSpans dice.faces bound dice.tag.id) :
    Restores (copyAmount setup dice.faces) middle
      (amountInput (Term.renumberAmount (shift bound middle.next) dice.faces))
      (shift bound middle.next dice.tag.id) fun last =>
        AmountThroughout (Term.Alike (shift bound middle.next) now last)
          (RollOf.Alike (shift bound middle.next) now last) dice.faces := by
  have ended : dice.tag.id < stop := Nat.lt_of_succ_le (Nat.le_of_eq fresh.spans.2.symm)
  have below := Nat.lt_of_lt_of_le ended fresh.used
  have waits : now.Waits bound dice.tag.id :=
    .of_fresh (fresh.fresh.mono above (Nat.le_of_lt ended)) (Nat.le_of_lt below)
  exact copyAmount_restores sided (restorable_of_waits sided waits fresh.parts.2.2)
    (extended.same.mono (Nat.zero_le _) (Nat.le_of_lt below))

/-- Dice that are built with a copy of the faces of sound dice, and with their modifiers and a
method, have these. -/
theorem build_keeps {dice altered : Dice} (sound : dice.IsSound) (f : Identity → Identity)
    {input : DiceInput} (kind : input.kind = dice.kind)
    (faces : input.faces = amountInput (Term.renumberAmount f dice.faces))
    (modifiers : input.modifiers = .array dice.modifiers) (set : input.method.isSet = true)
    {ledger last : Ledger} (built : DiceInput.build setup input ledger = .ok (altered, last)) :
    altered.kind = dice.kind ∧ altered.faces = Term.renumberAmount f dice.faces ∧
      altered.modifiers = dice.modifiers ∧ altered.tag.options = input.options ∧
      (last.term altered.tag.id).method = input.method ∧
      input.number.check .number 0 = .ok altered.number ∧ Ledger.Extends ledger last ∧
      altered.tag.id < last.next ∧ ledger.next ≤ altered.tag.id := by
  obtain ⟨count, sides, commands, outcomes, method, accepts, rfl, rfl⟩ := dice_eq_ok.1 built
  obtain ⟨given, checked, accepted⟩ := accepts.faces_checked
  obtain ⟨again, checkedToo, acceptedToo⟩ :=
    @checkFaces_amountInput (dice.renumber f) (isSound_renumber sound f) input kind faces
  cases checked.symm.trans checkedToo
  have cut := accepts.modifiers_cut
  rw [modifiers, sound.modifiers.listOfData] at cut
  have chosen := accepts.method_chosen
  rw [DiceInput.chooseMethod, if_pos set] at chosen
  refine ⟨kind, Except.ok.inj (accepted.symm.trans acceptedToo), (Except.ok.inj cut).symm, rfl, ?_,
    accepts.number_checked, (Ledger.Extends.allot ledger).updateTerm (Nat.le_refl _) _,
    Nat.lt_succ_self _, Nat.le_refl _⟩
  change ((withDice ledger outcomes method).term ledger.next).method = _
  rw [Ledger.term_withDice]
  exact (Except.ok.inj chosen).symm

end Build

/-- Where the faces of altered dice lie, which are a copy of the faces of other dice. -/
structure DiceOf.CopiesFaces (now later : Ledger) (dice altered : Dice) (first bound base : Nat) :
    Prop where
  number : AmountSpans dice.number first bound
  faces : AmountSpans dice.faces bound dice.tag.id
  same : altered.faces = Term.renumberAmount (shift bound base) dice.faces
  copied : AmountThroughout (Term.Alike (shift bound base) now later)
    (RollOf.Alike (shift bound base) now later) dice.faces
  used : shift bound base dice.tag.id ≤ altered.tag.id

namespace Build

/-- Altered dice keep everything but their number. -/
theorem alterDice_keeps {dice altered : Dice} {now later : Ledger} {first stop : Nat}
    (fresh : dice.IsFresh setup now first stop) {change : Change}
    (built : alterDice setup change dice now = .ok (altered, later)) :
    dice.Keeps now later altered ∧ altered.tag.id < later.next ∧
      (∃ bound base, dice.CopiesFaces now later altered first bound base) ∧ ∃ given middle,
      changeNumber setup change dice.number now = .ok (given, middle) ∧
      given.check .number 0 = .ok altered.number ∧ Ledger.Extends middle later := by
  obtain ⟨⟨bound, counted, sided⟩, ended⟩ := fresh.spans
  obtain ⟨number, middle, faces, between, changed, copied, made⟩ := alterDice_eq_ok built
  obtain ⟨extended, _⟩ :=
    Spares.extends (fun _ => spares_changeNumber change dice.number) changed
  obtain ⟨_, again, ends, further, alike⟩ :=
    copyAmount_fresh fresh extended (amountSpans_le counted) sided
  cases copied.symm.trans again
  obtain ⟨sound, known⟩ := fresh.parts.here
  obtain ⟨name, found, get, is⟩ := known dice rfl
  have named : setup.methods.named (now.term dice.tag.id).method = .ok found := by
    rw [is]
    exact get
  obtain ⟨kind, sides, modifiers, options, method, checked, last, used, behind⟩ :=
    build_keeps sound (shift bound middle.next) rfl rfl rfl (isSet_of_named named) made
  have copied := alike.extendCopy sided (Nat.le_refl _) ends last
  refine ⟨⟨kind, ⟨_, sides⟩, ?_, modifiers, options, method, (extended.trans further).trans last⟩,
    used, ⟨bound, middle.next, counted, sided, sides, copied, ends ▸ behind⟩, number, middle, changed,
    checked, further.trans last⟩
  rw [sides]
  exact copied.record

/-- The number of dice that are altered is scaled. -/
theorem alterDice_scales {dice altered : Dice} {now later : Ledger} {first stop : Nat}
    (untouched : dice.IsUntouched setup now first stop) {m a : Int}
    (built : alterDice setup (.scale m a) dice now = .ok (altered, later)) :
    dice.Keeps now later altered ∧ altered.number.Scales setup now later m a dice.number := by
  obtain ⟨keeps, _, _, given, middle, changed, checked, extended⟩ :=
    alterDice_keeps untouched.toIsFresh built
  refine ⟨keeps, ?_⟩
  cases shape : dice.number with
  | known n =>
    rw [shape] at changed
    obtain ⟨rfl, rfl⟩ := changeNumber_known changed
    change (if n * m + a < ((0 : Nat) : Int) then _ else _) = _ at checked
    split at checked
    · cases checked
    · exact (Except.ok.inj checked).symm
  | computed number =>
    rw [shape] at changed
    obtain ⟨low, stop, next, spans, is, rfl, ended, grown, apart, parts⟩ :=
      changeNumber_computed (untouched.legible dice number rfl shape) changed
    have same : Ledger.SameOn middle later 0 middle.next := extended.same
    refine ⟨low, stop, next, spans, is, (Except.ok.inj checked).symm, ?_, ?_, apart, ?_⟩
    · exact Nat.le_trans (Nat.le_of_eq ended.symm) extended.next_le
    · rw [← ended]
      exact grown.fresh.of_same (same.mono (Nat.zero_le _) (Nat.le_refl _))
    · have within : next ≤ middle.next :=
        Nat.le_trans (Nat.le_add_right _ 6) (Nat.le_of_eq ended.symm)
      exact Term.Throughout.imp apart (fun inner _ below holds => holds.of_same
        (same inner.id (Nat.zero_le _) (Nat.lt_of_lt_of_le below within)))
        (fun _ _ _ holds => holds) parts

end Build
end DiceNotation
