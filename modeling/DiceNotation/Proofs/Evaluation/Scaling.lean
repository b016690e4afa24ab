import DiceNotation.Proofs.Evaluation.Arithmetic
import DiceNotation.Proofs.Evaluation.Settled
import DiceNotation.Proofs.Evaluation.Twins
import DiceNotation.Proofs.Fulfillment.Finality
import DiceNotation.Proofs.Number.Amounts
import DiceNotation.Proofs.Roll.AlteredNumbers
import DiceNotation.Service

namespace DiceNotation

/-!
# Numbers of dice that are scaled

Dice are altered by a factor and a summand.  A known number is computed at once.  A bracketed one
is written, extended and read again, so that the altered dice have a twin of it with the factor
and the summand behind it.  The twin is evaluated as the number itself is, the constants behind it
take no uniform values, and of the three operands the first two belong together.
-/

/-! ## Constants -/

/-- Whether nothing has to be evaluated inside a term. -/
def Term.IsConstant : Term → Prop
  | .numeric _ _ | .operator _ _ => True
  | _ => False

namespace Context

variable (context : Context)

theorem evaluateTerm_constant {term : Term} (constant : term.IsConstant) {progress : Progress}
    (unevaluated : (progress.ledger.term term.id).phase = .unevaluated) :
    context.evaluateTerm term progress =
      .done (.ok ()) ((progress.entering term .evaluating).entering term .evaluated) := by
  cases term with
  | numeric tag value => exact Evaluation.ofTerm_of_done unevaluated rfl
  | operator tag op => exact Evaluation.ofTerm_of_done unevaluated rfl
  | _ => exact constant.elim

/-- A row of constants that wait is evaluated at once, and no uniform value is taken. -/
theorem evaluateTerms_constants {terms : List Term} (constants : ∀ term ∈ terms, term.IsConstant)
    {first stop : Nat} (spans : RowSpans terms first stop) {progress : Progress}
    (waits : progress.ledger.Waits first stop) :
    ∃ last, context.evaluateTerms terms progress = .done (.ok ()) last ∧
      last.draws = progress.draws ∧ progress.Touched (Between first stop) last ∧
      ∀ term ∈ terms, last.ledger.isEvaluated term = true := by
  induction terms generalizing first progress with
  | nil => exact ⟨progress, rfl, rfl, .refl _, nofun⟩
  | cons term rest ih =>
    obtain ⟨middle, here, later⟩ := spans
    obtain ⟨constant, others⟩ := List.forall_mem_cons.1 constants
    have below := rowSpans_le later
    have phase := waits.phase here.first_le (Nat.lt_of_lt_of_le here.id_lt below)
    let begun := (progress.entering term .evaluating).entering term .evaluated
    have between : Between first middle term.id := ⟨here.first_le, here.id_lt⟩
    have touched : progress.Touched (Between first middle) begun :=
      Ledger.Touched.trans (progress.touched_entering between _)
        (Progress.touched_entering between _ _)
    have waiting : begun.ledger.Waits middle stop :=
      (waits.mono (Nat.le_of_lt here.lt) (Nat.le_refl _)).of_touched touched
        fun id above _ inside => Nat.not_lt.2 above inside.2
    obtain ⟨last, run, draws, touchedToo, evaluated⟩ := ih others later waiting
    refine ⟨last, ?_, draws, ?_, List.forall_mem_cons.2 ⟨?_, evaluated⟩⟩
    · have single := Evaluation.unlessEvaluated_of_not
        (waits.isEvaluated here.first_le (Nat.lt_of_lt_of_le here.id_lt below))
        (context.evaluateTerm term)
      rw [context.evaluateTerm_constant constant phase] at single
      exact (Evaluation.bind_done single).trans run
    · exact Ledger.Touched.trans
        (Ledger.Touched.mono touched fun id inside => ⟨inside.1, Nat.lt_of_lt_of_le inside.2 below⟩)
        (Ledger.Touched.mono touchedToo fun id inside =>
          ⟨Nat.le_trans (Nat.le_of_lt here.lt) inside.1, inside.2⟩)
    · have used : middle ≤ begun.ledger.next :=
        Nat.le_trans (Nat.le_trans below waits.used) touched.next_le
      have same : Ledger.SameOn begun.ledger last.ledger first middle :=
        Ledger.Touched.sameOn touchedToo used fun id _ under inside => Nat.not_le.2 under inside.1
      rw [← same.isEvaluated here]
      exact Progress.isEvaluated_entering _ term

end Context

/-! ## Totals -/

/-- A number that is multiplied by one integer, and to which another one is added. -/
def Number.scaled (n : Number) (m a : Int) : Except NumberFault Number := do
  (← n.mul (.int m)).add (.int a)

theorem Number.scaled_int (n m a : Int) : (Number.int n).scaled m a = .ok (.int (n * m + a)) := rfl

/-- The row of a scaled term. -/
def Term.scaledRow (term : Term) (m a : Int) (next : Nat) : TermRow where
  first := term
  rest := [(⟨next, []⟩, .mul, .numeric ⟨next + 1, []⟩ (.ofInt m)),
    (⟨next + 2, []⟩, .adding a, .numeric ⟨next + 3, []⟩ (.ofInt a.natAbs))]

theorem Operator.apply_adding (formula : String) (p : Number) (a : Int) :
    (Operator.adding a).apply formula (.number p) (.ofInt a.natAbs) =
      (liftNumber (p.add (.int a))).map .number := by
  unfold Operator.adding
  split
  · rename_i negative
    rw [← p.sub_natAbs negative]
    rfl
  · rename_i positive
    have same : ((a.natAbs : Nat) : Int) = a := Int.natAbs_of_nonneg (Int.not_lt.1 positive)
    rw [same]
    rfl

/-- The total of a product and a summand. -/
theorem Tree.total_scaled {totalOf : Term → Except Fault Json} (formula : String)
    {term factor summand : Term} {m a : Int} {n s : Number}
    (total : totalOf term = .ok (.number n)) (multiplied : totalOf factor = .ok (.ofInt m))
    (added : totalOf summand = .ok (.ofInt a.natAbs)) (scaled : n.scaled m a = .ok s) :
    Tree.total totalOf formula
      (.node (.adding a) (.node .mul (.leaf term) (.leaf factor)) (.leaf summand)) =
        .ok (.number s) := by
  have product : Operator.mul.apply formula (.number n) (.ofInt m) =
      (liftNumber (n.mul (.int m))).map .number := rfl
  simp only [Tree.total, total, multiplied, added]
  change (Operator.mul.apply formula (.number n) (.ofInt m) >>= fun p =>
    (Operator.adding a).apply formula p (.ofInt a.natAbs)) = _
  unfold Number.scaled at scaled
  cases found : n.mul (.int m) with
  | error fault =>
    rw [found] at scaled
    cases scaled
  | ok p =>
    rw [found] at product scaled
    change p.add (.int a) = .ok s at scaled
    rw [product]
    change (Operator.adding a).apply formula (.number p) (.ofInt a.natAbs) = _
    rw [Operator.apply_adding, scaled]
    rfl

/-- A scaled row amounts to the scaled number, if the term and the constants are evaluated. -/
theorem Ledger.totalOfTerms_scaledRow {ledger : Ledger} {term : Term}
    (operand : term.isOperand = true) {m a : Int} {next : Nat}
    (constants : ∀ inner ∈ TermRow.joinedTerms (term.scaledRow m a next).rest,
      ledger.isEvaluated inner = true) {n s : Number}
    (total : ledger.total term = .ok (.number n)) (scaled : n.scaled m a = .ok s) :
    ledger.totalOfTerms (term.scaledRow m a next).terms = .ok (.number s) := by
  have proper : (term.scaledRow m a next).IsProper := by
    refine List.forall_mem_cons.2 ⟨operand, List.forall_mem_cons.2 ⟨rfl, ?_⟩⟩
    exact List.forall_mem_cons.2 ⟨rfl, nofun⟩
  have grouped : Tree.ofRun (.leaf term) (Tree.singles (term.scaledRow m a next).joined) =
      .node (.adding a) (.node .mul (.leaf term) (.leaf (.numeric ⟨next + 1, []⟩ (.ofInt m))))
        (.leaf (.numeric ⟨next + 3, []⟩ (.ofInt a.natAbs))) := by
    unfold Term.scaledRow Operator.adding
    split <;> rfl
  have constant {tag : Tag} {value : Json}
      (member : .numeric tag value ∈ TermRow.joinedTerms (term.scaledRow m a next).rest) :
      ledger.total (.numeric tag value) = .ok value := by
    rw [Ledger.total, constants _ member, if_pos rfl]
    rfl
  have tree := TermRow.treeOfTerms_terms proper (formulaOf (term.scaledRow m a next).terms)
  change _ = Except.ok (Tree.ofRun (.leaf term) _) at tree
  rw [Ledger.totalOfTerms, tree, grouped]
  exact Tree.total_scaled _ total (constant (.tail _ (.head _)))
    (constant (.tail _ (.tail _ (.tail _ (.head _))))) scaled

/-! ## Evaluating a scaled term -/

/-- The second evaluation may change what is no twin of anything. -/
theorem Twins.Agree.of_same {twins : Twins} {context : Context}
    {progress other later : Progress} (agree : twins.Agree context progress other)
    (draws : later.draws = other.draws)
    (same : ∀ id, twins.known id ∨ twins.rolled id →
      Ledger.SameAt other.ledger later.ledger (twins.twin id)) :
    twins.Agree context progress later where
  draws := draws.trans agree.draws
  term id known := by
    rw [← (same id (.inl known)).term]
    exact agree.term id known
  roll id known := (same id (.inl known)).roll.symm.trans (agree.roll id known)
  uniform := agree.uniform
  uniformToo id rolled := by
    rw [← (same id (.inr rolled)).term]
    exact agree.uniformToo id rolled

namespace Context

variable {context : Context}

/-- Brackets are evaluated by evaluating the row in them, which has a total. -/
theorem evaluateTerm_brackets {tag : Tag} {roll : Roll} {progress last : Progress} {total : Json}
    (phase : (progress.ledger.term tag.id).phase = .unevaluated)
    (rollPhase : (progress.ledger.roll roll.id).phase = .unevaluated)
    (row : context.evaluateTerms roll.terms
      ((progress.entering (.group tag roll) .evaluating).starting roll) = .done (.ok ()) last)
    (sum : last.ledger.totalOfTerms roll.terms = .ok total) :
    context.evaluateTerm (.group tag roll) progress = .done (.ok ())
      ((last.finishing roll total).entering (.group tag roll) .evaluated) := by
  let entered := progress.entering (.group tag roll) .evaluating
  have untouched : (entered.ledger.roll roll.id).phase = .unevaluated := rollPhase
  have not : entered.ledger.isRollEvaluated roll = false := by
    rw [Ledger.isRollEvaluated, untouched]
    rfl
  have rolled := Evaluation.ofRoll_of_done untouched row
  rw [sum] at rolled
  have inside := Evaluation.unlessRollEvaluated_of_not not (context.evaluateRoll roll)
  exact Evaluation.ofTerm_of_done phase (inside.trans rolled)

/-- A scaled twin of a term is evaluated with the same uniform values as the term, and amounts to
the scaled total of the term. -/
theorem evaluate_scaled {twins : Twins} {number : Term}
    (parts : number.Throughout twins.HasTerm twins.HasRoll) {base next : Nat}
    (spans : (number.renumber twins.twin).Spans base next)
    (below : ∀ id, twins.known id ∨ twins.rolled id → twins.twin id < next)
    (operand : (number.renumber twins.twin).isOperand = true) {progress last : Progress}
    (agree : twins.Agree context progress progress)
    (waits : progress.ledger.Waits base (next + 6))
    (run : context.evaluateAmount (.computed number) progress = .done (.ok ()) last) {n s : Number}
    (total : last.ledger.total number = .ok (.number n)) {m a : Int}
    (scaled : n.scaled m a = .ok s) :
    ∃ lastToo, context.evaluateAmount
        (.computed ((number.renumber twins.twin).scaled m a next)) progress =
          .done (.ok ()) lastToo ∧
      lastToo.ledger.total ((number.renumber twins.twin).scaled m a next) = .ok (.number s) ∧
      lastToo.draws = last.draws := by
  let copy := number.renumber twins.twin
  let constants := TermRow.joinedTerms (copy.scaledRow m a next).rest
  let roll : Roll := ⟨next + 4, [], [], copy :: constants⟩
  let altered : Term := .group ⟨next + 5, []⟩ roll
  let entered := progress.entering altered .evaluating
  let started := entered.starting roll
  have low : base ≤ next := Nat.le_of_lt spans.lt
  -- what is inside waits when the brackets have been entered
  have outside : Between (next + 4) (next + 6) altered.id :=
    ⟨Nat.le_succ _, Nat.lt_succ_self _⟩
  have around : Between (next + 4) (next + 6) roll.id :=
    ⟨Nat.le_refl _, Nat.lt_succ_of_lt (Nat.lt_succ_self _)⟩
  have touched : progress.Touched (Between (next + 4) (next + 6)) started :=
    Ledger.Touched.trans (progress.touched_entering outside _) (entered.touched_starting around)
  have waiting : started.ledger.Waits base (next + 4) :=
    (waits.mono (Nat.le_refl _) (Nat.le_add_right _ 2)).of_touched touched
      fun id _ under inside => Nat.not_lt.2 inside.1 under
  have begun : twins.Agree context progress started :=
    agree.of_same rfl fun id is => Ledger.Touched.outside touched _
      (Nat.lt_of_lt_of_le (below id is) (Nat.le_trans (Nat.le_add_right _ 6) waits.used))
      fun inside => Nat.not_le.2 (below id is) (Nat.le_trans (Nat.le_add_right _ 4) inside.1)
  -- the copy does what the number does
  obtain ⟨_, _, copied, runs, runsToo, agrees⟩ :=
    (Twins.follow_unlessEvaluated parts.here.1 (Twins.follow_evaluateTerm number parts)).together
      begun
  unfold evaluateAmount at run
  cases run.symm.trans runs
  have within := keeps_evaluateTerm context.follows_touched copy spans.inside started
  have unevaluated := waiting.isEvaluated spans.first_le
    (Nat.lt_of_lt_of_le spans.id_lt (Nat.le_add_right _ 4))
  rw [← Evaluation.unlessEvaluated_of_not unevaluated (context.evaluateTerm copy), runsToo]
    at within
  change started.Touched (Between base next) copied at within
  -- the constants are evaluated, and leave the copy alone
  have still : copied.ledger.Waits next (next + 4) :=
    (waiting.mono low (Nat.le_refl _)).of_touched within
      fun id above _ inside => Nat.not_lt.2 above inside.2
  have spread : RowSpans constants next (next + 4) :=
    ⟨_, ⟨rfl, rfl⟩, _, ⟨rfl, rfl⟩, _, ⟨rfl, rfl⟩, _, ⟨rfl, rfl⟩, rfl⟩
  have plain : ∀ inner ∈ constants, inner.IsConstant :=
    List.forall_mem_cons.2 ⟨trivial, List.forall_mem_cons.2 ⟨trivial,
      List.forall_mem_cons.2 ⟨trivial, List.forall_mem_cons.2 ⟨trivial, nofun⟩⟩⟩⟩
  obtain ⟨final, finished, draws, apart, evaluated⟩ :=
    context.evaluateTerms_constants plain spread still
  have same : Ledger.SameOn copied.ledger final.ledger base next :=
    Ledger.Touched.sameOn apart (Nat.le_trans (Nat.le_add_right _ 4) still.used)
      fun id _ under inside => Nat.not_le.2 under inside.1
  have totalToo : final.ledger.total copy = .ok (.number n) := by
    rw [← same.total spans, agrees.total parts, total]
  have sum : final.ledger.totalOfTerms roll.terms = .ok (.number s) :=
    Ledger.totalOfTerms_scaledRow operand evaluated totalToo scaled
  -- the row, the roll around it and the brackets
  have row : context.evaluateTerms roll.terms started = .done (.ok ()) final :=
    (Evaluation.bind_done runsToo).trans finished
  have high : base ≤ next + 5 := Nat.le_trans low (Nat.le_add_right _ 5)
  have upTo : next + 4 < next + 6 := Nat.lt_succ_of_lt (Nat.lt_succ_self _)
  have rollPhase := waits.rollPhase (Nat.le_trans low (Nat.le_add_right _ 4)) upTo
  have phase := waits.phase high (Nat.lt_succ_self (next + 5))
  have not : progress.ledger.isEvaluated altered = false :=
    waits.isEvaluated high (Nat.lt_succ_self (next + 5))
  have whole := evaluateTerm_brackets phase rollPhase row sum
  exact ⟨_, (Evaluation.unlessEvaluated_of_not not _).trans whole,
    Progress.total_brackets _ _ (final.roll_finishing roll _), draws.trans agrees.draws⟩

end Context

/-! ## Altered dice -/

/-- Whether a term takes every value from the uniform source, if it is dice. -/
def Term.TakesUniform (context : Context) (ledger : Ledger) (term : Term) : Prop :=
  ∀ dice, term = .dice dice → context.TakesUniform (ledger.term dice.tag.id).method

/-- Whether nothing has happened yet to dice and to what is inside them, and all of these dice
take their values from the uniform source. -/
structure DiceOf.IsUnrolled (context : Context) (ledger : Ledger) (dice : Dice) : Prop where
  untouched : ∃ first stop, (Term.dice dice).Spans first stop ∧ ledger.FreshOn first stop ∧
    stop ≤ ledger.next
  uniform : (Term.dice dice).Throughout (Term.TakesUniform context ledger) fun _ => True

/-- Whether a term, if it is dice, would take every value from the uniform source without a method
of its own. -/
def Term.DefaultsUniform (setup : Setup) (context : Context) (term : Term) : Prop :=
  ∀ dice, term = .dice dice → ∀ name,
    DiceInput.defaultMethod setup dice.kind dice.faces = .ok name →
      context.TakesUniform (.string name)

/-- What an amount of dice amounts to, once it is evaluated. -/
def Ledger.totalOfAmount (ledger : Ledger) : Operand Term → Except Fault Json
  | .known n => .ok (.ofInt n)
  | .computed term => ledger.total term

/-- What altering dice by an integer factor and an integer summand does: everything is kept but
the number.  Whatever the number of the first dice amounts to, the number of the second ones
amounts to that times the factor plus the summand, and takes as many uniform values. -/
structure DiceOf.Scaled (context : Context) (m a : Int) (now later : Ledger)
    (dice altered : Dice) : Prop where
  keeps : dice.Keeps now later altered
  number : ∀ {start last : Progress} {n s : Number}, start.ledger = later →
    context.evaluateAmount dice.number start = .done (.ok ()) last →
    last.ledger.totalOfAmount dice.number = .ok (.number n) → n.scaled m a = .ok s →
    ∃ lastToo, context.evaluateAmount altered.number start = .done (.ok ()) lastToo ∧
      lastToo.ledger.totalOfAmount altered.number = .ok (.number s) ∧
      lastToo.draws = last.draws

namespace Build

variable {setup : Setup} {context : Context}

/-- The twins of what is built once more: identities in a range to which nothing has happened,
and those of dice that take their values from the uniform source. -/
def rebuiltTwins (context : Context) (ledger : Ledger) (low stop base : Nat) : Twins where
  twin := shift low base
  known id := Between low stop id ∧ (ledger.term id).IsFresh ∧ ledger.roll id = default ∧
    (ledger.term (shift low base id)).IsFresh ∧ ledger.roll (shift low base id) = default
  rolled id := Between low stop id ∧ context.TakesUniform (ledger.term id).method ∧
    context.TakesUniform (ledger.term (shift low base id)).method
  injective first second same := by
    have above := first.1.1
    have aboveToo := second.1.1
    unfold shift Identity at *
    omega

theorem rebuiltTwins_agree {progress : Progress} {low stop base : Nat} :
    (rebuiltTwins context progress.ledger low stop base).Agree context progress progress where
  draws := rfl
  term id known := by
    obtain ⟨_, fresh, _, freshToo, _⟩ := known
    change TermState.withoutMethod (progress.ledger.term (shift low base id)) = _
    rw [freshToo, fresh]
    rfl
  roll id known := by
    obtain ⟨_, _, blank, _, blankToo⟩ := known
    exact blankToo.trans blank.symm
  uniform id rolled := rolled.2.1
  uniformToo id rolled := rolled.2.2

/-- The method for which none is given does not depend on identities. -/
theorem defaultMethod_renumber (setup : Setup) (f : Identity → Identity) (kind : DieKind)
    (faces : Operand Term) :
    DiceInput.defaultMethod setup kind (Term.renumberAmount f faces) =
      DiceInput.defaultMethod setup kind faces := by
  cases faces <;> rfl

/-- What a number of dice is built of once more are twins of its parts. -/
theorem rebuiltTwins_has {dice : Dice} {now later : Ledger}
    (unrolled : dice.IsUnrolled context now)
    (sound : (Term.dice dice).Throughout Term.IsSound RollOf.IsSound)
    (defaults : AmountThroughout (Term.DefaultsUniform setup context) (fun _ => True) dice.number)
    (extended : Ledger.Extends now later) {number : Term}
    (computed : dice.number = .computed number) {low stop base : Nat}
    (spans : number.Spans low stop) (fresh : later.FreshOn base (shift low base stop))
    (built : (number.renumber (shift low base)).Throughout (Term.IsBuilt setup later)
      RollOf.IsSound) :
    number.Throughout (rebuiltTwins context later low stop base).HasTerm
      (rebuiltTwins context later low stop base).HasRoll := by
  obtain ⟨⟨first, last, ranges, untouched, used⟩, uniform⟩ := unrolled
  have inside := ranges.inside.2.1
  have rolled := uniform.2.1
  have sounds := sound.2.1
  rw [computed] at inside rolled sounds defaults
  have known (id : Identity) (above : low ≤ id) (below : id < stop) (old : Between first last id) :
      (rebuiltTwins context later low stop base).known id := by
    have same := extended.same id (Nat.zero_le _) (Nat.lt_of_lt_of_le old.2 used)
    obtain ⟨blank, none⟩ := untouched id old.1 old.2
    obtain ⟨blankToo, noneToo⟩ := fresh _ (Nat.le_add_right base _) (shift_lt above below)
    exact ⟨⟨above, below⟩, same.term ▸ blank, same.roll ▸ none, blankToo, noneToo⟩
  have all := ((inside : number.Inside (Between first last)).and
    ((rolled : number.Throughout _ _).and (defaults : number.Throughout _ _))).and
      ((sounds : number.Throughout _ _).and built.of_renumber)
  refine Term.Throughout.imp spans ?_ ?_ all
  · rintro inner above below ⟨⟨old, even, evenToo⟩, sound, _, named⟩
    refine ⟨known inner.id above below old, ?_⟩
    rintro d rfl
    obtain ⟨name, _, default, _, is⟩ := named (d.renumber (shift low base)) rfl
    have default := (defaultMethod_renumber setup _ d.kind d.faces).symm.trans default
    have same := extended.same d.tag.id (Nat.zero_le _) (Nat.lt_of_lt_of_le old.2 used)
    refine ⟨⟨⟨above, below⟩, same.term ▸ even d rfl, ?_⟩, sound⟩
    change context.TakesUniform (later.term (d.renumber (shift low base)).tag.id).method
    rw [is]
    exact evenToo d rfl name default
  · rintro roll above below ⟨⟨old, _⟩, same, _⟩
    exact ⟨known roll.id above below old, same⟩

/-- A scaled number amounts to the scaled total, and takes the uniform values that the first number
takes. -/
theorem totalOfAmount_scales {dice : Dice} {now later : Ledger}
    (unrolled : dice.IsUnrolled context now)
    (sound : (Term.dice dice).Throughout Term.IsSound RollOf.IsSound)
    (defaults : AmountThroughout (Term.DefaultsUniform setup context) (fun _ => True) dice.number)
    (extended : Ledger.Extends now later) {m a : Int} {altered : Operand Term}
    (scales : altered.Scales setup now later m a dice.number) {start last : Progress}
    (begins : start.ledger = later)
    (run : context.evaluateAmount dice.number start = .done (.ok ()) last) {n s : Number}
    (total : last.ledger.totalOfAmount dice.number = .ok (.number n))
    (scaled : n.scaled m a = .ok s) :
    ∃ lastToo, context.evaluateAmount altered start = .done (.ok ()) lastToo ∧
      lastToo.ledger.totalOfAmount altered = .ok (.number s) ∧ lastToo.draws = last.draws := by
  subst begins
  have bracketed := sound.here.numberBracketed
  cases computed : dice.number with
  | known k =>
    rw [computed] at scales run total
    obtain rfl : altered = .known (k * m + a) := scales
    unfold Context.evaluateAmount at run ⊢
    cases run
    cases total
    cases scaled
    exact ⟨_, rfl, rfl, rfl⟩
  | computed number =>
    rw [computed] at scales run total bracketed
    obtain ⟨low, stop, _, spans, rfl, rfl, ended, fresh, apart, built⟩ := scales
    obtain ⟨tag, roll, rfl⟩ := bracketed
    have parts := rebuiltTwins_has unrolled sound defaults extended computed spans
      (fresh.mono (Nat.le_refl _) (Nat.le_add_right _ 6)) built
    refine Context.evaluate_scaled parts apart ?_ rfl rebuiltTwins_agree (.of_fresh fresh ended) run
      total scaled
    rintro id (known | rolled)
    · exact shift_lt known.1.1 known.1.2
    · exact shift_lt rolled.1.1 rolled.1.2

/-- When a roll has been made, nothing has happened to its dice. -/
theorem isUnrolled_of_built {input : RollInput} {ledger made : Ledger} {roll : Roll}
    (built : ofFormula setup input ledger = .ok (roll, made))
    (uniform : ∀ dice ∈ roll.dice, context.TakesUniform (made.term dice.tag.id).method)
    {dice : Dice} (member : dice ∈ roll.dice) : dice.IsUnrolled context made := by
  have whole := ofFormula_isMade built
  have behind := Nat.le_of_lt whole.spans.bounds.2
  have ranges : RowThroughout (fun inner => ∃ first stop, inner.Spans first stop ∧
      made.FreshOn first stop ∧ stop ≤ made.next) RollOf.IsSound roll.terms :=
    RowThroughout.imp_spans whole.spans.1
      (fun inner low high above below spans _ => ⟨low, high, spans,
        whole.fresh.mono above (Nat.le_trans below behind), Nat.le_trans below behind⟩)
      (fun _ _ _ _ _ _ sound => sound) whole.row
  exact ⟨ranges.diceFrom dice member, (rowThroughout_of_dice uniform).nested.diceFrom dice member⟩

/-- Dice of a formula with integers are untouched as long as nothing has happened to them. -/
theorem isUntouched_of_built {input : RollInput} {ledger made : Ledger} {roll : Roll}
    (built : ofFormula setup input ledger = .ok (roll, made)) {text : String}
    (replaced : Reference.replaceText input.formula input.data none = .ok text)
    {tree : Tree Clause} (parsed : parseFormula setup text none = .ok tree)
    (whole : TreeThroughout Clause.IsWhole tree) {dice : Dice} (member : dice ∈ roll.dice)
    (methods : context.methods = setup.methods) {now : Ledger}
    (unrolled : dice.IsUnrolled context now) :
    ∃ first stop, dice.IsUntouched setup now first stop := by
  obtain ⟨first, stop, spans, fresh, used⟩ := unrolled.untouched
  have restorable := (ofFormula_isMade built).row.nested.diceFrom dice member
  obtain ⟨_, _, row, middle, _, replacedToo, parsedToo, inside, around, _, _⟩ :=
    ofFormula_eq_ok.1 built
  cases replaced.symm.trans replacedToo
  cases parsed.symm.trans parsedToo
  obtain ⟨settings, valid⟩ := settings_of_parseFormula parsed
  rw [parseFormula_of_settings valid] at parsed
  have readable : TreeThroughout Clause.IsReadable tree :=
    treeThroughout_both tree (Source.parse_sound parsed).clauses
      (treeThroughout_both tree whole (terms_written tree inside).2)
  obtain ⟨grown, spansToo, _⟩ := terms_built tree inside
  obtain ⟨rfl, _, _⟩ := roll_of_fresh grown spansToo around
  refine ⟨first, stop, ⟨spans, fresh, used, ?_⟩,
    (terms_legible (fun _ holds => holds.1) tree readable inside).diceFrom dice member⟩
  refine Term.Throughout.imp spans (fun inner _ _ ⟨sound, even⟩ => ⟨sound.sound, ?_⟩)
    (fun _ _ _ holds => holds.1) (restorable.and unrolled.uniform)
  rintro d rfl
  obtain ⟨method, named, _⟩ := even d rfl
  rw [methods] at named
  obtain ⟨name, is, found⟩ := named_eq_ok named
  exact ⟨name, method, found, is⟩

/-- To alter dice of a formula by an integer factor and an integer summand is to scale their
number, also if it is a bracketed formula, which is written, extended and read again.  The numbers
in the formula are integers, nothing has happened to the dice yet, and they take all values from
the uniform source.  Dice in the brackets are built again without their methods, so those that
stand in for them have to take all values from the uniform source as well. -/
theorem alterDice_scaled {input : RollInput} {ledger made : Ledger} {roll : Roll}
    (built : ofFormula setup input ledger = .ok (roll, made)) {text : String}
    (replaced : Reference.replaceText input.formula input.data none = .ok text)
    {tree : Tree Clause} (parsed : parseFormula setup text none = .ok tree)
    (whole : TreeThroughout Clause.IsWhole tree) {dice : Dice} (member : dice ∈ roll.dice)
    (methods : context.methods = setup.methods) {now later : Ledger}
    (unrolled : dice.IsUnrolled context now)
    (defaults : AmountThroughout (Term.DefaultsUniform setup context) (fun _ => True) dice.number)
    {m a : Int} {altered : Dice}
    (alters : alterDice setup (.scale m a) dice now = .ok (altered, later)) :
    dice.Scaled context m a now later altered := by
  obtain ⟨first, stop, untouched⟩ :=
    isUntouched_of_built built replaced parsed whole member methods unrolled
  obtain ⟨keeps, scales⟩ := alterDice_scales untouched alters
  have sound : (Term.dice dice).Throughout Term.IsSound RollOf.IsSound :=
    Term.Throughout.imp untouched.spans (fun _ _ _ holds => holds.1) (fun _ _ _ holds => holds)
      untouched.parts
  exact ⟨keeps, fun begins run total scaled =>
    totalOfAmount_scales unrolled sound defaults keeps.unchanged scales begins run total scaled⟩

/-- An evaluation whose uniform values are all zero. -/
def leastContext (setup : Setup) : Context :=
  ({} : Options).contextWith (Service.quiet setup) false 0

/-- The integer that an amount of dice amounts to if all uniform values are zero, and how many of
them it takes. -/
def leastAmount (setup : Setup) (amount : Operand Term) (ledger : Ledger) : Option (Int × Nat) :=
  match (leastContext setup).evaluateAmount amount (.ofLedger ledger) with
  | .done (.ok ()) last =>
    match last.ledger.totalOfAmount amount with
    | .ok (.number (.int n)) => some (n, last.draws)
    | _ => none
  | _ => none

theorem evaluateAmount_of_leastAmount {setup : Setup} {amount : Operand Term} {ledger : Ledger}
    {n : Int} {draws : Nat} (found : leastAmount setup amount ledger = some (n, draws)) :
    ∃ last, (leastContext setup).evaluateAmount amount (.ofLedger ledger) =
        .done (.ok ()) last ∧
      last.ledger.totalOfAmount amount = .ok (.number (.int n)) ∧ last.draws = draws := by
  unfold leastAmount at found
  split at found
  · rename_i last run
    split at found
    · rename_i k total
      cases found
      exact ⟨last, run, total, rfl⟩
    · cases found
  · cases found

theorem defaultsUniform_usual (term : Term) : term.DefaultsUniform usual (leastContext usual) := by
  rintro dice rfl name found
  have same : name = "random" := by
    cases faces : dice.faces <;> rw [faces] at found <;> cases found <;> rfl
  subst same
  decide

/-- A roll with a bracketed number of dice. -/
def bracketedNumber : Except Fault (Roll × Ledger) :=
  ofFormula usual { formula := "(1d4 - -2 * 3)d6kh1[fire]" } .empty

theorem alterDice_scaled_of_bracketed : ∃ roll made dice altered later,
    bracketedNumber = .ok (roll, made) ∧ dice ∈ roll.dice ∧
    alterDice usual (.scale 2 (-3)) dice made = .ok (altered, later) ∧
    leastAmount usual dice.number later = some (7, 1) ∧
    leastAmount usual altered.number later = some (11, 1) ∧
    dice.Scaled (leastContext usual) 2 (-3) made later altered := by
  have computed : (do
      let start ← bracketedNumber
      let dice ← start.1.dice.head?.elim (.error Fault.wrongKind) Except.ok
      let result ← alterDice usual (.scale 2 (-3)) dice start.2
      return decide ((∀ dice ∈ start.1.dice,
          (leastContext usual).TakesUniform (start.2.term dice.tag.id).method) ∧
        leastAmount usual dice.number result.2 = some (7, 1) ∧
        leastAmount usual result.1.number result.2 = some (11, 1))).toOption = some true := by
    decide +kernel
  have parses : (do
      let tree ← parseFormula usual "(1d4 - -2 * 3)d6kh1[fire]" none
      return decide (TreeThroughout Clause.IsWhole tree)).toOption = some true := by
    decide +kernel
  rcases result_bind (result_of_toOption computed) with ⟨⟨roll, made⟩, built, rest⟩
  rcases result_bind rest with ⟨dice, first, rest⟩
  rcases result_bind rest with ⟨⟨altered, later⟩, alters, rest⟩
  rcases result_bind (result_of_toOption parses) with ⟨tree, parsed, whole⟩
  rcases of_decide_eq_true (Except.ok.inj rest) with ⟨uniform, seven, eleven⟩
  have whole := of_decide_eq_true (Except.ok.inj whole)
  have member := mem_of_head first
  have unrolled := isUnrolled_of_built built uniform member
  have everywhere : RowThroughout (Term.DefaultsUniform usual (leastContext usual))
      (fun _ => True) roll.terms :=
    rowThroughout_of_dice fun dice _ => defaultsUniform_usual (.dice dice) dice rfl
  exact ⟨roll, made, dice, altered, later, built, member, alters, seven, eleven,
    alterDice_scaled built (Reference.replaceText_nothing _) parsed whole member rfl unrolled
      (everywhere.nested.diceFrom dice member).2.1 alters⟩

/-- Settings that name a method which answers for all dice. -/
def generous : Setup := ⟨.ok { defaultMethod := "maximum" }, .standard⟩

/-- A roll whose dice are left to the uniform source, whatever the settings say. -/
def randomRoll : Except Fault (Roll × Ledger) :=
  ofFormula generous { formula := "(1d6)d8", method := .string "random" } .empty

/-- Dice in a bracketed number are written without their method, so that they get the one that the
settings name.  With the same uniform source the number is another one then, although nothing is
to be multiplied or added. -/
theorem unscaled_with_generous : ∃ roll made dice altered later,
    randomRoll = .ok (roll, made) ∧ dice ∈ roll.dice ∧
    dice.IsUnrolled (leastContext generous) made ∧
    alterDice generous (.scale 1 0) dice made = .ok (altered, later) ∧
    leastAmount generous dice.number later = some (1, 1) ∧
    leastAmount generous altered.number later = some (6, 0) ∧
    ¬ dice.Scaled (leastContext generous) 1 0 made later altered := by
  have computed : (do
      let start ← randomRoll
      let dice ← start.1.dice.head?.elim (.error Fault.wrongKind) Except.ok
      let result ← alterDice generous (.scale 1 0) dice start.2
      return decide ((∀ dice ∈ start.1.dice,
          (leastContext generous).TakesUniform (start.2.term dice.tag.id).method) ∧
        leastAmount generous dice.number result.2 = some (1, 1) ∧
        leastAmount generous result.1.number result.2 = some (6, 0))).toOption = some true := by
    decide +kernel
  rcases result_bind (result_of_toOption computed) with ⟨⟨roll, made⟩, built, rest⟩
  rcases result_bind rest with ⟨dice, first, rest⟩
  rcases result_bind rest with ⟨⟨altered, later⟩, alters, rest⟩
  rcases of_decide_eq_true (Except.ok.inj rest) with ⟨uniform, one, six⟩
  have member := mem_of_head first
  refine ⟨roll, made, dice, altered, later, built, member,
    isUnrolled_of_built built uniform member, alters, one, six, fun scaled => ?_⟩
  rcases evaluateAmount_of_leastAmount one with ⟨_, run, total, _⟩
  rcases evaluateAmount_of_leastAmount six with ⟨_, runToo, totalToo, _⟩
  rcases scaled.number rfl run total (Number.scaled_int 1 1 0) with ⟨_, again, found, _⟩
  cases runToo.symm.trans again
  cases totalToo.symm.trans found

end Build
end DiceNotation
