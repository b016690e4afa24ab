import DiceNotation.Proofs.Evaluation.Handling
import DiceNotation.Proofs.Fulfillment.Conserving
import DiceNotation.Proofs.Fulfillment.Single

namespace DiceNotation

/-!
# The course of an evaluation with a resolver

An evaluation with a resolver begins with a first pass.  While this lasts, every die that
it asked for has as many results and outstanding descriptors together as its number says.
When it has ended, the values that were taken are the results of the dice, in the order
of the formula for each kind.  From then on one die at most is outstanding.
-/

namespace Resolver

/-! ## Results of the first pass -/

/-- Every die that can be asked for in advance has as many results and outstanding
descriptors as its number says. -/
def Conserves (resolver : Resolver) (methods : MethodTable) (progress : Progress) : Prop :=
  ∀ dice ∈ resolver.roll.dice, ∀ number faces : Int, dice.number = .known number →
    dice.faces = .known faces →
    methods.isInteractive (progress.ledger.term dice.tag.id).method = true →
    ((progress.ledger.outcomes dice.tag.id).length +
      (progress.resolver resolver).outstanding.countP (·.dice.tag.id == dice.tag.id) : Int) = number

/-- The values that were taken for each method and kind are the results of the dice of
that kind, one die after another. -/
def SharesOut (resolver : Resolver) (receipts : List Receipt) (progress : Progress) : Prop :=
  ∀ method denomination, (receipts.filter (·.isFor method denomination)).map (Json.number ·.number) =
    (resolver.roll.dice.filter (progress.ledger.isOfKind method denomination)).flatMap fun dice =>
      (progress.ledger.outcomes dice.tag.id).map (·.value)

/-- A text is the same as itself only. -/
theorem eq_of_string_same {name : String} {other : Json}
    (same : (Json.string name).same other = true) : other = .string name := by
  cases other with
  | string text =>
    change (name == text) = true at same
    rw [beq_iff_eq.1 same]
  | _ => cases same

/-- Dice of a method that is a text are of one method and kind only. -/
theorem eq_of_isOfKind {ledger : Ledger} {dice : Dice} {name : String}
    (named : (ledger.term dice.tag.id).method = .string name) {method denomination : Json}
    (is : ledger.isOfKind method denomination dice = true) : ∃ key,
    method = .string name ∧ denomination = .string key ∧ ledger.denomination dice = .ok key := by
  rcases Bool.and_eq_true_iff.1 is with ⟨same, denoted⟩
  rw [named] at same
  cases known : ledger.denomination dice with
  | error fault =>
    rw [known] at denoted
    cases denoted
  | ok key =>
    rw [known] at denoted
    exact ⟨key, eq_of_string_same same, eq_of_same_key denoted, rfl⟩

section

variable {setup : Setup} {resolver : Resolver} {first : Nat} {made : Ledger}
  (isMade : resolver.roll.IsMade setup first made) {receipts : List Receipt} {progress : Progress}
include isMade

theorem named_of_mem {dice : Dice} (member : dice ∈ resolver.roll.dice) :
    ∃ name method, setup.methods.get name = .ok method ∧
      (made.term dice.tag.id).method = .string name :=
  (RowThroughout.diceFrom isMade.row dice member).method dice rfl

theorem sound_of_mem {dice : Dice} (member : dice ∈ resolver.roll.dice) : dice.IsSound :=
  (RowThroughout.diceFrom isMade.row dice member).sound

/-- The methods of all dice of a roll are known. -/
theorem known_of_mem {dice : Dice} (member : dice ∈ resolver.roll.dice) :
    ∃ method, setup.methods.named (made.term dice.tag.id).method = .ok method := by
  rcases named_of_mem isMade member with ⟨name, method, found, named⟩
  exact ⟨method, by rw [named]; exact found⟩

theorem fresh_of_mem {dice : Dice} (member : dice ∈ resolver.roll.dice) :
    (made.term dice.tag.id).IsFresh := by
  have inside := RowThroughout.diceFrom isMade.spans.inside.row dice member
  exact (isMade.fresh dice.tag.id inside.1 inside.2).1

/-- Dice that are told by their identity are of one kind. -/
theorem picks_id {dice : Dice} (member : dice ∈ resolver.roll.dice) :
    resolver.Picks made (fun other => other.tag.id == dice.tag.id) := by
  intro one memberOne other memberOther is isToo method denomination
  rw [isMade.spans.dice_eq_of_id memberOne member (beq_iff_eq.1 is),
    isMade.spans.dice_eq_of_id memberOther member (beq_iff_eq.1 isToo)]

/-- Dice that are told by a method and a kind are of one kind. -/
theorem picks_isOfKind (method denomination : Json) :
    resolver.Picks made (made.isOfKind method denomination) := by
  intro dice member other memberToo is isToo given asked
  rcases named_of_mem isMade member with ⟨name, _, _, named⟩
  rcases named_of_mem isMade memberToo with ⟨_, _, _, namedToo⟩
  rcases eq_of_isOfKind named is with ⟨key, rfl, rfl, denoted⟩
  rcases eq_of_isOfKind namedToo isToo with ⟨_, same, sameKey, denotedToo⟩
  cases same
  cases sameKey
  unfold Ledger.isOfKind
  rw [named, namedToo, denoted, denotedToo]

/-- A die of a roll has taken the values that went to its identity. -/
theorem outcomes_of_shares (shares : resolver.Shares made receipts progress) {dice : Dice}
    (member : dice ∈ resolver.roll.dice) : progress.ledger.outcomes dice.tag.id =
      (receipts.filter (·.id == dice.tag.id)).map (·.outcome) := by
  unfold Ledger.outcomes
  rw [shares.given.term, fresh_of_mem isMade member]
  rfl

theorem conserves_of_queued {methods : MethodTable}
    (shares : resolver.Shares made receipts progress)
    (queued : resolver.Queued methods made receipts progress) :
    resolver.Conserves methods progress := by
  intro dice member number faces counted sided interactive
  have whole := queued _ (picks_id isMade member)
  unfold queue at whole
  rw [filter_flatMap_replicate isMade.spans.dice_distinct member, List.filter_map, List.filter_map]
    at whole
  have wanted : dice.wanted methods made = number.toNat := by
    rw [shares.given.method] at interactive
    unfold DiceOf.wanted DiceOf.isReady
    rw [counted, sided, interactive]
    rfl
  have sizes := congrArg List.length whole
  rw [List.length_replicate, wanted, List.length_append, List.length_map, List.length_map,
    ← List.countP_eq_length_filter, ← List.countP_eq_length_filter] at sizes
  rw [outcomes_of_shares isMade shares member, List.length_map, ← List.countP_eq_length_filter]
  have enough : 0 ≤ number := by
    have bound := (sound_of_mem isMade member).number
    rwa [counted] at bound
  have same : (receipts.countP (·.id == dice.tag.id) : Int) +
      (progress.resolver resolver).outstanding.countP (·.dice.tag.id == dice.tag.id) =
        number.toNat := by
    rw [sizes]
    rfl
  rw [same, Int.toNat_of_nonneg enough]

/-- A value was handed in for a kind exactly if the die that took it is of that kind. -/
theorem isFor_eq (shares : resolver.Shares made receipts progress) {receipt : Receipt}
    (member : receipt ∈ receipts) (method denomination : Json) :
    receipt.isFor method denomination =
      made.isOfKind method denomination receipt.descriptor.dice := by
  rcases shares.taken receipt member with ⟨⟨_, among⟩, is, _⟩
  rcases named_of_mem isMade among with ⟨name, _, _, named⟩
  rcases eq_of_isOfKind named is with ⟨key, given, asked, denoted⟩
  unfold Receipt.isFor Ledger.isOfKind
  rw [given, asked, named, denoted, Bool.eq_iff_iff, Bool.and_eq_true_iff, Bool.and_eq_true_iff]
  refine and_congr_right fun _ => ?_
  constructor
  · intro same
    rw [eq_of_string_same same]
    exact beq_self_eq_true key
  · intro same
    rw [eq_of_same_key same]
    exact beq_self_eq_true key

/-- The results of dice do not depend on whether their kind is looked up before or after
the first pass. -/
theorem flatMap_outcomes (shares : resolver.Shares made receipts progress)
    (method denomination : Json) :
    (resolver.roll.dice.filter (progress.ledger.isOfKind method denomination)).flatMap
        (fun dice => (progress.ledger.outcomes dice.tag.id).map (·.value)) =
      (resolver.roll.dice.filter (made.isOfKind method denomination)).flatMap fun dice =>
        (receipts.filter (·.id == dice.tag.id)).map (Json.number ·.number) := by
  rw [flatMap_filter, flatMap_filter]
  refine List.flatMap_congr fun dice member => ?_
  have values : (progress.ledger.outcomes dice.tag.id).map (·.value) =
      (receipts.filter (·.id == dice.tag.id)).map (Json.number ·.number) := by
    rw [outcomes_of_shares isMade shares member, List.map_map]
    rfl
  rw [values]
  by_cases none : receipts.filter (·.id == dice.tag.id) = []
  · rw [none, List.map_nil, ite_self, ite_self]
  · -- a die that took a value is ready, so that its kind is always the same
    rcases List.exists_mem_of_ne_nil _ none with ⟨receipt, inside⟩
    rcases List.mem_filter.1 inside with ⟨taken, same⟩
    rcases (shares.taken receipt taken).1 with ⟨early, among⟩
    have is := isMade.spans.dice_eq_of_id among member (beq_iff_eq.1 same)
    have ready : dice.isReady = true := is ▸ early.ready
    have kind : progress.ledger.isOfKind method denomination dice =
        made.isOfKind method denomination dice := by
      unfold Ledger.isOfKind
      rw [shares.given.method, Ledger.denomination_of_ready ready]
    rw [kind]

theorem sharesOut_of_queued {methods : MethodTable}
    (shares : resolver.Shares made receipts progress)
    (queued : resolver.Queued methods made receipts progress)
    (none : (progress.resolver resolver).outstanding = []) :
    resolver.SharesOut receipts progress := by
  intro method denomination
  have whole := queued _ (picks_isOfKind isMade method denomination)
  rw [none, List.map_nil, List.filter_nil, List.append_nil, List.filter_map] at whole
  have same : receipts.filter (·.isFor method denomination) =
      receipts.filter (made.isOfKind method denomination ∘ (·.descriptor.dice)) :=
    List.filter_congr fun receipt member => isFor_eq isMade shares member method denomination
  rw [← same] at whole
  -- the dice that took these values are those of the kind, each as often as it was asked for
  have owners : (receipts.filter (·.isFor method denomination)).map (·.id) =
      (resolver.roll.dice.filter (made.isOfKind method denomination)).flatMap fun dice =>
        List.replicate (dice.wanted methods made) dice.tag.id := by
    have ids := congrArg (List.map fun dice : Dice => dice.tag.id) whole
    rw [List.map_map] at ids
    refine Eq.trans ids.symm ?_
    unfold queue
    rw [List.filter_flatMap, List.map_flatMap, flatMap_filter]
    refine List.flatMap_congr fun dice _ => ?_
    rw [List.filter_replicate]
    split
    · rw [List.map_replicate]
    · rfl
  have distinct : ((resolver.roll.dice.filter (made.isOfKind method denomination)).map
      fun dice => dice.tag.id).Nodup :=
    isMade.spans.dice_distinct.sublist (List.filter_sublist.map _)
  rw [flatMap_outcomes isMade shares, eq_flatMap_filter distinct owners, List.map_flatMap]
  refine List.flatMap_congr fun dice member => ?_
  rcases List.mem_filter.1 member with ⟨among, kind⟩
  rw [List.filter_filter]
  refine congrArg _ (List.filter_congr fun receipt taken => ?_)
  cases own : receipt.id == dice.tag.id with
  | false => rfl
  | true =>
    have is := isMade.spans.dice_eq_of_id (shares.taken receipt taken).1.2 among
      (beq_iff_eq.1 own)
    rw [Bool.true_and, isFor_eq isMade shares taken, is, kind]

/-! ## The first pass, from its start to its end -/

/-- What a first pass can come to: it waits, it was cancelled because the resolver was
closed, or it has ended with nothing outstanding. -/
inductive FirstPassed (resolver : Resolver) (methods : MethodTable) (made : Ledger)
    (receipts : List Receipt) : Step Unit → Prop
  | waits {request : Request} {asked : Progress} {resume : Answer → Progress → Step Unit}
    (passing : resolver.Passing methods made request receipts asked) :
    FirstPassed resolver methods made receipts (.wait request asked resume)
  | cancelled {last : Progress} (closed : (last.resolver resolver).closed = true) :
    FirstPassed resolver methods made receipts (.done (.error .cancelled) last)
  | ended {last : Progress} (quiet : last.Quiet resolver)
    (shares : resolver.Shares made receipts last)
    (queued : resolver.Queued methods made receipts last) :
    FirstPassed resolver methods made receipts (.done (.ok ()) last)

/-- A resolver has asked for all dice of a fresh roll that it can ask for in advance. -/
theorem asked_of_addAll {later : Progress}
    (asked : resolver.addAll setup.methods resolver.roll.dice (.ofLedger made) = (.ok (), later)) :
    resolver.Shares made [] later ∧ resolver.Queued setup.methods made [] later := by
  rcases outstanding_addAll (Progress.Tidy.ofLedger made) rfl (fun _ => fresh_of_mem isMade)
    (fun _ => known_of_mem isMade) with ⟨_, new, askedToo, kept, are, early⟩
  cases askedToo.symm.trans asked
  have only : (later.resolver resolver).outstanding = new := kept
  have same : later.ledger = made := by
    have kept := resolver.ledger_addAll setup.methods resolver.roll.dice (.ofLedger made)
    rwa [asked] at kept
  constructor
  · refine ⟨same ▸ Ledger.Given.refl made, ?_, fun _ member => (List.not_mem_nil member).elim⟩
    rw [only]
    intro descriptor member
    refine ⟨early descriptor member, ?_⟩
    have among : descriptor.dice ∈ new.map (·.dice) := List.mem_map_of_mem member
    rw [are] at among
    rcases List.mem_flatMap.1 among with ⟨dice, inside, copied⟩
    rw [List.eq_of_mem_replicate copied]
    exact inside
  · intro pick _
    rw [only, are]
    rfl

theorem firstPassed_of_runs {step : Step Unit}
    (runs : (resolver.firstPass setup.methods (.ofLedger made)).Runs resolver receipts step) :
    resolver.FirstPassed setup.methods made receipts step := by
  have tidy := Progress.Tidy.ofLedger made
  have forward := Progress.Forward.addAll tidy resolver setup.methods resolver.roll.dice
  have passes := resolver.passes_firstPass setup.methods (.ofLedger made)
  generalize resolver.firstPass setup.methods (.ofLedger made) = started at passes runs
  cases passes with
  | closed closed => cases closed
  | failed isOpen asked =>
    rcases outstanding_addAll tidy rfl (fun _ => fresh_of_mem isMade)
      (fun _ => known_of_mem isMade) with ⟨_, _, askedToo, _⟩
    cases askedToo.symm.trans asked
  | @ended later isOpen asked empty =>
    rcases runs.of_done with ⟨rfl, rfl⟩
    rcases asked_of_addAll isMade asked with ⟨shares, queued⟩
    rw [asked] at forward
    have state := resolver.resolvers_checkDone later
    have same : (resolver.checkDone later).2.resolver resolver = later.resolver resolver :=
      congrArg (fun resolvers => Table.get resolvers resolver.id) state
    refine .ended ⟨(Progress.Forward.checkDone forward.tidy resolver).tidy, by rw [same, empty]⟩
      (shares.of_same (resolver.ledger_checkDone later) ?_) ?_
    · rw [same]
      exact List.Subset.refl _
    · unfold Queued
      rw [same]
      exact queued
  | @waiting later isOpen asked filled =>
    rcases asked_of_addAll isMade asked with ⟨shares, queued⟩
    rw [asked] at forward
    have state : (resolver.expecting later).resolver resolver =
        { later.resolver resolver with firstPass := some later.requests } :=
      Progress.resolver_updateResolver ..
    have passing : resolver.Passing setup.methods made later.requests []
        (resolver.expecting later) := by
      refine ⟨forward.tidy.expect resolver, congrArg _ state, shares.of_same rfl ?_, .pending ?_ ?_ ?_⟩
      · rw [state]
        exact List.Subset.refl _
      · rw [state]
        exact forward.isOpen_of rfl
      · exact forward.tidy.unasked _ (Nat.le_refl _)
      · unfold Queued
        rw [state]
        exact queued
    cases runs with
    | stays => exact .waits passing
    | @resumes _ _ resumed _ handled more answer _ handles answered runs =>
      rcases runs.of_done with ⟨rfl, rfl⟩
      have kept := passing.handles handles
      rw [List.append_nil]
      cases kept.stands with
      | pending _ unanswered => cases unanswered.symm.trans answered
      | released given none queued =>
        cases given.symm.trans answered
        exact .ended ⟨kept.tidy, none⟩ kept.shares queued
      | cancelled closed given =>
        cases given.symm.trans answered
        exact .cancelled closed

end

/-! ## The whole evaluation -/

/-- The course of an evaluation with a resolver, as it stands after a number of values
were taken. -/
inductive Course (resolver : Resolver) (methods : MethodTable) (start : Progress)
    (receipts : List Receipt) (step : Step Unit) (later : Progress) : Prop
  /-- It waits for the end of the first pass. -/
  | passing {request : Request} {asked : Progress} {resume : Answer → Progress → Step Unit}
    (waits : step = .wait request asked resume)
    (expected : (later.resolver resolver).firstPass = some request)
    (conserves : (later.resolver resolver).closed = false → resolver.Conserves methods later) :
    Course resolver methods start receipts step later
  /-- The first pass was cancelled, because the resolver was closed while it lasted. -/
  | cancelled {between last : Progress}
    (pass : (resolver.firstPass methods start).Runs resolver receipts
      (.done (.error .cancelled) between))
    (closed : (between.resolver resolver).closed = true)
    (ended : step = .done (.error .cancelled) last) :
    Course resolver methods start receipts step later
  /-- The first pass has ended after the first of the values, with nothing outstanding. -/
  | passed {early rest : List Receipt} {middle : Progress} (split : receipts = early ++ rest)
    (pass : (resolver.firstPass methods start).Runs resolver early (.done (.ok ()) middle))
    (none : (middle.resolver resolver).outstanding = [])
    (conserves : resolver.Conserves methods middle) (sharesOut : resolver.SharesOut early middle)
    (single : (later.resolver resolver).outstanding.length ≤ 1) :
    Course resolver methods start receipts step later

/-- Since a roll was built, its settings are valid, and so are all options with them. -/
theorem forRoll_of_built {surroundings : Surroundings} {input : Build.RollInput} {roll : Roll}
    {before made : Ledger}
    (built : Build.ofFormula surroundings.setup input before = .ok (roll, made))
    (options : Options) : ∃ context, options.forRoll surroundings = .ok context ∧
      context.methods = surroundings.setup.methods ∧ context.resolver = surroundings.resolver := by
  rcases Build.ofFormula_eq_ok.1 built with ⟨text, tree, _, _, _, _, parsed, _⟩
  cases valid : surroundings.setup.settings with
  | error fault =>
    unfold Build.parseFormula at parsed
    rw [valid] at parsed
    cases parsed
  | ok settings =>
    unfold Options.forRoll
    rw [valid]
    exact ⟨_, rfl, rfl, rfl⟩

/-- An evaluation with a resolver is its first pass, then the evaluation of the roll, and
then the resolver is closed. -/
theorem evaluate_eq_firstPass {resolver : Resolver} {options : Options}
    {surroundings : Surroundings} {context : Context} {progress : Progress}
    (untouched : (progress.ledger.roll resolver.roll.id).phase = .unevaluated)
    (valid : options.forRoll surroundings = .ok context)
    (own : surroundings.resolver = some resolver) :
    resolver.roll.evaluate options surroundings progress =
      (resolver.firstPass context.methods progress).andThen fun result =>
        (Evaluation.lift result >>= fun _ => context.evaluateRoll resolver.roll).ending
          resolver.close := by
  rw [RollOf.evaluate_of_unevaluated options surroundings untouched, valid]
  change RollOf.evaluateWith surroundings resolver.roll context progress = _
  unfold RollOf.evaluateWith
  rw [own]
  exact Step.andThen_assoc _ _ _

/-- The evaluation of a fresh roll with a fresh resolver, while the outside hands in values
and may close the resolver.  As long as the first pass lasts and the resolver is open, every
die that is asked for in advance has as many results and outstanding descriptors together
as its number says.  When the first pass ends normally, nothing is outstanding, and the
values that were taken for a method and kind are the results of the dice of that kind, in
the order of the formula.  From then on at most one die is outstanding. -/
theorem course_of_evaluate {resolver : Resolver} {options : Options} {surroundings : Surroundings}
    {input : Build.RollInput} {before made : Ledger}
    (built : Build.ofFormula surroundings.setup input before = .ok (resolver.roll, made))
    (own : surroundings.resolver = some resolver) {receipts more : List Receipt} {step : Step Unit}
    (runs : (resolver.roll.evaluate options surroundings (.ofLedger made)).Runs resolver receipts
      step) {later : Progress} (handles : resolver.Handles step.progress more later) :
    resolver.Course surroundings.setup.methods (.ofLedger made) (receipts ++ more) step later := by
  have isMade := Build.ofFormula_isMade built
  have untouched : ((Progress.ofLedger made).ledger.roll resolver.roll.id).phase = .unevaluated :=
    isMade.waits.rollPhase isMade.spans.bounds.1 isMade.spans.bounds.2
  rcases forRoll_of_built built options with ⟨context, valid, methods, asks⟩
  rw [evaluate_eq_firstPass untouched valid own, methods] at runs
  rcases runs.of_andThen with
    ⟨request, asked, resume, pass, rfl⟩ | ⟨front, back, result, between, rfl, pass, rest⟩
  · cases firstPassed_of_runs isMade pass with
    | waits passing =>
      have kept := passing.handles handles
      refine .passing rfl kept.expected fun isOpen => ?_
      cases kept.stands with
      | pending _ _ queued => exact conserves_of_queued isMade kept.shares queued
      | released _ _ queued => exact conserves_of_queued isMade kept.shares queued
      | cancelled closed => cases isOpen.symm.trans closed
  · cases firstPassed_of_runs isMade pass with
    | cancelled closed =>
      rcases rest.of_done with ⟨rfl, rfl⟩
      have nothing : more = [] := handles.receipts_of_closed (Progress.closed_close between resolver)
      rw [nothing, List.append_nil, List.append_nil]
      exact .cancelled pass closed rfl
    | ended quiet shares queued =>
      refine .passed (List.append_assoc ..) pass quiet.none (conserves_of_queued isMade shares queued)
        (sharesOut_of_queued isMade shares queued quiet.none) ?_
      have keeps : Evaluation.Keeps (FrameRule.quiet resolver)
          ((context.evaluateRoll resolver.roll).ending resolver.close) := by
        refine (Context.keeps_quiet ?_ resolver.roll).ending fun _ quiet => quiet.close
        rw [asks, own]
        exact fun other same => (Option.some.inj same).symm
      exact (keeps between).outstanding_le quiet rest handles

/-- The evaluation that asks for all three dice. -/
def askForThree (resolver : Resolver) : Evaluation Unit :=
  resolver.roll.evaluate {}
    { setup := Build.usual, synchronous := false, uniform := fun _ => 0, resolver := some resolver }

/-- After one of three dice has a value, each of them still has as many results and
descriptors as it should. -/
theorem course_of_evaluate_of_three : ∃ resolver start receipt later,
    forThree = .ok (resolver, start) ∧ receipt.number = .int 7 ∧
    resolver.Handles (askForThree resolver start).progress [receipt] later ∧
    resolver.Course MethodTable.standard start [receipt] (askForThree resolver start) later := by
  have computed : forThree.toOption.any (fun pair =>
      (pair.1.register (.string "manual") (.string "d20") (.ofNat 7)
        (askForThree pair.1 pair.2).progress).toOption.any (·.1)) = true := by decide +kernel
  cases built : Build.ofFormula Build.usual
      { formula := "2d6 + 1d20", method := .string "manual" } .empty with
  | error fault =>
    rw [forThree, built] at computed
    cases computed
  | ok pair =>
    rcases pair with ⟨roll, made⟩
    let resolver : Resolver := ⟨0, roll⟩
    have given : forThree = .ok (resolver, .ofLedger made) := by
      rw [forThree, built]
      rfl
    rw [given] at computed
    have computed : (resolver.register (.string "manual") (.string "d20") (.number (.int 7))
      (askForThree resolver (.ofLedger made)).progress).toOption.any (·.1) = true := computed
    cases handed : resolver.register (.string "manual") (.string "d20") (.number (.int 7))
        (askForThree resolver (.ofLedger made)).progress with
    | error fault =>
      rw [handed] at computed
      cases computed
    | ok both =>
      rcases both with ⟨accepted, later⟩
      rw [handed] at computed
      cases (computed : accepted = true)
      rcases register_eq_ok handed with ⟨_, _, _, descriptor, _, same, takes, _⟩ | ⟨rejected, _⟩
      · cases same
        have handles := Handles.accepted .nothing takes.found handed
        have course := @course_of_evaluate resolver {}
          ⟨Build.usual, false, fun _ => 0, some resolver⟩ _ _ _ built rfl
          [] _ _ (.stays _) _ handles
        exact ⟨resolver, _, _, later, given, rfl, handles, course⟩
      · cases rejected

end Resolver
end DiceNotation
