import DiceNotation.Proofs.Fulfillment.Sharing

namespace DiceNotation

/-!
# The first pass conserves values

While a resolver waits for the end of its first pass, the dice that it asked for are in a
queue.  Every value that is taken moves one die of its kind from those that are
outstanding to those that have a result.  So none is lost and none is counted twice, in
whatever order values of several kinds arrive.
-/

/-- Whether dice are of a method and a kind. -/
def Ledger.isOfKind (ledger : Ledger) (method denomination : Json) (dice : Dice) : Bool :=
  (ledger.term dice.tag.id).method.same method &&
    (ledger.denomination dice).toOption.any fun key => denomination.same (.string key)

namespace Receipt

/-- Whether a value was handed in for a method and a kind. -/
def isFor (method denomination : Json) (receipt : Receipt) : Bool :=
  receipt.method.same method && receipt.denomination.same denomination

/-- The identity of the dice that took the value. -/
def id (receipt : Receipt) : Identity := receipt.descriptor.dice.tag.id

/-- The result that the value is. -/
def outcome (receipt : Receipt) : Outcome := { value := .number receipt.number }

end Receipt

/-! ## The ledger while values are taken -/

/-- Since a ledger was made, nothing has happened but that values became results. -/
structure Ledger.Given (made : Ledger) (receipts : List Receipt) (ledger : Ledger) : Prop where
  term : ∀ id, ledger.term id = { made.term id with
    outcomes := (made.term id).outcomes ++ (receipts.filter (·.id == id)).map (·.outcome) }
  roll : ∀ id, ledger.roll id = made.roll id
  next : ledger.next = made.next

namespace Ledger

variable {made ledger other : Ledger} {receipts : List Receipt} {dice : Dice}

theorem Given.refl (made : Ledger) : made.Given [] made where
  term id := by
    rw [List.filter_nil, List.map_nil, List.append_nil]
  roll _ := rfl
  next := rfl

theorem Given.method (given : made.Given receipts ledger) (id : Identity) :
    (ledger.term id).method = (made.term id).method := by
  rw [given.term]

theorem Given.take (given : made.Given receipts ledger) (receipt : Receipt) :
    made.Given (receipts ++ [receipt])
      (Resolver.addOutcome ledger receipt.descriptor.dice (.number receipt.number)) where
  term id := by
    unfold Resolver.addOutcome
    rw [term_updateTerm, List.filter_append]
    by_cases same : receipt.descriptor.dice.tag.id = id
    · have only : [receipt].filter (·.id == id) = [receipt] :=
        List.filter_eq_self.2 (List.forall_mem_singleton.2 (beq_iff_eq.2 same))
      rw [if_pos same, only, same, given.term, List.map_append, List.append_assoc]
      rfl
    · have none : [receipt].filter (·.id == id) = [] :=
        List.filter_eq_nil_iff.2 (List.forall_mem_singleton.2 fun is => same (beq_iff_eq.1 is))
      rw [if_neg same, none, List.append_nil, given.term]
  roll := given.roll
  next := given.next

/-- What is written about dice that are ready does not depend on the ledger. -/
theorem amount_of_ready (ready : dice.isReady = true) :
    ledger.amount dice.faces = other.amount dice.faces := by
  cases faces : dice.faces with
  | known n => rfl
  | computed term =>
    have known := (Bool.and_eq_true_iff.1 ready).2
    rw [faces] at known
    cases known

theorem denomination_of_ready (ready : dice.isReady = true) :
    ledger.denomination dice = other.denomination dice := by
  unfold denomination
  rw [amount_of_ready ready]

theorem accepts_of_ready (ready : dice.isReady = true) (value : Json) :
    ledger.accepts dice value = other.accepts dice value := by
  unfold accepts maximumValue
  rw [amount_of_ready ready]

end Ledger

namespace Resolver

/-! ## The queue of a first pass -/

/-- Whether dice that are picked are all of one kind. -/
def Picks (resolver : Resolver) (made : Ledger) (pick : Dice → Bool) : Prop :=
  ∀ dice ∈ resolver.roll.dice, ∀ other ∈ resolver.roll.dice, pick dice = true →
    pick other = true → ∀ method denomination,
      made.isOfKind method denomination dice = made.isOfKind method denomination other

/-- The dice of a kind that were asked for are those that took a value, in the order in
which they did, and those that are outstanding. -/
def Queued (resolver : Resolver) (methods : MethodTable) (made : Ledger) (receipts : List Receipt)
    (progress : Progress) : Prop :=
  ∀ pick, resolver.Picks made pick → (queue methods made resolver.roll.dice).filter pick =
    (receipts.map (·.descriptor.dice)).filter pick ++
      ((progress.resolver resolver).outstanding.map (·.dice)).filter pick

/-- Values were taken only by dice of the roll that are ready, and became results. -/
structure Shares (resolver : Resolver) (made : Ledger) (receipts : List Receipt)
    (progress : Progress) : Prop where
  given : made.Given receipts progress.ledger
  early : ∀ descriptor ∈ (progress.resolver resolver).outstanding,
    descriptor.IsEarly made ∧ descriptor.dice ∈ resolver.roll.dice
  taken : ∀ receipt ∈ receipts, (receipt.descriptor.IsEarly made ∧
      receipt.descriptor.dice ∈ resolver.roll.dice) ∧
    made.isOfKind receipt.method receipt.denomination receipt.descriptor.dice = true ∧
    made.accepts receipt.descriptor.dice (.number receipt.number) = .ok true

variable {resolver : Resolver} {methods : MethodTable} {made ledger : Ledger}
  {receipts : List Receipt} {progress later : Progress} {method denomination : Json}
  {descriptor : Descriptor}

/-- A descriptor that was made in advance fits exactly the kind of its die. -/
theorem isOfKind_of_fits (early : descriptor.IsEarly made) {fit : Bool}
    (fits : fits ledger method denomination descriptor = .ok fit) :
    made.isOfKind method denomination descriptor.dice = fit := by
  unfold Resolver.fits at fits
  rw [early.method, Ledger.denomination_of_ready early.ready] at fits
  unfold Ledger.isOfKind
  split at fits
  · rename_i same
    cases named : made.denomination descriptor.dice with
    | error fault =>
      rw [named] at fits
      cases fits
    | ok key =>
      rw [named] at fits
      rw [same]
      exact Except.ok.inj fits
  · rename_i other
    rw [Bool.eq_false_iff.2 other]
    exact Except.ok.inj fits

namespace Shares

/-- Nothing depends on more than the ledger and what is outstanding. -/
theorem of_same (shares : resolver.Shares made receipts progress)
    (ledger : later.ledger = progress.ledger)
    (outstanding : (later.resolver resolver).outstanding ⊆
      (progress.resolver resolver).outstanding) : resolver.Shares made receipts later where
  given := ledger ▸ shares.given
  early descriptor member := shares.early descriptor (outstanding member)
  taken := shares.taken

theorem take {number : Number} {before after : List Descriptor}
    (shares : resolver.Shares made receipts progress)
    (takes : resolver.Takes method denomination number progress before descriptor after) :
    resolver.Shares made (receipts ++ [⟨method, denomination, descriptor, number⟩])
      (resolver.deliver (before ++ after) descriptor number progress) := by
  have early : ∀ other ∈ before ++ descriptor :: after,
      other.IsEarly made ∧ other.dice ∈ resolver.roll.dice := takes.kept ▸ shares.early
  rcases early descriptor (List.mem_append_right _ List.mem_cons_self) with ⟨own, among⟩
  have fit := (findDescriptor_eq_some takes.found).2.1
  constructor
  · rw [ledger_deliver, own.isNew, if_neg Bool.false_ne_true]
    exact shares.given.take ⟨method, denomination, descriptor, number⟩
  · rw [resolver_deliver rfl]
    intro other member
    refine early other ?_
    rcases List.mem_append.1 member with first | last
    · exact List.mem_append_left _ first
    · exact List.mem_append_right _ (List.mem_cons_of_mem _ last)
  · refine List.forall_mem_append.2 ⟨shares.taken, List.forall_mem_singleton.2 ?_⟩
    refine ⟨⟨own, among⟩, isOfKind_of_fits own fit, ?_⟩
    rw [← takes.accepted]
    exact Ledger.accepts_of_ready own.ready _

end Shares

/-- A value moves the first outstanding die of its kind. -/
theorem Queued.take {number : Number} {before after : List Descriptor}
    (queued : resolver.Queued methods made receipts progress)
    (shares : resolver.Shares made receipts progress)
    (takes : resolver.Takes method denomination number progress before descriptor after) :
    resolver.Queued methods made (receipts ++ [⟨method, denomination, descriptor, number⟩])
      (resolver.deliver (before ++ after) descriptor number progress) := by
  have early : ∀ other ∈ before ++ descriptor :: after,
      other.IsEarly made ∧ other.dice ∈ resolver.roll.dice := takes.kept ▸ shares.early
  rcases List.forall_mem_append.1 early with ⟨ahead, others⟩
  rcases List.forall_mem_cons.1 others with ⟨⟨own, among⟩, _⟩
  rcases findDescriptor_eq_some takes.found with ⟨_, fit, unfits⟩
  intro pick picks
  have whole := queued pick picks
  rw [takes.kept, List.map_append, List.map_cons, List.filter_append] at whole
  rw [resolver_deliver rfl, whole, List.map_append, List.filter_append, List.map_append,
    List.filter_append, List.map_singleton]
  cases picked : pick descriptor.dice with
  | true =>
    -- those before it are of another kind
    have none : ∀ dice ∈ before.map (·.dice), ¬pick dice = true := by
      intro dice member pickedToo
      rcases List.mem_map.1 member with ⟨other, inside, rfl⟩
      have same := picks _ (ahead other inside).2 _ among pickedToo picked method denomination
      rw [isOfKind_of_fits own fit,
        isOfKind_of_fits (ahead other inside).1 (unfits other inside)] at same
      cases same
    rw [List.filter_cons_of_pos picked, List.filter_cons_of_pos picked, List.filter_nil,
      List.filter_eq_nil_iff.2 none, List.append_assoc]
    rfl
  | false =>
    have unpicked : ¬pick descriptor.dice = true := Bool.eq_false_iff.1 picked
    rw [List.filter_cons_of_neg unpicked, List.filter_cons_of_neg unpicked, List.filter_nil,
      List.append_nil]

/-! ## While the first pass lasts -/

/-- How it stands with the request that ends a first pass. -/
inductive PassStands (resolver : Resolver) (methods : MethodTable) (made : Ledger)
    (request : Request) (receipts : List Receipt) (progress : Progress) : Prop
  | pending (isOpen : (progress.resolver resolver).closed = false)
    (unanswered : progress.answer? request = none)
    (queued : resolver.Queued methods made receipts progress) :
    PassStands resolver methods made request receipts progress
  | released (answered : progress.answer? request = some .released)
    (none : (progress.resolver resolver).outstanding = [])
    (queued : resolver.Queued methods made receipts progress) :
    PassStands resolver methods made request receipts progress
  | cancelled (closed : (progress.resolver resolver).closed = true)
    (answered : progress.answer? request = some .cancelled) :
    PassStands resolver methods made request receipts progress

/-- What is kept up while a first pass waits for its end. -/
structure Passing (resolver : Resolver) (methods : MethodTable) (made : Ledger)
    (request : Request) (receipts : List Receipt) (progress : Progress) : Prop where
  tidy : progress.Tidy
  expected : (progress.resolver resolver).firstPass = some request
  shares : resolver.Shares made receipts progress
  stands : resolver.PassStands methods made request receipts progress

namespace Passing

variable {request : Request}

theorem of_beside (passing : resolver.Passing methods made request receipts progress)
    (beside : progress.Beside later) (same : later.ledger = progress.ledger) :
    resolver.Passing methods made request receipts later := by
  have state := beside.resolver resolver
  have answer := beside.answer? request
  have queued (holds : resolver.Queued methods made receipts progress) :
      resolver.Queued methods made receipts later := by
    unfold Queued
    rw [state]
    exact holds
  refine ⟨passing.tidy.of_beside beside, (congrArg _ state).trans passing.expected,
    passing.shares.of_same same (by rw [state]; exact List.Subset.refl _), ?_⟩
  cases passing.stands with
  | pending isOpen unanswered holds =>
    exact .pending ((congrArg _ state).trans isOpen) (answer.trans unanswered) (queued holds)
  | released answered none holds =>
    exact .released (answer.trans answered) ((congrArg _ state).trans none) (queued holds)
  | cancelled closed answered =>
    exact .cancelled ((congrArg _ state).trans closed) (answer.trans answered)

/-- When the last outstanding die takes its value, the first pass is released. -/
theorem take {number : Number} {before after : List Descriptor}
    (passing : resolver.Passing methods made request receipts progress)
    (takes : resolver.Takes method denomination number progress before descriptor after) :
    resolver.Passing methods made request (receipts ++ [⟨method, denomination, descriptor, number⟩])
      (resolver.deliver (before ++ after) descriptor number progress) := by
  have kept := takes.kept
  have state : (resolver.deliver (before ++ after) descriptor number progress).resolver resolver =
      { progress.resolver resolver with outstanding := before ++ after } := resolver_deliver rfl
  refine ⟨(Progress.Forward.checkDone (passing.tidy.taking number kept) resolver).tidy,
    (congrArg _ state).trans passing.expected, passing.shares.take takes, ?_⟩
  cases passing.stands with
  | pending isOpen unanswered queued =>
    have different : descriptor.request ≠ request := by
      refine (passing.tidy.firstPass resolver.id request passing.expected).2 resolver.id descriptor ?_
      change descriptor ∈ (progress.resolver resolver).outstanding
      rw [kept]
      exact List.mem_append_right _ List.mem_cons_self
    have later := queued.take passing.shares takes
    by_cases empty : before ++ after = []
    · refine .released ?_ ((congrArg _ state).trans empty) later
      rw [answer?_deliver, if_neg different, if_pos ⟨empty, passing.expected, unanswered⟩]
    · refine .pending ((congrArg _ state).trans isOpen) ?_ later
      rw [answer?_deliver, if_neg different, if_neg fun holds => empty holds.1, unanswered]
  | released _ none =>
    rw [none] at kept
    exact absurd kept.symm (List.append_ne_nil_of_right_ne_nil _ (List.cons_ne_nil _ _))
  | cancelled closed => cases takes.isOpen.symm.trans closed

/-- When the resolver is closed, the first pass is cancelled unless it was released. -/
theorem close (passing : resolver.Passing methods made request receipts progress) :
    resolver.Passing methods made request receipts (resolver.close progress) := by
  cases state : (progress.resolver resolver).closed with
  | true => rwa [Progress.close_of_closed state]
  | false =>
    have after : (resolver.close progress).resolver resolver =
        { progress.resolver resolver with outstanding := [], closed := true } :=
      (Progress.resolvers_close state resolver.id).trans (if_pos rfl)
    refine ⟨passing.tidy.close resolver, (congrArg _ after).trans passing.expected,
      passing.shares.of_same (ledger_close ..) (by rw [after]; exact List.nil_subset _), ?_⟩
    cases passing.stands with
    | pending isOpen unanswered queued =>
      refine .cancelled (congrArg _ after) ?_
      rw [Progress.answer?_close state, if_pos]
      refine ⟨List.mem_append_right _ ?_, unanswered⟩
      rw [passing.expected]
      exact List.mem_singleton_self _
    | released answered none queued =>
      refine .released ?_ (congrArg _ after) ?_
      · rw [Progress.answer?_close state, if_neg, answered]
        rintro ⟨_, unanswered⟩
        cases answered.symm.trans unanswered
      · unfold Queued at queued ⊢
        rw [none] at queued
        rw [after]
        exact queued
    | cancelled closed => cases state.symm.trans closed

/-- All of this is kept up whatever the outside does. -/
theorem handles {asked : Progress} {more : List Receipt}
    (passing : resolver.Passing methods made request receipts asked)
    (handles : resolver.Handles asked more later) :
    resolver.Passing methods made request (receipts ++ more) later := by
  induction handles with
  | nothing =>
    rw [List.append_nil]
    exact passing
  | rejected _ handed ih =>
    rcases beside_of_rejected handed with ⟨beside, same⟩
    exact ih.of_beside beside same
  | accepted _ found handed ih =>
    rcases takes_of_accepted found handed with ⟨takes, rfl⟩
    rw [← List.append_assoc]
    exact ih.take takes
  | closed _ ih => exact ih.close

end Passing
end Resolver
end DiceNotation
