import DiceNotation.Proofs.Fulfillment.Calls

namespace DiceNotation
namespace Resolver

/-!
# Waiting for the first pass

A first pass asks for dice and waits until nothing is outstanding.  It can be called again
while an earlier call still waits.  Each call that waits has a request of its own, but a
resolver keeps only one of them, that of the latest call.  When nothing is outstanding any
more, this one is released; when the resolver is closed, this one is cancelled.  So a call
that waits is left behind if a further call begins to wait before it is answered.  There is
no other way in which it can be left behind.

What a call does to those who wait already is said once for all kinds of calls, and carried
along by the invariant `Heeds`.
-/

/-- The requests for which first passes wait, in the order of the calls, and those that were
unanswered when a further first pass began to wait. -/
structure Waiters where
  all : List Request := []
  overtaken : List Request := []

/-- One call of a resolver, with what becomes of those who wait, or something that has nothing
to do with requests. -/
inductive Attends (resolver : Resolver) : Progress × Waiters → Progress × Waiters → Prop
  | waits {progress next : Progress} {request : Request} {resume : Answer → Progress → Step Unit}
    {methods : MethodTable} (pass : resolver.firstPass methods progress = .wait request next resume)
    (waiters : Waiters) :
    Attends resolver (progress, waiters)
      (next, ⟨waiters.all ++ [request],
        waiters.all.filter fun earlier => (progress.answer? earlier).isNone⟩)
  | ends {progress last : Progress} {result : Except Fault Unit} {methods : MethodTable}
    (pass : resolver.firstPass methods progress = .done result last) (waiters : Waiters) :
    Attends resolver (progress, waiters) (last, waiters)
  | addTerm {progress later : Progress} {dice : Dice} {requests : List Request}
    (asked : resolver.addTerm dice progress = .ok (requests, later)) (waiters : Waiters) :
    Attends resolver (progress, waiters) (later, waiters)
  | resolve (progress : Progress) (dice : Dice) (method : Json) (reroll explode : Bool)
    (waiters : Waiters) :
    Attends resolver (progress, waiters)
      ((resolver.resolve dice method reroll explode progress).progress, waiters)
  | register {progress later : Progress} {method denomination value : Json} {accepted : Bool}
    (handed : resolver.register method denomination value progress = .ok (accepted, later))
    (waiters : Waiters) : Attends resolver (progress, waiters) (later, waiters)
  | close (progress : Progress) (waiters : Waiters) :
    Attends resolver (progress, waiters) (resolver.close progress, waiters)
  | beside {progress later : Progress} (elsewhere : progress.Beside later) (waiters : Waiters) :
    Attends resolver (progress, waiters) (later, waiters)

/-- What calls of a resolver in any order lead to. -/
abbrev Attended (resolver : Resolver) : Progress × Waiters → Progress × Waiters → Prop :=
  Relation.ReflTransGen resolver.Attends

/-! ## Calls that ask -/

/-- A resolver has made new requests, and nothing else has happened to requests. -/
structure Adds (resolver : Resolver) (before after : Progress) : Prop where
  forward : before.Forward after
  requests : before.requests ≤ after.requests
  answers : after.answers = before.answers
  expected : (after.resolver resolver).firstPass = (before.resolver resolver).firstPass
  asked : ∀ descriptor ∈ (after.resolver resolver).outstanding,
    descriptor ∈ (before.resolver resolver).outstanding ∨ before.requests ≤ descriptor.request

namespace Adds

variable {resolver : Resolver} {progress later last : Progress}

theorem refl (tidy : progress.Tidy) : resolver.Adds progress progress :=
  ⟨.refl tidy, Nat.le_refl _, rfl, rfl, fun _ member => .inl member⟩

theorem trans (adds : resolver.Adds progress later) (more : resolver.Adds later last) :
    resolver.Adds progress last where
  forward := adds.forward.trans more.forward
  requests := Nat.le_trans adds.requests more.requests
  answers := more.answers.trans adds.answers
  expected := more.expected.trans adds.expected
  asked descriptor member := by
    rcases more.asked descriptor member with earlier | new
    · exact adds.asked descriptor earlier
    · exact .inr (Nat.le_trans adds.requests new)

theorem answer? (adds : resolver.Adds progress later) (request : Request) :
    later.answer? request = progress.answer? request :=
  congrArg (fun answers => Table.get answers request) adds.answers

theorem of_beside (tidy : progress.Tidy) (beside : progress.Beside later) :
    resolver.Adds progress later where
  forward := .of_beside tidy beside
  requests := Nat.le_of_eq beside.requests.symm
  answers := beside.answers
  expected := by rw [beside.resolver]
  asked descriptor member := by
    rw [beside.resolver] at member
    exact .inl member

theorem resolver_add (resolver : Resolver) (dice : Dice) (method : Json)
    (isNew reroll explode : Bool) (progress : Progress) :
    (resolver.add dice method isNew reroll explode progress).2.resolver resolver =
      { progress.resolver resolver with
        outstanding := (progress.resolver resolver).outstanding ++
          [⟨dice, method, isNew, reroll, explode, progress.requests⟩] } :=
  (Progress.resolvers_add ..).trans (if_pos rfl)

theorem add (tidy : progress.Tidy) (isOpen : (progress.resolver resolver).closed = false)
    (dice : Dice) (method : Json) (isNew reroll explode : Bool) :
    resolver.Adds progress (resolver.add dice method isNew reroll explode progress).2 where
  forward := .add tidy isOpen dice method isNew reroll explode
  requests := Nat.le_succ _
  answers := rfl
  expected := by
    rw [resolver_add]
  asked descriptor member := by
    rw [resolver_add] at member
    rcases List.mem_append.1 member with earlier | new
    · exact .inl earlier
    · obtain rfl := List.mem_singleton.1 new
      exact .inr (Nat.le_refl _)

theorem addMany (tidy : progress.Tidy) (isOpen : (progress.resolver resolver).closed = false)
    (dice : Dice) (method : Json) (count : Nat) :
    resolver.Adds progress (resolver.addMany dice method count progress).2 := by
  induction count generalizing progress with
  | zero => exact refl tidy
  | succ count ih =>
    have first := add tidy isOpen dice method false false false
    exact first.trans (ih first.forward.tidy (first.forward.isOpen_of isOpen))

theorem addTerm (tidy : progress.Tidy) {dice : Dice} {requests : List Request}
    (asked : resolver.addTerm dice progress = .ok (requests, later)) :
    resolver.Adds progress later := by
  unfold Resolver.addTerm at asked
  split at asked
  · cases asked
  · rename_i isOpen
    split at asked
    · cases asked
    · rename_i count _
      have whole := addMany tidy (Bool.eq_false_iff.2 isOpen) dice
        (progress.ledger.term dice.tag.id).method count
      rwa [Except.ok.inj asked] at whole

theorem addAll (tidy : progress.Tidy) (resolver : Resolver) (methods : MethodTable)
    (dice : List Dice) : resolver.Adds progress (resolver.addAll methods dice progress).2 := by
  induction dice generalizing progress with
  | nil => exact refl tidy
  | cons first rest ih =>
    unfold Resolver.addAll
    simp only
    split
    · split
      · exact refl tidy
      · split
        · split
          · exact refl tidy
          · rename_i asked
            have here := addTerm tidy asked
            exact here.trans (ih here.forward.tidy)
        · exact ih tidy
    · exact ih tidy

theorem resolve (tidy : progress.Tidy) (resolver : Resolver) (dice : Dice) (method : Json)
    (reroll explode : Bool) :
    resolver.Adds progress (resolver.resolve dice method reroll explode progress).progress := by
  unfold Resolver.resolve
  split
  · exact refl tidy
  · rename_i isOpen
    exact add tidy (Bool.eq_false_iff.2 isOpen) dice method true reroll explode

end Adds

/-! ## What calls do to those who wait -/

/-- Of the earlier requests that are for no descriptor, at most the one that is kept is
answered: it is released with nothing outstanding, or cancelled with the resolver being closed.
If nothing is outstanding any more, it is answered. -/
structure Tends (resolver : Resolver) (before after : Progress) : Prop where
  tidy : after.Tidy
  requests : before.requests ≤ after.requests
  closed : (before.resolver resolver).closed = true → (after.resolver resolver).closed = true
  expected : (after.resolver resolver).firstPass = (before.resolver resolver).firstPass
  asked : ∀ descriptor ∈ (after.resolver resolver).outstanding,
    descriptor ∈ (before.resolver resolver).outstanding ∨ before.requests ≤ descriptor.request
  answers : ∀ request,
    (∀ descriptor ∈ (before.resolver resolver).outstanding, descriptor.request ≠ request) →
    after.answer? request = before.answer? request ∨
    (before.resolver resolver).firstPass = some request ∧ before.answer? request = none ∧
      (after.answer? request = some .released ∧ (after.resolver resolver).outstanding = [] ∨
        after.answer? request = some .cancelled ∧ (before.resolver resolver).closed = false ∧
          (after.resolver resolver).closed = true)
  emptied : (after.resolver resolver).outstanding = [] → ∀ request,
    (before.resolver resolver).firstPass = some request → after.answer? request = none →
    (before.resolver resolver).outstanding = [] ∧ before.answer? request = none

namespace Tends

variable {resolver : Resolver} {progress later : Progress}

theorem of_adds (adds : resolver.Adds progress later) : resolver.Tends progress later where
  tidy := adds.forward.tidy
  requests := adds.requests
  closed := (adds.forward.closed resolver.id).trans
  expected := adds.expected
  asked := adds.asked
  answers request _ := .inl (adds.answer? request)
  emptied none request _ unanswered := by
    refine ⟨List.eq_nil_iff_forall_not_mem.2 fun descriptor member => ?_, ?_⟩
    · have kept := adds.forward.kept resolver.id descriptor member
      exact List.not_mem_nil (none ▸ kept)
    · rw [← adds.answer?]
      exact unanswered

theorem requests_checkDone (resolver : Resolver) (progress : Progress) :
    (resolver.checkDone progress).2.requests = progress.requests := by
  unfold Resolver.checkDone
  simp only
  split
  · rfl
  · split
    · rfl
    · split <;> rfl

theorem resolver_checkDone (resolver : Resolver) (progress : Progress) :
    (resolver.checkDone progress).2.resolver resolver = progress.resolver resolver :=
  congrArg (fun resolvers => Table.get resolvers resolver.id) (resolver.resolvers_checkDone progress)

/-- A first pass that finds nothing to wait for releases an earlier one. -/
theorem checkDone (adds : resolver.Adds progress later)
    (empty : (later.resolver resolver).outstanding = []) :
    resolver.Tends progress (resolver.checkDone later).2 where
  tidy := (Progress.Forward.checkDone adds.forward.tidy resolver).tidy
  requests := by
    rw [requests_checkDone]
    exact adds.requests
  closed := by
    rw [resolver_checkDone]
    exact (adds.forward.closed resolver.id).trans
  expected := by
    rw [resolver_checkDone]
    exact adds.expected
  asked := by
    rw [resolver_checkDone]
    exact adds.asked
  answers request _ := by
    rw [answer?_checkDone, resolver_checkDone, adds.answer?, adds.expected]
    split
    · rename_i releases
      exact .inr ⟨releases.2.1, releases.2.2, .inl ⟨rfl, empty⟩⟩
    · exact .inl rfl
  emptied _ request expected unanswered := by
    rw [answer?_checkDone, adds.answer?, adds.expected] at unanswered
    split at unanswered
    · cases unanswered
    · rename_i kept
      exact absurd ⟨empty, expected, unanswered⟩ kept

theorem deliver (tidy : progress.Tidy) {method denomination : Json} {number : Number}
    {before after : List Descriptor} {descriptor : Descriptor}
    (takes : resolver.Takes method denomination number progress before descriptor after) :
    resolver.Tends progress (resolver.deliver (before ++ after) descriptor number progress) := by
  have state : (resolver.deliver (before ++ after) descriptor number progress).resolver resolver =
      { progress.resolver resolver with outstanding := before ++ after } := resolver_deliver rfl
  have member : descriptor ∈ (progress.resolver resolver).outstanding := by
    rw [takes.kept]
    exact List.mem_append_right _ List.mem_cons_self
  constructor
  · exact (Progress.Onward.deliver tidy takes).tidy
  · rw [deliver_eq, requests_checkDone]
    exact Nat.le_of_eq (beside_recording descriptor number progress).requests.symm
  · rw [state]
    exact fun closed => closed
  · rw [state]
  · rw [state, takes.kept]
    intro other remains
    rcases List.mem_append.1 remains with front | back
    · exact .inl (List.mem_append_left _ front)
    · exact .inl (List.mem_append_right _ (List.mem_cons_of_mem _ back))
  · intro request free
    rw [answer?_deliver, if_neg (free descriptor member), state]
    split
    · rename_i releases
      exact .inr ⟨releases.2.1, releases.2.2, .inl ⟨rfl, releases.1⟩⟩
    · exact .inl rfl
  · rw [state]
    intro none request expected unanswered
    rw [answer?_deliver] at unanswered
    split at unanswered
    · cases unanswered
    · split at unanswered
      · cases unanswered
      · rename_i kept
        exact absurd ⟨none, expected, unanswered⟩ kept

theorem requests_cancel (progress : Progress) (requests : List Request) :
    (cancel progress requests).requests = progress.requests := by
  unfold cancel
  induction requests generalizing progress with
  | nil => rfl
  | cons request rest ih =>
    rw [List.foldl_cons, ih]
    split <;> rfl

theorem close (tidy : progress.Tidy) (resolver : Resolver) :
    resolver.Tends progress (resolver.close progress) := by
  cases given : (progress.resolver resolver).closed with
  | true =>
    rw [Progress.close_of_closed given]
    exact of_adds (.refl tidy)
  | false =>
    have state : (resolver.close progress).resolver resolver =
        { progress.resolver resolver with outstanding := [], closed := true } :=
      (Progress.resolvers_close given resolver.id).trans (if_pos rfl)
    constructor
    · exact tidy.close resolver
    · rw [(Progress.close_of_open given).requests, requests_cancel]
      exact Nat.le_refl _
    · intro closed
      cases given.symm.trans closed
    · rw [state]
    · rw [state]
      exact fun _ member => (List.not_mem_nil member).elim
    · intro request free
      rw [Progress.answer?_close given, state]
      split
      · rename_i drops
        rcases List.mem_append.1 drops.1 with outstanding | expected
        · rcases List.mem_map.1 outstanding with ⟨descriptor, member, rfl⟩
          exact absurd rfl (free descriptor member)
        · exact .inr ⟨Option.mem_toList.1 expected, drops.2, .inr ⟨rfl, given, rfl⟩⟩
      · exact .inl rfl
    · intro _ request expected unanswered
      rw [Progress.answer?_close given] at unanswered
      split at unanswered
      · cases unanswered
      · rename_i kept
        have among : request ∈ progress.dropped resolver :=
          List.mem_append_right _ (Option.mem_toList.2 expected)
        exact absurd ⟨among, unanswered⟩ kept

end Tends

/-- A call either begins to wait, after it has asked for dice, or it leaves those who wait as
they are but for what it answers. -/
theorem tends_of_attends {resolver : Resolver} {before after : Progress × Waiters}
    (attends : resolver.Attends before after) (tidy : before.1.Tidy) :
    (∃ later, resolver.Adds before.1 later ∧ (later.resolver resolver).outstanding ≠ [] ∧
      after = (resolver.expecting later, ⟨before.2.all ++ [later.requests],
        before.2.all.filter fun earlier => (before.1.answer? earlier).isNone⟩)) ∨
    resolver.Tends before.1 after.1 ∧ after.2 = before.2 := by
  cases attends with
  | @waits progress next request resume methods pass waiters =>
    have adds := Adds.addAll tidy resolver methods resolver.roll.dice
    have passes := resolver.passes_firstPass methods progress
    rw [pass] at passes
    cases passes with
    | waiting _ all filled =>
      rw [all] at adds
      exact .inl ⟨_, adds, filled, rfl⟩
  | @ends progress last result methods pass waiters =>
    have adds := Adds.addAll tidy resolver methods resolver.roll.dice
    have passes := resolver.passes_firstPass methods progress
    rw [pass] at passes
    cases passes with
    | closed => exact .inr ⟨.of_adds (.refl tidy), rfl⟩
    | failed _ all =>
      rw [all] at adds
      exact .inr ⟨.of_adds adds, rfl⟩
    | ended _ all empty =>
      rw [all] at adds
      exact .inr ⟨.checkDone adds empty, rfl⟩
  | addTerm asked => exact .inr ⟨.of_adds (.addTerm tidy asked), rfl⟩
  | resolve progress dice method reroll explode =>
    exact .inr ⟨.of_adds (.resolve tidy resolver dice method reroll explode), rfl⟩
  | register handed =>
    rcases register_eq_ok handed with
      ⟨_, number, front, descriptor, back, _, takes, rfl⟩ | ⟨_, rfl | ⟨level, text, rfl⟩⟩
    · exact .inr ⟨.deliver tidy takes, rfl⟩
    · exact .inr ⟨.of_adds (.refl tidy), rfl⟩
    · exact .inr ⟨.of_adds (.of_beside tidy ⟨rfl, rfl, rfl, rfl⟩), rfl⟩
  | close => exact .inr ⟨.close tidy resolver, rfl⟩
  | beside elsewhere => exact .inr ⟨.of_adds (.of_beside tidy elsewhere), rfl⟩

/-! ## Who is left behind -/

/-- Those who wait for a resolver: the latest one is kept unless it is answered, and then
something is outstanding; all others are answered or overtaken. -/
structure Heeds (resolver : Resolver) (progress : Progress) (waiters : Waiters) : Prop where
  tidy : progress.Tidy
  made : ∀ request ∈ waiters.all, request < progress.requests
  free : ∀ request ∈ waiters.all, ∀ descriptor ∈ (progress.resolver resolver).outstanding,
    descriptor.request ≠ request
  expected : ∀ request, (progress.resolver resolver).firstPass = some request →
    request ∈ waiters.all ∧ request ∉ waiters.overtaken
  kept : ∀ request ∈ waiters.all, request ∉ waiters.overtaken →
    progress.answer? request = none → (progress.resolver resolver).firstPass = some request
  overtaken : ∀ request ∈ waiters.overtaken,
    request ∈ waiters.all ∧ progress.answer? request = none
  outstanding : ∀ request, (progress.resolver resolver).firstPass = some request →
    progress.answer? request = none → (progress.resolver resolver).outstanding ≠ []
  answers : ∀ request ∈ waiters.all, ∀ answer, progress.answer? request = some answer →
    answer = .released ∨ answer = .cancelled ∧ (progress.resolver resolver).closed = true

namespace Heeds

variable {resolver : Resolver} {progress later : Progress} {waiters : Waiters}

theorem ofLedger (resolver : Resolver) (ledger : Ledger) :
    resolver.Heeds (.ofLedger ledger) {} where
  tidy := .ofLedger ledger
  made _ member := (List.not_mem_nil member).elim
  free _ member := (List.not_mem_nil member).elim
  expected _ expected := nomatch expected
  kept _ member := (List.not_mem_nil member).elim
  overtaken _ member := (List.not_mem_nil member).elim
  outstanding _ expected := nomatch expected
  answers _ member := (List.not_mem_nil member).elim

/-- What a call answers is the request that is kept. -/
theorem tend (heeds : resolver.Heeds progress waiters) (tends : resolver.Tends progress later) :
    resolver.Heeds later waiters where
  tidy := tends.tidy
  made request member := Nat.lt_of_lt_of_le (heeds.made request member) tends.requests
  free request member descriptor memberToo := by
    rcases tends.asked descriptor memberToo with earlier | new
    · exact heeds.free request member descriptor earlier
    · exact Nat.ne_of_gt (Nat.lt_of_lt_of_le (heeds.made request member) new)
  expected := by
    rw [tends.expected]
    exact heeds.expected
  kept request member ahead unanswered := by
    rw [tends.expected]
    rcases tends.answers request (heeds.free request member) with same | ⟨expected, _⟩
    · exact heeds.kept request member ahead (same.symm.trans unanswered)
    · exact expected
  overtaken request member := by
    rcases heeds.overtaken request member with ⟨among, unanswered⟩
    rcases tends.answers request (heeds.free request among) with same | ⟨expected, _⟩
    · exact ⟨among, same.trans unanswered⟩
    · exact absurd member (heeds.expected request expected).2
  outstanding request expected unanswered none := by
    rw [tends.expected] at expected
    rcases tends.emptied none request expected unanswered with ⟨noneBefore, unansweredBefore⟩
    exact heeds.outstanding request expected unansweredBefore noneBefore
  answers request member answer given := by
    rcases tends.answers request (heeds.free request member) with
      same | ⟨_, _, ⟨released, _⟩ | ⟨cancelled, _, closed⟩⟩
    · rcases heeds.answers request member answer (same.symm.trans given) with
        released | ⟨cancelled, closed⟩
      · exact .inl released
      · exact .inr ⟨cancelled, tends.closed closed⟩
    · exact .inl (Option.some.inj (given.symm.trans released))
    · exact .inr ⟨Option.some.inj (given.symm.trans cancelled), closed⟩

/-- A first pass that begins to wait overtakes all who still wait. -/
theorem wait (heeds : resolver.Heeds progress waiters) (adds : resolver.Adds progress later)
    (filled : (later.resolver resolver).outstanding ≠ []) :
    resolver.Heeds (resolver.expecting later) ⟨waiters.all ++ [later.requests],
      waiters.all.filter fun earlier => (progress.answer? earlier).isNone⟩ := by
  have tidy := adds.forward.tidy
  have asked := heeds.tend (.of_adds adds)
  have state : (resolver.expecting later).resolver resolver =
      { later.resolver resolver with firstPass := some later.requests } :=
    Progress.resolver_updateResolver ..
  have same (request : Request) :
      (resolver.expecting later).answer? request = later.answer? request := rfl
  have unasked : later.answer? later.requests = none := tidy.unasked _ (Nat.le_refl _)
  have earlier {request : Request} (member : request ∈ waiters.all) : request ≠ later.requests :=
    Nat.ne_of_lt (asked.made request member)
  constructor
  · exact tidy.expect resolver
  · intro request member
    rcases List.mem_append.1 member with before | new
    · exact Nat.lt_succ_of_lt (asked.made request before)
    · obtain rfl := List.mem_singleton.1 new
      exact Nat.lt_succ_self _
  · intro request member descriptor memberToo
    rw [state] at memberToo
    rcases List.mem_append.1 member with before | new
    · exact asked.free request before descriptor memberToo
    · obtain rfl := List.mem_singleton.1 new
      exact Nat.ne_of_lt (tidy.pending resolver.id descriptor memberToo).1
  · intro request expected
    rw [state] at expected
    obtain rfl := Option.some.inj expected
    refine ⟨List.mem_append_right _ List.mem_cons_self, fun overtaken => ?_⟩
    exact earlier (List.mem_filter.1 overtaken).1 rfl
  · intro request member ahead unanswered
    rw [state]
    rcases List.mem_append.1 member with before | new
    · rw [same, adds.answer?] at unanswered
      refine absurd (List.mem_filter.2 ⟨before, ?_⟩) ahead
      rw [unanswered]
      rfl
    · obtain rfl := List.mem_singleton.1 new
      rfl
  · intro request member
    rcases List.mem_filter.1 member with ⟨before, unanswered⟩
    refine ⟨List.mem_append_left _ before, ?_⟩
    rw [same, adds.answer?]
    exact Option.isNone_iff_eq_none.1 unanswered
  · intro _ _ _
    rw [state]
    exact filled
  · intro request member answer given
    rw [state]
    rcases List.mem_append.1 member with before | new
    · exact asked.answers request before answer given
    · obtain rfl := List.mem_singleton.1 new
      cases unasked.symm.trans given

theorem attend {before after : Progress × Waiters} (heeds : resolver.Heeds before.1 before.2)
    (attends : resolver.Attends before after) : resolver.Heeds after.1 after.2 := by
  rcases tends_of_attends attends heeds.tidy with ⟨later, adds, filled, rfl⟩ | ⟨tends, same⟩
  · exact heeds.wait adds filled
  · rw [same]
    exact heeds.tend tends

/-- Whatever is called, those who wait are heeded. -/
theorem attended {before after : Progress × Waiters} (heeds : resolver.Heeds before.1 before.2)
    (attended : resolver.Attended before after) : resolver.Heeds after.1 after.2 := by
  induction attended with
  | refl => exact heeds
  | tail _ attends ih => exact ih.attend attends

end Heeds

/-- Whatever is called of a resolver and in whatever order, if nothing is outstanding or the
resolver is closed, then exactly those first passes still wait that were overtaken, that is,
that were unanswered when a further first pass began to wait.  An overtaken one is never
answered.  All other answers are that it is released or that it is cancelled, and they are
given in the call after which nothing is outstanding or by which the resolver is closed. -/
theorem released_unless_overtaken {resolver : Resolver} {ledger : Ledger} {progress : Progress}
    {waiters : Waiters}
    (attended : resolver.Attended (.ofLedger ledger, {}) (progress, waiters)) :
    ((progress.resolver resolver).outstanding = [] ∨ (progress.resolver resolver).closed = true →
      ∀ request ∈ waiters.all,
        progress.answer? request = none ↔ request ∈ waiters.overtaken) ∧
    (∀ request ∈ waiters.overtaken, progress.answer? request = none) ∧
    (∀ request ∈ waiters.all, ∀ answer, progress.answer? request = some answer →
      answer = .released ∨ answer = .cancelled ∧ (progress.resolver resolver).closed = true) ∧
    ∀ next further, resolver.Attends (progress, waiters) (next, further) →
      ∀ request ∈ waiters.all, ∀ answer, progress.answer? request = none →
        next.answer? request = some answer →
        answer = .released ∧ (next.resolver resolver).outstanding = [] ∨
        answer = .cancelled ∧ (progress.resolver resolver).closed = false ∧
          (next.resolver resolver).closed = true := by
  have heeds : resolver.Heeds progress waiters := (Heeds.ofLedger resolver ledger).attended attended
  refine ⟨fun done request member => ⟨fun unanswered => ?_, fun overtaken => ?_⟩,
    fun request overtaken => (heeds.overtaken request overtaken).2, heeds.answers, ?_⟩
  · by_contra ahead
    have none : (progress.resolver resolver).outstanding = [] :=
      done.elim (fun none => none) (heeds.tidy.closed resolver.id)
    exact heeds.outstanding request (heeds.kept request member ahead unanswered) unanswered none
  · exact (heeds.overtaken request overtaken).2
  · intro next further attends request member answer unanswered given
    rcases tends_of_attends attends heeds.tidy with ⟨later, adds, _, same⟩ | ⟨tends, _⟩
    · cases same
      have unansweredToo := (adds.answer? request).trans unanswered
      cases given.symm.trans unansweredToo
    · rcases tends.answers request (heeds.free request member) with
        same | ⟨_, _, ⟨released, none⟩ | ⟨cancelled, isOpen, closed⟩⟩
      · cases given.symm.trans (same.trans unanswered)
      · exact .inl ⟨Option.some.inj (given.symm.trans released), none⟩
      · exact .inr ⟨Option.some.inj (given.symm.trans cancelled), isOpen, closed⟩

/-- The request of a step that waits, with the progress until then. -/
def waiting? : Step Unit → Option (Request × Progress)
  | .wait request progress _ => some (request, progress)
  | .done _ _ => none

theorem waits_of_waiting {step : Step Unit} {request : Request} {progress : Progress}
    (waits : waiting? step = some (request, progress)) :
    ∃ resume, step = .wait request progress resume := by
  cases step with
  | done result last => cases waits
  | wait other asked resume =>
    cases waits
    exact ⟨resume, rfl⟩

/-- The progress after a value of a six-sided die was handed in and taken. -/
def taken? (resolver : Resolver) (value : Nat) (progress : Progress) : Option Progress :=
  match resolver.register (.string "manual") (.string "d6") (.ofNat value) progress with
  | .ok (true, later) => some later
  | _ => none

theorem register_of_taken {resolver : Resolver} {value : Nat} {progress later : Progress}
    (taken : resolver.taken? value progress = some later) :
    resolver.register (.string "manual") (.string "d6") (.ofNat value) progress =
      .ok (true, later) := by
  unfold taken? at taken
  split at taken
  · rename_i handed
    rw [handed, Option.some.inj taken]
  · cases taken

/-- A first pass for two dice waits until both have a value, and is released then. -/
theorem released_unless_overtaken_of_pair : ∃ roll made request asked after last,
    Build.ofFormula Build.usual { formula := "2d6", method := .string "manual" } .empty =
      .ok (roll, made) ∧
    waiting? (firstPass ⟨0, roll⟩ .standard (.ofLedger made)) = some (request, asked) ∧
    taken? ⟨0, roll⟩ 3 asked = some after ∧ taken? ⟨0, roll⟩ 4 after = some last ∧
    Attended ⟨0, roll⟩ (.ofLedger made, {}) (last, ⟨[request], []⟩) ∧
    (last.resolver ⟨0, roll⟩).outstanding = [] ∧
    after.answer? request = none ∧ last.answer? request = some .released := by
  have computed : (do
      let pair ← (Build.ofFormula Build.usual
        { formula := "2d6", method := .string "manual" } .empty).toOption
      let pass ← waiting? (firstPass ⟨0, pair.1⟩ .standard (.ofLedger pair.2))
      let after ← taken? ⟨0, pair.1⟩ 3 pass.2
      let last ← taken? ⟨0, pair.1⟩ 4 after
      return (last.resolver ⟨0, pair.1⟩).outstanding.isEmpty &&
        (!(last.resolver ⟨0, pair.1⟩).closed && (after.answer? pass.1).isNone)) = some true := by
    decide +kernel
  rcases Option.bind_eq_some_iff.1 computed with ⟨⟨roll, made⟩, built, rest⟩
  rcases Option.bind_eq_some_iff.1 rest with ⟨⟨request, asked⟩, pass, rest⟩
  rcases Option.bind_eq_some_iff.1 rest with ⟨after, first, rest⟩
  rcases Option.bind_eq_some_iff.1 rest with ⟨last, second, rest⟩
  rcases Bool.and_eq_true_iff.1 (Option.some.inj rest) with ⟨none, rest⟩
  rcases Bool.and_eq_true_iff.1 rest with ⟨isOpen, unanswered⟩
  have none := List.isEmpty_iff.1 none
  rcases waits_of_waiting pass with ⟨resume, waits⟩
  have attended : Attended ⟨0, roll⟩ (.ofLedger made, {}) (last, ⟨[request], []⟩) :=
    .tail (.tail (.single (.waits waits {})) (.register (register_of_taken first) _))
      (.register (register_of_taken second) _)
  rcases released_unless_overtaken attended with ⟨ends, _, answers, _⟩
  refine ⟨roll, made, request, asked, after, last, result_of_toOption built, pass, first, second,
    attended, none, Option.isNone_iff_eq_none.1 unanswered, ?_⟩
  have settled : last.answer? request ≠ Option.none := fun pending =>
    List.not_mem_nil ((ends (.inl none) request List.mem_cons_self).1 pending)
  rcases Option.ne_none_iff_exists'.1 settled with ⟨answer, found⟩
  rcases answers request List.mem_cons_self answer found with rfl | ⟨_, closed⟩
  · exact found
  · rw [closed] at isOpen
    cases isOpen

/-- A die for which two first passes wait takes two values.  Then nothing is outstanding, but
the earlier of the two still waits, also if the resolver is closed. -/
theorem overtaken_of_second_pass : ∃ roll made first asked second askedAgain after last,
    Build.ofFormula Build.usual { formula := "1d6", method := .string "manual" } .empty =
      .ok (roll, made) ∧
    waiting? (firstPass ⟨0, roll⟩ .standard (.ofLedger made)) = some (first, asked) ∧
    waiting? (firstPass ⟨0, roll⟩ .standard asked) = some (second, askedAgain) ∧
    taken? ⟨0, roll⟩ 3 askedAgain = some after ∧ taken? ⟨0, roll⟩ 4 after = some last ∧
    (last.resolver ⟨0, roll⟩).outstanding = [] ∧
    last.answer? second ≠ none ∧ last.answer? first = none ∧
    (close ⟨0, roll⟩ last).answer? first = none := by
  have computed : (do
      let pair ← (Build.ofFormula Build.usual
        { formula := "1d6", method := .string "manual" } .empty).toOption
      let pass ← waiting? (firstPass ⟨0, pair.1⟩ .standard (.ofLedger pair.2))
      let passAgain ← waiting? (firstPass ⟨0, pair.1⟩ .standard pass.2)
      let after ← taken? ⟨0, pair.1⟩ 3 passAgain.2
      let last ← taken? ⟨0, pair.1⟩ 4 after
      return (last.resolver ⟨0, pair.1⟩).outstanding.isEmpty &&
        ((last.answer? passAgain.1).isSome && ((last.answer? pass.1).isNone &&
          ((close ⟨0, pair.1⟩ last).answer? pass.1).isNone))) = some true := by
    decide +kernel
  rcases Option.bind_eq_some_iff.1 computed with ⟨⟨roll, made⟩, built, rest⟩
  rcases Option.bind_eq_some_iff.1 rest with ⟨⟨first, asked⟩, pass, rest⟩
  rcases Option.bind_eq_some_iff.1 rest with ⟨⟨second, askedAgain⟩, passAgain, rest⟩
  rcases Option.bind_eq_some_iff.1 rest with ⟨after, three, rest⟩
  rcases Option.bind_eq_some_iff.1 rest with ⟨last, four, rest⟩
  rcases Bool.and_eq_true_iff.1 (Option.some.inj rest) with ⟨none, rest⟩
  rcases Bool.and_eq_true_iff.1 rest with ⟨answered, rest⟩
  rcases Bool.and_eq_true_iff.1 rest with ⟨unanswered, still⟩
  exact ⟨roll, made, first, asked, second, askedAgain, after, last, result_of_toOption built, pass,
    passAgain, three, four, List.isEmpty_iff.1 none, Option.isSome_iff_ne_none.1 answered,
    Option.isNone_iff_eq_none.1 unanswered, Option.isNone_iff_eq_none.1 still⟩

end Resolver
end DiceNotation
