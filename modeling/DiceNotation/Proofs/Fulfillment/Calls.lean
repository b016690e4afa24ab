import Mathlib.Logic.Relation
import DiceNotation.Proofs.Evaluation.Handling
import DiceNotation.Proofs.Fulfillment.Asking

namespace DiceNotation

/-!
# Calls of resolvers

A resolver is called to ask for dice, to hand in values, or to be closed, in any order.
A call that asks leaves what was outstanding as it was.  A value that is handed in
answers the request of one descriptor, and to close a resolver cancels all of its
requests.  So every descriptor is outstanding until its request is answered, which
happens once.
-/

namespace Progress

/-- One call of a resolver, or something that has nothing to do with requests. -/
inductive Call : Progress → Progress → Prop
  | addTerm {progress later : Progress} {resolver : Resolver} {dice : Dice}
    {requests : List Request} (asked : resolver.addTerm dice progress = .ok (requests, later)) :
    Call progress later
  | firstPass (progress : Progress) (resolver : Resolver) (methods : MethodTable) :
    Call progress (resolver.firstPass methods progress).progress
  | resolve (progress : Progress) (resolver : Resolver) (dice : Dice) (method : Json)
    (reroll explode : Bool) :
    Call progress (resolver.resolve dice method reroll explode progress).progress
  | register {progress later : Progress} {resolver : Resolver} {method denomination value : Json}
    {accepted : Bool}
    (handed : resolver.register method denomination value progress = .ok (accepted, later)) :
    Call progress later
  | close (progress : Progress) (resolver : Resolver) : Call progress (resolver.close progress)
  | beside {progress later : Progress} (elsewhere : progress.Beside later) : Call progress later

/-- What calls in any order lead to. -/
abbrev Called : Progress → Progress → Prop := Relation.ReflTransGen Call

/-- A call keeps requests in order, answers for good, and opens nothing that is closed. -/
structure Onward (before after : Progress) : Prop where
  tidy : after.Tidy
  answers : ∀ request answer, before.answer? request = some answer →
    after.answer? request = some answer
  closed : ∀ id, (before.resolvers.get id).closed = true → (after.resolvers.get id).closed = true

theorem Forward.onward {before after : Progress} (forward : before.Forward after) :
    before.Onward after :=
  ⟨forward.tidy, forward.answers, fun id closed => (forward.closed id).trans closed⟩

theorem Onward.close {progress : Progress} (tidy : progress.Tidy) (resolver : Resolver) :
    progress.Onward (resolver.close progress) where
  tidy := tidy.close resolver
  answers request answer given := by
    cases state : (progress.resolver resolver).closed with
    | true => rwa [close_of_closed state]
    | false =>
      rw [answer?_close state, if_neg, given]
      rintro ⟨_, unanswered⟩
      cases given.symm.trans unanswered
  closed id closed := by
    cases state : (progress.resolver resolver).closed with
    | true => rwa [close_of_closed state]
    | false =>
      rw [resolvers_close state]
      split
      · rfl
      · exact closed

theorem Onward.deliver {progress : Progress} (tidy : progress.Tidy) {resolver : Resolver}
    {method denomination : Json} {number : Number} {before after : List Descriptor}
    {descriptor : Descriptor}
    (takes : resolver.Takes method denomination number progress before descriptor after) :
    progress.Onward (resolver.deliver (before ++ after) descriptor number progress) where
  tidy := (Forward.checkDone (tidy.taking number takes.kept) resolver).tidy
  answers request answer given := by
    have member : descriptor ∈ (progress.resolver resolver).outstanding := by
      rw [takes.kept]
      exact List.mem_append_right _ List.mem_cons_self
    have unanswered := (tidy.pending resolver.id descriptor member).2
    rw [Resolver.answer?_deliver, if_neg, if_neg, given]
    · rintro ⟨_, _, none⟩
      cases given.symm.trans none
    · rintro rfl
      cases given.symm.trans unanswered
  closed id closed := by
    rw [Resolver.resolvers_deliver]
    split <;> exact closed

theorem Call.onward {before after : Progress} (call : Call before after) (tidy : before.Tidy) :
    before.Onward after := by
  cases call with
  | addTerm asked => exact (Forward.addTerm tidy asked).onward
  | firstPass resolver methods => exact (Forward.firstPass tidy resolver methods).onward
  | resolve resolver dice method reroll explode =>
    exact (Forward.resolve tidy resolver dice method reroll explode).onward
  | register handed =>
    rcases Resolver.register_eq_ok handed with
      ⟨_, number, front, descriptor, back, _, takes, rfl⟩ | ⟨_, rfl | ⟨level, text, rfl⟩⟩
    · exact Onward.deliver tidy takes
    · exact (Forward.refl tidy).onward
    · have beside : before.Beside (before.report level text) := ⟨rfl, rfl, rfl, rfl⟩
      exact (Forward.of_beside tidy beside).onward
  | close resolver => exact Onward.close tidy resolver
  | beside elsewhere => exact (Forward.of_beside tidy elsewhere).onward

theorem Called.onward {before after : Progress} (called : Called before after)
    (tidy : before.Tidy) : before.Onward after := by
  induction called with
  | refl => exact (Forward.refl tidy).onward
  | tail _ call ih =>
    have next := call.onward ih.tidy
    exact ⟨next.tidy, fun request answer given => next.answers request answer
      (ih.answers request answer given), fun id closed => next.closed id (ih.closed id closed)⟩

/-- What becomes of an outstanding descriptor in one call: it stays, its request is
cancelled, or it takes a value that is handed in. -/
theorem Call.fate {before after : Progress} (call : Call before after) (tidy : before.Tidy)
    {resolver : Resolver} {descriptor : Descriptor}
    (member : descriptor ∈ (before.resolver resolver).outstanding) :
    descriptor ∈ (after.resolver resolver).outstanding ∨
    after.answer? descriptor.request = some .cancelled ∨
    ∃ method denomination number,
      resolver.register method denomination (.number number) before = .ok (true, after) ∧
      before.ledger.accepts descriptor.dice (.number number) = .ok true ∧
      after.answer? descriptor.request = some (.delivered number) := by
  have unanswered := (tidy.pending resolver.id descriptor member).2
  cases call with
  | addTerm asked => exact .inl ((Forward.addTerm tidy asked).kept resolver.id descriptor member)
  | firstPass other methods =>
    exact .inl ((Forward.firstPass tidy other methods).kept resolver.id descriptor member)
  | resolve other dice method reroll explode =>
    exact .inl ((Forward.resolve tidy other dice method reroll explode).kept resolver.id descriptor
      member)
  | @register _ other method denomination value accepted handed =>
    rcases Resolver.register_eq_ok handed with
      ⟨rfl, number, front, found, back, rfl, takes, rfl⟩ | ⟨_, rfl | ⟨level, text, rfl⟩⟩
    · by_cases here : other.id = resolver.id
      · have same : before.resolver resolver = before.resolver other :=
          congrArg before.resolvers.get here.symm
        rw [same, takes.kept] at member
        rw [Resolver.resolver_deliver here]
        rcases List.mem_append.1 member with first | rest
        · exact .inl (List.mem_append_left _ first)
        · rcases List.mem_cons.1 rest with rfl | last
          · right
            right
            refine ⟨method, denomination, number, ?_, takes.accepted, ?_⟩
            · rw [← Resolver.register_congr here]
              exact handed
            · rw [Resolver.answer?_deliver, if_pos rfl]
          · exact .inl (List.mem_append_right _ last)
      · rw [Resolver.resolver_deliver_of_ne here]
        exact .inl member
    · exact .inl member
    · exact .inl member
  | close other =>
    cases state : (before.resolver other).closed with
    | true =>
      rw [close_of_closed state]
      exact .inl member
    | false =>
      by_cases here : other.id = resolver.id
      · right
        left
        rw [answer?_close state, if_pos]
        refine ⟨List.mem_append_left _ (List.mem_map.2 ⟨descriptor, ?_, rfl⟩), unanswered⟩
        change descriptor ∈ (before.resolvers.get other.id).outstanding
        rw [here]
        exact member
      · rw [resolver_close_of_ne state here]
        exact .inl member
  | beside elsewhere =>
    rw [elsewhere.resolver]
    exact .inl member

end Progress

namespace Resolver

open Progress

/-- A descriptor took a value that was handed in between two moments. -/
def Took (resolver : Resolver) (descriptor : Descriptor) (number : Number)
    (start last : Progress) : Prop :=
  ∃ method denomination before after, Called start before ∧ Called after last ∧
    resolver.register method denomination (.number number) before = .ok (true, after) ∧
    descriptor ∈ (before.resolver resolver).outstanding ∧
    before.ledger.accepts descriptor.dice (.number number) = .ok true

/-- Whatever is called, a descriptor stays outstanding, or its request is answered. -/
theorem fate_of_called {start last : Progress} (called : Called start last) (tidy : start.Tidy)
    {resolver : Resolver} {descriptor : Descriptor}
    (member : descriptor ∈ (start.resolver resolver).outstanding) :
    descriptor ∈ (last.resolver resolver).outstanding ∨
    last.answer? descriptor.request = some .cancelled ∨
    ∃ number, last.answer? descriptor.request = some (.delivered number) ∧
      resolver.Took descriptor number start last := by
  induction called with
  | refl => exact .inl member
  | @tail middle last called call ih =>
    have ordered := Called.onward called tidy
    have next := call.onward ordered.tidy
    rcases ih with kept | cancelled | ⟨number, delivered, took⟩
    · rcases call.fate ordered.tidy kept with still | cancelled | ⟨_, _, number, handed, can, given⟩
      · exact .inl still
      · exact .inr (.inl cancelled)
      · exact .inr (.inr ⟨number, given, _, _, middle, last, called, .refl, handed, kept, can⟩)
    · exact .inr (.inl (next.answers _ _ cancelled))
    · rcases took with ⟨method, denomination, before, after, first, rest, handed, kept, can⟩
      exact .inr (.inr ⟨number, next.answers _ _ delivered, method, denomination, before, after,
        first, rest.tail call, handed, kept, can⟩)

/-- A resolver that is closed takes nothing and asks for nothing. -/
structure IsFinished (resolver : Resolver) (progress : Progress) : Prop where
  outstanding : (progress.resolver resolver).outstanding = []
  close : resolver.close progress = progress
  register : ∀ method denomination value,
    resolver.register method denomination value progress = .ok (false, progress)
  addTerm : ∀ dice, resolver.addTerm dice progress = .error .cancelled
  firstPass : ∀ methods,
    resolver.firstPass methods progress = .done (.error .cancelled) progress
  resolve : ∀ dice method reroll explode,
    resolver.resolve dice method reroll explode progress = .done (.error .cancelled) progress

theorem isFinished_of_closed {resolver : Resolver} {progress : Progress} (tidy : progress.Tidy)
    (closed : (progress.resolver resolver).closed = true) : resolver.IsFinished progress where
  outstanding := tidy.closed resolver.id closed
  close := close_of_closed closed
  register _ _ _ := if_pos closed
  addTerm _ := if_pos closed
  firstPass _ := if_pos closed
  resolve _ _ _ _ := if_pos closed

/-- An evaluation with a resolver leaves it closed, however it ends. -/
theorem closed_of_evaluate {resolver : Resolver} {roll : Roll} {options : Options}
    {surroundings : Surroundings} {context : Context} {start last : Progress}
    {others : Progress → Progress → Prop} {result : Except Fault Unit}
    (unevaluated : (start.ledger.roll roll.id).phase = .unevaluated)
    (valid : options.forRoll surroundings = .ok context)
    (given : surroundings.resolver = some resolver)
    (ends : (roll.evaluate options surroundings start).Reaches others (some result) last) :
    (last.resolver resolver).closed = true := by
  rw [RollOf.evaluate_of_unevaluated options surroundings unevaluated, valid] at ends
  change (RollOf.evaluateWith surroundings roll context start).Reaches _ _ _ at ends
  unfold RollOf.evaluateWith at ends
  rw [given] at ends
  rcases Step.Reaches.of_andThen ends with ⟨result, middle, _, rest⟩ | ⟨none, _⟩
  · rcases Step.Reaches.of_done rest with ⟨_, rfl⟩
    exact closed_close middle resolver
  · cases none

/-- Every descriptor is settled exactly once.  Whatever calls are made, and whatever
happens in between, a descriptor is outstanding exactly as long as its request is
unanswered.  No request is answered twice, and no answer is changed.  The answer to the
request of a descriptor is a value that was handed in and taken, or that it is
cancelled.  From the first time on that a resolver is closed, it stays closed, nothing
is outstanding and all that was outstanding is answered, nothing can be asked for and
nothing is taken.  An evaluation with a resolver leaves it closed, however it ends. -/
theorem settled_once {ledger : Ledger} {progress later : Progress}
    (reached : Called (.ofLedger ledger) progress) (further : Called progress later)
    (resolver : Resolver) :
    (∀ descriptor ∈ (progress.resolver resolver).outstanding,
      progress.answer? descriptor.request = none ∧
      (descriptor ∈ (later.resolver resolver).outstanding ↔
        later.answer? descriptor.request = none) ∧
      ∀ answer, later.answer? descriptor.request = some answer → answer = .cancelled ∨
        ∃ number, answer = .delivered number ∧ resolver.Took descriptor number progress later) ∧
    later.answered.Nodup ∧
    (∀ request answer, progress.answer? request = some answer →
      later.answer? request = some answer) ∧
    ((progress.resolver resolver).closed = true → (later.resolver resolver).closed = true) ∧
    ((later.resolver resolver).closed = true → resolver.IsFinished later ∧
      ∀ descriptor ∈ (progress.resolver resolver).outstanding,
        later.answer? descriptor.request ≠ none) ∧
    ∀ (roll : Roll) (options : Options) (surroundings : Surroundings) (context : Context)
      (start last : Progress) (result : Except Fault Unit),
      (start.ledger.roll roll.id).phase = .unevaluated →
      options.forRoll surroundings = .ok context → surroundings.resolver = some resolver →
      (roll.evaluate options surroundings start).Reaches (fun _ _ => True) (some result) last →
      (last.resolver resolver).closed = true := by
  have tidy := (Called.onward reached (Tidy.ofLedger ledger)).tidy
  have onward := Called.onward further tidy
  have outstanding_iff {descriptor : Descriptor}
      (member : descriptor ∈ (progress.resolver resolver).outstanding) :
      descriptor ∈ (later.resolver resolver).outstanding ↔
        later.answer? descriptor.request = none := by
    constructor
    · exact fun kept => (onward.tidy.pending resolver.id descriptor kept).2
    · intro unanswered
      rcases fate_of_called further tidy member with kept | cancelled | ⟨_, delivered, _⟩
      · exact kept
      · cases unanswered.symm.trans cancelled
      · cases unanswered.symm.trans delivered
  refine ⟨fun descriptor member => ⟨?_, outstanding_iff member, ?_⟩, onward.tidy.once,
    onward.answers, onward.closed resolver.id, fun closed => ?_, ?_⟩
  · exact (tidy.pending resolver.id descriptor member).2
  · intro answer given
    rcases fate_of_called further tidy member with kept | cancelled | ⟨number, delivered, took⟩
    · cases given.symm.trans ((outstanding_iff member).1 kept)
    · cases given.symm.trans cancelled
      exact .inl rfl
    · cases given.symm.trans delivered
      exact .inr ⟨number, rfl, took⟩
  · have finished := isFinished_of_closed onward.tidy closed
    refine ⟨finished, fun descriptor member unanswered => ?_⟩
    have kept := (outstanding_iff member).2 unanswered
    rw [finished.outstanding] at kept
    exact List.not_mem_nil kept
  · intro roll options surroundings context start last result unevaluated valid given ends
    exact closed_of_evaluate unevaluated valid given ends

/-- A resolver for two dice, before anything was asked. -/
def forPair : Except Fault (Resolver × Progress) :=
  (Build.ofFormula Build.usual { formula := "2d6", method := .string "manual" } .empty).map
    fun (roll, made) => (⟨0, roll⟩, .ofLedger made)

/-- The progress in which the resolver waits for both dice. -/
def askedForPair (resolver : Resolver) (start : Progress) : Progress :=
  (resolver.firstPass .standard start).progress

/-- One of two dice takes a value and the other one is cancelled. -/
theorem settled_once_of_pair : ∃ resolver start after,
    forPair = .ok (resolver, start) ∧
    ((askedForPair resolver start).resolver resolver).outstanding.length = 2 ∧
    resolver.register (.string "manual") (.string "d6") (.ofNat 4) (askedForPair resolver start) =
      .ok (true, after) ∧
    Called start (askedForPair resolver start) ∧
    Called (askedForPair resolver start) (resolver.close after) ∧
    resolver.IsFinished (resolver.close after) ∧
    (resolver.close after).answered.Nodup ∧
    ∀ descriptor ∈ ((askedForPair resolver start).resolver resolver).outstanding,
      ∃ answer, (resolver.close after).answer? descriptor.request = some answer ∧
        (answer = .cancelled ∨ ∃ number, answer = .delivered number ∧
          resolver.Took descriptor number (askedForPair resolver start) (resolver.close after)) := by
  have computed : (match forPair with
      | .error _ => false
      | .ok (resolver, start) =>
        ((askedForPair resolver start).resolver resolver).outstanding.length == 2 &&
          match resolver.register (.string "manual") (.string "d6") (.ofNat 4)
            (askedForPair resolver start) with
          | .ok (accepted, _) => accepted
          | .error _ => false) = true := by decide +kernel
  cases built : Build.ofFormula Build.usual { formula := "2d6", method := .string "manual" } .empty with
  | error fault =>
    rw [forPair, built] at computed
    cases computed
  | ok pair =>
    rcases pair with ⟨roll, made⟩
    let resolver : Resolver := ⟨0, roll⟩
    let start : Progress := .ofLedger made
    have given : forPair = .ok (resolver, start) := by
      rw [forPair, built]
      rfl
    rw [given] at computed
    rcases Bool.and_eq_true_iff.1 computed with ⟨two, takes⟩
    split at takes
    · rename_i accepted after handed
      subst takes
      have reached : Called start (askedForPair resolver start) :=
        .single (.firstPass start resolver .standard)
      have further : Called (askedForPair resolver start) (resolver.close after) :=
        .tail (.single (.register handed)) (.close after resolver)
      rcases settled_once reached further resolver with
        ⟨settled, once, _, _, finished, _⟩
      rcases finished (closed_close after resolver) with ⟨finished, answered⟩
      refine ⟨resolver, start, after, given, beq_iff_eq.1 two, handed, reached, further, finished,
        once, fun descriptor member => ?_⟩
      rcases Option.ne_none_iff_exists'.1 (answered descriptor member) with ⟨answer, found⟩
      exact ⟨answer, found, (settled descriptor member).2.2 answer found⟩
    · cases takes

end Resolver
end DiceNotation
