import DiceNotation.Proofs.Fulfillment.Asking

namespace DiceNotation

/-!
# Evaluations that are answered

An evaluation that waits goes on when its request is answered.  Until then the outside
hands in values, of which some are taken, and may close the resolver.  A run keeps the
receipts of all values that were taken, in the order in which they were.
-/

/-- A value that was taken, what it was handed in for, and the descriptor that took it. -/
structure Receipt where
  method : Json
  denomination : Json
  descriptor : Descriptor
  number : Number

namespace Resolver

/-- What the outside does to a resolver while nothing else happens: it hands in values,
which are rejected or taken, and closes the resolver. -/
inductive Handles (resolver : Resolver) (start : Progress) : List Receipt → Progress → Prop
  | nothing : Handles resolver start [] start
  | rejected {receipts : List Receipt} {between later : Progress}
    {method denomination value : Json} (handles : Handles resolver start receipts between)
    (handed : resolver.register method denomination value between = .ok (false, later)) :
    Handles resolver start receipts later
  | accepted {receipts : List Receipt} {between later : Progress} {method denomination : Json}
    {number : Number} {before after : List Descriptor} {descriptor : Descriptor}
    (handles : Handles resolver start receipts between)
    (found : findDescriptor between.ledger method denomination
      (between.resolver resolver).outstanding = .ok (some (before, descriptor, after)))
    (handed : resolver.register method denomination (.number number) between = .ok (true, later)) :
    Handles resolver start (receipts ++ [⟨method, denomination, descriptor, number⟩]) later
  | closed {receipts : List Receipt} {between : Progress}
    (handles : Handles resolver start receipts between) :
    Handles resolver start receipts (resolver.close between)

section

variable {resolver : Resolver} {start progress later : Progress} {method denomination : Json}

/-- A value that was taken was taken by the descriptor that was found. -/
theorem takes_of_accepted {number : Number} {before after : List Descriptor}
    {descriptor : Descriptor}
    (found : findDescriptor progress.ledger method denomination
      (progress.resolver resolver).outstanding = .ok (some (before, descriptor, after)))
    (handed : resolver.register method denomination (.number number) progress = .ok (true, later)) :
    resolver.Takes method denomination number progress before descriptor after ∧
      later = resolver.deliver (before ++ after) descriptor number progress := by
  rcases register_eq_ok handed with ⟨_, _, front, other, back, same, takes, is⟩ | ⟨rejected, _⟩
  · cases same
    cases takes.found.symm.trans found
    exact ⟨takes, is⟩
  · cases rejected

/-- What is rejected changes nothing but the journal. -/
theorem beside_of_rejected {value : Json}
    (handed : resolver.register method denomination value progress = .ok (false, later)) :
    progress.Beside later ∧ later.ledger = progress.ledger := by
  rcases register_eq_ok handed with ⟨accepted, _⟩ | ⟨_, rfl | ⟨level, text, rfl⟩⟩
  · cases accepted
  · exact ⟨⟨rfl, rfl, rfl, rfl⟩, rfl⟩
  · exact ⟨⟨rfl, rfl, rfl, rfl⟩, rfl⟩

end
end Resolver

namespace Step

variable {α β : Type}

/-- What a run comes to while its requests are answered. -/
inductive Runs (resolver : Resolver) : Step α → List Receipt → Step α → Prop
  | stays (step : Step α) : Runs resolver step [] step
  | resumes {request : Request} {asked later : Progress} {resume : Answer → Progress → Step α}
    {receipts more : List Receipt} {answer : Answer} {last : Step α}
    (handles : resolver.Handles asked receipts later)
    (answered : later.answer? request = some answer)
    (runs : Runs resolver (resume answer later) more last) :
    Runs resolver (.wait request asked resume) (receipts ++ more) last

variable {resolver : Resolver} {receipts : List Receipt}

/-- Nothing follows what is done. -/
theorem Runs.of_done {result : Except Fault α} {progress : Progress} {last : Step α}
    (runs : Runs resolver (.done result progress) receipts last) :
    receipts = [] ∧ last = .done result progress := by
  cases runs with
  | stays => exact ⟨rfl, rfl⟩

/-- One run after another stands in the first one, or the first one is done. -/
theorem Runs.of_andThen {step : Step α} {next : Except Fault α → Progress → Step β} {last : Step β}
    (runs : (step.andThen next).Runs resolver receipts last) :
    (∃ request asked resume, step.Runs resolver receipts (.wait request asked resume) ∧
      last = (Step.wait request asked resume).andThen next) ∨
    ∃ front back result between, receipts = front ++ back ∧
      step.Runs resolver front (.done result between) ∧
      (next result between).Runs resolver back last := by
  induction step generalizing receipts with
  | done result progress => exact .inr ⟨[], receipts, result, progress, rfl, .stays _, runs⟩
  | wait request asked resume ih =>
    cases runs with
    | stays => exact .inl ⟨request, asked, resume, .stays _, rfl⟩
    | @resumes _ _ _ _ handled more answer _ handles answered runs =>
      rcases ih answer _ runs with
        ⟨request, asked, resume, first, is⟩ | ⟨front, back, result, between, rfl, first, rest⟩
      · exact .inl ⟨request, asked, resume, .resumes handles answered first, is⟩
      · refine .inr ⟨handled ++ front, back, result, between, ?_, .resumes handles answered first,
          rest⟩
        rw [List.append_assoc]

end Step

/-! ## Runs that are computed -/

/-- Hands in values for a method one after another.  There are receipts if all of them are
taken. -/
def Resolver.handAll (resolver : Resolver) (method : Json) :
    List (Json × Number) → Progress → Option (List Receipt × Progress)
  | [], progress => some ([], progress)
  | (denomination, number) :: rest, progress => do
    let found ← (findDescriptor progress.ledger method denomination
      (progress.resolver resolver).outstanding).toOption
    let (_, descriptor, _) ← found
    let (accepted, later) ← (resolver.register method denomination (.number number) progress).toOption
    if accepted then
      let (receipts, last) ← handAll resolver method rest later
      some (⟨method, denomination, descriptor, number⟩ :: receipts, last)
    else none

/-- Hands in values where a run waits, and goes on if that answers its request. -/
def Step.handIn {α : Type} (resolver : Resolver) (method : Json) (values : List (Json × Number)) :
    Step α → Option (List Receipt × Step α)
  | .done _ _ => none
  | .wait request asked resume => do
    let (receipts, later) ← resolver.handAll method values asked
    let answer ← later.answer? request
    some (receipts, resume answer later)

theorem Except.eq_ok_of_toOption {ε α : Type} {result : Except ε α} {a : α}
    (some : result.toOption = some a) : result = .ok a := by
  cases result with
  | error fault => cases some
  | ok value =>
    cases some
    rfl

theorem Resolver.handles_of_handAll {resolver : Resolver} {method : Json}
    {values : List (Json × Number)} {start progress last : Progress} {receipts more : List Receipt}
    (handles : resolver.Handles start receipts progress)
    (handed : resolver.handAll method values progress = some (more, last)) :
    resolver.Handles start (receipts ++ more) last := by
  induction values generalizing progress receipts more with
  | nil =>
    cases handed
    rwa [List.append_nil]
  | cons value rest ih =>
    unfold handAll at handed
    simp only [Option.bind_eq_bind, Option.bind_eq_some_iff] at handed
    rcases handed with ⟨_, found, ⟨_, descriptor, _⟩, rfl, ⟨accepted, later⟩, taken, handed⟩
    cases accepted with
    | false => cases handed
    | true =>
      rcases Option.bind_eq_some_iff.1 handed with ⟨⟨others, ended⟩, further, is⟩
      cases is
      have next := handles.accepted (Except.eq_ok_of_toOption found) (Except.eq_ok_of_toOption taken)
      rw [List.append_cons]
      exact ih next further

theorem Step.runs_of_handIn {α : Type} {resolver : Resolver} {method : Json}
    {values : List (Json × Number)} {step next last : Step α} {receipts more : List Receipt}
    (handed : step.handIn resolver method values = some (receipts, next))
    (runs : next.Runs resolver more last) : step.Runs resolver (receipts ++ more) last := by
  cases step with
  | done result progress => cases handed
  | wait request asked resume =>
    unfold handIn at handed
    simp only [Option.bind_eq_bind, Option.bind_eq_some_iff] at handed
    rcases handed with ⟨⟨_, later⟩, taken, answer, answered, is⟩
    cases is
    exact .resumes (Resolver.handles_of_handAll .nothing taken) answered runs

end DiceNotation
