import DiceNotation.Proofs.Fulfillment.Calls
import DiceNotation.Proofs.Fulfillment.Finality
import DiceNotation.Proofs.Fulfillment.Room

namespace DiceNotation

/-!
# Dice that keep to their number

A resolver asks for dice in advance, and the evaluation of their roll asks for those that
are missing then.  Both look only at the results that the dice have.  If dice are asked
for while results of theirs are outstanding, they may get more of them than their number
says.  If they are asked for only while nobody waits for any and no evaluation is under
way, they never do, whatever else happens, and they have exactly as many once they have
been evaluated.
-/

/-! ## Meanwhile -/

/-- What may happen at any time: a value is handed in, other dice are asked for, the
resolver is closed, or uniform values are taken. -/
inductive Resolver.Meanwhile (resolver : Resolver) (id : Identity) : Progress → Progress → Prop
  | register {progress later : Progress} {method denomination value : Json} {accepted : Bool}
    (handed : resolver.register method denomination value progress = .ok (accepted, later)) :
    Meanwhile resolver id progress later
  | addTerm {progress later : Progress} {other : Dice} {requests : List Request}
    (member : other ∈ resolver.roll.dice) (different : other.tag.id ≠ id)
    (asked : resolver.addTerm other progress = .ok (requests, later)) :
    Meanwhile resolver id progress later
  | close (progress : Progress) : Meanwhile resolver id progress (resolver.close progress)
  | draw (progress : Progress) (draws : Nat) :
    Meanwhile resolver id progress { progress with draws := draws }

/-- Everything that can be done with the roll of a resolver in an evaluation. -/
abbrev Resolver.ground (resolver : Resolver) : Scope :=
  resolver.roll.scope (fun _ => True) fun _ => False

/-- How the first pass goes on that waits for a request: it is not released, or it fails, or
nobody waits for results of certain dice. -/
def Progress.Passes (resolver : Resolver) (id : Identity) (request : Request)
    (progress : Progress) : Prop :=
  (progress.resolver resolver).firstPass = some request ∧ progress.answer? request = none ∨
    progress.answer? request = some .cancelled ∨ progress.Free id

/-- No evaluation is under way, and the load of dice is not above a number. -/
structure Progress.Rests (resolver : Resolver) (id : Identity) (n : Nat) (progress : Progress) :
    Prop where
  stands : Board.Stands resolver.ground ⟨[[]], progress⟩
  within : progress.Within resolver id n

theorem Resolver.same_addMany (resolver : Resolver) (dice : Dice) (method : Json) (count : Nat)
    (progress : Progress) :
    ((resolver.addMany dice method count progress).2.resolver resolver).firstPass =
        (progress.resolver resolver).firstPass ∧
      (resolver.addMany dice method count progress).2.answers = progress.answers := by
  induction count generalizing progress with
  | zero => exact ⟨rfl, rfl⟩
  | succ count ih =>
    let first := (resolver.add dice method false false false progress).2
    have kept : (first.resolver resolver).firstPass = (progress.resolver resolver).firstPass := by
      change (first.resolvers.get resolver.id).firstPass = _
      rw [Progress.resolvers_add, if_pos rfl]
      rfl
    exact ⟨(ih first).1.trans kept, (ih first).2⟩

namespace Resolver.Meanwhile

variable {resolver : Resolver} {id : Identity} {n : Nat} {progress later : Progress}
  (meanwhile : resolver.Meanwhile id progress later)
include meanwhile

theorem call : Progress.Call progress later := by
  cases meanwhile with
  | register handed => exact .register handed
  | addTerm member different asked => exact .addTerm asked
  | close => exact .close progress resolver
  | draw => exact .beside ⟨rfl, rfl, rfl, rfl⟩

theorem move (lanes : List (List Pending)) :
    Board.Move resolver.ground ⟨lanes, progress⟩ ⟨lanes, later⟩ := by
  have own : resolver.ground.resolver resolver := rfl
  cases meanwhile with
  | register handed => exact .register own handed lanes
  | addTerm member different asked => exact .addTerm own member asked lanes
  | close => exact .close own lanes progress
  | draw draws => exact .aside ⟨rfl, rfl, rfl, rfl, rfl⟩ (List.suffix_refl _)

theorem within (within : progress.Within resolver id n) : later.Within resolver id n := by
  cases meanwhile with
  | register handed => exact within.register handed
  | addTerm member different asked =>
    exact within.addTerm asked fun same => absurd same different
  | close => exact within.close
  | draw => exact within.of_same rfl rfl

theorem hasRoom {stack : List Pending} (has : (⟨stack, progress⟩ : Moment).HasRoom id n) :
    (⟨stack, later⟩ : Moment).HasRoom id n := by
  cases meanwhile with
  | register handed => exact has.register handed
  | addTerm member different asked => exact has.addTerm asked different
  | close => exact has.close
  | draw => exact has.fewer rfl fun _ _ member _ => member

theorem free (free : progress.Free id) : later.Free id := by
  have has : (⟨[], progress⟩ : Moment).HasRoom id _ := .of_free free (Nat.le_refl _)
  exact (meanwhile.hasRoom has).free fun _ member => absurd member List.not_mem_nil

theorem rests (sound : resolver.ground.IsSound) (rests : progress.Rests resolver id n) :
    later.Rests resolver id n :=
  ⟨(meanwhile.move [[]]).stands sound rests.stands, meanwhile.within rests.within⟩

omit meanwhile in
theorem serves {dice : Dice} (meanwhile : resolver.Meanwhile dice.tag.id progress later)
    (limits : resolver.ground.Limits dice n) {stack : List Pending}
    (serves : (⟨stack, progress⟩ : Moment).Serves resolver.ground dice.tag.id n) :
    (⟨stack, later⟩ : Moment).Serves resolver.ground dice.tag.id n :=
  ⟨(meanwhile.call.onward serves.tidy).tidy,
    (meanwhile.move [stack]).stands limits.sound serves.stands, meanwhile.hasRoom serves.hasRoom⟩

/-- A first pass is released when the resolver waits for nothing any more. -/
theorem passes {request : Request} (tidy : progress.Tidy)
    (within : progress.Within resolver id n) (passes : progress.Passes resolver id request) :
    later.Passes resolver id request := by
  have onward := meanwhile.call.onward tidy
  rcases passes with ⟨expected, unanswered⟩ | cancelled | free
  · have same (resolvers : later.resolver resolver = progress.resolver resolver)
        (answers : later.answer? request = progress.answer? request) :
        later.Passes resolver id request :=
      .inl ⟨resolvers ▸ expected, answers.trans unanswered⟩
    have after := meanwhile.within within
    cases meanwhile with
    | register handed =>
      rcases Resolver.register_eq_ok handed with
        ⟨_, number, front, descriptor, back, _, takes, rfl⟩ | ⟨_, rfl | ⟨level, text, rfl⟩⟩
      · have waited : descriptor ∈ (progress.resolvers.get resolver.id).outstanding :=
          takes.kept ▸ List.mem_append_right front List.mem_cons_self
        have apart := (tidy.firstPass resolver.id request expected).2 resolver.id descriptor waited
        by_cases none : front ++ back = []
        · exact .inr (.inr (after.free ((congrArg _ (resolver_deliver rfl)).trans none)))
        · have state : (resolver.deliver (front ++ back) descriptor number progress).resolver
              resolver = { progress.resolver resolver with outstanding := front ++ back } :=
            resolver_deliver rfl
          refine .inl ⟨(congrArg ResolverState.firstPass state).trans expected, ?_⟩
          rw [answer?_deliver, if_neg apart, if_neg fun released => none released.1]
          exact unanswered
      · exact same rfl rfl
      · exact same rfl rfl
    | @addTerm _ other requests member different asked =>
      rcases Progress.addTerm_eq_ok asked with ⟨method, count, _, rfl⟩
      rcases resolver.same_addMany other method count progress with ⟨kept, answers⟩
      refine .inl ⟨kept.trans expected, ?_⟩
      unfold Progress.answer? at unanswered ⊢
      rwa [answers]
    | close =>
      cases state : (progress.resolver resolver).closed with
      | true =>
        have still := Progress.close_of_closed state
        exact same (by rw [still]) (by rw [still])
      | false =>
        refine .inr (.inl ?_)
        rw [Progress.answer?_close state, if_pos]
        exact ⟨List.mem_append_right _ (Option.mem_toList.2 expected), unanswered⟩
    | draw => exact same rfl rfl
  · exact .inr (.inl (onward.answers _ _ cancelled))
  · exact .inr (.inr (meanwhile.free free))

end Resolver.Meanwhile

/-! ## One evaluation -/

/-- What is known while an evaluation waits for a request: the dice that are asked for in
advance are waited for, or something in the middle of which certain things are pending. -/
inductive Progress.Awaits (resolver : Resolver) (id : Identity) (n : Nat) (request : Request)
    (progress : Progress) : Option (List Pending) → Prop
  | passing (tidy : progress.Tidy) (rests : progress.Rests resolver id n)
    (passes : progress.Passes resolver id request) : Awaits resolver id n request progress none
  | rolling {below : List Pending}
    (serves : (⟨.request request :: below, progress⟩ : Moment).Serves resolver.ground id n) :
    Awaits resolver id n request progress (some below)

/-- Dice keep to their number wherever a run waits and where it is done, if this stays so
while it waits. -/
def Step.Measured {α : Type} (resolver : Resolver) (id : Identity) (n : Nat) : Step α → Prop
  | .done _ last => last.Tidy ∧ last.Rests resolver id n
  | .wait request asked resume => ∃ pending, asked.Awaits resolver id n request pending ∧
      ∀ answer later, later.Awaits resolver id n request pending →
        later.answer? request = some answer → (resume answer later).Measured resolver id n

namespace Progress.Awaits

variable {resolver : Resolver} {id : Identity} {n : Nat} {progress : Progress} {request : Request}
  {pending : Option (List Pending)} (awaits : progress.Awaits resolver id n request pending)
include awaits

theorem tidy : progress.Tidy := by
  cases awaits with
  | passing tidy => exact tidy
  | rolling serves => exact serves.tidy

theorem load_le : progress.load resolver id ≤ n := by
  cases awaits with
  | passing _ rests => exact rests.within.load
  | rolling serves => exact serves.hasRoom.load_le serves.tidy resolver

theorem filled : progress.ledger.Filled resolver.ground := by
  cases awaits with
  | passing _ rests => exact rests.stands.filled
  | rolling serves => exact serves.stands.filled

end Progress.Awaits

section

variable {resolver : Resolver} {dice : Dice} {n : Nat} (limits : resolver.ground.Limits dice n)
  {progress later : Progress} {request : Request}

include limits in
theorem Progress.Awaits.meanwhile {pending : Option (List Pending)}
    (awaits : progress.Awaits resolver dice.tag.id n request pending)
    (meanwhile : resolver.Meanwhile dice.tag.id progress later) :
    later.Awaits resolver dice.tag.id n request pending := by
  cases awaits with
  | passing tidy rests passes =>
    exact .passing (meanwhile.call.onward tidy).tidy (meanwhile.rests limits.sound rests)
      (meanwhile.passes tidy rests.within passes)
  | rolling serves => exact .rolling (meanwhile.serves limits serves)

namespace Step

variable {α β : Type}

include limits in
/-- A run that waits does not notice what happens meanwhile. -/
theorem Measured.meanwhile {resume : Answer → Progress → Step α}
    (measured : (wait request progress resume).Measured resolver dice.tag.id n)
    (meanwhile : resolver.Meanwhile dice.tag.id progress later) :
    (wait request later resume).Measured resolver dice.tag.id n := by
  rcases measured with ⟨pending, awaits, resumes⟩
  exact ⟨pending, awaits.meanwhile limits meanwhile, resumes⟩

include limits in
/-- When all that was begun is over, nothing of the dice is waited for. -/
theorem rests_of_above {stack : List Pending}
    (serves : (⟨stack, progress⟩ : Moment).Serves resolver.ground dice.tag.id n)
    (above : Above [] stack) : progress.Rests resolver dice.tag.id n := by
  rcases above with ⟨upper, idle, rfl⟩
  have idle : ∀ pending ∈ upper ++ [], pending.isRequest = false := by
    rwa [List.append_nil]
  have falls : Board.Move resolver.ground ⟨[] ++ (upper ++ []) :: [], progress⟩
      ⟨[] ++ [] :: [], progress⟩ := .drop [] [] _ progress
  exact ⟨falls.stands limits.sound serves.stands,
    (serves.hasRoom.free idle).within serves.hasRoom.length_le⟩

include limits in
/-- An evaluation leaves the dice to their number wherever it begins with nothing of them
waited for. -/
theorem measured_of_acts {step : Step α} {next : Except Fault α → Progress → Step β}
    {moment : Moment} (acts : step.Acts resolver.ground.alone (Stays []) moment)
    (serves : moment.Serves resolver.ground dice.tag.id n)
    (more : ∀ result last, last.Tidy → last.Rests resolver dice.tag.id n →
      (next result last).Measured resolver dice.tag.id n) :
    (step.andThen next).Measured resolver dice.tag.id n := by
  induction step generalizing moment with
  | done result last =>
    rcases acts with ⟨stack, leads, ended⟩
    have there := leads.serves limits serves
    have above : Above [] stack := by
      cases result with
      | error fault => exact ended
      | ok a => exact ended.1 ▸ .refl []
    exact more result last there.tidy (rests_of_above limits there above)
  | wait request asked resume ih =>
    rcases acts with ⟨below, leads, resumes⟩
    refine ⟨some below, .rolling (leads.serves limits serves), ?_⟩
    rintro answer later (_ | ⟨there⟩) answered
    have goes : Board.Move resolver.ground ⟨[] ++ (.request request :: below) :: [], later⟩
        ⟨[] ++ below :: [], later⟩ := .resume answered [] [] below
    exact ih answer later (resumes answer later) ⟨there.tidy, goes.stands limits.sound there.stands,
      there.hasRoom.resume rfl there.tidy answered⟩

end Step

/-! ### The first pass -/

namespace Resolver

include limits in
/-- To ask in advance for the dice of a roll leaves the dice to their number, if nothing of
them is waited for. -/
theorem rests_addAll (tidy : progress.Tidy) (rests : progress.Rests resolver dice.tag.id n)
    (free : progress.Free dice.tag.id) (distinct : (resolver.roll.dice.map (·.tag.id)).Nodup)
    (methods : MethodTable) :
    (resolver.addAll methods resolver.roll.dice progress).2.Tidy ∧
      (resolver.addAll methods resolver.roll.dice progress).2.Rests resolver dice.tag.id n := by
  have own : resolver.ground.resolver resolver := rfl
  have leads : Leads resolver.ground ⟨[], progress⟩
      ⟨[], (resolver.addAll methods resolver.roll.dice progress).2⟩ :=
    resolver.leads_addAll own methods (List.Subset.refl _) progress
  have numbered : ∀ other ∈ resolver.roll.dice, other.tag.id = dice.tag.id →
      other.number = .known n := by
    intro other member same
    obtain rfl : other = dice := Term.dice.inj
      (limits.sound.once (.dice other) (.dice dice) (RollOf.mem_scope member) limits.known same)
    exact limits.numbered
  exact ⟨(Progress.Forward.addAll tidy resolver methods resolver.roll.dice).tidy,
    Board.Moves.stands limits.sound (Board.Moves.of_leads leads [] []) rests.stands,
    rests.within.addAll methods numbered distinct fun _ => free⟩

include limits in
/-- The first pass leaves the dice to their number wherever it begins with nothing of them
waited for.  When it ends well at once, nothing of them is waited for then either. -/
theorem step_firstPass (tidy : progress.Tidy) (rests : progress.Rests resolver dice.tag.id n)
    (free : progress.Free dice.tag.id) (distinct : (resolver.roll.dice.map (·.tag.id)).Nodup)
    (methods : MethodTable) :
    (∃ result last, resolver.firstPass methods progress = .done result last ∧ last.Tidy ∧
      last.Rests resolver dice.tag.id n ∧ (result = .ok () → last.Free dice.tag.id)) ∨
    ∃ request asked, resolver.firstPass methods progress =
        .wait request asked (fun answer resumed => .done (passResult answer) resumed) ∧
      asked.Awaits resolver dice.tag.id n request none := by
  have own : resolver.ground.resolver resolver := rfl
  have added := rests_addAll limits tidy rests free distinct methods
  have passes := resolver.passes_firstPass methods progress
  generalize resolver.firstPass methods progress = step at passes
  cases passes with
  | closed => exact .inl ⟨_, _, rfl, tidy, rests, nofun⟩
  | failed _ asked =>
    rw [asked] at added
    exact .inl ⟨_, _, rfl, added.1, added.2, nofun⟩
  | @ended between _ asked empty =>
    rw [asked] at added
    have act : Board.Move resolver.ground ⟨[] ++ [] :: [], between⟩
        ⟨[] ++ [] :: [], (resolver.checkDone between).2⟩ := .act (.release own between)
    have within := added.2.within.checkDone
    refine .inl ⟨_, _, rfl, (Progress.Forward.checkDone added.1 resolver).tidy,
      ⟨act.stands limits.sound added.2.stands, within⟩, fun _ => within.free ?_⟩
    change ((resolver.checkDone between).2.resolvers.get resolver.id).outstanding = []
    rw [resolver.resolvers_checkDone]
    exact empty
  | @waiting between _ asked filled =>
    rw [asked] at added
    have act : Board.Move resolver.ground ⟨[] ++ [] :: [], between⟩
        ⟨[] ++ [.request between.requests] :: [], resolver.expecting between⟩ :=
      .act (.expect own filled)
    have falls : Board.Move resolver.ground
        ⟨[] ++ [.request between.requests] :: [], resolver.expecting between⟩
        ⟨[] ++ [] :: [], resolver.expecting between⟩ := .drop [] [] _ _
    have waits : (resolver.expecting between).Passes resolver dice.tag.id between.requests :=
      .inl ⟨congrArg ResolverState.firstPass (Progress.resolver_updateResolver _ _ _),
        added.1.unasked _ (Nat.le_refl _)⟩
    exact .inr ⟨_, _, rfl, .passing (Progress.Forward.expect added.1 resolver).tidy
      ⟨falls.stands limits.sound (act.stands limits.sound added.2.stands),
        added.2.within.expecting⟩ waits⟩

include limits in
/-- When the first pass ends well after it has waited, nothing of the dice is waited for. -/
theorem measured_firstPass {β : Type} (tidy : progress.Tidy)
    (rests : progress.Rests resolver dice.tag.id n) (free : progress.Free dice.tag.id)
    (distinct : (resolver.roll.dice.map (·.tag.id)).Nodup) (methods : MethodTable)
    {next : Except Fault Unit → Progress → Step β}
    (more : ∀ result last, last.Tidy → last.Rests resolver dice.tag.id n →
      (result = .ok () → last.Free dice.tag.id) →
      (next result last).Measured resolver dice.tag.id n) :
    ((resolver.firstPass methods progress).andThen next).Measured resolver dice.tag.id n := by
  rcases step_firstPass limits tidy rests free distinct methods with
    ⟨result, last, ends, tidy, rests, free⟩ | ⟨request, asked, waits, awaits⟩
  · rw [ends]
    exact more result last tidy rests free
  · rw [waits]
    refine ⟨none, awaits, fun answer later awaits answered => ?_⟩
    rcases awaits with ⟨tidy, rests, ⟨_, unanswered⟩ | cancelled | free⟩ | _
    · cases answered.symm.trans unanswered
    · obtain rfl : answer = .cancelled := Option.some.inj (answered.symm.trans cancelled)
      exact more _ _ tidy rests nofun
    · exact more _ _ tidy rests fun _ => free

end Resolver

/-! ### Evaluations -/

namespace RollOf

include limits in
/-- The evaluation of a roll leaves the dice to their number wherever it begins with nothing
of them waited for. -/
theorem measured_evaluate {β : Type} (tidy : progress.Tidy)
    (rests : progress.Rests resolver dice.tag.id n) (free : progress.Free dice.tag.id)
    (distinct : (resolver.roll.dice.map (·.tag.id)).Nodup) (options : Options)
    {surroundings : Surroundings}
    (own : ∀ other, surroundings.resolver = some other → other = resolver)
    {next : Except Fault Unit → Progress → Step β}
    (more : ∀ result last, last.Tidy → last.Rests resolver dice.tag.id n →
      (next result last).Measured resolver dice.tag.id n) :
    ((resolver.roll.evaluate options surroundings progress).andThen next).Measured resolver
      dice.tag.id n := by
  have rolls (context : Context) {start : Progress} {after : Except Fault Unit → Progress → Step β}
      (tidy : start.Tidy) (rests : start.Rests resolver dice.tag.id n)
      (free : start.Free dice.tag.id)
      (more : ∀ result last, last.Tidy → last.Rests resolver dice.tag.id n →
        (after result last).Measured resolver dice.tag.id n) :
      ((context.evaluateRoll resolver.roll start).andThen after).Measured resolver dice.tag.id
        n := by
    have acts : (context.evaluateRoll resolver.roll).Acts resolver.ground.alone [] (Stays []) :=
      Context.acts_evaluateRoll trivial trivial
        (Term.rowThroughout_of_partsFrom fun _ member => member)
    exact Step.measured_of_acts limits (acts start)
      ⟨tidy, rests.stands, .of_free free rests.within.length_le⟩ more
  by_cases untouched : (progress.ledger.roll resolver.roll.id).phase = .unevaluated
  · rw [evaluate_of_unevaluated options surroundings untouched]
    cases options.forRoll surroundings with
    | error fault => exact more _ _ tidy rests
    | ok context =>
      change ((resolver.roll.evaluateWith surroundings context progress).andThen next).Measured
        resolver dice.tag.id n
      unfold evaluateWith
      cases given : surroundings.resolver with
      | none => exact rolls context tidy rests free more
      | some other =>
        cases own other given
        have ended (result : Except Fault Unit) (last : Progress) (tidy : last.Tidy)
            (rests : last.Rests resolver dice.tag.id n) :
            (next result (resolver.close last)).Measured resolver dice.tag.id n :=
          more _ _ (tidy.close resolver)
            (Resolver.Meanwhile.rests (.close last) limits.sound rests)
        change ((((resolver.firstPass context.methods progress).andThen _).andThen _).andThen
          _).Measured resolver dice.tag.id n
        rw [Step.andThen_assoc, Step.andThen_assoc]
        refine Resolver.measured_firstPass limits tidy rests free distinct context.methods
          fun result last tidy rests free => ?_
        cases result with
        | error fault => exact ended _ last tidy rests
        | ok done => exact rolls context tidy rests (free rfl) ended
  · rw [evaluate_of_begun options surroundings untouched]
    exact more _ _ tidy rests

end RollOf

end

end DiceNotation
