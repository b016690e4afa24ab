import Mathlib.Logic.Relation
import DiceNotation.Fulfillment.Schedule
import DiceNotation.Proofs.Evaluation.Handling
import DiceNotation.Proofs.Fulfillment.Ranged

namespace DiceNotation

/-!
# Schedules of a roll

A roll is evaluated with a resolver in several tasks that wait for the outside, while
values are handed in and more dice are asked for.  Most tasks that wait have begun
nothing yet.  At most one of them is in the middle of the evaluation of the roll, and
what it has evaluated the others leave alone.  So whatever is started, handed in or
woken, it stays known of all outstanding dice which values they can show.
-/

/-! ## Runs that arrive somewhere -/

namespace Step

variable {α β : Type} {roll : Roll} {progress later : Progress}

/-- A run in the middle of an evaluation asks only for ranged dice, if others leave alone
what was begun. -/
def Proceeds (start : Progress) : Step α → Prop
  | .done _ last => last.Ranged
  | .wait _ asked resume => asked.Ranged ∧ start.ledger.Firm asked.ledger ∧
      ∀ answer later, asked.ledger.Firm later.ledger → later.Ranged →
        (resume answer later).Proceeds start

/-- A run is done and leaves alone what was begun before it, or it has begun to evaluate
the roll itself, or it waits and will arrive in the same way. -/
inductive Arrives (roll : Roll) : Progress → Step α → Prop
  | done {progress last : Progress} (result : Except Fault α) (ranged : last.Ranged)
    (firm : progress.ledger.Firm last.ledger) : Arrives roll progress (.done result last)
  | begins {progress start : Progress} {step : Step α}
    (untouched : (progress.ledger.roll roll.id).phase = .unevaluated)
    (begun : (start.ledger.roll roll.id).phase ≠ .unevaluated) (proceeds : step.Proceeds start) :
    Arrives roll progress step
  | waits {progress asked : Progress} {request : Request} {resume : Answer → Progress → Step α}
    (ranged : asked.Ranged) (firm : progress.ledger.Firm asked.ledger)
    (resumes : ∀ answer later, later.Ranged → Arrives roll later (resume answer later)) :
    Arrives roll progress (.wait request asked resume)

theorem Proceeds.andThen {start : Progress} {step : Step α} (proceeds : step.Proceeds start)
    {next : Except Fault α → Progress → Step β}
    (more : ∀ result last, last.Ranged → ∃ given final, next result last = .done given final ∧
      final.Ranged) : (step.andThen next).Proceeds start := by
  induction step with
  | done result last =>
    rcases more result last proceeds with ⟨given, final, ends, ranged⟩
    rw [andThen_done, ends]
    exact ranged
  | wait request asked resume ih =>
    refine ⟨proceeds.1, proceeds.2.1, fun answer later firm ranged => ?_⟩
    exact ih answer later (proceeds.2.2 answer later firm ranged)

theorem Arrives.andThen {step : Step α} (arrives : step.Arrives roll progress)
    {next : Except Fault α → Progress → Step β}
    (more : ∀ result last, last.Ranged → ∃ given final, next result last = .done given final ∧
      final.Ranged ∧ last.ledger.Firm final.ledger) :
    (step.andThen next).Arrives roll progress := by
  induction arrives with
  | done result ranged firm =>
    rcases more result _ ranged with ⟨given, final, ends, rangedToo, firmToo⟩
    rw [andThen_done, ends]
    exact .done given rangedToo (firm.trans firmToo)
  | begins untouched begun proceeds =>
    refine .begins untouched begun (proceeds.andThen fun result last ranged => ?_)
    rcases more result last ranged with ⟨given, final, ends, rangedToo, _⟩
    exact ⟨given, final, ends, rangedToo⟩
  | waits ranged firm _ ih => exact .waits ranged firm ih

/-- A run may be counted from an earlier start. -/
theorem Arrives.from {step : Step α} (arrives : step.Arrives roll later)
    (firm : progress.ledger.Firm later.ledger) : step.Arrives roll progress := by
  cases arrives with
  | done result ranged since => exact .done result ranged (firm.trans since)
  | begins untouched begun proceeds =>
    refine .begins ?_ begun proceeds
    by_contra already
    rw [firm.roll roll.id already] at untouched
    exact already untouched
  | waits ranged since resumes => exact .waits ranged (firm.trans since) resumes

/-- A run that keeps to the rule of what is asked for is in the middle of an evaluation,
and so is one that does something more at its end. -/
theorem Keeps.proceeds {start : Progress} {step : Step α}
    (keeps : step.Keeps (FrameRule.asking fun _ => False) start) (ranged : start.Ranged)
    {next : Except Fault α → Progress → Step β}
    (more : ∀ result last, start.ledger.Firm last.ledger → last.Ranged →
      ∃ given final, next result last = .done given final ∧ final.Ranged) :
    (step.andThen next).Proceeds start := by
  have none : ∀ dice : Dice, False → dice.IsRanged start.ledger := fun _ none => none.elim
  induction step with
  | done result last =>
    rcases more result last keeps.firm (keeps.ranged ranged none) with ⟨given, final, ends, final_⟩
    rw [andThen_done, ends]
    exact final_
  | wait request asked resume ih =>
    refine ⟨keeps.1.ranged ranged none, keeps.1.firm, fun answer later firm rangedToo => ?_⟩
    exact ih answer later (keeps.2 answer later ⟨firm, rangedToo⟩)

end Step

/-! ## The evaluation of a roll -/

namespace RollOf

open Evaluation

/-- Whether all dice of a roll are sound. -/
def HasSoundDice (roll : Roll) : Prop :=
  RowThroughout Context.SoundDice (fun _ => True) roll.terms

variable {roll : Roll} (sound : roll.HasSoundDice) {progress : Progress} (ranged : progress.Ranged)
include sound ranged

theorem arrives_evaluateRoll (context : Context) :
    (context.evaluateRoll roll progress).Arrives roll progress := by
  by_cases untouched : (progress.ledger.roll roll.id).phase = .unevaluated
  · let start := progress.starting roll
    have firm : progress.ledger.Firm start.ledger := .updateRoll untouched _
    have ready : start.Ranged := ranged.of_beside ⟨rfl, rfl, rfl, rfl⟩ firm.lasts
    have begun : (start.ledger.roll roll.id).phase = .evaluating :=
      progress.rollPhase_starting roll
    refine .begins untouched (by rw [begun]; decide) ?_
    have keeps := Context.keeps_evaluateTerms context.follows_asking roll.terms sound start
    rw [Context.evaluateRoll, ofRoll_of_unevaluated untouched]
    refine keeps.proceeds ready fun result last since rangedToo => ?_
    cases result with
    | error fault => exact ⟨_, _, rfl, rangedToo⟩
    | ok done =>
      change ∃ given final, sumUp roll last = .done given final ∧ final.Ranged
      unfold sumUp
      split
      · have unfinished : (last.ledger.roll roll.id).phase ≠ .evaluated := by
          rw [since.roll roll.id (by rw [begun]; decide), begun]
          decide
        exact ⟨_, _, rfl, rangedToo.of_beside ⟨rfl, rfl, rfl, rfl⟩ (.updateRoll unfinished _)⟩
      · exact ⟨_, _, rfl, rangedToo⟩
  · rw [evaluateRoll_of_begun context untouched]
    exact .done _ ranged (.refl _)

/-- The first pass of a resolver of the roll, and the evaluation after it. -/
theorem arrives_firstPass {α : Type} {resolver : Resolver} (own : resolver.roll = roll)
    (methods : MethodTable) {next : Evaluation α}
    (more : ∀ later : Progress, later.Ranged → (next later).Arrives roll later) :
    ((resolver.firstPass methods >>= fun _ => next) progress).Arrives roll progress := by
  have dice : ∀ d ∈ resolver.roll.dice, d.IsSound := by
    rw [own]
    exact fun d member => RowThroughout.diceFrom sound d member d rfl
  have asked := ranged.addAll resolver methods dice
  have same := resolver.ledger_addAll methods resolver.roll.dice progress
  have passes := resolver.passes_firstPass methods progress
  change ((resolver.firstPass methods progress).andThen _).Arrives _ _
  generalize resolver.firstPass methods progress = step at passes
  cases passes with
  | closed => exact .done _ ranged (.refl _)
  | failed _ all =>
    rw [all] at asked same
    exact .done _ asked (same ▸ .refl _)
  | ended _ all =>
    rw [all] at asked same
    refine (more _ (asked.checkDone resolver)).from ?_
    rw [resolver.ledger_checkDone, same]
    exact .refl _
  | @waiting later _ all =>
    rw [all] at asked same
    have firm : progress.ledger.Firm (resolver.expecting later).ledger := by
      change progress.ledger.Firm later.ledger
      rw [same]
      exact .refl _
    refine .waits (asked.expecting resolver) firm fun answer resumed rangedToo => ?_
    cases answer with
    | cancelled => exact .done _ rangedToo (.refl _)
    | delivered value => exact more resumed rangedToo
    | released => exact more resumed rangedToo

theorem arrives_evaluate (options : Options) {surroundings : Surroundings}
    (own : ∀ resolver, surroundings.resolver = some resolver → resolver.roll = roll) :
    (roll.evaluate options surroundings progress).Arrives roll progress := by
  by_cases untouched : (progress.ledger.roll roll.id).phase = .unevaluated
  · rw [evaluate_of_unevaluated options surroundings untouched]
    cases options.forRoll surroundings with
    | error fault => exact .done _ ranged (.refl _)
    | ok context =>
      change (evaluateWith surroundings roll context progress).Arrives _ _
      unfold evaluateWith
      cases given : surroundings.resolver with
      | none => exact arrives_evaluateRoll sound ranged context
      | some resolver =>
        refine (arrives_firstPass sound ranged (own resolver given) context.methods ?_).andThen ?_
        · exact fun later rangedToo => arrives_evaluateRoll sound rangedToo context
        · intro result last rangedToo
          refine ⟨_, _, rfl, rangedToo.close resolver, ?_⟩
          rw [resolver.ledger_close]
          exact .refl _
  · rw [evaluate_of_begun options surroundings untouched]
    exact .done _ ranged (.refl _)

end RollOf

/-! ## Tasks -/

namespace Task

variable {roll : Roll} {progress later : Progress} {task : Task}

/-- A task that waits has begun nothing. -/
def Idles (roll : Roll) (task : Task) : Prop :=
  ∀ request resume, task.status = .waiting request resume →
    ∀ answer later, later.Ranged → (resume answer later).Arrives roll later

/-- A task waits in the middle of the evaluation of the roll, and what it has begun was
left alone. -/
def Owns (roll : Roll) (progress : Progress) (task : Task) : Prop :=
  ∃ (start asked : Progress) (request : Request) (resume : Answer → Progress → Step Json),
    task.status = .waiting request resume ∧ (start.ledger.roll roll.id).phase ≠ .unevaluated ∧
    start.ledger.Firm asked.ledger ∧ asked.ledger.Firm progress.ledger ∧
    ∀ answer later, asked.ledger.Firm later.ledger → later.Ranged →
      (resume answer later).Proceeds start

theorem Owns.of_firm (owns : task.Owns roll progress)
    (firm : progress.ledger.Firm later.ledger) : task.Owns roll later := by
  rcases owns with ⟨start, asked, request, resume, waits, begun, since, kept, resumes⟩
  exact ⟨start, asked, request, resume, waits, begun, since, kept.trans firm, resumes⟩

/-- If a task is in the middle of the evaluation of the roll, this has begun. -/
theorem Owns.begun (owns : task.Owns roll progress) :
    (progress.ledger.roll roll.id).phase ≠ .unevaluated := by
  rcases owns with ⟨start, asked, _, _, _, begun, since, kept, _⟩
  rw [(since.trans kept).roll roll.id begun]
  exact begun

theorem idles_of_finished {kind : TaskKind} {draws : Nat} {result : Except Fault Json} :
    Idles roll ⟨kind, draws, .finished result⟩ := fun _ _ waits => by cases waits

/-- A run in the middle of the evaluation gives a task that is done, or that is still in
the middle of it. -/
theorem of_proceeds {start : Progress} {step : Step Json} (proceeds : step.Proceeds start)
    (begun : (start.ledger.roll roll.id).phase ≠ .unevaluated) (kind : TaskKind) :
    (ofStep kind step).2.Ranged ∧
      ((ofStep kind step).1.Idles roll ∨ (ofStep kind step).1.Owns roll (ofStep kind step).2) := by
  cases step with
  | done result last => exact ⟨proceeds, .inl idles_of_finished⟩
  | wait request asked resume =>
    exact ⟨proceeds.1, .inr ⟨start, asked, request, resume, rfl, begun, proceeds.2.1, .refl _,
      proceeds.2.2⟩⟩

/-- A run that arrives gives a task that has begun nothing and leaves alone what was
begun, or one that has begun to evaluate the roll. -/
theorem of_arrives {step : Step Json} (arrives : step.Arrives roll progress) (kind : TaskKind) :
    (ofStep kind step).2.Ranged ∧
      ((ofStep kind step).1.Idles roll ∧ progress.ledger.Firm (ofStep kind step).2.ledger ∨
        (progress.ledger.roll roll.id).phase = .unevaluated ∧
          ((ofStep kind step).1.Idles roll ∨
            (ofStep kind step).1.Owns roll (ofStep kind step).2)) := by
  cases arrives with
  | done result ranged firm => exact ⟨ranged, .inl ⟨idles_of_finished, firm⟩⟩
  | begins untouched begun proceeds =>
    rcases of_proceeds proceeds begun kind with ⟨ranged, stands⟩
    exact ⟨ranged, .inr ⟨untouched, stands⟩⟩
  | waits ranged firm resumes =>
    refine ⟨ranged, .inl ⟨?_, firm⟩⟩
    intro request resume waits
    cases waits
    exact resumes

end Task

/-! ## Schedules -/

namespace Schedule

variable {roll : Roll}

/-- Tasks that wait have begun nothing, or are in the middle of the evaluation of the
roll, which is true of one at most. -/
structure Shared (roll : Roll) (progress : Progress) (tasks : List Task) : Prop where
  each : ∀ task ∈ tasks, task.Idles roll ∨ task.Owns roll progress
  once : tasks.Pairwise fun task other => task.Idles roll ∨ other.Idles roll

namespace Shared

variable {progress last : Progress} {tasks front back : List Task} {task : Task}

theorem of_firm (shared : Shared roll progress tasks) (firm : progress.ledger.Firm last.ledger) :
    Shared roll last tasks :=
  ⟨fun task member => (shared.each task member).imp_right (·.of_firm firm), shared.once⟩

/-- As long as the roll is not evaluated, nobody is in the middle of it. -/
theorem idles (shared : Shared roll progress tasks)
    (untouched : (progress.ledger.roll roll.id).phase = .unevaluated) :
    ∀ task ∈ tasks, task.Idles roll :=
  fun task member => (shared.each task member).resolve_right fun owns => owns.begun untouched

theorem perm_middle (shared : Shared roll progress (task :: (front ++ back))) :
    Shared roll progress (front ++ task :: back) where
  each other member := shared.each other (List.perm_middle.mem_iff.1 member)
  once := (List.Perm.pairwise_iff Or.symm List.perm_middle).2 shared.once

theorem perm_last (shared : Shared roll progress (task :: front)) :
    Shared roll progress (front ++ [task]) :=
  perm_middle (by rwa [List.append_nil])

theorem perm_cons (shared : Shared roll progress (front ++ task :: back)) :
    Shared roll progress (task :: (front ++ back)) where
  each other member := shared.each other (List.perm_middle.mem_iff.2 member)
  once := (List.Perm.pairwise_iff Or.symm List.perm_middle).1 shared.once

/-- Any task may stand among others that have begun nothing. -/
theorem of_idles (idles : ∀ other ∈ tasks, other.Idles roll)
    (stands : task.Idles roll ∨ task.Owns roll progress) : Shared roll progress (task :: tasks) where
  each := List.forall_mem_cons.2 ⟨stands, fun other member => .inl (idles other member)⟩
  once := List.pairwise_cons.2 ⟨fun other member => .inr (idles other member),
    List.pairwise_of_forall_mem_list fun other member _ _ => .inl (idles other member)⟩

/-- A task that arrives may stand among others. -/
theorem arrive (shared : Shared roll progress tasks)
    (stands : task.Idles roll ∧ progress.ledger.Firm last.ledger ∨
      (progress.ledger.roll roll.id).phase = .unevaluated ∧
        (task.Idles roll ∨ task.Owns roll last)) :
    Shared roll last (task :: tasks) := by
  rcases stands with ⟨idle, firm⟩ | ⟨untouched, stands⟩
  · have others := shared.of_firm firm
    exact ⟨List.forall_mem_cons.2 ⟨.inl idle, others.each⟩,
      List.pairwise_cons.2 ⟨fun _ _ => .inl idle, others.once⟩⟩
  · exact of_idles (shared.idles untouched) stands

end Shared

/-- It is known of all dice that are outstanding which values they can show, and at most
one task is in the middle of the evaluation of the roll. -/
structure Orderly (roll : Roll) (schedule : Schedule) : Prop where
  ranged : schedule.progress.Ranged
  shared : Shared roll schedule.progress schedule.tasks

/-- Nobody is woken, or the first task that waits for the request. -/
theorem wakeFirst_cases (request : Request) (answer : Answer) (progress : Progress)
    (tasks : List Task) :
    wakeFirst request answer progress tasks = (tasks, progress) ∨
    ∃ front task back resume, tasks = front ++ task :: back ∧
      task.status = .waiting request resume ∧
      wakeFirst request answer progress tasks =
        (front ++ (Task.ofStep task.kind (resume answer { progress with draws := task.draws })).1 ::
            back,
          (Task.ofStep task.kind (resume answer { progress with draws := task.draws })).2) := by
  induction tasks with
  | nil => exact .inl rfl
  | cons task rest ih =>
    unfold wakeFirst
    by_cases awaits : task.awaits request = true
    · rw [if_pos awaits]
      right
      unfold Task.awaits at awaits
      split at awaits
      · rename_i other resume waits
        cases beq_iff_eq.1 awaits
        refine ⟨[], task, rest, resume, rfl, waits, ?_⟩
        unfold Task.wake
        rw [waits]
        rfl
      · cases awaits
    · rw [if_neg awaits]
      rcases ih with same | ⟨front, woken, back, resume, is, waits, later⟩
      · rw [same]
        exact .inl rfl
      · rw [later, is]
        exact .inr ⟨task :: front, woken, back, resume, rfl, waits, rfl⟩

namespace Orderly

variable {schedule : Schedule} {progress : Progress}

theorem ofLedger (roll : Roll) (ledger : Ledger) :
    Orderly roll (.ofProgress (.ofLedger ledger)) where
  ranged := Progress.Ranged.ofLedger ledger
  shared := ⟨fun _ member => (List.not_mem_nil member).elim, List.Pairwise.nil⟩

/-- What nobody was waiting for may happen as long as what was begun is left alone. -/
theorem of_firm (orderly : schedule.Orderly roll) (ranged : progress.Ranged)
    (firm : schedule.progress.ledger.Firm progress.ledger) :
    Orderly roll { schedule with progress := progress } :=
  ⟨ranged, orderly.shared.of_firm firm⟩

theorem start (orderly : schedule.Orderly roll) (kind : TaskKind) {evaluation : Evaluation Json}
    (arrives : ∀ start : Progress, start.Ranged → (evaluation start).Arrives roll start) :
    (schedule.start kind evaluation).Orderly roll := by
  let start : Progress := { schedule.progress with draws := 0 }
  have ranged : start.Ranged := orderly.ranged.of_beside ⟨rfl, rfl, rfl, rfl⟩
    (Ledger.Firm.refl _).lasts
  rcases Task.of_arrives (arrives start ranged) kind with ⟨rangedToo, stands⟩
  exact ⟨rangedToo, (orderly.shared.arrive stands).perm_last⟩

theorem wake (orderly : schedule.Orderly roll) (request : Request) (answer : Answer) :
    Orderly roll ⟨(wakeFirst request answer schedule.progress schedule.tasks).1,
      (wakeFirst request answer schedule.progress schedule.tasks).2⟩ := by
  rcases wakeFirst_cases request answer schedule.progress schedule.tasks with
    same | ⟨front, task, back, resume, is, waits, woken⟩
  · rw [same]
    exact orderly
  · have shared := orderly.shared
    rw [is] at shared
    have others := shared.perm_cons
    let between : Progress := { schedule.progress with draws := task.draws }
    have ranged : between.Ranged :=
      orderly.ranged.of_beside ⟨rfl, rfl, rfl, rfl⟩ (Ledger.Firm.refl _).lasts
    rw [woken]
    by_cases idle : task.Idles roll
    · rcases Task.of_arrives (idle request resume waits answer between ranged) task.kind with
        ⟨rangedToo, stands⟩
      have rest : Shared roll schedule.progress (front ++ back) :=
        ⟨(List.forall_mem_cons.1 others.each).2, (List.pairwise_cons.1 others.once).2⟩
      exact ⟨rangedToo, (rest.arrive stands).perm_middle⟩
    · -- the task was in the middle of the evaluation, so that all others have begun nothing
      rcases ((List.forall_mem_cons.1 others.each).1).resolve_left idle with
        ⟨start, asked, _, _, same, begun, _, kept, resumes⟩
      cases same.symm.trans waits
      rcases Task.of_proceeds (resumes answer between kept ranged) begun task.kind with
        ⟨rangedToo, stands⟩
      have rest : ∀ other ∈ front ++ back, other.Idles roll := fun other member =>
        ((List.pairwise_cons.1 others.once).1 other member).resolve_left idle
      exact ⟨rangedToo, (Shared.of_idles rest stands).perm_middle⟩

theorem gather (orderly : schedule.Orderly roll) (kind : TaskKind) (requests : List Request) :
    (schedule.gather kind requests).Orderly roll := by
  refine ⟨orderly.ranged, (orderly.shared.arrive (.inl ⟨?_, .refl _⟩)).perm_last⟩
  intro _ _ waits
  cases waits

end Orderly

/-! ## What happens to a schedule -/

/-- What can happen next to a schedule of a roll with a resolver: an evaluation of the
roll or a first pass is started, more dice are asked for whose faces are known, a value
is handed in, the resolver is closed, or a task goes on whose request was answered. -/
inductive Next (resolver : Resolver) : Schedule → Schedule → Prop
  | evaluate (schedule : Schedule) (options : Options) (surroundings : Surroundings)
    (own : ∀ other, surroundings.resolver = some other → other = resolver) :
    Next resolver schedule (schedule.evaluate options surroundings resolver.roll)
  | firstPass (schedule : Schedule) (methods : MethodTable) :
    Next resolver schedule (schedule.firstPass resolver methods)
  | addTerm {schedule later : Schedule} {dice : Dice} (member : dice ∈ resolver.roll.dice)
    {faces : Int} (known : schedule.progress.ledger.amount dice.faces = .ok (.ofInt faces))
    (asked : schedule.addTerm resolver dice = .ok later) : Next resolver schedule later
  | register {schedule : Schedule} {later : Progress} {method denomination value : Json}
    {accepted : Bool}
    (handed : resolver.register method denomination value schedule.progress =
      .ok (accepted, later)) : Next resolver schedule { schedule with progress := later }
  | close (schedule : Schedule) :
    Next resolver schedule { schedule with progress := resolver.close schedule.progress }
  | wake {schedule : Schedule} {request : Request} {answer : Answer}
    (answered : schedule.progress.answer? request = some answer) :
    Next resolver schedule ⟨(wakeFirst request answer schedule.progress schedule.tasks).1,
      (wakeFirst request answer schedule.progress schedule.tasks).2⟩

/-- What a schedule can come to. -/
abbrev Reaches (resolver : Resolver) : Schedule → Schedule → Prop :=
  Relation.ReflTransGen (Next resolver)

theorem Next.orderly {resolver : Resolver} (sound : resolver.roll.HasSoundDice)
    {schedule later : Schedule} (next : Next resolver schedule later)
    (orderly : schedule.Orderly resolver.roll) : later.Orderly resolver.roll := by
  cases next with
  | evaluate options surroundings own =>
    refine orderly.start .evaluation fun start ranged => ?_
    have arrives := RollOf.arrives_evaluate sound ranged options
      fun other given => congrArg Resolver.roll (own other given)
    refine arrives.andThen fun result last rangedToo => ?_
    cases result with
    | error fault => exact ⟨_, _, rfl, rangedToo, .refl _⟩
    | ok done => exact ⟨_, _, rfl, rangedToo, .refl _⟩
  | firstPass methods =>
    refine orderly.start .firstPass fun start ranged => ?_
    exact RollOf.arrives_firstPass sound ranged rfl methods fun later rangedToo =>
      .done _ rangedToo (.refl _)
  | @addTerm _ dice member faces known asked =>
    have known := (RowThroughout.diceFrom sound dice member dice rfl).isRanged known
    unfold Schedule.addTerm at asked
    split at asked
    · cases asked
    · rename_i requests between given
      cases asked
      have firm : schedule.progress.ledger.Firm between.ledger :=
        Resolver.ledger_addTerm given ▸ .refl _
      exact (orderly.of_firm (orderly.ranged.addTerm known given) firm).gather _ _
  | register handed =>
    rcases Resolver.register_eq_ok handed with
      ⟨_, number, front, descriptor, back, _, takes, rfl⟩ | ⟨_, rfl | ⟨level, text, rfl⟩⟩
    · exact orderly.of_firm (orderly.ranged.deliver takes) Progress.Ranged.firm_deliver
    · exact orderly
    · have beside : schedule.progress.Beside (schedule.progress.report level text) :=
        ⟨rfl, rfl, rfl, rfl⟩
      exact orderly.of_firm (orderly.ranged.of_beside beside (Ledger.Firm.refl _).lasts) (.refl _)
  | close =>
    refine orderly.of_firm (orderly.ranged.close resolver) ?_
    rw [resolver.ledger_close]
    exact .refl _
  | wake => exact orderly.wake _ _

theorem Reaches.orderly {resolver : Resolver} (sound : resolver.roll.HasSoundDice)
    {schedule later : Schedule} (reaches : Reaches resolver schedule later)
    (orderly : schedule.Orderly resolver.roll) : later.Orderly resolver.roll := by
  induction reaches with
  | refl => exact orderly
  | tail _ next ih => exact next.orderly sound ih

end Schedule
end DiceNotation
