import DiceNotation.Proofs.Fulfillment.Quotas

namespace DiceNotation

/-!
# Schedules that spare dice

A schedule spares dice while nobody waits for results of theirs and no evaluation is under
way.  If the dice are asked for only then, by a resolver, by a first pass or by an
evaluation, it never happens that they have or are waited for more often than their number
says.  Everything else may happen in any order: other dice are asked for, values are handed
in, the resolver is closed, and tasks go on whose requests were answered.
-/

/-- Whether a task is an evaluation that is not over. -/
def Task.isEvaluating (task : Task) : Bool :=
  match task.status with
  | .waiting _ _ => task.kind == .evaluation
  | _ => false

namespace Schedule

/-- Nobody waits for results of dice, and no evaluation is under way. -/
structure Spares (id : Identity) (schedule : Schedule) : Prop where
  free : schedule.progress.Free id
  idle : ∀ task ∈ schedule.tasks, task.isEvaluating = false

/-- Dice are spared before anything has happened. -/
theorem Spares.ofLedger {id : Identity} (ledger : Ledger) :
    (ofProgress (.ofLedger ledger)).Spares id where
  free _ _ member := absurd member List.not_mem_nil
  idle _ member := absurd member List.not_mem_nil

/-- What can happen next to a schedule in which dice are asked for only while they are
spared. -/
inductive Careful (resolver : Resolver) (dice : Dice) : Schedule → Schedule → Prop
  | evaluate {schedule : Schedule} (spares : schedule.Spares dice.tag.id) (options : Options)
    (surroundings : Surroundings)
    (own : ∀ other, surroundings.resolver = some other → other = resolver) :
    Careful resolver dice schedule (schedule.evaluate options surroundings resolver.roll)
  | firstPass {schedule : Schedule} (spares : schedule.Spares dice.tag.id)
    (methods : MethodTable) : Careful resolver dice schedule (schedule.firstPass resolver methods)
  | addTerm {schedule later : Schedule} {other : Dice} (member : other ∈ resolver.roll.dice)
    (spares : other.tag.id = dice.tag.id → schedule.Spares dice.tag.id)
    (asked : schedule.addTerm resolver other = .ok later) : Careful resolver dice schedule later
  | register {schedule : Schedule} {later : Progress} {method denomination value : Json}
    {accepted : Bool}
    (handed : resolver.register method denomination value schedule.progress =
      .ok (accepted, later)) : Careful resolver dice schedule { schedule with progress := later }
  | close (schedule : Schedule) :
    Careful resolver dice schedule { schedule with progress := resolver.close schedule.progress }
  | wake {schedule : Schedule} {request : Request} {answer : Answer}
    (answered : schedule.progress.answer? request = some answer) :
    Careful resolver dice schedule ⟨(wakeFirst request answer schedule.progress schedule.tasks).1,
      (wakeFirst request answer schedule.progress schedule.tasks).2⟩

/-- What a schedule can come to in this way. -/
abbrev Carefully (resolver : Resolver) (dice : Dice) : Schedule → Schedule → Prop :=
  Relation.ReflTransGen (Careful resolver dice)

end Schedule

/-! ## Tasks -/

namespace Task

/-- A task that is no evaluation under way, and does nothing more but end. -/
structure Bystands (task : Task) : Prop where
  idle : task.isEvaluating = false
  ends : ∀ request resume, task.status = .waiting request resume →
    ∀ answer later, ∃ result, resume answer later = .done result later

/-- An evaluation under way that leaves dice to their number. -/
structure Evaluates (resolver : Resolver) (id : Identity) (n : Nat) (progress : Progress)
    (task : Task) : Prop where
  kind : task.kind = .evaluation
  waits : ∃ request resume, task.status = .waiting request resume ∧
    (Step.wait request progress resume).Measured resolver id n

theorem Bystands.finished (kind : TaskKind) (draws : Nat) (result : Except Fault Json) :
    Bystands ⟨kind, draws, .finished result⟩ := ⟨rfl, nofun⟩

theorem Bystands.gathering (kind : TaskKind) (draws : Nat) (requests : List Request) :
    Bystands ⟨kind, draws, .gathering requests⟩ := ⟨rfl, nofun⟩

theorem Evaluates.isEvaluating {resolver : Resolver} {id : Identity} {n : Nat}
    {progress : Progress} {task : Task} (evaluates : task.Evaluates resolver id n progress) :
    task.isEvaluating = true := by
  rcases evaluates with ⟨kind, request, resume, waits, _⟩
  unfold Task.isEvaluating
  rw [waits, kind]
  rfl

end Task

/-! ## Several tasks -/

/-- Of several tasks at most one is an evaluation under way, which leaves dice to their
number.  While there is none, nothing but the first pass waits for the dice. -/
structure Supervised (resolver : Resolver) (id : Identity) (n : Nat) (progress : Progress)
    (tasks : List Task) : Prop where
  tidy : progress.Tidy
  each : ∀ task ∈ tasks, task.Bystands ∨ task.Evaluates resolver id n progress
  once : tasks.Pairwise fun task other => task.Bystands ∨ other.Bystands
  rests : (∀ task ∈ tasks, task.Bystands) → progress.Rests resolver id n

namespace Supervised

variable {resolver : Resolver} {id : Identity} {n : Nat} {progress : Progress}
  {task : Task} {tasks : List Task}

theorem of_bystands (tidy : progress.Tidy) (rests : progress.Rests resolver id n)
    (all : ∀ task ∈ tasks, task.Bystands) : Supervised resolver id n progress tasks where
  tidy := tidy
  each task member := .inl (all task member)
  once := List.pairwise_of_forall_mem_list fun task member _ _ => .inl (all task member)
  rests _ := rests

section

variable (supervised : Supervised resolver id n progress tasks)
include supervised

theorem perm {others : List Task} (same : tasks.Perm others) :
    Supervised resolver id n progress others where
  tidy := supervised.tidy
  each task member := supervised.each task (same.mem_iff.2 member)
  once := (same.pairwise_iff Or.symm).1 supervised.once
  rests all := supervised.rests fun task member => all task (same.mem_iff.1 member)

/-- Where no evaluation is under way, all tasks stand by. -/
theorem bystands (none : ∀ task ∈ tasks, task.isEvaluating = false) :
    ∀ task ∈ tasks, task.Bystands := by
  intro task member
  rcases supervised.each task member with here | evaluates
  · exact here
  · cases evaluates.isEvaluating.symm.trans (none task member)

theorem cons (stands : task.Bystands) : Supervised resolver id n progress (task :: tasks) where
  tidy := supervised.tidy
  each := List.forall_mem_cons.2 ⟨.inl stands, supervised.each⟩
  once := List.pairwise_cons.2 ⟨fun _ _ => .inl stands, supervised.once⟩
  rests all := supervised.rests (List.forall_mem_cons.1 all).2

end

/-- One bystander may stand in for another. -/
theorem swap {other : Task} (supervised : Supervised resolver id n progress (task :: tasks))
    (here : task.Bystands) (there : other.Bystands) :
    Supervised resolver id n progress (other :: tasks) where
  tidy := supervised.tidy
  each := List.forall_mem_cons.2 ⟨.inl there, (List.forall_mem_cons.1 supervised.each).2⟩
  once := List.pairwise_cons.2 ⟨fun _ _ => .inl there, (List.pairwise_cons.1 supervised.once).2⟩
  rests all := supervised.rests (List.forall_mem_cons.2 ⟨here, (List.forall_mem_cons.1 all).2⟩)

/-- Besides an evaluation that is under way, all tasks stand by. -/
theorem others (supervised : Supervised resolver id n progress (task :: tasks))
    (busy : task.isEvaluating = true) : ∀ other ∈ tasks, other.Bystands := by
  intro other member
  rcases (List.pairwise_cons.1 supervised.once).1 other member with here | there
  · cases here.idle.symm.trans busy
  · exact there

theorem load_le_and_filled (supervised : Supervised resolver id n progress tasks) :
    progress.load resolver id ≤ n ∧ progress.ledger.Filled resolver.ground := by
  by_cases all : ∀ task ∈ tasks, task.Bystands
  · have rests := supervised.rests all
    exact ⟨rests.within.load, rests.stands.filled⟩
  · push Not at all
    rcases all with ⟨task, member, busy⟩
    rcases (supervised.each task member).resolve_left busy with
      ⟨_, request, resume, _, pending, awaits, _⟩
    exact ⟨awaits.load_le, awaits.filled⟩

section

variable {dice : Dice} (limits : resolver.ground.Limits dice n) {later : Progress}

/-- An evaluation stands at the end of its step, while the others stand by. -/
theorem arrive {step : Step Json} (measured : step.Measured resolver dice.tag.id n)
    (others : ∀ task ∈ tasks, task.Bystands) :
    Supervised resolver dice.tag.id n (Task.ofStep .evaluation step).2
      ((Task.ofStep .evaluation step).1 :: tasks) := by
  cases step with
  | done result last =>
    exact .of_bystands measured.1 measured.2
      (List.forall_mem_cons.2 ⟨.finished _ _ _, others⟩)
  | wait request asked resume =>
    have evaluates : Task.Evaluates resolver dice.tag.id n asked
        ⟨.evaluation, asked.draws, .waiting request resume⟩ :=
      ⟨rfl, request, resume, rfl, measured⟩
    rcases measured with ⟨pending, awaits, _⟩
    refine ⟨awaits.tidy, ?_, ?_, fun all => ?_⟩
    · exact List.forall_mem_cons.2 ⟨.inr evaluates, fun task member => .inl (others task member)⟩
    · exact List.pairwise_cons.2 ⟨fun task member => .inr (others task member),
        List.pairwise_of_forall_mem_list fun task member _ _ => .inl (others task member)⟩
    · have here := (List.forall_mem_cons.1 all).1
      cases here.idle.symm.trans evaluates.isEvaluating

include limits in
theorem meanwhile (supervised : Supervised resolver dice.tag.id n progress tasks)
    (meanwhile : resolver.Meanwhile dice.tag.id progress later) :
    Supervised resolver dice.tag.id n later tasks where
  tidy := (meanwhile.call.onward supervised.tidy).tidy
  each task member := by
    refine (supervised.each task member).imp_right fun evaluates => ?_
    rcases evaluates with ⟨kind, request, resume, waits, measured⟩
    exact ⟨kind, request, resume, waits, measured.meanwhile limits meanwhile⟩
  once := supervised.once
  rests all := meanwhile.rests limits.sound (supervised.rests all)

end

end Supervised

/-! ## Schedules -/

namespace Schedule

variable {resolver : Resolver} {dice : Dice} {n : Nat} {schedule : Schedule}

section

variable (limits : resolver.ground.Limits dice n)
  (supervised : Supervised resolver dice.tag.id n schedule.progress schedule.tasks)
include limits supervised

/-- An evaluation begins while the dice are spared. -/
theorem supervised_evaluate (spares : schedule.Spares dice.tag.id)
    (distinct : (resolver.roll.dice.map (·.tag.id)).Nodup) (options : Options)
    {surroundings : Surroundings}
    (own : ∀ other, surroundings.resolver = some other → other = resolver) :
    Supervised resolver dice.tag.id n
      (schedule.evaluate options surroundings resolver.roll).progress
      (schedule.evaluate options surroundings resolver.roll).tasks := by
  have all := supervised.bystands spares.idle
  have start : resolver.Meanwhile dice.tag.id schedule.progress
    { schedule.progress with draws := 0 } := .draw _ 0
  have measured : Step.Measured resolver dice.tag.id n
      ((resolver.roll.evaluate options surroundings >>= fun _ =>
        Evaluation.read fun ledger => .ok (ledger.rollTotal resolver.roll))
          { schedule.progress with draws := 0 }) := by
    change ((resolver.roll.evaluate options surroundings _).andThen _).Measured resolver
      dice.tag.id n
    refine RollOf.measured_evaluate limits (start.call.onward supervised.tidy).tidy
      (start.rests limits.sound (supervised.rests all)) (start.free spares.free) distinct options
      own fun result last tidy rests => ?_
    cases result with
    | error fault => exact ⟨tidy, rests⟩
    | ok done => exact ⟨tidy, rests⟩
  exact (Supervised.arrive measured all).perm (List.perm_append_singleton _ _).symm

/-- A first pass begins while the dice are spared. -/
theorem supervised_firstPass (spares : schedule.Spares dice.tag.id)
    (distinct : (resolver.roll.dice.map (·.tag.id)).Nodup) (methods : MethodTable) :
    Supervised resolver dice.tag.id n (schedule.firstPass resolver methods).progress
      (schedule.firstPass resolver methods).tasks := by
  have all := supervised.bystands spares.idle
  have start : resolver.Meanwhile dice.tag.id schedule.progress
    { schedule.progress with draws := 0 } := .draw _ 0
  have arrives {task : Task} {last : Progress} (stands : task.Bystands) (tidy : last.Tidy)
      (rests : last.Rests resolver dice.tag.id n) :
      Supervised resolver dice.tag.id n last (schedule.tasks ++ [task]) :=
    ((Supervised.of_bystands tidy rests all).cons stands).perm (List.perm_append_singleton _ _).symm
  unfold Schedule.firstPass Schedule.start
  change Supervised resolver dice.tag.id n
    (Task.ofStep .firstPass ((resolver.firstPass methods _).andThen _)).2
    (schedule.tasks ++ [(Task.ofStep .firstPass ((resolver.firstPass methods _).andThen _)).1])
  rcases Resolver.step_firstPass limits (start.call.onward supervised.tidy).tidy
      (start.rests limits.sound (supervised.rests all)) (start.free spares.free) distinct
      methods with
    ⟨result, last, ends, tidy, rests, _⟩ | ⟨request, asked, waits, awaits⟩
  · rw [ends]
    cases result with
    | error fault => exact arrives (.finished _ _ _) tidy rests
    | ok done => exact arrives (.finished _ _ _) tidy rests
  · rw [waits]
    rcases awaits with ⟨tidy, rests, _⟩
    refine arrives ⟨rfl, fun other resume same answer later => ?_⟩ tidy rests
    cases same
    cases answer <;> exact ⟨_, rfl⟩

/-- Dice are asked for, and the dice themselves while they are spared. -/
theorem supervised_addTerm {other : Dice} (member : other ∈ resolver.roll.dice)
    (spares : other.tag.id = dice.tag.id → schedule.Spares dice.tag.id) {later : Schedule}
    (asked : schedule.addTerm resolver other = .ok later) :
    Supervised resolver dice.tag.id n later.progress later.tasks := by
  have own : resolver.ground.resolver resolver := rfl
  unfold Schedule.addTerm at asked
  split at asked
  · cases asked
  · rename_i requests last given
    cases asked
    have reached : Supervised resolver dice.tag.id n last schedule.tasks := by
      by_cases same : other.tag.id = dice.tag.id
      · have spares := spares same
        have all := supervised.bystands spares.idle
        have rests := supervised.rests all
        have called : Progress.Call schedule.progress last := .addTerm given
        have move : Board.Move resolver.ground ⟨[[]], schedule.progress⟩ ⟨[[]], last⟩ :=
          .addTerm own member given _
        obtain rfl : other = dice := Term.dice.inj (limits.sound.once (.dice other) (.dice dice)
          (RollOf.mem_scope member) limits.known same)
        exact .of_bystands (called.onward supervised.tidy).tidy
          ⟨move.stands limits.sound rests.stands,
            rests.within.addTerm given fun _ => ⟨limits.numbered, spares.free⟩⟩ all
      · exact supervised.meanwhile limits (.addTerm member same given)
    exact (reached.cons (.gathering .addition 0 requests)).perm
      (List.perm_append_singleton _ _).symm

/-- A task goes on whose request was answered. -/
theorem supervised_wake {request : Request} {answer : Answer}
    (answered : schedule.progress.answer? request = some answer) :
    Supervised resolver dice.tag.id n
      (wakeFirst request answer schedule.progress schedule.tasks).2
      (wakeFirst request answer schedule.progress schedule.tasks).1 := by
  rcases wakeFirst_cases request answer schedule.progress schedule.tasks with
    same | ⟨front, task, back, resume, among, waits, woken⟩
  · rw [same]
    exact supervised
  · rw [woken]
    have meanwhile : resolver.Meanwhile dice.tag.id schedule.progress
      { schedule.progress with draws := task.draws } := .draw _ task.draws
    rw [among] at supervised
    have moved := (supervised.perm List.perm_middle).meanwhile limits meanwhile
    rcases (List.forall_mem_cons.1 moved.each).1 with stands | evaluates
    · rcases stands.ends request resume waits answer _ with ⟨result, ends⟩
      rw [ends]
      exact (moved.swap stands (.finished _ _ result)).perm List.perm_middle.symm
    · have others := moved.others evaluates.isEvaluating
      rcases evaluates with ⟨kind, asked, resumes, same, pending, awaits, goes⟩
      cases waits.symm.trans same
      rw [kind]
      exact (Supervised.arrive (goes answer _ awaits answered) others).perm List.perm_middle.symm

end

/-- What can happen while dice are spared leaves them to their number. -/
theorem Careful.supervised {later : Schedule} (careful : Careful resolver dice schedule later)
    (limits : resolver.ground.Limits dice n)
    (distinct : (resolver.roll.dice.map (·.tag.id)).Nodup)
    (before : Supervised resolver dice.tag.id n schedule.progress schedule.tasks) :
    Supervised resolver dice.tag.id n later.progress later.tasks := by
  cases careful with
  | evaluate spares options surroundings own =>
    exact supervised_evaluate limits before spares distinct options own
  | firstPass spares methods => exact supervised_firstPass limits before spares distinct methods
  | addTerm member spares asked => exact supervised_addTerm limits before member spares asked
  | register handed => exact before.meanwhile limits (.register handed)
  | close => exact before.meanwhile limits (.close schedule.progress)
  | wake answered => exact supervised_wake limits before answered

theorem Carefully.supervised {later : Schedule} (goes : Carefully resolver dice schedule later)
    (limits : resolver.ground.Limits dice n)
    (distinct : (resolver.roll.dice.map (·.tag.id)).Nodup)
    (before : Supervised resolver dice.tag.id n schedule.progress schedule.tasks) :
    Supervised resolver dice.tag.id n later.progress later.tasks := by
  induction goes with
  | refl => exact before
  | tail _ careful ih => exact careful.supervised limits distinct ih

end Schedule

/-! ## Rolls -/

/-- Dice that are asked for only while they are spared keep to their number: their results
and those of them that are outstanding are never more than it together, and once they have
been evaluated they have exactly as many results. -/
theorem Build.within_number {setup : Setup} {input : Build.RollInput} {before made : Ledger}
    {resolver : Resolver} (built : Build.ofFormula setup input before = .ok (resolver.roll, made))
    {dice : Dice} (member : dice ∈ resolver.roll.dice) {n : Int} (numbered : dice.number = .known n)
    (bare : dice.modifiers = []) {schedule : Schedule}
    (goes : Schedule.Carefully resolver dice (.ofProgress (.ofLedger made)) schedule) :
    schedule.progress.load resolver dice.tag.id ≤ n ∧
      (schedule.progress.ledger.isEvaluated (.dice dice) = true →
        (schedule.progress.ledger.outcomes dice.tag.id).length = n) := by
  have isMade := Build.ofFormula_isMade built
  have sound := (RowThroughout.diceFrom isMade.row dice member).sound
  obtain ⟨m, rfl⟩ : ∃ m : Nat, n = m := by
    have least := sound.number
    rw [numbered] at least
    exact Int.eq_ofNat_of_zero_le least
  have limits : resolver.ground.Limits dice m :=
    ⟨isMade.isSound, RollOf.mem_scope member, numbered, bare, fun _ never => never⟩
  have fresh : made.outcomes dice.tag.id = [] := congrArg TermState.outcomes
    (isMade.isFresh limits.known : (made.term dice.tag.id).IsFresh)
  have enough : (made.outcomes dice.tag.id).length ≤ m :=
    Nat.le_trans (Nat.le_of_eq (congrArg List.length fresh)) (Nat.zero_le m)
  have free : (Progress.ofLedger made).Free dice.tag.id := (Schedule.Spares.ofLedger made).free
  have begins : Board.Move resolver.ground ⟨[], .ofLedger made⟩ ⟨[] ++ [[]], .ofLedger made⟩ :=
    .begin [] _
  have start : Supervised resolver dice.tag.id m (.ofLedger made) [] :=
    .of_bystands (.ofLedger made)
      ⟨begins.stands limits.sound isMade.stands, free.within enough⟩
      fun _ member => absurd member List.not_mem_nil
  have after := Schedule.Carefully.supervised goes limits isMade.spans.dice_distinct start
  rcases after.load_le_and_filled with ⟨load, filled⟩
  refine ⟨Int.ofNat_le.2 load, fun done => ?_⟩
  rcases filled dice limits.known (beq_iff_eq.1 done) with ⟨least, numberedToo, many⟩
  rw [numbered] at numberedToo
  have same : (m : Int) = least := Number.int.inj (Json.number.inj (Except.ok.inj numberedToo))
  have most := Nat.le_trans (Nat.le_add_right _ _) load
  omega

/-! ## One die -/

namespace Schedule

/-- An evaluation is started that asks a resolver on the roll. -/
def evaluateOutside (schedule : Schedule) (roll : Roll) : Schedule :=
  schedule.evaluate {}
    { setup := Build.usual, synchronous := false, uniform := fun _ => 0,
      resolver := some ⟨0, roll⟩ } roll

theorem turns_evaluateOutside (schedule : Schedule) (roll : Roll) (singles : Dice → Prop) :
    Turns (roll.scope (fun _ => True) singles) schedule (schedule.evaluateOutside roll) :=
  .single (.evaluate rfl (fun _ _ => trivial) trivial
    (Term.rowThroughout_of_partsFrom fun _ member => member)
    (fun _ own => Option.some.inj own ▸ rfl) _)

/-- Dice are spared where nothing is outstanding and no evaluation is under way. -/
theorem Spares.nowhere {schedule : Schedule} {id : Identity}
    (none : schedule.progress.resolvers.rows.all (·.outstanding.isEmpty) = true)
    (idle : schedule.tasks.all (!·.isEvaluating) = true) : schedule.Spares id where
  free other _ member :=
    absurd (Progress.outstanding_eq_nil none other ▸ member) List.not_mem_nil
  idle task member := by simpa using List.all_eq_true.1 idle task member

theorem Operand.eq_one {amount : Operand Term} (one : amount.count = 1) :
    amount = .known 1 := by
  cases amount with
  | known n =>
    have positive : n.toNat = 1 := one
    exact congrArg Operand.known (by omega)
  | computed term => cases one

/-- A die that is asked for before the evaluation has one result after it. -/
theorem within_number_of_die : ∃ roll made dice schedule,
    outsideDie = .ok (roll, made) ∧ dice ∈ roll.dice ∧ dice.number = .known 1 ∧
    dice.modifiers = [] ∧ Carefully ⟨0, roll⟩ dice (.ofProgress (.ofLedger made)) schedule ∧
    schedule.progress.ledger.isEvaluated (.dice dice) = true ∧
    schedule.progress.ledger.shown dice = ([some 3], some 3) ∧
    schedule.progress.load ⟨0, roll⟩ dice.tag.id ≤ (1 : Int) ∧
    (schedule.progress.ledger.outcomes dice.tag.id).length = (1 : Int) := by
  have computed : (do
      let start ← outsideDie
      let dice ← start.1.dice.head?.elim (.error Fault.wrongKind) .ok
      let asked ← (ofProgress (.ofLedger start.2)).addTerm ⟨0, start.1⟩ dice
      let handed ← Resolver.register ⟨0, start.1⟩ (.string "manual") (.string "d6") (.ofNat 3)
        asked.progress
      let given : Schedule := { asked with progress := handed.2 }
      let last := (given.evaluateOutside start.1).progress.ledger
      return dice.number.count == 1 && (dice.modifiers.isEmpty &&
        (given.progress.resolvers.rows.all (·.outstanding.isEmpty) &&
        (given.tasks.all (!·.isEvaluating) && (last.isEvaluated (.dice dice) &&
        last.shown dice == ([some 3], some 3)))))).toOption = some true := by
    decide +kernel
  rcases result_bind (result_of_toOption computed) with ⟨⟨roll, made⟩, built, rest⟩
  rcases result_bind rest with ⟨dice, first, rest⟩
  rcases result_bind rest with ⟨asked, added, rest⟩
  rcases result_bind rest with ⟨handed, taken, shown⟩
  rcases Bool.and_eq_true_iff.1 (Except.ok.inj shown) with ⟨one, shown⟩
  rcases Bool.and_eq_true_iff.1 shown with ⟨bare, shown⟩
  rcases Bool.and_eq_true_iff.1 shown with ⟨none, shown⟩
  rcases Bool.and_eq_true_iff.1 shown with ⟨idle, shown⟩
  rcases Bool.and_eq_true_iff.1 shown with ⟨done, shown⟩
  have member := mem_of_head first
  have numbered := Operand.eq_one (beq_iff_eq.1 one)
  have bare := List.isEmpty_iff.1 bare
  have before : Carefully ⟨0, roll⟩ dice (.ofProgress (.ofLedger made)) asked :=
    .single (.addTerm member (fun _ => .ofLedger made) added)
  have goes : Carefully ⟨0, roll⟩ dice (.ofProgress (.ofLedger made))
      (({ asked with progress := handed.2 } : Schedule).evaluateOutside roll) :=
    (before.tail (.register taken)).tail (.evaluate (.nowhere none idle) _ _
      fun _ own => (Option.some.inj own).symm)
  have ofOwn : outsideDie = .ok ((⟨0, roll⟩ : Resolver).roll, made) := built
  have within := Build.within_number ofOwn member numbered bare goes
  exact ⟨roll, made, dice, _, built, member, numbered, bare, goes, done, beq_iff_eq.1 shown,
    within.1, within.2 done⟩

/-- A die that is asked for before the evaluation and is still waited for when it begins is
asked for once more.  Both values are taken, so that there are two results. -/
theorem two_results_of_one_die : ∃ roll made dice asked between later,
    outsideDie = .ok (roll, made) ∧ dice ∈ roll.dice ∧ dice.number = .known 1 ∧
    dice.modifiers = [] ∧ (ofProgress (.ofLedger made)).addTerm ⟨0, roll⟩ dice = .ok asked ∧
    (asked.evaluateOutside roll).progress.load ⟨0, roll⟩ dice.tag.id = 2 ∧
    (asked.evaluateOutside roll).handIn ⟨0, roll⟩ (.string "manual") (.string "d6") (.ofNat 3) =
      .ok between ∧
    between.handIn ⟨0, roll⟩ (.string "manual") (.string "d6") (.ofNat 4) = .ok later ∧
    Turns (roll.scope (fun _ => True) fun _ => False) (.ofProgress (.ofLedger made)) later ∧
    later.progress.ledger.isEvaluated (.dice dice) = true ∧
    later.progress.ledger.shown dice = ([some 3, some 4], some 7) := by
  have computed : (do
      let start ← outsideDie
      let dice ← start.1.dice.head?.elim (.error Fault.wrongKind) .ok
      let asked ← (ofProgress (.ofLedger start.2)).addTerm ⟨0, start.1⟩ dice
      let between ← (asked.evaluateOutside start.1).handIn ⟨0, start.1⟩ (.string "manual")
        (.string "d6") (.ofNat 3)
      let later ← between.handIn ⟨0, start.1⟩ (.string "manual") (.string "d6") (.ofNat 4)
      return dice.number.count == 1 && (dice.modifiers.isEmpty &&
        ((asked.evaluateOutside start.1).progress.load ⟨0, start.1⟩ dice.tag.id == 2 &&
        (later.progress.ledger.isEvaluated (.dice dice) &&
        later.progress.ledger.shown dice == ([some 3, some 4], some 7))))).toOption =
      some true := by
    decide +kernel
  rcases result_bind (result_of_toOption computed) with ⟨⟨roll, made⟩, built, rest⟩
  rcases result_bind rest with ⟨dice, first, rest⟩
  rcases result_bind rest with ⟨asked, added, rest⟩
  rcases result_bind rest with ⟨between, handed, rest⟩
  rcases result_bind rest with ⟨later, handedToo, shown⟩
  rcases Bool.and_eq_true_iff.1 (Except.ok.inj shown) with ⟨one, shown⟩
  rcases Bool.and_eq_true_iff.1 shown with ⟨bare, shown⟩
  rcases Bool.and_eq_true_iff.1 shown with ⟨two, shown⟩
  rcases Bool.and_eq_true_iff.1 shown with ⟨done, shown⟩
  have member := mem_of_head first
  have own : (roll.scope (fun _ => True) fun _ => False).resolver ⟨0, roll⟩ := rfl
  have addition : Turns (roll.scope (fun _ => True) fun _ => False)
      (.ofProgress (.ofLedger made)) asked := .single (.addTerm own member added)
  have hands : Turns (roll.scope (fun _ => True) fun _ => False)
      (asked.evaluateOutside roll) later :=
    (Turns.handIn own handed).trans (Turns.handIn own handedToo)
  exact ⟨roll, made, dice, asked, between, later, built, member, Operand.eq_one (beq_iff_eq.1 one),
    List.isEmpty_iff.1 bare, added, beq_iff_eq.1 two, handed, handedToo,
    addition.trans ((turns_evaluateOutside asked roll _).trans hands), done, beq_iff_eq.1 shown⟩

end Schedule
end DiceNotation
