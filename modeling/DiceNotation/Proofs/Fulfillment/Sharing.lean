import DiceNotation.Proofs.Fulfillment.Matching
import DiceNotation.Proofs.Fulfillment.Runs
import DiceNotation.Proofs.Roll.Distinct

namespace DiceNotation

/-!
# Values shared out among dice

In advance a resolver asks for all dice whose amounts are known, in the order of the
formula and as often as their number says.  A value goes to the earliest descriptor of
its kind.  So at any time the dice of one kind that were asked for are those that took
the values of this kind, in the order in which these came, followed by those that are
still outstanding.  When nothing is outstanding any more, the values of one kind are the
results of the dice of this kind, one die after another.
-/

/-! ## Rows that belong to several owners -/

section

variable {α β : Type} {f : α → Nat} {g : β → Nat} {n : β → Nat}

/-- A row that is shared out among owners, each of whom has a part in one piece, is made
of the parts of the owners. -/
theorem eq_flatMap_filter {owners : List β} (distinct : (owners.map g).Nodup) {row : List α}
    (shared : row.map f = owners.flatMap fun owner => List.replicate (n owner) (g owner)) :
    row = owners.flatMap fun owner => row.filter fun a => f a == g owner := by
  induction owners generalizing row with
  | nil => exact List.map_eq_nil_iff.1 shared
  | cons owner rest ih =>
    rcases List.nodup_cons.1 distinct with ⟨other, distinct⟩
    rw [List.flatMap_cons] at shared
    rcases List.map_eq_append_iff.1 shared with ⟨front, back, rfl, first, later⟩
    have own : ∀ a ∈ front, (f a == g owner) = true := by
      intro a member
      have among : f a ∈ List.replicate (n owner) (g owner) := first ▸ List.mem_map_of_mem member
      exact beq_iff_eq.2 (List.eq_of_mem_replicate among)
    have elsewhere : ∀ a ∈ back, f a ∈ rest.map g := by
      intro a member
      have among : f a ∈ back.map f := List.mem_map_of_mem member
      rw [later] at among
      rcases List.mem_flatMap.1 among with ⟨further, inside, copied⟩
      rw [List.eq_of_mem_replicate copied]
      exact List.mem_map_of_mem inside
    have others : ∀ a ∈ back, ¬(f a == g owner) = true := fun a member same =>
      other (beq_iff_eq.1 same ▸ elsewhere a member)
    have foreign : ∀ further ∈ rest, ∀ a ∈ front, ¬(f a == g further) = true := by
      intro further member a inside same
      have here := beq_iff_eq.1 (own a inside)
      exact other (by rw [← here, beq_iff_eq.1 same]; exact List.mem_map_of_mem member)
    have parts : ∀ further ∈ rest, (front ++ back).filter (fun a => f a == g further) =
        back.filter fun a => f a == g further := by
      intro further member
      rw [List.filter_append, List.filter_eq_nil_iff.2 (foreign further member), List.nil_append]
    rw [List.flatMap_cons, List.flatMap_congr parts, ← ih distinct later, List.filter_append,
      List.filter_eq_self.2 own, List.filter_eq_nil_iff.2 others, List.append_nil]

/-- Those that are left out contribute nothing. -/
theorem flatMap_filter (keep : β → Bool) (part : β → List α) (owners : List β) :
    (owners.filter keep).flatMap part =
      owners.flatMap fun owner => if keep owner = true then part owner else [] := by
  induction owners with
  | nil => rfl
  | cons owner rest ih =>
    rw [List.filter_cons, List.flatMap_cons, ← ih]
    split
    · rw [List.flatMap_cons]
    · rfl

/-- What belongs to one of several owners. -/
theorem filter_flatMap_replicate {owners : List β} (distinct : (owners.map g).Nodup) {owner : β}
    (member : owner ∈ owners) :
    (owners.flatMap fun other => List.replicate (n other) other).filter
      (fun other => g other == g owner) = List.replicate (n owner) owner := by
  induction owners with
  | nil => cases member
  | cons first rest ih =>
    rcases List.nodup_cons.1 distinct with ⟨apart, distinct⟩
    rw [List.flatMap_cons, List.filter_append, List.filter_replicate]
    rcases List.mem_cons.1 member with rfl | later
    · have none : ∀ other ∈ rest.flatMap (fun other => List.replicate (n other) other),
          ¬(g other == g owner) = true := by
        intro other inside same
        rcases List.mem_flatMap.1 inside with ⟨further, among, copied⟩
        rw [List.eq_of_mem_replicate copied] at same
        exact apart (beq_iff_eq.1 same ▸ List.mem_map_of_mem among)
      rw [if_pos (beq_self_eq_true _), List.filter_eq_nil_iff.2 none, List.append_nil]
    · have different : ¬(g first == g owner) = true := fun same =>
        apart (beq_iff_eq.1 same ▸ List.mem_map_of_mem later)
      rw [if_neg different, List.nil_append, ih distinct later]

end

/-! ## What is asked for in advance -/

/-- Whether a method is known and waits for the outside. -/
def MethodTable.isInteractive (methods : MethodTable) (method : Json) : Bool :=
  (methods.named method).toOption.any (·.interactive)

/-- The number of dice, as far as it is known. -/
def Operand.count : Operand Term → Nat
  | .known n => n.toNat
  | .computed _ => 0

/-- How many values a resolver asks for in advance. -/
def DiceOf.wanted (methods : MethodTable) (ledger : Ledger) (dice : Dice) : Nat :=
  if dice.isReady && methods.isInteractive (ledger.term dice.tag.id).method then dice.number.count
  else 0

/-- Whether a descriptor was made in advance, for a die that is ready. -/
structure Descriptor.IsEarly (ledger : Ledger) (descriptor : Descriptor) : Prop where
  ready : descriptor.dice.isReady = true
  method : descriptor.method = (ledger.term descriptor.dice.tag.id).method
  isNew : descriptor.isNew = false

namespace Resolver

/-- The dice for which a resolver asks in advance, one by one. -/
def queue (methods : MethodTable) (ledger : Ledger) (dice : List Dice) : List Dice :=
  dice.flatMap fun d => List.replicate (d.wanted methods ledger) d

variable {resolver : Resolver} {progress later : Progress}

theorem outstanding_addMany (resolver : Resolver) (dice : Dice) (method : Json) (count : Nat)
    (progress : Progress) : ∃ asked,
    ((resolver.addMany dice method count progress).2.resolver resolver).outstanding =
      (progress.resolver resolver).outstanding ++ asked ∧
    asked.map (·.dice) = List.replicate count dice ∧
    ∀ descriptor ∈ asked, descriptor.method = method ∧ descriptor.isNew = false := by
  induction count generalizing progress with
  | zero => exact ⟨[], (List.append_nil _).symm, rfl, fun _ member => (List.not_mem_nil member).elim⟩
  | succ count ih =>
    rcases ih (resolver.add dice method false false false progress).2 with ⟨asked, kept, are, early⟩
    have state : ((resolver.add dice method false false false progress).2.resolver
        resolver).outstanding = (progress.resolver resolver).outstanding ++
          [⟨dice, method, false, false, false, progress.requests⟩] := by
      change ((resolver.add dice method false false false progress).2.resolvers.get
        resolver.id).outstanding = _
      rw [Progress.resolvers_add, if_pos rfl]
      rfl
    refine ⟨⟨dice, method, false, false, false, progress.requests⟩ :: asked, ?_, ?_,
      List.forall_mem_cons.2 ⟨⟨rfl, rfl⟩, early⟩⟩
    · change ((resolver.addMany dice method count
        (resolver.add dice method false false false progress).2).2.resolver resolver).outstanding = _
      rw [kept, state, List.append_assoc]
      rfl
    · rw [List.map_cons, are]
      rfl

/-- A die that is ready and has no results yet lacks as many as its number says. -/
theorem missing_of_ready {ledger : Ledger} {dice : Dice} (ready : dice.isReady = true)
    (none : ledger.outcomes dice.tag.id = []) : missing ledger dice = .ok dice.number.count := by
  have known := (Bool.and_eq_true_iff.1 ready).1
  unfold missing
  cases number : dice.number with
  | known n =>
    rw [none]
    change Except.ok (n - 0).toNat = _
    rw [Int.sub_zero]
    rfl
  | computed term =>
    rw [number] at known
    cases known

/-- A resolver that is open can ask for a die that is ready and has no results yet. -/
theorem addTerm_of_ready {dice : Dice} (isOpen : (progress.resolver resolver).closed = false)
    (ready : dice.isReady = true) (none : progress.ledger.outcomes dice.tag.id = []) :
    resolver.addTerm dice progress =
      .ok (resolver.addMany dice (progress.ledger.term dice.tag.id).method dice.number.count
        progress) := by
  unfold addTerm
  rw [isOpen, if_neg Bool.false_ne_true, missing_of_ready ready none]

/-- What is outstanding after a resolver has asked for such a die. -/
theorem outstanding_addTerm {dice : Dice} (ready : dice.isReady = true) : ∃ new,
    ((resolver.addMany dice (progress.ledger.term dice.tag.id).method dice.number.count
      progress).2.resolver resolver).outstanding =
        (progress.resolver resolver).outstanding ++ new ∧
    new.map (·.dice) = List.replicate dice.number.count dice ∧
    ∀ descriptor ∈ new, descriptor.IsEarly progress.ledger := by
  rcases outstanding_addMany resolver dice (progress.ledger.term dice.tag.id).method
    dice.number.count progress with ⟨new, kept, are, early⟩
  refine ⟨new, kept, are, fun descriptor member => ?_⟩
  have own : descriptor.dice ∈ new.map (·.dice) := List.mem_map_of_mem member
  rw [are] at own
  have is := List.eq_of_mem_replicate own
  refine ⟨?_, ?_, (early descriptor member).2⟩
  · rw [is]
    exact ready
  · rw [is]
    exact (early descriptor member).1

theorem isInteractive_of_named {methods : MethodTable} {name : Json} {method : Method}
    (named : methods.named name = .ok method) : methods.isInteractive name = method.interactive := by
  unfold MethodTable.isInteractive
  rw [named]
  rfl

/-- A resolver asks for the dice of a fresh roll one by one, which it can if it is open
and their methods are known. -/
theorem outstanding_addAll {methods : MethodTable} {dice : List Dice} (tidy : progress.Tidy)
    (isOpen : (progress.resolver resolver).closed = false)
    (fresh : ∀ d ∈ dice, (progress.ledger.term d.tag.id).IsFresh)
    (known : ∀ d ∈ dice, ∃ method,
      methods.named (progress.ledger.term d.tag.id).method = .ok method) : ∃ later new,
    resolver.addAll methods dice progress = (.ok (), later) ∧
    (later.resolver resolver).outstanding = (progress.resolver resolver).outstanding ++ new ∧
    new.map (·.dice) = queue methods progress.ledger dice ∧
    ∀ descriptor ∈ new, descriptor.IsEarly progress.ledger := by
  induction dice generalizing progress with
  | nil =>
    exact ⟨progress, [], rfl, (List.append_nil _).symm, rfl,
      fun _ member => (List.not_mem_nil member).elim⟩
  | cons first rest ih =>
    rcases List.forall_mem_cons.1 fresh with ⟨blank, others⟩
    rcases List.forall_mem_cons.1 known with ⟨⟨method, named⟩, knownToo⟩
    have untouched : (progress.ledger.term first.tag.id).phase = .unevaluated := by rw [blank]
    have empty : progress.ledger.outcomes first.tag.id = [] := by
      unfold Ledger.outcomes
      rw [blank]
    have interactive := isInteractive_of_named named
    unfold queue
    rw [List.flatMap_cons]
    unfold addAll
    simp only [untouched, named]
    cases ready : first.isReady && method.interactive with
    | true =>
      rcases Bool.and_eq_true_iff.1 ready with ⟨isReady, waits⟩
      have wanted : first.wanted methods progress.ledger = first.number.count := by
        unfold DiceOf.wanted
        rw [interactive, ready, if_pos rfl]
      have added := addTerm_of_ready isOpen isReady empty
      have forward := Progress.Forward.addTerm tidy added
      have same := ledger_addTerm added
      rcases outstanding_addTerm isReady with ⟨front, kept, are, early⟩
      rcases ih forward.tidy (forward.isOpen_of isOpen) (by rw [same]; exact others)
        (by rw [same]; exact knownToo) with ⟨later, back, asked, keptToo, areToo, earlyToo⟩
      rw [same] at areToo earlyToo
      refine ⟨later, front ++ back, ?_, ?_, ?_, List.forall_mem_append.2 ⟨early, earlyToo⟩⟩
      · rw [isReady, waits, added]
        exact asked
      · rw [keptToo, kept, List.append_assoc]
      · rw [List.map_append, are, areToo, wanted]
        rfl
    | false =>
      have wanted : first.wanted methods progress.ledger = 0 := by
        unfold DiceOf.wanted
        rw [interactive, ready, if_neg Bool.false_ne_true]
      rcases ih tidy isOpen others knownToo with ⟨later, new, asked, kept, are, early⟩
      refine ⟨later, new, ?_, kept, by rw [are, wanted]; rfl, early⟩
      rcases Bool.and_eq_false_iff.1 ready with unready | digital
      · rw [unready]
        exact asked
      · rw [digital]
        split <;> exact asked

end Resolver
end DiceNotation
