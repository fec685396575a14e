import Hxnu.Sched.Ops

/-!
# Run queues as a set of slots

The abstract view of the run queues is the set of slots that wait in them. `Queues s R` says that
the arrays and the bitmap of the scheduler hold exactly the slots in `R`, each once and in the queue
of its own priority. Enqueueing adds a slot to the set, and the two ways of taking a slot out remove
it; enqueueing a slot that is not in the set never finds the queue full.

## Main definitions

* `Queues`: the arrays and the bitmap hold a set of slots.

## Main results

* `Queues.enqueue`, `Queues.removeQueued`, `Queues.dequeue`: the operations on the set.
* `Queues.bestPriority_eq_none_iff`: there is no best priority exactly when the set is empty.
-/

namespace Hxnu.Sched

open Word Function List

namespace Scheduler

/-- The slots waiting with a priority, the head first. -/
def queue (s : Scheduler) (p : Priority) : List Slot := (s.runqueues p).toList

/-- The fields that only creating, forking and reaping change. -/
structure Fixed where
  initialized : Bool
  nextThreadId : ℕ
  threadCount : ℕ
  bootstrapThreadId : ℕ
  idleThreadId : ℕ

def fixed (s : Scheduler) : Fixed :=
  ⟨s.initialized, s.nextThreadId, s.threadCount, s.bootstrapThreadId, s.idleThreadId⟩

/-! ### What the helper operations leave unchanged -/

section Frame

variable (s : Scheduler) (slot : Slot) (t : Thread) (p : Priority)
  (q : ArrayQueue Slot maxThreads)

@[simp] theorem setThread_threads : (s.setThread slot t).threads = update s.threads slot t :=
  rfl

@[simp] theorem setThread_currentSlot : (s.setThread slot t).currentSlot = s.currentSlot := rfl

@[simp] theorem setThread_fixed : (s.setThread slot t).fixed = s.fixed := rfl

@[simp] theorem setState_threads (state : ThreadState) : (s.setState slot state).threads =
    update s.threads slot { s.threads slot with state := state } := rfl

@[simp] theorem setState_currentSlot (state : ThreadState) :
    (s.setState slot state).currentSlot = s.currentSlot := rfl

@[simp] theorem setState_fixed (state : ThreadState) : (s.setState slot state).fixed = s.fixed :=
  rfl

@[simp] theorem setCurrent_threads : (s.setCurrent slot).threads =
    update s.threads slot { s.threads slot with state := .running } := rfl

@[simp] theorem setCurrent_currentSlot : (s.setCurrent slot).currentSlot = some slot := rfl

@[simp] theorem setCurrent_fixed : (s.setCurrent slot).fixed = s.fixed := rfl

theorem freeSlot_threads : (s.freeSlot slot).threads = (s.setState slot .unused).threads := by
  rw [freeSlot]

theorem freeSlot_self :
    (s.freeSlot slot).threads slot = { s.threads slot with state := .unused } :=
  (congrFun (freeSlot_threads s slot) slot).trans (update_self ..)

variable {s slot} in
theorem freeSlot_of_ne (hx : x ≠ slot) : (s.freeSlot slot).threads x = s.threads x :=
  (congrFun (freeSlot_threads s slot) x).trans (update_of_ne hx _ _)

variable {s slot} in
theorem ne_of_freeSlot (hx : ((s.freeSlot slot).threads x).state ≠ .unused) : x ≠ slot := by
  rintro rfl
  rw [freeSlot_self] at hx
  exact hx rfl

theorem freeSlot_nextThreadId : (s.freeSlot slot).nextThreadId = s.nextThreadId := by
  rw [freeSlot, setState, setThread]

theorem freeSlot_runqueues : (s.freeSlot slot).runqueues = s.runqueues := by
  rw [freeSlot, setState, setThread]

theorem freeSlot_runqueueBitmap : (s.freeSlot slot).runqueueBitmap = s.runqueueBitmap := by
  rw [freeSlot, setState, setThread]

theorem freeSlot_initialized : (s.freeSlot slot).initialized = s.initialized := by
  rw [freeSlot, setState, setThread]

@[simp] theorem freeSlot_currentSlot : (s.freeSlot slot).currentSlot = s.currentSlot := by
  rw [freeSlot, setState, setThread]

@[simp] theorem addDispatch_currentSlot : (s.addDispatch slot).currentSlot = s.currentSlot := rfl

@[simp] theorem addDispatch_fixed : (s.addDispatch slot).fixed = s.fixed := rfl

@[simp] theorem addSwitch_threads : s.addSwitch.threads = s.threads := rfl

@[simp] theorem addSwitch_currentSlot : s.addSwitch.currentSlot = s.currentSlot := rfl

@[simp] theorem addSwitch_fixed : s.addSwitch.fixed = s.fixed := rfl

@[simp] theorem shrinkQueue_threads : (s.shrinkQueue p q).threads = s.threads := rfl

@[simp] theorem shrinkQueue_currentSlot : (s.shrinkQueue p q).currentSlot = s.currentSlot := rfl

@[simp] theorem shrinkQueue_fixed : (s.shrinkQueue p q).fixed = s.fixed := rfl

theorem shrinkQueue_runqueues :
    (s.shrinkQueue p q).runqueues = update s.runqueues p q := rfl

theorem shrinkQueue_runqueueBitmap : (s.shrinkQueue p q).runqueueBitmap =
    if q.depth = 0 then s.runqueueBitmap &&& ~~~ BitVec.twoPow maxPriorities p
    else s.runqueueBitmap := rfl

@[simp] theorem enqueue_threads : (s.enqueue slot).2.threads = s.threads := by
  rw [enqueue]
  split_ifs <;> rfl

@[simp] theorem enqueue_currentSlot : (s.enqueue slot).2.currentSlot = s.currentSlot := by
  rw [enqueue]
  split_ifs <;> rfl

@[simp] theorem enqueue_fixed : (s.enqueue slot).2.fixed = s.fixed := by
  rw [enqueue]
  split_ifs <;> rfl

@[simp] theorem removeQueued_threads : (s.removeQueued slot).threads = s.threads := by
  rw [removeQueued]
  split <;> rfl

@[simp] theorem removeQueued_currentSlot : (s.removeQueued slot).currentSlot = s.currentSlot := by
  rw [removeQueued]
  split <;> rfl

@[simp] theorem removeQueued_fixed : (s.removeQueued slot).fixed = s.fixed := by
  rw [removeQueued]
  split <;> rfl

@[simp] theorem preempt_currentSlot : (s.preempt slot).currentSlot = s.currentSlot := by
  rw [preempt]
  split_ifs <;> simp

@[simp] theorem preempt_fixed : (s.preempt slot).fixed = s.fixed := by
  rw [preempt]
  split_ifs <;> simp

theorem preempt_threads : (s.preempt slot).threads =
    if (s.threads slot).state = .running then
      update s.threads slot { s.threads slot with state := .runnable }
    else s.threads := by
  rw [preempt]
  split_ifs <;> simp

theorem priorityForThread_congr {s' : Scheduler}
    (h : (s'.threads slot).basePriority = (s.threads slot).basePriority) :
    s'.priorityForThread slot = s.priorityForThread slot := by
  simp only [priorityForThread, h]

end Frame

end Scheduler

open Scheduler

/-! ### The set of waiting slots -/

/-- The run queues hold exactly the slots in `R`. -/
structure Queues (s : Scheduler) (R : Set Slot) : Prop where
  bitmap : ∀ p : Priority, s.runqueueBitmap.getLsbD p = true ↔ 0 < (s.runqueues p).depth
  nodup : ∀ p, (s.queue p).Nodup
  mem : ∀ p slot, slot ∈ s.queue p ↔ slot ∈ R ∧ s.priorityForThread slot = p

namespace Queues

variable {s s' : Scheduler} {R : Set Slot} {slot : Slot} {p : Priority}

section

variable (h : Queues s R)

include h

/-- The queues only depend on the arrays, the bitmap and the priorities of the waiting slots. -/
theorem of_same (hq : s'.runqueues = s.runqueues) (hb : s'.runqueueBitmap = s.runqueueBitmap)
    (hp : ∀ slot ∈ R, (s'.threads slot).basePriority = (s.threads slot).basePriority) :
    Queues s' R where
  bitmap p := by
    rw [hb, hq]
    exact h.bitmap p
  nodup p := by
    rw [queue, hq]
    exact h.nodup p
  mem p slot := by
    have hmem := h.mem p slot
    rw [queue] at hmem ⊢
    rw [hq, hmem]
    refine and_congr_right ?_
    intro hR
    rw [s.priorityForThread_congr slot (hp slot hR)]

/-- A slot that does not wait finds room: the others are at most seven. -/
theorem depth_lt (hslot : slot ∉ R) (p : Priority) : (s.runqueues p).depth < maxThreads := by
  have hnot : slot ∉ s.queue p := fun hmem => hslot ((h.mem p slot).mp hmem).1
  have hle := (nodup_cons.mpr ⟨hnot, h.nodup p⟩).length_le_card
  rw [length_cons, queue, ArrayQueue.length_toList, Fintype.card_fin] at hle
  exact hle

/-- A change of the queue of one priority. -/
theorem of_update (hthreads : s'.threads = s.threads)
    (hne : ∀ p' : Priority, p' ≠ p → s'.runqueues p' = s.runqueues p' ∧ s'.runqueueBitmap.getLsbD p'
      = s.runqueueBitmap.getLsbD p')
    (hbit : s'.runqueueBitmap.getLsbD p = true ↔ 0 < (s'.runqueues p).depth)
    (hnodup : (s'.queue p).Nodup)
    (hmem : ∀ slot, slot ∈ s'.queue p ↔ slot ∈ R' ∧ s.priorityForThread slot = p)
    (hother : ∀ slot, s.priorityForThread slot ≠ p → (slot ∈ R' ↔ slot ∈ R)) : Queues s' R' := by
  have hprio (slot : Slot) : s'.priorityForThread slot = s.priorityForThread slot :=
    s.priorityForThread_congr slot (by rw [hthreads])
  refine ⟨?_, ?_, ?_⟩
  · intro p'
    by_cases hp : p' = p
    · rw [hp]
      exact hbit
    · rw [(hne p' hp).1, (hne p' hp).2]
      exact h.bitmap p'
  · intro p'
    by_cases hp : p' = p
    · rw [hp]
      exact hnodup
    · rw [queue, (hne p' hp).1]
      exact h.nodup p'
  · intro p' slot
    rw [hprio]
    by_cases hp : p' = p
    · rw [hp]
      exact hmem slot
    · have hold := h.mem p' slot
      rw [queue] at hold ⊢
      rw [(hne p' hp).1, hold]
      refine and_congr_left ?_
      rintro rfl
      exact (hother slot hp).symm

/-- **Enqueueing adds the slot to the set.** It never finds the queue full. -/
theorem enqueue (hslot : slot ∉ R) :
    (s.enqueue slot).1 = .ok () ∧ Queues (s.enqueue slot).2 (insert slot R) := by
  have hroom := h.depth_lt hslot (s.priorityForThread slot)
  have hnew : slot ∉ s.queue (s.priorityForThread slot) :=
    fun hmem => hslot ((h.mem _ slot).mp hmem).1
  have heq : s.enqueue slot = (.ok (), (s.enqueue slot).2) := by
    rw [Scheduler.enqueue, dif_pos hroom]
  have hqueue : (s.enqueue slot).2.runqueues = update s.runqueues
      (s.priorityForThread slot) ((s.runqueues (s.priorityForThread slot)).push slot hroom) := by
    rw [Scheduler.enqueue, dif_pos hroom]
  have hbitmap : (s.enqueue slot).2.runqueueBitmap =
      s.runqueueBitmap ||| BitVec.twoPow maxPriorities (s.priorityForThread slot) := by
    rw [Scheduler.enqueue, dif_pos hroom]
  have hself : (s.enqueue slot).2.queue (s.priorityForThread slot) =
      s.queue (s.priorityForThread slot) ++ [slot] := by
    rw [queue, hqueue, update_self, ArrayQueue.toList_push]
    rfl
  refine ⟨congrArg Prod.fst heq, h.of_update (p := s.priorityForThread slot)
    (enqueue_threads s slot) ?_ ?_ ?_ ?_ ?_⟩
  · intro p' hp
    have hval : (s.priorityForThread slot : ℕ) ≠ p' := fun heq => hp (Fin.ext heq.symm)
    refine ⟨by rw [hqueue, update_of_ne hp], ?_⟩
    rw [hbitmap, BitVec.getLsbD_or, BitVec.getLsbD_twoPow, decide_eq_false hval, Bool.and_false,
      Bool.or_false]
  · rw [hbitmap, hqueue, update_self, ArrayQueue.push_depth, BitVec.getLsbD_or,
      BitVec.getLsbD_twoPow]
    simp
  · rw [hself]
    refine nodup_append.mpr ⟨h.nodup _, nodup_singleton _, ?_⟩
    rintro a ha b hb rfl
    exact hnew (mem_singleton.mp hb ▸ ha)
  · intro slot'
    rw [hself, mem_append, mem_singleton, h.mem, Set.mem_insert_iff]
    constructor
    · rintro (⟨hR, hprio⟩ | rfl)
      · exact ⟨.inr hR, hprio⟩
      · exact ⟨.inl rfl, rfl⟩
    · rintro ⟨rfl | hR, hprio⟩
      · exact .inr rfl
      · exact .inl ⟨hR, hprio⟩
  · intro slot' hprio
    rw [Set.mem_insert_iff]
    exact or_iff_right fun heq => hprio (heq ▸ rfl)

/-- Storing a queue without one of its slots. -/
theorem shrinkQueue (hmem : slot ∈ s.queue p)
    (hq : q.toList = (s.queue p).erase slot) : Queues (s.shrinkQueue p q) (R \ {slot}) := by
  obtain ⟨hR, hprio⟩ := (h.mem p slot).mp hmem
  have hself : (s.shrinkQueue p q).queue p = (s.queue p).erase slot := by
    rw [queue, shrinkQueue_runqueues, update_self, hq]
  refine h.of_update (p := p) rfl ?_ ?_ ?_ ?_ ?_
  · intro p' hp
    have hval : (p : ℕ) ≠ p' := fun heq => hp (Fin.ext heq.symm)
    refine ⟨update_of_ne hp _ _, ?_⟩
    rw [shrinkQueue_runqueueBitmap]
    split_ifs
    · rw [BitVec.getLsbD_and, BitVec.getLsbD_not, BitVec.getLsbD_twoPow, decide_eq_false hval]
      simp
    · rfl
  · have hpos : 0 < (s.runqueues p).depth := by
      rw [← ArrayQueue.length_toList]
      exact length_pos_of_mem hmem
    rw [shrinkQueue_runqueueBitmap, shrinkQueue_runqueues, update_self]
    split_ifs with h₀
    · simp [h₀]
    · rw [h.bitmap p]
      exact iff_of_true hpos (Nat.pos_of_ne_zero h₀)
  · rw [hself]
    exact (h.nodup p).erase slot
  · intro slot'
    rw [hself, (h.nodup p).mem_erase_iff, h.mem, Set.mem_sdiff, Set.mem_singleton_iff]
    tauto
  · intro slot' hprio'
    rw [Set.mem_sdiff, Set.mem_singleton_iff]
    refine and_iff_left ?_
    rintro rfl
    exact hprio' hprio

/-- **Taking a slot out by value removes it from the set.** -/
theorem removeQueued (slot : Slot) : Queues (s.removeQueued slot) (R \ {slot}) := by
  rw [Scheduler.removeQueued]
  split
  · rename_i i hi
    obtain ⟨hmem, hlist⟩ := ArrayQueue.toList_removeAt_indexOf hi
    exact h.shrinkQueue hmem hlist
  · rename_i hnone
    have hnot : slot ∉ R := by
      intro hR
      exact ArrayQueue.indexOf_eq_none_iff.mp hnone ((h.mem _ slot).mpr ⟨hR, rfl⟩)
    rwa [Set.sdiff_singleton_eq_self hnot]

/-- There is a best priority unless no slot waits. -/
theorem bestPriority_eq_none_iff : s.bestPriority = none ↔ R = ∅ := by
  have hdepth : s.bestPriority = none ↔ ∀ p, s.queue p = [] := by
    rw [bestPriority, Ring.first_eq_none_iff]
    refine forall_congr' ?_
    intro p
    rw [← Bool.not_eq_true, h.bitmap p, ← length_eq_zero_iff, queue,
      ArrayQueue.length_toList, Nat.pos_iff_ne_zero, not_not]
  rw [hdepth, Set.eq_empty_iff_forall_notMem]
  constructor
  · intro hempty slot hR
    have hmem := (h.mem _ slot).mpr ⟨hR, rfl⟩
    rw [hempty] at hmem
    exact not_mem_nil hmem
  · intro hempty p
    refine eq_nil_iff_forall_not_mem.mpr ?_
    intro slot hmem
    exact hempty slot ((h.mem p slot).mp hmem).1

theorem depth_pos_of_bestPriority (hbest : s.bestPriority = some p) :
    0 < (s.runqueues p).depth := by
  rw [bestPriority, Ring.first_eq_some_iff] at hbest
  exact (h.bitmap p).mp hbest.1

/-- **Dequeueing takes the head of a queue out of the set.** -/
theorem dequeue (hpos : 0 < (s.runqueues p).depth) :
    ∃ next s', s.dequeue p = some (next, s') ∧ (s.queue p).head? = some next ∧
      next ∈ R ∧ s.priorityForThread next = p ∧ s'.threads = s.threads ∧
      s'.currentSlot = s.currentSlot ∧ s'.fixed = s.fixed ∧ Queues s' (R \ {next}) := by
  cases hpop : (s.runqueues p).pop with
  | none => exact absurd (ArrayQueue.pop_eq_none_iff.mp hpop) hpos.ne'
  | some x =>
    obtain ⟨next, q⟩ := x
    have hlist : s.queue p = next :: q.toList := (ArrayQueue.toList_pop hpop).1
    have hmem : next ∈ s.queue p := by
      rw [hlist]
      exact mem_cons_self
    obtain ⟨hR, hprio⟩ := (h.mem p next).mp hmem
    refine ⟨next, s.shrinkQueue p q, ?_, ?_, hR, hprio, rfl, rfl, rfl, h.shrinkQueue hmem ?_⟩
    · rw [Scheduler.dequeue, hpop]
    · rw [hlist, head?_cons]
    · rw [hlist, erase_cons_head]

end

end Queues

end Hxnu.Sched
