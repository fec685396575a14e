import Hxnu.Sched.Queues

/-!
# The scheduler invariant

The invariant of the run queues (`QueueInv`): exactly the runnable threads wait in them, and a
running thread is the current one. The invariant of the table (`SlotInv`): every slot in use lies
below `thread_count`. Each operation is taken apart into the steps of `Queues`, and what it does to
the threads is a `Moves`: states change, identities do not.

## Main definitions

* `QueueInv`, `Parked`: the queue invariant, and the queue invariant with no thread running.
* `SlotInv`: the table invariant.
* `Moves`: the threads keep their identities, priorities and contexts.

## Main results

* `QueueInv.preempt`, `Queues.dispatch`, `Parked.dispatch`: the two halves of every switch.
-/

namespace Hxnu.Sched

open Word Scheduler Function

/-- The runnable slots. -/
def Scheduler.runnable (s : Scheduler) : Set Slot := {slot | (s.threads slot).state = .runnable}

/-- The run queues hold exactly the runnable threads, and a running thread is the current one. -/
structure QueueInv (s : Scheduler) : Prop where
  queues : Queues s s.runnable
  running : ∀ slot, (s.threads slot).state = .running → s.currentSlot = some slot

/-- The run queues hold exactly the runnable threads, and no thread is running. -/
structure Parked (s : Scheduler) : Prop where
  queues : Queues s s.runnable
  still : ∀ slot, (s.threads slot).state ≠ .running

/-- Every slot in use lies below `thread_count`. -/
def SlotInv (s : Scheduler) : Prop :=
  ∀ slot : Slot, (s.threads slot).state ≠ .unused → (slot : ℕ) < s.threadCount

namespace SlotInv

variable {s : Scheduler}

/-- The slots from `thread_count` on are free. -/
theorem unused (h : SlotInv s) {x : Slot} (hx : s.threadCount ≤ x) :
    (s.threads x).state = .unused := by
  by_contra hused
  exact absurd (h x hused) (not_lt.mpr hx)

/-- A slot with no free slot before it is at most `thread_count`. -/
theorem le_threadCount (h : SlotInv s) (hbelow : ∀ x < slot, (s.threads x).state ≠ .unused) :
    (slot : ℕ) ≤ s.threadCount := by
  by_contra hlt
  rw [not_le] at hlt
  exact hbelow ⟨s.threadCount, hlt.trans slot.isLt⟩ hlt (h.unused le_rfl)

end SlotInv

/-! ### The set of runnable slots -/

section Runnable

variable {s : Scheduler} {slot : Slot} {t : Thread}

theorem runnable_setThread_of_runnable (ht : t.state = .runnable) :
    (s.setThread slot t).runnable = insert slot s.runnable := by
  ext x
  by_cases hx : x = slot
  · subst hx
    simp [runnable, ht]
  · simp [runnable, hx]

theorem runnable_setThread_of_ne (ht : t.state ≠ .runnable) :
    (s.setThread slot t).runnable = s.runnable \ {slot} := by
  ext x
  by_cases hx : x = slot
  · subst hx
    simp [runnable, ht]
  · simp [runnable, hx]

theorem runnable_congr {s' : Scheduler}
    (h : ∀ x, (s'.threads x).state = (s.threads x).state) : s'.runnable = s.runnable := by
  ext x
  simp [runnable, h]

/-- Changing a thread that does not wait keeps the queues. -/
theorem Queues.setThread (h : Queues s R) (hslot : slot ∉ R) : Queues (s.setThread slot t) R := by
  refine h.of_same rfl rfl ?_
  intro x hx
  have hne : x ≠ slot := by
    rintro rfl
    exact hslot hx
  rw [setThread_threads, update_of_ne hne]

/-- **Making a thread runnable and enqueueing it.** -/
theorem Queues.place (h : Queues s s.runnable) (hslot : (s.threads slot).state ≠ .runnable)
    (ht : t.state = .runnable) :
    ((s.setThread slot t).enqueue slot).1 = .ok () ∧
      Queues ((s.setThread slot t).enqueue slot).2
        ((s.setThread slot t).enqueue slot).2.runnable := by
  have hrun : ((s.setThread slot t).enqueue slot).2.runnable = insert slot s.runnable := by
    rw [← runnable_setThread_of_runnable ht]
    exact runnable_congr fun x => by rw [enqueue_threads]
  rw [hrun]
  exact (h.setThread hslot).enqueue hslot

/-- Moving a slot that was taken out of the queues to a state other than `Runnable`. -/
theorem Queues.retire (h : Queues s (s.runnable \ {slot})) (ht : t.state ≠ .runnable) :
    Queues (s.setThread slot t) (s.setThread slot t).runnable := by
  rw [runnable_setThread_of_ne ht]
  exact h.setThread fun hmem => hmem.2 rfl

theorem basePriority_setState (state : ThreadState) (x : Slot) :
    ((s.setState slot state).threads x).basePriority = (s.threads x).basePriority := by
  by_cases hx : x = slot
  · subst hx
    rw [setState_threads, update_self]
  · rw [setState_threads, update_of_ne hx]

end Runnable

/-! ### Updates that change no state -/

/-- A change of the scheduler that touches neither queues nor states. -/
structure Quiet (s s' : Scheduler) : Prop where
  runqueues : s'.runqueues = s.runqueues
  bitmap : s'.runqueueBitmap = s.runqueueBitmap
  currentSlot : s'.currentSlot = s.currentSlot
  state : ∀ slot, (s'.threads slot).state = (s.threads slot).state
  priority : ∀ slot, (s'.threads slot).basePriority = (s.threads slot).basePriority

namespace Quiet

variable {s s' : Scheduler}

theorem setThread (hstate : t.state = (s.threads slot).state)
    (hprio : t.basePriority = (s.threads slot).basePriority) : Quiet s (s.setThread slot t) := by
  refine ⟨rfl, rfl, rfl, ?_, ?_⟩
  · intro x
    by_cases hx : x = slot
    · subst hx
      rw [setThread_threads, update_self, hstate]
    · rw [setThread_threads, update_of_ne hx]
  · intro x
    by_cases hx : x = slot
    · subst hx
      rw [setThread_threads, update_self, hprio]
    · rw [setThread_threads, update_of_ne hx]

theorem refl (s : Scheduler) : Quiet s s := ⟨rfl, rfl, rfl, fun _ => rfl, fun _ => rfl⟩

theorem setCurrent (h : Quiet s s') : Quiet (s.setCurrent slot) (s'.setCurrent slot) := by
  refine ⟨h.runqueues, h.bitmap, rfl, ?_, ?_⟩
  · intro x
    rw [setCurrent_threads, setCurrent_threads]
    by_cases hx : x = slot
    · rw [hx, update_self, update_self]
    · rw [update_of_ne hx, update_of_ne hx, h.state]
  · intro x
    rw [setCurrent_threads, setCurrent_threads]
    by_cases hx : x = slot
    · rw [hx, update_self, update_self, h.priority]
    · rw [update_of_ne hx, update_of_ne hx, h.priority]

theorem addDispatch (slot : Slot) : Quiet s (s.addDispatch slot) := setThread rfl rfl

theorem addSwitch : Quiet s s.addSwitch := ⟨rfl, rfl, rfl, fun _ => rfl, fun _ => rfl⟩

theorem queues (h : Quiet s s') (hq : Queues s s.runnable) : Queues s' s'.runnable := by
  rw [runnable_congr h.state]
  exact hq.of_same h.runqueues h.bitmap fun slot _ => h.priority slot

theorem queueInv (h : Quiet s s') (hq : QueueInv s) : QueueInv s' := by
  refine ⟨h.queues hq.queues, ?_⟩
  intro slot hrun
  rw [h.currentSlot]
  exact hq.running slot (by rw [← h.state slot, hrun])

end Quiet

/-! ### The two halves of a switch -/

section Switch

variable {s : Scheduler} {c : Slot}

theorem QueueInv.parked_of_none (h : QueueInv s) (hc : s.currentSlot = none) : Parked s := by
  refine ⟨h.queues, ?_⟩
  intro slot hrun
  have hcur := h.running slot hrun
  rw [hc] at hcur
  cases hcur

theorem Queues.preempt (h : Queues s s.runnable) (slot : Slot) :
    Queues (s.preempt slot) (s.preempt slot).runnable := by
  rw [Scheduler.preempt]
  split_ifs with hrun
  · exact (h.place (by rw [hrun]; decide) rfl).2
  · exact h

/-- The current thread gives up the processor. -/
theorem QueueInv.preempt (h : QueueInv s) (hc : s.currentSlot = some c) :
    Parked (s.preempt c) := by
  refine ⟨h.queues.preempt c, ?_⟩
  intro slot hrun
  rw [preempt_threads] at hrun
  split_ifs at hrun with hc'
  · by_cases hslot : slot = c
    · subst hslot
      rw [update_self] at hrun
      cases hrun
    · rw [update_of_ne hslot] at hrun
      have hcur := h.running slot hrun
      rw [hc] at hcur
      exact hslot (Option.some.inj hcur).symm
  · have hcur := h.running slot hrun
    rw [hc] at hcur
    rw [Option.some.inj hcur] at hc'
    exact hc' hrun

/-- A slot outside the queues becomes the current, running one. -/
theorem Queues.setCurrent (hq : Queues s (s.runnable \ {slot})) :
    Queues (s.setCurrent slot) (s.setCurrent slot).runnable := by
  have hne : ({ s.threads slot with state := .running } : Thread).state ≠ .runnable := nofun
  exact (hq.retire hne).of_same rfl rfl fun _ _ => rfl

theorem Parked.setCurrent (hq : Queues s (s.runnable \ {slot}))
    (hstill : ∀ x, x ≠ slot → (s.threads x).state ≠ .running) : QueueInv (s.setCurrent slot) := by
  refine ⟨hq.setCurrent, ?_⟩
  intro x hx
  rw [setCurrent_currentSlot]
  by_cases hxs : x = slot
  · rw [hxs]
  · rw [setCurrent_threads, update_of_ne hxs] at hx
    exact absurd hx (hstill x hxs)

/-- **The best waiting thread gets the processor.** -/
theorem Queues.dispatch (h : Queues s s.runnable) {p : Priority} (hbest : s.bestPriority = some p) :
    ∃ next s', s.dequeue p = some (next, s') ∧ (s.queue p).head? = some next ∧
      (s.threads next).state = .runnable ∧ s'.threads = s.threads ∧
      s'.currentSlot = s.currentSlot ∧ s'.fixed = s.fixed ∧
      Queues (s'.setCurrent next) (s'.setCurrent next).runnable := by
  obtain ⟨next, s', hdeq, hhead, hmem, -, hthreads, hcur, hfixed, hq⟩ :=
    h.dequeue (h.depth_pos_of_bestPriority hbest)
  have hrun : s'.runnable = s.runnable := runnable_congr fun x => by rw [hthreads]
  refine ⟨next, s', hdeq, hhead, hmem, hthreads, hcur, hfixed, Queues.setCurrent ?_⟩
  rw [hrun]
  exact hq

theorem Parked.dispatch (h : Parked s) (hbest : s.bestPriority = some p) :
    ∃ next s', s.dequeue p = some (next, s') ∧ (s.queue p).head? = some next ∧
      (s.threads next).state = .runnable ∧ s'.threads = s.threads ∧
      s'.currentSlot = s.currentSlot ∧ s'.fixed = s.fixed ∧ QueueInv (s'.setCurrent next) := by
  obtain ⟨next, s', hdeq, hhead, hmem, hthreads, hcur, hfixed, hq⟩ := h.queues.dispatch hbest
  refine ⟨next, s', hdeq, hhead, hmem, hthreads, hcur, hfixed, hq, ?_⟩
  intro x hx
  rw [setCurrent_currentSlot]
  by_cases hxs : x = next
  · rw [hxs]
  · rw [setCurrent_threads, update_of_ne hxs, hthreads] at hx
    exact absurd hx (h.still x)

end Switch

/-! ### What happens to the threads -/

/-- A thread without its state and its counters. -/
def Thread.core (t : Thread) : Thread :=
  { t with state := .unused, totalTicks := 0, dispatchCount := 0 }

/-- States and counters change, but no thread appears, disappears or changes otherwise. -/
structure Moves (s s' : Scheduler) : Prop where
  fixed : s'.fixed = s.fixed
  core : ∀ slot, (s'.threads slot).core = (s.threads slot).core
  unused : ∀ slot, (s'.threads slot).state = .unused ↔ (s.threads slot).state = .unused

namespace Moves

variable {s s' s'' : Scheduler} {slot : Slot}

theorem refl (s : Scheduler) : Moves s s := ⟨rfl, fun _ => rfl, fun _ => Iff.rfl⟩

theorem trans (h : Moves s s') (h' : Moves s' s'') : Moves s s'' :=
  ⟨h'.fixed.trans h.fixed, fun slot => (h'.core slot).trans (h.core slot),
    fun slot => (h'.unused slot).trans (h.unused slot)⟩

theorem of_threads (hfixed : s'.fixed = s.fixed) (h : s'.threads = s.threads) : Moves s s' :=
  ⟨hfixed, fun slot => by rw [h], fun slot => by rw [h]⟩

theorem setThread (hcore : t.core = (s.threads slot).core)
    (hunused : t.state = .unused ↔ (s.threads slot).state = .unused) :
    Moves s (s.setThread slot t) := by
  refine ⟨rfl, ?_, ?_⟩
  · intro x
    by_cases hx : x = slot
    · subst hx
      rw [setThread_threads, update_self, hcore]
    · rw [setThread_threads, update_of_ne hx]
  · intro x
    by_cases hx : x = slot
    · subst hx
      rw [setThread_threads, update_self, hunused]
    · rw [setThread_threads, update_of_ne hx]

/-- A thread in use goes to another state in use. -/
theorem setState (hused : (s.threads slot).state ≠ .unused) (hstate : state ≠ .unused) :
    Moves s (s.setState slot state) :=
  setThread rfl (iff_of_false hstate hused)

theorem setCurrent (hused : (s.threads slot).state ≠ .unused) : Moves s (s.setCurrent slot) := by
  have hset : Moves s (s.setState slot .running) := setState hused nofun
  exact hset.trans (of_threads rfl rfl)

theorem addDispatch : Moves s (s.addDispatch slot) := setThread rfl Iff.rfl

theorem addSwitch : Moves s s.addSwitch := of_threads rfl rfl

theorem removeQueued : Moves s (s.removeQueued slot) :=
  of_threads (removeQueued_fixed s slot) (removeQueued_threads s slot)

theorem preempt : Moves s (s.preempt slot) := by
  rw [Scheduler.preempt]
  split_ifs with hrun
  · have hused : (s.threads slot).state ≠ .unused :=
      hrun.trans_ne (by simp)
    have hset : Moves s (s.setState slot .runnable) := setState hused (by simp)
    exact hset.trans (of_threads (enqueue_fixed _ slot) (enqueue_threads _ slot))
  · exact refl s

section

variable (h : Moves s s')

include h

theorem slotInv (hs : SlotInv s) : SlotInv s' := by
  intro slot hused
  have hcount : s'.threadCount = s.threadCount := congrArg Fixed.threadCount h.fixed
  rw [hcount]
  exact hs slot fun hunused => hused ((h.unused slot).mpr hunused)

theorem id (slot : Slot) : (s'.threads slot).id = (s.threads slot).id :=
  show (s'.threads slot).core.id = (s.threads slot).core.id by rw [h.core]

theorem role (slot : Slot) : (s'.threads slot).role = (s.threads slot).role :=
  show (s'.threads slot).core.role = (s.threads slot).core.role by rw [h.core]

theorem context (slot : Slot) : (s'.threads slot).context = (s.threads slot).context :=
  show (s'.threads slot).core.context = (s.threads slot).core.context by rw [h.core]

theorem basePriority (slot : Slot) :
    (s'.threads slot).basePriority = (s.threads slot).basePriority :=
  show (s'.threads slot).core.basePriority = (s.threads slot).core.basePriority by rw [h.core]

theorem threadGroupId (slot : Slot) :
    (s'.threads slot).threadGroupId = (s.threads slot).threadGroupId :=
  show (s'.threads slot).core.threadGroupId = (s.threads slot).core.threadGroupId by rw [h.core]

end

end Moves

end Hxnu.Sched
