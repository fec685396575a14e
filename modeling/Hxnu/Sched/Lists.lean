import Hxnu.Lib.Lanes
import Hxnu.Sched.Runs

/-!
# The run queues as lists

The run queues stand for 64 lists of waiting threads, the lanes of `Lanes`. Every switch acts on
them in two halves: first a thread joins the tail of its list or threads leave, then the head of the
lowest-numbered list that is not empty is dispatched. The others keep their order.

The invariant is weaker than `QueueInv`: a thread may wait although it has exited, since
`initial_context_pair` does not take the bootstrap thread out of its queue. A thread that runs or is
blocked never waits, and this is enough for the lists.

## Main definitions

* `Scheduler.lanes`: the lists.
* `Turned`, `Switches`: what an operation does to the lists.
* `Lined`: the invariant.
* `Halfway`: the first half of a switch.

## Main results

* `Lined.enqueue`, `Lined.removeQueued`, `Lined.dispatch`: the three changes of the lists.
* `Halfway.preempt`, `Halfway.dispatch`: the two halves of a switch.
-/

namespace Hxnu.Sched

open Word Scheduler Function

/-! ### The lists -/

/-- The lists that the run queues stand for. -/
def Scheduler.lanes (s : Scheduler) : Lanes maxPriorities Slot := s.queue

/-- The current thread, if it is running. -/
def Scheduler.outgoing (s : Scheduler) : Option Slot :=
  s.currentSlot.filter fun c => (s.threads c).state == .running

/-- The threads of a group that have not exited. -/
def Scheduler.inGroup (s : Scheduler) (group : ℕ) (x : Slot) : Bool :=
  (s.threads x).threadGroupId == group && (s.threads x).state != .exited

/-! ### Turns of the lists -/

/-- The lists take one turn. The threads that leave have exited, and a thread that has exited stays
so unless it is dispatched. -/
structure Turned (s : Scheduler) (added : Option Slot) (gone : Slot → Bool) (next : Option Slot)
    (s' : Scheduler) : Prop where
  turn : Lanes.Turn s'.priorityForThread s.lanes added gone next s'.lanes
  left : ∀ p, ∀ x ∈ s.lanes p, gone x = true → (s'.threads x).state = .exited
  exited : ∀ x, (s.threads x).state = .exited → next ≠ some x → (s'.threads x).state = .exited

/-- A turn in which the head of the lists is dispatched, unless they are all empty. -/
structure Switches (s : Scheduler) (added : Option Slot) (gone : Slot → Bool) (next : Option Slot)
    (s' : Scheduler) : Prop extends Turned s added gone next s' where
  idle : next = none → ∀ p, s'.lanes p = []
  current : ∀ x ∈ next, s'.currentSlot = some x ∧ (s'.threads x).state = .running

/-! ### The invariant -/

/-- The run queues hold the threads in `R`, each once and in the list of its priority; none of them
runs or is blocked. -/
structure Lined (s : Scheduler) (R : Set Slot) : Prop where
  queues : Queues s R
  waiting : ∀ x ∈ R, (s.threads x).state = .runnable ∨ (s.threads x).state = .exited
  priority : ∀ x, (s.threads x).basePriority = 0
  slots : SlotInv s
  initialized : s.initialized = true

namespace Lined

variable {s s' : Scheduler} {R : Set Slot} {slot : Slot} {t : Thread}

section

variable (h : Lined s R)

include h

theorem priorityForThread : s.priorityForThread = fun _ => 0 := by
  funext x
  simp [Scheduler.priorityForThread, h.priority]

theorem mem_lanes (hx : x ∈ s.lanes p) : x ∈ R :=
  ((h.queues.mem p x).mp hx).1

theorem not_mem (hx : (s.threads x).state = state) (hrun : state ≠ .runnable)
    (hexited : state ≠ .exited) : x ∉ R := by
  intro hmem
  rcases h.waiting x hmem with hstate | hstate
  · exact hrun (hx.symm.trans hstate)
  · exact hexited (hx.symm.trans hstate)

theorem lt_threadCount (hx : x ∈ R) : (x : ℕ) < s.threadCount := by
  refine h.slots x ?_
  rcases h.waiting x hx with hstate | hstate
  · exact hstate.trans_ne nofun
  · exact hstate.trans_ne nofun

/-- The bitmap has a bit for each list that is not empty. -/
theorem bitmap (p : Priority) : s.runqueueBitmap.getLsbD p = true ↔ s.queue p ≠ [] := by
  rw [h.queues.bitmap p, ← List.length_pos_iff, queue, ArrayQueue.length_toList]

theorem bestPriority : s.bestPriority = s.lanes.best := by
  have hbits : (fun p : Priority => s.runqueueBitmap.getLsbD p) =
      fun p => !(s.lanes p).isEmpty := by
    funext p
    rw [Bool.eq_iff_iff, h.bitmap p]
    simp [lanes]
  rw [Scheduler.bestPriority, hbits]
  rfl

/-! ### Updates of the table -/

/-- A change of the queues alone. -/
theorem of_threads (hq : Queues s' R') (ht : s'.threads = s.threads) (hfixed : s'.fixed = s.fixed)
    (hwait : ∀ x ∈ R', (s.threads x).state = .runnable ∨ (s.threads x).state = .exited) :
    Lined s' R' where
  queues := hq
  waiting := by
    rw [ht]
    exact hwait
  priority := by
    rw [ht]
    exact h.priority
  slots := by
    have hcount : s'.threadCount = s.threadCount := congrArg Fixed.threadCount hfixed
    intro x
    rw [ht, hcount]
    exact h.slots x
  initialized := (congrArg Fixed.initialized hfixed).trans h.initialized

theorem congr (hq : s'.runqueues = s.runqueues)
    (hb : s'.runqueueBitmap = s.runqueueBitmap) (ht : s'.threads = s.threads)
    (hfixed : s'.fixed = s.fixed) : Lined s' R :=
  h.of_threads (h.queues.of_same hq hb fun x _ => by rw [ht]) ht hfixed h.waiting

/-- Changing a thread, which may only wait if it is runnable or has exited. -/
theorem setThread (hwait : slot ∈ R → t.state = .runnable ∨ t.state = .exited)
    (hprio : t.basePriority = 0) (hlt : t.state ≠ .unused → (slot : ℕ) < s.threadCount) :
    Lined (s.setThread slot t) R := by
  have hself : (s.setThread slot t).threads slot = t := update_self ..
  have hother {x : Slot} (hx : x ≠ slot) : (s.setThread slot t).threads x = s.threads x :=
    update_of_ne hx ..
  have hpriority (x : Slot) : ((s.setThread slot t).threads x).basePriority = 0 := by
    by_cases hx : x = slot
    · rw [hx, hself, hprio]
    · rw [hother hx, h.priority]
  refine ⟨h.queues.of_same rfl rfl ?_, ?_, hpriority, ?_, h.initialized⟩
  · intro x _
    rw [hpriority, h.priority]
  · intro x hx
    by_cases hxs : x = slot
    · rw [hxs, hself]
      exact hwait (hxs ▸ hx)
    · rw [hother hxs]
      exact h.waiting x hx
  · intro x hused
    by_cases hxs : x = slot
    · rw [hxs, hself] at hused
      rw [hxs]
      exact hlt hused
    · rw [hother hxs] at hused
      exact h.slots x hused

theorem setState (hwait : slot ∈ R → state = .runnable ∨ state = .exited)
    (hlt : (slot : ℕ) < s.threadCount) : Lined (s.setState slot state) R :=
  h.setThread hwait (h.priority slot) fun _ => hlt

theorem setCurrent (hslot : slot ∉ R) (hlt : (slot : ℕ) < s.threadCount) :
    Lined (s.setCurrent slot) R := by
  have hset : Lined (s.setState slot .running) R := h.setState (fun hR => absurd hR hslot) hlt
  exact hset.congr rfl rfl rfl rfl

/-- Counters and saved contexts do not matter. -/
theorem quiet (hq : Quiet s s') (hfixed : s'.fixed = s.fixed) : Lined s' R where
  queues := h.queues.of_same hq.runqueues hq.bitmap fun x _ => hq.priority x
  waiting x hx := by
    rw [hq.state]
    exact h.waiting x hx
  priority x := by
    rw [hq.priority, h.priority]
  slots x hused := by
    rw [show s'.threadCount = s.threadCount from congrArg Fixed.threadCount hfixed]
    rw [hq.state] at hused
    exact h.slots x hused
  initialized := (congrArg Fixed.initialized hfixed).trans h.initialized

theorem clearCurrent : Lined s.clearCurrent R := h.congr rfl rfl rfl rfl

theorem addThread (hcount : s.threadCount + 1 < 2 ^ 64) : Lined s.addThread R := by
  refine ⟨h.queues.of_same rfl rfl fun _ _ => rfl, h.waiting, h.priority, ?_, h.initialized⟩
  intro x hused
  have hlt : (x : ℕ) < s.threadCount := h.slots x hused
  have hnew : s.addThread.threadCount = s.threadCount + 1 := wrapAdd_of_lt hcount
  rw [hnew]
  exact hlt.trans (Nat.lt_succ_self _)

/-! ### Updates of the lists -/

/-- **A thread joins the tail of its list.** -/
theorem enqueue (hslot : slot ∉ R) (hstate : (s.threads slot).state = .runnable) :
    Lined (s.enqueue slot).2 (insert slot R) ∧
      (s.enqueue slot).2.lanes = s.lanes.push (s.priorityForThread slot) slot := by
  obtain ⟨hok, hq⟩ := h.queues.enqueue hslot
  refine ⟨h.of_threads hq (enqueue_threads s slot) (enqueue_fixed s slot) ?_, ?_⟩
  · rintro x (rfl | hx)
    · exact .inl hstate
    · exact h.waiting x hx
  · funext p
    rw [lanes, enqueue_queue hok, Lanes.push]
    by_cases hp : p = s.priorityForThread slot
    · rw [if_pos hp, hp, update_self]
      rfl
    · rw [if_neg hp, update_of_ne hp]
      rfl

/-- **A thread leaves its list**, and the others keep their order. -/
theorem removeQueued (slot : Slot) : Lined (s.removeQueued slot) (R \ {slot}) ∧
      (s.removeQueued slot).lanes = s.lanes.keep (· != slot) := by
  refine ⟨h.of_threads (h.queues.removeQueued slot) (removeQueued_threads s slot)
    (removeQueued_fixed s slot) fun x hx => h.waiting x hx.1, ?_⟩
  · have hnot {p : Priority} (hp : slot ∉ s.queue p) : (s.queue p).filter (· != slot) = s.queue p :=
      List.filter_eq_self.mpr fun x hx => bne_iff_ne.mpr fun heq => hp (heq ▸ hx)
    funext p
    rw [Scheduler.removeQueued, Lanes.keep]
    split
    · rename_i i hi
      obtain ⟨hmem, hlist⟩ := ArrayQueue.toList_removeAt_indexOf hi
      rw [lanes, lanes, queue, shrinkQueue_runqueues]
      by_cases hp : p = s.priorityForThread slot
      · subst hp
        rw [update_self, hlist]
        exact (h.queues.nodup _).erase_eq_filter slot
      · rw [update_of_ne hp]
        exact (hnot fun hx => hp ((h.queues.mem p slot).mp hx).2.symm).symm
    · rename_i hnone
      refine (hnot fun hx => ?_).symm
      have hp := ((h.queues.mem p slot).mp hx).2
      subst hp
      exact ArrayQueue.indexOf_eq_none_iff.mp hnone hx

/-- **The head of the lists is dispatched.** -/
theorem dispatch (hbest : s.bestPriority = some p) :
    ∃ next s₁, s.dequeue p = some (next, s₁) ∧ s.lanes.head = some next ∧ next ∈ R ∧
      s₁.threads = s.threads ∧ s₁.currentSlot = s.currentSlot ∧ s₁.lanes = s.lanes.pop ∧
      Lined (s₁.setCurrent next) (R \ {next}) := by
  obtain ⟨next, s₁, hdeq, hhead, hmem, -, hthreads, hcur, hfixed, hq⟩ :=
    h.queues.dequeue (h.queues.depth_pos_of_bestPriority hbest)
  have hlanes : s₁.lanes = s.lanes.pop := by
    rw [Lanes.pop, ← h.bestPriority, hbest]
    rw [Scheduler.dequeue] at hdeq
    split at hdeq
    · cases hdeq
    · rename_i slot q hpop
      cases hdeq
      funext p'
      change (update s.runqueues p q p').toList =
        update s.lanes p (s.lanes p).tail p'
      by_cases hp : p' = p
      · subst hp
        have hlist : s.lanes p' = next :: q.toList := (ArrayQueue.toList_pop hpop).1
        rw [update_self, update_self, hlist, List.tail_cons]
      · rw [update_of_ne hp, update_of_ne hp]
        rfl
  have hlined : Lined s₁ (R \ {next}) :=
    h.of_threads hq hthreads hfixed fun x hx => h.waiting x hx.1
  have hlt : (next : ℕ) < s₁.threadCount := by
    rw [show s₁.threadCount = s.threadCount from congrArg Fixed.threadCount hfixed]
    exact h.lt_threadCount hmem
  refine ⟨next, s₁, hdeq, ?_, hmem, hthreads, hcur, hlanes, hlined.setCurrent (fun hx => hx.2 rfl) hlt⟩
  rw [Lanes.head, ← h.bestPriority, hbest]
  exact hhead

/-- Every waiting thread has the lowest priority number. -/
theorem bestPriority_of_head (hhead : s.lanes.head ≠ none) : s.bestPriority = some 0 := by
  rw [h.bestPriority]
  cases hbest : s.lanes.best with
  | none => exact absurd (by rw [Lanes.head, hbest]; rfl) hhead
  | some p =>
    have hp := hbest
    rw [← h.bestPriority] at hp
    obtain ⟨x, hx⟩ : ∃ x, x ∈ s.queue p := by
      have hpos := h.queues.depth_pos_of_bestPriority hp
      rw [← ArrayQueue.length_toList] at hpos
      exact List.exists_mem_of_length_pos hpos
    rw [← ((h.queues.mem p x).mp hx).2, h.priorityForThread]

end

end Lined

/-! ### Two halves of a switch -/

/-- The state `s₁` before the dispatch: one thread has joined the lists, and some have left. -/
structure Halfway (s : Scheduler) (added : Option Slot) (gone : Slot → Bool) (s₁ : Scheduler) :
    Prop where
  lined : ∃ R, Lined s₁ R
  lanes : s₁.lanes = s.lanes.updated (fun _ => 0) added gone
  left : ∀ p, ∀ x ∈ s.lanes p, gone x = true → (s₁.threads x).state = .exited
  exited : ∀ x, (s.threads x).state = .exited → (s₁.threads x).state = .exited

section Switch

variable {s s₁ s' s'' : Scheduler} {R : Set Slot} {c : Slot} {added next : Option Slot}
  {gone : Slot → Bool}

theorem outgoing_of_current (hc : s.currentSlot = some c) :
    s.outgoing = if (s.threads c).state = .running then some c else none := by
  rw [outgoing, hc]
  simp [Option.filter]

theorem outgoing_of_none (hc : s.currentSlot = none) : s.outgoing = none := by
  rw [outgoing, hc, Option.filter_none]

theorem Quiet.lanes (hq : Quiet s s') : s'.lanes = s.lanes := by
  funext p
  rw [Scheduler.lanes, queue, hq.runqueues]
  rfl

theorem Halfway.of_quiet (h : Lined s' R) (hq : Quiet s s') :
    Halfway s none (fun _ => false) s' where
  lined := ⟨R, h⟩
  lanes := by rw [hq.lanes, Lanes.updated_none]
  left := nofun
  exited x hx := by rw [hq.state, hx]

theorem Halfway.of_quiet_left (h : Halfway s' added gone s₁) (hq : Quiet s s') :
    Halfway s added gone s₁ where
  lined := h.lined
  lanes := by rw [h.lanes, hq.lanes]
  left := by
    rw [← hq.lanes]
    exact h.left
  exited x hx := h.exited x ((hq.state x).trans hx)

/-- **A thread that does not wait is put in a slot and joins the tail of its list.** -/
theorem Halfway.place (h : Lined s R) (hstate : (s.threads c).state = state)
    (hrun : state ≠ .runnable) (hlive : state ≠ .exited) (hlt : (c : ℕ) < s.threadCount)
    (ht : t.state = .runnable) (hprio : t.basePriority = 0) :
    Halfway s (some c) (fun _ => false) ((s.setThread c t).enqueue c).2 := by
  have hself : (s.setThread c t).threads c = t := update_self ..
  have hset : Lined (s.setThread c t) R := h.setThread (fun _ => .inl ht) hprio fun _ => hlt
  obtain ⟨hlined, hlanes⟩ := hset.enqueue (h.not_mem hstate hrun hlive) (by rw [hself, ht])
  refine ⟨⟨_, hlined⟩, ?_, nofun, ?_⟩
  · rw [hlanes, hset.priorityForThread, Lanes.updated_some]
    rfl
  · intro x hx
    have hne : x ≠ c := by
      rintro rfl
      exact hlive (hstate.symm.trans hx)
    rw [enqueue_threads, setThread_threads, update_of_ne hne, hx]

/-- **The first half of a switch**: the current thread joins the tail of its list if it was
running. -/
theorem Halfway.preempt (h : Lined s' R) (hq : Quiet s s') (hc : s.currentSlot = some c) :
    Halfway s s.outgoing (fun _ => false) (s'.preempt c) := by
  rw [outgoing_of_current hc, Scheduler.preempt, hq.state]
  split_ifs with hrun
  · have hstate : (s'.threads c).state = .running := (hq.state c).trans hrun
    have hplaced := Halfway.place h hstate (by simp) (by simp) (h.slots c (hstate.trans_ne (by simp)))
      (t := { s'.threads c with state := .runnable }) rfl (h.priority c)
    exact hplaced.of_quiet_left hq
  · exact .of_quiet h hq

theorem Halfway.turned (h : Halfway s added gone s₁) : Turned s added gone none s₁ := by
  obtain ⟨R, hlined⟩ := h.lined
  refine ⟨⟨nofun, ?_⟩, h.left, fun x hx _ => h.exited x hx⟩
  rw [hlined.priorityForThread]
  exact h.lanes

/-- With all lists empty, nothing is dispatched. -/
theorem Halfway.idle (h : Halfway s added gone s₁) (hbest : s₁.bestPriority = none) :
    Switches s added gone none s₁ := by
  obtain ⟨R, hlined⟩ := h.lined
  rw [hlined.bestPriority, Lanes.best_eq_none_iff] at hbest
  exact ⟨h.turned, fun _ => hbest, nofun⟩

/-- **The second half of a switch**: the head of the lists is dispatched. -/
theorem Halfway.dispatch (h : Halfway s added gone s₁) (hbest : s₁.bestPriority = some p) :
    ∃ next s₂, s₁.dequeue p = some (next, s₂) ∧ s₁.lanes.head = some next ∧
      s₂.currentSlot = s₁.currentSlot ∧ s₂.threads = s₁.threads ∧
      (∃ R, Lined (s₂.setCurrent next) R) ∧
      Switches s added gone (some next) (s₂.setCurrent next) := by
  obtain ⟨R, hlined⟩ := h.lined
  obtain ⟨next, s₂, hdeq, hhead, hmem, hthreads, hcur, hlanes, hlined'⟩ := hlined.dispatch hbest
  refine ⟨next, s₂, hdeq, hhead, hcur, hthreads, ⟨_, hlined'⟩, ⟨⟨?_, ?_⟩, ?_, ?_⟩, nofun, ?_⟩
  · rintro x ⟨⟩
    rw [hlined'.priorityForThread, ← h.lanes, hhead]
  · rw [hlined'.priorityForThread, ← h.lanes]
    exact hlanes
  · intro p' x hx hgone
    have hne : x ≠ next := by
      rintro rfl
      have hp := (hlined.queues.mem _ x).mpr ⟨hmem, rfl⟩
      change x ∈ s₁.lanes _ at hp
      rw [h.lanes] at hp
      have hstays := List.of_mem_filter hp
      rw [hgone] at hstays
      cases hstays
    rw [setCurrent_threads, update_of_ne hne, hthreads]
    exact h.left p' x hx hgone
  · intro x hx hne
    rw [setCurrent_threads, update_of_ne fun heq => hne (congrArg some heq.symm), hthreads]
    exact h.exited x hx
  · rintro x ⟨⟩
    rw [setCurrent_threads, update_self]
    exact ⟨rfl, rfl⟩

/-- Counters do not matter. -/
theorem Switches.quiet (h : Switches s added gone next s') (hq : Quiet s' s'') :
    Switches s added gone next s'' := by
  have hlane : s''.priorityForThread = s'.priorityForThread :=
    funext fun x => s'.priorityForThread_congr x (hq.priority x)
  refine ⟨⟨?_, ?_, ?_⟩, ?_, ?_⟩
  · rw [hlane, hq.lanes]
    exact h.turn
  · intro p x hx hgone
    rw [hq.state]
    exact h.left p x hx hgone
  · intro x hx hne
    rw [hq.state]
    exact h.exited x hx hne
  · rw [hq.lanes]
    exact h.idle
  · intro x hx
    rw [hq.currentSlot, hq.state]
    exact h.current x hx

end Switch

end Hxnu.Sched
