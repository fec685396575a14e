import Hxnu.Lib.Fallible
import Hxnu.Sched.Invariant

/-!
# The operations keep the invariant

One lemma per operation of the scheduler: from a state with the queue invariant it returns without a
panic, the invariant holds again, and what became of the threads is stated. The part of the
invariant about the queues alone is kept in more states than the whole of it, and comes first.

## Main definitions

* `SwitchedTo`: the states after the processor went from one thread to another.
* `GroupLeft`, `GroupExited`: the states after the exit of a thread group.
* `Spawned`: the threads after a new one was put in a slot.

## Main results

* `Queues.yieldCurrentUserThread`, `Queues.contextSwitchPair`, `Queues.requestExitGroup`,
  `Queues.createUserThread`, `Queues.forkCurrentThread`: what the operations do.
* `SwitchedTo.queueInv`, `GroupLeft.queueInv`, `Spawned.queueInv`: they keep the whole invariant.
* `QueueInv.blockCurrentThread`, `QueueInv.unblockThreadWithResult`, `QueueInv.freeSlot`.
-/

namespace Hxnu.Sched

open Word Scheduler Function

variable {slot x : Slot} {s : Scheduler} {targetPid : ℤ} {parentPid : ℕ}

/-! ### Switching -/

/-- The processor went from `c` to `next`: a thread that was running is runnable again, and `next`,
which was runnable, is running. -/
structure SwitchedTo (s : Scheduler) (c next : Slot) (s' : Scheduler) : Prop where
  ready : (s.threads next).state = .runnable ∨ next = c ∧ (s.threads c).state = .running
  current : s'.currentSlot = some next
  state : ∀ x, (s'.threads x).state =
    if x = next then .running
    else if x = c ∧ (s.threads c).state = .running then .runnable
    else (s.threads x).state

section Switch

variable {s : Scheduler} {c : Slot}

theorem state_preempt (x : Slot) : ((s.preempt c).threads x).state =
    if x = c ∧ (s.threads c).state = .running then .runnable else (s.threads x).state := by
  rw [preempt_threads]
  by_cases hrun : (s.threads c).state = .running
  · by_cases hx : x = c
    · subst hx
      simp [hrun]
    · simp [hrun, hx]
  · simp [hrun]

theorem setCurrent_of_current (hc : s.currentSlot = some c) :
    s.setCurrent c = s.setState c .running := by
  rw [Scheduler.setCurrent, ← hc]
  rfl

theorem enqueue_queue (h : (s.enqueue slot).1 = .ok ()) (p : Priority) :
    (s.enqueue slot).2.queue p =
      if p = s.priorityForThread slot then s.queue p ++ [slot] else s.queue p := by
  rw [Scheduler.enqueue] at h ⊢
  split_ifs at h ⊢ with hroom hp
  · subst hp
    simp [queue, ArrayQueue.toList_push]
  · simp [queue, hp]

/-- Requeueing a thread only appends to a queue. -/
theorem Queues.queue_preempt (h : Queues s s.runnable) (p : Priority) :
    ∃ l, (s.preempt c).queue p = s.queue p ++ l := by
  rw [Scheduler.preempt]
  split_ifs with hrun
  · have hok := (h.place (t := { s.threads c with state := .runnable })
      (hrun.trans_ne (by simp)) rfl).1
    change ((s.setState c .runnable).enqueue c).1 = .ok () at hok
    rw [enqueue_queue hok]
    split_ifs
    · exact ⟨[c], rfl⟩
    · exact ⟨[], (List.append_nil _).symm⟩
  · exact ⟨[], (List.append_nil _).symm⟩

/-- **A switch away from the current thread.** -/
theorem Queues.switch (h : Queues s s.runnable) (hc : s.currentSlot = some c)
    (hpos : 0 < ((s.preempt c).runqueues p).depth) :
    ∃ next s', (s.preempt c).dequeue p = some (next, s') ∧ s'.currentSlot = some c ∧
      ((s.preempt c).queue p).head? = some next ∧
      Queues (s'.setCurrent next) (s'.setCurrent next).runnable ∧
      SwitchedTo s c next (s'.setCurrent next) ∧ Moves s (s'.setCurrent next) := by
  obtain ⟨next, s', hdeq, hhead, hmem, -, hthreads, hcur, hfixed, hq⟩ :=
    (h.preempt c).dequeue hpos
  have hrunnable : s'.runnable = (s.preempt c).runnable :=
    runnable_congr fun x => by rw [hthreads]
  have hnext : ((s.preempt c).threads next).state = .runnable := hmem
  rw [preempt_currentSlot, hc] at hcur
  refine ⟨next, s', hdeq, hcur, hhead, Queues.setCurrent ?_, ⟨?_, rfl, ?_⟩, ?_⟩
  · rw [hrunnable]
    exact hq
  · rw [state_preempt] at hnext
    split_ifs at hnext with hcase
    · exact .inr hcase
    · exact .inl hnext
  · intro x
    rw [setCurrent_threads, hthreads]
    by_cases hx : x = next
    · subst hx
      simp
    · rw [update_of_ne hx, if_neg hx, state_preempt]
  · have hused : (s'.threads next).state ≠ .unused := by
      rw [hthreads, hnext]
      exact nofun
    exact Moves.preempt.trans ((Moves.of_threads hfixed hthreads).trans (.setCurrent hused))

/-- With no thread waiting and the current one not running, nothing can be dispatched. -/
theorem Queues.bestPriority_preempt (h : Queues s s.runnable)
    (hbest : (s.preempt c).bestPriority = none) :
    s.preempt c = s ∧ (s.threads c).state ≠ .running ∧ s.runnable = ∅ := by
  have hempty := (h.preempt c).bestPriority_eq_none_iff.mp hbest
  have hne : (s.threads c).state ≠ .running := by
    intro hrun
    have hmem : c ∈ (s.preempt c).runnable := by
      change ((s.preempt c).threads c).state = .runnable
      rw [state_preempt, if_pos ⟨rfl, hrun⟩]
    rw [hempty] at hmem
    exact hmem
  have hsame : s.preempt c = s := by rw [Scheduler.preempt, if_neg hne]
  exact ⟨hsame, hne, hsame ▸ hempty⟩

end Switch

namespace SwitchedTo

variable {s s' s'' : Scheduler} {c next : Slot}

/-- Counters do not matter. -/
theorem quiet (h : SwitchedTo s c next s') (hq : Quiet s' s'') : SwitchedTo s c next s'' :=
  ⟨h.ready, hq.currentSlot.trans h.current, fun x => (hq.state x).trans (h.state x)⟩

/-- Only a runnable or running thread becomes the running one. -/
theorem wakes (h : SwitchedTo s c next s') (hx : (s'.threads x).state = .running) :
    (s.threads x).state = .running ∨ (s.threads x).state = .runnable := by
  rw [h.state] at hx
  split_ifs at hx with hnext hcase
  · rw [hnext]
    rcases h.ready with hready | ⟨rfl, hready⟩
    · exact .inr hready
    · exact .inl hready
  · exact .inl hx

/-- The thread that was running before the switch no longer is. -/
theorem queueInv (h : SwitchedTo s c next s') (hinv : QueueInv s) (hc : s.currentSlot = some c)
    (hq : Queues s' s'.runnable) : QueueInv s' := by
  refine ⟨hq, ?_⟩
  intro x hx
  rw [h.current]
  rw [h.state] at hx
  split_ifs at hx with hnext hcase
  · rw [hnext]
  · have hxc : c = x := Option.some.inj (hc.symm.trans (hinv.running x hx))
    subst hxc
    exact absurd ⟨rfl, hx⟩ hcase

end SwitchedTo

/-! ### Yielding -/

/-- Replace the saved context of a thread. -/
def Scheduler.setContext (s : Scheduler) (c : Slot) (context : TaskContext) : Scheduler :=
  s.setThread c { s.threads c with context := context }

/-- The stack pointer that a yielding thread leaves in its context. -/
def Scheduler.saveRsp (s : Scheduler) (c : Slot) (rsp : ℕ) : Scheduler :=
  s.setContext c { (s.threads c).context with rsp := rsp }

theorem Quiet.setContext : Quiet s (s.setContext c context) :=
  .setThread rfl rfl

theorem Quiet.saveRsp : Quiet s (s.saveRsp c rsp) :=
  .setContext

section Yield

variable {s : Scheduler} {c : Slot} {rsp : ℕ}

/-- A yield by anyone but a user thread that has not exited does nothing. -/
theorem yieldCurrentUserThread_of_not
    (h : ∀ c, s.initialized = true → s.currentSlot = some c → (s.threads c).role = .user →
      (s.threads c).state = .exited) :
    s.yieldCurrentUserThread rsp = .ok (none, s) := by
  rw [yieldCurrentUserThread]
  split_ifs with hinit
  · rfl
  · cases hc : s.currentSlot with
    | none => rfl
    | some c =>
      rw [Bool.not_eq_false] at hinit
      refine if_pos ?_
      rw [or_iff_not_imp_left, not_not]
      exact h c hinit hc

/-- The steps of a yield by a user thread that has not exited. -/
theorem yieldCurrentUserThread_of_user (hinit : s.initialized = true)
    (hc : s.currentSlot = some c) (hrole : (s.threads c).role = .user)
    (hstate : (s.threads c).state ≠ .exited) (rsp : ℕ) :
    s.yieldCurrentUserThread rsp =
      match ((s.saveRsp c rsp).preempt c).bestPriority with
      | none => .ok (none, (s.saveRsp c rsp).preempt c)
      | some p =>
        match ((s.saveRsp c rsp).preempt c).dequeue p with
        | none => .error .unwrapNone
        | some (next, s') =>
          if next = c then .ok (none, s'.setState c .running)
          else .ok (some next, ((s'.setCurrent next).addDispatch next).addSwitch) := by
  have hguard : ¬ ((s.threads c).role ≠ .user ∨ (s.threads c).state = .exited) := by
    rintro (hne | heq)
    · exact hne hrole
    · exact hstate heq
  rw [Scheduler.yieldCurrentUserThread, if_neg (by rw [hinit]; exact nofun), hc]
  exact if_neg hguard

/-- **A yield by a user thread.** Either nothing else can run and the caller does not run either, or
the head of the best queue is dispatched, and the result is `None` if that is the caller. -/
theorem Queues.yieldCurrentUserThread (h : Queues s s.runnable) (hinit : s.initialized = true)
    (hc : s.currentSlot = some c) (hrole : (s.threads c).role = .user)
    (hstate : (s.threads c).state ≠ .exited) (rsp : ℕ) :
    s.yieldCurrentUserThread rsp = .ok (none, s.saveRsp c rsp) ∧
        (s.threads c).state ≠ .running ∧ s.runnable = ∅ ∨
      ∃ next s', s.yieldCurrentUserThread rsp = .ok (if next = c then none else some next, s') ∧
        Queues s' s'.runnable ∧ SwitchedTo (s.saveRsp c rsp) c next s' ∧
        Moves (s.saveRsp c rsp) s' := by
  have hsaved : Queues (s.saveRsp c rsp) (s.saveRsp c rsp).runnable := Quiet.saveRsp.queues h
  rw [yieldCurrentUserThread_of_user hinit hc hrole hstate rsp]
  cases hbest : ((s.saveRsp c rsp).preempt c).bestPriority with
  | none =>
    obtain ⟨hsame, hne, hempty⟩ := hsaved.bestPriority_preempt hbest
    rw [Quiet.saveRsp.state] at hne
    rw [runnable_congr Quiet.saveRsp.state] at hempty
    refine .inl ⟨?_, hne, hempty⟩
    rw [hsame]
  | some p =>
    obtain ⟨next, s', hdeq, hcur, -, hq, hsw, hmoves⟩ :=
      hsaved.switch hc ((hsaved.preempt c).depth_pos_of_bestPriority hbest)
    simp only [hdeq]
    by_cases hnext : next = c
    · -- The caller is dispatched again, and `current_slot` still points to it.
      subst hnext
      refine .inr ⟨next, s'.setCurrent next, ?_, hq, hsw, hmoves⟩
      rw [if_pos rfl, if_pos rfl, setCurrent_of_current hcur]
    · refine .inr ⟨next, ((s'.setCurrent next).addDispatch next).addSwitch, ?_, ?_, ?_, ?_⟩
      · rw [if_neg hnext, if_neg hnext]
      · exact Quiet.addSwitch.queues ((Quiet.addDispatch next).queues hq)
      · exact (hsw.quiet (.addDispatch next)).quiet .addSwitch
      · exact (hmoves.trans .addDispatch).trans .addSwitch

end Yield

/-! ### Switching kernel contexts -/

section ContextSwitch

variable {s : Scheduler} {next : Slot}

theorem nextSwitchIndex_eq_some (h : s.nextSwitchIndex = some next) :
    ∃ p, s.bestPriority = some p ∧ (s.queue p).head? = some next ∧ s.currentSlot ≠ some next := by
  rw [nextSwitchIndex] at h
  split_ifs at h
  split at h
  · cases h
  · rename_i p hbest
    split at h
    · cases h
    · rename_i head hhead
      split_ifs at h with hne
      cases h
      exact ⟨p, hbest, hhead, hne.symm⟩

/-- **A switch of kernel contexts.** The head of the best queue is dispatched unless there is
none. -/
theorem Queues.contextSwitchPair (h : Queues s s.runnable) :
    s.contextSwitchPair = .ok (none, s) ∨
      ∃ c next s', s.currentSlot = some c ∧ next ≠ c ∧
        s.contextSwitchPair = .ok (some (c, next, s'.dispatchSnapshot next), s') ∧
        Queues s' s'.runnable ∧ SwitchedTo s c next s' ∧ Moves s s' := by
  rw [Scheduler.contextSwitchPair]
  cases hc : s.currentSlot with
  | none => exact .inl rfl
  | some c =>
    cases hnext : s.nextSwitchIndex with
    | none => exact .inl rfl
    | some next =>
      obtain ⟨p, -, hhead, hne⟩ := nextSwitchIndex_eq_some hnext
      rw [hc] at hne
      have hprio : s.priorityForThread next = p :=
        ((h.mem p next).mp (List.mem_of_mem_head? hhead)).2
      have hprio' : (s.preempt c).priorityForThread next = p := by
        rw [s.priorityForThread_congr next (Moves.preempt.basePriority next), hprio]
      -- The current thread is requeued behind `next`, so `next` is still the head.
      obtain ⟨l, hl⟩ := h.queue_preempt (c := c) p
      have hhead' : ((s.preempt c).queue p).head? = some next := by
        rw [hl, List.head?_append, hhead, Option.some_or]
      have hpos : 0 < ((s.preempt c).runqueues p).depth := by
        rw [← ArrayQueue.length_toList]
        exact List.length_pos_of_mem (List.mem_of_mem_head? hhead')
      obtain ⟨dequeued, s', hdeq, -, hheadd, hq, hsw, hmoves⟩ := h.switch hc hpos
      have hdequeued : dequeued = next := by
        rw [hhead'] at hheadd
        exact (Option.some.inj hheadd).symm
      subst hdequeued
      have hcd : c ≠ dequeued := fun heq => hne (congrArg some heq)
      refine .inr ⟨c, dequeued, ((s'.setCurrent dequeued).addDispatch dequeued).addSwitch,
        rfl, hcd.symm, ?_, ?_, ?_, ?_⟩
      · simp only [hprio', hdeq, if_neg hcd]
      · exact Quiet.addSwitch.queues ((Quiet.addDispatch dequeued).queues hq)
      · exact (hsw.quiet (.addDispatch dequeued)).quiet .addSwitch
      · exact (hmoves.trans .addDispatch).trans .addSwitch

end ContextSwitch

/-! ### Ending a thread group -/

section Exit

variable {s : Scheduler} {c : Slot} {group : ℕ}

/-- Setting a thread to a state other than `Runnable` and taking it out of its queue. -/
theorem Queues.leave (h : Queues s s.runnable) (hstate : state ≠ .runnable) :
    Queues ((s.setState slot state).removeQueued slot)
      ((s.setState slot state).removeQueued slot).runnable := by
  have hprio : Queues (s.setState slot state) s.runnable := by
    refine h.of_same rfl rfl ?_
    intro x _
    exact basePriority_setState state x
  have hrun : ((s.setState slot state).removeQueued slot).runnable = s.runnable \ {slot} := by
    rw [← runnable_setThread_of_ne (t := { s.threads slot with state := state }) hstate]
    exact runnable_congr fun x => by rw [removeQueued_threads]; rfl
  rw [hrun]
  exact hprio.removeQueued slot

/-- What the loop of `request_exit_group` has done after the slots in `l`. -/
structure ExitedIn (s : Scheduler) (group : ℕ) (l : List Slot) (s' : Scheduler) : Prop where
  queues : Queues s' s'.runnable
  fixed : s'.fixed = s.fixed
  currentSlot : s'.currentSlot = s.currentSlot
  threads : ∀ x, s'.threads x =
    if x ∈ l ∧ (s.threads x).threadGroupId = group then { s.threads x with state := .exited }
    else s.threads x

namespace ExitedIn

/-- One turn of the loop of `request_exit_group`. -/
theorem exitSlot (h : Queues s s.runnable) (slot : Slot) (count : ℕ) :
    ExitedIn s group [slot] (exitSlot group (s, count) slot).1 := by
  rw [Scheduler.exitSlot]
  split_ifs with hexit
  · refine ⟨h.leave nofun, ?_, ?_, ?_⟩
    · rw [removeQueued_fixed, setState_fixed]
    · rw [removeQueued_currentSlot, setState_currentSlot]
    · intro x
      rw [removeQueued_threads, setState_threads]
      by_cases hx : x = slot
      · subst hx
        rw [update_self, if_pos ⟨List.mem_singleton_self x, hexit.1⟩]
      · rw [update_of_ne hx, if_neg fun hmem => hx (List.mem_singleton.mp hmem.1)]
  · refine ⟨h, rfl, rfl, ?_⟩
    intro x
    split_ifs with hx
    · obtain ⟨hx, hgroup⟩ := hx
      rw [List.mem_singleton] at hx
      subst hx
      have hexited : (s.threads x).state = .exited := by
        by_contra hne
        exact hexit ⟨hgroup, hne⟩
      rw [← hexited]
    · rfl

theorem append (h : ExitedIn s group l s') (h' : ExitedIn s' group l' s'') :
    ExitedIn s group (l ++ l') s'' := by
  refine ⟨h'.queues, h'.fixed.trans h.fixed, h'.currentSlot.trans h.currentSlot, ?_⟩
  intro x
  rw [h'.threads, h.threads]
  simp only [List.mem_append]
  split_ifs <;> simp_all

/-- The whole loop. -/
theorem foldl (h : Queues s s.runnable) (l : List Slot) (count : ℕ) :
    ExitedIn s group l (l.foldl (Scheduler.exitSlot group) (s, count)).1 := by
  induction l generalizing s count with
  | nil => exact ⟨h, rfl, rfl, fun x => by simp⟩
  | cons slot l ih =>
    have hone : ExitedIn s group [slot] _ := exitSlot h slot count
    exact hone.append (ih hone.queues _)

end ExitedIn

/-- The threads after the group of the thread in slot `c` has exited. -/
structure GroupExited (s : Scheduler) (c : Slot) (s' : Scheduler) : Prop where
  fixed : s'.fixed = s.fixed
  core : ∀ x, (s'.threads x).core = (s.threads x).core
  state : ∀ x, (s'.threads x).state =
    if (x : ℕ) < s.threadCount ∧ (s.threads x).threadGroupId = (s.threads c).threadGroupId then
      .exited
    else if s'.currentSlot = some x then .running
    else (s.threads x).state
  next : ∀ x, s'.currentSlot = some x → (s.threads x).state = .runnable ∧
    (s.threads x).threadGroupId ≠ (s.threads c).threadGroupId
  idle : s'.currentSlot = none → ∀ x, (s.threads x).state = .runnable →
    (s.threads x).threadGroupId = (s.threads c).threadGroupId

/-- The slots below `thread_count`, over which the loops of the scheduler run. -/
def Scheduler.liveSlots (s : Scheduler) : List Slot :=
  (List.finRange maxThreads).filter fun slot : Slot => slot.val < s.threadCount

theorem mem_liveSlots : x ∈ s.liveSlots ↔ (x : ℕ) < s.threadCount := by
  simp [liveSlots]

theorem forEachSlot_of_le {β : Type} (h : s.threadCount ≤ maxThreads) (body : β → Slot → β)
    (b : β) : forEachSlot s.threadCount body b = .ok (s.liveSlots.foldl body b) := by
  rw [forEachSlot, if_neg (not_lt.mpr h)]
  rfl

namespace ExitedIn

variable {s₁ : Scheduler} {l : List Slot}

theorem core (he : ExitedIn s group l s₁) (x : Slot) :
    (s₁.threads x).core = (s.threads x).core := by
  rw [he.threads]
  split_ifs <;> rfl

theorem state (he : ExitedIn s group s.liveSlots s₁) (x : Slot) : (s₁.threads x).state =
    if (x : ℕ) < s.threadCount ∧ (s.threads x).threadGroupId = group then .exited
    else (s.threads x).state := by
  rw [he.threads]
  simp only [mem_liveSlots]
  split_ifs <;> rfl

end ExitedIn

/-- What `request_exit_group` has done, where slots beyond `thread_count` may be in use: its loop
does not get to those. -/
structure GroupLeft (s : Scheduler) (c : Slot) (s' : Scheduler) : Prop where
  queues : Queues s' s'.runnable
  fixed : s'.fixed = s.fixed
  core : ∀ x, (s'.threads x).core = (s.threads x).core
  state : ∀ x, (s'.threads x).state =
    if (x : ℕ) < s.threadCount ∧ (s.threads x).threadGroupId = (s.threads c).threadGroupId then
      .exited
    else if s'.currentSlot = some x then .running
    else (s.threads x).state
  next : ∀ x, s'.currentSlot = some x → (s.threads x).state = .runnable ∧
    ¬ ((x : ℕ) < s.threadCount ∧ (s.threads x).threadGroupId = (s.threads c).threadGroupId)
  idle : s'.currentSlot = none → s'.runnable = ∅

namespace ExitedIn

variable {s₁ : Scheduler}

/-- No other thread waits. -/
theorem groupLeft_clearCurrent (he : ExitedIn s (s.threads c).threadGroupId s.liveSlots s₁)
    (hempty : s₁.runnable = ∅) : GroupLeft s c s₁.clearCurrent := by
  refine ⟨he.queues.of_same rfl rfl fun _ _ => rfl, he.fixed, he.core, ?_, nofun, fun _ => hempty⟩
  intro x
  exact (he.state x).trans (by simp [clearCurrent])

/-- Another thread is dispatched. -/
theorem groupLeft_setCurrent {s₂ : Scheduler} {next : Slot}
    (he : ExitedIn s (s.threads c).threadGroupId s.liveSlots s₁)
    (hnext : (s₁.threads next).state = .runnable) (hthreads : s₂.threads = s₁.threads)
    (hfixed : s₂.fixed = s₁.fixed)
    (hq : Queues (s₂.setCurrent next) (s₂.setCurrent next).runnable) :
    GroupLeft s c (s₂.setCurrent next).addSwitch := by
  have hstate := he.state
  have hgone : ¬ ((next : ℕ) < s.threadCount ∧
      (s.threads next).threadGroupId = (s.threads c).threadGroupId) := by
    intro hgone
    rw [hstate, if_pos hgone] at hnext
    cases hnext
  have hused : (s₂.threads next).state ≠ .unused := by
    rw [hthreads, hnext]
    exact nofun
  rw [hstate, if_neg hgone] at hnext
  have hmoves : Moves s₁ (s₂.setCurrent next).addSwitch :=
    (Moves.of_threads hfixed hthreads).trans ((Moves.setCurrent hused).trans .addSwitch)
  refine ⟨Quiet.addSwitch.queues hq, hmoves.fixed.trans he.fixed,
    fun x => (hmoves.core x).trans (he.core x), ?_, ?_, nofun⟩
  · intro x
    rw [addSwitch_threads, addSwitch_currentSlot, setCurrent_threads, setCurrent_currentSlot,
      hthreads]
    by_cases hx : x = next
    · subst hx
      rw [update_self, if_neg hgone, if_pos rfl]
    · rw [update_of_ne hx, hstate, if_neg (fun heq => hx (Option.some.inj heq).symm)]
  · intro x hx
    rw [addSwitch_currentSlot, setCurrent_currentSlot] at hx
    cases hx
    exact ⟨hnext, hgone⟩

end ExitedIn

/-- **The exit of a thread group.** Its threads below `thread_count` exit, and the head of the best
queue, which is not one of them, is dispatched. -/
theorem Queues.requestExitGroup (h : Queues s s.runnable)
    (hcount : s.threadCount ≤ maxThreads) (hinit : s.initialized = true)
    (hc : s.currentSlot = some c) (hstate : (s.threads c).state ≠ .exited)
    (hgroup : (s.threads c).threadGroupId ≠ 0) (status : ℤ) :
    ∃ record s', s.requestExitGroup status = .ok (some record, s') ∧ GroupLeft s c s' := by
  have hguard := not_or.mpr ⟨hstate, hgroup⟩
  have he : ExitedIn s (s.threads c).threadGroupId s.liveSlots _ :=
    ExitedIn.foldl h s.liveSlots 0
  rw [Scheduler.requestExitGroup, if_neg (by rw [hinit]; exact nofun), hc]
  simp only [if_neg hguard]
  rw [forEachSlot_of_le hcount]
  generalize s.liveSlots.foldl (Scheduler.exitSlot (s.threads c).threadGroupId) (s, 0) = r at he ⊢
  obtain ⟨s₁, count⟩ := r
  have hq : Queues s₁.clearCurrent s₁.clearCurrent.runnable :=
    he.queues.of_same rfl rfl fun _ _ => rfl
  simp only [bind, Except.bind]
  have hsame : (s₁.threads c).threadGroupId = (s.threads c).threadGroupId :=
    show (s₁.threads c).core.threadGroupId = _ by rw [he.core]; rfl
  rw [if_pos hsame]
  cases hbest : s₁.clearCurrent.bestPriority with
  | none =>
    have hempty : s₁.runnable = ∅ := hq.bestPriority_eq_none_iff.mp hbest
    exact ⟨_, _, rfl, he.groupLeft_clearCurrent hempty⟩
  | some p =>
    obtain ⟨next, s₂, hdeq, -, hnext, hthreads, -, hfixed, hq'⟩ := hq.dispatch hbest
    simp only [hdeq]
    exact ⟨_, _, rfl, he.groupLeft_setCurrent hnext hthreads hfixed hq'⟩

namespace GroupLeft

variable {s' : Scheduler}

/-- With every slot in use below `thread_count`, the whole group has exited. -/
theorem groupExited (h : GroupLeft s c s') (hslots : SlotInv s) : GroupExited s c s' := by
  refine ⟨h.fixed, h.core, h.state, ?_, ?_⟩
  · intro x hx
    obtain ⟨hrun, hgone⟩ := h.next x hx
    refine ⟨hrun, fun heq => hgone ⟨hslots x ?_, heq⟩⟩
    rw [hrun]
    exact nofun
  · intro hnone x hx
    by_contra hother
    have hmem : x ∈ s'.runnable := by
      change (s'.threads x).state = .runnable
      rw [h.state, if_neg fun hgone => hother hgone.2, hnone, if_neg nofun, hx]
    rw [h.idle hnone] at hmem
    exact hmem

theorem queueInv (h : GroupLeft s c s') (hinv : QueueInv s) (hslots : SlotInv s)
    (hc : s.currentSlot = some c) : QueueInv s' := by
  refine ⟨h.queues, ?_⟩
  intro x hx
  rw [h.state] at hx
  split_ifs at hx with hgone hnext
  · exact hnext
  · have hxc : c = x := Option.some.inj (hc.symm.trans (hinv.running x hx))
    subst hxc
    have hused : (s.threads c).state ≠ .unused :=
      hx.trans_ne nofun
    exact absurd ⟨hslots c hused, rfl⟩ hgone

end GroupLeft

theorem QueueInv.requestExitGroup (h : QueueInv s) (hslots : SlotInv s)
    (hcount : s.threadCount ≤ maxThreads) (hinit : s.initialized = true)
    (hc : s.currentSlot = some c) (hstate : (s.threads c).state ≠ .exited)
    (hgroup : (s.threads c).threadGroupId ≠ 0) (status : ℤ) :
    ∃ record s', s.requestExitGroup status = .ok (some record, s') ∧ QueueInv s' ∧
      GroupExited s c s' := by
  obtain ⟨record, s', hexit, hleft⟩ :=
    h.queues.requestExitGroup hcount hinit hc hstate hgroup status
  exact ⟨record, s', hexit, hleft.queueInv h hslots hc, hleft.groupExited hslots⟩

namespace GroupExited

variable {s' : Scheduler}

theorem slotInv (h : GroupExited s c s') (hslots : SlotInv s) : SlotInv s' := by
  intro x hused
  rw [show s'.threadCount = s.threadCount from congrArg Fixed.threadCount h.fixed]
  rw [h.state] at hused
  split_ifs at hused with hgone hnext
  · exact hgone.1
  · refine hslots x ?_
    rw [(h.next x hnext).1]
    exact nofun
  · exact hslots x hused

/-- If no free slot carries the number of the group, threads only change their states. -/
theorem moves (h : GroupExited s c s')
    (hfree : ∀ x, (s.threads x).state = .unused →
      (s.threads x).threadGroupId ≠ (s.threads c).threadGroupId) : Moves s s' := by
  refine ⟨h.fixed, h.core, ?_⟩
  intro x
  rw [h.state]
  split_ifs with hgone hnext
  · exact iff_of_false nofun fun hunused => hfree x hunused hgone.2
  · rw [(h.next x hnext).1]
    exact iff_of_false nofun nofun
  · rfl

theorem wakes (h : GroupExited s c s') (hx : (s'.threads x).state = .running) :
    (s.threads x).state = .running ∨ (s.threads x).state = .runnable := by
  rw [h.state] at hx
  split_ifs at hx with hgone hnext
  · exact .inr (h.next x hnext).1
  · exact .inl hx

end GroupExited

/-- Without a running thread of a group there is nothing to exit. -/
theorem requestExitGroup_of_not
    (h : ∀ c, s.initialized = true → s.currentSlot = some c → (s.threads c).state = .exited ∨
      (s.threads c).threadGroupId = 0) : s.requestExitGroup status = .ok (none, s) := by
  rw [Scheduler.requestExitGroup]
  split_ifs with hinit
  · rfl
  · cases hc : s.currentSlot with
    | none => rfl
    | some c =>
      rw [Bool.not_eq_false] at hinit
      exact if_pos (h c hinit hc)

end Exit

/-! ### New threads -/

/-- A thread that does not run takes a slot. -/
theorem QueueInv.of_update (h : QueueInv s) (hq : Queues s' s'.runnable)
    (hthreads : s'.threads = update s.threads slot t) (ht : t.state ≠ .running)
    (hcurrent : s'.currentSlot = s.currentSlot) : QueueInv s' := by
  refine ⟨hq, ?_⟩
  intro x hx
  rw [hthreads] at hx
  rw [hcurrent]
  by_cases hxs : x = slot
  · rw [hxs, update_self] at hx
    exact absurd hx ht
  · rw [update_of_ne hxs] at hx
    exact h.running x hx

/-- A thread was put in a slot and enqueued. -/
structure Spawned (s : Scheduler) (slot : Slot) (t : Thread) (s' : Scheduler) : Prop where
  threads : s'.threads = update s.threads slot t
  currentSlot : s'.currentSlot = s.currentSlot
  fixed : s'.fixed = s.addThread.fixed

section Spawn

variable {s s' : Scheduler} {slot : Slot} {t : Thread}

theorem Spawned.enqueue : Spawned s slot t ((s.addThread.setThread slot t).enqueue slot).2 := by
  refine ⟨?_, ?_, ?_⟩
  · rw [enqueue_threads]
    rfl
  · rw [enqueue_currentSlot]
    rfl
  · rw [enqueue_fixed, setThread_fixed]

/-- **A new thread in a slot that does not wait.** -/
theorem Queues.spawn (h : Queues s s.runnable) (hslot : (s.threads slot).state ≠ .runnable)
    (ht : t.state = .runnable) :
    ((s.addThread.setThread slot t).enqueue slot).1 = .ok () ∧
      Queues ((s.addThread.setThread slot t).enqueue slot).2
        ((s.addThread.setThread slot t).enqueue slot).2.runnable := by
  have hq : Queues s.addThread s.addThread.runnable := h.of_same rfl rfl fun _ _ => rfl
  exact hq.place hslot ht

namespace Spawned

theorem threadCount (h : Spawned s slot t s') (hcount : s.threadCount + 1 < 2 ^ 64) :
    s'.threadCount = s.threadCount + 1 := by
  rw [show s'.threadCount = s.addThread.threadCount from congrArg Fixed.threadCount h.fixed]
  exact wrapAdd_of_lt hcount

theorem slotInv (h : Spawned s slot t s') (hcount : s.threadCount + 1 < 2 ^ 64)
    (hslot : (slot : ℕ) ≤ s.threadCount) (hslots : SlotInv s) : SlotInv s' := by
  intro x hused
  rw [h.threadCount hcount]
  rw [h.threads] at hused
  by_cases hx : x = slot
  · rw [hx]
    exact Nat.lt_succ_of_le hslot
  · rw [update_of_ne hx] at hused
    exact (hslots x hused).trans (Nat.lt_succ_self _)

theorem wakes (h : Spawned s slot t s') (ht : t.state = .runnable)
    (hx : (s'.threads x).state = .running) :
    (s.threads x).state = .running ∨ (s.threads x).state = .runnable := by
  rw [h.threads] at hx
  by_cases hxs : x = slot
  · rw [hxs, update_self, ht] at hx
    cases hx
  · rw [update_of_ne hxs] at hx
    exact .inl hx

theorem queueInv (h : Spawned s slot t s') (ht : t.state = .runnable) (hinv : QueueInv s)
    (hq : Queues s' s'.runnable) : QueueInv s' :=
  hinv.of_update hq h.threads (ht.trans_ne nofun) h.currentSlot

end Spawned

/-- The thread that `create_user_thread` makes. -/
def Scheduler.userThread (s : Scheduler) (P : Platform) (slot : Slot) (pageTable : ℕ) : Thread :=
  { Thread.empty with
    id := s.nextThreadId
    processId := s.nextThreadId
    threadGroupId := s.nextThreadId
    name := "user-init"
    role := .user
    state := .runnable
    context := initializeUserThread P slot pageTable }

theorem setThread_addThread_setThread :
    (s.setThread slot t).addThread.setThread slot t' = s.addThread.setThread slot t' := by
  simp [setThread, addThread]

theorem threads_setThread_addThread : (s.setThread slot t).addThread.threads slot = t :=
  show update s.threads slot t slot = t from update_self ..

/-- A user thread in the slot after the last, as far as it gets. -/
theorem createUserThread_of_lt (hinit : s.initialized = true)
    (hcount : s.threadCount < maxThreads) :
    let slot : Slot := ⟨s.threadCount, hcount⟩
    let queued := (s.addThread.setThread slot (s.userThread P slot pageTable)).enqueue slot
    s.createUserThread P pageTable =
      (queued.1.map fun _ => ⟨s.nextThreadId, s.nextThreadId⟩, queued.2) := by
  intro slot queued
  have hthread : queued.2.threads slot = s.userThread P slot pageTable :=
    (congrFun (enqueue_threads _ slot) slot).trans (update_self ..)
  rw [Scheduler.createUserThread, if_neg (by rw [hinit]; exact nofun), createThread,
    dif_pos hcount]
  simp only
  rw [setThread_addThread_setThread, threads_setThread_addThread]
  split
  · rename_i e s' heq
    rw [show queued = (.error e, s') from heq]
    rfl
  · rename_i s' heq
    rw [show queued = (.ok (), s') from heq] at hthread ⊢
    change s'.threads slot = _ at hthread
    simp only [slot] at hthread ⊢
    rw [hthread]
    rfl

/-- **A user thread is created** in the slot after the last. -/
theorem Queues.createUserThread (h : Queues s s.runnable) (hinit : s.initialized = true)
    (hcount : s.threadCount < maxThreads)
    (hslot : (s.threads ⟨s.threadCount, hcount⟩).state ≠ .runnable) (P : Platform)
    (pageTable : ℕ) :
    ∃ s', s.createUserThread P pageTable = (.ok ⟨s.nextThreadId, s.nextThreadId⟩, s') ∧
      Queues s' s'.runnable ∧
      Spawned s ⟨s.threadCount, hcount⟩ (s.userThread P ⟨s.threadCount, hcount⟩ pageTable) s' := by
  obtain ⟨hok, hq⟩ := h.spawn (t := s.userThread P ⟨s.threadCount, hcount⟩ pageTable) hslot rfl
  refine ⟨_, ?_, hq, .enqueue⟩
  rw [createUserThread_of_lt hinit hcount, hok]
  rfl

theorem createUserThread_of_full (h : s.initialized = false ∨ maxThreads ≤ s.threadCount)
    (P : Platform) (pageTable : ℕ) :
    ∃ e, s.createUserThread P pageTable = (.error e, s) := by
  rw [Scheduler.createUserThread]
  split_ifs with hinit
  · exact ⟨_, rfl⟩
  · have hfull : ¬ s.threadCount < maxThreads := not_lt.mpr (h.resolve_left hinit)
    rw [createThread, dif_neg hfull]
    exact ⟨_, rfl⟩

/-- What `create_user_thread` can do. -/
theorem createUserThread_spawns (s : Scheduler) (P : Platform) (pageTable : ℕ) :
    (∃ e, s.createUserThread P pageTable = (.error e, s)) ∨
      ∃ slot, Spawned s slot (s.userThread P slot pageTable) (s.createUserThread P pageTable).2 ∧
        ∀ spawned, (s.createUserThread P pageTable).1 = .ok spawned →
          spawned = ⟨s.nextThreadId, s.nextThreadId⟩ := by
  by_cases hfull : s.initialized = false ∨ maxThreads ≤ s.threadCount
  · exact .inl (createUserThread_of_full hfull P pageTable)
  · obtain ⟨hinit, hcount⟩ := not_or.mp hfull
    rw [createUserThread_of_lt (Bool.not_eq_false _ ▸ hinit) (not_le.mp hcount)]
    refine .inr ⟨_, .enqueue, fun spawned heq => ?_⟩
    obtain ⟨-, -, rfl⟩ := Fallible.map_eq_ok.mp heq
    rfl

/-! ### Forking -/

/-- The thread that `fork_current_thread` makes. -/
def Scheduler.forkedThread (s : Scheduler) (parent : Slot) (newCr3 : ℕ) : Thread :=
  { Thread.empty with
    id := s.nextThreadId
    processId := s.nextThreadId
    parentProcessId := (s.threads parent).processId
    threadGroupId := s.nextThreadId
    name := (s.threads parent).name
    role := (s.threads parent).role
    state := .runnable
    basePriority := (s.threads parent).basePriority
    fdTable := (s.threads parent).fdTable
    context := { (s.threads parent).context with cr3 := newCr3 } }

/-- What `fork_current_thread` can do. -/
theorem forkCurrentThread_cases (s : Scheduler) (newCr3 : ℕ) :
    (∃ e, s.forkCurrentThread newCr3 = (.error e, s)) ∨
      (newCr3 = 0 ∧ ∃ e, s.forkCurrentThread newCr3 = (.error e, s.addThread)) ∨
      ∃ parent child, newCr3 ≠ 0 ∧ s.currentSlot = some parent ∧
        (s.threads child).state = .unused ∧
        (∀ x < child, (s.threads x).state ≠ .unused) ∧
        s.forkCurrentThread newCr3 = (.ok s.nextThreadId,
          ((s.addThread.setThread child (s.forkedThread parent newCr3)).enqueue child).2) := by
  rw [Scheduler.forkCurrentThread]
  by_cases hinit : s.initialized = false
  · exact .inl ⟨_, if_pos hinit⟩
  · rw [if_neg hinit]
    cases hc : s.currentSlot with
    | none => exact .inl ⟨_, rfl⟩
    | some parent =>
      cases hfirst : Ring.first fun slot : Slot => (s.threads slot).state == .unused with
      | none => exact .inl ⟨_, rfl⟩
      | some child =>
        obtain ⟨hchild, hbelow⟩ := Ring.first_eq_some_iff.mp hfirst
        rw [beq_iff_eq] at hchild
        by_cases hzero : newCr3 = 0
        · exact .inr (.inl ⟨hzero, _, if_pos hzero⟩)
        · refine .inr (.inr ⟨parent, child, hzero, rfl, hchild, ?_, if_neg hzero⟩)
          intro x hx hunused
          have hfalse := hbelow x hx
          rw [beq_eq_false_iff_ne] at hfalse
          exact hfalse hunused

/-- **A fork.** It is refused, or fails after it has counted the child, or puts the child in the
first unused slot. -/
theorem Queues.forkCurrentThread (h : Queues s s.runnable) (newCr3 : ℕ) :
    (∃ e, s.forkCurrentThread newCr3 = (.error e, s)) ∨
      (newCr3 = 0 ∧ ∃ e, s.forkCurrentThread newCr3 = (.error e, s.addThread)) ∨
      ∃ parent child s', newCr3 ≠ 0 ∧ s.currentSlot = some parent ∧
        (s.threads child).state = .unused ∧
        (∀ x < child, (s.threads x).state ≠ .unused) ∧
        s.forkCurrentThread newCr3 = (.ok s.nextThreadId, s') ∧ Queues s' s'.runnable ∧
        Spawned s child (s.forkedThread parent newCr3) s' := by
  refine (forkCurrentThread_cases s newCr3).imp_right (Or.imp_right ?_)
  rintro ⟨parent, child, hcr3, hc, hchild, hbelow, hfork⟩
  have hfree : (s.threads child).state ≠ .runnable :=
    hchild.trans_ne nofun
  have hq := (h.spawn (t := s.forkedThread parent newCr3) hfree rfl).2
  exact ⟨parent, child, _, hcr3, hc, hchild, hbelow, hfork, hq, .enqueue⟩

end Spawn

/-! ### Blocking, unblocking and reaping -/

section Block

variable {s : Scheduler}

/-- A thread that is not waiting goes to a state in which it does not wait either. -/
theorem Queues.setState (h : Queues s s.runnable) (hslot : (s.threads slot).state ≠ .runnable)
    (hwait : state ≠ .runnable) :
    Queues (s.setState slot state) (s.setState slot state).runnable := by
  refine Queues.retire (t := { s.threads slot with state := state }) ?_ hwait
  have hnot : slot ∉ s.runnable := hslot
  rw [Set.sdiff_singleton_eq_self hnot]
  exact h

/-- A thread that is not waiting goes to a state in which it neither waits nor runs. -/
theorem QueueInv.setState (h : QueueInv s) (hslot : (s.threads slot).state ≠ .runnable)
    (hwait : state ≠ .runnable) (hrun : state ≠ .running) : QueueInv (s.setState slot state) :=
  h.of_update (h.queues.setState hslot hwait) (setState_threads ..) hrun rfl

/-- **Blocking**: the current thread, if it is running, is blocked. -/
theorem QueueInv.blockCurrentThread (h : QueueInv s) :
    s.blockCurrentThread = s ∨ ∃ c, s.currentSlot = some c ∧ (s.threads c).state = .running ∧
      s.blockCurrentThread = s.setState c .blocked ∧ QueueInv (s.setState c .blocked) ∧
      Moves s (s.setState c .blocked) := by
  rw [Scheduler.blockCurrentThread]
  cases hc : s.currentSlot with
  | none => exact .inl rfl
  | some c =>
    by_cases hrun : (s.threads c).state = .running
    · refine .inr ⟨c, rfl, hrun, if_pos hrun, h.setState ?_ nofun nofun, .setState ?_ nofun⟩
      · rw [hrun]
        exact nofun
      · rw [hrun]
        exact nofun
    · exact .inl (if_neg hrun)

/-- What `unblock_thread_with_result` can do. -/
theorem unblockThreadWithResult_cases (s : Scheduler) (pid tid : ℕ) :
    s.unblockThreadWithResult pid tid = (none, s) ∨
      ∃ slot, (s.threads slot).state = .blocked ∧
        s.unblockThreadWithResult pid tid =
          (some (s.threads slot).context.rsp, ((s.setState slot .runnable).enqueue slot).2) := by
  rw [Scheduler.unblockThreadWithResult]
  cases hfirst : Ring.first fun slot : Slot => (s.threads slot).processId == pid &&
      (s.threads slot).id == tid && (s.threads slot).state == .blocked with
  | none => exact .inl rfl
  | some slot =>
    obtain ⟨hfound, -⟩ := Ring.first_eq_some_iff.mp hfirst
    simp only [Bool.and_eq_true, beq_iff_eq] at hfound
    exact .inr ⟨slot, hfound.2, rfl⟩

/-- **Unblocking**: the thread, if it is blocked, waits. -/
theorem QueueInv.unblockThreadWithResult (h : QueueInv s) (pid tid : ℕ) :
    s.unblockThreadWithResult pid tid = (none, s) ∨
      ∃ slot s', (s.threads slot).state = .blocked ∧
        s.unblockThreadWithResult pid tid = (some (s.threads slot).context.rsp, s') ∧
        QueueInv s' ∧ Moves s s' ∧ s'.currentSlot = s.currentSlot ∧
        s'.threads = (s.setState slot .runnable).threads := by
  refine (unblockThreadWithResult_cases s pid tid).imp_right ?_
  rintro ⟨slot, hblocked, hunblock⟩
  have hne : (s.threads slot).state ≠ .runnable :=
    hblocked.trans_ne nofun
  have hused : (s.threads slot).state ≠ .unused :=
    hblocked.trans_ne nofun
  have hq := (h.queues.place (t := { s.threads slot with state := .runnable }) hne rfl).2
  have hmoves : Moves s (s.setState slot .runnable) := .setState hused nofun
  have hwaits : ({ s.threads slot with state := .runnable } : Thread).state ≠ .running := nofun
  have hthreads := (enqueue_threads _ slot).trans (setState_threads s slot .runnable)
  refine ⟨slot, _, hblocked, hunblock, h.of_update hq hthreads hwaits (enqueue_currentSlot ..),
    ?_, ?_, ?_⟩
  · exact hmoves.trans (.of_threads (enqueue_fixed _ slot) (enqueue_threads _ slot))
  · rw [enqueue_currentSlot, setState_currentSlot]
  · rw [enqueue_threads]

theorem state_of_exitedChild
    (h : s.exitedChild parentPid targetPid = some slot) : (s.threads slot).state = .exited := by
  obtain ⟨hfound, -⟩ := Ring.first_eq_some_iff.mp h
  rw [Bool.and_eq_true, beq_iff_eq] at hfound
  exact hfound.2

theorem Quiet.freeSlot : Quiet (s.setState slot .unused) (s.freeSlot slot) :=
  ⟨freeSlot_runqueues s slot, freeSlot_runqueueBitmap s slot, freeSlot_currentSlot s slot,
    fun x => by rw [freeSlot_threads], fun x => by rw [freeSlot_threads]⟩

/-- **Reaping**: the slot of an exited thread is free again. -/
theorem QueueInv.freeSlot (h : QueueInv s)
    (hexited : (s.threads slot).state = .exited) : QueueInv (s.freeSlot slot) := by
  have hinv : QueueInv (s.setState slot .unused) :=
    h.setState (hexited.trans_ne nofun) nofun nofun
  exact Quiet.freeSlot.queueInv hinv

theorem reapChild_of_some (h : s.exitedChild parentPid targetPid = some slot) :
    (s.reapChild parentPid targetPid).2 = s.freeSlot slot := by
  rw [Scheduler.reapChild, h]

theorem reapChild_of_none (h : s.exitedChild parentPid targetPid = none) :
    (s.reapChild parentPid targetPid).2 = s := by
  rw [Scheduler.reapChild, h]

end Block

/-! ### Entering the first thread -/

/-- What `activate_thread_slot` can do. -/
theorem activateThreadSlot_cases (s : Scheduler) (target : Slot) :
    (s.activateThreadSlot target).2 = s ∨
      (target : ℕ) < s.threadCount ∧ s.currentSlot ≠ some target ∧
      (s.activateThreadSlot target).2 =
        (((s.currentSlot.elim s s.preempt).removeQueued target).setCurrent target).addSwitch := by
  rw [activateThreadSlot]
  split_ifs with hguard hcurrent
  · exact .inl rfl
  · exact .inl rfl
  · refine .inr ⟨not_le.mp fun hle => hguard (.inr hle), hcurrent, ?_⟩
    cases s.currentSlot <;> rfl

/-- What `initial_context_pair` can do. -/
theorem initialContextPair_cases (h : s.initialContextPair = .ok r) :
    r.2 = s ∨ ∃ b, s.bootstrapSlot = .ok (some b) ∧
      (r.2 = s.setState b .exited ∨
        ∃ target, r.2 = ((s.setState b .exited).activateThreadSlot target).2) := by
  unfold Scheduler.initialContextPair at h
  obtain ⟨bootstrap, hbootstrap, h⟩ := Fallible.bind_eq_ok.mp h
  split at h
  · cases h
    exact .inl rfl
  rename_i b
  refine .inr ⟨b, hbootstrap, ?_⟩
  obtain ⟨found, -, h⟩ := Fallible.bind_eq_ok.mp h
  split at h
  · cases h
    exact .inl rfl
  rename_i target
  refine .inr ⟨target, ?_⟩
  split at h
  · rename_i heq
    cases h
    exact (congrArg Prod.snd heq).symm
  · rename_i heq
    split_ifs at h
    cases h
    exact (congrArg Prod.snd heq).symm

end Hxnu.Sched
