import Hxnu.Sched.Preserve

/-!
# From reset to the first user thread

`initialize_bootstrap_threads` enqueues the bootstrap thread and then marks it running, so it leaves
a running thread in a run queue. The first timer tick dequeues it, and from then on the queue
invariant holds: every later tick keeps it, and so does `restore_bootstrap_as_current`, which ends
`bootstrap()`.

## Main definitions

* `Booted`: the state in which `bootstrap()` returns.

## Main results

* `bootstrap_eq_ok`: after at least one tick, `bootstrap()` ends in such a state.
* `QueueInv.initialContextPair`: the switch from the bootstrap thread to the first user thread.
-/

namespace Hxnu.Sched

open Word Scheduler Function

/-! ### Timer ticks -/

section Tick

variable {s : Scheduler}

/-- No thread is blocked or has exited. -/
def Live (s : Scheduler) : Prop :=
  ∀ x, (s.threads x).state ≠ .blocked ∧ (s.threads x).state ≠ .exited

theorem Quiet.live (h : Quiet s s') (hlive : Live s) : Live s' := by
  intro x
  rw [h.state]
  exact hlive x

theorem Live.preempt (h : Live s) (slot : Slot) : Live (s.preempt slot) := by
  intro x
  rw [state_preempt]
  split_ifs
  · exact ⟨nofun, nofun⟩
  · exact h x

theorem Live.setCurrent (h : Live s) (slot : Slot) : Live (s.setCurrent slot) := by
  intro x
  rw [setCurrent_threads]
  by_cases hx : x = slot
  · rw [hx, update_self]
    exact ⟨nofun, nofun⟩
  · rw [update_of_ne hx]
    exact h x

/-- The tick is charged to the current thread, which stops running. -/
theorem QueueInv.chargeCurrent (h : QueueInv s) :
    Parked s.chargeCurrent ∧ Moves s s.chargeCurrent ∧ (Live s → Live s.chargeCurrent) := by
  rw [Scheduler.chargeCurrent]
  cases hc : s.currentSlot with
  | none => exact ⟨h.parked_of_none hc, .refl s, fun hlive => hlive⟩
  | some c =>
    have hticks : Quiet s (s.setThread c { s.threads c with
        totalTicks := satAdd (s.threads c).totalTicks 1 }) := .setThread rfl rfl
    have hmoves : Moves s (s.setThread c { s.threads c with
        totalTicks := satAdd (s.threads c).totalTicks 1 }) := .setThread rfl Iff.rfl
    simp only
    split_ifs with hrun hblocked
    · exact ⟨(hticks.queueInv h).preempt hc, hmoves.trans .preempt,
        fun hlive => (hticks.live hlive).preempt c⟩
    · refine ⟨⟨(hticks.queueInv h).queues, ?_⟩, hmoves, hticks.live⟩
      intro x hx
      rw [hticks.state] at hx
      have hxc : c = x := Option.some.inj (hc.symm.trans (h.running x hx))
      exact hrun (hxc ▸ hx)
    · refine ⟨⟨h.queues, ?_⟩, .refl s, fun hlive => hlive⟩
      intro x hx
      have hxc : c = x := Option.some.inj (hc.symm.trans (h.running x hx))
      exact hrun (hxc ▸ hx)

theorem Parked.clearCurrent (h : Parked s) : QueueInv s.clearCurrent :=
  ⟨h.queues.of_same rfl rfl fun _ _ => rfl, fun x hx => absurd hx (h.still x)⟩

/-- **A timer tick keeps the invariant.** -/
theorem QueueInv.onTimerTick (h : QueueInv s) :
    QueueInv s.onTimerTick.2 ∧ Moves s s.onTimerTick.2 ∧ (Live s → Live s.onTimerTick.2) := by
  rw [Scheduler.onTimerTick]
  split_ifs
  · exact ⟨h, .refl s, fun hlive => hlive⟩
  · obtain ⟨hparked, hmoves, hlive⟩ := h.chargeCurrent
    generalize s.chargeCurrent = s₁ at hparked hmoves hlive ⊢
    simp only
    cases hbest : s₁.bestPriority with
    | none => exact ⟨hparked.clearCurrent, hmoves.trans (.of_threads rfl rfl), hlive⟩
    | some p =>
      obtain ⟨next, s₂, hdeq, -, hnext, hthreads, -, hfixed, hinv⟩ := hparked.dispatch hbest
      simp only [hdeq]
      -- The switch counter may or may not be incremented.
      have hcounted : Moves s₂ (if some next ≠ s₂.currentSlot then s₂.addSwitch else s₂) ∧
          Quiet s₂ (if some next ≠ s₂.currentSlot then s₂.addSwitch else s₂) := by
        split_ifs
        · exact ⟨.addSwitch, .addSwitch⟩
        · exact ⟨.refl s₂, .refl s₂⟩
      generalize (if some next ≠ s₂.currentSlot then s₂.addSwitch else s₂) = s₃ at hcounted ⊢
      obtain ⟨hmoves₃, hquiet⟩ := hcounted
      have hused : (s₃.threads next).state ≠ .unused := by
        rw [hquiet.state, hthreads, hnext]
        exact nofun
      refine ⟨?_, ?_, ?_⟩
      · exact (Quiet.addDispatch next).queueInv (hquiet.setCurrent.queueInv hinv)
      · exact (hmoves.trans (.of_threads hfixed hthreads)).trans
          (hmoves₃.trans ((Moves.setCurrent hused).trans .addDispatch))
      · intro h₀
        have hlive₂ : Live s₂ := fun x => by rw [hthreads]; exact hlive h₀ x
        exact (Quiet.addDispatch next).live ((hquiet.live hlive₂).setCurrent next)

end Tick

/-! ### The first tick -/

section First

variable (P : Platform)

/-- The state that `initialize_bootstrap_threads` leaves. -/
def booting : Scheduler := (initializeBootstrapThreads P).2

theorem booting_fixed : (booting P).fixed = ⟨true, 3, 2, 1, 2⟩ := rfl

theorem booting_queue : (booting P).queue 0 = [0, 1] := rfl

theorem booting_runqueues (hp : p ≠ 0) : (booting P).runqueues p = Scheduler.new.runqueues p :=
  (update_of_ne hp _ _).trans (update_of_ne hp _ _)

theorem booting_bitmap (p : Priority) : (booting P).runqueueBitmap.getLsbD p = true ↔ p = 0 := by
  have hbitmap : (booting P).runqueueBitmap =
      0 ||| BitVec.twoPow maxPriorities 0 ||| BitVec.twoPow maxPriorities 0 := rfl
  rw [hbitmap]
  revert p
  decide

theorem booting_threads {x : Slot} (hx : 2 ≤ (x : ℕ)) : (booting P).threads x = Thread.empty := by
  have h₀ : x ≠ 0 := by
    rintro rfl
    exact absurd hx (by decide)
  have h₁ : x ≠ 1 := by
    rintro rfl
    exact absurd hx (by decide)
  have hupdates : ∃ b₁ b₂ b₃ i₁ i₂ i₃ : Thread, (booting P).threads =
      update (update (update (update (update
        (update (fun _ => Thread.empty) 0 b₁) 1 i₁) 0 b₂) 0 b₃) 1 i₂) 1 i₃ :=
    ⟨_, _, _, _, _, _, rfl⟩
  obtain ⟨b₁, b₂, b₃, i₁, i₂, i₃, hupdates⟩ := hupdates
  simp [hupdates, h₀, h₁]

theorem eq_zero_or_one {x : Slot} (hx : ¬ 2 ≤ (x : ℕ)) : x = 0 ∨ x = 1 := by
  obtain ⟨x, hlt⟩ := x
  have hsmall : x = 0 ∨ x = 1 := by
    rw [Nat.not_le] at hx
    change x < 2 at hx
    omega
  rcases hsmall with rfl | rfl
  · exact .inl rfl
  · exact .inr rfl

/-- Both threads wait, although the first is marked running. -/
theorem booting_queues : Queues (booting P) {0, 1} := by
  have hprio : ∀ slot ∈ ({0, 1} : Set Slot), (booting P).priorityForThread slot = 0 := by
    rintro slot (rfl | rfl) <;> rfl
  refine ⟨?_, ?_, ?_⟩
  · intro p
    rw [booting_bitmap]
    by_cases hp : p = 0
    · subst hp
      exact iff_of_true rfl Nat.two_pos
    · rw [booting_runqueues P hp]
      exact iff_of_false hp (lt_irrefl 0)
  · intro p
    by_cases hp : p = 0
    · subst hp
      rw [booting_queue]
      decide
    · rw [Scheduler.queue, booting_runqueues P hp]
      exact List.nodup_nil
  · intro p slot
    by_cases hp : p = 0
    · subst hp
      rw [booting_queue, List.mem_pair]
      exact ⟨fun hmem => ⟨hmem, hprio slot hmem⟩, And.left⟩
    · rw [Scheduler.queue, booting_runqueues P hp]
      refine iff_of_false List.not_mem_nil ?_
      rintro ⟨hmem, hslot⟩
      exact hp (hslot.symm.trans (hprio slot hmem))

/-- **The first tick** dequeues the thread that is marked running. -/
theorem booting_onTimerTick : QueueInv (booting P).onTimerTick.2 ∧
    Moves (booting P) (booting P).onTimerTick.2 ∧ Live (booting P).onTimerTick.2 := by
  have hlive : Live (booting P) := by
    intro x
    by_cases hx : 2 ≤ (x : ℕ)
    · rw [booting_threads P hx]
      exact ⟨nofun, nofun⟩
    · rcases eq_zero_or_one hx with rfl | rfl
      · exact ⟨nofun, nofun⟩
      · exact ⟨nofun, nofun⟩
  have hbest : (booting P).bestPriority = some 0 :=
    Ring.first_eq_some_iff.mpr ⟨(booting_bitmap P 0).mpr rfl, fun j hj => absurd hj (Fin.not_lt_zero j)⟩
  obtain ⟨next, s, hdeq, hhead, -, -, hthreads, hcur, hfixed, hq⟩ :=
    (booting_queues P).dequeue (p := 0) Nat.two_pos
  have hnext : next = 0 := by
    rw [booting_queue] at hhead
    exact (Option.some.inj hhead).symm
  subst hnext
  have htick : (booting P).onTimerTick.2 = (s.addSwitch.setCurrent 0).addDispatch 0 := by
    have hguard : ¬ ((booting P).initialized = false ∨
        (booting P).runqueueBitmap = 0 ∧ (booting P).currentSlot = none) := by
      rintro (hinit | ⟨hzero, -⟩)
      · cases hinit
      · have hbit := (booting_bitmap P 0).mpr rfl
        rw [hzero] at hbit
        cases hbit
    have hcharge : (booting P).chargeCurrent = booting P := rfl
    have hcur' : s.currentSlot = none := hcur
    rw [Scheduler.onTimerTick, if_neg hguard, hcharge]
    simp only [hbest, hdeq, hcur']
    rfl
  rw [htick]
  have hrunnable : s.addSwitch.runnable \ {0} = {0, 1} \ {0} := by
    ext x
    refine and_congr_left ?_
    intro hx
    change (s.threads x).state = .runnable ↔ _
    rw [hthreads]
    by_cases hx₂ : 2 ≤ (x : ℕ)
    · rw [booting_threads P hx₂]
      refine iff_of_false nofun ?_
      rintro (rfl | rfl) <;> exact absurd hx₂ (by decide)
    · have hx₁ : x = 1 := (eq_zero_or_one hx₂).resolve_left hx
      subst hx₁
      exact iff_of_true rfl (.inr rfl)
  have hstill : ∀ x, x ≠ 0 → (s.addSwitch.threads x).state ≠ .running := by
    intro x hx
    rw [addSwitch_threads, hthreads]
    by_cases hx₂ : 2 ≤ (x : ℕ)
    · rw [booting_threads P hx₂]
      exact nofun
    · rw [(eq_zero_or_one hx₂).resolve_left hx]
      exact nofun
  have hq' : Queues s.addSwitch (s.addSwitch.runnable \ {0}) := by
    rw [hrunnable]
    exact hq.of_same rfl rfl fun _ _ => rfl
  have hused : (s.addSwitch.threads 0).state ≠ .unused := by
    rw [addSwitch_threads, hthreads]
    exact nofun
  have hlive' : Live s.addSwitch := by
    intro x
    rw [addSwitch_threads, hthreads]
    exact hlive x
  exact ⟨(Quiet.addDispatch 0).queueInv (Parked.setCurrent hq' hstill),
    (Moves.of_threads hfixed hthreads).trans
      (Moves.addSwitch.trans ((Moves.setCurrent hused).trans .addDispatch)),
    (Quiet.addDispatch 0).live (hlive'.setCurrent 0)⟩

/-- The ticks after the first. -/
theorem booting_ticks (n : ℕ) :
    QueueInv ((fun s : Scheduler => s.onTimerTick.2)^[n + 1] (booting P)) ∧
      Moves (booting P) ((fun s : Scheduler => s.onTimerTick.2)^[n + 1] (booting P)) ∧
      Live ((fun s : Scheduler => s.onTimerTick.2)^[n + 1] (booting P)) := by
  induction n with
  | zero => exact booting_onTimerTick P
  | succ n ih =>
    obtain ⟨hinv, hmoves, hlive⟩ := ih
    obtain ⟨hinv', hmoves', hlive'⟩ := hinv.onTimerTick
    rw [iterate_succ_apply']
    exact ⟨hinv', hmoves.trans hmoves', hlive' hlive⟩

end First

/-! ### The end of `bootstrap()` -/

section Restore

variable {s : Scheduler}

/-- Requeueing the running threads in a list of slots. -/
theorem Queues.foldl_preempt (h : Queues s s.runnable) (l : List Slot) :
    Queues (l.foldl Scheduler.preempt s) (l.foldl Scheduler.preempt s).runnable ∧
      Moves s (l.foldl Scheduler.preempt s) ∧
      ∀ x, ((l.foldl Scheduler.preempt s).threads x).state =
        if x ∈ l ∧ (s.threads x).state = .running then .runnable else (s.threads x).state := by
  induction l generalizing s with
  | nil => exact ⟨h, .refl s, fun x => by simp⟩
  | cons slot l ih =>
    obtain ⟨hq, hmoves, hstate⟩ := ih (h.preempt slot)
    refine ⟨hq, Moves.preempt.trans hmoves, ?_⟩
    intro x
    rw [List.foldl_cons, hstate, state_preempt]
    by_cases hx : x = slot
    · subst hx
      by_cases hrun : (s.threads x).state = .running <;> simp [hrun]
    · simp [hx]

theorem findThread_eq_some {p : Thread → Bool} {slot : Slot} (hlt : (slot : ℕ) < s.threadCount)
    (hp : p (s.threads slot) = true) (hbelow : ∀ x < slot, p (s.threads x) = false) :
    s.findThread p = .ok (some slot) := by
  have hfirst : (Ring.first fun x : Slot =>
      decide ((x : ℕ) < s.threadCount) && p (s.threads x)) = some slot := by
    refine Ring.first_eq_some_iff.mpr ⟨?_, ?_⟩
    · rw [hp, Bool.and_true, decide_eq_true hlt]
    · intro x hx
      rw [hbelow x hx, Bool.and_false]
  rw [findThread, hfirst]

/-- The slots, numbers and groups of the two kernel threads. -/
structure KernelThreads (s : Scheduler) : Prop where
  initialized : s.initialized = true
  bootstrapThreadId : s.bootstrapThreadId = 1
  idleThreadId : s.idleThreadId = 2
  bootstrapId : (s.threads 0).id = 1
  bootstrapRole : (s.threads 0).role = .bootstrap
  idleId : (s.threads 1).id = 2
  idleRole : (s.threads 1).role = .idle
  idleGroup : (s.threads 1).threadGroupId = 0
  two_le : 2 ≤ s.threadCount

namespace KernelThreads

variable {s' : Scheduler}

theorem moves (h : KernelThreads s) (hm : Moves s s') : KernelThreads s' := by
  have hfixed := hm.fixed
  refine ⟨?_, ?_, ?_, ?_, ?_, ?_, ?_, ?_, ?_⟩
  · rw [show s'.initialized = s.initialized from congrArg Fixed.initialized hfixed, h.initialized]
  · rw [show s'.bootstrapThreadId = s.bootstrapThreadId from
      congrArg Fixed.bootstrapThreadId hfixed, h.bootstrapThreadId]
  · rw [show s'.idleThreadId = s.idleThreadId from congrArg Fixed.idleThreadId hfixed,
      h.idleThreadId]
  · rw [hm.id, h.bootstrapId]
  · rw [hm.role, h.bootstrapRole]
  · rw [hm.id, h.idleId]
  · rw [hm.role, h.idleRole]
  · rw [hm.threadGroupId, h.idleGroup]
  · rw [show s'.threadCount = s.threadCount from congrArg Fixed.threadCount hfixed]
    exact h.two_le

theorem bootstrapSlot (h : KernelThreads s) : s.bootstrapSlot = .ok (some 0) := by
  refine findThread_eq_some (Nat.lt_of_lt_of_le Nat.two_pos h.two_le) ?_ ?_
  · rw [h.bootstrapId, h.bootstrapThreadId]
    rfl
  · intro x hx
    exact absurd hx (Fin.not_lt_zero x)

theorem idleSlot (h : KernelThreads s) : s.idleSlot = .ok (some 1) := by
  refine findThread_eq_some (Nat.lt_of_lt_of_le Nat.one_lt_two h.two_le) ?_ ?_
  · rw [h.idleId, h.idleThreadId]
    rfl
  · intro x hx
    have hx₀ : x = 0 := Fin.ext (Nat.lt_one_iff.mp hx)
    rw [hx₀, h.bootstrapId, h.idleThreadId]
    rfl

end KernelThreads

/-- The state in which `bootstrap()` returns: the bootstrap thread runs and the idle thread
waits. -/
structure Booted (s : Scheduler) : Prop where
  queueInv : QueueInv s
  kernel : KernelThreads s
  currentSlot : s.currentSlot = some 0
  bootstrapState : (s.threads 0).state = .running
  bootstrapGroup : (s.threads 0).threadGroupId = 1
  idleState : (s.threads 1).state = .runnable
  threadCount : s.threadCount = 2
  nextThreadId : s.nextThreadId = 3
  free : ∀ x : Slot, 2 ≤ (x : ℕ) →
    (s.threads x).state = .unused ∧ (s.threads x).core = Thread.empty.core
  kind : ∀ x, (s.threads x).context.kind = contextKindKernel
  exitStatus : ∀ x, (s.threads x).exitStatus = 0
  parentProcessId : ∀ x, (s.threads x).parentProcessId = 0
  processId : ∀ x, (s.threads x).processId = (s.threads x).threadGroupId
  basePriority : ∀ x, (s.threads x).basePriority = 0

theorem booting_kernelThreads (P : Platform) : KernelThreads (booting P) :=
  ⟨rfl, rfl, rfl, rfl, rfl, rfl, rfl, rfl, le_refl 2⟩

/-- **`bootstrap()` ends** with the bootstrap thread running again. -/
theorem restoreBootstrapAsCurrent_of_moves {P : Platform} (h : QueueInv s) (hlive : Live s)
    (hmoves : Moves (booting P) s) :
    ∃ s', s.restoreBootstrapAsCurrent = .ok s' ∧ Booted s' := by
  have hkernel := (booting_kernelThreads P).moves hmoves
  have hcount : s.threadCount = 2 := congrArg Fixed.threadCount hmoves.fixed
  have hunused {x : Slot} (hx : 2 ≤ (x : ℕ)) : (s.threads x).state = .unused := by
    rw [hmoves.unused, booting_threads P hx]
    rfl
  have hidle : (s.threads 1).state = .running ∨ (s.threads 1).state = .runnable := by
    have hused : (s.threads 1).state ≠ .unused := by
      rw [Ne, hmoves.unused]
      exact nofun
    obtain ⟨hblocked, hexited⟩ := hlive 1
    generalize (s.threads 1).state = state at *
    cases state with
    | running => exact .inl rfl
    | runnable => exact .inr rfl
    | unused => exact absurd rfl hused
    | blocked => exact absurd rfl hblocked
    | exited => exact absurd rfl hexited
  obtain ⟨hq, hmoves₁, hstate⟩ := h.queues.foldl_preempt s.liveSlots
  have hrestore : s.restoreBootstrapAsCurrent = .ok
      ((((s.liveSlots.foldl Scheduler.preempt s).removeQueued 0).setCurrent 0).addDispatch 0) := by
    rw [restoreBootstrapAsCurrent, hkernel.bootstrapSlot]
    simp only [bind, Except.bind]
    rw [forEachSlot_of_le (by rw [hcount]; decide)]
    rfl
  refine ⟨_, hrestore, ?_⟩
  generalize s.liveSlots.foldl Scheduler.preempt s = s₁ at hq hmoves₁ hstate hrestore ⊢
  have hused : ((s₁.removeQueued 0).threads 0).state ≠ .unused := by
    rw [removeQueued_threads, Ne, hmoves₁.unused, hmoves.unused]
    exact nofun
  have hmoves₂ : Moves s (((s₁.removeQueued 0).setCurrent 0).addDispatch 0) :=
    hmoves₁.trans (Moves.removeQueued.trans ((Moves.setCurrent hused).trans .addDispatch))
  have hall := hmoves.trans hmoves₂
  have hstill (x : Slot) : (s₁.threads x).state ≠ .running := by
    rw [hstate]
    split_ifs with hrun
    · exact nofun
    · intro hx
      refine hrun ⟨mem_liveSlots.mpr ?_, hx⟩
      rw [hcount]
      by_contra hge
      rw [hunused (not_lt.mp hge)] at hx
      cases hx
  have hrunnable : (s₁.removeQueued 0).runnable = s₁.runnable :=
    runnable_congr fun x => by rw [removeQueued_threads]
  have hinv : QueueInv ((s₁.removeQueued 0).setCurrent 0) := by
    refine Parked.setCurrent ?_ ?_
    · rw [hrunnable]
      exact hq.removeQueued 0
    · intro x _
      rw [removeQueued_threads]
      exact hstill x
  have hfinal {x : Slot} (hx : x ≠ 0) :
      ((((s₁.removeQueued 0).setCurrent 0).addDispatch 0).threads x).state =
        (s₁.threads x).state := by
    rw [(Quiet.addDispatch 0).state, setCurrent_threads, update_of_ne hx,
      removeQueued_threads]
  have hthreads {Q : Thread → Prop} (h₀ : Q ((booting P).threads 0).core)
      (h₁ : Q ((booting P).threads 1).core) (hfree : Q Thread.empty.core) (x : Slot) :
      Q ((((s₁.removeQueued 0).setCurrent 0).addDispatch 0).threads x).core := by
    rw [hall.core]
    by_cases hx : 2 ≤ (x : ℕ)
    · rw [booting_threads P hx]
      exact hfree
    · rcases eq_zero_or_one hx with rfl | rfl
      · exact h₀
      · exact h₁
  refine ⟨(Quiet.addDispatch 0).queueInv hinv, (booting_kernelThreads P).moves hall, rfl, ?_, ?_, ?_,
    congrArg Fixed.threadCount hall.fixed, congrArg Fixed.nextThreadId hall.fixed, ?_, ?_, ?_, ?_,
    ?_, ?_⟩
  · rw [(Quiet.addDispatch 0).state, setCurrent_threads, update_self]
  · rw [hall.threadGroupId]
    rfl
  · rw [hfinal (by decide), hstate]
    rcases hidle with hrun | hready
    · rw [if_pos ⟨mem_liveSlots.mpr (by rw [hcount]; decide), hrun⟩]
    · rw [hready, if_neg fun hrun => absurd hrun.2 nofun]
  · intro x hx
    refine ⟨(hmoves₂.unused x).mpr (hunused hx), ?_⟩
    rw [hall.core, booting_threads P hx]
  · exact hthreads (Q := fun t => t.context.kind = contextKindKernel) rfl rfl rfl
  · exact hthreads (Q := fun t => t.exitStatus = 0) rfl rfl rfl
  · exact hthreads (Q := fun t => t.parentProcessId = 0) rfl rfl rfl
  · exact hthreads (Q := fun t => t.processId = t.threadGroupId) rfl rfl rfl
  · exact hthreads (Q := fun t => t.basePriority = 0) rfl rfl rfl

/-- **`bootstrap()` returns** after any number of ticks but zero. -/
theorem bootstrap_eq_ok (P : Platform) (hn : n ≠ 0) : ∃ s, bootstrap P n = .ok s ∧ Booted s := by
  obtain ⟨m, rfl⟩ := Nat.exists_eq_succ_of_ne_zero hn
  obtain ⟨hinv, hmoves, hlive⟩ := booting_ticks P m
  exact restoreBootstrapAsCurrent_of_moves hinv hlive hmoves

theorem booted_of_bootstrap (hn : n ≠ 0) (hs : bootstrap P n = .ok s) : Booted s := by
  obtain ⟨s', hs', hbooted⟩ := bootstrap_eq_ok P hn
  cases Except.ok.inj (hs'.symm.trans hs)
  exact hbooted

/-- A slot holds the bootstrap thread or the idle thread, or it is free. -/
theorem Booted.slot_cases (h : Booted s) (x : Slot) : x = 0 ∨ x = 1 ∨
    (s.threads x).state = .unused ∧ (s.threads x).core = Thread.empty.core := by
  by_cases hx : 2 ≤ (x : ℕ)
  · exact .inr (.inr (h.free x hx))
  · exact (eq_zero_or_one hx).imp_right .inl

theorem Booted.role_ne_user (h : Booted s) (x : Slot) : (s.threads x).role ≠ .user := by
  rcases h.slot_cases x with rfl | rfl | ⟨-, hcore⟩
  · rw [h.kernel.bootstrapRole]
    exact nofun
  · rw [h.kernel.idleRole]
    exact nofun
  · rw [show (s.threads x).role = .none from congrArg Thread.role hcore]
    exact nofun

theorem Booted.not_blocked (h : Booted s) (x : Slot) : (s.threads x).state ≠ .blocked := by
  rcases h.slot_cases x with rfl | rfl | ⟨hunused, -⟩
  · rw [h.bootstrapState]
    exact nofun
  · rw [h.idleState]
    exact nofun
  · rw [hunused]
    exact nofun

end Restore

/-! ### The first user thread -/

section Initial

variable {s : Scheduler} {target : Slot}

/-- The states after the processor went to `target`, whoever had it before. -/
structure Activated (s : Scheduler) (target : Slot) (s' : Scheduler) : Prop where
  moves : Moves s s'
  currentSlot : s'.currentSlot = some target
  state : ∀ x, (s'.threads x).state =
    if x = target then .running
    else if s.currentSlot = some x ∧ (s.threads x).state = .running then .runnable
    else (s.threads x).state

/-- The current thread, if there is one, gives up the processor. -/
theorem QueueInv.preempt_current (h : QueueInv s) :
    ∃ s', (match s.currentSlot with | none => s | some c => s.preempt c) = s' ∧ Parked s' ∧
      Moves s s' ∧ ∀ x, (s'.threads x).state =
        if s.currentSlot = some x ∧ (s.threads x).state = .running then .runnable
        else (s.threads x).state := by
  cases hc : s.currentSlot with
  | none => exact ⟨s, rfl, h.parked_of_none hc, .refl s, fun x => by simp⟩
  | some c =>
    refine ⟨s.preempt c, rfl, h.preempt hc, .preempt, ?_⟩
    intro x
    rw [state_preempt]
    by_cases hx : x = c
    · subst hx
      simp
    · have hne : ¬ c = x := fun heq => hx heq.symm
      simp [hx, hne]

/-- **The processor goes to a waiting thread**, not to the head of the best queue. -/
theorem QueueInv.activateThreadSlot (h : QueueInv s) (hinit : s.initialized = true)
    (hlt : (target : ℕ) < s.threadCount) (hne : s.currentSlot ≠ some target)
    (hready : (s.threads target).state = .runnable) :
    ∃ s', s.activateThreadSlot target = (.ok (), s') ∧ QueueInv s' ∧ Activated s target s' := by
  obtain ⟨s₁, hs₁, hparked, hmoves, hstate⟩ := h.preempt_current
  have hguard : ¬ (s.initialized = false ∨ s.threadCount ≤ target) := by
    rintro (hfalse | hge)
    · rw [hinit] at hfalse
      cases hfalse
    · exact absurd hlt (not_lt.mpr hge)
  have hactivate : s.activateThreadSlot target =
      (.ok (), ((s₁.removeQueued target).setCurrent target).addSwitch) := by
    rw [Scheduler.activateThreadSlot, if_neg hguard, if_neg hne, ← hs₁]
    all_goals rfl
  have hrunnable : (s₁.removeQueued target).runnable = s₁.runnable :=
    runnable_congr fun x => by rw [removeQueued_threads]
  have hinv : QueueInv ((s₁.removeQueued target).setCurrent target) := by
    refine Parked.setCurrent ?_ ?_
    · rw [hrunnable]
      exact hparked.queues.removeQueued target
    · intro x _
      rw [removeQueued_threads]
      exact hparked.still x
  have hused : ((s₁.removeQueued target).threads target).state ≠ .unused := by
    rw [removeQueued_threads, Ne, hmoves.unused, hready]
    simp
  refine ⟨_, hactivate, Quiet.addSwitch.queueInv hinv, ?_, rfl, ?_⟩
  · exact hmoves.trans (Moves.removeQueued.trans ((Moves.setCurrent hused).trans .addSwitch))
  · intro x
    rw [addSwitch_threads, setCurrent_threads, removeQueued_threads]
    by_cases hx : x = target
    · rw [hx, update_self, if_pos rfl]
    · rw [update_of_ne hx, if_neg hx, hstate]

/-- A search below `thread_count`. -/
theorem findThread_cases (hcount : s.threadCount ≤ maxThreads) (p : Thread → Bool) :
    s.findThread p = .ok none ∨ ∃ slot, s.findThread p = .ok (some slot) ∧
      (slot : ℕ) < s.threadCount ∧ p (s.threads slot) = true := by
  rw [findThread]
  cases hfirst : Ring.first fun x : Slot => decide ((x : ℕ) < s.threadCount) && p (s.threads x) with
  | none => exact .inl (if_neg (not_lt.mpr hcount))
  | some slot =>
    have hfound := (Ring.first_eq_some_iff.mp hfirst).1
    rw [Bool.and_eq_true, decide_eq_true_eq] at hfound
    exact .inr ⟨slot, rfl, hfound⟩

/-- The states after `initial_context_pair`. -/
structure Entered (s : Scheduler) (target : Slot) (s' : Scheduler) : Prop where
  moves : Moves s s'
  currentSlot : s'.currentSlot = some target
  ready : (s.threads target).state = .runnable ∨ s.currentSlot = some target
  role : target = 1 ∨ (s.threads target).role = .user
  state : ∀ x, (s'.threads x).state =
    if x = target then .running
    else if x = 0 then .exited
    else if s.currentSlot = some x ∧ (s.threads x).state = .running then .runnable
    else (s.threads x).state

/-- **`initial_context_pair`**, called while the bootstrap thread does not wait, the user threads
that have not exited wait, and the current thread runs. -/
theorem QueueInv.initialContextPair (h : QueueInv s) (hk : KernelThreads s)
    (hcount : s.threadCount ≤ maxThreads) (hbootstrap : (s.threads 0).state ≠ .runnable)
    (hused : (s.threads 0).state ≠ .unused)
    (hcurrent : ∀ c, s.currentSlot = some c → (s.threads c).state = .running)
    (huser : ∀ x : Slot, (x : ℕ) < s.threadCount → (s.threads x).role = .user →
      (s.threads x).state = .exited ∨ (s.threads x).state = .runnable)
    (hidle : (s.threads 1).state = .runnable ∨ s.currentSlot = some 1) :
    ∃ target s', s.initialContextPair = .ok (.ok (0, target), s') ∧ QueueInv s' ∧
      Entered s target s' := by
  have h₀ : QueueInv (s.setState 0 .exited) := h.setState hbootstrap nofun nofun
  have hm₀ : Moves s (s.setState 0 .exited) := .setState hused nofun
  have hk₀ := hk.moves hm₀
  have hstate₀ {x : Slot} (hx : x ≠ 0) : (s.setState 0 .exited).threads x = s.threads x := by
    rw [setState_threads, update_of_ne hx]
  obtain ⟨target, hfound, hne, hlt, hrole, hready⟩ : ∃ target : Slot,
      (s.setState 0 .exited).initialTarget = .ok (some target) ∧ target ≠ 0 ∧
      (target : ℕ) < s.threadCount ∧ (target = 1 ∨ (s.threads target).role = .user) ∧
      ((s.threads target).state = .runnable ∨ s.currentSlot = some target) := by
    rw [initialTarget]
    rcases findThread_cases (s := s.setState 0 .exited) hcount
      (fun t => t.role == .user && t.state != .exited) with hnone | ⟨slot, hsome, hlt, hslot⟩
    · refine ⟨1, ?_, by decide, Nat.lt_of_lt_of_le Nat.one_lt_two hk.two_le, .inl rfl, hidle⟩
      rw [firstRunnableUserSlot, hnone]
      exact hk₀.idleSlot
    · have hne : slot ≠ 0 := by
        rintro rfl
        rw [hk₀.bootstrapRole] at hslot
        cases hslot
      rw [hstate₀ hne, Bool.and_eq_true, beq_iff_eq, bne_iff_ne] at hslot
      refine ⟨slot, ?_, hne, hlt, .inr hslot.1, .inl ((huser slot hlt hslot.1).resolve_left hslot.2)⟩
      rw [firstRunnableUserSlot, hsome]
      rfl
  obtain ⟨s', hactivate, hinv, hmoves, hcur, hstate⟩ : ∃ s',
      (s.setState 0 .exited).activateThreadSlot target = (.ok (), s') ∧ QueueInv s' ∧
      Activated (s.setState 0 .exited) target s' := by
    by_cases hcur : s.currentSlot = some target
    · refine ⟨s.setState 0 .exited, ?_, h₀, .refl _, hcur, ?_⟩
      · have hguard : ¬ ((s.setState 0 .exited).initialized = false ∨ s.threadCount ≤ target) := by
          rintro (hfalse | hge)
          · rw [hk₀.initialized] at hfalse
            cases hfalse
          · exact absurd hlt (not_lt.mpr hge)
        exact (if_neg hguard).trans (if_pos hcur)
      · intro x
        split_ifs with hx hrun
        · rw [hx, hstate₀ hne, hcurrent target hcur]
        · exact absurd (Option.some.inj (hrun.1.symm.trans hcur)) hx
        · rfl
    · have hready₀ : ((s.setState 0 .exited).threads target).state = .runnable := by
        rw [hstate₀ hne]
        exact hready.resolve_right hcur
      exact h₀.activateThreadSlot hk₀.initialized hlt hcur hready₀
  refine ⟨target, s', ?_, hinv, hm₀.trans hmoves, hcur, hready, hrole, ?_⟩
  · rw [Scheduler.initialContextPair, hk.bootstrapSlot]
    simp only [bind, Except.bind, hfound, hactivate, if_neg hne.symm]
    rfl
  · intro x
    rw [hstate, setState_currentSlot]
    by_cases hx : x = 0
    · subst hx
      rw [setState_threads, update_self, if_neg hne.symm, if_neg hne.symm, if_pos rfl,
        if_neg fun hrun => absurd hrun.2 nofun]
    · rw [hstate₀ hx, if_neg hx]

end Initial

end Hxnu.Sched
