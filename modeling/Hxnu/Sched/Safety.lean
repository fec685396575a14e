import Hxnu.Sched.Runs

/-!
# Safety of the scheduler

Three properties of whole runs that start where `bootstrap()` returns.

* The run queues: the bitmap, the arrays and the states of the threads agree in every state, as long
  as `initial_context_pair` is called while the bootstrap thread does not wait in a run queue.
* The idle thread: it waits or runs in every state, so a switch always finds a thread. An exit needs
  `thread_count` to be at most the number of slots, which forks that fail can exceed.
* The thread table: a new thread goes to a free slot, as long as `reap_child` frees the last slot in
  use.

## Main definitions

* `InOrder`, `IdleReady`, `Scheduler.createsInFree`: the three properties.

## Main results

* `runQueues_inOrder`, `idle_never_lost`, `table_never_overwritten`.
-/

namespace Hxnu.Sched

open Word Scheduler Function

/-! ### Evaluating runs -/

theorem exists_of_evaluate (P : Platform) (n : ℕ) (guard : RunState → Op → Bool) (ops : List Op)
    [DecidablePred Q]
    (h : ((bootstrap P n).toOption.any fun s => (ops.foldlM (attempt guard (fun r op => op.exec P
      r.sched) RunState.next) (.start s)).any (Q ·)) = true) :
    ∃ s r, bootstrap P n = .ok s ∧
      Reachable (Step P fun r op => guard r op = true) (.start s) r ∧ Q r :=
  exists_of_attempts (fun _ _ s hguard hs => ⟨hguard, s, hs, rfl⟩) h

/-- An example of the addresses that the linker and the boot code fix. -/
def examplePlatform : Platform where
  userStacks := 0xffffffff80100000
  idleRsp := 0xffffffff80200000
  kernelCr3 := 0x1000

/-! ### The run queues -/

/-- The run queues, their bitmap and the states of the threads agree. -/
structure InOrder (s : Scheduler) : Prop where
  bitmap : ∀ p : Priority, s.runqueueBitmap.getLsbD p = true ↔ 0 < (s.runqueues p).depth
  depth_le : ∀ p, (s.runqueues p).depth ≤ 8
  once : ∀ slot, ∑ p, (s.queue p).count slot ≤ 1
  own : ∀ p, ∀ slot ∈ s.queue p, s.priorityForThread slot = p
  queued : ∀ slot, (∃ p, slot ∈ s.queue p) ↔ (s.threads slot).state = .runnable
  running : ∀ slot, (s.threads slot).state = .running → s.currentSlot = some slot

section InOrder

variable {s : Scheduler}

/-- A slot occurs in the queue of its own priority and in no other. -/
theorem QueueInv.sum_count (h : QueueInv s) (slot : Slot) : ∑ p, (s.queue p).count slot =
    if (s.threads slot).state = .runnable then 1 else 0 := by
  have hother (p : Priority) (hp : p ≠ s.priorityForThread slot) :
      (s.queue p).count slot = 0 := by
    rw [List.count_eq_zero]
    exact fun hmem => hp ((h.queues.mem p slot).mp hmem).2.symm
  rw [Finset.sum_eq_single (s.priorityForThread slot) (fun p _ => hother p)
    (fun hnot => absurd (Finset.mem_univ _) hnot)]
  split_ifs with hready
  · exact List.count_eq_one_of_mem (h.queues.nodup _) ((h.queues.mem _ slot).mpr ⟨hready, rfl⟩)
  · rw [List.count_eq_zero]
    exact fun hmem => hready ((h.queues.mem _ slot).mp hmem).1

theorem QueueInv.inOrder (h : QueueInv s) : InOrder s where
  bitmap := h.queues.bitmap
  depth_le p := (s.runqueues p).depth_le
  once slot := by
    rw [h.sum_count]
    split_ifs
    · exact le_rfl
    · exact Nat.zero_le 1
  own p slot hmem := ((h.queues.mem p slot).mp hmem).2
  queued slot := by
    constructor
    · rintro ⟨p, hmem⟩
      exact ((h.queues.mem p slot).mp hmem).1
    · intro hready
      exact ⟨_, (h.queues.mem _ slot).mpr ⟨hready, rfl⟩⟩
  running := h.running

end InOrder

/-- Does the bootstrap thread wait in a run queue? -/
def Scheduler.bootstrapQueued (s : Scheduler) : Bool :=
  match s.bootstrapSlot with
  | .ok (some b) => decide (b ∈ s.queue (s.priorityForThread b))
  | _ => false

/-- The operations without `reap_child`: `initial_context_pair` at most once and before any user
thread has run, blocks by user threads and directly followed by a yield, and forks for which there
is memory. -/
def withoutReap (r : RunState) (op : Op) : Bool :=
  yieldsIfMust r op &&
    match op with
    | .initialContextPair => !r.entered && !r.userRan
    | .blockCurrentThread => r.sched.userCurrent
    | .forkCurrentThread newCr3 => newCr3 != 0
    | .reapChild _ _ => false
    | _ => true

/-- The same, with `initial_context_pair` only while the bootstrap thread does not wait. -/
def withoutReapOrQueuedBootstrap (r : RunState) (op : Op) : Bool :=
  withoutReap r op && (op != .initialContextPair || !r.sched.bootstrapQueued)

/-- Without failed forks and `reap_child`, the slots below `thread_count` are the slots in use. -/
structure Compact (s : Scheduler) : Prop where
  count_le : s.threadCount ≤ maxThreads
  used : ∀ x : Slot, (x : ℕ) < s.threadCount → (s.threads x).state ≠ .unused

section RunQueues

variable {P : Platform} {r : RunState} {op : Op} {s : Scheduler}

theorem Compact.effect (h : Compact r.sched) (hslots : SlotInv r.sched)
    (he : Effect r.sched op s) (hop : op ≠ .forkCurrentThread 0) : Compact s := by
  cases he with
  | kept hfixed hunused =>
    have hcount : s.threadCount = r.sched.threadCount := congrArg Fixed.threadCount hfixed
    refine ⟨hcount.trans_le h.count_le, ?_⟩
    intro x hx
    rw [Ne, hunused]
    exact h.used x (hcount ▸ hx)
  | spawned slot t hs hfree hready hplace =>
    have hge : r.sched.threadCount ≤ slot := by
      by_contra hlt
      exact h.used slot (not_le.mp hlt) hfree
    have hslot : (slot : ℕ) = r.sched.threadCount := by
      rcases hplace with heq | hbelow
      · exact heq
      · exact le_antisymm (hslots.le_threadCount hbelow) hge
    have hlt := slot.isLt
    have hcount : s.threadCount = r.sched.threadCount + 1 := by
      refine hs.threadCount ?_
      change (slot : ℕ) < 8 at hlt
      omega
    refine ⟨by rw [hcount, ← hslot]; exact hlt, ?_⟩
    intro x hx
    rw [hs.threads]
    by_cases hxs : x = slot
    · rw [hxs, update_self, hready]
      exact nofun
    · rw [update_of_ne hxs]
      refine h.used x ?_
      have hne : (x : ℕ) ≠ slot := fun heq => hxs (Fin.ext heq)
      omega
  | counted hfork => exact absurd hfork hop

/-- The guard of these runs implies the guards of the invariant. -/
theorem sound_of_withoutReap (h : RunInv r) (hcompact : Compact r.sched)
    (hguard : withoutReapOrQueuedBootstrap r op = true) :
    Sound r op ∧ op ≠ .forkCurrentThread 0 := by
  obtain ⟨hlisted, hqueued⟩ := Bool.and_eq_true_iff.mp hguard
  obtain ⟨hyield, hlisted⟩ := Bool.and_eq_true_iff.mp hlisted
  have hsmall : r.sched.threadCount + 1 < 2 ^ 64 := by
    have hle := hcompact.count_le
    change r.sched.threadCount ≤ 8 at hle
    omega
  refine ⟨⟨hyield, ?_⟩, ?_⟩
  · cases op with
    | initialContextPair =>
      have hnot : r.sched.bootstrapQueued = false := by simpa using hqueued
      rw [Bool.and_eq_true, Bool.not_eq_true', Bool.not_eq_true'] at hlisted
      refine ⟨hlisted.2, ?_, hcompact.count_le⟩
      intro hready
      rw [bootstrapQueued, h.kernel.bootstrapSlot, decide_eq_false_iff_not] at hnot
      exact hnot ((h.queueInv.queues.mem _ 0).mpr ⟨hready, rfl⟩)
    | blockCurrentThread => exact hlisted
    | requestExitGroup status => exact hcompact.count_le
    | forkCurrentThread newCr3 => exact hsmall
    | reapChild parentPid targetPid => cases hlisted
    | createUserThread | contextSwitchPair | yieldCurrentUserThread | unblockThreadWithResult =>
      trivial
  · rintro rfl
    cases hlisted

theorem Queues.preemptEnqueue (h : Queues s s.runnable) (c : Slot) :
    ∀ e ∈ s.preemptEnqueue c, e = .ok () := by
  intro e he
  rw [Scheduler.preemptEnqueue] at he
  split_ifs at he with hrun
  · rw [List.mem_singleton] at he
    rw [he]
    exact (h.place (t := { s.threads c with state := .runnable }) (hrun.trans_ne nofun) rfl).1
  · cases he

/-- No call of `enqueue` finds a queue full. -/
theorem RunInv.enqueues (h : RunInv r) (hsound : Sound r op) (P : Platform) :
    ∀ e ∈ op.enqueues P r.sched, e = .ok () := by
  intro e he
  obtain ⟨c, hc, -⟩ := h.current
  cases op with
  | createUserThread pageTable =>
    rw [Op.enqueues] at he
    split_ifs at he with hcount
    · rw [List.mem_singleton] at he
      have hfree := h.slotInv.unused (x := ⟨r.sched.threadCount, hcount⟩) le_rfl
      rw [he]
      exact (h.queueInv.queues.spawn (hfree.trans_ne nofun) rfl).1
    · cases he
  | initialContextPair =>
    have hq : QueueInv (r.sched.setState 0 .exited) :=
      h.queueInv.setState hsound.2.2.1 nofun nofun
    rw [Op.enqueues, h.kernel.bootstrapSlot, hc] at he
    exact hq.queues.preemptEnqueue c e he
  | contextSwitchPair =>
    rw [Op.enqueues, hc] at he
    exact h.queueInv.queues.preemptEnqueue c e he
  | yieldCurrentUserThread rsp =>
    rw [Op.enqueues, hc] at he
    exact (Quiet.saveRsp.queues h.queueInv.queues).preemptEnqueue c e he
  | unblockThreadWithResult pid tid =>
    rw [Op.enqueues] at he
    split at he
    · rename_i slot hfirst
      obtain ⟨hfound, -⟩ := Ring.first_eq_some_iff.mp hfirst
      simp only [Bool.and_eq_true, beq_iff_eq] at hfound
      rw [List.mem_singleton] at he
      rw [he]
      exact (h.queueInv.queues.place (hfound.2.trans_ne nofun) rfl).1
    · cases he
  | forkCurrentThread newCr3 =>
    rw [Op.enqueues, hc] at he
    split at he
    · rename_i parent child hparent hfirst
      obtain ⟨hfree, -⟩ := Ring.first_eq_some_iff.mp hfirst
      rw [beq_iff_eq] at hfree
      rw [List.mem_singleton] at he
      rw [he]
      exact (h.queueInv.queues.spawn (hfree.trans_ne nofun) rfl).1
    · cases he
  | blockCurrentThread | requestExitGroup | reapChild => cases he

theorem compact_of_booted (hs : Booted s) : Compact s := by
  refine ⟨by change s.threadCount ≤ 8; rw [hs.threadCount]; decide, ?_⟩
  intro x hx
  rw [hs.threadCount] at hx
  rcases eq_zero_or_one (not_le.mpr hx) with rfl | rfl
  · rw [hs.bootstrapState]
    exact nofun
  · rw [hs.idleState]
    exact nofun

theorem invariant_of_withoutReap (hs : Booted s)
    (hr : Reachable (Step P fun r op => withoutReapOrQueuedBootstrap r op = true) (.start s) r) :
    RunInv r ∧ Compact r.sched := by
  refine hr.invariant (I := fun r => RunInv r ∧ Compact r.sched)
    ⟨.start hs, compact_of_booted hs⟩ ?_
  rintro r op r' ⟨hinv, hcompact⟩ ⟨hguard, s', hexec, rfl⟩
  obtain ⟨hsound, hop⟩ := sound_of_withoutReap hinv hcompact hguard
  have hstepped := hinv.stepped hsound hexec
  exact ⟨hstepped.inv, hcompact.effect hinv.slotInv hstepped.effect hop⟩

end RunQueues

/-- **The run queues are in order in every state of every run** that calls `initial_context_pair`
only while the bootstrap thread does not wait in a run queue; no operation panics, and no call of
`enqueue` returns `RunQueueFull`. -/
theorem runQueues_inOrder (P : Platform) {n : ℕ} (hn : 3 ≤ n) {s : Scheduler}
    (hs : bootstrap P n = .ok s) {r : RunState}
    (hr : Reachable (Step P fun r op => withoutReapOrQueuedBootstrap r op = true) (.start s) r) :
    InOrder r.sched ∧ ∀ op, withoutReapOrQueuedBootstrap r op = true →
      (∃ s', op.exec P r.sched = .ok s') ∧ ∀ e ∈ op.enqueues P r.sched, e = .ok () := by
  have hbooted := booted_of_bootstrap (by omega) hs
  obtain ⟨hinv, hcompact⟩ := invariant_of_withoutReap hbooted hr
  refine ⟨hinv.queueInv.inOrder, ?_⟩
  intro op hguard
  obtain ⟨hsound, -⟩ := sound_of_withoutReap hinv hcompact hguard
  obtain ⟨s', hexec, -⟩ := hinv.step hsound P
  exact ⟨⟨s', hexec⟩, hinv.enqueues hsound P⟩

/-- Two user threads are created and entered; one blocks, the other forks and unblocks it. -/
theorem runQueues_inOrder_two_threads : ∃ s r, bootstrap examplePlatform 3 = .ok s ∧
    Reachable (Step examplePlatform fun r op => withoutReapOrQueuedBootstrap r op = true)
      (.start s) r ∧ r.userRan = true ∧ InOrder r.sched := by
  obtain ⟨s, r, hs, hr, hran⟩ := exists_of_evaluate examplePlatform 3
    withoutReapOrQueuedBootstrap [.createUserThread 0x2000, .createUserThread 0x3000,
      .initialContextPair, .blockCurrentThread, .yieldCurrentUserThread 0xffffffff8010bf60,
      .contextSwitchPair, .forkCurrentThread 0x4000, .unblockThreadWithResult 3 3,
      .requestExitGroup 0] (Q := (·.userRan = true)) (by decide +kernel)
  exact ⟨s, r, hs, hr, hran, (runQueues_inOrder examplePlatform le_rfl hs hr).1⟩

/-- After `context_switch_pair` the bootstrap thread waits, and `initial_context_pair` marks it
exited without taking it out of its queue. -/
theorem initialContextPair_leaves_bootstrap_queued : ∃ s r, bootstrap examplePlatform 3 = .ok s ∧
    Reachable (Step examplePlatform fun r op => withoutReap r op = true) (.start s) r ∧
    (r.sched.threads 0).state = .exited ∧ 0 ∈ r.sched.queue 0 ∧ ¬ InOrder r.sched := by
  obtain ⟨s, r, hs, hr, hexited, hmem⟩ := exists_of_evaluate examplePlatform 3 withoutReap
    [.contextSwitchPair, .initialContextPair]
    (Q := fun r => (r.sched.threads 0).state = .exited ∧ 0 ∈ r.sched.queue 0) (by decide +kernel)
  refine ⟨s, r, hs, hr, hexited, hmem, ?_⟩
  intro horder
  have hready := (horder.queued 0).mp ⟨0, hmem⟩
  rw [hexited] at hready
  cases hready

/-! ### The idle thread -/

/-- The idle thread is ready: it is the current thread, or waits exactly once. -/
def IdleReady (s : Scheduler) : Prop :=
  ∃ i, s.idleSlot = .ok (some i) ∧ (s.threads i).role = .idle ∧
    (s.threads i).state ≠ .blocked ∧ (s.threads i).state ≠ .exited ∧
    (s.threads i).state ≠ .unused ∧
    (s.currentSlot = some i ∧ ∑ p, (s.queue p).count i = 0 ∨
      s.currentSlot ≠ some i ∧ ∑ p, (s.queue p).count i = 1)

/-- User threads are created, one of them or the idle thread is entered, and then user threads
yield, block and yield, exit and fork, while threads are unblocked and kernel contexts switched. -/
def userRuns (r : RunState) (op : Op) : Bool :=
  yieldsIfMust r op &&
    match op with
    | .createUserThread _ => true
    | .initialContextPair => !r.entered
    | .contextSwitchPair | .unblockThreadWithResult _ _ => r.entered
    | .yieldCurrentUserThread _ | .blockCurrentThread | .requestExitGroup _
    | .forkCurrentThread _ => r.entered && r.sched.userCurrent
    | .reapChild _ _ => false

/-- The same, with exits only while `thread_count` does not exceed the number of slots, and forks
only while it can be incremented. -/
def userRunsCounted (r : RunState) (op : Op) : Bool :=
  userRuns r op &&
    match op with
    | .requestExitGroup _ => decide (r.sched.threadCount ≤ maxThreads)
    | .forkCurrentThread _ => decide (r.sched.threadCount + 1 < 2 ^ 64)
    | _ => true

section Idle

variable {P : Platform} {r : RunState} {op : Op} {s : Scheduler}

/-- Before `initial_context_pair` the bootstrap thread runs. -/
def Early (r : RunState) : Prop :=
  r.entered = false → r.userRan = false ∧ r.sched.currentSlot = some 0 ∧
    (r.sched.threads 0).state = .running ∧ r.sched.threadCount ≤ maxThreads

theorem Early.start (hs : Booted s) : Early (.start s) := by
  intro _
  exact ⟨rfl, hs.currentSlot, hs.bootstrapState, (compact_of_booted hs).count_le⟩

theorem sound_of_userRuns (hearly : Early r) (hguard : userRunsCounted r op = true) :
    Sound r op := by
  obtain ⟨hruns, hcounted⟩ := Bool.and_eq_true_iff.mp hguard
  obtain ⟨hyield, hlisted⟩ := Bool.and_eq_true_iff.mp hruns
  refine ⟨hyield, ?_⟩
  cases op with
  | initialContextPair =>
    obtain ⟨hran, -, hrun, hcount⟩ := hearly (by simpa using hlisted)
    refine ⟨hran, ?_, hcount⟩
    rw [hrun]
    exact nofun
  | blockCurrentThread => exact (Bool.and_eq_true_iff.mp hlisted).2
  | requestExitGroup | forkCurrentThread => exact of_decide_eq_true hcounted
  | reapChild parentPid targetPid => cases hlisted
  | createUserThread pageTable => trivial
  | contextSwitchPair => trivial
  | yieldCurrentUserThread rsp => trivial
  | unblockThreadWithResult pid tid => trivial

/-- Creating a thread leaves the bootstrap thread running. -/
theorem Early.createUserThread (h : RunInv r) (hearly : Early r) (pageTable : ℕ) :
    Early (r.next (.createUserThread pageTable) (r.sched.createUserThread P pageTable).2) := by
  intro hentered
  obtain ⟨hran, hc, hrun, hcount⟩ := hearly (Bool.or_eq_false_iff.mp hentered).1
  have hkernel (s : Scheduler) (hc : s.currentSlot = some 0)
      (hrole : (s.threads 0).role = (r.sched.threads 0).role) :
      (r.next (.createUserThread pageTable) s).userRan = false := by
    rw [RunState.next, hran, Bool.false_or, userCurrent_eq hc, hrole, h.kernel.bootstrapRole]
    rfl
  by_cases hlt : r.sched.threadCount < maxThreads
  · have hfree := h.slotInv.unused (x := ⟨r.sched.threadCount, hlt⟩) le_rfl
    obtain ⟨s, hcreate, -, hs⟩ := h.queueInv.queues.createUserThread h.kernel.initialized hlt
      (hfree.trans_ne nofun) P pageTable
    have h₀ : (0 : Slot) ≠ ⟨r.sched.threadCount, hlt⟩ := by
      intro heq
      rw [← heq, hrun] at hfree
      cases hfree
    have hsame : s.threads 0 = r.sched.threads 0 := by
      rw [hs.threads, update_of_ne h₀]
    have hcount' : s.threadCount = r.sched.threadCount + 1 := by
      refine hs.threadCount ?_
      change r.sched.threadCount < 8 at hlt
      omega
    rw [hcreate]
    refine ⟨hkernel s (hs.currentSlot.trans hc) (by rw [hsame]), hs.currentSlot.trans hc, ?_, ?_⟩
    · change (s.threads 0).state = .running
      rw [hsame, hrun]
    · change s.threadCount ≤ maxThreads
      rw [hcount']
      exact hlt
  · obtain ⟨e, herr⟩ := createUserThread_of_full (.inr (not_lt.mp hlt)) P pageTable
    rw [herr]
    exact ⟨hkernel r.sched hc rfl, hc, hrun, hcount⟩

theorem Early.step (h : RunInv r) (hearly : Early r) (hguard : userRuns r op = true)
    (hexec : op.exec P r.sched = .ok s) : Early (r.next op s) := by
  obtain ⟨-, hlisted⟩ := Bool.and_eq_true_iff.mp hguard
  intro hentered
  obtain ⟨hentered', hop⟩ := Bool.or_eq_false_iff.mp hentered
  cases op with
  | createUserThread pageTable =>
    cases hexec
    exact hearly.createUserThread h pageTable hentered
  | initialContextPair => cases hop
  | reapChild parentPid targetPid => cases hlisted
  | contextSwitchPair | unblockThreadWithResult | yieldCurrentUserThread | blockCurrentThread
  | requestExitGroup | forkCurrentThread => exact absurd hlisted (by simp [hentered'])

theorem RunInv.idleReady (h : RunInv r) : IdleReady r.sched := by
  have hcount := h.queueInv.sum_count 1
  refine ⟨1, h.kernel.idleSlot, h.kernel.idleRole, ?_, ?_, ?_, ?_⟩
  iterate 3 rcases h.idle with hidle | hidle <;> rw [hidle] <;> exact nofun
  · rcases h.idle with hidle | hidle
    · rw [hidle] at hcount
      exact .inl ⟨h.queueInv.running 1 hidle, hcount⟩
    · rw [if_pos hidle] at hcount
      refine .inr ⟨?_, hcount⟩
      intro hc
      obtain ⟨c, hc', hstate⟩ := h.current
      cases hc.symm.trans hc'
      rw [hidle] at hstate
      rcases hstate with hrun | ⟨-, hblocked, -⟩
      · cases hrun
      · cases hblocked

theorem invariant_of_userRuns (hs : Booted s)
    (hr : Reachable (Step P fun r op => userRunsCounted r op = true) (.start s) r) :
    RunInv r ∧ Early r := by
  refine hr.invariant (I := fun r => RunInv r ∧ Early r) ⟨.start hs, .start hs⟩ ?_
  · rintro r op r' ⟨hinv, hearly⟩ ⟨hguard, s', hexec, rfl⟩
    have hstepped := hinv.stepped (sound_of_userRuns hearly hguard) hexec
    exact ⟨hstepped.inv, hearly.step hinv (Bool.and_eq_true_iff.mp hguard).1 hexec⟩

/-- With more threads counted than there are slots, the loop of an exit runs past the table. -/
theorem requestExitGroup_of_gt (hinit : s.initialized = true) (hc : s.currentSlot = some c)
    (hstate : (s.threads c).state ≠ .exited) (hgroup : (s.threads c).threadGroupId ≠ 0)
    (hcount : maxThreads < s.threadCount) (status : ℤ) :
    s.requestExitGroup status = .error .indexOutOfBounds := by
  rw [Scheduler.requestExitGroup, if_neg (by rw [hinit]; simp), hc]
  simp only [if_neg (not_or.mpr ⟨hstate, hgroup⟩)]
  rw [forEachSlot, if_pos hcount]
  rfl

end Idle

/-- **The idle thread is ready in every state of every run** in which exits find no more threads
counted than there are slots. So no operation panics or makes a thread run that is not ready to; an
exit of a user thread leaves some thread current exactly when `thread_count` does not exceed the
number of slots; and a yield of a user thread returns `None` only to a caller that runs again. -/
theorem idle_never_lost (P : Platform) {n : ℕ} (hn : 3 ≤ n) {s : Scheduler}
    (hs : bootstrap P n = .ok s) {r : RunState}
    (hr : Reachable (Step P fun r op => userRunsCounted r op = true) (.start s) r) :
    IdleReady r.sched ∧
    (∀ op, userRunsCounted r op = true → ∃ s', op.exec P r.sched = .ok s' ∧
      ∀ x, (s'.threads x).state = .running →
        (r.sched.threads x).state = .running ∨ (r.sched.threads x).state = .runnable) ∧
    ∀ c, r.sched.currentSlot = some c → (r.sched.threads c).role = .user →
      (∀ status, (∃ record s', r.sched.requestExitGroup status = .ok (some record, s') ∧
          s'.currentSlot ≠ none) ↔ r.sched.threadCount ≤ maxThreads) ∧
      ∀ rsp, ∃ result s', r.sched.yieldCurrentUserThread rsp = .ok (result, s') ∧
        (result = none → s'.currentSlot = some c ∧ (s'.threads c).state = .running ∧
          (r.sched.threads c).state ≠ .blocked) := by
  have hbooted := booted_of_bootstrap (by omega) hs
  obtain ⟨hinv, hearly⟩ := invariant_of_userRuns hbooted hr
  refine ⟨hinv.idleReady, ?_, ?_⟩
  · intro op hguard
    obtain ⟨s', hexec, hstepped⟩ := hinv.step (sound_of_userRuns hearly hguard) P
    exact ⟨s', hexec, hstepped.wakes⟩
  · intro c hc hrole
    have hne : c ≠ 1 := by
      rintro rfl
      rw [hinv.kernel.idleRole] at hrole
      cases hrole
    refine ⟨?_, ?_⟩
    · intro status
      constructor
      · rintro ⟨record, s', hexit, -⟩
        by_contra hcount
        obtain ⟨hexited, hused⟩ := hinv.not_exited hc
        rw [requestExitGroup_of_gt hinv.kernel.initialized hc hexited
          (fun hzero => hused ((hinv.group c hne).mpr hzero)) (not_le.mp hcount) status] at hexit
        cases hexit
      · intro hcount
        obtain ⟨record, s', hexit, -, -, -, next, hnext⟩ := hinv.exit_of_user hcount hc hne status
        refine ⟨record, s', hexit, ?_⟩
        rw [hnext]
        exact nofun
    · intro rsp
      obtain ⟨next, s', hyield, -, hsw, -⟩ := hinv.yield_of_user hc hrole rsp
      refine ⟨_, s', hyield, ?_⟩
      intro hnone
      split_ifs at hnone with hnext
      subst hnext
      refine ⟨hsw.current, by rw [hsw.state, if_pos rfl], ?_⟩
      intro hblocked
      rcases hsw.ready with hready | ⟨-, hready⟩ <;> rw [Quiet.saveRsp.state, hblocked] at hready <;>
        cases hready

/-- Two user threads; one forks, blocks and yields to the other, which exits. -/
theorem idle_never_lost_two_threads : ∃ s r, bootstrap examplePlatform 3 = .ok s ∧
    Reachable (Step examplePlatform fun r op => userRunsCounted r op = true) (.start s) r ∧
    r.userRan = true ∧ IdleReady r.sched := by
  obtain ⟨s, r, hs, hr, hran⟩ := exists_of_evaluate examplePlatform 3 userRunsCounted
    [.createUserThread 0x2000, .createUserThread 0x3000, .initialContextPair,
      .forkCurrentThread 0x4000, .blockCurrentThread, .yieldCurrentUserThread 0xffffffff8010bf60,
      .contextSwitchPair, .requestExitGroup 0] (Q := (·.userRan = true)) (by decide +kernel)
  exact ⟨s, r, hs, hr, hran, (idle_never_lost examplePlatform le_rfl hs hr).1⟩

/-- Each fork that finds no memory for the page table counts a thread that does not exist. After six
of them the exit of the first user thread runs past the thread table. -/
theorem failed_forks_break_exit : ∃ s r, bootstrap examplePlatform 3 = .ok s ∧
    Reachable (Step examplePlatform fun r op => userRuns r op = true) (.start s) r ∧
    userRuns r (.requestExitGroup 0) = true ∧
    (Op.requestExitGroup 0).exec examplePlatform r.sched = .error .indexOutOfBounds := by
  obtain ⟨s, r, hs, hr, hguard, hpanic⟩ := exists_of_evaluate examplePlatform 3 userRuns
    ([.createUserThread 0x2000, .initialContextPair] ++ List.replicate 6 (.forkCurrentThread 0))
    (Q := fun r => userRuns r (.requestExitGroup 0) = true ∧
      (match (Op.requestExitGroup 0).exec examplePlatform r.sched with
      | .error .indexOutOfBounds => true
      | _ => false) = true) (by decide +kernel)
  refine ⟨s, r, hs, hr, hguard, ?_⟩
  split at hpanic
  · assumption
  · cases hpanic

/-! ### The thread table -/

/-- `create_thread` writes to a free slot and to no other. -/
def CreatesInFree (s : Scheduler) : Prop :=
  ∀ P name role identity slot s', s.createThread P name role identity = (.ok slot, s') →
    (s.threads slot).state = .unused ∧ ∀ x, x ≠ slot → s'.threads x = s.threads x

/-- Does `reap_child` leave no slot in use behind the new `thread_count`? -/
def Scheduler.freesLast (s : Scheduler) (parentPid : ℕ) (targetPid : ℤ) : Bool :=
  match s.exitedChild parentPid targetPid with
  | none => true
  | some slot => decide (∀ x : Slot, x ≠ slot → (s.threads x).state ≠ .unused →
      (x : ℕ) + 1 < s.threadCount)

/-- The operations that create, end and reap threads, and yields. -/
def tableOps (_ : RunState) : Op → Bool
  | .createUserThread _ | .forkCurrentThread _ | .yieldCurrentUserThread _ | .requestExitGroup _
  | .reapChild _ _ => true
  | _ => false

/-- The operations but `initial_context_pair`, with `reap_child` only if it frees the last slot in
use, and forks only while `thread_count` can be incremented. -/
def tableOpsFreeingLast (r : RunState) : Op → Bool
  | .initialContextPair => false
  | .forkCurrentThread _ => decide (r.sched.threadCount + 1 < 2 ^ 64)
  | .reapChild parentPid targetPid => r.sched.freesLast parentPid targetPid
  | _ => true

/-- The invariant of these runs. -/
structure TableInv (s : Scheduler) : Prop where
  queueInv : QueueInv s
  slotInv : SlotInv s
  initialized : s.initialized = true
  count_lt : s.threadCount < 2 ^ 64

section Table

variable {P : Platform} {r : RunState} {op : Op} {s s' : Scheduler} {slot : Slot}

theorem SlotInv.createsInFree (h : SlotInv s) : CreatesInFree s := by
  intro P name role identity slot s' hcreate
  rw [createThread] at hcreate
  by_cases hcount : s.threadCount < maxThreads
  · rw [dif_pos hcount] at hcreate
    cases hcreate
    refine ⟨h.unused le_rfl, ?_⟩
    intro x hx
    exact update_of_ne hx _ _
  · rw [dif_neg hcount] at hcreate
    cases hcreate

/-- The table after `reap_child` has no slot in use behind `thread_count` exactly when it freed the
last one. -/
theorem SlotInv.freeSlot_iff (h : SlotInv s) (hexited : (s.threads slot).state = .exited)
    (hlt : s.threadCount < 2 ^ 64) : SlotInv (s.freeSlot slot) ↔
      ∀ x : Slot, x ≠ slot → (s.threads x).state ≠ .unused → (x : ℕ) + 1 < s.threadCount := by
  have hpos : 1 ≤ s.threadCount := by
    have hslot := h slot (hexited.trans_ne nofun)
    omega
  have hcount : (s.freeSlot slot).threadCount = s.threadCount - 1 := wrapSub_of_le hpos hlt
  constructor
  · intro hfree x hx hused
    have hxlt := hfree x (by rw [freeSlot_of_ne hx]; exact hused)
    omega
  · intro hlast x hused
    have hx := ne_of_freeSlot hused
    rw [freeSlot_of_ne hx] at hused
    have hxlt := hlast x hx hused
    omega

theorem SlotInv.reapChild_iff (h : SlotInv s) (hlt : s.threadCount < 2 ^ 64) (parentPid : ℕ)
    (targetPid : ℤ) : SlotInv (s.reapChild parentPid targetPid).2 ↔
      s.freesLast parentPid targetPid = true := by
  rw [freesLast]
  cases hchild : s.exitedChild parentPid targetPid with
  | none =>
    rw [reapChild_of_none hchild]
    exact iff_of_true h rfl
  | some slot =>
    rw [reapChild_of_some hchild, h.freeSlot_iff (state_of_exitedChild hchild) hlt]
    simp only [decide_eq_true_eq]

namespace TableInv

section

variable (h : TableInv s)

include h

theorem of_moves (hq : QueueInv s') (hm : Moves s s') : TableInv s' :=
  ⟨hq, hm.slotInv h.slotInv, (congrArg Fixed.initialized hm.fixed).trans h.initialized,
    (congrArg Fixed.threadCount hm.fixed).trans_lt h.count_lt⟩

theorem of_spawned (hq : Queues s' s'.runnable) (hs : Spawned s slot t s')
    (ht : t.state = .runnable) (hcount : s.threadCount + 1 < 2 ^ 64)
    (hslot : (slot : ℕ) ≤ s.threadCount) : TableInv s' :=
  ⟨hs.queueInv ht h.queueInv hq, hs.slotInv hcount hslot h.slotInv,
    (congrArg Fixed.initialized hs.fixed).trans h.initialized,
    (hs.threadCount hcount).trans_lt hcount⟩

theorem saveRsp (c : Slot) (rsp : ℕ) : TableInv (s.saveRsp c rsp) := by
  refine ⟨Quiet.saveRsp.queueInv h.queueInv, ?_, h.initialized, h.count_lt⟩
  intro x hused
  rw [Quiet.saveRsp.state] at hused
  exact h.slotInv x hused

theorem yieldCurrentUserThread (rsp : ℕ) :
    ∃ result s', s.yieldCurrentUserThread rsp = .ok (result, s') ∧ TableInv s' := by
  by_cases huser : ∃ c, s.currentSlot = some c ∧ (s.threads c).role = .user ∧
      (s.threads c).state ≠ .exited
  · obtain ⟨c, hc, hrole, hstate⟩ := huser
    rcases h.queueInv.queues.yieldCurrentUserThread h.initialized hc hrole hstate rsp with
      ⟨hyield, -⟩ | ⟨next, s', hyield, hq, hsw, hm⟩
    · exact ⟨_, _, hyield, h.saveRsp c rsp⟩
    · have hsaved := h.saveRsp c rsp
      exact ⟨_, s', hyield, hsaved.of_moves (hsw.queueInv hsaved.queueInv hc hq) hm⟩
  · refine ⟨none, s, yieldCurrentUserThread_of_not ?_, h⟩
    intro c _ hc hrole
    by_contra hstate
    exact huser ⟨c, hc, hrole, hstate⟩

theorem requestExitGroup (hexit : s.requestExitGroup status = .ok (result, s')) : TableInv s' := by
  by_cases hgroup : ∃ c, s.currentSlot = some c ∧ (s.threads c).state ≠ .exited ∧
      (s.threads c).threadGroupId ≠ 0
  · obtain ⟨c, hc, hstate, hgroup⟩ := hgroup
    by_cases hcount : s.threadCount ≤ maxThreads
    · obtain ⟨record, s'', hexit', hq, hg⟩ := h.queueInv.requestExitGroup h.slotInv hcount
        h.initialized hc hstate hgroup status
      cases Except.ok.inj (hexit'.symm.trans hexit)
      exact ⟨hq, hg.slotInv h.slotInv, (congrArg Fixed.initialized hg.fixed).trans h.initialized,
        (congrArg Fixed.threadCount hg.fixed).trans_lt h.count_lt⟩
    · rw [requestExitGroup_of_gt h.initialized hc hstate hgroup (not_le.mp hcount) status] at hexit
      cases hexit
  · rw [requestExitGroup_of_not] at hexit
    · cases hexit
      exact h
    · intro c _ hc
      by_contra hnot
      rw [not_or] at hnot
      exact hgroup ⟨c, hc, hnot⟩

theorem createUserThread (P : Platform) (pageTable : ℕ) :
    TableInv (s.createUserThread P pageTable).2 := by
  by_cases hcount : s.threadCount < maxThreads
  · have hfree := h.slotInv.unused (x := ⟨s.threadCount, hcount⟩) le_rfl
    obtain ⟨s', hcreate, hq, hs⟩ := h.queueInv.queues.createUserThread h.initialized hcount
      (hfree.trans_ne nofun) P pageTable
    rw [hcreate]
    refine h.of_spawned hq hs rfl ?_ le_rfl
    change s.threadCount < 8 at hcount
    omega
  · obtain ⟨e, herr⟩ := createUserThread_of_full (.inr (not_lt.mp hcount)) P pageTable
    rw [herr]
    exact h

theorem forkCurrentThread (hcount : s.threadCount + 1 < 2 ^ 64) (newCr3 : ℕ) :
    TableInv (s.forkCurrentThread newCr3).2 := by
  rcases h.queueInv.queues.forkCurrentThread newCr3 with
    ⟨e, herr⟩ | ⟨-, e, herr⟩ | ⟨parent, child, s', -, -, -, hbelow, hfork, hq, hs⟩
  · rw [herr]
    exact h
  · have hadd : s.addThread.threadCount = s.threadCount + 1 := wrapAdd_of_lt hcount
    rw [herr]
    refine ⟨⟨h.queueInv.queues.of_same rfl rfl fun _ _ => rfl, h.queueInv.running⟩, ?_,
      h.initialized, hadd.trans_lt hcount⟩
    intro x hx
    exact (h.slotInv x hx).trans ((Nat.lt_succ_self _).trans_eq hadd.symm)
  · rw [hfork]
    exact h.of_spawned hq hs rfl hcount (h.slotInv.le_threadCount hbelow)

theorem reapChild (hlast : s.freesLast parentPid targetPid = true) :
    TableInv (s.reapChild parentPid targetPid).2 := by
  have hslots := (h.slotInv.reapChild_iff h.count_lt parentPid targetPid).mpr hlast
  cases hchild : s.exitedChild parentPid targetPid with
  | none =>
    rw [reapChild_of_none hchild]
    exact h
  | some slot =>
    rw [reapChild_of_some hchild] at hslots ⊢
    exact ⟨h.queueInv.freeSlot (state_of_exitedChild hchild), hslots,
      (freeSlot_initialized s slot).trans h.initialized, Nat.mod_lt _ (by decide)⟩

theorem contextSwitchPair : ∃ result s', s.contextSwitchPair = .ok (result, s') ∧ TableInv s' := by
  rcases h.queueInv.queues.contextSwitchPair with
    hnone | ⟨c, next, s', hc, -, hsome, hq, hsw, hm⟩
  · exact ⟨_, s, hnone, h⟩
  · exact ⟨_, s', hsome, h.of_moves (hsw.queueInv h.queueInv hc hq) hm⟩

theorem blockCurrentThread : TableInv s.blockCurrentThread := by
  rcases h.queueInv.blockCurrentThread with hsame | ⟨c, -, -, hblock, hq, hm⟩
  · rw [hsame]
    exact h
  · rw [hblock]
    exact h.of_moves hq hm

theorem unblockThreadWithResult (pid tid : ℕ) : TableInv (s.unblockThreadWithResult pid tid).2 := by
  rcases h.queueInv.unblockThreadWithResult pid tid with hnone | ⟨slot, s', -, hsome, hq, hm, -, -⟩
  · rw [hnone]
    exact h
  · rw [hsome]
    exact h.of_moves hq hm

end

/-- Every operation within the guard keeps the table in order. -/
theorem step (h : TableInv r.sched) (hguard : tableOpsFreeingLast r op = true)
    (hexec : op.exec P r.sched = .ok s) : TableInv s := by
  cases op with
  | createUserThread pageTable =>
    cases hexec
    exact h.createUserThread P pageTable
  | initialContextPair => cases hguard
  | contextSwitchPair =>
    obtain ⟨result, s', hswitch, htable⟩ := h.contextSwitchPair
    rw [Op.exec, hswitch] at hexec
    cases hexec
    exact htable
  | yieldCurrentUserThread rsp =>
    obtain ⟨result, s', hyield, htable⟩ := h.yieldCurrentUserThread rsp
    rw [Op.exec, hyield] at hexec
    cases hexec
    exact htable
  | blockCurrentThread =>
    cases hexec
    exact h.blockCurrentThread
  | unblockThreadWithResult pid tid =>
    cases hexec
    exact h.unblockThreadWithResult pid tid
  | requestExitGroup status =>
    rw [Op.exec] at hexec
    cases hexit : r.sched.requestExitGroup status with
    | error e =>
      rw [hexit] at hexec
      cases hexec
    | ok result =>
      rw [hexit] at hexec
      cases hexec
      exact h.requestExitGroup hexit
  | forkCurrentThread newCr3 =>
    cases hexec
    exact h.forkCurrentThread (of_decide_eq_true hguard) newCr3
  | reapChild parentPid targetPid =>
    cases hexec
    exact h.reapChild hguard

theorem start (h : Booted s) : TableInv s := by
  refine ⟨h.queueInv, (RunInv.start h).slotInv, h.kernel.initialized, ?_⟩
  rw [h.threadCount]
  decide

end TableInv

end Table

/-- **No thread is overwritten, and every loop over the table reaches every thread**, in every state
of every run in which `reap_child` frees the last slot in use. A `reap_child` in such a state keeps
this exactly when it frees the last slot. -/
theorem table_never_overwritten (P : Platform) {n : ℕ} (hn : 3 ≤ n) {s : Scheduler}
    (hs : bootstrap P n = .ok s) {r : RunState}
    (hr : Reachable (Step P fun r op => tableOpsFreeingLast r op = true) (.start s) r) :
    SlotInv r.sched ∧ CreatesInFree r.sched ∧ ∀ parentPid targetPid,
      (SlotInv (r.sched.reapChild parentPid targetPid).2 ∧
        CreatesInFree (r.sched.reapChild parentPid targetPid).2) ↔
      r.sched.freesLast parentPid targetPid = true := by
  have hbooted := booted_of_bootstrap (by omega) hs
  have htable : TableInv r.sched := by
    refine hr.invariant (I := fun r => TableInv r.sched) (.start hbooted) ?_
    rintro r op r' hinv ⟨hguard, s', hexec, rfl⟩
    exact hinv.step hguard hexec
  refine ⟨htable.slotInv, htable.slotInv.createsInFree, ?_⟩
  intro parentPid targetPid
  rw [← htable.slotInv.reapChild_iff htable.count_lt]
  exact ⟨And.left, fun hslots => ⟨hslots, hslots.createsInFree⟩⟩

/-- A user thread forks a child, which exits and is reaped. -/
theorem table_never_overwritten_one_child : ∃ s r, bootstrap examplePlatform 3 = .ok s ∧
    Reachable (Step examplePlatform fun r op => tableOpsFreeingLast r op = true) (.start s) r ∧
    r.sched.threadCount = 3 ∧ (r.sched.threads 3).id = 4 ∧ SlotInv r.sched := by
  obtain ⟨s, r, hs, hr, hcount, hid⟩ := exists_of_evaluate examplePlatform 3 tableOpsFreeingLast
    [.createUserThread 0x2000, .contextSwitchPair, .contextSwitchPair, .forkCurrentThread 0x3000,
      .contextSwitchPair, .contextSwitchPair, .contextSwitchPair, .requestExitGroup 0,
      .reapChild 3 (-1)]
    (Q := fun r => r.sched.threadCount = 3 ∧ (r.sched.threads 3).id = 4) (by decide +kernel)
  exact ⟨s, r, hs, hr, hcount, hid, (table_never_overwritten examplePlatform le_rfl hs hr).1⟩

/-- Two user threads are created, the bootstrap thread exits and is reaped: its slot is the first,
but `thread_count` now leaves the last thread out, and the next one is created over it. -/
theorem reap_lets_create_overwrite : ∃ s r, bootstrap examplePlatform 3 = .ok s ∧
    Reachable (Step examplePlatform fun r op => tableOps r op = true) (.start s) r ∧
    (r.sched.threads 3).state = .runnable ∧ r.sched.threadCount = 3 ∧
    ¬ SlotInv r.sched ∧ ¬ CreatesInFree r.sched := by
  obtain ⟨s, r, hs, hr, hready, hcount⟩ := exists_of_evaluate examplePlatform 3 tableOps
    [.createUserThread 0x2000, .createUserThread 0x3000, .requestExitGroup 0, .reapChild 0 (-1)]
    (Q := fun r => (r.sched.threads 3).state = .runnable ∧ r.sched.threadCount = 3)
    (by decide +kernel)
  refine ⟨s, r, hs, hr, hready, hcount, ?_, ?_⟩
  · intro hslots
    have hlt := hslots 3 (hready.trans_ne nofun)
    rw [hcount] at hlt
    exact lt_irrefl 3 hlt
  · intro hcreate
    have hroom : r.sched.threadCount < maxThreads := by
      rw [hcount]
      decide
    have hslot : (⟨r.sched.threadCount, hroom⟩ : Slot) = 3 := Fin.ext hcount
    obtain ⟨hunused, -⟩ := hcreate examplePlatform "user-init" .user ⟨5, 0, 5⟩
      ⟨r.sched.threadCount, hroom⟩ _ (by rw [createThread, dif_pos hroom])
    rw [hslot, hready] at hunused
    cases hunused

end Hxnu.Sched
