import Hxnu.Lib.Run
import Hxnu.Sched.Boot

/-!
# Runs of the scheduler

The operations of the scheduler as the actions of a transition system. A run carries three flags
beside the scheduler: whether `initial_context_pair` was called, whether a user thread has run, and
whether a thread has just blocked and must yield next. Which operations may be taken in a state is a
parameter of the system.

The invariant of the runs without `reap_child` (`RunInv`) says that the run queues are in order, that
the idle thread waits or runs, and that some thread is current; it runs unless it has just blocked.
Every operation keeps it, and none panics, as long as the guards of `Sound` hold.

## Main definitions

* `Op`, `Op.exec`: the operations.
* `RunState`, `Step`: the transition system.
* `RunInv`, `Sound`: the invariant and the guards under which it is kept.

## Main results

* `RunInv.step`: every operation within the guards returns and keeps the invariant.
-/

namespace Hxnu.Sched

open Word Scheduler Function

/-! ### Operations -/

inductive Op
  | createUserThread (pageTable : ℕ)
  | initialContextPair
  | contextSwitchPair
  | yieldCurrentUserThread (savedUserRsp : ℕ)
  | blockCurrentThread
  | unblockThreadWithResult (targetPid targetTid : ℕ)
  | requestExitGroup (status : ℤ)
  | forkCurrentThread (newCr3 : ℕ)
  | reapChild (parentPid : ℕ) (targetPid : ℤ)
  deriving DecidableEq, Repr

/-- The state after an operation, if it does not panic. -/
def Op.exec (P : Platform) (s : Scheduler) : Op → Except Panic Scheduler
  | .createUserThread pageTable => .ok (s.createUserThread P pageTable).2
  | .initialContextPair => s.initialContextPair.map Prod.snd
  | .contextSwitchPair => s.contextSwitchPair.map Prod.snd
  | .yieldCurrentUserThread rsp => (s.yieldCurrentUserThread rsp).map Prod.snd
  | .blockCurrentThread => .ok s.blockCurrentThread
  | .unblockThreadWithResult pid tid => .ok (s.unblockThreadWithResult pid tid).2
  | .requestExitGroup status => (s.requestExitGroup status).map Prod.snd
  | .forkCurrentThread newCr3 => .ok (s.forkCurrentThread newCr3).2
  | .reapChild parentPid targetPid => .ok (s.reapChild parentPid targetPid).2

/-- Is the current thread a user thread? -/
def Scheduler.userCurrent (s : Scheduler) : Bool :=
  match s.currentSlot with
  | none => false
  | some c => (s.threads c).role == .user

/-- The scheduler during a run. -/
structure RunState where
  sched : Scheduler
  /-- `initial_context_pair` was called. -/
  entered : Bool
  /-- A user thread has been current. -/
  userRan : Bool
  /-- The last operation was `block_current_thread`. -/
  mustYield : Bool

namespace RunState

def start (s : Scheduler) : RunState := ⟨s, false, false, false⟩

/-- The state of the run after an operation that left the scheduler in `s`. -/
def next (r : RunState) (op : Op) (s : Scheduler) : RunState where
  sched := s
  entered := r.entered || op == .initialContextPair
  userRan := r.userRan || s.userCurrent
  mustYield := op == .blockCurrentThread

end RunState

/-- One operation of a run, taken within a guard. -/
def Step (P : Platform) (guard : RunState → Op → Prop) (r : RunState) (op : Op) (r' : RunState) :
    Prop :=
  guard r op ∧ ∃ s, op.exec P r.sched = .ok s ∧ r' = r.next op s

def Op.isYield : Op → Bool
  | .yieldCurrentUserThread _ => true
  | _ => false

/-- A block is directly followed by a yield. -/
def yieldsIfMust (r : RunState) (op : Op) : Bool := !r.mustYield || op.isYield

/-! ### The calls of `enqueue` -/

/-- The result of the call of `enqueue` when a thread is preempted. -/
def Scheduler.preemptEnqueue (s : Scheduler) (slot : Slot) : List (Except SchedulerError Unit) :=
  if (s.threads slot).state = .running then [((s.setState slot .runnable).enqueue slot).1] else []

/-- The results of the calls of `enqueue` that an operation makes, and of those it would make if
nothing stopped it earlier. -/
def Op.enqueues (P : Platform) (s : Scheduler) : Op → List (Except SchedulerError Unit)
  | .createUserThread pageTable =>
    if h : s.threadCount < maxThreads then
      [((s.addThread.setThread ⟨s.threadCount, h⟩
        (s.userThread P ⟨s.threadCount, h⟩ pageTable)).enqueue ⟨s.threadCount, h⟩).1]
    else []
  | .initialContextPair =>
    match s.bootstrapSlot, s.currentSlot with
    | .ok (some b), some c => (s.setState b .exited).preemptEnqueue c
    | _, _ => []
  | .contextSwitchPair =>
    match s.currentSlot with
    | some c => s.preemptEnqueue c
    | none => []
  | .yieldCurrentUserThread rsp =>
    match s.currentSlot with
    | some c => (s.saveRsp c rsp).preemptEnqueue c
    | none => []
  | .unblockThreadWithResult pid tid =>
    match Ring.first fun slot : Slot => (s.threads slot).processId == pid &&
        (s.threads slot).id == tid && (s.threads slot).state == .blocked with
    | some slot => [((s.setState slot .runnable).enqueue slot).1]
    | none => []
  | .forkCurrentThread newCr3 =>
    match s.currentSlot, Ring.first fun slot : Slot => (s.threads slot).state == .unused with
    | some parent, some child =>
      [((s.addThread.setThread child (s.forkedThread parent newCr3)).enqueue child).1]
    | _, _ => []
  | .blockCurrentThread | .requestExitGroup _ | .reapChild _ _ => []

/-! ### The invariant of the runs without `reap_child` -/

/-- The invariant of a run. -/
structure RunInv (r : RunState) : Prop where
  queueInv : QueueInv r.sched
  slotInv : SlotInv r.sched
  kernel : KernelThreads r.sched
  bootstrapUsed : (r.sched.threads 0).state ≠ .unused
  idle : (r.sched.threads 1).state = .running ∨ (r.sched.threads 1).state = .runnable
  group : ∀ x, x ≠ 1 →
    ((r.sched.threads x).state = .unused ↔ (r.sched.threads x).threadGroupId = 0)
  nextThreadId : r.sched.nextThreadId ≠ 0
  current : ∃ c, r.sched.currentSlot = some c ∧ ((r.sched.threads c).state = .running ∨
    r.mustYield = true ∧ (r.sched.threads c).state = .blocked ∧ (r.sched.threads c).role = .user)
  fresh : r.userRan = false → ∀ x, (r.sched.threads x).role = .user →
    (r.sched.threads x).state = .exited ∨ (r.sched.threads x).state = .runnable

/-- The guards under which the invariant is kept. -/
def Sound (r : RunState) (op : Op) : Prop :=
  yieldsIfMust r op = true ∧
    match op with
    | .initialContextPair => r.userRan = false ∧ (r.sched.threads 0).state ≠ .runnable ∧
        r.sched.threadCount ≤ maxThreads
    | .blockCurrentThread => r.sched.userCurrent = true
    | .requestExitGroup _ => r.sched.threadCount ≤ maxThreads
    | .forkCurrentThread _ => r.sched.threadCount + 1 < 2 ^ 64
    | .reapChild _ _ => False
    | _ => True

theorem userCurrent_eq {s : Scheduler} {c : Slot} (hc : s.currentSlot = some c) :
    s.userCurrent = ((s.threads c).role == .user) := by
  rw [userCurrent, hc]

/-- What an operation does to the table of threads. -/
inductive Effect (s : Scheduler) (op : Op) (s' : Scheduler) : Prop
  | kept (fixed : s'.fixed = s.fixed)
      (unused : ∀ x, (s'.threads x).state = .unused ↔ (s.threads x).state = .unused)
  | spawned (slot : Slot) (t : Thread) (h : Spawned s slot t s')
      (free : (s.threads slot).state = .unused) (ready : t.state = .runnable)
      (place : (slot : ℕ) = s.threadCount ∨ ∀ x < slot, (s.threads x).state ≠ .unused)
  | counted (hop : op = .forkCurrentThread 0) (h : s' = s.addThread)

/-- A step that keeps the invariant; it makes no thread run that was not ready to. -/
structure Stepped (r : RunState) (op : Op) (s : Scheduler) : Prop where
  inv : RunInv (r.next op s)
  effect : Effect r.sched op s
  wakes : ∀ x, (s.threads x).state = .running →
    (r.sched.threads x).state = .running ∨ (r.sched.threads x).state = .runnable

namespace RunInv

variable {P : Platform} {r : RunState} {op : Op} {s : Scheduler} {c : Slot}

/-- The invariant after a step in which no thread appears or disappears. -/
theorem of_moves (h : RunInv r) (hq : QueueInv s) (hm : Moves r.sched s)
    (hidle : (s.threads 1).state = .running ∨ (s.threads 1).state = .runnable)
    (hcurrent : ∃ c, s.currentSlot = some c ∧ ((s.threads c).state = .running ∨
      op = .blockCurrentThread ∧ (s.threads c).state = .blocked ∧ (s.threads c).role = .user))
    (hfresh : r.userRan = false → s.userCurrent = false → ∀ x, (s.threads x).role = .user →
      (s.threads x).state = .exited ∨ (s.threads x).state = .runnable) : RunInv (r.next op s) where
  queueInv := hq
  slotInv := hm.slotInv h.slotInv
  kernel := h.kernel.moves hm
  bootstrapUsed := fun hunused => h.bootstrapUsed ((hm.unused 0).mp hunused)
  idle := hidle
  group x hx := by
    change (s.threads x).state = .unused ↔ (s.threads x).threadGroupId = 0
    rw [hm.unused, hm.threadGroupId]
    exact h.group x hx
  nextThreadId := by
    change s.nextThreadId ≠ 0
    rw [show s.nextThreadId = r.sched.nextThreadId from congrArg Fixed.nextThreadId hm.fixed]
    exact h.nextThreadId
  current := by
    obtain ⟨c, hc, hstate⟩ := hcurrent
    refine ⟨c, hc, hstate.imp_right ?_⟩
    rintro ⟨rfl, hblocked⟩
    exact ⟨rfl, hblocked⟩
  fresh hran := by
    obtain ⟨hran, hcur⟩ := Bool.or_eq_false_iff.mp hran
    exact hfresh hran hcur

/-- A switch from one thread to another keeps the invariant. -/
theorem switchedTo {next : Slot} (h : RunInv r) (hc : r.sched.currentSlot = some c)
    (hq : Queues s s.runnable) (hm : Moves r.sched s) (hsw : SwitchedTo r.sched c next s) :
    RunInv (r.next op s) := by
  refine h.of_moves (hsw.queueInv h.queueInv hc hq) hm ?_ ⟨next, hsw.current, .inl ?_⟩ ?_
  · rw [hsw.state]
    split_ifs
    · exact .inl rfl
    · exact .inr rfl
    · exact h.idle
  · rw [hsw.state, if_pos rfl]
  · intro hran hcur x hrole
    rw [hsw.state]
    split_ifs with hx
    · -- The thread that is switched to is not a user thread.
      rw [userCurrent_eq hsw.current, ← hx, hrole] at hcur
      cases hcur
    · exact .inr rfl
    · exact h.fresh hran x ((hm.role x).symm.trans hrole)

/-- Nothing changes, and the current thread runs. -/
theorem same (h : RunInv r)
    (hrun : ∀ c, r.sched.currentSlot = some c → (r.sched.threads c).state = .running) :
    Stepped r op r.sched := by
  obtain ⟨c, hc, -⟩ := h.current
  exact ⟨h.of_moves h.queueInv (.refl _) h.idle ⟨c, hc, .inl (hrun c hc)⟩
    fun hran _ => h.fresh hran, .kept rfl fun _ => Iff.rfl, fun _ => .inl⟩

theorem running (h : RunInv r) (hmust : r.mustYield = false) (hc : r.sched.currentSlot = some c) :
    (r.sched.threads c).state = .running := by
  obtain ⟨c', hc', hstate⟩ := h.current
  rw [hc] at hc'
  cases hc'
  rcases hstate with hrun | ⟨htrue, -⟩
  · exact hrun
  · rw [hmust] at htrue
    cases htrue

theorem not_exited (h : RunInv r) (hc : r.sched.currentSlot = some c) :
    (r.sched.threads c).state ≠ .exited ∧ (r.sched.threads c).state ≠ .unused := by
  obtain ⟨c', hc', hstate⟩ := h.current
  rw [hc] at hc'
  cases hc'
  rcases hstate with hrun | ⟨-, hblocked, -⟩
  · rw [hrun]
    exact ⟨nofun, nofun⟩
  · rw [hblocked]
    exact ⟨nofun, nofun⟩

/-! ### Yields and switches -/

theorem threads_setContext {β : Type} (s : Scheduler) (c : Slot) (context : TaskContext)
    (f : Thread → β) (hf : ∀ (t : Thread) (context : TaskContext), f { t with context } = f t)
    (x : Slot) : f ((s.setContext c context).threads x) = f (s.threads x) := by
  rw [Scheduler.setContext, setThread_threads]
  by_cases hx : x = c
  · rw [hx, update_self, hf]
  · rw [update_of_ne hx]

section

variable (h : RunInv r)

include h

/-- The invariant does not look at saved contexts. -/
theorem setContext (c : Slot) (context : TaskContext) :
    RunInv { r with sched := r.sched.setContext c context } := by
  have hstate := threads_setContext r.sched c context Thread.state fun _ _ => rfl
  have hrole := threads_setContext r.sched c context Thread.role fun _ _ => rfl
  have hid := threads_setContext r.sched c context Thread.id fun _ _ => rfl
  have hgroup := threads_setContext r.sched c context Thread.threadGroupId fun _ _ => rfl
  have hk := h.kernel
  refine ⟨Quiet.setContext.queueInv h.queueInv, ?_, ?_, ?_, ?_, ?_, h.nextThreadId, ?_, ?_⟩
  · intro x hx
    rw [hstate] at hx
    exact h.slotInv x hx
  · exact ⟨hk.initialized, hk.bootstrapThreadId, hk.idleThreadId, (hid 0).trans hk.bootstrapId,
      (hrole 0).trans hk.bootstrapRole, (hid 1).trans hk.idleId, (hrole 1).trans hk.idleRole,
      (hgroup 1).trans hk.idleGroup, hk.two_le⟩
  · rw [hstate]
    exact h.bootstrapUsed
  · rw [hstate]
    exact h.idle
  · intro x
    rw [hstate, hgroup]
    exact h.group x
  · obtain ⟨c', hc', hcur⟩ := h.current
    refine ⟨c', hc', ?_⟩
    rw [hstate, hrole]
    exact hcur
  · intro hran x
    rw [hstate, hrole]
    exact h.fresh hran x

/-- **A user thread yields.** As the idle thread never goes away, some thread is dispatched. -/
theorem yield_of_user (hc : r.sched.currentSlot = some c)
    (hrole : (r.sched.threads c).role = .user) (rsp : ℕ) :
    ∃ next s', r.sched.yieldCurrentUserThread rsp =
        .ok (if next = c then none else some next, s') ∧ Queues s' s'.runnable ∧
      SwitchedTo (r.sched.saveRsp c rsp) c next s' ∧ Moves (r.sched.saveRsp c rsp) s' := by
  have hyield := h.queueInv.queues.yieldCurrentUserThread h.kernel.initialized hc hrole
    (h.not_exited hc).1 rsp
  refine hyield.resolve_left ?_
  rintro ⟨-, -, hempty⟩
  rcases h.idle with hrun | hready
  · have hcur := h.queueInv.running 1 hrun
    rw [hc] at hcur
    cases hcur
    rw [h.kernel.idleRole] at hrole
    cases hrole
  · have hmem : (1 : Slot) ∈ r.sched.runnable := hready
    rw [hempty] at hmem
    exact hmem

theorem yieldCurrentUserThread (rsp : ℕ) :
    ∃ s, (Op.yieldCurrentUserThread rsp).exec P r.sched = .ok s ∧
      Stepped r (.yieldCurrentUserThread rsp) s := by
  obtain ⟨c, hc, hstate⟩ := h.current
  by_cases hrole : (r.sched.threads c).role = .user
  · obtain ⟨next, s, hyield, hq, hsw, hm⟩ := h.yield_of_user hc hrole rsp
    have hstate₁ : ∀ x, ((r.sched.saveRsp c rsp).threads x).state = (r.sched.threads x).state :=
      Quiet.saveRsp.state
    refine ⟨s, ?_, (h.setContext c _).switchedTo hc hq hm hsw, .kept hm.fixed ?_, ?_⟩
    · rw [Op.exec, hyield]
      rfl
    · intro x
      rw [hm.unused, hstate₁]
    · intro x hx
      rw [← hstate₁]
      exact hsw.wakes hx
  · -- Kernel threads do not yield here.
    refine ⟨r.sched, ?_, h.same ?_⟩
    · rw [Op.exec, yieldCurrentUserThread_of_not]
      · rfl
      · intro c' _ hc' hrole'
        rw [hc] at hc'
        cases hc'
        exact absurd hrole' hrole
    · intro c' hc'
      rw [hc] at hc'
      cases hc'
      exact hstate.resolve_right fun hblocked => hrole hblocked.2.2

theorem contextSwitchPair (hmust : r.mustYield = false) :
    ∃ s, Op.contextSwitchPair.exec P r.sched = .ok s ∧ Stepped r .contextSwitchPair s := by
  rcases h.queueInv.queues.contextSwitchPair with hnone | ⟨c, next, s, hc, -, hsome, hq, hsw, hm⟩
  · refine ⟨r.sched, ?_, h.same fun c hc => h.running hmust hc⟩
    rw [Op.exec, hnone]
    rfl
  · refine ⟨s, ?_, h.switchedTo hc hq hm hsw, .kept hm.fixed hm.unused, fun x => hsw.wakes⟩
    rw [Op.exec, hsome]
    rfl

/-! ### Exits, blocks and unblocks -/

/-- **A user thread exits.** As the idle thread never goes away, some thread is dispatched. -/
theorem exit_of_user (hcount : r.sched.threadCount ≤ maxThreads)
    (hc : r.sched.currentSlot = some c) (hne : c ≠ 1) (status : ℤ) :
    ∃ record s, r.sched.requestExitGroup status = .ok (some record, s) ∧ QueueInv s ∧
      GroupExited r.sched c s ∧ Moves r.sched s ∧ ∃ next, s.currentSlot = some next := by
  obtain ⟨hexited, hused⟩ := h.not_exited hc
  have hgroup : (r.sched.threads c).threadGroupId ≠ 0 := fun hzero =>
    hused ((h.group c hne).mpr hzero)
  obtain ⟨record, s, hexit, hq, hg⟩ := h.queueInv.requestExitGroup h.slotInv hcount
    h.kernel.initialized hc hexited hgroup status
  have hm : Moves r.sched s := by
    refine hg.moves ?_
    intro x hx heq
    have hx₁ : x ≠ 1 := by
      rintro rfl
      rcases h.idle with hidle | hidle <;> rw [hidle] at hx <;> cases hx
    exact hgroup (heq ▸ (h.group x hx₁).mp hx)
  refine ⟨record, s, hexit, hq, hg, hm, ?_⟩
  cases hcur : s.currentSlot with
  | some next => exact ⟨next, rfl⟩
  | none =>
    -- The idle thread is in another group, so it was waiting.
    rcases h.idle with hrun | hready
    · have hcur₁ := h.queueInv.running 1 hrun
      rw [hc] at hcur₁
      exact absurd (Option.some.inj hcur₁) hne
    · have hsame := hg.idle hcur 1 hready
      rw [h.kernel.idleGroup] at hsame
      exact absurd hsame.symm hgroup

theorem requestExitGroup (hmust : r.mustYield = false)
    (hcount : r.sched.threadCount ≤ maxThreads) (status : ℤ) :
    ∃ s, (Op.requestExitGroup status).exec P r.sched = .ok s ∧
      Stepped r (.requestExitGroup status) s := by
  obtain ⟨c, hc, -⟩ := h.current
  by_cases hne : c = 1
  · subst hne
    refine ⟨r.sched, ?_, h.same fun c hc => h.running hmust hc⟩
    rw [Op.exec, requestExitGroup_of_not]
    · rfl
    · intro c' _ hc'
      rw [hc] at hc'
      cases hc'
      exact .inr h.kernel.idleGroup
  · obtain ⟨record, s, hexit, hq, hg, hm, next, hnext⟩ := h.exit_of_user hcount hc hne status
    refine ⟨s, ?_, h.of_moves hq hm ?_ ⟨next, hnext, .inl ?_⟩ ?_, .kept hm.fixed hm.unused,
      fun x => hg.wakes⟩
    · rw [Op.exec, hexit]
      rfl
    · have hother : (r.sched.threads 1).threadGroupId ≠ (r.sched.threads c).threadGroupId := by
        rw [h.kernel.idleGroup]
        exact fun heq => (h.not_exited hc).2 ((h.group c hne).mpr heq.symm)
      rw [hg.state, if_neg fun hgone => hother hgone.2]
      split_ifs
      · exact .inl rfl
      · exact h.idle
    · rw [hg.state, if_neg fun hgone => (hg.next next hnext).2 hgone.2, if_pos hnext]
    · intro hran hcur x hrole
      have hrole' : (r.sched.threads x).role = .user := (hm.role x).symm.trans hrole
      rw [hg.state]
      split_ifs with hgone hx
      · exact .inl rfl
      · rw [userCurrent_eq hx, hrole] at hcur
        cases hcur
      · exact h.fresh hran x hrole'

theorem blockCurrentThread (huser : r.sched.userCurrent = true) (hmust : r.mustYield = false) :
    ∃ s, Op.blockCurrentThread.exec P r.sched = .ok s ∧
      Stepped r .blockCurrentThread s := by
  obtain ⟨c, hc, -⟩ := h.current
  have hrole : (r.sched.threads c).role = .user := by
    rw [userCurrent_eq hc, beq_iff_eq] at huser
    exact huser
  refine ⟨_, rfl, ?_⟩
  rcases h.queueInv.blockCurrentThread with hsame | ⟨c', hc', -, hblock, hq, hm⟩
  · rw [hsame]
    exact h.same fun c hc => h.running hmust hc
  · rw [hc] at hc'
    cases hc'
    have hne : (1 : Slot) ≠ c := by
      rintro rfl
      rw [h.kernel.idleRole] at hrole
      cases hrole
    rw [hblock]
    refine ⟨h.of_moves hq hm ?_ ⟨c, hc, .inr ⟨rfl, ?_, ?_⟩⟩ ?_, .kept hm.fixed hm.unused, ?_⟩
    · rw [setState_threads, update_of_ne hne]
      exact h.idle
    · rw [setState_threads, update_self]
    · rw [setState_threads, update_self]
      exact hrole
    · intro _ hcur
      have huser' : (r.sched.setState c .blocked).userCurrent = true := by
        have hc' : (r.sched.setState c .blocked).currentSlot = some c := hc
        rw [userCurrent_eq hc', setState_threads, update_self]
        exact beq_iff_eq.mpr hrole
      rw [huser'] at hcur
      cases hcur
    · intro x hx
      rw [setState_threads] at hx
      by_cases hxc : x = c
      · rw [hxc, update_self] at hx
        cases hx
      · rw [update_of_ne hxc] at hx
        exact .inl hx

theorem unblockThreadWithResult (hmust : r.mustYield = false) (pid tid : ℕ) :
    ∃ s, (Op.unblockThreadWithResult pid tid).exec P r.sched = .ok s ∧
      Stepped r (.unblockThreadWithResult pid tid) s := by
  refine ⟨_, rfl, ?_⟩
  rcases h.queueInv.unblockThreadWithResult pid tid with
    hnone | ⟨slot, s, hblocked, hsome, hq, hm, hcur, hthreads⟩
  · rw [hnone]
    exact h.same fun c hc => h.running hmust hc
  · rw [hsome]
    have hother {x : Slot} (hx : x ≠ slot) : s.threads x = r.sched.threads x := by
      rw [hthreads, setState_threads, update_of_ne hx]
    have hself : (s.threads slot).state = .runnable := by
      rw [hthreads, setState_threads, update_self]
    obtain ⟨c, hc, -⟩ := h.current
    have hrun := h.running hmust hc
    refine ⟨h.of_moves hq hm ?_ ⟨c, hcur.trans hc, .inl ?_⟩ ?_, .kept hm.fixed hm.unused, ?_⟩
    · by_cases hx : (1 : Slot) = slot
      · rw [hx]
        exact .inr hself
      · rw [hother hx]
        exact h.idle
    · rw [hother]
      · exact hrun
      · rintro rfl
        rw [hblocked] at hrun
        cases hrun
    · intro hran _ x hrole
      by_cases hx : x = slot
      · rw [hx]
        exact .inr hself
      · rw [hother hx] at hrole ⊢
        exact h.fresh hran x hrole
    · intro x hx
      by_cases hxs : x = slot
      · rw [hxs, hself] at hx
        cases hx
      · rw [hother hxs] at hx
        exact .inl hx

/-! ### New threads -/

/-- The invariant after a thread was put in a free slot. -/
theorem of_spawned (hmust : r.mustYield = false) (hq : Queues s s.runnable)
    (hs : Spawned r.sched slot t s) (hcount : r.sched.threadCount + 1 < 2 ^ 64)
    (hfree : (r.sched.threads slot).state = .unused) (hslot : (slot : ℕ) ≤ r.sched.threadCount)
    (ht : t.state = .runnable) (hgroup : t.threadGroupId = r.sched.nextThreadId) :
    RunInv (r.next op s) := by
  have h₀ : (0 : Slot) ≠ slot := by
    rintro rfl
    exact h.bootstrapUsed hfree
  have h₁ : (1 : Slot) ≠ slot := by
    rintro rfl
    rcases h.idle with hidle | hidle <;> rw [hidle] at hfree <;> cases hfree
  have hother {x : Slot} (hx : x ≠ slot) : s.threads x = r.sched.threads x := by
    rw [hs.threads, update_of_ne hx]
  have hself : s.threads slot = t := by rw [hs.threads, update_self]
  have hk := h.kernel
  obtain ⟨c, hc, -⟩ := h.current
  have hrun := h.running hmust hc
  have hcslot : c ≠ slot := by
    rintro rfl
    rw [hfree] at hrun
    cases hrun
  refine ⟨hs.queueInv ht h.queueInv hq, hs.slotInv hcount hslot h.slotInv, ?_, ?_, ?_, ?_, ?_,
    ⟨c, hs.currentSlot.trans hc, .inl ?_⟩, ?_⟩
  · refine ⟨?_, ?_, ?_, ?_, ?_, ?_, ?_, ?_, ?_⟩
    · exact (congrArg Fixed.initialized hs.fixed).trans hk.initialized
    · exact (congrArg Fixed.bootstrapThreadId hs.fixed).trans hk.bootstrapThreadId
    · exact (congrArg Fixed.idleThreadId hs.fixed).trans hk.idleThreadId
    · exact (congrArg Thread.id (hother h₀)).trans hk.bootstrapId
    · exact (congrArg Thread.role (hother h₀)).trans hk.bootstrapRole
    · exact (congrArg Thread.id (hother h₁)).trans hk.idleId
    · exact (congrArg Thread.role (hother h₁)).trans hk.idleRole
    · exact (congrArg Thread.threadGroupId (hother h₁)).trans hk.idleGroup
    · exact hk.two_le.trans ((Nat.le_succ _).trans_eq (hs.threadCount hcount).symm)
  · change (s.threads 0).state ≠ .unused
    rw [hother h₀]
    exact h.bootstrapUsed
  · change (s.threads 1).state = .running ∨ (s.threads 1).state = .runnable
    rw [hother h₁]
    exact h.idle
  · intro x hx
    change (s.threads x).state = .unused ↔ (s.threads x).threadGroupId = 0
    by_cases hxs : x = slot
    · rw [hxs, hself, ht, hgroup]
      exact iff_of_false nofun h.nextThreadId
    · rw [hother hxs]
      exact h.group x hx
  · change s.nextThreadId ≠ 0
    rw [show s.nextThreadId = satAdd r.sched.nextThreadId 1 from
      congrArg Fixed.nextThreadId hs.fixed]
    exact satAdd_one_ne_zero _
  · change (s.threads c).state = .running
    rw [hother hcslot]
    exact hrun
  · intro hran x hrole
    obtain ⟨hran, -⟩ := Bool.or_eq_false_iff.mp hran
    change (s.threads x).role = .user at hrole
    change (s.threads x).state = .exited ∨ (s.threads x).state = .runnable
    by_cases hxs : x = slot
    · rw [hxs, hself]
      exact .inr ht
    · rw [hother hxs] at hrole ⊢
      exact h.fresh hran x hrole

/-- A fork that fails after it has counted the child. -/
theorem addThread (hmust : r.mustYield = false)
    (hcount : r.sched.threadCount + 1 < 2 ^ 64) : RunInv (r.next op r.sched.addThread) := by
  have hadd : r.sched.addThread.threadCount = r.sched.threadCount + 1 := wrapAdd_of_lt hcount
  have hk := h.kernel
  obtain ⟨c, hc, -⟩ := h.current
  refine ⟨⟨h.queueInv.queues.of_same rfl rfl fun _ _ => rfl, h.queueInv.running⟩, ?_,
    ⟨hk.initialized, hk.bootstrapThreadId, hk.idleThreadId, hk.bootstrapId, hk.bootstrapRole,
      hk.idleId, hk.idleRole, hk.idleGroup, ?_⟩, h.bootstrapUsed, h.idle, h.group,
    satAdd_one_ne_zero _, ⟨c, hc, .inl (h.running hmust hc)⟩, ?_⟩
  · intro x hx
    exact (h.slotInv x hx).trans (Nat.lt_succ_self _ |>.trans_eq hadd.symm)
  · exact hk.two_le.trans ((Nat.le_succ _).trans_eq hadd.symm)
  · intro hran
    exact h.fresh (Bool.or_eq_false_iff.mp hran).1

theorem createUserThread (hmust : r.mustYield = false) (pageTable : ℕ) :
    ∃ s, (Op.createUserThread pageTable).exec P r.sched = .ok s ∧
      Stepped r (.createUserThread pageTable) s := by
  refine ⟨_, rfl, ?_⟩
  by_cases hcount : r.sched.threadCount < maxThreads
  · have hfree := h.slotInv.unused (x := ⟨r.sched.threadCount, hcount⟩) le_rfl
    obtain ⟨s, hcreate, hq, hs⟩ := h.queueInv.queues.createUserThread h.kernel.initialized
      hcount
      (hfree.trans_ne nofun) P pageTable
    rw [hcreate]
    have hlt : r.sched.threadCount + 1 < 2 ^ 64 := by
      change r.sched.threadCount < 8 at hcount
      omega
    exact ⟨h.of_spawned hmust hq hs hlt hfree le_rfl rfl rfl,
      .spawned _ _ hs hfree rfl (.inl rfl), fun x => hs.wakes rfl⟩
  · obtain ⟨e, herr⟩ := createUserThread_of_full (.inr (not_lt.mp hcount)) P pageTable
    rw [herr]
    exact h.same fun c hc => h.running hmust hc

theorem forkCurrentThread (hmust : r.mustYield = false)
    (hcount : r.sched.threadCount + 1 < 2 ^ 64) (newCr3 : ℕ) :
    ∃ s, (Op.forkCurrentThread newCr3).exec P r.sched = .ok s ∧
      Stepped r (.forkCurrentThread newCr3) s := by
  refine ⟨_, rfl, ?_⟩
  rcases h.queueInv.queues.forkCurrentThread newCr3 with
    ⟨e, herr⟩ | ⟨rfl, e, herr⟩ | ⟨parent, child, s, -, hc, hfree, hbelow, hfork, hq, hs⟩
  · rw [herr]
    exact h.same fun c hc => h.running hmust hc
  · rw [herr]
    exact ⟨h.addThread hmust hcount, .counted rfl rfl, fun _ => .inl⟩
  · rw [hfork]
    exact ⟨h.of_spawned hmust hq hs hcount hfree (h.slotInv.le_threadCount hbelow) rfl rfl,
      .spawned _ _ hs hfree rfl (.inr hbelow), fun x => hs.wakes rfl⟩

/-! ### The first user thread -/

theorem initialContextPair (hmust : r.mustYield = false) (hran : r.userRan = false)
    (hbootstrap : (r.sched.threads 0).state ≠ .runnable)
    (hcount : r.sched.threadCount ≤ maxThreads) :
    ∃ s, Op.initialContextPair.exec P r.sched = .ok s ∧
      Stepped r .initialContextPair s := by
  have hidle : (r.sched.threads 1).state = .runnable ∨ r.sched.currentSlot = some 1 :=
    h.idle.symm.imp_right (h.queueInv.running 1)
  obtain ⟨target, s, hinitial, hq, hentered⟩ :=
    h.queueInv.initialContextPair h.kernel hcount hbootstrap h.bootstrapUsed
      (fun c hc => h.running hmust hc) (fun x _ => h.fresh hran x) hidle
  have hm := hentered.moves
  have hcur := hentered.currentSlot
  have hstate := hentered.state
  refine ⟨s, ?_, h.of_moves hq hm ?_ ⟨target, hcur, .inl ?_⟩ ?_, .kept hm.fixed hm.unused, ?_⟩
  · rw [Op.exec, hinitial]
    rfl
  · rw [hstate]
    split_ifs with hx hx
    · exact .inl rfl
    · cases hx
    · exact .inr rfl
    · exact h.idle
  · rw [hstate, if_pos rfl]
  · intro _ huser x hrole
    rw [hstate]
    split_ifs with hx hx
    · rw [userCurrent_eq hcur, ← hx, hrole] at huser
      cases huser
    · exact .inl rfl
    · exact .inr rfl
    · exact h.fresh hran x ((hm.role x).symm.trans hrole)
  · intro x hx
    rw [hstate] at hx
    split_ifs at hx with htarget
    · rw [htarget]
      exact hentered.ready.symm.imp_left fun hc => h.running hmust hc
    · exact .inl hx

/-- **Every operation within the guards returns and keeps the invariant.** -/
theorem step (hsound : Sound r op) (P : Platform) :
    ∃ s, op.exec P r.sched = .ok s ∧ Stepped r op s := by
  obtain ⟨hyield, hguard⟩ := hsound
  have hmust (hop : op.isYield = false) : r.mustYield = false := by
    rw [yieldsIfMust, hop, Bool.or_false, Bool.not_eq_true'] at hyield
    exact hyield
  cases op with
  | createUserThread pageTable => exact h.createUserThread (hmust rfl) pageTable
  | initialContextPair =>
    obtain ⟨hran, hbootstrap, hcount⟩ := hguard
    exact h.initialContextPair (hmust rfl) hran hbootstrap hcount
  | contextSwitchPair => exact h.contextSwitchPair (hmust rfl)
  | yieldCurrentUserThread rsp => exact h.yieldCurrentUserThread rsp
  | blockCurrentThread => exact h.blockCurrentThread hguard (hmust rfl)
  | unblockThreadWithResult pid tid => exact h.unblockThreadWithResult (hmust rfl) pid tid
  | requestExitGroup status => exact h.requestExitGroup (hmust rfl) hguard status
  | forkCurrentThread newCr3 => exact h.forkCurrentThread (hmust rfl) hguard newCr3
  | reapChild parentPid targetPid => exact hguard.elim

theorem stepped (hsound : Sound r op) (hexec : op.exec P r.sched = .ok s) : Stepped r op s := by
  obtain ⟨s', hexec', hstepped⟩ := h.step hsound P
  cases Except.ok.inj (hexec'.symm.trans hexec)
  exact hstepped

end

/-- The invariant holds when `bootstrap()` returns. -/
theorem start (h : Booted s) : RunInv (.start s) where
  queueInv := h.queueInv
  slotInv x hused := by
    change (x : ℕ) < s.threadCount
    rw [h.threadCount]
    by_contra hge
    exact hused (h.free x (not_lt.mp hge)).1
  kernel := h.kernel
  bootstrapUsed := by
    change (s.threads 0).state ≠ .unused
    rw [h.bootstrapState]
    exact nofun
  idle := .inr h.idleState
  group x hx := by
    change (s.threads x).state = .unused ↔ (s.threads x).threadGroupId = 0
    by_cases hx₂ : 2 ≤ (x : ℕ)
    · obtain ⟨hunused, hcore⟩ := h.free x hx₂
      have hgroup : (s.threads x).core.threadGroupId = 0 := by
        rw [hcore]
        rfl
      exact iff_of_true hunused hgroup
    · rw [(eq_zero_or_one hx₂).resolve_right hx, h.bootstrapState, h.bootstrapGroup]
      exact iff_of_false nofun Nat.one_ne_zero
  nextThreadId := by
    change s.nextThreadId ≠ 0
    rw [h.nextThreadId]
    exact nofun
  current := ⟨0, h.currentSlot, .inl h.bootstrapState⟩
  fresh _ x hrole := absurd hrole (h.role_ne_user x)

end RunInv

end Hxnu.Sched
