import Hxnu.Sched.Reaping
import Hxnu.Syscall.Basic

/-!
# Waiting for children

`wait4` reaps an exited child of the calling process and stores the status that `reap_child` returns,
shifted by eight bits. The runs here start where `bootstrap()` returns: user processes are created
and entered, and then fork, yield, exit and reap. A history beside the scheduler lists the exits, with
the status each was called with, and the reaps, with the status each returned.

The status of an exit goes to the record that `request_exit_group` returns, but not to the field
`exit_status` that `reap_child` reads, so every reap returns the status 0.

## Main definitions

* `sysWait4`: the system call.
* `History`, `HistoryStep`: the runs.
* `Tracked`: their invariant.

## Main results

* `reap_returns_exit_status_iff`: a reap returns the status of the exit exactly if that is 0, and no
  process is reaped twice.
-/

namespace Hxnu.Syscall

open Word Sched Sched.Scheduler

/-! ### The system call -/

/-- `status << 8` on `i32`. -/
def rawStatus (status : ℤ) : ℤ := (status * 2 ^ 8).bmod (2 ^ 32)

/-- `current_process_id`. -/
def currentProcessId (s : Scheduler) : ℕ :=
  match s.currentSlot with
  | some slot => (s.threads slot).processId
  | none => 0

/-- `sys_wait4`: the outcome, the word that is copied to user memory with its address, and the
scheduler afterwards. A failed copy is ignored. -/
def sysWait4 (s : Scheduler) (args : Args) : SyscallOutcome × Option (ℕ × ℤ) × Scheduler :=
  if asI64 (args 0) = -1 then
    match s.reapChild (currentProcessId s) (-1) with
    | (.ok (reapedPid, status), s) =>
      (.success (asI64 reapedPid),
        if (args 1 : ℕ) ≠ 0 then some (args 1, rawStatus status) else none, s)
    | (.error hasChildren, s) =>
      if hasChildren = false then (.errno .enoent, none, s)
      else if (args 2 : ℕ) % 2 ^ 32 &&& 1 ≠ 0 then (.success 0, none, s)
      else (⟨0, .yieldThread⟩, none, s)
  else (.errno .enosys, none, s)

/-! ### Runs with their history -/

/-- A call of `reap_child` that found an exited child. -/
structure Reap where
  parent : ℕ
  child : ℕ
  status : ℤ
  deriving DecidableEq, Repr

/-- The word that `sys_wait4` stores for a reap. -/
def Reap.stored (reap : Reap) : ℤ := rawStatus reap.status

/-- The process that an operation ends, with the status of the call. -/
def ends (s : Scheduler) : Op → List (ℕ × ℤ)
  | .requestExitGroup status =>
    match s.requestExitGroup status with
    | .ok (some record, _) => [(record.exitedProcessId, record.status)]
    | _ => []
  | _ => []

/-- The child that an operation reaps. -/
def reaps (s : Scheduler) : Op → List Reap
  | .reapChild parentPid targetPid =>
    match (s.reapChild parentPid targetPid).1 with
    | .ok (child, status) => [⟨parentPid, child, status⟩]
    | .error _ => []
  | _ => []

theorem sysWait4_of_reaps (hpid : asI64 (args 0) = -1)
    (h : reap ∈ reaps s (.reapChild (currentProcessId s) (-1))) (hptr : (args 1 : ℕ) ≠ 0) :
    (sysWait4 s args).1 = .success (asI64 reap.child) ∧
      (sysWait4 s args).2.1 = some ((args 1 : ℕ), reap.stored) ∧
      (sysWait4 s args).2.2 = (s.reapChild (currentProcessId s) (-1)).2 := by
  rw [reaps] at h
  rw [sysWait4, if_pos hpid]
  generalize s.reapChild (currentProcessId s) (-1) = result at h ⊢
  obtain ⟨result, s'⟩ := result
  cases result with
  | error hasChildren => cases h
  | ok found =>
    cases List.mem_singleton.mp h
    exact ⟨rfl, if_pos hptr, rfl⟩

/-- A run of the scheduler, with the exits and the reaps so far. -/
structure History where
  run : RunState
  ended : List (ℕ × ℤ)
  reaped : List Reap

namespace History

def start (s : Scheduler) : History := ⟨.start s, [], []⟩

def next (h : History) (op : Op) (s : Scheduler) : History where
  run := h.run.next op s
  ended := h.ended ++ ends h.run.sched op
  reaped := h.reaped ++ reaps h.run.sched op

/-- The children reaped so far. -/
def children (h : History) : List ℕ := h.reaped.map Reap.child

end History

/-- The kernel creates processes before it enters the first. From then on the current process forks,
yields, exits and reaps, and the idle thread switches. -/
def processOps (r : RunState) : Op → Bool
  | .createUserThread _ | .initialContextPair => !r.entered
  | .contextSwitchPair => r.entered
  | .yieldCurrentUserThread _ | .requestExitGroup _ | .forkCurrentThread _ | .reapChild _ _ =>
    r.entered && r.sched.userCurrent
  | .blockCurrentThread | .unblockThreadWithResult _ _ => false

/-- The same, with threads created only while `next_thread_id` can be incremented. -/
def processOpsNumbered (r : RunState) (op : Op) : Bool :=
  processOps r op &&
    match op with
    | .createUserThread _ | .forkCurrentThread _ => decide (r.sched.nextThreadId + 1 < 2 ^ 64)
    | _ => true

/-- One operation of a run. -/
def HistoryStep (P : Platform) (guard : RunState → Op → Bool) (h : History) (op : Op)
    (h' : History) : Prop :=
  guard h.run op = true ∧ ∃ s, op.exec P h.run.sched = .ok s ∧ h' = h.next op s

theorem exists_of_evaluateHistory (P : Platform) (n : ℕ) (guard : RunState → Op → Bool)
    (ops : List Op) [DecidablePred Q]
    (h : ((bootstrap P n).toOption.any fun s => (ops.foldlM (attempt (fun h => guard h.run) (fun h
      op => op.exec P h.run.sched) History.next) (.start s)).any (Q ·)) = true) :
    ∃ s g, bootstrap P n = .ok s ∧ Reachable (HistoryStep P guard) (.start s) g ∧ Q g :=
  exists_of_attempts (fun _ _ s hguard hs => ⟨hguard, s, hs, rfl⟩) h

/-! ### The invariant -/

/-- The invariant of the runs. -/
structure Tracked (h : History) : Prop where
  queues : Queues h.run.sched h.run.sched.runnable
  current : ∀ c, h.run.sched.currentSlot = some c → (h.run.sched.threads c).state = .running
  numbered : Numbered h.run.sched h.children
  zero : ∀ reap ∈ h.reaped, reap.status = 0
  /-- Before the first process is entered nothing has been reaped. -/
  early : h.run.entered = false →
    RunInv h.run ∧ Early h.run ∧ h.run.mustYield = false

section Tracked

variable {P : Platform} {h : History} {op : Op} {s : Scheduler}

theorem Tracked.settled (hinv : Tracked h) : Settled h.run.sched h.children :=
  ⟨hinv.queues, hinv.current, hinv.numbered⟩

/-- A step that reaps nothing. -/
theorem Tracked.of_quiet (hr : reaps h.run.sched op = []) (hinv : Tracked h)
    (hs : Settled s h.children)
    (hearly : (h.run.next op s).entered = false → RunInv (h.run.next op s) ∧
      Early (h.run.next op s) ∧ (h.run.next op s).mustYield = false) :
    Tracked (h.next op s) := by
  have hreaped : (h.next op s).reaped = h.reaped := by
    rw [History.next, hr, List.append_nil]
  refine ⟨hs.queues, hs.current, ?_, ?_, hearly⟩
  · rw [History.children, hreaped]
    exact hs.numbered
  · rw [hreaped]
    exact hinv.zero

/-- After the first process is entered, the invariant of the early runs is not needed. -/
theorem Tracked.late (hentered : h.run.entered = true) {Q : Prop} :
    (h.run.next op s).entered = false → Q := by
  intro hfalse
  rw [RunState.next, hentered] at hfalse
  cases hfalse

/-- A user thread is created in an early run. -/
theorem stepped_createUserThread (hrun : RunInv r) (hearly : Early r) (hmust : r.mustYield = false)
    (pageTable : ℕ) :
    RunInv (r.next (.createUserThread pageTable) (r.sched.createUserThread P pageTable).2) ∧
      Early (r.next (.createUserThread pageTable) (r.sched.createUserThread P pageTable).2) := by
  have hstepped : Stepped r (.createUserThread pageTable)
      (r.sched.createUserThread P pageTable).2 :=
    hrun.stepped (P := P) ⟨by rw [yieldsIfMust, hmust]; rfl, trivial⟩ rfl
  exact ⟨hstepped.inv, hearly.createUserThread hrun pageTable⟩

theorem Tracked.createUserThread (hinv : Tracked h) (hentered : h.run.entered = false)
    (hnext : h.run.sched.nextThreadId + 1 < 2 ^ 64) (pageTable : ℕ) :
    Tracked (h.next (.createUserThread pageTable)
      (h.run.sched.createUserThread P pageTable).2) := by
  obtain ⟨hrun, hearly, hmust⟩ := hinv.early hentered
  obtain ⟨hrun', hearly'⟩ := stepped_createUserThread (P := P) hrun hearly hmust pageTable
  have hsettled := (hinv.settled.createUserThread (P := P) hnext
    (fun _ => hrun.slotInv.unused le_rfl) pageTable).1
  exact hinv.of_quiet rfl hsettled fun _ => ⟨hrun', hearly', rfl⟩

theorem Tracked.initialContextPair (hinv : Tracked h) (hentered : h.run.entered = false)
    (hexec : Op.exec P h.run.sched .initialContextPair = .ok s) :
    Tracked (h.next .initialContextPair s) := by
  obtain ⟨hrun, hearly, -⟩ := hinv.early hentered
  have hsettled := (hinv.settled.initialContextPair rfl hrun hearly hentered hexec).1
  refine hinv.of_quiet rfl hsettled fun hfalse => ?_
  rw [RunState.next, hentered] at hfalse
  cases hfalse

/-- **A reap** returns the status 0 and an identifier that none returned before. -/
theorem Tracked.reapChild (hinv : Tracked h) (hentered : h.run.entered = true)
    (parentPid : ℕ) (targetPid : ℤ) :
    Tracked (h.next (.reapChild parentPid targetPid)
      (h.run.sched.reapChild parentPid targetPid).2) := by
  cases hfound : h.run.sched.exitedChild parentPid targetPid with
  | none =>
    rw [reapChild_of_none hfound]
    refine hinv.of_quiet ?_ hinv.settled (Tracked.late hentered)
    rw [reaps, Scheduler.reapChild, hfound]
  | some slot =>
    have hreaped : (h.next (.reapChild parentPid targetPid)
        (h.run.sched.reapChild parentPid targetPid).2).reaped = h.reaped ++
          [⟨parentPid, (h.run.sched.threads slot).id,
            (h.run.sched.threads slot).exitStatus⟩] := by
      rw [History.next, reaps, Scheduler.reapChild, hfound]
    have hsettled := hinv.settled.freeSlot (state_of_exitedChild hfound)
    rw [← reapChild_of_some hfound] at hsettled
    refine ⟨hsettled.queues, hsettled.current, ?_, ?_, Tracked.late hentered⟩
    · rw [History.children, hreaped, List.map_append]
      exact hsettled.numbered
    · rw [hreaped]
      intro reap hreap
      rcases List.mem_append.mp hreap with hreap | hreap
      · exact hinv.zero reap hreap
      · rw [List.mem_singleton.mp hreap]
        exact hinv.numbered.exitStatus slot

/-- **Every operation keeps the invariant.** -/
theorem Tracked.step (hinv : Tracked h) (hguard : processOpsNumbered h.run op = true)
    (hexec : op.exec P h.run.sched = .ok s) : Tracked (h.next op s) := by
  obtain ⟨hlisted, hnext⟩ := Bool.and_eq_true_iff.mp hguard
  cases op with
  | createUserThread pageTable =>
    cases hexec
    exact hinv.createUserThread (by simpa [processOps] using hlisted)
      (of_decide_eq_true hnext) pageTable
  | initialContextPair =>
    exact hinv.initialContextPair (by simpa [processOps] using hlisted) hexec
  | contextSwitchPair =>
    exact hinv.of_quiet rfl (hinv.settled.contextSwitchPair hexec).1 (Tracked.late hlisted)
  | yieldCurrentUserThread rsp =>
    exact hinv.of_quiet rfl (hinv.settled.yieldCurrentUserThread hexec).1
      (Tracked.late (Bool.and_eq_true_iff.mp hlisted).1)
  | requestExitGroup status =>
    exact hinv.of_quiet rfl (hinv.settled.requestExitGroup hexec).1
      (Tracked.late (Bool.and_eq_true_iff.mp hlisted).1)
  | forkCurrentThread newCr3 =>
    cases hexec
    exact hinv.of_quiet rfl (hinv.settled.forkCurrentThread (of_decide_eq_true hnext) newCr3).1
      (Tracked.late (Bool.and_eq_true_iff.mp hlisted).1)
  | reapChild parentPid targetPid =>
    cases hexec
    exact hinv.reapChild (Bool.and_eq_true_iff.mp hlisted).1 parentPid targetPid
  | blockCurrentThread => cases hlisted
  | unblockThreadWithResult pid tid => cases hlisted

theorem Tracked.start (hs : Sched.Booted s) : Tracked (.start s) := by
  have hsettled := Settled.start hs
  exact ⟨hsettled.queues, hsettled.current, hsettled.numbered, nofun,
    fun _ => ⟨.start hs, .start hs, rfl⟩⟩

end Tracked

/-! ### Statuses -/

/-- **What a reap returns.** In every run in which threads are created while `next_thread_id` can be
incremented, no process is reaped twice, and a reap of a process that ended by an exit returns its
status, so that `wait4` stores it shifted, exactly if that status is 0. -/
theorem reap_returns_exit_status_iff (P : Platform) {n : ℕ} (hn : n ≠ 0) {s : Scheduler}
    (hs : bootstrap P n = .ok s) {h : History}
    (hr : Reachable (HistoryStep P processOpsNumbered) (.start s) h) :
    h.children.Nodup ∧ ∀ reap ∈ h.reaped, ∀ status, (reap.child, status) ∈ h.ended →
      (reap.status = status ∧ reap.stored = rawStatus status ↔ status = 0) := by
  have htracked : Tracked h := by
    refine hr.invariant (I := Tracked) (.start (booted_of_bootstrap hn hs)) ?_
    rintro h op h' hinv ⟨hguard, s', hexec, rfl⟩
    exact hinv.step hguard hexec
  refine ⟨htracked.numbered.nodup, ?_⟩
  intro reap hreap status _
  rw [Reap.stored, htracked.zero reap hreap]
  constructor
  · rintro ⟨hstatus, -⟩
    exact hstatus.symm
  · rintro rfl
    exact ⟨rfl, rfl⟩

/-- A process forks a child, which exits with status 0 and is reaped. -/
theorem reap_returns_exit_status_zero : ∃ s h, bootstrap examplePlatform 3 = .ok s ∧
    Reachable (HistoryStep examplePlatform processOpsNumbered) (.start s) h ∧
    h.ended = [(4, 0)] ∧ h.reaped = [⟨3, 4, 0⟩] ∧ h.children.Nodup := by
  obtain ⟨s, h, hs, hr, hended, hreaped⟩ :=
    exists_of_evaluateHistory examplePlatform 3 processOpsNumbered
    [.createUserThread 0x2000, .initialContextPair, .forkCurrentThread 0x3000,
      .yieldCurrentUserThread 0, .contextSwitchPair, .requestExitGroup 0, .reapChild 3 (-1)]
    (Q := fun h => h.ended = [(4, 0)] ∧ h.reaped = [⟨3, 4, 0⟩]) (by decide +kernel)
  exact ⟨s, h, hs, hr, hended, hreaped,
    (reap_returns_exit_status_iff examplePlatform (by decide) hs hr).1⟩

/-- A process forks a child, which exits with status 7; the reap returns the status 0. -/
theorem reap_loses_exit_status : ∃ s h, bootstrap examplePlatform 3 = .ok s ∧
    Reachable (HistoryStep examplePlatform processOps) (.start s) h ∧
    h.ended = [(4, 7)] ∧ h.reaped = [⟨3, 4, 0⟩] ∧
    (⟨3, 4, 0⟩ : Reap).stored ≠ rawStatus 7 :=
  exists_of_evaluateHistory examplePlatform 3 processOps
    [.createUserThread 0x2000, .initialContextPair, .forkCurrentThread 0x3000,
      .yieldCurrentUserThread 0, .contextSwitchPair, .requestExitGroup 7, .reapChild 3 (-1)]
    (by decide +kernel)

end Hxnu.Syscall
