import Hxnu.Sched.State

/-!
# Scheduler operations

The operations of `kernel/src/sched.rs` on the scheduler state. A pointer to a saved context is the
slot it belongs to. An operation that can index past the thread table or unwrap `None` returns in
`Except Panic`.

What lies outside the scheduler is a parameter: the addresses the linker and the boot code fix
(`Platform`), and the page table that `clone_space` returns to `fork_current_thread`, `0` if it ran
out of memory. `unblock_thread_with_result` returns the address of the trap frame whose `rax` it
sets.

## Main definitions

* `bootstrap`: the state in which `bootstrap()` returns `Ok`.
* `Scheduler.createUserThread`, `Scheduler.initialContextPair`, `Scheduler.contextSwitchPair`,
  `Scheduler.yieldCurrentUserThread`, `Scheduler.requestExitGroup`, `Scheduler.forkCurrentThread`,
  `Scheduler.reapChild`, `Scheduler.blockCurrentThread`, `Scheduler.unblockThreadWithResult`.
-/

namespace Hxnu.Sched

open Word

/-- Addresses and registers fixed before the scheduler starts. -/
structure Platform where
  /-- The address of `USER_STACKS`, which is 16-byte aligned. -/
  userStacks : ℕ
  /-- The stack pointer of the idle thread on `IDLE_STACK`. -/
  idleRsp : ℕ
  /-- The page table of the kernel. -/
  kernelCr3 : ℕ

/-- The end of the kernel stack of a slot, which `prepare_resume_slot` puts in `TSS.rsp0`. -/
def Platform.stackTop (P : Platform) (slot : Slot) : ℕ :=
  P.userStacks + slot * kernelStackSize + kernelStackSize

/-- A register frame has twenty words. -/
def frameBytes : ℕ := 160

/-- The context that `initialize_user_thread` builds. -/
def initializeUserThread (P : Platform) (slot : Slot) (pageTable : ℕ) : TaskContext :=
  { rsp := P.stackTop slot - frameBytes
    cr3 := pageTable
    kind := contextKindUser
    kernelRsp0 := P.stackTop slot }

structure DispatchDecision where
  currentThreadId : ℕ
  currentThreadName : String
  currentThreadRole : ThreadRole
  contextSwitches : ℕ
  deriving DecidableEq, Repr

structure ExitGroupRecord where
  status : ℤ
  exitedThreadId : ℕ
  exitedThreadName : String
  exitedProcessId : ℕ
  exitedThreadCount : ℕ
  nextThreadId : ℕ
  nextThreadName : String
  nextProcessId : ℕ
  runqueueDepth : ℕ

structure SpawnedUserThread where
  threadId : ℕ
  processId : ℕ
  deriving DecidableEq, Repr

namespace Scheduler

section

variable (s : Scheduler)

def dispatchSnapshot (slot : Slot) : DispatchDecision :=
  ⟨(s.threads slot).id, (s.threads slot).name, (s.threads slot).role, s.contextSwitches⟩

def runqueueDepth : ℕ := ∑ p, (s.runqueues p).depth

/-! ### Creating threads -/

def createThread (P : Platform) (name : String) (role : ThreadRole)
    (identity : ProcessIdentity) : Except SchedulerError Slot × Scheduler :=
  if h : s.threadCount < maxThreads then
    let slot : Slot := ⟨s.threadCount, h⟩
    let context : TaskContext := if role ≠ .user then { cr3 := P.kernelCr3 } else {}
    let thread : Thread :=
      { id := s.nextThreadId
        processId := identity.processId
        parentProcessId := identity.parentProcessId
        threadGroupId := identity.threadGroupId
        name := name
        role := role
        state := .runnable
        basePriority := 0
        totalTicks := 0
        dispatchCount := 0
        context := context
        fdTable := fun _ => none
        exitStatus := 0 }
    (.ok slot, (s.setThread slot thread).addThread)
  else (.error .threadTableFull, s)

def createUserThread (P : Platform) (pageTable : ℕ) :
    Except SchedulerError SpawnedUserThread × Scheduler :=
  if s.initialized = false then (.error .missingIdleThread, s)
  else
    match s.createThread P "user-init" .user ⟨s.nextThreadId, 0, s.nextThreadId⟩ with
    | (.error e, s) => (.error e, s)
    | (.ok slot, s) =>
      let s := s.setThread slot { s.threads slot with
        context := initializeUserThread P slot pageTable }
      match s.enqueue slot with
      | (.error e, s) => (.error e, s)
      | (.ok (), s) => (.ok ⟨(s.threads slot).id, (s.threads slot).processId⟩, s)

/-! ### Timer ticks and bootstrap -/

/-- The first half of `on_timer_tick`: the tick is charged to the current thread, which is requeued
unless it is blocked. -/
def chargeCurrent : Scheduler :=
  match s.currentSlot with
  | none => s
  | some c =>
    let t : Thread := { s.threads c with totalTicks := satAdd (s.threads c).totalTicks 1 }
    if t.state = .running then (s.setThread c t).preempt c
    else if t.state = .blocked then s.setThread c t
    else s

/-- `on_timer_tick`, which runs while `bootstrap()` waits. -/
def onTimerTick : Option DispatchDecision × Scheduler :=
  if s.initialized = false ∨ (s.runqueueBitmap = 0 ∧ s.currentSlot = none) then (none, s)
  else
    let s := s.chargeCurrent
    match s.bestPriority with
    | none => (none, s.clearCurrent)
    | some p =>
      match s.dequeue p with
      | none => (none, s)
      | some (next, s) =>
        let s := if some next ≠ s.currentSlot then s.addSwitch else s
        let s := (s.setCurrent next).addDispatch next
        (some (s.dispatchSnapshot next), s)

def bootstrapSlot : Except Panic (Option Slot) :=
  s.findThread fun t => t.id == s.bootstrapThreadId

def idleSlot : Except Panic (Option Slot) :=
  s.findThread fun t => t.id == s.idleThreadId

def firstRunnableUserSlot : Except Panic (Option Slot) :=
  s.findThread fun t => t.role == .user && t.state != .exited

end

/-- Run a loop body over the slots below `thread_count`. -/
def forEachSlot {β : Type} (n : ℕ) (body : β → Slot → β) (init : β) : Except Panic β :=
  if maxThreads < n then .error .indexOutOfBounds
  else .ok (((List.finRange maxThreads).filter fun slot : Slot => slot.val < n).foldl body init)

def restoreBootstrapAsCurrent (s : Scheduler) : Except Panic Scheduler := do
  match ← s.bootstrapSlot with
  | none => return s
  | some b =>
    let s ← forEachSlot s.threadCount preempt s
    return ((s.removeQueued b).setCurrent b).addDispatch b

/-- `initialize_bootstrap_threads`. -/
def initializeBootstrapThreads (P : Platform) : Except SchedulerError Unit × Scheduler :=
  match Scheduler.new.createThread P "kernel-bootstrap" .bootstrap ⟨1, 0, 1⟩ with
  | (.error e, s) => (.error e, s)
  | (.ok b, s) =>
    match s.createThread P "kernel-idle" .idle ⟨0, 0, 0⟩ with
    | (.error e, s) => (.error e, s)
    | (.ok i, s) =>
      match s.enqueue b with
      | (.error e, s) => (.error e, s)
      | (.ok (), s) =>
        match s.enqueue i with
        | (.error e, s) => (.error e, s)
        | (.ok (), s) =>
          let s := (s.setState b .running).setThread b
            { (s.setState b .running).threads b with dispatchCount := 1 }
          let s := s.setState i .runnable
          let s := s.setThread i { s.threads i with
            context := { rsp := P.idleRsp, cr3 := (s.threads i).context.cr3 } }
          (.ok (), { s with
            initialized := true
            bootstrapThreadId := (s.threads b).id
            idleThreadId := (s.threads i).id })

end Scheduler

/-- The state in which `bootstrap()` returns `Ok` after `n` timer ticks; it waits for three. -/
def bootstrap (P : Platform) (n : ℕ) : Except Panic Scheduler :=
  ((fun s : Scheduler => s.onTimerTick.2)^[n]
    (Scheduler.initializeBootstrapThreads P).2).restoreBootstrapAsCurrent

namespace Scheduler

/-! ### Switching -/

section

variable (s : Scheduler)

def activateThreadSlot (target : Slot) : Except SchedulerError Unit × Scheduler :=
  if s.initialized = false ∨ s.threadCount ≤ target then (.error .missingIdleThread, s)
  else if s.currentSlot = some target then (.ok (), s)
  else
    let s :=
      match s.currentSlot with
      | none => s
      | some c => s.preempt c
    (.ok (), ((s.removeQueued target).setCurrent target).addSwitch)

/-- The thread that `initial_context_pair` switches to. -/
def initialTarget : Except Panic (Option Slot) := do
  match ← s.firstRunnableUserSlot with
  | some slot => return some slot
  | none => s.idleSlot

/-- `initial_context_pair`: the contexts to save into and to load from. -/
def initialContextPair : Except Panic (Except SchedulerError (Slot × Slot) × Scheduler) := do
  match ← s.bootstrapSlot with
  | none => return (.error .missingIdleThread, s)
  | some b =>
    let s := s.setState b .exited
    match ← s.initialTarget with
    | none => return (.error .missingIdleThread, s)
    | some target =>
      match s.activateThreadSlot target with
      | (.error e, s) => return (.error e, s)
      | (.ok (), s) =>
        -- `split_at_mut` leaves the slot out of the left half.
        if b = target then throw .indexOutOfBounds
        else return (.ok (b, target), s)

def nextSwitchIndex : Option Slot :=
  if s.initialized = false then none
  else
    match s.bestPriority with
    | none => none
    | some p =>
      match (s.runqueues p).toList.head? with
      | none => none
      | some next => if some next ≠ s.currentSlot then some next else none

/-- `context_switch_pair`: the contexts to save into and to load from. -/
def contextSwitchPair : Except Panic (Option (Slot × Slot × DispatchDecision) × Scheduler) :=
  match s.currentSlot with
  | none => .ok (none, s)
  | some current =>
    match s.nextSwitchIndex with
    | none => .ok (none, s)
    | some next =>
      let s := s.preempt current
      match s.dequeue (s.priorityForThread next) with
      | none => .ok (none, s)
      | some (dequeued, s) =>
        let s := ((s.setCurrent dequeued).addDispatch dequeued).addSwitch
        if current = dequeued then .error .indexOutOfBounds
        else .ok (some (current, dequeued, s.dispatchSnapshot dequeued), s)

def yieldCurrentUserThread (savedUserRsp : ℕ) : Except Panic (Option Slot × Scheduler) :=
  if s.initialized = false then .ok (none, s)
  else
    match s.currentSlot with
    | none => .ok (none, s)
    | some current =>
      let t := s.threads current
      if t.role ≠ .user ∨ t.state = .exited then .ok (none, s)
      else
        let s := (s.setThread current { t with
          context := { t.context with rsp := savedUserRsp } }).preempt current
        match s.bestPriority with
        | none => .ok (none, s)
        | some p =>
          match s.dequeue p with
          | none => .error .unwrapNone
          | some (next, s) =>
            if next = current then .ok (none, s.setState current .running)
            else .ok (some next, ((s.setCurrent next).addDispatch next).addSwitch)

end

/-! ### Ending, forking and reaping -/

/-- The body of the loop of `request_exit_group`, with the count of threads that exited. -/
def exitSlot (group : ℕ) (acc : Scheduler × ℕ) (slot : Slot) : Scheduler × ℕ :=
  let (s, count) := acc
  if (s.threads slot).threadGroupId = group ∧ (s.threads slot).state ≠ .exited then
    ((s.setState slot .exited).removeQueued slot, count + 1)
  else acc

def requestExitGroup (s : Scheduler) (status : ℤ) :
    Except Panic (Option ExitGroupRecord × Scheduler) :=
  if s.initialized = false then .ok (none, s)
  else
    match s.currentSlot with
    | none => .ok (none, s)
    | some current =>
      let t := s.threads current
      if t.state = .exited ∨ t.threadGroupId = 0 then .ok (none, s)
      else do
        let (s, exitedThreadCount) ←
          forEachSlot s.threadCount (exitSlot t.threadGroupId) (s, 0)
        let s := if (s.threads current).threadGroupId = t.threadGroupId then s.clearCurrent
          else s
        let (nextThread, s) ←
          match s.bestPriority with
          | none => pure ((0, "<none>", 0), s)
          | some p =>
            match s.dequeue p with
            | none => throw .unwrapNone
            | some (next, s) =>
              pure (((s.threads next).id, (s.threads next).name,
                (s.threads next).processId), (s.setCurrent next).addSwitch)
        return (some
          { status := status
            exitedThreadId := t.id
            exitedThreadName := t.name
            exitedProcessId := t.processId
            exitedThreadCount := exitedThreadCount
            nextThreadId := nextThread.1
            nextThreadName := nextThread.2.1
            nextProcessId := nextThread.2.2
            runqueueDepth := s.runqueueDepth }, s)

/-- `fork_current_thread`; `newCr3` is what `clone_space` returns. -/
def forkCurrentThread (s : Scheduler) (newCr3 : ℕ) : Except SchedulerError ℕ × Scheduler :=
  if s.initialized = false then (.error .threadTableFull, s)
  else
    match s.currentSlot with
    | none => (.error .threadTableFull, s)
    | some parentSlot =>
      match Ring.first fun slot : Slot => (s.threads slot).state == .unused with
      | none => (.error .threadTableFull, s)
      | some childSlot =>
        let childId := s.nextThreadId
        let s := s.addThread
        if newCr3 = 0 then (.error .threadTableFull, s)
        else
          let parent := s.threads parentSlot
          let child : Thread := { Thread.empty with
            id := childId
            processId := childId
            parentProcessId := parent.processId
            threadGroupId := childId
            name := parent.name
            role := parent.role
            state := .runnable
            basePriority := parent.basePriority
            fdTable := parent.fdTable
            context := { parent.context with cr3 := newCr3 } }
          (.ok childId, ((s.setThread childSlot child).enqueue childSlot).2)

/-- `id as i64`. -/
def asI64 (id : ℕ) : ℤ := if id < 2 ^ 63 then id else id - 2 ^ 64

/-- The slots that `reap_child` looks at. -/
def isChild (t : Thread) (parentPid : ℕ) (targetPid : ℤ) : Bool :=
  t.parentProcessId == parentPid && (targetPid == -1 || asI64 t.id == targetPid)

/-- The first child that has exited. -/
def exitedChild (s : Scheduler) (parentPid : ℕ) (targetPid : ℤ) : Option Slot :=
  Ring.first fun slot : Slot =>
    isChild (s.threads slot) parentPid targetPid && (s.threads slot).state == .exited

/-- `reap_child`: the id and status of the child, or whether there are children at all. -/
def reapChild (s : Scheduler) (parentPid : ℕ) (targetPid : ℤ) :
    Except Bool (ℕ × ℤ) × Scheduler :=
  match s.exitedChild parentPid targetPid with
  | some slot =>
    (.ok ((s.threads slot).id, (s.threads slot).exitStatus), s.freeSlot slot)
  | none =>
    (.error (Ring.first fun slot : Slot =>
      isChild (s.threads slot) parentPid targetPid).isSome, s)

def blockCurrentThread (s : Scheduler) : Scheduler :=
  match s.currentSlot with
  | none => s
  | some slot => if (s.threads slot).state = .running then s.setState slot .blocked else s

/-- `unblock_thread_with_result`: the address of the trap frame whose `rax` is overwritten, if a
thread is unblocked. -/
def unblockThreadWithResult (s : Scheduler) (targetPid targetTid : ℕ) : Option ℕ × Scheduler :=
  match Ring.first fun slot : Slot => (s.threads slot).processId == targetPid &&
      (s.threads slot).id == targetTid && (s.threads slot).state == .blocked with
  | some slot =>
    (some (s.threads slot).context.rsp, ((s.setState slot .runnable).enqueue slot).2)
  | none => (none, s)

end Scheduler

end Hxnu.Sched
