import Hxnu.Lib.ArrayQueue
import Hxnu.Lib.Word

/-!
# Scheduler state

The data of `kernel/src/sched.rs`: a table of eight threads, one run queue per priority kept in an
array of slots, and a bitmap with a bit for every queue that is not empty.

The `hps_hook` callback has no effect on the scheduler and is left out. Counters are 64-bit.

## Main definitions

* `Thread`, `Scheduler`.
* `Scheduler.enqueue`, `Scheduler.dequeue`, `Scheduler.removeQueued`: the queue operations.
* `Scheduler.bestPriority`: the lowest priority with a bit in the bitmap.
-/

namespace Hxnu.Sched

open Word Function

def maxThreads : ℕ := 8

def maxPriorities : ℕ := 64

def maxProcessFds : ℕ := 64

def kernelStackSize : ℕ := 16 * 1024

instance : NeZero maxThreads := ⟨by decide⟩

instance : NeZero maxPriorities := ⟨by decide⟩

abbrev Slot : Type := Fin maxThreads

abbrev Priority : Type := Fin maxPriorities

/-- Why the kernel stops. -/
inductive Panic
  | indexOutOfBounds
  | unwrapNone
  deriving DecidableEq, Repr

inductive SchedulerError
  | threadTableFull
  | runQueueFull
  | missingIdleThread
  deriving DecidableEq, Repr

inductive ThreadRole
  | none
  | bootstrap
  | idle
  | user
  deriving DecidableEq, Repr

inductive ThreadState
  | unused
  | runnable
  | running
  | blocked
  | exited
  deriving DecidableEq, Repr

def contextKindKernel : ℕ := 0

def contextKindUser : ℕ := 1

/-- The saved context of a thread (`context.rs`). -/
structure TaskContext where
  rsp : ℕ := 0
  rbx : ℕ := 0
  rbp : ℕ := 0
  r12 : ℕ := 0
  r13 : ℕ := 0
  r14 : ℕ := 0
  r15 : ℕ := 0
  cr3 : ℕ := 0
  kind : ℕ := contextKindKernel
  kernelRsp0 : ℕ := 0
  deriving DecidableEq

structure Thread where
  id : ℕ
  processId : ℕ
  parentProcessId : ℕ
  threadGroupId : ℕ
  name : String
  role : ThreadRole
  state : ThreadState
  basePriority : ℕ
  totalTicks : ℕ
  dispatchCount : ℕ
  context : TaskContext
  fdTable : Fin maxProcessFds → Option ℕ
  exitStatus : ℤ

def Thread.empty : Thread where
  id := 0
  processId := 0
  parentProcessId := 0
  threadGroupId := 0
  name := ""
  role := .none
  state := .unused
  basePriority := 0
  totalTicks := 0
  dispatchCount := 0
  context := {}
  fdTable := fun _ => none
  exitStatus := 0

structure ProcessIdentity where
  processId : ℕ
  parentProcessId : ℕ
  threadGroupId : ℕ

structure Scheduler where
  initialized : Bool
  nextThreadId : ℕ
  threadCount : ℕ
  threads : Slot → Thread
  runqueues : Priority → ArrayQueue Slot maxThreads
  runqueueBitmap : BitVec maxPriorities
  currentSlot : Option Slot
  contextSwitches : ℕ
  bootstrapThreadId : ℕ
  idleThreadId : ℕ

namespace Scheduler

def new : Scheduler where
  initialized := false
  nextThreadId := 1
  threadCount := 0
  threads := fun _ => .empty
  runqueues := fun _ => ⟨fun _ => 0, 0, Nat.zero_le _⟩
  runqueueBitmap := 0
  currentSlot := none
  contextSwitches := 0
  bootstrapThreadId := 0
  idleThreadId := 0

section

variable (s : Scheduler)

/-- Replace the thread in a slot. -/
def setThread (slot : Slot) (t : Thread) : Scheduler :=
  { s with threads := update s.threads slot t }

/-- Set the state of a thread. -/
def setState (slot : Slot) (state : ThreadState) : Scheduler :=
  s.setThread slot { s.threads slot with state := state }

/-- Make a thread the current one, in state `Running`. -/
def setCurrent (slot : Slot) : Scheduler :=
  { s.setState slot .running with currentSlot := some slot }

def clearCurrent : Scheduler := { s with currentSlot := none }

def addDispatch (slot : Slot) : Scheduler :=
  s.setThread slot { s.threads slot with
    dispatchCount := satAdd (s.threads slot).dispatchCount 1 }

def addSwitch : Scheduler :=
  { s with contextSwitches := satAdd s.contextSwitches 1 }

/-- Count a new thread. -/
def addThread : Scheduler :=
  { s with
    nextThreadId := satAdd s.nextThreadId 1
    threadCount := wrapAdd s.threadCount 1 }

/-- Give the slot of a thread back. -/
def freeSlot (slot : Slot) : Scheduler :=
  { s.setState slot .unused with threadCount := wrapSub s.threadCount 1 }

/-! ### Run queues -/

def priorityForThread (slot : Slot) : Priority :=
  if h : 63 < (s.threads slot).basePriority then ⟨63, by decide⟩
  else ⟨(s.threads slot).basePriority, by rw [maxPriorities]; omega⟩

def enqueue (slot : Slot) : Except SchedulerError Unit × Scheduler :=
  let p := s.priorityForThread slot
  if h : (s.runqueues p).depth < maxThreads then
    (.ok (), { s with
      runqueues := update s.runqueues p ((s.runqueues p).push slot h)
      runqueueBitmap := s.runqueueBitmap ||| BitVec.twoPow maxPriorities p })
  else (.error .runQueueFull, s)

/-- Store a run queue that an element was taken out of; the bit of an empty queue is cleared. -/
def shrinkQueue (p : Priority) (q : ArrayQueue Slot maxThreads) : Scheduler :=
  { s with
    runqueues := update s.runqueues p q
    runqueueBitmap := if q.depth = 0 then
        s.runqueueBitmap &&& ~~~ BitVec.twoPow maxPriorities p
      else s.runqueueBitmap }

def dequeue (p : Priority) : Option (Slot × Scheduler) :=
  match (s.runqueues p).pop with
  | none => none
  | some (slot, q) => some (slot, s.shrinkQueue p q)

/-- The loop that takes a slot out of the queue of its priority. It stands three times in the
source: in `restore_bootstrap_as_current`, `activate_thread_slot` and `request_exit_group`. -/
def removeQueued (slot : Slot) : Scheduler :=
  let p := s.priorityForThread slot
  match (s.runqueues p).indexOf slot with
  | some i => s.shrinkQueue p ((s.runqueues p).removeAt i)
  | none => s

/-- `runqueue_bitmap.trailing_zeros()`, unless it is 64. -/
def bestPriority : Option Priority :=
  Ring.first fun p => s.runqueueBitmap.getLsbD p

/-- Requeue a thread that was running; `enqueue` errors are ignored. -/
def preempt (slot : Slot) : Scheduler :=
  if (s.threads slot).state = .running then ((s.setState slot .runnable).enqueue slot).2 else s

/-- The first slot below `thread_count` with a property. A loop that runs past the table panics. -/
def findThread (p : Thread → Bool) : Except Panic (Option Slot) :=
  match Ring.first fun slot : Slot => decide ((slot : ℕ) < s.threadCount) && p (s.threads slot) with
  | some slot => .ok (some slot)
  | none => if maxThreads < s.threadCount then .error .indexOutOfBounds else .ok none

end

end Scheduler

end Hxnu.Sched
