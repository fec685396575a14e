import Hxnu.Lib.Words
import Hxnu.Sched.Safety

/-!
# System call entry and the frames of suspended threads

A user thread enters the kernel in one of two ways (`arch/x86_64/interrupts.rs`). `int 0x80` pushes
its registers at the top of the kernel stack in `TSS.rsp0`, which `prepare_resume_slot` sets to the
stack of the thread that is about to run. The `syscall` instruction goes through
`hxnu_x86_64_fast_syscall_entry`, which pushes them at the top of `hxnu_fast_syscall_stack`, one
stack for all threads. If the call yields, the address of the frame is the saved stack pointer of the
thread, and resuming the thread pops its registers from there (`arch/x86_64/context.rs`).

What a system call computes is left open: a call has an arbitrary list of effects on memory and on
other threads, a result, and an action. Kernel memory is modelled by words, of which only frames are
looked at. The ghost field `saved` records the registers at the last kernel entry of each thread.

## Main definitions

* `Stacks`: where the kernel stacks are.
* `Machine`: the scheduler, the memory, `TSS.rsp0` and `hxnu_syscall_user_rsp`.
* `Machine.handleSyscallFrame`: the end of a system call.
* `Machine.step`: the transitions.
-/

namespace Hxnu.Trap

open Sched Words Function

/-! ### Stacks and registers -/

def fastSyscallStackSize : ℕ := 65536

/-- The kernel stacks, which the linker puts in the kernel half and apart from each other. -/
structure Stacks extends Platform where
  /-- `hxnu_fast_syscall_stack_top`. -/
  fastTop : ℕ
  userStacks_high : 2 ^ 47 ≤ userStacks
  fastTop_high : 2 ^ 47 + fastSyscallStackSize ≤ fastTop
  apart : fastTop ≤ userStacks ∨
    userStacks + maxThreads * kernelStackSize ≤ fastTop - fastSyscallStackSize

/-- The registers of a user thread. -/
structure Registers where
  rax : ℕ := 0
  rbp : ℕ := 0
  rbx : ℕ := 0
  rcx : ℕ := 0
  rdx : ℕ := 0
  rsi : ℕ := 0
  rdi : ℕ := 0
  r8 : ℕ := 0
  r9 : ℕ := 0
  r10 : ℕ := 0
  r11 : ℕ := 0
  r12 : ℕ := 0
  r13 : ℕ := 0
  r14 : ℕ := 0
  r15 : ℕ := 0
  rip : ℕ
  rflags : ℕ
  rsp : ℕ
  deriving DecidableEq

/-- `USER_CODE_SELECTOR | 3`. -/
def userCs : ℕ := 0x43

/-- `USER_DATA_SELECTOR | 3`. -/
def userSs : ℕ := 0x3b

namespace Registers

/-- The words of a frame: the registers as they are pushed, and what `iretq` pops. -/
def word (regs : Registers) : ℕ → ℕ
  | 0 => regs.rax
  | 1 => regs.rbp
  | 2 => regs.rbx
  | 3 => regs.rcx
  | 4 => regs.rdx
  | 5 => regs.rsi
  | 6 => regs.rdi
  | 7 => regs.r8
  | 8 => regs.r9
  | 9 => regs.r10
  | 10 => regs.r11
  | 11 => regs.r12
  | 12 => regs.r13
  | 13 => regs.r14
  | 14 => regs.r15
  | 15 => regs.rip
  | 16 => userCs
  | 17 => regs.rflags
  | 18 => regs.rsp
  | 19 => userSs
  | _ => 0

/-- The registers that `hxnu_resume_user_context` pops. -/
def load (mem : ℕ → ℕ) (a : ℕ) : Registers where
  rax := mem a
  rbp := mem (a + 8 * 1)
  rbx := mem (a + 8 * 2)
  rcx := mem (a + 8 * 3)
  rdx := mem (a + 8 * 4)
  rsi := mem (a + 8 * 5)
  rdi := mem (a + 8 * 6)
  r8 := mem (a + 8 * 7)
  r9 := mem (a + 8 * 8)
  r10 := mem (a + 8 * 9)
  r11 := mem (a + 8 * 10)
  r12 := mem (a + 8 * 11)
  r13 := mem (a + 8 * 12)
  r14 := mem (a + 8 * 13)
  r15 := mem (a + 8 * 14)
  rip := mem (a + 8 * 15)
  rflags := mem (a + 8 * 17)
  rsp := mem (a + 8 * 18)

/-- The `syscall` instruction keeps `rip` and `rflags` in two registers. -/
def afterSyscall (regs : Registers) : Registers :=
  { regs with rcx := regs.rip, r11 := regs.rflags }

end Registers

/-- The frame that `initialize_user_thread` builds. -/
def initialRegisters (entryPoint userStack : ℕ) : Registers where
  rip := entryPoint
  rflags := 0x202
  rsp := userStack

/-! ### The machine -/

/-- The part of the machine that system calls and switches use. -/
structure Machine where
  run : RunState
  mem : ℕ → ℕ
  /-- `TSS.rsp0`. -/
  rsp0 : ℕ
  /-- `hxnu_syscall_user_rsp`. -/
  userRsp : ℕ
  /-- Ghost state: the registers of each thread at its last kernel entry, or at its creation. -/
  saved : Slot → Registers

/-- What the handler of a system call does besides computing its result. -/
inductive HandlerEffect
  /-- A word is written through a pointer of the caller. -/
  | write (address word : ℕ)
  /-- `unblock_thread_with_result`. -/
  | unblock (targetPid targetTid result : ℕ)
  /-- `create_user_thread`. -/
  | spawn (entryPoint userStack pageTable : ℕ)
  deriving DecidableEq

/-- The action of a `SyscallOutcome`; a handler that blocks the thread returns `YieldThread`. -/
inductive SyscallAction
  | continues
  | yieldThread (blocks : Bool)
  | exitGroup (status : ℤ)
  deriving DecidableEq

/-- A system call of the current thread. -/
structure Call where
  /-- Entered by `syscall`, not by `int 0x80`. -/
  fast : Bool
  regs : Registers
  body : List HandlerEffect := []
  value : ℕ := 0
  action : SyscallAction
  deriving DecidableEq

/-- A thread resumed from its saved frame, with the registers found there. -/
abbrev Resumed : Type := Slot × Registers

namespace Machine

def start (s : Scheduler) (mem : ℕ → ℕ) (rsp0 userRsp : ℕ) (saved : Slot → Registers) : Machine :=
  ⟨.start s, mem, rsp0, userRsp, saved⟩

section

variable (m : Machine)

abbrev sched : Scheduler := m.run.sched

/-- The scheduler after an operation. -/
def took (op : Op) (s : Scheduler) : Machine := { m with run := m.run.next op s }

def setContext (slot : Slot) (context : TaskContext) : Machine :=
  { m with run := { m.run with sched := m.sched.setContext slot context } }

/-- `frame.rax = value`, or `mov [rsp], rax` at the end of the entry code. -/
def setRax (frame value : ℕ) : Machine :=
  { m with mem := update m.mem frame value }

def prepareResumeSlot (K : Stacks) (slot : Slot) : Machine :=
  if (m.sched.threads slot).role = .user then { m with rsp0 := K.stackTop slot } else m

/-- `hxnu_resume_common`: a user context is popped from the frame. -/
def resume (slot : Slot) : Option Resumed :=
  if (m.sched.threads slot).context.kind = contextKindUser then
    some (slot, Registers.load m.mem (m.sched.threads slot).context.rsp)
  else none

/-- `create_user_thread` with the frame that `initialize_user_thread` writes. -/
def createUserThread (K : Stacks) (entryPoint userStack pageTable : ℕ) : Machine :=
  let m' := m.took (.createUserThread pageTable)
    (m.sched.createUserThread K.toPlatform pageTable).2
  if h : m.sched.initialized = true ∧ m.sched.threadCount < maxThreads then
    let slot : Slot := ⟨m.sched.threadCount, h.2⟩
    { m' with
      mem := fill m.mem (K.stackTop slot - frameBytes) 20
        (initialRegisters entryPoint userStack).word
      saved := update m.saved slot (initialRegisters entryPoint userStack) }
  else m'

def effect (K : Stacks) : HandlerEffect → Machine
  | .write address word => { m with mem := update m.mem address word }
  | .unblock pid tid result =>
    match m.sched.unblockThreadWithResult pid tid with
    | (some frame, s) => (m.took (.unblockThreadWithResult pid tid) s).setRax frame result
    | (none, s) => m.took (.unblockThreadWithResult pid tid) s
  | .spawn entryPoint userStack pageTable => m.createUserThread K entryPoint userStack pageTable

/-! ### System calls -/

/-- Where a system call puts the registers. -/
def frameAddress (K : Stacks) (fast : Bool) : ℕ :=
  (if fast then K.fastTop else m.rsp0) - frameBytes

/-- The two entry paths push the registers. -/
def enter (K : Stacks) (call : Call) : Machine :=
  let regs := if call.fast then call.regs.afterSyscall else call.regs
  { m with
    mem := fill m.mem (m.frameAddress K call.fast) 20 regs.word
    userRsp := if call.fast then regs.rsp else m.userRsp
    saved := match m.sched.currentSlot with
      | none => m.saved
      | some c => update m.saved c regs }

/-- `syscall_from_user`. -/
def syscallFromUser (frame : ℕ) : Bool := m.mem (frame + 8 * 16) % 4 == 3

/-- The end of `hxnu_x86_64_handle_syscall_frame`, after the handler. -/
def finishSyscall (K : Stacks) (frame value : ℕ) :
    SyscallAction → Except Panic (Option Resumed × Machine)
  | .continues => .ok (none, m.setRax frame value)
  | .yieldThread blocks =>
    let m := if blocks then m.took .blockCurrentThread m.sched.blockCurrentThread else m
    if m.syscallFromUser frame = true then
      match m.sched.yieldCurrentUserThread frame with
      | .error e => .error e
      | .ok (none, s) => .ok (none, (m.took (.yieldCurrentUserThread frame) s).setRax frame value)
      | .ok (some next, s) =>
        let m := ((m.took (.yieldCurrentUserThread frame) s).prepareResumeSlot K next).setRax
          frame value
        .ok (m.resume next, m)
    else .ok (none, m.setRax frame value)
  | .exitGroup status =>
    match m.sched.requestExitGroup status with
    | .error e => .error e
    | .ok (_, s) =>
      let m := m.took (.requestExitGroup status) s
      match s.currentSlot with
      | none => .ok (none, m.setRax frame value)
      | some next =>
        if m.syscallFromUser frame = true then
          let m := (m.prepareResumeSlot K next).setRax frame value
          .ok (m.resume next, m)
        else .ok (none, m.setRax frame value)

/-- A system call from entry to the return to user mode. -/
def handleSyscallFrame (K : Stacks) (call : Call) : Except Panic (Option Resumed × Machine) :=
  let frame := m.frameAddress K call.fast
  (call.body.foldl (fun m e => m.effect K e) (m.enter K call)).finishSyscall K frame call.value
    call.action

end

end Machine

/-! ### Transitions -/

/-- What the threads do. -/
inductive Action
  /-- A kernel thread creates a user thread. -/
  | spawn (entryPoint userStack pageTable : ℕ)
  /-- The bootstrap thread enters `idle_loop` with these registers. -/
  | enterFirst (registers : TaskContext)
  /-- The idle thread switches to the next thread in `run_idle_cycle` with these registers. -/
  | idleSwitch (registers : TaskContext)
  /-- The current user thread makes a system call. -/
  | call (call : Call)

namespace Machine

/-- `switch_context_with_cr3`: the kernel registers are saved, and the next context is resumed. -/
def switchContext (m : Machine) (K : Stacks) (current next : Slot) (registers : TaskContext) :
    Option Resumed × Machine :=
  let old := (m.sched.threads current).context
  let m := (m.setContext current { registers with
    cr3 := old.cr3, kind := contextKindKernel, kernelRsp0 := old.kernelRsp0 }).prepareResumeSlot
      K next
  (m.resume next, m)

def step (m : Machine) (K : Stacks) : Action → Except Panic (Option Resumed × Machine)
  | .spawn entryPoint userStack pageTable =>
    .ok (none, m.createUserThread K entryPoint userStack pageTable)
  | .enterFirst registers =>
    match m.sched.initialContextPair with
    | .error e => .error e
    -- `idle_loop` panics with the error.
    | .ok (.error _, _) => .error .unwrapNone
    | .ok (.ok (current, next), s) =>
      .ok ((m.took .initialContextPair s).switchContext K current next registers)
  | .idleSwitch registers =>
    match m.sched.contextSwitchPair with
    | .error e => .error e
    | .ok (none, s) => .ok (none, m.took .contextSwitchPair s)
    | .ok (some (current, next, _), s) =>
      .ok ((m.took .contextSwitchPair s).switchContext K current next registers)
  | .call call => m.handleSyscallFrame K call

/-- Who may take an action: kernel threads create threads, the bootstrap thread enters `idle_loop`
once, the idle thread switches, and user threads make system calls. -/
def allowed (m : Machine) : Action → Bool
  | .spawn _ _ _ => !m.sched.userCurrent
  | .enterFirst _ => !m.run.entered
  | .idleSwitch _ => m.run.entered && m.sched.currentSlot == some 1
  | .call _ => m.sched.userCurrent

end Machine

end Hxnu.Trap
