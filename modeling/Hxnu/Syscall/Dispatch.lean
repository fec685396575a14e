import Hxnu.Hsched.Poll
import Hxnu.Syscall.LclReceive
import Hxnu.Syscall.Memory
import Hxnu.Syscall.Write

/-!
# Dispatching system calls

The tables by which `kernel/src/syscall.rs` selects the handler of a call, for its three ABIs and
for calls that are passed on to the Linux compatibility layer, with the handlers that no other
module has. A table maps a call number to a `Handler`, and `Handler.exec` runs it.

The clock, the loading of a program by `spawn_executable` and the task ring, which other processors
share, are parameters. What `lcl_return` writes to the saved registers of the thread it wakes up is
not in the state.

## Main definitions

* `System`, `Services`: the state and the parameters.
* `sysStat`, `sysGetrandom`, `linuxClockGettime`, `writeUname`, `hxnuSpawn`: the other handlers.
* `Handler`, `linuxHandler`, `ghostHandler`, `hxnuHandler`: the tables.
* `dispatch`, `decodeSyscallAbi`, `handleSyscallFrame`.
-/

namespace Hxnu.Syscall

open Sched Fs Buffer Word Text Hsched

/-- What the handlers work on. -/
structure System where
  kernel : Kernel
  process : ProcessMemory
  lcl : LclQueue
  /-- The texts passed to `tty::write_str`. -/
  console : ConsoleLog
  /-- The `FS_BASE` register. -/
  fsBase : ℕ

/-- What the handlers ask others for. -/
structure Services where
  vfs : Vfs
  uptimeNanoseconds : U64
  /-- `spawn_executable` with a path and arguments: the new process, and the threads and the memory
  it leaves. -/
  spawnExecutable : Scheduler → ProcessMemory → List UInt8 → List (List UInt8) →
    Option ℕ × Scheduler × ProcessMemory
  /-- What `submit_workload` returns. -/
  submitWorkload : WorkloadType → Option ℕ
  hsched : HeterogeneousScheduler Unit

/-- The outcome of a call and the state it leaves. -/
abbrev Dispatched : Type := Except Panic (SyscallOutcome × System)

namespace System

def answer (s : System) (outcome : SyscallOutcome) : Dispatched := .ok (outcome, s)

/-- A handler that works on threads, open files and user memory. -/
def onKernel (s : System) (h : Handled) : Dispatched :=
  h.map fun r => (r.1, { s with kernel := r.2 })

/-- A handler that writes to the console. -/
def onConsole (s : System) (r : SyscallOutcome × UserMemory × ConsoleLog) : Dispatched :=
  .ok (r.1, { s with kernel := s.kernel.setMemory r.2.1, console := r.2.2 })

end System

/-! ### Handlers -/

/-- `i64::try_from(value)`. -/
def toI64 (value : ℕ) : SyscallOutcome :=
  if value < 2 ^ 63 then .success value else .errno .erange

/-- `current_thread`. -/
def currentThread (s : Scheduler) : Thread :=
  match s.currentSlot with
  | some slot => s.threads slot
  | none => .empty

def processId (k : Kernel) : SyscallOutcome := toI64 (currentThread k.sched).processId

def processParentId (k : Kernel) : SyscallOutcome := toI64 (currentThread k.sched).parentProcessId

def threadId (k : Kernel) : SyscallOutcome := toI64 (currentThread k.sched).id

/-- The `stat` record of a node. -/
def statRecord (node : VfsNode) : List UInt8 :=
  statBytes (if node.kind = .directory then 0o040755 else 0o100644) node.size
    (wrapAdd node.size 4095 / 4096)

/-- The part of `sys_stat` after the path has been copied in. -/
def statPath (vfs : Vfs) (k : Kernel) (rawPath : List UInt8) (statbuf : ℕ) :
    SyscallOutcome × Kernel :=
  if Utf8.valid rawPath = false then (.errno .einval, k)
  else
    match vfs.lookup rawPath with
    | none => (.errno .enoent, k)
    | some node => copyoutStruct k statbuf (statRecord node)

def sysStat (vfs : Vfs) (k : Kernel) (args : Args) : SyscallOutcome × Kernel :=
  match k.memory.copyinCString (args 0) maxPathBytes with
  | (.error e, m) => (.errno e, k.setMemory m)
  | (.ok rawPath, m) => statPath vfs (k.setMemory m) rawPath (args 1)

def sysGetrandom (k : Kernel) (args : Args) : SyscallOutcome × Kernel :=
  let copyLen := min (args 1 : ℕ) 256
  let bytes := (List.range copyLen).map fun i => UInt8.ofNat i * 37 + 13
  match k.memory.copyout bytes (args 0) with
  | (.error e, m) => (.errno e.asErrno, k.setMemory m)
  | (.ok (), m) => (.success copyLen, k.setMemory m)

def archSetFs : ℕ := 0x1002

def sysArchPrctl (s : System) (args : Args) : SyscallOutcome × System :=
  if (args 0 : ℕ) = archSetFs then (.success 0, { s with fsBase := args 1 }) else (.errno .einval, s)

/-- The bytes of `LinuxTimespec`. -/
def timespecBytes (uptime : ℕ) : List UInt8 :=
  leBytes 8 (uptime / 1000000000) ++ leBytes 8 (uptime % 1000000000)

def linuxClockGettime (uptime : ℕ) (k : Kernel) (args : Args) : SyscallOutcome × Kernel :=
  if asI32 (args 0) ≠ 0 ∧ asI32 (args 0) ≠ 1 then (.errno .einval, k)
  else copyoutStruct k (args 1) (timespecBytes uptime)

/-- `write_uts_field`: a field of 65 bytes. -/
def utsField (value : List UInt8) : List UInt8 :=
  value.take 64 ++ List.replicate (65 - (value.take 64).length) 0

def writeUname (k : Kernel) (ptr : ℕ) (fields : List String) : SyscallOutcome × Kernel :=
  copyoutStruct k ptr (fields.flatMap fun value => utsField (ascii value))

def linuxUname (k : Kernel) (args : Args) : SyscallOutcome × Kernel :=
  writeUname k (args 0) ["Linux", "hxnu", "0.1.0-hxnu", "HXNU micro-hybrid kernel bootstrap",
    "x86_64", "localdomain"]

def ghostUname (k : Kernel) (args : Args) : SyscallOutcome × Kernel :=
  writeUname k (args 0) ["Ghost", "hxnu", "0.1.0-ghost", "HXNU ghost compatibility bootstrap",
    "x86_64", "legacy"]

/-- The arguments of a new program, each from its pointer. Those that are not valid are left out. -/
def copyinArgs (m : UserMemory) : List ℕ → Except Errno (List (List UInt8)) × UserMemory
  | [] => (.ok [], m)
  | ptr :: ptrs =>
    match m.copyinCString ptr 256 with
    | (.error e, m) => (.error e, m)
    | (.ok arg, m) =>
      match copyinArgs m ptrs with
      | (.error e, m) => (.error e, m)
      | (.ok args, m) => (.ok (if Utf8.valid arg then arg :: args else args), m)

/-- The arguments of a new program; more than 16 count as none. -/
def copyinArgv (m : UserMemory) (argvPtrsPtr argc : ℕ) :
    Except Errno (List (List UInt8)) × UserMemory :=
  if argvPtrsPtr ≠ 0 ∧ 0 < argc ∧ argc ≤ 16 then
    match m.copyin argvPtrsPtr (argc * 8) with
    | (.error e, m) => (.error e.asErrno, m)
    | (.ok bytes, m) =>
      copyinArgs m ((List.range argc).map fun i => ofLeBytes (slice bytes (8 * i) 8))
  else (.ok [], m)

def hxnuSpawn (sv : Services) (s : System) (args : Args) : SyscallOutcome × System :=
  let withMemory (m : UserMemory) : System := { s with kernel := s.kernel.setMemory m }
  match s.kernel.memory.copyinCString (args 0) maxPathBytes with
  | (.error e, m) => (.errno e, withMemory m)
  | (.ok path, m) =>
    if Utf8.valid path = false then (.errno .einval, withMemory m)
    else
      match copyinArgv m (args 1) (args 2) with
      | (.error e, m) => (.errno e, withMemory m)
      | (.ok argv, m) =>
        let (pid, sched, process) := sv.spawnExecutable s.kernel.sched s.process path argv
        (match pid with
          | some pid => .success (asI64 pid)
          | none => .errno .enoent,
        { s with kernel := { s.kernel with sched, memory := m }, process })

def lclReturn (k : Kernel) (args : Args) : SyscallOutcome × Kernel :=
  let (frame, sched) := k.sched.unblockThreadWithResult (args 1) (args 2)
  (if frame.isSome then .success 0 else .errno .einval, { k with sched })

/-! ### Tables -/

/-- The handlers of the tables. -/
inductive Handler
  | readFromFd
  | writeWithFd
  | writeWithoutFd
  /-- `open_path_at(AT_FDCWD, ..)`. -/
  | openPath
  | linuxOpenat
  | closeFd
  | sysStat
  | sysFstat
  | sysMmap
  | sysBrk
  | sysIoctl
  | sysArchPrctl
  | sysGetdents64
  | sysGetrandom
  | linuxClockGettime
  | linuxUname
  | ghostUname
  | processId
  | processParentId
  | threadId
  | uptimeNs
  | exitGroup
  | lclReceive
  | lclReturn
  | hxnuSpawn
  | heterexecSubmit
  | heterexecPoll
  /-- A call without an effect. -/
  | constant (outcome : SyscallOutcome)
  deriving DecidableEq, Repr

def Handler.exec (sv : Services) (s : System) (args : Args) : Handler → Dispatched
  | .readFromFd => s.onKernel (Syscall.readFromFd s.kernel args)
  | .writeWithFd => s.onConsole (Syscall.writeWithFd s.kernel.memory s.console args)
  | .writeWithoutFd => s.onConsole (Syscall.writeWithoutFd s.kernel.memory s.console args)
  | .openPath => s.onKernel (.ok (openPathAt sv.vfs s.kernel atFdcwd (args 0) (args 1)))
  | .linuxOpenat =>
    s.onKernel (.ok (openPathAt sv.vfs s.kernel (asI64 (args 0)) (args 1) (args 2)))
  | .closeFd => s.onKernel (Syscall.closeFd s.kernel args)
  | .sysStat => s.onKernel (.ok (Syscall.sysStat sv.vfs s.kernel args))
  | .sysFstat => s.onKernel (.ok (Syscall.sysFstat s.kernel args))
  | .sysMmap =>
    let (outcome, process) := Syscall.sysMmap s.process args
    .ok (outcome, { s with process })
  | .sysBrk =>
    let (outcome, process) := Syscall.sysBrk s.process args
    .ok (outcome, { s with process })
  | .sysIoctl => s.onKernel (Syscall.sysIoctl s.kernel args)
  | .sysArchPrctl => .ok (Syscall.sysArchPrctl s args)
  | .sysGetdents64 => s.onKernel (Syscall.sysGetdents64 s.kernel args)
  | .sysGetrandom => s.onKernel (.ok (Syscall.sysGetrandom s.kernel args))
  | .linuxClockGettime =>
    s.onKernel (.ok (Syscall.linuxClockGettime sv.uptimeNanoseconds s.kernel args))
  | .linuxUname => s.onKernel (.ok (Syscall.linuxUname s.kernel args))
  | .ghostUname => s.onKernel (.ok (Syscall.ghostUname s.kernel args))
  | .processId => s.answer (Syscall.processId s.kernel)
  | .processParentId => s.answer (Syscall.processParentId s.kernel)
  | .threadId => s.answer (Syscall.threadId s.kernel)
  | .uptimeNs => s.answer (toI64 sv.uptimeNanoseconds)
  | .exitGroup => s.onKernel (Syscall.exitGroup s.kernel args)
  | .lclReceive =>
    let (outcome, lcl, memory) := Syscall.lclReceive s.lcl s.kernel.memory args
    .ok (outcome, { s with kernel := s.kernel.setMemory memory, lcl })
  | .lclReturn => s.onKernel (.ok (Syscall.lclReturn s.kernel args))
  | .hxnuSpawn => .ok (Syscall.hxnuSpawn sv s args)
  | .heterexecSubmit => s.answer (match sv.submitWorkload (sysHeterexecSubmit args) with
      | some taskId => .success taskId
      | none => .errno .eio)
  | .heterexecPoll => s.answer (sysHeterexecPoll sv.hsched args)
  | .constant outcome => s.answer outcome

def linuxSysOpen : ℕ := 2

def linuxSysStat : ℕ := 4

def linuxSysOpenat : ℕ := 257

def linuxSysNewfstatat : ℕ := 262

/-- The table of `dispatch_linux_bootstrap`. -/
def linuxTable : List (ℕ × Handler) :=
  [(0, .readFromFd), (1, .writeWithFd), (linuxSysOpen, .openPath), (3, .closeFd),
    (linuxSysStat, .sysStat), (linuxSysNewfstatat, .sysStat), (5, .sysFstat),
    (7, .constant (.success 0)), (8, .constant (.success 0)), (9, .sysMmap),
    (10, .constant (.success 0)), (11, .constant (.success 0)), (12, .sysBrk),
    (13, .constant (.success 0)), (14, .constant (.success 0)), (16, .sysIoctl),
    (24, .constant (.success 0)), (28, .constant (.success 0)), (39, .processId),
    (110, .processParentId), (131, .constant (.success 0)), (158, .sysArchPrctl), (186, .threadId),
    (200, .constant (.success 0)), (217, .sysGetdents64), (218, .processId),
    (228, .linuxClockGettime), (63, .linuxUname), (60, .exitGroup), (231, .exitGroup),
    (234, .constant (.success 0)), (linuxSysOpenat, .linuxOpenat), (302, .constant (.success 0)),
    (318, .sysGetrandom), (334, .constant (.errno .enosys))]

/-- The table of `dispatch_ghost_bootstrap`. -/
def ghostTable : List (ℕ × Handler) :=
  [(1, .writeWithFd), (8, .openPath), (9, .readFromFd), (10, .closeFd), (2, .constant (.success 0)),
    (3, .processId), (4, .threadId), (5, .uptimeNs), (6, .ghostUname), (7, .exitGroup)]

/-- The table of `dispatch_hxnu_bootstrap`. -/
def hxnuTable : List (ℕ × Handler) :=
  [(0x484e0001, .writeWithoutFd), (0x484e0007, .openPath), (0x484e0008, .readFromFd),
    (0x484e0009, .closeFd), (0x484e0002, .threadId), (0x484e0003, .processId),
    (0x484e0004, .uptimeNs), (0x484e0005, .constant ⟨0, .yieldThread⟩),
    (0x484e0006, .constant (.success 0x00010000)), (0x484e000a, .lclReceive),
    (0x484e000b, .lclReturn), (0x484e000c, .hxnuSpawn), (0x484e0010, .heterexecSubmit),
    (0x484e0011, .heterexecPoll), (0x484e00ff, .exitGroup)]

/-- The handler of a call number; numbers that are not in the table give `ENOSYS`. -/
def selectHandler (table : List (ℕ × Handler)) (number : ℕ) : Handler :=
  (table.lookup number).getD (.constant (.errno .enosys))

def dispatchLinuxBootstrap (sv : Services) (s : System) (number : ℕ) (args : Args) : Dispatched :=
  (selectHandler linuxTable number).exec sv s args

def dispatchGhostBootstrap (sv : Services) (s : System) (number : ℕ) (args : Args) : Dispatched :=
  (selectHandler ghostTable number).exec sv s args

def dispatchHxnuBootstrap (sv : Services) (s : System) (number : ℕ) (args : Args) : Dispatched :=
  (selectHandler hxnuTable number).exec sv s args

inductive SyscallAbi
  | linuxBootstrap
  | ghostBootstrap
  | hxnuNativeBootstrap
  | posixLcl
  deriving DecidableEq, Repr

/-- Pass a call on to the daemon and block the caller. -/
def forwardToLcl (s : System) (number : ℕ) (args : Args) : SyscallOutcome × System :=
  let thread := currentThread s.kernel.sched
  let msg : LclMessage := ⟨thread.processId, thread.id, number, fun i => args i, 3⟩
  (⟨0, .yieldThread⟩, { s with
    kernel := { s.kernel with sched := s.kernel.sched.blockCurrentThread }
    lcl := enqueueLclMessage s.lcl msg
    console := s.console ++ [ascii "[LCL Handler] Intercepted int 0x80\n"] })

def dispatch (sv : Services) (s : System) (abi : SyscallAbi) (number : ℕ) (args : Args) :
    Dispatched :=
  match abi with
  | .linuxBootstrap => dispatchLinuxBootstrap sv s number args
  | .ghostBootstrap => dispatchGhostBootstrap sv s number args
  | .hxnuNativeBootstrap => dispatchHxnuBootstrap sv s number args
  | .posixLcl => .ok (forwardToLcl s number args)

/-- `decode_syscall_abi`, which gives an ABI for every selector. -/
def decodeSyscallAbi (selector : ℕ) : SyscallAbi :=
  if selector = 2 then .hxnuNativeBootstrap
  else if selector = 1 then .ghostBootstrap
  else .linuxBootstrap

/-- The call that `hxnu_x86_64_handle_syscall_frame` makes: `r12` selects the ABI and `rax` is the
number. -/
def handleSyscallFrame (sv : Services) (s : System) (r12 rax : ℕ) (args : Args) : Dispatched :=
  dispatch sv s (decodeSyscallAbi r12) rax args

end Hxnu.Syscall
