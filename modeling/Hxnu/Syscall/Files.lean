import Hxnu.Fs.Vfs
import Hxnu.Lib.Ring
import Hxnu.Sched.Descriptors
import Hxnu.Syscall.UserAccess

/-!
# Open files

The calls of `kernel/src/syscall.rs` on files. All processes share one table of open files. An entry
counts the descriptors that refer to it and is free again when the last of them is closed. A handler
works on the descriptor table of the current thread; it copies the table out, edits it and writes it
back.

A file is read as a whole when it is opened: the entry holds a copy of its content.

## Main definitions

* `OpenFile`, `Kernel`: an entry of the table; the scheduler, the table and the user's memory.
* `allocOpenFile`, `openPathAt`, `readFromFd`, `closeFd`, `purgeOpenFilesForProcess`, `exitGroup`.
* `sysFstat`, `sysGetdents64`, `sysLseek`, `sysIoctl`, `sysPipe`, `sysDup`, `sysDup2`.
* `FileCall`, `FileCall.exec`: the calls.
-/

namespace Hxnu.Syscall

open Sched Fs Buffer Word Text Function

def maxSystemFiles : ℕ := 128

instance : NeZero maxProcessFds := ⟨by decide⟩

instance : NeZero maxSystemFiles := ⟨by decide⟩

def maxReadBytes : ℕ := 64 * 1024

def maxPathBytes : ℕ := 1024

def maxContentBytes : ℕ := 65536

def atFdcwd : ℤ := -100

/-- An entry of the table of open files: `path` and `content` are the parts in use. -/
structure OpenFile where
  isUsed : Bool
  refCount : ℕ
  path : List UInt8
  offset : ℕ
  content : List UInt8
  deriving DecidableEq, Repr

namespace OpenFile

def empty : OpenFile := ⟨false, 0, [], 0, []⟩

/-- One descriptor less. -/
def release (f : OpenFile) : OpenFile :=
  if f.isUsed then
    if 1 < f.refCount then { f with refCount := f.refCount - 1 } else { f with isUsed := false }
  else f

/-- One descriptor more. -/
def retain (f : OpenFile) : OpenFile :=
  if f.isUsed then { f with refCount := wrapAdd f.refCount 1 } else f

end OpenFile

/-- What the handlers work on: the threads, the table of open files, and the memory of the process
that is running. -/
structure Kernel where
  sched : Scheduler
  files : Fin maxSystemFiles → OpenFile
  memory : UserMemory

/-- The result of a handler and the state it leaves. -/
abbrev Handled : Type := Except Panic (SyscallOutcome × Kernel)

namespace Kernel

/-- `process_fd_table`. -/
def table (k : Kernel) : FdTable := k.sched.getFdTable

/-- `set_process_fd_table`. -/
def setTable (k : Kernel) (table : FdTable) : Kernel :=
  { k with sched := k.sched.setFdTable table }

def setFile (k : Kernel) (i : Fin maxSystemFiles) (f : OpenFile) : Kernel :=
  { k with files := update k.files i f }

def modifyFile (k : Kernel) (i : Fin maxSystemFiles) (f : OpenFile → OpenFile) : Kernel :=
  k.setFile i (f (k.files i))

def setMemory (k : Kernel) (m : UserMemory) : Kernel := { k with memory := m }

/-- A result for the user, without a change. -/
def answer (k : Kernel) (outcome : SyscallOutcome) : Handled := .ok (outcome, k)

end Kernel

/-- `global_table[index]`. -/
def fileIndex (index : ℕ) : Except Panic (Fin maxSystemFiles) :=
  if h : index < maxSystemFiles then .ok ⟨index, h⟩ else .error .indexOutOfBounds

/-- The check of a descriptor that all handlers make. -/
def fdIndex (fd : ℤ) : Option (Fin maxProcessFds) :=
  if h : 0 ≤ fd ∧ fd.toNat < maxProcessFds then some ⟨fd.toNat, h.2⟩ else none

/-- The open file a descriptor refers to. -/
def descriptor (table : FdTable) (fd : ℤ) : Option ℕ := (fdIndex fd).bind table

/-- The first free descriptor, from `start` on. -/
def freeFd (table : FdTable) (start : ℕ) : Option (Fin maxProcessFds) :=
  Ring.first fun fd => decide (start ≤ fd) && (table fd).isNone

/-- The first free entry, from `start` on. -/
def freeFile (files : Fin maxSystemFiles → OpenFile) (start : ℕ) : Option (Fin maxSystemFiles) :=
  Ring.first fun i => decide (start ≤ i) && !(files i).isUsed

/-- The outcome of a call that returns a value or an error. -/
def toOutcome : Except Errno ℤ → SyscallOutcome
  | .ok value => .success value
  | .error e => .errno e

/-! ### Opening a file -/

def isReadOnlyOpen (flags : ℕ) : Bool :=
  decide (flags &&& 0x3 = 0) && decide (flags &&& (0x40 ||| 0x200 ||| 0x400) = 0)

def allocOpenFile (k : Kernel) (path content : List UInt8) : Except Errno ℤ × Kernel :=
  match freeFd k.table 3 with
  | none => (.error .emfile, k)
  | some fd =>
    match freeFile k.files 0 with
    | none => (.error .emfile, k)
    | some i =>
      (.ok (fd : ℕ),
        (k.setFile i ⟨true, 1, path.take 128, 0, content.take maxContentBytes⟩).setTable
          (update k.table fd (some i)))

/-- The path that a call means: a relative path is taken from the root. -/
def resolvePath (dirfd : ℤ) (rawPath : List UInt8) : Except Errno (List UInt8) :=
  if rawPath.head? = some slash then .ok rawPath
  else if dirfd = atFdcwd then .ok (slash :: rawPath.take (maxPathBytes - 1))
  else .error .enosys

/-- The part of `open_path_at` after the path has been copied in. -/
def openResolved (vfs : Vfs) (dirfd : ℤ) (k : Kernel) (rawPath : List UInt8) :
    SyscallOutcome × Kernel :=
  if Utf8.valid rawPath = false ∨ rawPath = [] then (.errno .einval, k)
  else
    match resolvePath dirfd rawPath with
    | .error e => (.errno e, k)
    | .ok path =>
      if Utf8.valid path = false then (.errno .einval, k)
      else
        match vfs.lookup path with
        | none => (.errno .enoent, k)
        | some node =>
          match vfs.read node.path with
          | none => (.errno .eio, k)
          | some content =>
            let r := allocOpenFile k node.path content
            (toOutcome r.1, r.2)

def openPathAt (vfs : Vfs) (k : Kernel) (dirfd : ℤ) (pathPtr flags : ℕ) :
    SyscallOutcome × Kernel :=
  if isReadOnlyOpen flags = false then (.errno .einval, k)
  else
    match k.memory.copyinCString pathPtr maxPathBytes with
    | (.error e, m) => (.errno e, k.setMemory m)
    | (.ok rawPath, m) => openResolved vfs dirfd (k.setMemory m) rawPath

/-! ### Reading and closing -/

/-- `parse_fd`: an `i32` from a 64-bit value. -/
def parseFd (value : ℕ) : Except Errno ℤ := if value < 2 ^ 31 then .ok value else .error .ebadf

def readOpenFile (k : Kernel) (fd : ℤ) (destinationPtr count : ℕ) : Handled :=
  match descriptor k.table fd with
  | none => k.answer (.errno .ebadf)
  | some index => do
    let i ← fileIndex index
    let file := k.files i
    if file.isUsed = false then k.answer (.errno .ebadf)
    else if count = 0 then k.answer (.success 0)
    else
      let readLen := min count (file.content.length - file.offset)
      if readLen = 0 then k.answer (.success 0)
      else
        match k.memory.copyout (slice file.content file.offset readLen) destinationPtr with
        | (.error e, m) => (k.setMemory m).answer (.errno e.asErrno)
        | (.ok (), m) =>
          ((k.setMemory m).setFile i
            { file with offset := satAdd file.offset readLen }).answer (.success readLen)

def readFromFd (k : Kernel) (args : Args) : Handled :=
  match parseFd (args 0) with
  | .error e => k.answer (.errno e)
  | .ok fd =>
    if maxReadBytes < args 2 then k.answer (.errno .erange)
    else readOpenFile k fd (args 1) (args 2)

def closeOpenFile (k : Kernel) (fd : ℤ) : Handled :=
  match fdIndex fd with
  | none => k.answer (.errno .ebadf)
  | some fd =>
    match k.table fd with
    | none => k.answer (.errno .ebadf)
    | some index => do
      let i ← fileIndex index
      ((k.setTable (update k.table fd none)).modifyFile i .release).answer (.success 0)

def closeFd (k : Kernel) (args : Args) : Handled :=
  match parseFd (args 0) with
  | .error e => k.answer (.errno e)
  | .ok fd => closeOpenFile k fd

/-- The body of the loop of `purge_open_files_for_process`. -/
def purgeFd (s : FdTable × Kernel) (fd : Fin maxProcessFds) : Except Panic (FdTable × Kernel) :=
  match s.1 fd with
  | none => .ok s
  | some index => do
    let i ← fileIndex index
    return (update s.1 fd none, s.2.modifyFile i .release)

/-- The descriptors that a purge closes. -/
def purgedFds : List (Fin maxProcessFds) := (List.finRange maxProcessFds).filter (3 ≤ ·.val)

def purgeOpenFilesForProcess (k : Kernel) : Except Panic Kernel := do
  let s ← purgedFds.foldlM purgeFd (k.table, k)
  return s.2.setTable s.1

def exitGroup (k : Kernel) (args : Args) : Handled := do
  let k ← purgeOpenFilesForProcess k
  return (⟨0, .exitGroup (asI32 (args 0))⟩, k)

/-! ### Status and directories -/

/-- The `stat` record of a file with the given mode, size and number of blocks. -/
def statBytes (mode size blocks : ℕ) : List UInt8 :=
  leBytes 8 0 ++ leBytes 8 1 ++ leBytes 8 1
    ++ leBytes 4 mode ++ leBytes 4 0 ++ leBytes 4 0 ++ leBytes 4 0
    ++ leBytes 8 0 ++ leBytes 8 size ++ leBytes 8 4096 ++ leBytes 8 blocks
    ++ List.replicate (6 * 8 + 3 * 8) 0

/-- `copyout_struct`, for a call that then returns 0. -/
def copyoutStruct (k : Kernel) (ptr : ℕ) (bytes : List UInt8) : SyscallOutcome × Kernel :=
  match k.memory.copyout bytes ptr with
  | (.error e, m) => (.errno e.asErrno, k.setMemory m)
  | (.ok (), m) => (.success 0, k.setMemory m)

def sysFstat (k : Kernel) (args : Args) : SyscallOutcome × Kernel :=
  match fdIndex (asI32 (args 0)) with
  | none => (.errno .ebadf, k)
  | some _ => copyoutStruct k (args 1) (statBytes 0o100644 4096 1)

/-- The header of a directory entry. -/
def direntHeader (offset reclen : ℕ) : List UInt8 :=
  leBytes 8 1 ++ leBytes 8 offset ++ leBytes 2 reclen ++ [8]

def direntHeaderLen : ℕ := 19

/-- The length of the record for a name. -/
def direntReclen (name : List UInt8) : ℕ := (direntHeaderLen + name.length + 1 + 7) / 8 * 8

/-- Copy the header, the name and the zero byte after it to `dst`. -/
def copyoutDirent (m : UserMemory) (dst offset : ℕ) (name : List UInt8) :
    Except UserCopyError Unit × UserMemory :=
  let nameDst := wrapAdd dst direntHeaderLen
  match m.copyout (direntHeader offset (direntReclen name)) dst with
  | (.error e, m) => (.error e, m)
  | (.ok (), m) =>
    match m.copyout name nameDst with
    | (.error e, m) => (.error e, m)
    | (.ok (), m) => m.copyout [0] (wrapAdd nameDst name.length)

/-- The loop of `sys_getdents64` over the remaining lines. `written` bytes have been written, and
`current` is the offset in the content. -/
def direntLoop (i : Fin maxSystemFiles) (dirp count : ℕ) :
    List (List UInt8) → ℕ → ℕ → Kernel → SyscallOutcome × Kernel
  | [], written, _, k => (.success written, k)
  | line :: lines, written, current, k =>
    let name := trim line
    if name = [] then direntLoop i dirp count lines written current k
    else if count < written + direntReclen name then (.success written, k)
    else
      let next := current + line.length + 1
      match copyoutDirent k.memory (wrapAdd dirp written) next name with
      | (.error _, m) => (.errno .efault, k.setMemory m)
      | (.ok (), m) =>
        direntLoop i dirp count lines (written + direntReclen name) next
          ((k.setMemory m).modifyFile i fun f => { f with offset := next })

def sysGetdents64 (k : Kernel) (args : Args) : Handled :=
  match descriptor k.table (asI32 (args 0)) with
  | none => k.answer (.errno .ebadf)
  | some index => do
    let i ← fileIndex index
    let file := k.files i
    if file.isUsed = false then k.answer (.errno .ebadf)
    else if file.content.length ≤ file.offset then k.answer (.success 0)
    else
      let text := file.content.drop file.offset
      if Utf8.valid text = false then k.answer (.errno .eio)
      else return direntLoop i (args 1) (args 2) (lines text) 0 file.offset k

/-! ### Moving in a file -/

/-- Where a call of `lseek` moves to. -/
def seekTarget (file : OpenFile) (offset whence : ℤ) : Option ℤ :=
  if whence = 0 then some offset
  else if whence = 1 then some ((asI64 file.offset + offset).bmod (2 ^ 64))
  else if whence = 2 then some ((file.content.length + offset).bmod (2 ^ 64))
  else none

def sysLseek (k : Kernel) (args : Args) : Handled :=
  match descriptor k.table (asI32 (args 0)) with
  | none => k.answer (.errno .ebadf)
  | some index => do
    let i ← fileIndex index
    let file := k.files i
    if file.isUsed = false then k.answer (.errno .ebadf)
    else
      match seekTarget file (asI64 (args 1)) (asI32 (args 2)) with
      | none => k.answer (.errno .einval)
      | some target =>
        if target < 0 then k.answer (.errno .einval)
        else (k.setFile i { file with offset := target.toNat }).answer (.success target)

/-- `sys_ioctl`: a descriptor that is not open stands for the index `9999`. -/
def sysIoctl (k : Kernel) (args : Args) : Handled :=
  match fdIndex (asI32 (args 0)) with
  | none => k.answer (.errno .ebadf)
  | some fd => do
    let i ← fileIndex ((k.table fd).getD 9999)
    if (k.files i).isUsed = false then k.answer (.errno .ebadf) else k.answer (.success 0)

/-! ### New descriptors -/

/-- The entry of an end of a pipe. -/
def pipeEnd (path : List UInt8) : OpenFile := ⟨true, 1, path, 0, []⟩

def sysPipe (k : Kernel) (args : Args) : SyscallOutcome × Kernel :=
  match freeFile k.files 0 with
  | none => (.errno .emfile, k)
  | some r =>
    match freeFile k.files (r + 1) with
    | none => (.errno .emfile, k)
    | some w =>
      match freeFd k.table 3 with
      | none => (.errno .emfile, k)
      | some rFd =>
        match freeFd k.table (rFd + 1) with
        | none => (.errno .emfile, k)
        | some wFd =>
          let k' := ((k.setFile r (pipeEnd (ascii "pipe:read"))).setFile w
            (pipeEnd (ascii "pipe:write"))).setTable
              (update (update k.table rFd (some r)) wFd (some w))
          copyoutStruct k' (args 0) (leBytes 4 rFd ++ leBytes 4 wFd)

def sysDup (k : Kernel) (args : Args) : Handled :=
  match descriptor k.table (asI32 (args 0)) with
  | none => k.answer (.errno .ebadf)
  | some index =>
    match freeFd k.table 3 with
    | none => k.answer (.errno .emfile)
    | some newFd => do
      let i ← fileIndex index
      ((k.modifyFile i .retain).setTable (update k.table newFd (some index))).answer
        (.success (newFd : ℕ))

/-- Close the entry that `dup2` replaces. -/
def releaseReplaced (k : Kernel) (newFd : Fin maxProcessFds) : Except Panic Kernel :=
  match k.table newFd with
  | none => .ok k
  | some index => do
    let i ← fileIndex index
    return k.modifyFile i .release

def sysDup2 (k : Kernel) (args : Args) : Handled :=
  match fdIndex (asI32 (args 0)), fdIndex (asI32 (args 1)) with
  | some oldFd, some newFd =>
    if oldFd = newFd then k.answer (.success (newFd : ℕ))
    else
      match k.table oldFd with
      | none => k.answer (.errno .ebadf)
      | some index => do
        let k' ← releaseReplaced k newFd
        let i ← fileIndex index
        ((k'.modifyFile i .retain).setTable (update k.table newFd (some index))).answer
          (.success (newFd : ℕ))
  | _, _ => k.answer (.errno .ebadf)

/-! ### The calls -/

/-- The calls on files. -/
inductive FileCall
  | open
  | openat
  | read
  | close
  | fstat
  | getdents64
  | lseek
  | ioctl
  | pipe
  | dup
  | dup2
  | exitGroup
  deriving DecidableEq, Repr

/-- A call by the current thread. -/
def FileCall.exec (vfs : Vfs) (k : Kernel) (args : Args) : FileCall → Handled
  | .open => .ok (openPathAt vfs k atFdcwd (args 0) (args 1))
  | .openat => .ok (openPathAt vfs k (asI64 (args 0)) (args 1) (args 2))
  | .read => readFromFd k args
  | .close => closeFd k args
  | .fstat => .ok (sysFstat k args)
  | .getdents64 => sysGetdents64 k args
  | .lseek => sysLseek k args
  | .ioctl => sysIoctl k args
  | .pipe => .ok (sysPipe k args)
  | .dup => sysDup k args
  | .dup2 => sysDup2 k args
  | .exitGroup => Syscall.exitGroup k args

end Hxnu.Syscall
