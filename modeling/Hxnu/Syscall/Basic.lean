import Hxnu.Lib.Word

/-!
# Arguments and results of system calls

The types that all handlers of `kernel/src/syscall.rs` share, with the error numbers they return.

## Main definitions

* `Args`: six 64-bit arguments.
* `SyscallOutcome`, `SyscallOutcome.success`, `SyscallOutcome.errno`.
-/

namespace Hxnu.Syscall

/-- A 64-bit argument. -/
abbrev U64 : Type := Fin (2 ^ 64)

/-- `[u64; 6]`. -/
abbrev Args : Type := Fin 6 → U64

instance neZeroSix : NeZero 6 := ⟨by decide⟩

instance neZeroWord : NeZero (2 ^ 64) := ⟨by decide⟩

/-- `value as i64`. -/
def asI64 (value : ℕ) : ℤ := if value < 2 ^ 63 then value else value - 2 ^ 64

/-- `value as i32`. -/
def asI32 (value : ℕ) : ℤ :=
  if value % 2 ^ 32 < 2 ^ 31 then (value % 2 ^ 32 : ℕ) else (value % 2 ^ 32 : ℕ) - 2 ^ 32

inductive SyscallAction
  | continue
  | yieldThread
  | exitGroup (status : ℤ)
  deriving DecidableEq, Repr

/-- `errno` codes. -/
inductive Errno
  | ebadf
  | efault
  | eio
  | einval
  | enosys
  | erange
  | enoent
  | enomem
  | eisdir
  | emfile
  deriving DecidableEq, Repr

def Errno.code : Errno → ℤ
  | .ebadf => 9
  | .efault => 14
  | .eio => 5
  | .einval => 22
  | .enosys => 38
  | .erange => 34
  | .enoent => 2
  | .enomem => 12
  | .eisdir => 21
  | .emfile => 24

structure SyscallOutcome where
  value : ℤ
  action : SyscallAction
  deriving DecidableEq, Repr

namespace SyscallOutcome

def success (value : ℤ) : SyscallOutcome := ⟨value, .continue⟩

def errno (e : Errno) : SyscallOutcome := ⟨-e.code, .continue⟩

end SyscallOutcome

end Hxnu.Syscall
