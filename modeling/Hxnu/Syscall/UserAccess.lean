import Hxnu.Lib.Buffer
import Hxnu.Syscall.Basic

/-!
# Access to user memory

The copies between the kernel and a process of `kernel/src/uaccess.rs`, and the helpers for them in
`kernel/src/syscall.rs`. The memory of the process is seen through its page table, byte by byte at
virtual addresses. Page faults are not modelled.

A copy checks its range first. The check accepts every canonical address, also those of the kernel
half. To speak about what is copied, memory keeps a record of the ranges that were accessed.

## Main definitions

* `UserMemory`: bytes by virtual address, and the ranges accessed so far.
* `validateUserRange`, `UserMemory.copyin`, `UserMemory.copyout`.
* `UserMemory.copyinCString`: a path or an argument, up to its zero byte.
-/

namespace Hxnu.Syscall

open Word

def lowCanonicalMax : ℕ := 2 ^ 47 - 1

def highCanonicalMin : ℕ := 2 ^ 64 - 2 ^ 47

def maxCopyBytes : ℕ := 2 ^ 20

inductive UserCopyError
  | nullPointer
  | rangeOverflow
  | nonCanonical
  | tooLarge
  deriving DecidableEq, Repr

/-- `as_errno`, which is also `map_uaccess_error`. -/
def UserCopyError.asErrno : UserCopyError → Errno
  | .nullPointer | .rangeOverflow | .nonCanonical => .efault
  | .tooLarge => .erange

def isCanonicalAddress (address : ℕ) : Bool :=
  decide (address ≤ lowCanonicalMax) || decide (highCanonicalMin ≤ address)

def validateUserRange (start len : ℕ) : Except UserCopyError Unit :=
  if maxCopyBytes < len then .error .tooLarge
  else if len = 0 then .ok ()
  else if start = 0 then .error .nullPointer
  else
    match checkedAdd start (len - 1) with
    | none => .error .rangeOverflow
    | some last =>
      if isCanonicalAddress start = false ∨ isCanonicalAddress last = false then
        .error .nonCanonical
      else .ok ()

/-- The memory of a process, and the ranges `(start, length)` that copies have read or written, the
latest first. -/
structure UserMemory where
  bytes : ℕ → UInt8
  accesses : List (ℕ × ℕ)

namespace UserMemory

/-- Note an access, unless it is empty. -/
def access (m : UserMemory) (start len : ℕ) : UserMemory :=
  if len = 0 then m else { m with accesses := (start, len) :: m.accesses }

/-- `copyin` of `len` bytes. -/
def copyin (m : UserMemory) (userPtr len : ℕ) : Except UserCopyError (List UInt8) × UserMemory :=
  match validateUserRange userPtr len with
  | .error e => (.error e, m)
  | .ok () => (.ok ((List.range len).map fun i => m.bytes (userPtr + i)), m.access userPtr len)

def copyout (m : UserMemory) (source : List UInt8) (userPtr : ℕ) :
    Except UserCopyError Unit × UserMemory :=
  match validateUserRange userPtr source.length with
  | .error e => (.error e, m)
  | .ok () => (.ok (), { m.access userPtr source.length with
      bytes := fun x => if userPtr ≤ x ∧ x < userPtr + source.length then
        source.getD (x - userPtr) 0 else m.bytes x })

theorem copyout_of_ok {m : UserMemory} {source : List UInt8} {ptr : ℕ}
    (h : validateUserRange ptr source.length = .ok ()) :
    ∃ m', m.copyout source ptr = (.ok (), m') ∧
      ∀ x, m'.bytes x = if ptr ≤ x ∧ x < ptr + source.length then source.getD (x - ptr) 0
        else m.bytes x := by
  rw [copyout, h]
  exact ⟨_, rfl, fun x => rfl⟩

theorem copyout_of_error {m : UserMemory} {source : List UInt8} {ptr : ℕ} {e : UserCopyError}
    (h : validateUserRange ptr source.length = .error e) :
    m.copyout source ptr = (.error e, m) := by
  rw [copyout, h]

/-- The loop of `copyin_c_string` for the remaining `n` bytes of the buffer, from `index` on. -/
def copyinCStringFrom (m : UserMemory) (ptr index : ℕ) :
    ℕ → Except Errno (List UInt8) × UserMemory
  | 0 => (.error .erange, m)
  | n + 1 =>
    match checkedAdd ptr index with
    | none => (.error .erange, m)
    | some address =>
      match m.copyin address 1 with
      | (.error e, m) => (.error e.asErrno, m)
      | (.ok bytes, m) =>
        if bytes.headD 0 = 0 then (.ok [], m)
        else
          match copyinCStringFrom m ptr (index + 1) n with
          | (.error e, m) => (.error e, m)
          | (.ok rest, m) => (.ok (bytes.headD 0 :: rest), m)

/-- `copyin_c_string` with a buffer of `n` bytes: the bytes before the zero byte. -/
def copyinCString (m : UserMemory) (ptr n : ℕ) : Except Errno (List UInt8) × UserMemory :=
  m.copyinCStringFrom ptr 0 n

end UserMemory

end Hxnu.Syscall
