import Hxnu.Syscall.ReadFile

/-!
# Reading through shared descriptors

An entry of the table of open files has one offset, and every descriptor that refers to the entry
reads from it: those of other processes, and those made by `dup` (`kernel/src/syscall.rs`). A read
copies to user memory first, which can fail, and moves the offset after that. So the entry is a
stream: whoever reads gets the bytes that no successful read has got before, in order.

## Main definitions

* `KeepsEntry`: an operation on other entries, or one that only counts descriptors of this one.
* `StreamEvent`, `StreamStep`: reads from an entry through any descriptor, and other operations.
* `streamed`: the bytes that reads have brought.
* `StreamInv`: the entry has delivered its content up to its offset.

## Main results

* `readFromFd_spec`: what a read does.
* `StreamInv.step`: every step keeps the invariant.
* `reads_are_a_stream`.
-/

namespace Hxnu.Syscall

open Sched Buffer Word Function List

/-! ### One read -/

section Read

variable {k : Kernel} {args : Args} {fd : ℤ} {i : Fin maxSystemFiles}

/-- A copy to user memory writes the bytes or nothing. -/
theorem copyout_cases (m : UserMemory) (source : List UInt8) (ptr : ℕ) :
    (∃ m', m.copyout source ptr = (.ok (), m') ∧
      (List.range source.length).map (fun j => m'.bytes (ptr + j)) = source) ∨
    ∃ e, m.copyout source ptr = (.error e, m) := by
  cases hvalid : validateUserRange ptr source.length with
  | error e => exact .inr ⟨e, UserMemory.copyout_of_error hvalid⟩
  | ok u =>
    obtain ⟨m', hcopy, hbytes⟩ := UserMemory.copyout_of_ok (m := m) hvalid
    refine .inl ⟨m', hcopy, ext_getElem (by simp) fun j hj hj' => ?_⟩
    rw [List.getElem_map, List.getElem_range, hbytes,
      if_pos ⟨Nat.le_add_right _ _, Nat.add_lt_add_left hj' _⟩, Nat.add_sub_cancel_left,
      getD_eq_getElem _ _ hj']

/-- A read brings the next bytes and moves the offset behind them, or it fails and changes neither
the table nor memory. -/
theorem readFromFd_spec (hfd : parseFd (args 0) = .ok fd)
    (hentry : descriptor k.table fd = some i.val) (hcount : (args 2 : ℕ) ≤ maxReadBytes)
    (hfile : k.files i = file) (hused : file.isUsed = true)
    (hlength : file.content.length ≤ maxContentBytes)
    (hn : n = min (args 2 : ℕ) (file.content.length - file.offset)) :
    ∃ out k', readFromFd k args = .ok (out, k') ∧
      (out = .success n ∧ k'.files = update k.files i { file with
          offset := file.offset + n } ∧
        (List.range n).map (fun j => k'.memory.bytes (args 1 + j)) =
          slice file.content file.offset n ∨
      ∃ e, out = .errno e ∧ k'.files = k.files ∧ k'.memory.bytes = k.memory.bytes) := by
  have hindex : fileIndex i.val = .ok i := fileIndex_eq_ok.mpr rfl
  have hnothing (hn : n = 0) : ∃ out k', k.answer (.success 0) = .ok (out, k') ∧
      (out = .success n ∧ k'.files = update k.files i { file with
          offset := file.offset + n } ∧
        (List.range n).map (fun j => k'.memory.bytes (args 1 + j)) =
          slice file.content file.offset n ∨
      ∃ e, out = .errno e ∧ k'.files = k.files ∧ k'.memory.bytes = k.memory.bytes) := by
    refine ⟨_, k, rfl, .inl ⟨by rw [hn]; rfl, ?_, by rw [hn, slice]; rfl⟩⟩
    rw [hn, Nat.add_zero, ← hfile]
    exact (update_eq_self i k.files).symm
  rw [readFromFd, hfd]
  simp only [readOpenFile, hentry, hindex, bind, Except.bind, hfile]
  rw [if_neg (not_lt.mpr hcount), if_neg (by rw [hused]; simp), ← hn]
  split_ifs with hzero hend
  · exact hnothing (by omega)
  · exact hnothing hend
  · have hslice : (slice file.content file.offset n).length = n := length_slice (by omega)
    obtain ⟨m, hcopy, hbytes⟩ | ⟨e, hcopy⟩ :=
      copyout_cases k.memory (slice file.content file.offset n) (args 1)
    · rw [hslice] at hbytes
      rw [hcopy]
      refine ⟨_, _, rfl, .inl ⟨rfl, ?_, hbytes⟩⟩
      rw [maxContentBytes] at hlength
      rw [satAdd_of_lt (by omega)]
      rfl
    · rw [hcopy]
      exact ⟨_, _, rfl, .inr ⟨e.asErrno, rfl, rfl, rfl⟩⟩

end Read

/-! ### Runs -/

/-- What an operation leaves of an entry: it stays open, with its content and its offset. The number
of its descriptors may change. -/
structure KeepsEntry (i : Fin maxSystemFiles) (k k' : Kernel) : Prop where
  isUsed : (k'.files i).isUsed = (k.files i).isUsed
  content : (k'.files i).content = (k.files i).content
  offset : (k'.files i).offset = (k.files i).offset

/-- A read with its number of bytes, its outcome and the bytes that are then in the buffer, or
another operation. -/
inductive StreamEvent
  | read (count : ℕ) (outcome : SyscallOutcome) (bytes : List UInt8)
  | other

/-- A step of the system, seen from the entry `i`: the running process reads through a descriptor
that refers to the entry, or something happens that keeps it. A switch to another process is of the
second kind. -/
inductive StreamStep (i : Fin maxSystemFiles) : Kernel → StreamEvent → Kernel → Prop
  | read {k k' : Kernel} {args : Args} {fd : ℤ} {out : SyscallOutcome}
      (hfd : parseFd (args 0) = .ok fd) (hentry : descriptor k.table fd = some i.val)
      (hcount : (args 2 : ℕ) ≤ maxReadBytes) (hread : readFromFd k args = .ok (out, k')) :
      StreamStep i k (.read (args 2) out
        ((List.range out.value.toNat).map fun j => k'.memory.bytes (args 1 + j))) k'
  | other {k k' : Kernel} (h : KeepsEntry i k k') : StreamStep i k .other k'

/-- The bytes of an event. -/
def StreamEvent.bytes : StreamEvent → List UInt8
  | .read _ _ bytes => bytes
  | .other => []

/-- The bytes that reads have brought, in order. -/
def streamed (events : List StreamEvent) : List UInt8 := events.flatMap StreamEvent.bytes

/-- Duplicating a descriptor of the entry is an operation that keeps it. -/
theorem sysDup_keepsEntry (h : sysDup k args = .ok (out, k')) (i : Fin maxSystemFiles) :
    KeepsEntry i k k' := by
  rw [sysDup] at h
  split at h
  · cases h
    exact ⟨rfl, rfl, rfl⟩
  split at h
  · cases h
    exact ⟨rfl, rfl, rfl⟩
  rw [Fallible.bind_eq_ok] at h
  obtain ⟨j, -, h⟩ := h
  cases h
  have hfile {α : Type} (p : OpenFile → α) (hp : ∀ f : OpenFile, p f.retain = p f) :
      p (update k.files j (k.files j).retain i) = p (k.files i) := by
    rw [update_apply]
    split_ifs with hij
    · rw [hp, hij]
    · rfl
  have hretain (f : OpenFile) : f.retain.isUsed = f.isUsed ∧ f.retain.content = f.content ∧
      f.retain.offset = f.offset := by
    rw [OpenFile.retain]
    split_ifs <;> exact ⟨rfl, rfl, rfl⟩
  exact ⟨hfile _ fun f => (hretain f).1, hfile _ fun f => (hretain f).2.1,
    hfile _ fun f => (hretain f).2.2⟩

/-- The entry `i` is open with content `c` and has delivered `bytes`. -/
structure StreamInv (i : Fin maxSystemFiles) (c bytes : List UInt8) (k : Kernel) : Prop where
  isUsed : (k.files i).isUsed = true
  content : (k.files i).content = c
  offset : (k.files i).offset = bytes.length
  delivered : bytes <+: c

section Runs

variable {i : Fin maxSystemFiles} {c bytes : List UInt8} {k k' : Kernel} {event : StreamEvent}

/-- A read is as the stream says, and every step keeps the stream. -/
theorem StreamInv.step (h : StreamInv i c bytes k) (hlength : c.length ≤ maxContentBytes)
    (hstep : StreamStep i k event k') :
    StreamInv i c (bytes ++ event.bytes) k' ∧
      ∀ count out got, event = .read count out got → 0 ≤ out.value →
        out.value = got.length ∧ got.length = min count (c.length - bytes.length) := by
  cases hstep with
  | other hkeeps =>
    rw [StreamEvent.bytes, append_nil]
    exact ⟨⟨hkeeps.isUsed.trans h.isUsed, hkeeps.content.trans h.content,
      hkeeps.offset.trans h.offset, h.delivered⟩, nofun⟩
  | @read _ args fd out hfd hentry hcount hread =>
    have hgot (got : List UInt8) : StreamEvent.bytes (.read (args 2) out got) = got := rfl
    obtain ⟨out', k'', hread', hcases⟩ := readFromFd_spec hfd hentry hcount rfl h.isUsed
      (by rw [h.content]; exact hlength) rfl
    rw [hread] at hread'
    obtain ⟨rfl, rfl⟩ := Prod.mk.inj (Except.ok.inj hread')
    rw [h.content, h.offset] at hcases
    obtain ⟨rfl, hfiles, hbytes⟩ | ⟨e, rfl, hfiles, -⟩ := hcases
    · have hvalue : (SyscallOutcome.success
          (min (args 2 : ℕ) (c.length - bytes.length) : ℕ)).value.toNat =
            min (args 2 : ℕ) (c.length - bytes.length) := Int.toNat_natCast _
      rw [hgot, hvalue, hbytes]
      generalize hn : min (args 2 : ℕ) (c.length - bytes.length) = n at *
      have hle : bytes.length ≤ c.length := h.delivered.length_le
      have hslice : (slice c bytes.length n).length = n := length_slice (by omega)
      refine ⟨⟨?_, ?_, ?_, ?_⟩, ?_⟩
      · rw [hfiles, update_self]
        exact h.isUsed
      · rw [hfiles, update_self]
      · rw [hfiles, update_self, length_append, hslice]
      · nth_rewrite 1 [prefix_iff_eq_take.mp h.delivered]
        rw [take_append_slice]
        exact take_prefix _ _
      · rintro count out got heq -
        cases heq
        exact ⟨congrArg Nat.cast hslice.symm, hslice.trans hn.symm⟩
    · have hnone : (SyscallOutcome.errno e).value.toNat = 0 := by
        cases e <;> rfl
      rw [hgot, hnone, range_zero, map_nil, append_nil]
      refine ⟨⟨by rw [hfiles]; exact h.isUsed, by rw [hfiles]; exact h.content,
        by rw [hfiles]; exact h.offset, h.delivered⟩, ?_⟩
      rintro count out got heq hnonneg
      cases heq
      cases e <;> exact absurd hnonneg (by decide)

/-- The stream along a run, with what each of its reads got. -/
theorem StreamInv.run (h : StreamInv i c bytes k) (hlength : c.length ≤ maxContentBytes)
    (hrun : Run (StreamStep i) k events k') :
    StreamInv i c (bytes ++ streamed events) k' ∧
      ∀ before count out got after, events = before ++ .read count out got :: after →
        0 ≤ out.value → out.value = got.length ∧
          got.length = min count (c.length - (bytes ++ streamed before).length) := by
  induction hrun generalizing bytes with
  | nil k =>
    refine ⟨?_, fun before count out got after hsplit => ?_⟩
    · rw [streamed, flatMap_nil, append_nil]
      exact h
    · exact absurd hsplit (by simp)
  | @cons k k₁ k' event events hstep _ ih =>
    obtain ⟨hinv, hread⟩ := h.step hlength hstep
    obtain ⟨hfinal, hreads⟩ := ih hinv
    have hassoc (l : List StreamEvent) :
        bytes ++ event.bytes ++ streamed l = bytes ++ streamed (event :: l) := by
      rw [streamed, streamed, flatMap_cons, append_assoc]
    rw [hassoc] at hfinal
    refine ⟨hfinal, fun before count out got after hsplit hnonneg => ?_⟩
    cases before with
    | nil =>
      rw [streamed, flatMap_nil, append_nil]
      exact hread count out got (List.cons.inj hsplit).1 hnonneg
    | cons first before =>
      obtain ⟨rfl, hrest⟩ := List.cons.inj hsplit
      rw [← hassoc]
      exact hreads before count out got after hrest hnonneg

/-- **An open file is a stream.** Any number of reads, through any descriptors of any processes that
refer to an entry with offset 0, of which some may fail, are mixed with operations that keep the
entry. The bytes that the successful reads bring are together a prefix of its content. A successful
read brings as many bytes as it asks for, or all that are left. In every state that is reached, a
read returns; if it fails, neither the table nor memory has changed, and it never changes another
entry. -/
theorem reads_are_a_stream {events : List StreamEvent} (hused : (k.files i).isUsed = true)
    (hoffset : (k.files i).offset = 0) (hlength : (k.files i).content.length ≤ maxContentBytes)
    (hrun : Run (StreamStep i) k events k') :
    streamed events <+: (k.files i).content ∧
    (∀ before count out got after, events = before ++ .read count out got :: after →
      0 ≤ out.value → out.value = got.length ∧
        got.length = min count ((k.files i).content.length - (streamed before).length)) ∧
    ∀ (args : Args) (fd : ℤ), parseFd (args 0) = .ok fd → descriptor k'.table fd = some i.val →
      (args 2 : ℕ) ≤ maxReadBytes → ∃ out k'', readFromFd k' args = .ok (out, k'') ∧
        (out.value < 0 → k''.files = k'.files ∧ k''.memory.bytes = k'.memory.bytes) ∧
        ∀ j ≠ i, k''.files j = k'.files j := by
  have hinv : StreamInv i (k.files i).content [] k := ⟨hused, rfl, hoffset, nil_prefix⟩
  obtain ⟨hfinal, hreads⟩ := hinv.run hlength hrun
  refine ⟨hfinal.delivered, hreads, fun args fd hfd hentry hcount => ?_⟩
  obtain ⟨out, k'', hread, hcases⟩ := readFromFd_spec hfd hentry hcount rfl hfinal.isUsed
    (by rw [hfinal.content]; exact hlength) rfl
  refine ⟨out, k'', hread, ?_⟩
  obtain ⟨rfl, hfiles, -⟩ | ⟨e, rfl, hfiles, hbytes⟩ := hcases
  · refine ⟨fun hneg => absurd hneg (not_lt.mpr (Int.natCast_nonneg _)), fun j hj => ?_⟩
    rw [hfiles, update_of_ne hj]
  · exact ⟨fun _ => ⟨hfiles, hbytes⟩, fun j _ => by rw [hfiles]⟩

end Runs

/-- A process whose descriptor 3 refers to an open file of three bytes. -/
def streamKernel : Kernel where
  sched := { Scheduler.new with
    currentSlot := some 0
    threads := fun _ => { Thread.empty with fdTable := fun fd => if fd = 3 then some 0 else none } }
  files := fun _ => ⟨true, 1, [], 0, [1, 2, 3]⟩
  memory := ⟨fun _ => 0, []⟩

/-- A read of two bytes to `0x1000`. -/
theorem reads_are_a_stream_two_bytes : ∃ events k', Run (StreamStep 0) streamKernel events k' ∧
    streamed events = [1, 2] ∧ streamed events <+: [1, 2, 3] := by
  let args : Args := ![3, 0x1000, 2, 0, 0, 0]
  obtain ⟨⟨out, k'⟩, hread, rfl, hbytes⟩ := Fallible.exists_of_decide
    (x := readFromFd streamKernel args) (Q := fun r => r.1 = .success 2 ∧
      (List.range 2).map (fun j => r.2.memory.bytes (0x1000 + j)) = [1, 2]) (by decide +kernel)
  have hstep := StreamStep.read (i := 0) (rfl : parseFd (args 0) = .ok 3) (by decide +kernel)
    (by decide) hread
  have hrun := Run.single hstep
  refine ⟨_, k', hrun, ?_, (reads_are_a_stream rfl rfl (by decide) hrun).1⟩
  rw [streamed, flatMap_singleton]
  exact hbytes

end Hxnu.Syscall
