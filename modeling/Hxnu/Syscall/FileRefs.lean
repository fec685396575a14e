import Hxnu.Lib.RefCount
import Hxnu.Syscall.Files

/-!
# Descriptors as references

The table of open files, seen as reference counts: a handle is a descriptor of a thread slot, and it
refers to an entry of the table. This file says what each call does to the references. A call that
opens a file takes a free entry for a free descriptor, `dup` shares an entry, `close` drops a
reference, and `dup2` drops one and shares another.

## Main definitions

* `Kernel.refs`: the references.
* `RefChange`: what a call may do to them.
* `FileCall.drops`: the descriptors that a call closes or replaces.

## Main results

* `FileCall.exec_called`: what every call does to the references.
-/

namespace Hxnu.Syscall

open Sched Fs RefCount Word Function

/-- A descriptor of a thread slot. -/
abbrev Handle : Type := Slot × Fin maxProcessFds

/-- The references, with the path and the content of each entry. -/
abbrev FileRefs : Type := Refs Handle ℕ (List UInt8 × List UInt8)

def OpenFile.data (f : OpenFile) : List UInt8 × List UInt8 := (f.path, f.content)

namespace Kernel

variable {k : Kernel} {c : Slot} {i : Fin maxSystemFiles} {fd : Fin maxProcessFds}

/-- An entry by its index; indices beyond the table stand for entries that are never used. -/
def entry (k : Kernel) (index : ℕ) : OpenFile :=
  if h : index < maxSystemFiles then k.files ⟨index, h⟩ else .empty

def refs (k : Kernel) : FileRefs where
  ref := uncurry k.sched.fdTables
  used := OpenFile.isUsed ∘ k.entry
  count := OpenFile.refCount ∘ k.entry
  data := OpenFile.data ∘ k.entry

theorem entry_val (k : Kernel) (i : Fin maxSystemFiles) : k.entry i = k.files i :=
  dif_pos i.isLt

theorem setFile_entry (k : Kernel) (i : Fin maxSystemFiles) (f : OpenFile) :
    (k.setFile i f).entry = update k.entry i f := by
  funext index
  by_cases hindex : index < maxSystemFiles
  · simp only [entry, dif_pos hindex, setFile, update_apply, Fin.ext_iff]
  · have hne : index ≠ i := fun heq => hindex (heq ▸ i.isLt)
    rw [update_of_ne hne, entry, entry, dif_neg hindex, dif_neg hindex]

@[simp] theorem setTable_entry (table : FdTable) : (k.setTable table).entry = k.entry := rfl

@[simp] theorem setMemory_refs (m : UserMemory) : (k.setMemory m).refs = k.refs := rfl

/-- A change of an entry that keeps what the references look at. -/
theorem setFile_refs_of_eq (hused : f.isUsed = (k.files i).isUsed)
    (hcount : f.refCount = (k.files i).refCount) (hdata : f.data = (k.files i).data) :
    (k.setFile i f).refs = k.refs := by
  rw [← entry_val] at hused hcount hdata
  refine Refs.ext rfl ?_ ?_ ?_
  · simp only [refs, setFile_entry, comp_update, hused]
    exact update_eq_self (i : ℕ) _
  · simp only [refs, setFile_entry, comp_update, hcount]
    exact update_eq_self (i : ℕ) _
  · simp only [refs, setFile_entry, comp_update, hdata]
    exact update_eq_self (i : ℕ) _

theorem table_of_current (hc : k.sched.currentSlot = some c) (fd : Fin maxProcessFds) :
    k.table fd = k.refs.ref (c, fd) := by
  rw [table, Scheduler.getFdTable_of_some hc]
  rfl

/-- Writing back a table changes the references of the current thread. -/
theorem setTable_refs (hc : k.sched.currentSlot = some c) (table : FdTable) :
    (k.setTable table).refs =
      { k.refs with ref := fun h => if h.1 = c then table h.2 else k.refs.ref h } := by
  refine Refs.ext ?_ rfl rfl rfl
  funext h
  change (k.sched.setFdTable table).fdTables h.1 h.2 = _
  rw [Scheduler.setFdTable_of_some hc, update_apply]
  split_ifs with hslot
  · simp only [if_pos hslot]
  · simp only [if_neg hslot]
    rfl

/-- Writing back the table after an edit of one descriptor. -/
theorem setTable_update_refs (hc : k.sched.currentSlot = some c) (fd : Fin maxProcessFds)
    (target : Option ℕ) :
    (k.setTable (update k.table fd target)).refs = k.refs.setRef (c, fd) target := by
  rw [setTable_refs hc]
  refine Refs.ext ?_ rfl rfl rfl
  funext h
  obtain ⟨slot, fd'⟩ := h
  simp only [Refs.setRef, update_apply, Prod.mk.injEq, table_of_current hc]
  by_cases hslot : slot = c
  · simp only [hslot, if_true, true_and]
  · simp only [hslot, if_false, false_and]

/-- Giving back a reference to an entry. -/
theorem release_refs (i : Fin maxSystemFiles) :
    (k.modifyFile i .release).refs = k.refs.release i := by
  have hused : k.refs.used i = (k.files i).isUsed := congrArg OpenFile.isUsed (entry_val k i)
  have hcount : k.refs.count i = (k.files i).refCount := congrArg OpenFile.refCount (entry_val k i)
  rw [modifyFile, OpenFile.release, Refs.release, hused, hcount]
  split_ifs with h₁ h₂
  · refine Refs.ext rfl ?_ ?_ ?_
    · simp only [refs, setFile_entry, comp_update, ← entry_val]
      exact update_eq_self (i : ℕ) _
    · simp only [refs, setFile_entry, comp_update]
    · simp only [refs, setFile_entry, comp_update, OpenFile.data, ← entry_val]
      exact update_eq_self (i : ℕ) (OpenFile.data ∘ k.entry)
  · refine Refs.ext rfl ?_ ?_ ?_
    · simp only [refs, setFile_entry, comp_update]
    · simp only [refs, setFile_entry, comp_update, ← entry_val]
      exact update_eq_self (i : ℕ) _
    · simp only [refs, setFile_entry, comp_update, OpenFile.data, ← entry_val]
      exact update_eq_self (i : ℕ) (OpenFile.data ∘ k.entry)
  · exact setFile_refs_of_eq rfl rfl rfl

/-- A free entry for a descriptor. -/
theorem alloc_refs (hc : k.sched.currentSlot = some c) (i : Fin maxSystemFiles)
    (fd : Fin maxProcessFds) (path content : List UInt8) :
    ((k.setFile i ⟨true, 1, path, 0, content⟩).setTable
      (update k.table fd (some i))).refs = k.refs.alloc (c, fd) i (path, content) := by
  have htable : (k.setFile i ⟨true, 1, path, 0, content⟩).table = k.table := rfl
  rw [← htable, setTable_update_refs (k := k.setFile i _) hc]
  refine Refs.ext rfl ?_ ?_ ?_ <;>
    simp only [Refs.setRef, Refs.alloc, refs, setFile_entry, comp_update, OpenFile.data]

/-- One more descriptor for an entry. -/
theorem share_refs (hc : k.sched.currentSlot = some c) (i : Fin maxSystemFiles)
    (fd : Fin maxProcessFds) :
    ((k.modifyFile i .retain).setTable (update k.table fd (some i))).refs =
      k.refs.share (wrapAdd · 1) (c, fd) i := by
  have htable : (k.modifyFile i .retain).table = k.table := rfl
  have hused : k.refs.used i = (k.files i).isUsed := congrArg OpenFile.isUsed (entry_val k i)
  rw [← htable, setTable_update_refs (k := k.modifyFile i .retain) hc, modifyFile, OpenFile.retain,
    Refs.share, hused]
  split_ifs with h
  · refine Refs.ext rfl ?_ ?_ ?_
    · simp only [Refs.setRef, refs, setFile_entry, comp_update, ← entry_val]
      exact update_eq_self (i : ℕ) _
    · simp only [Refs.setRef, refs, setFile_entry, comp_update, ← entry_val]
      rfl
    · simp only [Refs.setRef, refs, setFile_entry, comp_update, OpenFile.data, ← entry_val]
      exact update_eq_self (i : ℕ) (OpenFile.data ∘ k.entry)
  · rw [setFile_refs_of_eq rfl rfl rfl]
    rfl

end Kernel

/-! ### What calls do -/

/-- The handles of a slot. -/
def handles (c : Slot) (fds : List (Fin maxProcessFds)) : List Handle := fds.map (c, ·)

/-- What a call by the thread in slot `c` may do to the references: it drops some handles, and then
gives free descriptors fresh entries or entries that another descriptor has. -/
inductive RefChange (c : Slot) (r : FileRefs) (fds : List (Fin maxProcessFds)) : FileRefs → Prop
  | dropped (hnodup : fds.Nodup) : RefChange c r fds (r.dropAll (handles c fds))
  | opened {r' : FileRefs} (h : RefChange c r fds r') (fd : Fin maxProcessFds) (i : ℕ)
      (data : List UInt8 × List UInt8) (hfd : r'.ref (c, fd) = none) (hi : r'.used i = false)
      (hlt : i < maxSystemFiles) : RefChange c r fds (r'.alloc (c, fd) i data)
  | shared {r' : FileRefs} (h : RefChange c r fds r') (fd old : Fin maxProcessFds) (i : ℕ)
      (hfd : r'.ref (c, fd) = none) (hold : r'.ref (c, old) = some i) :
      RefChange c r fds (r'.share (wrapAdd · 1) (c, fd) i)

theorem RefChange.kept : RefChange c r [] r := .dropped List.nodup_nil

section Calls

variable {vfs : Vfs} {k k' : Kernel} {args : Args} {c : Slot} {out : SyscallOutcome}

theorem fileIndex_eq_ok : fileIndex index = .ok i ↔ index = i := by
  rw [fileIndex]
  split_ifs with h
  · rw [Except.ok.injEq, Fin.ext_iff]
  · exact ⟨nofun, fun heq => absurd (heq ▸ i.isLt) h⟩

theorem freeFd_eq_some (h : freeFd table start = some fd) : start ≤ fd ∧ table fd = none := by
  have hfd := (Ring.first_eq_some_iff.mp h).1
  simpa using hfd

theorem freeFile_eq_some {files : Fin maxSystemFiles → OpenFile} {start : ℕ}
    {i : Fin maxSystemFiles} (h : freeFile files start = some i) :
    start ≤ i ∧ (files i).isUsed = false := by
  have hi := (Ring.first_eq_some_iff.mp h).1
  simpa using hi

/-- A call by the thread in slot `c` that drops the descriptors `fds`. Of the threads, it changes
only the descriptor table of the caller. -/
structure Called (c : Slot) (fds : List (Fin maxProcessFds)) (k k' : Kernel) : Prop where
  refs : RefChange c k.refs fds k'.refs
  sched : ∃ table, k'.sched = k.sched.setFdTable table

theorem Called.same (hrefs : k'.refs = k.refs) (hsched : k'.sched = k.sched) : Called c [] k k' :=
  ⟨hrefs ▸ .kept, k.sched.getFdTable, hsched.trans k.sched.setFdTable_getFdTable.symm⟩

theorem Called.setMemory (h : Called c fds k k') (m : UserMemory) :
    Called c fds k (k'.setMemory m) := ⟨h.refs, h.sched⟩

/-- The caller goes on after the call, unless it panics, and the call is one that drops `fds`. -/
def Returns (c : Slot) (fds : List (Fin maxProcessFds)) (k : Kernel) (h : Handled) : Prop :=
  ∀ r, h = .ok r → r.1.action = .continue ∧ Called c fds k r.2

namespace Returns

variable {fds : List (Fin maxProcessFds)}

theorem of_called (haction : r.1.action = .continue) (h : Called c fds k r.2) :
    Returns c fds k (.ok r) := by
  intro _ hr
  cases hr
  exact ⟨haction, h⟩

theorem errno (e : Errno) : Returns c [] k (k.answer (.errno e)) := of_called rfl (.same rfl rfl)

theorem success (value : ℤ) : Returns c [] k (k.answer (.success value)) :=
  of_called rfl (.same rfl rfl)

theorem bind {α : Type} {x : Except Panic α} {f : α → Handled}
    (h : ∀ a, x = .ok a → Returns c fds k (f a)) : Returns c fds k (x >>= f) := by
  intro r hr
  obtain ⟨a, hx, ha⟩ := Fallible.bind_eq_ok.mp hr
  exact h a hx r ha

/-- The file of a descriptor is looked up. -/
theorem fileIndex {index : ℕ} {f : Fin maxSystemFiles → Handled}
    (h : ∀ i : Fin maxSystemFiles, index = i → Returns c fds k (f i)) :
    Returns c fds k (Syscall.fileIndex index >>= f) :=
  bind fun i hi => h i (fileIndex_eq_ok.mp hi)

/-- Copying a record to the user changes only memory. -/
theorem copyoutStruct (h : Called c fds k k') (ptr : ℕ) (bytes : List UInt8) :
    Returns c fds k (.ok (copyoutStruct k' ptr bytes)) := by
  rw [Syscall.copyoutStruct]
  split
  · exact of_called rfl (h.setMemory _)
  · exact of_called rfl (h.setMemory _)

end Returns

/-! ### Opening -/

theorem allocOpenFile_called (hc : k.sched.currentSlot = some c) (path content : List UInt8) :
    Called c [] k (allocOpenFile k path content).2 := by
  rw [allocOpenFile]
  cases hfd : freeFd k.table 3 with
  | none => exact .same rfl rfl
  | some fd =>
    cases hi : freeFile k.files 0 with
    | none => exact .same rfl rfl
    | some i =>
      have hnone : k.refs.ref (c, fd) = none := by
        rw [← Kernel.table_of_current hc]
        exact (freeFd_eq_some hfd).2
      have hunused : k.refs.used i = false :=
        (congrArg OpenFile.isUsed (k.entry_val i)).trans (freeFile_eq_some hi).2
      refine ⟨?_, _, rfl⟩
      simp only [Kernel.alloc_refs hc]
      exact .opened .kept fd i _ hnone hunused i.isLt

theorem toOutcome_action (result : Except Errno ℤ) : (toOutcome result).action = .continue := by
  cases result <;> rfl

theorem openPathAt_returns (vfs : Vfs) (hc : k.sched.currentSlot = some c) (dirfd : ℤ)
    (pathPtr flags : ℕ) : Returns c [] k (.ok (openPathAt vfs k dirfd pathPtr flags)) := by
  rw [openPathAt]
  split_ifs
  · exact .errno _
  split
  · exact .of_called rfl (.same rfl rfl)
  rename_i m _
  have hsame : Called c [] k (k.setMemory m) := .same rfl rfl
  unfold openResolved
  split_ifs
  · exact .of_called rfl hsame
  split
  · exact .of_called rfl hsame
  split_ifs
  · exact .of_called rfl hsame
  split
  · exact .of_called rfl hsame
  split
  · exact .of_called rfl hsame
  obtain ⟨hrefs, hsched⟩ := allocOpenFile_called (k := k.setMemory m) hc _ _
  exact .of_called (toOutcome_action _) ⟨hrefs, hsched⟩

/-- The two ends of a pipe, one after the other. -/
theorem pipe_refs (hc : k.sched.currentSlot = some c) (r w : Fin maxSystemFiles)
    (rFd wFd : Fin maxProcessFds) (p q : List UInt8) :
    (((k.setFile r (pipeEnd p)).setFile w (pipeEnd q)).setTable
        (update (update k.table rFd (some r)) wFd (some w))).refs =
      (k.refs.alloc (c, rFd) r (p, [])).alloc (c, wFd) w (q, []) := by
  let k₁ := (k.setFile r (pipeEnd p)).setTable (update k.table rFd (some r))
  have hc₁ : k₁.sched.currentSlot = some c := (Scheduler.currentSlot_setFdTable _).trans hc
  have htable : k₁.table = update k.table rFd (some r) := by
    funext fd
    rw [Kernel.table_of_current hc₁, Kernel.setTable_refs (k := k.setFile r (pipeEnd p)) hc]
    exact if_pos rfl
  have hread : k₁.refs = k.refs.alloc (c, rFd) r (p, []) := Kernel.alloc_refs hc r rFd p []
  rw [← hread, ← Kernel.alloc_refs hc₁ w wFd q [], htable]
  have hsched : ((k.sched.setFdTable (update k.table rFd (some ↑r))).setFdTable
      (update (update k.table rFd (some ↑r)) wFd (some ↑w))) =
        k.sched.setFdTable (update (update k.table rFd (some ↑r)) wFd (some ↑w)) :=
    Scheduler.setFdTable_setFdTable _ _
  simp only [Kernel.setTable, Kernel.setFile, pipeEnd, k₁, hsched]

theorem sysPipe_returns (args : Args) (hc : k.sched.currentSlot = some c) :
    Returns c [] k (.ok (sysPipe k args)) := by
  rw [sysPipe]
  split
  · exact .errno _
  rename_i r hr
  split
  · exact .errno _
  rename_i w hw
  split
  · exact .errno _
  rename_i rFd hrFd
  split
  · exact .errno _
  rename_i wFd hwFd
  have hne : (w : ℕ) ≠ r := by
    have hle := (freeFile_eq_some hw).1
    omega
  have hneFd : wFd ≠ rFd := by
    have hle := (freeFd_eq_some hwFd).1
    intro heq
    rw [heq] at hle
    omega
  have halloc : RefChange c k.refs [] (k.refs.alloc (c, rFd) r (Text.ascii "pipe:read", [])) := by
    refine .opened .kept rFd r _ ?_ ?_ r.isLt
    · rw [← Kernel.table_of_current hc]
      exact (freeFd_eq_some hrFd).2
    · exact (congrArg OpenFile.isUsed (k.entry_val r)).trans (freeFile_eq_some hr).2
  refine .copyoutStruct ⟨?_, _, rfl⟩ _ _
  rw [pipe_refs hc]
  refine .opened halloc wFd w _ ?_ ?_ w.isLt
  · change update k.refs.ref (c, rFd) (some ↑r) (c, wFd) = none
    rw [update_of_ne fun heq => hneFd (congrArg Prod.snd heq),
      ← Kernel.table_of_current hc]
    exact (freeFd_eq_some hwFd).2
  · change update k.refs.used r true w = false
    rw [update_of_ne hne]
    exact (congrArg OpenFile.isUsed (k.entry_val w)).trans (freeFile_eq_some hw).2

/-! ### Reading -/

theorem readOpenFile_returns (fd : ℤ) (ptr count : ℕ) :
    Returns c [] k (readOpenFile k fd ptr count) := by
  rw [readOpenFile]
  split
  · exact .errno _
  refine .fileIndex fun i _ => ?_
  simp only
  split_ifs
  · exact .errno _
  · exact .success _
  · exact .success _
  split
  · exact .of_called rfl (.same rfl rfl)
  · rename_i m _
    exact .of_called rfl (.same (Kernel.setFile_refs_of_eq (k := k.setMemory m) rfl rfl rfl) rfl)

theorem readFromFd_returns (args : Args) : Returns c [] k (readFromFd k args) := by
  rw [readFromFd]
  split
  · exact .errno _
  split_ifs
  · exact .errno _
  · exact readOpenFile_returns _ _ _

/-- The loop over a directory moves the offset and writes memory. -/
theorem direntLoop_called (i : Fin maxSystemFiles) (dirp count : ℕ) (lines : List (List UInt8))
    (written current : ℕ) (k : Kernel) :
    (direntLoop i dirp count lines written current k).1.action = .continue ∧
      (direntLoop i dirp count lines written current k).2.refs = k.refs ∧
      (direntLoop i dirp count lines written current k).2.sched = k.sched := by
  induction lines generalizing written current k with
  | nil => exact ⟨rfl, rfl, rfl⟩
  | cons line lines ih =>
    rw [direntLoop]
    simp only
    split_ifs
    · exact ih written current k
    · exact ⟨rfl, rfl, rfl⟩
    · split
      · exact ⟨rfl, rfl, rfl⟩
      · rename_i m _
        obtain ⟨haction, hrefs, hsched⟩ := ih (written + direntReclen (Text.trim line))
          (current + line.length + 1) ((k.setMemory m).modifyFile i fun f =>
            { f with offset := current + line.length + 1 })
        exact ⟨haction, hrefs.trans (Kernel.setFile_refs_of_eq (k := k.setMemory m) rfl rfl rfl),
          hsched⟩

theorem sysGetdents64_returns (args : Args) : Returns c [] k (sysGetdents64 k args) := by
  rw [sysGetdents64]
  split
  · exact .errno _
  refine .fileIndex fun i _ => ?_
  simp only
  split_ifs
  · exact .errno _
  · exact .success _
  · exact .errno _
  · obtain ⟨haction, hrefs, hsched⟩ := direntLoop_called i (args 1) (args 2)
      (Text.lines ((k.files i).content.drop (k.files i).offset)) 0 (k.files i).offset k
    exact .of_called haction (.same hrefs hsched)

theorem sysLseek_returns (args : Args) : Returns c [] k (sysLseek k args) := by
  rw [sysLseek]
  split
  · exact .errno _
  refine .fileIndex fun i _ => ?_
  simp only
  split_ifs
  · exact .errno _
  split
  · exact .errno _
  split_ifs
  · exact .errno _
  · exact .of_called rfl (.same (Kernel.setFile_refs_of_eq rfl rfl rfl) rfl)

theorem sysIoctl_returns (args : Args) : Returns c [] k (sysIoctl k args) := by
  rw [sysIoctl]
  split
  · exact .errno _
  refine .fileIndex fun i _ => ?_
  split_ifs
  · exact .errno _
  · exact .success _

theorem sysFstat_returns (args : Args) : Returns c [] k (.ok (sysFstat k args)) := by
  rw [sysFstat]
  split
  · exact .errno _
  · exact .copyoutStruct (.same rfl rfl) _ _

/-! ### Closing and sharing -/

section

variable (hc : k.sched.currentSlot = some c)

include hc

theorem closeOpenFile_returns (fd : ℤ) : Returns c (fdIndex fd).toList k (closeOpenFile k fd) := by
  rw [closeOpenFile]
  split
  · rename_i hfd
    rw [hfd]
    exact .errno _
  rename_i fd' hfd
  rw [hfd]
  have hdrop : RefChange c k.refs [fd'] (k.refs.drop (c, fd')) :=
    .dropped (List.nodup_singleton fd')
  split
  · rename_i hnone
    rw [Kernel.table_of_current hc] at hnone
    rw [Refs.drop_of_none hnone] at hdrop
    exact .of_called rfl ⟨hdrop, _, k.sched.setFdTable_getFdTable.symm⟩
  · rename_i index hsome
    refine .fileIndex fun i hi => ?_
    subst hi
    rw [Kernel.table_of_current hc] at hsome
    refine .of_called rfl ⟨?_, _, rfl⟩
    rw [Kernel.release_refs, Kernel.setTable_update_refs hc, Refs.release_setRef,
      ← Refs.drop_of_some hsome]
    exact hdrop

/-- The descriptor that `close` closes. -/
def closedFds (args : Args) : List (Fin maxProcessFds) :=
  if (args 0 : ℕ) < 2 ^ 31 then (fdIndex (args 0 : ℕ)).toList else []

theorem closeFd_returns (args : Args) : Returns c (closedFds args) k (closeFd k args) := by
  rw [closeFd, parseFd, closedFds]
  split_ifs
  · exact closeOpenFile_returns hc _
  · exact .errno _

theorem sysDup_returns (args : Args) : Returns c [] k (sysDup k args) := by
  rw [sysDup]
  split
  · exact .errno _
  rename_i index hold
  split
  · exact .errno _
  rename_i newFd hnew
  refine .fileIndex fun i hi => ?_
  subst hi
  obtain ⟨oldFd, -, hold⟩ := Option.bind_eq_some_iff.mp hold
  rw [Kernel.table_of_current hc] at hold
  refine .of_called rfl ⟨?_, _, rfl⟩
  rw [Kernel.share_refs hc]
  refine .shared .kept newFd oldFd i ?_ hold
  rw [← Kernel.table_of_current hc]
  exact (freeFd_eq_some hnew).2

theorem releaseReplaced_refs
    (h : releaseReplaced k newFd = .ok k') : k'.refs.setRef (c, newFd) none =
      k.refs.drop (c, newFd) ∧ k'.sched = k.sched := by
  rw [releaseReplaced, Kernel.table_of_current hc] at h
  split at h
  · rename_i hnone
    cases h
    rw [Refs.drop_of_none hnone, ← hnone]
    exact ⟨Refs.ext (update_eq_self _ _) rfl rfl rfl, rfl⟩
  · rename_i index hsome
    rw [Fallible.bind_eq_ok] at h
    obtain ⟨i, hi, h⟩ := h
    rw [fileIndex_eq_ok] at hi
    subst hi
    cases h
    rw [Refs.drop_of_some hsome, Kernel.release_refs]
    exact ⟨rfl, rfl⟩

/-- The descriptor that `dup2` replaces. -/
def replacedFds (k : Kernel) (args : Args) : List (Fin maxProcessFds) :=
  match fdIndex (asI32 (args 0)), fdIndex (asI32 (args 1)) with
  | some oldFd, some newFd => if oldFd = newFd ∨ k.table oldFd = none then [] else [newFd]
  | _, _ => []

theorem sysDup2_returns (args : Args) : Returns c (replacedFds k args) k (sysDup2 k args) := by
  rw [sysDup2, replacedFds]
  cases hold : fdIndex (asI32 (args 0)) with
  | none => exact .errno _
  | some oldFd => ?_
  cases hnew : fdIndex (asI32 (args 1)) with
  | none => exact .errno _
  | some newFd => ?_
  simp only
  by_cases heq : oldFd = newFd
  · rw [if_pos heq, if_pos (.inl heq)]
    exact .success _
  cases hindex : k.table oldFd with
  | none =>
    rw [if_neg heq, if_pos (.inr rfl)]
    exact .errno _
  | some index => ?_
  rw [if_neg heq, if_neg (not_or.mpr ⟨heq, by simp⟩)]
  refine .bind fun k₁ hrelease => .fileIndex fun i hi => ?_
  subst hi
  obtain ⟨hdrop, hsched⟩ := releaseReplaced_refs hc hrelease
  have hc₁ : k₁.sched.currentSlot = some c := by rw [hsched, hc]
  have htable : k.table = k₁.table := by rw [Kernel.table, Kernel.table, hsched]
  rw [Kernel.table_of_current hc] at hindex
  rw [htable]
  refine .of_called rfl ⟨?_, update k₁.table newFd (some i), ?_⟩
  · rw [Kernel.share_refs hc₁, ← Refs.share_setRef _ _ none, hdrop]
    refine .shared (.dropped (List.nodup_singleton newFd)) newFd oldFd i ?_ ?_
    · exact (Refs.drop_ref _ _).trans (if_pos rfl)
    · refine (Refs.drop_ref _ _).trans ?_
      rw [if_neg fun h => heq (congrArg Prod.snd h)]
      exact hindex
  · change k₁.sched.setFdTable _ = _
    rw [hsched]

end

/-! ### Ending -/

/-- One descriptor of the purge. -/
theorem purgeFd_refs (hc : s.2.sched.currentSlot = some c) (h : purgeFd s fd = .ok s') :
    (s'.2.setTable s'.1).refs = (s.2.setTable s.1).refs.drop (c, fd) ∧
      s'.2.sched = s.2.sched := by
  obtain ⟨table, k⟩ := s
  have href : (k.setTable table).refs.ref (c, fd) = table fd := by
    rw [Kernel.setTable_refs hc]
    exact if_pos rfl
  rw [purgeFd] at h
  split at h
  · rename_i hnone
    cases h
    exact ⟨(Refs.drop_of_none (href.trans hnone)).symm, rfl⟩
  · rename_i index hsome
    rw [Fallible.bind_eq_ok] at h
    obtain ⟨i, hi, h⟩ := h
    rw [fileIndex_eq_ok] at hi
    subst hi
    cases h
    refine ⟨?_, rfl⟩
    have hrelease : (k.setTable table).refs.release i = { k.refs.release i with
        ref := fun h => if h.1 = c then table h.2 else k.refs.ref h } := by
      rw [Kernel.setTable_refs hc]
      exact Refs.release_of_refs _ _
    rw [Refs.drop_of_some (href.trans hsome), hrelease,
      Kernel.setTable_refs (k := k.modifyFile i .release) hc, Kernel.release_refs]
    refine Refs.ext ?_ rfl rfl rfl
    funext h
    obtain ⟨slot, fd'⟩ := h
    simp only [Refs.setRef, update_apply, Prod.mk.injEq, Refs.release_ref]
    by_cases hslot : slot = c
    · simp only [hslot, if_true, true_and]
    · simp only [hslot, if_false, false_and]

/-- The purge drops the descriptors it goes through. -/
theorem purgeFds_refs {fds : List (Fin maxProcessFds)} {s s' : FdTable × Kernel}
    (hc : s.2.sched.currentSlot = some c) (h : fds.foldlM purgeFd s = .ok s') :
    (s'.2.setTable s'.1).refs = (s.2.setTable s.1).refs.dropAll (handles c fds) ∧
      s'.2.sched = s.2.sched := by
  induction fds generalizing s with
  | nil =>
    cases h
    exact ⟨rfl, rfl⟩
  | cons fd fds ih =>
    rw [List.foldlM_cons, Fallible.bind_eq_ok] at h
    obtain ⟨s₁, hfirst, hrest⟩ := h
    obtain ⟨hrefs, hsched⟩ := purgeFd_refs hc hfirst
    obtain ⟨hrefs', hsched'⟩ := ih (by rw [hsched, hc]) hrest
    exact ⟨by rw [hrefs', hrefs]; rfl, hsched'.trans hsched⟩

theorem nodup_purgedFds : purgedFds.Nodup := (List.nodup_finRange _).filter _

theorem purgeOpenFilesForProcess_refs (hc : k.sched.currentSlot = some c)
    (h : purgeOpenFilesForProcess k = .ok k') :
    k'.refs = k.refs.dropAll (handles c purgedFds) ∧
      ∃ table, k'.sched = k.sched.setFdTable table := by
  rw [purgeOpenFilesForProcess, Fallible.bind_eq_ok] at h
  obtain ⟨s, hfold, h⟩ := h
  obtain ⟨hrefs, hsched⟩ := purgeFds_refs (s := (k.table, k)) hc hfold
  have hsame : k.setTable k.table = k := by
    rw [Kernel.setTable, Kernel.table, Scheduler.setFdTable_getFdTable]
  rw [hsame] at hrefs
  cases h
  refine ⟨hrefs, s.1, ?_⟩
  change s.2.sched.setFdTable s.1 = _
  rw [hsched]

/-- The `exit_group` call: the descriptors are purged. -/
theorem exitGroup_refs (hc : k.sched.currentSlot = some c)
    (h : exitGroup k args = .ok (out, k')) :
    out.action = .exitGroup (asI32 (args 0)) ∧ k'.refs = k.refs.dropAll (handles c purgedFds) ∧
      ∃ table, k'.sched = k.sched.setFdTable table := by
  rw [exitGroup, Fallible.bind_eq_ok] at h
  obtain ⟨k₁, hpurge, h⟩ := h
  cases h
  exact ⟨rfl, purgeOpenFilesForProcess_refs hc hpurge⟩

/-- The descriptors of the caller that a call closes or replaces. -/
def FileCall.drops (k : Kernel) (args : Args) : FileCall → List (Fin maxProcessFds)
  | .close => closedFds args
  | .dup2 => replacedFds k args
  | .exitGroup => purgedFds
  | _ => []

/-- Only `exit_group` ends the caller. -/
theorem FileCall.exec_returns {call : FileCall} (hcall : call ≠ .exitGroup)
    (hc : k.sched.currentSlot = some c) :
    Returns c (call.drops k args) k (call.exec vfs k args) := by
  cases call with
  | «open» => exact openPathAt_returns vfs hc _ _ _
  | openat => exact openPathAt_returns vfs hc _ _ _
  | read => exact readFromFd_returns args
  | close => exact closeFd_returns hc args
  | fstat => exact sysFstat_returns args
  | getdents64 => exact sysGetdents64_returns args
  | lseek => exact sysLseek_returns args
  | ioctl => exact sysIoctl_returns args
  | pipe => exact sysPipe_returns args hc
  | dup => exact sysDup_returns hc args
  | dup2 => exact sysDup2_returns hc args
  | exitGroup => exact absurd rfl hcall

/-- **What a call does to the references.** -/
theorem FileCall.exec_called {call : FileCall} (hc : k.sched.currentSlot = some c)
    (h : call.exec vfs k args = .ok (out, k')) : Called c (call.drops k args) k k' := by
  by_cases hcall : call = .exitGroup
  · subst hcall
    obtain ⟨-, hrefs, hsched⟩ := exitGroup_refs hc h
    exact ⟨hrefs ▸ .dropped nodup_purgedFds, hsched⟩
  · exact (FileCall.exec_returns hcall hc _ h).2

end Calls

end Hxnu.Syscall
