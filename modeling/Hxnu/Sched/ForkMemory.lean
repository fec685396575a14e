import Hxnu.Mm.CloneSpace
import Hxnu.Sched.Safety

/-!
# A fork without memory

`fork_current_thread` of `kernel/src/sched.rs` together with `clone_space`, which it calls after the
thread was counted. The root of the copy is the only frame whose absence is reported: every later
allocation is unwrapped.

## Main definitions

* `Scheduler.forkCurrentThreadIn`: the fork in a physical memory; nothing if it panics.
* `ClonesShort`: an allocation of `clone_space` finds no frame.
* `FailsCleanly`: the fork reports an error and leaves the thread table as it was.

## Main results

* `forkCurrentThreadIn_of_short`: what happens when memory runs out.
* `fork_fails_cleanly_iff`: a fork without memory fails cleanly only if it does not get as far as
  `clone_space`.
-/

namespace Hxnu.Sched

open Word Arch Mm.Vmm

/-- `fork_current_thread` with the physical memory that `clone_space` works in; nothing if it
panics. `cr3` is the page table of the running thread. -/
def Scheduler.forkCurrentThreadIn (s : Scheduler) (m : PhysicalMemory) (cr3 : ℕ) :
    Option (Except SchedulerError ℕ × Scheduler × PhysicalMemory) :=
  if s.initialized = false ∨ s.currentSlot = none then some (.error .threadTableFull, s, m)
  else
    match Ring.first fun slot : Slot => (s.threads slot).state == .unused with
    | none => some (.error .threadTableFull, s, m)
    | some _ =>
      (cloneSpace m cr3).map fun (newCr3, m) =>
        ((s.forkCurrentThread newCr3).1, (s.forkCurrentThread newCr3).2, m)

/-- One of the allocations of `clone_space` finds no frame: the one of the root, or a later one. -/
def ClonesShort (m : PhysicalMemory) (cr3 : ℕ) : Prop :=
  match m.frames.allocate with
  | (none, _) => True
  | (some child, frames) =>
    cloneEntries kernelHigherHalfStart 3 cr3 child (copyRoot { m with frames } cr3 child) = none

/-- The fork reports an error, and the thread table, the number of threads and the run queues are
those from before. -/
def FailsCleanly (s : Scheduler) (m : PhysicalMemory) (cr3 : ℕ) : Prop :=
  ∃ e s' m', s.forkCurrentThreadIn m cr3 = some (.error e, s', m') ∧ s'.threads = s.threads ∧
    s'.threadCount = s.threadCount ∧ s'.runqueues = s.runqueues ∧
    s'.runqueueBitmap = s.runqueueBitmap

theorem threadCount_addThread_ne (s : Scheduler) : s.addThread.threadCount ≠ s.threadCount := by
  change (s.threadCount + 1) % 2 ^ 64 ≠ s.threadCount
  omega

section Short

variable {s : Scheduler} {m : PhysicalMemory} {cr3 : ℕ}

/-- Without memory, `clone_space` returns `0` or panics. -/
theorem cloneSpace_of_short (h : ClonesShort m cr3) :
    (∃ m', cloneSpace m cr3 = some (0, m')) ∨ cloneSpace m cr3 = none := by
  rw [ClonesShort] at h
  split at h
  · next frames hallocate =>
      rw [cloneSpace, hallocate]
      exact .inl ⟨_, rfl⟩
  · next child frames hallocate =>
      rw [cloneSpace, hallocate]
      exact .inr (congrArg (Option.map _) h)

variable (hinit : s.initialized = true) (hcurrent : s.currentSlot ≠ none) {slot : Slot}
  (hunused : (s.threads slot).state = .unused)

include hunused in
theorem exists_unused :
    ∃ childSlot, (Ring.first fun slot : Slot => (s.threads slot).state == .unused) =
      some childSlot := by
  refine Option.ne_none_iff_exists'.mp fun hnone => ?_
  have hused := Ring.first_eq_none_iff.mp hnone slot
  rw [hunused] at hused
  cases hused

include hinit hcurrent hunused

/-- The fork gets as far as `clone_space`. -/
theorem forkCurrentThreadIn_eq : s.forkCurrentThreadIn m cr3 =
    (cloneSpace m cr3).map fun (newCr3, m) =>
      ((s.forkCurrentThread newCr3).1, (s.forkCurrentThread newCr3).2, m) := by
  have hguard : ¬ (s.initialized = false ∨ s.currentSlot = none) := by
    rintro (hfalse | hnone)
    · rw [hinit] at hfalse
      cases hfalse
    · exact hcurrent hnone
  obtain ⟨childSlot, hchild⟩ := exists_unused hunused
  rw [Scheduler.forkCurrentThreadIn, if_neg hguard, hchild]

/-- Without a root for the child, the thread stays counted. -/
theorem forkCurrentThread_zero :
    s.forkCurrentThread 0 = (.error .threadTableFull, s.addThread) := by
  obtain ⟨parentSlot, hparent⟩ := Option.ne_none_iff_exists'.mp hcurrent
  obtain ⟨childSlot, hchild⟩ := exists_unused hunused
  simp only [Scheduler.forkCurrentThread, hinit, hparent, hchild, Bool.true_eq_false, if_false,
    if_true]

/-- **A fork that runs out of memory** has counted a thread and reports an error, or panics. -/
theorem forkCurrentThreadIn_of_short (hshort : ClonesShort m cr3) :
    (∃ m', s.forkCurrentThreadIn m cr3 = some (.error .threadTableFull, s.addThread, m')) ∨
      s.forkCurrentThreadIn m cr3 = none := by
  rw [forkCurrentThreadIn_eq hinit hcurrent hunused]
  rcases cloneSpace_of_short hshort with ⟨m', hclone⟩ | hclone
  · refine .inl ⟨m', ?_⟩
    simp only [hclone, Option.map_some, forkCurrentThread_zero hinit hcurrent hunused]
  · exact .inr (congrArg (Option.map _) hclone)

end Short

/-- **When a fork without memory fails cleanly.** For every state with a current thread and every
memory in which an allocation of `clone_space` fails, at whichever point: the fork leaves the thread
table, the number of threads and the run queues alone and reports an error exactly if it is over
before it calls `clone_space`. -/
theorem fork_fails_cleanly_iff {s : Scheduler} (hcurrent : s.currentSlot ≠ none)
    (m : PhysicalMemory) (cr3 : ℕ) :
    (ClonesShort m cr3 → FailsCleanly s m cr3) ↔
      ¬ (ClonesShort m cr3 ∧ s.initialized = true ∧ ∃ slot, (s.threads slot).state = .unused) := by
  constructor
  · rintro hclean ⟨hshort, hinit, slot, hunused⟩
    obtain ⟨e, s', m', heq, -, hcount, -⟩ := hclean hshort
    rcases forkCurrentThreadIn_of_short hinit hcurrent hunused hshort with ⟨m'', hfork⟩ | hfork
    · rw [hfork] at heq
      cases heq
      exact threadCount_addThread_ne s hcount
    · rw [hfork] at heq
      cases heq
  · intro hnot hshort
    refine ⟨.threadTableFull, s, m, ?_, rfl, rfl, rfl, rfl⟩
    rw [Scheduler.forkCurrentThreadIn]
    by_cases hinit : s.initialized = false ∨ s.currentSlot = none
    · exact if_pos hinit
    · have hinit' : s.initialized = true := Bool.not_eq_false _ ▸ fun h => hinit (.inl h)
      have hused : (Ring.first fun slot : Slot => (s.threads slot).state == .unused) = none := by
        refine Ring.first_eq_none_iff.mpr fun slot => ?_
        rw [beq_eq_false_iff_ne]
        exact fun hunused => hnot ⟨hshort, hinit', slot, hunused⟩
      rw [if_neg hinit, hused]

/-- The memory of a parent with one page, without a free frame. -/
def noFrames : PhysicalMemory := { oneParent with frames := ⟨true, 0x200000, 0x100000, 256, []⟩ }

/-- The memory of a parent with one page, with a free frame for the root of the child only. -/
def oneFrame : PhysicalMemory :=
  { oneParent with
    frames := ⟨true, 0x200000, 0x100000, 255, [⟨0x200000, 0x300000, 0x2ff000⟩]⟩ }

theorem clonesShort_noFrames : ClonesShort noFrames 0x1000 := trivial

theorem clonesShort_oneFrame :
    ClonesShort oneFrame 0x1000 ∧ cloneSpace oneFrame 0x1000 = none := by
  have hnone : (cloneEntries kernelHigherHalfStart 3 0x1000 0x2ff000 (copyRoot
      { oneFrame with frames := (oneFrame.frames.allocate).2 } 0x1000 0x2ff000)).isNone = true := by
    decide +kernel
  have hallocate : oneFrame.frames.allocate = (some 0x2ff000, oneFrame.frames.allocate.2) := by
    decide +kernel
  rw [Option.isNone_iff_eq_none] at hnone
  rw [ClonesShort, cloneSpace, hallocate]
  exact ⟨hnone, congrArg (Option.map _) hnone⟩

/-- A full table: the fork is over before it needs memory. -/
theorem fork_fails_cleanly_full_table :
    FailsCleanly { Scheduler.new with
      initialized := true
      currentSlot := some 0
      threads := fun _ => { Thread.empty with state := .runnable } } noFrames 0x1000 := by
  refine (fork_fails_cleanly_iff (Option.some_ne_none 0) noFrames 0x1000).mpr ?_
    clonesShort_noFrames
  rintro ⟨-, -, slot, hunused⟩
  cases hunused

/-- The first user thread forks. Without a frame, the fork reports an error and has counted a fifth
thread; with one frame, the kernel panics. -/
theorem fork_without_memory_counts_or_panics : ∃ s r, bootstrap examplePlatform 3 = .ok s ∧
    Reachable (Step examplePlatform fun r op => userRuns r op = true) (.start s) r ∧
    r.sched.currentSlot ≠ none ∧
    (ClonesShort noFrames 0x1000 ∧ ∃ s' m', r.sched.forkCurrentThreadIn noFrames 0x1000 =
        some (.error .threadTableFull, s', m') ∧ s'.threadCount ≠ r.sched.threadCount) ∧
    (ClonesShort oneFrame 0x1000 ∧ r.sched.forkCurrentThreadIn oneFrame 0x1000 = none) := by
  obtain ⟨s, r, hs, hr, hinit, hcurrent, hunused⟩ := exists_of_evaluate examplePlatform 3 userRuns
    [.createUserThread 0x2000, .initialContextPair]
    (Q := fun r => r.sched.initialized = true ∧ r.sched.currentSlot = some 2 ∧
      (r.sched.threads 3).state = .unused) (by decide +kernel)
  have hne : r.sched.currentSlot ≠ none := hcurrent ▸ Option.some_ne_none 2
  refine ⟨s, r, hs, hr, hne, ⟨clonesShort_noFrames, r.sched.addThread, noFrames, ?_,
    threadCount_addThread_ne _⟩, clonesShort_oneFrame.1, ?_⟩
  · have hclone : cloneSpace noFrames 0x1000 = some (0, noFrames) := rfl
    rw [forkCurrentThreadIn_eq hinit hne hunused, hclone]
    simp only [Option.map_some, forkCurrentThread_zero hinit hne hunused]
  · rw [forkCurrentThreadIn_eq hinit hne hunused, clonesShort_oneFrame.2]
    rfl

end Hxnu.Sched
