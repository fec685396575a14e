import Hxnu.Hsched.Ring
import Hxnu.Syscall.Basic

/-!
# Polling for a hardware task

`sys_heterexec_poll` takes a task for completed when its number is not greater than the head of the
ring. Numbers are given to all submissions, positions only to those that are accepted: after a
rejected submission the two counters are apart, and a task that has been taken from the ring is
reported as pending until as many later tasks have been taken.

Calls that run one after another are the runs of a single thread.

## Main definitions

* `sysHeterexecSubmit`, `asymmetricIrqHandler`: what is submitted.
* `sysHeterexecPoll`.
* `submissions`, `rejections`: the submissions so far.

## Main results

* `Counted.step`: what the numbers of the tasks are.
* `poll_tells_taken_iff`: when a poll tells whether the task has been taken.
* `poll_denies_taken_task`: a poll that does not.
-/

namespace Hxnu.Hsched

open TicketRing Syscall List

/-- The workload that `sys_heterexec_submit` submits. -/
def sysHeterexecSubmit (args : Args) : WorkloadType :=
  .directTarget (UInt8.ofNat ((args 0).val &&& 0xFF))

/-- The workload that interrupt `0x81` submits. -/
def asymmetricIrqHandler : WorkloadType := .gpuCompute

def sysHeterexecPoll {ι : Type*} (s : HeterogeneousScheduler ι) (args : Args) : SyscallOutcome :=
  let taskId := (args 0).val % 2 ^ 32
  if taskId = 0 then .success (asI64 (s.head * 2 ^ 32 % 2 ^ 64 ||| s.tail % 2 ^ 32))
  else .success (if taskId ≤ s.head then 1 else 0)

/-! ### Numbers -/

/-- The submissions so far. -/
def submissions (log : List RingEvent) : ℕ :=
  log.countP fun event => match event with
    | .begun _ => true
    | _ => false

/-- The submissions that were rejected. -/
def rejections (log : List RingEvent) : ℕ :=
  log.countP fun event => match event with
    | .full _ => true
    | _ => false

/-- The task of a submission that is neither accepted nor rejected yet. -/
def Pc.pending : Pc → Option HardwareTask
  | .loadTail task => some task
  | .loadSequence task _ => some task
  | .exchangeTail task _ => some task
  | _ => none

/-- What a step does to the pending submission of its thread. -/
inductive Submits {ι : Type*} (s s' : HeterogeneousScheduler ι) (i : ι) : Option RingEvent → Prop
  | other {e : Option RingEvent} (hpending : (s'.pc i).pending = (s.pc i).pending)
      (hid : s'.nextId = s.nextId) (hbegun : submissions e.toList = 0)
      (hfull : rejections e.toList = 0) (hclaim : claims e.toList = []) : Submits s s' i e
  | begun (task : HardwareTask) (hidle : (s.pc i).pending = none)
      (hpending : (s'.pc i).pending = some task) (htask : task.id = s.nextId)
      (hid : s'.nextId = s.nextId + 1) : Submits s s' i (some (.begun task))
  | full (pos : ℕ) {task : HardwareTask} (hidle : (s.pc i).pending = some task)
      (hpending : (s'.pc i).pending = none) (hid : s'.nextId = s.nextId) :
      Submits s s' i (some (.full pos))
  | claimed {task : HardwareTask} (hidle : (s.pc i).pending = some task)
      (hpending : (s'.pc i).pending = none) (hid : s'.nextId = s.nextId) :
      Submits s s' i (some (.claimed s.tail task))

section Steps

variable {ι : Type*} [DecidableEq ι] {s s' : HeterogeneousScheduler ι} {i : ι} {act : Act}
  {e : Option RingEvent}

theorem operate_submits (fails : Bool) (hpc : s.pc i = pc) :
    Submits s (operate s i fails pc).1 i (operate s i fails pc).2 := by
  cases pc with
  | fetchId target =>
    refine .begun _ ?_ ?_ rfl rfl
    · rw [hpc]
      rfl
    · simp [operate, Pc.pending]
  | loadSequence task pos =>
    rw [operate]
    split_ifs with hzero hneg
    · exact .other (by simp [hpc, Pc.pending]) rfl rfl rfl rfl
    · exact .full pos (by rw [hpc]; rfl) (by simp [Pc.pending]) rfl
    · exact .other (by simp [hpc, Pc.pending]) rfl rfl rfl rfl
  | exchangeTail task pos =>
    rw [operate]
    split_ifs with hwins
    · obtain ⟨rfl, -⟩ := hwins
      exact .claimed (by rw [hpc]; rfl) (by simp [Pc.pending]) rfl
    · exact .other (by simp [hpc, Pc.pending]) rfl rfl rfl rfl
  | loadTicket | exchangeHead =>
    rw [operate]
    split_ifs <;> exact .other (by simp [hpc, Pc.pending]) rfl rfl rfl rfl
  | idle | loadTail _ | storeData _ _ | storeSequence _ _ | loadHead | loadData _
  | storeTicket _ _ =>
    exact .other (by simp [operate, hpc, Pc.pending]) rfl rfl rfl rfl

theorem step_submits (hstep : step s i act = some (s', e)) : Submits s s' i e := by
  cases act with
  | submitWorkload | dispatchPending =>
    rw [step, Option.ite_none_right_eq_some, Option.some.injEq, Prod.mk.injEq] at hstep
    obtain ⟨hidle, rfl, rfl⟩ := hstep
    exact .other (by simp [hidle, Pc.pending]) rfl rfl rfl rfl
  | go fails =>
    rw [step, Option.ite_none_left_eq_some, Option.some.injEq] at hstep
    obtain ⟨-, hoperate⟩ := hstep
    have hsubmits := operate_submits (s := s) (i := i) fails rfl
    rw [hoperate] at hsubmits
    exact hsubmits

end Steps

theorem submissions_append (l₁ l₂ : List RingEvent) :
    submissions (l₁ ++ l₂) = submissions l₁ + submissions l₂ := countP_append

theorem rejections_append (l₁ l₂ : List RingEvent) :
    rejections (l₁ ++ l₂) = rejections l₁ + rejections l₂ := countP_append

theorem claims_append (l₁ l₂ : List RingEvent) : claims (l₁ ++ l₂) = claims l₁ ++ claims l₂ :=
  filterMap_append

/-- The numbers of the tasks, in a run of one thread. -/
structure Counted (log : List RingEvent) (s : HeterogeneousScheduler Unit) : Prop where
  nextId : s.nextId.toNat = (1 + submissions log) % 2 ^ 32
  total : submissions log = (claims log).length + rejections log +
    if (s.pc ()).pending.isSome then 1 else 0
  pending : ∀ task, (s.pc ()).pending = some task → task.id.toNat = submissions log % 2 ^ 32
  claimed : ∀ l₁ l₂ pos task, log = l₁ ++ .claimed pos task :: l₂ → submissions log < 2 ^ 32 →
    task.id.toNat = pos + 1 + rejections l₁

namespace Counted

variable {log : List RingEvent} {s s' : HeterogeneousScheduler Unit} {e : Option RingEvent}

theorem new : Counted [] (HeterogeneousScheduler.new Unit) := by
  refine ⟨rfl, rfl, nofun, fun l₁ l₂ pos task heq => ?_⟩
  simp at heq

/-- The tasks that were accepted before a step keep their numbers. -/
theorem claimed_append (h : Counted log s) (hl : claims l = [])
    (heq : log ++ l = l₁ ++ .claimed pos task :: l₂) (hfew : submissions (log ++ l) < 2 ^ 32) :
    task.id.toNat = pos + 1 + rejections l₁ := by
  rw [submissions_append] at hfew
  rcases append_eq_append_iff.mp heq with ⟨l₃, rfl, hl₃⟩ | ⟨l₃, hlog, hl₃⟩
  · have hmem : (pos, task) ∈ claims l := by
      rw [hl₃]
      exact Event.mem_claims.mpr (by simp)
    rw [hl] at hmem
    cases hmem
  · cases l₃ with
    | nil =>
      have hmem : (pos, task) ∈ claims l := Event.mem_claims.mpr (by
        rw [nil_append] at hl₃
        simp [← hl₃])
      rw [hl] at hmem
      cases hmem
    | cons event l₃ =>
      rw [cons_append, List.cons.injEq] at hl₃
      obtain ⟨rfl, -⟩ := hl₃
      exact h.claimed l₁ l₃ pos task hlog (by omega)

/-- **The numbers after a step.** -/
theorem step (h : Counted log s) (htail : s.tail = (claims log).length)
    (hstep : Submits s s' () e) : Counted (log ++ e.toList) s' := by
  have hnext := h.nextId
  have htotal := h.total
  cases hstep with
  | other hpending hid hbegun hfull hclaim =>
    refine ⟨?_, ?_, fun task htask => ?_, fun l₁ l₂ pos task => h.claimed_append hclaim⟩
    · rw [submissions_append, hbegun, hid]
      exact hnext
    · rw [submissions_append, rejections_append, claims_append, hbegun, hfull, hclaim, hpending,
        append_nil]
      exact htotal
    · rw [submissions_append, hbegun]
      exact h.pending task (hpending ▸ htask)
  | begun task hidle hpending htask hid =>
    have hone : submissions [.begun task] = 1 := rfl
    refine ⟨?_, ?_, fun task' htask' => ?_, fun l₁ l₂ pos task => h.claimed_append rfl⟩
    · rw [Option.toList, submissions_append, hone, hid, UInt32.toNat_add, hnext]
      change ((1 + submissions log) % 2 ^ 32 + 1) % 2 ^ 32 = _
      omega
    · have hclaims : claims [.begun task] = [] := rfl
      have hzero : rejections [.begun task] = 0 := rfl
      rw [hidle] at htotal
      rw [Option.toList, submissions_append, rejections_append, claims_append, hone, hzero,
        hclaims, hpending, htotal, append_nil]
      rfl
    · rw [hpending, Option.some.injEq] at htask'
      rw [Option.toList, submissions_append, hone, ← htask', htask, hnext, Nat.add_comm]
  | full pos hidle hpending hid =>
    have hone : rejections [.full pos] = 1 := rfl
    refine ⟨?_, ?_, fun task' htask' => ?_, fun l₁ l₂ pos task => h.claimed_append rfl⟩
    · rw [Option.toList, submissions_append, hid]
      exact hnext
    · have hclaims : claims [.full pos] = [] := rfl
      have hzero : submissions [.full pos] = 0 := rfl
      rw [hidle, Option.isSome_some, if_pos rfl] at htotal
      rw [Option.toList, submissions_append, rejections_append, claims_append, hone, hzero,
        hclaims, hpending, htotal, append_nil]
      rfl
    · rw [hpending] at htask'
      cases htask'
  | @claimed task hidle hpending hid =>
    refine ⟨?_, ?_, fun task' htask' => ?_, fun l₁ l₂ pos task' heq hfew => ?_⟩
    · rw [Option.toList, submissions_append, hid]
      exact hnext
    · have hclaims : (claims [.claimed s.tail task]).length = 1 := rfl
      have hzero : submissions [.claimed s.tail task] = 0 := rfl
      have hzero' : rejections [.claimed s.tail task] = 0 := rfl
      rw [hidle, Option.isSome_some, if_pos rfl] at htotal
      rw [Option.toList, submissions_append, rejections_append, claims_append, length_append,
        hzero, hzero', hclaims, hpending, htotal, Option.isSome_none, if_neg nofun]
      omega
    · rw [hpending] at htask'
      cases htask'
    · rw [submissions_append] at hfew
      rcases eq_nil_or_concat l₂ with rfl | ⟨l₃, event, rfl⟩
      · obtain ⟨rfl, hlast⟩ := append_inj' heq rfl
        cases singleton_inj.mp hlast
        have hid := h.pending task hidle
        rw [hidle, Option.isSome_some, if_pos rfl] at htotal
        rw [hid, Nat.mod_eq_of_lt (by omega), htotal, htail]
        omega
      · have heq' : log ++ [.claimed s.tail task] = (l₁ ++ .claimed pos task' :: l₃) ++ [event] :=
          heq.trans (by simp)
        exact h.claimed l₁ l₃ pos task' (append_inj' heq' rfl).1 (by omega)

/-- Every accepted task was submitted. -/
theorem claims_le (h : Counted log s) : (claims log).length ≤ submissions log := by
  have htotal := h.total
  omega

/-- **The numbers in every run of one thread.** -/
theorem run {run : List (Label Unit)} (hrun : Run Stepped s run s') (htraced : Traced log s)
    (h : Counted log s) (hfew : submissions (log ++ events run) < 2 ^ 32) :
    Traced (log ++ events run) s' ∧ Counted (log ++ events run) s' := by
  induction hrun generalizing log with
  | nil s =>
    rw [events, flatMap_nil, append_nil]
    exact ⟨htraced, h⟩
  | @cons s t u a as hstep _ ih =>
    rw [events, flatMap_cons, ← append_assoc] at hfew ⊢
    have hearlier : (claims log).length ≤ 2 ^ 63 - 16 := by
      have hle := h.claims_le
      rw [append_assoc, submissions_append] at hfew
      omega
    exact ih (htraced.step hearlier hstep) (h.step htraced.tail_eq (step_submits hstep)) hfew

end Counted

/-! ### Polls -/

theorem sysHeterexecPoll_eq {ι : Type*} (s : HeterogeneousScheduler ι) {args : Args}
    {taskId : UInt32} (hargs : (args 0).val % 2 ^ 32 = taskId.toNat) (hne : taskId.toNat ≠ 0) :
    sysHeterexecPoll s args = .success (if taskId.toNat ≤ s.head then 1 else 0) := by
  rw [sysHeterexecPoll]
  simp only [hargs]
  rw [if_neg hne]

/-- **When a poll tells whether a task has been taken.** In every run of calls one after another
with fewer than `2 ^ 32` submissions, a poll for a task that was accepted at position `pos` is right
if and only if the head is not in the gap that the rejected submissions before it have left. -/
theorem poll_tells_taken_iff {run : List (Label Unit)} {s : HeterogeneousScheduler Unit}
    (hrun : Run Stepped (HeterogeneousScheduler.new Unit) run s)
    (hfew : submissions (events run) < 2 ^ 32) {l₁ l₂ : List RingEvent} {pos : ℕ}
    {task : HardwareTask} (hlog : events run = l₁ ++ .claimed pos task :: l₂) {args : Args}
    (hargs : (args 0).val % 2 ^ 32 = task.id.toNat) :
    (sysHeterexecPoll s args = .success 1 ↔ .won pos ∈ events run) ↔
      ¬ (pos < s.head ∧ s.head ≤ pos + rejections l₁) := by
  obtain ⟨htraced, hcounted⟩ := Counted.run hrun .new .new hfew
  obtain ⟨phase, value, -, hlogged⟩ := htraced
  have hid := hcounted.claimed l₁ l₂ pos task hlog hfew
  have hwon : .won pos ∈ events run ↔ pos < s.head := by
    rw [← Event.mem_wins, ← nil_append (events run), hlogged.wins, mem_range]
    rfl
  rw [sysHeterexecPoll_eq s hargs (by omega), hid, hwon]
  have hne : SyscallOutcome.success 0 ≠ .success 1 := by decide
  split_ifs with hle
  · simp only [true_iff]
    omega
  · simp only [hne, false_iff]
    omega

/-- Calls of one thread, each with the number of its operations. -/
def oneAfterAnother (calls : List (Act × ℕ)) : List (Unit × Act) :=
  calls.flatMap fun call => ((), call.1) :: List.replicate call.2 ((), .go false)

/-- The arguments of a system call with one argument. -/
def oneArg (arg : U64) : Args := fun k => if k = 0 then arg else 0

theorem poll_tells_taken_iff_first_task :
    ∃ run s l₁ l₂, Run Stepped (HeterogeneousScheduler.new Unit) run s ∧
      submissions (events run) < 2 ^ 32 ∧ events run = l₁ ++ .claimed 0 ⟨1, 1⟩ :: l₂ ∧
      ((sysHeterexecPoll s (oneArg 1) = .success 1 ↔ .won 0 ∈ events run) ↔
        ¬ (0 < s.head ∧ s.head ≤ 0 + rejections l₁)) := by
  have hperform : (perform (HeterogeneousScheduler.new Unit) (oneAfterAnother
      [(.submitWorkload (sysHeterexecSubmit (oneArg 1)), 6), (.dispatchPending, 6)])).any
      (fun r => decide (submissions (events r.2) < 2 ^ 32 ∧ .claimed 0 ⟨1, 1⟩ ∈ events r.2)) =
        true := by
    decide +kernel
  obtain ⟨⟨s, run⟩, hr, hfacts⟩ := (Option.any_eq_true _ _).mp hperform
  obtain ⟨hfew, hclaimed⟩ := of_decide_eq_true hfacts
  obtain ⟨l₁, l₂, hlog⟩ := append_of_mem hclaimed
  exact ⟨run, s, l₁, l₂, Run.of_perform hr, hfew, hlog,
    poll_tells_taken_iff (Run.of_perform hr) hfew hlog rfl⟩

/-- **A task that has been taken is denied.** Sixteen submissions fill the ring and that of an
interrupt is rejected. When all tasks have been taken, the next submission gets number 18 at position
16; it is taken as well, and a poll for 18 returns 0. -/
theorem poll_denies_taken_task :
    ∃ run s, Run Stepped (HeterogeneousScheduler.new Unit) run s ∧ s.pc () = .idle ∧
      submissions (events run) = 18 ∧ .claimed 16 ⟨18, 0⟩ ∈ events run ∧
      .published 16 ∈ events run ∧ .won 16 ∈ events run ∧
      sysHeterexecPoll s (oneArg 18) = .success 0 := by
  have hperform : (perform (HeterogeneousScheduler.new Unit) (oneAfterAnother
      (List.replicate 16 (.submitWorkload (sysHeterexecSubmit (oneArg 0)), 6) ++
        [(.submitWorkload asymmetricIrqHandler, 3), (.dispatchPending, 66),
          (.submitWorkload (sysHeterexecSubmit (oneArg 0)), 6), (.dispatchPending, 6)]))).any
      (fun r => decide (r.1.pc () = .idle ∧ submissions (events r.2) = 18 ∧
        .claimed 16 ⟨18, 0⟩ ∈ events r.2 ∧ .published 16 ∈ events r.2 ∧ .won 16 ∈ events r.2 ∧
        sysHeterexecPoll r.1 (oneArg 18) = .success 0)) = true := by
    decide +kernel
  obtain ⟨⟨s, run⟩, hr, hfacts⟩ := (Option.any_eq_true _ _).mp hperform
  exact ⟨run, s, Run.of_perform hr, of_decide_eq_true hfacts⟩

end Hxnu.Hsched
