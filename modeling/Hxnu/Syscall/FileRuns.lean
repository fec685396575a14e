import Hxnu.Lib.Run
import Hxnu.Sched.Safety
import Hxnu.Syscall.FileRefs

/-!
# Runs of calls on open files

Threads make calls in any order, and between two calls the scheduler does what it likes as long as it
leaves the descriptor tables alone. A process ends by the `exit_group` call, which purges its
descriptors, or by a fatal exception, which does not. A fork copies the table of the parent without
counting the new references.

## Main definitions

* `FileEvent`, `FileStep`: what happens, and what it does.
* `Scheduled`: what the scheduler may do between two calls.
* `Booted`: the state after boot.
* `FileRun`: the runs whose events meet a condition.

## Main results

* `Scheduled.of_op`: what the scheduler does between calls is of this kind.
* `FileStep.change`: what an event does to the references.
* `openFiles_exact`: without forks, the counts of the open files are exact.
-/

namespace Hxnu.Syscall

open Sched Fs RefCount Word Function

/-! ### What a change of the references keeps -/

namespace RefChange

variable {c : Slot} {r r' : FileRefs} {fds : List (Fin maxProcessFds)} {h : Handle} {i : ℕ}

/-- **Counts stay exact.** The number of handles is far from where a count would wrap. -/
theorem exact (hchange : RefChange c r fds r') (hr : r.Exact) : r'.Exact := by
  induction hchange with
  | dropped => exact hr.dropAll _
  | opened _ fd i data hfd hi _ ih => exact ih.alloc hfd hi data
  | shared _ fd old i hfd hold ih =>
    refine ih.share hfd hold fun n hn => ?_
    have hcard : Fintype.card Handle = 512 := by
      rw [Fintype.card_prod, Fintype.card_fin, Fintype.card_fin]
      rfl
    rw [hcard] at hn
    exact wrapAdd_of_lt (by omega)

theorem nodup (hchange : RefChange c r fds r') : fds.Nodup := by
  induction hchange with
  | dropped hnodup => exact hnodup
  | opened _ _ _ _ _ _ _ ih => exact ih
  | shared _ _ _ _ _ _ ih => exact ih

theorem nodup_handles (hnodup : fds.Nodup) : (handles c fds).Nodup :=
  hnodup.map fun _ _ heq => congrArg Prod.snd heq

section

variable (hchange : RefChange c r fds r') (hr : r.NoDangling) (hsafe : r.SafeDrop (handles c fds))

include hchange hr hsafe

/-- **No handle dangles** after a change that drops handles safely. -/
theorem noDangling : r'.NoDangling := by
  induction hchange with
  | dropped hnodup => exact (hr.dropAll_iff (nodup_handles hnodup)).mpr hsafe
  | opened _ fd i data _ _ _ ih => exact ih.alloc _ _ _
  | shared _ fd old i _ hold ih => exact ih.share (ih _ _ hold)

/-- **A handle that is not dropped keeps its entry**, and the entry keeps its data. -/
theorem keeps (hh : r.ref h = some i) (hnot : h ∉ handles c fds) :
    r'.ref h = some i ∧ r'.data i = r.data i := by
  induction hchange with
  | dropped =>
    rw [Refs.dropAll_ref, if_neg hnot, Refs.dropAll_data]
    exact ⟨hh, rfl⟩
  | @opened r₁ hchange fd j data hfd hj _ ih =>
    obtain ⟨href, hdata⟩ := ih
    have hused : r₁.used i = true := hchange.noDangling hr hsafe h i href
    have hne : h ≠ (c, fd) := by
      rintro rfl
      rw [hfd] at href
      cases href
    have hij : i ≠ j := by
      rintro rfl
      rw [hj] at hused
      cases hused
    exact ⟨(update_of_ne hne _ _).trans href, (update_of_ne hij _ _).trans hdata⟩
  | shared _ fd old j hfd _ ih =>
    obtain ⟨href, hdata⟩ := ih
    have hne : h ≠ (c, fd) := by
      rintro rfl
      rw [hfd] at href
      cases href
    exact ⟨(update_of_ne hne _ _).trans href, hdata⟩

end

/-- Where the references of other threads point does not change. -/
theorem ref_other (hchange : RefChange c r fds r') (hne : h.1 ≠ c) : r'.ref h = r.ref h := by
  have hfd (fd : Fin maxProcessFds) : h ≠ (c, fd) := fun heq => hne (congrArg Prod.fst heq)
  induction hchange with
  | dropped =>
    rw [Refs.dropAll_ref, if_neg]
    intro hmem
    obtain ⟨fd, -, heq⟩ := List.mem_map.mp hmem
    exact hfd fd heq.symm
  | opened _ fd i data _ _ _ ih => exact (update_of_ne (hfd fd) _ _).trans ih
  | shared _ fd old i _ _ ih => exact (update_of_ne (hfd fd) _ _).trans ih

end RefChange

/-! ### Events -/

/-- What the scheduler may do between two calls: it keeps all descriptor tables, and no thread
exits. -/
structure Scheduled (s s' : Scheduler) : Prop where
  fdTables : s'.fdTables = s.fdTables
  exits : ∀ x, (s'.threads x).state = .exited → (s.threads x).state = .exited

/-- **The operations that switch, block and unblock threads** do nothing else to the open files. -/
theorem Scheduled.of_op {P : Platform} {s s' : Scheduler} {o : Op} (hop : o.isSteady = true)
    (hexit : ∀ x, ¬ o.mayExit s x) (h : o.exec P s = .ok s') : Scheduled s s' := by
  have hsteady := Op.exec_steady hop h
  exact ⟨hsteady.fdTables, fun x hx => (hsteady.exits x hx).resolve_right (hexit x)⟩

/-- What happens to the open files. A call finds the file systems and the memory of the caller as
they are at that time. -/
inductive FileEvent
  | call (vfs : Vfs) (memory : UserMemory) (call : FileCall) (args : Args)
  /-- A fatal exception of the current thread. -/
  | fault (status : ℤ)
  /-- An operation of the scheduler. -/
  | op (op : Op)
  /-- The scheduler moves on to the given state. -/
  | schedule (s : Scheduler)

/-- End the group of the current thread. -/
def Kernel.endGroup (k : Kernel) (status : ℤ) : Except Panic Kernel :=
  (k.sched.requestExitGroup status).map fun r => { k with sched := r.2 }

/-- What `hxnu_x86_64_handle_syscall_frame` does with the outcome of a call on files. -/
def Kernel.finish (k : Kernel) (out : SyscallOutcome) : Except Panic Kernel :=
  match out.action with
  | .exitGroup status => k.endGroup status
  | _ => .ok k

/-- The thread in slot `c` is there to make a call. -/
structure Kernel.Caller (k : Kernel) (c : Slot) : Prop where
  current : k.sched.currentSlot = some c
  alive : (k.sched.threads c).state ≠ .exited

/-- What an event does. -/
def FileStep (P : Platform) (k : Kernel) (e : FileEvent) (k' : Kernel) : Prop :=
  match e with
  | .call vfs memory call args => (∃ c, k.Caller c) ∧
      ∃ out k₁, call.exec vfs (k.setMemory memory) args = .ok (out, k₁) ∧ k₁.finish out = .ok k'
  | .fault status => (∃ c, k.Caller c) ∧ k.endGroup status = .ok k'
  | .op op => ∃ s, op.exec P k.sched = .ok s ∧ k' = { k with sched := s }
  | .schedule s => Scheduled k.sched s ∧ k' = { k with sched := s }

/-- The state in which `bootstrap()` returns, with no file open. -/
structure Booted (P : Platform) (k : Kernel) : Prop where
  sched : ∃ n, bootstrap P n = .ok k.sched
  files : k.files = fun _ => .empty

/-- The runs in which every event meets a condition. -/
def FileRun (P : Platform) (guard : Kernel → FileEvent → Prop) :
    Kernel → List FileEvent → Kernel → Prop :=
  Run fun k e k' => guard k e ∧ FileStep P k e k'

/-- Calls, faults and scheduling. A thread that is created in a fresh slot is one that the scheduler
has there from some time on. -/
def FileEvent.isPlain : FileEvent → Bool
  | .op (.createUserThread _) | .op (.forkCurrentThread _) | .op (.reapChild _ _) => false
  | _ => true

namespace Booted

variable {P : Platform} {k : Kernel}

theorem ref_eq_none (h : Booted P k) (x : Handle) : k.refs.ref x = none := by
  obtain ⟨n, hn⟩ := h.sched
  change k.sched.fdTables x.1 x.2 = none
  rw [bootstrap_fdTables hn]

theorem used_eq_false (h : Booted P k) (i : ℕ) : k.refs.used i = false := by
  change (k.entry i).isUsed = false
  rw [Kernel.entry, h.files]
  split_ifs <;> rfl

theorem exact (h : Booted P k) : k.refs.Exact := by
  refine ⟨fun i => ?_, fun i hi => ?_⟩
  · rw [h.used_eq_false]
    simp [h.ref_eq_none]
  · rw [h.used_eq_false] at hi
    cases hi

end Booted

/-! ### Steps -/

/-- The descriptors of the caller that an event closes or replaces. -/
def FileEvent.drops (k : Kernel) : FileEvent → List (Fin maxProcessFds)
  | .call _ _ c args => c.drops k args
  | _ => []

/-- The handles that an event closes or replaces. -/
def Kernel.dropped (k : Kernel) (e : FileEvent) : List Handle :=
  match k.sched.currentSlot with
  | some c => handles c (e.drops k)
  | none => []

section Steps

variable {P : Platform} {k k' : Kernel} {e : FileEvent} {c : Slot} {status : ℤ}

theorem Kernel.Caller.dropped (h : k.Caller c) (e : FileEvent) :
    k.dropped e = handles c (e.drops k) := by
  rw [Kernel.dropped, h.current]

theorem Kernel.dropped_of_drops (h : e.drops k = []) : k.dropped e = handles c (e.drops k) := by
  rw [Kernel.dropped, h]
  split <;> rfl

theorem Kernel.refs_of_fdTables (h : s.fdTables = k.sched.fdTables) :
    Kernel.refs { k with sched := s } = k.refs :=
  Refs.ext (congrArg uncurry h) rfl rfl rfl

theorem Kernel.endGroup_refs (h : k.endGroup status = .ok k') : k'.refs = k.refs := by
  obtain ⟨r, hr, rfl⟩ := Fallible.map_eq_ok.mp h
  exact Kernel.refs_of_fdTables (Steady.requestExitGroup (fun _ _ _ _ => trivial) hr).fdTables

theorem Kernel.finish_refs (h : k.finish out = .ok k') : k'.refs = k.refs := by
  rw [Kernel.finish] at h
  split at h
  · exact Kernel.endGroup_refs h
  · cases h
    rfl

/-- Where a descriptor points after an operation of the scheduler, one pointed before. -/
theorem ref_of_op {o : Op} {s : Scheduler} {x : Handle} {i : ℕ} (h : o.exec P k.sched = .ok s)
    (hx : (Kernel.refs { k with sched := s }).ref x = some i) : ∃ y, k.refs.ref y = some i := by
  obtain ⟨slot, fd⟩ := x
  change s.fdTables slot fd = some i at hx
  obtain hsame | ⟨_, child, -, hnew⟩ | ⟨_, parent, child, -, -, hcopy⟩ := Op.exec_fdTables h
  · exact ⟨(slot, fd), by rw [← hx, hsame]; rfl⟩
  · rw [hnew, update_apply] at hx
    split_ifs at hx with hslot
    exact ⟨(slot, fd), hx⟩
  · rw [hcopy, update_apply] at hx
    split_ifs at hx with hslot
    · exact ⟨(parent, fd), hx⟩
    · exact ⟨(slot, fd), hx⟩

/-- A plain event changes the references as a call of the current thread does. -/
theorem FileStep.change (h : FileStep P k e k') (he : e.isPlain = true) :
    ∃ c, k.dropped e = handles c (e.drops k) ∧ RefChange c k.refs (e.drops k) k'.refs := by
  cases e with
  | call vfs memory call args =>
    obtain ⟨⟨c, hc⟩, out, k₁, hexec, hfinish⟩ := h
    refine ⟨c, hc.dropped _, ?_⟩
    rw [Kernel.finish_refs hfinish]
    exact (FileCall.exec_called (k := k.setMemory memory) hc.current hexec).refs
  | fault status =>
    obtain ⟨⟨c, hc⟩, hend⟩ := h
    refine ⟨c, hc.dropped _, ?_⟩
    rw [Kernel.endGroup_refs hend]
    exact .kept
  | op op =>
    obtain ⟨s, hs, rfl⟩ := h
    have htables : s.fdTables = k.sched.fdTables := by
      obtain hsame | ⟨_, _, rfl, -⟩ | ⟨_, _, _, rfl, -⟩ := Op.exec_fdTables hs
      · exact hsame
      · cases he
      · cases he
    rw [Kernel.refs_of_fdTables htables]
    exact ⟨0, Kernel.dropped_of_drops rfl, .kept⟩
  | schedule s =>
    obtain ⟨hs, rfl⟩ := h
    rw [Kernel.refs_of_fdTables hs.fdTables]
    exact ⟨0, Kernel.dropped_of_drops rfl, .kept⟩

/-- **Without forks the counts stay exact.** -/
theorem FileStep.exact (h : FileStep P k e k') (he : e.isPlain = true) (hr : k.refs.Exact) :
    k'.refs.Exact := by
  obtain ⟨c, -, hchange⟩ := h.change he
  exact hchange.exact hr

end Steps

/-! ### Evaluating runs -/

instance (k : Kernel) (c : Slot) : Decidable (k.Caller c) :=
  decidable_of_iff (k.sched.currentSlot = some c ∧ (k.sched.threads c).state ≠ .exited)
    ⟨fun h => ⟨h.1, h.2⟩, fun h => ⟨h.1, h.2⟩⟩

/-- Let an event happen, other than a move of the scheduler that is not spelled out. -/
def FileEvent.attempt (P : Platform) (guard : Kernel → FileEvent → Bool) (k : Kernel)
    (e : FileEvent) : Option Kernel :=
  if guard k e = true then
    match e with
    | .call vfs memory c args =>
      if ∃ c, k.Caller c then
        match c.exec vfs (k.setMemory memory) args with
        | .ok (out, k₁) => (k₁.finish out).toOption
        | .error _ => none
      else none
    | .fault status => if ∃ c, k.Caller c then (k.endGroup status).toOption else none
    | .op o => (o.exec P k.sched).toOption.map fun s => { k with sched := s }
    | .schedule _ => none
  else none

theorem FileStep.of_attempt {P : Platform} {guard : Kernel → FileEvent → Bool} {k k' : Kernel}
    {e : FileEvent} (h : e.attempt P guard k = some k') :
    guard k e = true ∧ FileStep P k e k' := by
  unfold FileEvent.attempt at h
  by_cases hguard : guard k e = true
  swap
  · rw [if_neg hguard] at h
    cases h
  rw [if_pos hguard] at h
  refine ⟨hguard, ?_⟩
  cases e with
  | call vfs memory c args =>
    simp only at h
    split_ifs at h with hcaller
    split at h
    · rename_i out k₁ hexec
      exact ⟨hcaller, out, k₁, hexec, Fallible.toOption_eq_some.mp h⟩
    · cases h
  | fault status =>
    simp only at h
    split_ifs at h with hcaller
    exact ⟨hcaller, Fallible.toOption_eq_some.mp h⟩
  | op op =>
    obtain ⟨s, hs, rfl⟩ := Option.map_eq_some_iff.mp h
    exact ⟨s, Fallible.toOption_eq_some.mp hs, rfl⟩
  | schedule s => cases h

/-- The end of a run of given events after boot. -/
def evaluateFiles (P : Platform) (n : ℕ) (guard : Kernel → FileEvent → Bool)
    (events : List FileEvent) : Option Kernel :=
  match bootstrap P n with
  | .ok s => events.foldlM (FileEvent.attempt P guard) ⟨s, fun _ => .empty, ⟨fun _ => 0, []⟩⟩
  | .error _ => none

theorem fileRun_of_evaluateFiles {P : Platform} {n : ℕ} {guard : Kernel → FileEvent → Bool}
    {events : List FileEvent} {k' : Kernel} (h : evaluateFiles P n guard events = some k') :
    ∃ k, Booted P k ∧ FileRun P (fun k e => guard k e = true) k events k' := by
  rw [evaluateFiles] at h
  split at h
  · rename_i s hs
    exact ⟨_, ⟨⟨n, hs⟩, rfl⟩, .of_foldlM (fun _ _ _ => FileStep.of_attempt) h⟩
  · cases h

theorem exists_of_evaluateFiles (P : Platform) (n : ℕ) (guard : Kernel → FileEvent → Bool)
    (events : List FileEvent) [DecidablePred Q]
    (h : (evaluateFiles P n guard events).any (Q ·) = true) :
    ∃ k k', Booted P k ∧ FileRun P (fun k e => guard k e = true) k events k' ∧ Q k' := by
  rw [Option.any_eq_true] at h
  obtain ⟨k', hk', hp⟩ := h
  obtain ⟨k, hboot, hrun⟩ := fileRun_of_evaluateFiles hk'
  exact ⟨k, k', hboot, hrun, of_decide_eq_true hp⟩

/-- A file system with two files in the ramdisk. -/
def exampleVfs : Vfs where
  initialized := true
  devfs := ⟨fun _ => none, fun _ => 0, fun _ => none⟩
  fat := none
  initrd := some [⟨Text.ascii "/initrd/a", .file, 0o644, [1, 2, 3]⟩,
    ⟨Text.ascii "/initrd/b", .file, 0o644, [7]⟩]
  procfs := ⟨fun _ => none, fun _ => 0, fun _ => none⟩
  hfs := fun _ => []

/-- Memory with a text at address `0x1000`. -/
def exampleMemory (text : String) : UserMemory where
  bytes x := (Text.ascii text).getD (x - 0x1000) 0
  accesses := []

/-- Arguments of a call. -/
def exampleArgs (a b : ℕ) : Args :=
  ![Fin.ofNat (2 ^ 64) a, Fin.ofNat (2 ^ 64) b, 0, 0, 0, 0]

theorem exists_caller : ∃ k, Booted examplePlatform k ∧ k.Caller 0 := by
  obtain ⟨k, _, hboot, ⟨⟩, hc⟩ := exists_of_evaluateFiles examplePlatform 3 (fun _ _ => true) []
    (Q := (·.Caller 0)) (by decide +kernel)
  exact ⟨k, hboot, hc⟩

/-- Opening a file of the example. -/
def openExample (path : String) : FileEvent :=
  .call exampleVfs (exampleMemory path) .open (exampleArgs 0x1000 0)

/-- A call in the example. -/
def callExample (c : FileCall) (a b : ℕ) : FileEvent :=
  .call exampleVfs (exampleMemory "") c (exampleArgs a b)

/-! ### Exact counts -/

/-- The counts of the open files are exact, every descriptor refers to a file that is open. -/
structure CountsExact (k : Kernel) : Prop where
  used_iff : ∀ i : Fin maxSystemFiles, (k.files i).isUsed = true ↔
    ∃ slot fd, k.sched.fdTables slot fd = some i.val
  refCount_eq : ∀ i : Fin maxSystemFiles, (k.files i).isUsed = true → (k.files i).refCount =
    (Finset.univ.filter fun h : Handle => k.sched.fdTables h.1 h.2 = some i.val).card
  refers : ∀ slot fd index, k.sched.fdTables slot fd = some index →
    ∃ i : Fin maxSystemFiles, index = i ∧ (k.files i).isUsed = true

theorem CountsExact.of_refs (h : k.refs.Exact) : CountsExact k where
  used_iff i := by
    rw [← k.entry_val]
    exact (h.used_iff i).trans Prod.exists
  refCount_eq i hi := by
    rw [← k.entry_val] at hi ⊢
    exact h.count_eq i hi
  refers slot fd index hindex := by
    have hused : (k.entry index).isUsed = true := (h.used_iff index).mpr ⟨(slot, fd), hindex⟩
    rw [Kernel.entry] at hused
    split_ifs at hused with hlt
    · exact ⟨⟨index, hlt⟩, rfl, hused⟩
    · cases hused

/-- **The open files are exactly reference counted.** Whatever calls the threads make, in whatever
order, an entry is used exactly if a descriptor refers to it, and its count is the number of
descriptors that do. What happens next does not reuse an entry while a descriptor refers to it. -/
theorem openFiles_exact {P : Platform} {k k' : Kernel} {events : List FileEvent}
    (hboot : Booted P k) (hrun : FileRun P (fun _ e => e.isPlain = true) k events k') :
    CountsExact k' ∧ ∀ e k'', FileStep P k' e k'' → e.isPlain = true →
      ∀ slot fd i, k'.sched.fdTables slot fd = some i → (slot, fd) ∉ k'.dropped e →
        k''.sched.fdTables slot fd = some i ∧ (k''.entry i).data = (k'.entry i).data := by
  have hexact : k'.refs.Exact :=
    Run.invariant (I := fun k => k.refs.Exact)
      (fun _ _ _ hr hstep => hstep.2.exact hstep.1 hr) hrun hboot.exact
  refine ⟨.of_refs hexact, ?_⟩
  intro e k'' hstep he slot fd i hfd hnot
  obtain ⟨c, hdropped, hchange⟩ := hstep.change he
  rw [hdropped] at hnot
  have hsafe : k'.refs.SafeDrop (handles c (e.drops k')) :=
    hexact.safeDrop (RefChange.nodup_handles hchange.nodup)
  exact hchange.keeps (h := (slot, fd)) hexact.noDangling hsafe hfd hnot

/-- The bootstrap thread opens a file, duplicates the descriptor and opens a pipe. -/
theorem openFiles_exact_four : ∃ k k', Booted examplePlatform k ∧
    FileRun examplePlatform (fun _ e => e.isPlain = true) k [openExample "/a",
      callExample .dup 3 0, callExample .pipe 0x2000 0, callExample .close 3 0] k' ∧
    k'.sched.fdTables 0 4 = some 0 ∧ (k'.files 0).refCount = 1 ∧ CountsExact k' := by
  obtain ⟨k, k', hboot, hrun, htable, hcount⟩ := exists_of_evaluateFiles examplePlatform 3
    (fun _ e => e.isPlain) [openExample "/a", callExample .dup 3 0, callExample .pipe 0x2000 0,
      callExample .close 3 0]
    (Q := fun k => k.sched.fdTables 0 4 = some 0 ∧ (k.files 0).refCount = 1) (by decide +kernel)
  exact ⟨k, k', hboot, hrun, htable, hcount, (openFiles_exact hboot hrun).1⟩

end Hxnu.Syscall
