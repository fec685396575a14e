import Hxnu.Exec.Activation
import Hxnu.Sched.Reaping

/-!
# The life of the init process

`init_exec` remembers one process, the one it calls the current init process. `note_init_exit` is
called with the identifier of every process that exits; if it is the remembered one, it is forgotten
and a restart is marked as pending, which the idle loop serves by starting init again. The model
takes from the loading of the image only its result: the page table of the new process, or the error
that stopped it before `create_user_thread`. Between these calls the scheduler may do anything it
does.

`spawn_init_process` and `spawn_executable` both overwrite the remembered process. As long as
`spawn_executable`, which the spawn system call uses, starts no process of its own, the remembered
process is the running init process.

## Main definitions

* `InitExecState`: what `init_exec` remembers.
* `spawnInitProcess`, `spawnExecutable`, `noteInitExit`, `servicePendingRestart`.
* `InitSystem`, `InitEvent`, `InitStep`: the runs, with the running init process beside them.

## Main results

* `init_exit_noticed_iff`: exactly the exits of init are noticed, in every run in which
  `spawn_executable` starts no other process.
-/

namespace Hxnu.Exec

open Sched Word

/-! ### The functions of `init_exec` -/

/-- `MAX_INIT_RESTARTS`. -/
def maxInitRestarts : ℕ := 4

/-- `InitExecState`, without the loaded image. -/
structure InitExecState where
  currentProcessId : ℕ
  currentThreadId : ℕ
  restartPending : Bool
  restartCount : ℕ
  lastExitStatus : Option ℤ
  deriving DecidableEq, Repr

def InitExecState.new : InitExecState := ⟨0, 0, false, 0, none⟩

/-- The errors of starting a process. -/
inductive SpawnError
  | load
  | bytesUnavailable
  | activate (error : InitExecActivateError)
  deriving DecidableEq, Repr

structure SpawnedInitProcess where
  threadId : ℕ
  processId : ℕ
  restartCount : ℕ
  deriving DecidableEq, Repr

structure InitExitDisposition where
  processId : ℕ
  threadId : ℕ
  exitStatus : ℤ
  restartScheduled : Bool
  nextRestartAttempt : ℕ
  restartLimit : ℕ
  deriving DecidableEq, Repr

structure RestartedInitProcess where
  threadId : ℕ
  processId : ℕ
  restartCount : ℕ
  lastExitStatus : ℤ
  deriving DecidableEq, Repr

/-- `saturating_add(1)` on `u32`. -/
def satSucc32 (value : ℕ) : ℕ := min (value + 1) (2 ^ 32 - 1)

section Functions

variable (P : Platform)

/-- What both ways of starting a process do with the loaded image: its thread is created. -/
def createProcess (s : Scheduler) (loaded : Except SpawnError ℕ) :
    Except SpawnError SpawnedUserThread × Scheduler :=
  match loaded with
  | .error e => (.error e, s)
  | .ok userPml4 =>
    match s.createUserThread P userPml4 with
    | (.error _, s) => (.error (.activate .invalidSegmentMap), s)
    | (.ok spawned, s) => (.ok spawned, s)

def spawnExecutable (exec : InitExecState) (s : Scheduler) (loaded : Except SpawnError ℕ) :
    Except SpawnError SpawnedInitProcess × InitExecState × Scheduler :=
  match createProcess P s loaded with
  | (.error e, s) => (.error e, exec, s)
  | (.ok spawned, s) =>
    (.ok ⟨spawned.threadId, spawned.processId, exec.restartCount⟩,
      { exec with
        currentProcessId := spawned.processId
        currentThreadId := spawned.threadId }, s)

def spawnInitProcess (exec : InitExecState) (s : Scheduler) (loaded : Except SpawnError ℕ) :
    Except SpawnError SpawnedInitProcess × InitExecState × Scheduler :=
  match createProcess P s loaded with
  | (.error e, s) => (.error e, exec, s)
  | (.ok spawned, s) =>
    (.ok ⟨spawned.threadId, spawned.processId, exec.restartCount⟩,
      { exec with
        currentProcessId := spawned.processId
        currentThreadId := spawned.threadId
        restartPending := false }, s)

def noteInitExit (exec : InitExecState) (processId threadId : ℕ) (exitStatus : ℤ) :
    Option InitExitDisposition × InitExecState :=
  if exec.currentProcessId = 0 ∨ exec.currentProcessId ≠ processId then (none, exec)
  else
    let restartPending := decide (exec.restartCount < maxInitRestarts)
    (some
      { processId := processId
        threadId := threadId
        exitStatus := exitStatus
        restartScheduled := restartPending
        nextRestartAttempt := satSucc32 exec.restartCount
        restartLimit := maxInitRestarts },
      { exec with
        currentProcessId := 0
        currentThreadId := 0
        lastExitStatus := some exitStatus
        restartPending := restartPending })

def servicePendingRestart (exec : InitExecState) (s : Scheduler)
    (loaded : Except SpawnError ℕ) :
    Option (Except SpawnError RestartedInitProcess) × InitExecState × Scheduler :=
  if exec.restartPending = false then (none, exec, s)
  else
    let lastExitStatus := exec.lastExitStatus.getD 0
    let exec := { exec with
      restartPending := false
      restartCount := satSucc32 exec.restartCount }
    match spawnInitProcess P exec s loaded with
    | (.error e, exec, s) => (some (.error e), exec, s)
    | (.ok spawned, exec, s) =>
      (some (.ok ⟨spawned.threadId, spawned.processId, spawned.restartCount, lastExitStatus⟩),
        exec, s)

end Functions

/-! ### Runs -/

/-- The state of a run. Beside the states of the kernel it has the process most recently started by
`spawn_init_process` while its exit has not been reported, and the number of restarts served. -/
structure InitSystem where
  exec : InitExecState
  sched : Scheduler
  init : Option ℕ
  served : ℕ

inductive InitEvent
  | spawnInitProcess (loaded : Except SpawnError ℕ)
  | spawnExecutable (loaded : Except SpawnError ℕ)
  /-- The exit of a process is reported. -/
  | noteInitExit (processId threadId : ℕ) (exitStatus : ℤ)
  | servicePendingRestart (loaded : Except SpawnError ℕ)
  /-- The scheduler does something else. -/
  | op (op : Op)
  deriving DecidableEq

namespace InitSystem

def start (s : Scheduler) : InitSystem := ⟨.new, s, none, 0⟩

/-- What an event does, if it does not panic. -/
def step (P : Platform) (y : InitSystem) : InitEvent → Except Panic InitSystem
  | .spawnInitProcess loaded =>
    let (result, exec, s) := Exec.spawnInitProcess P y.exec y.sched loaded
    .ok
      { y with
        exec := exec
        sched := s
        init := match result with
          | .ok spawned => some spawned.processId
          | .error _ => y.init }
  | .spawnExecutable loaded =>
    let (_, exec, s) := Exec.spawnExecutable P y.exec y.sched loaded
    .ok { y with exec := exec, sched := s }
  | .noteInitExit processId threadId exitStatus =>
    .ok
      { y with
        exec := (Exec.noteInitExit y.exec processId threadId exitStatus).2
        init := if y.init = some processId then none else y.init }
  | .servicePendingRestart loaded =>
    let (result, exec, s) := Exec.servicePendingRestart P y.exec y.sched loaded
    .ok
      { exec := exec
        sched := s
        init := match result with
          | some (.ok restarted) => some restarted.processId
          | _ => y.init
        served := if result.isSome = true then y.served + 1 else y.served }
  | .op op => (op.exec P y.sched).map fun s => { y with sched := s }

/-- Does `spawn_executable` start a process other than the running init process? -/
def startsOther (P : Platform) (y : InitSystem) : InitEvent → Bool
  | .spawnExecutable loaded =>
    match (createProcess P y.sched loaded).1 with
    | .ok spawned => decide (y.init ≠ some spawned.processId)
    | .error _ => false
  | _ => false

/-- **The exits that are noticed**: `note_init_exit` returns `Some`, and marks a restart as pending
while fewer than `MAX_INIT_RESTARTS` have been served, exactly for the running init process. The exit
of any other process changes nothing. -/
def NoticesInit (y : InitSystem) : Prop :=
  ∀ processId threadId exitStatus,
    ((∃ disposition,
        (Exec.noteInitExit y.exec processId threadId exitStatus).1 = some disposition ∧
        ((Exec.noteInitExit y.exec processId threadId exitStatus).2.restartPending = true ↔
          y.served < maxInitRestarts)) ↔ y.init = some processId) ∧
      (y.init ≠ some processId →
        (Exec.noteInitExit y.exec processId threadId exitStatus).2 = y.exec)

end InitSystem

/-- One event of a run, within a guard. -/
def InitStep (P : Platform) (guard : InitSystem → InitEvent → Prop) (y : InitSystem)
    (e : InitEvent) (y' : InitSystem) : Prop :=
  guard y e ∧ y.step P e = .ok y'

/-! ### The invariant -/

/-- The remembered process is the running init process. -/
structure Remembers (y : InitSystem) : Prop where
  nextThreadId : y.sched.nextThreadId ≠ 0
  current : y.exec.currentProcessId = y.init.getD 0
  nonzero : y.init ≠ some 0
  served : y.exec.restartCount = y.served
  pending : y.exec.restartPending = true → y.served < maxInitRestarts

section Remembers

variable {P : Platform} {y y' : InitSystem} {loaded : Except SpawnError ℕ}

theorem createProcess_cases (P : Platform) (loaded : Except SpawnError ℕ) (s : Scheduler)
    (hs : s.nextThreadId ≠ 0) :
    (∃ e s', createProcess P s loaded = (.error e, s') ∧ s'.nextThreadId ≠ 0) ∨
      ∃ spawned s', createProcess P s loaded = (.ok spawned, s') ∧ spawned.processId ≠ 0 ∧
        s'.nextThreadId ≠ 0 := by
  cases loaded with
  | error e => exact .inl ⟨e, s, rfl, hs⟩
  | ok userPml4 =>
    have hexec : (Op.createUserThread userPml4).exec P s =
        .ok (s.createUserThread P userPml4).2 := rfl
    have hnext := nextThreadId_ne_zero_of_exec hs hexec
    rw [createProcess]
    cases hcreate : s.createUserThread P userPml4 with
    | mk result s' =>
      rw [hcreate] at hnext
      cases result with
      | error e => exact .inl ⟨_, s', rfl, hnext⟩
      | ok spawned =>
        refine .inr ⟨spawned, s', rfl, ?_, hnext⟩
        rw [processId_of_createUserThread hcreate]
        exact hs

theorem noteInitExit_of_eq (exec : InitExecState) (threadId : ℕ) (exitStatus : ℤ)
    (hne : processId ≠ 0) (h : exec.currentProcessId = processId) :
    (∃ disposition, (noteInitExit exec processId threadId exitStatus).1 = some disposition) ∧
      (noteInitExit exec processId threadId exitStatus).2 =
        { exec with
          currentProcessId := 0
          currentThreadId := 0
          lastExitStatus := some exitStatus
          restartPending := decide (exec.restartCount < maxInitRestarts) } := by
  have hguard : ¬ (exec.currentProcessId = 0 ∨ exec.currentProcessId ≠ processId) := by
    rintro (hzero | hother)
    · exact hne (h.symm.trans hzero)
    · exact hother h
  rw [noteInitExit, if_neg hguard]
  exact ⟨⟨_, rfl⟩, rfl⟩

theorem noteInitExit_of_ne (threadId : ℕ) (exitStatus : ℤ)
    (h : exec.currentProcessId = 0 ∨ exec.currentProcessId ≠ processId) :
    noteInitExit exec processId threadId exitStatus = (none, exec) :=
  if_pos h

namespace Remembers

section

variable (h : Remembers y)

include h

/-- The remembered process is `processId` exactly if init is. -/
theorem current_iff : ¬ (y.exec.currentProcessId = 0 ∨ y.exec.currentProcessId ≠ processId) ↔
      y.init = some processId := by
  rw [not_or, not_not, h.current]
  cases hinit : y.init with
  | none => simp
  | some init =>
    have hne : init ≠ 0 := by
      rintro rfl
      exact h.nonzero hinit
    simp [hne]

/-- **Exactly the exits of init are noticed.** -/
theorem noticesInit : y.NoticesInit := by
  intro processId threadId exitStatus
  by_cases hinit : y.init = some processId
  · obtain ⟨hne, heq⟩ := not_or.mp (h.current_iff.mpr hinit)
    rw [not_not] at heq
    obtain ⟨⟨disposition, hsome⟩, hexec⟩ :=
      noteInitExit_of_eq y.exec threadId exitStatus (heq ▸ hne) heq
    refine ⟨iff_of_true ⟨disposition, hsome, ?_⟩ hinit, fun hother => absurd hinit hother⟩
    rw [hexec, decide_eq_true_iff, h.served]
  · have hnone := noteInitExit_of_ne threadId exitStatus
      (by_contra fun hguard => hinit (h.current_iff.mp hguard))
    rw [hnone]
    exact ⟨iff_of_false nofun hinit, fun _ => rfl⟩

/-- Init is started. -/
theorem spawnInitProcess (hstep : y.step P (.spawnInitProcess loaded) = .ok y') : Remembers y' := by
  rw [InitSystem.step, Exec.spawnInitProcess] at hstep
  rcases createProcess_cases P loaded y.sched h.nextThreadId with
    ⟨e, s', hcreate, hnext⟩ | ⟨spawned, s', hcreate, hne, hnext⟩
  · rw [hcreate] at hstep
    cases hstep
    exact ⟨hnext, h.current, h.nonzero, h.served, h.pending⟩
  · rw [hcreate] at hstep
    cases hstep
    exact ⟨hnext, rfl, fun hzero => hne (Option.some.inj hzero), h.served, nofun⟩

/-- The exit of a process is reported. -/
theorem noteInitExit
    (hstep : y.step P (.noteInitExit processId threadId exitStatus) = .ok y') : Remembers y' := by
  rw [InitSystem.step] at hstep
  cases hstep
  by_cases hinit : y.init = some processId
  · obtain ⟨hne, heq⟩ := not_or.mp (h.current_iff.mpr hinit)
    rw [not_not] at heq
    rw [(noteInitExit_of_eq y.exec threadId exitStatus (heq ▸ hne) heq).2, if_pos hinit]
    refine ⟨h.nextThreadId, rfl, nofun, h.served, ?_⟩
    intro hpending
    rw [← h.served]
    exact of_decide_eq_true hpending
  · rw [noteInitExit_of_ne threadId exitStatus
      (by_contra fun hguard => hinit (h.current_iff.mp hguard)), if_neg hinit]
    exact ⟨h.nextThreadId, h.current, h.nonzero, h.served, h.pending⟩

/-- A pending restart is served. -/
theorem servicePendingRestart
    (hstep : y.step P (.servicePendingRestart loaded) = .ok y') : Remembers y' := by
  by_cases hpending : y.exec.restartPending = false
  · have hservice : Exec.servicePendingRestart P y.exec y.sched loaded = (none, y.exec, y.sched) :=
      if_pos hpending
    rw [InitSystem.step, hservice] at hstep
    cases hstep
    exact ⟨h.nextThreadId, h.current, h.nonzero, h.served, h.pending⟩
  · have hlt := h.pending (Bool.not_eq_false _ ▸ hpending)
    have hcount : satSucc32 y.exec.restartCount = y.served + 1 := by
      rw [satSucc32, h.served, Nat.min_eq_left]
      exact Nat.succ_le_of_lt (hlt.trans (by decide))
    rcases createProcess_cases P loaded y.sched h.nextThreadId with
      ⟨e, s', hcreate, hnext⟩ | ⟨spawned, s', hcreate, hne, hnext⟩
    · have hservice : Exec.servicePendingRestart P y.exec y.sched loaded =
          (some (.error e), { y.exec with
            restartPending := false
            restartCount := satSucc32 y.exec.restartCount }, s') := by
        rw [Exec.servicePendingRestart, if_neg hpending]
        simp only [Exec.spawnInitProcess, hcreate]
      rw [InitSystem.step, hservice] at hstep
      cases hstep
      exact ⟨hnext, h.current, h.nonzero, hcount, nofun⟩
    · have hservice : Exec.servicePendingRestart P y.exec y.sched loaded =
          (some (.ok ⟨spawned.threadId, spawned.processId, satSucc32 y.exec.restartCount,
            y.exec.lastExitStatus.getD 0⟩), { y.exec with
              currentProcessId := spawned.processId
              currentThreadId := spawned.threadId
              restartPending := false
              restartCount := satSucc32 y.exec.restartCount }, s') := by
        rw [Exec.servicePendingRestart, if_neg hpending]
        simp only [Exec.spawnInitProcess, hcreate]
      rw [InitSystem.step, hservice] at hstep
      cases hstep
      exact ⟨hnext, rfl, fun hzero => hne (Option.some.inj hzero), hcount, nofun⟩

/-- **The step that breaks it**: `spawn_executable` makes its own process the remembered one. -/
theorem spawnExecutable (hstep : y.step P (.spawnExecutable loaded) = .ok y') :
    (y.startsOther P (.spawnExecutable loaded) = false → Remembers y') ∧
      (y.startsOther P (.spawnExecutable loaded) = true → ¬ y'.NoticesInit) := by
  rw [InitSystem.step, Exec.spawnExecutable] at hstep
  rw [InitSystem.startsOther]
  rcases createProcess_cases P loaded y.sched h.nextThreadId with
    ⟨e, s', hcreate, hnext⟩ | ⟨spawned, s', hcreate, hne, hnext⟩
  · rw [hcreate] at hstep ⊢
    cases hstep
    exact ⟨fun _ => ⟨hnext, h.current, h.nonzero, h.served, h.pending⟩, nofun⟩
  · rw [hcreate] at hstep ⊢
    cases hstep
    simp only [decide_eq_false_iff_not, not_not, decide_eq_true_iff]
    refine ⟨fun hinit => ⟨hnext, ?_, h.nonzero, h.served, h.pending⟩, ?_⟩
    · change spawned.processId = y.init.getD 0
      rw [hinit]
      rfl
    · intro hother hnotices
      have hiff := (hnotices spawned.processId spawned.threadId 0).1
      obtain ⟨⟨disposition, hsome⟩, hexec⟩ := noteInitExit_of_eq
        { y.exec with
          currentProcessId := spawned.processId
          currentThreadId := spawned.threadId } spawned.threadId 0 hne rfl
      refine hother (hiff.mp ⟨disposition, hsome, ?_⟩)
      rw [hexec, decide_eq_true_iff]
      exact Iff.of_eq (congrArg (· < maxInitRestarts) h.served)

/-- **Every event keeps the invariant**, unless it is a `spawn_executable` that starts another
process. -/
theorem step (hother : y.startsOther P e = false) (hstep : y.step P e = .ok y') : Remembers y' := by
  cases e with
  | spawnInitProcess loaded => exact h.spawnInitProcess hstep
  | spawnExecutable loaded => exact (h.spawnExecutable hstep).1 hother
  | noteInitExit processId threadId exitStatus => exact h.noteInitExit hstep
  | servicePendingRestart loaded => exact h.servicePendingRestart hstep
  | op op =>
    obtain ⟨s, hs, rfl⟩ := Fallible.map_eq_ok.mp hstep
    exact ⟨nextThreadId_ne_zero_of_exec h.nextThreadId hs, h.current, h.nonzero, h.served,
      h.pending⟩

end

theorem start (hs : Booted s) : Remembers (.start s) := by
  refine ⟨?_, rfl, nofun, rfl, nofun⟩
  change s.nextThreadId ≠ 0
  rw [hs.nextThreadId]
  decide

end Remembers

end Remembers

/-! ### Exits -/

/-- **Exactly the exits of init are noticed**, in every state of every run in which
`spawn_executable` starts no process other than init. An event in such a state keeps this exactly if
it is not such a start. -/
theorem init_exit_noticed_iff (P : Platform) {n : ℕ} (hn : n ≠ 0) {s : Scheduler}
    (hs : bootstrap P n = .ok s) {y : InitSystem}
    (hy : Reachable (InitStep P fun y e => y.startsOther P e = false) (.start s) y) :
    y.NoticesInit ∧ ∀ e y', y.step P e = .ok y' →
      (y'.NoticesInit ↔ y.startsOther P e = false) := by
  have hinv : Remembers y := by
    refine hy.invariant (I := Remembers) (.start (booted_of_bootstrap hn hs)) ?_
    rintro y e y' hinv ⟨hother, hstep⟩
    exact hinv.step hother hstep
  refine ⟨hinv.noticesInit, ?_⟩
  intro e y' hstep
  refine ⟨?_, fun hother => (hinv.step hother hstep).noticesInit⟩
  intro hnotices
  by_contra hother
  rw [Bool.not_eq_false] at hother
  cases e with
  | spawnExecutable loaded => exact (hinv.spawnExecutable hstep).2 hother hnotices
  | spawnInitProcess | noteInitExit | servicePendingRestart | op => cases hother

theorem exists_of_evaluateInit (P : Platform) (n : ℕ) (guard : InitSystem → InitEvent → Bool)
    (events : List InitEvent) [DecidablePred Q]
    (h : ((bootstrap P n).toOption.any fun s => (events.foldlM (attempt guard (fun y e => y.step P
      e) fun _ _ y => y) (.start s)).any (Q ·)) = true) :
    ∃ s y, bootstrap P n = .ok s ∧
      Reachable (InitStep P fun y e => guard y e = true) (.start s) y ∧ Q y :=
  exists_of_attempts (fun _ _ _ hguard hstep => ⟨hguard, hstep⟩) h

/-- Init is started, exits, is restarted, and tries to spawn a program that cannot be loaded. -/
theorem init_exit_noticed_restarted : ∃ s y, bootstrap examplePlatform 3 = .ok s ∧
    Reachable (InitStep examplePlatform fun y e => y.startsOther examplePlatform e = false)
      (.start s) y ∧ y.init = some 4 ∧ y.served = 1 ∧ y.NoticesInit := by
  obtain ⟨s, y, hs, ⟨events, hrun⟩, hinit, hserved⟩ := exists_of_evaluateInit examplePlatform 3
    (fun y e => !y.startsOther examplePlatform e)
    [.spawnInitProcess (.ok 0x2000), .noteInitExit 3 3 1, .servicePendingRestart (.ok 0x3000),
      .spawnExecutable (.error .load)]
    (Q := fun y => y.init = some 4 ∧ y.served = 1) (by decide +kernel)
  have hy : Reachable (InitStep examplePlatform fun y e =>
      y.startsOther examplePlatform e = false) (.start s) y :=
    ⟨events, hrun.mono fun y e y' hstep => ⟨by simpa using hstep.1, hstep.2⟩⟩
  exact ⟨s, y, hs, hy, hinit, hserved,
    (init_exit_noticed_iff examplePlatform (by decide) hs hy).1⟩

/-- Init is started and spawns a program. The exit of the program is taken for that of init and
starts a second init process, and the exit of the first is missed. -/
theorem spawned_exit_restarts_init : ∃ s y, bootstrap examplePlatform 3 = .ok s ∧
    Reachable (InitStep examplePlatform fun _ _ => True) (.start s) y ∧ y.init = some 3 ∧
    (noteInitExit y.exec 4 4 0).1.isSome = true ∧
    (noteInitExit y.exec 4 4 0).2.restartPending = true ∧
    (noteInitExit (noteInitExit y.exec 4 4 0).2 3 3 0).1 = none := by
  obtain ⟨s, y, hs, ⟨events, hrun⟩, hlast⟩ := exists_of_evaluateInit examplePlatform 3
    (fun _ _ => true) [.spawnInitProcess (.ok 0x2000), .spawnExecutable (.ok 0x3000)]
    (Q := fun y => y.init = some 3 ∧ (noteInitExit y.exec 4 4 0).1.isSome = true ∧
      (noteInitExit y.exec 4 4 0).2.restartPending = true ∧
      (noteInitExit (noteInitExit y.exec 4 4 0).2 3 3 0).1 = none) (by decide +kernel)
  exact ⟨s, y, hs, ⟨events, hrun.mono fun _ _ _ hstep => ⟨trivial, hstep.2⟩⟩, hlast⟩

end Hxnu.Exec
