import Hxnu.Lib.Fallible
import Hxnu.Sched.Runs

/-!
# Descriptor tables of threads

Each thread has a table of descriptors. Scheduling does not touch the tables: only `create_thread`
empties the table of the slot it fills, and `fork_current_thread` copies the table of the parent.

## Main definitions

* `Scheduler.fdTables`: the tables of all slots.
* `Scheduler.getFdTable`, `Scheduler.setFdTable`: the table of the current thread.
* `Steady`: what switching, blocking and ending threads keeps.

## Main results

* `Op.exec_steady`: the operations that are of this kind.
* `Op.exec_fdTables`: what an operation does to the tables.
* `bootstrap_fdTables`: all tables are empty after boot.
-/

namespace Hxnu.Sched

open Scheduler Function

variable {s' s : Scheduler} {P : Platform}

/-- The table of a thread: the index of the open file of each descriptor. -/
abbrev FdTable : Type := Fin maxProcessFds → Option ℕ

namespace Scheduler

variable {s s' : Scheduler} {slot : Slot}

def fdTables (s : Scheduler) : Slot → FdTable := fun slot => (s.threads slot).fdTable

/-- `get_fd_table`: the table of the current thread. -/
def getFdTable (s : Scheduler) : FdTable :=
  match s.currentSlot with
  | some slot => s.fdTables slot
  | none => fun _ => none

/-- `set_fd_table`. -/
def setFdTable (s : Scheduler) (table : FdTable) : Scheduler :=
  match s.currentSlot with
  | some slot => s.setThread slot { s.threads slot with fdTable := table }
  | none => s

/-! ### Small steps -/

theorem fdTables_congr (h : s'.threads = s.threads) : s'.fdTables = s.fdTables := by
  funext slot
  rw [fdTables, h]
  rfl

theorem fdTables_setThread (slot : Slot) (t : Thread) :
    (s.setThread slot t).fdTables = update s.fdTables slot t.fdTable := by
  funext x
  by_cases hx : x = slot
  · subst hx
    rw [fdTables, setThread_threads, update_self, update_self]
  · rw [fdTables, setThread_threads, update_of_ne hx, update_of_ne hx]
    rfl

/-- A thread that keeps its table. -/
theorem fdTables_setThread_of_eq (h : t.fdTable = (s.threads slot).fdTable) :
    (s.setThread slot t).fdTables = s.fdTables := by
  rw [fdTables_setThread, h]
  exact update_eq_self slot s.fdTables

theorem setFdTable_of_some (h : s.currentSlot = some slot) (table : FdTable) :
    (s.setFdTable table).fdTables = update s.fdTables slot table := by
  rw [setFdTable, h]
  exact fdTables_setThread slot _

theorem getFdTable_of_some (h : s.currentSlot = some slot) : s.getFdTable = s.fdTables slot := by
  rw [getFdTable, h]

/-- Writing back the same table changes nothing. -/
theorem setFdTable_getFdTable (s : Scheduler) : s.setFdTable s.getFdTable = s := by
  rw [setFdTable, getFdTable]
  cases s.currentSlot with
  | none => rfl
  | some slot =>
    have hthread : ({ s.threads slot with fdTable := s.fdTables slot } : Thread) = s.threads slot :=
      rfl
    simp only [hthread, setThread, update_eq_self]

@[simp] theorem currentSlot_setFdTable (table : FdTable) :
    (s.setFdTable table).currentSlot = s.currentSlot := by
  rw [setFdTable]
  split <;> rfl

/-- Nothing else about a thread changes with its table. -/
theorem setFdTable_threads {β : Type} (f : Thread → β)
    (hf : ∀ (t : Thread) (table : FdTable), f { t with fdTable := table } = f t) (table : FdTable)
    (x : Slot) : f ((s.setFdTable table).threads x) = f (s.threads x) := by
  rw [setFdTable]
  split
  · rename_i slot _
    rw [setThread_threads]
    by_cases hx : x = slot
    · rw [hx, update_self, hf]
    · rw [update_of_ne hx]
  · rfl

theorem setFdTable_setFdTable (t table : FdTable) :
    (s.setFdTable t).setFdTable table = s.setFdTable table := by
  cases hc : s.currentSlot with
  | none => simp only [setFdTable, hc]
  | some slot => simp only [setFdTable, hc, setThread, update_self, update_idem]

theorem getLsbD_enqueue {p : Priority}
    (h : (s.enqueue slot).2.runqueueBitmap.getLsbD p = true) :
    s.runqueueBitmap.getLsbD p = true ∨ p = s.priorityForThread slot := by
  rw [enqueue] at h
  split_ifs at h
  · rw [BitVec.getLsbD_or, Bool.or_eq_true, BitVec.getLsbD_twoPow, Bool.and_eq_true,
      decide_eq_true_eq] at h
    exact h.imp_right fun heq => Fin.ext (of_decide_eq_true heq.2).symm
  · exact .inl h

theorem getLsbD_shrinkQueue {p : Priority}
    (h : (s.shrinkQueue p' q).runqueueBitmap.getLsbD p = true) :
    s.runqueueBitmap.getLsbD p = true := by
  rw [shrinkQueue_runqueueBitmap] at h
  split_ifs at h
  · rw [BitVec.getLsbD_and, Bool.and_eq_true] at h
    exact h.1
  · exact h

theorem fdTables_freeSlot : (s.freeSlot slot).fdTables = s.fdTables := by
  have hthreads : (s.freeSlot slot).threads = (s.setState slot .unused).threads := rfl
  rw [fdTables_congr hthreads]
  exact fdTables_setThread_of_eq rfl

end Scheduler

/-! ### What scheduling keeps -/

/-- A thread without its state, its counters and its saved context. -/
def Thread.bare (t : Thread) : Thread := { t.core with context := {} }

theorem eq_of_bare {β : Type} {t t' : Thread} (h : t.bare = t'.bare) (f : Thread → β)
    (hf : ∀ t, f t.bare = f t) : f t = f t' := by
  rw [← hf, h, hf]

/-- The threads stay who they are, only those in `E` exit, and a queue that fills is that of a
thread's priority. -/
structure Steady (E : Slot → Prop) (s s' : Scheduler) : Prop where
  fixed : s'.fixed = s.fixed
  bare : ∀ x, (s'.threads x).bare = (s.threads x).bare
  exits : ∀ x, (s'.threads x).state = .exited → (s.threads x).state = .exited ∨ E x
  bits : ∀ p : Priority, s'.runqueueBitmap.getLsbD p = true →
    s.runqueueBitmap.getLsbD p = true ∨ ∃ x, s.priorityForThread x = p

namespace Steady

variable {E : Slot → Prop} {s s' s'' : Scheduler} {slot : Slot} {t : Thread} {state : ThreadState}

theorem fdTables (h : Steady E s s') : s'.fdTables = s.fdTables :=
  funext fun x => eq_of_bare (h.bare x) Thread.fdTable fun _ => rfl

theorem threadGroupId (h : Steady E s s') (x : Slot) :
    (s'.threads x).threadGroupId = (s.threads x).threadGroupId :=
  eq_of_bare (h.bare x) Thread.threadGroupId fun _ => rfl

theorem priorityForThread (h : Steady E s s') : s'.priorityForThread = s.priorityForThread := by
  funext x
  simp only [Scheduler.priorityForThread,
    eq_of_bare (h.bare x) Thread.basePriority fun _ => rfl]

theorem refl (s : Scheduler) : Steady E s s := ⟨rfl, fun _ => rfl, fun _ => .inl, fun _ => .inl⟩

theorem trans (h : Steady E s s') (h' : Steady E s' s'') : Steady E s s'' :=
  ⟨h'.fixed.trans h.fixed, fun x => (h'.bare x).trans (h.bare x),
    fun x hx => (h'.exits x hx).elim (h.exits x) .inr,
    fun p hp => (h'.bits p hp).elim (h.bits p) (h.priorityForThread ▸ .inr)⟩

theorem of_threads (hfixed : s'.fixed = s.fixed) (h : s'.threads = s.threads)
    (hbits : ∀ p : Priority, s'.runqueueBitmap.getLsbD p = true →
      s.runqueueBitmap.getLsbD p = true ∨ ∃ x, s.priorityForThread x = p) : Steady E s s' :=
  ⟨hfixed, fun x => by rw [h], fun x hx => .inl (by rwa [h] at hx), hbits⟩

theorem setThread (hbare : t.bare = (s.threads slot).bare)
    (hexit : t.state = .exited → (s.threads slot).state = .exited ∨ E slot) :
    Steady E s (s.setThread slot t) := by
  refine ⟨rfl, fun x => ?_, fun x hx => ?_, fun _ => .inl⟩
  · rw [setThread_threads]
    by_cases hslot : x = slot
    · rw [hslot, update_self, hbare]
    · rw [update_of_ne hslot]
  · rw [setThread_threads] at hx
    by_cases hslot : x = slot
    · rw [hslot, update_self] at hx
      rw [hslot]
      exact hexit hx
    · rw [update_of_ne hslot] at hx
      exact .inl hx

theorem setState (hstate : state = .exited → E slot) : Steady E s (s.setState slot state) :=
  setThread rfl fun h => .inr (hstate h)

theorem enqueue : Steady E s (s.enqueue slot).2 :=
  of_threads (enqueue_fixed s slot) (enqueue_threads s slot)
    fun _ hp => (getLsbD_enqueue hp).imp_right fun heq => ⟨slot, heq.symm⟩

/-- A thread becomes runnable. -/
theorem place : Steady E s ((s.setState slot .runnable).enqueue slot).2 :=
  have hrunnable : Steady E s (s.setState slot .runnable) := setState nofun
  hrunnable.trans enqueue

theorem preempt : Steady E s (s.preempt slot) := by
  rw [Scheduler.preempt]
  split_ifs
  · exact place
  · exact refl s

theorem setCurrent : Steady E s (s.setCurrent slot) :=
  have hrunning : Steady E s (s.setState slot .running) := setState nofun
  hrunning.trans (of_threads rfl rfl fun _ => .inl)

theorem addDispatch : Steady E s (s.addDispatch slot) := setThread rfl .inl

theorem removeQueued : Steady E s (s.removeQueued slot) :=
  of_threads (removeQueued_fixed s slot) (removeQueued_threads s slot) fun p hp => .inl <| by
    rw [Scheduler.removeQueued] at hp
    split at hp
    · exact getLsbD_shrinkQueue hp
    · exact hp

theorem dequeue (h : s.dequeue p = some (slot, s')) : Steady E s s' := by
  rw [Scheduler.dequeue] at h
  split at h
  · cases h
  · cases h
    exact of_threads rfl rfl fun _ hp => .inl (getLsbD_shrinkQueue hp)

/-- A thread taken from a queue gets the processor. -/
theorem dispatch : Steady E s ((s.setCurrent slot).addDispatch slot).addSwitch :=
  (setCurrent.trans addDispatch).trans (of_threads rfl rfl fun _ => .inl)

/-- What a loop body keeps, the loop keeps. -/
theorem of_forEachSlot {β : Type} {f : β → Scheduler} {n : ℕ} {body : β → Slot → β}
    {init result : β} (hbody : ∀ acc slot, Steady E (f init) (f acc) →
      Steady E (f acc) (f (body acc slot))) (h : forEachSlot n body init = .ok result) :
    Steady E (f init) (f result) := by
  rw [forEachSlot] at h
  split_ifs at h
  cases h
  refine List.foldlRecOn _ body (motive := fun acc => Steady E (f init) (f acc)) (refl _) ?_
  exact fun acc hacc slot _ => hacc.trans (hbody acc slot hacc)

theorem contextSwitchPair (h : s.contextSwitchPair = .ok r) : Steady E s r.2 := by
  unfold Scheduler.contextSwitchPair at h
  split at h
  · cases h
    exact refl s
  split at h
  · cases h
    exact refl s
  simp only at h
  split at h
  · cases h
    exact preempt
  · rename_i hdequeue
    split_ifs at h
    cases h
    exact (preempt.trans (dequeue hdequeue)).trans dispatch

theorem yieldCurrentUserThread (h : s.yieldCurrentUserThread rsp = .ok r) : Steady E s r.2 := by
  unfold Scheduler.yieldCurrentUserThread at h
  split_ifs at h
  · cases h
    exact refl s
  split at h
  · cases h
    exact refl s
  rename_i current _
  simp only at h
  split_ifs at h
  · cases h
    exact refl s
  have hsaved : Steady E s (s.setThread current { s.threads current with
      context := { (s.threads current).context with rsp := rsp } }) := setThread rfl .inl
  have hpreempt := hsaved.trans (preempt : Steady E _ (Scheduler.preempt _ current))
  split at h
  · cases h
    exact hpreempt
  split at h
  · cases h
  rename_i next s₁ hdequeue
  have hnext := hpreempt.trans (dequeue hdequeue)
  split_ifs at h
  · cases h
    exact hnext.trans (setState nofun)
  · cases h
    exact hnext.trans dispatch

theorem blockCurrentThread : Steady E s s.blockCurrentThread := by
  rw [Scheduler.blockCurrentThread]
  split
  · exact refl s
  split_ifs
  · exact setState (by simp)
  · exact refl s

theorem unblockThreadWithResult (pid tid : ℕ) :
    Steady E s (s.unblockThreadWithResult pid tid).2 := by
  rw [Scheduler.unblockThreadWithResult]
  split
  · exact place
  · exact refl s

theorem activateThreadSlot (target : Slot) : Steady E s (s.activateThreadSlot target).2 := by
  rcases activateThreadSlot_cases s target with hsame | ⟨-, -, hactivated⟩
  · rw [hsame]
    exact refl s
  · have hcurrent : Steady E s (s.currentSlot.elim s s.preempt) := by
      cases s.currentSlot with
      | none => exact refl s
      | some c => exact preempt
    rw [hactivated]
    exact ((hcurrent.trans removeQueued).trans setCurrent).trans (of_threads rfl rfl fun _ => .inl)

theorem initialContextPair (hE : ∀ x, E x) (h : s.initialContextPair = .ok r) : Steady E s r.2 := by
  rcases initialContextPair_cases h with hr | ⟨b, -, hr | ⟨target, hr⟩⟩
  · rw [hr]
    exact refl s
  · rw [hr]
    exact setState fun _ => hE b
  · rw [hr]
    have hexited : Steady E s (s.setState b .exited) := setState fun _ => hE b
    exact hexited.trans (activateThreadSlot target)

/-- **The end of a group** makes only its threads exit. -/
theorem requestExitGroup {status : ℤ} {r : Option ExitGroupRecord × Scheduler}
    (hE : ∀ c x, s.currentSlot = some c →
      (s.threads x).threadGroupId = (s.threads c).threadGroupId → E x)
    (h : s.requestExitGroup status = .ok r) : Steady E s r.2 := by
  unfold Scheduler.requestExitGroup at h
  split_ifs at h
  · cases h
    exact refl s
  split at h
  · cases h
    exact refl s
  rename_i c hc
  simp only at h
  split_ifs at h
  · cases h
    exact refl s
  obtain ⟨⟨s₁, count⟩, hloop, h⟩ := Fallible.bind_eq_ok.mp h
  have hexited : Steady E s s₁ := by
    refine of_forEachSlot (f := Prod.fst) (fun acc slot hacc => ?_) hloop
    rw [exitSlot]
    split_ifs with hgroup
    · have hslot : Steady E acc.1 (acc.1.setState slot .exited) :=
        setState fun _ => hE c slot hc ((hacc.threadGroupId slot).symm.trans hgroup.1)
      exact hslot.trans removeQueued
    · exact refl acc.1
  have hcleared (p : Prop) [Decidable p] : Steady E s (if p then s₁.clearCurrent else s₁) := by
    split_ifs
    · exact hexited.trans (of_threads rfl rfl fun _ => .inl)
    · exact hexited
  split at h
  · cases h
    exact hcleared _
  split at h
  · cases h
  · rename_i hdequeue
    cases h
    have hnext := (hcleared _).trans (dequeue hdequeue)
    exact (hnext.trans setCurrent).trans (of_threads rfl rfl fun _ => .inl)

end Steady

/-- The threads that an operation may make exit. -/
def Op.mayExit (s : Scheduler) (x : Slot) : Op → Prop
  | .initialContextPair => True
  | .requestExitGroup _ => ∃ c, s.currentSlot = some c ∧
      (s.threads x).threadGroupId = (s.threads c).threadGroupId
  | _ => False

/-- The operations that only switch, block, unblock and end threads. -/
def Op.isSteady : Op → Bool
  | .createUserThread _ | .forkCurrentThread _ | .reapChild _ _ => false
  | _ => true

theorem Moves.bare (h : Moves s s') (x : Slot) : (s'.threads x).bare = (s.threads x).bare := by
  rw [Thread.bare, h.core]
  rfl

theorem bare_saveRsp (x : Slot) : ((s.saveRsp c rsp).threads x).bare = (s.threads x).bare := by
  have hsteady : Steady (fun _ => False) s (s.saveRsp c rsp) := .setThread rfl .inl
  exact hsteady.bare x

theorem Op.exec_steady {op : Op} (hop : op.isSteady = true)
    (h : op.exec P s = .ok s') : Steady (op.mayExit s) s s' := by
  cases op with
  | createUserThread | forkCurrentThread | reapChild => cases hop
  | initialContextPair =>
    obtain ⟨r, hr, rfl⟩ := Fallible.map_eq_ok.mp h
    exact .initialContextPair (fun _ => trivial) hr
  | contextSwitchPair =>
    obtain ⟨r, hr, rfl⟩ := Fallible.map_eq_ok.mp h
    exact .contextSwitchPair hr
  | yieldCurrentUserThread rsp =>
    obtain ⟨r, hr, rfl⟩ := Fallible.map_eq_ok.mp h
    exact .yieldCurrentUserThread hr
  | blockCurrentThread =>
    cases h
    exact .blockCurrentThread
  | unblockThreadWithResult pid tid =>
    cases h
    exact .unblockThreadWithResult pid tid
  | requestExitGroup status =>
    obtain ⟨r, hr, rfl⟩ := Fallible.map_eq_ok.mp h
    exact .requestExitGroup (fun c x hc hgroup => ⟨c, hc, hgroup⟩) hr

/-- A new thread brings its own table. -/
theorem Spawned.fdTables (h : Spawned s slot t s') :
    s'.fdTables = update s.fdTables slot t.fdTable := by
  rw [← Scheduler.fdTables_setThread]
  exact Scheduler.fdTables_congr h.threads

/-- **What an operation does to the tables**: nothing, or a new thread has no descriptors, or those
of its parent. -/
theorem Op.exec_fdTables {op : Op} (h : op.exec P s = .ok s') : s'.fdTables = s.fdTables ∨
      (∃ pageTable child, op = .createUserThread pageTable ∧
        s'.fdTables = update s.fdTables child fun _ => none) ∨
      ∃ newCr3 parent child, op = .forkCurrentThread newCr3 ∧ s.currentSlot = some parent ∧
        s'.fdTables = update s.fdTables child (s.fdTables parent) := by
  by_cases hop : op.isSteady = true
  · exact .inl (Op.exec_steady hop h).fdTables
  cases op with
  | createUserThread pageTable =>
    cases h
    rcases createUserThread_spawns s P pageTable with ⟨e, hcreate⟩ | ⟨slot, hspawned, -⟩
    · rw [hcreate]
      exact .inl rfl
    · exact .inr (.inl ⟨pageTable, _, rfl, hspawned.fdTables⟩)
  | forkCurrentThread newCr3 =>
    cases h
    rcases forkCurrentThread_cases s newCr3 with
      ⟨e, hfork⟩ | ⟨-, e, hfork⟩ | ⟨parent, child, -, hparent, -, -, hfork⟩
    · rw [hfork]
      exact .inl rfl
    · rw [hfork]
      exact .inl rfl
    · rw [hfork]
      exact .inr (.inr ⟨newCr3, parent, child, rfl, hparent, Spawned.enqueue.fdTables⟩)
  | reapChild parentPid targetPid =>
    cases h
    rw [Scheduler.reapChild]
    split
    · exact .inl Scheduler.fdTables_freeSlot
    · exact .inl rfl
  | initialContextPair | contextSwitchPair | yieldCurrentUserThread | blockCurrentThread
  | unblockThreadWithResult | requestExitGroup => exact absurd rfl hop

namespace Steady

variable {E : Slot → Prop} {s s' : Scheduler}

theorem chargeCurrent : Steady E s s.chargeCurrent := by
  unfold Scheduler.chargeCurrent
  split
  · exact refl s
  · have hcharged (c : Slot) : Steady E s (s.setThread c
        { s.threads c with totalTicks := Word.satAdd (s.threads c).totalTicks 1 }) :=
      setThread rfl .inl
    simp only
    split_ifs
    · exact (hcharged _).trans preempt
    · exact hcharged _
    · exact refl s

theorem onTimerTick : Steady E s s.onTimerTick.2 := by
  unfold Scheduler.onTimerTick
  split
  · exact refl s
  · simp only
    split
    · exact chargeCurrent.trans (of_threads rfl rfl fun _ => .inl)
    · split
      · exact chargeCurrent
      · rename_i next s₁ hdequeue
        have hnext : Steady E s s₁ := chargeCurrent.trans (dequeue hdequeue)
        refine .trans ?_ (setCurrent.trans addDispatch)
        split_ifs
        · exact hnext.trans (of_threads rfl rfl fun _ => .inl)
        · exact hnext

theorem restoreBootstrapAsCurrent (h : s.restoreBootstrapAsCurrent = .ok s') : Steady E s s' := by
  unfold Scheduler.restoreBootstrapAsCurrent at h
  obtain ⟨b, -, h⟩ := Fallible.bind_eq_ok.mp h
  cases b with
  | none =>
    cases h
    exact refl s
  | some b =>
    obtain ⟨s₁, hloop, h⟩ := Fallible.bind_eq_ok.mp h
    cases h
    have hpreempted : Steady E s s₁ := of_forEachSlot (f := id) (fun _ _ _ => preempt) hloop
    exact ((hpreempted.trans removeQueued).trans setCurrent).trans addDispatch

end Steady

theorem fdTables_initializeBootstrapThreads (P : Platform) :
    (Scheduler.initializeBootstrapThreads P).2.fdTables = fun _ _ => none := by
  funext slot
  by_cases hslot : 2 ≤ (slot : ℕ)
  · exact congrArg Thread.fdTable (booting_threads P hslot)
  · rcases eq_zero_or_one hslot with rfl | rfl <;> rfl

/-- **All tables are empty after boot.** -/
theorem bootstrap_fdTables (h : bootstrap P n = .ok s) : s.fdTables = fun _ _ => none := by
  have hticks (n : ℕ) : Steady (fun _ => False) (Scheduler.initializeBootstrapThreads P).2
      ((fun s : Scheduler => s.onTimerTick.2)^[n] (Scheduler.initializeBootstrapThreads P).2) := by
    induction n with
    | zero => exact .refl _
    | succ n ih =>
      rw [iterate_succ_apply']
      exact ih.trans .onTimerTick
  have hboot := (hticks n).trans (.restoreBootstrapAsCurrent h)
  rw [hboot.fdTables, fdTables_initializeBootstrapThreads]

end Hxnu.Sched
