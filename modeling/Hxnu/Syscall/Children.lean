import Hxnu.Syscall.Wait

/-!
# Which children `wait4` finds

`reap_child` reads the children of a process from the thread table. A reaped child leaves its slot
free but not cleared, so that it is still found until the slot is used again; and an exit from a slot
at or beyond `thread_count` is not noticed, since the loop of `request_exit_group` does not reach it.

The runs here carry what the table should say: which children were born, which processes exited and
which exits went unnoticed. They start where `bootstrap()` returns; threads are created, fork, yield,
switch, exit and reap in any order.

## Main definitions

* `Family`, `FamilyStep`: the runs with the children.
* `Records`: what the table says about the children.
* `ReapAnswers`: `reap_child` and `wait4` answer for the children there are.
* `Misread`: the states in which they do not.

## Main results

* `Records.switched`, `Records.groupLeft`, `Records.spawned`, `Records.freeSlot`: what each change of
  the table keeps.
* `reap_answers_iff`: the answers are right exactly if the table is not misread.
-/

namespace Hxnu.Syscall

open Word Sched Sched.Scheduler Function List

/-! ### Runs with the children -/

/-- The child that a fork makes, with its parent. -/
def births (s : Scheduler) : Op → List (ℕ × ℕ)
  | .forkCurrentThread newCr3 =>
    match (s.forkCurrentThread newCr3).1 with
    | .ok child => [(currentProcessId s, child)]
    | .error _ => []
  | _ => []

/-- The processes that an operation ends without noticing: `request_exit_group` looks at the slots
below `thread_count` only. -/
def missed (s : Scheduler) (op : Op) : List ℕ :=
  match s.currentSlot with
  | some c => if s.threadCount ≤ c then (ends s op).map Prod.fst else []
  | none => []

/-- A run with the children that were born, as pairs of parent and child, and the processes whose
exit went unnoticed. -/
structure Family where
  history : History
  born : List (ℕ × ℕ)
  unnoticed : List ℕ
  /-- Only threads were created so far. -/
  fresh : Bool

def createsOnly : Op → Bool
  | .createUserThread _ => true
  | _ => false

namespace Family

abbrev sched (f : Family) : Scheduler := f.history.run.sched

/-- The processes that called exit. -/
def ended (f : Family) : List ℕ := f.history.ended.map Prod.fst

def start (s : Scheduler) : Family := ⟨.start s, [], [], true⟩

def next (f : Family) (op : Op) (s : Scheduler) : Family where
  history := f.history.next op s
  born := f.born ++ births f.sched op
  unnoticed := f.unnoticed ++ missed f.sched op
  fresh := f.fresh && createsOnly op

end Family

/-- The slot that `create_thread` writes to is free, or there is none. -/
def createsInFree (s : Scheduler) : Bool :=
  if h : s.threadCount < maxThreads then (s.threads ⟨s.threadCount, h⟩).state == .unused else true

/-- The operations of the runs: threads are created in free slots, and only while `next_thread_id`
can be incremented. The first process may be entered before anything else happens. -/
def familyOps (f : Family) : Op → Bool
  | .createUserThread _ =>
    createsInFree f.sched && decide (f.sched.nextThreadId + 1 < 2 ^ 64)
  | .forkCurrentThread _ => decide (f.sched.nextThreadId + 1 < 2 ^ 64)
  | .initialContextPair => f.fresh
  | .contextSwitchPair | .yieldCurrentUserThread _ | .requestExitGroup _ | .reapChild _ _ => true
  | .blockCurrentThread | .unblockThreadWithResult _ _ => false

/-- One operation of a run. -/
def FamilyStep (P : Platform) (f : Family) (op : Op) (f' : Family) : Prop :=
  familyOps f op = true ∧ ∃ s, op.exec P f.sched = .ok s ∧ f' = f.next op s

theorem exists_of_evaluateFamily (P : Platform) (n : ℕ) (ops : List Op) [DecidablePred Q]
    (h : ((bootstrap P n).toOption.any fun s => (ops.foldlM (attempt familyOps (fun f op => op.exec
      P f.sched) Family.next) (.start s)).any (Q ·)) = true) :
    ∃ s f, bootstrap P n = .ok s ∧ Reachable (FamilyStep P) (.start s) f ∧ Q f :=
  exists_of_attempts (fun _ _ s hguard hs => ⟨hguard, s, hs, rfl⟩) h

/-! ### What the table says -/

/-- What the table says about the children `born`, the reaped ones `R`, the processes that called
exit and those whose exit went unnoticed. -/
structure Records (s : Scheduler) (born : List (ℕ × ℕ)) (R ended unnoticed : List ℕ) : Prop where
  process : ∀ x, (s.threads x).processId = (s.threads x).threadGroupId
  born_of_slot : ∀ x, (s.threads x).state ≠ .unused → (s.threads x).parentProcessId ≠ 0 →
    ((s.threads x).parentProcessId, (s.threads x).id) ∈ born
  slot_of_born : ∀ p c, (p, c) ∈ born → c ∉ R → ∃ x, (s.threads x).state ≠ .unused ∧
    (s.threads x).id = c ∧ (s.threads x).parentProcessId = p
  exited_iff : ∀ x, (s.threads x).state ≠ .unused → (s.threads x).parentProcessId ≠ 0 →
    ((s.threads x).state = .exited ↔ (s.threads x).id ∈ ended ∧ (s.threads x).id ∉ unnoticed)
  /-- A process that called exit does not run again. -/
  stopped : ∀ x, (s.threads x).state ≠ .unused → (s.threads x).id ∈ ended →
    (s.threads x).state = .exited ∨ (s.threads x).state = .running ∧ s.currentSlot ≠ some x
  ended_lt : ∀ c ∈ ended, c < s.nextThreadId
  unnoticed_ended : ∀ c ∈ unnoticed, c ∈ ended

/-- The thread in a slot runs or waits. -/
def Awake (s : Scheduler) (x : Slot) : Prop :=
  (s.threads x).state = .running ∨ (s.threads x).state = .runnable

theorem Awake.ne_unused (h : Awake s x) : (s.threads x).state ≠ .unused := by
  rcases h with h | h <;> rw [h] <;> exact nofun

theorem Awake.ne_exited (h : Awake s x) : (s.threads x).state ≠ .exited := by
  rcases h with h | h <;> rw [h] <;> exact nofun

namespace Records

variable {s s' : Scheduler} {born : List (ℕ × ℕ)} {R ended unnoticed : List ℕ} {c slot : Slot}

section

variable (h : Records s born R ended unnoticed)

include h

/-- Parents and children stay in their slots. -/
theorem of_kept (hkept : Kept s s')
    (hunused : ∀ x, (s'.threads x).state = .unused ↔ (s.threads x).state = .unused) :
    (∀ x, (s'.threads x).processId = (s'.threads x).threadGroupId) ∧
    (∀ x, (s'.threads x).state ≠ .unused → (s'.threads x).parentProcessId ≠ 0 →
      ((s'.threads x).parentProcessId, (s'.threads x).id) ∈ born) ∧
    ∀ p c, (p, c) ∈ born → c ∉ R → ∃ x, (s'.threads x).state ≠ .unused ∧
      (s'.threads x).id = c ∧ (s'.threads x).parentProcessId = p := by
  simp only [hkept.processId, hkept.threadGroupId, hkept.parentProcessId, hkept.id, ne_eq, hunused]
  exact ⟨h.process, h.born_of_slot, h.slot_of_born⟩

/-- Threads are switched, but none appears, disappears, exits or resumes after an exit. -/
theorem of_states (hkept : Kept s s')
    (hstate : ∀ x, (s'.threads x).state = (s.threads x).state ∨ Awake s' x ∧ Awake s x)
    (hstopped : ∀ x, (s.threads x).state = .running → s.currentSlot ≠ some x →
      (s'.threads x).state = .running ∧ s'.currentSlot ≠ some x) :
    Records s' born R ended unnoticed := by
  have hunused (x : Slot) : (s'.threads x).state = .unused ↔ (s.threads x).state = .unused := by
    rcases hstate x with heq | ⟨hx', hx⟩
    · rw [heq]
    · exact iff_of_false hx'.ne_unused hx.ne_unused
  have hexited (x : Slot) : (s'.threads x).state = .exited ↔ (s.threads x).state = .exited := by
    rcases hstate x with heq | ⟨hx', hx⟩
    · rw [heq]
    · exact iff_of_false hx'.ne_exited hx.ne_exited
  have hused {x : Slot} (hx : (s'.threads x).state ≠ .unused) :
      (s.threads x).state ≠ .unused := (hunused x).not.mp hx
  obtain ⟨hprocess, hborn, hslot⟩ := h.of_kept hkept hunused
  refine ⟨hprocess, hborn, hslot, ?_, ?_, ?_, h.unnoticed_ended⟩
  · intro x hx hparent
    rw [hkept.parentProcessId] at hparent
    rw [hexited, hkept.id]
    exact h.exited_iff x (hused hx) hparent
  · intro x hx hmem
    rw [hkept.id] at hmem
    rw [hexited]
    exact (h.stopped x (hused hx) hmem).imp_right fun hrun => hstopped x hrun.1 hrun.2
  · intro c hc
    rw [hkept.nextThreadId]
    exact h.ended_lt c hc

/-- Another thread is dispatched. -/
theorem switched {next : Slot} (hs : Switched s c next s') (hrun : (s.threads c).state = .running) :
    Records s' born R ended unnoticed := by
  have hstate := hs.switchedTo.state
  have hready : (s.threads next).state = .runnable ∨ next = c :=
    hs.switchedTo.ready.imp_right And.left
  refine h.of_states hs.kept ?_ ?_
  · intro x
    by_cases hx : x = next
    · refine .inr ⟨.inl ((hstate x).trans (if_pos hx)), ?_⟩
      rw [hx]
      rcases hready with hready | rfl
      · exact .inr hready
      · exact .inl hrun
    by_cases hxc : x = c
    · subst hxc
      exact .inr ⟨.inr ((hstate x).trans ((if_neg hx).trans (if_pos ⟨rfl, hrun⟩))), .inl hrun⟩
    · exact .inl ((hstate x).trans ((if_neg hx).trans (if_neg fun heq => hxc heq.1)))
  · intro x hx hcur
    have hxc : x ≠ c := by
      rintro rfl
      exact hcur hs.current
    have hxn : x ≠ next := by
      rintro rfl
      rcases hready with hready | rfl
      · rw [hx] at hready
        cases hready
      · exact hxc rfl
    refine ⟨?_, ?_⟩
    · rw [hstate, if_neg hxn, if_neg fun heq => hxc heq.1]
      exact hx
    · rw [hs.switchedTo.current]
      exact fun heq => hxn (Option.some.inj heq).symm

/-- A failed fork uses up an identifier. -/
theorem addThread (hnext : s.nextThreadId + 1 < 2 ^ 64) :
    Records s.addThread born R ended unnoticed := by
  refine ⟨h.process, h.born_of_slot, h.slot_of_born, h.exited_iff, h.stopped, ?_,
    h.unnoticed_ended⟩
  intro c hc
  rw [show s.addThread.nextThreadId = s.nextThreadId + 1 from satAdd_of_lt hnext]
  exact (h.ended_lt c hc).trans (Nat.lt_succ_self _)

/-- **A new thread** in a free slot; a fork notes it as a child of its parent. -/
theorem spawned (hs : Spawned s slot t s')
    (hfree : (s.threads slot).state = .unused) (hid : t.id = s.nextThreadId)
    (hready : t.state = .runnable) (hprocess : t.processId = t.threadGroupId)
    (hnext : s.nextThreadId + 1 < 2 ^ 64) (new : List (ℕ × ℕ))
    (hnew : ∀ p c, (p, c) ∈ new → p = t.parentProcessId ∧ c = t.id)
    (hborn : t.parentProcessId ≠ 0 → (t.parentProcessId, t.id) ∈ new) :
    Records s' (born ++ new) R ended unnoticed := by
  have hself : s'.threads slot = t := by rw [hs.threads, update_self]
  have hother {x : Slot} (hx : x ≠ slot) : s'.threads x = s.threads x := by
    rw [hs.threads, update_of_ne hx]
  have hnext' : s'.nextThreadId = s.nextThreadId + 1 :=
    (congrArg Fixed.nextThreadId hs.fixed).trans (satAdd_of_lt hnext)
  have hunended : t.id ∉ ended := fun hmem => lt_irrefl _ (hid ▸ h.ended_lt _ hmem)
  refine ⟨?_, ?_, ?_, ?_, ?_, ?_, h.unnoticed_ended⟩
  · intro x
    by_cases hx : x = slot
    · rw [hx, hself]
      exact hprocess
    · rw [hother hx]
      exact h.process x
  · intro x hused hparent
    rw [mem_append]
    by_cases hx : x = slot
    · rw [hx, hself] at hparent ⊢
      exact .inr (hborn hparent)
    · rw [hother hx] at hused hparent ⊢
      exact .inl (h.born_of_slot x hused hparent)
  · intro p c hmem hc
    rcases mem_append.mp hmem with hmem | hmem
    · obtain ⟨x, hx, hidx, hparent⟩ := h.slot_of_born p c hmem hc
      have hne : x ≠ slot := by
        rintro rfl
        exact hx hfree
      rw [← hother hne] at hx hidx hparent
      exact ⟨x, hx, hidx, hparent⟩
    · obtain ⟨rfl, rfl⟩ := hnew p c hmem
      refine ⟨slot, ?_, ?_, ?_⟩
      · rw [hself, hready]
        exact nofun
      · rw [hself]
      · rw [hself]
  · intro x hused hparent
    by_cases hx : x = slot
    · rw [hx, hself, hready]
      exact iff_of_false nofun fun hmem => hunended hmem.1
    · rw [hother hx] at hused hparent ⊢
      exact h.exited_iff x hused hparent
  · intro x hused hmem
    by_cases hx : x = slot
    · rw [hx, hself] at hmem
      exact absurd hmem hunended
    · rw [hother hx] at hused hmem ⊢
      rw [hs.currentSlot]
      exact h.stopped x hused hmem
  · intro c hc
    rw [hnext']
    exact (h.ended_lt c hc).trans (Nat.lt_succ_self _)

end

/-- **A reap** takes the child out of the table. -/
theorem freeSlot (slot : Slot) (h : Records s born R ended unnoticed) :
    Records (s.freeSlot slot) born (R ++ [(s.threads slot).id]) ended unnoticed := by
  refine ⟨?_, ?_, ?_, ?_, ?_, ?_, h.unnoticed_ended⟩
  · intro x
    by_cases hx : x = slot
    · rw [hx, freeSlot_self]
      exact h.process slot
    · rw [freeSlot_of_ne hx]
      exact h.process x
  · intro x hused
    have hx := ne_of_freeSlot hused
    rw [freeSlot_of_ne hx] at hused ⊢
    exact h.born_of_slot x hused
  · intro p c hborn hc
    rw [mem_append, not_or, mem_singleton] at hc
    obtain ⟨x, hx, hid, hparent⟩ := h.slot_of_born p c hborn hc.1
    have hxs : x ≠ slot := by
      rintro rfl
      exact hc.2 hid.symm
    rw [← freeSlot_of_ne hxs] at hx hid hparent
    exact ⟨x, hx, hid, hparent⟩
  · intro x hused
    have hx := ne_of_freeSlot hused
    rw [freeSlot_of_ne hx] at hused ⊢
    exact h.exited_iff x hused
  · intro x hused
    have hx := ne_of_freeSlot hused
    rw [freeSlot_of_ne hx] at hused ⊢
    rw [freeSlot_currentSlot]
    exact h.stopped x hused
  · intro c hc
    rw [freeSlot_nextThreadId]
    exact h.ended_lt c hc

/-- **An exit** stops the current process. It is noticed if the slot is below `thread_count`. -/
theorem groupLeft (h : Records s born R ended unnoticed) (hs : Settled s R)
    (hc : s.currentSlot = some c) (hgroup : (s.threads c).threadGroupId ≠ 0)
    (hleft : GroupLeft s c s') :
    Records s' born R (ended ++ [(s.threads c).processId])
      (unnoticed ++ if s.threadCount ≤ c then [(s.threads c).processId] else []) := by
  have hrun := hs.current c hc
  have hused : (s.threads c).state ≠ .unused :=
    hrun.trans_ne nofun
  have hidc : (s.threads c).processId = (s.threads c).id :=
    (h.process c).trans ((hs.numbered.group c).resolve_left hgroup)
  have hmoves := hs.numbered.moves_of_groupLeft hleft hused hgroup
  have hkept := Kept.of_moves hmoves
  have hused' {x : Slot} (hx : (s'.threads x).state ≠ .unused) :
      (s.threads x).state ≠ .unused := (hmoves.unused x).not.mp hx
  -- The exiting group consists of the current thread.
  have honly {x : Slot} (hx : (s.threads x).state ≠ .unused)
      (heq : (s.threads x).threadGroupId = (s.threads c).threadGroupId) : x = c := by
    have hx' : (s.threads x).threadGroupId ≠ 0 := heq ▸ hgroup
    exact hs.numbered.injective x c hx hused (((hs.numbered.group x).resolve_left hx').symm.trans
      (heq.trans ((hs.numbered.group c).resolve_left hgroup)))
  have hnotNext : s'.currentSlot ≠ some c := by
    intro hnext
    have hready := (hleft.next c hnext).1
    rw [hrun] at hready
    cases hready
  have hunended : (s.threads c).id ∉ ended := by
    intro hmem
    rcases h.stopped c hused hmem with hexited | ⟨-, hcur⟩
    · rw [hrun] at hexited
      cases hexited
    · exact hcur hc
  have hstatec : (s'.threads c).state = if (c : ℕ) < s.threadCount then .exited else .running := by
    rw [hleft.state]
    by_cases hlt : (c : ℕ) < s.threadCount
    · rw [if_pos ⟨hlt, rfl⟩, if_pos hlt]
    · rw [if_neg fun h => hlt h.1, if_neg hnotNext, if_neg hlt, hrun]
  have hstate {x : Slot} (hx : (s.threads x).state ≠ .unused) (hxc : x ≠ c) :
      (s'.threads x).state = if s'.currentSlot = some x then .running else (s.threads x).state := by
    rw [hleft.state, if_neg fun h => hxc (honly hx h.2)]
  have hmem {x : Slot} (hx : (s.threads x).state ≠ .unused) (hxc : x ≠ c) :
      (s.threads x).id ≠ (s.threads c).id := fun heq => hxc (hs.numbered.injective x c hx hused heq)
  obtain ⟨hprocess, hborn, hslot⟩ := h.of_kept hkept hmoves.unused
  rw [hidc]
  refine ⟨hprocess, hborn, hslot, ?_, ?_, ?_, ?_⟩
  · intro x hx hparent
    rw [hkept.parentProcessId] at hparent
    rw [hkept.id, mem_append, mem_append, mem_singleton]
    by_cases hxc : x = c
    · subst hxc
      rw [hstatec]
      by_cases hlt : (x : ℕ) < s.threadCount
      · rw [if_pos hlt, if_neg (not_le.mpr hlt)]
        refine iff_of_true rfl ⟨.inr rfl, ?_⟩
        rintro (hmem | hmem)
        · exact hunended (h.unnoticed_ended _ hmem)
        · cases hmem
      · rw [if_neg hlt, if_pos (not_lt.mp hlt)]
        exact iff_of_false nofun fun hnot => hnot.2 (.inr (mem_singleton_self _))
    · have hnot : (s.threads x).id ∉
          (if s.threadCount ≤ c then [(s.threads c).id] else ([] : List ℕ)) := by
        split_ifs
        · exact fun h => hmem (hused' hx) hxc (mem_singleton.mp h)
        · exact not_mem_nil
      rw [or_iff_left (hmem (hused' hx) hxc), or_iff_left hnot, ← h.exited_iff x (hused' hx) hparent,
        hstate (hused' hx) hxc]
      split_ifs with hnext
      · rw [(hleft.next x hnext).1]
        exact iff_of_false nofun nofun
      · rfl
  · intro x hx hended
    rw [hkept.id, mem_append, mem_singleton] at hended
    by_cases hxc : x = c
    · subst hxc
      rw [hstatec]
      split_ifs
      · exact .inl rfl
      · exact .inr ⟨rfl, hnotNext⟩
    · have hbefore := h.stopped x (hused' hx) (hended.resolve_right (hmem (hused' hx) hxc))
      have hnext : s'.currentSlot ≠ some x := by
        intro hnext
        have hready := (hleft.next x hnext).1
        rcases hbefore with hexited | ⟨hrunning, -⟩
        · rw [hready] at hexited
          cases hexited
        · rw [hready] at hrunning
          cases hrunning
      rw [hstate (hused' hx) hxc, if_neg hnext]
      exact hbefore.imp_right fun hrunning => ⟨hrunning.1, hnext⟩
  · intro d hd
    rw [hkept.nextThreadId]
    rcases mem_append.mp hd with hd | hd
    · exact h.ended_lt d hd
    · rw [mem_singleton.mp hd]
      exact hs.numbered.lt c hused
  · intro d hd
    rw [mem_append]
    rcases mem_append.mp hd with hd | hd
    · exact .inl (h.unnoticed_ended d hd)
    · split_ifs at hd
      · exact .inr hd
      · cases hd

end Records

/-! ### The invariant -/

/-- A run in which only threads were created: the first process can be entered. -/
structure EarlyFamily (f : Family) : Prop where
  run : RunInv f.history.run
  early : Early f.history.run
  mustYield : f.history.run.mustYield = false
  entered : f.history.run.entered = false
  born : f.born = []
  ended : f.ended = []

/-- The invariant of the runs. -/
structure Known (f : Family) : Prop where
  settled : Settled f.sched f.history.children
  records : Records f.sched f.born f.history.children f.ended f.unnoticed
  early : f.fresh = true → EarlyFamily f

section Known

variable {P : Platform} {f : Family} {op : Op} {s : Scheduler}

theorem Known.start (hs : Sched.Booted s) : Known (.start s) := by
  refine ⟨.start hs, ⟨hs.processId, ?_, nofun, ?_, nofun, nofun, nofun⟩, ?_⟩
  · intro x _ hparent
    exact absurd (hs.parentProcessId x) hparent
  · intro x _ hparent
    exact absurd (hs.parentProcessId x) hparent
  · intro _
    exact ⟨.start hs, .start hs, rfl, rfl, rfl, rfl⟩

theorem Family.ended_next : (f.next op s).ended = f.ended ++ (ends f.sched op).map Prod.fst := by
  rw [Family.ended, Family.next, History.next, map_append]
  rfl

theorem Family.children_next : (f.next op s).history.children =
    f.history.children ++ (reaps f.sched op).map Reap.child := by
  rw [History.children, Family.next, History.next, map_append]
  rfl

theorem missed_of_ends (h : ends s op = []) : missed s op = [] := by
  rw [missed, h]
  split
  · exact ite_self _
  · rfl

/-- A step with what is born, reaped, ended and missed. -/
theorem Known.next (hbirths : births f.sched op = b)
    (hreaps : (reaps f.sched op).map Reap.child = r) (hends : (ends f.sched op).map Prod.fst = e)
    (hmissed : missed f.sched op = u) (hs : Settled s (f.history.children ++ r))
    (hr : Records s (f.born ++ b) (f.history.children ++ r) (f.ended ++ e) (f.unnoticed ++ u))
    (hearly : (f.next op s).fresh = true → EarlyFamily (f.next op s)) : Known (f.next op s) := by
  subst hbirths hreaps hends hmissed
  refine ⟨?_, ?_, hearly⟩
  · rw [Family.children_next]
    exact hs
  · rw [Family.children_next, Family.ended_next]
    exact hr

/-- A step with which nothing is born, reaped or ended. -/
theorem Known.of_quiet (hbirths : births f.sched op = []) (hreaps : reaps f.sched op = [])
    (hends : ends f.sched op = []) (hs : Settled s f.history.children)
    (hr : Records s f.born f.history.children f.ended f.unnoticed)
    (hearly : (f.next op s).fresh = true → EarlyFamily (f.next op s)) : Known (f.next op s) := by
  refine Known.next hbirths (congrArg _ hreaps) (congrArg _ hends) (missed_of_ends hends) ?_ ?_
    hearly
  all_goals simpa only [map_nil, append_nil]

/-- After anything but the creation of a thread, the run is not early. -/
theorem Known.late (hop : createsOnly op = false) {Q : Prop} :
    (f.next op s).fresh = true → Q := by
  intro hfresh
  rw [Family.next, hop, Bool.and_false] at hfresh
  cases hfresh

theorem Known.createUserThread (hinv : Known f)
    (hnext : f.sched.nextThreadId + 1 < 2 ^ 64) (hfree : createsInFree f.sched = true)
    (pageTable : ℕ) :
    Known (f.next (.createUserThread pageTable) (f.sched.createUserThread P pageTable).2) := by
  have hslot (hcount : f.sched.threadCount < maxThreads) :
      (f.sched.threads ⟨f.sched.threadCount, hcount⟩).state = .unused := by
    rw [createsInFree, dif_pos hcount, beq_iff_eq] at hfree
    exact hfree
  obtain ⟨hsettled, hcases⟩ := hinv.settled.createUserThread (P := P) hnext hslot pageTable
  refine Known.of_quiet rfl rfl rfl hsettled ?_ fun hfresh => ?_
  · rcases hcases with heq | ⟨slot, hunused, hspawned⟩
    · rw [heq]
      exact hinv.records
    · have hnew := hinv.records.spawned hspawned hunused rfl rfl rfl hnext [] nofun
        fun hparent => absurd rfl hparent
      rwa [append_nil] at hnew
  · obtain ⟨hrun, hearly, hmust, hentered, hborn, hended⟩ :=
      hinv.early (Bool.and_eq_true_iff.mp hfresh).1
    obtain ⟨hrun', hearly'⟩ := stepped_createUserThread (P := P) hrun hearly hmust pageTable
    refine ⟨hrun', hearly', rfl, ?_, ?_, ?_⟩
    · change (f.history.run.entered || false) = false
      rw [hentered, Bool.or_false]
    · change f.born ++ [] = []
      rw [hborn, append_nil]
    · rw [Family.ended_next, hended]
      rfl

theorem Known.initialContextPair (hinv : Known f) (hfresh : f.fresh = true)
    (hexec : Op.exec P f.sched .initialContextPair = .ok s) :
    Known (f.next .initialContextPair s) := by
  obtain ⟨hrun, hearly, -, hentered, hborn, hended⟩ := hinv.early hfresh
  obtain ⟨hsettled, target, hin⟩ :=
    hinv.settled.initialContextPair rfl hrun hearly hentered hexec
  have hkept := Kept.of_moves hin.moves
  have hr := hinv.records
  rw [hborn, hended] at hr
  -- No thread has a parent yet.
  have hparent {x : Slot} (hx : (s.threads x).state ≠ .unused) :
      (s.threads x).parentProcessId = 0 := by
    rw [hkept.parentProcessId]
    by_contra hne
    cases hr.born_of_slot x ((hin.moves.unused x).not.mp hx) hne
  refine Known.of_quiet rfl rfl rfl hsettled ?_ (Known.late rfl)
  rw [hborn, hended]
  refine ⟨?_, ?_, nofun, ?_, nofun, nofun, hr.unnoticed_ended⟩
  · intro x
    rw [hkept.processId, hkept.threadGroupId]
    exact hr.process x
  · intro x hx hne
    exact absurd (hparent hx) hne
  · intro x hx hne
    exact absurd (hparent hx) hne

/-- A switch to another thread, or none. -/
theorem Known.of_switched (hinv : Known f) (hop : createsOnly op = false)
    (hbirths : births f.sched op = []) (hreaps : reaps f.sched op = [])
    (hends : ends f.sched op = [])
    (hs : Settled s f.history.children ∧ (s = f.sched ∨ ∃ c next, Switched f.sched c next s)) :
    Known (f.next op s) := by
  refine Known.of_quiet hbirths hreaps hends hs.1 ?_ (Known.late hop)
  rcases hs.2 with heq | ⟨c, next, hswitched⟩
  · rw [heq]
    exact hinv.records
  · exact hinv.records.switched hswitched (hinv.settled.current c hswitched.current)

theorem exitedProcessId_of_requestExitGroup (hc : s.currentSlot = some c)
    (h : s.requestExitGroup status = .ok (some record, s')) :
    record.exitedProcessId = (s.threads c).processId := by
  unfold Scheduler.requestExitGroup at h
  rw [hc] at h
  split_ifs at h
  · cases h
  simp only at h
  split_ifs at h
  · cases h
  obtain ⟨⟨s₁, count⟩, -, h⟩ := Fallible.bind_eq_ok.mp h
  split at h
  · cases h
    rfl
  split at h
  · cases h
  · cases h
    rfl

theorem Known.requestExitGroup (hinv : Known f)
    (hexec : Op.exec P f.sched (.requestExitGroup status) = .ok s) :
    Known (f.next (.requestExitGroup status) s) := by
  obtain ⟨hsettled, hcases⟩ := hinv.settled.requestExitGroup hexec
  rcases hcases with ⟨hexit, heq⟩ | ⟨c, record, hc, hgroup, hexit, hleft⟩
  · refine Known.of_quiet rfl rfl ?_ hsettled (heq ▸ hinv.records) (Known.late rfl)
    rw [ends, hexit]
  · have hends : (ends f.sched (.requestExitGroup status)).map Prod.fst =
        [(f.sched.threads c).processId] := by
      rw [ends, hexit]
      exact congrArg (fun pid => [pid]) (exitedProcessId_of_requestExitGroup hc hexit)
    have hmissed : missed f.sched (.requestExitGroup status) =
        if f.sched.threadCount ≤ c then [(f.sched.threads c).processId] else [] := by
      rw [missed, hc, hends]
    refine Known.next (b := []) (r := []) rfl rfl hends hmissed ?_ ?_ (Known.late rfl)
    · rw [append_nil]
      exact hsettled
    · rw [append_nil, append_nil]
      exact hinv.records.groupLeft hinv.settled hc hgroup hleft

theorem Known.forkCurrentThread (hinv : Known f) (hnext : f.sched.nextThreadId + 1 < 2 ^ 64)
    (newCr3 : ℕ) :
    Known (f.next (.forkCurrentThread newCr3) (f.sched.forkCurrentThread newCr3).2) := by
  obtain ⟨hsettled, hcases⟩ := hinv.settled.forkCurrentThread hnext newCr3
  rcases hcases with ⟨e, hfork⟩ | ⟨e, hfork⟩ | ⟨parent, child, s', hparent, hchild, hfork, hspawned⟩
  · refine Known.of_quiet ?_ rfl rfl hsettled ?_ (Known.late rfl)
    · rw [births, hfork]
    · rw [hfork]
      exact hinv.records
  · refine Known.of_quiet ?_ rfl rfl hsettled ?_ (Known.late rfl)
    · rw [births, hfork]
    · rw [hfork]
      exact hinv.records.addThread hnext
  · have hbirths : births f.sched (.forkCurrentThread newCr3) =
        [((f.sched.threads parent).processId, f.sched.nextThreadId)] := by
      rw [births, hfork, currentProcessId, hparent]
    refine Known.next (r := []) (e := []) hbirths rfl rfl (missed_of_ends rfl) ?_ ?_ (Known.late rfl)
    · rw [append_nil]
      exact hsettled
    · rw [append_nil, append_nil, append_nil, hfork]
      refine hinv.records.spawned hspawned hchild rfl rfl rfl hnext _ ?_ ?_
      · intro p c hmem
        cases mem_singleton.mp hmem
        exact ⟨rfl, rfl⟩
      · exact fun _ => mem_singleton_self _

theorem Known.reapChild (hinv : Known f) (parentPid : ℕ) (targetPid : ℤ) :
    Known (f.next (.reapChild parentPid targetPid)
      (f.sched.reapChild parentPid targetPid).2) := by
  cases hfound : f.sched.exitedChild parentPid targetPid with
  | none =>
    rw [reapChild_of_none hfound]
    refine Known.of_quiet rfl ?_ rfl hinv.settled hinv.records (Known.late rfl)
    rw [reaps, Scheduler.reapChild, hfound]
  | some slot =>
    have hreaps : (reaps f.sched (.reapChild parentPid targetPid)).map Reap.child =
        [(f.sched.threads slot).id] := by
      rw [reaps, Scheduler.reapChild, hfound]
      rfl
    rw [reapChild_of_some hfound]
    refine Known.next (b := []) (e := []) rfl hreaps rfl (missed_of_ends rfl)
      (hinv.settled.freeSlot (state_of_exitedChild hfound)) ?_ (Known.late rfl)
    rw [append_nil, append_nil, append_nil]
    exact Records.freeSlot slot hinv.records

/-- **Every operation keeps the invariant.** -/
theorem Known.step (hinv : Known f) (hstep : FamilyStep P f op f') : Known f' := by
  obtain ⟨hguard, s, hexec, rfl⟩ := hstep
  cases op with
  | createUserThread pageTable =>
    obtain ⟨hfree, hnext⟩ := Bool.and_eq_true_iff.mp hguard
    cases hexec
    exact hinv.createUserThread (of_decide_eq_true hnext) hfree pageTable
  | initialContextPair => exact hinv.initialContextPair hguard hexec
  | contextSwitchPair =>
    exact hinv.of_switched rfl rfl rfl rfl (hinv.settled.contextSwitchPair hexec)
  | yieldCurrentUserThread rsp =>
    exact hinv.of_switched rfl rfl rfl rfl (hinv.settled.yieldCurrentUserThread hexec)
  | requestExitGroup status => exact hinv.requestExitGroup hexec
  | forkCurrentThread newCr3 =>
    cases hexec
    exact hinv.forkCurrentThread (of_decide_eq_true hguard) newCr3
  | reapChild parentPid targetPid =>
    cases hexec
    exact hinv.reapChild parentPid targetPid
  | blockCurrentThread => cases hguard
  | unblockThreadWithResult pid tid => cases hguard

end Known

/-! ### The answers -/

/-- The identifiers that a call of `reap_child` asks for. -/
def Matches (targetPid : ℤ) (child : ℕ) : Prop := targetPid = -1 ∨ asI64 child = targetPid

/-- A child that the call asks for and that is alive or has exited without being reaped. -/
def Family.IsChild (f : Family) (parentPid : ℕ) (targetPid : ℤ) (child : ℕ) : Prop :=
  (parentPid, child) ∈ f.born ∧ child ∉ f.history.children ∧ Matches targetPid child

/-- `reap_child` finds no children exactly if there are none, and says that none has exited exactly
if there are some and none has; `wait4` reports that there are no children exactly if there are
none. -/
structure ReapAnswers (f : Family) (parentPid : ℕ) (targetPid : ℤ) : Prop where
  none : (f.sched.reapChild parentPid targetPid).1 = .error false ↔
    ¬ ∃ child, f.IsChild parentPid targetPid child
  notYet : (f.sched.reapChild parentPid targetPid).1 = .error true ↔
    (∃ child, f.IsChild parentPid targetPid child) ∧
      ¬ ∃ child, f.IsChild parentPid targetPid child ∧ child ∈ f.ended
  wait4 : parentPid = currentProcessId f.sched → targetPid = -1 → ∀ args, asI64 (args 0) = -1 →
    (sysWait4 f.sched args = (.errno .enoent, .none, f.sched) ↔
      ¬ ∃ child, f.IsChild parentPid targetPid child)

/-- The table is misread: there is no child, but a free slot still names one; or some children have
exited, and all of their exits went unnoticed. -/
def Misread (f : Family) (parentPid : ℕ) (targetPid : ℤ) : Prop :=
  (∃ x, (f.sched.threads x).state = .unused ∧
      isChild (f.sched.threads x) parentPid targetPid = true) ∧
    (¬ ∃ child, f.IsChild parentPid targetPid child) ∨
  (∃ child, f.IsChild parentPid targetPid child ∧ child ∈ f.ended) ∧
    ∀ child, f.IsChild parentPid targetPid child → child ∈ f.ended → child ∈ f.unnoticed

section Answers

variable {f : Family} {parentPid : ℕ} {targetPid : ℤ}

theorem isChild_iff : isChild t parentPid targetPid = true ↔
    t.parentProcessId = parentPid ∧ Matches targetPid t.id := by
  rw [isChild, Bool.and_eq_true, beq_iff_eq, Bool.or_eq_true, beq_iff_eq, beq_iff_eq]
  rfl

/-- The children are those in the slots that are in use. -/
theorem Known.exists_child_iff (h : Known f) (hparent : parentPid ≠ 0) {Q : ℕ → Prop} :
    (∃ child, f.IsChild parentPid targetPid child ∧ Q child) ↔
      ∃ x, (f.sched.threads x).state ≠ .unused ∧
        isChild (f.sched.threads x) parentPid targetPid = true ∧ Q (f.sched.threads x).id := by
  constructor
  · rintro ⟨child, ⟨hborn, halive, hmatches⟩, hQ⟩
    obtain ⟨x, hx, rfl, hp⟩ := h.records.slot_of_born parentPid child hborn halive
    exact ⟨x, hx, isChild_iff.mpr ⟨hp, hmatches⟩, hQ⟩
  · rintro ⟨x, hx, hchild, hQ⟩
    obtain ⟨rfl, hmatches⟩ := isChild_iff.mp hchild
    exact ⟨_, ⟨h.records.born_of_slot x hx hparent, h.settled.numbered.alive x hx, hmatches⟩, hQ⟩

theorem reapChild_ok_iff {s : Scheduler} :
    (∃ found, (s.reapChild parentPid targetPid).1 = .ok found) ↔
      ∃ x, isChild (s.threads x) parentPid targetPid = true ∧ (s.threads x).state = .exited := by
  cases hfound : s.exitedChild parentPid targetPid with
  | none =>
    rw [Scheduler.reapChild, hfound]
    refine iff_of_false (by rintro ⟨found, hok⟩; cases hok) ?_
    rintro ⟨x, hchild, hexited⟩
    have hnone := Ring.first_eq_none_iff.mp hfound x
    rw [hchild, hexited] at hnone
    cases hnone
  | some slot =>
    rw [Scheduler.reapChild, hfound]
    have hslot := (Ring.first_eq_some_iff.mp hfound).1
    rw [Bool.and_eq_true, beq_iff_eq] at hslot
    exact iff_of_true ⟨_, rfl⟩ ⟨slot, hslot⟩

theorem reapChild_none_iff {s : Scheduler} :
    (s.reapChild parentPid targetPid).1 = .error false ↔
      ¬ ∃ x, isChild (s.threads x) parentPid targetPid = true := by
  cases hfound : s.exitedChild parentPid targetPid with
  | some slot =>
    rw [Scheduler.reapChild, hfound]
    have hslot := (Ring.first_eq_some_iff.mp hfound).1
    rw [Bool.and_eq_true] at hslot
    exact iff_of_false (by simp) fun hnone => hnone ⟨slot, hslot.1⟩
  | none =>
    rw [Scheduler.reapChild, hfound]
    change Except.error (Option.isSome _) = Except.error false ↔ _
    rw [Except.error.injEq, Option.isSome_eq_false_iff, Option.isNone_iff_eq_none,
      Ring.first_eq_none_iff, not_exists]
    exact forall_congr' fun x => (Bool.not_eq_true _).symm.to_iff

/-- **The answer of `reap_child`** in terms of the children and of the free slots that still name
one. -/
theorem Known.reapChild_iff (h : Known f) (hparent : parentPid ≠ 0) (targetPid : ℤ) :
    ((∃ found, (f.sched.reapChild parentPid targetPid).1 = .ok found) ↔
      ∃ child, f.IsChild parentPid targetPid child ∧ child ∈ f.ended ∧ child ∉ f.unnoticed) ∧
    ((f.sched.reapChild parentPid targetPid).1 = .error false ↔
      (¬ ∃ child, f.IsChild parentPid targetPid child) ∧
        ¬ ∃ x, (f.sched.threads x).state = .unused ∧
          isChild (f.sched.threads x) parentPid targetPid = true) := by
  refine ⟨?_, ?_⟩
  · rw [reapChild_ok_iff,
      h.exists_child_iff hparent (Q := fun child => child ∈ f.ended ∧ child ∉ f.unnoticed)]
    refine exists_congr fun x => ?_
    constructor
    · rintro ⟨hchild, hexited⟩
      have hused : (f.sched.threads x).state ≠ .unused :=
        hexited.trans_ne nofun
      have hne : (f.sched.threads x).parentProcessId ≠ 0 := (isChild_iff.mp hchild).1 ▸ hparent
      exact ⟨hused, hchild, (h.records.exited_iff x hused hne).mp hexited⟩
    · rintro ⟨hused, hchild, hended⟩
      have hne : (f.sched.threads x).parentProcessId ≠ 0 := (isChild_iff.mp hchild).1 ▸ hparent
      exact ⟨hchild, (h.records.exited_iff x hused hne).mpr hended⟩
  · have hchild : (∃ child, f.IsChild parentPid targetPid child ∧ True) ↔ _ :=
      h.exists_child_iff hparent
    simp only [and_true] at hchild
    rw [reapChild_none_iff, hchild, ← not_or, not_iff_not]
    constructor
    · rintro ⟨x, hx⟩
      by_cases hunused : (f.sched.threads x).state = .unused
      · exact .inr ⟨x, hunused, hx⟩
      · exact .inl ⟨x, hunused, hx⟩
    · rintro (⟨x, -, hx⟩ | ⟨x, -, hx⟩)
      · exact ⟨x, hx⟩
      · exact ⟨x, hx⟩

/-- `wait4` reports that there are no children exactly if `reap_child` finds none. -/
theorem sysWait4_enoent_iff (hpid : asI64 (args 0) = -1) :
    sysWait4 s args = (.errno .enoent, none, s) ↔
      (s.reapChild (currentProcessId s) (-1)).1 = .error false := by
  rw [sysWait4, if_pos hpid]
  cases hfound : s.exitedChild (currentProcessId s) (-1) with
  | some slot =>
    rw [Scheduler.reapChild, hfound]
    refine iff_of_false (fun heq => ?_) (by simp)
    have hsched : s.freeSlot slot = s := congrArg (fun r => r.2.2) heq
    have hstate := state_of_exitedChild hfound
    rw [← hsched, freeSlot_self] at hstate
    cases hstate
  | none =>
    rw [Scheduler.reapChild, hfound]
    dsimp only
    generalize (Ring.first fun slot : Slot =>
      isChild (s.threads slot) (currentProcessId s) (-1)).isSome = hasChildren
    cases hasChildren with
    | false => exact iff_of_true rfl rfl
    | true =>
      have hother : ¬ true = false := by simp
      refine iff_of_false (fun heq => ?_) (by simp)
      rw [if_neg hother] at heq
      have hret := congrArg (fun r => r.1.value) heq
      split_ifs at hret <;> cases hret

end Answers

/-- **Which children are found.** In every run in which threads are created in free slots and while
`next_thread_id` can be incremented, the answers about a process are right exactly if its children
are not misread. -/
theorem reap_answers_iff (P : Platform) {n : ℕ} (hn : n ≠ 0) {s : Scheduler}
    (hs : bootstrap P n = .ok s) {f : Family} (hr : Reachable (FamilyStep P) (.start s) f)
    {parentPid : ℕ} (hparent : parentPid ≠ 0) (targetPid : ℤ) :
    ReapAnswers f parentPid targetPid ↔ ¬ Misread f parentPid targetPid := by
  have hknown : Known f :=
    hr.invariant (I := Known) (.start (booted_of_bootstrap hn hs))
      fun _ _ _ hinv hstep => hinv.step hstep
  obtain ⟨hok, hnone⟩ := hknown.reapChild_iff hparent targetPid
  have hyet : (f.sched.reapChild parentPid targetPid).1 = .error true ↔
      ¬ (∃ found, (f.sched.reapChild parentPid targetPid).1 = .ok found) ∧
        (f.sched.reapChild parentPid targetPid).1 ≠ .error false := by
    generalize (f.sched.reapChild parentPid targetPid).1 = answer
    rcases answer with (_ | _) | found <;> simp
  rw [hok, Ne, hnone] at hyet
  have hunnoticed : (∀ child, f.IsChild parentPid targetPid child → child ∈ f.ended →
      child ∈ f.unnoticed) ↔ ¬ ∃ child, f.IsChild parentPid targetPid child ∧ child ∈ f.ended ∧
        child ∉ f.unnoticed := by
    simp only [not_exists, not_and, not_not]
  rw [Misread, hunnoticed]
  constructor
  · rintro hanswers (⟨hstale, hno⟩ | ⟨⟨child, hchild, hended⟩, hall⟩)
    · exact (hnone.mp (hanswers.none.mpr hno)).2 hstale
    · have hyes : ∃ child, f.IsChild parentPid targetPid child := ⟨child, hchild⟩
      exact (hanswers.notYet.mp (hyet.mpr ⟨hall, fun hnot => hnot.1 hyes⟩)).2 ⟨child, hchild, hended⟩
  · intro hright
    rw [not_or, not_and, not_and, not_not, not_not] at hright
    obtain ⟨hstale, hnoticed⟩ := hright
    have hanswer : (f.sched.reapChild parentPid targetPid).1 = .error false ↔
        ¬ ∃ child, f.IsChild parentPid targetPid child := by
      rw [hnone]
      exact ⟨And.left, fun hno => ⟨hno, fun h => hno (hstale h)⟩⟩
    refine ⟨hanswer, ?_, ?_⟩
    · rw [hyet, ← hnone, hanswer, not_not]
      constructor
      · rintro ⟨hnotOk, hyes⟩
        exact ⟨hyes, fun hended => hnotOk (hnoticed hended)⟩
      · rintro ⟨hyes, hnotEnded⟩
        exact ⟨fun ⟨child, hchild, hended, _⟩ => hnotEnded ⟨child, hchild, hended⟩, hyes⟩
    · rintro rfl rfl args hpid
      rw [sysWait4_enoent_iff hpid]
      exact hanswer

/-- A process has forked a child that runs. -/
theorem reap_answers_one_child : ∃ s f, bootstrap examplePlatform 3 = .ok s ∧
    Reachable (FamilyStep examplePlatform) (.start s) f ∧ f.born = [(3, 4)] ∧
    ReapAnswers f 3 (-1) := by
  obtain ⟨s, f, hs, hr, hborn, hchildren, hended⟩ := exists_of_evaluateFamily examplePlatform 3
    [.createUserThread 0x2000, .initialContextPair, .forkCurrentThread 0x3000]
    (Q := fun f => f.born = [(3, 4)] ∧ f.history.children = [] ∧ f.ended = []) (by decide +kernel)
  refine ⟨s, f, hs, hr, hborn,
    (reap_answers_iff examplePlatform (by decide) hs hr (by decide) (-1)).mpr ?_⟩
  rintro (⟨-, hno⟩ | ⟨⟨child, -, hmem⟩, -⟩)
  · refine hno ⟨4, ?_, ?_, .inl rfl⟩
    · rw [hborn]
      exact mem_singleton_self _
    · rw [hchildren]
      exact not_mem_nil
  · rw [hended] at hmem
    cases hmem

/-- Process 3 reaps its only child; its slot still names it, so `reap_child` says that there are
children. And of two children the first is reaped and then the second exits: its slot lies beyond
`thread_count`, so its exit is not noticed, and `reap_child` says that no child has exited. -/
theorem reap_misreads_children :
    (∃ s f, bootstrap examplePlatform 3 = .ok s ∧
      Reachable (FamilyStep examplePlatform) (.start s) f ∧
      (¬ ∃ child, f.IsChild 3 (-1) child) ∧ (f.sched.reapChild 3 (-1)).1 = .error true) ∧
    ∃ s f, bootstrap examplePlatform 3 = .ok s ∧
      Reachable (FamilyStep examplePlatform) (.start s) f ∧
      (f.IsChild 3 (-1) 5 ∧ 5 ∈ f.ended) ∧ (f.sched.reapChild 3 (-1)).1 = .error true := by
  let Waits (s : Scheduler) : Prop := (s.exitedChild 3 (-1)).isNone = true ∧
    (Ring.first fun slot : Slot => isChild (s.threads slot) 3 (-1)).isSome = true
  have hanswer {s : Scheduler} (h : Waits s) : (s.reapChild 3 (-1)).1 = .error true := by
    rw [Scheduler.reapChild, Option.isNone_iff_eq_none.mp h.1]
    exact congrArg Except.error h.2
  constructor
  · obtain ⟨s, f, hs, hr, hborn, hchildren, hlast⟩ := exists_of_evaluateFamily examplePlatform 3
      [.createUserThread 0x2000, .initialContextPair, .forkCurrentThread 0x3000,
        .yieldCurrentUserThread 0, .contextSwitchPair, .requestExitGroup 0, .reapChild 3 (-1)]
      (Q := fun f => f.born = [(3, 4)] ∧ f.history.children = [4] ∧ Waits f.sched)
      (by decide +kernel)
    refine ⟨s, f, hs, hr, ?_, hanswer hlast⟩
    rintro ⟨child, hmem, halive, -⟩
    rw [hborn] at hmem
    cases mem_singleton.mp hmem
    exact halive (hchildren ▸ mem_singleton_self 4)
  · obtain ⟨s, f, hs, hr, hborn, hchildren, hended, hlast⟩ :=
      exists_of_evaluateFamily examplePlatform 3
      [.createUserThread 0x2000, .initialContextPair, .forkCurrentThread 0x3000,
        .forkCurrentThread 0x4000, .yieldCurrentUserThread 0, .contextSwitchPair,
        .requestExitGroup 0, .yieldCurrentUserThread 0, .reapChild 3 (-1),
        .yieldCurrentUserThread 0, .contextSwitchPair, .requestExitGroup 0]
      (Q := fun f => (3, 5) ∈ f.born ∧ 5 ∉ f.history.children ∧ 5 ∈ f.ended ∧ Waits f.sched)
      (by decide +kernel)
    exact ⟨s, f, hs, hr, ⟨⟨hborn, hchildren, .inl rfl⟩, hended⟩, hanswer hlast⟩

/-- **Lives of processes.** A child is in exactly one slot until it is reaped, and a process that
called exit is never current again. -/
theorem process_lives (hn : n ≠ 0) (hs : bootstrap P n = .ok s)
    (hr : Reachable (FamilyStep P) (.start s) f) :
    (∀ p c, (p, c) ∈ f.born → c ∉ f.history.children →
      ∃! x, (f.sched.threads x).state ≠ .unused ∧ (f.sched.threads x).id = c) ∧
    ∀ x, f.sched.currentSlot = some x → (f.sched.threads x).id ∉ f.ended := by
  obtain ⟨hsettled, hrecords, -⟩ := hr.invariant (I := Known) (.start (booted_of_bootstrap hn hs))
    fun _ _ _ => Known.step
  constructor
  · intro p c hborn hc
    obtain ⟨x, hx, rfl, -⟩ := hrecords.slot_of_born p c hborn hc
    exact ⟨x, ⟨hx, rfl⟩, fun y hy => hsettled.numbered.injective y x hy.1 hx hy.2⟩
  · intro x hx hmem
    have hrun := hsettled.current x hx
    rcases hrecords.stopped x (by simp [hrun]) hmem with hexited | hother
    · simp [hrun] at hexited
    · exact hother.2 hx

theorem process_lives_fork : ∃ f : Family, f.born = [(3, 4)] ∧
    ∃! x, (f.sched.threads x).state ≠ .unused ∧ (f.sched.threads x).id = 4 := by
  obtain ⟨s, f, hs, hr, hborn, hc⟩ := exists_of_evaluateFamily examplePlatform 3
    [.createUserThread 0x2000, .initialContextPair, .forkCurrentThread 0x3000]
    (Q := fun f => f.born = [(3, 4)] ∧ 4 ∉ f.history.children) (by decide +kernel)
  exact ⟨f, hborn, (process_lives (by decide) hs hr).1 3 4 (by simp [hborn]) hc⟩

end Hxnu.Syscall
