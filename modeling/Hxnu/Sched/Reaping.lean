import Hxnu.Lib.Fallible
import Hxnu.Sched.Descriptors
import Hxnu.Sched.Safety

/-!
# Identifiers and exit statuses

What the thread table says about the processes that have been reaped so far. An identifier is given
out once, as long as the counter of `next_thread_id` has not reached its last value; an exited thread
keeps its identifier in the slot until it is reaped, and the slot still carries it afterwards. The
field `exit_status` of a slot is set where a thread is created and nowhere else.

The run queues are in order whatever slots are reaped, but slots beyond `thread_count` may be in use,
so the whole queue invariant is not available here.

## Main definitions

* `Numbered`: the identifiers in the table and those of the reaped processes.
* `Settled`: the table between two operations.

## Main results

* `Numbered.of_moves`, `Numbered.spawned`, `Numbered.freeSlot`: every change of the table keeps it.
* `Numbered.moves_of_groupLeft`: an exit brings no reaped process back.
* `Settled.requestExitGroup`, `Settled.forkCurrentThread` and so on: what each operation does to the
  table.
* `nextThreadId_ne_zero_of_exec`: no operation, in whatever state, gives the identifier 0 out.
-/

namespace Hxnu.Sched

open Word Scheduler Function

/-- The identifiers in the table, where `R` lists those of the reaped processes. -/
structure Numbered (s : Scheduler) (R : List ℕ) : Prop where
  /-- No exit status is ever stored. -/
  exitStatus : ∀ x, (s.threads x).exitStatus = 0
  group : ∀ x, (s.threads x).threadGroupId = 0 ∨ (s.threads x).threadGroupId = (s.threads x).id
  lt : ∀ x, (s.threads x).state ≠ .unused → (s.threads x).id < s.nextThreadId
  injective : ∀ x y, (s.threads x).state ≠ .unused → (s.threads y).state ≠ .unused →
    (s.threads x).id = (s.threads y).id → x = y
  alive : ∀ x, (s.threads x).state ≠ .unused → (s.threads x).id ∉ R
  gone : ∀ x, (s.threads x).state = .unused → (s.threads x).threadGroupId ≠ 0 →
    (s.threads x).id ∈ R
  reaped : ∀ c ∈ R, c < s.nextThreadId
  nodup : R.Nodup

namespace Numbered

variable {s s' : Scheduler} {R : List ℕ} {c slot : Slot} {t : Thread}

section

variable (h : Numbered s R)

include h

/-- The identifiers are those of the threads without their states and contexts. -/
theorem of_bare (hnext : s'.nextThreadId = s.nextThreadId)
    (hbare : ∀ x, (s'.threads x).bare = (s.threads x).bare)
    (hunused : ∀ x, (s'.threads x).state = .unused ↔ (s.threads x).state = .unused) :
    Numbered s' R := by
  have hid (x : Slot) : (s'.threads x).id = (s.threads x).id :=
    show (s'.threads x).bare.id = _ by rw [hbare]; rfl
  have hgroup (x : Slot) : (s'.threads x).threadGroupId = (s.threads x).threadGroupId :=
    show (s'.threads x).bare.threadGroupId = _ by rw [hbare]; rfl
  have hstatus (x : Slot) : (s'.threads x).exitStatus = (s.threads x).exitStatus :=
    show (s'.threads x).bare.exitStatus = _ by rw [hbare]; rfl
  refine ⟨?_, ?_, ?_, ?_, ?_, ?_, ?_, h.nodup⟩
  · simpa only [hstatus] using h.exitStatus
  · simpa only [hgroup, hid] using h.group
  · simpa only [ne_eq, hunused, hid, hnext] using h.lt
  · simpa only [ne_eq, hunused, hid] using h.injective
  · simpa only [ne_eq, hunused, hid] using h.alive
  · simpa only [hunused, hgroup, hid] using h.gone
  · simpa only [hnext] using h.reaped

theorem of_moves (hm : Moves s s') : Numbered s' R :=
  h.of_bare (congrArg Fixed.nextThreadId hm.fixed) hm.bare hm.unused

theorem saveRsp (c : Slot) (rsp : ℕ) : Numbered (s.saveRsp c rsp) R :=
  h.of_bare rfl bare_saveRsp fun x => by rw [Quiet.saveRsp.state]

/-- A failed fork uses up an identifier. -/
theorem addThread (hnext : s.nextThreadId + 1 < 2 ^ 64) : Numbered s.addThread R := by
  have hnext' : s.addThread.nextThreadId = s.nextThreadId + 1 := satAdd_of_lt hnext
  refine ⟨h.exitStatus, h.group, ?_, h.injective, h.alive, h.gone, ?_, h.nodup⟩
  · intro x hx
    rw [hnext']
    exact (h.lt x hx).trans (Nat.lt_succ_self _)
  · intro c hc
    rw [hnext']
    exact (h.reaped c hc).trans (Nat.lt_succ_self _)

/-- **A new thread** gets an identifier that was not given out before. -/
theorem spawned (hs : Spawned s slot t s') (hid : t.id = s.nextThreadId)
    (hgroup : t.threadGroupId = t.id) (hstatus : t.exitStatus = 0)
    (hready : t.state = .runnable) (hnext : s.nextThreadId + 1 < 2 ^ 64) : Numbered s' R := by
  have hadd := h.addThread hnext
  have hnext' : s'.nextThreadId = s.addThread.nextThreadId := congrArg Fixed.nextThreadId hs.fixed
  have hlt : s.nextThreadId < s'.nextThreadId := by
    rw [hnext', show s.addThread.nextThreadId = s.nextThreadId + 1 from satAdd_of_lt hnext]
    exact Nat.lt_succ_self _
  have hself : s'.threads slot = t := by rw [hs.threads, update_self]
  have hother {x : Slot} (hx : x ≠ slot) : s'.threads x = s.threads x := by
    rw [hs.threads, update_of_ne hx]
  refine ⟨?_, ?_, ?_, ?_, ?_, ?_, ?_, h.nodup⟩
  · intro x
    by_cases hx : x = slot
    · rw [hx, hself, hstatus]
    · rw [hother hx, h.exitStatus]
  · intro x
    by_cases hx : x = slot
    · rw [hx, hself]
      exact .inr hgroup
    · rw [hother hx]
      exact h.group x
  · intro x hused
    by_cases hx : x = slot
    · rw [hx, hself, hid]
      exact hlt
    · rw [hother hx] at hused ⊢
      exact (h.lt x hused).trans hlt
  · intro x y hx hy heq
    by_cases hxs : x = slot <;> by_cases hys : y = slot
    · rw [hxs, hys]
    · rw [hother hys] at hy heq
      rw [hxs, hself, hid] at heq
      exact absurd heq.symm (h.lt y hy).ne
    · rw [hother hxs] at hx heq
      rw [hys, hself, hid] at heq
      exact absurd heq (h.lt x hx).ne
    · rw [hother hxs] at hx heq
      rw [hother hys] at hy heq
      exact h.injective x y hx hy heq
  · intro x hused
    by_cases hx : x = slot
    · rw [hx, hself, hid]
      exact fun hmem => lt_irrefl _ (h.reaped _ hmem)
    · rw [hother hx] at hused ⊢
      exact h.alive x hused
  · intro x hunused
    by_cases hx : x = slot
    · rw [hx, hself, hready] at hunused
      cases hunused
    · rw [hother hx] at hunused ⊢
      exact h.gone x hunused
  · intro c hc
    exact (h.reaped c hc).trans hlt

/-- **An exit**: a slot of the exiting group that is free would belong to a process that was reaped,
and so carry another identifier. -/
theorem moves_of_groupLeft (hleft : GroupLeft s c s')
    (hused : (s.threads c).state ≠ .unused) (hgroup : (s.threads c).threadGroupId ≠ 0) :
    Moves s s' := by
  refine ⟨hleft.fixed, hleft.core, ?_⟩
  intro x
  rw [hleft.state]
  split_ifs with hgone hnext
  · refine iff_of_false nofun ?_
    intro hunused
    have hx : (s.threads x).threadGroupId ≠ 0 := by rwa [hgone.2]
    have hid : (s.threads x).id = (s.threads c).id :=
      ((h.group x).resolve_left hx).symm.trans (hgone.2.trans ((h.group c).resolve_left hgroup))
    refine h.alive c hused ?_
    rw [← hid]
    exact h.gone x hunused hx
  · rw [(hleft.next x hnext).1]
    exact iff_of_false nofun nofun
  · rfl

/-- **A reap** adds an identifier to the reaped ones that was not among them. -/
theorem freeSlot (hused : (s.threads slot).state ≠ .unused) :
    Numbered (s.freeSlot slot) (R ++ [(s.threads slot).id]) := by
  refine ⟨?_, ?_, ?_, ?_, ?_, ?_, ?_, ?_⟩
  · intro x
    by_cases hx : x = slot
    · rw [hx, freeSlot_self]
      exact h.exitStatus slot
    · rw [freeSlot_of_ne hx, h.exitStatus]
  · intro x
    by_cases hx : x = slot
    · rw [hx, freeSlot_self]
      exact h.group slot
    · rw [freeSlot_of_ne hx]
      exact h.group x
  · intro x hx
    have hxs := ne_of_freeSlot hx
    rw [freeSlot_of_ne hxs] at hx ⊢
    rw [freeSlot_nextThreadId]
    exact h.lt x hx
  · intro x y hx hy heq
    have hxs := ne_of_freeSlot hx
    have hys := ne_of_freeSlot hy
    rw [freeSlot_of_ne hxs] at hx heq
    rw [freeSlot_of_ne hys] at hy heq
    exact h.injective x y hx hy heq
  · intro x hx hmem
    have hxs := ne_of_freeSlot hx
    rw [freeSlot_of_ne hxs] at hx hmem
    rcases List.mem_append.mp hmem with hmem | hmem
    · exact h.alive x hx hmem
    · exact hxs (h.injective x slot hx hused (List.mem_singleton.mp hmem))
  · intro x hunused hgroup
    rw [List.mem_append]
    by_cases hx : x = slot
    · rw [hx, freeSlot_self]
      exact .inr (List.mem_singleton_self _)
    · rw [freeSlot_of_ne hx] at hunused hgroup ⊢
      exact .inl (h.gone x hunused hgroup)
  · intro c hc
    rw [freeSlot_nextThreadId]
    rcases List.mem_append.mp hc with hc | hc
    · exact h.reaped c hc
    · rw [List.mem_singleton.mp hc]
      exact h.lt slot hused
  · rw [List.nodup_append]
    refine ⟨h.nodup, List.nodup_singleton _, ?_⟩
    intro a ha b hb
    rw [List.mem_singleton.mp hb]
    rintro rfl
    exact h.alive slot hused ha

end

theorem start (h : Booted s) : Numbered s [] := by
  have hused {x : Slot} (hx : (s.threads x).state ≠ .unused) : x = 0 ∨ x = 1 :=
    eq_zero_or_one fun hge => hx (h.free x hge).1
  have hfree {x : Slot} (hx : ¬ (x = 0 ∨ x = 1)) : (s.threads x).threadGroupId = 0 := by
    have hge : 2 ≤ (x : ℕ) := by
      by_contra hlt
      exact hx (eq_zero_or_one hlt)
    change (s.threads x).core.threadGroupId = 0
    rw [(h.free x hge).2]
    rfl
  refine ⟨h.exitStatus, ?_, ?_, ?_, fun _ _ => List.not_mem_nil, ?_, nofun, List.nodup_nil⟩
  · intro x
    by_cases hx : x = 0 ∨ x = 1
    · rcases hx with rfl | rfl
      · rw [h.bootstrapGroup, h.kernel.bootstrapId]
        exact .inr rfl
      · exact .inl h.kernel.idleGroup
    · exact .inl (hfree hx)
  · intro x hx
    rw [h.nextThreadId]
    rcases hused hx with rfl | rfl
    · rw [h.kernel.bootstrapId]
      decide
    · rw [h.kernel.idleId]
      decide
  · intro x y hx hy heq
    rcases hused hx with rfl | rfl <;> rcases hused hy with rfl | rfl
    · rfl
    · rw [h.kernel.bootstrapId, h.kernel.idleId] at heq
      cases heq
    · rw [h.kernel.bootstrapId, h.kernel.idleId] at heq
      cases heq
    · rfl
  · intro x hunused hgroup
    refine absurd (hfree ?_) hgroup
    rintro (rfl | rfl)
    · rw [h.bootstrapState] at hunused
      cases hunused
    · rw [h.idleState] at hunused
      cases hunused

end Numbered

/-! ### The operations -/

/-- The identifiers of a thread. -/
def Thread.identity (t : Thread) : ℕ × ProcessIdentity :=
  (t.id, ⟨t.processId, t.parentProcessId, t.threadGroupId⟩)

/-- No thread changes its identifiers, and none is given out. -/
structure Kept (s s' : Scheduler) : Prop where
  identity : ∀ x, (s'.threads x).identity = (s.threads x).identity
  nextThreadId : s'.nextThreadId = s.nextThreadId

namespace Kept

variable {s s' s'' : Scheduler}

theorem of_bare (hnext : s'.nextThreadId = s.nextThreadId)
    (hbare : ∀ x, (s'.threads x).bare = (s.threads x).bare) : Kept s s' where
  identity x := show (s'.threads x).bare.identity = _ by rw [hbare]; rfl
  nextThreadId := hnext

theorem of_moves (h : Moves s s') : Kept s s' :=
  .of_bare (congrArg Fixed.nextThreadId h.fixed) h.bare

theorem saveRsp (c : Slot) (rsp : ℕ) : Kept s (s.saveRsp c rsp) := .of_bare rfl bare_saveRsp

theorem trans (h : Kept s s') (h' : Kept s' s'') : Kept s s'' :=
  ⟨fun x => (h'.identity x).trans (h.identity x), h'.nextThreadId.trans h.nextThreadId⟩

theorem id (h : Kept s s') (x : Slot) : (s'.threads x).id = (s.threads x).id :=
  congrArg Prod.fst (h.identity x)

theorem processId (h : Kept s s') (x : Slot) :
    (s'.threads x).processId = (s.threads x).processId :=
  congrArg (fun t => t.2.processId) (h.identity x)

theorem parentProcessId (h : Kept s s') (x : Slot) :
    (s'.threads x).parentProcessId = (s.threads x).parentProcessId :=
  congrArg (fun t => t.2.parentProcessId) (h.identity x)

theorem threadGroupId (h : Kept s s') (x : Slot) :
    (s'.threads x).threadGroupId = (s.threads x).threadGroupId :=
  congrArg (fun t => t.2.threadGroupId) (h.identity x)

end Kept

/-- The table between two operations, where `R` lists the identifiers of the reaped processes. -/
structure Settled (s : Scheduler) (R : List ℕ) : Prop where
  queues : Queues s s.runnable
  current : ∀ c, s.currentSlot = some c → (s.threads c).state = .running
  numbered : Numbered s R

/-- The current thread `c` gave way to `next`. -/
structure Switched (s : Scheduler) (c next : Slot) (s' : Scheduler) : Prop where
  current : s.currentSlot = some c
  switchedTo : SwitchedTo s c next s'
  kept : Kept s s'

theorem SwitchedTo.current_running (h : SwitchedTo s c next s') (hx : s'.currentSlot = some x) :
    (s'.threads x).state = .running := by
  cases Option.some.inj (h.current.symm.trans hx)
  rw [h.state, if_pos rfl]

theorem SwitchedTo.of_saveRsp (h : SwitchedTo (s.saveRsp c rsp) c next s') :
    SwitchedTo s c next s' := by
  have hstate (x : Slot) : ((s.saveRsp c rsp).threads x).state = (s.threads x).state :=
    Quiet.saveRsp.state x
  refine ⟨?_, h.current, fun x => ?_⟩
  · rw [← hstate, ← hstate]
    exact h.ready
  · rw [h.state, hstate, hstate]

namespace Settled

variable {P : Platform} {s s' : Scheduler} {R : List ℕ}

section

variable (h : Settled s R)

include h

theorem contextSwitchPair (hexec : Op.exec P s .contextSwitchPair = .ok s') :
    Settled s' R ∧ (s' = s ∨ ∃ c next, Switched s c next s') := by
  rw [Op.exec] at hexec
  rcases h.queues.contextSwitchPair with hswitch | ⟨c, next, s₁, hc, -, hswitch, hq, hsw, hmoves⟩
  · rw [hswitch] at hexec
    cases hexec
    exact ⟨h, .inl rfl⟩
  · rw [hswitch] at hexec
    cases hexec
    exact ⟨⟨hq, fun _ => hsw.current_running, h.numbered.of_moves hmoves⟩,
      .inr ⟨c, next, hc, hsw, .of_moves hmoves⟩⟩

theorem yieldCurrentUserThread (hexec : Op.exec P s (.yieldCurrentUserThread rsp) = .ok s') :
    Settled s' R ∧ (s' = s ∨ ∃ c next, Switched s c next s') := by
  rw [Op.exec] at hexec
  by_cases hcase : ∃ c, s.initialized = true ∧ s.currentSlot = some c ∧
      (s.threads c).role = .user
  · obtain ⟨c, hinit, hc, hrole⟩ := hcase
    have hrun := h.current c hc
    rcases h.queues.yieldCurrentUserThread hinit hc hrole (hrun.trans_ne (by simp)) rsp with
      ⟨-, hne, -⟩ | ⟨next, s₁, hyield, hq, hsw, hmoves⟩
    · exact absurd hrun hne
    · rw [hyield] at hexec
      cases hexec
      exact ⟨⟨hq, fun _ => hsw.current_running, (h.numbered.saveRsp c rsp).of_moves hmoves⟩,
        .inr ⟨c, next, hc, hsw.of_saveRsp, (Kept.saveRsp c rsp).trans (.of_moves hmoves)⟩⟩
  · have hyield : s.yieldCurrentUserThread rsp = .ok (none, s) :=
      yieldCurrentUserThread_of_not fun c hinit hc hrole => absurd ⟨c, hinit, hc, hrole⟩ hcase
    rw [hyield] at hexec
    cases hexec
    exact ⟨h, .inl rfl⟩

/-- An exit needs `thread_count` to be at most the number of slots; else it panics. -/
theorem requestExitGroup (hexec : Op.exec P s (.requestExitGroup status) = .ok s') :
    Settled s' R ∧ (s.requestExitGroup status = .ok (none, s) ∧ s' = s ∨
      ∃ c record, s.currentSlot = some c ∧ (s.threads c).threadGroupId ≠ 0 ∧
        s.requestExitGroup status = .ok (some record, s') ∧ GroupLeft s c s') := by
  rw [Op.exec] at hexec
  by_cases hcase : ∃ c, s.initialized = true ∧ s.currentSlot = some c ∧
      (s.threads c).threadGroupId ≠ 0
  · obtain ⟨c, hinit, hc, hgroup⟩ := hcase
    have hrun := h.current c hc
    have hstate : (s.threads c).state ≠ .exited :=
      hrun.trans_ne (by simp)
    by_cases hcount : s.threadCount ≤ maxThreads
    · obtain ⟨record, s₁, hexit, hleft⟩ :=
        h.queues.requestExitGroup hcount hinit hc hstate hgroup status
      rw [hexit] at hexec
      cases hexec
      refine ⟨⟨hleft.queues, ?_, ?_⟩, .inr ⟨c, record, hc, hgroup, hexit, hleft⟩⟩
      · intro x hx
        rw [hleft.state, if_neg (hleft.next x hx).2, if_pos hx]
      · refine h.numbered.of_moves (h.numbered.moves_of_groupLeft hleft ?_ hgroup)
        rw [hrun]
        simp
    · rw [requestExitGroup_of_gt hinit hc hstate hgroup (not_le.mp hcount)] at hexec
      cases hexec
  · have hexit : s.requestExitGroup status = .ok (none, s) := by
      refine requestExitGroup_of_not fun c hinit hc => .inr ?_
      by_contra hgroup
      exact hcase ⟨c, hinit, hc, hgroup⟩
    have hs' := hexec
    rw [hexit] at hs'
    cases hs'
    exact ⟨h, .inl ⟨hexit, rfl⟩⟩

/-- A thread appears in a slot that was free. -/
theorem spawned (hs : Spawned s slot t s') (hq : Queues s' s'.runnable)
    (hfree : (s.threads slot).state = .unused) (hnumbered : Numbered s' R) : Settled s' R := by
  refine ⟨hq, fun c hc => ?_, hnumbered⟩
  rw [hs.currentSlot] at hc
  have hne : c ≠ slot := by
    rintro rfl
    rw [h.current c hc] at hfree
    cases hfree
  rw [hs.threads, update_of_ne hne]
  exact h.current c hc

theorem createUserThread (hnext : s.nextThreadId + 1 < 2 ^ 64)
    (hfree : ∀ hcount : s.threadCount < maxThreads,
      (s.threads ⟨s.threadCount, hcount⟩).state = .unused) (pageTable : ℕ) :
    Settled (s.createUserThread P pageTable).2 R ∧
      ((s.createUserThread P pageTable).2 = s ∨ ∃ slot, (s.threads slot).state = .unused ∧
        Spawned s slot (s.userThread P slot pageTable) (s.createUserThread P pageTable).2) := by
  by_cases hcreates : s.initialized = true ∧ s.threadCount < maxThreads
  · obtain ⟨hinit, hcount⟩ := hcreates
    obtain ⟨s₁, hcreate, hq, hspawned⟩ := h.queues.createUserThread hinit hcount
      ((hfree hcount).trans_ne nofun) P pageTable
    rw [hcreate]
    exact ⟨h.spawned hspawned hq (hfree hcount)
      (h.numbered.spawned hspawned rfl rfl rfl rfl hnext), .inr ⟨_, hfree hcount, hspawned⟩⟩
  · have hfull : s.initialized = false ∨ maxThreads ≤ s.threadCount := by
      rw [not_and_or, Bool.not_eq_true, not_lt] at hcreates
      exact hcreates
    obtain ⟨e, hcreate⟩ := createUserThread_of_full hfull P pageTable
    rw [hcreate]
    exact ⟨h, .inl rfl⟩

theorem forkCurrentThread (hnext : s.nextThreadId + 1 < 2 ^ 64) (newCr3 : ℕ) :
    Settled (s.forkCurrentThread newCr3).2 R ∧
      ((∃ e, s.forkCurrentThread newCr3 = (.error e, s)) ∨
        (∃ e, s.forkCurrentThread newCr3 = (.error e, s.addThread)) ∨
        ∃ parent child s', s.currentSlot = some parent ∧ (s.threads child).state = .unused ∧
          s.forkCurrentThread newCr3 = (.ok s.nextThreadId, s') ∧
          Spawned s child (s.forkedThread parent newCr3) s') := by
  rcases h.queues.forkCurrentThread newCr3 with ⟨e, hfork⟩ | ⟨-, e, hfork⟩ |
    ⟨parent, child, s₁, -, hparent, hchild, -, hfork, hq, hspawned⟩
  · rw [hfork]
    exact ⟨h, .inl ⟨e, rfl⟩⟩
  · rw [hfork]
    exact ⟨⟨h.queues.of_same rfl rfl fun _ _ => rfl, h.current, h.numbered.addThread hnext⟩,
      .inr (.inl ⟨e, rfl⟩)⟩
  · rw [hfork]
    exact ⟨h.spawned hspawned hq hchild (h.numbered.spawned hspawned rfl rfl rfl rfl hnext),
      .inr (.inr ⟨parent, child, s₁, hparent, hchild, rfl, hspawned⟩)⟩

/-- A reaped child leaves its slot. -/
theorem freeSlot (hexited : (s.threads slot).state = .exited) :
    Settled (s.freeSlot slot) (R ++ [(s.threads slot).id]) := by
  refine ⟨?_, ?_, h.numbered.freeSlot (hexited.trans_ne nofun)⟩
  · exact Quiet.freeSlot.queues (h.queues.setState (hexited.trans_ne nofun) nofun)
  · rw [freeSlot_currentSlot]
    intro c hc
    have hne : c ≠ slot := by
      rintro rfl
      rw [h.current c hc] at hexited
      cases hexited
    rw [freeSlot_of_ne hne]
    exact h.current c hc

theorem initialContextPair (hr : r.sched = s) (hrun : RunInv r) (hearly : Early r)
    (hentered : r.entered = false) (hexec : Op.exec P s .initialContextPair = .ok s') :
    Settled s' R ∧ ∃ target, Entered s target s' := by
  subst hr
  obtain ⟨hran, hc, hstate, hcount⟩ := hearly hentered
  obtain ⟨target, s₁, hinitial, hq, hin⟩ := hrun.queueInv.initialContextPair hrun.kernel hcount
    (hstate.trans_ne nofun) hrun.bootstrapUsed h.current (fun x _ => hrun.fresh hran x)
    (hrun.idle.symm.imp_right (hrun.queueInv.running 1))
  rw [Op.exec, hinitial] at hexec
  cases hexec
  refine ⟨⟨hq.queues, ?_, h.numbered.of_moves hin.moves⟩, target, hin⟩
  intro c hc'
  cases Option.some.inj (hin.currentSlot.symm.trans hc')
  rw [hin.state, if_pos rfl]

end

theorem start (hs : Booted s) : Settled s [] := by
  refine ⟨hs.queueInv.queues, ?_, .start hs⟩
  intro c hc
  cases Option.some.inj (hs.currentSlot.symm.trans hc)
  exact hs.bootstrapState

end Settled

/-! ### The counter of identifiers -/

section Counter

variable {s s' : Scheduler} {P : Platform}

theorem processId_of_createUserThread (h : s.createUserThread P pageTable = (.ok spawned, s')) :
    spawned.processId = s.nextThreadId := by
  rcases createUserThread_spawns s P pageTable with ⟨e, hcreate⟩ | ⟨slot, -, hspawned⟩
  · rw [hcreate] at h
    cases h
  · rw [hspawned spawned (congrArg Prod.fst h)]

/-- **The counter never gets to 0**, so no thread has the identifier 0. -/
theorem nextThreadId_ne_zero_of_exec {op : Op} (h : s.nextThreadId ≠ 0)
    (hexec : op.exec P s = .ok s') : s'.nextThreadId ≠ 0 := by
  have of_added {s' : Scheduler} (hfixed : s'.fixed = s.addThread.fixed) :
      s'.nextThreadId ≠ 0 := by
    rw [show s'.nextThreadId = s.addThread.nextThreadId from congrArg Fixed.nextThreadId hfixed]
    exact satAdd_one_ne_zero _
  by_cases hop : op.isSteady = true
  · have hfixed := (Op.exec_steady hop hexec).fixed
    rw [show s'.nextThreadId = s.nextThreadId from congrArg Fixed.nextThreadId hfixed]
    exact h
  cases op with
  | createUserThread pageTable =>
    cases hexec
    rcases createUserThread_spawns s P pageTable with ⟨e, hcreate⟩ | ⟨slot, hspawned, -⟩
    · rw [hcreate]
      exact h
    · exact of_added hspawned.fixed
  | forkCurrentThread newCr3 =>
    cases hexec
    rcases forkCurrentThread_cases s newCr3 with
      ⟨e, hfork⟩ | ⟨-, e, hfork⟩ | ⟨parent, child, -, -, -, -, hfork⟩
    · rw [hfork]
      exact h
    · rw [hfork]
      exact of_added rfl
    · rw [hfork]
      exact of_added Spawned.enqueue.fixed
  | reapChild parentPid targetPid =>
    cases hexec
    cases hfound : s.exitedChild parentPid targetPid with
    | none =>
      rw [reapChild_of_none hfound]
      exact h
    | some slot =>
      rw [reapChild_of_some hfound, Scheduler.freeSlot, setState, setThread]
      exact h
  | initialContextPair | contextSwitchPair | yieldCurrentUserThread | blockCurrentThread
  | unblockThreadWithResult | requestExitGroup => exact absurd rfl hop

end Counter

end Hxnu.Sched
