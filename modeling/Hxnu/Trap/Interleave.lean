import Hxnu.Trap.Frame

/-!
# Interleaved system calls

A suspended user thread is resumed with the registers of its own last kernel entry, but for the
result in `rax`, in every interleaving of system calls in which `syscall` is not used while the frame
of another suspended thread is on the fast system call stack, and handlers write through user
pointers to the user half only.

The frames are blocks of words held by their threads: the suspended threads and, during a system
call, the calling one.

## Main definitions

* `Suspended`, `suspendedAt`: the suspended threads and where their frames are.
* `FrameInv`: the invariant between system calls.
* `InCall`: the invariant during a system call.

## Main results

* `resumed_with_own_registers`: the property of all runs.
-/

namespace Hxnu.Trap

open Sched Scheduler Words Function

variable {x y slot : Slot} {a : ℕ} {s s' : Scheduler} {loc : Slot → Option ℕ}

/-! ### Where frames are -/

/-- A user thread that does not run but will. -/
def Suspended (s : Scheduler) (x : Slot) : Prop :=
  (s.threads x).role = .user ∧
    ((s.threads x).state = .runnable ∨ (s.threads x).state = .blocked)

instance (s : Scheduler) (x : Slot) : Decidable (Suspended s x) :=
  inferInstanceAs (Decidable (_ ∧ _))

/-- The address of the frame of a suspended thread. -/
def suspendedAt (s : Scheduler) (x : Slot) : Option ℕ :=
  if Suspended s x then some (s.threads x).context.rsp else none

theorem suspendedAt_eq_some :
    suspendedAt s x = some a ↔ Suspended s x ∧ (s.threads x).context.rsp = a := by
  rw [suspendedAt]
  split_ifs with h
  · rw [Option.some.injEq]
    exact (and_iff_right h).symm
  · exact iff_of_false nofun fun hs => h hs.1

theorem suspendedAt_moves (hm : Moves s s') (hstate : (s'.threads x).state = (s.threads x).state) :
    suspendedAt s' x = suspendedAt s x := by
  refine Option.ext fun a => ?_
  rw [suspendedAt_eq_some, suspendedAt_eq_some, Suspended, Suspended, hm.role, hm.context, hstate]

theorem suspendedAt_congr (h : s'.threads x = s.threads x) :
    suspendedAt s' x = suspendedAt s x := by
  refine Option.ext fun a => ?_
  rw [suspendedAt_eq_some, suspendedAt_eq_some, Suspended, Suspended, h]

namespace Stacks

variable (K : Stacks)

/-- The frame of a system call by `int 0x80`, and the first frame of a thread. -/
def ownFrame (x : Slot) : ℕ := K.stackTop x - frameBytes

/-- The frame of a system call by `syscall`. -/
def fastFrame : ℕ := K.fastTop - frameBytes

theorem ownFrame_eq (x : Slot) : K.ownFrame x = K.userStacks + x * 16384 + 16224 := by
  rw [ownFrame, Platform.stackTop, kernelStackSize, frameBytes]
  omega

theorem ownFrame_apart (h : x ≠ y) :
    K.ownFrame x + 8 * 20 ≤ K.ownFrame y ∨ K.ownFrame y + 8 * 20 ≤ K.ownFrame x := by
  have hne : (x : ℕ) ≠ y := fun heq => h (Fin.ext heq)
  rw [ownFrame_eq, ownFrame_eq]
  omega

theorem fastFrame_apart (x : Slot) :
    K.ownFrame x + 8 * 20 ≤ K.fastFrame ∨ K.fastFrame + 8 * 20 ≤ K.ownFrame x := by
  have happart := K.apart
  have hhigh := K.fastTop_high
  have hx : (x : ℕ) < 8 := x.isLt
  rw [ownFrame_eq, fastFrame, frameBytes]
  rw [maxThreads, kernelStackSize, fastSyscallStackSize] at happart
  rw [fastSyscallStackSize] at hhigh
  omega

theorem high_of_frame (h : a = K.ownFrame x ∨ a = K.fastFrame) : 2 ^ 47 ≤ a := by
  have hlow := K.userStacks_high
  have hhigh := K.fastTop_high
  rw [fastSyscallStackSize] at hhigh
  rcases h with h | h
  · rw [h, ownFrame_eq]
    omega
  · rw [h, fastFrame, frameBytes]
    omega

end Stacks

/-! ### The condition -/

namespace Machine

/-- No suspended thread has its frame on the fast system call stack. -/
def fastFree (m : Machine) (K : Stacks) : Bool :=
  decide (∀ x, Suspended m.sched x → (m.sched.threads x).context.rsp ≠ K.fastFrame)

/-- `syscall` is used only while the fast stack is free, and handlers write to the user half. -/
def separate (m : Machine) (K : Stacks) : Action → Bool
  | .call call => (!call.fast || m.fastFree K) &&
      call.body.all fun e => match e with
        | .write address _ => decide (address < 2 ^ 47)
        | _ => true
  | _ => true

end Machine

/-! ### Invariants -/

/-- What contexts and states say about roles. -/
structure Roles (s : Scheduler) : Prop where
  kind : ∀ x, (s.threads x).context.kind = contextKindUser → (s.threads x).role = .user
  blocked : ∀ x, (s.threads x).state = .blocked → (s.threads x).role = .user

/-- Roles are kept when threads move and only user threads get blocked. -/
theorem Roles.moves (h : Roles s) (hm : Moves s s')
    (hblocked : ∀ x, (s'.threads x).state = .blocked →
      (s.threads x).state = .blocked ∨ (s.threads x).role = .user) : Roles s' := by
  refine ⟨fun x hx => ?_, fun x hx => ?_⟩
  · rw [hm.context] at hx
    rw [hm.role]
    exact h.kind x hx
  · rw [hm.role]
    exact (hblocked x hx).elim (h.blocked x) id

/-- The invariant between system calls. -/
structure FrameInv (K : Stacks) (m : Machine) : Prop where
  run : RunInv m.run
  compact : Compact m.sched
  calm : m.run.mustYield = false
  early : Early m.run
  roles : Roles m.sched
  rsp0 : ∀ c, m.sched.currentSlot = some c → (m.sched.threads c).role = .user →
    m.rsp0 = K.stackTop c
  place : ∀ x a, suspendedAt m.sched x = some a → a = K.ownFrame x ∨ a = K.fastFrame
  held : Held 20 (suspendedAt m.sched) m.mem fun x => (m.saved x).word

/-- The invariant during a system call of the thread in slot `c` with its frame at `frame`. -/
structure InCall (K : Stacks) (c : Slot) (frame : ℕ) (m : Machine) : Prop where
  run : RunInv m.run
  compact : Compact m.sched
  calm : m.run.mustYield = false
  entered : m.run.entered = true
  roles : Roles m.sched
  current : m.sched.currentSlot = some c
  role : (m.sched.threads c).role = .user
  rsp0 : m.rsp0 = K.stackTop c
  place : ∀ x a, update (suspendedAt m.sched) c (some frame) x = some a →
    a = K.ownFrame x ∨ a = K.fastFrame
  held : Held 20 (update (suspendedAt m.sched) c (some frame)) m.mem
    fun x => (m.saved x).word

/-- A resumed thread has its own registers, but for `rax`. -/
def OwnRegisters (m : Machine) (resumed : Option Resumed) : Prop :=
  ∀ slot regs, resumed = some (slot, regs) → ∃ rax, regs = { m.saved slot with rax := rax }

/-- The registers popped from a held frame. -/
theorem load_of_held {mem : ℕ → ℕ} {saved : Slot → Registers}
    (h : Held 20 loc mem fun x => (saved x).word) (hx : loc x = some a) :
    Registers.load mem a = { saved x with rax := mem a } := by
  have hkept (i : ℕ) (hi : 0 < i) (hlt : i < 20) := h.kept x a hx i hi hlt
  rw [Registers.load, hkept 1, hkept 2, hkept 3, hkept 4, hkept 5, hkept 6, hkept 7, hkept 8,
    hkept 9, hkept 10, hkept 11, hkept 12, hkept 13, hkept 14, hkept 15, hkept 17, hkept 18] <;>
    first | rfl | decide

theorem word_update (saved : Slot → Registers) (c : Slot) (regs : Registers) :
    (fun x => (update saved c regs x).word) =
      update (fun x => (saved x).word) c regs.word := by
  funext x
  by_cases hx : x = c
  · rw [hx, update_self, update_self]
  · rw [update_of_ne hx, update_of_ne hx]

/-! ### Entering the kernel -/

section Enter

variable {K : Stacks} {m : Machine} {c : Slot} {frame : ℕ}

/-- A frame is apart from the frames of the other threads, unless both are on the fast stack. -/
theorem FrameInv.apart (h : FrameInv K m) (ha : a = K.ownFrame c ∨ a = K.fastFrame)
    (hfast : a = K.fastFrame → ∀ x, Suspended m.sched x → (m.sched.threads x).context.rsp ≠
      K.fastFrame) (hy : y ≠ c) (hb : suspendedAt m.sched y = some b) :
    a + 8 * 20 ≤ b ∨ b + 8 * 20 ≤ a := by
  rcases ha with ha | ha
  · rw [ha]
    rcases h.place y b hb with hown | hshared
    · rw [hown]
      exact K.ownFrame_apart hy.symm
    · rw [hshared]
      exact K.fastFrame_apart c
  · obtain ⟨hsus, hrsp⟩ := suspendedAt_eq_some.mp hb
    rcases h.place y b hb with hown | hshared
    · rw [ha, hown]
      exact (K.fastFrame_apart y).symm
    · exact absurd (hrsp.trans hshared) (hfast ha y hsus)

theorem enter_run (call : Call) : (m.enter K call).run = m.run := by rw [Machine.enter]

theorem enter_mem (call : Call) : (m.enter K call).mem =
    fill m.mem (m.frameAddress K call.fast) 20
      (if call.fast then call.regs.afterSyscall else call.regs).word := by
  rw [Machine.enter]

/-- **A system call pushes its frame.** -/
theorem FrameInv.enter (h : FrameInv K m) (hc : m.sched.currentSlot = some c)
    (hrole : (m.sched.threads c).role = .user) (call : Call)
    (hfast : call.fast = true → m.fastFree K = true) :
    InCall K c (m.frameAddress K call.fast) (m.enter K call) := by
  have hframe : m.frameAddress K call.fast = K.ownFrame c ∨
      m.frameAddress K call.fast = K.fastFrame := by
    rw [Machine.frameAddress, h.rsp0 c hc hrole]
    split_ifs
    · exact .inr rfl
    · exact .inl rfl
  have hfree : m.frameAddress K call.fast = K.fastFrame → ∀ x, Suspended m.sched x →
      (m.sched.threads x).context.rsp ≠ K.fastFrame := by
    intro heq
    cases hf : call.fast with
    | true => exact of_decide_eq_true (hfast hf)
    | false =>
      -- The frame is on the stack of the thread itself.
      rw [hf, Machine.frameAddress, h.rsp0 c hc hrole] at heq
      have happart := K.fastFrame_apart c
      change K.ownFrame c = K.fastFrame at heq
      omega
  have hentered : m.run.entered = true := by
    by_contra hnot
    obtain ⟨-, hc', -, -⟩ := h.early (Bool.not_eq_true _ ▸ hnot)
    change m.sched.currentSlot = some 0 at hc'
    rw [hc] at hc'
    cases hc'
    rw [show (m.sched.threads 0).role = .bootstrap from h.run.kernel.bootstrapRole] at hrole
    cases hrole
  rw [Machine.enter, hc]
  refine ⟨h.run, h.compact, h.calm, hentered, h.roles, hc, hrole, h.rsp0 c hc hrole, ?_, ?_⟩
  · intro x a hx
    change update (suspendedAt m.sched) c _ x = some a at hx
    by_cases hxc : x = c
    · rw [hxc, update_self] at hx
      rw [hxc, ← Option.some.inj hx]
      exact hframe
    · rw [update_of_ne hxc] at hx
      exact h.place x a hx
  · rw [word_update]
    dsimp only [Machine.sched]
    exact h.held.push fun y b hy hb => h.apart hframe hfree hy hb

end Enter

/-! ### Handlers -/

section Effects

variable {K : Stacks} {m m' : Machine} {c : Slot} {frame : ℕ}

theorem yieldsIfMust_of_calm (h : r.mustYield = false) (op : Op) : yieldsIfMust r op = true := by
  rw [yieldsIfMust, h]
  rfl

section

variable (h : InCall K c frame m)

include h

/-- Only memory changes. -/
theorem InCall.of_mem
    (hheld : Held 20 (update (suspendedAt m.sched) c (some frame)) mem fun x => (m.saved x).word) :
    InCall K c frame { m with mem := mem } :=
  ⟨h.run, h.compact, h.calm, h.entered, h.roles, h.current, h.role, h.rsp0, h.place, hheld⟩

theorem InCall.high (hy : update (suspendedAt m.sched) c (some frame) y = some b) : 2 ^ 47 ≤ b :=
  K.high_of_frame (h.place y b hy)

theorem InCall.write (haddress : address < 2 ^ 47) (word : ℕ) :
    InCall K c frame (m.effect K (.write address word)) := by
  refine h.of_mem (h.held.write_outside word ?_)
  intro y b hy
  exact .inl (haddress.trans_le (h.high hy))

theorem InCall.setRax (hx : update (suspendedAt m.sched) c (some frame) x = some a) (value : ℕ) :
    InCall K c frame (m.setRax a value) :=
  h.of_mem (h.held.write_first hx value)

/-- The scheduler takes a step in which the calling thread goes on. -/
theorem InCall.of_step (hstepped : Stepped m.run op s)
    (hop : op ≠ .forkCurrentThread 0) (hblock : op ≠ .blockCurrentThread) (hroles : Roles s)
    (hcurrent : s.currentSlot = some c) (hrole : (s.threads c).role = .user)
    (hplace : ∀ x a, update (suspendedAt s) c (some frame) x = some a → a = K.ownFrame x ∨ a =
      K.fastFrame)
    (hheld : Held 20 (update (suspendedAt s) c (some frame)) mem fun x => (saved x).word) :
    InCall K c frame { m with run := m.run.next op s, mem := mem, saved := saved } := by
  refine ⟨hstepped.inv, h.compact.effect h.run.slotInv hstepped.effect hop,
    beq_eq_false_iff_ne.mpr hblock, ?_, hroles, hcurrent, hrole, h.rsp0, hplace, hheld⟩
  rw [RunState.next, h.entered, Bool.true_or]

theorem InCall.not_suspended : ¬ Suspended m.sched c := by
  have hrun : (m.sched.threads c).state = .running := h.run.running h.calm h.current
  rintro ⟨-, hstate⟩
  rw [hrun] at hstate
  rcases hstate with hstate | hstate <;> cases hstate

end

/-- Unblocking a thread leaves it suspended. -/
theorem suspendedAt_unblock (hrole : (s.threads slot).role = .user)
    (hblocked : (s.threads slot).state = .blocked)
    (hthreads : s'.threads = (s.setState slot .runnable).threads) :
    suspendedAt s' = suspendedAt s := by
  funext x
  by_cases hx : x = slot
  · subst hx
    have hself : s'.threads x = { s.threads x with state := .runnable } := by
      rw [hthreads, setState_threads, update_self]
    rw [suspendedAt, suspendedAt, if_pos, if_pos, hself]
    · exact ⟨hrole, .inr hblocked⟩
    · rw [Suspended, hself]
      exact ⟨hrole, .inl rfl⟩
  · refine suspendedAt_congr ?_
    rw [hthreads, setState_threads, update_of_ne hx]

/-- **Unblocking** sets the `rax` of a suspended thread. -/
theorem InCall.unblock (h : InCall K c frame m) (pid tid result : ℕ) :
    InCall K c frame (m.effect K (.unblock pid tid result)) := by
  have hsound : Sound m.run (.unblockThreadWithResult pid tid) :=
    ⟨yieldsIfMust_of_calm h.calm _, trivial⟩
  have hstepped : Stepped m.run (.unblockThreadWithResult pid tid)
      (m.sched.unblockThreadWithResult pid tid).2 := h.run.stepped (P := K.toPlatform) hsound rfl
  rw [Machine.effect]
  rcases h.run.queueInv.unblockThreadWithResult pid tid with
    hnone | ⟨slot, s, hblocked, hsome, -, hm, hcur, hthreads⟩
  · have hnone' : m.sched.unblockThreadWithResult pid tid = (none, m.sched) := hnone
    rw [hnone'] at hstepped ⊢
    exact h.of_step hstepped nofun nofun h.roles h.current h.role h.place h.held
  · have hsome' : m.sched.unblockThreadWithResult pid tid =
        (some (m.sched.threads slot).context.rsp, s) := hsome
    have hrole := h.roles.blocked slot hblocked
    have hsame : suspendedAt s = suspendedAt m.sched :=
      suspendedAt_unblock hrole hblocked hthreads
    have hne : slot ≠ c := by
      rintro rfl
      exact h.not_suspended ⟨hrole, .inr hblocked⟩
    have hroles : Roles s := by
      refine h.roles.moves hm fun x hx => ?_
      by_cases hxs : x = slot
      · exact .inr (hxs ▸ hrole)
      · rw [hthreads, setState_threads, update_of_ne hxs] at hx
        exact .inl hx
    rw [hsome'] at hstepped ⊢
    have htook : InCall K c frame (m.took (.unblockThreadWithResult pid tid) s) :=
      h.of_step hstepped nofun nofun hroles (hcur.trans h.current)
        ((hm.role c).trans h.role) (by rw [hsame]; exact h.place)
        (by rw [hsame]; exact h.held)
    refine htook.setRax (x := slot) ?_ result
    change update (suspendedAt s) c (some frame) slot = _
    rw [update_of_ne hne, hsame]
    exact suspendedAt_eq_some.mpr ⟨⟨hrole, .inr hblocked⟩, rfl⟩

/-- A new user thread is suspended at its first frame. -/
theorem suspendedAt_spawned (hs : Spawned s slot t s') (hrole : t.role = .user)
    (hstate : t.state = .runnable) :
    suspendedAt s' = update (suspendedAt s) slot (some t.context.rsp) := by
  funext x
  by_cases hx : x = slot
  · rw [hx, update_self]
    refine suspendedAt_eq_some.mpr ?_
    rw [Suspended, hs.threads, update_self]
    exact ⟨⟨hrole, .inl hstate⟩, rfl⟩
  · rw [update_of_ne hx]
    refine suspendedAt_congr ?_
    rw [hs.threads, update_of_ne hx]

theorem Roles.spawned (h : Roles s) (hs : Spawned s slot t s') (hrole : t.role = .user) :
    Roles s' := by
  refine ⟨?_, ?_⟩
  · intro x hx
    rw [hs.threads] at hx ⊢
    by_cases hxs : x = slot
    · rw [hxs, update_self]
      exact hrole
    · rw [update_of_ne hxs] at hx ⊢
      exact h.kind x hx
  · intro x hx
    rw [hs.threads] at hx ⊢
    by_cases hxs : x = slot
    · rw [hxs, update_self]
      exact hrole
    · rw [update_of_ne hxs] at hx ⊢
      exact h.blocked x hx

/-- The frame that `initialize_user_thread` writes is apart from all others. -/
theorem held_spawn (hplace : ∀ x a, loc x = some a → a = K.ownFrame x ∨ a = K.fastFrame)
    (hheld : Held 20 loc mem fun x => (saved x).word) (slot : Slot) (regs : Registers) :
    (∀ x a, update loc slot (some (K.ownFrame slot)) x = some a →
      a = K.ownFrame x ∨ a = K.fastFrame) ∧
    Held 20 (update loc slot (some (K.ownFrame slot)))
      (fill mem (K.ownFrame slot) 20 regs.word)
      fun x => (update saved slot regs x).word := by
  refine ⟨?_, ?_⟩
  · intro x a hx
    by_cases hxs : x = slot
    · rw [hxs, update_self] at hx
      rw [hxs]
      exact .inl (Option.some.inj hx).symm
    · rw [update_of_ne hxs] at hx
      exact hplace x a hx
  · rw [word_update]
    refine hheld.push ?_
    intro y b hy hb
    rcases hplace y b hb with hown | hshared
    · rw [hown]
      exact K.ownFrame_apart hy.symm
    · rw [hshared]
      exact K.fastFrame_apart slot

theorem userThread_rsp (s : Scheduler) (slot : Slot) (pageTable : ℕ) :
    (s.userThread K.toPlatform slot pageTable).context.rsp = K.ownFrame slot := by
  rw [userThread, initializeUserThread, Stacks.ownFrame]

/-- What `create_user_thread` does to the machine. -/
theorem createUserThread_cases (hinv : RunInv m.run) (hcalm : m.run.mustYield = false)
    (entryPoint userStack pageTable : ℕ) :
    ∃ s, (m.sched.createUserThread K.toPlatform pageTable).2 = s ∧
      Stepped m.run (.createUserThread pageTable) s ∧
      (s = m.sched ∧ m.createUserThread K entryPoint userStack pageTable =
        m.took (.createUserThread pageTable) s ∨
      ∃ slot : Slot, (slot : ℕ) = m.sched.threadCount ∧ (m.sched.threads slot).state = .unused ∧
        Spawned m.sched slot (m.sched.userThread K.toPlatform slot pageTable) s ∧
        m.createUserThread K entryPoint userStack pageTable =
          { m with
            run := m.run.next (.createUserThread pageTable) s
            mem := fill m.mem (K.ownFrame slot) 20 (initialRegisters entryPoint userStack).word
            saved := update m.saved slot (initialRegisters entryPoint userStack) }) := by
  have hsound : Sound m.run (.createUserThread pageTable) :=
    ⟨yieldsIfMust_of_calm hcalm _, trivial⟩
  refine ⟨_, rfl, hinv.stepped (P := K.toPlatform) hsound rfl, ?_⟩
  by_cases hcount : m.sched.threadCount < maxThreads
  · have hguard : m.sched.initialized = true ∧ m.sched.threadCount < maxThreads :=
      ⟨hinv.kernel.initialized, hcount⟩
    have hfree : (m.run.sched.threads ⟨m.run.sched.threadCount, hcount⟩).state = .unused :=
      hinv.slotInv.unused le_rfl
    obtain ⟨s, hcreate, -, hs⟩ := hinv.queueInv.queues.createUserThread hinv.kernel.initialized
      hcount (hfree.trans_ne nofun) K.toPlatform pageTable
    have hcreate' : m.sched.createUserThread K.toPlatform pageTable = _ := hcreate
    rw [Machine.createUserThread, dif_pos hguard, hcreate']
    exact .inr ⟨⟨m.sched.threadCount, hcount⟩, rfl, hfree, hs, rfl⟩
  · have hguard : ¬ (m.sched.initialized = true ∧ m.sched.threadCount < maxThreads) :=
      fun hboth => hcount hboth.2
    obtain ⟨e, herr⟩ := createUserThread_of_full (s := m.sched) (.inr (not_lt.mp hcount))
      K.toPlatform pageTable
    rw [Machine.createUserThread, dif_neg hguard, herr]
    exact .inl ⟨rfl, rfl⟩

/-- **Creating a thread** during a system call. -/
theorem InCall.spawn (h : InCall K c frame m) (entryPoint userStack pageTable : ℕ) :
    InCall K c frame (m.createUserThread K entryPoint userStack pageTable) := by
  obtain ⟨s, -, hstepped, ⟨rfl, heq⟩ | ⟨slot, -, hfree, hs, heq⟩⟩ :=
    createUserThread_cases (K := K) h.run h.calm entryPoint userStack pageTable
  · rw [heq]
    exact h.of_step hstepped nofun nofun h.roles h.current h.role h.place h.held
  · have hne : slot ≠ c := by
      rintro rfl
      rw [show (m.sched.threads slot).state = .running from h.run.running h.calm h.current] at hfree
      cases hfree
    obtain ⟨hplace, hheld⟩ := held_spawn h.place h.held slot (initialRegisters entryPoint userStack)
    have hloc : update (suspendedAt s) c (some frame) =
        update (update (suspendedAt m.sched) c (some frame)) slot
          (some (K.ownFrame slot)) := by
      rw [suspendedAt_spawned hs rfl rfl, userThread_rsp, update_comm hne]
    have hother : s.threads c = m.sched.threads c := by
      rw [hs.threads, update_of_ne hne.symm]
    rw [← hloc] at hplace hheld
    rw [heq]
    refine h.of_step hstepped nofun nofun (h.roles.spawned hs rfl)
      (hs.currentSlot.trans h.current) (by rw [hother]; exact h.role) ?_ ?_
    · exact hplace
    · exact hheld

/-- Creating a thread between system calls. -/
theorem FrameInv.spawn (h : FrameInv K m) (entryPoint userStack pageTable : ℕ) :
    FrameInv K (m.createUserThread K entryPoint userStack pageTable) := by
  have hearly := h.early.createUserThread (P := K.toPlatform) h.run pageTable
  obtain ⟨s, hcreate, hstepped, hcases⟩ :=
    createUserThread_cases (K := K) h.run h.calm entryPoint userStack pageTable
  have hcompact := h.compact.effect h.run.slotInv hstepped.effect nofun
  rw [show (m.run.sched.createUserThread K.toPlatform pageTable).2 = s from hcreate] at hearly
  obtain ⟨rfl, heq⟩ | ⟨slot, -, hfree, hs, heq⟩ := hcases
  · rw [heq]
    exact ⟨hstepped.inv, hcompact, rfl, hearly, h.roles, h.rsp0, h.place, h.held⟩
  · obtain ⟨hplace, hheld⟩ := held_spawn h.place h.held slot (initialRegisters entryPoint userStack)
    have hloc : suspendedAt s = update (suspendedAt m.sched) slot (some (K.ownFrame slot)) := by
      rw [suspendedAt_spawned hs rfl rfl, userThread_rsp]
    rw [← hloc] at hplace hheld
    rw [heq]
    refine ⟨hstepped.inv, hcompact, rfl, hearly, h.roles.spawned hs rfl, ?_, hplace, ?_⟩
    · intro c hc hcrole
      change s.currentSlot = some c at hc
      change (s.threads c).role = .user at hcrole
      rw [hs.currentSlot] at hc
      have hne : c ≠ slot := by
        rintro rfl
        rw [show (m.sched.threads c).state = .running from h.run.running h.calm hc] at hfree
        cases hfree
      rw [hs.threads, update_of_ne hne] at hcrole
      exact h.rsp0 c hc hcrole
    · dsimp only [Machine.sched, RunState.next]
      exact hheld

/-- The effects of a handler that writes to the user half keep the invariant. -/
theorem InCall.foldl_effect (h : InCall K c frame m) (body : List HandlerEffect)
    (hbody : (body.all fun e => match e with
      | .write address _ => decide (address < 2 ^ 47)
      | _ => true) = true) :
    InCall K c frame (body.foldl (fun m e => m.effect K e) m) := by
  induction body generalizing m with
  | nil => exact h
  | cons e body ih =>
    rw [List.all_cons, Bool.and_eq_true] at hbody
    refine ih ?_ hbody.2
    cases e with
    | write address word => exact h.write (of_decide_eq_true hbody.1) word
    | unblock pid tid result => exact h.unblock pid tid result
    | spawn entryPoint userStack pageTable => exact h.spawn entryPoint userStack pageTable

end Effects

/-! ### Leaving the kernel -/

section Leave

variable {K : Stacks} {m m' : Machine} {c next : Slot} {frame : ℕ} {loc : Slot → Option ℕ}

/-- The thread in slot `next` has got the processor. The frames at `loc` are held, and those of the
suspended threads are among them. -/
structure Ready (K : Stacks) (loc : Slot → Option ℕ) (next : Slot) (m : Machine) : Prop where
  run : RunInv m.run
  compact : Compact m.sched
  calm : m.run.mustYield = false
  entered : m.run.entered = true
  roles : Roles m.sched
  current : m.sched.currentSlot = some next
  place : ∀ x a, loc x = some a → a = K.ownFrame x ∨ a = K.fastFrame
  held : Held 20 loc m.mem fun x => (m.saved x).word
  sub : ∀ x a, suspendedAt m.sched x = some a → loc x = some a

theorem Ready.frameInv (h : Ready K loc next m)
    (hrsp0 : (m.sched.threads next).role = .user → m.rsp0 = K.stackTop next) : FrameInv K m where
  run := h.run
  compact := h.compact
  calm := h.calm
  early hnot := by
    rw [h.entered] at hnot
    cases hnot
  roles := h.roles
  rsp0 c hc hrole := by
    rw [h.current] at hc
    cases hc
    exact hrsp0 hrole
  place x a hx := h.place x a (h.sub x a hx)
  held := h.held.mono h.sub

theorem Ready.setRax (h : Ready K loc next m) (hframe : loc c = some frame) (value : ℕ) :
    Ready K loc next (m.setRax frame value) :=
  ⟨h.run, h.compact, h.calm, h.entered, h.roles, h.current, h.place,
    h.held.write_first hframe value, h.sub⟩

theorem prepareResumeSlot_run : (m.prepareResumeSlot K next).run = m.run := by
  rw [Machine.prepareResumeSlot]
  split_ifs <;> rfl

theorem prepareResumeSlot_mem : (m.prepareResumeSlot K next).mem = m.mem := by
  rw [Machine.prepareResumeSlot]
  split_ifs <;> rfl

theorem prepareResumeSlot_saved : (m.prepareResumeSlot K next).saved = m.saved := by
  rw [Machine.prepareResumeSlot]
  split_ifs <;> rfl

theorem setRax_prepareResumeSlot (value : ℕ) : (m.prepareResumeSlot K next).setRax frame value =
    (m.setRax frame value).prepareResumeSlot K next := by
  rw [Machine.prepareResumeSlot, Machine.prepareResumeSlot]
  exact apply_ite (fun m : Machine => m.setRax frame value) _ _ _

/-- **The processor goes to another thread.** If that is a user thread and its frame is held, it is
resumed with its own registers. -/
theorem Ready.resume (h : Ready K loc next m)
    (hnext : (m.sched.threads next).role = .user →
      loc next = some (m.sched.threads next).context.rsp) :
    FrameInv K (m.prepareResumeSlot K next) ∧
      OwnRegisters (m.prepareResumeSlot K next) ((m.prepareResumeSlot K next).resume next) := by
  have hrun : (m.prepareResumeSlot K next).run = m.run := prepareResumeSlot_run
  have hmem : (m.prepareResumeSlot K next).mem = m.mem := prepareResumeSlot_mem
  have hsaved : (m.prepareResumeSlot K next).saved = m.saved := prepareResumeSlot_saved
  have hrsp0 (huser : (m.sched.threads next).role = .user) :
      (m.prepareResumeSlot K next).rsp0 = K.stackTop next := by
    rw [Machine.prepareResumeSlot, if_pos huser]
  generalize m.prepareResumeSlot K next = m' at hrun hmem hsaved hrsp0 ⊢
  obtain ⟨run, mem, rsp0, userRsp, saved⟩ := m'
  subst hrun hmem hsaved
  have hready : Ready K loc next ⟨m.run, m.mem, rsp0, userRsp, m.saved⟩ :=
    ⟨h.run, h.compact, h.calm, h.entered, h.roles, h.current, h.place, h.held, h.sub⟩
  refine ⟨hready.frameInv hrsp0, fun slot regs hresume => ?_⟩
  rw [Machine.resume] at hresume
  split_ifs at hresume with hkind
  cases hresume
  exact ⟨_, load_of_held h.held (hnext (h.roles.kind next hkind))⟩

theorem InCall.loc_of_suspended (h : InCall K c frame m) (hx : suspendedAt m.sched x = some a) :
    update (suspendedAt m.sched) c (some frame) x = some a := by
  have hne : x ≠ c := by
    rintro rfl
    exact h.not_suspended (suspendedAt_eq_some.mp hx).1
  rw [update_of_ne hne]
  exact hx

/-- The frame of the caller still says that it came from user mode. -/
theorem syscallFromUser_of_held (hheld : Held 20 loc m.mem fun x => (m.saved x).word)
    (hframe : loc c = some frame) : m.syscallFromUser frame = true := by
  have hcs : (m.saved c).word 16 = userCs := rfl
  rw [Machine.syscallFromUser, hheld.kept c frame hframe 16 (by decide) (by decide), hcs]
  rfl

/-- A system call that goes on returns to its caller. -/
theorem InCall.continues (h : InCall K c frame m) (value : ℕ) :
    FrameInv K (m.setRax frame value) := by
  have h' := h.setRax (update_self c (some frame) (suspendedAt m.sched)) value
  have hready : Ready K _ c (m.setRax frame value) := ⟨h'.run, h'.compact, h'.calm, h'.entered,
    h'.roles, h'.current, h'.place, h'.held, fun x a hx => h'.loc_of_suspended hx⟩
  exact hready.frameInv fun _ => h'.rsp0

/-- The invariant while a thread that may have blocked is about to yield. -/
structure Leaving (K : Stacks) (c : Slot) (frame : ℕ) (m : Machine) : Prop where
  run : RunInv m.run
  compact : Compact m.sched
  entered : m.run.entered = true
  roles : Roles m.sched
  current : m.sched.currentSlot = some c
  role : (m.sched.threads c).role = .user
  rsp0 : m.rsp0 = K.stackTop c
  place : ∀ x a, update (suspendedAt m.sched) c (some frame) x = some a →
    a = K.ownFrame x ∨ a = K.fastFrame
  held : Held 20 (update (suspendedAt m.sched) c (some frame)) m.mem
    fun x => (m.saved x).word

theorem Leaving.entered_took (h : Leaving K c frame m) (op : Op) (s : Scheduler) :
    (m.took op s).run.entered = true := by
  rw [Machine.took, RunState.next, h.entered, Bool.true_or]

theorem InCall.leaving (h : InCall K c frame m) : Leaving K c frame m :=
  ⟨h.run, h.compact, h.entered, h.roles, h.current, h.role, h.rsp0, h.place, h.held⟩

/-- The caller blocks. -/
theorem InCall.block (h : InCall K c frame m) :
    Leaving K c frame (m.took .blockCurrentThread m.sched.blockCurrentThread) := by
  have huser : m.run.sched.userCurrent = true := by
    rw [userCurrent_eq h.current]
    exact beq_iff_eq.mpr h.role
  have hstepped : Stepped m.run .blockCurrentThread m.sched.blockCurrentThread :=
    h.run.stepped (P := K.toPlatform) ⟨yieldsIfMust_of_calm h.calm _, huser⟩ rfl
  have hcompact := h.compact.effect h.run.slotInv hstepped.effect nofun
  have hentered : (m.run.next .blockCurrentThread m.sched.blockCurrentThread).entered = true := by
    rw [RunState.next, h.entered, Bool.true_or]
  rcases h.run.queueInv.blockCurrentThread with hsame | ⟨c', hc', -, hblock, -, hm⟩
  · have hsame' : m.sched.blockCurrentThread = m.sched := hsame
    rw [hsame'] at hstepped hcompact hentered ⊢
    exact ⟨hstepped.inv, hcompact, hentered, h.roles, h.current, h.role, h.rsp0, h.place, h.held⟩
  · have hc : c' = c := Option.some.inj (hc'.symm.trans h.current)
    subst hc
    have hblock' : m.sched.blockCurrentThread = m.sched.setState c' .blocked := hblock
    rw [hblock'] at hstepped hcompact hentered ⊢
    have hother {x : Slot} (hx : x ≠ c') :
        (m.sched.setState c' .blocked).threads x = m.sched.threads x := by
      rw [setState_threads, update_of_ne hx]
    have hloc : update (suspendedAt (m.sched.setState c' .blocked)) c' (some frame) =
        update (suspendedAt m.sched) c' (some frame) := by
      funext x
      by_cases hx : x = c'
      · rw [hx, update_self, update_self]
      · rw [update_of_ne hx, update_of_ne hx, suspendedAt_congr (hother hx)]
    have hroles : Roles (m.sched.setState c' .blocked) := by
      refine h.roles.moves hm fun x hx => ?_
      by_cases hxc : x = c'
      · exact .inr (hxc ▸ h.role)
      · rw [hother hxc] at hx
        exact .inl hx
    exact ⟨hstepped.inv, hcompact, hentered, hroles, h.current, (hm.role c').trans h.role, h.rsp0,
      hloc ▸ h.place, hloc ▸ h.held⟩

/-- **The caller yields.** It is resumed later from its frame, or goes on now. -/
theorem Leaving.yield (h : Leaving K c frame m) :
    ∃ next s, m.sched.yieldCurrentUserThread frame =
        .ok (if next = c then none else some next, s) ∧
      Ready K (update (suspendedAt m.sched) c (some frame)) next
        (m.took (.yieldCurrentUserThread frame) s) ∧
      ((s.threads next).role = .user → update (suspendedAt m.sched) c (some frame) next =
        some (s.threads next).context.rsp) := by
  obtain ⟨next, s, hyield, -, hsw, hm⟩ := h.run.yield_of_user h.current h.role frame
  have hexec : (Op.yieldCurrentUserThread frame).exec K.toPlatform m.run.sched = .ok s := by
    rw [Op.exec, hyield]
    rfl
  have hsound : Sound m.run (.yieldCurrentUserThread frame) :=
    ⟨by rw [yieldsIfMust, Op.isYield, Bool.or_true], trivial⟩
  have hstepped := h.run.stepped hsound hexec
  have hstate₁ (x : Slot) : ((m.sched.saveRsp c frame).threads x).state =
      (m.sched.threads x).state := Quiet.saveRsp.state x
  have hrole (x : Slot) : (s.threads x).role = (m.sched.threads x).role :=
    (hm.role x).trans (RunInv.threads_setContext m.sched c _ Thread.role (fun _ _ => rfl) x)
  have hkind (x : Slot) : (s.threads x).context.kind = (m.sched.threads x).context.kind := by
    rw [hm.context, saveRsp, setContext, setThread_threads]
    by_cases hx : x = c
    · rw [hx, update_self]
    · rw [update_of_ne hx]
  have hrsp {x : Slot} (hx : x ≠ c) :
      (s.threads x).context.rsp = (m.sched.threads x).context.rsp := by
    rw [hm.context, saveRsp, setContext, setThread_threads, update_of_ne hx]
  have hrspc : (s.threads c).context.rsp = frame := by
    rw [hm.context, saveRsp, setContext, setThread_threads, update_self]
  refine ⟨next, s, hyield, ⟨hstepped.inv, h.compact.effect h.run.slotInv hstepped.effect (by simp), rfl,
    h.entered_took _ s, ⟨?_, ?_⟩, hsw.current, h.place, h.held, ?_⟩, ?_⟩
  · intro x hx
    change (s.threads x).context.kind = contextKindUser at hx
    rw [hkind] at hx
    exact (hrole x).trans (h.roles.kind x hx)
  · intro x hx
    change (s.threads x).state = .blocked at hx
    rw [hsw.state] at hx
    split_ifs at hx
    rw [hstate₁] at hx
    exact (hrole x).trans (h.roles.blocked x hx)
  · intro x a hx
    obtain ⟨⟨hxrole, hxstate⟩, hxrsp⟩ := suspendedAt_eq_some.mp hx
    change (s.threads x).state = .runnable ∨ (s.threads x).state = .blocked at hxstate
    by_cases hxc : x = c
    · rw [hxc] at hxrsp
      rw [hxc, update_self, ← hxrsp]
      exact congrArg some hrspc.symm
    · rw [update_of_ne hxc]
      rw [hsw.state] at hxstate
      split_ifs at hxstate with hnext hcase
      · rcases hxstate with hxstate | hxstate <;> cases hxstate
      · exact absurd hcase.1 hxc
      · rw [hstate₁] at hxstate
        exact suspendedAt_eq_some.mpr ⟨⟨(hrole x).symm.trans hxrole, hxstate⟩,
          (hrsp hxc).symm.trans hxrsp⟩
  · intro huser
    by_cases hnext : next = c
    · rw [hnext, update_self, hrspc]
    · have hready : (m.sched.threads next).state = .runnable := by
        rcases hsw.ready with hready | ⟨heq, -⟩
        · exact (hstate₁ next).symm.trans hready
        · exact absurd heq hnext
      rw [update_of_ne hnext, hrsp hnext]
      exact suspendedAt_eq_some.mpr ⟨⟨(hrole next).symm.trans huser, .inl hready⟩, rfl⟩

/-- **The caller exits.** Another thread is resumed from its frame. -/
theorem InCall.exit (h : InCall K c frame m) (status : ℤ) :
    ∃ record next s, m.sched.requestExitGroup status = .ok (record, s) ∧
      Ready K (update (suspendedAt m.sched) c (some frame)) next
        (m.took (.requestExitGroup status) s) ∧
      ((s.threads next).role = .user → update (suspendedAt m.sched) c (some frame) next =
        some (s.threads next).context.rsp) := by
  have hne : c ≠ 1 := by
    intro heq
    have hrole := h.role
    rw [heq, h.run.kernel.idleRole] at hrole
    cases hrole
  obtain ⟨record, s, hexit, -, hg, hm, next, hcurrent⟩ :=
    h.run.exit_of_user h.compact.count_le h.current hne status
  have hexec : (Op.requestExitGroup status).exec K.toPlatform m.run.sched = .ok s := by
    rw [Op.exec, hexit]
    rfl
  have hstepped := h.run.stepped ⟨yieldsIfMust_of_calm h.calm _, h.compact.count_le⟩ hexec
  have hcused : (c : ℕ) < m.sched.threadCount := h.run.slotInv c (h.run.not_exited h.current).2
  refine ⟨_, next, s, hexit, ⟨hstepped.inv, h.compact.effect h.run.slotInv hstepped.effect (by simp),
    rfl, h.leaving.entered_took _ s, h.roles.moves hm fun x hx => ?_, hcurrent, h.place, h.held,
    fun x a hx => ?_⟩, ?_⟩
  · change (s.threads x).state = .blocked at hx
    rw [hg.state] at hx
    split_ifs at hx
    exact .inl hx
  · have hstate := hg.state x
    have hxstate := (suspendedAt_eq_some.mp hx).1.2
    change (s.threads x).state = .runnable ∨ (s.threads x).state = .blocked at hxstate
    rw [hstate] at hxstate
    split_ifs at hstate hxstate with hgone hnext
    · rcases hxstate with hxstate | hxstate <;> cases hxstate
    · rcases hxstate with hxstate | hxstate <;> cases hxstate
    · have hxc : x ≠ c := by
        rintro rfl
        exact hgone ⟨hcused, rfl⟩
      rw [update_of_ne hxc, ← suspendedAt_moves hm hstate]
      exact hx
  · intro huser
    obtain ⟨hready, hgroup⟩ := hg.next next hcurrent
    have hnext : next ≠ c := by
      rintro rfl
      exact hgroup rfl
    rw [update_of_ne hnext, hm.context]
    rw [hm.role] at huser
    exact suspendedAt_eq_some.mpr ⟨⟨huser, .inl hready⟩, rfl⟩

end Leave

/-! ### Transitions -/

section Steps

variable {K : Stacks} {m : Machine} {c : Slot} {frame : ℕ}

/-- **The end of a system call** restores the invariant, and resumes a thread with its own
registers. -/
theorem InCall.finishSyscall (h : InCall K c frame m) (value : ℕ) (action : SyscallAction) :
    ∃ resumed m', m.finishSyscall K frame value action = .ok (resumed, m') ∧ FrameInv K m' ∧
      OwnRegisters m' resumed := by
  have hself (s : Scheduler) : update (suspendedAt s) c (some frame) c = some frame :=
    update_self ..
  cases action with
  | continues => exact ⟨none, _, rfl, h.continues value, nofun⟩
  | yieldThread blocks =>
    obtain ⟨m₁, hm₁, hleaving⟩ : ∃ m₁, (if blocks = true then
        m.took .blockCurrentThread m.sched.blockCurrentThread else m) = m₁ ∧
        Leaving K c frame m₁ := by
      cases blocks with
      | true => exact ⟨_, rfl, h.block⟩
      | false => exact ⟨_, rfl, h.leaving⟩
    have hfrom := syscallFromUser_of_held hleaving.held (hself m₁.sched)
    obtain ⟨next, s, hyield, hready, hnext⟩ := hleaving.yield
    have hready' := hready.setRax (hself m₁.sched) value
    rw [Machine.finishSyscall]
    simp only [hm₁, hfrom, if_true, hyield]
    by_cases hcaller : next = c
    · simp only [if_pos hcaller]
      exact ⟨none, _, rfl, hready'.frameInv fun _ => hcaller ▸ hleaving.rsp0, nofun⟩
    · simp only [if_neg hcaller, setRax_prepareResumeSlot]
      exact ⟨_, _, rfl, hready'.resume hnext⟩
  | exitGroup status =>
    obtain ⟨record, next, s, hexit, hready, hnext⟩ := h.exit status
    have hcurrent : s.currentSlot = some next := hready.current
    have hfrom : (m.took (.requestExitGroup status) s).syscallFromUser frame = true :=
      syscallFromUser_of_held (m := m) h.held (hself m.sched)
    rw [Machine.finishSyscall]
    simp only [hexit, hcurrent, hfrom, if_true, setRax_prepareResumeSlot]
    exact ⟨_, _, rfl, (hready.setRax (hself m.sched) value).resume hnext⟩

/-- **A system call** keeps the invariant. -/
theorem FrameInv.call (h : FrameInv K m) (call : Call) (huser : m.sched.userCurrent = true)
    (hseparate : m.separate K (.call call) = true) :
    ∃ resumed m', m.handleSyscallFrame K call = .ok (resumed, m') ∧ FrameInv K m' ∧
      OwnRegisters m' resumed := by
  obtain ⟨c, hc, -⟩ := h.run.current
  rw [userCurrent_eq hc, beq_iff_eq] at huser
  obtain ⟨hfast, hbody⟩ := Bool.and_eq_true_iff.mp hseparate
  have hfree : call.fast = true → m.fastFree K = true := by
    intro htrue
    rw [htrue] at hfast
    exact hfast
  exact ((h.enter hc huser call hfree).foldl_effect call.body hbody).finishSyscall call.value
    call.action

/-- A kernel thread saves its registers and another thread is resumed. -/
theorem Ready.switchContext (h : Ready K loc next m) (hkernel : (m.sched.threads c).role ≠ .user)
    (hnext : (m.sched.threads next).role = .user → loc next = some (m.sched.threads
      next).context.rsp) (registers : TaskContext) :
    FrameInv K (m.switchContext K c next registers).2 ∧
      OwnRegisters (m.switchContext K c next registers).2
        (m.switchContext K c next registers).1 := by
  rw [Machine.switchContext]
  generalize hcontext : ({ registers with
    cr3 := (m.sched.threads c).context.cr3, kind := contextKindKernel,
    kernelRsp0 := (m.sched.threads c).context.kernelRsp0 } : TaskContext) = context
  have hkind : context.kind = contextKindKernel := by rw [← hcontext]
  have hstate := RunInv.threads_setContext m.sched c context Thread.state fun _ _ => rfl
  have hrole := RunInv.threads_setContext m.sched c context Thread.role fun _ _ => rfl
  have hother {x : Slot} (hx : x ≠ c) :
      (m.sched.setContext c context).threads x = m.sched.threads x := by
    rw [setContext, setThread_threads, update_of_ne hx]
  have huser {x : Slot} (hx : ((m.sched.setContext c context).threads x).role = .user) : x ≠ c := by
    rintro rfl
    rw [hrole] at hx
    exact hkernel hx
  have hroles : Roles (m.sched.setContext c context) := by
    refine ⟨fun x hx => ?_, fun x hx => ?_⟩
    · by_cases hxc : x = c
      · rw [hxc, setContext, setThread_threads, update_self, hkind] at hx
        cases hx
      · rw [hother hxc] at hx ⊢
        exact h.roles.kind x hx
    · rw [hstate] at hx
      rw [hrole]
      exact h.roles.blocked x hx
  have hcompact : Compact (m.sched.setContext c context) := by
    refine ⟨h.compact.count_le, fun x hx => ?_⟩
    rw [hstate]
    exact h.compact.used x hx
  have hready : Ready K loc next (m.setContext c context) := by
    refine ⟨h.run.setContext c context, hcompact, h.calm, h.entered, hroles, h.current, h.place,
      h.held, fun x a hx => h.sub x a ?_⟩
    rw [← hx]
    exact (suspendedAt_congr (hother (huser (suspendedAt_eq_some.mp hx).1.1))).symm
  refine hready.resume fun hx => ?_
  have hsame : (m.setContext c context).sched.threads next = m.sched.threads next :=
    hother (huser hx)
  rw [hsame] at hx ⊢
  exact hnext hx

/-- The scheduler has taken the processor from the kernel thread in slot `c`, which is then in the
state `after`, and given it to the waiting thread in slot `next`. -/
structure Switching (m : Machine) (op : Op) (c next : Slot) (after : ThreadState) (s : Scheduler) :
    Prop where
  stepped : Stepped m.run op s
  moves : Moves m.sched s
  kernel : (m.sched.threads c).role ≠ .user
  current : s.currentSlot = some next
  ne : next ≠ c
  ready : (m.sched.threads next).state = .runnable
  state : ∀ x, (s.threads x).state =
    if x = next then .running else if x = c then after else (m.sched.threads x).state

section

variable (h : FrameInv K m)

include h

theorem FrameInv.idleRole : (m.sched.threads 1).role ≠ .user :=
  h.run.kernel.idleRole.trans_ne nofun

/-- The idle thread goes on, or gives way to another thread. -/
theorem FrameInv.contextSwitchPair (hc : m.sched.currentSlot = some 1) :
    m.sched.contextSwitchPair = .ok (none, m.sched) ∧ Stepped m.run .contextSwitchPair m.sched ∨
      ∃ next snapshot s, m.sched.contextSwitchPair = .ok (some (1, next, snapshot), s) ∧
        Switching m .contextSwitchPair 1 next .runnable s := by
  have hsound : Sound m.run .contextSwitchPair := ⟨yieldsIfMust_of_calm h.calm _, trivial⟩
  rcases h.run.queueInv.queues.contextSwitchPair with
    hnone | ⟨c, next, s, hc', hne, hsome, -, hsw, hm⟩
  · exact .inl ⟨hnone, h.run.stepped (P := K.toPlatform) hsound (by rw [Op.exec, hnone]; rfl)⟩
  · obtain rfl : c = 1 := Option.some.inj (hc'.symm.trans hc)
    have hstepped : Stepped m.run .contextSwitchPair s :=
      h.run.stepped (P := K.toPlatform) hsound (by rw [Op.exec, hsome]; rfl)
    refine .inr ⟨next, _, s, hsome, hstepped, hm, h.idleRole, hsw.current, hne,
      hsw.ready.resolve_right fun hcase => hne hcase.1, fun x => ?_⟩
    rw [hsw.state, h.run.running h.calm hc]
    simp

/-- The bootstrap thread gives way to the first thread, for good. -/
theorem FrameInv.initialContextPair (hentered : m.run.entered = false) :
    ∃ next s, m.sched.initialContextPair = .ok (.ok (0, next), s) ∧
      Switching m .initialContextPair 0 next .exited s := by
  obtain ⟨hran, hc, hrun, hcount⟩ := h.early hentered
  have hbootstrap : (m.run.sched.threads 0).state ≠ .runnable :=
    hrun.trans_ne (by simp)
  have hidle : (m.run.sched.threads 1).state = .runnable ∨ m.run.sched.currentSlot = some 1 :=
    h.run.idle.symm.imp_right (h.run.queueInv.running 1)
  obtain ⟨target, s, hinitial, -, hm, hcur, hready, htarget, hstate⟩ :=
    h.run.queueInv.initialContextPair h.run.kernel hcount hbootstrap h.run.bootstrapUsed
      (fun c hc => h.run.running h.calm hc) (fun x _ => h.run.fresh hran x) hidle
  have hsound : Sound m.run .initialContextPair :=
    ⟨yieldsIfMust_of_calm h.calm _, hran, hbootstrap, hcount⟩
  have hstepped : Stepped m.run .initialContextPair s :=
    h.run.stepped (P := K.toPlatform) hsound (by rw [Op.exec, hinitial]; rfl)
  have hrole : (m.sched.threads 0).role ≠ .user :=
    h.run.kernel.bootstrapRole.trans_ne (by simp)
  have hne : target ≠ 0 := by
    rintro rfl
    rcases htarget with htarget | htarget
    · cases htarget
    · exact hrole htarget
  have hwaits : (m.sched.threads target).state = .runnable :=
    hready.resolve_right fun hcurrent => hne (Option.some.inj (hcurrent.symm.trans hc))
  refine ⟨target, s, hinitial, hstepped, hm, hrole, hcur, hne, hwaits, fun x => ?_⟩
  rw [hstate, hc]
  by_cases hx : x = 0
  · rw [hx]
    simp
  · rw [if_neg hx, if_neg hx, if_neg (show ¬ (some 0 = some x ∧ _) from fun hboth =>
      hx (Option.some.inj hboth.1).symm)]

/-- **A kernel thread gives way** to the next thread, which is resumed with its own registers. -/
theorem FrameInv.switching (hs : Switching m op c next after s)
    (hop : op ≠ .forkCurrentThread 0) (hcalm : (m.took op s).run.mustYield = false)
    (hafter : after ≠ .blocked) (hentered : (m.took op s).run.entered = true)
    (registers : TaskContext) :
    FrameInv K ((m.took op s).switchContext K c next registers).2 ∧
      OwnRegisters ((m.took op s).switchContext K c next registers).2
        ((m.took op s).switchContext K c next registers).1 := by
  have hkernel : (s.threads c).role ≠ .user := by
    rw [hs.moves.role]
    exact hs.kernel
  have hroles : Roles s := by
    refine h.roles.moves hs.moves fun x hx => ?_
    rw [hs.state] at hx
    split_ifs at hx
    · exact absurd hx hafter
    · exact .inl hx
  have hready : Ready K (suspendedAt m.sched) next (m.took op s) := by
    refine ⟨hs.stepped.inv, h.compact.effect h.run.slotInv hs.stepped.effect hop, hcalm, hentered,
      hroles, hs.current, h.place, h.held, fun x a hx => ?_⟩
    obtain ⟨⟨hxrole, hxstate⟩, -⟩ := suspendedAt_eq_some.mp hx
    have hstate := hs.state x
    change ((s.threads x).state = .runnable ∨ (s.threads x).state = .blocked) at hxstate
    rw [hstate] at hxstate
    split_ifs at hstate hxstate with hnext hxc
    · rcases hxstate with hxstate | hxstate <;> cases hxstate
    · rw [hxc] at hxrole
      exact absurd hxrole hkernel
    · exact (suspendedAt_moves hs.moves hstate).symm.trans hx
  refine hready.switchContext hkernel (fun huser => ?_) registers
  change suspendedAt m.sched next = some (s.threads next).context.rsp
  rw [hs.moves.context]
  exact suspendedAt_eq_some.mpr ⟨⟨(hs.moves.role next).symm.trans huser, .inl hs.ready⟩, rfl⟩

/-- **The idle thread switches** to the next thread. -/
theorem FrameInv.idleSwitch (hentered : m.run.entered = true)
    (hc : m.sched.currentSlot = some 1) (registers : TaskContext) :
    ∃ resumed m', m.step K (.idleSwitch registers) = .ok (resumed, m') ∧ FrameInv K m' ∧
      OwnRegisters m' resumed := by
  have hentered' (s : Scheduler) : (m.took .contextSwitchPair s).run.entered = true := by
    rw [Machine.took, RunState.next, hentered, Bool.true_or]
  rw [Machine.step]
  rcases h.contextSwitchPair hc with ⟨hnone, hstepped⟩ | ⟨next, snapshot, s, hsome, hs⟩
  · simp only [hnone]
    have hready : Ready K _ 1 (m.took .contextSwitchPair m.sched) := ⟨hstepped.inv, h.compact, rfl,
      hentered' m.sched, h.roles, hc, h.place, h.held, fun _ _ hx => hx⟩
    exact ⟨none, _, rfl, hready.frameInv (h.rsp0 1 hc), by simp [OwnRegisters]⟩
  · simp only [hsome]
    exact ⟨_, _, rfl, h.switching hs (by simp) rfl (by simp) (hentered' s) registers⟩

/-- **The bootstrap thread enters `idle_loop`.** -/
theorem FrameInv.enterFirst (hentered : m.run.entered = false) (registers : TaskContext) :
    ∃ resumed m', m.step K (.enterFirst registers) = .ok (resumed, m') ∧ FrameInv K m' ∧
      OwnRegisters m' resumed := by
  obtain ⟨next, s, hinitial, hs⟩ := h.initialContextPair hentered
  rw [Machine.step]
  simp only [hinitial]
  exact ⟨_, _, rfl, h.switching hs nofun rfl nofun (Bool.or_true _) registers⟩

/-- **Every transition keeps the invariant** and resumes a thread only with its own registers. -/
theorem FrameInv.step (hallowed : m.allowed action = true)
    (hseparate : m.separate K action = true) :
    ∃ resumed m', m.step K action = .ok (resumed, m') ∧ FrameInv K m' ∧
      OwnRegisters m' resumed := by
  cases action with
  | spawn entryPoint userStack pageTable =>
    exact ⟨none, _, rfl, h.spawn entryPoint userStack pageTable, nofun⟩
  | enterFirst registers =>
    exact h.enterFirst (by simpa [Machine.allowed] using hallowed) registers
  | idleSwitch registers =>
    obtain ⟨hentered, hc⟩ := Bool.and_eq_true_iff.mp hallowed
    exact h.idleSwitch hentered (beq_iff_eq.mp hc) registers
  | call call => exact h.call call hallowed hseparate

end

end Steps

/-! ### Runs -/

/-- A transition taken within a guard. -/
def Transition (K : Stacks) (guard : Machine → Action → Bool) (m : Machine) (action : Action)
    (m' : Machine) : Prop :=
  guard m action = true ∧ ∃ resumed, m.step K action = .ok (resumed, m')

/-- Any interleaving of system calls. -/
def interleaved (m : Machine) (action : Action) : Bool := m.allowed action

/-- The interleavings that keep frames separate. -/
def interleavedSeparately (K : Stacks) (m : Machine) (action : Action) : Bool :=
  m.allowed action && m.separate K action

section Runs

variable {K : Stacks} {s : Scheduler}

/-- The invariant holds when `bootstrap()` returns: there are no user threads. -/
theorem FrameInv.start (h : Booted s) (mem : ℕ → ℕ) (rsp0 userRsp : ℕ) (saved : Slot → Registers) :
    FrameInv K (.start s mem rsp0 userRsp saved) := by
  have hsuspended (x : Slot) (a : ℕ) : suspendedAt s x ≠ some a :=
    fun hx => h.role_ne_user x (suspendedAt_eq_some.mp hx).1.1
  refine ⟨.start h, compact_of_booted h, rfl, .start h,
    ⟨?_, fun x hx => absurd hx (h.not_blocked x)⟩, ?_, ?_, ?_, ?_⟩
  · intro x hx
    change (s.threads x).context.kind = contextKindUser at hx
    rw [h.kind] at hx
    cases hx
  · intro c _ hc
    exact absurd hc (h.role_ne_user c)
  · intro x a hx
    exact absurd hx (hsuspended x a)
  · intro x y a b hx
    exact absurd hx (hsuspended x a)
  · intro x a hx
    exact absurd hx (hsuspended x a)

/-- Runs from the state in which `bootstrap()` returns, with zeroed memory. -/
theorem exists_of_evaluate (K : Stacks) (n : ℕ) (guard : Machine → Action → Bool)
    (actions : List Action) [DecidablePred Q]
    (h : ((bootstrap K.toPlatform n).toOption.any fun s => (actions.foldlM (attempt guard (fun m a
      => m.step K a) fun _ _ r => r.2) (.start s (fun _ => 0) 0 0 fun _ => initialRegisters 0
      0)).any (Q ·)) = true) :
    ∃ s m, bootstrap K.toPlatform n = .ok s ∧ Reachable (Transition K guard)
      (.start s (fun _ => 0) 0 0 fun _ => initialRegisters 0 0) m ∧ Q m :=
  exists_of_attempts (fun _ _ r hguard hstep => ⟨hguard, r.1, hstep⟩) h

/-- An example of where the linker puts the stacks. -/
def exampleStacks : Stacks where
  toPlatform := examplePlatform
  fastTop := 0xffffffff80300000
  userStacks_high := by decide
  fastTop_high := by decide
  apart := by decide

end Runs

/-- **A thread is resumed with the registers of its own last kernel entry**, but for `rax`, in every
interleaving of system calls in which `syscall` is used only while no suspended thread has its frame
on the fast system call stack, and handlers write through user pointers to the user half only. The
frames of suspended threads are in different places, and no transition panics. -/
theorem resumed_with_own_registers (K : Stacks) {n : ℕ} (hn : 3 ≤ n) {s : Scheduler}
    (hs : bootstrap K.toPlatform n = .ok s) (mem : ℕ → ℕ) (rsp0 userRsp : ℕ)
    (saved : Slot → Registers) {m : Machine}
    (hm : Reachable (Transition K (interleavedSeparately K)) (.start s mem rsp0 userRsp saved) m) :
    (∀ x y, Suspended m.sched x → Suspended m.sched y →
      (m.sched.threads x).context.rsp = (m.sched.threads y).context.rsp → x = y) ∧
    (∀ x, Suspended m.sched x → ∃ rax, Registers.load m.mem (m.sched.threads x).context.rsp =
      { m.saved x with rax := rax }) ∧
    ∀ action, interleavedSeparately K m action = true →
      ∃ resumed m', m.step K action = .ok (resumed, m') ∧
        ∀ slot regs, resumed = some (slot, regs) →
          ∃ rax, regs = { m'.saved slot with rax := rax } := by
  have hbooted := booted_of_bootstrap (by omega) hs
  have hinv : FrameInv K m := by
    refine hm.invariant (I := FrameInv K) (.start hbooted mem rsp0 userRsp saved) ?_
    rintro m action m' hinv ⟨hguard, resumed, hstep⟩
    obtain ⟨hallowed, hseparate⟩ := Bool.and_eq_true_iff.mp hguard
    obtain ⟨resumed', m'', hstep', hinv', -⟩ := hinv.step hallowed hseparate
    cases Except.ok.inj (hstep'.symm.trans hstep)
    exact hinv'
  refine ⟨?_, ?_, ?_⟩
  · intro x y hx hy heq
    by_contra hne
    have happart := hinv.held.apart x y _ _ (suspendedAt_eq_some.mpr ⟨hx, rfl⟩)
      (suspendedAt_eq_some.mpr ⟨hy, rfl⟩) hne
    omega
  · intro x hx
    exact ⟨_, load_of_held hinv.held (suspendedAt_eq_some.mpr ⟨hx, rfl⟩)⟩
  · intro action hguard
    obtain ⟨hallowed, hseparate⟩ := Bool.and_eq_true_iff.mp hguard
    obtain ⟨resumed, m', hstep, -, hown⟩ := hinv.step hallowed hseparate
    exact ⟨resumed, m', hstep, hown⟩

/-- The first thread blocks in a call by `syscall`; the second yields in a call by `int 0x80`. -/
theorem resumed_with_own_registers_two_threads : ∃ s m,
    bootstrap exampleStacks.toPlatform 3 = .ok s ∧
    Reachable (Transition exampleStacks (interleavedSeparately exampleStacks))
      (.start s (fun _ => 0) 0 0 fun _ => initialRegisters 0 0) m ∧ Suspended m.sched 2 ∧
    (m.saved 2).rip = 0x401000 ∧
    ∃ rax, Registers.load m.mem (m.sched.threads 2).context.rsp =
      { m.saved 2 with rax := rax } := by
  obtain ⟨s, m, hs, hm, hsuspended, hrip⟩ := exists_of_evaluate exampleStacks 3
    (interleavedSeparately exampleStacks)
    [.spawn 0x400000 0x700000 0x2000, .spawn 0x400000 0x800000 0x3000, .enterFirst {},
      .call ⟨true, ⟨7, 0, 0, 0, 0, 0, 0, 0, 0, 0, 0, 0, 0, 0, 0, 0x401000, 0x202, 0x6ff000⟩, [], 0,
        .yieldThread true⟩, .idleSwitch {},
      .call ⟨false, ⟨8, 0, 0, 0, 0, 0, 0, 0, 0, 0, 0, 0, 0, 0, 0, 0x402000, 0x202, 0x7ff000⟩, [], 0,
        .yieldThread false⟩]
    (Q := fun m => Suspended m.sched 2 ∧ (m.saved 2).rip = 0x401000) (by decide +kernel)
  exact ⟨s, m, hs, hm, hsuspended, hrip, (resumed_with_own_registers exampleStacks le_rfl hs _ 0 0 _
    hm).2.1 2 hsuspended⟩

/-- Two threads yield in calls by `syscall`. The second call overwrites the frame of the first, and
the first thread is resumed at the instruction pointer of the second. -/
theorem fast_calls_mix_registers : ∃ s m,
    bootstrap exampleStacks.toPlatform 3 = .ok s ∧
    Reachable (Transition exampleStacks interleaved)
      (.start s (fun _ => 0) 0 0 fun _ => initialRegisters 0 0) m ∧
    ∃ call regs m', interleaved m (.call call) = true ∧
      m.step exampleStacks (.call call) = .ok (some (2, regs), m') ∧
      (m'.saved 2).rip = 0x401000 ∧ regs.rip = 0x402000 := by
  obtain ⟨s, m, hs, hm, hguard, hresumed⟩ := exists_of_evaluate exampleStacks 3 interleaved
    [.spawn 0x400000 0x700000 0x2000, .spawn 0x400000 0x800000 0x3000, .enterFirst {},
      .call ⟨true, ⟨0, 0, 0, 0, 0, 0, 0, 0, 0, 0, 0, 0, 0, 0, 0, 0x401000, 0x202, 0x6ff000⟩, [], 0,
        .yieldThread false⟩, .idleSwitch {}]
    (Q := fun m => interleaved m (.call ⟨true,
        ⟨0, 0, 0, 0, 0, 0, 0, 0, 0, 0, 0, 0, 0, 0, 0, 0x402000, 0x202, 0x7ff000⟩, [], 0,
        .yieldThread false⟩) = true ∧
      ((m.step exampleStacks (.call ⟨true,
        ⟨0, 0, 0, 0, 0, 0, 0, 0, 0, 0, 0, 0, 0, 0, 0, 0x402000, 0x202, 0x7ff000⟩, [], 0,
        .yieldThread false⟩)).toOption.any fun r => r.1.any fun resumed =>
        resumed.1 = 2 ∧ (r.2.saved 2).rip = 0x401000 ∧ resumed.2.rip = 0x402000) = true)
    (by decide +kernel)
  obtain ⟨⟨_, m'⟩, hstep, hresumed⟩ := (Option.any_eq_true _ _).mp hresumed
  obtain ⟨⟨_, regs⟩, rfl, hregs⟩ := (Option.any_eq_true _ _).mp hresumed
  obtain ⟨rfl, hsaved, hrip⟩ := of_decide_eq_true hregs
  exact ⟨s, m, hs, hm, _, regs, m', hguard, Fallible.toOption_eq_some.mp hstep, hsaved, hrip⟩

end Hxnu.Trap
