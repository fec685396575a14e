import Hxnu.Trap.Interleave

/-!
# What a transition does to each thread

In a run whose system calls are all entered by `int 0x80`, every suspended thread has its frame on
its own kernel stack. A transition then touches only the frame of the thread that leaves the
processor: the frames of the others, and with them the value that each of them will find in `rax`,
stay as they are. Threads are told apart by their slots, as the thread in slot `x` has the
identifier `x + 1` as long as no slot is used twice.

## Main definitions

* `Ids`, `Homed`: the identifiers of threads, and the invariant of runs without `syscall`.
* `Turn`: one thread leaves the processor and another one gets it.

## Main results

* `Homed.yield`, `Homed.exit`, `Homed.idleSwitch`, `Homed.enterFirst`: the transitions are turns.
* `Homed.of_turn`, `Homed.spawn`: they keep the invariant.
-/

namespace Hxnu.Trap

open Sched Scheduler Words Word Function

variable {s : Scheduler} {after : ThreadState} {resumed : Option Resumed} {x : Slot}

/-! ### Identifiers -/

/-- Who a thread is. -/
def ident (t : Thread) : ℕ × ℕ × ℕ × ThreadRole := (t.id, t.processId, t.threadGroupId, t.role)

theorem Moves.ident (h : Moves s s') (x : Slot) : ident (s'.threads x) = ident (s.threads x) :=
  show Trap.ident (s'.threads x).core = Trap.ident (s.threads x).core by rw [h.core]

theorem ident_setContext (s : Scheduler) (c : Slot) (context : TaskContext) (x : Slot) :
    ident ((s.setContext c context).threads x) = ident (s.threads x) :=
  RunInv.threads_setContext s c context ident (fun _ _ => rfl) x

/-- Threads are numbered by their slots, and a user thread is a process of its own. -/
structure Ids (s : Scheduler) : Prop where
  next : s.nextThreadId = s.threadCount + 1
  user : ∀ x, (s.threads x).role = .user → (s.threads x).id = x + 1 ∧
    (s.threads x).processId = x + 1 ∧ (s.threads x).threadGroupId = x + 1
  kernel : ∀ x, (s.threads x).role ≠ .user →
    (s.threads x).threadGroupId ≤ 1 ∧ (s.threads x).id ≤ 2

theorem Ids.congr (h : Ids s) (hfixed : s'.fixed = s.fixed)
    (hident : ∀ x, ident (s'.threads x) = ident (s.threads x)) : Ids s' := by
  have hcount : s'.threadCount = s.threadCount := congrArg Fixed.threadCount hfixed
  have hnext : s'.nextThreadId = s.nextThreadId := congrArg Fixed.nextThreadId hfixed
  have hparts (x : Slot) : (s'.threads x).id = (s.threads x).id ∧
      (s'.threads x).processId = (s.threads x).processId ∧
      (s'.threads x).threadGroupId = (s.threads x).threadGroupId ∧
      (s'.threads x).role = (s.threads x).role := by
    simpa only [ident, Prod.mk.injEq] using hident x
  refine ⟨by rw [hcount, hnext, h.next], ?_, ?_⟩
  · intro x hx
    obtain ⟨hid, hpid, hgroup, hrole⟩ := hparts x
    rw [hid, hpid, hgroup]
    exact h.user x (hrole.symm.trans hx)
  · intro x hx
    obtain ⟨hid, -, hgroup, hrole⟩ := hparts x
    rw [hid, hgroup]
    rw [hrole] at hx
    exact h.kernel x hx

/-- The invariant of runs in which all system calls are entered by `int 0x80`. -/
structure Homed (K : Stacks) (m : Machine) : Prop where
  frames : FrameInv K m
  ids : Ids m.sched
  kind : ∀ x, (m.sched.threads x).role = .user →
    (m.sched.threads x).context.kind = contextKindUser
  home : ∀ x, Suspended m.sched x → (m.sched.threads x).context.rsp = K.ownFrame x

/-- The thread in slot `c` leaves the processor, and `next` gets it; `after` is the state in which
the former waits, if it is not itself `next`. -/
structure Turn (K : Stacks) (m : Machine) (c next : Slot) (after : ThreadState)
    (resumed : Option Resumed) (m' : Machine) : Prop where
  fixed : m'.sched.fixed = m.sched.fixed
  ident : ∀ x, ident (m'.sched.threads x) = ident (m.sched.threads x)
  current : m'.sched.currentSlot = some next
  ready : next = c ∨ (m.sched.threads next).state = .runnable
  state : ∀ x, (m'.sched.threads x).state =
    if x = next then .running else if x = c then after else (m.sched.threads x).state
  context : ∀ x, x ≠ c → (m'.sched.threads x).context = (m.sched.threads x).context
  own : (m.sched.threads c).role = .user →
    (m'.sched.threads c).context.kind = (m.sched.threads c).context.kind ∧
      (after ≠ .exited → (m'.sched.threads c).context.rsp = K.ownFrame c)
  word : ∀ x, x ≠ c → m'.mem (K.ownFrame x) = m.mem (K.ownFrame x)
  resumed : resumed = if next = c then none else m'.resume next

section Turns

variable {K : Stacks} {m m' : Machine} {c next : Slot}

theorem Turn.role (h : Turn K m c next after resumed m') (x : Slot) :
    (m'.sched.threads x).role = (m.sched.threads x).role :=
  congrArg (fun i => i.2.2.2) (h.ident x)

/-- **A turn keeps the invariant.** -/
theorem Homed.of_turn (h : Homed K m)
    (ht : Turn K m c next after resumed m') (hframes : FrameInv K m') : Homed K m' := by
  refine ⟨hframes, h.ids.congr ht.fixed ht.ident, ?_, ?_⟩
  · intro x hx
    rw [ht.role] at hx
    by_cases hxc : x = c
    · rw [hxc] at hx ⊢
      rw [(ht.own hx).1]
      exact h.kind c hx
    · rw [ht.context x hxc]
      exact h.kind x hx
  · rintro x ⟨hrole, hstate⟩
    rw [ht.role] at hrole
    rw [ht.state] at hstate
    split_ifs at hstate with hnext hxc
    · rcases hstate with hstate | hstate <;> cases hstate
    · rw [hxc] at hrole ⊢
      refine (ht.own hrole).2 ?_
      rintro rfl
      rcases hstate with hstate | hstate <;> cases hstate
    · rw [ht.context x hxc]
      exact h.home x ⟨hrole, hstate⟩

/-! ### Entering the kernel -/

theorem Homed.frameAddress (h : Homed K m) (hc : m.sched.currentSlot = some c)
    (hrole : (m.sched.threads c).role = .user) : m.frameAddress K false = K.ownFrame c := by
  rw [Machine.frameAddress, h.frames.rsp0 c hc hrole]
  rfl

/-- Words of other frames are outside the frame of a thread. -/
theorem update_ownFrame (mem : ℕ → ℕ) (v : ℕ) (hx : x ≠ c) :
    update mem (K.ownFrame c) v (K.ownFrame x) = mem (K.ownFrame x) := by
  have hne : K.ownFrame x ≠ K.ownFrame c := by
    have happart := K.ownFrame_apart hx
    omega
  rw [update_of_ne hne]

theorem fill_ownFrame (mem : ℕ → ℕ) (f : ℕ → ℕ) (hx : x ≠ c) :
    fill mem (K.ownFrame c) 20 f (K.ownFrame x) = mem (K.ownFrame x) := by
  rcases K.ownFrame_apart hx with happart | happart
  · exact fill_of_lt (by omega)
  · exact fill_of_ge happart

theorem took_mem (op : Op) (s : Scheduler) : (m.took op s).mem = m.mem := rfl

theorem took_syscallFromUser (op : Op) (s : Scheduler) (frame : ℕ) :
    (m.took op s).syscallFromUser frame = m.syscallFromUser frame := rfl

theorem effect_write_mem (address word : ℕ) :
    (m.effect K (.write address word)).mem = update m.mem address word := rfl

theorem setRax_mem (frame v : ℕ) : (m.setRax frame v).mem = update m.mem frame v := rfl

section

variable (h : Homed K m) (hc : m.sched.currentSlot = some c)
    (hrole : (m.sched.threads c).role = .user) (call : Call) (hslow : call.fast = false)

include h hc hrole call hslow

theorem Homed.enter_word
    (hx : x ≠ c) : (m.enter K call).mem (K.ownFrame x) = m.mem (K.ownFrame x) := by
  rw [enter_mem, hslow, h.frameAddress hc hrole, fill_ownFrame m.mem _ hx]

theorem Homed.inCall : InCall K c (K.ownFrame c) (m.enter K call) := by
  have hcall := h.frames.enter hc hrole call fun hfast => by
    rw [hslow] at hfast
    cases hfast
  rw [hslow, h.frameAddress hc hrole] at hcall
  exact hcall

/-! ### Leaving the kernel -/

/-- The end of a system call that yields, once the scheduler has chosen the next thread. -/
theorem Homed.turn_of_sched
    (hsched : m'.sched = s) (hmem : m'.mem = update (m.enter K call).mem (K.ownFrame c) v)
    (hfixed : s.fixed = m.sched.fixed)
    (hident : ∀ x, ident (s.threads x) = ident (m.sched.threads x))
    (hcurrent : s.currentSlot = some next)
    (hready : next = c ∨ (m.sched.threads next).state = .runnable)
    (hstate : ∀ x, (s.threads x).state = if x = next then .running else if x = c then after else
      (m.sched.threads x).state)
    (hcontext : ∀ x, x ≠ c → (s.threads x).context = (m.sched.threads x).context)
    (hkind : (s.threads c).context.kind = (m.sched.threads c).context.kind)
    (hrsp : after ≠ .exited → (s.threads c).context.rsp = K.ownFrame c)
    (hresumed : resumed = if next = c then none else m'.resume next) :
    Turn K m c next after resumed m' := by
  subst hsched
  refine ⟨hfixed, hident, hcurrent, hready, hstate, hcontext, fun _ => ⟨hkind, hrsp⟩, ?_, hresumed⟩
  intro x hx
  rw [hmem, update_ownFrame _ _ hx, h.enter_word hc hrole call hslow hx]

end

/-- A handler that yields may block its thread first. -/
theorem InCall.mayBlock (h : InCall K c frame m) (blocks : Bool) :
    ∃ m₁, (if blocks = true then m.took .blockCurrentThread m.sched.blockCurrentThread else m) =
        m₁ ∧ Leaving K c frame m₁ ∧ m₁.mem = m.mem ∧ m₁.sched.fixed = m.sched.fixed ∧
      ∀ x, ident (m₁.sched.threads x) = ident (m.sched.threads x) ∧
        (m₁.sched.threads x).context = (m.sched.threads x).context ∧
        (m₁.sched.threads x).state = if x = c then (if blocks then .blocked else .running)
          else (m.sched.threads x).state := by
  have hrunning : (m.sched.threads c).state = .running := h.run.running h.calm h.current
  cases blocks with
  | false =>
    refine ⟨m, rfl, h.leaving, rfl, rfl, fun x => ⟨rfl, rfl, ?_⟩⟩
    by_cases hx : x = c
    · rw [hx, hrunning, if_pos rfl]
      rfl
    · rw [if_neg hx]
  | true =>
    have hblock : m.sched.blockCurrentThread = m.sched.setState c .blocked := by
      rw [blockCurrentThread, h.current]
      exact if_pos hrunning
    have hsched : (m.took .blockCurrentThread m.sched.blockCurrentThread).sched =
        m.sched.setState c .blocked := hblock
    refine ⟨m.took .blockCurrentThread m.sched.blockCurrentThread, rfl, h.block, rfl,
      by rw [hsched]; rfl, fun x => ?_⟩
    rw [hsched, setState_threads]
    by_cases hx : x = c
    · rw [hx, update_self, if_pos rfl]
      exact ⟨rfl, rfl, rfl⟩
    · rw [update_of_ne hx, if_neg hx]
      exact ⟨rfl, rfl, rfl⟩

/-- **A user thread yields**, and waits or is blocked until it is resumed. -/
theorem Homed.yield (h : Homed K m) (hc : m.sched.currentSlot = some c)
    (hrole : (m.sched.threads c).role = .user) (regs : Registers) (value : ℕ) (blocks : Bool) :
    ∃ next resumed m',
      m.step K (.call ⟨false, regs, [], value, .yieldThread blocks⟩) = .ok (resumed, m') ∧
      Turn K m c next (if blocks then .blocked else .runnable) resumed m' ∧
      (blocks = true → next ≠ c) := by
  have hcall := h.inCall hc hrole ⟨false, regs, [], value, .yieldThread blocks⟩ rfl
  have hsched : (m.enter K ⟨false, regs, [], value, .yieldThread blocks⟩).sched = m.sched := by
    rw [Machine.sched, enter_run]
  obtain ⟨m₁, hm₁, hleaving, hmem₁, hfixed₁, hthreads₁⟩ := hcall.mayBlock blocks
  rw [hsched] at hfixed₁ hthreads₁
  have hself : update (suspendedAt m₁.sched) c (some (K.ownFrame c)) c =
      some (K.ownFrame c) := update_self ..
  have hfrom := syscallFromUser_of_held hleaving.held hself
  obtain ⟨next, s, hyield, -, hsw, hm⟩ :=
    hleaving.run.yield_of_user hleaving.current hleaving.role (K.ownFrame c)
  have hother (x : Slot) (hx : x ≠ c) : (m₁.sched.saveRsp c (K.ownFrame c)).threads x =
      m₁.sched.threads x := by
    rw [saveRsp, setContext, setThread_threads, update_of_ne hx]
  have hsaved : ((m₁.sched.saveRsp c (K.ownFrame c)).threads c).context =
      { (m₁.sched.threads c).context with rsp := K.ownFrame c } := by
    rw [saveRsp, setContext, setThread_threads, update_self]
  have hstate₁ (x : Slot) : ((m₁.sched.saveRsp c (K.ownFrame c)).threads x).state =
      if x = c then (if blocks then .blocked else .running) else (m.sched.threads x).state :=
    (Quiet.saveRsp.state x).trans (hthreads₁ x).2.2
  have hident (x : Slot) : ident (s.threads x) = ident (m.sched.threads x) :=
    (Moves.ident hm x).trans ((ident_setContext _ _ _ x).trans (hthreads₁ x).1)
  have hready : next = c ∧ blocks = false ∨ next ≠ c ∧ (m.sched.threads next).state = .runnable := by
    have hready := hsw.ready
    rw [hstate₁, hstate₁, if_pos rfl] at hready
    by_cases hnext : next = c
    · cases blocks with
      | false => exact .inl ⟨hnext, rfl⟩
      | true => simp [hnext] at hready
    · rw [if_neg hnext] at hready
      exact .inr ⟨hnext, hready.resolve_right fun hboth => hnext hboth.1⟩
  have hstate (x : Slot) : (s.threads x).state = if x = next then .running else
      if x = c then (if blocks then .blocked else .runnable) else (m.sched.threads x).state := by
    rw [hsw.state, hstate₁, hstate₁, if_pos rfl]
    cases blocks <;> by_cases hx : x = c <;> simp [hx]
  have hcontext (x : Slot) (hx : x ≠ c) :
      (s.threads x).context = (m.sched.threads x).context := by
    rw [hm.context, hother x hx, (hthreads₁ x).2.1]
  have hown : (s.threads c).context = { (m.sched.threads c).context with rsp := K.ownFrame c } := by
    rw [hm.context, hsaved, (hthreads₁ c).2.1]
  have hfixed : s.fixed = m.sched.fixed := hm.fixed.trans hfixed₁
  have hturn {resumed : Option Resumed} {m' : Machine}
      (hsched : m'.sched = s) (hmem : m'.mem = update m₁.mem (K.ownFrame c) value)
      (hresumed : resumed = if next = c then none else m'.resume next) :
      Turn K m c next (if blocks then .blocked else .runnable) resumed m' :=
    h.turn_of_sched hc hrole _ rfl hsched (hmem₁ ▸ hmem) hfixed hident hsw.current
      (hready.imp And.left And.right) hstate hcontext (by rw [hown]) (fun _ => by rw [hown])
      hresumed
  rw [Machine.step, Machine.handleSyscallFrame]
  simp only [List.foldl_nil, h.frameAddress hc hrole]
  rw [Machine.finishSyscall]
  simp only [hm₁, hfrom, if_true, hyield]
  by_cases hnext : next = c
  · simp only [if_pos hnext]
    refine ⟨next, _, _, rfl, hturn rfl rfl (if_pos hnext).symm, ?_⟩
    rintro rfl
    cases hready with
    | inl hready => cases hready.2
    | inr hready => exact hready.1
  · simp only [if_neg hnext]
    refine ⟨next, _, _, rfl, hturn ?_ ?_ (if_neg hnext).symm, fun _ => hnext⟩
    · exact congrArg RunState.sched prepareResumeSlot_run
    · rw [setRax_mem, prepareResumeSlot_mem, took_mem]

theorem Homed.two_le (h : Homed K m) (hrole : (m.sched.threads c).role = .user) : 2 ≤ (c : ℕ) := by
  by_contra hlow
  rcases eq_zero_or_one hlow with rfl | rfl
  · rw [show (m.sched.threads 0).role = .bootstrap from h.frames.run.kernel.bootstrapRole] at hrole
    cases hrole
  · rw [show (m.sched.threads 1).role = .idle from h.frames.run.kernel.idleRole] at hrole
    cases hrole

/-- A user thread is alone in its group. -/
theorem Homed.group_eq_iff (h : Homed K m) (hrole : (m.sched.threads c).role = .user) (x : Slot) :
    (m.sched.threads x).threadGroupId = (m.sched.threads c).threadGroupId ↔ x = c := by
  have hlow := h.two_le hrole
  constructor
  · intro heq
    rw [(h.ids.user c hrole).2.2] at heq
    by_cases hx : (m.sched.threads x).role = .user
    · rw [(h.ids.user x hx).2.2] at heq
      exact Fin.ext (Nat.succ.inj heq)
    · have hgroup := (h.ids.kernel x hx).1
      omega
  · rintro rfl
    rfl

/-- **A user thread exits** alone. -/
theorem Homed.exit (h : Homed K m) (hc : m.sched.currentSlot = some c)
    (hrole : (m.sched.threads c).role = .user) (regs : Registers) (value : ℕ) (status : ℤ) :
    ∃ next resumed m',
      m.step K (.call ⟨false, regs, [], value, .exitGroup status⟩) = .ok (resumed, m') ∧
      Turn K m c next .exited resumed m' := by
  have hcall := h.inCall hc hrole ⟨false, regs, [], value, .exitGroup status⟩ rfl
  have hsched : (m.enter K ⟨false, regs, [], value, .exitGroup status⟩).sched = m.sched := by
    rw [Machine.sched, enter_run]
  have halone := h.group_eq_iff hrole
  have hne : c ≠ 1 := by
    rintro rfl
    exact absurd (h.two_le hrole) (by decide)
  obtain ⟨record, s, hexit, -, hg, hm, next, hcurrent⟩ :=
    h.frames.run.exit_of_user h.frames.compact.count_le hc hne status
  obtain ⟨hready, hgroup⟩ := hg.next next hcurrent
  have hnext : next ≠ c := fun heq => hgroup ((halone next).mpr heq)
  have hstate (x : Slot) : (s.threads x).state =
      if x = next then .running else if x = c then .exited else (m.sched.threads x).state := by
    have hcused : (c : ℕ) < m.run.sched.threadCount :=
      h.frames.run.slotInv c (h.frames.run.not_exited hc).2
    rw [hg.state]
    by_cases hx : x = c
    · subst hx
      rw [if_pos ⟨hcused, rfl⟩, if_neg hnext.symm, if_pos rfl]
    · rw [if_neg fun hboth => hx ((halone x).mp hboth.2), if_neg hx]
      by_cases hxn : x = next
      · rw [hxn, if_pos hcurrent, if_pos rfl]
      · rw [if_neg hxn, if_neg fun heq => hxn (Option.some.inj (heq.symm.trans hcurrent))]
  have hself (s : Scheduler) : update (suspendedAt s) c (some (K.ownFrame c)) c =
      some (K.ownFrame c) := update_self ..
  have hfrom := (took_syscallFromUser (.requestExitGroup status) s _).trans
    (syscallFromUser_of_held hcall.held (hself _))
  rw [Machine.step, Machine.handleSyscallFrame]
  simp only [List.foldl_nil, h.frameAddress hc hrole]
  rw [Machine.finishSyscall]
  simp only [hsched, show m.sched.requestExitGroup status = _ from hexit, hcurrent, hfrom, if_true]
  refine ⟨next, _, _, rfl, h.turn_of_sched hc hrole ⟨false, regs, [], value, .exitGroup status⟩ rfl
    (s := s) (v := value) ?_ ?_ hm.fixed (Moves.ident hm) hcurrent (.inr hready) hstate
    (fun x _ => hm.context x) (by rw [hm.context]) (fun hnot => absurd rfl hnot) (if_neg hnext).symm⟩
  · exact congrArg RunState.sched prepareResumeSlot_run
  · rw [setRax_mem, prepareResumeSlot_mem, took_mem]

/-! ### Kernel threads -/

/-- A kernel thread saves its registers, and the thread that the scheduler has chosen is resumed. -/
theorem Switching.turn (h : Switching m op c next after s) (registers : TaskContext) :
    Turn K m c next after ((m.took op s).switchContext K c next registers).1
      ((m.took op s).switchContext K c next registers).2 := by
  rw [Machine.switchContext]
  generalize ({ registers with
    cr3 := ((m.took op s).sched.threads c).context.cr3, kind := contextKindKernel,
    kernelRsp0 := ((m.took op s).sched.threads c).context.kernelRsp0 } : TaskContext) = context
  simp only
  have hrun : (((m.took op s).setContext c context).prepareResumeSlot K next).run =
      { (m.took op s).run with sched := s.setContext c context } := prepareResumeSlot_run
  have hmem : (((m.took op s).setContext c context).prepareResumeSlot K next).mem = m.mem :=
    prepareResumeSlot_mem
  generalize ((m.took op s).setContext c context).prepareResumeSlot K next = m' at hrun hmem ⊢
  have hsched : m'.sched = s.setContext c context := by rw [Machine.sched, hrun]
  refine ⟨?_, ?_, ?_, .inr h.ready, ?_, ?_, fun huser => absurd huser h.kernel, ?_,
    (if_neg h.ne).symm⟩
  · rw [hsched]
    exact h.moves.fixed
  · intro x
    rw [hsched, ident_setContext]
    exact Moves.ident h.moves x
  · rw [hsched]
    exact h.current
  · intro x
    rw [hsched, RunInv.threads_setContext s c context Thread.state (fun _ _ => rfl) x]
    exact h.state x
  · intro x hx
    rw [hsched, setContext, setThread_threads, update_of_ne hx]
    exact h.moves.context x
  · intro x _
    rw [hmem]

/-- **The idle thread switches**, or goes on when no other thread waits. -/
theorem Homed.idleSwitch (h : Homed K m) (hc : m.sched.currentSlot = some 1)
    (registers : TaskContext) :
    ∃ next resumed m', m.step K (.idleSwitch registers) = .ok (resumed, m') ∧
      Turn K m 1 next .runnable resumed m' := by
  have hrunning : (m.sched.threads 1).state = .running := h.frames.run.running h.frames.calm hc
  rw [Machine.step]
  rcases h.frames.contextSwitchPair hc with ⟨hnone, -⟩ | ⟨next, snapshot, s, hsome, hs⟩
  · simp only [hnone]
    refine ⟨1, none, _, rfl, rfl, fun _ => rfl, hc, .inl rfl, ?_, fun _ _ => rfl,
      fun huser => absurd huser h.frames.idleRole, fun _ _ => rfl, (if_pos rfl).symm⟩
    intro x
    by_cases hx : x = 1
    · rw [hx, if_pos rfl]
      exact hrunning
    · rw [if_neg hx, if_neg hx]
      rfl
  · simp only [hsome]
    exact ⟨next, _, _, rfl, hs.turn registers⟩

/-- **The bootstrap thread enters `idle_loop`**, for good. -/
theorem Homed.enterFirst (h : Homed K m) (hentered : m.run.entered = false)
    (registers : TaskContext) :
    ∃ next resumed m', m.step K (.enterFirst registers) = .ok (resumed, m') ∧
      Turn K m 0 next .exited resumed m' := by
  obtain ⟨next, s, hinitial, hs⟩ := h.frames.initialContextPair hentered
  rw [Machine.step]
  simp only [hinitial]
  exact ⟨next, _, _, rfl, hs.turn registers⟩

/-! ### Calls that return to their caller -/

/-- The writes of a handler to the user half touch no frame. -/
theorem foldl_write (writes : List (ℕ × ℕ)) (hlow : ∀ w ∈ writes, w.1 < 2 ^ 47) :
    ∀ m : Machine, ((writes.map fun w => HandlerEffect.write w.1 w.2).foldl
        (fun m e => m.effect K e) m).run = m.run ∧
      ∀ x, ((writes.map fun w => HandlerEffect.write w.1 w.2).foldl
        (fun m e => m.effect K e) m).mem (K.ownFrame x) = m.mem (K.ownFrame x) := by
  induction writes with
  | nil => exact fun _ => ⟨rfl, fun _ => rfl⟩
  | cons w writes ih =>
    intro m
    obtain ⟨hrun, hmem⟩ := ih (fun w hw => hlow w (List.mem_cons_of_mem _ hw))
      (m.effect K (.write w.1 w.2))
    refine ⟨hrun, fun x => (hmem x).trans ?_⟩
    have hhigh : 2 ^ 47 ≤ K.ownFrame x := K.high_of_frame (.inl rfl)
    have hw := hlow w List.mem_cons_self
    have hne : K.ownFrame x ≠ w.1 := (hw.trans_le hhigh).ne'
    rw [effect_write_mem, update_of_ne hne]

/-- **A handler writes to the user half** and returns to its caller. -/
theorem Homed.write (h : Homed K m) (hc : m.sched.currentSlot = some c)
    (hrole : (m.sched.threads c).role = .user) (regs : Registers) (value : ℕ)
    (writes : List (ℕ × ℕ)) (hlow : ∀ w ∈ writes, w.1 < 2 ^ 47) :
    ∃ m', m.step K (.call ⟨false, regs, writes.map fun w => .write w.1 w.2, value, .continues⟩) =
        .ok (none, m') ∧ m'.sched = m.sched ∧
      ∀ x, x ≠ c → m'.mem (K.ownFrame x) = m.mem (K.ownFrame x) := by
  obtain ⟨hrun, hmem⟩ := foldl_write (K := K) writes hlow
    (m.enter K ⟨false, regs, writes.map fun w => .write w.1 w.2, value, .continues⟩)
  rw [Machine.step, Machine.handleSyscallFrame]
  simp only [h.frameAddress hc hrole]
  refine ⟨_, rfl, ?_, ?_⟩
  · exact congrArg RunState.sched (hrun.trans (enter_run _))
  · intro x hx
    rw [setRax_mem, update_ownFrame _ _ hx, hmem, h.enter_word hc hrole _ rfl hx]

/-- Blocked threads are found by their slot. -/
theorem Homed.unblockThreadWithResult (h : Homed K m)
    (hblocked : (m.sched.threads slot).state = .blocked) :
    m.sched.unblockThreadWithResult (slot + 1) (slot + 1) =
      (some (K.ownFrame slot), ((m.sched.setState slot .runnable).enqueue slot).2) := by
  have hrole := h.frames.roles.blocked slot hblocked
  obtain ⟨hid, hpid, -⟩ := h.ids.user slot hrole
  have hfirst : (Ring.first fun y : Slot => (m.sched.threads y).processId == (slot : ℕ) + 1 &&
      (m.sched.threads y).id == (slot : ℕ) + 1 && (m.sched.threads y).state == .blocked) =
      some slot := by
    rw [Ring.first_eq_some_iff]
    refine ⟨by rw [hid, hpid, hblocked]; simp, ?_⟩
    intro y hy
    rw [Bool.eq_false_iff]
    intro hfound
    simp only [Bool.and_eq_true, beq_iff_eq] at hfound
    obtain ⟨⟨-, hyid⟩, hyblocked⟩ := hfound
    rw [(h.ids.user y (h.frames.roles.blocked y hyblocked)).1] at hyid
    exact hy.ne (Fin.ext (Nat.succ.inj hyid))
  rw [Scheduler.unblockThreadWithResult, hfirst, ← h.home slot ⟨hrole, .inr hblocked⟩]

/-- **A handler unblocks a thread** and returns to its caller; the thread will find the result in
`rax`. -/
theorem Homed.unblock (h : Homed K m) (hc : m.sched.currentSlot = some c)
    (hrole : (m.sched.threads c).role = .user) (regs : Registers) (value result : ℕ)
    (hblocked : (m.sched.threads slot).state = .blocked) :
    ∃ m', m.step K (.call ⟨false, regs, [.unblock (slot + 1) (slot + 1) result], value,
          .continues⟩) = .ok (none, m') ∧ Moves m.sched m'.sched ∧
      (∀ x, (m'.sched.threads x).state =
        if x = slot then .runnable else (m.sched.threads x).state) ∧
      m'.mem (K.ownFrame slot) = result ∧
      ∀ x, x ≠ c → x ≠ slot → m'.mem (K.ownFrame x) = m.mem (K.ownFrame x) := by
  have hrunning : (m.sched.threads c).state = .running := h.frames.run.running h.frames.calm hc
  have hne : slot ≠ c := by
    rintro rfl
    rw [hrunning] at hblocked
    cases hblocked
  have hused : (m.sched.threads slot).state ≠ .unused :=
    hblocked.trans_ne (by simp)
  have hsched : (m.enter K ⟨false, regs, [.unblock (slot + 1) (slot + 1) result], value,
      .continues⟩).sched = m.sched := by
    rw [Machine.sched, enter_run]
  have hword {x : Slot} (hx : x ≠ c) := h.enter_word hc hrole
    ⟨false, regs, [.unblock (slot + 1) (slot + 1) result], value, .continues⟩ rfl hx
  rw [Machine.step, Machine.handleSyscallFrame]
  simp only [h.frameAddress hc hrole, List.foldl_cons, List.foldl_nil]
  generalize m.enter K ⟨false, regs, [.unblock (slot + 1) (slot + 1) result], value, .continues⟩ =
    m₀ at hsched hword ⊢
  rw [Machine.effect, hsched, h.unblockThreadWithResult hblocked]
  refine ⟨_, rfl, ?_, ?_, ?_, ?_⟩
  · have hset : Moves m.sched (m.sched.setState slot .runnable) := .setState hused (by simp)
    exact hset.trans (.of_threads (enqueue_fixed _ slot) (enqueue_threads _ slot))
  · intro x
    change (((m.sched.setState slot .runnable).enqueue slot).2.threads x).state = _
    rw [enqueue_threads, setState_threads]
    by_cases hx : x = slot
    · rw [hx, update_self, if_pos rfl]
    · rw [update_of_ne hx, if_neg hx]
  · rw [setRax_mem, update_ownFrame _ _ hne, setRax_mem, update_self]
  · intro x hx hxs
    rw [setRax_mem, update_ownFrame _ _ hx, setRax_mem, update_ownFrame _ _ hxs]
    exact hword hx

/-- A call that returns to its caller keeps the invariant. -/
theorem Homed.of_moves (h : Homed K m) (hm : Moves m.sched m'.sched)
    (hstate : ∀ x, (m'.sched.threads x).state = .runnable ∨ (m'.sched.threads x).state = .blocked →
      (m.sched.threads x).state = .runnable ∨ (m.sched.threads x).state = .blocked)
    (hframes : FrameInv K m') : Homed K m' := by
  refine ⟨hframes, h.ids.congr hm.fixed (Moves.ident hm), ?_, ?_⟩
  · intro x hx
    rw [hm.role] at hx
    rw [hm.context]
    exact h.kind x hx
  · rintro x ⟨hrole, hx⟩
    rw [hm.role] at hrole
    rw [hm.context]
    exact h.home x ⟨hrole, hstate x hx⟩

/-! ### Creating threads -/

/-- **A kernel thread creates a user thread**, if there is a slot left. -/
theorem Homed.spawn (h : Homed K m) (entryPoint userStack pageTable : ℕ) :
    Homed K (m.createUserThread K entryPoint userStack pageTable) ∧
      ∀ x, (m.sched.threads x).state = .unused ∧
          ((m.createUserThread K entryPoint userStack pageTable).sched.threads x).state =
            .runnable ∨
        (m.createUserThread K entryPoint userStack pageTable).sched.threads x =
            m.sched.threads x ∧
          (m.createUserThread K entryPoint userStack pageTable).mem (K.ownFrame x) =
            m.mem (K.ownFrame x) := by
  have hframes := h.frames.spawn entryPoint userStack pageTable
  obtain ⟨s, -, -, ⟨rfl, heq⟩ | ⟨slot, hslot, hfree, hs, heq⟩⟩ :=
    createUserThread_cases (K := K) h.frames.run h.frames.calm entryPoint userStack pageTable
  · rw [heq] at hframes ⊢
    exact ⟨h.of_moves (.refl _) (fun x hx => hx) hframes, fun x => .inr ⟨rfl, rfl⟩⟩
  · generalize m.createUserThread K entryPoint userStack pageTable = m' at hframes heq ⊢
    have hsched : m'.sched = s := by
      rw [heq]
      rfl
    have hmem : m'.mem = fill m.mem (K.ownFrame slot) 20
        (initialRegisters entryPoint userStack).word := by
      rw [heq]
    have hthreads (x : Slot) (hx : x ≠ slot) : m'.sched.threads x = m.sched.threads x := by
      rw [hsched, hs.threads, update_of_ne hx]
    have hnew : m'.sched.threads slot = m.sched.userThread K.toPlatform slot pageTable := by
      rw [hsched, hs.threads, update_self]
    have hcount : m.sched.threadCount < 8 := hslot ▸ slot.isLt
    refine ⟨⟨hframes, ⟨?_, ?_, ?_⟩, ?_, ?_⟩, ?_⟩
    · have hnext : m'.sched.nextThreadId = satAdd m.sched.nextThreadId 1 := by
        rw [hsched]
        exact congrArg Fixed.nextThreadId hs.fixed
      have hcount' : m'.sched.threadCount = wrapAdd m.sched.threadCount 1 := by
        rw [hsched]
        exact congrArg Fixed.threadCount hs.fixed
      rw [hnext, hcount', h.ids.next, satAdd_of_lt (by omega), wrapAdd_of_lt (by omega)]
    · intro x hx
      by_cases hxs : x = slot
      · rw [hxs, hnew, userThread, h.ids.next, ← hslot]
        exact ⟨rfl, rfl, rfl⟩
      · rw [hthreads x hxs] at hx ⊢
        exact h.ids.user x hx
    · intro x hx
      by_cases hxs : x = slot
      · rw [hxs, hnew] at hx
        exact absurd rfl hx
      · rw [hthreads x hxs] at hx ⊢
        exact h.ids.kernel x hx
    · intro x hx
      by_cases hxs : x = slot
      · rw [hxs, hnew]
        rfl
      · rw [hthreads x hxs] at hx ⊢
        exact h.kind x hx
    · intro x hx
      by_cases hxs : x = slot
      · rw [hxs, hnew, userThread_rsp]
      · rw [Suspended, hthreads x hxs] at hx
        rw [hthreads x hxs]
        exact h.home x hx
    · intro x
      by_cases hxs : x = slot
      · refine .inl ⟨by rw [hxs]; exact hfree, ?_⟩
        rw [hxs, hnew]
        rfl
      · exact .inr ⟨hthreads x hxs, (congrFun hmem _).trans (fill_ownFrame _ _ hxs)⟩

/-- The invariant holds when `bootstrap()` returns. -/
theorem Homed.start (hs : Booted s) (mem : ℕ → ℕ) (rsp0 userRsp : ℕ)
    (saved : Slot → Registers) : Homed K (.start s mem rsp0 userRsp saved) := by
  have hcase (x : Slot) : (s.threads x).role ≠ .user ∧
      (s.threads x).threadGroupId ≤ 1 ∧ (s.threads x).id ≤ 2 := by
    refine ⟨hs.role_ne_user x, ?_⟩
    rcases hs.slot_cases x with rfl | rfl | ⟨-, hcore⟩
    · rw [hs.bootstrapGroup, hs.kernel.bootstrapId]
      decide
    · rw [hs.kernel.idleGroup, hs.kernel.idleId]
      decide
    · have hgroup : (s.threads x).threadGroupId = 0 := congrArg Thread.threadGroupId hcore
      have hid : (s.threads x).id = 0 := congrArg Thread.id hcore
      rw [hgroup, hid]
      decide
  refine ⟨.start hs mem rsp0 userRsp saved, ⟨?_, fun x hx => absurd hx (hcase x).1,
    fun x _ => (hcase x).2⟩, fun x hx => absurd hx (hcase x).1, fun x hx => absurd hx.1 (hcase x).1⟩
  change s.nextThreadId = s.threadCount + 1
  rw [hs.nextThreadId, hs.threadCount]

end Turns

end Hxnu.Trap
