import Hxnu.Syscall.Basic
import Hxnu.Syscall.Lcl
import Hxnu.Trap.Turns

/-!
# Calls to the Linux compatibility layer

A user thread that makes a `PosixLcl` call is blocked until a daemon answers it: `dispatch` queues a
message with the identifiers of the thread, the daemon takes it with `lcl_receive`, and
`lcl_return` makes the thread runnable again and writes the result over the saved `rax`
(`kernel/src/syscall.rs`, `kernel/src/sched.rs`).

The runs are those in which all system calls are entered by `int 0x80`, and user threads only make
`PosixLcl` calls, receive messages into buffers in the user half, answer messages that were received
and not yet answered, yield, and exit. Kernel threads create user threads and switch.

## Main definitions

* `LclState`: the machine, the queue and, as ghost state, the messages received and not answered and
  the results that their threads have not seen yet.
* `LclEvent`, `LclState.step`: the transitions.
* `LclInv`: the invariant.

## Main results

* `LclInv.step`: every transition keeps the invariant.
* `lcl_exchange`: the property of all runs.
-/

namespace Hxnu.Trap

open Sched Scheduler Words List
open Syscall (LclMessage LclQueue lclData enqueueLclMessage dequeueLclMessage dequeueLclMessage_eq
  asI32)

/-! ### Transitions -/

structure LclState where
  machine : Machine
  queue : LclQueue
  /-- Ghost state: the messages that were received and not answered. -/
  received : List LclMessage
  /-- Ghost state: the results that `lcl_return` left for threads which have not run since. -/
  answers : Slot → Option ℕ

/-- What happens in a run. The system calls are made by the current thread with these registers. -/
inductive LclEvent
  /-- A kernel thread acts. -/
  | kernel (action : Action)
  /-- A system call with the `PosixLcl` ABI. -/
  | posixLcl (regs : Registers)
  | lclReceive (regs : Registers)
  | lclReturn (regs : Registers)
  | schedYield (regs : Registers)
  | exitGroup (regs : Registers)

/-- The message that `dispatch` queues. -/
def lclMessage (s : Scheduler) (regs : Registers) : LclMessage where
  pid := match s.currentSlot with
    | some slot => (s.threads slot).processId
    | none => 0
  tid := match s.currentSlot with
    | some slot => (s.threads slot).id
    | none => 0
  number := regs.rax
  args := ![regs.rdi, regs.rsi, regs.rdx, regs.r10, regs.r8, regs.r9]
  abi := 3

/-- The writes of `lcl_receive` to its buffer. -/
def lclWrites (ptr : ℕ) (msg : LclMessage) : List (ℕ × ℕ) :=
  (lclData msg).zipIdx.map fun w => (ptr + 8 * w.2, w.1)

/-- The message carries these identifiers. -/
def isFrom (pid tid : ℕ) (msg : LclMessage) : Bool := msg.pid == pid && msg.tid == tid

namespace LclState

/-- The state in which `bootstrap()` returns. -/
def start (s : Scheduler) (mem : ℕ → ℕ) (rsp0 userRsp : ℕ) (saved : Slot → Registers) : LclState :=
  ⟨.start s mem rsp0 userRsp saved, .new, [], fun _ => none⟩

/-- The messages that are pending in the queue, or received and not answered. -/
def outstanding (L : LclState) : List LclMessage := L.queue.pending ++ L.received

/-- The transition of the machine. -/
def action (L : LclState) : LclEvent → Action
  | .kernel action => action
  | .posixLcl regs => .call ⟨false, regs, [], 0, .yieldThread true⟩
  | .lclReceive regs =>
    match (dequeueLclMessage L.queue).1 with
    | some msg => .call ⟨false, regs, (lclWrites regs.rdi msg).map fun w => .write w.1 w.2, 1,
        .continues⟩
    | none => .call ⟨false, regs, [], 0, .continues⟩
  | .lclReturn regs =>
    -- the result is 0, or -EINVAL if there is no thread to unblock
    .call ⟨false, regs, [.unblock regs.rsi regs.rdx regs.rdi],
      if (L.machine.sched.unblockThreadWithResult regs.rsi regs.rdx).1.isSome then 0
        else 2 ^ 64 - 22, .continues⟩
  | .schedYield regs => .call ⟨false, regs, [], 0, .yieldThread false⟩
  | .exitGroup regs => .call ⟨false, regs, [], 0, .exitGroup (asI32 regs.rdi)⟩

def queueAfter (L : LclState) : LclEvent → LclQueue
  | .posixLcl regs => enqueueLclMessage L.queue (lclMessage L.machine.sched regs)
  | .lclReceive _ => (dequeueLclMessage L.queue).2
  | _ => L.queue

def receivedAfter (L : LclState) : LclEvent → List LclMessage
  | .lclReceive _ => L.received ++ (dequeueLclMessage L.queue).1.toList
  | .lclReturn regs => L.received.eraseP (isFrom regs.rsi regs.rdx)
  | _ => L.received

def answersAfter (L : LclState) : LclEvent → Slot → Option ℕ
  | .lclReturn regs => fun x =>
    if (L.machine.sched.threads x).processId = regs.rsi ∧
        (L.machine.sched.threads x).id = regs.rdx then some regs.rdi
    else L.answers x
  | _ => L.answers

/-- The answers that are left once a thread has been resumed. -/
def unseen (answers : Slot → Option ℕ) (resumed : Option Resumed) (x : Slot) : Option ℕ :=
  if resumed.any (·.1 == x) then none else answers x

def step (L : LclState) (K : Stacks) (e : LclEvent) :
    Except Panic (Option Resumed × LclState) :=
  match L.machine.step K (L.action e) with
  | .error p => .error p
  | .ok (resumed, m) =>
    .ok (resumed, ⟨m, L.queueAfter e, L.receivedAfter e, unseen (L.answersAfter e) resumed⟩)

/-- Kernel threads do not make system calls; buffers are in the user half; `lcl_return` is for a
message that was received and not answered. -/
def allowed (L : LclState) : LclEvent → Bool
  | .kernel (.call _) => false
  | .kernel action => L.machine.allowed action
  | .lclReceive regs =>
    L.machine.sched.userCurrent && decide (0 < regs.rdi ∧ regs.rdi + 80 ≤ 2 ^ 47)
  | .lclReturn regs =>
    L.machine.sched.userCurrent && L.received.any (isFrom regs.rsi regs.rdx)
  | _ => L.machine.sched.userCurrent

end LclState

/-- A transition of a run. -/
def LclTransition (K : Stacks) (L : LclState) (e : LclEvent) (L' : LclState) : Prop :=
  L.allowed e = true ∧ ∃ resumed, L.step K e = .ok (resumed, L')

/-! ### Outstanding messages -/

/-- The messages carry the identifiers of the threads in the given slots, each once. -/
structure Owned (blocked : Slot → Prop) (msgs : List LclMessage) : Prop where
  nodup : (msgs.map LclMessage.tid).Nodup
  pid : ∀ msg ∈ msgs, msg.pid = msg.tid
  mem : ∀ t, t ∈ msgs.map LclMessage.tid ↔ ∃ x : Slot, blocked x ∧ t = x + 1

namespace Owned

variable {blocked : Slot → Prop} {msgs msgs' : List LclMessage} {msg : LclMessage} {c : Slot}

theorem congr (h : Owned blocked msgs) (hiff : ∀ x, blocked' x ↔ blocked x) :
    Owned blocked' msgs := by
  have heq : blocked' = blocked := funext fun x => propext (hiff x)
  rw [heq]
  exact h

theorem perm (h : Owned blocked msgs) (hperm : msgs.Perm msgs') : Owned blocked msgs' := by
  have htids := hperm.map LclMessage.tid
  refine ⟨htids.nodup_iff.mp h.nodup, fun m hm => h.pid m (hperm.mem_iff.mpr hm), fun t => ?_⟩
  rw [← htids.mem_iff]
  exact h.mem t

theorem notMem (h : Owned blocked msgs) (hc : ¬ blocked c) :
    (c : ℕ) + 1 ∉ msgs.map LclMessage.tid := by
  intro hmem
  obtain ⟨x, hx, heq⟩ := (h.mem _).mp hmem
  have hxc : c = x := Fin.ext (Nat.succ.inj heq)
  exact hc (hxc ▸ hx)

/-- A thread is blocked with a message. -/
theorem cons (h : Owned blocked msgs) (msg : LclMessage) (hc : ¬ blocked c) (hpid : msg.pid = c + 1)
    (htid : msg.tid = c + 1) : Owned (fun x => x = c ∨ blocked x) (msg :: msgs) := by
  refine ⟨?_, ?_, ?_⟩
  · rw [map_cons, htid, nodup_cons]
    exact ⟨h.notMem hc, h.nodup⟩
  · intro m hm
    rcases mem_cons.mp hm with rfl | hm
    · rw [hpid, htid]
    · exact h.pid m hm
  · intro t
    rw [map_cons, mem_cons, htid, h.mem]
    constructor
    · rintro (rfl | ⟨x, hx, rfl⟩)
      · exact ⟨c, .inl rfl, rfl⟩
      · exact ⟨x, .inr hx, rfl⟩
    · rintro ⟨x, rfl | hx, rfl⟩
      · exact .inl rfl
      · exact .inr ⟨x, hx, rfl⟩

/-- A message is answered. -/
theorem of_cons (h : Owned blocked (msg :: msgs)) (htid : msg.tid = c + 1) :
    Owned (fun x => x ≠ c ∧ blocked x) msgs := by
  have hnodup := h.nodup
  rw [map_cons, nodup_cons, htid] at hnodup
  refine ⟨hnodup.2, fun m hm => h.pid m (mem_cons_of_mem _ hm), fun t => ?_⟩
  have hmem := h.mem t
  rw [map_cons, mem_cons, htid] at hmem
  constructor
  · intro ht
    obtain ⟨x, hx, rfl⟩ := hmem.mp (.inr ht)
    refine ⟨x, ⟨?_, hx⟩, rfl⟩
    rintro rfl
    exact hnodup.1 ht
  · rintro ⟨x, ⟨hne, hx⟩, rfl⟩
    exact (hmem.mpr ⟨x, hx, rfl⟩).resolve_left fun heq => hne (Fin.ext (Nat.succ.inj heq))

/-- There are no more messages than slots. -/
theorem length_le (h : Owned blocked msgs) : msgs.length ≤ maxThreads := by
  have hsub : msgs.map LclMessage.tid ⊆
      (List.finRange maxThreads).map fun x : Slot => (x : ℕ) + 1 := by
    intro t ht
    obtain ⟨x, -, rfl⟩ := (h.mem t).mp ht
    exact mem_map.mpr ⟨x, mem_finRange x, rfl⟩
  have hle := (subperm_of_subset h.nodup hsub).length_le
  rwa [length_map, length_map, length_finRange] at hle

/-- A blocked thread has exactly one message. -/
theorem countP_eq_one (h : Owned blocked msgs) (hc : blocked c) :
    msgs.countP (isFrom (c + 1) (c + 1)) = 1 := by
  have hcount : (msgs.map LclMessage.tid).count ((c : ℕ) + 1) = 1 :=
    count_eq_one_of_mem h.nodup ((h.mem _).mpr ⟨c, hc, rfl⟩)
  rw [List.count, countP_map] at hcount
  refine (countP_congr fun msg hmsg => ?_).trans hcount
  simp [isFrom, h.pid msg hmsg]

end Owned

/-! ### The invariant -/

/-- The invariant: the outstanding messages carry the identifiers of the blocked threads, each once,
and a thread that was answered waits with the answer in its frame. -/
structure LclInv (K : Stacks) (L : LclState) : Prop where
  homed : Homed K L.machine
  ring : L.queue.toRing.Holds L.queue.pending
  owned : Owned (fun x => (L.machine.sched.threads x).state = .blocked) L.outstanding
  answers : ∀ x r, L.answers x = some r → (L.machine.sched.threads x).role = .user ∧
    (L.machine.sched.threads x).state = .runnable ∧ L.machine.mem (K.ownFrame x) = r

/-- What a transition does for blocked threads and for answered ones. -/
structure Handled (L : LclState) (e : LclEvent) (resumed : Option Resumed) (L' : LclState) :
    Prop where
  woken : ∀ x, (L.machine.sched.threads x).state = .blocked →
    (L'.machine.sched.threads x).state = .blocked ∨
      ∃ regs, e = .lclReturn regs ∧ regs.rsi = (L.machine.sched.threads x).processId ∧
        regs.rdx = (L.machine.sched.threads x).id ∧ L.received.any (isFrom regs.rsi regs.rdx) ∧
        (L'.machine.sched.threads x).state = .runnable ∧ L'.answers x = some regs.rdi
  seen : ∀ x r, L.answers x = some r →
    (L'.machine.sched.threads x).state = .runnable ∧ L'.answers x = some r ∨
      ∃ regs, resumed = some (x, regs) ∧ regs.rax = r

section Steps

variable {K : Stacks} {L : LclState} {c next : Slot} {after : ThreadState}
  {resumed : Option Resumed} {m' : Machine}

theorem FrameInv.of_step (h : FrameInv K m) (hallowed : m.allowed action = true)
    (hseparate : m.separate K action = true) (hstep : m.step K action = .ok (resumed, m')) :
    FrameInv K m' := by
  obtain ⟨resumed', m'', hstep', hinv, -⟩ := h.step hallowed hseparate
  cases Except.ok.inj (hstep'.symm.trans hstep)
  exact hinv

theorem LclInv.running (h : LclInv K L) (hc : L.machine.sched.currentSlot = some c) :
    (L.machine.sched.threads c).state = .running :=
  h.homed.frames.run.running h.homed.frames.calm hc

theorem resume_fst {m : Machine} {x y : Slot} {regs : Registers}
    (h : m.resume x = some (y, regs)) : y = x := by
  rw [Machine.resume] at h
  split_ifs at h
  exact (Prod.mk.inj (Option.some.inj h)).1.symm

theorem unseen_eq_some :
    LclState.unseen answers resumed x = some r ↔
      answers x = some r ∧ ∀ regs, resumed ≠ some (x, regs) := by
  rw [LclState.unseen]
  cases resumed with
  | none => simp
  | some pair =>
    obtain ⟨y, regs⟩ := pair
    by_cases hy : y = x
    · simp [hy]
    · simp [hy]

/-! ### Turns -/

/-- A thread that was answered goes on waiting, or is resumed with the answer. -/
theorem LclInv.turn_seen (h : LclInv K L) (hc : L.machine.sched.currentSlot = some c)
    (ht : Turn K L.machine c next after resumed m') {x : Slot} {r : ℕ}
    (hx : L.answers x = some r) :
    ((m'.sched.threads x).role = .user ∧ (m'.sched.threads x).state = .runnable ∧
        m'.mem (K.ownFrame x) = r ∧ ∀ regs, resumed ≠ some (x, regs)) ∨
      ∃ regs, resumed = some (x, regs) ∧ regs.rax = r := by
  obtain ⟨hrole, hstate, hword⟩ := h.answers x r hx
  have hxc : x ≠ c := by
    rintro rfl
    rw [h.running hc] at hstate
    cases hstate
  have hword' : m'.mem (K.ownFrame x) = r := (ht.word x hxc).trans hword
  by_cases hnext : x = next
  · subst hnext
    have hkind : (m'.sched.threads x).context.kind = contextKindUser := by
      rw [ht.context x hxc]
      exact h.homed.kind x hrole
    have hrsp : (m'.sched.threads x).context.rsp = K.ownFrame x := by
      rw [ht.context x hxc]
      exact h.homed.home x ⟨hrole, .inl hstate⟩
    refine .inr ⟨Registers.load m'.mem (K.ownFrame x), ?_, hword'⟩
    rw [ht.resumed, if_neg hxc, Machine.resume, if_pos hkind, hrsp]
  · refine .inl ⟨(ht.role x).trans hrole, ?_, hword', ?_⟩
    · rw [ht.state, if_neg hnext, if_neg hxc, hstate]
    · intro regs hresumed
      rw [ht.resumed] at hresumed
      split_ifs at hresumed
      exact hnext (resume_fst hresumed)

theorem Turn.blocked_iff (ht : Turn K L.machine c next after resumed m') (hx : x ≠ c) :
    (m'.sched.threads x).state = .blocked ↔ (L.machine.sched.threads x).state = .blocked := by
  rw [ht.state, if_neg hx]
  split_ifs with hnext
  · subst hnext
    rw [ht.ready.resolve_left hx]
    exact iff_of_false nofun nofun
  · rfl

section

variable (h : LclInv K L) (hc : L.machine.sched.currentSlot = some c)

include h hc

/-- The answers after a turn. -/
theorem LclInv.turn_answers (ht : Turn K L.machine c next after resumed m') (x : Slot) (r : ℕ)
    (hx : LclState.unseen L.answers resumed x = some r) : (m'.sched.threads x).role = .user ∧
      (m'.sched.threads x).state = .runnable ∧ m'.mem (K.ownFrame x) = r := by
  obtain ⟨hanswer, hnot⟩ := unseen_eq_some.mp hx
  rcases h.turn_seen hc ht hanswer with ⟨hrole, hstate, hword, -⟩ | ⟨regs, hresumed, -⟩
  · exact ⟨hrole, hstate, hword⟩
  · exact absurd hresumed (hnot regs)

/-- **A turn that blocks no thread** keeps the invariant and the outstanding messages. -/
theorem LclInv.of_turn (ht : Turn K L.machine c next after resumed m') (hafter : after ≠ .blocked)
    (hframes : FrameInv K m') (e : LclEvent) :
    LclInv K ⟨m', L.queue, L.received, LclState.unseen L.answers resumed⟩ ∧
      Handled L e resumed ⟨m', L.queue, L.received, LclState.unseen L.answers resumed⟩ := by
  have hblocked (x : Slot) :
      (m'.sched.threads x).state = .blocked ↔ (L.machine.sched.threads x).state = .blocked := by
    by_cases hx : x = c
    · subst hx
      refine iff_of_false ?_ ((h.running hc).trans_ne nofun)
      rw [ht.state]
      split_ifs with hnext hself
      · exact nofun
      · exact hafter
      · exact absurd rfl hself
    · exact ht.blocked_iff hx
  refine ⟨⟨h.homed.of_turn ht hframes, h.ring, h.owned.congr hblocked, h.turn_answers hc ht⟩,
    ⟨?_, ?_⟩⟩
  · intro x hx
    exact .inl ((hblocked x).mpr hx)
  · intro x r hx
    refine (h.turn_seen hc ht hx).imp_left ?_
    rintro ⟨-, hstate, -, hnot⟩
    exact ⟨hstate, unseen_eq_some.mpr ⟨hx, hnot⟩⟩

/-- **A `PosixLcl` call** blocks its thread with a message. -/
theorem LclInv.of_posixLcl (hrole : (L.machine.sched.threads c).role = .user) (regs : Registers)
    (ht : Turn K L.machine c next .blocked resumed m') (hnext : next ≠ c)
    (hframes : FrameInv K m') :
    LclInv K ⟨m', enqueueLclMessage L.queue (lclMessage L.machine.sched regs), L.received,
      LclState.unseen L.answers resumed⟩ ∧
    Handled L (.posixLcl regs) resumed
      ⟨m', enqueueLclMessage L.queue (lclMessage L.machine.sched regs), L.received,
        LclState.unseen L.answers resumed⟩ := by
  obtain ⟨hid, hpid, -⟩ := h.homed.ids.user c hrole
  have hnot : (L.machine.sched.threads c).state ≠ .blocked := by
    rw [h.running hc]
    exact nofun
  have hblocked (x : Slot) : (m'.sched.threads x).state = .blocked ↔
      x = c ∨ (L.machine.sched.threads x).state = .blocked := by
    by_cases hx : x = c
    · subst hx
      rw [ht.state, if_neg hnext.symm, if_pos rfl]
      exact iff_of_true rfl (.inl rfl)
    · rw [ht.blocked_iff hx, or_iff_right hx]
  have hlen : L.queue.pending.length < 64 := by
    have hle := h.owned.length_le
    rw [LclState.outstanding, length_append, maxThreads] at hle
    omega
  have hring := h.ring.push hlen (lclMessage L.machine.sched regs)
  have hpending : (enqueueLclMessage L.queue (lclMessage L.machine.sched regs)).pending =
      L.queue.pending ++ [lclMessage L.machine.sched regs] := hring.toList_eq
  refine ⟨⟨h.homed.of_turn ht hframes, by rw [hpending]; exact hring, ?_, h.turn_answers hc ht⟩,
    ⟨?_, ?_⟩⟩
  · have howned := h.owned.cons (lclMessage L.machine.sched regs) hnot
      (by rw [lclMessage, hc]; exact hpid) (by rw [lclMessage, hc]; exact hid)
    refine (howned.congr hblocked).perm ?_
    rw [LclState.outstanding, LclState.outstanding, hpending, append_assoc]
    exact (perm_middle).symm
  · intro x hx
    exact .inl ((hblocked x).mpr (.inr hx))
  · intro x r hx
    refine (h.turn_seen hc ht hx).imp_left ?_
    rintro ⟨-, hstate, -, hnot⟩
    exact ⟨hstate, unseen_eq_some.mpr ⟨hx, hnot⟩⟩

/-! ### Calls that return to their caller -/

/-- **`lcl_receive`** moves a message from the queue to the received ones. -/
theorem LclInv.of_lclReceive (regs : Registers) (hsched : m'.sched = L.machine.sched)
    (hword : ∀ x, x ≠ c → m'.mem (K.ownFrame x) = L.machine.mem (K.ownFrame x))
    (hframes : FrameInv K m') :
    LclInv K ⟨m', (dequeueLclMessage L.queue).2,
      L.received ++ (dequeueLclMessage L.queue).1.toList, L.answers⟩ ∧
    Handled L (.lclReceive regs) none ⟨m', (dequeueLclMessage L.queue).2,
      L.received ++ (dequeueLclMessage L.queue).1.toList, L.answers⟩ := by
  obtain ⟨hfirst, hring⟩ := h.ring.pop
  obtain ⟨hmsg, hqueue⟩ := dequeueLclMessage_eq L.queue
  rw [← hqueue] at hring
  rw [hfirst] at hmsg
  have hpending : (dequeueLclMessage L.queue).2.pending = L.queue.pending.tail := hring.toList_eq
  have hanswered {x : Slot} {r : ℕ} (hx : L.answers x = some r) : x ≠ c := by
    rintro rfl
    have hstate := (h.answers x r hx).2.1
    rw [h.running hc] at hstate
    cases hstate
  refine ⟨⟨?_, by rw [hpending]; exact hring, ?_, ?_⟩, ⟨?_, ?_⟩⟩
  · exact h.homed.of_moves (by rw [hsched]; exact .refl _)
      (fun x hx => by rw [hsched] at hx; exact hx) hframes
  · have howned : Owned (fun x => (m'.sched.threads x).state = .blocked) L.outstanding := by
      rw [hsched]
      exact h.owned
    refine howned.perm ?_
    rw [LclState.outstanding, LclState.outstanding, hpending, hmsg]
    cases L.queue.pending with
    | nil => rw [head?_nil, Option.toList_none, append_nil, tail_nil]
    | cons msg msgs =>
      rw [head?_cons, Option.toList_some, tail_cons, ← append_assoc]
      exact (perm_append_singleton msg (msgs ++ L.received)).symm
  · intro x r hx
    obtain ⟨hrole, hstate, hr⟩ := h.answers x r hx
    rw [hsched]
    exact ⟨hrole, hstate, (hword x (hanswered hx)).trans hr⟩
  · intro x hx
    exact .inl (by rw [hsched]; exact hx)
  · intro x r hx
    refine .inl ⟨?_, hx⟩
    rw [hsched]
    exact (h.answers x r hx).2.1

end

/-- The thread to which an answer goes. -/
theorem LclInv.exists_blocked (h : LclInv K L)
    (hreceived : L.received.any (isFrom pid tid) = true) :
    ∃ slot : Slot, (L.machine.sched.threads slot).state = .blocked ∧ pid = slot + 1 ∧
      tid = slot + 1 := by
  obtain ⟨msg, hmsg, hfrom⟩ := any_eq_true.mp hreceived
  rw [isFrom, Bool.and_eq_true, beq_iff_eq, beq_iff_eq] at hfrom
  obtain ⟨hpid, htid⟩ := hfrom
  have hmem : msg ∈ L.outstanding := mem_append_right _ hmsg
  obtain ⟨slot, hblocked, hslot⟩ := (h.owned.mem _).mp (mem_map_of_mem hmem)
  exact ⟨slot, hblocked, by rw [← hpid, h.owned.pid msg hmem, hslot], by rw [← htid, hslot]⟩

/-- **`lcl_return`** takes the message from the received ones and wakes its thread. -/
theorem LclInv.of_lclReturn (h : LclInv K L) (hc : L.machine.sched.currentSlot = some c)
    {regs : Registers} {slot : Slot}
    (hreceived : L.received.any (isFrom regs.rsi regs.rdx) = true)
    (hblocked : (L.machine.sched.threads slot).state = .blocked) (hpid : regs.rsi = slot + 1)
    (htid : regs.rdx = slot + 1) (hm : Moves L.machine.sched m'.sched)
    (hstate : ∀ x, (m'.sched.threads x).state =
      if x = slot then .runnable else (L.machine.sched.threads x).state)
    (hresult : m'.mem (K.ownFrame slot) = regs.rdi)
    (hword : ∀ x, x ≠ c → x ≠ slot → m'.mem (K.ownFrame x) = L.machine.mem (K.ownFrame x))
    (hframes : FrameInv K m') :
    LclInv K ⟨m', L.queue, L.receivedAfter (.lclReturn regs),
      L.answersAfter (.lclReturn regs)⟩ ∧
    Handled L (.lclReturn regs) none ⟨m', L.queue, L.receivedAfter (.lclReturn regs),
      L.answersAfter (.lclReturn regs)⟩ := by
  have huser := h.homed.frames.roles.blocked slot hblocked
  obtain ⟨hid, hpid', -⟩ := h.homed.ids.user slot huser
  have hlow := h.homed.two_le huser
  -- the identifiers are those of the slot alone
  have hiff (x : Slot) : (L.machine.sched.threads x).processId = regs.rsi ∧
      (L.machine.sched.threads x).id = regs.rdx ↔ x = slot := by
    constructor
    · rintro ⟨-, hx⟩
      by_cases hrole : (L.machine.sched.threads x).role = .user
      · rw [(h.homed.ids.user x hrole).1, htid] at hx
        exact Fin.ext (Nat.succ.inj hx)
      · have hle := (h.homed.ids.kernel x hrole).2
        omega
    · rintro rfl
      exact ⟨by rw [hpid', hpid], by rw [hid, htid]⟩
  have hanswers (x : Slot) : L.answersAfter (.lclReturn regs) x =
      if x = slot then some regs.rdi else L.answers x := by
    rw [LclState.answersAfter]
    simp only [hiff]
  have hnone {x : Slot} {r : ℕ} (hx : L.answers x = some r) : x ≠ c ∧ x ≠ slot := by
    have hwaits := (h.answers x r hx).2.1
    refine ⟨?_, ?_⟩ <;> rintro rfl
    · rw [h.running hc] at hwaits
      cases hwaits
    · rw [hblocked] at hwaits
      cases hwaits
  have hstate_ne {x : Slot} (hx : x ≠ slot) :
      (m'.sched.threads x).state = (L.machine.sched.threads x).state := by
    rw [hstate, if_neg hx]
  refine ⟨⟨?_, h.ring, ?_, ?_⟩, ⟨?_, ?_⟩⟩
  · refine h.homed.of_moves hm ?_ hframes
    intro x hx
    by_cases hxs : x = slot
    · rw [hxs]
      exact .inr hblocked
    · rw [hstate_ne hxs] at hx
      exact hx
  · obtain ⟨msg, hmsg, hfrom⟩ := any_eq_true.mp hreceived
    obtain ⟨msg, front, back, -, hfrom, hreceived, herase⟩ := exists_of_eraseP hmsg hfrom
    rw [isFrom, Bool.and_eq_true, beq_iff_eq, beq_iff_eq] at hfrom
    have hperm : L.outstanding.Perm (msg :: (L.queue.pending ++ (front ++ back))) := by
      rw [LclState.outstanding, hreceived, ← append_assoc, ← append_assoc]
      exact perm_middle
    have howned := (h.owned.perm hperm).of_cons (hfrom.2.trans htid)
    have hafter : L.receivedAfter (.lclReturn regs) = front ++ back := herase
    rw [LclState.outstanding, hafter]
    refine howned.congr fun x => ?_
    by_cases hx : x = slot
    · rw [hstate, if_pos hx]
      exact iff_of_false nofun fun hboth => hboth.1 hx
    · rw [hstate_ne hx]
      exact (and_iff_right hx).symm
  · intro x r hx
    have hx := (hanswers x).symm.trans hx
    split_ifs at hx with hxs
    · subst hxs
      exact ⟨(hm.role x).trans huser, (hstate x).trans (if_pos rfl),
        hresult.trans (Option.some.inj hx)⟩
    · obtain ⟨hrole, hwaits, hr⟩ := h.answers x r hx
      exact ⟨(hm.role x).trans hrole, (hstate_ne hxs).trans hwaits,
        (hword x (hnone hx).1 hxs).trans hr⟩
  · intro x hx
    by_cases hxs : x = slot
    · subst hxs
      exact .inr ⟨regs, rfl, by rw [hpid, hpid'], by rw [htid, hid], hreceived,
        (hstate x).trans (if_pos rfl), (hanswers x).trans (if_pos rfl)⟩
    · exact .inl ((hstate_ne hxs).trans hx)
  · intro x r hx
    have hxs := (hnone hx).2
    exact .inl ⟨(hstate_ne hxs).trans (h.answers x r hx).2.1,
      (hanswers x).trans ((if_neg hxs).trans hx)⟩

/-! ### All transitions -/

/-- **Kernel threads** neither send nor answer messages. -/
theorem LclInv.kernel (h : LclInv K L) (hallowed : L.allowed (.kernel action) = true) :
    ∃ resumed L', L.step K (.kernel action) = .ok (resumed, L') ∧ LclInv K L' ∧
      Handled L (.kernel action) resumed L' := by
  rw [LclState.step, LclState.action]
  cases action with
  | call call => cases hallowed
  | spawn entryPoint userStack pageTable =>
    obtain ⟨hhomed, hthreads⟩ := h.homed.spawn entryPoint userStack pageTable
    rw [Machine.step]
    generalize L.machine.createUserThread K entryPoint userStack pageTable = m' at hhomed hthreads
    have hblocked (x : Slot) : (m'.sched.threads x).state = .blocked ↔
        (L.machine.sched.threads x).state = .blocked := by
      rcases hthreads x with ⟨hfree, hready⟩ | ⟨hsame, -⟩
      · rw [hfree, hready]
        exact iff_of_false (by simp) (by simp)
      · rw [hsame]
    have hanswers (x : Slot) (r : ℕ) (hx : L.answers x = some r) :
        (m'.sched.threads x).role = .user ∧ (m'.sched.threads x).state = .runnable ∧
          m'.mem (K.ownFrame x) = r := by
      obtain ⟨hrole, hstate, hr⟩ := h.answers x r hx
      rcases hthreads x with ⟨hfree, -⟩ | ⟨hsame, hword⟩
      · rw [hfree] at hstate
        cases hstate
      · rw [hsame, hword]
        exact ⟨hrole, hstate, hr⟩
    exact ⟨none, _, rfl, ⟨hhomed, h.ring, h.owned.congr hblocked, hanswers⟩,
      fun x hx => .inl ((hblocked x).mpr hx), fun x r hx => .inl ⟨(hanswers x r hx).2.1, hx⟩⟩
  | enterFirst registers =>
    have hentered : L.machine.run.entered = false := by
      simpa [LclState.allowed, Machine.allowed] using hallowed
    obtain ⟨next, resumed, m', hstep, ht⟩ := h.homed.enterFirst hentered registers
    have hmachine : L.machine.allowed (.enterFirst registers) = true := hallowed
    have hframes := h.homed.frames.of_step hmachine rfl hstep
    rw [hstep]
    exact ⟨resumed, _, rfl, h.of_turn (h.homed.frames.early hentered).2.1 ht (by simp) hframes _⟩
  | idleSwitch registers =>
    have hc : L.machine.sched.currentSlot = some 1 :=
      beq_iff_eq.mp (Bool.and_eq_true_iff.mp hallowed).2
    obtain ⟨next, resumed, m', hstep, ht⟩ := h.homed.idleSwitch hc registers
    have hmachine : L.machine.allowed (.idleSwitch registers) = true := hallowed
    have hframes := h.homed.frames.of_step hmachine rfl hstep
    rw [hstep]
    exact ⟨resumed, _, rfl, h.of_turn hc ht (by simp) hframes _⟩

theorem LclInv.caller (h : LclInv K L) (huser : L.machine.sched.userCurrent = true) :
    ∃ c, L.machine.sched.currentSlot = some c ∧ (L.machine.sched.threads c).role = .user := by
  obtain ⟨c, hc, -⟩ := h.homed.frames.run.current
  rw [userCurrent_eq hc, beq_iff_eq] at huser
  exact ⟨c, hc, huser⟩

theorem lclWrites_low (hptr : ptr + 80 ≤ 2 ^ 47) (msg : LclMessage) :
    ∀ w ∈ lclWrites ptr msg, w.1 < 2 ^ 47 := by
  intro w hw
  obtain ⟨⟨word, i⟩, hmem, rfl⟩ := mem_map.mp hw
  have hi : i < (lclData msg).length := (mem_zipIdx' hmem).1
  have hlen : (lclData msg).length = 10 := rfl
  change ptr + 8 * i < 2 ^ 47
  omega

/-- **`lcl_receive`**, with or without a message. -/
theorem LclInv.lclReceive (h : LclInv K L) (hallowed : L.allowed (.lclReceive regs) = true) :
    ∃ resumed L', L.step K (.lclReceive regs) = .ok (resumed, L') ∧ LclInv K L' ∧
      Handled L (.lclReceive regs) resumed L' := by
  obtain ⟨huser, hbuffer⟩ := Bool.and_eq_true_iff.mp hallowed
  have hptr := (of_decide_eq_true hbuffer).2
  obtain ⟨c, hc, hrole⟩ := h.caller huser
  obtain ⟨writes, value, hlow, haction⟩ : ∃ (writes : List (ℕ × ℕ)) (value : ℕ),
      (∀ w ∈ writes, w.1 < 2 ^ 47) ∧
      L.action (.lclReceive regs) = .call ⟨false, regs,
        writes.map fun w => .write w.1 w.2, value, .continues⟩ := by
    rw [LclState.action]
    cases (dequeueLclMessage L.queue).1 with
    | none => exact ⟨[], 0, nofun, rfl⟩
    | some msg => exact ⟨lclWrites regs.rdi msg, 1, lclWrites_low hptr msg, rfl⟩
  obtain ⟨m', hstep, hsched, hword⟩ := h.homed.write hc hrole regs value writes hlow
  have hmachine : L.machine.allowed (.call ⟨false, regs,
      writes.map fun w => .write w.1 w.2, value, .continues⟩) = true := huser
  have hseparate : L.machine.separate K (.call ⟨false, regs,
      writes.map fun w => .write w.1 w.2, value, .continues⟩) = true := by
    simpa [Machine.separate] using hlow
  have hframes := h.homed.frames.of_step hmachine hseparate hstep
  rw [LclState.step, haction, hstep]
  exact ⟨none, _, rfl, h.of_lclReceive hc regs hsched hword hframes⟩

/-- **Every transition** keeps the invariant, and none panics. -/
theorem LclInv.step (h : LclInv K L) {e : LclEvent} (hallowed : L.allowed e = true) :
    ∃ resumed L', L.step K e = .ok (resumed, L') ∧ LclInv K L' ∧ Handled L e resumed L' := by
  cases e with
  | kernel action => exact h.kernel hallowed
  | lclReceive regs => exact h.lclReceive hallowed
  | posixLcl regs =>
    obtain ⟨c, hc, hrole⟩ := h.caller hallowed
    obtain ⟨next, resumed, m', hstep, ht, hnext⟩ := h.homed.yield hc hrole regs 0 true
    have hmachine : L.machine.allowed (.call ⟨false, regs, [], 0, .yieldThread true⟩) = true :=
      hallowed
    have hframes := h.homed.frames.of_step hmachine rfl hstep
    rw [LclState.step, LclState.action, hstep]
    exact ⟨resumed, _, rfl, h.of_posixLcl hc hrole regs ht (hnext rfl) hframes⟩
  | schedYield regs =>
    obtain ⟨c, hc, hrole⟩ := h.caller hallowed
    obtain ⟨next, resumed, m', hstep, ht, -⟩ := h.homed.yield hc hrole regs 0 false
    have hmachine : L.machine.allowed (.call ⟨false, regs, [], 0, .yieldThread false⟩) = true :=
      hallowed
    have hframes := h.homed.frames.of_step hmachine rfl hstep
    rw [LclState.step, LclState.action, hstep]
    exact ⟨resumed, _, rfl, h.of_turn hc ht nofun hframes _⟩
  | exitGroup regs =>
    obtain ⟨c, hc, hrole⟩ := h.caller hallowed
    obtain ⟨next, resumed, m', hstep, ht⟩ := h.homed.exit hc hrole regs 0 (asI32 regs.rdi)
    have hmachine : L.machine.allowed
        (.call ⟨false, regs, [], 0, .exitGroup (asI32 regs.rdi)⟩) = true := hallowed
    have hframes := h.homed.frames.of_step hmachine rfl hstep
    rw [LclState.step, LclState.action, hstep]
    exact ⟨resumed, _, rfl, h.of_turn hc ht nofun hframes _⟩
  | lclReturn regs =>
    obtain ⟨huser, hreceived⟩ := Bool.and_eq_true_iff.mp hallowed
    obtain ⟨c, hc, hrole⟩ := h.caller huser
    obtain ⟨slot, hblocked, hpid, htid⟩ := h.exists_blocked hreceived
    have haction : L.action (.lclReturn regs) = .call ⟨false, regs,
        [.unblock (slot + 1) (slot + 1) regs.rdi], 0, .continues⟩ := by
      rw [LclState.action, hpid, htid, h.homed.unblockThreadWithResult hblocked]
      rfl
    obtain ⟨m', hstep, hm, hstate, hresult, hword⟩ :=
      h.homed.unblock hc hrole regs 0 regs.rdi hblocked
    have hmachine : L.machine.allowed (.call ⟨false, regs,
        [.unblock (slot + 1) (slot + 1) regs.rdi], 0, .continues⟩) = true := huser
    have hframes := h.homed.frames.of_step hmachine rfl hstep
    rw [LclState.step, haction, hstep]
    exact ⟨none, _, rfl, h.of_lclReturn hc hreceived hblocked hpid htid hm hstate hresult hword
      hframes⟩

end Steps

/-! ### Runs -/

section Runs

variable {K : Stacks} {s : Scheduler}

/-- The invariant holds when `bootstrap()` returns. -/
theorem LclInv.start (hs : Booted s) (mem : ℕ → ℕ) (rsp0 userRsp : ℕ) (saved : Slot → Registers) :
    LclInv K (.start s mem rsp0 userRsp saved) := by
  have hring : LclQueue.new.toRing.Holds [] := SlotRing.holds_empty
  have hpending : LclQueue.new.pending = [] := hring.toList_eq
  have hout : (LclState.start s mem rsp0 userRsp saved).outstanding = [] := by
    rw [LclState.outstanding]
    exact congrArg (· ++ []) hpending
  refine ⟨.start hs mem rsp0 userRsp saved, by rw [LclState.start, hpending]; exact hring, ?_,
    nofun⟩
  rw [hout]
  exact ⟨.nil, nofun, fun t => iff_of_false nofun fun ⟨x, hx, _⟩ => hs.not_blocked x hx⟩

/-- Runs from the state in which `bootstrap()` returns, with zeroed memory. -/
theorem exists_of_evaluateLcl (K : Stacks) (n : ℕ) (events : List LclEvent) [DecidablePred Q]
    (h : ((bootstrap K.toPlatform n).toOption.any fun s => (events.foldlM (attempt LclState.allowed
      (fun L e => L.step K e) fun _ _ r => r.2) (.start s (fun _ => 0) 0 0 fun _ => initialRegisters
      0 0)).any (Q ·)) = true) :
    ∃ s L, bootstrap K.toPlatform n = .ok s ∧ Reachable (LclTransition K)
      (.start s (fun _ => 0) 0 0 fun _ => initialRegisters 0 0) L ∧ Q L :=
  exists_of_attempts (fun _ _ r hallowed hstep => ⟨hallowed, r.1, hstep⟩) h

end Runs

/-- **Messages of the compatibility layer.** In every state of every run, each blocked thread has
exactly one outstanding message, and each outstanding message belongs to a blocked thread. At most
eight messages are pending, and the next one goes into an empty slot. Every further transition
succeeds; it makes a blocked thread runnable only by `lcl_return` for the message of that thread,
and an answered thread waits until it is resumed, with the answer in `rax`. -/
theorem lcl_exchange (K : Stacks) {n : ℕ} (hn : 3 ≤ n) {s : Scheduler}
    (hs : bootstrap K.toPlatform n = .ok s) (mem : ℕ → ℕ) (rsp0 userRsp : ℕ)
    (saved : Slot → Registers) {L : LclState}
    (hL : Reachable (LclTransition K) (.start s mem rsp0 userRsp saved) L) :
    (∀ x, (L.machine.sched.threads x).state = .blocked →
      L.outstanding.countP (isFrom (L.machine.sched.threads x).processId
        (L.machine.sched.threads x).id) = 1) ∧
    (∀ msg ∈ L.outstanding, ∃ x, (L.machine.sched.threads x).state = .blocked ∧
      msg.pid = (L.machine.sched.threads x).processId ∧
      msg.tid = (L.machine.sched.threads x).id) ∧
    L.queue.pending.length ≤ 8 ∧ L.queue.messages L.queue.head = none ∧
    ∀ e, L.allowed e = true →
      ∃ resumed L', L.step K e = .ok (resumed, L') ∧ Handled L e resumed L' := by
  have hbooted := booted_of_bootstrap (by omega) hs
  have hinv : LclInv K L := by
    refine hL.invariant (I := LclInv K) (.start hbooted mem rsp0 userRsp saved) ?_
    rintro L e L' hinv ⟨hallowed, resumed, hstep⟩
    obtain ⟨resumed', L'', hstep', hinv', -⟩ := hinv.step hallowed
    cases Except.ok.inj (hstep'.symm.trans hstep)
    exact hinv'
  have hids {x : Slot} (hx : (L.machine.sched.threads x).state = .blocked) :=
    hinv.homed.ids.user x (hinv.homed.frames.roles.blocked x hx)
  have hlen : L.queue.pending.length ≤ 8 := by
    have hle := hinv.owned.length_le
    rw [LclState.outstanding, length_append, maxThreads] at hle
    omega
  refine ⟨?_, ?_, hlen, hinv.ring.cell_head (by omega), ?_⟩
  · intro x hx
    obtain ⟨hid, hpid, -⟩ := hids hx
    rw [hid, hpid]
    exact hinv.owned.countP_eq_one hx
  · intro msg hmsg
    obtain ⟨x, hx, htid⟩ := (hinv.owned.mem _).mp (mem_map_of_mem hmsg)
    obtain ⟨hid, hpid, -⟩ := hids hx
    refine ⟨x, hx, ?_, by rw [hid, htid]⟩
    rw [hinv.owned.pid msg hmsg, htid, hpid]
  · intro e hallowed
    obtain ⟨resumed, L', hstep, -, hhandled⟩ := hinv.step hallowed
    exact ⟨resumed, L', hstep, hhandled⟩

/-- One thread makes a call, and another one has received its message. -/
theorem lcl_exchange_received : ∃ s L,
    bootstrap exampleStacks.toPlatform 3 = .ok s ∧
    Reachable (LclTransition exampleStacks)
      (.start s (fun _ => 0) 0 0 fun _ => initialRegisters 0 0) L ∧
    (L.machine.sched.threads 2).state = .blocked ∧ L.received ≠ [] ∧
    L.outstanding.countP (isFrom (L.machine.sched.threads 2).processId
      (L.machine.sched.threads 2).id) = 1 := by
  obtain ⟨s, L, hs, hL, hblocked, hreceived⟩ := exists_of_evaluateLcl exampleStacks 3
    [.kernel (.spawn 0x400000 0x700000 0x2000), .kernel (.spawn 0x400000 0x800000 0x3000),
      .kernel (.enterFirst {}), .posixLcl (initialRegisters 0x401000 0x6ff000),
      .kernel (.idleSwitch {}),
      .lclReceive { initialRegisters 0x402000 0x7ff000 with rdi := 0x600000 }]
    (Q := fun L => (L.machine.sched.threads 2).state = .blocked ∧ L.received.length ≠ 0)
    (by decide +kernel)
  exact ⟨s, L, hs, hL, hblocked, mt length_eq_zero_iff.mpr hreceived,
    (lcl_exchange exampleStacks le_rfl hs _ 0 0 _ hL).1 2 hblocked⟩

end Hxnu.Trap
