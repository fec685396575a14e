import Hxnu.Syscall.Lcl
import Hxnu.Syscall.UserAccess

/-!
# Receiving messages of the Linux compatibility layer

The daemon takes the next request with `lcl_receive` (`kernel/src/syscall.rs`). The handler removes
the message from `LCL_QUEUE` first and then copies its ten words to the pointer of the caller. It
answers 1 if the copy succeeds, and 0 both when no message is pending and when the pointer is
refused. In the second case the message is gone, and its sender stays blocked.

## Main definitions

* `lclReceive`: the handler.
* `LclOp`, `lclOpStep`: requests that are queued, and calls of the handler by any process.
* `enqueued`, `delivered`: the messages that were queued, and those that calls which returned 1
  copied out.
* `LclOp.Keeps`: a receiver either finds no message or passes a pointer that is accepted.

## Main results

* `lclReceive_keeps_iff`: a call that returns 0 leaves the queue as it is exactly for such a
  receiver, and no message is lost in a run with only such receivers.
-/

namespace Hxnu.Syscall

open Buffer Function

/-! ### The handler -/

/-- The bytes of `data`, each word in little-endian order. -/
def lclBytes (msg : LclMessage) : List UInt8 := (lclData msg).flatMap (leBytes 8)

def lclReceive (q : LclQueue) (m : UserMemory) (args : Args) :
    SyscallOutcome × LclQueue × UserMemory :=
  match dequeueLclMessage q with
  | (some msg, q) =>
    match m.copyout (lclBytes msg) (args 0) with
    | (.ok (), m) => (.success 1, q, m)
    | (.error _, m) => (.success 0, q, m)
  | (none, q) => (.success 0, q, m)

theorem length_lclBytes (msg : LclMessage) : (lclBytes msg).length = 80 := by
  simp [lclBytes, lclData, length_leBytes]

/-- A queue without a message at `tail` is left as it is. -/
theorem dequeueLclMessage_of_none (h : q.messages q.tail = none) :
    dequeueLclMessage q = (none, q) := by
  have hsame : update q.messages q.tail none = q.messages := by
    rw [← h, update_eq_self]
  simp [dequeueLclMessage, h, hsame]

theorem dequeueLclMessage_of_some (h : q.messages q.tail = some msg) :
    dequeueLclMessage q = (some msg, { q with
      messages := update q.messages q.tail none, tail := q.tail + 1 }) := by
  simp [dequeueLclMessage, h]

/-- A receiver that finds no message, or whose buffer is accepted. -/
def Receivable (q : LclQueue) (args : Args) : Prop :=
  q.messages q.tail = none ∨ validateUserRange (args 0) 80 = .ok ()

section Cases

variable {q : LclQueue} {args : Args} {msg : LclMessage} (m : UserMemory)

theorem lclReceive_of_none (h : q.messages q.tail = none) :
    lclReceive q m args = (.success 0, q, m) := by
  rw [lclReceive, dequeueLclMessage_of_none h]

theorem lclReceive_of_ok (h : q.messages q.tail = some msg)
    (hvalid : validateUserRange (args 0) 80 = .ok ()) :
    ∃ m', lclReceive q m args = (.success 1, (dequeueLclMessage q).2, m') ∧
      ∀ i < 80, m'.bytes (args 0 + i) = (lclBytes msg).getD i 0 := by
  rw [← length_lclBytes msg] at hvalid
  obtain ⟨m', hcopy, hbytes⟩ := UserMemory.copyout_of_ok (m := m) hvalid
  refine ⟨m', by simp only [lclReceive, dequeueLclMessage_of_some h, hcopy], fun i hi => ?_⟩
  rw [hbytes, length_lclBytes, if_pos (by omega), Nat.add_sub_cancel_left]

theorem lclReceive_of_error (h : q.messages q.tail = some msg)
    (hinvalid : validateUserRange (args 0) 80 = .error e) :
    lclReceive q m args = (.success 0, (dequeueLclMessage q).2, m) := by
  rw [← length_lclBytes msg] at hinvalid
  simp only [lclReceive, dequeueLclMessage_of_some h, UserMemory.copyout_of_error hinvalid]

/-- A call that returns 1 has copied out the message that it removed. -/
theorem lclReceive_success (h : (lclReceive q m args).1 = .success 1) :
    ∃ msg, (dequeueLclMessage q).1 = some msg ∧
      ∀ i < 80, (lclReceive q m args).2.2.bytes (args 0 + i) = (lclBytes msg).getD i 0 := by
  cases hslot : q.messages q.tail with
  | none =>
    rw [lclReceive_of_none m hslot] at h
    simp [SyscallOutcome.success] at h
  | some msg =>
    cases hvalid : validateUserRange (args 0) 80 with
    | error e =>
      rw [lclReceive_of_error m hslot hvalid] at h
      simp [SyscallOutcome.success] at h
    | ok u =>
      obtain ⟨m', hreceive, hbytes⟩ := lclReceive_of_ok m hslot hvalid
      rw [hreceive]
      exact ⟨msg, by rw [dequeueLclMessage_of_some hslot], hbytes⟩

/-- A receivable message is removed only by a call that returns 1. -/
theorem lclReceive_of_receivable (h : Receivable q args) :
    (lclReceive q m args).2.1 = (dequeueLclMessage q).2 ∧
      ((lclReceive q m args).1 = .success 1 ∨
        (lclReceive q m args).1 = .success 0 ∧ dequeueLclMessage q = (none, q)) := by
  cases hslot : q.messages q.tail with
  | none =>
    rw [lclReceive_of_none m hslot, dequeueLclMessage_of_none hslot]
    exact ⟨rfl, .inr ⟨rfl, rfl⟩⟩
  | some msg =>
    have hvalid := h.resolve_left (by rw [hslot]; exact Option.some_ne_none msg)
    obtain ⟨m', hreceive, -⟩ := lclReceive_of_ok m hslot hvalid
    rw [hreceive]
    exact ⟨rfl, .inl rfl⟩

/-- With a pending message and a refused pointer, the call returns 0 and changes the queue. -/
theorem lclReceive_of_not_receivable (h : ¬ Receivable q args) :
    (lclReceive q m args).1 = .success 0 ∧ (lclReceive q m args).2.1 ≠ q := by
  obtain ⟨hslot, hinvalid⟩ := not_or.mp h
  obtain ⟨msg, hslot⟩ := Option.ne_none_iff_exists'.mp hslot
  cases hvalid : validateUserRange (args 0) 80 with
  | ok u => exact absurd hvalid hinvalid
  | error e =>
    rw [lclReceive_of_error m hslot hvalid, dequeueLclMessage_of_some hslot]
    refine ⟨rfl, fun hsame => ?_⟩
    -- the slot at `tail` was filled and is now empty
    have hcell := congrFun (congrArg LclQueue.messages hsame) q.tail
    rw [hslot] at hcell
    simp at hcell

end Cases

/-! ### Runs -/

/-- `enqueue_lcl_message`, and `lcl_receive` by a process with this memory. -/
inductive LclOp
  | enqueue (msg : LclMessage)
  | receive (m : UserMemory) (args : Args)

namespace LclOp

/-- What the operation does to the ring. -/
def toRingOp : LclOp → SlotRing.Op LclMessage
  | .enqueue msg => .push msg
  | .receive _ _ => .pop

/-- The operation does not remove a message that it cannot deliver. -/
def Keeps (q : LclQueue) : LclOp → Prop
  | .enqueue _ => True
  | .receive _ args => Receivable q args

end LclOp

/-- The operations, with the message that a call which returns 1 has copied out. -/
def lclOpStep (q : LclQueue) : LclOp → Option LclMessage × LclQueue
  | .enqueue msg => (none, enqueueLclMessage q msg)
  | .receive m args =>
    (if (lclReceive q m args).1 = .success 1 then (dequeueLclMessage q).1 else none,
      (lclReceive q m args).2.1)

/-- The messages that were queued, in order. -/
def enqueued (ops : List LclOp) : List LclMessage :=
  SlotRing.pushed (ops.map LclOp.toRingOp)

/-- The messages that receivers got, in order. -/
def delivered (ops : List LclOp) : List LclMessage :=
  (outputs lclOpStep .new ops).reduceOption

/-- The number of messages that are queued and not yet removed is at most 64 at any time. -/
def AtMost64Pending (ops : List LclOp) : Prop :=
  ∀ front, front <+: ops → (unreceived (front.map LclOp.toRingOp)).length ≤ 64

theorem lclOpStep_of_keeps (h : op.Keeps q) : lclOpStep q op = lclStep q op.toRingOp := by
  cases op with
  | enqueue msg => rfl
  | receive m args =>
    obtain ⟨hqueue, hone | ⟨hzero, hnone⟩⟩ := lclReceive_of_receivable m h
    · rw [lclOpStep, hone, hqueue, if_pos rfl]
      rfl
    · rw [lclOpStep, hzero, hqueue, if_neg (by decide)]
      change _ = dequeueLclMessage q
      rw [hnone]

/-- In a run of operations that keep what they cannot deliver, the receivers get what the ring
returns. -/
theorem outputs_lclOpStep (ops : List LclOp) : ∀ q : LclQueue,
    (∀ before op after, ops = before ++ op :: after → op.Keeps (final lclOpStep q before)) →
      outputs lclOpStep q ops = outputs lclStep q (ops.map LclOp.toRingOp) ∧
        final lclOpStep q ops = final lclStep q (ops.map LclOp.toRingOp) := by
  induction ops with
  | nil => exact fun q _ => ⟨rfl, rfl⟩
  | cons op ops ih =>
    intro q hkeeps
    have hstep : lclOpStep q op = lclStep q op.toRingOp :=
      lclOpStep_of_keeps (hkeeps [] op ops rfl)
    obtain ⟨houts, hfinal⟩ := ih (lclOpStep q op).2 fun before next after hsplit =>
      hkeeps (op :: before) next after (by rw [hsplit, List.cons_append])
    rw [outputs, final, houts, hfinal, hstep]
    exact ⟨rfl, rfl⟩

/-- **No request is lost by a receiver with an accepted buffer.** For every state of the queue and
every pointer, a call of `lcl_receive` that returns 0 leaves the queue as it is if and only if no
message is at `tail` or the range of 80 bytes is accepted. In every run in which all calls are like
that and at most 64 messages are pending at any time, the messages that were delivered and those
that are pending are the queued ones, in order and each once. A call that returns 1 has copied the
message that it removed to the buffer. -/
theorem lclReceive_keeps_iff (q : LclQueue) (m : UserMemory) (args : Args) :
    (((lclReceive q m args).1 = .success 0 → (lclReceive q m args).2.1 = q) ↔
      Receivable q args) ∧
    (∀ ops, (∀ before op after, ops = before ++ op :: after →
        op.Keeps (final lclOpStep .new before)) → AtMost64Pending ops →
      delivered ops ++ (final lclOpStep .new ops).pending = enqueued ops) ∧
    ((lclReceive q m args).1 = .success 1 → ∃ msg, (dequeueLclMessage q).1 = some msg ∧
      ∀ i < 80, (lclReceive q m args).2.2.bytes (args 0 + i) = (lclBytes msg).getD i 0) := by
  refine ⟨⟨fun h => ?_, fun h hzero => ?_⟩, fun ops hkeeps hbound => ?_, lclReceive_success m⟩
  · by_contra hnot
    obtain ⟨hzero, hchanged⟩ := lclReceive_of_not_receivable m hnot
    exact hchanged (h hzero)
  · obtain ⟨hqueue, hone | ⟨-, hnone⟩⟩ := lclReceive_of_receivable m h
    · rw [hone] at hzero
      exact absurd hzero (by decide)
    · rw [hqueue, hnone]
  · obtain ⟨houts, hfinal⟩ := outputs_lclOpStep ops .new hkeeps
    have hring (front : List (SlotRing.Op LclMessage))
        (hfront : front <+: ops.map LclOp.toRingOp) : (unreceived front).length ≤ 64 := by
      obtain ⟨before, hbefore, rfl⟩ := List.prefix_map_iff.mp hfront
      exact hbound before hbefore
    obtain ⟨-, hlaw, hholds⟩ := lclStep_holds hring
    rw [delivered, houts, hfinal, LclQueue.pending, hholds.toList_eq]
    exact hlaw

/-- A request is queued and received into the buffer at `0x1000`. -/
theorem lclReceive_keeps_iff_delivered : ∃ (msg : LclMessage) (m : UserMemory) (args : Args),
    let ops := [.enqueue msg, .receive m args]
    delivered ops = [msg] ∧ delivered ops ++ (final lclOpStep .new ops).pending = enqueued ops := by
  refine ⟨⟨3, 4, 0, 0, 3⟩, ⟨fun _ => 0, []⟩, fun _ => 0x1000, by decide +kernel, ?_⟩
  refine (lclReceive_keeps_iff .new ⟨fun _ => 0, []⟩ fun _ => 0x1000).2.1 _ ?_ ?_
  · intro before op after hsplit
    cases op with
    | enqueue msg => exact trivial
    | receive m args =>
      have hmem : LclOp.receive m args ∈ before ++ .receive m args :: after := by simp
      rw [← hsplit] at hmem
      have hsame : m = ⟨fun _ => 0, []⟩ ∧ args = fun _ => 0x1000 := by simpa using hmem
      rw [hsame.2]
      exact .inr (by decide)
  · intro front hfront
    calc (unreceived (front.map LclOp.toRingOp)).length
        ≤ (SlotRing.pushed (front.map LclOp.toRingOp)).length := by
          rw [unreceived, List.length_drop]
          exact Nat.sub_le _ _
      _ ≤ (front.map LclOp.toRingOp).length := List.length_filterMap_le _ _
      _ = front.length := List.length_map _
      _ ≤ 2 := hfront.length_le
      _ ≤ 64 := by decide

/-- A receiver that passes the null pointer gets 0, and the request is neither pending nor
delivered. -/
theorem lclReceive_loses_request : ∃ (msg : LclMessage) (m : UserMemory) (args : Args),
    let q := enqueueLclMessage .new msg
    (lclReceive q m args).1 = .success 0 ∧ q.pending = [msg] ∧
      (lclReceive q m args).2.1.pending = [] ∧ delivered [.enqueue msg, .receive m args] = [] := by
  refine ⟨⟨3, 4, 0, 0, 3⟩, ⟨fun _ => 0, []⟩, fun _ => 0, ?_⟩
  decide +kernel

end Hxnu.Syscall
