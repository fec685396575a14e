import Hxnu.Lib.SlotRing
import Hxnu.Syscall.Basic

/-!
# The message queue of the Linux compatibility layer

A call with the `PosixLcl` ABI is handed to a daemon: `dispatch` puts a message into `LCL_QUEUE` and
blocks the caller, and the daemon takes the messages out with `lcl_receive`
(`kernel/src/syscall.rs`). The queue is a ring of 64 optional messages under a lock. Its two indices
are equal both when no message is pending and when 64 are.

## Main definitions

* `LclMessage`, `LclQueue`, `enqueueLclMessage`, `dequeueLclMessage`: the ring of the source.
* `LclQueue.pending`: the messages in it, in the order in which they are taken out.
* `lclStep`: the operations on the ring, each of which holds the lock.
* `lclData`: the words of a message as `lcl_receive` lays them out.
* `dequeued`, `unreceived`: the messages a run returns, and those it leaves pending.

## Main results

* `dequeueLclMessage_eq`: taking out a message is `SlotRing.pop`.
* `lclQueue_fifo`: the ring is a queue as long as at most 64 messages are pending.
-/

namespace Hxnu.Syscall

open Function

/-! ### The ring -/

structure LclMessage where
  pid : ℕ
  tid : ℕ
  number : ℕ
  args : Fin 6 → ℕ
  abi : ℕ
  deriving DecidableEq

/-- The array `data` of `lcl_receive`. -/
def lclData (msg : LclMessage) : List ℕ :=
  [msg.number, msg.args 0, msg.args 1, msg.args 2, msg.args 3, msg.args 4, msg.args 5, msg.pid,
    msg.tid, msg.abi]

structure LclQueue where
  messages : Fin 64 → Option LclMessage
  head : Fin 64
  tail : Fin 64

/-- The initial value of `LCL_QUEUE`. -/
def LclQueue.new : LclQueue := ⟨fun _ => none, 0, 0⟩

def enqueueLclMessage (q : LclQueue) (msg : LclMessage) : LclQueue :=
  { q with messages := update q.messages q.head (some msg), head := q.head + 1 }

def dequeueLclMessage (q : LclQueue) : Option LclMessage × LclQueue :=
  -- `messages[tail].take()`
  let taken := { q with messages := update q.messages q.tail none }
  if q.head = q.tail then
    if (q.messages q.tail).isNone then (none, q)
    else (q.messages q.tail, { taken with tail := q.tail + 1 })
  else
    if (q.messages q.tail).isSome then (q.messages q.tail, { taken with tail := q.tail + 1 })
    else (q.messages q.tail, taken)

namespace LclQueue

/-- The queue as a ring of slots. -/
def toRing (q : LclQueue) : SlotRing LclMessage 64 := ⟨q.messages, q.head, q.tail⟩

/-- The messages in the queue, from `tail` on. -/
def pending (q : LclQueue) : List LclMessage := q.toRing.toList

end LclQueue

theorem toRing_enqueueLclMessage (q : LclQueue) (msg : LclMessage) :
    (enqueueLclMessage q msg).toRing = q.toRing.push msg := rfl

/-- The two branches of `dequeue_lcl_message` do the same. -/
theorem dequeueLclMessage_eq (q : LclQueue) :
    (dequeueLclMessage q).1 = q.toRing.pop.1 ∧
      (dequeueLclMessage q).2.toRing = q.toRing.pop.2 := by
  have hcells : q.toRing.cells q.toRing.tail = q.messages q.tail := rfl
  cases hslot : q.messages q.tail with
  | none =>
    -- taking from an empty slot leaves it empty
    have hsame : update q.messages q.tail none = q.messages := by
      rw [← hslot, update_eq_self]
    rw [SlotRing.pop, hcells, hslot, dequeueLclMessage, hslot, hsame]
    simp only [Option.isNone_none, Option.isSome_none, Bool.false_eq_true, if_true, if_false]
    split_ifs <;> exact ⟨rfl, rfl⟩
  | some msg =>
    rw [SlotRing.pop, hcells, hslot, dequeueLclMessage, hslot]
    simp only [Option.isNone_some, Option.isSome_some, Bool.false_eq_true, if_true, if_false]
    split_ifs <;> exact ⟨rfl, rfl⟩

/-! ### Runs -/

/-- `enqueue_lcl_message` and `dequeue_lcl_message`, with the message that is returned. -/
def lclStep (q : LclQueue) : SlotRing.Op LclMessage → Option LclMessage × LclQueue
  | .push msg => (none, enqueueLclMessage q msg)
  | .pop => dequeueLclMessage q

/-- The messages that calls on a fresh queue return, in order. -/
def dequeued (ops : List (SlotRing.Op LclMessage)) : List LclMessage :=
  (outputs lclStep .new ops).reduceOption

/-- The messages that were put in and not yet returned. -/
def unreceived (ops : List (SlotRing.Op LclMessage)) : List LclMessage :=
  (SlotRing.pushed ops).drop (dequeued ops).length

theorem lclStep_eq (q : LclQueue) (op : SlotRing.Op LclMessage) :
    (lclStep q op).1 = (q.toRing.step op).1 ∧ (lclStep q op).2.toRing = (q.toRing.step op).2 := by
  cases op with
  | push msg => exact ⟨rfl, toRing_enqueueLclMessage q msg⟩
  | pop => exact dequeueLclMessage_eq q

/-- The queue of the source and the ring answer alike. -/
theorem outputs_lclStep (ops : List (SlotRing.Op LclMessage)) :
    outputs lclStep .new ops = outputs SlotRing.step (.empty : SlotRing LclMessage 64) ops ∧
      (final lclStep .new ops).toRing =
        final SlotRing.step (.empty : SlotRing LclMessage 64) ops := by
  refine outputs_eq_of_simulation (R := fun (q : LclQueue) r => q.toRing = r) ?_ ops rfl
  rintro q _ op rfl
  exact lclStep_eq q op

/-- As long as at most 64 messages are pending at any time, the ring answers as a list would, and the
messages that are pending are those that were put in and not yet returned. -/
theorem lclStep_holds (hbound : ∀ front, front <+: ops → (unreceived front).length ≤ 64) :
    outputs lclStep .new ops = outputs SlotRing.fifoStep [] ops ∧
    dequeued ops ++ unreceived ops = SlotRing.pushed ops ∧
    (final lclStep .new ops).toRing.Holds (unreceived ops) := by
  have hring (front : List (SlotRing.Op LclMessage)) (hfront : front <+: ops) :
      (SlotRing.pushed front).length ≤
        (SlotRing.popped (.empty : SlotRing LclMessage 64) front).length + 64 := by
    have hfront := hbound front hfront
    rw [unreceived, List.length_drop] at hfront
    rw [SlotRing.popped, ← (outputs_lclStep front).1]
    exact Nat.sub_le_iff_le_add'.mp hfront
  obtain ⟨houts, hholds⟩ := SlotRing.holds_final SlotRing.holds_empty
    (SlotRing.length_final_le hring)
  obtain ⟨hanswers, hfinal⟩ := outputs_lclStep ops
  rw [← hfinal] at hholds
  have hanswers := hanswers.trans houts
  have hlaw := SlotRing.fifo_reduceOption ops []
  rw [← hanswers, List.nil_append] at hlaw
  have hunreceived : unreceived ops = final SlotRing.fifoStep [] ops := by
    rw [unreceived, ← hlaw, dequeued, List.drop_left]
  rw [← hunreceived] at hholds hlaw
  exact ⟨hanswers, hlaw, hholds⟩

/-- **The message ring is a queue.** In every sequence of calls in which at most 64 messages are
pending at any time, the messages that `dequeue_lcl_message` returns are the enqueued ones in the
same order, each once, as for a queue without a bound. It returns `None` exactly when no message is
pending, and `head = tail` both then and with 64 messages pending. -/
theorem lclQueue_fifo (ops : List (SlotRing.Op LclMessage))
    (hbound : ∀ front, front <+: ops → (unreceived front).length ≤ 64) :
    outputs lclStep .new ops = outputs SlotRing.fifoStep [] ops ∧
    dequeued ops ++ unreceived ops = SlotRing.pushed ops ∧
    (final lclStep .new ops).pending = unreceived ops ∧
    ((dequeueLclMessage (final lclStep .new ops)).1 = none ↔ unreceived ops = []) ∧
    ((final lclStep .new ops).head = (final lclStep .new ops).tail ↔
      unreceived ops = [] ∨ (unreceived ops).length = 64) := by
  obtain ⟨hanswers, hlaw, hholds⟩ := lclStep_holds hbound
  have hdequeue : (dequeueLclMessage (final lclStep .new ops)).1 = (unreceived ops).head? :=
    (dequeueLclMessage_eq _).1.trans hholds.pop.1
  exact ⟨hanswers, hlaw, hholds.toList_eq, by rw [hdequeue, List.head?_eq_none_iff],
    hholds.head_eq_tail_iff⟩

/-- Two messages are enqueued, and one of them is dequeued. -/
theorem lclQueue_fifo_two : ∃ a b : LclMessage, a ≠ b ∧
    dequeued [.push a, .push b, .pop] = [a] ∧
    (final lclStep .new [.push a, .push b, .pop]).pending = [b] ∧
    dequeued [.push a, .push b, .pop] ++ unreceived [.push a, .push b, .pop] =
      SlotRing.pushed [.push a, .push b, .pop] := by
  refine ⟨⟨3, 3, 0, 0, 3⟩, ⟨4, 4, 1, 0, 3⟩, by decide, by decide, by decide +kernel, ?_⟩
  refine (lclQueue_fifo _ ?_).2.1
  intro front hfront
  calc (unreceived front).length ≤ (SlotRing.pushed front).length := by
        rw [unreceived, List.length_drop]
        exact Nat.sub_le _ _
    _ ≤ front.length := List.length_filterMap_le _ _
    _ ≤ 3 := hfront.length_le
    _ ≤ 64 := by decide

end Hxnu.Syscall
