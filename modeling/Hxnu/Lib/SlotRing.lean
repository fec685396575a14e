import Hxnu.Lib.Run

/-!
# Rings of optional slots

A ring of `N` slots with two indices: the next element goes into the slot at `head`, the next one
is taken from the slot at `tail`, and a taken slot is left empty. There is no count: the indices are
equal both when the ring is empty and when it is full, and only the slot at `tail` tells the two
apart.

As long as no more than `N` elements are in the ring, it is a queue. The relation `Holds r xs` lists
the elements from `tail` on, with every other slot empty.

## Main definitions

* `SlotRing`, `SlotRing.push`, `SlotRing.pop`: the ring and its operations.
* `SlotRing.toList`, `SlotRing.Holds`: the list of elements in the ring.
* `SlotRing.Op`, `SlotRing.step`, `SlotRing.fifoStep`: the operations on the ring and on a list.

## Main results

* `SlotRing.Holds.push`, `SlotRing.Holds.pop`: what the operations do to the list.
* `SlotRing.Holds.head_eq_tail_iff`: the two states with equal indices.
* `SlotRing.holds_final`: a run with at most `N` elements in the ring at any time.
-/

namespace Hxnu

open Function List

/-- A ring of `N` slots, filled at `head` and emptied at `tail`. -/
structure SlotRing (α : Type*) (N : ℕ) where
  cells : Fin N → Option α
  head : Fin N
  tail : Fin N

namespace SlotRing

variable {α : Type*} {N : ℕ} [NeZero N]

/-- A ring of empty slots. -/
def empty : SlotRing α N := ⟨fun _ => none, 0, 0⟩

/-- Fill the slot at `head`, whether or not it is empty. -/
def push (r : SlotRing α N) (x : α) : SlotRing α N :=
  { r with cells := update r.cells r.head (some x), head := r.head + 1 }

/-- Empty the slot at `tail`. -/
def pop (r : SlotRing α N) : Option α × SlotRing α N :=
  match r.cells r.tail with
  | none => (none, r)
  | some x =>
    (some x, { r with cells := update r.cells r.tail none, tail := r.tail + 1 })

/-! ### The elements in the ring -/

/-- The elements of the ring are those of a list, in order from `tail` on. -/
structure Holds (r : SlotRing α N) (xs : List α) : Prop where
  length_le : xs.length ≤ N
  head : r.head = r.tail + Fin.ofNat N xs.length
  cell : ∀ k : Fin N, r.cells (r.tail + k) = xs[(k : ℕ)]?

/-- The filled slots, from `tail` on. -/
def toList (r : SlotRing α N) : List α := (List.finRange N).filterMap fun k => r.cells (r.tail + k)

theorem filterMap_getElem? (xs : List α) : ∀ n, xs.length ≤ n →
    (List.range n).filterMap (fun k => xs[k]?) = xs := by
  induction xs with
  | nil => simp
  | cons x xs ih =>
    intro n hn
    cases n with
    | zero => cases hn
    | succ n =>
      rw [range_succ_eq_map, filterMap_cons, List.getElem?_cons_zero,
        filterMap_map]
      exact congrArg (x :: ·) (ih n (Nat.le_of_succ_le_succ hn))

theorem holds_empty : (empty : SlotRing α N).Holds [] :=
  ⟨Nat.zero_le N, by simp [empty], fun _ => rfl⟩

namespace Holds

variable {r : SlotRing α N} {xs : List α}

section

variable (h : r.Holds xs)

include h

theorem toList_eq : r.toList = xs := by
  have hcells : (fun k : Fin N => r.cells (r.tail + k)) = (fun k => xs[k]?) ∘ Fin.val :=
    funext h.cell
  rw [toList, hcells, ← filterMap_map, map_coe_finRange_eq_range,
    filterMap_getElem? xs N h.length_le]

theorem cell_tail : r.cells r.tail = xs.head? := by
  have hcell := h.cell 0
  rw [add_zero, Fin.val_zero] at hcell
  rw [hcell, head?_eq_getElem?]

/-- The next element goes into an empty slot, unless the ring is full. -/
theorem cell_head (hlt : xs.length < N) : r.cells r.head = none := by
  have hval : (Fin.ofNat N xs.length : ℕ) = xs.length := Nat.mod_eq_of_lt hlt
  rw [h.head, h.cell, hval, List.getElem?_eq_none le_rfl]

/-- The indices are equal when the ring is empty and when it is full. -/
theorem head_eq_tail_iff : r.head = r.tail ↔ xs = [] ∨ xs.length = N := by
  have hle := h.length_le
  rw [h.head, add_eq_left, ← Fin.val_inj, Fin.val_ofNat, Fin.val_zero, ← length_eq_zero_iff]
  constructor
  · intro hmod
    by_cases hlt : xs.length < N
    · rw [Nat.mod_eq_of_lt hlt] at hmod
      exact .inl hmod
    · exact .inr (by omega)
  · rintro (hzero | hfull)
    · rw [hzero, Nat.zero_mod]
    · rw [hfull, Nat.mod_self]

/-- A push appends, unless the ring is full. -/
theorem push (hlt : xs.length < N) (x : α) : (r.push x).Holds (xs ++ [x]) := by
  have hval : (Fin.ofNat N xs.length : ℕ) = xs.length := Nat.mod_eq_of_lt hlt
  refine ⟨by rw [length_append]; exact hlt, ?_, ?_⟩
  · change r.head + 1 = r.tail + Fin.ofNat N (xs ++ [x]).length
    rw [h.head, add_assoc, add_right_inj]
    ext
    simp [Fin.val_add]
  · intro k
    change update r.cells r.head (some x) (r.tail + k) = _
    by_cases hk : (k : ℕ) = xs.length
    · have hhead : r.tail + k = r.head := by
        rw [h.head, add_right_inj, ← Fin.val_inj, hval, hk]
      rw [hhead, update_self, hk, List.getElem?_concat_length]
    · have hne : r.tail + k ≠ r.head := by
        rw [h.head, Ne, add_right_inj, ← Fin.val_inj, hval]
        exact hk
      rw [update_of_ne hne, h.cell]
      rcases Nat.lt_or_gt_of_ne hk with hk | hk
      · rw [List.getElem?_append_left hk]
      · rw [List.getElem?_eq_none hk.le, List.getElem?_eq_none]
        rw [length_append]
        exact hk

/-- A pop takes the first element. -/
theorem pop : r.pop.1 = xs.head? ∧ r.pop.2.Holds xs.tail := by
  have htail := h.cell_tail
  cases xs with
  | nil =>
    rw [head?_nil] at htail
    rw [SlotRing.pop, htail]
    exact ⟨rfl, h⟩
  | cons x xs =>
    rw [head?_cons] at htail
    rw [SlotRing.pop, htail]
    have hle : xs.length + 1 ≤ N := h.length_le
    refine ⟨rfl, (Nat.le_succ _).trans hle, ?_, ?_⟩
    · change r.head = r.tail + 1 + Fin.ofNat N xs.length
      rw [h.head, add_assoc, add_right_inj]
      ext
      simp [Fin.val_add, add_comm]
    · intro k
      change update r.cells r.tail none (r.tail + 1 + k) = xs[(k : ℕ)]?
      rw [add_assoc]
      by_cases hk : (k : ℕ) + 1 = N
      · -- the slot that was just emptied comes last
        have hzero : 1 + k = 0 := by
          ext
          simp [Fin.val_add, add_comm, hk]
        rw [hzero, add_zero, update_self, List.getElem?_eq_none (by omega)]
      · have hsucc : ((1 + k : Fin N) : ℕ) = k + 1 := by
          have hlt : (k : ℕ) + 1 < N := by omega
          simp [Fin.val_add, add_comm, Nat.mod_eq_of_lt hlt]
        have hne : r.tail + (1 + k) ≠ r.tail := by
          intro heq
          rw [add_eq_left] at heq
          rw [heq, Fin.val_zero] at hsucc
          omega
        rw [update_of_ne hne, h.cell, hsucc, List.getElem?_cons_succ]

end

end Holds

/-! ### Runs -/

/-- The operations on a queue. -/
inductive Op (α : Type*)
  | push (x : α)
  | pop

/-- An operation on a ring, with the element it takes out. -/
def step (r : SlotRing α N) : Op α → Option α × SlotRing α N
  | .push x => (none, r.push x)
  | .pop => r.pop

/-- An operation on an unbounded queue. -/
def fifoStep (xs : List α) : Op α → Option α × List α
  | .push x => (none, xs ++ [x])
  | .pop => (xs.head?, xs.tail)

/-- The elements that operations put in, in order. -/
def pushed (ops : List (Op α)) : List α :=
  ops.filterMap fun
    | .push x => some x
    | .pop => none

/-- An unbounded queue hands out what was put in, in order. -/
theorem fifo_reduceOption (ops : List (Op α)) : ∀ xs : List α,
    (outputs fifoStep xs ops).reduceOption ++ final fifoStep xs ops = xs ++ pushed ops := by
  induction ops with
  | nil => simp [outputs, final, pushed]
  | cons op ops ih =>
    intro xs
    cases op with
    | push x =>
      rw [outputs, final, fifoStep, reduceOption_cons_of_none, ih]
      simp [pushed]
    | pop =>
      cases xs with
      | nil =>
        have := ih []
        simpa [outputs, final, fifoStep, pushed] using this
      | cons x xs =>
        have := ih xs
        simpa [outputs, final, fifoStep, pushed] using this

/-- **A run of a ring** in which at most `N` elements are in the queue at any time answers like the
queue, and ends with the elements of the queue. -/
theorem holds_final {ops : List (Op α)} {r : SlotRing α N} {xs : List α} (h : r.Holds xs)
    (hbound : ∀ front, front <+: ops → (final fifoStep xs front).length ≤ N) :
    outputs step r ops = outputs fifoStep xs ops ∧
      (final step r ops).Holds (final fifoStep xs ops) := by
  induction ops generalizing r xs with
  | nil => exact ⟨rfl, h⟩
  | cons op ops ih =>
    have hstep : (r.step op).1 = (fifoStep xs op).1 ∧ (r.step op).2.Holds (fifoStep xs op).2 := by
      cases op with
      | push x =>
        have hone := hbound [.push x] (prefix_append [_] ops)
        change (xs ++ [x]).length ≤ N at hone
        rw [length_append] at hone
        exact ⟨rfl, h.push hone x⟩
      | pop => exact h.pop
    obtain ⟨houts, hfinal⟩ := ih hstep.2 fun front hfront =>
      hbound (op :: front) (cons_prefix_cons.mpr ⟨rfl, hfront⟩)
    exact ⟨by rw [outputs, outputs, hstep.1, houts], hfinal⟩

/-- The elements that operations on a ring take out, in order. -/
def popped (r : SlotRing α N) (ops : List (Op α)) : List α := (outputs step r ops).reduceOption

theorem reduceOption_outputs_append {σ : Type*} (step : σ → Op α → Option α × σ) (s : σ)
    (ops : List (Op α)) (op : Op α) : (outputs step s (ops ++ [op])).reduceOption =
      (outputs step s ops).reduceOption ++ (step (final step s ops) op).1.toList := by
  rw [outputs_append, reduceOption_append]
  cases h : (step (final step s ops) op).1 <;> simp [outputs, h]

/-- If at most `N` of the elements that were put into a ring are not yet taken out at any time, the
queue never has more than `N` elements either. -/
theorem length_final_le {ops : List (Op α)}
    (hbound : ∀ front, front <+: ops →
      (pushed front).length ≤ (popped (empty : SlotRing α N) front).length + N) :
    ∀ front, front <+: ops → (final fifoStep [] front).length ≤ N := by
  induction ops using List.reverseRecOn with
  | nil =>
    intro front hfront
    rw [prefix_nil.mp hfront]
    exact Nat.zero_le N
  | append_singleton ops op ih =>
    have hearlier := ih fun front hfront => hbound front (hfront.trans (prefix_append ops [op]))
    intro front hfront
    rcases prefix_concat_iff.mp hfront with rfl | hfront
    · have hone := hbound (ops ++ [op]) prefix_rfl
      obtain ⟨houts, hholds⟩ := holds_final (r := (empty : SlotRing α N)) holds_empty hearlier
      have hstep : (step (final step (empty : SlotRing α N) ops) op).1 =
          (fifoStep (final fifoStep [] ops) op).1 := by
        cases op with
        | push x => rfl
        | pop => exact hholds.pop.1
      have hlaw := congrArg List.length (fifo_reduceOption (ops ++ [op]) [])
      rw [popped, reduceOption_outputs_append, houts, hstep, ← reduceOption_outputs_append] at hone
      rw [length_append, nil_append] at hlaw
      omega
    · exact hearlier front hfront

end SlotRing

end Hxnu
