import Hxnu.Lib.Ring

/-!
# Queues in arrays

A queue of at most `N` elements is kept in the first `depth` cells of an array. An element is
appended at the cell `depth`; taking out an element moves every later element down by one cell.

## Main definitions

* `ArrayQueue`, `ArrayQueue.toList`: the array and the list it stands for.
* `ArrayQueue.push`, `ArrayQueue.pop`, `ArrayQueue.indexOf`, `ArrayQueue.removeAt`.

## Main results

* `ArrayQueue.toList_push`, `ArrayQueue.toList_pop`, `ArrayQueue.toList_removeAt_indexOf`: the
  operations on the list.
-/

namespace Hxnu

open Function List

/-- An array whose first `depth` cells form a queue. -/
structure ArrayQueue (α : Type*) (N : ℕ) where
  cells : Fin N → α
  depth : ℕ
  depth_le : depth ≤ N

namespace ArrayQueue

variable {α : Type*} {N : ℕ}

/-- The elements of the queue, the head first. -/
def toList (q : ArrayQueue α N) : List α := (List.ofFn q.cells).take q.depth

@[simp] theorem length_toList (q : ArrayQueue α N) : q.toList.length = q.depth := by
  rw [toList, length_take, length_ofFn, min_eq_left q.depth_le]

theorem getElem?_toList (q : ArrayQueue α N) {i : ℕ} (h : i < q.depth) :
    q.toList[i]? = some (q.cells ⟨i, h.trans_le q.depth_le⟩) := by
  rw [toList, List.getElem?_take_of_lt h, List.getElem?_ofFn, dif_pos (h.trans_le q.depth_le)]

/-- Two lists of the same length that agree at every index are equal. -/
theorem toList_eq_of_getElem? {q : ArrayQueue α N} {l : List α} (hlen : l.length = q.depth)
    (h : ∀ i (hi : i < q.depth), l[i]? = some (q.cells ⟨i, hi.trans_le q.depth_le⟩)) :
    q.toList = l := by
  ext1 i
  by_cases hi : i < q.depth
  · rw [q.getElem?_toList hi, h i hi]
  · rw [List.getElem?_eq_none (by simpa using hi), List.getElem?_eq_none (by omega)]

/-! ### Appending -/

/-- Append an element. -/
def push (q : ArrayQueue α N) (x : α) (h : q.depth < N) : ArrayQueue α N where
  cells := update q.cells ⟨q.depth, h⟩ x
  depth := q.depth + 1
  depth_le := h

@[simp] theorem push_depth (q : ArrayQueue α N) (x : α) (h : q.depth < N) :
    (q.push x h).depth = q.depth + 1 := rfl

theorem toList_push (q : ArrayQueue α N) (x : α) (h : q.depth < N) :
    (q.push x h).toList = q.toList ++ [x] := by
  refine toList_eq_of_getElem? (by simp) ?_
  intro i hi
  rw [push_depth] at hi
  by_cases hlt : i < q.depth
  · have hne : (⟨i, hi.trans_le h⟩ : Fin N) ≠ ⟨q.depth, h⟩ := by
      intro heq
      exact hlt.ne (Fin.mk.inj heq)
    rw [List.getElem?_append_left (by simpa using hlt), q.getElem?_toList hlt]
    change _ = some (update q.cells ⟨q.depth, h⟩ x ⟨i, _⟩)
    rw [update_of_ne hne]
  · obtain rfl : i = q.depth := by omega
    have hlast : (q.toList ++ [x])[q.toList.length]? = some x := List.getElem?_concat_length
    rw [q.length_toList] at hlast
    rw [hlast]
    simp [push]

/-! ### Taking out -/

/-- Move the `n` cells behind cell `i` down by one, in order. -/
def shiftFrom (cells : Fin N → α) (i : ℕ) : ℕ → Fin N → α
  | 0 => cells
  | n + 1 =>
    if h : i + 1 < N then
      shiftFrom (update cells ⟨i, Nat.lt_of_succ_lt h⟩ (cells ⟨i + 1, h⟩)) (i + 1) n
    else cells

/-- Each cell of the shifted part holds what the next one held before. -/
theorem shiftFrom_apply (n : ℕ) : ∀ (cells : Fin N → α) (i : ℕ) (_ : i + n < N) (j : Fin N),
    shiftFrom cells i n j =
      if h : i ≤ j ∧ (j : ℕ) < i + n then cells ⟨j + 1, by omega⟩ else cells j := by
  induction n with
  | zero =>
    intro cells i _ j
    rw [shiftFrom, dif_neg (by omega)]
  | succ n ih =>
    intro cells i hin j
    have hi : i + 1 < N := by omega
    rw [shiftFrom, dif_pos hi, ih _ _ (by omega)]
    rcases lt_trichotomy (j : ℕ) i with hj | hj | hj
    · rw [dif_neg (by omega), dif_neg (by omega), update_of_ne]
      intro heq
      exact hj.ne (congrArg Fin.val heq)
    · subst hj
      rw [dif_neg (by omega), dif_pos (by omega), update_self]
    · by_cases hlast : (j : ℕ) < i + 1 + n
      · rw [dif_pos (by omega), dif_pos (by omega), update_of_ne]
        intro heq
        have := congrArg Fin.val heq
        simp only at this
        omega
      · rw [dif_neg (by omega), dif_neg (by omega), update_of_ne]
        intro heq
        exact hj.ne' (congrArg Fin.val heq)

/-- Take out the element in a cell. -/
def removeAt (q : ArrayQueue α N) (i : ℕ) : ArrayQueue α N where
  cells := shiftFrom q.cells i (q.depth - 1 - i)
  depth := q.depth - 1
  depth_le := (Nat.sub_le _ _).trans q.depth_le

@[simp] theorem removeAt_depth (q : ArrayQueue α N) (i : ℕ) :
    (q.removeAt i).depth = q.depth - 1 := rfl

theorem toList_removeAt (q : ArrayQueue α N) (h : i < q.depth) :
    (q.removeAt i).toList = q.toList.eraseIdx i := by
  have hN := q.depth_le
  refine toList_eq_of_getElem? (by simp [length_eraseIdx, h]) ?_
  intro j hj
  rw [removeAt_depth] at hj
  change _ = some (shiftFrom q.cells i (q.depth - 1 - i) _)
  rw [shiftFrom_apply _ _ _ (by omega), List.getElem?_eraseIdx]
  by_cases hji : j < i
  · rw [if_pos hji, dif_neg (by simp; omega), q.getElem?_toList (by omega)]
  · rw [if_neg hji, dif_pos (by simp; omega), q.getElem?_toList (by omega)]

/-- Take out the head. -/
def pop (q : ArrayQueue α N) : Option (α × ArrayQueue α N) :=
  if h : q.depth = 0 then none
  else some (q.cells ⟨0, (Nat.pos_of_ne_zero h).trans_le q.depth_le⟩, q.removeAt 0)

theorem pop_eq_none_iff {q : ArrayQueue α N} : q.pop = none ↔ q.depth = 0 := by
  rw [pop]
  split_ifs with h <;> simp [h]

theorem toList_pop {q q' : ArrayQueue α N} {x : α} (h : q.pop = some (x, q')) :
    q.toList = x :: q'.toList ∧ q'.depth + 1 = q.depth := by
  rw [pop] at h
  split_ifs at h with h₀
  obtain ⟨rfl, rfl⟩ := Prod.mk.inj (Option.some.inj h)
  have hpos : 0 < q.depth := Nat.pos_of_ne_zero h₀
  have hhead := q.getElem?_toList hpos
  refine ⟨?_, Nat.sub_add_cancel hpos⟩
  rw [toList_removeAt q hpos, eraseIdx_zero]
  cases hl : q.toList with
  | nil => simp [hl] at hhead
  | cons y l =>
    rw [hl] at hhead
    rw [tail_cons, ← Option.some.inj hhead]

theorem mem_toList {q : ArrayQueue α N} {x : α} :
    x ∈ q.toList ↔ ∃ i : Fin N, (i : ℕ) < q.depth ∧ q.cells i = x := by
  rw [mem_iff_getElem?]
  constructor
  · rintro ⟨i, hi⟩
    have hlt : i < q.depth := by
      rw [← q.length_toList]
      exact (List.getElem?_eq_some_iff.mp hi).1
    rw [q.getElem?_toList hlt] at hi
    exact ⟨_, hlt, Option.some.inj hi⟩
  · rintro ⟨i, hi, rfl⟩
    exact ⟨i, q.getElem?_toList hi⟩

section Remove

variable [DecidableEq α]

/-- The first cell of the queue with a given element. -/
def indexOf (q : ArrayQueue α N) (x : α) : Option (Fin N) :=
  Ring.first fun i => decide ((i : ℕ) < q.depth) && decide (q.cells i = x)

theorem indexOf_eq_none_iff {q : ArrayQueue α N} {x : α} :
    q.indexOf x = none ↔ x ∉ q.toList := by
  rw [indexOf, Ring.first_eq_none_iff, mem_toList]
  constructor
  · rintro h ⟨i, hi, hx⟩
    simpa [hi, hx] using h i
  · intro h i
    by_contra hne
    simp only [Bool.not_eq_false, Bool.and_eq_true, decide_eq_true_eq] at hne
    exact h ⟨i, hne⟩

/-- Taking out the element that a search found. -/
theorem toList_removeAt_indexOf {q : ArrayQueue α N} {x : α} {i : Fin N}
    (h : q.indexOf x = some i) :
    x ∈ q.toList ∧ (q.removeAt i).toList = q.toList.erase x := by
  rw [indexOf, Ring.first_eq_some_iff] at h
  obtain ⟨hi, hmin⟩ := h
  simp only [Bool.and_eq_true, decide_eq_true_eq] at hi
  have hfirst : q.toList.idxOf x = i := by
    have hlen : (i : ℕ) < q.toList.length := by simpa using hi.1
    have hget (j : ℕ) (hj : j < q.toList.length) :
        q.toList[j] = q.cells ⟨j, (by simpa using hj : j < q.depth).trans_le q.depth_le⟩ := by
      have hcell := q.getElem?_toList (by simpa using hj : j < q.depth)
      rw [List.getElem?_eq_getElem hj] at hcell
      exact Option.some.inj hcell
    rw [List.idxOf, findIdx_eq hlen]
    refine ⟨by simpa [hget] using hi.2, ?_⟩
    intro j hj
    have hlow := hmin ⟨j, hj.trans i.isLt⟩ hj
    simpa [hget, hj.trans hi.1] using hlow
  refine ⟨mem_toList.mpr ⟨i, hi⟩, ?_⟩
  rw [q.toList_removeAt hi.1, erase_eq_eraseIdx_of_idxOf hfirst]

end Remove

end ArrayQueue

end Hxnu
