import Mathlib.Logic.Function.Basic
import Mathlib.Tactic.Common

/-!
# Memory of eight-byte words

A memory is a function from addresses to the words stored at them. Only words at multiples of eight
from a common base are ever compared, so partial overlaps do not arise.

## Main definitions

* `Words.fill`: store a block of words.
* `Words.Held`: blocks of words held by owners, of which only the first word may change.

## Main results

* `Words.fill_apply`, `Words.fill_of_lt`, `Words.fill_of_ge`: reading after storing.
* `Words.Held.push`, `Words.Held.write_first`, `Words.Held.write_outside`: the ways memory changes
  while blocks are held.
-/

namespace Hxnu.Words

open Function

/-- Store the words `f 0, …, f (n - 1)` from address `a` on. -/
def fill (mem : ℕ → ℕ) (a n : ℕ) (f : ℕ → ℕ) : ℕ → ℕ := fun x =>
  if a ≤ x ∧ x < a + 8 * n ∧ (x - a) % 8 = 0 then f ((x - a) / 8) else mem x

variable {mem : ℕ → ℕ} {a n i x : ℕ} {f : ℕ → ℕ}

theorem fill_apply (hi : i < n) : fill mem a n f (a + 8 * i) = f i := by
  have hoffset : a + 8 * i - a = 8 * i := by omega
  rw [fill, if_pos (by omega), hoffset, Nat.mul_div_cancel_left i (by decide)]

theorem fill_of_lt (hx : x < a) : fill mem a n f x = mem x := by
  rw [fill, if_neg (by omega)]

theorem fill_of_ge (hx : a + 8 * n ≤ x) : fill mem a n f x = mem x := by
  rw [fill, if_neg (by omega)]

theorem fill_of_not_mem (h : ∀ i < n, x ≠ a + 8 * i) : fill mem a n f x = mem x := by
  rw [fill, if_neg]
  rintro ⟨hle, hlt, hmod⟩
  exact h ((x - a) / 8) (by omega) (by omega)

/-! ### Held blocks -/

/-- Owners hold blocks of `n` words. Blocks do not overlap, and every word of a block but the first
is as recorded. -/
structure Held {ι : Type*} (n : ℕ) (loc : ι → Option ℕ) (mem : ℕ → ℕ) (content : ι → ℕ → ℕ) :
    Prop where
  apart : ∀ x y a b, loc x = some a → loc y = some b → x ≠ y → a + 8 * n ≤ b ∨ b + 8 * n ≤ a
  kept : ∀ x a, loc x = some a → ∀ i, 0 < i → i < n → mem (a + 8 * i) = content x i

namespace Held

variable {ι : Type*} {loc loc' : ι → Option ℕ} {content : ι → ℕ → ℕ}

/-- Owners may let go of their blocks. -/
theorem mono (h : Held n loc mem content) (hsub : ∀ x b, loc' x = some b → loc x = some b) :
    Held n loc' mem content :=
  ⟨fun x y b c hx hy => h.apart x y b c (hsub x b hx) (hsub y c hy),
    fun x b hx => h.kept x b (hsub x b hx)⟩

/-- A word outside the blocks is written. -/
theorem write_outside (h : Held n loc mem content) (v : ℕ)
    (hout : ∀ y b, loc y = some b → x < b ∨ b + 8 * n ≤ x) :
    Held n loc (update mem x v) content := by
  refine ⟨h.apart, ?_⟩
  intro y b hy i hi hlt
  have hne : b + 8 * i ≠ x := by
    rcases hout y b hy with hlow | hhigh <;> omega
  rw [update_of_ne hne]
  exact h.kept y b hy i hi hlt

/-- The first word of a block is written. -/
theorem write_first (h : Held n loc mem content) (howner : loc owner = some a) (v : ℕ) :
    Held n loc (update mem a v) content := by
  refine ⟨h.apart, ?_⟩
  intro y b hy i hi hlt
  have hne : b + 8 * i ≠ a := by
    by_cases howner' : y = owner
    · have hba : b = a := by
        rw [howner', howner] at hy
        exact (Option.some.inj hy).symm
      omega
    · rcases h.apart y owner b a hy howner howner' with hlow | hhigh <;> omega
  rw [update_of_ne hne]
  exact h.kept y b hy i hi hlt

/-- **A new block is stored**, apart from the blocks of the other owners. -/
theorem push [DecidableEq ι] (h : Held n loc mem content)
    (hapart : ∀ y b, y ≠ owner → loc y = some b → a + 8 * n ≤ b ∨ b + 8 * n ≤ a) :
    Held n (update loc owner (some a)) (fill mem a n f)
      (update content owner f) := by
  refine ⟨?_, ?_⟩
  · intro y z b c hy hz hne
    by_cases hyo : y = owner
    · subst hyo
      rw [update_self] at hy
      rw [update_of_ne hne.symm] at hz
      cases hy
      exact hapart z c hne.symm hz
    · rw [update_of_ne hyo] at hy
      by_cases hzo : z = owner
      · subst hzo
        rw [update_self] at hz
        cases hz
        exact (hapart y b hyo hy).symm
      · rw [update_of_ne hzo] at hz
        exact h.apart y z b c hy hz hne
  · intro y b hy i hi hlt
    by_cases hyo : y = owner
    · subst hyo
      rw [update_self] at hy ⊢
      cases hy
      exact fill_apply hlt
    · rw [update_of_ne hyo] at hy ⊢
      have hkept := h.kept y b hy i hi hlt
      rcases hapart y b hyo hy with hlow | hhigh
      · rw [fill_of_ge (by omega), hkept]
      · rw [fill_of_lt (by omega), hkept]

end Held

end Hxnu.Words
