import Mathlib

/-!
# Pictures in byte memory

A raster is a picture of `width * height` pixels in byte memory: a pixel has `depth` bytes, a line
of pixels starts every `pitch` bytes. The bytes of different pixels lie at different offsets as soon
as a line fits between two line starts, so storing a pixel changes no other pixel.

A set of pixels is painted when every pixel in it has a given colour and every other pixel is as it
was. Painting composes: a loop whose turns paint sets in one colour paints their union.

## Main definitions

* `Raster`, `Raster.offset`, `Raster.Inside`, `Raster.sample`.
* `Raster.Painted`: a set of pixels has been painted.

## Main results

* `Raster.offset_inj`: the bytes of different pixels differ.
* `Raster.Painted.foldlM`: a loop that paints.
-/

namespace Hxnu

/-- The geometry of a picture in memory. -/
structure Raster where
  width : ℕ
  height : ℕ
  pitch : ℕ
  /-- The bytes of a pixel. -/
  depth : ℕ

namespace Raster

variable (R : Raster)

/-- Where a pixel is stored. -/
def offset (x y : ℕ) : ℕ := y * R.pitch + x * R.depth

/-- The offsets of the bytes of the pixels. -/
def Inside (o : ℕ) : Prop := o / R.pitch < R.height ∧ o % R.pitch < R.width * R.depth

instance (o : ℕ) : Decidable (R.Inside o) := inferInstanceAs (Decidable (_ ∧ _))

/-- A byte of a pixel. -/
def sample {β : Type*} (m : ℕ → β) (x y i : ℕ) : β := m (R.offset x y + i)

variable {R} {x x' y y' i i' : ℕ}

theorem column_lt (hx : x < R.width) (hi : i < R.depth) :
    x * R.depth + i < R.width * R.depth := by
  have hle : (x + 1) * R.depth ≤ R.width * R.depth := Nat.mul_le_mul_right _ hx
  rw [Nat.add_mul, Nat.one_mul] at hle
  omega

section Fit

variable (hrow : R.width * R.depth ≤ R.pitch)

include hrow

omit hrow in
theorem line_div (hk : k < R.pitch) : (y * R.pitch + k) / R.pitch = y := by
  rw [Nat.add_comm, Nat.add_mul_div_right _ _ (by omega), Nat.div_eq_of_lt hk, Nat.zero_add]

omit hrow in
theorem line_mod (hk : k < R.pitch) : (y * R.pitch + k) % R.pitch = k := by
  rw [Nat.add_comm, Nat.add_mul_mod_self_right, Nat.mod_eq_of_lt hk]

theorem inside_line (hy : y < R.height) (hk : k < R.width * R.depth) :
    R.Inside (y * R.pitch + k) := by
  rw [Inside, line_div (hk.trans_le hrow), line_mod (hk.trans_le hrow)]
  exact ⟨hy, hk⟩

theorem inside_offset (hx : x < R.width) (hy : y < R.height) (hi : i < R.depth) :
    R.Inside (R.offset x y + i) := by
  rw [offset, Nat.add_assoc]
  exact inside_line hrow hy (column_lt hx hi)

/-- **The bytes of different pixels differ.** -/
theorem offset_inj (hx : x < R.width) (hx' : x' < R.width) (hi : i < R.depth) (hi' : i' < R.depth)
    (h : R.offset x y + i = R.offset x' y' + i') : x = x' ∧ y = y' ∧ i = i' := by
  have hlt := (column_lt hx hi).trans_le hrow
  have hlt' := (column_lt hx' hi').trans_le hrow
  rw [offset, offset, Nat.add_assoc, Nat.add_assoc] at h
  have hline := congrArg (· / R.pitch) h
  have hcolumn := congrArg (· % R.pitch) h
  simp only [line_div hlt, line_div hlt'] at hline
  simp only [line_mod hlt, line_mod hlt'] at hcolumn
  have hpixel := congrArg (· / R.depth) hcolumn
  have hbyte := congrArg (· % R.depth) hcolumn
  have hpos : 0 < R.depth := Nat.zero_lt_of_lt hi
  simp only [Nat.add_comm (_ * R.depth), Nat.add_mul_div_right _ _ hpos, Nat.div_eq_of_lt hi,
    Nat.div_eq_of_lt hi', Nat.zero_add] at hpixel
  simp only [Nat.add_comm (_ * R.depth), Nat.add_mul_mod_self_right, Nat.mod_eq_of_lt hi,
    Nat.mod_eq_of_lt hi'] at hbyte
  exact ⟨hpixel, hline, hbyte⟩

end Fit

/-! ### Painting -/

variable {β : Type*} {m m₁ m₂ : ℕ → β} {S S₁ S₂ : Set (ℕ × ℕ)} {color : ℕ → β}

/-- The pixels in `S` have a given colour, and the others are as they were. -/
structure Painted (R : Raster) (m : ℕ → β) (S : Set (ℕ × ℕ)) (color : ℕ → β) (m' : ℕ → β) :
    Prop where
  on : ∀ x y i, x < R.width → i < R.depth → (x, y) ∈ S → R.sample m' x y i = color i
  off : ∀ x y i, x < R.width → i < R.depth → (x, y) ∉ S → R.sample m' x y i = R.sample m x y i

namespace Painted

theorem empty (R : Raster) (m : ℕ → β) (color : ℕ → β) : Painted R m ∅ color m :=
  ⟨nofun, fun _ _ _ _ _ _ => rfl⟩

theorem union (h₁ : Painted R m S₁ color m₁) (h₂ : Painted R m₁ S₂ color m₂) :
    Painted R m (S₁ ∪ S₂) color m₂ := by
  refine ⟨?_, ?_⟩
  · intro x y i hx hi hmem
    by_cases hS₂ : (x, y) ∈ S₂
    · exact h₂.on x y i hx hi hS₂
    · rw [h₂.off x y i hx hi hS₂]
      exact h₁.on x y i hx hi (hmem.resolve_right hS₂)
  · intro x y i hx hi hmem
    rw [Set.mem_union, not_or] at hmem
    rw [h₂.off x y i hx hi hmem.2, h₁.off x y i hx hi hmem.1]

theorem congr (h : Painted R m S₁ color m₁) (hS : S₁ = S₂) : Painted R m S₂ color m₁ := hS ▸ h

/-- **A loop that paints.** If every turn paints a set, the loop paints their union. -/
theorem foldlM {ε : Type*} {α : Type*} {l : List α} {body : (ℕ → β) → α → Except ε (ℕ → β)}
    {T : α → Set (ℕ × ℕ)}
    (hbody : ∀ a ∈ l, ∀ m, ∃ m', body m a = .ok m' ∧ Painted R m (T a) color m') (m : ℕ → β) :
    ∃ m', l.foldlM body m = .ok m' ∧ Painted R m {p | ∃ a ∈ l, p ∈ T a} color m' := by
  induction l generalizing m with
  | nil =>
    refine ⟨m, rfl, (empty R m color).congr ?_⟩
    ext p
    simp
  | cons a l ih =>
    obtain ⟨m₁, hm₁, h₁⟩ := hbody a List.mem_cons_self m
    obtain ⟨m₂, hm₂, h₂⟩ := ih (fun b hb => hbody b (List.mem_cons_of_mem a hb)) m₁
    refine ⟨m₂, ?_, (h₁.union h₂).congr ?_⟩
    · rw [List.foldlM_cons, hm₁]
      exact hm₂
    · ext p
      simp

end Painted

end Raster

end Hxnu
