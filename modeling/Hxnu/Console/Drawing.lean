import Hxnu.Console.Framebuffer
import Hxnu.Lib.Fallible

/-!
# What the framebuffer console draws

The drawing functions of the console as paintings of sets of pixels. On a framebuffer whose lines
fit in the pitch, none of them touches a byte outside the pixels or subtracts below zero: a
rectangle inside the picture is filled, a character is a rectangle of background with the ink of its
bitmap, and scrolling moves all rows of cells up by one.

## Main definitions

* `FramebufferConsole.Laid`: the consoles of such framebuffers.
* `FramebufferConsole.cellColor`: the colour of a pixel of a cell.
* `Pictured`: the memory shows a grid of characters.

## Main results

* `FramebufferConsole.Laid.fillRect`, `FramebufferConsole.Laid.drawGlyph`: what is painted.
* `Pictured.cell`, `Pictured.scroll`: the grid after a character and after scrolling.
-/

namespace Hxnu.Console

open Word Fb List

variable {y x column row : ℕ} {grid : ℕ → ℕ → ConsoleGlyph} {m : Memory}

theorem charWidth_eq : charWidth = 12 := rfl

theorem charHeight_eq : charHeight = 16 := rfl

theorem fontScale_eq : fontScale = 2 := rfl

theorem glyphWidth_eq : glyphWidth = 5 := rfl

/-- Is there ink in a pixel of a cell? -/
def inked (ch : Char) (dx dy : ℕ) : Bool :=
  (List.finRange 7).any fun row => (List.range glyphWidth).any fun column =>
    FramebufferConsole.inkAt ch row column &&
      (decide (2 + 2 * column ≤ dx ∧ dx < 4 + 2 * column) &&
        decide (2 + 2 * (row : ℕ) ≤ dy ∧ dy < 4 + 2 * (row : ℕ)))

theorem inked_iff : inked ch dx dy = true ↔
    ∃ row : Fin 7, ∃ column < glyphWidth, FramebufferConsole.inkAt ch row column = true ∧
      (2 + 2 * column ≤ dx ∧ dx < 4 + 2 * column) ∧
      2 + 2 * (row : ℕ) ≤ dy ∧ dy < 4 + 2 * (row : ℕ) := by
  simp only [inked, any_eq_true, mem_finRange, mem_range, Bool.and_eq_true,
    decide_eq_true_eq, true_and]

/-- A space has no ink. -/
theorem inked_space (dx dy : ℕ) : inked ' ' dx dy = false := by
  rw [← Bool.not_eq_true, inked_iff]
  rintro ⟨row, column, -, hink, -⟩
  rw [FramebufferConsole.inkAt, lookupGlyph_space] at hink
  fin_cases row <;> simp at hink

/-- Offsets of lines are words. -/
theorem Framebuffer.line_lt (fb : Framebuffer) (hy : y < fb.height) (hk : k < fb.pitch) :
    y * fb.pitch + k < 2 ^ 64 := by
  have hfits := fb.fits
  have hle : (y + 1) * fb.pitch ≤ fb.height * fb.pitch := Nat.mul_le_mul_right _ hy
  rw [Nat.add_mul, Nat.one_mul, Nat.mul_comm fb.height] at hle
  omega

namespace FramebufferConsole

/-- The consoles that `new` returns for a framebuffer whose lines fit in the pitch. -/
structure Laid (c : FramebufferConsole) : Prop where
  depth_pos : 0 < c.bytesPerPixel
  row_le : c.framebuffer.width * c.bytesPerPixel ≤ c.framebuffer.pitch
  originX : c.logOriginX = 0
  originY : c.logOriginY = 0
  logWidth : c.logWidth = c.columns * charWidth
  logHeight : c.logHeight = c.rows * charHeight
  width : c.logWidth ≤ c.framebuffer.width
  height : c.logHeight ≤ c.framebuffer.height
  columns_pos : 0 < c.columns
  rows_pos : 0 < c.rows

/-- The colour of a pixel of a cell. -/
def cellColor (c : FramebufferConsole) (glyph : ConsoleGlyph) (dx dy : ℕ) : UInt32 :=
  if inked glyph.ch dx dy then c.styleColor glyph.style else c.background

/-- The pixels of a rectangle. -/
def rect (x y width height : ℕ) : Set (ℕ × ℕ) :=
  {p | (x ≤ p.1 ∧ p.1 < x + width) ∧ y ≤ p.2 ∧ p.2 < y + height}

namespace Laid

variable {c : FramebufferConsole} (h : c.Laid)

include h

theorem width_pos : 0 < c.framebuffer.width := by
  have hwidth := h.width
  have hcolumns := h.columns_pos
  rw [h.logWidth, charWidth_eq] at hwidth
  omega

theorem width_le : c.framebuffer.width ≤ c.framebuffer.pitch :=
  (Nat.le_mul_of_pos_right _ h.depth_pos).trans h.row_le

theorem pitch_pos : 0 < c.framebuffer.pitch := h.width_pos.trans_le h.width_le

theorem offset_lt (hx : x < c.framebuffer.width) (hy : y < c.framebuffer.height) :
    c.raster.offset x y < 2 ^ 64 :=
  c.framebuffer.line_lt hy
    (lt_of_lt_of_le (Nat.mul_lt_mul_of_pos_right hx h.depth_pos) h.row_le)

/-- The picture has sixteen lines or more, so its width is a word. -/
theorem width_lt : c.framebuffer.width < 2 ^ 64 := by
  have hheight := h.height
  have hrows := h.rows_pos
  rw [h.logHeight, charHeight_eq] at hheight
  have hle : c.framebuffer.pitch * 16 ≤ c.framebuffer.pitch * c.framebuffer.height :=
    Nat.mul_le_mul_left _ (by omega)
  have hwidth := h.width_le
  have hfits := c.framebuffer.fits
  omega

/-- The picture has twelve columns of pixels or more, so its height is a word. -/
theorem height_lt : c.framebuffer.height < 2 ^ 64 := by
  have hwidth := h.width
  have hcolumns := h.columns_pos
  rw [h.logWidth, charWidth_eq] at hwidth
  have hle : 12 * c.framebuffer.height ≤ c.framebuffer.pitch * c.framebuffer.height :=
    Nat.mul_le_mul_right _ (by have := h.width_le; omega)
  have hfits := c.framebuffer.fits
  omega

/-! ### Pixels and rectangles -/

section

variable (hx : x < c.framebuffer.width) (hy : y < c.framebuffer.height)

include hx hy

/-- Storing a colour paints one pixel. -/
theorem storeColor (color : UInt32) (m : Memory) :
    ∃ m', c.storeColor m (c.raster.offset x y) color c.bytesPerPixel = .ok m' ∧
      c.raster.Painted m {(x, y)} (colorByte color) m' := by
  -- The bytes below `n` are stored.
  obtain ⟨m', hm', rfl⟩ := Fallible.foldlM_range
    (f := fun m i => c.storeByte m (c.raster.offset x y + i) (colorByte color i))
    (P := fun n m' => m' = fun o =>
      if c.raster.offset x y ≤ o ∧ o < c.raster.offset x y + n then
        colorByte color (o - c.raster.offset x y) else m o) (n := c.bytesPerPixel) (s := m)
    (by
      rintro n hn _ rfl
      rw [FramebufferConsole.storeByte, if_pos (Raster.inside_offset h.row_le hx hy hn)]
      refine ⟨_, rfl, ?_⟩
      funext o
      by_cases ho : o = c.raster.offset x y + n
      · subst ho
        rw [Function.update_self, if_pos (by omega), Nat.add_sub_cancel_left]
      · rw [Function.update_of_ne ho]
        refine if_congr ?_ rfl rfl
        omega)
    (by
      funext o
      rw [if_neg (by omega)])
  refine ⟨_, hm', ?_, ?_⟩
  · rintro x' y' i - hi ⟨rfl, rfl⟩
    have hi' : i < c.bytesPerPixel := hi
    rw [Raster.sample, if_pos (by omega), Nat.add_sub_cancel_left]
  · intro x' y' i hx' hi hne
    refine if_neg ?_
    rintro ⟨hle, hlt⟩
    refine hne ?_
    have heq : c.raster.offset x' y' + i =
        c.raster.offset x y + (c.raster.offset x' y' + i - c.raster.offset x y) := by omega
    have hbyte : c.raster.offset x' y' + i - c.raster.offset x y < c.bytesPerPixel := by omega
    obtain ⟨hx, hy, -⟩ := Raster.offset_inj h.row_le hx' hx hi hbyte heq
    exact Set.mem_singleton_iff.mpr (Prod.ext hx hy)

theorem writePixel (color : UInt32) (m : Memory) : ∃ m', c.writePixel m x y color = .ok m' ∧
      c.raster.Painted m {(x, y)} (colorByte color) m' := by
  have hlt : y * c.framebuffer.pitch + x * c.bytesPerPixel < 2 ^ 64 := h.offset_lt hx hy
  have hoffset : satAdd (satMul y c.framebuffer.pitch) (satMul x c.bytesPerPixel) =
      c.raster.offset x y := by
    rw [satMul_of_lt (by omega), satMul_of_lt (by omega), satAdd_of_lt hlt]
    rfl
  rw [FramebufferConsole.writePixel, if_neg (by omega), hoffset]
  exact h.storeColor hx hy color m

end

omit h in
/-- A loop that paints the pixels of a rectangle. -/
theorem painted_rect {w k : ℕ} {color : ℕ → UInt8} {body : ℕ → Memory → ℕ → Except Fault Memory}
    (hbody : ∀ y' ∈ List.range' y k, ∀ i ∈ List.range w, ∀ m, ∃ m', body y' m i = .ok m' ∧
      c.raster.Painted m {(x + i, y')} color m') (m : Memory) :
    ∃ m', (List.range' y k).foldlM (fun m y' => (List.range w).foldlM (body y') m) m = .ok m' ∧
      c.raster.Painted m (rect x y w k) color m' := by
  obtain ⟨m', hm', hpainted⟩ := Raster.Painted.foldlM (fun y' hy' m =>
    Raster.Painted.foldlM (T := fun i => {(x + i, y')}) (hbody y' hy') m) m
  refine ⟨m', hm', hpainted.congr ?_⟩
  ext ⟨px, py⟩
  simp only [rect, Set.mem_ofPred_eq, Set.mem_singleton_iff, mem_range, mem_range'_1,
    Prod.mk.injEq]
  constructor
  · rintro ⟨y', hy', i, hi, rfl, rfl⟩
    omega
  · rintro ⟨hpx, hpy⟩
    exact ⟨py, hpy, px - x, by omega, by omega, rfl⟩

/-- **Filling a rectangle** inside the picture. -/
theorem fillRect {w k : ℕ} (hx : x + w ≤ c.framebuffer.width)
    (hy : y + k ≤ c.framebuffer.height) (color : UInt32) (m : Memory) :
    ∃ m', c.fillRect m x y w k color = .ok m' ∧
      c.raster.Painted m (rect x y w k) (colorByte color) m' := by
  have hmaxX : min (satAdd x w) c.framebuffer.width = x + w := by
    rw [satAdd_of_lt (lt_of_le_of_lt hx h.width_lt), min_eq_left hx]
  have hmaxY : min (satAdd y k) c.framebuffer.height = y + k := by
    rw [satAdd_of_lt (lt_of_le_of_lt hy h.height_lt), min_eq_left hy]
  rw [FramebufferConsole.fillRect]
  simp only [hmaxX, hmaxY, Nat.add_sub_cancel_left]
  rw [if_neg (by omega)]
  split_ifs with hempty hfour
  · refine ⟨m, rfl, (Raster.Painted.empty ..).congr ?_⟩
    ext p
    simp only [rect, Set.mem_ofPred_eq, Set.mem_empty_iff_false, false_iff]
    omega
  · refine painted_rect (fun y' hy' i hi m => ?_) m
    rw [mem_range] at hi
    rw [mem_range'_1] at hy'
    have hoffset : (y' * c.framebuffer.pitch + x * 4) % 2 ^ 64 + i * 4 =
        c.raster.offset (x + i) y' := by
      have hlt := h.offset_lt (x := x) (y := y') (by omega) (by omega)
      rw [Raster.offset] at hlt ⊢
      simp only [raster, hfour] at hlt ⊢
      rw [Nat.mod_eq_of_lt hlt]
      omega
    rw [hoffset, ← hfour]
    exact h.storeColor (by omega) (by omega) color m
  · simp only [range'_eq_map_range (s := x), foldlM_map]
    refine painted_rect (fun y' hy' i hi m => ?_) m
    rw [mem_range] at hi
    rw [mem_range'_1] at hy'
    exact h.writePixel (by omega) (by omega) color m

/-- **Drawing a character** paints the squares of its ink. -/
theorem drawGlyph (hx : x + 10 ≤ c.framebuffer.width)
    (hy : y + 14 ≤ c.framebuffer.height) (ch : Char) (color : UInt32) (m : Memory) :
    ∃ m', c.drawGlyph m x y ch color fontScale = .ok m' ∧
      c.raster.Painted m {p | ∃ row ∈ List.finRange 7, ∃ column ∈ List.range glyphWidth,
        inkAt ch row column = true ∧ p ∈ rect (x + 2 * column) (y + 2 * (row : ℕ)) 2 2}
        (colorByte color) m' := by
  have hwidth := h.width_lt
  have hheight := h.height_lt
  refine Raster.Painted.foldlM (T := fun row => {p | ∃ column ∈ List.range glyphWidth,
    inkAt ch row column = true ∧ p ∈ rect (x + 2 * column) (y + 2 * (row : ℕ)) 2 2}) ?_ m
  intro row _ m
  refine Raster.Painted.foldlM (T := fun column => {p | inkAt ch row column = true ∧
    p ∈ rect (x + 2 * column) (y + 2 * (row : ℕ)) 2 2}) ?_ m
  intro column hcolumn m
  rw [mem_range, glyphWidth_eq] at hcolumn
  have hrow := row.isLt
  split_ifs with hink
  · rw [fontScale_eq, satAdd_of_lt (by omega), satAdd_of_lt (by omega), Nat.mul_comm column,
      Nat.mul_comm (row : ℕ)]
    obtain ⟨m', hm', hpainted⟩ := h.fillRect (x := x + 2 * column) (y := y + 2 * (row : ℕ))
      (w := 2) (k := 2) (by omega) (by omega) color m
    refine ⟨m', hm', hpainted.congr ?_⟩
    ext p
    simp [hink]
  · refine ⟨m, rfl, (Raster.Painted.empty ..).congr ?_⟩
    ext p
    simp [hink]

end Laid

end FramebufferConsole

/-! ### Grids of characters -/

open FramebufferConsole

/-- The memory shows a grid of characters. -/
def Pictured (c : FramebufferConsole) (m : Memory) (grid : ℕ → ℕ → ConsoleGlyph) : Prop :=
  ∀ row < c.rows, ∀ column < c.columns, ∀ dx < charWidth, ∀ dy < charHeight,
    ∀ i < c.bytesPerPixel,
      c.raster.sample m (column * charWidth + dx) (row * charHeight + dy) i =
        colorByte (c.cellColor (grid row column) dx dy) i

theorem Pictured.congr (hpic : Pictured c m grid)
    (hgrid : ∀ row < c.rows, ∀ column < c.columns, grid row column = grid' row column) :
    Pictured c m grid' := by
  intro row hrow column hcolumn
  rw [← hgrid row hrow column hcolumn]
  exact hpic row hrow column hcolumn

/-- An empty cell is background. -/
theorem cellColor_empty (c : FramebufferConsole) (dx dy : ℕ) :
    c.cellColor .empty dx dy = c.background := by
  rw [cellColor, ConsoleGlyph.empty, inked_space]
  rfl

section Cells

variable {c : FramebufferConsole} (h : c.Laid)

include h

section

variable (hrow : row < c.rows) (hcolumn : column < c.columns)

include hrow hcolumn

/-- The pixels of a cell lie in the picture. -/
theorem cell_le :
    column * 12 + 12 ≤ c.framebuffer.width ∧ row * 16 + 16 ≤ c.framebuffer.height := by
  have hwidth := h.width
  have hheight := h.height
  rw [h.logWidth, charWidth_eq] at hwidth
  rw [h.logHeight, charHeight_eq] at hheight
  omega

/-- What drawing a character in a cell does. -/
structure Drawn (c : FramebufferConsole) (m : Memory) (row column : ℕ) (glyph : ConsoleGlyph)
    (m' : Memory) : Prop where
  cell : ∀ dx < charWidth, ∀ dy < charHeight, ∀ i < c.bytesPerPixel,
    c.raster.sample m' (column * charWidth + dx) (row * charHeight + dy) i =
      colorByte (c.cellColor glyph dx dy) i
  other : ∀ x y i, x < c.framebuffer.width → i < c.bytesPerPixel →
    ¬ (x / charWidth = column ∧ y / charHeight = row) →
      c.raster.sample m' x y i = c.raster.sample m x y i

/-- The background of a cell, with the ink of a character or without ink if there is none. -/
theorem Drawn.of_painted
    (hback : c.raster.Painted m (rect (column * 12) (row * 16) 12 16) (colorByte c.background) m₁)
    (hpainted : c.raster.Painted m₁ S (colorByte (c.styleColor glyph.style)) m₂)
    (hink : ∀ x y, (x, y) ∈ S ↔ (column * 12 ≤ x ∧ row * 16 ≤ y) ∧ inked glyph.ch (x - column * 12)
      (y - row * 16) = true) : Drawn c m row column glyph m₂ := by
  have hle := cell_le h hrow hcolumn
  have hlt {dx dy : ℕ} (hinked : inked glyph.ch dx dy = true) : dx < 12 ∧ dy < 16 := by
    obtain ⟨r, col, hcol, -, ⟨-, hdx⟩, -, hdy⟩ := inked_iff.mp hinked
    have hr := r.isLt
    rw [glyphWidth_eq] at hcol
    omega
  refine ⟨?_, ?_⟩
  · intro dx hdx dy hdy i hi
    rw [charWidth_eq, charHeight_eq] at *
    have hx : column * 12 + dx < c.raster.width := by
      change _ < c.framebuffer.width
      omega
    have hmem := hink (column * 12 + dx) (row * 16 + dy)
    rw [Nat.add_sub_cancel_left, Nat.add_sub_cancel_left,
      and_iff_right ⟨Nat.le_add_right _ _, Nat.le_add_right _ _⟩] at hmem
    rw [cellColor]
    split_ifs with hinked
    · exact hpainted.on _ _ i hx hi (hmem.mpr hinked)
    · rw [hpainted.off _ _ i hx hi fun hin => hinked (hmem.mp hin)]
      refine hback.on _ _ i hx hi ?_
      simp only [rect, Set.mem_ofPred_eq]
      omega
  · intro x y i hx hi hne
    rw [charWidth_eq, charHeight_eq] at hne
    have hout : (x, y) ∉ rect (column * 12) (row * 16) 12 16 := by
      simp only [rect, Set.mem_ofPred_eq]
      omega
    rw [hpainted.off x y i hx hi ?_, hback.off x y i hx hi hout]
    intro hin
    obtain ⟨⟨hx', hy'⟩, hinked⟩ := (hink x y).mp hin
    have hbounds := hlt hinked
    exact hout (by simp only [rect, Set.mem_ofPred_eq]; omega)

/-- **Drawing a character in a cell.** -/
theorem Laid.drawCell (glyph : ConsoleGlyph) (m : Memory) :
    ∃ m₁ m₂, c.fillRect m (c.logOriginX + column * charWidth) (c.logOriginY + row * charHeight)
        charWidth charHeight c.background = .ok m₁ ∧
      c.drawGlyph m₁ (c.logOriginX + column * charWidth + fontScale)
        (c.logOriginY + row * charHeight + fontScale) glyph.ch (c.styleColor glyph.style)
        fontScale = .ok m₂ ∧
      Drawn c m row column glyph m₂ ∧ (glyph.ch = ' ' → Drawn c m row column glyph m₁) := by
  have hle := cell_le h hrow hcolumn
  rw [h.originX, h.originY, Nat.zero_add, Nat.zero_add, charWidth_eq, charHeight_eq, fontScale_eq]
  obtain ⟨m₁, hm₁, hback⟩ := h.fillRect hle.1 hle.2 c.background m
  obtain ⟨m₂, hm₂, hpainted⟩ := h.drawGlyph (x := column * 12 + 2) (y := row * 16 + 2) (by omega)
    (by omega) glyph.ch (c.styleColor glyph.style) m₁
  refine ⟨m₁, m₂, hm₁, hm₂, .of_painted h hrow hcolumn hback hpainted ?_, fun hspace => ?_⟩
  · intro x y
    rw [inked_iff]
    simp only [rect, Set.mem_ofPred_eq, mem_finRange, mem_range, true_and]
    constructor
    · rintro ⟨r, col, hcol, hink, hx, hy⟩
      exact ⟨by omega, r, col, hcol, hink, by omega, by omega⟩
    · rintro ⟨⟨hx', hy'⟩, r, col, hcol, hink, hx, hy⟩
      exact ⟨r, col, hcol, hink, by omega, by omega⟩
  · refine .of_painted h hrow hcolumn hback (S := ∅) (.empty ..) fun x y => ?_
    rw [hspace, inked_space]
    simp

end

/-- **A character appears in the grid.** -/
theorem Pictured.cell (hpic : Pictured c m grid) (hdrawn : Drawn c m row column glyph m') :
    Pictured c m' fun r col => if r = row ∧ col = column then glyph else grid r col := by
  intro r hr col hcol dx hdx dy hdy i hi
  have hle := cell_le h hr hcol
  beta_reduce
  split_ifs with hsame
  · rw [hsame.1, hsame.2]
    exact hdrawn.cell dx hdx dy hdy i hi
  · rw [hdrawn.other _ _ i ?_ hi ?_]
    · exact hpic r hr col hcol dx hdx dy hdy i hi
    · rw [charWidth_eq] at *
      omega
    · rw [charWidth_eq, charHeight_eq] at *
      omega

/-- **The background of all cells.** -/
theorem Pictured.clear (m : Memory) :
    ∃ m', c.fillRect m c.logOriginX c.logOriginY c.logWidth c.logHeight c.background = .ok m' ∧
      Pictured c m' fun _ _ => .empty := by
  have hwidth := h.width
  have hheight := h.height
  rw [h.originX, h.originY]
  obtain ⟨m', hm', hpainted⟩ := h.fillRect (x := 0) (y := 0) (w := c.logWidth) (k := c.logHeight)
    (by omega) (by omega) c.background m
  refine ⟨m', hm', ?_⟩
  intro row hrow column hcolumn dx hdx dy hdy i hi
  have hle := cell_le h hrow hcolumn
  rw [cellColor_empty]
  rw [charWidth_eq] at hdx ⊢
  rw [charHeight_eq] at hdy ⊢
  refine hpainted.on _ _ i (by change _ < c.framebuffer.width; omega) hi ?_
  simp only [rect, Set.mem_ofPred_eq, h.logWidth, h.logHeight, charWidth_eq, charHeight_eq]
  omega

/-! ### Scrolling -/

/-- A copy of the line `y + 16` to the line `y`. -/
theorem Laid.copy (hy : y + charHeight < c.framebuffer.height) (m : Memory) :
    ∃ m', c.copy m (((y + charHeight) * c.framebuffer.pitch + c.logOriginX * c.bytesPerPixel) %
        2 ^ 64) ((y * c.framebuffer.pitch + c.logOriginX * c.bytesPerPixel) % 2 ^ 64)
        (c.logWidth * c.bytesPerPixel) = .ok m' ∧
      ∀ x y' i, x < c.logWidth → i < c.bytesPerPixel → c.raster.sample m' x y' i =
        c.raster.sample m x (if y' = y then y + charHeight else y') i := by
  have hpitch := h.pitch_pos
  have hline : c.logWidth * c.bytesPerPixel ≤ c.framebuffer.width * c.bytesPerPixel :=
    Nat.mul_le_mul_right _ h.width
  have hrow := h.row_le
  have hinside {z k : ℕ} (hz : z < c.framebuffer.height)
      (hk : k < c.logWidth * c.bytesPerPixel) :
      c.raster.Inside (z * c.framebuffer.pitch + k) :=
    Raster.inside_line h.row_le hz (hk.trans_le hline)
  have hword {z : ℕ} (hz : z < c.framebuffer.height) :
      (z * c.framebuffer.pitch + c.logOriginX * c.bytesPerPixel) % 2 ^ 64 =
        z * c.framebuffer.pitch := by
    have hlt := c.framebuffer.line_lt hz hpitch
    rw [h.originX, Nat.zero_mul]
    exact Nat.mod_eq_of_lt hlt
  have hapart : y * c.framebuffer.pitch + c.logWidth * c.bytesPerPixel ≤
      (y + charHeight) * c.framebuffer.pitch := by
    rw [charHeight_eq, Nat.add_mul]
    omega
  rw [hword hy, hword (by omega), FramebufferConsole.copy, if_neg (by omega)]
  refine ⟨_, if_pos ?_, ?_⟩
  · rw [all_eq_true]
    intro k hk
    rw [mem_range] at hk
    rw [Bool.and_eq_true, decide_eq_true_eq, decide_eq_true_eq]
    exact ⟨hinside hy hk, hinside (by omega) hk⟩
  · intro x y' i hx hi
    have hbyte : x * c.bytesPerPixel + i < c.logWidth * c.bytesPerPixel := by
      have hle : (x + 1) * c.bytesPerPixel ≤ c.logWidth * c.bytesPerPixel :=
        Nat.mul_le_mul_right _ hx
      rw [Nat.add_mul, Nat.one_mul] at hle
      omega
    have hoffset (z : ℕ) : c.raster.offset x z + i =
        z * c.framebuffer.pitch + (x * c.bytesPerPixel + i) := Nat.add_assoc ..
    rw [Raster.sample, Raster.sample, hoffset, hoffset]
    by_cases hsame : y' = y
    · subst hsame
      rw [if_pos (by omega), if_pos rfl]
      congr 1
      omega
    · rw [if_neg hsame, if_neg]
      rintro ⟨hge, hlt⟩
      rcases Nat.lt_or_gt_of_ne hsame with hless | hmore
      · have hle : (y' + 1) * c.framebuffer.pitch ≤ y * c.framebuffer.pitch :=
          Nat.mul_le_mul_right _ hless
        rw [Nat.add_mul, Nat.one_mul] at hle
        omega
      · have hle : (y + 1) * c.framebuffer.pitch ≤ y' * c.framebuffer.pitch :=
          Nat.mul_le_mul_right _ hmore
        rw [Nat.add_mul, Nat.one_mul] at hle
        omega

/-- The loop that moves the lines up, after `n` lines. -/
theorem Laid.copyLines (hn : n + charHeight ≤ c.logHeight) (m : Memory) :
    ∃ m', (List.range n).foldlM (fun m y => c.copy m
        (((y + charHeight) * c.framebuffer.pitch + c.logOriginX * c.bytesPerPixel) % 2 ^ 64)
        ((y * c.framebuffer.pitch + c.logOriginX * c.bytesPerPixel) % 2 ^ 64)
        (c.logWidth * c.bytesPerPixel)) m = .ok m' ∧
      ∀ x y i, x < c.logWidth → i < c.bytesPerPixel → c.raster.sample m' x y i =
        c.raster.sample m x (if y < n then y + charHeight else y) i := by
  have hheight := h.height
  refine Fallible.foldlM_range (P := fun n m' => ∀ x y i, x < c.logWidth → i < c.bytesPerPixel →
    c.raster.sample m' x y i = c.raster.sample m x (if y < n then y + charHeight else y) i) ?_ ?_
  · intro k hk m₁ hsample₁
    obtain ⟨m₂, hm₂, hsample₂⟩ := Laid.copy h (y := k) (by omega) m₁
    refine ⟨m₂, hm₂, fun x y i hx hi => ?_⟩
    rw [hsample₂ x y i hx hi, hsample₁ _ _ i hx hi]
    congr 1
    have hpos : 0 < charHeight := by decide
    split_ifs <;> omega
  · intro x y i _ _
    rw [if_neg (Nat.not_lt_zero y)]

/-- **The rows of the grid move up.** -/
theorem Pictured.scroll (hpic : Pictured c m grid) :
    ∃ m₁ m₂, (List.range (c.logHeight - charHeight)).foldlM (fun m y => c.copy m
        (((y + charHeight) * c.framebuffer.pitch + c.logOriginX * c.bytesPerPixel) % 2 ^ 64)
        ((y * c.framebuffer.pitch + c.logOriginX * c.bytesPerPixel) % 2 ^ 64)
        (c.logWidth * c.bytesPerPixel)) m = .ok m₁ ∧
      c.fillRect m₁ 0 (c.logHeight - charHeight) c.logWidth charHeight c.background = .ok m₂ ∧
      Pictured c m₂ fun row column =>
        if row + 1 < c.rows then grid (row + 1) column else .empty := by
  have hrows := h.rows_pos
  have hlogHeight := h.logHeight
  have hwidth := h.width
  have hheight := h.height
  rw [charHeight_eq] at hlogHeight
  obtain ⟨m₁, hm₁, hsample⟩ := Laid.copyLines h (n := c.logHeight - charHeight)
    (by rw [charHeight_eq]; omega) m
  obtain ⟨m₂, hm₂, hpainted⟩ := h.fillRect (x := 0) (y := c.logHeight - charHeight)
    (w := c.logWidth) (k := charHeight) (by omega) (by rw [charHeight_eq]; omega) c.background m₁
  refine ⟨m₁, m₂, hm₁, hm₂, ?_⟩
  intro row hrow column hcolumn dx hdx dy hdy i hi
  have hlogWidth := h.logWidth
  rw [charWidth_eq] at hdx hlogWidth
  rw [charHeight_eq] at hdy
  have hx : column * charWidth + dx < c.logWidth := by
    rw [charWidth_eq]
    omega
  have hx' : column * charWidth + dx < c.raster.width := hx.trans_le hwidth
  beta_reduce
  split_ifs with hlast
  · rw [hpainted.off _ _ i hx' hi ?_, hsample _ _ i hx hi, if_pos (by rw [charHeight_eq]; omega)]
    · have hshift : row * charHeight + dy + charHeight = (row + 1) * charHeight + dy := by
        rw [Nat.add_mul, Nat.one_mul]
        omega
      rw [hshift]
      exact hpic (row + 1) hlast column hcolumn dx hdx dy hdy i hi
    · simp only [rect, Set.mem_ofPred_eq, charHeight_eq]
      omega
  · rw [cellColor_empty]
    refine hpainted.on _ _ i hx' hi ?_
    simp only [rect, Set.mem_ofPred_eq, charHeight_eq]
    omega

end Cells

end Hxnu.Console
