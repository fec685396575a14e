import Hxnu.Console.Tty
import Hxnu.Lib.Fallible
import Hxnu.Lib.Terminal

/-!
# The cells of a virtual console

A virtual console wraps, scrolls and expands tabs in an array of cells. It is an implementation of a
terminal (`Terminal`): the array holds the grid, row by row, and no access leaves it.

## Main definitions

* `steps`: the steps of a terminal that a text stands for.
* `VirtualConsole.Holds`: a virtual console as a terminal.

## Main results

* `text_simulates`: an implementation of the steps handles texts like the terminal.
* `VirtualConsole.Holds.newLine`, `VirtualConsole.Holds.writeChar`,
  `VirtualConsole.Holds.writeStyle`: what the virtual console does is what the terminal does.
-/

namespace Hxnu.Console

open Word Tty Function List

/-! ### Texts -/

/-- The steps of a terminal that a text stands for. -/
def steps (style : ConsoleStyle) (text : List Char) : List (Terminal.Step ConsoleGlyph) :=
  text.flatMap fun ch =>
    if ch = '\r' then []
    else if ch = '\n' then [.newLine]
    else if ch = '\t' then List.replicate 4 (.put ⟨' ', style⟩)
    else [.put ⟨ch, style⟩]

section Texts

variable {σ : Type} (newLine : σ → Except Fault σ) (put : ConsoleGlyph → σ → Except Fault σ)

/-- A step, by what the two kinds of steps do. -/
def perform (s : σ) : Terminal.Step ConsoleGlyph → Except Fault σ
  | .newLine => newLine s
  | .put x => put x s

/-- A loop over the characters of a text is a loop over its steps. -/
theorem foldlM_steps (style : ConsoleStyle) (text : List Char) (s : σ) :
    text.foldlM (fun s ch =>
      if ch = '\r' then .ok s
      else if ch = '\n' then newLine s
      else if ch = '\t' then (List.range 4).foldlM (fun s _ => put ⟨' ', style⟩ s) s
      else put ⟨ch, style⟩ s) s = (steps style text).foldlM (perform newLine put) s := by
  induction text generalizing s with
  | nil => rfl
  | cons ch text ih =>
    rw [foldlM_cons, steps, flatMap_cons, foldlM_append]
    refine congrArg₂ Bind.bind ?_ (funext fun s => ih s)
    split_ifs
    · rfl
    · rw [foldlM_cons]
      exact (bind_pure _).symm
    · simp only [range_succ, range_zero, nil_append, foldlM_append,
        foldlM_cons, foldlM_nil, replicate_succ, replicate_zero, perform,
        bind_pure, bind_assoc]
    · rw [foldlM_cons]
      exact (bind_pure _).symm

/-- **An implementation of the steps handles texts like the terminal.** -/
theorem text_simulates {columns rows : ℕ} {R : σ → Terminal ConsoleGlyph → Prop}
    (hpos : 0 < columns)
    (hnewLine : ∀ s (t : Terminal ConsoleGlyph), t.InRange columns rows → R s t →
      ∃ s', newLine s = .ok s' ∧ R s' (t.newLine rows .empty))
    (hput : ∀ s (t : Terminal ConsoleGlyph) x, t.InRange columns rows → R s t →
      ∃ s', put x s = .ok s' ∧ R s' (t.put columns rows .empty x))
    {s : σ} {t : Terminal ConsoleGlyph} (hrange : t.InRange columns rows) (h : R s t)
    (style : ConsoleStyle) (text : List Char) :
    ∃ s', text.foldlM (fun s ch =>
      if ch = '\r' then .ok s
      else if ch = '\n' then newLine s
      else if ch = '\t' then (List.range 4).foldlM (fun s _ => put ⟨' ', style⟩ s) s
      else put ⟨ch, style⟩ s) s = .ok s' ∧
      R s' (t.run columns rows .empty (steps style text)) := by
  rw [foldlM_steps]
  refine Terminal.simulates hpos ?_ hrange h _
  rintro s t (_ | x) hrange h
  · exact hnewLine s t hrange h
  · exact hput s t x hrange h

end Texts

/-! ### The cells of a virtual console -/

/-- A virtual console of a given size holds a terminal in its cells. -/
structure VirtualConsole.Holds (columns rows : ℕ) (v : VirtualConsole) (t : Terminal ConsoleGlyph) :
    Prop where
  width : v.columns = columns
  height : v.rows = rows
  cursorColumn : v.cursorColumn = t.column
  cursorRow : v.cursorRow = t.row
  cells : ∀ row < rows, ∀ column < columns, v.cells (row * columns + column) = t.grid row column

/-- The sizes of the consoles. -/
structure Sized (columns rows : ℕ) : Prop where
  columns_pos : 0 < columns
  columns_le : columns ≤ maxColumns
  rows_pos : 0 < rows
  rows_le : rows ≤ maxRows

section Cells

variable {columns rows : ℕ} {v : VirtualConsole} {t : Terminal ConsoleGlyph}

theorem index_lt (hrow : row < rows) (hcolumn : column < columns) :
    row * columns + column < rows * columns := by
  have hle : (row + 1) * columns ≤ rows * columns := Nat.mul_le_mul_right _ hrow
  rw [Nat.add_mul, Nat.one_mul] at hle
  omega

theorem index_inj (hcolumn : column < columns) (hcolumn' : column' < columns)
    (h : row * columns + column = row' * columns + column') : row = row' ∧ column = column' := by
  have hpos : 0 < columns := Nat.zero_lt_of_lt hcolumn
  have hdiv := congrArg (· / columns) h
  have hmod := congrArg (· % columns) h
  simp only [Nat.add_comm (_ * columns), Nat.add_mul_div_right _ _ hpos, Nat.div_eq_of_lt hcolumn,
    Nat.div_eq_of_lt hcolumn', Nat.zero_add] at hdiv
  simp only [Nat.add_comm (_ * columns), Nat.add_mul_mod_self_right, Nat.mod_eq_of_lt hcolumn,
    Nat.mod_eq_of_lt hcolumn'] at hmod
  exact ⟨hdiv, hmod⟩

theorem Sized.clamp_columns (h : Sized columns rows) : max (min columns maxColumns) 1 = columns :=
  (congrArg (max · 1) (min_eq_left h.columns_le)).trans (max_eq_left h.columns_pos)

theorem Sized.clamp_rows (h : Sized columns rows) : max (min rows maxRows) 1 = rows :=
  (congrArg (max · 1) (min_eq_left h.rows_le)).trans (max_eq_left h.rows_pos)

/-- A console that has just been configured is empty. -/
theorem VirtualConsole.Holds.configure (v : VirtualConsole) (h : Sized columns rows) :
    (v.configure columns rows).Holds columns rows ⟨fun _ _ => .empty, 0, 0⟩ :=
  ⟨h.clamp_columns, h.clamp_rows, rfl, rfl, fun _ _ _ _ => rfl⟩

theorem Sized.cells_le (h : Sized columns rows) : rows * columns ≤ maxCells := by
  rw [maxCells, Nat.mul_comm maxColumns]
  exact Nat.mul_le_mul h.rows_le h.columns_le

/-- The cells while the rows move up: the first `n` have been copied. -/
def VirtualConsole.shifted (v : VirtualConsole) (n : ℕ) : VirtualConsole :=
  { v with cells := fun i => if i < n then v.cells (i + v.columns) else v.cells i }

theorem VirtualConsole.copyCell_shifted (hn : n + v.columns < maxCells) :
    (v.shifted n).copyCell n (n + v.columns) = .ok (v.shifted (n + 1)) := by
  rw [VirtualConsole.copyCell, if_pos ⟨hn, by omega⟩]
  congr 2
  funext i
  by_cases hi : i = n
  · subst hi
    rw [update_self, if_pos (Nat.lt_succ_self i)]
    exact if_neg (by omega)
  · rw [update_of_ne hi]
    exact if_congr (by omega) rfl rfl

/-- The loops of `scroll_up`. -/
theorem VirtualConsole.shift_rows (hcells : v.rows * v.columns ≤ maxCells) :
    (List.range' 1 (v.rows - 1)).foldlM (fun v row =>
      (List.range v.columns).foldlM (fun v column =>
        v.copyCell ((row - 1) * v.columns + column) (row * v.columns + column)) v) v =
      .ok (v.shifted ((v.rows - 1) * v.columns)) := by
  have hturn (row n : ℕ) (hrow : row + 1 < v.rows) (hn : n < v.columns) :
      (v.shifted (row * v.columns + n)).copyCell ((1 + row - 1) * v.columns + n)
        ((1 + row) * v.columns + n) = .ok (v.shifted (row * v.columns + (n + 1))) := by
    have hle : (row + 1 + 1) * v.columns ≤ v.rows * v.columns := Nat.mul_le_mul_right _ hrow
    have hsrc : (1 + row) * v.columns + n = row * v.columns + n + v.columns := by
      rw [Nat.add_mul, Nat.one_mul]
      omega
    rw [Nat.add_sub_cancel_left, hsrc]
    refine VirtualConsole.copyCell_shifted ?_
    rw [Nat.add_mul, Nat.add_mul, Nat.one_mul] at hle
    omega
  have hrow (row : ℕ) (hrow : row < v.rows - 1) (v' : VirtualConsole)
      (hv' : v' = v.shifted (row * v.columns)) :
      ∃ v'', (List.range v'.columns).foldlM (fun v column =>
          v.copyCell ((1 + row - 1) * v.columns + column) ((1 + row) * v.columns + column)) v' =
        .ok v'' ∧ v'' = v.shifted ((row + 1) * v.columns) := by
    subst hv'
    rw [Nat.add_mul, Nat.one_mul]
    refine Fallible.foldlM_range (P := fun n v' => v' = v.shifted (row * v.columns + n)) ?_ rfl
    rintro n hn v' rfl
    exact ⟨_, hturn row n (by omega) hn, rfl⟩
  have hzero : v = v.shifted (0 * v.columns) := by
    simp [VirtualConsole.shifted]
  obtain ⟨v', hv', rfl⟩ := Fallible.foldlM_range
    (P := fun row v' => v' = v.shifted (row * v.columns)) hrow hzero
  rw [range'_eq_map_range, foldlM_map]
  exact hv'

/-- The cells of a row. -/
theorem row_iff (hcolumn : column < columns) :
    (row * columns ≤ row' * columns + column ∧ row' * columns + column < row * columns + columns) ↔
      row' = row := by
  constructor
  · rintro ⟨hle, hlt⟩
    have hindex : row' * columns + column =
        row * columns + (row' * columns + column - row * columns) := by omega
    exact (index_inj hcolumn (by omega) hindex).1
  · rintro rfl
    omega

theorem VirtualConsole.clearRow_of_le (h : row * v.columns + v.columns ≤ maxCells) :
    v.clearRow row = .ok { v with cells := fun i =>
      if row * v.columns ≤ i ∧ i < row * v.columns + v.columns then .empty else v.cells i } :=
  if_neg (not_lt.mpr h)

/-- `scroll_up`: the rows move up and the last one is cleared. -/
theorem VirtualConsole.scrollUp_eq (hcells : v.rows * v.columns ≤ maxCells)
    (hlast : v.cursorRow + 1 = v.rows) :
    v.scrollUp = .ok { v with cells := fun i =>
      if (v.rows - 1) * v.columns ≤ i ∧ i < (v.rows - 1) * v.columns + v.columns then .empty
      else (v.shifted ((v.rows - 1) * v.columns)).cells i } := by
  have hend : (v.rows - 1) * v.columns + v.columns = v.rows * v.columns := by
    rw [Nat.sub_mul, Nat.one_mul, Nat.sub_add_cancel (Nat.le_mul_of_pos_left _ (by omega))]
  rw [VirtualConsole.scrollUp]
  split_ifs with hone
  · have hrows : v.rows - 1 = 0 := by omega
    rw [hrows] at hend ⊢
    rw [VirtualConsole.clearRow_of_le (hend.trans_le hcells)]
    simp only [VirtualConsole.shifted, Nat.zero_mul, Nat.not_lt_zero, if_false]
  · have hclear : (v.shifted ((v.rows - 1) * v.columns)).clearRow
        ((v.shifted ((v.rows - 1) * v.columns)).rows - 1) = _ :=
      VirtualConsole.clearRow_of_le (hend.trans_le hcells)
    have hrow : v.rows - 1 = v.cursorRow := by omega
    rw [VirtualConsole.shift_rows hcells]
    simp only [bind, Except.bind, hclear, pure, Except.pure]
    simp only [VirtualConsole.shifted, hrow]

/-- **A new line** in the cells. -/
theorem VirtualConsole.Holds.newLine (h : v.Holds columns rows t) (hsize : Sized columns rows)
    (hrange : t.InRange columns rows) :
    ∃ v', v.newLine = .ok v' ∧ v'.Holds columns rows (t.newLine rows .empty) := by
  obtain ⟨rfl, rfl, -, hrow, hcells⟩ := h
  have hlt := hrange.row
  rw [VirtualConsole.newLine, Terminal.newLine]
  simp only [hrow]
  split_ifs with hlast
  · refine ⟨_, VirtualConsole.scrollUp_eq hsize.cells_le (by simp only; omega), rfl, rfl, rfl,
      by simp only; omega, ?_⟩
    intro row hr column hc
    simp only [row_iff hc, VirtualConsole.shifted]
    by_cases hr' : row + 1 < v.rows
    · have hmoved : row * v.columns + column < (v.rows - 1) * v.columns :=
        index_lt (by omega) hc
      rw [if_neg (by omega), if_pos hmoved, if_pos hr', ← hcells (row + 1) hr' column hc,
        Nat.add_mul, Nat.one_mul, Nat.add_right_comm]
    · rw [if_pos (by omega), if_neg hr']
  · exact ⟨_, rfl, rfl, rfl, rfl, rfl, hcells⟩

theorem VirtualConsole.writeChar_of_wrapped
    (h : (if v.columns ≤ v.cursorColumn then v.newLine else .ok v) = .ok v₁)
    (hindex : v₁.cursorRow * v₁.columns + v₁.cursorColumn < maxCells) :
    v.writeChar style ch = .ok { v₁ with
      cells := update v₁.cells (v₁.cursorRow * v₁.columns + v₁.cursorColumn) ⟨ch, style⟩
      cursorColumn := v₁.cursorColumn + 1 } := by
  rw [VirtualConsole.writeChar]
  split_ifs at h ⊢
  · rw [h]
    simp only [bind, Except.bind, if_pos hindex, pure, Except.pure]
  · cases h
    simp only [bind, Except.bind, if_pos hindex, pure, Except.pure]

section

variable (h : v.Holds columns rows t) (hsize : Sized columns rows) (hrange : t.InRange columns rows)

include h hsize hrange

/-- **A character** in the cells. -/
theorem VirtualConsole.Holds.writeChar (x : ConsoleGlyph) :
    ∃ v', v.writeChar x.style x.ch = .ok v' ∧
      v'.Holds columns rows (t.put columns rows .empty x) := by
  obtain ⟨v₁, hv₁, h₁⟩ : ∃ v₁, (if v.columns ≤ v.cursorColumn then v.newLine else .ok v) = .ok v₁ ∧
      v₁.Holds columns rows (t.wrapped columns rows .empty) := by
    rw [Terminal.wrapped, h.width, h.cursorColumn]
    split_ifs with hfull
    · exact h.newLine hsize hrange
    · exact ⟨v, rfl, h⟩
  obtain ⟨hrange₁, hlt⟩ := hrange.wrapped .empty hsize.columns_pos
  obtain ⟨rfl, rfl, hcolumn, hrow, hcells⟩ := h₁
  have hindex := index_lt hrange₁.row hlt
  rw [← hcolumn, ← hrow] at hindex
  refine ⟨_, VirtualConsole.writeChar_of_wrapped hv₁ (hindex.trans_le hsize.cells_le), rfl, rfl,
    congrArg (· + 1) hcolumn, hrow, ?_⟩
  intro row hr column hc
  simp only [Terminal.put, Terminal.place, ← hcolumn, ← hrow] at hlt ⊢
  split_ifs with hcell
  · rw [hcell.1, hcell.2, update_self]
  · rw [update_of_ne fun heq => hcell (index_inj hc hlt heq)]
    exact hcells row hr column hc

/-- **A text** in the cells. -/
theorem VirtualConsole.Holds.writeStyle (style : ConsoleStyle) (text : List Char) :
    ∃ v', v.writeStyle style text = .ok v' ∧
      v'.Holds columns rows (t.run columns rows .empty (steps style text)) := by
  refine text_simulates (R := VirtualConsole.Holds columns rows) VirtualConsole.newLine
    (fun x v => v.writeChar x.style x.ch) hsize.columns_pos ?_ ?_ hrange ?_ style text
  · intro v t hrange h
    exact h.newLine hsize hrange
  · intro v t x hrange h
    exact h.writeChar hsize hrange x
  · exact ⟨h.width, h.height, h.cursorColumn, h.cursorRow, h.cells⟩

/-- The steps that a sequence of texts stands for. -/
def allSteps (texts : List (ConsoleStyle × List Char)) : List (Terminal.Step ConsoleGlyph) :=
  texts.flatMap fun p => steps p.1 p.2

theorem VirtualConsole.Holds.writeStyles (texts : List (ConsoleStyle × List Char)) :
    ∃ v', texts.foldlM (fun v p => v.writeStyle p.1 p.2) v = .ok v' ∧
      v'.Holds columns rows (t.run columns rows .empty (allSteps texts)) := by
  induction texts generalizing v t with
  | nil => exact ⟨v, rfl, h⟩
  | cons p texts ih =>
    obtain ⟨v₁, hv₁, h₁⟩ := h.writeStyle hsize hrange p.1 p.2
    obtain ⟨v₂, hv₂, h₂⟩ := ih h₁ (hrange.run hsize.columns_pos _)
    rw [foldlM_cons, hv₁, allSteps, flatMap_cons, Terminal.run, foldl_append]
    exact ⟨v₂, hv₂, h₂⟩

end

end Cells

/-- **The screen shows the last lines of the text.** -/
theorem virtualConsole_lines (v : VirtualConsole) (columns rows : ℕ)
    (texts : List (ConsoleStyle × List Char)) :
    ∃ v', texts.foldlM (fun v p => v.writeStyle p.1 p.2) (v.configure columns rows) = .ok v' ∧
      v'.columns = max (min columns maxColumns) 1 ∧ v'.rows = max (min rows maxRows) 1 ∧
      v'.cursorRow < v'.rows ∧ v'.cursorColumn ≤ v'.columns ∧
      let sheet := Sheet.of v'.columns (allSteps texts)
      v'.cursorColumn = sheet.last.length ∧ v'.cursorRow + 1 = (sheet.visible v'.rows).length ∧
      ∀ row < v'.rows, ∀ column < v'.columns,
        v'.cells (row * v'.columns + column) = sheet.cell v'.rows .empty row column := by
  have hsize : Sized (max (min columns maxColumns) 1) (max (min rows maxRows) 1) :=
    ⟨lt_max_of_lt_right Nat.one_pos, max_le (min_le_right _ _) (by decide),
      lt_max_of_lt_right Nat.one_pos, max_le (min_le_right _ _) (by decide)⟩
  have hempty : (v.configure columns rows).Holds (max (min columns maxColumns) 1)
      (max (min rows maxRows) 1) ⟨fun _ _ => .empty, 0, 0⟩ :=
    ⟨rfl, rfl, rfl, rfl, fun _ _ _ _ => rfl⟩
  -- The stored sizes are all that matters from here on.
  generalize v.configure columns rows = v at hempty ⊢
  generalize max (min columns maxColumns) 1 = columns at hsize hempty ⊢
  generalize max (min rows maxRows) 1 = rows at hsize hempty ⊢
  have hrange : Terminal.InRange columns rows ⟨fun _ _ => ConsoleGlyph.empty, 0, 0⟩ :=
    ⟨Nat.zero_le _, hsize.rows_pos⟩
  obtain ⟨v', hv', hwidth, hheight, hcolumn, hrow, hcells⟩ := hempty.writeStyles hsize hrange texts
  have hshows := Terminal.shows_of columns ConsoleGlyph.empty hsize.rows_pos (allSteps texts)
  refine ⟨v', hv', hwidth, hheight, ?_, ?_, ?_⟩
  · rw [hrow, hheight]
    exact (hrange.run hsize.columns_pos _).row
  · rw [hcolumn, hwidth]
    exact (hrange.run hsize.columns_pos _).column
  · simp only [hwidth, hheight, hcolumn, hrow]
    refine ⟨hshows.column, hshows.row, fun row hr column hc => ?_⟩
    rw [hcells row hr column hc, hshows.grid]

/-- A console of no rows and no columns is given one of each. -/
theorem virtualConsole_lines_zero : ∃ (v v' : VirtualConsole) (style : ConsoleStyle),
    [(style, ['a'])].foldlM (fun v p => v.writeStyle p.1 p.2) (v.configure 0 0) = .ok v' ∧
      ¬v'.cursorRow < 0 ∧ ¬v'.cursorColumn ≤ 0 :=
  ⟨⟨1, 1, 0, 0, 0, 0, fun _ => .empty⟩, _, .default, rfl, by decide, by decide⟩

end Hxnu.Console
