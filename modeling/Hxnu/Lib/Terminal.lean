import Mathlib

/-!
# Terminals

A terminal is a grid of cells with a cursor. Putting a symbol fills the cell at the cursor and moves
the cursor to the right; behind the last column the next symbol goes to a new line, and a new line
below the last row moves all rows up.

Two implementations of a terminal are compared through it: what each of them does with a text is the
same sequence of steps of the terminal.

## Main definitions

* `Terminal`, `Terminal.newLine`, `Terminal.put`.
* `Terminal.Step`, `Terminal.run`: sequences of steps.
* `Terminal.InRange`: the cursor is on the grid, or behind the end of a line.
* `Sheet`: a text in lines; `Sheet.of` breaks it, `Sheet.visible` are the last lines.

## Main results

* `Terminal.InRange.run`: the cursor stays there.
* `Terminal.simulates`: an implementation of the steps implements their sequences.
* `Terminal.shows_of`: a terminal shows the last lines of the text.
-/

namespace Hxnu

open List

/-- A grid of cells, by row and column, and a cursor. -/
structure Terminal (α : Type*) where
  grid : ℕ → ℕ → α
  column : ℕ
  row : ℕ

namespace Terminal

variable {α : Type*} (columns rows : ℕ) (blank : α)

/-- Move to the beginning of the next line. -/
def newLine (t : Terminal α) : Terminal α :=
  if rows ≤ t.row + 1 then
    { grid := fun r c => if r + 1 < rows then t.grid (r + 1) c else blank
      column := 0
      row := rows - 1 }
  else { t with column := 0, row := t.row + 1 }

/-- The line in which the next symbol goes. -/
def wrapped (t : Terminal α) : Terminal α :=
  if columns ≤ t.column then t.newLine rows blank else t

/-- Put a symbol in the cell at the cursor. -/
def place (t : Terminal α) (x : α) : Terminal α where
  grid := fun r c => if r = t.row ∧ c = t.column then x else t.grid r c
  column := t.column + 1
  row := t.row

/-- Put a symbol, in a new line if this one is full. -/
def put (t : Terminal α) (x : α) : Terminal α := (t.wrapped columns rows blank).place x

inductive Step (α : Type*)
  | newLine
  | put (x : α)

def step (t : Terminal α) : Step α → Terminal α
  | .newLine => t.newLine rows blank
  | .put x => t.put columns rows blank x

def run (t : Terminal α) (l : List (Step α)) : Terminal α := l.foldl (step columns rows blank) t

/-- The cursor is in a cell or behind the last cell of a line. -/
structure InRange (t : Terminal α) : Prop where
  column : t.column ≤ columns
  row : t.row < rows

variable {columns rows blank} {t : Terminal α}

theorem InRange.newLine (h : t.InRange columns rows) :
    (t.newLine rows blank).InRange columns rows := by
  have hrow := h.row
  rw [Terminal.newLine]
  split_ifs with hlast
  · exact ⟨Nat.zero_le _, by simp only; omega⟩
  · exact ⟨Nat.zero_le _, by simp only; omega⟩

theorem column_newLine : (t.newLine rows blank).column = 0 := by
  rw [Terminal.newLine]
  split_ifs <;> rfl

section

variable (h : t.InRange columns rows)

include h

/-- After wrapping, the cursor is in a cell. -/
theorem InRange.wrapped (blank : α) (hpos : 0 < columns) :
    (t.wrapped columns rows blank).InRange columns rows ∧
      (t.wrapped columns rows blank).column < columns := by
  rw [Terminal.wrapped]
  split_ifs with hfull
  · rw [column_newLine]
    exact ⟨h.newLine, hpos⟩
  · exact ⟨h, not_le.mp hfull⟩

theorem InRange.put (hpos : 0 < columns) (x : α) :
    (t.put columns rows blank x).InRange columns rows := by
  obtain ⟨hwrapped, hlt⟩ := h.wrapped blank hpos
  exact ⟨hlt, hwrapped.row⟩

theorem InRange.step (hpos : 0 < columns) (a : Step α) :
    (t.step columns rows blank a).InRange columns rows := by
  cases a with
  | newLine => exact h.newLine
  | put x => exact h.put hpos x

theorem InRange.run (hpos : 0 < columns) (l : List (Step α)) :
    (t.run columns rows blank l).InRange columns rows := by
  induction l generalizing t with
  | nil => exact h
  | cons a l ih => exact ih (h.step hpos a)

end

/-- **An implementation of the steps implements their sequences.** -/
theorem simulates {σ ε : Type*} {body : σ → Step α → Except ε σ} {rel : σ → Terminal α → Prop}
    (hpos : 0 < columns)
    (hstep : ∀ s (t : Terminal α) a, t.InRange columns rows → rel s t →
      ∃ s', body s a = .ok s' ∧ rel s' (t.step columns rows blank a))
    {s : σ} (hrange : t.InRange columns rows) (h : rel s t) (l : List (Step α)) :
    ∃ s', l.foldlM body s = .ok s' ∧ rel s' (t.run columns rows blank l) := by
  induction l generalizing s t with
  | nil => exact ⟨s, rfl, h⟩
  | cons a l ih =>
    obtain ⟨s₁, hs₁, h₁⟩ := hstep s t a hrange h
    obtain ⟨s₂, hs₂, h₂⟩ := ih (hrange.step hpos a) h₁
    refine ⟨s₂, ?_, h₂⟩
    rw [foldlM_cons, hs₁]
    exact hs₂

end Terminal

/-! ### Sheets -/

/-- A text in lines, the last of which has not ended. -/
structure Sheet (α : Type*) where
  ended : List (List α)
  last : List α

namespace Sheet

variable {α : Type*}

def newLine (s : Sheet α) : Sheet α := ⟨s.ended ++ [s.last], []⟩

def place (s : Sheet α) (x : α) : Sheet α := ⟨s.ended, s.last ++ [x]⟩

/-- A symbol goes to the last line, or to a new one if that is full. -/
def add (columns : ℕ) (s : Sheet α) : Terminal.Step α → Sheet α
  | .newLine => s.newLine
  | .put x => (if columns ≤ s.last.length then s.newLine else s).place x

/-- The lines of a text. -/
def of (columns : ℕ) (l : List (Terminal.Step α)) : Sheet α := l.foldl (add columns) ⟨[], []⟩

/-- The last lines, at most as many as there are rows. -/
def visible (rows : ℕ) (s : Sheet α) : List (List α) :=
  (s.ended ++ [s.last]).drop (s.ended.length + 1 - rows)

/-- A cell of the visible lines. -/
def cell (rows : ℕ) (blank : α) (s : Sheet α) (r c : ℕ) : α :=
  (((s.visible rows)[r]?.getD [])[c]?).getD blank

theorem length_visible (rows : ℕ) (s : Sheet α) :
    (s.visible rows).length = min (s.ended.length + 1) rows := by
  rw [visible, length_drop, length_append, length_singleton]
  omega

theorem cell_eq (rows : ℕ) (blank : α) (s : Sheet α) (r c : ℕ) : s.cell rows blank r c =
    (((s.ended ++ [s.last])[s.ended.length + 1 - rows + r]?.getD [])[c]?).getD blank := by
  rw [cell, visible, List.getElem?_drop]

end Sheet

namespace Terminal

variable {α : Type*} {columns rows : ℕ} {blank : α} {t : Terminal α} {s : Sheet α}

/-- A terminal shows the end of a sheet. -/
structure Shows (rows : ℕ) (blank : α) (t : Terminal α) (s : Sheet α) : Prop where
  column : t.column = s.last.length
  row : t.row + 1 = (s.visible rows).length
  grid : t.grid = s.cell rows blank

theorem Shows.newLine (h : t.Shows rows blank s) :
    (t.newLine rows blank).Shows rows blank s.newLine := by
  have hrow := h.row
  rw [Sheet.length_visible] at hrow
  -- the new line has no symbols
  have hline (i : ℕ) : (s.ended ++ [s.last] ++ [[]])[i]?.getD [] =
      (s.ended ++ [s.last])[i]?.getD [] := by
    grind
  have hcell (r c : ℕ) : s.newLine.cell rows blank r c =
      (((s.ended ++ [s.last])[s.ended.length + 1 + 1 - rows + r]?.getD [])[c]?).getD blank := by
    rw [Sheet.cell_eq, Sheet.newLine, hline, length_append, length_singleton]
  refine ⟨column_newLine, ?_, ?_⟩
  · rw [Sheet.length_visible, Sheet.newLine, Terminal.newLine, length_append, length_singleton]
    split_ifs <;> simp only <;> omega
  · funext r c
    rw [hcell, Terminal.newLine, h.grid]
    by_cases hlast : rows ≤ t.row + 1
    · rw [if_pos hlast]
      dsimp only
      split_ifs with hr
      · rw [Sheet.cell_eq]
        congr 4
        omega
      · have hend : (s.ended ++ [s.last]).length ≤ s.ended.length + 1 + 1 - rows + r := by
          rw [length_append, length_singleton]
          omega
        rw [List.getElem?_eq_none hend]
        rfl
    · rw [if_neg hlast]
      dsimp only
      rw [Sheet.cell_eq]
      congr 4
      omega

theorem Shows.place (h : t.Shows rows blank s) (x : α) :
    (t.place x).Shows rows blank (s.place x) := by
  have hrow := h.row
  rw [Sheet.length_visible] at hrow
  refine ⟨?_, ?_, ?_⟩
  · rw [Terminal.place, Sheet.place, length_append, h.column, length_singleton]
  · rw [Sheet.length_visible]
    exact hrow
  · funext r c
    -- the row of the cursor is the one of the last line
    have hiff : s.ended.length + 1 - rows + r = s.ended.length ↔ r = t.row := by omega
    simp only [Terminal.place, h.grid, Sheet.cell_eq, Sheet.place, h.column]
    grind

/-- **The terminal shows the last lines of the text.** -/
theorem shows_of (columns : ℕ) (blank : α) (hpos : 0 < rows) (l : List (Step α)) :
    (run columns rows blank ⟨fun _ _ => blank, 0, 0⟩ l).Shows rows blank (.of columns l) := by
  induction l using List.reverseRecOn with
  | nil =>
    have hvisible : (⟨[], []⟩ : Sheet α).visible rows = [[]] := by
      simp [Sheet.visible, Nat.sub_eq_zero_of_le hpos]
    refine ⟨rfl, by rw [Sheet.of, foldl_nil, hvisible]; rfl, ?_⟩
    funext r c
    rw [Sheet.of, foldl_nil, Sheet.cell, hvisible]
    cases r <;> rfl
  | append_singleton l a ih =>
    rw [run, Sheet.of, foldl_concat, foldl_concat]
    cases a with
    | newLine => exact ih.newLine
    | put x =>
      refine Shows.place ?_ x
      rw [wrapped, ← Sheet.of, ← run, ih.column]
      split_ifs
      · exact ih.newLine
      · exact ih

end Terminal

end Hxnu
