import Hxnu.Console.Cells
import Hxnu.Console.Drawing

/-!
# The virtual consoles and the screen stay in step

The virtual console and the framebuffer console handle text on their own: both wrap, scroll and
expand tabs. Both are implementations of one terminal (`Terminal`): the virtual console keeps its
grid in an array of cells, the framebuffer console in pixels. A full `render_console` draws the grid
of a virtual console. So whatever was written and whichever console is active, drawing the active
console again changes no pixel of a cell.

## Main definitions

* `Shows`: the screen as a terminal.
* `TtyOp`, `Terminals.run`: the calls of the terminal.
* `InStep`: the invariant.
* `Synchronised`: what it means for the pixels and the cursor.

## Main results

* `Shows.writeStr`: the framebuffer console handles a text like the terminal.
* `Shows.renderConsole`: a full rendering.
* `InStep.call`, `InStep.run`: every call keeps the invariant.
* `consoles_stay_in_step`: after any calls the screen shows the active console.
-/

namespace Hxnu.Console

open Word Tty Function

variable {column row : ℕ}

/-! ### The screen -/

/-- The console with its cursor elsewhere. -/
def FramebufferConsole.withCursor (c : FramebufferConsole) (column row : ℕ) : FramebufferConsole :=
  { c with cursorColumn := column, cursorRow := row }

theorem FramebufferConsole.Laid.withCursor {c : FramebufferConsole} (h : c.Laid)
    (column row : ℕ) : (c.withCursor column row).Laid :=
  { h with }

theorem Screen.setCursor_withCursor (c : FramebufferConsole) (m : Memory)
    (column row column' row' : ℕ) :
    Screen.setCursor ⟨c.withCursor column row, m⟩ column' row' =
      ⟨c.withCursor column' row', m⟩ := rfl

/-- The screen of a console shows a terminal. -/
structure Shows (c : FramebufferConsole) (s : Screen) (t : Terminal ConsoleGlyph) : Prop where
  console : s.console = c.withCursor t.column t.row
  pictured : Pictured c s.memory fun row column => (t.grid row column).fb

section Screens

variable {s : Screen}

/-- `scroll_up`: the rows of the picture move up and the last one is cleared. -/
theorem Screen.scrollUp_eq (h : s.console.Laid) (hpic : Pictured s.console s.memory grid) :
    ∃ m, s.scrollUp =
        .ok (({ s with memory := m } : Screen).setCursor s.console.cursorColumn
          (s.console.rows - 1)) ∧
      Pictured s.console m fun row column =>
        if row + 1 < s.console.rows then grid (row + 1) column else .empty := by
  have hrows := h.rows_pos
  obtain ⟨m₁, m₂, hm₁, hm₂, hpic₂⟩ := hpic.scroll h
  refine ⟨m₂, ?_, hpic₂⟩
  have hheight : ¬ (s.console.logOriginY + s.console.logHeight < charHeight ∨
      s.console.rows = 0) := by
    rw [h.originY, h.logHeight, charHeight_eq]
    omega
  rw [Screen.scrollUp]
  simp only [if_neg hheight]
  simp only [h.originY, Nat.zero_add, Nat.sub_zero, ← List.range_eq_range']
  rw [hm₁]
  simp only [bind, Except.bind, h.originX]
  rw [hm₂]
  rfl

theorem Screen.writeChar_of_wrapped {s₁ : Screen} {x : ConsoleGlyph} {m₁ m₂ : Memory}
    (h : (if s.console.columns ≤ s.console.cursorColumn then s.newLine else .ok s) = .ok s₁)
    (hm₁ : s₁.console.fillRect s₁.memory
      (s₁.console.logOriginX + s₁.console.cursorColumn * charWidth)
      (s₁.console.logOriginY + s₁.console.cursorRow * charHeight) charWidth charHeight
      s₁.console.background = .ok m₁)
    (hm₂ : s₁.console.drawGlyph m₁
      (s₁.console.logOriginX + s₁.console.cursorColumn * charWidth + fontScale)
      (s₁.console.logOriginY + s₁.console.cursorRow * charHeight + fontScale) x.ch
      (s₁.console.styleColor x.style.fb) fontScale = .ok m₂) :
    s.writeChar x.style.fb x.ch =
      .ok (({ s₁ with memory := m₂ } : Screen).setCursor (s₁.console.cursorColumn + 1)
        s₁.console.cursorRow) := by
  rw [Screen.writeChar]
  split_ifs at h ⊢
  · rw [h]
    simp only [bind, Except.bind, hm₁, hm₂, pure, Except.pure]
  · cases h
    simp only [bind, Except.bind, hm₁, hm₂, pure, Except.pure]

variable {c : FramebufferConsole} {t : Terminal ConsoleGlyph} (hlaid : c.Laid)

include hlaid

section

variable (h : Shows c s t) (hrange : t.InRange c.columns c.rows)

include h hrange

/-- **A new line** on the screen. -/
theorem Shows.newLine : ∃ s', s.newLine = .ok s' ∧ Shows c s' (t.newLine c.rows .empty) := by
  have hlt := hrange.row
  obtain ⟨console, m⟩ := s
  obtain ⟨rfl, hpic⟩ := h
  rw [Screen.newLine, Terminal.newLine]
  simp only [Screen.setCursor_withCursor]
  by_cases hlast : c.rows ≤ t.row + 1
  · obtain ⟨m', hm', hpic'⟩ := Screen.scrollUp_eq (s := ⟨c.withCursor 0 t.row, m⟩)
      (hlaid.withCursor 0 t.row) hpic
    rw [if_pos hlast]
    refine ⟨_, (if_pos hlast).trans hm', rfl, hpic'.congr fun row _ column _ => ?_⟩
    simp only [apply_ite ConsoleGlyph.fb]
    rfl
  · rw [if_neg hlast]
    exact ⟨_, if_neg hlast, rfl, hpic⟩

/-- **A character** on the screen. -/
theorem Shows.writeChar (x : ConsoleGlyph) : ∃ s', s.writeChar x.style.fb x.ch = .ok s' ∧
      Shows c s' (t.put c.columns c.rows .empty x) := by
  obtain ⟨s₁, hs₁, h₁⟩ : ∃ s₁,
      (if s.console.columns ≤ s.console.cursorColumn then s.newLine else .ok s) = .ok s₁ ∧
        Shows c s₁ (t.wrapped c.columns c.rows .empty) := by
    rw [Terminal.wrapped, h.console]
    change ∃ s₁, (if c.columns ≤ t.column then s.newLine else .ok s) = .ok s₁ ∧ _
    split_ifs with hfull
    · exact h.newLine hlaid hrange
    · exact ⟨s, rfl, h⟩
  obtain ⟨hrange₁, hlt⟩ := hrange.wrapped .empty hlaid.columns_pos
  rw [Terminal.put]
  generalize t.wrapped c.columns c.rows .empty = t₁ at *
  obtain ⟨console, m⟩ := s₁
  obtain ⟨rfl, hpic⟩ := h₁
  obtain ⟨m₁, m₂, hm₁, hm₂, hdrawn, -⟩ := Laid.drawCell (hlaid.withCursor t₁.column t₁.row)
    hrange₁.row hlt x.fb m
  refine ⟨_, Screen.writeChar_of_wrapped hs₁ hm₁ hm₂, rfl, ?_⟩
  refine (Pictured.cell (hlaid.withCursor t₁.column t₁.row) hpic hdrawn).congr ?_
  intro row _ column _
  simp only [Terminal.place]
  split_ifs <;> rfl

/-- **A text** on the screen. -/
theorem Shows.writeStr (style : ConsoleStyle) (text : List Char) :
    ∃ s', s.writeStr style.fb text = .ok s' ∧
      Shows c s' (t.run c.columns c.rows .empty (steps style text)) := by
  refine text_simulates (R := Shows c) Screen.newLine (fun x s => s.writeChar x.style.fb x.ch)
    hlaid.columns_pos ?_ ?_ hrange h style text
  · intro s t hrange h
    exact h.newLine hlaid hrange
  · intro s t x hrange h
    exact h.writeChar hlaid hrange x

end

/-! ### Rendering -/

omit hlaid in
theorem Screen.drawConsoleCell_eq (h : s.console.Laid)
    (hrow : row < s.console.rows) (hcolumn : column < s.console.columns) (glyph : Fb.ConsoleGlyph) :
    ∃ m, s.drawConsoleCell row column glyph = .ok { s with memory := m } ∧
      Drawn s.console s.memory row column glyph m := by
  obtain ⟨m₁, m₂, hm₁, hm₂, hdrawn, hspace⟩ := Laid.drawCell h hrow hcolumn glyph s.memory
  rw [Screen.drawConsoleCell]
  simp only [hm₁, bind, Except.bind]
  split_ifs with hch
  · simp only [hm₂, pure, Except.pure]
    exact ⟨m₂, rfl, hdrawn⟩
  · exact ⟨m₁, rfl, hspace (not_not.mp hch)⟩

/-- The grid while it is drawn: the first `n` cells are there. -/
def drawnCells (columns : ℕ) (cells : ℕ → Fb.ConsoleGlyph) (n row column : ℕ) : Fb.ConsoleGlyph :=
  if row * columns + column < n then cells (row * columns + column) else .empty

/-- The screen while the cells are drawn. -/
def Filled (c : FramebufferConsole) (cells : ℕ → Fb.ConsoleGlyph) (n : ℕ) (s : Screen) : Prop :=
  s.console = c.withCursor 0 0 ∧ Pictured c s.memory (drawnCells c.columns cells n)

theorem Pictured.drawnCells_succ (hcolumn : column < c.columns)
    (h : Pictured c m (drawnCells c.columns cells (row * c.columns + column)))
    (hdrawn : Drawn c m row column (cells (row * c.columns + column)) m') :
    Pictured c m' (drawnCells c.columns cells (row * c.columns + (column + 1))) := by
  refine (Pictured.cell hlaid h hdrawn).congr ?_
  intro r _ col hcol
  simp only [drawnCells]
  by_cases hsame : r = row ∧ col = column
  · obtain ⟨rfl, rfl⟩ := hsame
    rw [if_pos ⟨rfl, rfl⟩, if_pos (by omega)]
  · have hne : r * c.columns + col ≠ row * c.columns + column := fun heq =>
      hsame (index_inj hcol hcolumn heq)
    rw [if_neg hsame]
    exact if_congr (by omega) rfl rfl

/-- The loops of `render_console`. -/
theorem Screen.drawCells (hsize : Sized c.columns c.rows) (cells : ℕ → Fb.ConsoleGlyph)
    (hconsole : s.console = c.withCursor 0 0) (hpic : Pictured c s.memory fun _ _ => .empty) :
    ∃ s', (List.range c.rows).foldlM (fun s row =>
        (List.range c.columns).foldlM (fun s column =>
          let index := satAdd (satMul row c.columns) column
          Screen.drawConsoleCell s row column (if index < maxCells then cells index else .empty)) s)
        s = .ok s' ∧
      s'.console = c.withCursor 0 0 ∧
        Pictured c s'.memory fun row column => cells (row * c.columns + column) := by
  have hcell (row column : ℕ) (hrow : row < c.rows) (hcolumn : column < c.columns) (s : Screen)
      (hs : Filled c cells (row * c.columns + column) s) :
      ∃ s', Screen.drawConsoleCell s row column
          (if satAdd (satMul row c.columns) column < maxCells then
            cells (satAdd (satMul row c.columns) column) else .empty) = .ok s' ∧
        Filled c cells (row * c.columns + (column + 1)) s' := by
    have hindex : row * c.columns + column < maxCells :=
      (index_lt hrow hcolumn).trans_le hsize.cells_le
    have hword : maxCells < 2 ^ 64 := by decide
    obtain ⟨console, m⟩ := s
    obtain ⟨rfl, hpic⟩ := hs
    obtain ⟨m', hm', hdrawn⟩ := Screen.drawConsoleCell_eq (s := ⟨c.withCursor 0 0, m⟩)
      (hlaid.withCursor 0 0) hrow hcolumn (cells (row * c.columns + column))
    rw [satMul_of_lt (by omega), satAdd_of_lt (by omega), if_pos hindex]
    exact ⟨_, hm', rfl, hpic.drawnCells_succ hlaid hcolumn { hdrawn with }⟩
  obtain ⟨s', hs', hconsole', hpic'⟩ := Fallible.foldlM_range
    (P := fun row => Filled c cells (row * c.columns)) (fun row hrow s hs => by
      rw [Nat.add_mul, Nat.one_mul]
      exact Fallible.foldlM_range (P := fun column => Filled c cells (row * c.columns + column))
        (fun column hcolumn => hcell row column hrow hcolumn) hs)
    ⟨hconsole, hpic.congr fun row _ column _ => by simp [drawnCells]⟩
  refine ⟨s', hs', hconsole', hpic'.congr ?_⟩
  intro row hrow column hcolumn
  rw [drawnCells, if_pos (index_lt hrow hcolumn)]

/-- **A full rendering** draws the cells. -/
theorem Shows.renderConsole {v : VirtualConsole} (hsize : Sized c.columns c.rows)
    (hv : v.Holds c.columns c.rows t) (hrange : t.InRange c.columns c.rows)
    (hs : s.console = c.withCursor column row) :
    ∃ s', s.renderConsole (fun i => (v.cells i).fb) maxCells v.columns v.rows v.cursorColumn
        v.cursorRow = .ok s' ∧ Shows c s' t := by
  obtain ⟨console, m⟩ := s
  subst hs
  have hcolumn := hrange.column
  have hrow := hrange.row
  obtain ⟨m₁, hm₁, hpic₁⟩ := Pictured.clear (hlaid.withCursor column row) m
  have hclear : Screen.clearLogRegion ⟨c.withCursor column row, m⟩ =
      .ok ⟨c.withCursor 0 0, m₁⟩ := by
    rw [Screen.clearLogRegion]
    simp only [hm₁, bind, Except.bind, pure, Except.pure, Screen.setCursor_withCursor]
  obtain ⟨s', hs', hconsole, hpic⟩ := Screen.drawCells (s := ⟨c.withCursor 0 0, m₁⟩) hlaid hsize
    (fun i => (v.cells i).fb) rfl hpic₁
  obtain ⟨console, m'⟩ := s'
  subst hconsole
  refine ⟨⟨c.withCursor t.column t.row, m'⟩, ?_, rfl, ?_⟩
  · rw [Screen.renderConsole, hv.width, hv.height, hv.cursorColumn, hv.cursorRow]
    have hcolumns : min c.columns (c.withCursor column row).columns = c.columns := min_self _
    have hrows : min c.rows (c.withCursor column row).rows = c.rows := min_self _
    simp only [hclear, hcolumns, hrows, bind, Except.bind, pure, Except.pure]
    rw [hs']
    simp only [Screen.setCursor_withCursor, min_eq_left hcolumn,
      min_eq_left (Nat.le_sub_one_of_lt hrow)]
  · refine hpic.congr fun row hrow column hcolumn => ?_
    exact congrArg ConsoleGlyph.fb (hv.cells row hrow column hcolumn)

end Screens

/-! ### The calls -/

/-- The calls of the terminal that write or switch. -/
inductive TtyOp
  | writeStyle (style : ConsoleStyle) (text : List Char)
  | writeToConsole (consoleId : ℕ) (style : ConsoleStyle) (text : List Char)
  | switchActiveConsole (consoleId : ℕ)

def Terminals.call (t : Terminals) : TtyOp → Except Fault Terminals
  | .writeStyle style text => t.writeStyle style text
  | .writeToConsole consoleId style text =>
    (t.writeToConsole consoleId style text).map Prod.snd
  | .switchActiveConsole consoleId => (t.switchActiveConsole consoleId).map Prod.snd

def Terminals.run (t : Terminals) (ops : List TtyOp) : Except Fault Terminals :=
  ops.foldlM Terminals.call t

/-- Every virtual console holds a terminal in its cells, and text goes to the framebuffer. -/
structure Kept (c : FramebufferConsole) (tty : TtyConsole)
    (grids : Fin virtualConsoleCount → Terminal ConsoleGlyph) : Prop where
  initialized : tty.initialized = true
  outputs : tty.outputs = outputSerial ||| outputFramebuffer
  holds : ∀ k, (tty.consoles k).Holds c.columns c.rows (grids k)
  inRange : ∀ k, (grids k).InRange c.columns c.rows

/-- The virtual consoles are kept, and the screen shows the active one. -/
def InStep (c : FramebufferConsole) (t : Terminals) : Prop :=
  ∃ grids, Kept c t.tty grids ∧ ∃ active : Fin virtualConsoleCount,
    t.tty.activeConsoleId = active ∧ Shows c t.screen (grids active)

section Calls

variable {c : FramebufferConsole} {t : Terminals}
  {grids : Fin virtualConsoleCount → Terminal ConsoleGlyph} {active : Fin virtualConsoleCount}

theorem Terminals.activeConsole_eq {tty : TtyConsole} (h : tty.activeConsoleId = active) :
    Terminals.activeConsole tty = .ok active := by
  rw [Terminals.activeConsole, dif_pos (by rw [h]; exact active.isLt)]
  exact congrArg Except.ok (Fin.ext h)

theorem Kept.framebuffer (h : Kept c t.tty grids) : t.tty.outputs &&& outputFramebuffer ≠ 0 := by
  rw [h.outputs]
  decide

/-- Text for one of the consoles. -/
theorem Kept.writeStyle (h : Kept c t.tty grids) (hsize : Sized c.columns c.rows)
    (k : Fin virtualConsoleCount) (style : ConsoleStyle) (text : List Char) :
    ∃ v, (t.tty.consoles k).writeStyle style text = .ok v ∧
      ∀ tty : TtyConsole, tty.initialized = t.tty.initialized → tty.outputs = t.tty.outputs →
        tty.consoles = update t.tty.consoles k v →
        Kept c tty (update grids k
          ((grids k).run c.columns c.rows .empty (steps style text))) := by
  obtain ⟨v, hv, hholds⟩ := (h.holds k).writeStyle hsize (h.inRange k) style text
  refine ⟨v, hv, fun tty hinit houtputs hconsoles => ?_⟩
  refine ⟨hinit.trans h.initialized, houtputs.trans h.outputs, fun j => ?_, fun j => ?_⟩
  · rw [hconsoles]
    by_cases hj : j = k
    · subst hj
      rw [update_self, update_self]
      exact hholds
    · rw [update_of_ne hj, update_of_ne hj]
      exact h.holds j
  · by_cases hj : j = k
    · subst hj
      rw [update_self]
      exact (h.inRange j).run hsize.columns_pos _
    · rw [update_of_ne hj]
      exact h.inRange j

variable (hlaid : c.Laid) (hsize : Sized c.columns c.rows)

include hlaid hsize

/-- Drawing the active console. -/
theorem Kept.renderActiveConsole {tty : TtyConsole} (h : Kept c tty grids)
    (hactive : tty.activeConsoleId = active) (screen : Screen)
    (hs : screen.console = c.withCursor column row) :
    ∃ s, Terminals.renderActiveConsole ⟨tty, screen⟩ = .ok ⟨tty, s⟩ ∧
      Shows c s (grids active) := by
  obtain ⟨s, hs, hshows⟩ := Shows.renderConsole hlaid hsize (h.holds active) (h.inRange active) hs
  refine ⟨s, ?_, hshows⟩
  rw [Terminals.renderActiveConsole, Terminals.activeConsole_eq hactive]
  simp only [bind, Except.bind, hs, pure, Except.pure]

theorem InStep.writeStyle (h : InStep c t) (style : ConsoleStyle) (text : List Char) :
    ∃ t', t.writeStyle style text = .ok t' ∧ InStep c t' := by
  obtain ⟨grids, hkept, active, hactive, hshows⟩ := h
  obtain ⟨v, hv, hkept'⟩ := hkept.writeStyle hsize active style text
  obtain ⟨s, hs, hshows'⟩ := hshows.writeStr hlaid (hkept.inRange active) style text
  rw [Terminals.writeStyle, Terminals.activeConsole_eq hactive]
  simp only [bind, Except.bind, hv, hkept.initialized, if_true, if_pos hkept.framebuffer, hs, pure,
    Except.pure]
  refine ⟨_, rfl, _, hkept' _ hkept.initialized.symm rfl rfl, active, hactive, ?_⟩
  rw [update_self]
  exact hshows'

theorem InStep.writeToConsole (h : InStep c t) (consoleId : ℕ) (style : ConsoleStyle)
    (text : List Char) :
    ∃ result t', t.writeToConsole consoleId style text = .ok (result, t') ∧ InStep c t' := by
  rw [Terminals.writeToConsole]
  split_ifs with hid
  · obtain ⟨grids, hkept, active, hactive, hshows⟩ := h
    obtain ⟨v, hv, hkept'⟩ := hkept.writeStyle hsize ⟨consoleId, hid⟩ style text
    simp only [bind, Except.bind, hv]
    by_cases hsame : consoleId = t.tty.activeConsoleId
    · have hkept₁ := hkept' { t.tty with
          consoles := update t.tty.consoles ⟨consoleId, hid⟩ v } rfl rfl rfl
      have hactive₁ : t.tty.activeConsoleId = (⟨consoleId, hid⟩ : Fin virtualConsoleCount) :=
        hsame.symm
      obtain ⟨s, hs, hshows'⟩ := hkept₁.renderActiveConsole hlaid hsize hactive₁ t.screen
        hshows.console
      rw [if_pos ⟨hsame, hkept.framebuffer⟩, hs]
      exact ⟨_, _, rfl, _, hkept₁, _, hactive₁, hshows'⟩
    · rw [if_neg fun hboth => hsame hboth.1]
      refine ⟨_, _, rfl, _, hkept' _ rfl rfl rfl, active, hactive, ?_⟩
      have hne : active ≠ ⟨consoleId, hid⟩ := fun heq =>
        hsame ((congrArg Fin.val heq).symm.trans hactive.symm)
      rw [update_of_ne hne]
      exact hshows
  · exact ⟨_, t, rfl, h⟩

theorem InStep.switchActiveConsole (h : InStep c t) (consoleId : ℕ) :
    ∃ result t', t.switchActiveConsole consoleId = .ok (result, t') ∧ InStep c t' := by
  rw [Terminals.switchActiveConsole]
  split_ifs with hid
  · exact ⟨_, t, rfl, h⟩
  · obtain ⟨grids, hkept, active, -, hshows⟩ := h
    have hkept' : Kept c { t.tty with activeConsoleId := consoleId } grids :=
      ⟨hkept.initialized, hkept.outputs, hkept.holds, hkept.inRange⟩
    have hactive' : consoleId = (⟨consoleId, not_le.mp hid⟩ : Fin virtualConsoleCount) := rfl
    obtain ⟨s, hs, hshows'⟩ := hkept'.renderActiveConsole hlaid hsize hactive' t.screen
      hshows.console
    simp only [if_pos hkept.framebuffer, bind, Except.bind, hs, pure, Except.pure]
    exact ⟨_, _, rfl, grids, hkept', _, hactive', hshows'⟩

/-- **A call keeps the screen in step.** -/
theorem InStep.call (h : InStep c t) (op : TtyOp) : ∃ t', t.call op = .ok t' ∧ InStep c t' := by
  cases op with
  | writeStyle style text => exact h.writeStyle hlaid hsize style text
  | writeToConsole consoleId style text =>
    obtain ⟨result, t', ht', h'⟩ := h.writeToConsole hlaid hsize consoleId style text
    refine ⟨t', ?_, h'⟩
    rw [Terminals.call, ht']
    rfl
  | switchActiveConsole consoleId =>
    obtain ⟨result, t', ht', h'⟩ := h.switchActiveConsole hlaid hsize consoleId
    refine ⟨t', ?_, h'⟩
    rw [Terminals.call, ht']
    rfl

/-- **Any calls keep the screen in step.** -/
theorem InStep.run (h : InStep c t) (ops : List TtyOp) :
    ∃ t', t.run ops = .ok t' ∧ InStep c t' :=
  Fallible.foldlM_invariant (fun _ op h => InStep.call hlaid hsize h op) ops h

/-- **The terminal begins in step.** -/
theorem InStep.ttyInitialize (hconsole : t.screen.console = c.withCursor column row) :
    ∃ t', t.ttyInitialize true = .ok t' ∧ InStep c t' := by
  have hcolumns : max (min (c.withCursor column row).columns maxColumns) 1 = c.columns :=
    hsize.clamp_columns
  have hrows : max (min (c.withCursor column row).rows maxRows) 1 = c.rows := hsize.clamp_rows
  rw [Terminals.ttyInitialize]
  simp only [if_true, hconsole, hcolumns, hrows]
  rw [if_pos (by decide)]
  have hkept : Kept c
      { initialized := true
        activeConsoleId := 0
        outputs := outputSerial ||| outputFramebuffer
        bytesWritten := 0
        linesWritten := 0
        columns := c.columns
        rows := c.rows
        consoles := fun k => (t.tty.consoles k).configure c.columns c.rows }
      fun _ => ⟨fun _ _ => .empty, 0, 0⟩ :=
    ⟨rfl, rfl, fun k => .configure _ hsize, fun _ => ⟨Nat.zero_le _, hsize.rows_pos⟩⟩
  have hactive : (0 : ℕ) = (⟨0, by decide⟩ : Fin virtualConsoleCount) := rfl
  obtain ⟨s, hs, hshows⟩ := hkept.renderActiveConsole hlaid hsize hactive t.screen hconsole
  exact ⟨_, hs, _, hkept, _, hactive, hshows⟩

end Calls

/-! ### Pixels and cursors -/

/-- The pixels of the character cells are the same in two memories. -/
def SameCells (c : FramebufferConsole) (m m' : Memory) : Prop :=
  ∀ row < c.rows, ∀ column < c.columns, ∀ dx < charWidth, ∀ dy < charHeight,
    ∀ i < c.bytesPerPixel,
      c.raster.sample m (column * charWidth + dx) (row * charHeight + dy) i =
        c.raster.sample m' (column * charWidth + dx) (row * charHeight + dy) i

/-- The framebuffer cursor is the cursor of the active console, and a full rendering of that
console, on whatever is in the memory, draws the cells that are there. -/
def Synchronised (t : Terminals) : Prop :=
  ∃ active, Terminals.activeConsole t.tty = .ok active ∧
    t.screen.console.cursorColumn = (t.tty.consoles active).cursorColumn ∧
    t.screen.console.cursorRow = (t.tty.consoles active).cursorRow ∧
    ∀ m : Memory, ∃ t',
      Terminals.renderActiveConsole ⟨t.tty, { t.screen with memory := m }⟩ = .ok t' ∧
      SameCells t.screen.console t.screen.memory t'.screen.memory

theorem InStep.synchronised (hlaid : c.Laid) (hsize : Sized c.columns c.rows) (h : InStep c t) :
    Synchronised t := by
  obtain ⟨grids, hkept, active, hactive, hshows⟩ := h
  have hholds := hkept.holds active
  refine ⟨active, Terminals.activeConsole_eq hactive, ?_, ?_, fun m => ?_⟩
  · rw [hshows.console, hholds.cursorColumn]
    rfl
  · rw [hshows.console, hholds.cursorRow]
    rfl
  · obtain ⟨s, hs, hshows'⟩ := hkept.renderActiveConsole hlaid hsize hactive
      { t.screen with memory := m } hshows.console
    refine ⟨_, hs, ?_⟩
    rw [hshows.console]
    intro row hrow column hcolumn dx hdx dy hdy i hi
    exact (hshows.pictured row hrow column hcolumn dx hdx dy hdy i hi).trans
      (hshows'.pictured row hrow column hcolumn dx hdx dy hdy i hi).symm

section

variable {framebuffer : Framebuffer} {bytesPerPixel : ℕ} {console : FramebufferConsole}
    (hdepth : 0 < bytesPerPixel)

include hdepth

/-- The consoles that `new` returns. -/
theorem FramebufferConsole.Laid.new (hpitch : framebuffer.width * bytesPerPixel ≤ framebuffer.pitch)
    (hnew : FramebufferConsole.new framebuffer bytesPerPixel = .ok console) : console.Laid := by
  rw [FramebufferConsole.new] at hnew
  split_ifs at hnew with hsmall
  rw [not_or, not_lt, not_lt, charWidth_eq, charHeight_eq] at hsmall
  cases hnew
  refine ⟨hdepth, hpitch, rfl, rfl, rfl, rfl, Nat.div_mul_le_self .., Nat.div_mul_le_self ..,
    Nat.div_pos ?_ (by decide), Nat.div_pos ?_ (by decide)⟩
  · rw [charWidth_eq]
    omega
  · rw [charHeight_eq]
    omega

/-- **The screen shows the active console.** On every framebuffer that is accepted, whose lines fit
in the pitch and whose characters fit in the virtual consoles, the terminal handles any calls without
an access outside the pixels and without an underflow. Then the pixels of all cells are those that a
full rendering of the active console draws, and the cursors agree. -/
theorem consoles_stay_in_step
    (hnew : FramebufferConsole.new framebuffer bytesPerPixel = .ok console)
    (hcolumns : console.columns ≤ maxColumns) (hrows : console.rows ≤ maxRows)
    (hpitch : framebuffer.width * bytesPerPixel ≤ framebuffer.pitch)
    (tty : TtyConsole) (column row : ℕ) (memory : Memory) (ops : List TtyOp) :
    ∃ t, (do
        let t ← Terminals.ttyInitialize ⟨tty, console.withCursor column row, memory⟩ true
        t.run ops) = .ok t ∧ Synchronised t := by
  have hlaid := FramebufferConsole.Laid.new hdepth hpitch hnew
  have hsize : Sized console.columns console.rows :=
    ⟨hlaid.columns_pos, hcolumns, hlaid.rows_pos, hrows⟩
  obtain ⟨t₁, ht₁, h₁⟩ := InStep.ttyInitialize (c := console)
    (t := ⟨tty, console.withCursor column row, memory⟩) hlaid hsize rfl
  obtain ⟨t₂, ht₂, h₂⟩ := h₁.run hlaid hsize ops
  refine ⟨t₂, ?_, h₂.synchronised hlaid hsize⟩
  rw [ht₁]
  exact ht₂

end

/-- A picture of four by four characters. -/
def smallFramebuffer : Framebuffer where
  width := 48
  height := 64
  pitch := 192
  bpp := 32
  redMaskSize := 8
  redMaskShift := 16
  greenMaskSize := 8
  greenMaskShift := 8
  blueMaskSize := 8
  blueMaskShift := 0
  fits := by decide

theorem consoles_stay_in_step_four_by_four :
    ∃ console,
      FramebufferConsole.new smallFramebuffer smallFramebuffer.bytesPerPixel = .ok console ∧
      ∀ tty memory ops, ∃ t, (do
        let t ← Terminals.ttyInitialize ⟨tty, console.withCursor 0 0, memory⟩ true
        t.run ops) = .ok t ∧ Synchronised t :=
  ⟨_, rfl, fun tty memory ops => consoles_stay_in_step
    (show 0 < smallFramebuffer.bytesPerPixel by decide) rfl (by decide) (by decide)
    (show smallFramebuffer.width * smallFramebuffer.bytesPerPixel ≤ smallFramebuffer.pitch by
      decide) tty 0 0 memory ops⟩

end Hxnu.Console
