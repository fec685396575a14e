import Hxnu.Console.Framebuffer

/-!
# Virtual consoles

The terminal of `kernel/src/tty.rs`: four virtual consoles that keep the characters they show, one
of which is shown on the framebuffer. Text for the active console is drawn at once, text for another
one only when it is switched to.

The serial port, which gets the same text, and the allocation of the glyphs that are handed to
`render_console` are left out.

## Main definitions

* `VirtualConsole`, `VirtualConsole.writeStyle`.
* `TtyConsole`, `Terminals`: the terminal, with the screen it is shown on.
* `Terminals.ttyInitialize`, `Terminals.writeStyle`, `Terminals.writeToConsole`,
  `Terminals.switchActiveConsole`.
-/

namespace Hxnu.Console

open Word Function

namespace Tty

inductive ConsoleStyle
  | default
  | accent
  | success
  | warning
  | error
  | fatal
  | muted
  deriving DecidableEq, Repr

structure ConsoleGlyph where
  ch : Char
  style : ConsoleStyle
  deriving DecidableEq, Repr

def ConsoleGlyph.empty : ConsoleGlyph := ⟨' ', .default⟩

/-- The style on the framebuffer. -/
def ConsoleStyle.fb : ConsoleStyle → Fb.ConsoleStyle
  | .default => .default
  | .accent => .accent
  | .success => .success
  | .warning => .warning
  | .error => .error
  | .fatal => .fatal
  | .muted => .muted

def ConsoleGlyph.fb (glyph : ConsoleGlyph) : Fb.ConsoleGlyph := ⟨glyph.ch, glyph.style.fb⟩

end Tty

open Tty

def outputSerial : UInt8 := 1

def outputFramebuffer : UInt8 := 2

def virtualConsoleCount : ℕ := 4

def defaultColumns : ℕ := 80

def defaultRows : ℕ := 25

def maxColumns : ℕ := 160

def maxRows : ℕ := 70

def maxCells : ℕ := maxColumns * maxRows

inductive TtyError
  | invalidConsole
  deriving DecidableEq, Repr

/-- `text.len()`. -/
def textBytes (text : List Char) : ℕ := (text.map Char.utf8Size).sum

/-! ### A virtual console -/

structure VirtualConsole where
  columns : ℕ
  rows : ℕ
  cursorColumn : ℕ
  cursorRow : ℕ
  bytesWritten : ℕ
  linesWritten : ℕ
  /-- The cells below `maxCells`. -/
  cells : ℕ → ConsoleGlyph

namespace VirtualConsole

section

variable (v : VirtualConsole)

def clear : VirtualConsole :=
  { v with cursorColumn := 0, cursorRow := 0, cells := fun _ => .empty }

def configure (columns rows : ℕ) : VirtualConsole :=
  { ({ v with
        columns := max (min columns maxColumns) 1
        rows := max (min rows maxRows) 1 } : VirtualConsole).clear with
    bytesWritten := 0
    linesWritten := 0 }

def clearRow (row : ℕ) : Except Fault VirtualConsole :=
  let start := row * v.columns
  if maxCells < start + v.columns then .error .indexOutOfBounds
  else
    .ok { v with cells := fun i =>
      if start ≤ i ∧ i < start + v.columns then .empty else v.cells i }

/-- `cells[dst] = cells[src]`. -/
def copyCell (dst src : ℕ) : Except Fault VirtualConsole :=
  if src < maxCells ∧ dst < maxCells then
    .ok { v with cells := update v.cells dst (v.cells src) }
  else .error .indexOutOfBounds

def scrollUp : Except Fault VirtualConsole :=
  if v.rows ≤ 1 then v.clearRow 0
  else do
    let v ← (List.range' 1 (v.rows - 1)).foldlM (fun v row =>
      (List.range v.columns).foldlM (fun v column =>
        v.copyCell ((row - 1) * v.columns + column) (row * v.columns + column)) v) v
    let v ← v.clearRow (v.rows - 1)
    return { v with cursorRow := v.rows - 1 }

def newLine : Except Fault VirtualConsole :=
  let v := { v with cursorColumn := 0 }
  if v.rows ≤ v.cursorRow + 1 then v.scrollUp
  else .ok { v with cursorRow := v.cursorRow + 1 }

def writeChar (style : ConsoleStyle) (ch : Char) : Except Fault VirtualConsole := do
  let v ← if v.columns ≤ v.cursorColumn then v.newLine else pure v
  let index := v.cursorRow * v.columns + v.cursorColumn
  let cells := if index < maxCells then update v.cells index ⟨ch, style⟩ else v.cells
  return { v with cells := cells, cursorColumn := v.cursorColumn + 1 }

def writeStyle (style : ConsoleStyle) (text : List Char) : Except Fault VirtualConsole :=
  text.foldlM (fun v ch =>
    if ch = '\r' then .ok v
    else if ch = '\n' then v.newLine
    else if ch = '\t' then (List.range 4).foldlM (fun v _ => v.writeChar style ' ') v
    else v.writeChar style ch)
    { v with
      bytesWritten := satAdd v.bytesWritten (textBytes text)
      linesWritten := satAdd v.linesWritten (text.count '\n') }

end

end VirtualConsole

/-! ### The terminal -/

structure TtyConsole where
  initialized : Bool
  activeConsoleId : ℕ
  outputs : UInt8
  bytesWritten : ℕ
  linesWritten : ℕ
  columns : ℕ
  rows : ℕ
  consoles : Fin virtualConsoleCount → VirtualConsole

/-- The terminal and the screen. -/
structure Terminals where
  tty : TtyConsole
  screen : Screen

namespace Terminals

/-- `consoles[active]`. -/
def activeConsole (t : TtyConsole) : Except Fault (Fin virtualConsoleCount) :=
  if h : t.activeConsoleId < virtualConsoleCount then .ok ⟨t.activeConsoleId, h⟩
  else .error .indexOutOfBounds

def renderActiveConsole (t : Terminals) : Except Fault Terminals := do
  let active ← activeConsole t.tty
  let v := t.tty.consoles active
  let screen ← t.screen.renderConsole (fun i => (v.cells i).fb) maxCells v.columns v.rows
    v.cursorColumn v.cursorRow
  return { t with screen := screen }

/-- `initialize`, with a framebuffer console in place. -/
def ttyInitialize (t : Terminals) (framebufferOutput : Bool) : Except Fault Terminals := do
  let outputs := if framebufferOutput then outputSerial ||| outputFramebuffer else outputSerial
  let dimensions : ℕ × ℕ :=
    if framebufferOutput then (t.screen.console.columns, t.screen.console.rows)
    else (defaultColumns, defaultRows)
  let columns := max (min dimensions.1 maxColumns) 1
  let rows := max (min dimensions.2 maxRows) 1
  let t : Terminals := { t with tty :=
    { initialized := true
      activeConsoleId := 0
      outputs := outputs
      bytesWritten := 0
      linesWritten := 0
      columns := columns
      rows := rows
      consoles := fun k => (t.tty.consoles k).configure columns rows } }
  if outputs &&& outputFramebuffer ≠ 0 then t.renderActiveConsole else return t

def writeStyle (t : Terminals) (style : ConsoleStyle) (text : List Char) :
    Except Fault Terminals := do
  let outputs := if t.tty.initialized then t.tty.outputs else outputSerial
  let active ← activeConsole t.tty
  let v ← (t.tty.consoles active).writeStyle style text
  let screen ←
    if outputs &&& outputFramebuffer ≠ 0 then t.screen.writeStr style.fb text else pure t.screen
  return {
    tty := { t.tty with
      consoles := update t.tty.consoles active v
      bytesWritten := satAdd t.tty.bytesWritten (textBytes text)
      linesWritten := satAdd t.tty.linesWritten (text.count '\n') }
    screen := screen }

def writeToConsole (t : Terminals) (consoleId : ℕ) (style : ConsoleStyle) (text : List Char) :
    Except Fault (Except TtyError Unit × Terminals) :=
  if h : consoleId < virtualConsoleCount then do
    let v ← (t.tty.consoles ⟨consoleId, h⟩).writeStyle style text
    let t : Terminals :=
      { t with tty := { t.tty with
          consoles := update t.tty.consoles ⟨consoleId, h⟩ v } }
    let t ←
      if consoleId = t.tty.activeConsoleId ∧ t.tty.outputs &&& outputFramebuffer ≠ 0 then
        t.renderActiveConsole
      else pure t
    return (.ok (), t)
  else .ok (.error .invalidConsole, t)

def switchActiveConsole (t : Terminals) (consoleId : ℕ) :
    Except Fault (Except TtyError Unit × Terminals) :=
  if virtualConsoleCount ≤ consoleId then .ok (.error .invalidConsole, t)
  else do
    let t : Terminals := { t with tty := { t.tty with activeConsoleId := consoleId } }
    let t ←
      if t.tty.outputs &&& outputFramebuffer ≠ 0 then t.renderActiveConsole else pure t
    return (.ok (), t)

end Terminals

end Hxnu.Console
