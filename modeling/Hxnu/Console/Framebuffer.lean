import Hxnu.Console.Font
import Hxnu.Lib.Raster
import Hxnu.Lib.Word

/-!
# The framebuffer console

The console of `kernel/src/fb.rs`, which draws text into the memory of a framebuffer. The memory is
a function from offsets to bytes; an access outside the pixels of the framebuffer, a copy between
overlapping ranges and a subtraction below zero are faults.

Colours are 32-bit words with the arithmetic of a release build. The alignment of the 32-bit stores
and the header colours, which nothing here draws with, are left out.

## Main definitions

* `Framebuffer`, `FramebufferConsole`, `Screen`: the console and the memory it draws in.
* `FramebufferConsole.new`.
* `FramebufferConsole.fillRect`, `FramebufferConsole.drawGlyph`.
* `Screen.writeStr`, `Screen.scrollUp`, `Screen.renderConsole`.
-/

namespace Hxnu.Console

open Word

/-- What must not happen while text is written. -/
inductive Fault
  | outOfBounds
  | overlap
  | underflow
  | indexOutOfBounds
  deriving DecidableEq, Repr

inductive FramebufferError
  | consoleAreaTooSmall
  deriving DecidableEq, Repr

namespace Fb

inductive ConsoleStyle
  | default
  | accent
  | success
  | warning
  | error
  | fatal
  | muted
  deriving DecidableEq, Repr

structure ConsoleGlyph where
  ch : Char
  style : ConsoleStyle
  deriving DecidableEq, Repr

def ConsoleGlyph.empty : ConsoleGlyph := ⟨' ', .default⟩

end Fb

open Fb

def fontScale : ℕ := 2

def glyphWidth : ℕ := 5

def charWidth : ℕ := 6 * fontScale

def charHeight : ℕ := 8 * fontScale

/-- The framebuffer that the boot loader describes. -/
structure Framebuffer where
  width : ℕ
  height : ℕ
  pitch : ℕ
  bpp : ℕ
  redMaskSize : UInt8
  redMaskShift : UInt8
  greenMaskSize : UInt8
  greenMaskShift : UInt8
  blueMaskSize : UInt8
  blueMaskShift : UInt8
  /-- Its memory lies in the 64-bit address space. -/
  fits : pitch * height ≤ 2 ^ 64

/-- `bpp.div_ceil(8)`. -/
def Framebuffer.bytesPerPixel (fb : Framebuffer) : ℕ := (fb.bpp + 7) / 8

def packChannel (value size shift : UInt8) : UInt32 :=
  if size = 0 then 0
  else
    let max : UInt32 := (1 <<< size.toUInt32) - 1
    let scaled := (value.toUInt32 * max + 127) / 255
    scaled <<< shift.toUInt32

def Framebuffer.packRgb (fb : Framebuffer) (red green blue : UInt8) : UInt32 :=
  packChannel red fb.redMaskSize fb.redMaskShift |||
    packChannel green fb.greenMaskSize fb.greenMaskShift |||
    packChannel blue fb.blueMaskSize fb.blueMaskShift

structure FramebufferConsole where
  framebuffer : Framebuffer
  bytesPerPixel : ℕ
  background : UInt32
  accent : UInt32
  text : UInt32
  success : UInt32
  warning : UInt32
  error : UInt32
  fatal : UInt32
  muted : UInt32
  logOriginX : ℕ
  logOriginY : ℕ
  logWidth : ℕ
  logHeight : ℕ
  columns : ℕ
  rows : ℕ
  cursorColumn : ℕ
  cursorRow : ℕ

/-- The bytes of the framebuffer, by their offset. -/
abbrev Memory : Type := ℕ → UInt8

/-- A byte of a colour, the lowest first. -/
def colorByte (color : UInt32) (i : ℕ) : UInt8 := (color >>> UInt32.ofNat (i * 8) &&& 0xff).toUInt8

namespace FramebufferConsole

def new (framebuffer : Framebuffer) (bytesPerPixel : ℕ) :
    Except FramebufferError FramebufferConsole :=
  if framebuffer.width < charWidth * 4 ∨ framebuffer.height < charHeight * 4 then
    .error .consoleAreaTooSmall
  else
    let columns := framebuffer.width / charWidth
    let rows := framebuffer.height / charHeight
    .ok
      { framebuffer := framebuffer
        bytesPerPixel := bytesPerPixel
        background := framebuffer.packRgb 0x09 0x11 0x1b
        accent := framebuffer.packRgb 0x2d 0xd4 0xbf
        text := framebuffer.packRgb 0xf5 0xf7 0xfa
        success := framebuffer.packRgb 0x8b 0xe9 0x7d
        warning := framebuffer.packRgb 0xff 0xc8 0x57
        error := framebuffer.packRgb 0xff 0x6b 0x6b
        fatal := framebuffer.packRgb 0xff 0x4d 0x6d
        muted := framebuffer.packRgb 0x94 0xa3 0xb8
        logOriginX := 0
        logOriginY := 0
        logWidth := columns * charWidth
        logHeight := rows * charHeight
        columns := columns
        rows := rows
        cursorColumn := 0
        cursorRow := 0 }

variable (c : FramebufferConsole)

/-- The picture that the framebuffer is. -/
def raster : Raster :=
  ⟨c.framebuffer.width, c.framebuffer.height, c.framebuffer.pitch, c.bytesPerPixel⟩

def styleColor : ConsoleStyle → UInt32
  | .default => c.text
  | .accent => c.accent
  | .success => c.success
  | .warning => c.warning
  | .error => c.error
  | .fatal => c.fatal
  | .muted => c.muted

/-! ### Pixels -/

def storeByte (m : Memory) (offset : ℕ) (byte : UInt8) : Except Fault Memory :=
  if c.raster.Inside offset then .ok (Function.update m offset byte) else .error .outOfBounds

/-- Store the first `n` bytes of a colour. -/
def storeColor (m : Memory) (offset : ℕ) (color : UInt32) (n : ℕ) : Except Fault Memory :=
  (List.range n).foldlM (fun m i => c.storeByte m (offset + i) (colorByte color i)) m

def writePixel (m : Memory) (x y : ℕ) (color : UInt32) : Except Fault Memory :=
  if c.framebuffer.width ≤ x ∨ c.framebuffer.height ≤ y then .ok m
  else
    c.storeColor m (satAdd (satMul y c.framebuffer.pitch) (satMul x c.bytesPerPixel)) color
      c.bytesPerPixel

def fillRect (m : Memory) (x y width height : ℕ) (color : UInt32) : Except Fault Memory :=
  let maxX := min (satAdd x width) c.framebuffer.width
  let maxY := min (satAdd y height) c.framebuffer.height
  if maxX < x ∨ maxY < y then .error .underflow
  else if maxX - x = 0 ∨ maxY - y = 0 then .ok m
  else if c.bytesPerPixel = 4 then
    (List.range' y (maxY - y)).foldlM (fun m currentY =>
      let offset := (currentY * c.framebuffer.pitch + x * 4) % 2 ^ 64
      (List.range (maxX - x)).foldlM (fun m i => c.storeColor m (offset + i * 4) color 4) m) m
  else
    (List.range' y (maxY - y)).foldlM (fun m currentY =>
      (List.range' x (maxX - x)).foldlM (fun m currentX =>
        c.writePixel m currentX currentY color) m) m

/-- Is there ink in a row and column of a bitmap? -/
def inkAt (ch : Char) (row : Fin 7) (column : ℕ) : Bool :=
  (lookupGlyph ch)[row] &&& (1 <<< UInt8.ofNat (glyphWidth - 1 - column)) != 0

def drawGlyph (m : Memory) (x y : ℕ) (ch : Char) (color : UInt32) (scale : ℕ) :
    Except Fault Memory :=
  (List.finRange 7).foldlM (fun m rowIndex =>
    (List.range glyphWidth).foldlM (fun m column =>
      if inkAt ch rowIndex column then
        c.fillRect m (satAdd x (column * scale)) (satAdd y (rowIndex * scale)) scale scale color
      else .ok m) m) m

/-- `copy_nonoverlapping`. -/
def copy (m : Memory) (src dst n : ℕ) : Except Fault Memory :=
  if src < dst + n ∧ dst < src + n then .error .overlap
  else if (List.range n).all fun k => c.raster.Inside (src + k) && c.raster.Inside (dst + k) then
    .ok fun o => if dst ≤ o ∧ o < dst + n then m (src + (o - dst)) else m o
  else .error .outOfBounds

end FramebufferConsole

/-- The console and the memory of the framebuffer. -/
structure Screen where
  console : FramebufferConsole
  memory : Memory

namespace Screen

section

variable (s : Screen)

def setCursor (column row : ℕ) : Screen :=
  { s with console := { s.console with cursorColumn := column, cursorRow := row } }

def scrollUp : Except Fault Screen :=
  let c := s.console
  if c.logOriginY + c.logHeight < charHeight ∨ c.rows = 0 then .error .underflow
  else do
    let endY := c.logOriginY + c.logHeight - charHeight
    let bytesPerLine := c.logWidth * c.bytesPerPixel
    let m ← (List.range' c.logOriginY (endY - c.logOriginY)).foldlM (fun m y =>
      let srcOffset := ((y + charHeight) * c.framebuffer.pitch +
        c.logOriginX * c.bytesPerPixel) % 2 ^ 64
      let dstOffset := (y * c.framebuffer.pitch + c.logOriginX * c.bytesPerPixel) % 2 ^ 64
      c.copy m srcOffset dstOffset bytesPerLine) s.memory
    let m ← c.fillRect m c.logOriginX endY c.logWidth charHeight c.background
    return ({ s with memory := m }).setCursor c.cursorColumn (c.rows - 1)

def newLine : Except Fault Screen :=
  let s := s.setCursor 0 s.console.cursorRow
  if s.console.rows ≤ s.console.cursorRow + 1 then s.scrollUp
  else .ok (s.setCursor 0 (s.console.cursorRow + 1))

def writeChar (style : ConsoleStyle) (ch : Char) : Except Fault Screen := do
  let s ← if s.console.columns ≤ s.console.cursorColumn then s.newLine else pure s
  let c := s.console
  let x := c.logOriginX + c.cursorColumn * charWidth
  let y := c.logOriginY + c.cursorRow * charHeight
  let m ← c.fillRect s.memory x y charWidth charHeight c.background
  let m ← c.drawGlyph m (x + fontScale) (y + fontScale) ch (c.styleColor style) fontScale
  return ({ s with memory := m }).setCursor (c.cursorColumn + 1) c.cursorRow

def writeStr (style : ConsoleStyle) (text : List Char) : Except Fault Screen :=
  text.foldlM (fun s ch =>
    if ch = '\r' then .ok s
    else if ch = '\n' then s.newLine
    else if ch = '\t' then (List.range 4).foldlM (fun s _ => s.writeChar style ' ') s
    else s.writeChar style ch) s

def clearLogRegion : Except Fault Screen := do
  let c := s.console
  let m ← c.fillRect s.memory c.logOriginX c.logOriginY c.logWidth c.logHeight c.background
  return ({ s with memory := m }).setCursor 0 0

def drawConsoleCell (row column : ℕ) (glyph : ConsoleGlyph) : Except Fault Screen := do
  let c := s.console
  let x := c.logOriginX + column * charWidth
  let y := c.logOriginY + row * charHeight
  let m ← c.fillRect s.memory x y charWidth charHeight c.background
  let m ←
    if glyph.ch ≠ ' ' then
      c.drawGlyph m (x + fontScale) (y + fontScale) glyph.ch (c.styleColor glyph.style) fontScale
    else pure m
  return { s with memory := m }

/-- `render_console`; `cells` are the first `len` cells of a console. -/
def renderConsole (cells : ℕ → ConsoleGlyph)
    (len columns rows cursorColumn cursorRow : ℕ) : Except Fault Screen := do
  let renderColumns := min columns s.console.columns
  let renderRows := min rows s.console.rows
  let s ← s.clearLogRegion
  let s ← (List.range renderRows).foldlM (fun s row =>
    (List.range renderColumns).foldlM (fun s column =>
      let index := satAdd (satMul row columns) column
      s.drawConsoleCell row column (if index < len then cells index else .empty)) s) s
  return s.setCursor (min cursorColumn renderColumns) (min cursorRow (renderRows - 1))

end

end Screen

end Hxnu.Console
