import Mathlib

/-!
# The font of the framebuffer console

The bitmaps of `kernel/src/font.rs`: seven rows of five pixels, the leftmost pixel of a row in bit
4.

## Main definitions

* `lookupGlyph`: the bitmap of a character.
-/

namespace Hxnu.Console

/-- The rows of a character, from the top. -/
abbrev Glyph : Type := Vector UInt8 7

/-- The characters from U+0020 to U+007E. -/
def basicAscii : Vector Glyph 95 :=
  #v[
    #v[0, 0, 0, 0, 0, 0, 0],
    #v[4, 4, 4, 4, 0, 4, 0],
    #v[0xa, 0xa, 0xa, 0, 0, 0, 0],
    #v[0xa, 0xa, 0x1f, 0xa, 0x1f, 0xa, 0xa],
    #v[4, 0xf, 0x14, 0xe, 5, 0x1e, 4],
    #v[0x18, 0x19, 2, 4, 8, 0x13, 3],
    #v[0xc, 0x12, 0x14, 8, 0x15, 0x12, 0xd],
    #v[4, 4, 8, 0, 0, 0, 0],
    #v[2, 4, 8, 8, 8, 4, 2],
    #v[8, 4, 2, 2, 2, 4, 8],
    #v[0, 4, 0x15, 0xe, 0x15, 4, 0],
    #v[0, 4, 4, 0x1f, 4, 4, 0],
    #v[0, 0, 0, 0, 0xc, 0xc, 8],
    #v[0, 0, 0, 0x1f, 0, 0, 0],
    #v[0, 0, 0, 0, 0, 0xc, 0xc],
    #v[1, 1, 2, 4, 8, 0x10, 0x10],
    #v[0xe, 0x11, 0x13, 0x15, 0x19, 0x11, 0xe],
    #v[4, 0xc, 4, 4, 4, 4, 0xe],
    #v[0xe, 0x11, 1, 2, 4, 8, 0x1f],
    #v[0x1f, 2, 4, 2, 1, 0x11, 0xe],
    #v[2, 6, 0xa, 0x12, 0x1f, 2, 2],
    #v[0x1f, 0x10, 0x1e, 1, 1, 0x11, 0xe],
    #v[6, 8, 0x10, 0x1e, 0x11, 0x11, 0xe],
    #v[0x1f, 1, 2, 4, 8, 8, 8],
    #v[0xe, 0x11, 0x11, 0xe, 0x11, 0x11, 0xe],
    #v[0xe, 0x11, 0x11, 0xf, 1, 2, 0xc],
    #v[0, 4, 4, 0, 4, 4, 0],
    #v[0, 4, 4, 0, 4, 4, 8],
    #v[1, 2, 4, 8, 4, 2, 1],
    #v[0, 0, 0x1f, 0, 0x1f, 0, 0],
    #v[0x10, 8, 4, 2, 4, 8, 0x10],
    #v[0xe, 0x11, 1, 2, 4, 0, 4],
    #v[0xe, 0x11, 0x17, 0x15, 0x17, 0x10, 0xf],
    #v[0xe, 0x11, 0x11, 0x1f, 0x11, 0x11, 0x11],
    #v[0x1e, 0x11, 0x11, 0x1e, 0x11, 0x11, 0x1e],
    #v[0xe, 0x11, 0x10, 0x10, 0x10, 0x11, 0xe],
    #v[0x1e, 0x11, 0x11, 0x11, 0x11, 0x11, 0x1e],
    #v[0x1f, 0x10, 0x10, 0x1e, 0x10, 0x10, 0x1f],
    #v[0x1f, 0x10, 0x10, 0x1e, 0x10, 0x10, 0x10],
    #v[0xe, 0x11, 0x10, 0x17, 0x11, 0x11, 0xf],
    #v[0x11, 0x11, 0x11, 0x1f, 0x11, 0x11, 0x11],
    #v[0xe, 4, 4, 4, 4, 4, 0xe],
    #v[1, 1, 1, 1, 0x11, 0x11, 0xe],
    #v[0x11, 0x12, 0x14, 0x18, 0x14, 0x12, 0x11],
    #v[0x10, 0x10, 0x10, 0x10, 0x10, 0x10, 0x1f],
    #v[0x11, 0x1b, 0x15, 0x15, 0x11, 0x11, 0x11],
    #v[0x11, 0x19, 0x15, 0x13, 0x11, 0x11, 0x11],
    #v[0xe, 0x11, 0x11, 0x11, 0x11, 0x11, 0xe],
    #v[0x1e, 0x11, 0x11, 0x1e, 0x10, 0x10, 0x10],
    #v[0xe, 0x11, 0x11, 0x11, 0x15, 0x12, 0xd],
    #v[0x1e, 0x11, 0x11, 0x1e, 0x14, 0x12, 0x11],
    #v[0xf, 0x10, 0x10, 0xe, 1, 1, 0x1e],
    #v[0x1f, 4, 4, 4, 4, 4, 4],
    #v[0x11, 0x11, 0x11, 0x11, 0x11, 0x11, 0xe],
    #v[0x11, 0x11, 0x11, 0x11, 0x11, 0xa, 4],
    #v[0x11, 0x11, 0x11, 0x15, 0x15, 0x1b, 0x11],
    #v[0x11, 0x11, 0xa, 4, 0xa, 0x11, 0x11],
    #v[0x11, 0x11, 0xa, 4, 4, 4, 4],
    #v[0x1f, 1, 2, 4, 8, 0x10, 0x1f],
    #v[0xe, 8, 8, 8, 8, 8, 0xe],
    #v[0x10, 0x10, 8, 4, 2, 1, 1],
    #v[0xe, 2, 2, 2, 2, 2, 0xe],
    #v[4, 0xa, 0x11, 0, 0, 0, 0],
    #v[0, 0, 0, 0, 0, 0, 0x1f],
    #v[8, 4, 2, 0, 0, 0, 0],
    #v[0, 0, 0xe, 1, 0xf, 0x11, 0xf],
    #v[0x10, 0x10, 0x16, 0x19, 0x11, 0x11, 0x1e],
    #v[0, 0, 0xe, 0x10, 0x10, 0x11, 0xe],
    #v[1, 1, 0xd, 0x13, 0x11, 0x11, 0xf],
    #v[0, 0, 0xe, 0x11, 0x1f, 0x10, 0xe],
    #v[6, 9, 8, 0x1c, 8, 8, 8],
    #v[0, 0, 0xf, 0x11, 0xf, 1, 0xe],
    #v[0x10, 0x10, 0x16, 0x19, 0x11, 0x11, 0x11],
    #v[4, 0, 0xc, 4, 4, 4, 0xe],
    #v[2, 0, 6, 2, 2, 0x12, 0xc],
    #v[0x10, 0x10, 0x12, 0x14, 0x18, 0x14, 0x12],
    #v[0xc, 4, 4, 4, 4, 4, 0xe],
    #v[0, 0, 0x1a, 0x15, 0x15, 0x11, 0x11],
    #v[0, 0, 0x16, 0x19, 0x11, 0x11, 0x11],
    #v[0, 0, 0xe, 0x11, 0x11, 0x11, 0xe],
    #v[0, 0, 0x1e, 0x11, 0x1e, 0x10, 0x10],
    #v[0, 0, 0xf, 0x11, 0xf, 1, 1],
    #v[0, 0, 0x16, 0x19, 0x10, 0x10, 0x10],
    #v[0, 0, 0xe, 0x10, 0xe, 1, 0x1e],
    #v[8, 8, 0x1c, 8, 8, 9, 6],
    #v[0, 0, 0x11, 0x11, 0x11, 0x13, 0xd],
    #v[0, 0, 0x11, 0x11, 0x11, 0xa, 4],
    #v[0, 0, 0x11, 0x11, 0x15, 0x15, 0xa],
    #v[0, 0, 0x11, 0xa, 4, 0xa, 0x11],
    #v[0, 0, 0x11, 0x11, 0xf, 1, 0xe],
    #v[0, 0, 0x1f, 2, 4, 8, 0x1f],
    #v[2, 4, 4, 8, 4, 4, 2],
    #v[4, 4, 4, 4, 4, 4, 4],
    #v[8, 4, 4, 2, 4, 4, 8],
    #v[0, 0xd, 0x16, 0, 0, 0, 0]]

/-- The characters from U+0410 to U+044F. -/
def cyrillicGlyphs : Vector Glyph 64 :=
  #v[
    #v[0xe, 0x11, 0x11, 0x1f, 0x11, 0x11, 0x11],
    #v[0x1f, 0x10, 0x10, 0x1e, 0x11, 0x11, 0x1e],
    #v[0x1e, 0x11, 0x11, 0x1e, 0x11, 0x11, 0x1e],
    #v[0x1f, 0x10, 0x10, 0x10, 0x10, 0x10, 0x10],
    #v[0xe, 0xa, 0xa, 0xa, 0xa, 0x1f, 0x11],
    #v[0x1f, 0x10, 0x10, 0x1e, 0x10, 0x10, 0x1f],
    #v[0x15, 0x15, 0xe, 4, 0xe, 0x15, 0x15],
    #v[0xe, 0x11, 1, 6, 1, 0x11, 0xe],
    #v[0x11, 0x11, 0x13, 0x15, 0x19, 0x11, 0x11],
    #v[0xa, 0x11, 0x13, 0x15, 0x19, 0x11, 0x11],
    #v[0x11, 0x12, 0x14, 0x18, 0x14, 0x12, 0x11],
    #v[7, 9, 9, 9, 9, 9, 0x11],
    #v[0x11, 0x1b, 0x15, 0x15, 0x11, 0x11, 0x11],
    #v[0x11, 0x11, 0x11, 0x1f, 0x11, 0x11, 0x11],
    #v[0xe, 0x11, 0x11, 0x11, 0x11, 0x11, 0xe],
    #v[0x1f, 0x11, 0x11, 0x11, 0x11, 0x11, 0x11],
    #v[0x1e, 0x11, 0x11, 0x1e, 0x10, 0x10, 0x10],
    #v[0xe, 0x11, 0x10, 0x10, 0x10, 0x11, 0xe],
    #v[0x1f, 4, 4, 4, 4, 4, 4],
    #v[0x11, 0x11, 0x11, 0xa, 4, 4, 8],
    #v[4, 0xe, 0x15, 0x15, 0xe, 4, 4],
    #v[0x11, 0x11, 0xa, 4, 0xa, 0x11, 0x11],
    #v[0x11, 0x11, 0x11, 0x11, 0x11, 0x1f, 1],
    #v[0x11, 0x11, 0x11, 0xf, 1, 1, 1],
    #v[0x11, 0x11, 0x11, 0x15, 0x15, 0x15, 0x1f],
    #v[0x11, 0x11, 0x11, 0x15, 0x15, 0x1f, 1],
    #v[0x18, 8, 8, 0xe, 9, 9, 0xe],
    #v[0x11, 0x11, 0x11, 0x1d, 0x15, 0x15, 0x1d],
    #v[0x10, 0x10, 0x10, 0x1c, 0x12, 0x12, 0x1c],
    #v[0xe, 1, 1, 0xd, 1, 1, 0xe],
    #v[0x12, 0x15, 0x15, 0x1d, 0x15, 0x15, 0x12],
    #v[0xf, 0x11, 0x11, 0xf, 5, 9, 0x11],
    #v[0, 0, 0xe, 1, 0xf, 0x11, 0xf],
    #v[0xe, 0x10, 0x10, 0x1c, 0x12, 0x12, 0x1c],
    #v[0, 0, 0x1c, 0x12, 0x1c, 0x12, 0x1c],
    #v[0, 0, 0x1f, 0x10, 0x10, 0x10, 0x10],
    #v[0, 0, 0xe, 0xa, 0xa, 0x1f, 0x11],
    #v[0, 0, 0xe, 0x11, 0x1f, 0x10, 0xe],
    #v[0, 0, 0x15, 0xe, 4, 0xe, 0x15],
    #v[0, 0, 0x1e, 2, 0xc, 2, 0x1c],
    #v[0, 0, 0x11, 0x13, 0x15, 0x19, 0x11],
    #v[0xa, 0, 0x11, 0x13, 0x15, 0x19, 0x11],
    #v[0, 0, 0x11, 0x12, 0x1c, 0x12, 0x11],
    #v[0, 0, 0xf, 9, 9, 9, 0x11],
    #v[0, 0, 0x11, 0x1b, 0x15, 0x11, 0x11],
    #v[0, 0, 0x11, 0x11, 0x1f, 0x11, 0x11],
    #v[0, 0, 0xe, 0x11, 0x11, 0x11, 0xe],
    #v[0, 0, 0x1f, 0x11, 0x11, 0x11, 0x11],
    #v[0, 0, 0x1e, 0x11, 0x1e, 0x10, 0x10],
    #v[0, 0, 0xe, 0x10, 0x10, 0x10, 0xe],
    #v[0, 0, 0x1f, 4, 4, 4, 4],
    #v[0, 0, 0x11, 0x11, 0xf, 1, 0xe],
    #v[4, 0xe, 0x15, 0x15, 0xe, 4, 4],
    #v[0, 0, 0x11, 0xa, 4, 0xa, 0x11],
    #v[0, 0, 0x11, 0x11, 0x11, 0x1f, 1],
    #v[0, 0, 0x11, 0x11, 0xf, 1, 1],
    #v[0, 0, 0x11, 0x11, 0x15, 0x15, 0x1f],
    #v[0, 0, 0x11, 0x15, 0x15, 0x1f, 1],
    #v[0, 0, 0x18, 8, 0xe, 9, 0xe],
    #v[0, 0, 0x11, 0x11, 0x1d, 0x15, 0x1d],
    #v[0, 0, 0x10, 0x10, 0x1c, 0x12, 0x1c],
    #v[0, 0, 0xe, 1, 0xd, 1, 0xe],
    #v[0, 0, 0x12, 0x15, 0x1d, 0x15, 0x12],
    #v[0, 0, 0xf, 0x11, 0xf, 5, 0x11]]

/-- The letters that are looked up one by one. -/
def specialGlyph : Char → Option Glyph
  | 'Ç' => some #v[0xe, 0x11, 0x10, 0x10, 0x11, 0xe, 4]
  | 'ç' => some #v[0, 0xe, 0x11, 0x10, 0x11, 0xe, 4]
  | 'Ğ' => some #v[0xa, 0xe, 0x11, 0x10, 0x17, 0x11, 0xf]
  | 'ğ' => some #v[0xa, 0, 0xf, 0x11, 0xf, 1, 0xe]
  | 'İ' => some #v[4, 0xe, 4, 4, 4, 4, 0xe]
  | 'ı' => some #v[0, 0, 0xc, 4, 4, 4, 0xe]
  | 'Ö' => some #v[0xa, 0xe, 0x11, 0x11, 0x11, 0x11, 0xe]
  | 'ö' => some #v[0xa, 0, 0xe, 0x11, 0x11, 0x11, 0xe]
  | 'Ş' => some #v[0xf, 0x10, 0xe, 1, 0x1e, 4, 8]
  | 'ş' => some #v[0, 0xe, 0x10, 0xe, 1, 0x1e, 4]
  | 'Ü' => some #v[0xa, 0x11, 0x11, 0x11, 0x11, 0x11, 0xe]
  | 'ü' => some #v[0xa, 0, 0x11, 0x11, 0x11, 0x13, 0xd]
  | 'Ё' => some #v[0xa, 0x1f, 0x10, 0x1e, 0x10, 0x10, 0x1f]
  | 'ё' => some #v[0xa, 0, 0xe, 0x11, 0x1f, 0x10, 0xe]
  | _ => none

/-- `lookup_glyph`. A character without a bitmap is shown as a box. -/
def lookupGlyph (ch : Char) : Glyph :=
  let cp := ch.toNat
  if h : 0x20 ≤ cp ∧ cp ≤ 0x7E then basicAscii[cp - 0x20]
  else
    match specialGlyph ch with
    | some glyph => glyph
    | none =>
      if h : 0x0410 ≤ cp ∧ cp ≤ 0x042F then cyrillicGlyphs[cp - 0x0410]
      else if h : 0x0430 ≤ cp ∧ cp ≤ 0x044F then cyrillicGlyphs[cp - 0x0430 + 32]
      else #v[0x1f, 0x11, 0xa, 4, 0xa, 0x11, 0x1f]

/-- A space has no ink. -/
theorem lookupGlyph_space : lookupGlyph ' ' = #v[0, 0, 0, 0, 0, 0, 0] := rfl

end Hxnu.Console
