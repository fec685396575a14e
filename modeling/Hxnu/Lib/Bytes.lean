import Hxnu.Lib.Buffer
import Hxnu.Lib.Tables
import Hxnu.Lib.Words

/-!
# Bytes of a memory of words

A memory of eight-byte words is also a memory of bytes: byte `x` is byte `x % 8` of the word at the
multiple of eight below `x`, the lowest byte first. Storing bytes changes the words they lie in and
keeps the other bytes of these words.

## Main definitions

* `Words.byteAt`, `Words.writeBytes`.

## Main results

* `Words.byteAt_writeBytes`: reading bytes after storing bytes.
* `Words.writeBytes_of_not_mem`: words outside a page that holds the bytes are kept.
-/

namespace Hxnu.Words

open Buffer Tables

/-- The byte at address `x`. -/
def byteAt (mem : ℕ → ℕ) (x : ℕ) : UInt8 := (leBytes 8 (mem (x / 8 * 8))).getD (x % 8) 0

/-- Store the bytes `bs` from address `a` on. -/
def writeBytes (mem : ℕ → ℕ) (a : ℕ) (bs : List UInt8) : ℕ → ℕ := fun w =>
  if w % 8 = 0 ∧ w < a + bs.length ∧ a < w + 8 then
    ofLeBytes ((List.range 8).map fun j =>
      if a ≤ w + j ∧ w + j < a + bs.length then bs.getD (w + j - a) 0 else byteAt mem (w + j))
  else mem w

variable {mem mem' : ℕ → ℕ} {a f x : ℕ} {bs : List UInt8}

theorem byteAt_congr (h : mem' (x / 8 * 8) = mem (x / 8 * 8)) : byteAt mem' x = byteAt mem x := by
  rw [byteAt, byteAt, h]

/-- Pages with the same words have the same bytes. -/
theorem byteAt_of_words (ha : 8 ∣ a) (hb : 8 ∣ b) (h : ∀ i < n, mem' (b + 8 * i) = mem (a + 8 * i))
    (hx : x < 8 * n) : byteAt mem' (b + x) = byteAt mem (a + x) := by
  have hindex (c : ℕ) (hc : 8 ∣ c) : (c + x) / 8 * 8 = c + 8 * (x / 8) ∧ (c + x) % 8 = x % 8 := by
    omega
  rw [byteAt, byteAt, (hindex a ha).1, (hindex a ha).2, (hindex b hb).1, (hindex b hb).2,
    h (x / 8) (by omega)]

/-- **A byte read after a write** is the byte written there, or the old one. -/
theorem byteAt_writeBytes (x : ℕ) : byteAt (writeBytes mem a bs) x =
    if a ≤ x ∧ x < a + bs.length then bs.getD (x - a) 0 else byteAt mem x := by
  have hx : x / 8 * 8 + x % 8 = x := by omega
  by_cases hword : x / 8 * 8 < a + bs.length ∧ a < x / 8 * 8 + 8
  · have hbytes : ∀ l : List UInt8, l.length = 8 → (leBytes 8 (ofLeBytes l)) = l := by
      intro l hl
      rw [← hl]
      exact leBytes_ofLeBytes l
    rw [byteAt, writeBytes, if_pos ⟨by omega, hword⟩, hbytes _ (by simp)]
    rw [List.getD_eq_getElem _ _ (by simp; omega), List.getElem_map, List.getElem_range, hx]
  · rw [if_neg (by omega)]
    refine byteAt_congr ?_
    rw [writeBytes, if_neg (by omega)]

/-- Words outside a page that holds the bytes are kept. -/
theorem writeBytes_of_not_mem (hf : 8 ∣ f) (ha : f ≤ a) (hb : a + bs.length ≤ f + 8 * n)
    (hw : w ∉ page n f) : writeBytes mem a bs w = mem w := by
  rw [writeBytes, if_neg]
  rintro ⟨hmod, hlow, hhigh⟩
  exact hw ⟨(w - f) / 8, by omega, by omega⟩

/-- The bytes of a zeroed block. -/
theorem byteAt_fill_zero (ha : 8 ∣ a) (hlow : a ≤ x) (hhigh : x < a + 8 * n) :
    byteAt (fill mem a n fun _ => 0) x = 0 := by
  have hword : fill mem a n (fun _ => 0) (x / 8 * 8) = 0 := by
    rw [fill, if_pos (by omega)]
  rw [byteAt, hword]
  have hx : x % 8 < 8 := Nat.mod_lt x (by decide)
  generalize x % 8 = j at hx
  interval_cases j <;> rfl

/-- The word of a byte of a page is a word of the page. -/
theorem word_mem_page (hf : 8 ∣ f) (hlow : f ≤ x) (hhigh : x < f + 8 * n) : x / 8 * 8 ∈ page n f :=
  ⟨(x - f) / 8, by omega, by omega⟩

end Hxnu.Words
