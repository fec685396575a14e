import Hxnu.Lib.Word

/-!
# The memory routines of the freestanding build

`memmove` picks its direction from the addresses: forwards, through `memcpy`, when the destination
does not start inside the source, and backwards otherwise (`runtime.rs`). Either way the byte
that is read next has not been overwritten yet, so the block arrives as it was.

## Main definitions

* `memcpy`, `memmove`: the two loops over a memory of bytes.
* `moved`: the memory in which a block has been moved.

## Main results

* `memmove_moves`: `memmove` moves the block, whatever the overlap, and nothing else.
-/

namespace Hxnu.Runtime

open Word

/-- The bytes of the address space. -/
abbrev Memory := ℕ → UInt8

/-- `*dest.add(index) = *src.add(index)`. -/
def copyByte (memory : Memory) (dest src index : ℕ) : Memory :=
  Function.update memory (wrapAdd dest index) (memory (wrapAdd src index))

/-- The loop of `memcpy`. -/
def memcpyLoop (dest src len : ℕ) (memory : Memory) (index : ℕ) : Memory :=
  if index < len then memcpyLoop dest src len (copyByte memory dest src index) (index + 1)
  else memory
  termination_by len - index

/-- `memcpy`: the returned pointer and the memory after the call. -/
def memcpy (memory : Memory) (dest src len : ℕ) : ℕ × Memory :=
  (dest, memcpyLoop dest src len memory 0)

/-- The backward loop of `memmove`. -/
def memmoveLoop (dest src : ℕ) (memory : Memory) : ℕ → Memory
  | 0 => memory
  | index + 1 => memmoveLoop dest src (copyByte memory dest src index) index

/-- `memmove`. -/
def memmove (memory : Memory) (dest src len : ℕ) : ℕ × Memory :=
  if dest ≤ src ∨ satAdd src len ≤ dest then memcpy memory dest src len
  else (dest, memmoveLoop dest src memory len)

/-- The memory in which the bytes `lo` to `hi` of the block at `src` have been moved to `dest`. -/
def moved (dest src lo hi : ℕ) (memory : Memory) : Memory := fun a =>
  if dest + lo ≤ a ∧ a < dest + hi then memory (a - dest + src) else memory a

variable {dest src len : ℕ}

theorem copyByte_apply (hdest : dest + i < 2 ^ 64) (hsrc : src + i < 2 ^ 64) (a : ℕ) :
    copyByte memory dest src i a = if a = dest + i then memory (src + i) else memory a := by
  rw [copyByte, wrapAdd_of_lt hdest, wrapAdd_of_lt hsrc, Function.update_apply]

/-- The forward loop. Its invariant is in the condition on the addresses: no byte still to be read
lies where the loop has written. -/
theorem memcpyLoop_eq (hdest : dest + len ≤ 2 ^ 64) (hsrc : src + len ≤ 2 ^ 64)
    (hapart : 0 < len → dest ≤ src ∨ src + len ≤ dest) (memory : Memory) (i : ℕ) :
    memcpyLoop dest src len memory i = moved dest src i len memory := by
  fun_induction memcpyLoop dest src len memory i with
  | case1 memory i hi ih =>
    rw [ih]
    funext a
    simp only [moved, copyByte_apply (show dest + i < 2 ^ 64 by omega)
      (show src + i < 2 ^ 64 by omega)]
    grind
  | case2 memory i hi =>
    funext a
    rw [moved, if_neg (by omega)]

/-- The backward loop, which starts where the destination lies behind the source. -/
theorem memmoveLoop_eq (hbehind : src < dest) (memory : Memory) (n : ℕ)
    (hdest : dest + n ≤ 2 ^ 64) :
    memmoveLoop dest src memory n = moved dest src 0 n memory := by
  induction n generalizing memory with
  | zero =>
    funext a
    rw [memmoveLoop, moved, if_neg (by omega)]
  | succ n ih =>
    rw [memmoveLoop, ih _ (by omega)]
    funext a
    simp only [moved, copyByte_apply (show dest + n < 2 ^ 64 by omega)
      (show src + n < 2 ^ 64 by omega)]
    grind

/-- **`memmove` moves the block.** For any two blocks within the address space, overlapping or
not, the destination afterwards holds the bytes the source held before, every other byte is
unchanged, and the destination is returned. -/
theorem memmove_moves (memory : Memory) (dest src len : ℕ) (hdest : dest + len ≤ 2 ^ 64)
    (hsrc : src + len ≤ 2 ^ 64) :
    (memmove memory dest src len).1 = dest ∧
      (∀ i < len, (memmove memory dest src len).2 (dest + i) = memory (src + i)) ∧
      ∀ a, a < dest ∨ dest + len ≤ a → (memmove memory dest src len).2 a = memory a := by
  have hmove : memmove memory dest src len = (dest, moved dest src 0 len memory) := by
    rw [memmove, satAdd, maxValue]
    split_ifs with hforward
    · rw [memcpy, memcpyLoop_eq hdest hsrc (by omega)]
    · rw [memmoveLoop_eq (by omega) memory len hdest]
  rw [hmove]
  refine ⟨rfl, fun i hi => ?_, fun a ha => if_neg (by omega)⟩
  refine (if_pos (by omega)).trans ?_
  rw [show dest + i - dest + src = src + i by omega]

theorem memmove_moves_overlapping : (memmove UInt8.ofNat 17 16 4).2 20 = 19 :=
  (memmove_moves UInt8.ofNat 17 16 4 (by norm_num) (by norm_num)).2.1 3 (by norm_num)

end Hxnu.Runtime
