import Mathlib

/-!
# Buffers and little-endian words

A buffer is a list. `splice buf i xs` overwrites the elements of `buf` from index `i` on with `xs`,
and `slice buf i n` reads `n` elements from index `i` on. `leBytes n v` is the little-endian form of
`v` in `n` bytes and `ofLeBytes` reads it back.

## Main results

* `Buffer.take_splice`, `Buffer.slice_splice`, `Buffer.take_splice_of_le`: what a write changes and
  what it leaves.
* `Buffer.splice_splice`: consecutive writes are one write.
* `Buffer.ofLeBytes_leBytes`, `Buffer.leBytes_ofLeBytes`: words survive the round trip through
  bytes, and bytes the one through words.
-/

namespace Hxnu.Buffer

open List

section Splice

variable {α : Type*} {buf xs ys : List α} {i j n : ℕ}

/-- Overwrite `buf` from index `i` on with `xs`. -/
def splice (buf : List α) (i : ℕ) (xs : List α) : List α :=
  buf.take i ++ xs ++ buf.drop (i + xs.length)

/-- The `n` elements of `buf` from index `i` on. -/
def slice (buf : List α) (i n : ℕ) : List α := (buf.drop i).take n

theorem length_splice (h : i + xs.length ≤ buf.length) : (splice buf i xs).length = buf.length := by
  simp only [splice, length_append, length_take, length_drop]
  omega

/-- After a write, the buffer up to the end of the write. -/
theorem take_splice (h : i ≤ buf.length) :
    (splice buf i xs).take (i + xs.length) = buf.take i ++ xs := by
  rw [splice, take_append_of_le_length]
  · exact take_of_length_le (by simp [h])
  · simp [h]

theorem slice_splice (h : i ≤ buf.length) : slice (splice buf i xs) i xs.length = xs := by
  have hlen : (buf.take i).length = i := by simp [h]
  rw [slice, splice, append_assoc, drop_append, hlen, drop_take_self,
    nil_append, Nat.sub_self, drop_zero, take_left]

/-- A read that starts after a write does not see it. -/
theorem slice_splice_of_ge (hj : i + xs.length ≤ j) (h : i ≤ buf.length) :
    slice (splice buf i xs) j n = slice buf j n := by
  have hlen : (buf.take i ++ xs).length = i + xs.length := by simp [h]
  rw [slice, slice, splice, drop_append, hlen,
    drop_eq_nil_of_le (by rw [hlen]; exact hj), nil_append, drop_drop,
    Nat.add_sub_cancel' hj]

theorem splice_splice (h : i ≤ buf.length) (xs ys : List α) :
    splice (splice buf i xs) (i + xs.length) ys = splice buf i (xs ++ ys) := by
  have hdrop : (splice buf i xs).drop (i + xs.length + ys.length) =
      buf.drop (i + (xs ++ ys).length) := by
    have hlen : (buf.take i ++ xs).length = i + xs.length := by simp [h]
    rw [splice, drop_append, hlen, drop_eq_nil_of_le (by omega), nil_append,
      drop_drop, length_append]
    congr 1
    omega
  rw [splice, hdrop, take_splice h, splice, append_assoc (buf.take i)]

/-- A write of the whole buffer. -/
theorem splice_zero (h : xs.length = buf.length) : splice buf 0 xs = xs := by
  rw [splice, take_zero, nil_append, Nat.zero_add, h, drop_length, append_nil]

theorem length_slice (h : i + n ≤ buf.length) : (slice buf i n).length = n := by
  rw [slice, length_take, length_drop]
  omega

theorem getD_slice (hk : k < n) (d : α) : (slice buf i n).getD k d = buf.getD (i + k) d := by
  rw [slice, getD_eq_getElem?_getD, getD_eq_getElem?_getD, List.getElem?_take_of_lt hk,
    List.getElem?_drop]

theorem slice_append (pre xs post : List α) :
    slice (pre ++ (xs ++ post)) pre.length xs.length = xs := by
  rw [slice, drop_left, take_left]

/-- A part of a sequence of parts of the same length. -/
theorem slice_flatMap {β : Type*} {f : β → List α} (hf : ∀ b, (f b).length = n) (pre : List α)
    {parts : List β} {k : ℕ} {b : β} (hb : parts[k]? = some b) :
    slice (pre ++ parts.flatMap f) (pre.length + n * k) n = f b := by
  induction parts generalizing pre k with
  | nil => simp at hb
  | cons first parts ih =>
    cases k with
    | zero =>
      obtain rfl : first = b := by simpa using hb
      rw [flatMap_cons, Nat.mul_zero, Nat.add_zero]
      simpa only [hf] using slice_append pre (f first) (parts.flatMap f)
    | succ k =>
      have hpart := ih (pre ++ f first) (k := k) (by simpa using hb)
      rw [length_append, hf, append_assoc] at hpart
      rw [flatMap_cons, Nat.mul_succ, Nat.add_comm (n * k), ← Nat.add_assoc]
      exact hpart

theorem take_append_slice : buf.take i ++ slice buf i n = buf.take (i + n) := by
  rw [slice, take_add]

theorem slice_append_drop (buf : List α) (i n : ℕ) :
    slice buf i n ++ buf.drop (i + n) = buf.drop i := by
  rw [slice, ← drop_drop, take_append_drop]

end Splice

section LittleEndian

/-- The `n` low bytes of `v`, the lowest first. -/
def leBytes : ℕ → ℕ → List UInt8
  | 0, _ => []
  | n + 1, v => UInt8.ofNat v :: leBytes n (v / 256)

/-- The number with the given bytes, the lowest first. -/
def ofLeBytes : List UInt8 → ℕ
  | [] => 0
  | b :: bs => b.toNat + 256 * ofLeBytes bs

@[simp] theorem length_leBytes (n v : ℕ) : (leBytes n v).length = n := by
  induction n generalizing v with
  | zero => rfl
  | succ n ih => rw [leBytes, length_cons, ih]

theorem ofLeBytes_leBytes (n v : ℕ) : ofLeBytes (leBytes n v) = v % 256 ^ n := by
  induction n generalizing v with
  | zero => rw [leBytes, ofLeBytes, pow_zero, Nat.mod_one]
  | succ n ih =>
    have hlow : (UInt8.ofNat v).toNat = v % 256 := UInt8.toNat_ofNat'
    rw [leBytes, ofLeBytes, ih, hlow, pow_succ', Nat.mod_mul]

theorem ofLeBytes_lt (bs : List UInt8) : ofLeBytes bs < 256 ^ bs.length := by
  induction bs with
  | nil => exact Nat.one_pos
  | cons b bs ih =>
    have hb := b.toNat_lt
    rw [ofLeBytes, length_cons, pow_succ']
    omega

theorem leBytes_ofLeBytes (bs : List UInt8) : leBytes bs.length (ofLeBytes bs) = bs := by
  induction bs with
  | nil => rfl
  | cons b bs ih =>
    have hb : b.toNat < 256 := b.toNat_lt
    have hdiv : (b.toNat + 256 * ofLeBytes bs) / 256 = ofLeBytes bs := by omega
    have hmod : UInt8.ofNat (b.toNat + 256 * ofLeBytes bs) = b := by
      apply UInt8.toNat_inj.mp
      rw [UInt8.toNat_ofNat']
      omega
    rw [length_cons, ofLeBytes, leBytes, hdiv, ih, hmod]

theorem ofLeBytes_inj (h : bs.length = cs.length) : ofLeBytes bs = ofLeBytes cs ↔ bs = cs := by
  constructor
  · intro heq
    rw [← leBytes_ofLeBytes bs, ← leBytes_ofLeBytes cs, h, heq]
  · rintro rfl
    rfl

end LittleEndian

end Hxnu.Buffer
