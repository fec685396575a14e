import Hxnu.Syscall.ReadFile

/-!
# Directory records

`getdents64` (`kernel/src/syscall.rs`) writes a record for each line of a directory listing: a
header of 19 bytes, the name and a zero byte, padded to a multiple of 8. The length of the record is
the field `d_reclen` of 16 bits. A program walks through the records by that field. Here the records
are read back from memory as a program does.

## Main definitions

* `Dirent`, `parseDirents`: the records that a program finds in its buffer.
* `RecordAt`: memory holds the record of a name.
* `DirentBuffer`: a buffer in the user half.

## Main results

* `copyoutDirent_spec`: what copying out a record does.
* `RecordAt.parse`, `RecordAt.of_parse`: what a program reads from a record.
* `direntLoop_write`, `direntLoop_frame`: the loop of `sys_getdents64`.
-/

namespace Hxnu.Syscall

open Sched Buffer Word Text List

/-! ### Reading records -/

/-- A record as a program sees it: `d_reclen` and `d_name`. -/
structure Dirent where
  reclen : ℕ
  name : List UInt8
  deriving DecidableEq, Repr

/-- The string at `ptr`, at most `n` bytes long. -/
def readName (mem : ℕ → UInt8) (ptr n : ℕ) : List UInt8 :=
  ((List.range n).map fun j => mem (ptr + j)).takeWhile (· != 0)

/-- The records in the `remaining` bytes from `ptr` on. A record has room for its header and a zero
byte and ends within those bytes. -/
def parseDirents (mem : ℕ → UInt8) (ptr : ℕ) : (fuel remaining : ℕ) → Option (List Dirent)
  | _, 0 => some []
  | 0, _ + 1 => none
  | fuel + 1, remaining + 1 =>
    let reclen := ofLeBytes [mem (ptr + 16), mem (ptr + 17)]
    if reclen < direntHeaderLen + 1 ∨ remaining + 1 < reclen then none
    else
      (parseDirents mem (ptr + reclen) fuel (remaining + 1 - reclen)).map
        (⟨reclen, readName mem (ptr + direntHeaderLen) (reclen - direntHeaderLen)⟩ :: ·)

/-! ### One record -/

/-- The bytes of a record, without the padding. -/
def recordBytes (offset : ℕ) (name : List UInt8) : List UInt8 :=
  direntHeader offset (direntReclen name) ++ (name ++ [0])

/-- Memory holds the record of a name at `dst`. -/
def RecordAt (mem : ℕ → UInt8) (dst offset : ℕ) (name : List UInt8) : Prop :=
  ∀ j < name.length + 20, mem (dst + j) = (recordBytes offset name).getD j 0

theorem length_direntHeader (offset reclen : ℕ) :
    (direntHeader offset reclen).length = direntHeaderLen := by
  simp [direntHeader, direntHeaderLen, length_leBytes]

/-- A record has room for the header, the name and the zero byte. -/
theorem le_direntReclen (name : List UInt8) : name.length + 20 ≤ direntReclen name := by
  rw [direntReclen, direntHeaderLen]
  omega

theorem dvd_direntReclen (name : List UInt8) : 8 ∣ direntReclen name := Dvd.intro_left _ rfl

/-- Copying out a record writes its bytes and nothing else. -/
theorem copyoutDirent_spec (m : UserMemory) (offset : ℕ) (hpos : 0 < dst)
    (hlen : name.length ≤ maxCopyBytes) (hfits : dst + direntReclen name ≤ 2 ^ 47) :
    ∃ m', copyoutDirent m dst offset name = (.ok (), m') ∧
      RecordAt m'.bytes dst offset name ∧
      ∀ x, x < dst ∨ dst + direntReclen name ≤ x → m'.bytes x = m.bytes x := by
  have hrecord := le_direntReclen name
  have hname : wrapAdd dst direntHeaderLen = dst + direntHeaderLen :=
    Nat.mod_eq_of_lt (by rw [direntHeaderLen]; omega)
  have hzero : wrapAdd (dst + direntHeaderLen) name.length = dst + direntHeaderLen + name.length :=
    Nat.mod_eq_of_lt (by rw [direntHeaderLen]; omega)
  have hheader := length_direntHeader offset (direntReclen name)
  obtain ⟨m₁, hcopy₁, hbytes₁⟩ := UserMemory.copyout_of_ok (m := m)
    (validateUserRange_of_fits hpos (by rw [hheader]; decide)
      (by rw [hheader, direntHeaderLen]; omega :
        dst + (direntHeader offset (direntReclen name)).length ≤ 2 ^ 47))
  obtain ⟨m₂, hcopy₂, hbytes₂⟩ := UserMemory.copyout_of_ok (m := m₁)
    (validateUserRange_of_fits (by omega) hlen
      (by rw [direntHeaderLen]; omega : dst + direntHeaderLen + name.length ≤ 2 ^ 47))
  obtain ⟨m₃, hcopy₃, hbytes₃⟩ := UserMemory.copyout_of_ok (m := m₂)
    (validateUserRange_of_fits (by omega) (by decide)
      (by rw [direntHeaderLen, length_singleton]; omega :
        dst + direntHeaderLen + name.length + [(0 : UInt8)].length ≤ 2 ^ 47))
  refine ⟨m₃, ?_, fun j hj => ?_, fun x hx => ?_⟩
  · simp only [copyoutDirent, hcopy₁, hname, hcopy₂, hzero, hcopy₃]
  · rw [hbytes₃, hbytes₂, hbytes₁, hheader, length_singleton, recordBytes]
    by_cases hinHeader : j < direntHeaderLen
    · rw [if_neg (by omega), if_neg (by omega), if_pos (by omega), Nat.add_sub_cancel_left,
        getD_append _ _ _ _ (by rw [hheader]; exact hinHeader)]
    rw [getD_append_right _ _ _ _ (by rw [hheader]; omega), hheader]
    by_cases hinName : j < direntHeaderLen + name.length
    · rw [if_neg (by omega), if_pos (by omega), getD_append _ _ _ _ (by omega),
        Nat.sub_add_eq, Nat.add_sub_cancel_left]
    · have hlast : j = direntHeaderLen + name.length := by
        rw [direntHeaderLen] at hinName ⊢
        omega
      rw [if_pos (by omega), getD_append_right _ _ _ _ (by omega), hlast]
      congr 1
      omega
  · rw [hbytes₃, if_neg, hbytes₂, if_neg, hbytes₁, if_neg]
    · rw [hheader, direntHeaderLen]; omega
    · rw [direntHeaderLen]; omega
    · rw [direntHeaderLen, length_singleton]; omega

section RecordAt

variable {mem : ℕ → UInt8} {dst offset n : ℕ} {name : List UInt8} {records : List Dirent}

/-- `d_reclen` has 16 bits. -/
theorem RecordAt.reclen (h : RecordAt mem dst offset name) :
    ofLeBytes [mem (dst + 16), mem (dst + 17)] = direntReclen name % 2 ^ 16 := by
  have hfield : [mem (dst + 16), mem (dst + 17)] = leBytes 2 (direntReclen name) := by
    rw [h 16 (by omega), h 17 (by omega), recordBytes, direntHeader]
    simp [leBytes]
  rw [hfield, ofLeBytes_leBytes]
  rfl

/-- The bytes where a program expects the name. -/
theorem RecordAt.bytes (h : RecordAt mem dst offset name) (hn : n ≤ name.length + 1) :
    (List.range n).map (fun j => mem (dst + direntHeaderLen + j)) = (name ++ [0]).take n := by
  have hheader := length_direntHeader offset (direntReclen name)
  refine ext_getElem (by simp; omega) fun j hj hj' => ?_
  rw [length_map, length_range] at hj
  have hbyte := h (direntHeaderLen + j) (by rw [direntHeaderLen]; omega)
  rw [recordBytes, getD_append_right _ _ _ _ (by omega), hheader,
    Nat.add_sub_cancel_left, ← Nat.add_assoc] at hbyte
  rw [List.getElem_map, List.getElem_range, hbyte, List.getElem_take,
    getD_eq_getElem _ _ (by simp; omega)]

theorem takeWhile_append_zero (l r : List UInt8) :
    (l ++ 0 :: r).takeWhile (· != 0) = l.takeWhile (· != 0) := by
  induction l with
  | nil => rfl
  | cons b l ih =>
    rw [cons_append, takeWhile_cons, takeWhile_cons, ih]

theorem takeWhile_take_prefix (l : List UInt8) (n : ℕ) :
    (l.take n).takeWhile (· != 0) <+: l.takeWhile (· != 0) := by
  nth_rewrite 2 [← take_append_drop n l]
  rw [takeWhile_append]
  split_ifs
  · exact (List.takeWhile_prefix _).trans (prefix_append _ _)
  · exact prefix_refl _

section

variable (h : RecordAt mem dst offset name)

include h

/-- What a program reads is the name up to a zero byte, and it may be cut off earlier. -/
theorem RecordAt.readName_prefix (n : ℕ) :
    readName mem (dst + direntHeaderLen) n <+: name.takeWhile (· != 0) := by
  rw [readName]
  obtain hle | hle := le_total n (name.length + 1)
  · rw [h.bytes hle, ← takeWhile_append_zero name []]
    exact takeWhile_take_prefix _ _
  · obtain ⟨extra, rfl⟩ := Nat.exists_eq_add_of_le hle
    rw [range_add, map_append, h.bytes le_rfl, take_of_length_le (by simp),
      append_assoc, singleton_append, takeWhile_append_zero]

/-- A name without a zero byte is read as it is. -/
theorem RecordAt.readName_eq (hzero : 0 ∉ name)
    (hn : name.length + 1 ≤ n) : readName mem (dst + direntHeaderLen) n = name := by
  obtain ⟨extra, rfl⟩ := Nat.exists_eq_add_of_le hn
  rw [readName, range_add, map_append, h.bytes le_rfl, take_of_length_le (by simp),
    append_assoc, singleton_append, takeWhile_append_zero, takeWhile_eq_self_iff]
  intro b hb
  exact bne_iff_ne.mpr fun heq => hzero (heq ▸ hb)

/-- A program that reads a record goes on behind it. -/
theorem RecordAt.parse (hzero : 0 ∉ name) (hlt : direntReclen name < 2 ^ 16)
    (hrest : parseDirents mem (dst + direntReclen name) fuel rest = some records) :
    parseDirents mem dst (fuel + 1) (direntReclen name + rest) =
      some (⟨direntReclen name, name⟩ :: records) := by
  have hle := le_direntReclen name
  obtain ⟨remaining, hremaining⟩ :=
    Nat.exists_eq_add_of_le' (by omega : 1 ≤ direntReclen name + rest)
  have hroom : ¬ (direntReclen name < direntHeaderLen + 1 ∨ remaining + 1 < direntReclen name) := by
    rw [direntHeaderLen]
    omega
  have hbehind : remaining + 1 - direntReclen name = rest := by omega
  rw [hremaining, parseDirents]
  simp only [h.reclen, Nat.mod_eq_of_lt hlt]
  rw [if_neg hroom, hbehind, hrest, h.readName_eq hzero (by rw [direntHeaderLen]; omega)]
  rfl

/-- What a program makes of a record, whatever its name is. -/
theorem RecordAt.of_parse (hpos : 0 < remaining)
    (hparse : parseDirents mem dst fuel remaining = some records) :
    ∃ records', direntHeaderLen + 1 ≤ direntReclen name % 2 ^ 16 ∧
      records = ⟨direntReclen name % 2 ^ 16, readName mem (dst + direntHeaderLen)
        (direntReclen name % 2 ^ 16 - direntHeaderLen)⟩ :: records' := by
  obtain ⟨remaining, rfl⟩ := Nat.exists_eq_add_of_le' hpos
  cases fuel with
  | zero => exact nomatch hparse
  | succ fuel =>
    rw [parseDirents] at hparse
    simp only [h.reclen] at hparse
    split_ifs at hparse with hroom
    obtain ⟨records', -, rfl⟩ := Option.map_eq_some_iff.mp hparse
    exact ⟨records', not_lt.mp (not_or.mp hroom).1, rfl⟩

end

end RecordAt

/-! ### The loop -/

/-- A buffer in the user half. -/
structure DirentBuffer where
  ptr : ℕ
  count : ℕ
  ptr_pos : 0 < ptr
  fits : ptr + count ≤ 2 ^ 47

section Loop

variable {i : Fin maxSystemFiles} {buffer : DirentBuffer} {line : List UInt8}
  {lines : List (List UInt8)} {written current : ℕ} {k : Kernel}

/-- A line of white space is passed over. -/
theorem direntLoop_blank (h : trim line = []) :
    direntLoop i buffer.ptr buffer.count (line :: lines) written current k =
      direntLoop i buffer.ptr buffer.count lines written current k := by
  rw [direntLoop]
  simp only
  rw [if_pos h]

/-- The loop ends at a record that does not fit. -/
theorem direntLoop_full (h : trim line ≠ [])
    (hfull : buffer.count < written + direntReclen (trim line)) :
    direntLoop i buffer.ptr buffer.count (line :: lines) written current k =
      (.success written, k) := by
  rw [direntLoop]
  simp only
  rw [if_neg h, if_pos hfull]

/-- A record that fits is written, and the offset moves on. -/
theorem direntLoop_write (i : Fin maxSystemFiles) (lines : List (List UInt8)) (current : ℕ)
    (k : Kernel) (h : trim line ≠ []) (hlen : (trim line).length ≤ maxCopyBytes)
    (hfits : written + direntReclen (trim line) ≤ buffer.count) :
    ∃ m', RecordAt m'.bytes (buffer.ptr + written) (current + line.length + 1) (trim line) ∧
      (∀ x, x < buffer.ptr + written ∨ buffer.ptr + written + direntReclen (trim line) ≤ x →
        m'.bytes x = k.memory.bytes x) ∧
      direntLoop i buffer.ptr buffer.count (line :: lines) written current k =
        direntLoop i buffer.ptr buffer.count lines (written + direntReclen (trim line))
          (current + line.length + 1) ((k.setMemory m').modifyFile i fun f =>
            { f with offset := current + line.length + 1 }) := by
  have hbuffer := buffer.fits
  have hdst : wrapAdd buffer.ptr written = buffer.ptr + written := Nat.mod_eq_of_lt (by omega)
  obtain ⟨m', hcopy, hrecord, hframe⟩ := copyoutDirent_spec k.memory
    (current + line.length + 1) (Nat.add_pos_left buffer.ptr_pos written) hlen (by omega)
  refine ⟨m', hrecord, hframe, ?_⟩
  rw [direntLoop]
  simp only
  rw [if_neg h, if_neg (not_lt.mpr hfits), hdst, hcopy]

/-- Whatever the lines are, the loop succeeds, stays in the buffer and leaves alone what was written
before. -/
theorem direntLoop_frame (hlen : ∀ line ∈ lines, line.length ≤ maxCopyBytes)
    (hwritten : written ≤ buffer.count) :
    ∃ (value : ℕ) (k' : Kernel),
      direntLoop i buffer.ptr buffer.count lines written current k = (.success value, k') ∧
      written ≤ value ∧ value ≤ buffer.count ∧
      ∀ x < buffer.ptr + written, k'.memory.bytes x = k.memory.bytes x := by
  induction lines generalizing written current k with
  | nil => exact ⟨written, k, rfl, le_rfl, hwritten, fun _ _ => rfl⟩
  | cons line lines ih =>
    have hlines : ∀ line ∈ lines, line.length ≤ maxCopyBytes :=
      fun l hl => hlen l (mem_cons_of_mem line hl)
    by_cases hblank : trim line = []
    · rw [direntLoop_blank hblank]
      exact ih hlines hwritten
    by_cases hfits : written + direntReclen (trim line) ≤ buffer.count
    · have hname : (trim line).length ≤ maxCopyBytes :=
        (trim_isInfix line).length_le.trans (hlen line mem_cons_self)
      obtain ⟨m', -, hframe, hloop⟩ := direntLoop_write i lines current k hblank hname hfits
      obtain ⟨value, k', hrest, hle, hcount, hbytes⟩ := ih hlines hfits
      rw [hloop]
      refine ⟨value, k', hrest, by omega, hcount, fun x hx => ?_⟩
      rw [hbytes x (by omega)]
      exact hframe x (.inl hx)
    · rw [direntLoop_full hblank (not_le.mp hfits)]
      exact ⟨written, k, rfl, le_rfl, hwritten, fun _ _ => rfl⟩

end Loop

end Hxnu.Syscall
