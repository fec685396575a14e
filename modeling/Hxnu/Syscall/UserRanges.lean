import Hxnu.Syscall.Files

/-!
# Ranges and strings of user memory

What the checks of `kernel/src/uaccess.rs` accept, and what `copyin_c_string` of
`kernel/src/syscall.rs` reads and stores. The range check tests the first and the last address only.
Every address between them is canonical nevertheless, since a range is at most 2²⁰ bytes long and
the hole between the two halves of the address space is larger.

`UserMemory.copyinCString` returns the bytes of a string; the function of the source stores them in
a buffer and returns their number. Both are compared here. The two copies by which `open_path_at`
builds the path it looks up are modelled with their panics.

## Main definitions

* `UserMemory.StringAt`: a string with accepted addresses that fits a buffer.
* `UserMemory.copyinCStringInto`: `copyin_c_string` with its buffer.
* `copyFromSlice`, `resolveInto`: the copies of `open_path_at`.

## Main results

* `validateUserRange_eq_ok_iff`.
* `UserMemory.StringAt.copyinCStringFrom`, `UserMemory.stringAt_of_copyinCStringFrom`.
* `user_ranges_checked`.
-/

namespace Hxnu.Syscall

open Word Buffer Fs List

/-! ### Ranges -/

theorem isCanonicalAddress_iff :
    isCanonicalAddress address = true ↔ address < 2 ^ 47 ∨ 2 ^ 64 - 2 ^ 47 ≤ address := by
  rw [isCanonicalAddress, Bool.or_eq_true, decide_eq_true_eq, decide_eq_true_eq, lowCanonicalMax,
    highCanonicalMin]
  omega

/-- The check of the two ends is a check of all addresses. -/
theorem validateUserRange_eq_ok_iff :
    validateUserRange start len = .ok () ↔ len = 0 ∨
      (0 < len ∧ len ≤ 2 ^ 20 ∧ start ≠ 0 ∧ start + len - 1 < 2 ^ 64 ∧
        ∀ address, start ≤ address → address ≤ start + len - 1 →
          isCanonicalAddress address = true) := by
  rw [validateUserRange, maxCopyBytes]
  split_ifs with hlarge hzero hnull
  · simp only [false_iff]
    omega
  · simp only [hzero, true_or]
  · simp only [hnull, false_iff]
    omega
  · by_cases hlast : start + (len - 1) < 2 ^ 64
    · rw [checkedAdd, if_pos hlast]
      simp only
      split_ifs with hends
      · simp only [false_iff]
        rintro (hlen | ⟨hpos, -, -, -, hall⟩)
        · exact hzero hlen
        · rw [hall start le_rfl (by omega), hall (start + (len - 1)) (by omega) (by omega)] at hends
          simp at hends
      · simp only [not_or, Bool.not_eq_false] at hends
        rw [isCanonicalAddress_iff, isCanonicalAddress_iff] at hends
        refine iff_of_true rfl (.inr ⟨by omega, by omega, hnull, by omega, ?_⟩)
        intro address hlow hhigh
        rw [isCanonicalAddress_iff]
        -- the range is shorter than the hole, so both ends are in the same half
        omega
    · rw [checkedAdd, if_neg hlast]
      simp only [reduceCtorEq, false_iff]
      omega

/-- The check of a single address. -/
theorem validateUserRange_one : validateUserRange address 1 = .ok () ↔
    address ≠ 0 ∧ address < 2 ^ 64 ∧ isCanonicalAddress address = true := by
  rw [validateUserRange_eq_ok_iff]
  constructor
  · rintro (h | ⟨-, -, hnull, hlt, hall⟩)
    · exact absurd h one_ne_zero
    · exact ⟨hnull, by omega, hall address le_rfl le_rfl⟩
  · rintro ⟨hnull, hlt, hcanonical⟩
    refine .inr ⟨one_pos, by decide, hnull, by omega, fun a hlow hhigh => ?_⟩
    rwa [show a = address by omega]

/-! ### Strings -/

namespace UserMemory

/-- At `ptr` stands a string of `len` bytes that fits a buffer of `n` bytes, and its addresses, that
of the zero byte included, are accepted. -/
structure StringAt (m : UserMemory) (ptr n len : ℕ) : Prop where
  lt : len < n
  nonzero : ∀ i < len, m.bytes (ptr + i) ≠ 0
  zero : m.bytes (ptr + len) = 0
  accepted : ∀ i ≤ len, validateUserRange (ptr + i) 1 = .ok ()

/-- The bytes of a string. -/
def stringBytes (m : UserMemory) (ptr len : ℕ) : List UInt8 :=
  (List.range len).map fun i => m.bytes (ptr + i)

/-- Memory after the bytes from `ptr` to `ptr + len` were read one by one. -/
def readThrough (m : UserMemory) (ptr len : ℕ) : UserMemory :=
  { m with accesses := ((List.range (len + 1)).map fun i => (ptr + i, 1)).reverse ++ m.accesses }

section Loop

variable {m : UserMemory} {ptr index n len : ℕ}

theorem copyin_byte (h : validateUserRange address 1 = .ok ()) :
    m.copyin address 1 = (.ok [m.bytes address], m.access address 1) := by
  rw [copyin, h]
  rfl

/-- One turn of the loop of `copyin_c_string`, at an accepted address. -/
theorem copyinCStringFrom_succ (h : validateUserRange (ptr + index) 1 = .ok ()) :
    m.copyinCStringFrom ptr index (n + 1) =
      if m.bytes (ptr + index) = 0 then (.ok [], m.access (ptr + index) 1)
      else
        match (m.access (ptr + index) 1).copyinCStringFrom ptr (index + 1) n with
        | (.error e, m') => (.error e, m')
        | (.ok rest, m') => (.ok (m.bytes (ptr + index) :: rest), m') := by
  have hadd : checkedAdd ptr index = some (ptr + index) := if_pos (validateUserRange_one.mp h).2.1
  simp only [copyinCStringFrom, hadd, copyin_byte h, headD_cons]
  rfl

theorem copyinCStringFrom_of_error (h : validateUserRange (ptr + index) 1 = .error e) :
    ∃ e', m.copyinCStringFrom ptr index (n + 1) = (.error e', m) := by
  cases hadd : checkedAdd ptr index with
  | none => exact ⟨.erange, by simp only [copyinCStringFrom, hadd]⟩
  | some address =>
    obtain ⟨-, rfl⟩ := checkedAdd_eq_some.mp hadd
    exact ⟨e.asErrno, by simp only [copyinCStringFrom, hadd, copyin, h]⟩

theorem stringBytes_succ : m.stringBytes ptr (len + 1) =
    m.bytes ptr :: m.stringBytes (ptr + 1) len := by
  rw [stringBytes, range_succ_eq_map, map_cons, map_map]
  refine congrArg _ (map_congr_left fun i _ => ?_)
  rw [Function.comp_apply, Nat.succ_eq_add_one, Nat.add_assoc, Nat.add_comm 1]

theorem readThrough_succ : m.readThrough ptr (len + 1) =
    (m.access ptr 1).readThrough (ptr + 1) len := by
  have hreads : (List.range (len + 1 + 1)).map (fun i => (ptr + i, 1)) =
      (ptr, 1) :: (List.range (len + 1)).map (fun i => (ptr + 1 + i, 1)) := by
    rw [range_succ_eq_map, map_cons, map_map]
    refine congrArg _ (map_congr_left fun i _ => ?_)
    rw [Function.comp_apply, Nat.succ_eq_add_one, Nat.add_assoc, Nat.add_comm 1]
  simp only [readThrough, access, one_ne_zero, if_false, hreads, reverse_cons,
    append_assoc, cons_append, nil_append]

/-- A string is its first byte and the string behind it. -/
theorem stringAt_succ_iff : m.StringAt ptr (n + 1) (len + 1) ↔
    validateUserRange ptr 1 = .ok () ∧ m.bytes ptr ≠ 0 ∧
      (m.access ptr 1).StringAt (ptr + 1) n len := by
  have hnext (i : ℕ) : ptr + 1 + i = ptr + (i + 1) := by omega
  have hbytes (x : ℕ) : (m.access ptr 1).bytes x = m.bytes x := rfl
  constructor
  · intro h
    refine ⟨h.accepted 0 (Nat.zero_le _), h.nonzero 0 (Nat.succ_pos len),
      Nat.lt_of_succ_lt_succ h.lt, fun i hi => ?_, ?_, fun i hi => ?_⟩
    · rw [hbytes, hnext]
      exact h.nonzero (i + 1) (by omega)
    · rw [hbytes, hnext]
      exact h.zero
    · rw [hnext]
      exact h.accepted (i + 1) (by omega)
  · rintro ⟨hfirst, hnonzero, h⟩
    refine ⟨Nat.succ_lt_succ h.lt, fun i hi => ?_, ?_, fun i hi => ?_⟩
    · cases i with
      | zero => exact hnonzero
      | succ i =>
        rw [← hnext, ← hbytes]
        exact h.nonzero i (by omega)
    · rw [← hnext, ← hbytes]
      exact h.zero
    · cases i with
      | zero => exact hfirst
      | succ i =>
        rw [← hnext]
        exact h.accepted i (by omega)

/-- A string is copied, and nothing behind its zero byte is read. -/
theorem StringAt.copyinCStringFrom (h : m.StringAt (ptr + index) n len) :
    m.copyinCStringFrom ptr index n =
      (.ok (m.stringBytes (ptr + index) len), m.readThrough (ptr + index) len) := by
  induction n generalizing m index len with
  | zero => exact absurd h.lt (Nat.not_lt_zero len)
  | succ n ih =>
    have hfirst : validateUserRange (ptr + index) 1 = .ok () := h.accepted 0 (Nat.zero_le len)
    rw [copyinCStringFrom_succ hfirst]
    cases len with
    | zero =>
      have hzero : m.bytes (ptr + index) = 0 := h.zero
      rw [if_pos hzero]
      rfl
    | succ len =>
      obtain ⟨-, hnonzero, htail⟩ := stringAt_succ_iff.mp h
      have hrest := @ih (m.access (ptr + index) 1) (index + 1) len htail
      rw [if_neg hnonzero, hrest, stringBytes_succ, readThrough_succ]
      rfl

/-- Only a string is copied. -/
theorem stringAt_of_copyinCStringFrom {bytes : List UInt8}
    (h : (m.copyinCStringFrom ptr index n).1 = .ok bytes) :
    m.StringAt (ptr + index) n bytes.length := by
  induction n generalizing m index bytes with
  | zero => exact nomatch h
  | succ n ih =>
    cases hvalid : validateUserRange (ptr + index) 1 with
    | error e =>
      obtain ⟨e', herror⟩ := copyinCStringFrom_of_error (m := m) (n := n) hvalid
      rw [herror] at h
      exact nomatch h
    | ok u =>
      rw [copyinCStringFrom_succ hvalid] at h
      by_cases hzero : m.bytes (ptr + index) = 0
      · rw [if_pos hzero] at h
        cases h
        exact ⟨Nat.succ_pos n, nofun, hzero, fun i hi => by rwa [Nat.le_zero.mp hi]⟩
      · rw [if_neg hzero] at h
        generalize hnext : (m.access (ptr + index) 1).copyinCStringFrom ptr (index + 1) n = next
          at h
        obtain ⟨result, m'⟩ := next
        cases result with
        | error e => exact nomatch h
        | ok rest =>
          cases h
          exact stringAt_succ_iff.mpr ⟨hvalid, hzero, ih (congrArg Prod.fst hnext)⟩

end Loop

/-! ### The buffer -/

/-- The loop of `copyin_c_string` over the last `n` indices of `buf`, from `index` on. -/
def copyinCStringInto (m : UserMemory) (ptr : ℕ) (buf : List UInt8) (index : ℕ) :
    ℕ → (Except Errno ℕ × List UInt8) × UserMemory
  | 0 => ((.error .erange, buf), m)
  | n + 1 =>
    match checkedAdd ptr index with
    | none => ((.error .erange, buf), m)
    | some address =>
      match m.copyin address 1 with
      | (.error e, m) => ((.error e.asErrno, buf), m)
      | (.ok bytes, m) =>
        if bytes.headD 0 = 0 then ((.ok index, buf), m)
        else copyinCStringInto m ptr (buf.set index (bytes.headD 0)) (index + 1) n

/-- `copyin_c_string` with its buffer. -/
def copyinCStringBuf (m : UserMemory) (ptr : ℕ) (buf : List UInt8) :
    (Except Errno ℕ × List UInt8) × UserMemory :=
  m.copyinCStringInto ptr buf 0 buf.length

section Buffer

variable {m : UserMemory} {ptr index n len : ℕ} {buf : List UInt8}

theorem splice_set_succ {b : UInt8} {bytes : List UInt8} (h : index < buf.length) :
    splice (buf.set index b) (index + 1) bytes = splice buf index (b :: bytes) := by
  have htake : (buf.set index b).take (index + 1) = buf.take index ++ [b] := by
    rw [take_add_one, take_set_of_le le_rfl, List.getElem?_set_self h]
    rfl
  rw [splice, splice, htake, drop_set_of_lt (by omega), length_cons]
  simp [Nat.add_assoc, Nat.add_comm 1]

/-- The buffer holds the bytes, and their number is returned. -/
theorem copyinCStringInto_eq (m : UserMemory) (ptr : ℕ) (h : index + n ≤ buf.length) :
    (m.copyinCStringInto ptr buf index n).2 = (m.copyinCStringFrom ptr index n).2 ∧
      ((∃ bytes, (m.copyinCStringFrom ptr index n).1 = .ok bytes ∧
          (m.copyinCStringInto ptr buf index n).1 =
            (.ok (index + bytes.length), splice buf index bytes)) ∨
        ∃ e, (m.copyinCStringFrom ptr index n).1 = .error e ∧
          (m.copyinCStringInto ptr buf index n).1.1 = .error e) := by
  induction n generalizing m index buf with
  | zero => exact ⟨rfl, .inr ⟨.erange, rfl, rfl⟩⟩
  | succ n ih =>
    rw [copyinCStringInto, copyinCStringFrom]
    cases checkedAdd ptr index with
    | none => exact ⟨rfl, .inr ⟨.erange, rfl, rfl⟩⟩
    | some address =>
      simp only
      generalize m.copyin address 1 = copied
      obtain ⟨result, m'⟩ := copied
      cases result with
      | error e => exact ⟨rfl, .inr ⟨e.asErrno, rfl, rfl⟩⟩
      | ok bytes =>
        simp only
        split_ifs with hzero
        · exact ⟨rfl, .inl ⟨[], rfl, by simp [splice]⟩⟩
        · obtain ⟨hmemory, hresult⟩ := @ih (index + 1)
            (buf.set index (bytes.headD 0)) m' (by rw [length_set]; omega)
          generalize m'.copyinCStringFrom ptr (index + 1) n = next at hmemory hresult
          obtain ⟨result, m''⟩ := next
          obtain ⟨rest, rfl, hinto⟩ | ⟨e, rfl, hinto⟩ := hresult
          · refine ⟨hmemory, .inl ⟨_, rfl, ?_⟩⟩
            rw [hinto, splice_set_succ (by omega), length_cons, Nat.add_assoc,
              Nat.add_comm 1]
          · exact ⟨hmemory, .inr ⟨e, rfl, hinto⟩⟩

/-- A string is stored in the buffer, and its bytes and its zero byte are all that is read. -/
theorem StringAt.copyinCStringBuf (h : m.StringAt ptr buf.length len) :
    m.copyinCStringBuf ptr buf =
      ((.ok len, splice buf 0 (m.stringBytes ptr len)), m.readThrough ptr len) := by
  have hfrom : m.copyinCStringFrom ptr 0 buf.length = _ := StringAt.copyinCStringFrom h
  have hlen : (m.stringBytes ptr len).length = len := by
    rw [stringBytes, length_map, length_range]
  obtain ⟨hmemory, ⟨bytes, hbytes, hinto⟩ | ⟨e, herror, -⟩⟩ :=
    copyinCStringInto_eq m ptr (Nat.zero_add buf.length).le
  · rw [hfrom] at hbytes hmemory
    cases hbytes
    rw [Nat.add_zero, Nat.zero_add, hlen] at hinto
    exact Prod.ext hinto hmemory
  · rw [hfrom] at herror
    exact nomatch herror

theorem copyinCStringBuf_eq_ok_iff :
    (m.copyinCStringBuf ptr buf).1.1 = .ok len ↔ m.StringAt ptr buf.length len := by
  refine ⟨fun h => ?_, fun h => by rw [h.copyinCStringBuf]⟩
  rw [copyinCStringBuf] at h
  obtain ⟨-, ⟨bytes, hbytes, hinto⟩ | ⟨e, -, herror⟩⟩ :=
    copyinCStringInto_eq m ptr (Nat.zero_add buf.length).le
  · rw [hinto, Nat.zero_add] at h
    cases h
    exact stringAt_of_copyinCStringFrom hbytes
  · rw [herror] at h
    exact nomatch h

end Buffer

end UserMemory

/-! ### The path of `open_path_at` -/

/-- The panics of `copy_from_slice` and of the slice it writes to. -/
inductive SlicePanic
  | outOfRange
  | lengthMismatch
  deriving DecidableEq, Repr

/-- `buf[low..high].copy_from_slice(source)`. -/
def copyFromSlice (buf : List UInt8) (low high : ℕ) (source : List UInt8) :
    Except SlicePanic (List UInt8) :=
  if high < low ∨ buf.length < high then .error .outOfRange
  else if high - low ≠ source.length then .error .lengthMismatch
  else .ok (splice buf low source)

/-- How `open_path_at` fills `resolved_buf`: the buffer and `resolved_len`. -/
def resolveInto (dirfd : ℤ) (rawPath : List UInt8) :
    Except SlicePanic (Except Errno (List UInt8 × ℕ)) :=
  let resolvedBuf : List UInt8 := List.replicate maxPathBytes 0
  if rawPath.head? = some slash then do
    let copyLen := min rawPath.length maxPathBytes
    let resolvedBuf ← copyFromSlice resolvedBuf 0 copyLen rawPath
    return .ok (resolvedBuf, copyLen)
  else if dirfd = atFdcwd then do
    let resolvedBuf := resolvedBuf.set 0 slash
    let copyLen := min rawPath.length (maxPathBytes - 1)
    let resolvedBuf ← copyFromSlice resolvedBuf 1 (1 + copyLen) rawPath
    return .ok (resolvedBuf, 1 + copyLen)
  else return .error .enosys

theorem copyFromSlice_of_length (low : ℕ) (source : List UInt8)
    (h : low + source.length ≤ buf.length) :
    copyFromSlice buf low (low + source.length) source = .ok (splice buf low source) := by
  rw [copyFromSlice, if_neg (by omega), if_neg (by omega)]

/-- A path of less than 1024 bytes is copied without a panic, and the buffer then holds the path
that is looked up. -/
theorem resolveInto_of_lt (h : rawPath.length < maxPathBytes) :
    ∃ resolved, resolveInto dirfd rawPath = .ok resolved ∧
      resolved.map (fun r => r.1.take r.2) = resolvePath dirfd rawPath := by
  rw [resolveInto, resolvePath]
  have hslash : ((List.replicate maxPathBytes 0).set 0 slash).take 1 = [slash] := rfl
  have hbuf : (List.replicate maxPathBytes (0 : UInt8)).length = maxPathBytes :=
    length_replicate
  generalize List.replicate maxPathBytes (0 : UInt8) = buf at hslash hbuf ⊢
  split_ifs with habsolute hcwd
  · have hcopy := copyFromSlice_of_length 0 rawPath (by omega : 0 + rawPath.length ≤ buf.length)
    have hread : (splice buf 0 rawPath).take (0 + rawPath.length) = rawPath :=
      take_splice (Nat.zero_le _)
    rw [Nat.zero_add] at hcopy hread
    simp only [min_eq_left h.le, hcopy]
    exact ⟨_, rfl, congrArg Except.ok hread⟩
  · have hset : (buf.set 0 slash).length = maxPathBytes := by rw [length_set, hbuf]
    generalize buf.set 0 slash = buf at hslash hset ⊢
    have hcopy := copyFromSlice_of_length 1 rawPath (by omega : 1 + rawPath.length ≤ buf.length)
    have hread : (splice buf 1 rawPath).take (1 + rawPath.length) = buf.take 1 ++ rawPath :=
      take_splice (by omega)
    rw [hslash] at hread
    simp only [min_eq_left (Nat.le_sub_one_of_lt h), hcopy]
    rw [take_of_length_le (Nat.le_sub_one_of_lt h)]
    exact ⟨_, rfl, congrArg Except.ok hread⟩
  · exact ⟨_, rfl, rfl⟩

/-- **The checks of user memory are exact.** A range is accepted if and only if it is empty, or it
is at most 2²⁰ bytes long, does not start at 0, does not overflow and all its addresses are
canonical. `copyin_c_string` returns `Ok(n)` if and only if `n` is less than the length of the
buffer and the index of the first zero byte and all addresses up to it are accepted; it has then
stored the `n` bytes, and it has read them and the zero byte and nothing else. For every path that
was copied in, source and destination of the copies in `open_path_at` have the same length. -/
theorem user_ranges_checked :
    (∀ start len, validateUserRange start len = .ok () ↔ len = 0 ∨
      (0 < len ∧ len ≤ 2 ^ 20 ∧ start ≠ 0 ∧ start + len - 1 < 2 ^ 64 ∧
        ∀ address, start ≤ address → address ≤ start + len - 1 →
          address < 2 ^ 47 ∨ 2 ^ 64 - 2 ^ 47 ≤ address)) ∧
    (∀ m ptr buf n, (UserMemory.copyinCStringBuf m ptr buf).1.1 = .ok n ↔
      n < buf.length ∧ (∀ i < n, m.bytes (ptr + i) ≠ 0) ∧ m.bytes (ptr + n) = 0 ∧
        ∀ i ≤ n, validateUserRange (ptr + i) 1 = .ok ()) ∧
    (∀ m ptr buf n, (UserMemory.copyinCStringBuf m ptr buf).1.1 = .ok n →
      UserMemory.copyinCStringBuf m ptr buf = ((.ok n, (List.range n).map (fun i =>
          m.bytes (ptr + i)) ++ buf.drop n), { m with
        accesses := ((List.range (n + 1)).map fun i => (ptr + i, 1)).reverse ++ m.accesses })) ∧
    ∀ (m m' : UserMemory) (ptr : ℕ) (dirfd : ℤ) (rawPath : List UInt8),
      m.copyinCString ptr maxPathBytes = (.ok rawPath, m') →
      min rawPath.length maxPathBytes = rawPath.length ∧
      min rawPath.length (maxPathBytes - 1) = rawPath.length ∧
      ∃ resolved, resolveInto dirfd rawPath = .ok resolved ∧
        resolved.map (fun r => r.1.take r.2) = resolvePath dirfd rawPath := by
  refine ⟨fun start len => ?_, fun m ptr buf n => ?_, fun m ptr buf n h => ?_,
    fun m m' ptr dirfd rawPath h => ?_⟩
  · simp only [← isCanonicalAddress_iff]
    exact validateUserRange_eq_ok_iff
  · exact UserMemory.copyinCStringBuf_eq_ok_iff.trans
      ⟨fun h => ⟨h.lt, h.nonzero, h.zero, h.accepted⟩, fun ⟨h₁, h₂, h₃, h₄⟩ => ⟨h₁, h₂, h₃, h₄⟩⟩
  · rw [(UserMemory.copyinCStringBuf_eq_ok_iff.mp h).copyinCStringBuf, splice, take_zero,
      nil_append, Nat.zero_add, UserMemory.stringBytes, length_map, length_range]
    rfl
  · have hlt : rawPath.length < maxPathBytes :=
      (UserMemory.stringAt_of_copyinCStringFrom (congrArg Prod.fst h)).lt
    exact ⟨min_eq_left hlt.le, min_eq_left (Nat.le_sub_one_of_lt hlt), resolveInto_of_lt hlt⟩

end Hxnu.Syscall
