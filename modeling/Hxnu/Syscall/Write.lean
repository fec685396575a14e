import Hxnu.Syscall.ReadFile

/-!
# Writing to the console

`write` with descriptor 1 or 2 (`kernel/src/syscall.rs`) copies at most 1024 bytes in, passes them to
`tty::write_str` if they are valid UTF-8, and answers with their number in any case. A program that
sends a text calls it again with what is left. The kernel thus cuts the text after every 1024 bytes
and looks at each piece alone: a character that goes over a cut makes both pieces invalid, and they
are dropped.

## Main definitions

* `sanitizeForConsole`, `writeText`, `writeWithFd`, `writeWithoutFd`: the handlers. They extend the
  list of texts that were passed to `tty::write_str`.
* `sendAll`: a program that sends a text.

## Main results

* `sendAll_eq`: the pieces of the text are sent one by one.
* `console_gets_text_iff`.
-/

namespace Hxnu.Syscall

open List

def maxWriteBytes : ℕ := 16 * 1024

/-- `from_utf8(bytes).unwrap_or("")`. -/
def sanitizeForConsole (bytes : List UInt8) : List UInt8 := if Utf8.valid bytes then bytes else []

/-- The texts passed to `tty::write_str`, in order. -/
abbrev ConsoleLog : Type := List (List UInt8)

def writeText (m : UserMemory) (console : ConsoleLog) (ptr len : ℕ) :
    SyscallOutcome × UserMemory × ConsoleLog :=
  if maxWriteBytes < len then (.errno .erange, m, console)
  else if len = 0 then (.success 0, m, console)
  else
    let copyLen := min len 1024
    match m.copyin ptr copyLen with
    | (.error e, m) => (.errno e.asErrno, m, console)
    | (.ok bytes, m) => (.success copyLen, m, console ++ [sanitizeForConsole bytes])

def writeWithFd (m : UserMemory) (console : ConsoleLog) (args : Args) :
    SyscallOutcome × UserMemory × ConsoleLog :=
  if (args 0 : ℕ) ≠ 1 ∧ (args 0 : ℕ) ≠ 2 then (.errno .ebadf, m, console)
  else writeText m console (args 1) (args 2)

def writeWithoutFd (m : UserMemory) (console : ConsoleLog) (args : Args) :
    SyscallOutcome × UserMemory × ConsoleLog :=
  writeText m console (args 0) (args 1)

/-! ### A program that sends a text -/

/-- The arguments of a call for descriptor 1. -/
def writeArgs (ptr len : ℕ) : Args :=
  ![1, Fin.ofNat (2 ^ 64) ptr, Fin.ofNat (2 ^ 64) len, 0, 0, 0]

/-- Call `write` with the remaining bytes, at most 16384 at a time, and go on behind those that were
taken. The program gives up after a call that takes none, and after `fuel` calls. -/
def sendAll (m : UserMemory) (console : ConsoleLog) (ptr : ℕ) :
    (fuel remaining : ℕ) → Option (UserMemory × ConsoleLog)
  | _, 0 => some (m, console)
  | 0, _ + 1 => none
  | fuel + 1, remaining + 1 =>
    let r := writeWithFd m console (writeArgs ptr (min (remaining + 1) maxWriteBytes))
    if r.1.value ≤ 0 then none
    else sendAll r.2.1 r.2.2 (ptr + r.1.value.toNat) fuel (remaining + 1 - r.1.value.toNat)

/-- The text stands at `ptr`, in the user half. -/
structure UserMemory.HoldsText (m : UserMemory) (ptr : ℕ) (text : List UInt8) : Prop where
  byte : ∀ i < text.length, m.bytes (ptr + i) = text.getD i 0
  ptr_pos : 0 < ptr
  fits : ptr + text.length ≤ 2 ^ 47

section Send

variable {m : UserMemory} {ptr n : ℕ} {text : List UInt8}

section

variable (h : m.HoldsText ptr text)

include h

theorem UserMemory.HoldsText.copyin (hn : n ≤ text.length) (hsize : n ≤ maxCopyBytes) :
    m.copyin ptr n = (.ok (text.take n), m.access ptr n) := by
  have hfits := h.fits
  rw [UserMemory.copyin, validateUserRange_of_fits h.ptr_pos hsize (by omega)]
  refine Prod.ext (congrArg Except.ok ?_) rfl
  refine ext_getElem (by simp [hn]) fun i hi hi' => ?_
  have hlt : i < text.length := by
    rw [length_map, length_range] at hi
    omega
  rw [List.getElem_map, List.getElem_range, List.getElem_take, h.byte i hlt,
    getD_eq_getElem _ _ hlt]

theorem UserMemory.HoldsText.drop (hn : n ≤ text.length) (len : ℕ) :
    (m.access ptr len).HoldsText (ptr + n) (text.drop n) where
  byte i hi := by
    rw [length_drop] at hi
    have hbyte := h.byte (n + i) (by omega)
    have hbytes : (m.access ptr len).bytes = m.bytes := by
      rw [UserMemory.access]
      split_ifs <;> rfl
    rw [hbytes, Nat.add_assoc, hbyte]
    simp [getD_eq_getElem?_getD]
  ptr_pos := Nat.add_pos_left h.ptr_pos n
  fits := by
    have hfits := h.fits
    rw [length_drop]
    omega

/-- One call takes the next piece. -/
theorem writeWithFd_piece (hne : text ≠ []) (console : ConsoleLog) :
    writeWithFd m console (writeArgs ptr (min text.length maxWriteBytes)) =
      (.success (min text.length 1024 : ℕ), m.access ptr (min text.length 1024),
        console ++ [sanitizeForConsole (text.take 1024)]) := by
  have hpos : 0 < text.length := length_pos_iff.mpr hne
  have hfits := h.fits
  have hptr : ((writeArgs ptr (min text.length maxWriteBytes)) 1 : ℕ) = ptr :=
    Nat.mod_eq_of_lt (by omega)
  have hlen : ((writeArgs ptr (min text.length maxWriteBytes)) 2 : ℕ) =
      min text.length maxWriteBytes := Nat.mod_eq_of_lt (by rw [maxWriteBytes]; omega)
  have hmin : min (min text.length maxWriteBytes) 1024 = min text.length 1024 := by
    rw [maxWriteBytes]
    omega
  have htake : text.take (min text.length 1024) = text.take 1024 := by
    rw [Nat.min_comm, ← take_take, take_length]
  rw [writeWithFd, if_neg (by simp [writeArgs]), hptr, hlen, writeText, if_neg (by omega),
    if_neg (by rw [maxWriteBytes]; omega)]
  have hcopy := h.copyin (Nat.min_le_left text.length 1024)
    ((Nat.min_le_right _ _).trans (by decide))
  simp only [hmin, hcopy, htake]

/-- A call of the program takes the next piece. -/
theorem sendAll_piece (hne : text ≠ []) (console : ConsoleLog) (fuel : ℕ) :
    sendAll m console ptr (fuel + 1) text.length =
      sendAll (m.access ptr (min text.length 1024))
        (console ++ [sanitizeForConsole (text.take 1024)]) (ptr + min text.length 1024) fuel
        (text.length - min text.length 1024) := by
  have hpiece := writeWithFd_piece h hne console
  have hpos : 0 < text.length := length_pos_iff.mpr hne
  obtain ⟨remaining, hremaining⟩ := Nat.exists_eq_add_of_le' hpos
  rw [hremaining] at hpiece ⊢
  have htakes : ¬ ((min (remaining + 1) 1024 : ℕ) : ℤ) ≤ 0 := by omega
  simp only [sendAll, hpiece, SyscallOutcome.success, if_neg htakes, Int.toNat_natCast]

/-- **Sending a text.** Its pieces are passed on one by one, each if it is valid. -/
theorem sendAll_eq (console : ConsoleLog) (hfuel : text.length ≤ fuel) :
    ∃ m', sendAll m console ptr fuel text.length =
      some (m', console ++ (Utf8.pieces 1023 text).map sanitizeForConsole) := by
  induction text using Utf8.pieces.induct (n := 1023) generalizing m ptr console fuel with
  | case1 =>
    refine ⟨m, ?_⟩
    rw [Utf8.pieces, map_nil, append_nil, length_nil, sendAll]
  | case2 b rest ih =>
    rw [Utf8.pieces]
    have hne : b :: rest ≠ [] := cons_ne_nil b rest
    generalize b :: rest = text at h hfuel ih hne ⊢
    have hpos : 0 < text.length := length_pos_iff.mpr hne
    obtain ⟨fuel, rfl⟩ := Nat.exists_eq_add_of_le' (hpos.trans_le hfuel)
    have hnext := h.drop (Nat.min_le_left _ 1024) (min text.length 1024)
    have hdrop : text.drop (min text.length 1024) = text.drop 1024 := by
      obtain hle | hle := le_total text.length 1024
      · rw [min_eq_left hle, drop_length, drop_of_length_le hle]
      · rw [min_eq_right hle]
    rw [hdrop] at hnext
    obtain ⟨m', hrest⟩ := ih hnext (console ++ [sanitizeForConsole (text.take 1024)])
      (by rw [length_drop]; omega : (text.drop 1024).length ≤ fuel)
    refine ⟨m', ?_⟩
    have hlen : text.length - min text.length 1024 = (text.drop 1024).length := by
      rw [length_drop]
      omega
    rw [sendAll_piece h hne, hlen, hrest, append_assoc]
    rfl

end

/-- A piece is passed on as it is, or it is dropped. -/
theorem sanitizeForConsole_cases (piece : List UInt8) :
    sanitizeForConsole piece = piece ∨ sanitizeForConsole piece = [] := by
  rw [sanitizeForConsole]
  split_ifs
  · exact .inl rfl
  · exact .inr rfl

theorem sanitizeForConsole_eq_self_iff :
    sanitizeForConsole piece = piece ↔ Utf8.valid piece = true := by
  rw [sanitizeForConsole]
  split_ifs with hvalid
  · exact iff_of_true rfl hvalid
  · refine iff_of_false (fun hempty => hvalid ?_) hvalid
    rw [← hempty, Utf8.valid]

/-- **A text reaches the console whole exactly if no character goes over a cut.** A program sends a
valid text from its memory to descriptor 1 by calling `write` with what is left, at most 16384 bytes
at a time. All calls succeed, and what they pass to `tty::write_str` is the text if and only if the
text is cut between characters at every multiple of 1024 bytes. -/
theorem console_gets_text_iff (m : UserMemory) (ptr fuel : ℕ) (text : List UInt8)
    (h : m.HoldsText ptr text) (hvalid : Utf8.valid text = true) (hfuel : text.length ≤ fuel) :
    ∃ m' console, sendAll m [] ptr fuel text.length = some (m', console) ∧
      (console.flatten = text ↔
        ∀ i, 1024 * i < text.length → Utf8.valid (text.take (1024 * i)) = true) := by
  obtain ⟨m', hsend⟩ := sendAll_eq h [] hfuel
  refine ⟨m', _, hsend, ?_⟩
  rw [nil_append, Utf8.flatten_map_pieces_eq_iff sanitizeForConsole_cases,
    ← Utf8.valid_pieces_iff hvalid]
  exact forall₂_congr fun piece _ => sanitizeForConsole_eq_self_iff

/-- A short text at `0x1000`. -/
theorem console_gets_text_iff_short :
    let text : List UInt8 := [0x68, 0x69]
    let m : UserMemory := ⟨fun x => text.getD (x - 0x1000) 0, []⟩
    ∃ m' console, sendAll m [] 0x1000 2 2 = some (m', console) ∧ console.flatten = text := by
  intro text m
  have hheld : m.HoldsText 0x1000 text :=
    ⟨fun i _ => by simp only [m, Nat.add_sub_cancel_left], by decide, by decide⟩
  have hvalid : Utf8.valid text = true := by
    rw [Utf8.valid_cons_of_lt (by decide), Utf8.valid_cons_of_lt (by decide), Utf8.valid]
  obtain ⟨m', console, hsend, hiff⟩ := console_gets_text_iff m 0x1000 2 text hheld hvalid le_rfl
  refine ⟨m', console, hsend, hiff.mpr fun i hi => ?_⟩
  obtain rfl : i = 0 := by
    simp only [text, length_cons, length_nil] at hi
    omega
  rw [Nat.mul_zero, take_zero, Utf8.valid]

end Send

/-! ### A character over a cut -/

/-- 1023 letters and a character of two bytes. -/
def splitText : List UInt8 := List.replicate 1023 0x61 ++ [0xc3, 0xa9]

theorem valid_replicate (n : ℕ) : Utf8.valid (List.replicate n 0x61) = true := by
  induction n with
  | zero => rw [replicate_zero, Utf8.valid]
  | succ n ih => rw [replicate_succ, Utf8.valid_cons_of_lt (by decide), ih]

theorem valid_splitText : Utf8.valid splitText = true := by
  rw [splitText, Utf8.valid_append (valid_replicate 1023)]
  simp [Utf8.valid, Utf8.scan, Utf8.width, Utf8.isSecond, Utf8.isContinuation, Utf8.continuations]

theorem pieces_splitText :
    Utf8.pieces 1023 splitText = [List.replicate 1023 0x61 ++ [0xc3], [0xa9]] := by
  have htake : splitText.take 1024 = List.replicate 1023 0x61 ++ [0xc3] := by
    rw [splitText, take_append, length_replicate,
      take_of_length_le (by rw [length_replicate]; decide)]
    rfl
  have hdrop : splitText.drop 1024 = [0xa9] := by
    rw [splitText, drop_append, length_replicate,
      drop_of_length_le (by rw [length_replicate]; decide)]
    rfl
  have hcons : splitText = 0x61 :: (List.replicate 1022 0x61 ++ [0xc3, 0xa9]) := by
    rw [splitText, replicate_succ, cons_append]
  have hlast : Utf8.pieces 1023 [0xa9] = [[0xa9]] := by
    rw [Utf8.pieces]
    change _ :: Utf8.pieces 1023 [] = _
    rw [Utf8.pieces]
    rfl
  rw [hcons, Utf8.pieces, ← hcons, htake, hdrop, hlast]

/-- **A character over a cut is lost, with all of its two pieces.** Both calls report success, and
nothing is passed on. -/
theorem console_loses_pieces :
    let m : UserMemory := ⟨fun x => splitText.getD (x - 0x1000) 0, []⟩
    m.HoldsText 0x1000 splitText ∧ Utf8.valid splitText = true ∧
      ∃ m', sendAll m [] 0x1000 splitText.length splitText.length = some (m', [[], []]) := by
  intro m
  have hlen : splitText.length = 1025 := by
    rw [splitText, length_append, length_replicate]
    rfl
  have hheld : m.HoldsText 0x1000 splitText := by
    refine ⟨fun i _ => ?_, by decide, ?_⟩
    · simp only [m, Nat.add_sub_cancel_left]
    · rw [hlen]
      decide
  have hfirst : sanitizeForConsole (List.replicate 1023 0x61 ++ [0xc3]) = [] := by
    rw [sanitizeForConsole, Utf8.valid_append (valid_replicate 1023)]
    simp [Utf8.valid, Utf8.scan, Utf8.width]
  have hsecond : sanitizeForConsole [0xa9] = [] := by
    simp [sanitizeForConsole, Utf8.valid, Utf8.scan, Utf8.width]
  obtain ⟨m', hsend⟩ := sendAll_eq hheld [] le_rfl
  rw [pieces_splitText, nil_append, map_cons, map_cons, map_nil, hfirst,
    hsecond] at hsend
  exact ⟨hheld, valid_splitText, m', hsend⟩

end Hxnu.Syscall
