import Hxnu.Fs.Lookup

/-!
# Previews of files

`preview` of `kernel/src/vfs.rs` shows the first line of a file, or the listing of the root on one
line, and cuts it at a number of bytes. Rust allows a cut only between characters.

## Main definitions

* `previewText`: the text that is shown, before the cut.
* `preview`: the text with its cut, or a panic.

## Main results

* `preview_shortens_iff`: when a preview is made.
-/

namespace Hxnu.Fs

open Text

/-- The lines of a listing, without white space around them, in one line. -/
def joinLines (content : List UInt8) : List UInt8 :=
  (lines content).foldl
    (fun preview entry => (if preview = [] then [] else preview ++ [0x20]) ++ trim entry) []

/-- The text of a preview before it is shortened. -/
def previewText (vfs : Vfs) (path : List UInt8) : Option (List UInt8) := do
  let normalized ← normalizePath path
  let content ← vfs.read normalized
  if normalized = rootPath then joinLines content else trim (← (lines content).head?)

/-- `str::is_char_boundary`. -/
def isCharBoundary (text : List UInt8) (index : ℕ) : Bool :=
  index == 0 || index == text.length ||
    decide (index < text.length) && !Utf8.isContinuation (text.getD index 0)

/-- `&text[..index]`, which panics inside a character. -/
def sliceTo (text : List UInt8) (index : ℕ) : Except Unit (List UInt8) :=
  Fallible.ensure (isCharBoundary text index = true) () >>= fun _ => pure (text.take index)

/-- `preview`; an error is a panic. -/
def preview (vfs : Vfs) (path : List UInt8) (maxLen : ℕ) : Except Unit (Option (List UInt8)) :=
  match previewText vfs path with
  | none => pure none
  | some text =>
    if text.length ≤ maxLen then pure (some text)
    else do
      let cut ← sliceTo text maxLen
      pure (some (cut ++ ascii "..."))

/-- The text, or at most `maxLen` bytes from its start with dots after them. -/
def Shortened (maxLen : ℕ) (text result : List UInt8) : Prop :=
  if text.length ≤ maxLen then result = text
  else ∃ start, start <+: text ∧ start.length ≤ maxLen ∧ result = start ++ ascii "..."

/-- A text may be cut where its first part is a text again. -/
theorem isCharBoundary_iff_valid (hvalid : Utf8.valid text = true) (hlt : index < text.length) :
    isCharBoundary text index = true ↔ Utf8.valid (text.take index) = true := by
  have hsplit : text = text.take index ++ text.getD index 0 :: text.drop (index + 1) := by
    rw [List.getD_eq_getElem _ _ hlt, List.getElem_cons_drop, List.take_append_drop]
  have hboundary : isCharBoundary text index = true ↔
      index = 0 ∨ Utf8.isContinuation (text.getD index 0) = false := by
    simp [isCharBoundary, hlt, hlt.ne]
  rw [hboundary]
  rw [hsplit] at hvalid
  generalize text.getD index 0 = b at hvalid ⊢
  constructor
  · rintro (rfl | hb)
    · rw [List.take_zero, Utf8.valid]
    · exact Utf8.valid_of_append hb hvalid
  · intro htake
    rw [Utf8.valid_append htake] at hvalid
    exact .inr (Utf8.isContinuation_of_valid hvalid)

/-- **When a preview is made.** For every file system, path and length: no panic, and a text that is
shown whole or by its start and dots, if and only if a text that is too long may be cut at the
length. That is so exactly if the cut leaves no part of a character behind. -/
theorem preview_shortens_iff (vfs : Vfs) (path : List UInt8) (maxLen : ℕ) :
    ((∃ result, preview vfs path maxLen = .ok result ∧
      ∀ text, previewText vfs path = some text → ∃ r, result = some r ∧ Shortened maxLen text r) ↔
    ∀ text, previewText vfs path = some text → maxLen < text.length →
      isCharBoundary text maxLen = true) ∧
    ∀ text, Utf8.valid text = true → maxLen < text.length →
      (isCharBoundary text maxLen = true ↔ Utf8.valid (text.take maxLen) = true) := by
  refine ⟨?_, fun text => isCharBoundary_iff_valid⟩
  rw [preview]
  cases htext : previewText vfs path with
  | none => simp
  | some text =>
    by_cases hshort : text.length ≤ maxLen
    · simp [hshort, Shortened, not_lt.mpr hshort]
    · have hlt := not_le.mp hshort
      simp only [hshort, if_false, Option.some.injEq, forall_eq', hlt, true_imp_iff, sliceTo,
        Fallible.bind_eq_ok, Fallible.ensure_eq_ok, Fallible.pure_eq_ok]
      constructor
      · rintro ⟨_, ⟨_, ⟨_, hboundary, -⟩, -⟩, -⟩
        exact hboundary
      · intro hboundary
        refine ⟨_, ⟨_, ⟨(), hboundary, rfl⟩, rfl⟩, _, rfl, ?_⟩
        rw [Shortened, if_neg hshort]
        exact ⟨_, List.take_prefix _ _, List.length_take_le _ _, rfl⟩

/-- A file with the letter `é`, of which one byte is asked for. -/
theorem preview_panics :
    let vfs := Vfs.ofInitrd [⟨ascii "/initrd/b", .file, 0o100644, [0xc3, 0xa9]⟩]
    previewText vfs (ascii "/initrd/b") = some [0xc3, 0xa9] ∧
      preview vfs (ascii "/initrd/b") 1 = .error () := by
  decide +kernel

end Hxnu.Fs
