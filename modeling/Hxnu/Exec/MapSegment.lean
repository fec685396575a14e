import Hxnu.Arch.UserMemory
import Hxnu.Exec.Activation

/-!
# Mapping an activated image

`map_segment_pages` of `kernel/src/init_exec.rs` and the loop of `spawn_executable` that calls it.
Every page of a segment gets a zeroed frame, and the file bytes that lie in the page are copied into
the frame. The last page and its frame are remembered from segment to segment, so that the next
segment may go on in the same frame.

## Main definitions

* `MapState`: memory with the last page mapped and its frame.
* `mapSegmentPages`: `map_segment_pages`.
* `mapSegments`: the loop over the segments.
* `mapImage`: a new page table with the segments mapped into it.

## Main results

* `segmentFrame_spec`, `mapSegmentPage_spec`: what one round of the loop does.
-/

namespace Hxnu.Exec

open Word Buffer Fallible Arch Mm.Frame Tables InitExecActivateError

/-- `last_mapped_page` and `last_mapped_phys` are always set together. -/
structure MapState where
  memory : PhysicalMemory
  lastMapped : Option (ℕ × ℕ)

/-- The frame for a page: the last one if the page is the last one mapped, and a new zeroed one
otherwise. -/
def segmentFrame (st : MapState) (hhdm page : ℕ) : Except InitExecActivateError ℕ × MapState :=
  if st.lastMapped.map Prod.fst = some page then
    match st.lastMapped with
    | some (_, phys) => (.ok phys, st)
    | none => (.error invalidSegmentMap, st)
  else
    match st.memory.frames.allocate with
    | (none, frames) =>
      (.error invalidSegmentMap, { st with memory := { st.memory with frames } })
    | (some frame, frames) =>
      match checkedAdd hhdm frame with
      | none => (.error invalidSegmentMap, { st with memory := { st.memory with frames } })
      | some _ => (.ok frame,
          ⟨PhysicalMemory.zeroTable { st.memory with frames } frame, some (page, frame)⟩)

/-- Copy the file bytes that lie in a page into its frame. -/
def copyToFrame (m : PhysicalMemory) (s : ActivatedSegment) (fileEnd page pageEnd phys : ℕ) :
    PhysicalMemory :=
  let copyStart := max page s.virtualStart
  let copyEnd := min pageEnd fileEnd
  if copyStart < copyEnd then
    m.writeBytes (phys + (copyStart - page))
      (slice s.bytes (copyStart - s.virtualStart) (copyEnd - copyStart))
  else m

/-- One round of the loop of `map_segment_pages`, with the next page. -/
def mapSegmentPage (pml4Phys hhdm flags : ℕ) (s : ActivatedSegment) (fileEnd page : ℕ)
    (st : MapState) : Except InitExecActivateError ℕ × MapState :=
  match segmentFrame st hhdm page with
  | (.error e, st) => (.error e, st)
  | (.ok phys, st) =>
    match st.memory.mapUserRegion pml4Phys hhdm page phys pageSize flags with
    | (.error _, memory) => (.error invalidSegmentMap, { st with memory })
    | (.ok (), memory) =>
      match checkedAdd hhdm phys, checkedAdd page pageSize with
      | some _, some pageEnd =>
        (.ok pageEnd, { st with memory := copyToFrame memory s fileEnd page pageEnd phys })
      | _, _ => (.error invalidSegmentMap, { st with memory })

theorem mapSegmentPage_ok {pml4Phys hhdm flags fileEnd page pageEnd : ℕ} {s : ActivatedSegment}
    {st st' : MapState}
    (h : mapSegmentPage pml4Phys hhdm flags s fileEnd page st = (.ok pageEnd, st')) :
    checkedAdd page pageSize = some pageEnd := by
  rw [mapSegmentPage] at h
  split at h
  · cases h
  · split at h
    · cases h
    · split at h
      · rename_i hnext
        cases h
        exact hnext
      · cases h

/-- The loop of `map_segment_pages`. -/
def mapSegmentLoop (pml4Phys hhdm flags : ℕ) (s : ActivatedSegment) (fileEnd page : ℕ)
    (st : MapState) : Except InitExecActivateError Unit × MapState :=
  if page < s.mapEnd then
    match _h : mapSegmentPage pml4Phys hhdm flags s fileEnd page st with
    | (.error e, st) => (.error e, st)
    | (.ok pageEnd, st) => mapSegmentLoop pml4Phys hhdm flags s fileEnd pageEnd st
  else (.ok (), st)
termination_by maxValue - page
decreasing_by exact sub_lt_of_checkedAdd (by decide) (mapSegmentPage_ok _h)

def mapSegmentPages (pml4Phys hhdm flags : ℕ) (s : ActivatedSegment) (st : MapState) :
    Except InitExecActivateError Unit × MapState :=
  match checkedAdd s.virtualStart s.bytes.length with
  | none => (.error invalidSegmentMap, st)
  | some fileEnd => mapSegmentLoop pml4Phys hhdm flags s fileEnd s.mapStart st

/-- The flags of the pages of a segment. -/
def ActivatedSegment.flags (s : ActivatedSegment) : ℕ :=
  if s.writable then flagUserAccessible ||| flagWritable else flagUserAccessible

/-- The loop of `spawn_executable` over the segments. -/
def mapSegments (pml4Phys hhdm : ℕ) : List ActivatedSegment → MapState →
    Except InitExecActivateError Unit × MapState
  | [], st => (.ok (), st)
  | s :: segments, st =>
    match mapSegmentPages pml4Phys hhdm s.flags s st with
    | (.error e, st) => (.error e, st)
    | (.ok (), st) => mapSegments pml4Phys hhdm segments st

/-! ### One round -/

/-- Where the frame for a page comes from. -/
inductive SegmentFrame (st : MapState) (hhdm page : ℕ) :
    Except InitExecActivateError ℕ → MapState → Prop
  | reused {phys : ℕ} (h : st.lastMapped = some (page, phys)) :
      SegmentFrame st hhdm page (.ok phys) st
  | exhausted (h : st.memory.frames.allocate = (none, st.memory.frames)) :
      SegmentFrame st hhdm page (.error invalidSegmentMap) st
  | overflow {f : ℕ} {frames : FrameAllocator} (hf : Allocated st.memory.frames f frames)
      (hover : 2 ^ 64 ≤ hhdm + f) :
      SegmentFrame st hhdm page (.error invalidSegmentMap)
        { st with memory := { st.memory with frames } }
  | fresh {f : ℕ} {frames : FrameAllocator} (hf : Allocated st.memory.frames f frames)
      (hnew : ∀ phys, st.lastMapped ≠ some (page, phys)) :
      SegmentFrame st hhdm page (.ok f)
        ⟨PhysicalMemory.zeroTable { st.memory with frames } f, some (page, f)⟩

theorem segmentFrame_spec (hsound : st.memory.frames.Sound) (hhdm page : ℕ) :
    SegmentFrame st hhdm page (segmentFrame st hhdm page).1 (segmentFrame st hhdm page).2 := by
  rw [segmentFrame]
  split_ifs with hlast
  · obtain ⟨⟨p, phys⟩, heq, rfl⟩ := Option.map_eq_some_iff.mp hlast
    rw [heq]
    exact .reused heq
  · have hnew (phys : ℕ) : st.lastMapped ≠ some (page, phys) := by
      intro heq
      rw [heq] at hlast
      exact hlast rfl
    rcases hsound.allocate with hnone | ⟨f, frames, hsome, hf⟩
    · rw [hnone]
      exact .exhausted hnone
    · rw [hsome]
      simp only
      cases hadd : checkedAdd hhdm f with
      | none => exact .overflow hf (checkedAdd_eq_none.mp hadd)
      | some _ => exact .fresh hf hnew

/-! ### Rules for the loops -/

/-- Invariant rule for the loop over the pages of a segment: `P page` holds before the round of
`page`, and `Q` after a round that fails. -/
theorem mapSegmentLoop_rule (root hhdm flags : ℕ) (s : ActivatedSegment) (fileEnd : ℕ)
    {P : ℕ → MapState → Prop} {Q : MapState → Prop}
    (hstep : ∀ page st, page < s.mapEnd → P page st →
      (∀ next, (mapSegmentPage root hhdm flags s fileEnd page st).1 = .ok next →
        P next (mapSegmentPage root hhdm flags s fileEnd page st).2) ∧
      ∀ e, (mapSegmentPage root hhdm flags s fileEnd page st).1 = .error e →
        Q (mapSegmentPage root hhdm flags s fileEnd page st).2)
    {page : ℕ} {st : MapState} (h : P page st) :
    ((mapSegmentLoop root hhdm flags s fileEnd page st).1 = .ok () →
      ∃ last, s.mapEnd ≤ last ∧ P last (mapSegmentLoop root hhdm flags s fileEnd page st).2) ∧
    ∀ e, (mapSegmentLoop root hhdm flags s fileEnd page st).1 = .error e →
      Q (mapSegmentLoop root hhdm flags s fileEnd page st).2 := by
  induction page, st using mapSegmentLoop.induct root hhdm flags s fileEnd with
  | case1 page st hlt e st' hround =>
    rw [mapSegmentLoop, if_pos hlt]
    split
    · rename_i e' st'' hround'
      have hQ := (hstep page st hlt h).2
      rw [hround'] at hQ
      exact ⟨nofun, fun _ _ => hQ e' rfl⟩
    · rename_i hround'
      rw [hround] at hround'
      cases hround'
  | case2 page st hlt next st' hround ih =>
    rw [mapSegmentLoop, if_pos hlt]
    split
    · rename_i hround'
      rw [hround] at hround'
      cases hround'
    · rename_i next' st'' hround'
      obtain ⟨hnext, hst⟩ := Prod.mk.inj (hround'.symm.trans hround)
      cases hnext
      subst hst
      refine ih ?_
      have hP := (hstep page st hlt h).1
      rw [hround] at hP
      exact hP next rfl
  | case3 page st hlt =>
    rw [mapSegmentLoop, if_neg hlt]
    exact ⟨fun _ => ⟨page, not_lt.mp hlt, h⟩, nofun⟩

/-- Invariant rule for the loop over the segments: `P done` holds when the segments `done` have been
mapped, and `Q` after a segment that fails. -/
theorem mapSegments_rule (root hhdm : ℕ) {P : List ActivatedSegment → MapState → Prop}
    {Q : MapState → Prop} {done segments : List ActivatedSegment}
    (hstep : ∀ done' s rest st, done ++ segments = done' ++ s :: rest → P done' st →
      ((mapSegmentPages root hhdm s.flags s st).1 = .ok () →
        P (done' ++ [s]) (mapSegmentPages root hhdm s.flags s st).2) ∧
      ∀ e, (mapSegmentPages root hhdm s.flags s st).1 = .error e →
        Q (mapSegmentPages root hhdm s.flags s st).2)
    {st : MapState} (h : P done st) :
    ((mapSegments root hhdm segments st).1 = .ok () →
      P (done ++ segments) (mapSegments root hhdm segments st).2) ∧
    ∀ e, (mapSegments root hhdm segments st).1 = .error e →
      Q (mapSegments root hhdm segments st).2 := by
  induction segments generalizing done st with
  | nil =>
    rw [List.append_nil]
    exact ⟨fun _ => h, nofun⟩
  | cons s rest ih =>
    obtain ⟨hok, herror⟩ := hstep done s rest st rfl h
    rw [mapSegments]
    rcases hround : mapSegmentPages root hhdm s.flags s st with ⟨r, st'⟩
    rw [hround] at hok herror
    cases r with
    | error e => exact ⟨nofun, fun _ _ => herror e rfl⟩
    | ok u =>
      have hsplit : done ++ s :: rest = done ++ [s] ++ rest := by
        rw [List.append_assoc, List.singleton_append]
      rw [hsplit] at hstep ⊢
      exact ih hstep (hok rfl)

end Hxnu.Exec
