import Hxnu.Mm.FramePool

/-!
# Frames in use

What the callers of `allocate_frame` rely on: a frame that the allocator returns was not in use, and
it is not returned again. The memory that the allocator has not handed out is a set of physical
addresses, and an allocation moves one frame out of it.

## Main definitions

* `FrameAllocator.unused`: the physical addresses not handed out.
* `FrameAllocator.Sound`: the regions are spans of whole frames that share no address.
* `Allocated`: what an allocation does.

## Main results

* `FrameAllocator.Sound.allocate`: a sound allocator returns an unused frame or nothing.
* `Represents.sound`: the allocator of a boot memory map is sound after any calls.
-/

namespace Hxnu.Mm.Frame

open Word Pool
open List hiding take

/-- Physical addresses have 52 bits. -/
def physicalTop : ℕ := 2 ^ 52

namespace FrameAllocator

/-- The physical addresses that have not been handed out. -/
def unused (fa : FrameAllocator) : Set ℕ := {x | ∃ r ∈ fa.regions, r.next ≤ x ∧ x < r.endAddr}

/-- The number of frames that have not been handed out. -/
def available (fa : FrameAllocator) : ℕ := (fa.regions.map fun r => r.remaining / 4096).sum

/-- The regions are spans of whole frames of physical memory that share no address. -/
def Sound (fa : FrameAllocator) : Prop :=
  ∃ ss : List Span, fa.regions = ss.map regionOf ∧ ss.Pairwise Span.Apart ∧
    ∀ s ∈ ss, 4096 ∣ s.next ∧ s.hi ≤ physicalTop

end FrameAllocator

theorem unused_eq {fa : FrameAllocator} {ss : List Span} (h : fa.regions = ss.map regionOf) :
    fa.unused = Pool.unused ss := by
  ext x
  rw [FrameAllocator.unused, h]
  constructor
  · rintro ⟨r, hr, hx⟩
    obtain ⟨s, hs, rfl⟩ := mem_map.mp hr
    exact ⟨s, hs, hx⟩
  · rintro ⟨s, hs, hx⟩
    exact ⟨regionOf s, mem_map_of_mem hs, hx⟩

/-- A frame is taken out of the unused memory. -/
structure Allocated (fa : FrameAllocator) (frame : ℕ) (fa' : FrameAllocator) : Prop where
  sound : fa'.Sound
  aligned : 4096 ∣ frame
  le_top : frame + 4096 ≤ physicalTop
  taken : ∀ x, frame ≤ x → x < frame + 4096 → x ∈ fa.unused
  left : ∀ x ∈ fa'.unused, x ∈ fa.unused ∧ (x < frame ∨ frame + 4096 ≤ x)
  initialized : fa'.initialized = true
  available : fa'.available + 1 = fa.available

theorem available_bump {pre post : List Span} {s : Span} (hn : pageSize ≤ s.free)
    {fa fa' : FrameAllocator} (h : fa.regions = (pre ++ s :: post).map regionOf)
    (h' : fa'.regions = (pre ++ s.bump pageSize hn :: post).map regionOf) :
    fa'.available + 1 = fa.available := by
  have hfree : (s.bump pageSize hn).free / 4096 + 1 = s.free / 4096 := by
    have hbump : (s.bump pageSize hn).free + 4096 = s.free := s.free_bump pageSize hn
    omega
  rw [FrameAllocator.available, FrameAllocator.available, h, h']
  simp only [map_append, map_cons, sum_append, sum_cons, regionOf_remaining]
  omega

/-- **A sound allocator returns an unused frame, or nothing.** -/
theorem FrameAllocator.Sound.allocate (h : fa.Sound) :
    fa.allocate = (none, fa) ∨
      ∃ frame fa', fa.allocate = (some frame, fa') ∧ Allocated fa frame fa' := by
  obtain ⟨ss, hregions, hapart, hspans⟩ := h
  have hfit : FrameAllocator.firstFit pageSize (ss.map regionOf) =
      (take pageSize ss).map fun p => (p.1, p.2.map regionOf) :=
    firstFit_map fun s hs => (hspans s hs).2.trans (by decide)
  rw [FrameAllocator.allocate]
  split_ifs with hinit
  · exact .inl rfl
  · rw [hregions, hfit]
    cases htake : take pageSize ss with
    | none => exact .inl rfl
    | some p =>
      obtain ⟨frame, ss'⟩ := p
      refine .inr ⟨frame, _, rfl, ?_⟩
      obtain ⟨htaken, hleft⟩ := unused_take hapart htake
      have hapart' : ss'.Pairwise Span.Apart := ((Ledger.nil hapart).take htake).apart
      obtain ⟨pre, s, post, hn, rfl, rfl, rfl⟩ := take_eq_some htake
      have hs := hspans s (mem_append_right pre mem_cons_self)
      have hbound : s.next + pageSize ≤ s.hi := (s.bump pageSize hn).next_le_hi
      refine ⟨⟨_, rfl, hapart', ?_⟩, hs.1, hbound.trans hs.2, ?_, ?_, ?_, available_bump hn hregions rfl⟩
      · intro t ht
        simp only [mem_append, mem_cons] at ht
        rcases ht with ht | rfl | ht
        · exact hspans t (mem_append_left _ ht)
        · exact ⟨hs.1.add (Dvd.intro 1 rfl), hs.2⟩
        · exact hspans t (mem_append_right pre (mem_cons_of_mem s ht))
      · rw [unused_eq hregions]
        exact htaken
      · rw [unused_eq hregions, unused_eq rfl]
        exact hleft
      · exact Bool.of_not_eq_false hinit

/-- An allocator that returns nothing has no frame left. -/
theorem FrameAllocator.Sound.available_of_none {fa : FrameAllocator} (h : fa.Sound)
    (hinit : fa.initialized = true) (hnone : fa.allocate.1 = none) : fa.available = 0 := by
  obtain ⟨ss, hregions, -, hspans⟩ := h
  have hfit : FrameAllocator.firstFit pageSize (ss.map regionOf) =
      (take pageSize ss).map fun p => (p.1, p.2.map regionOf) :=
    firstFit_map fun s hs => (hspans s hs).2.trans (by decide)
  rw [FrameAllocator.allocate, if_neg (by rw [hinit]; simp), hregions, hfit] at hnone
  cases htake : take pageSize ss with
  | none =>
    rw [FrameAllocator.available, hregions, map_map, sum_eq_zero_iff]
    intro x hx
    obtain ⟨s, hs, rfl⟩ := mem_map.mp hx
    exact Nat.div_eq_of_lt (take_eq_none_iff.mp htake s hs)
  | some p =>
    rw [htake] at hnone
    cases hnone

/-- The allocator of a boot memory map is sound, whatever it has handed out, if the map describes
physical memory. -/
theorem Represents.sound {fa : FrameAllocator} {ss : List Span} {memoryMap : List MemoryMapEntry}
    {ranges : List (ℕ × ℕ)} (h : Represents fa ss) (hs : Served memoryMap ss ranges)
    (htop : ∀ e ∈ memoryMap, e.isUsable = true → e.base + e.length ≤ physicalTop) : fa.Sound := by
  refine ⟨ss, h.regions, hs.apart, ?_⟩
  intro s hmem
  obtain ⟨e, he, husable, -, hhi⟩ := hs.entry s hmem
  exact ⟨(hs.next_dvd s hmem).1, hhi.trans (htop e he husable)⟩

end Hxnu.Mm.Frame
