import Hxnu.Exec.UserSpace

/-!
# Relocation of an image

All addresses of an accepted image are moved by one distance, from the lowest planned page to the load
base. As a word the distance is `wrapSub base origin`; for an image in the upper half it stands for a
move downwards.

## Main definitions

* `Moved`: an address and what it is moved to.
* `Relocated`: a planned segment and the activated one.

## Main results

* `buildActivation_relocates`: the addresses of an activated image.
-/

namespace Hxnu.Exec

open Word Buffer

/-- The address `x` is moved to `y`, as it is from `origin` to `base`: by adding a word, and without a
wrap-around, that is by the same distance in the integers. -/
structure Moved (origin base x y : ℕ) : Prop where
  word : y = wrapAdd x (wrapSub base origin)
  exact : (y : ℤ) = x + (base - origin)
  lt : y < 2 ^ 64

theorem Moved.of_le (hword : origin ≤ maxValue) (hle : origin ≤ x)
    (hlt : base + (x - origin) < 2 ^ 64) : Moved origin base x (base + (x - origin)) := by
  rw [maxValue] at hword
  refine ⟨?_, by omega, hlt⟩
  rw [wrapAdd, wrapSub]
  omega

/-- The planned segment `e` and what the activation makes of it. -/
structure Relocated (bytes : List UInt8) (origin base : ℕ) (e : LoadSegmentPlan)
    (s : ActivatedSegment) : Prop where
  index : s.index = e.index
  virtualStart : Moved origin base e.virtualStart s.virtualStart
  virtualEnd : Moved origin base e.virtualEnd s.virtualEnd
  mapStart : Moved origin base e.mapStart s.mapStart
  mapEnd : Moved origin base e.mapEnd s.mapEnd
  fileBytes : s.fileBytes = e.fileBytes
  memoryBytes : s.memoryBytes = e.memoryBytes
  bytes : s.bytes = slice bytes e.fileOffset e.fileBytes
  length : s.bytes.length = e.fileBytes

theorem LoadSegmentPlan.Planned.relocated (h : e.Planned image) (hword : origin ≤ maxValue)
    (hmovable : Movable bytes origin base e.vmMapEntry) :
    Relocated bytes origin base e (e.vmMapEntry.moved bytes origin base) := by
  have hbounds := h.bounds
  have hstart : origin ≤ e.mapStart := hmovable.mapStart_ge
  have hend : (e.vmMapEntry.moved bytes origin base).mapEnd < 2 ^ 64 := hmovable.mapEnd_lt
  have hmapEnd := h.moved_mapEnd bytes base hstart
  rw [hmapEnd] at hend
  refine ⟨rfl, .of_le hword (by omega) (by omega), .of_le hword (by omega) (by omega),
    .of_le hword hstart (by omega), ?_, rfl, rfl, rfl, length_slice hmovable.in_bytes⟩
  rw [hmapEnd]
  exact .of_le hword (by omega) hend

/-- The addresses of the pages of an activated image. -/
def ActivatedInitImage.mapAddresses (act : ActivatedInitImage) : Set ℕ :=
  {x | ∃ s ∈ act.segments, x = s.mapStart ∨ x = s.mapEnd}

/-- **One distance for all addresses.** The lowest planned page moves to the load base. The distance
is a whole number of pages, and zero if the lowest page lies in user space. -/
theorem buildActivation_relocates {image bytes path : List UInt8} {elf : ElfImage}
    {plan : List LoadSegmentPlan} {act : ActivatedInitImage} (hparse : parseElf64 image = .ok elf)
    (hplan : buildLoadPlan elf = .ok plan)
    (hact : buildActivation (prepareElf path elf plan) bytes = .ok act) :
    ∃ origin base, IsLeast {x | ∃ e ∈ plan, x = e.mapStart} origin ∧
      base = (if origin < userSpaceLimit then origin else userSpaceBase) ∧
      4096 ∣ wrapSub base origin ∧ (origin < userSpaceLimit → wrapSub base origin = 0) ∧
      List.Forall₂ (Relocated bytes origin base) plan act.segments ∧
      Moved origin base elf.entryPoint act.entryPoint ∧
      IsLeast act.mapAddresses act.vmStart ∧ IsGreatest act.mapAddresses act.vmEnd ∧
      ∃ s ∈ act.segments, s.executable = true ∧ s.index = act.entrySegmentIndex ∧
        s.virtualStart ≤ act.entryPoint ∧ act.entryPoint < s.virtualEnd := by
  have hplanned := buildLoadPlan_planned hparse hplan
  obtain ⟨hsegments, hne, hmovable, ⟨hvmStart, -⟩, hvmEnd, entryPoint, hentry, hmoved, e, he, hholds,
    hindex⟩ := buildActivation_segments hact
  cases hentry
  rw [show (prepareElf path elf plan).vmMapEntries = plan.map LoadSegmentPlan.vmMapEntry from rfl]
    at hsegments hne hmovable hvmStart hvmEnd hmoved he
  set entries := plan.map LoadSegmentPlan.vmMapEntry
  set origin := origVmStart entries
  set base := userLoadBase entries
  have hword : origin ≤ maxValue := (foldl_min_spec _ maxValue entries).2.1
  obtain ⟨hleast, horigin, hbase⟩ := planned_origin hplanned hne
  obtain ⟨hupper, highest, hhighest, hend⟩ := origVmEnd_spec hne
  have hrelocated (e : LoadSegmentPlan) (he : e ∈ plan) :
      Relocated bytes origin base e (e.vmMapEntry.moved bytes origin base) :=
    (hplanned e he).relocated hword (hmovable _ (List.mem_map_of_mem he))
  have hmem (e : LoadSegmentPlan) (he : e ∈ plan) :
      e.vmMapEntry.moved bytes origin base ∈ act.segments := by
    rw [hsegments]
    exact List.mem_map_of_mem (List.mem_map_of_mem he)
  have hpages {x : ℕ} (hx : x ∈ act.mapAddresses) : ∃ e ∈ plan,
      x = base + (e.mapStart - origin) ∨ x = base + (e.mapEnd - origin) := by
    obtain ⟨s, hs, hx⟩ := hx
    rw [hsegments, List.map_map] at hs
    obtain ⟨e, he, rfl⟩ := List.mem_map.mp hs
    refine ⟨e, he, hx.imp_right fun hx => ?_⟩
    rw [hx]
    exact (hplanned e he).moved_mapEnd bytes base (hmovable _ (List.mem_map_of_mem he)).mapStart_ge
  refine ⟨origin, base, hleast, rfl, ?_, ?_, ?_, ?_, ⟨?_, ?_⟩, ⟨?_, ?_⟩, ?_⟩
  · exact (Nat.dvd_mod_iff (by decide)).mpr
      (hbase.add (Nat.dvd_sub (by decide) horigin))
  · intro huser
    rw [show base = origin from if_pos huser, wrapSub_of_le le_rfl (by rw [maxValue] at hword; omega),
      Nat.sub_self]
  · rw [hsegments]
    exact List.forall₂_map_right_iff.mpr
      (List.forall₂_map_right_iff.mpr (List.forall₂_same.mpr hrelocated))
  · obtain ⟨hle, hlt, heq⟩ := relocate_eq_ok.mp hmoved
    rw [heq]
    exact .of_le hword hle hlt
  · obtain ⟨s, hs, hstart⟩ := hleast.1
    refine ⟨_, hmem s hs, .inl ?_⟩
    change act.vmStart = base + (s.mapStart - origin)
    rw [hvmStart, ← hstart, Nat.sub_self, Nat.add_zero]
  · intro x hx
    obtain ⟨e, -, hx⟩ := hpages hx
    omega
  · obtain ⟨t, ht, rfl⟩ := List.mem_map.mp hhighest
    refine ⟨_, hmem t ht, .inr ?_⟩
    rw [(hplanned t ht).moved_mapEnd bytes base (hmovable _ hhighest).mapStart_ge,
      (relocate_eq_ok.mp hvmEnd).2.2, hend]
    rfl
  · intro x hx
    obtain ⟨e, he, hx⟩ := hpages hx
    have hbounds := (hplanned e he).bounds
    have hle : e.mapEnd ≤ origVmEnd entries := hupper _ (List.mem_map_of_mem he)
    rw [(relocate_eq_ok.mp hvmEnd).2.2]
    omega
  · obtain ⟨u, hu, rfl⟩ := List.mem_map.mp he
    have hentry := (relocate_eq_ok.mp hmoved).2.2
    have hge := (hmovable _ he).virtualStart_ge
    have hstart := hholds.start_le
    have hlt := hholds.lt_end
    refine ⟨_, hmem u hu, hholds.executable, hindex, ?_, ?_⟩
    · change base + (u.virtualStart - origin) ≤ act.entryPoint
      rw [hentry]
      exact Nat.add_le_add_left (Nat.sub_le_sub_right hstart origin) base
    · change act.entryPoint < base + (u.virtualEnd - origin)
      rw [hentry]
      exact Nat.add_lt_add_left (Nat.sub_lt_sub_right (hge.trans hstart) hlt) base

/-- An image with one page in user space keeps its addresses. -/
theorem buildActivation_relocates_one_page : ∃ elf plan act, parseElf64 userImage = .ok elf ∧
    buildLoadPlan elf = .ok plan ∧ buildActivation (prepareElf [] elf plan) userImage = .ok act ∧
    ∃ origin base, List.Forall₂ (Relocated userImage origin base) plan act.segments ∧
      Moved origin base elf.entryPoint act.entryPoint := by
  obtain ⟨elf, plan, act, hparse, hplan, hact, -⟩ := exists_accepted userImage
    (Q := fun _ _ => True) (by decide +kernel)
  obtain ⟨origin, base, -, -, -, -, hsegments, hentry, -⟩ :=
    buildActivation_relocates hparse hplan hact
  exact ⟨elf, plan, act, hparse, hplan, hact, origin, base, hsegments, hentry⟩

end Hxnu.Exec
