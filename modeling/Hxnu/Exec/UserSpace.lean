import Hxnu.Arch.KernelHalf
import Hxnu.Exec.MapSegment

/-!
# Loading an image into user space

The load base is chosen by the lowest planned address alone. The segments of an activated image end
in user space exactly when the whole planned range does after it has been moved to the load base. Then
mapping the image into a new page table leaves the kernel half as it was.

## Main definitions

* `FitsUserSpace`: the planned range, moved to the load base, ends in user space.
* `Within`: mapping has changed only the user tables and memory that was free.

## Main results

* `Within.mapSegments`: the loop over the segments changes nothing else.
* `activation_in_userSpace_iff`: activated segments end in user space exactly when the plan fits.
-/

namespace Hxnu.Exec

open Word Buffer Fallible Arch Mm.Frame Tables

/-! ### Mapping changes user tables and free memory -/

/-- Since `m₀`, memory has changed only in the user tables and where it was free. The last frame used
was free, and is a data frame now. -/
structure Within (root : ℕ) (m₀ : PhysicalMemory) (st : MapState) : Prop where
  memory : PhysicalMemory.Extends userIndices root m₀ st.memory
  last : ∀ page phys, st.lastMapped = some (page, phys) →
    PhysicalMemory.DataFrame userIndices root st.memory phys ∧
      ∀ l ∈ Tables.page entriesPerTable phys, l ∈ m₀.frames.unused

section Within

variable {root page phys : ℕ} (hhdm flags fileEnd : ℕ) {s : ActivatedSegment}
  {m m₀ : PhysicalMemory} {st : MapState}

/-- The copied bytes lie in the frame. -/
theorem copyToFrame_cases (m : PhysicalMemory) (s : ActivatedSegment) (fileEnd page phys : ℕ) :
    copyToFrame m s fileEnd page (page + 4096) phys = m ∨ ∃ a bytes,
      copyToFrame m s fileEnd page (page + 4096) phys = m.writeBytes a bytes ∧ phys ≤ a ∧
        a + bytes.length ≤ phys + 4096 := by
  rw [copyToFrame]
  split_ifs with hcopy
  · refine .inr ⟨_, _, rfl, by omega, ?_⟩
    have hlength : (slice s.bytes (max page s.virtualStart - s.virtualStart)
        (min (page + 4096) fileEnd - max page s.virtualStart)).length ≤
        min (page + 4096) fileEnd - max page s.virtualStart := by
      rw [slice]
      exact List.length_take_le _ _
    omega
  · exact .inl rfl

theorem Within.segmentFrame (h : Within root m₀ st) (page : ℕ) :
    Within root m₀ (segmentFrame st hhdm page).2 ∧
      ∀ phys, (Exec.segmentFrame st hhdm page).1 = .ok phys →
        (Exec.segmentFrame st hhdm page).2.lastMapped = some (page, phys) := by
  have hspec := segmentFrame_spec h.memory.space.sound hhdm page
  rcases hframe : Exec.segmentFrame st hhdm page with ⟨r, st'⟩
  rw [hframe] at hspec
  change SegmentFrame st hhdm page r st' at hspec
  cases hspec with
  | reused hlast =>
    refine ⟨h, ?_⟩
    rintro phys ⟨⟩
    exact hlast
  | exhausted hnone => exact ⟨h, nofun⟩
  | overflow hf hover =>
    have hkept := h.memory.space.keep ⟨hf.sound, fun x hx => (hf.left x hx).1⟩
    refine ⟨⟨h.memory.trans hkept, ?_⟩, nofun⟩
    intro page' phys' hlast
    exact ⟨hkept.dataFrame (h.last page' phys' hlast).1, (h.last page' phys' hlast).2⟩
  | fresh hf hnew =>
    obtain ⟨hextends, hdata⟩ := h.memory.space.newFrame hf
    refine ⟨⟨h.memory.trans hextends.toExtends, ?_⟩, ?_⟩
    · rintro page' phys' ⟨⟩
      exact ⟨hdata, fun l hl => h.memory.unused l (PhysicalMemory.mem_unused_of_page hf hl)⟩
    · rintro phys ⟨⟩
      rfl

/-- Memory changes by an extension of the tables. -/
theorem Within.extend (h : Within root m₀ st)
    (hm : PhysicalMemory.Extends userIndices root st.memory m) :
    Within root m₀ { st with memory := m } :=
  ⟨h.memory.trans hm, fun page phys hlast =>
    ⟨hm.dataFrame (h.last page phys hlast).1, (h.last page phys hlast).2⟩⟩

/-- Bytes are copied into the last frame. -/
theorem Within.copyToFrame (h : Within root m₀ st) (hlast : st.lastMapped = some (page, phys)) :
    Within root m₀
      { st with memory := copyToFrame st.memory s fileEnd page (page + 4096) phys } := by
  rcases copyToFrame_cases st.memory s fileEnd page phys with hsame | ⟨a, bytes, hwrite, ha, hb⟩
  · rw [hsame]
    exact h
  · rw [hwrite]
    obtain ⟨hdata, hfree⟩ := h.last page phys hlast
    obtain ⟨hspace, hwords, -⟩ := h.memory.space.writeBytes hdata ha hb
    refine ⟨⟨hspace, ?_, h.memory.unused, ?_⟩, ?_⟩
    · rw [hwords]
      exact h.memory.grown
    · intro l hl hunused
      rw [PhysicalMemory.writeBytes_words, Words.writeBytes_of_not_mem
        (Dvd.dvd.trans (by decide) hdata.aligned) ha hb fun hpage => hunused (hfree l hpage)]
      exact h.memory.same l hl hunused
    · intro page' phys' hlast'
      obtain ⟨hdata', hfree'⟩ := h.last page' phys' hlast'
      refine ⟨⟨hdata'.aligned, hdata'.le_top, ?_, hdata'.used⟩, hfree'⟩
      rw [hwords]
      exact hdata'.not_table

/-- A round for a page of user space. -/
theorem Within.mapSegmentPage (s : ActivatedSegment) (h : Within root m₀ st) (hdvd : 4096 ∣ page)
    (hlimit : page < userSpaceLimit) :
    Within root m₀ (mapSegmentPage root hhdm flags s fileEnd page st).2 := by
  rw [Exec.mapSegmentPage]
  obtain ⟨hframe, hlast⟩ := h.segmentFrame hhdm page
  rcases hresult : Exec.segmentFrame st hhdm page with ⟨r, st'⟩
  rw [hresult] at hframe hlast
  cases r with
  | error e => exact hframe
  | ok phys =>
    have hlast := hlast phys rfl
    have hdata := (hframe.last page phys hlast).1
    have htop := hdata.le_top
    rw [physicalTop] at htop
    rw [userSpaceLimit] at hlimit
    have hmapped := hframe.memory.space.mapUserPage hhdm phys flags
      (pageTableIndex_mem_userIndices hlimit)
    rw [← PhysicalMemory.mapUserRegion_page hdvd hdata.aligned (show pageSize ≤ 4096 from le_rfl)
      (by omega) (by omega)] at hmapped
    simp only
    rcases hregion : st'.memory.mapUserRegion root hhdm page phys pageSize flags with ⟨r, m⟩
    rw [hregion] at hmapped
    have hm := hframe.extend hmapped.toExtends
    cases r with
    | error e => exact hm
    | ok u =>
      simp only
      split
      · rename_i pageEnd _ hend
        obtain ⟨-, rfl⟩ := checkedAdd_eq_some.mp hend
        exact hm.copyToFrame fileEnd hlast
      · exact hm

theorem Within.mapSegmentPages (h : Within root m₀ st) (hdvd : 4096 ∣ s.mapStart)
    (hlimit : s.mapEnd ≤ userSpaceLimit) :
    Within root m₀ (mapSegmentPages root hhdm flags s st).2 := by
  rw [Exec.mapSegmentPages]
  split
  · exact h
  · rename_i fileEnd _
    have hrule := mapSegmentLoop_rule root hhdm flags s fileEnd
      (P := fun page st => 4096 ∣ page ∧ Within root m₀ st) (Q := Within root m₀) ?_ ⟨hdvd, h⟩
    · cases hr : (mapSegmentLoop root hhdm flags s fileEnd s.mapStart st).1 with
      | ok u =>
        obtain ⟨_, _, hP⟩ := hrule.1 hr
        exact hP.2
      | error e => exact hrule.2 e hr
    · intro page st hlt hP
      have hround := hP.2.mapSegmentPage hhdm flags fileEnd s hP.1 (hlt.trans_le hlimit)
      refine ⟨fun next hok => ⟨?_, hround⟩, fun _ _ => hround⟩
      obtain ⟨-, rfl⟩ := checkedAdd_eq_some.mp (mapSegmentPage_ok (Prod.ext hok rfl))
      exact hP.1.add (dvd_refl 4096)

/-- **Mapping segments of user space changes only user tables and free memory.** -/
theorem Within.mapSegments (h : Within root m₀ st)
    (hsegments : ∀ s ∈ segments, 4096 ∣ s.mapStart ∧ s.mapEnd ≤ userSpaceLimit) :
    Within root m₀ (mapSegments root hhdm segments st).2 := by
  induction segments generalizing st with
  | nil => exact h
  | cons s segments ih =>
    obtain ⟨hdvd, hlimit⟩ := hsegments s List.mem_cons_self
    have hfirst := h.mapSegmentPages hhdm s.flags hdvd hlimit
    rw [Exec.mapSegments]
    rcases hround : Exec.mapSegmentPages root hhdm s.flags s st with ⟨r, st'⟩
    rw [hround] at hfirst
    cases r with
    | error e => exact hfirst
    | ok u => exact ih hfirst fun s hs => hsegments s (List.mem_cons_of_mem _ hs)

end Within

/-! ### The kernel half of a new root -/

/-- The tables that the kernel half of a root leads to are in use. -/
def KernelTablesUsed (kernelRoot : ℕ) (m : PhysicalMemory) : Prop :=
  ∀ address, KernelHalf address → ∀ l ∈ walk m.words kernelRoot address, l ∉ m.frames.unused

/-- The kernel half of a new root has no word in its user half and no free one. -/
theorem kernelWords_of_newRoot (h : PhysicalMemory.NewRoot m kernelRoot root m')
    (hused : KernelTablesUsed kernelRoot m) (hl : l ∈ kernelWords m'.words root) :
    l ∉ PhysicalMemory.tableWords userIndices root m' ∧ l ∉ m'.frames.unused := by
  obtain ⟨address, haddress, hwalk⟩ := hl
  have hout (x : ℕ) (hx : x ∈ walk m.words kernelRoot address) : x ∉ page entriesPerTable root :=
    fun hpage => hused address haddress x hx
      (PhysicalMemory.mem_unused_of_page h.allocated hpage)
  have hindex := index_of_kernelHalf haddress
  have hhead := h.kernel _ hindex (pageTableIndex_lt address 39) (hout _ (head_mem_visited _))
  have hcases := mem_visited_of_eq hhead (fun x hx => h.same x (hout x hx)) hwalk
  refine ⟨fun htable => ?_, fun hfree => ?_⟩
  · obtain ⟨i, hi, rfl⟩ := h.space.2 l htable
    rcases hcases with heq | hold
    · omega
    · exact hout _ hold ⟨i, hi.trans (by decide), rfl⟩
  · rcases hcases with rfl | hold
    · exact PhysicalMemory.not_mem_unused_of_page h.allocated
        ⟨_, pageTableIndex_lt address 39, rfl⟩ hfree
    · exact hused address haddress l hold (h.allocated.left l hfree).1

/-- Mapping segments of user space into a new root leaves the kernel half as it was. -/
theorem mapSegments_untouched (hsound : m.frames.Sound)
    (hused : KernelTablesUsed (cr3 &&& pageAddressMask) m)
    (hroot : m.createUserPageTable hhdm cr3 = (.ok root, m₁))
    (hsegments : ∀ s ∈ segments, 4096 ∣ s.mapStart ∧ s.mapEnd ≤ userSpaceLimit) :
    PhysicalMemory.Untouched root m₁ (mapSegments root hhdm segments ⟨m₁, none⟩).2.memory := by
  have hnew := PhysicalMemory.createUserPageTable_ok hsound hroot
  have hstart : Within root m₁ ⟨m₁, none⟩ := ⟨.refl hnew.space.1, fun _ _ hlast => nomatch hlast⟩
  have hwithin := hstart.mapSegments hhdm hsegments
  have hsame (l : ℕ) (hl : l ∈ kernelWords m₁.words root) :
      (mapSegments root hhdm segments ⟨m₁, none⟩).2.memory.words l = m₁.words l := by
    obtain ⟨htable, hfree⟩ := kernelWords_of_newRoot hnew hused hl
    exact hwithin.memory.same l htable hfree
  intro address haddress l hl
  have hwalk : walk (mapSegments root hhdm segments ⟨m₁, none⟩).2.memory.words root address =
      walk m₁.words root address :=
    visited_congr fun l hl => hsame l ⟨address, haddress, hl⟩
  rw [hwalk, or_self] at hl
  rw [hsame l ⟨address, haddress, hl⟩, Nat.or_self]

/-! ### Accepted images -/

/-- The planned range, moved to the load base, ends in user space. -/
def FitsUserSpace (plan : List LoadSegmentPlan) : Prop :=
  let entries := plan.map LoadSegmentPlan.vmMapEntry
  userLoadBase entries + (origVmEnd entries - origVmStart entries) ≤ userSpaceLimit

instance (plan : List LoadSegmentPlan) : Decidable (FitsUserSpace plan) :=
  inferInstanceAs (Decidable (_ ≤ _))

/-- **The activated segments end in user space exactly when the plan fits**, and then mapping them
into a new page table leaves the kernel half as it was. -/
theorem activation_in_userSpace_iff {image path : List UInt8} {elf : ElfImage}
    {plan : List LoadSegmentPlan} {act : ActivatedInitImage} (hparse : parseElf64 image = .ok elf)
    (hplan : buildLoadPlan elf = .ok plan)
    (hact : buildActivation (prepareElf path elf plan) image = .ok act) :
    ((∀ s ∈ act.segments, s.mapEnd ≤ userSpaceLimit) ↔ FitsUserSpace plan) ∧
    (FitsUserSpace plan → ∀ (m m₁ : PhysicalMemory) (hhdm cr3 root : ℕ), m.frames.Sound →
      KernelTablesUsed (cr3 &&& pageAddressMask) m →
      m.createUserPageTable hhdm cr3 = (.ok root, m₁) →
      PhysicalMemory.Untouched root m₁
        (mapSegments root hhdm act.segments ⟨m₁, none⟩).2.memory) := by
  have hplaced := placed_of_ok hparse hplan hact
  have hne : plan.map LoadSegmentPlan.vmMapEntry ≠ [] := by
    simpa using hplaced.nonempty
  obtain ⟨hupper, e, he, hhighest⟩ := origVmEnd_spec hne
  have hiff : (∀ s ∈ act.segments, s.mapEnd ≤ userSpaceLimit) ↔ FitsUserSpace plan := by
    rw [hplaced.segments, List.forall_mem_map, FitsUserSpace]
    constructor
    · intro hall
      obtain ⟨s, hs, rfl⟩ := List.mem_map.mp he
      have hend := hall s hs
      rw [hplaced.moved_mapEnd hs] at hend
      rw [hhighest]
      exact hend
    · intro hfits s hs
      rw [hplaced.moved_mapEnd hs]
      have hle : s.mapEnd ≤ _ := hupper _ (List.mem_map_of_mem hs)
      omega
  refine ⟨hiff, ?_⟩
  intro hfits m m₁ hhdm cr3 root hsound hused hroot
  refine mapSegments_untouched hsound hused hroot fun s hs => ⟨?_, hiff.mpr hfits s hs⟩
  rw [hplaced.segments] at hs
  obtain ⟨t, ht, rfl⟩ := List.mem_map.mp hs
  exact hplaced.moved_mapStart_dvd ht

/-- An ELF header with `count` program headers behind it. -/
def elfHeaderBytes (entryPoint count : ℕ) : List UInt8 :=
  [0x7f, 0x45, 0x4c, 0x46, 2, 1, 1, 0] ++ leBytes 8 0 ++ leBytes 2 2 ++ leBytes 2 62 ++
    leBytes 4 1 ++ leBytes 8 entryPoint ++ leBytes 8 64 ++ leBytes 8 0 ++ leBytes 4 0 ++
    leBytes 2 64 ++ leBytes 2 56 ++ leBytes 2 count ++ leBytes 6 0

/-- The program header of a segment to be loaded. -/
def loadHeaderBytes (flags offset address fileSize memorySize : ℕ) : List UInt8 :=
  leBytes 4 1 ++ leBytes 4 flags ++ leBytes 8 offset ++ leBytes 8 address ++ leBytes 8 address ++
    leBytes 8 fileSize ++ leBytes 8 memorySize ++ leBytes 8 4096

/-- The header of an image with one executable page in user space. -/
def userImage : List UInt8 :=
  elfHeaderBytes 0x400000 1 ++ loadHeaderBytes 5 0 0x400000 120 0x1000

/-- An executable page in user space and a writable one in the kernel half. -/
def kernelImage : List UInt8 :=
  elfHeaderBytes 0x400000 2 ++ loadHeaderBytes 5 0 0x400000 0 0x1000 ++
    loadHeaderBytes 6 0 0xffff800000000000 0 0x1000

/-- An evaluation that accepts an image. -/
theorem exists_accepted (image : List UInt8) {Q : List LoadSegmentPlan → ActivatedInitImage → Prop}
    [∀ plan act, Decidable (Q plan act)]
    (h : ((parseElf64 image).toOption.any fun elf => (buildLoadPlan elf).toOption.any fun plan =>
      (buildActivation (prepareElf [] elf plan) image).toOption.any (Q plan ·)) = true) :
    ∃ elf plan act, parseElf64 image = .ok elf ∧ buildLoadPlan elf = .ok plan ∧
      buildActivation (prepareElf [] elf plan) image = .ok act ∧ Q plan act := by
  obtain ⟨elf, hparse, h⟩ := exists_of_any h
  obtain ⟨plan, hplan, h⟩ := exists_of_any h
  obtain ⟨act, hact, h⟩ := exists_of_decide h
  exact ⟨elf, plan, act, hparse, hplan, hact, h⟩

/-- An image with one page is accepted, and its activated segment ends in user space. -/
theorem activation_in_userSpace_one_page : ∃ elf plan act, parseElf64 userImage = .ok elf ∧
    buildLoadPlan elf = .ok plan ∧ buildActivation (prepareElf [] elf plan) userImage = .ok act ∧
    FitsUserSpace plan ∧ ∀ s ∈ act.segments, s.mapEnd ≤ userSpaceLimit := by
  obtain ⟨elf, plan, act, hparse, hplan, hact, hfits⟩ := exists_accepted userImage
    (Q := fun plan _ => FitsUserSpace plan) (by decide +kernel)
  exact ⟨elf, plan, act, hparse, hplan, hact, hfits,
    (activation_in_userSpace_iff hparse hplan hact).1.mpr hfits⟩

/-- **The second segment stays in the kernel half**, because the first one is in user space. Mapping
the image makes a user page there. -/
theorem activation_keeps_kernel_segment : ∃ elf plan act, parseElf64 kernelImage = .ok elf ∧
    buildLoadPlan elf = .ok plan ∧ buildActivation (prepareElf [] elf plan) kernelImage = .ok act ∧
    (∃ s ∈ act.segments, userSpaceLimit < s.mapEnd) ∧
    (exampleMemory.createUserPageTable 0 0x1000).1 = .ok 0x200000 ∧
    (exampleMemory.createUserPageTable 0 0x1000).2.translate 0x200000 0xffff800000000000 = none ∧
    ∃ entry, (mapSegments 0x200000 0 act.segments
      ⟨(exampleMemory.createUserPageTable 0 0x1000).2, none⟩).2.memory.translate 0x200000
        0xffff800000000000 = some (entry, []) ∧ entry &&& pageUser ≠ 0 := by
  have haccepted := exists_accepted kernelImage
    (Q := fun _ act => (∃ s ∈ act.segments, userSpaceLimit < s.mapEnd) ∧
      ((mapSegments 0x200000 0 act.segments
        ⟨(exampleMemory.createUserPageTable 0 0x1000).2, none⟩).2.memory.translate 0x200000
          0xffff800000000000).any (fun p => decide (p.2 = [] ∧ p.1 &&& pageUser ≠ 0)) = true)
    (by decide +kernel)
  obtain ⟨elf, plan, act, hparse, hplan, hact, hsegment, hentry⟩ := haccepted
  obtain ⟨⟨entry, rest⟩, htranslate, huser⟩ := (Option.any_eq_true _ _).mp hentry
  obtain ⟨rfl, huser⟩ := of_decide_eq_true huser
  exact ⟨elf, plan, act, hparse, hplan, hact, hsegment, by decide +kernel, by decide +kernel, entry,
    htranslate, huser⟩

end Hxnu.Exec
