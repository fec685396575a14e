import Hxnu.Arch.KernelHalf
import Hxnu.Syscall.Basic

/-!
# `brk` and `mmap`

The two system calls of `kernel/src/syscall.rs` that map memory at addresses a process chooses. Both
round to pages and map zeroed frames in a loop that skips pages for which no frame is left and
ignores mapping errors. All arithmetic wraps.

Neither checks that its pages are in the user half. A call leaves the kernel half alone exactly if
bit 47 of no page it covers is set.

## Main definitions

* `ProcessMemory`: the counters of the two calls, the root of the address space and memory.
* `sysBrk`, `sysMmap`, `MemoryCall`.
* `MemoryCall.pages`: the pages that a call maps.

## Main results

* `memoryCall_untouched_iff`: when a call leaves the kernel half alone.
-/

namespace Hxnu.Syscall

open Word Mm.Frame Arch

/-! ### The calls -/

/-- `CURRENT_BRK` and `NEXT_MMAP_VADDR`. The second starts page-aligned and grows by whole pages. -/
structure Counters where
  currentBrk : ℕ := 0x600000000000
  nextMmapVaddr : ℕ := 0x700000000000
  currentBrk_lt : currentBrk < 2 ^ 64 := by decide
  nextMmapVaddr_lt : nextMmapVaddr < 2 ^ 64 := by decide
  nextMmapVaddr_aligned : 4096 ∣ nextMmapVaddr := by decide

structure ProcessMemory extends Counters where
  /-- The offset of the direct map, if the boot loader gave one. -/
  hhdmOffset : Option ℕ
  cr3 : ℕ
  memory : PhysicalMemory

/-- The body of both loops: a zeroed frame is mapped at a page. -/
def mapFreshPage (m : PhysicalMemory) (pml4 hhdm page : ℕ) : PhysicalMemory :=
  match m.frames.allocate with
  | (none, frames) => { m with frames }
  | (some phys, frames) =>
    ((PhysicalMemory.zeroTable { m with frames } phys).mapUserRegion pml4 hhdm page phys 4096
      (flagUserAccessible ||| flagWritable)).2

/-- The first `n` iterations of both loops, for pages from `start` on. -/
def mapFreshPages (m : PhysicalMemory) (pml4 hhdm start : ℕ) : ℕ → PhysicalMemory
  | 0 => m
  | i + 1 => mapFreshPage (mapFreshPages m pml4 hhdm start i) pml4 hhdm (wrapAdd start (4096 * i))

/-- `(value + 4095) & !4095`. -/
def pageUp (value : ℕ) : ℕ := maskLow 12 (wrapAdd value 4095)

theorem dvd_pageUp (value : ℕ) : 4096 ∣ pageUp value := by
  rw [pageUp, maskLow_page (wrapAdd_lt _ _)]
  exact Dvd.intro_left _ rfl

def sysBrk (s : ProcessMemory) (args : Args) : SyscallOutcome × ProcessMemory :=
  let newBrk := args 0
  if newBrk.val = 0 ∨ newBrk.val ≤ s.currentBrk then (.success (asI64 s.currentBrk), s)
  else
    let oldPage := pageUp s.currentBrk
    let newPage := pageUp newBrk
    let grown (memory : PhysicalMemory) : SyscallOutcome × ProcessMemory :=
      (.success (asI64 newBrk), { s with
        currentBrk := newBrk, currentBrk_lt := newBrk.isLt, memory })
    if oldPage < newPage then
      match s.hhdmOffset with
      | none => (.errno .enomem, s)
      | some hhdm => grown
          (mapFreshPages s.memory s.cr3 hhdm oldPage ((newPage - oldPage) / 4096))
    else grown s.memory

/-- Where `sys_mmap` maps, and the counters after it: at the hint, if it is page-aligned and at least
four gigabytes. -/
def mmapAddress (c : Counters) (hint alignedLen : ℕ) (h : 4096 ∣ alignedLen) : ℕ × Counters :=
  if 0x100000000 ≤ hint ∧ hint &&& 4095 = 0 then (hint, c)
  else (c.nextMmapVaddr, { c with
    nextMmapVaddr := wrapAdd c.nextMmapVaddr alignedLen
    nextMmapVaddr_lt := wrapAdd_lt _ _
    nextMmapVaddr_aligned := by
      have := c.nextMmapVaddr_aligned
      rw [wrapAdd]
      omega })

def sysMmap (s : ProcessMemory) (args : Args) : SyscallOutcome × ProcessMemory :=
  let length := args 1
  if length.val = 0 then (.errno .einval, s)
  else
    let alignedLen := pageUp length
    let (virtAddr, counters) := mmapAddress s.toCounters (args 0) alignedLen (dvd_pageUp _)
    let s := { s with toCounters := counters }
    match s.hhdmOffset with
    | none => (.errno .enomem, s)
    | some hhdm => (.success (asI64 virtAddr), { s with
        memory := mapFreshPages s.memory s.cr3 hhdm virtAddr (alignedLen / 4096) })

inductive MemoryCall
  | brk
  | mmap
  deriving DecidableEq

def MemoryCall.exec (s : ProcessMemory) (args : Args) : MemoryCall → SyscallOutcome × ProcessMemory
  | .brk => sysBrk s args
  | .mmap => sysMmap s args

/-- The first page that a call covers and their number. -/
def MemoryCall.range (c : Counters) (args : Args) : MemoryCall → ℕ × ℕ
  | .brk =>
    if (args 0).val = 0 ∨ (args 0).val ≤ c.currentBrk then (0, 0)
    else (pageUp c.currentBrk, (pageUp (args 0) - pageUp c.currentBrk) / 4096)
  | .mmap =>
    if (args 1).val = 0 then (0, 0)
    else ((mmapAddress c (args 0) (pageUp (args 1)) (dvd_pageUp _)).1, pageUp (args 1) / 4096)

/-- The pages that a call covers. -/
def MemoryCall.pages (call : MemoryCall) (c : Counters) (args : Args) : Set ℕ :=
  {page | ∃ i < (call.range c args).2, page = wrapAdd (call.range c args).1 (4096 * i)}

/-- A call maps the pages it covers and changes no other memory. -/
theorem memory_exec (call : MemoryCall) (s : ProcessMemory) (args : Args) :
    (call.exec s args).2.memory = match s.hhdmOffset with
      | none => s.memory
      | some hhdm => mapFreshPages s.memory s.cr3 hhdm (call.range s.toCounters args).1
          (call.range s.toCounters args).2 := by
  cases call with
  | brk =>
    simp only [MemoryCall.exec, MemoryCall.range, sysBrk]
    by_cases hsmall : (args 0).val = 0 ∨ (args 0).val ≤ s.currentBrk
    · rw [if_pos hsmall, if_pos hsmall]
      cases s.hhdmOffset <;> rfl
    · rw [if_neg hsmall, if_neg hsmall]
      by_cases hgrow : pageUp s.currentBrk < pageUp (args 0)
      · rw [if_pos hgrow]
        cases s.hhdmOffset <;> rfl
      · rw [if_neg hgrow, Nat.sub_eq_zero_of_le (not_lt.mp hgrow)]
        cases s.hhdmOffset <;> rfl
  | mmap =>
    simp only [MemoryCall.exec, MemoryCall.range, sysMmap]
    by_cases hzero : (args 1).val = 0
    · rw [if_pos hzero, if_pos hzero]
      cases s.hhdmOffset <;> rfl
    · rw [if_neg hzero, if_neg hzero]
      cases s.hhdmOffset <;> rfl

/-! ### One page -/

section Page

variable {K : Set ℕ} {record : ℕ → ℕ} {root hhdm page : ℕ} {W : ℕ → Set ℕ} {m : PhysicalMemory}

theorem plainFlags_userWritable : PlainFlags (flagUserAccessible ||| flagWritable) := ⟨rfl, rfl, rfl⟩

/-- One iteration: nothing happens, or a page is mapped to a zeroed frame. -/
theorem mapFreshPage_cases (root hhdm : ℕ) (hsound : m.frames.Sound) (hpage : 4096 ∣ page)
    (hlt : page < 2 ^ 64) :
    m.frames.allocate = (none, m.frames) ∧ mapFreshPage m root hhdm page = m ∨
    ∃ phys frames, m.frames.allocate = (some phys, frames) ∧ Allocated m.frames phys frames ∧
      mapFreshPage m root hhdm page =
        ((PhysicalMemory.zeroTable { m with frames } phys).mapUserPage root hhdm page phys
          (flagUserAccessible ||| flagWritable)).2 := by
  rw [mapFreshPage]
  rcases hsound.allocate with hnone | ⟨phys, frames, hsome, hphys⟩
  · rw [hnone]
    exact .inl ⟨rfl, rfl⟩
  · have htop := hphys.le_top
    rw [physicalTop] at htop
    rw [hsome]
    refine .inr ⟨phys, frames, rfl, hphys, ?_⟩
    simp only
    rw [PhysicalMemory.mapUserRegion_page hpage hphys.aligned le_rfl (by omega) (by omega)]

/-- A page of the user half keeps the kernel half. -/
theorem mapFreshPage_guarded (h : PhysicalMemory.Guarded K record root W m) (hpage : 4096 ∣ page)
    (hlt : page < 2 ^ 64) (huser : pageTableIndex page 39 < kernelHigherHalfStart) :
    ∃ W', PhysicalMemory.Guarded K record root W' (mapFreshPage m root hhdm page) := by
  rcases mapFreshPage_cases root hhdm h.sound hpage hlt with
    ⟨-, heq⟩ | ⟨phys, frames, -, hphys, heq⟩
  · rw [heq]
    exact ⟨W, h⟩
  · rw [heq]
    refine (h.zeroTable hphys).mapUserPage huser ?_ plainFlags_userWritable
    intro j l hl
    rw [mask_of_aligned hphys.aligned hphys.le_top] at hl
    exact .inr ⟨Set.mem_univ j, hl⟩

theorem mapFreshPage_stays (h : PhysicalMemory.Stays l m) (hpage : 4096 ∣ page)
    (hlt : page < 2 ^ 64) : PhysicalMemory.Stays l (mapFreshPage m root hhdm page) := by
  rcases mapFreshPage_cases root hhdm h.sound hpage hlt with
    ⟨-, heq⟩ | ⟨phys, frames, -, hphys, heq⟩
  · rw [heq]
    exact h
  · rw [heq]
    exact (PhysicalMemory.preserved_stays hhdm l).mapUserPage (n := 0) (h.zeroTable hphys) _ _ _ _

/-- One iteration takes at most four frames. -/
theorem mapFreshPage_stocked (h : PhysicalMemory.Stocked c (n + 4) m)
    (htop : hhdm + physicalTop ≤ 2 ^ 64) (hpage : 4096 ∣ page) (hlt : page < 2 ^ 64) :
    PhysicalMemory.Stocked c n (mapFreshPage m root hhdm page) := by
  rcases mapFreshPage_cases root hhdm h.sound hpage hlt with
    ⟨-, heq⟩ | ⟨phys, frames, -, hphys, heq⟩
  · rw [heq]
    exact ⟨h.sound, h.initialized, by have := h.stock; omega⟩
  · rw [heq]
    exact (PhysicalMemory.preserved_stocked hhdm htop c).mapUserPage (h.of_allocated hphys _) _ _ _ _

/-- A page below a missing root entry makes the entry. -/
theorem mapFreshPage_makes (h : PhysicalMemory.Stocked c (n + 2) m)
    (htop : hhdm + physicalTop ≤ 2 ^ 64) (hroot : hhdm + root < 2 ^ 64) (hpage : 4096 ∣ page)
    (hlt : page < 2 ^ 64)
    (habsent : entryPresent (m.words (root + 8 * pageTableIndex page 39)) = false)
    (hused : root + 8 * pageTableIndex page 39 ∉ m.frames.unused) :
    PhysicalMemory.Stays (root + 8 * pageTableIndex page 39) (mapFreshPage m root hhdm page) := by
  rcases mapFreshPage_cases root hhdm h.sound hpage hlt with
    ⟨hnone, -⟩ | ⟨phys, frames, -, hphys, heq⟩
  · obtain ⟨_, _, hsome, -⟩ := h.allocate
    rw [hnone] at hsome
    cases hsome
  · have hstocked : PhysicalMemory.Stocked c (n + 1)
        (PhysicalMemory.zeroTable { m with frames } phys) := h.of_allocated hphys _
    rw [heq]
    refine hstocked.mapUserPage_stays htop hroot ?_ ?_
    · rw [PhysicalMemory.zeroTable_words, Words.fill_of_not_mem fun i hi heq =>
        hused (PhysicalMemory.mem_unused_of_page hphys ⟨i, hi, heq⟩), habsent]
    · intro hx
      exact hused (hphys.left _ hx).1

end Page

/-! ### The loops -/

/-- Bit 47 says which half of the root table a page uses. -/
theorem testBit_eq_false_iff :
    page.testBit 47 = false ↔ pageTableIndex page 39 < kernelHigherHalfStart := by
  rw [Nat.testBit_eq_decide_div_mod_eq, decide_eq_false_iff_not, pageTableIndex_eq,
    kernelHigherHalfStart]
  omega

section Loop

variable {K : Set ℕ} {record : ℕ → ℕ} {root hhdm start : ℕ} {W : ℕ → Set ℕ} {m : PhysicalMemory}

theorem page_aligned (hstart : 4096 ∣ start) (i : ℕ) : 4096 ∣ wrapAdd start (4096 * i) := by
  rw [wrapAdd]
  omega

/-- A loop over pages of the user half keeps the kernel half. -/
theorem mapFreshPages_guarded (h : PhysicalMemory.Guarded K record root W m)
    (hstart : 4096 ∣ start) (hhdm n : ℕ)
    (huser : ∀ i < n, (wrapAdd start (4096 * i)).testBit 47 = false) :
    ∃ W', PhysicalMemory.Guarded K record root W' (mapFreshPages m root hhdm start n) := by
  induction n with
  | zero => exact ⟨W, h⟩
  | succ n ih =>
    obtain ⟨W', hn⟩ := ih fun i hi => huser i (Nat.lt_succ_of_lt hi)
    exact mapFreshPage_guarded hn (page_aligned hstart n) (wrapAdd_lt _ _)
      (testBit_eq_false_iff.mp (huser n (Nat.lt_succ_self n)))

theorem mapFreshPages_stocked (h : PhysicalMemory.Stocked c (4 * n) m)
    (htop : hhdm + physicalTop ≤ 2 ^ 64) (hstart : 4096 ∣ start) :
    PhysicalMemory.Stocked c 0 (mapFreshPages m root hhdm start n) := by
  induction n generalizing c with
  | zero => exact h
  | succ n ih =>
    have hn : PhysicalMemory.Stocked (c + 4) 0 (mapFreshPages m root hhdm start n) :=
      ih ⟨h.sound, h.initialized, by have := h.stock; omega⟩
    exact mapFreshPage_stocked ⟨hn.sound, hn.initialized, by have := hn.stock; omega⟩ htop
      (page_aligned hstart n) (wrapAdd_lt _ _)

/-- What an iteration makes is there at the end of the loop. -/
theorem mapFreshPages_stays (hi : i ≤ n)
    (h : PhysicalMemory.Stays l (mapFreshPages m root hhdm start i)) (hstart : 4096 ∣ start) :
    PhysicalMemory.Stays l (mapFreshPages m root hhdm start n) := by
  induction n, hi using Nat.le_induction with
  | base => exact h
  | succ n _ ih => exact mapFreshPage_stays ih (page_aligned hstart n) (wrapAdd_lt _ _)

end Loop

/-! ### The kernel half -/

theorem dvd_range (call : MemoryCall) (c : Counters) (args : Args) :
    4096 ∣ (call.range c args).1 := by
  cases call with
  | brk =>
    rw [MemoryCall.range]
    split_ifs
    · exact dvd_zero 4096
    · exact dvd_pageUp _
  | mmap =>
    rw [MemoryCall.range]
    split_ifs
    · exact dvd_zero 4096
    · rw [mmapAddress]
      split_ifs with hhint
      · have hmod : (args 0).val % 2 ^ 12 = 0 := by
          rw [← Nat.and_two_pow_sub_one_eq_mod]
          exact hhint.2
        exact Nat.dvd_of_mod_eq_zero hmod
      · exact c.nextMmapVaddr_aligned

/-- Memory without tables, with two pebibytes of frames. -/
def bareMemory : PhysicalMemory where
  words _ := 0
  frames := ⟨true, 2 ^ 51, 2 ^ 51 - 2 ^ 21, 0, [⟨2 ^ 21, 2 ^ 51, 2 ^ 21⟩]⟩

/-- A process with empty tables. -/
def bareProcess (c : Counters) : ProcessMemory where
  toCounters := c
  hhdmOffset := some 0
  cr3 := 0x1000
  memory := bareMemory

theorem bareMemory_sound : bareMemory.frames.Sound := by
  refine ⟨[⟨2 ^ 21, 2 ^ 21, 2 ^ 51, le_rfl, by decide⟩], rfl, List.pairwise_singleton _ _, ?_⟩
  intro s hs
  rw [List.mem_singleton.mp hs]
  exact ⟨by decide, by decide⟩

theorem walk_bareMemory (address : ℕ) :
    walk bareMemory.words 0x1000 address = [0x1000 + 8 * pageTableIndex address 39] :=
  Tables.visited_cons_none (entryTable_of_absent (Nat.zero_and _))

theorem bareMemory_separate : bareMemory.Separate 0x1000 := by
  refine ⟨bareMemory_sound, ?_, ?_⟩
  · rintro u hu l hl ⟨v, hv, hl'⟩
    rw [walk_bareMemory, List.mem_singleton] at hl hl'
    have := index_of_userHalf hu
    have := index_of_kernelHalf hv
    omega
  · rintro u - l hl ⟨r, hr, hle, -⟩
    rw [walk_bareMemory, List.mem_singleton] at hl
    rw [List.mem_singleton.mp hr] at hle
    have hlt := pageTableIndex_lt u 39
    rw [entriesPerTable] at hlt
    change 2 ^ 21 ≤ l at hle
    omega

theorem exists_kernelHalf (hi : kernelHigherHalfStart ≤ i) (hlt : i < entriesPerTable) :
    ∃ address, KernelHalf address ∧ pageTableIndex address 39 = i := by
  rw [kernelHigherHalfStart] at hi
  rw [entriesPerTable] at hlt
  refine ⟨2 ^ 64 - 2 ^ 48 + i * 2 ^ 39, ⟨by omega, by omega⟩, ?_⟩
  rw [pageTableIndex_eq]
  omega

/-- A loop that covers a page of the kernel half makes an entry of the kernel half, if the tables are
empty and frames are left for the pages before it. -/
theorem mapFreshPages_touches (hstart : 4096 ∣ start)
    (h : ∃ i < n, (wrapAdd start (4096 * i)).testBit 47 = true) :
    ¬ PhysicalMemory.Untouched 0x1000 bareMemory (mapFreshPages bareMemory 0x1000 0 start n) := by
  -- the first such page is among the first `2 ^ 35 + 1`
  obtain ⟨i, hi, hbit, hfirst⟩ : ∃ i < n, (wrapAdd start (4096 * i)).testBit 47 = true ∧
      ∀ j < i, (wrapAdd start (4096 * j)).testBit 47 = false := by
    obtain ⟨k, hk, hbit⟩ := h
    have hex : ∃ j, (wrapAdd start (4096 * j)).testBit 47 = true := ⟨k, hbit⟩
    exact ⟨Nat.find hex, (Nat.find_min' hex hbit).trans_lt hk, Nat.find_spec hex,
      fun j hj => Bool.eq_false_of_not_eq_true (Nat.find_min hex hj)⟩
  have hbound : i ≤ 2 ^ 35 := by
    by_contra hlt
    have hlow := hfirst (2 ^ 35 - start / 4096 % 2 ^ 35) (by omega)
    have hzero := hfirst 0 (by omega)
    rw [Nat.testBit_eq_decide_div_mod_eq, decide_eq_false_iff_not, wrapAdd] at hlow hzero
    omega
  set page := wrapAdd start (4096 * i) with hpage
  have hindex : kernelHigherHalfStart ≤ pageTableIndex page 39 := by
    by_contra hlt
    rw [testBit_eq_false_iff.mpr (not_le.mp hlt)] at hbit
    cases hbit
  obtain ⟨address, haddress, hsame⟩ := exists_kernelHalf hindex (pageTableIndex_lt page 39)
  have hkernel : 0x1000 + 8 * pageTableIndex page 39 ∈ kernelWords bareMemory.words 0x1000 := by
    refine ⟨address, haddress, ?_⟩
    rw [walk_bareMemory, hsame]
    exact List.mem_singleton_self _
  obtain ⟨W, hguarded⟩ := mapFreshPages_guarded bareMemory_separate.guarded hstart 0 i hfirst
  have hstocked : PhysicalMemory.Stocked 2 0 (mapFreshPages bareMemory 0x1000 0 start i) := by
    refine mapFreshPages_stocked ⟨bareMemory_sound, rfl, ?_⟩ (by decide) hstart
    have havailable : bareMemory.frames.available = 2 ^ 39 - 2 ^ 9 := by decide
    omega
  have habsent : entryPresent ((mapFreshPages bareMemory 0x1000 0 start i).words
      (0x1000 + 8 * pageTableIndex page 39)) = false := by
    rw [hguarded.kept _ hkernel]
    exact entryPresent_eq_false.mpr (Nat.zero_and _)
  have hmade : PhysicalMemory.Stays (0x1000 + 8 * pageTableIndex page 39)
      (mapFreshPages bareMemory 0x1000 0 start (i + 1)) :=
    mapFreshPage_makes (c := 0) (n := 0) ⟨hstocked.sound, hstocked.initialized, hstocked.stock⟩
      (by decide) (by decide) (page_aligned hstart i) (wrapAdd_lt _ _) habsent
      (hguarded.guarded _ hkernel)
  have hstays := mapFreshPages_stays (Nat.succ_le_of_lt hi) hmade hstart
  intro huntouched
  have hor := huntouched address haddress (0x1000 + 8 * pageTableIndex page 39) (.inl ?_)
  · have hzero : (mapFreshPages bareMemory 0x1000 0 start n).words
        (0x1000 + 8 * pageTableIndex page 39) = 0 := (Nat.or_eq_zero_iff.mp hor).1
    have hpresent := hstays.present
    rw [hzero] at hpresent
    cases hpresent
  · rw [walk_bareMemory, hsame]
    exact List.mem_singleton_self _

/-- **A call leaves the kernel half alone exactly if bit 47 of no page it covers is set.** For given
counters and arguments, the walks of kernel addresses gain nothing in every process whose halves are
apart if and only if the call covers pages with bit 47 clear. -/
theorem memoryCall_untouched_iff (call : MemoryCall) (c : Counters) (args : Args) :
    (∀ s : ProcessMemory, s.toCounters = c → s.memory.Separate s.cr3 →
      s.memory.Untouched s.cr3 (call.exec s args).2.memory) ↔
    ∀ page ∈ call.pages c args, page.testBit 47 = false := by
  have hstart := dvd_range call c args
  constructor
  · intro h page hpage
    by_contra hbit
    obtain ⟨i, hi, rfl⟩ := hpage
    have huntouched := h (bareProcess c) rfl bareMemory_separate
    rw [memory_exec] at huntouched
    exact mapFreshPages_touches hstart ⟨i, hi, Bool.of_not_eq_false hbit⟩ huntouched
  · rintro h s rfl hseparate
    rw [memory_exec]
    cases s.hhdmOffset with
    | none => exact hseparate.guarded.untouched
    | some hhdm =>
      obtain ⟨W, hguarded⟩ := mapFreshPages_guarded hseparate.guarded hstart hhdm
        (call.range s.toCounters args).2 fun i hi => h _ ⟨i, hi, rfl⟩
      exact hguarded.untouched

/-- `mmap` with a page-aligned hint in the kernel half makes an entry of the kernel half. -/
theorem mmap_makes_kernel_entry :
    let s := bareProcess {}
    let args : Args := ![0xffff800000000000, 0x1000, 0, 0, 0, 0]
    s.memory.Separate s.cr3 ∧
      KernelHalf 0xffff800000000000 ∧
      s.memory.translate s.cr3 0xffff800000000000 = none ∧
      (sysMmap s args).2.memory.translate s.cr3 0xffff800000000000 = some (0x200007, []) := by
  refine ⟨bareMemory_separate, ⟨by decide, by decide⟩, ?_, ?_⟩
  · exact translate_of_absent (entryPresent_eq_false.mpr (Nat.zero_and _))
  · change (MemoryCall.mmap.exec (bareProcess {}) _).2.memory.translate 0x1000 _ = _
    rw [memory_exec]
    change (mapFreshPage bareMemory 0x1000 0 0xffff800000000000).translate 0x1000 _ = _
    have hdvd : 4096 ∣ 0xffff800000000000 := by decide
    have hlt : 0xffff800000000000 < 2 ^ 64 := by decide
    rcases mapFreshPage_cases 0x1000 0 bareMemory_sound hdvd hlt with
      ⟨hnone, -⟩ | ⟨phys, frames, hsome, -, heq⟩
    · cases hnone
    · rw [heq]
      cases hsome
      decide +kernel

end Hxnu.Syscall
