import Hxnu.Lib.Run
import Hxnu.Lib.Word

/-!
# The kernel heap

The allocator of `kernel/src/mm/heap.rs`. It hands out memory from the front of a region and only
counts the blocks that are in use. When the last one is freed, it starts at the front again. A freed
block is not looked at, so everything rests on the count being the number of blocks in use.

Sums saturate at the largest word. A heap that ends there would accept every size, so the region must
end before. Address zero stands for a failed allocation, so the region must not start there.

## Main definitions

* `BumpAllocator`, `BumpAllocator.heapInitialize`, `BumpAllocator.alloc`, `BumpAllocator.dealloc`.
* `HeapState`, `HeapStep`: runs of the allocator together with the blocks in use.
* `HeapInv`: the invariant of these runs.

## Main results

* `HeapInv.alloc`, `HeapInv.dealloc`: each operation keeps the invariant.
* `heap_blocks`: blocks in use are aligned, inside the heap and disjoint in every run.
-/

namespace Hxnu.Mm

open Word

def heapPages : ℕ := 2048

def heapSize : ℕ := heapPages * 4096

/-- The size and the alignment of a block. -/
structure Layout where
  size : ℕ
  align : ℕ
  align_pow : ∃ k ≤ 63, align = 2 ^ k
  size_le : size + (align - 1) < 2 ^ 63
  deriving DecidableEq

@[ext] structure BumpAllocator where
  start : ℕ
  «end» : ℕ
  next : ℕ
  allocations : ℕ
  initialized : Bool
  deriving DecidableEq, Repr

structure HeapStats where
  start : ℕ
  sizeBytes : ℕ
  usedBytes : ℕ
  allocationCount : ℕ
  deriving DecidableEq, Repr

inductive HeapInitError
  | alreadyInitialized
  | outOfFrames
  deriving DecidableEq, Repr

/-- `align_up`. -/
def alignUp (value alignment : ℕ) : ℕ :=
  if alignment = 0 then value else satAdd value (alignment - 1) &&& (2 ^ 64 - alignment)

namespace BumpAllocator

def new : BumpAllocator := ⟨0, 0, 0, 0, false⟩

def stats (a : BumpAllocator) : HeapStats where
  start := a.start
  sizeBytes := a.end - a.start
  usedBytes := a.next - a.start
  allocationCount := a.allocations

/-- `BumpAllocator::initialize`. -/
def initializeRegion (a : BumpAllocator) (start size : ℕ) :
    Except HeapInitError HeapStats × BumpAllocator :=
  if a.initialized then (.error .alreadyInitialized, a)
  else if size = 0 then (.error .outOfFrames, a)
  else
    let a : BumpAllocator := ⟨start, satAdd start size, start, 0, true⟩
    (.ok a.stats, a)

/-- `heap::initialize`. The frames of the heap come from the frame allocator. -/
def heapInitialize (a : BumpAllocator) (hhdmOffset : ℕ) (heapFrame : Option ℕ) :
    Except HeapInitError HeapStats × BumpAllocator :=
  match heapFrame with
  | none => (.error .outOfFrames, a)
  | some frame => a.initializeRegion (satAdd hhdmOffset frame) heapSize

/-- `alloc`. The null pointer is `0`. -/
def alloc (a : BumpAllocator) (layout : Layout) : ℕ × BumpAllocator :=
  if a.initialized = false then (0, a)
  else
    let allocStart := alignUp a.next layout.align
    let allocEnd := satAdd allocStart layout.size
    if a.end < allocEnd then (0, a)
    else (allocStart, { a with next := allocEnd, allocations := satAdd a.allocations 1 })

/-- `dealloc`, which does not look at its arguments. -/
def dealloc (a : BumpAllocator) : BumpAllocator :=
  if 0 < a.allocations then
    if a.allocations - 1 = 0 then { a with next := a.start, allocations := 0 }
    else { a with allocations := a.allocations - 1 }
  else a

end BumpAllocator

/-! ### Runs -/

/-- A block that was handed out. -/
structure Block where
  ptr : ℕ
  layout : Layout
  deriving DecidableEq

/-- The addresses of a block. -/
def Block.range (b : Block) : Set ℕ := Set.Ico b.ptr (b.ptr + b.layout.size)

/-- The allocator and the blocks in use. -/
structure HeapState where
  allocator : BumpAllocator
  live : List Block

inductive HeapOp
  | alloc (layout : Layout)
  | dealloc (block : Block)

/-- An allocation of at least one byte whose alignment does not leave the machine word, or the return
of a block in use. -/
def HeapStep (s : HeapState) : HeapOp → HeapState → Prop
  | .alloc layout, s' => layout.size ≠ 0 ∧ s.allocator.next + (layout.align - 1) ≤ maxValue ∧
      s' = ⟨(s.allocator.alloc layout).2, if (s.allocator.alloc layout).1 = 0 then s.live
        else ⟨(s.allocator.alloc layout).1, layout⟩ :: s.live⟩
  | .dealloc block, s' => block ∈ s.live ∧ s' = ⟨s.allocator.dealloc, s.live.erase block⟩

/-! ### The invariant -/

/-- The allocator that has handed out the blocks `live` of the heap from `lo` to `hi`. -/
structure HeapInv (lo hi : ℕ) (s : HeapState) : Prop where
  initialized : s.allocator.initialized = true
  start_eq : s.allocator.start = lo
  end_eq : s.allocator.end = hi
  count_eq : s.allocator.allocations = s.live.length
  /-- Each block in use took at least one byte. -/
  count_le : lo + s.allocator.allocations ≤ s.allocator.next
  next_le : s.allocator.next ≤ hi
  empty : s.live = [] → s.allocator.next = lo
  inside : ∀ b ∈ s.live, lo ≤ b.ptr ∧ b.ptr + b.layout.size ≤ s.allocator.next
  disjoint : s.live.Pairwise fun b b' => Disjoint b.range b'.range

/-- Rounding up to an alignment. -/
theorem alignUp_spec (layout : Layout) (h : value + (layout.align - 1) ≤ maxValue) :
    value ≤ alignUp value layout.align ∧ layout.align ∣ alignUp value layout.align := by
  obtain ⟨k, hk, halign⟩ := layout.align_pow
  have hpos : 0 < 2 ^ k := Nat.two_pow_pos k
  rw [maxValue] at h
  rw [halign] at h ⊢
  have heq : alignUp value (2 ^ k) = (value + (2 ^ k - 1)) / 2 ^ k * 2 ^ k := by
    rw [alignUp, if_neg hpos.ne', satAdd_of_lt (by omega)]
    exact maskLow_eq (by omega) (by omega)
  rw [heq]
  refine ⟨?_, Dvd.intro_left _ rfl⟩
  have hdiv := Nat.div_add_mod (value + (2 ^ k - 1)) (2 ^ k)
  have hmod := Nat.mod_lt (value + (2 ^ k - 1)) hpos
  rw [Nat.mul_comm] at hdiv
  omega

/-- The two outcomes of an allocation. -/
theorem alloc_cases {a : BumpAllocator} (layout : Layout) (ha : a.initialized = true)
    (hend : a.end < maxValue) (h : a.next + (layout.align - 1) ≤ maxValue) :
    a.alloc layout = (0, a) ∨
      ∃ ptr, a.alloc layout = (ptr, { a with
          next := ptr + layout.size, allocations := satAdd a.allocations 1 }) ∧
        a.next ≤ ptr ∧ layout.align ∣ ptr ∧ ptr + layout.size ≤ a.end := by
  obtain ⟨hle, hdvd⟩ := alignUp_spec layout h
  rw [BumpAllocator.alloc, ha, if_neg nofun]
  simp only
  split_ifs with hfull
  · exact .inl rfl
  · -- The end did not saturate, since the heap ends before the largest word.
    have hsum : alignUp a.next layout.align + layout.size < maxValue := by
      rw [satAdd] at hfull
      omega
    have hsat : satAdd (alignUp a.next layout.align) layout.size =
        alignUp a.next layout.align + layout.size := satAdd_of_lt (by rw [maxValue] at hsum; omega)
    rw [hsat] at hfull ⊢
    exact .inr ⟨_, rfl, hle, hdvd, by omega⟩

section Steps

variable {lo hi : ℕ} {s s' : HeapState}

section

variable (h : HeapInv lo hi s)

include h

/-- The start of a new block is after all blocks in use. -/
theorem HeapInv.disjoint_new (hptr : s.allocator.next ≤ ptr) (layout : Layout)
    (hb : b ∈ s.live) : Disjoint (Block.range ⟨ptr, layout⟩) b.range := by
  refine Set.disjoint_left.mpr fun x hx hx' => ?_
  have hbelow := (h.inside b hb).2
  simp only [Block.range, Set.mem_Ico] at hx hx'
  omega

theorem HeapInv.alloc (hlo : 0 < lo) (hhi : hi < maxValue) {layout : Layout}
    (hstep : HeapStep s (.alloc layout) s') : HeapInv lo hi s' := by
  obtain ⟨hsize, hword, rfl⟩ := hstep
  rcases alloc_cases layout h.initialized (h.end_eq ▸ hhi) hword with
    heq | ⟨ptr, heq, hnext, -, hend⟩
  · rw [heq]
    exact h
  · have hcount := h.count_le
    have hlimit : hi ≤ maxValue := hhi.le
    rw [h.end_eq] at hend
    have hptr : ptr ≠ 0 := by omega
    have hsat : satAdd s.allocator.allocations 1 = s.allocator.allocations + 1 :=
      satAdd_of_lt (by rw [maxValue] at hhi; omega)
    rw [heq, if_neg hptr, hsat]
    refine ⟨h.initialized, h.start_eq, h.end_eq, ?_, ?_, hend, by simp, ?_, ?_⟩
    · exact congrArg (· + 1) h.count_eq
    · simp only
      omega
    · intro b hb
      simp only
      obtain rfl | hb := List.mem_cons.mp hb
      · exact ⟨by simp only; omega, le_rfl⟩
      · obtain ⟨hstart, hbelow⟩ := h.inside b hb
        exact ⟨hstart, by omega⟩
    · exact List.pairwise_cons.mpr ⟨fun b hb => h.disjoint_new hnext layout hb, h.disjoint⟩

theorem HeapInv.dealloc (hstep : HeapStep s (.dealloc block) s') : HeapInv lo hi s' := by
  obtain ⟨hmem, rfl⟩ := hstep
  have hlength : (s.live.erase block).length = s.live.length - 1 := List.length_erase_of_mem hmem
  have hpos : 0 < s.allocator.allocations := by
    rw [h.count_eq]
    exact List.length_pos_of_mem hmem
  have hcount := h.count_eq
  have hle := h.count_le
  have hnext := h.next_le
  have hsub : s.live.erase block ⊆ s.live := List.erase_subset
  have hpairwise := h.disjoint.sublist (List.erase_sublist (a := block))
  rw [BumpAllocator.dealloc, if_pos hpos]
  split_ifs with hlast
  · have hnil : s.live.erase block = [] := List.eq_nil_of_length_eq_zero (by omega)
    refine ⟨h.initialized, h.start_eq, h.end_eq, ?_, ?_, ?_, fun _ => h.start_eq, ?_, hpairwise⟩
    · rw [hnil]
      rfl
    · exact h.start_eq.symm.le
    · exact h.start_eq.trans_le (by omega)
    · rw [hnil]
      exact nofun
  · refine ⟨h.initialized, h.start_eq, h.end_eq, ?_, ?_, hnext, fun hnil => ?_, ?_, hpairwise⟩
    · simp only
      omega
    · simp only
      omega
    · have hzero := congrArg List.length hnil
      simp only [hlength, List.length_nil] at hzero
      omega
    · exact fun b hb => h.inside b (hsub hb)

theorem HeapInv.step (hlo : 0 < lo) (hhi : hi < maxValue)
    (hstep : HeapStep s op s') : HeapInv lo hi s' := by
  cases op with
  | alloc layout => exact h.alloc hlo hhi hstep
  | dealloc block => exact h.dealloc hstep

/-- With no block in use the allocator is as at the start. -/
theorem HeapInv.allocator_eq (hlive : s.live = []) : s.allocator = ⟨lo, hi, lo, 0, true⟩ := by
  have hcount := h.count_eq
  rw [hlive, List.length_nil] at hcount
  exact BumpAllocator.ext h.start_eq h.end_eq (h.empty hlive) hcount h.initialized

end

end Steps

/-! ### The blocks of a run -/

section Runs

variable {hhdmOffset frame : ℕ} {stats : HeapStats} {a : BumpAllocator} {s : HeapState}
  {ops : List HeapOp}

theorem eq_of_heapInitialize
    (hinit : BumpAllocator.new.heapInitialize hhdmOffset (some frame) = (.ok stats, a)) :
    a = ⟨satAdd hhdmOffset frame, satAdd (satAdd hhdmOffset frame) heapSize,
      satAdd hhdmOffset frame, 0, true⟩ := by
  rw [BumpAllocator.heapInitialize, BumpAllocator.initializeRegion, if_neg (by decide),
    if_neg (by decide)] at hinit
  exact (Prod.mk.inj hinit).2.symm

/-- The heap is empty at the start. -/
theorem HeapInv.start (h : lo ≤ hi) : HeapInv lo hi ⟨⟨lo, hi, lo, 0, true⟩, []⟩ where
  initialized := rfl
  start_eq := rfl
  end_eq := rfl
  count_eq := rfl
  count_le := le_rfl
  next_le := h
  empty _ := rfl
  inside := nofun
  disjoint := List.Pairwise.nil

/-- **The blocks in use** are inside the heap and disjoint in every state that is reached. A new block
is aligned, inside the heap and disjoint from them; an allocation that fails changes nothing; and when
no block is in use, the allocator is as it was after its initialization. -/
theorem heap_blocks
    (hinit : BumpAllocator.new.heapInitialize hhdmOffset (some frame) = (.ok stats, a))
    (hpos : 0 < hhdmOffset + frame) (hfits : hhdmOffset + frame + heapSize < maxValue)
    (hrun : Run HeapStep ⟨a, []⟩ ops s) :
    (∀ b ∈ s.live, b.range ⊆ Set.Ico a.start a.end) ∧
      (s.live.Pairwise fun b b' => Disjoint b.range b'.range) ∧
      (s.live = [] → s.allocator = a) ∧
      ∀ layout : Layout, layout.size ≠ 0 → s.allocator.next + (layout.align - 1) ≤ maxValue →
        ((s.allocator.alloc layout).1 = 0 → (s.allocator.alloc layout).2 = s.allocator) ∧
        ((s.allocator.alloc layout).1 ≠ 0 → layout.align ∣ (s.allocator.alloc layout).1 ∧
          Block.range ⟨(s.allocator.alloc layout).1, layout⟩ ⊆ Set.Ico a.start a.end ∧
          ∀ b ∈ s.live, Disjoint (Block.range ⟨(s.allocator.alloc layout).1, layout⟩) b.range) := by
  have hstart : satAdd hhdmOffset frame = hhdmOffset + frame :=
    satAdd_of_lt (by rw [maxValue] at hfits; omega)
  have hend : satAdd (hhdmOffset + frame) heapSize = hhdmOffset + frame + heapSize :=
    satAdd_of_lt (by rw [maxValue] at hfits; omega)
  have ha := eq_of_heapInitialize hinit
  rw [hstart, hend] at ha
  have hinv : HeapInv (hhdmOffset + frame) (hhdmOffset + frame + heapSize) s :=
    hrun.invariant (fun _ _ _ h hstep => h.step hpos hfits hstep)
      (ha ▸ HeapInv.start (Nat.le_add_right _ _))
  have hinside : a.start = hhdmOffset + frame ∧ a.end = hhdmOffset + frame + heapSize := by
    rw [ha]
    exact ⟨rfl, rfl⟩
  rw [hinside.1, hinside.2]
  refine ⟨fun b hb => ?_, hinv.disjoint, fun hlive => (hinv.allocator_eq hlive).trans ha.symm,
    fun layout _ hword => ?_⟩
  · obtain ⟨hlow, hhigh⟩ := hinv.inside b hb
    exact Set.Ico_subset_Ico hlow (hhigh.trans hinv.next_le)
  · rcases alloc_cases layout hinv.initialized (hinv.end_eq ▸ hfits) hword with
      heq | ⟨ptr, heq, hnext, hdvd, hlast⟩
    · rw [heq]
      exact ⟨fun _ => rfl, fun hne => absurd rfl hne⟩
    · have hcount := hinv.count_le
      rw [hinv.end_eq] at hlast
      rw [heq]
      refine ⟨fun hzero => ?_, fun _ => ⟨hdvd, ?_, fun b hb => ?_⟩⟩
      · simp only at hzero
        omega
      · exact Set.Ico_subset_Ico (by simp only; omega) hlast
      · exact hinv.disjoint_new hnext layout hb

/-- The state after two allocations, of 3 and of 8 bytes. -/
def twoBlocks : HeapState :=
  let first : Layout := ⟨3, 1, ⟨0, by decide, rfl⟩, by decide⟩
  let second : Layout := ⟨8, 8, ⟨3, by decide, rfl⟩, by decide⟩
  ⟨⟨0x1000, 0x801000, 0x1010, 2, true⟩, [⟨0x1008, second⟩, ⟨0x1000, first⟩]⟩

theorem heap_blocks_two : ∃ (stats : HeapStats) (a : BumpAllocator) (ops : List HeapOp),
    BumpAllocator.new.heapInitialize 0 (some 0x1000) = (.ok stats, a) ∧
      Run HeapStep ⟨a, []⟩ ops twoBlocks ∧
      twoBlocks.live.Pairwise fun b b' => Disjoint b.range b'.range := by
  let first : Layout := ⟨3, 1, ⟨0, by decide, rfl⟩, by decide⟩
  let second : Layout := ⟨8, 8, ⟨3, by decide, rfl⟩, by decide⟩
  have hinit : BumpAllocator.new.heapInitialize 0 (some 0x1000) =
      (.ok ⟨0x1000, 0x800000, 0, 0⟩, ⟨0x1000, 0x801000, 0x1000, 0, true⟩) := by decide +kernel
  have hrun : Run HeapStep ⟨⟨0x1000, 0x801000, 0x1000, 0, true⟩, []⟩ [.alloc first, .alloc second]
      twoBlocks := by
    refine .cons (t := ⟨⟨0x1000, 0x801000, 0x1003, 1, true⟩, [⟨0x1000, first⟩]⟩) ?_ (.cons ?_ (.nil _))
    · refine ⟨by decide, by decide, ?_⟩
      have halloc : BumpAllocator.alloc ⟨0x1000, 0x801000, 0x1000, 0, true⟩ first =
          (0x1000, ⟨0x1000, 0x801000, 0x1003, 1, true⟩) := by decide +kernel
      rw [halloc, if_neg (by decide)]
    · refine ⟨by decide, by decide, ?_⟩
      have halloc : BumpAllocator.alloc ⟨0x1000, 0x801000, 0x1003, 1, true⟩ second =
          (0x1008, ⟨0x1000, 0x801000, 0x1010, 2, true⟩) := by decide +kernel
      rw [halloc, if_neg (by decide)]
      rfl
  exact ⟨_, _, _, hinit, hrun, (heap_blocks hinit (by decide) (by decide) hrun).2.1⟩

/-- In a heap at the end of the address space the end of a block saturates: two blocks in use are
the same byte, which is outside the heap. -/
theorem saturated_heap_overlaps : ∃ (stats : HeapStats) (a : BumpAllocator) (ops : List HeapOp)
    (s : HeapState) (b : Block),
    BumpAllocator.new.heapInitialize maxValue (some 0x1000) = (.ok stats, a) ∧
      Run HeapStep ⟨a, []⟩ ops s ∧ s.live = [b, b] ∧ b.layout.size = 1 ∧
      b.ptr ∉ Set.Ico a.start a.end := by
  let byte : Layout := ⟨1, 1, ⟨0, by decide, rfl⟩, by decide⟩
  have hinit : BumpAllocator.new.heapInitialize maxValue (some 0x1000) =
      (.ok ⟨maxValue, 0, 0, 0⟩, ⟨maxValue, maxValue, maxValue, 0, true⟩) := by decide +kernel
  have halloc {n : ℕ} (hn : n < 2) :
      BumpAllocator.alloc ⟨maxValue, maxValue, maxValue, n, true⟩ byte =
        (maxValue, ⟨maxValue, maxValue, maxValue, n + 1, true⟩) := by
    interval_cases n <;> decide +kernel
  refine ⟨_, _, [.alloc byte, .alloc byte], ⟨⟨maxValue, maxValue, maxValue, 2, true⟩,
    [⟨maxValue, byte⟩, ⟨maxValue, byte⟩]⟩, ⟨maxValue, byte⟩, hinit, ?_, rfl, rfl, ?_⟩
  · refine .cons (t := ⟨⟨maxValue, maxValue, maxValue, 1, true⟩, [⟨maxValue, byte⟩]⟩) ?_
      (.cons ?_ (.nil _))
    · refine ⟨by decide, by decide, ?_⟩
      rw [halloc (by decide), if_neg (by decide)]
    · refine ⟨by decide, by decide, ?_⟩
      rw [halloc (by decide), if_neg (by decide)]
  · exact fun hmem => absurd hmem.2 (lt_irrefl _)

end Runs

end Hxnu.Mm
