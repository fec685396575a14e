import Hxnu.Mm.Frame

/-!
# The frame allocator as a pool of pages

The exact counterpart of the frame allocator is a first-fit pool (`Hxnu.Pool`): the whole pages of
the usable entries of the memory map above the reserved megabyte, cut off at an address `top`, with
all arithmetic on unbounded naturals. The allocator of `frame.rs` represents the pool cut off at
`2 ^ 64 - 4096`, so saturation matters only for an entry that reaches `2 ^ 64`.

## Main definitions

* `pagePool`, `poolServe`: the exact allocator of a memory map.
* `Represents`: the allocator of the source stands for a pool.

## Main results

* `Represents.initializeFrom`: a successful `initialize` represents the pool of the map.
* `Represents.serve`: one call answers as the pool does and keeps the representation.
* `allocator_runs`: what holds over every sequence of calls.
-/

namespace Hxnu.Mm.Frame

open Word Pool
open List hiding take

variable {top : ℕ} {s : Span} {e : MemoryMapEntry} {memoryMap : List MemoryMapEntry}
  {fa : FrameAllocator} {stats : FrameAllocatorStats} {ss : List Span}

/-! ### The exact allocator -/

/-- The whole pages of a usable entry at or above the reserved megabyte and below `top`. -/
def pageSpan (top : ℕ) (e : MemoryMapEntry) : Option Span :=
  let lo := (max e.base bootstrapReservedEnd + 4095) / 4096 * 4096
  let hi := min ((e.base + e.length) / 4096 * 4096) top
  if h : e.isUsable = true ∧ lo < hi then some ⟨lo, lo, hi, le_rfl, h.2.le⟩ else none

/-- The pages of the usable entries of a memory map below `top`. -/
def pagePool (top : ℕ) (memoryMap : List MemoryMapEntry) : List Span :=
  memoryMap.filterMap (pageSpan top)

/-- One call of the exact allocator. -/
def poolServe (ss : List Span) (req : Request) : Option ℕ × List Span :=
  if req.count = 0 then (none, ss)
  else
    match Pool.take (pageSize * req.count) ss with
    | some (a, ss') => (some a, ss')
    | none => (none, ss)

/-- The last page of the address space is never part of a region: an end address of `2 ^ 64` does
not fit a word. -/
def frameTop : ℕ := 2 ^ 64 - 4096

theorem pageSpan_eq_some (h : pageSpan top e = some s) :
    e.isUsable = true ∧ s.next = s.lo ∧ s.lo < s.hi ∧
      s.lo = (max e.base bootstrapReservedEnd + 4095) / 4096 * 4096 ∧
      s.hi = min ((e.base + e.length) / 4096 * 4096) top := by
  rw [pageSpan] at h
  split_ifs at h with hc
  obtain rfl := Option.some.inj h
  exact ⟨hc.1, rfl, hc.2, rfl, rfl⟩

theorem pageSpan_eq_none (h : ¬ e.isUsable = true ∨ min ((e.base + e.length) / 4096 * 4096) top ≤
      (max e.base bootstrapReservedEnd + 4095) / 4096 * 4096) : pageSpan top e = none := by
  rw [pageSpan, dif_neg]
  rintro ⟨hu, hlt⟩
  rcases h with h | h
  · exact h hu
  · exact absurd hlt (not_lt.mpr h)

theorem pagePool_cons_none (h : pageSpan top e = none) : pagePool top (e :: es) = pagePool top es :=
  filterMap_cons_none h

theorem pagePool_cons_some (h : pageSpan top e = some s) :
    pagePool top (e :: es) = s :: pagePool top es :=
  filterMap_cons_some h

/-- Cutting off at `frameTop` changes nothing for entries that end below `2 ^ 64`. -/
theorem pagePool_frameTop (h : ∀ e ∈ memoryMap, e.isUsable = true → e.base + e.length < 2 ^ 64) :
    pagePool frameTop memoryMap = pagePool (2 ^ 64) memoryMap := by
  refine filterMap_congr fun e he => ?_
  by_cases hu : e.isUsable = true
  · have hlt := h e he hu
    have hmin : min ((e.base + e.length) / 4096 * 4096) frameTop =
        min ((e.base + e.length) / 4096 * 4096) (2 ^ 64) := by
      rw [frameTop]
      omega
    simp only [pageSpan, hmin]
  · rw [pageSpan_eq_none (.inl hu), pageSpan_eq_none (.inl hu)]

/-- Pages of disjoint entries are disjoint. -/
theorem pagePool_pairwise (h : (memoryMap.filter (·.isUsable)).Pairwise
      fun e e' => e.base + e.length ≤ e'.base ∨ e'.base + e'.length ≤ e.base) :
    (pagePool top memoryMap).Pairwise Span.Apart := by
  rw [pairwise_filter] at h
  rw [pagePool, pairwise_filterMap]
  refine h.imp fun {e e'} hdisj s hs s' hs' => ?_
  obtain ⟨hu, -, -, hlo, hhi⟩ := pageSpan_eq_some hs
  obtain ⟨hu', -, -, hlo', hhi'⟩ := pageSpan_eq_some hs'
  have := hdisj hu hu'
  rw [Span.Apart, hlo, hhi, hlo', hhi']
  omega

/-! ### Alignment in 64 bits -/

theorem alignDown_page (hv : v < 2 ^ 64) : alignDown v pageSize = v / 4096 * 4096 := by
  rw [← maskLow_page hv]
  rfl

theorem alignDown_end (e : MemoryMapEntry) :
    alignDown (satAdd e.base e.length) pageSize =
      min ((e.base + e.length) / 4096 * 4096) frameTop := by
  rw [alignDown_page (satAdd_lt _ _), satAdd, maxValue, frameTop]
  omega

theorem alignUp_start (e : MemoryMapEntry) :
    alignUp (max e.base bootstrapReservedEnd) pageSize =
      min ((max e.base bootstrapReservedEnd + 4095) / 4096 * 4096) frameTop := by
  have halign (v : ℕ) : alignUp v pageSize = alignDown (satAdd v 4095) pageSize := by
    simp [alignUp, alignDown, pageSize]
  rw [halign, alignDown_page (satAdd_lt _ _), satAdd, maxValue, frameTop]
  omega

/-! ### The representation -/

/-- The region that stands for a span. -/
def regionOf (s : Span) : FrameRegion := ⟨s.lo, s.hi, s.next⟩

@[simp] theorem regionOf_remaining (s : Span) : (regionOf s).remaining = s.free := rfl

/-- The bytes of the spans of a pool, used or not. -/
def poolBytes (ss : List Span) : ℕ := (ss.map fun s => s.hi - s.lo).sum

/-- The loop of `initialize` appends the pages of the map, and adds up their bytes as long as the
sum fits a word. -/
theorem addEntries_ok (h : fa.addEntries entries = (.ok (), fa'))
    (hsum : fa.allocatableBytes + poolBytes (pagePool frameTop entries) < 2 ^ 64) :
    fa'.regions = fa.regions ++ (pagePool frameTop entries).map regionOf ∧
      fa'.allocatableBytes = fa.allocatableBytes + poolBytes (pagePool frameTop entries) ∧
      fa'.allocatedFrames = fa.allocatedFrames := by
  induction entries generalizing fa with
  | nil =>
    obtain ⟨-, rfl⟩ := Prod.mk.inj h
    simp [pagePool, poolBytes]
  | cons e es ih =>
    simp only [FrameAllocator.addEntries, alignDown_end, alignUp_start] at h
    split_ifs at h with hu hle hfull
    · rw [pagePool_cons_none (pageSpan_eq_none (.inl (by simp [hu])))] at hsum ⊢
      exact ih h hsum
    · have hnone : pageSpan frameTop e = none := by
        refine pageSpan_eq_none (.inr ?_)
        omega
      rw [pagePool_cons_none hnone] at hsum ⊢
      have hrest := ih h hsum
      exact hrest
    · cases (Prod.mk.inj h).1
    · have hlt : (max e.base bootstrapReservedEnd + 4095) / 4096 * 4096 <
          min ((e.base + e.length) / 4096 * 4096) frameTop := by omega
      have hspan : pageSpan frameTop e = some ⟨_, _, _, le_rfl, hlt.le⟩ :=
        dif_pos ⟨by simpa using hu, hlt⟩
      rw [pagePool_cons_some hspan] at hsum ⊢
      have hmin : min ((max e.base bootstrapReservedEnd + 4095) / 4096 * 4096) frameTop =
          (max e.base bootstrapReservedEnd + 4095) / 4096 * 4096 := by omega
      simp only [poolBytes, map_cons, sum_cons] at hsum ⊢
      rw [hmin] at h
      have hadd := satAdd_of_lt (lt_of_le_of_lt (Nat.add_le_add_left (Nat.le_add_right _ _) _) hsum)
      simp only [FrameRegion.size, hadd] at h
      obtain ⟨hreg, hbytes, hframes⟩ := ih h (by rw [poolBytes]; simpa [add_assoc] using hsum)
      refine ⟨?_, ?_, hframes⟩
      · rw [hreg]
        simp [regionOf]
      · rw [hbytes, poolBytes]
        simp [add_assoc]

/-- The allocator stands for the pool: its regions are the spans, no end address overflows, and
the granted frames and the free bytes add up to the bytes of the pool. -/
structure Represents (fa : FrameAllocator) (ss : List Span) : Prop where
  initialized : fa.initialized = true
  regions : fa.regions = ss.map regionOf
  /-- The spans end below the top of the address space. -/
  hi_le : ∀ s ∈ ss, s.hi ≤ frameTop
  accounts : 4096 * fa.allocatedFrames + freeBytes ss = fa.allocatableBytes
  allocatable_lt : fa.allocatableBytes < 2 ^ 64

theorem freeBytes_pagePool (top : ℕ) (memoryMap : List MemoryMapEntry) :
    freeBytes (pagePool top memoryMap) = poolBytes (pagePool top memoryMap) := by
  rw [freeBytes, poolBytes]
  refine congrArg List.sum (map_congr_left fun s hs => ?_)
  obtain ⟨e, -, he⟩ := mem_filterMap.mp hs
  obtain ⟨-, hnext, -⟩ := pageSpan_eq_some he
  rw [Span.free, hnext]

theorem hi_le_of_mem_pagePool (hs : s ∈ pagePool top memoryMap) : s.hi ≤ top := by
  obtain ⟨e, -, he⟩ := mem_filterMap.mp hs
  obtain ⟨-, -, -, -, hhi⟩ := pageSpan_eq_some he
  omega

theorem poolBytes_pagePool_lt (hdisj : (memoryMap.filter (·.isUsable)).Pairwise
      fun e e' => e.base + e.length ≤ e'.base ∨ e'.base + e'.length ≤ e.base) :
    poolBytes (pagePool frameTop memoryMap) < 2 ^ 64 :=
  (sum_size_le (pagePool_pairwise hdisj) fun s hs => hi_le_of_mem_pagePool hs).trans_lt
    (by rw [frameTop]; norm_num)

theorem initializeFrom_ok (hinit : FrameAllocator.new.initializeFrom memoryMap = (.ok stats, fa)) :
    ∃ fa', FrameAllocator.new.addEntries memoryMap = (.ok (), fa') ∧
      fa = { fa' with initialized := true } ∧ stats = fa.stats := by
  rw [FrameAllocator.initializeFrom, if_neg (by decide)] at hinit
  split at hinit
  · cases (Prod.mk.inj hinit).1
  · rename_i fa' hadd
    split_ifs at hinit
    · cases (Prod.mk.inj hinit).1
    · obtain ⟨hstats, rfl⟩ := Prod.mk.inj hinit
      exact ⟨fa', hadd, rfl, (Except.ok.inj hstats).symm⟩

/-- **A successful `initialize` represents the pages of the map.** -/
theorem Represents.initializeFrom (hdisj : (memoryMap.filter (·.isUsable)).Pairwise
      fun e e' => e.base + e.length ≤ e'.base ∨ e'.base + e'.length ≤ e.base)
    (hinit : FrameAllocator.new.initializeFrom memoryMap = (.ok stats, fa)) :
    Represents fa (pagePool frameTop memoryMap) := by
  have hsmall := poolBytes_pagePool_lt hdisj
  obtain ⟨fa', hadd, rfl, -⟩ := initializeFrom_ok hinit
  obtain ⟨hreg, hbytes, hframes⟩ :=
    addEntries_ok hadd (by simpa [FrameAllocator.new] using hsmall)
  simp only [FrameAllocator.new, nil_append, Nat.zero_add] at hreg hbytes hframes
  refine ⟨rfl, hreg, fun s hs => hi_le_of_mem_pagePool hs, ?_, ?_⟩
  · simp only [hframes, hbytes, freeBytes_pagePool, Nat.mul_zero, Nat.zero_add]
  · simpa only [hbytes] using hsmall

/-! ### The byte counts of the map -/

/-- The bytes of the usable entries. -/
def usableBytes (memoryMap : List MemoryMapEntry) : ℕ :=
  ((memoryMap.filter (·.isUsable)).map MemoryMapEntry.length).sum

theorem addEntries_totalBytes (h : fa.addEntries entries = (.ok (), fa'))
    (hsum : fa.totalBytes + usableBytes entries < 2 ^ 64) :
    fa'.totalBytes = fa.totalBytes + usableBytes entries := by
  induction entries generalizing fa with
  | nil =>
    obtain ⟨-, rfl⟩ := Prod.mk.inj h
    rfl
  | cons e es ih =>
    by_cases hu : e.isUsable = true
    · have hcons : usableBytes (e :: es) = e.length + usableBytes es := by
        simp [usableBytes, hu]
      rw [hcons, ← add_assoc] at hsum ⊢
      have hadd := satAdd_of_lt ((Nat.le_add_right _ _).trans_lt hsum)
      simp only [FrameAllocator.addEntries, hu, Bool.true_eq_false, if_false, hadd] at h
      split_ifs at h
      · exact ih h hsum
      · cases (Prod.mk.inj h).1
      · exact ih h hsum
    · have hcons : usableBytes (e :: es) = usableBytes es := by simp [usableBytes, hu]
      rw [hcons] at hsum ⊢
      rw [FrameAllocator.addEntries, if_pos (by simpa using hu)] at h
      exact ih h hsum

section

variable (hdisj : (memoryMap.filter (·.isUsable)).Pairwise fun e e' =>
  e.base + e.length ≤ e'.base ∨ e'.base + e'.length ≤ e.base)

include hdisj

/-- Disjoint usable entries that end below `2 ^ 64` have fewer than `2 ^ 64` bytes. -/
theorem usableBytes_lt (hend : ∀ e ∈ memoryMap, e.isUsable = true → e.base + e.length < 2 ^ 64) :
    usableBytes memoryMap < 2 ^ 64 := by
  let span (e : MemoryMapEntry) : Span :=
    ⟨e.base, e.base, e.base + e.length, le_rfl, Nat.le_add_right _ _⟩
  have hpair : ((memoryMap.filter (·.isUsable)).map span).Pairwise Span.Apart :=
    pairwise_map.mpr hdisj
  have hbound : ∀ s ∈ (memoryMap.filter (·.isUsable)).map span, s.hi ≤ 2 ^ 64 - 1 := by
    intro s hs
    obtain ⟨e, he, rfl⟩ := mem_map.mp hs
    obtain ⟨hmem, hu⟩ := mem_filter.mp he
    exact Nat.le_sub_one_of_lt (hend e hmem hu)
  have hsum := sum_size_le hpair hbound
  have hlength : (fun s : Span => s.hi - s.lo) ∘ span = MemoryMapEntry.length := by
    funext e
    exact Nat.add_sub_cancel_left _ _
  rw [map_map, hlength] at hsum
  rw [usableBytes]
  omega

/-- For entries that end below `2 ^ 64` the byte counts `initialize` returns are exact. -/
theorem stats_exact (hinit : FrameAllocator.new.initializeFrom memoryMap = (.ok stats, fa))
    (hend : ∀ e ∈ memoryMap, e.isUsable = true → e.base + e.length < 2 ^ 64) :
    stats = ⟨(pagePool (2 ^ 64) memoryMap).length, usableBytes memoryMap,
      poolBytes (pagePool (2 ^ 64) memoryMap), 0⟩ := by
  obtain ⟨fa', hadd, rfl, rfl⟩ := initializeFrom_ok hinit
  have htotal := addEntries_totalBytes hadd
    (by simpa [FrameAllocator.new] using usableBytes_lt hdisj hend)
  obtain ⟨hreg, hbytes, hframes⟩ := addEntries_ok hadd
    (by simpa [FrameAllocator.new] using poolBytes_pagePool_lt hdisj)
  simp only [FrameAllocator.new, nil_append, Nat.zero_add] at hreg hbytes hframes htotal
  rw [FrameAllocator.stats]
  simp only [hreg, hbytes, hframes, htotal, length_map, pagePool_frameTop hend]

end

/-! ### One call -/

/-- The first-fit search over the regions is the one over the spans. -/
theorem firstFit_map (h : ∀ s ∈ ss, s.hi ≤ frameTop) :
    FrameAllocator.firstFit n (ss.map regionOf) =
      (take n ss).map fun p => (p.1, p.2.map regionOf) := by
  induction ss with
  | nil => rfl
  | cons s ss ih =>
    obtain ⟨hs, hss⟩ := forall_mem_cons.mp h
    rw [map_cons, FrameAllocator.firstFit, take, regionOf_remaining]
    by_cases hn : n ≤ s.free
    · have hsat : satAdd s.next n = s.next + n := by
        refine satAdd_of_lt ?_
        have := s.next_le_hi
        rw [Span.free] at hn
        rw [frameTop] at hs
        omega
      rw [if_neg (not_lt.mpr hn), dif_pos hn]
      simp [regionOf, hsat]
    · rw [if_pos (not_le.mp hn), dif_neg hn, ih hss, Option.map_map, Option.map_map]
      rfl

theorem hi_of_mem_take (h : take n ss = some (a, ss')) (hs : s ∈ ss') :
    ∃ t ∈ ss, s.lo = t.lo ∧ s.hi = t.hi := by
  obtain ⟨pre, t, post, hn, rfl, -, rfl⟩ := take_eq_some h
  simp only [mem_append, mem_cons] at hs ⊢
  rcases hs with hs | rfl | hs
  · exact ⟨s, .inl hs, rfl, rfl⟩
  · exact ⟨t, .inr (.inl rfl), rfl, rfl⟩
  · exact ⟨s, .inr (.inr hs), rfl, rfl⟩

/-- A saturated request fails as the exact one does: no region is that large. -/
theorem firstFit_satMul {count : ℕ} (h : ∀ s ∈ ss, s.hi ≤ frameTop) :
    FrameAllocator.firstFit (satMul count pageSize) (ss.map regionOf) =
      (take (pageSize * count) ss).map fun p => (p.1, p.2.map regionOf) := by
  rw [firstFit_map h]
  by_cases hc : count * pageSize < 2 ^ 64
  · rw [satMul_of_lt hc, Nat.mul_comm]
  · have hfree : ∀ s ∈ ss, s.free < 2 ^ 64 - 1 := fun s hs => by
      have hs' := h s hs
      rw [frameTop] at hs'
      rw [Span.free]
      omega
    have hsat : satMul count pageSize = 2 ^ 64 - 1 := by
      rw [satMul, maxValue]
      omega
    have hcode : take (satMul count pageSize) ss = none :=
      take_eq_none_iff.mpr fun s hs => by rw [hsat]; exact hfree s hs
    have hexact : take (pageSize * count) ss = none :=
      take_eq_none_iff.mpr fun s hs => by
        have := hfree s hs
        rw [Nat.mul_comm]
        omega
    rw [hcode, hexact]

/-- Both calls are the same search, for one frame or for `count` frames. -/
theorem serve_eq (h : fa.initialized = true) (req : Request) : fa.serve req =
      if req.count = 0 then (none, fa)
      else
        match FrameAllocator.firstFit (satMul req.count pageSize) fa.regions with
        | some (frame, regions) =>
          (some frame,
            { fa with regions, allocatedFrames := satAdd fa.allocatedFrames req.count })
        | none => (none, fa) := by
  cases req with
  | allocate =>
    rw [FrameAllocator.serve, FrameAllocator.allocate, if_neg (by simp [h]), Request.count,
      if_neg one_ne_zero, satMul_of_lt (by norm_num [pageSize]), one_mul]
    all_goals rfl
  | allocateContiguous n =>
    simp only [FrameAllocator.serve, FrameAllocator.allocateContiguous, Request.count, h,
      Bool.true_eq_false, false_or]
    all_goals rfl

/-- **One call answers as the exact allocator does.** -/
theorem Represents.serve (h : Represents fa ss) (req : Request) :
    (fa.serve req).1 = (poolServe ss req).1 ∧
      Represents (fa.serve req).2 (poolServe ss req).2 := by
  rw [serve_eq h.initialized, poolServe, h.regions, firstFit_satMul h.hi_le]
  by_cases hc : req.count = 0
  · rw [if_pos hc, if_pos hc]
    exact ⟨rfl, h⟩
  · rw [if_neg hc, if_neg hc]
    cases htake : take (pageSize * req.count) ss with
    | none => exact ⟨rfl, h⟩
    | some p =>
      obtain ⟨a, ss'⟩ := p
      have hfree := freeBytes_take htake
      have hacc := h.accounts
      have hlt := h.allocatable_lt
      rw [pageSize] at hfree
      have hsat : satAdd fa.allocatedFrames req.count = fa.allocatedFrames + req.count :=
        satAdd_of_lt (by omega)
      refine ⟨rfl, h.initialized, rfl, fun s hs => ?_, ?_, hlt⟩
      · obtain ⟨t, ht, -, hhi⟩ := hi_of_mem_take htake hs
        exact hhi ▸ h.hi_le t ht
      · change 4096 * satAdd fa.allocatedFrames req.count + freeBytes ss' = fa.allocatableBytes
        omega

/-! ### Sequences of calls -/

/-- The pool of a memory map with the ranges handed out so far: the spans and the ranges are made
of pages of usable entries above the reserved megabyte, and no two ranges overlap. -/
structure Served (memoryMap : List MemoryMapEntry) (ss : List Span)
    (ranges : List (ℕ × ℕ)) : Prop extends Ledger ss ranges where
  next_dvd : ∀ s ∈ ss, 4096 ∣ s.next ∧ 4096 ∣ s.hi
  start_dvd : ∀ g ∈ ranges, 4096 ∣ g.1
  reserved_le : ∀ s ∈ ss, bootstrapReservedEnd ≤ s.lo
  entry : ∀ s ∈ ss, ∃ e ∈ memoryMap, e.isUsable = true ∧ e.base ≤ s.lo ∧
    s.hi ≤ e.base + e.length

namespace Served

variable {memoryMap : List MemoryMapEntry} {ss : List Span} {ranges : List (ℕ × ℕ)}

theorem init
    (hdisj : (memoryMap.filter (·.isUsable)).Pairwise
      fun e e' => e.base + e.length ≤ e'.base ∨ e'.base + e'.length ≤ e.base) :
    Served memoryMap (pagePool frameTop memoryMap) [] where
  toLedger := .nil (pagePool_pairwise hdisj)
  next_dvd s hs := by
    obtain ⟨e, -, he⟩ := mem_filterMap.mp hs
    obtain ⟨-, hnext, -, hlo, hhi⟩ := pageSpan_eq_some he
    rw [hnext, hlo, hhi, frameTop]
    omega
  start_dvd g hg := by simp at hg
  reserved_le s hs := by
    obtain ⟨e, -, he⟩ := mem_filterMap.mp hs
    obtain ⟨-, -, -, hlo, -⟩ := pageSpan_eq_some he
    omega
  entry s hs := by
    obtain ⟨e, hmem, he⟩ := mem_filterMap.mp hs
    obtain ⟨hu, -, -, hlo, hhi⟩ := pageSpan_eq_some he
    exact ⟨e, hmem, hu, by omega, by omega⟩

theorem take {count a : ℕ} {ss' : List Span} (h : Served memoryMap ss ranges)
    (htake : Pool.take (pageSize * count) ss = some (a, ss')) :
    Served memoryMap ss' ((a, pageSize * count) :: ranges) := by
  refine ⟨h.toLedger.take htake, ?_, ?_, fun s hs => ?_, fun s hs => ?_⟩
  · obtain ⟨pre, t, post, hn, rfl, -, rfl⟩ := take_eq_some htake
    have hdvd := h.next_dvd
    simp only [forall_mem_append, forall_mem_cons, Span.bump_next,
      Span.bump_hi] at hdvd ⊢
    obtain ⟨hpre, ⟨hnext, hhi⟩, hpost⟩ := hdvd
    exact ⟨hpre, ⟨hnext.add (Dvd.intro _ rfl), hhi⟩, hpost⟩
  · obtain ⟨pre, t, post, hn, rfl, rfl, -⟩ := take_eq_some htake
    exact forall_mem_cons.mpr ⟨(h.next_dvd t (by simp)).1, h.start_dvd⟩
  · obtain ⟨t, ht, hlo, -⟩ := hi_of_mem_take htake hs
    exact hlo ▸ h.reserved_le t ht
  · obtain ⟨t, ht, hlo, hhi⟩ := hi_of_mem_take htake hs
    rw [hlo, hhi]
    exact h.entry t ht

/-- Every sequence of calls keeps the accounts of the ranges handed out. -/
theorem runs (h : Served memoryMap ss ranges) (reqs : List Request) :
    Served memoryMap (final poolServe ss reqs)
      (granted reqs (outputs poolServe ss reqs) ++ ranges) := by
  induction reqs generalizing ss ranges with
  | nil => exact h
  | cons req reqs ih =>
    rw [final, outputs, poolServe]
    by_cases hc : req.count = 0
    · rw [if_pos hc]
      exact ih h
    · rw [if_neg hc]
      cases htake : Pool.take (pageSize * req.count) ss with
      | none => exact ih h
      | some p =>
        have hnext := ih (h.take htake)
        rw [granted, append_assoc]
        exact hnext

theorem range (h : Served memoryMap ss ranges) (hg : g ∈ ranges) :
    g.1 % 4096 = 0 ∧ bootstrapReservedEnd ≤ g.1 ∧
      ∃ e ∈ memoryMap, e.isUsable = true ∧ e.base ≤ g.1 ∧ g.1 + g.2 ≤ e.base + e.length := by
  obtain ⟨s, hs, hlo, hle⟩ := h.inside g hg
  obtain ⟨e, he, hu, hbase, hend⟩ := h.entry s hs
  have hnext := s.next_le_hi
  exact ⟨Nat.mod_eq_zero_of_dvd (h.start_dvd g hg), (h.reserved_le s hs).trans hlo,
    e, he, hu, hbase.trans hlo, by omega⟩

end Served

section Calls

variable {fa : FrameAllocator} {ss : List Span}

/-- A call fails only if no span of the pool has room for it. -/
theorem Represents.serve_eq_none (h : Represents fa ss) (req : Request) (hc : 0 < req.count)
    (hnone : (fa.serve req).1 = none) : ∀ r ∈ fa.regions, r.remaining < 4096 * req.count := by
  rw [(h.serve req).1, poolServe, if_neg hc.ne'] at hnone
  have htake : take (pageSize * req.count) ss = none := by
    cases htake : take (pageSize * req.count) ss with
    | none => rfl
    | some p => simp [htake] at hnone
  rw [h.regions]
  intro r hr
  obtain ⟨s, hs, rfl⟩ := mem_map.mp hr
  exact take_eq_none_iff.mp htake s hs

theorem Represents.sum_remaining (h : Represents fa ss) :
    (fa.regions.map FrameRegion.remaining).sum = freeBytes ss := by
  rw [h.regions, map_map]
  rfl

theorem Represents.remaining_dvd {ranges : List (ℕ × ℕ)}
    (h : Represents fa ss) (hs : Served memoryMap ss ranges) {r : FrameRegion}
    (hr : r ∈ fa.regions) : 4096 ∣ r.remaining := by
  rw [h.regions] at hr
  obtain ⟨s, hmem, rfl⟩ := mem_map.mp hr
  obtain ⟨hnext, hhi⟩ := hs.next_dvd s hmem
  exact Nat.dvd_sub hhi hnext

end Calls

/-- **Sequences of calls.** After a successful `initialize` on a map with disjoint usable entries,
over every sequence of calls the ranges returned are aligned, lie above the reserved megabyte in one
usable entry and are pairwise disjoint; a call fails only when no region can serve it; frames handed
out and free bytes add up. The answers are those of the exact allocator of the pages below
`frameTop`; so saturation alters nothing unless a usable entry reaches `2 ^ 64`. -/
theorem allocator_runs {memoryMap : List MemoryMapEntry} {stats : FrameAllocatorStats}
    {fa : FrameAllocator}
    (hdisj : (memoryMap.filter (·.isUsable)).Pairwise
      fun e e' => e.base + e.length ≤ e'.base ∨ e'.base + e'.length ≤ e.base)
    (hinit : FrameAllocator.new.initializeFrom memoryMap = (.ok stats, fa))
    (reqs : List Request) :
    let outs := outputs FrameAllocator.serve fa reqs
    let fa' := final FrameAllocator.serve fa reqs
    (∀ g ∈ granted reqs outs, g.1 % 4096 = 0 ∧ bootstrapReservedEnd ≤ g.1 ∧
      ∃ e ∈ memoryMap, e.isUsable = true ∧ e.base ≤ g.1 ∧ g.1 + g.2 ≤ e.base + e.length) ∧
    (granted reqs outs).Pairwise (fun g g' => g.1 + g.2 ≤ g'.1 ∨ g'.1 + g'.2 ≤ g.1) ∧
    (fa'.allocate.1 = none → ∀ r ∈ fa'.regions, r.remaining = 0) ∧
    (∀ n, 0 < n → (fa'.allocateContiguous n).1 = none →
      ∀ r ∈ fa'.regions, r.remaining < 4096 * n) ∧
    4096 * fa'.allocatedFrames + (fa'.regions.map FrameRegion.remaining).sum =
      fa'.allocatableBytes ∧
    outs = outputs poolServe (pagePool frameTop memoryMap) reqs ∧
    ((∀ e ∈ memoryMap, e.isUsable = true → e.base + e.length < 2 ^ 64) →
      outs = outputs poolServe (pagePool (2 ^ 64) memoryMap) reqs ∧
      stats = ⟨(pagePool (2 ^ 64) memoryMap).length, usableBytes memoryMap,
        poolBytes (pagePool (2 ^ 64) memoryMap), 0⟩) := by
  obtain ⟨houts, hrep⟩ := outputs_eq_of_simulation (R := Represents)
    (fun _ _ req h => h.serve req) reqs (Represents.initializeFrom hdisj hinit)
  have hserved := (Served.init hdisj).runs reqs
  rw [append_nil, ← houts] at hserved
  refine ⟨fun g hg => hserved.range hg, hserved.disjoint, fun hnone r hr => ?_,
    fun n hn hnone => hrep.serve_eq_none (.allocateContiguous n) hn hnone, ?_, houts,
    fun hend => ?_⟩
  · have hlt := hrep.serve_eq_none .allocate one_pos hnone r hr
    have hdvd := hrep.remaining_dvd hserved hr
    rw [Request.count] at hlt
    omega
  · rw [hrep.sum_remaining]
    exact hrep.accounts
  · exact ⟨by rw [houts, pagePool_frameTop hend], stats_exact hdisj hinit hend⟩

/-- Two usable entries, one below the reserved megabyte and one that is not page aligned. -/
theorem allocator_runs_low_memory :
    let memoryMap : List MemoryMapEntry :=
      [⟨0x1000, 0x9e000, .usable, by norm_num, by norm_num⟩,
        ⟨0x100800, 0x3000, .usable, by norm_num, by norm_num⟩]
    let fa := (FrameAllocator.new.initializeFrom memoryMap).2
    let outs := outputs FrameAllocator.serve fa [.allocateContiguous 2, .allocate]
    FrameAllocator.new.initializeFrom memoryMap = (.ok ⟨1, 0xa1000, 0x2000, 0⟩, fa) ∧
      outs = [some 0x101000, none] ∧
      ∀ g ∈ granted [.allocateContiguous 2, .allocate] outs, g.1 % 4096 = 0 := by
  intro memoryMap fa outs
  have hdisj : (memoryMap.filter (·.isUsable)).Pairwise
      fun e e' => e.base + e.length ≤ e'.base ∨ e'.base + e'.length ≤ e.base := by decide
  have hinit : FrameAllocator.new.initializeFrom memoryMap = (.ok ⟨1, 0xa1000, 0x2000, 0⟩, fa) := by
    decide +kernel
  exact ⟨hinit, by decide,
    fun g hg => ((allocator_runs hdisj hinit [.allocateContiguous 2, .allocate]).1 g hg).1⟩

/-- An entry that ends at `2 ^ 64` loses its last page: the saturated end address is rounded down
below it. -/
theorem allocator_loses_top_page :
    ∃ memoryMap stats fa, (memoryMap.filter (·.isUsable)).Pairwise
        (fun e e' : MemoryMapEntry => e.base + e.length ≤ e'.base ∨ e'.base + e'.length ≤ e.base) ∧
      (∀ e ∈ memoryMap, e.base + e.length ≤ 2 ^ 64) ∧
      FrameAllocator.new.initializeFrom memoryMap = (.ok stats, fa) ∧
      outputs FrameAllocator.serve fa [.allocate, .allocate] = [some (2 ^ 64 - 8192), none] ∧
      outputs poolServe (pagePool (2 ^ 64) memoryMap) [.allocate, .allocate] =
        [some (2 ^ 64 - 8192), some (2 ^ 64 - 4096)] :=
  ⟨[⟨2 ^ 64 - 8192, 8192, .usable, by norm_num, by norm_num⟩], _, _, by decide, by decide, rfl,
    by decide, by decide⟩

end Hxnu.Mm.Frame
