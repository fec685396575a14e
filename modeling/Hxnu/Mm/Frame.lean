import Hxnu.Lib.Pool
import Hxnu.Lib.Run
import Hxnu.Lib.Word

/-!
# The physical frame allocator

The allocator of `kernel/src/mm/frame.rs`: `initialize` turns the usable entries of the boot memory
map into page-aligned regions above the first megabyte, and `allocate` and `allocateContiguous` bump
the pointer of the first region with enough bytes left. All arithmetic is 64-bit and saturating.

The first `region_count` slots of the region array are the list `regions`; the other slots are never
read. Saturating subtraction is the truncated subtraction of `ℕ`.

## Main definitions

* `FrameAllocator`, `FrameAllocator.initializeFrom`, `FrameAllocator.allocate`,
  `FrameAllocator.allocateContiguous`.
* `Request`, `FrameAllocator.serve`: one call of the allocator and its answer.
-/

namespace Hxnu.Mm.Frame

open Word

def pageSize : ℕ := 4096

def maxUsableRegions : ℕ := 64

def bootstrapReservedEnd : ℕ := 0x00100000

/-- `align_up` of `frame.rs`. -/
def alignUp (value alignment : ℕ) : ℕ :=
  if alignment = 0 then value else satAdd value (alignment - 1) &&& (2 ^ 64 - alignment)

/-- `align_down` of `frame.rs`. -/
def alignDown (value alignment : ℕ) : ℕ :=
  if alignment = 0 then value else value &&& (2 ^ 64 - alignment)

/-- The kinds of entries of the boot memory map (`limine.rs`). -/
inductive MemoryMapEntryType
  | usable
  | reserved
  | acpiReclaimable
  | acpiNvs
  | badMemory
  | bootloaderReclaimable
  | executableAndModules
  | framebuffer
  | unknown (raw : ℕ)
  deriving DecidableEq, Repr

/-- An entry of the boot memory map: the range `[base, base + length)`, both fields `u64`. -/
structure MemoryMapEntry where
  base : ℕ
  length : ℕ
  entryType : MemoryMapEntryType
  base_lt : base < 2 ^ 64 := by norm_num
  length_lt : length < 2 ^ 64 := by norm_num
  deriving DecidableEq

def MemoryMapEntry.isUsable (e : MemoryMapEntry) : Bool := e.entryType == .usable

/-- A region of frames; `next` is the first frame not handed out. -/
structure FrameRegion where
  start : ℕ
  endAddr : ℕ
  next : ℕ
  deriving DecidableEq, Repr

def FrameRegion.size (r : FrameRegion) : ℕ := r.endAddr - r.start

def FrameRegion.remaining (r : FrameRegion) : ℕ := r.endAddr - r.next

structure FrameAllocatorStats where
  usableRegions : ℕ
  totalBytes : ℕ
  allocatableBytes : ℕ
  allocatedFrames : ℕ
  deriving DecidableEq, Repr

inductive FrameAllocatorInitError
  | alreadyInitialized
  | noUsableRegions
  | tooManyRegions
  deriving DecidableEq, Repr

structure FrameAllocator where
  initialized : Bool
  totalBytes : ℕ
  allocatableBytes : ℕ
  allocatedFrames : ℕ
  regions : List FrameRegion
  deriving DecidableEq, Repr

namespace FrameAllocator

/-- The allocator at boot. -/
def new : FrameAllocator := ⟨false, 0, 0, 0, []⟩

def stats (fa : FrameAllocator) : FrameAllocatorStats :=
  ⟨fa.regions.length, fa.totalBytes, fa.allocatableBytes, fa.allocatedFrames⟩

/-- The loop of `initialize` over the memory map. -/
def addEntries (fa : FrameAllocator) :
    List MemoryMapEntry → Except FrameAllocatorInitError Unit × FrameAllocator
  | [] => (.ok (), fa)
  | entry :: rest =>
    if entry.isUsable = false then fa.addEntries rest
    else
      let originalEnd := satAdd entry.base entry.length
      let fa' := { fa with totalBytes := satAdd fa.totalBytes entry.length }
      let regionStart := alignUp (max entry.base bootstrapReservedEnd) pageSize
      let regionEnd := alignDown originalEnd pageSize
      if regionEnd ≤ regionStart then fa'.addEntries rest
      else if maxUsableRegions ≤ fa'.regions.length then (.error .tooManyRegions, fa')
      else
        let region : FrameRegion := ⟨regionStart, regionEnd, regionStart⟩
        addEntries { fa' with
          allocatableBytes := satAdd fa'.allocatableBytes region.size
          regions := fa'.regions ++ [region] } rest

/-- `initialize`: the result and the allocator after the call. -/
def initializeFrom (fa : FrameAllocator) (memoryMap : List MemoryMapEntry) :
    Except FrameAllocatorInitError FrameAllocatorStats × FrameAllocator :=
  if fa.initialized then (.error .alreadyInitialized, fa)
  else
    match fa.addEntries memoryMap with
    | (.error e, fa') => (.error e, fa')
    | (.ok (), fa') =>
      if fa'.regions.length = 0 then (.error .noUsableRegions, fa')
      else
        let fa'' := { fa' with initialized := true }
        (.ok fa''.stats, fa'')

/-- The loop of `allocate` and `allocate_contiguous`: the first region with `requested` bytes left
is bumped by as many bytes. -/
def firstFit (requested : ℕ) : List FrameRegion → Option (ℕ × List FrameRegion)
  | [] => none
  | region :: rest =>
    if region.remaining < requested then
      (firstFit requested rest).map fun p => (p.1, region :: p.2)
    else some (region.next, { region with next := satAdd region.next requested } :: rest)

/-- `allocate`: the start address of the frame, if any, and the allocator after the call. -/
def allocate (fa : FrameAllocator) : Option ℕ × FrameAllocator :=
  if fa.initialized = false then (none, fa)
  else
    match firstFit pageSize fa.regions with
    | some (frame, regions) =>
      (some frame, { fa with regions, allocatedFrames := satAdd fa.allocatedFrames 1 })
    | none => (none, fa)

/-- `allocate_contiguous`: the start address of the first of `count` frames. -/
def allocateContiguous (fa : FrameAllocator) (count : ℕ) : Option ℕ × FrameAllocator :=
  if fa.initialized = false ∨ count = 0 then (none, fa)
  else
    match firstFit (satMul count pageSize) fa.regions with
    | some (frame, regions) =>
      (some frame, { fa with regions, allocatedFrames := satAdd fa.allocatedFrames count })
    | none => (none, fa)

end FrameAllocator

/-- A call of the allocator after boot. -/
inductive Request
  | allocate
  | allocateContiguous (count : ℕ)
  deriving DecidableEq, Repr

/-- The number of frames a call asks for. -/
def Request.count : Request → ℕ
  | .allocate => 1
  | .allocateContiguous n => n

/-- The answer to a call and the allocator after it. -/
def FrameAllocator.serve (fa : FrameAllocator) : Request → Option ℕ × FrameAllocator
  | .allocate => fa.allocate
  | .allocateContiguous n => fa.allocateContiguous n

/-- The physical ranges `(start, bytes)` returned by a list of calls, the latest first. -/
def granted : List Request → List (Option ℕ) → List (ℕ × ℕ)
  | req :: reqs, some a :: outs => granted reqs outs ++ [(a, pageSize * req.count)]
  | _ :: reqs, none :: outs => granted reqs outs
  | _, _ => []

end Hxnu.Mm.Frame
