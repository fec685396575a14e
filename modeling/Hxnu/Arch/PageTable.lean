import Hxnu.Lib.Words
import Hxnu.Mm.Frame

/-!
# User page tables

The part of `kernel/src/arch/x86_64/early_map.rs` that builds user page tables: a new root that
shares the kernel half, and mappings of user pages that create the tables on their way.

Page tables lie in physical memory, which is modelled as eight-byte words at their physical
addresses. The kernel reaches the word at `p` through the direct map at `hhdm + p`; the additions
that the source checks for overflow are kept, and a table pointer is the physical address it stands
for.

## Main definitions

* `PhysicalMemory`: the words of physical memory and the frame allocator.
* `PhysicalMemory.nextTableUser`, `PhysicalMemory.mapUserPage`, `PhysicalMemory.mapUserRegion`,
  `PhysicalMemory.createUserPageTable`.
-/

namespace Hxnu.Arch

open Word Mm.Frame

def flagUserAccessible : ℕ := 4

def flagWritable : ℕ := 2

def pagePresent : ℕ := 1

def pageWritable : ℕ := 2

def pageUser : ℕ := 4

def pageHuge : ℕ := 128

def pageAddressMask : ℕ := 0x000ffffffffff000

def entriesPerTable : ℕ := 512

def kernelHigherHalfStart : ℕ := 256

inductive MapError
  | addressOverflow
  | pageTableAllocationFailed
  deriving DecidableEq, Repr

/-- What an entry leads to: a table, or a huge page. -/
inductive NextTable
  | table (address : ℕ)
  | hugePage
  deriving DecidableEq, Repr

/-- Physical memory, by eight-byte words, and the allocator of its frames. -/
structure PhysicalMemory where
  words : ℕ → ℕ
  frames : FrameAllocator

def pageTableIndex (address shift : ℕ) : ℕ := (address >>> shift) &&& 0x1ff

namespace PhysicalMemory

/-- `zero_table`; also what `write_bytes` does to a frame. -/
def zeroTable (m : PhysicalMemory) (table : ℕ) : PhysicalMemory :=
  { m with words := Words.fill m.words table entriesPerTable fun _ => 0 }

def writeEntry (m : PhysicalMemory) (entryPtr value : ℕ) : PhysicalMemory :=
  { m with words := Function.update m.words entryPtr value }

theorem zeroTable_words (m : PhysicalMemory) (table : ℕ) :
    (m.zeroTable table).words = Words.fill m.words table entriesPerTable fun _ => 0 := rfl

theorem writeEntry_words (m : PhysicalMemory) (entryPtr value : ℕ) :
    (m.writeEntry entryPtr value).words = Function.update m.words entryPtr value := rfl

def nextTableUser (m : PhysicalMemory) (hhdm table index : ℕ) :
    Except MapError NextTable × PhysicalMemory :=
  let entryPtr := table + 8 * index
  let entry := m.words entryPtr
  if entry &&& pagePresent = 0 then
    match m.frames.allocate with
    | (none, frames) => (.error .pageTableAllocationFailed, { m with frames })
    | (some frame, frames) =>
      match checkedAdd hhdm frame with
      | none => (.error .addressOverflow, { m with frames })
      | some _ => (.ok (.table frame), (zeroTable { m with frames } frame).writeEntry entryPtr
          (frame ||| pagePresent ||| pageWritable ||| pageUser))
  else if entry &&& pageHuge ≠ 0 then (.ok .hugePage, m)
  else
    match checkedAdd hhdm (entry &&& pageAddressMask) with
    | none => (.error .addressOverflow, m)
    | some _ => (.ok (.table (entry &&& pageAddressMask)), m)

/-- `match next_table_user(..)? { Table(table) => table, HugePage => return Ok(()) }`, followed by the
rest of the function. -/
def orReturn (r : Except MapError NextTable × PhysicalMemory)
    (rest : ℕ → PhysicalMemory → Except MapError Unit × PhysicalMemory) :
    Except MapError Unit × PhysicalMemory :=
  match r with
  | (.error e, m) => (.error e, m)
  | (.ok .hugePage, m) => (.ok (), m)
  | (.ok (.table table), m) => rest table m

/-- The end of `map_user_page`: a missing entry is made, a present one gains the flags. -/
def mapEntry (m : PhysicalMemory) (pte physicalAddress flags : ℕ) : PhysicalMemory :=
  let entry := m.words pte
  if entry &&& pagePresent = 0 then
    m.writeEntry pte ((physicalAddress &&& pageAddressMask) ||| pagePresent ||| pageUser ||| flags)
  else m.writeEntry pte (entry ||| flags)

def mapUserPage (m : PhysicalMemory) (pml4Phys hhdm virtualAddress physicalAddress flags : ℕ) :
    Except MapError Unit × PhysicalMemory :=
  match checkedAdd hhdm pml4Phys with
  | none => (.error .addressOverflow, m)
  | some _ =>
    orReturn (m.nextTableUser hhdm pml4Phys (pageTableIndex virtualAddress 39)) fun pdpt m =>
    orReturn (m.nextTableUser hhdm pdpt (pageTableIndex virtualAddress 30)) fun pd m =>
    orReturn (m.nextTableUser hhdm pd (pageTableIndex virtualAddress 21)) fun pt m =>
      (.ok (), m.mapEntry (pt + 8 * pageTableIndex virtualAddress 12) physicalAddress flags)

/-- The loop of `map_user_region`, over pages of any positive size. It ends at `endPage` or with an
error, at the latest when the next virtual page overflows. -/
def mapUserPages (size : ℕ) (hsize : 0 < size) (m : PhysicalMemory)
    (pml4Phys hhdm flags endPage vpage ppage : ℕ) : Except MapError Unit × PhysicalMemory :=
  match m.mapUserPage pml4Phys hhdm vpage ppage flags with
  | (.error e, m) => (.error e, m)
  | (.ok (), m) =>
    if vpage = endPage then (.ok (), m)
    else
      match _h : checkedAdd vpage size with
      | none => (.error .addressOverflow, m)
      | some vpage' =>
        match checkedAdd ppage size with
        | none => (.error .addressOverflow, m)
        | some ppage' => mapUserPages size hsize m pml4Phys hhdm flags endPage vpage' ppage'
termination_by maxValue - vpage
decreasing_by exact sub_lt_of_checkedAdd hsize _h

def mapUserRegion (m : PhysicalMemory)
    (pml4Phys hhdm virtualAddress physicalAddress length flags : ℕ) :
    Except MapError Unit × PhysicalMemory :=
  match checkedAdd virtualAddress (max length 1 - 1) with
  | none => (.error .addressOverflow, m)
  | some last => mapUserPages pageSize (by decide) m pml4Phys hhdm flags (maskLow 12 last)
      (maskLow 12 virtualAddress) (maskLow 12 physicalAddress)

def allocatePageTableFrame (m : PhysicalMemory) (hhdm : ℕ) :
    Except MapError ℕ × PhysicalMemory :=
  match m.frames.allocate with
  | (none, frames) => (.error .pageTableAllocationFailed, { m with frames })
  | (some frame, frames) =>
    match checkedAdd hhdm frame with
    | none => (.error .addressOverflow, { m with frames })
    | some _ => (.ok frame, zeroTable { m with frames } frame)

/-- `create_user_page_table`, with the value of `cr3`. The new root shares the kernel half. -/
def createUserPageTable (m : PhysicalMemory) (hhdm cr3 : ℕ) : Except MapError ℕ × PhysicalMemory :=
  match m.allocatePageTableFrame hhdm with
  | (.error e, m) => (.error e, m)
  | (.ok root, m) =>
    let kernelRoot := cr3 &&& pageAddressMask
    match checkedAdd hhdm kernelRoot with
    | none => (.error .addressOverflow, m)
    | some _ => (.ok root, { m with
        words := Words.fill m.words (root + 8 * kernelHigherHalfStart)
          (entriesPerTable - kernelHigherHalfStart)
          fun i => m.words (kernelRoot + 8 * (kernelHigherHalfStart + i)) })

end PhysicalMemory

end Hxnu.Arch
