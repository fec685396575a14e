import Hxnu.Lib.Buffer
import Hxnu.Lib.Fallible
import Hxnu.Lib.Utf8
import Hxnu.Lib.Word

/-!
# ELF images

The ELF part of `kernel/src/exec.rs`: the parser of 64-bit images and the plan of the segments to be
loaded. Fields of the headers are natural numbers read from the bytes of the image.

## Main definitions

* `parseElf64`: `parse_elf64`.
* `buildLoadPlan`: `build_load_plan`.

## Main results

* `parseElf64_fits`: the segments of a parsed image lie in the image and in the address space.
* `buildLoadPlan_planned`: what the segments of the plan are.
-/

namespace Hxnu.Exec

open Word Buffer Fallible

variable {h : ProgramHeader} {image : List UInt8} {index : ℕ}

def elf64EhdrSize : ℕ := 64

def elf64PhdrSize : ℕ := 56

def elfClass64 : UInt8 := 2

def elfDataLittle : UInt8 := 1

def elfVersionCurrent : UInt8 := 1

def maxProgramHeaders : ℕ := 256

def pfExecute : ℕ := 1

def pfWrite : ℕ := 2

def pfRead : ℕ := 4

inductive ProgramHeaderType
  | null
  | load
  | dynamic
  | interpreter
  | note
  | programHeaderTable
  | threadLocalStorage
  | gnuStack
  | gnuRelro
  | unknown (raw : ℕ)
  deriving DecidableEq, Repr

def ProgramHeaderType.fromRaw (raw : ℕ) : ProgramHeaderType :=
  match raw with
  | 0 => null
  | 1 => load
  | 2 => dynamic
  | 3 => interpreter
  | 4 => note
  | 6 => programHeaderTable
  | 7 => threadLocalStorage
  | 0x6474e551 => gnuStack
  | 0x6474e552 => gnuRelro
  | other => unknown other

structure ProgramHeader where
  segmentType : ProgramHeaderType
  flags : ℕ
  offset : ℕ
  virtualAddress : ℕ
  fileSize : ℕ
  memorySize : ℕ
  alignment : ℕ
  deriving DecidableEq, Repr

namespace ProgramHeader

def isLoadable (h : ProgramHeader) : Bool := h.segmentType = .load

def canRead (h : ProgramHeader) : Bool := h.flags &&& pfRead ≠ 0

def canWrite (h : ProgramHeader) : Bool := h.flags &&& pfWrite ≠ 0

def canExecute (h : ProgramHeader) : Bool := h.flags &&& pfExecute ≠ 0

end ProgramHeader

structure SegmentPermissions where
  read : Bool
  write : Bool
  execute : Bool
  deriving DecidableEq, Repr

def SegmentPermissions.fromHeader (h : ProgramHeader) : SegmentPermissions :=
  ⟨h.canRead, h.canWrite, h.canExecute⟩

structure LoadSegmentPlan where
  index : ℕ
  fileOffset : ℕ
  virtualStart : ℕ
  virtualEnd : ℕ
  mapStart : ℕ
  mapEnd : ℕ
  pageOffset : ℕ
  fileBytes : ℕ
  memoryBytes : ℕ
  zeroFillBytes : ℕ
  alignment : ℕ
  permissions : SegmentPermissions
  deriving DecidableEq, Repr

/-- Texts are lists of their bytes. -/
structure ElfImage where
  imageType : ℕ
  machine : ℕ
  entryPoint : ℕ
  interpreter : Option (List UInt8)
  programHeaders : List ProgramHeader
  deriving DecidableEq, Repr

inductive ParseError
  | truncated
  | unsupportedClass
  | unsupportedEndianness
  | unsupportedVersion
  | invalidHeader
  | tooManyProgramHeaders
  | invalidProgramHeaderTable
  | programHeaderOutOfBounds
  | segmentOutOfBounds
  | invalidSegmentSize
  | segmentAddressOverflow
  deriving DecidableEq, Repr

/-! ### Parsing -/

/-- The readers of little-endian fields: `n` bytes at an offset. -/
def readLe (n : ℕ) (bytes : List UInt8) (offset : ℕ) : Except ParseError ℕ := do
  let last ← okOr (checkedAdd offset n) .truncated
  ensure (last ≤ bytes.length) ParseError.truncated
  return ofLeBytes (slice bytes offset n)

def readU16Le : List UInt8 → ℕ → Except ParseError ℕ := readLe 2

def readU32Le : List UInt8 → ℕ → Except ParseError ℕ := readLe 4

def readU64Le : List UInt8 → ℕ → Except ParseError ℕ := readLe 8

/-- The checks that a segment lies in the image and in the address space. -/
def checkSegment (image : List UInt8) (h : ProgramHeader) : Except ParseError Unit := do
  ensure (h.fileSize ≤ h.memorySize) ParseError.invalidSegmentSize
  if 0 < h.fileSize then
    let segmentEnd ← okOr (checkedAdd h.offset h.fileSize) .segmentOutOfBounds
    ensure (segmentEnd ≤ image.length) ParseError.segmentOutOfBounds
  ensure (¬(0 < h.memorySize ∧ checkedAdd h.virtualAddress h.memorySize = none))
    ParseError.segmentAddressOverflow

/-- One round of the loop over the program headers, up to the check of the segment. -/
def parseProgramHeader (image : List UInt8) (tableOffset entrySize index : ℕ) :
    Except ParseError ProgramHeader := do
  let distance ← okOr (checkedMul index entrySize) .invalidProgramHeaderTable
  let entryOffset ← okOr (checkedAdd tableOffset distance) .invalidProgramHeaderTable
  let entryEnd ← okOr (checkedAdd entryOffset elf64PhdrSize) .invalidProgramHeaderTable
  ensure (entryEnd ≤ image.length) ParseError.programHeaderOutOfBounds
  let segmentType ← readU32Le image entryOffset
  let flags ← readU32Le image (entryOffset + 4)
  let offset ← readU64Le image (entryOffset + 8)
  let virtualAddress ← readU64Le image (entryOffset + 16)
  let fileSize ← readU64Le image (entryOffset + 32)
  let memorySize ← readU64Le image (entryOffset + 40)
  let alignment ← readU64Le image (entryOffset + 48)
  let header : ProgramHeader :=
    ⟨.fromRaw segmentType, flags, offset, virtualAddress, fileSize, memorySize, alignment⟩
  checkSegment image header
  return header

/-- The text of an interpreter header, up to its first zero byte. -/
def interpreterText (image : List UInt8) (h : ProgramHeader) : Option (List UInt8) :=
  if h.segmentType = .interpreter ∧ 0 < h.fileSize then
    let text := (slice image h.offset h.fileSize).takeWhile (· ≠ 0)
    if 0 < text.length then some (Utf8.lossy text) else none
  else none

/-- The loop over the program headers from `index` on. The first interpreter is kept. -/
def parseProgramHeaders (image : List UInt8) (tableOffset entrySize : ℕ) :
    ℕ → ℕ → Option (List UInt8) → Except ParseError (List ProgramHeader × Option (List UInt8))
  | 0, _, interpreter => .ok ([], interpreter)
  | remaining + 1, index, interpreter => do
    let header ← parseProgramHeader image tableOffset entrySize index
    let (headers, interpreter) ← parseProgramHeaders image tableOffset entrySize remaining
      (index + 1) (interpreter.or (interpreterText image header))
    return (header :: headers, interpreter)

/-- The checks of the program header table. -/
def checkTable (image : List UInt8) (offset entrySize count : ℕ) : Except ParseError Unit := do
  ensure (count ≤ maxProgramHeaders) ParseError.tooManyProgramHeaders
  if 0 < count then
    ensure (elf64PhdrSize ≤ entrySize) ParseError.invalidProgramHeaderTable
    let tableSize ← okOr (checkedMul entrySize count) .invalidProgramHeaderTable
    let tableEnd ← okOr (checkedAdd offset tableSize) .invalidProgramHeaderTable
    ensure (tableEnd ≤ image.length) ParseError.programHeaderOutOfBounds

def parseElf64 (image : List UInt8) : Except ParseError ElfImage := do
  ensure (elf64EhdrSize ≤ image.length) ParseError.truncated
  ensure (image[4]? = some elfClass64) ParseError.unsupportedClass
  ensure (image[5]? = some elfDataLittle) ParseError.unsupportedEndianness
  ensure (image[6]? = some elfVersionCurrent) ParseError.unsupportedVersion
  let headerSize ← readU16Le image 52
  ensure (headerSize = elf64EhdrSize) ParseError.invalidHeader
  let imageType ← readU16Le image 16
  let machine ← readU16Le image 18
  let version ← readU32Le image 20
  ensure (version = elfVersionCurrent.toNat) ParseError.unsupportedVersion
  let entryPoint ← readU64Le image 24
  let programHeaderOffset ← readU64Le image 32
  let programHeaderEntrySize ← readU16Le image 54
  let programHeaderCount ← readU16Le image 56
  checkTable image programHeaderOffset programHeaderEntrySize programHeaderCount
  let (programHeaders, interpreter) ← parseProgramHeaders image programHeaderOffset
    programHeaderEntrySize programHeaderCount 0 none
  return ⟨imageType, machine, entryPoint, interpreter, programHeaders⟩

/-! ### The load plan -/

def alignDown (value : ℕ) : ℕ := maskLow 12 value

def alignUp (value : ℕ) : Option ℕ := (checkedAdd value 4095).map (maskLow 12)

def planSegment (index : ℕ) (h : ProgramHeader) : Except ParseError LoadSegmentPlan := do
  ensure (h.fileSize ≤ h.memorySize) ParseError.invalidSegmentSize
  let virtualEnd ← okOr (checkedAdd h.virtualAddress h.memorySize) .segmentAddressOverflow
  let mapStart := alignDown h.virtualAddress
  let mapEnd ← okOr (alignUp virtualEnd) .segmentAddressOverflow
  let pageOffset ← okOr (checkedSub h.virtualAddress mapStart) .segmentAddressOverflow
  return {
    index
    fileOffset := h.offset
    virtualStart := h.virtualAddress
    virtualEnd
    mapStart
    mapEnd
    pageOffset
    fileBytes := h.fileSize
    memoryBytes := h.memorySize
    zeroFillBytes := h.memorySize - h.fileSize
    alignment := h.alignment
    permissions := .fromHeader h }

/-- The loop of `build_load_plan` over the headers from `index` on. -/
def planSegments : ℕ → List ProgramHeader → Except ParseError (List LoadSegmentPlan)
  | _, [] => .ok []
  | index, h :: headers =>
    if h.isLoadable then do
      let segment ← planSegment index h
      let plan ← planSegments (index + 1) headers
      return segment :: plan
    else planSegments (index + 1) headers

def buildLoadPlan (image : ElfImage) : Except ParseError (List LoadSegmentPlan) :=
  planSegments 0 image.programHeaders

/-! ### What is accepted -/

/-- A header whose segment lies in the image and in the address space. -/
structure ProgramHeader.Fits (image : List UInt8) (h : ProgramHeader) : Prop where
  offset_lt : h.offset < 2 ^ 64
  address_lt : h.virtualAddress < 2 ^ 64
  size_le : h.fileSize ≤ h.memorySize
  in_image : 0 < h.fileSize → h.offset + h.fileSize ≤ image.length
  in_space : 0 < h.memorySize → h.virtualAddress + h.memorySize < 2 ^ 64

theorem readLe_eq_ok :
    readLe n bytes offset = .ok v ↔ offset + n < 2 ^ 64 ∧ offset + n ≤ bytes.length ∧
      v = ofLeBytes (slice bytes offset n) := by
  simp only [readLe, bind_eq_ok, okOr_eq_ok, ensure_eq_ok, pure_eq_ok, checkedAdd_eq_some]
  constructor
  · rintro ⟨last, ⟨hlt, rfl⟩, _, hle, rfl⟩
    exact ⟨hlt, hle, rfl⟩
  · rintro ⟨hlt, hle, rfl⟩
    exact ⟨_, ⟨hlt, rfl⟩, (), hle, rfl⟩

theorem readU64Le_lt (h : readU64Le bytes offset = .ok v) : v < 2 ^ 64 := by
  obtain ⟨-, hle, rfl⟩ := readLe_eq_ok.mp h
  have hlt := ofLeBytes_lt (slice bytes offset 8)
  rw [length_slice hle] at hlt
  exact hlt

theorem checkSegment_eq_ok : checkSegment image h = .ok u ↔ h.fileSize ≤ h.memorySize ∧
      (0 < h.fileSize → h.offset + h.fileSize < 2 ^ 64 ∧ h.offset + h.fileSize ≤ image.length) ∧
      (0 < h.memorySize → h.virtualAddress + h.memorySize < 2 ^ 64) := by
  have hspace : ¬(0 < h.memorySize ∧ checkedAdd h.virtualAddress h.memorySize = none) ↔
      (0 < h.memorySize → h.virtualAddress + h.memorySize < 2 ^ 64) := by
    rw [checkedAdd_eq_none, not_and, not_le]
  rw [checkSegment]
  simp only [bind_eq_ok, ensure_eq_ok, exists_const, hspace]
  refine and_congr_right fun _ => ?_
  split_ifs with hsize
  · simp only [bind_eq_ok, okOr_eq_ok, ensure_eq_ok, checkedAdd_eq_some, hsize, forall_const]
    constructor
    · rintro ⟨last, ⟨hlt, rfl⟩, _, hle, hmemory⟩
      exact ⟨⟨hlt, hle⟩, hmemory⟩
    · rintro ⟨⟨hlt, hle⟩, hmemory⟩
      exact ⟨_, ⟨hlt, rfl⟩, (), hle, hmemory⟩
  · simp only [ensure_eq_ok, hsize, false_imp_iff, true_and]

theorem parseProgramHeader_fits
    (hok : parseProgramHeader image tableOffset entrySize index = .ok h) : h.Fits image := by
  simp only [parseProgramHeader, bind_eq_ok, okOr_eq_ok, ensure_eq_ok, pure_eq_ok,
    checkSegment_eq_ok] at hok
  obtain ⟨_, -, _, -, _, -, _, -, _, -, _, -, _, hoffset, _, haddress, _, -, _, -, _, -, _, hcheck,
    rfl⟩ := hok
  exact ⟨readU64Le_lt hoffset, readU64Le_lt haddress, hcheck.1, fun hpos => (hcheck.2.1 hpos).2,
    hcheck.2.2⟩

theorem parseProgramHeaders_fits
    (hok : parseProgramHeaders image tableOffset entrySize remaining index interpreter = .ok
      (headers, interpreter')) : ∀ h ∈ headers, h.Fits image := by
  induction remaining generalizing index interpreter headers with
  | zero =>
    cases hok
    exact fun _ => nofun
  | succ remaining ih =>
    simp only [parseProgramHeaders, bind_eq_ok, pure_eq_ok] at hok
    obtain ⟨header, hheader, ⟨rest, _⟩, hrest, heq⟩ := hok
    cases heq
    intro h hmem
    rcases List.mem_cons.mp hmem with rfl | hmem
    · exact parseProgramHeader_fits hheader
    · exact ih hrest h hmem

/-- **Every header of a parsed image fits.** -/
theorem parseElf64_fits (hok : parseElf64 image = .ok elf) :
    ∀ h ∈ elf.programHeaders, h.Fits image := by
  simp only [parseElf64, bind_eq_ok, ensure_eq_ok, pure_eq_ok] at hok
  obtain ⟨_, -, _, -, _, -, _, -, _, -, _, -, _, -, _, -, _, -, _, -, _, -, _, -, _, -, _, -, _, -,
    ⟨headers, _⟩, hheaders, rfl⟩ := hok
  exact parseProgramHeaders_fits hheaders

/-- A planned segment: the pages of `[virtualStart, virtualEnd)`, with file bytes from the image. -/
structure LoadSegmentPlan.Planned (image : List UInt8) (s : LoadSegmentPlan) : Prop where
  offset_lt : s.fileOffset < 2 ^ 64
  virtualEnd : s.virtualEnd = s.virtualStart + s.memoryBytes
  mapStart : s.mapStart = s.virtualStart / 4096 * 4096
  mapEnd : s.mapEnd = (s.virtualEnd + 4095) / 4096 * 4096
  end_lt : s.virtualEnd + 4095 < 2 ^ 64
  size_le : s.fileBytes ≤ s.memoryBytes
  in_image : 0 < s.fileBytes → s.fileOffset + s.fileBytes ≤ image.length

theorem planSegment_planned (hfits : h.Fits image) (hok : planSegment index h = .ok s) :
    s.Planned image := by
  simp only [planSegment, bind_eq_ok, okOr_eq_ok, ensure_eq_ok, pure_eq_ok, checkedAdd_eq_some,
    alignUp, Option.map_eq_some_iff, alignDown] at hok
  obtain ⟨_, hsize, _, ⟨hlt, rfl⟩, _, ⟨_, ⟨hend, rfl⟩, rfl⟩, _, -, rfl⟩ := hok
  exact ⟨hfits.offset_lt, rfl, maskLow_page hfits.address_lt, maskLow_page hend, hend, hsize,
    hfits.in_image⟩

theorem planSegments_planned (hfits : ∀ h ∈ headers, h.Fits image)
    (hok : planSegments index headers = .ok plan) : ∀ s ∈ plan, s.Planned image := by
  induction headers generalizing index plan with
  | nil =>
    cases hok
    exact fun _ => nofun
  | cons h headers ih =>
    have hrest := fun h' hmem => hfits h' (List.mem_cons_of_mem h hmem)
    rw [planSegments] at hok
    split_ifs at hok with hload
    · simp only [bind_eq_ok, pure_eq_ok] at hok
      obtain ⟨segment, hsegment, plan', hplan, rfl⟩ := hok
      intro s hmem
      rcases List.mem_cons.mp hmem with rfl | hmem
      · exact planSegment_planned (hfits h List.mem_cons_self) hsegment
      · exact ih hrest hplan s hmem
    · exact ih hrest hok

/-- **Every segment of the plan of a parsed image is planned.** -/
theorem buildLoadPlan_planned (hparse : parseElf64 image = .ok elf)
    (hplan : buildLoadPlan elf = .ok plan) : ∀ s ∈ plan, s.Planned image :=
  planSegments_planned (parseElf64_fits hparse) hplan

end Hxnu.Exec
