import Hxnu.Exec.UserSpace

/-!
# Which images are accepted

`parse_elf64` reads an image that any program may have written. This file states exactly which byte
strings it accepts and what it returns for them, and that neither it nor `build_load_plan` can
panic. For the latter the two functions are written once more in `Strict`, with every operation that
Rust stops at: an index or a range outside a slice, and an addition or a subtraction that overflows.

## Main definitions

* `Strict.parseElf64`, `Strict.buildLoadPlan`: the functions with their panics.
* `field`, `headerAt`: a field of an image, and an entry of its program header table.
* `Accepted`: the condition under which an image is accepted.
* `LoadSegmentPlan.PlanOf`: the entry of the plan for a header.

## Main results

* `Strict.parseElf64_eq`, `Strict.buildLoadPlan_eq`: there is no panic.
* `parseElf64_eq_ok`: an image is accepted if and only if it is `Accepted`.
* `parseElf64_exact`: the two functions on all byte strings.
-/

namespace Hxnu.Exec

open Word Buffer Fallible List

variable {h : ProgramHeader} {image : List UInt8}

/-! ### The functions with their panics -/

namespace Strict

abbrev Result (α : Type) : Type := Except (Stop ParseError) α

/-- `bytes[i]`. -/
def index (bytes : List UInt8) (i : ℕ) : Result UInt8 := okOr bytes[i]? .panic

/-- `bytes.get(start..last)`. -/
def get (bytes : List UInt8) (start last : ℕ) : Option (List UInt8) :=
  if start ≤ last ∧ last ≤ bytes.length then some (slice bytes start (last - start)) else none

/-- `&bytes[start..last]`. -/
def range (bytes : List UInt8) (start last : ℕ) : Result (List UInt8) :=
  okOr (get bytes start last) .panic

/-- `a + b`. -/
def add (a b : ℕ) : Result ℕ := okOr (checkedAdd a b) .panic

/-- `a - b`. -/
def sub (a b : ℕ) : Result ℕ := okOr (checkedSub a b) .panic

def readLe (n : ℕ) (bytes : List UInt8) (offset : ℕ) : Result ℕ := do
  let last ← okOr (checkedAdd offset n) (.error .truncated)
  let part ← okOr (get bytes offset last) (.error .truncated)
  let digits ← (List.range n).mapM (index part)
  return ofLeBytes digits

def parseProgramHeader (image : List UInt8) (tableOffset entrySize index : ℕ) :
    Result ProgramHeader := do
  let distance ← okOr (checkedMul index entrySize) (.error .invalidProgramHeaderTable)
  let entryOffset ← okOr (checkedAdd tableOffset distance) (.error .invalidProgramHeaderTable)
  let entryEnd ← okOr (checkedAdd entryOffset elf64PhdrSize) (.error .invalidProgramHeaderTable)
  ensure (entryEnd ≤ image.length) (Stop.error ParseError.programHeaderOutOfBounds)
  let segmentType ← readLe 4 image entryOffset
  let flags ← readLe 4 image (← add entryOffset 4)
  let offset ← readLe 8 image (← add entryOffset 8)
  let virtualAddress ← readLe 8 image (← add entryOffset 16)
  let fileSize ← readLe 8 image (← add entryOffset 32)
  let memorySize ← readLe 8 image (← add entryOffset 40)
  let alignment ← readLe 8 image (← add entryOffset 48)
  let header : ProgramHeader :=
    ⟨.fromRaw segmentType, flags, offset, virtualAddress, fileSize, memorySize, alignment⟩
  -- every operation of the check is a checked one
  lift (checkSegment image header)
  return header

def interpreterText (image : List UInt8) (interpreter : Option (List UInt8)) (h : ProgramHeader) :
    Result (Option (List UInt8)) :=
  if interpreter = none ∧ h.segmentType = .interpreter ∧ 0 < h.fileSize then do
    let segmentEnd ← add h.offset h.fileSize
    let segment ← range image h.offset segmentEnd
    let length := segment.findIdx (· == 0)
    if 0 < length then
      let text ← range segment 0 length
      return some (Utf8.lossy text)
    else return interpreter
  else return interpreter

def parseProgramHeaders (image : List UInt8) (tableOffset entrySize : ℕ) :
    ℕ → ℕ → Option (List UInt8) → Result (List ProgramHeader × Option (List UInt8))
  | 0, _, interpreter => .ok ([], interpreter)
  | remaining + 1, index, interpreter => do
    let header ← parseProgramHeader image tableOffset entrySize index
    let interpreter ← interpreterText image interpreter header
    let (headers, interpreter) ← parseProgramHeaders image tableOffset entrySize remaining
      (index + 1) interpreter
    return (header :: headers, interpreter)

def parseElf64 (image : List UInt8) : Result ElfImage := do
  ensure (elf64EhdrSize ≤ image.length) (Stop.error ParseError.truncated)
  ensure ((← index image 4) = elfClass64) (Stop.error ParseError.unsupportedClass)
  ensure ((← index image 5) = elfDataLittle) (Stop.error ParseError.unsupportedEndianness)
  ensure ((← index image 6) = elfVersionCurrent) (Stop.error ParseError.unsupportedVersion)
  let headerSize ← readLe 2 image 52
  ensure (headerSize = elf64EhdrSize) (Stop.error ParseError.invalidHeader)
  let imageType ← readLe 2 image 16
  let machine ← readLe 2 image 18
  let version ← readLe 4 image 20
  ensure (version = elfVersionCurrent.toNat) (Stop.error ParseError.unsupportedVersion)
  let entryPoint ← readLe 8 image 24
  let programHeaderOffset ← readLe 8 image 32
  let programHeaderEntrySize ← readLe 2 image 54
  let programHeaderCount ← readLe 2 image 56
  -- every operation of the check is a checked one
  lift (checkTable image programHeaderOffset programHeaderEntrySize programHeaderCount)
  let (programHeaders, interpreter) ← parseProgramHeaders image programHeaderOffset
    programHeaderEntrySize programHeaderCount 0 none
  return ⟨imageType, machine, entryPoint, interpreter, programHeaders⟩

/-- `align_down`, with the complement of a 64-bit word. -/
def alignDown (value alignment : ℕ) : Result ℕ := do
  let low ← sub alignment 1
  return value &&& (maxValue - low)

def planSegment (index : ℕ) (h : ProgramHeader) : Result LoadSegmentPlan := do
  ensure (h.fileSize ≤ h.memorySize) (Stop.error ParseError.invalidSegmentSize)
  let virtualEnd ← okOr (checkedAdd h.virtualAddress h.memorySize) (.error .segmentAddressOverflow)
  let mapStart ← alignDown h.virtualAddress 4096
  let mapEnd ← okOr (alignUp virtualEnd) (.error .segmentAddressOverflow)
  let pageOffset ← okOr (checkedSub h.virtualAddress mapStart) (.error .segmentAddressOverflow)
  return {
    index
    fileOffset := h.offset
    virtualStart := h.virtualAddress
    virtualEnd
    mapStart
    mapEnd
    pageOffset
    fileBytes := h.fileSize
    memoryBytes := h.memorySize
    zeroFillBytes := h.memorySize - h.fileSize
    alignment := h.alignment
    permissions := .fromHeader h }

def planSegments : ℕ → List ProgramHeader → Result (List LoadSegmentPlan)
  | _, [] => .ok []
  | index, h :: headers =>
    if h.isLoadable then do
      let segment ← planSegment index h
      let plan ← planSegments (index + 1) headers
      return segment :: plan
    else planSegments (index + 1) headers

def buildLoadPlan (image : ElfImage) : Result (List LoadSegmentPlan) :=
  planSegments 0 image.programHeaders

/-! ### There is no panic -/

theorem mapM_index (bytes : List UInt8) : ∀ n, n ≤ bytes.length →
    (List.range n).mapM (index bytes) = .ok (bytes.take n) := by
  intro n
  induction n with
  | zero => exact fun _ => rfl
  | succ n ih =>
    intro hn
    rw [range_succ, mapM_append, ih (Nat.le_of_succ_le hn), take_add_one]
    simp [index, okOr, bind, Except.bind, pure, Except.pure, List.getElem?_eq_getElem hn]

theorem get_of_le (h : start + n ≤ bytes.length) :
    get bytes start (start + n) = some (slice bytes start n) := by
  rw [get, if_pos ⟨Nat.le_add_right start n, h⟩, Nat.add_sub_cancel_left]

theorem readLe_eq (n : ℕ) (bytes : List UInt8) (offset : ℕ) :
    readLe n bytes offset = lift (Exec.readLe n bytes offset) := by
  rw [readLe, Exec.readLe]
  simp only [lift_bind, lift_okOr, lift_ensure, lift_pure]
  refine bind_congr_ok fun last hlast => ?_
  obtain ⟨-, rfl⟩ := checkedAdd_eq_some.mp (okOr_eq_ok.mp hlast)
  by_cases hle : offset + n ≤ bytes.length
  · rw [get_of_le hle, ensure, if_pos hle]
    have hlen := length_slice hle
    change (List.range n).mapM (index (slice bytes offset n)) >>= _ = _
    rw [mapM_index _ n hlen.ge, take_of_length_le hlen.le]
    rfl
  · rw [get, if_neg fun hboth => hle hboth.2, ensure, if_neg hle]
    rfl

/-- The segment of a header lies in the image. -/
theorem parseProgramHeader_space {tableOffset entrySize index : ℕ}
    (hok : Exec.parseProgramHeader image tableOffset entrySize index = .ok h) :
    0 < h.fileSize → h.offset + h.fileSize < 2 ^ 64 ∧ h.offset + h.fileSize ≤ image.length := by
  simp only [Exec.parseProgramHeader, bind_eq_ok, okOr_eq_ok, ensure_eq_ok, pure_eq_ok,
    checkSegment_eq_ok] at hok
  obtain ⟨_, -, _, -, _, -, _, -, _, -, _, -, _, -, _, -, _, -, _, -, _, -, _, hcheck, rfl⟩ := hok
  exact hcheck.2.1

theorem add_of_lt (h : a + b < 2 ^ 64) : add a b = pure (a + b) := by
  rw [add, checkedAdd, if_pos h]
  rfl

theorem parseProgramHeader_eq (image : List UInt8) (tableOffset entrySize index : ℕ) :
    parseProgramHeader image tableOffset entrySize index =
      lift (Exec.parseProgramHeader image tableOffset entrySize index) := by
  rw [parseProgramHeader, Exec.parseProgramHeader]
  simp only [lift_bind, lift_okOr, lift_ensure, lift_pure]
  refine bind_congr_ok fun distance _ => bind_congr_ok fun entryOffset _ =>
    bind_congr_ok fun entryEnd hend => bind_congr_ok fun _ _ => ?_
  obtain ⟨hend, -⟩ := checkedAdd_eq_some.mp (okOr_eq_ok.mp hend)
  rw [elf64PhdrSize] at hend
  have hadd {k : ℕ} (hk : k ≤ 56) : add entryOffset k = pure (entryOffset + k) :=
    add_of_lt (by omega)
  simp only [hadd (show 4 ≤ 56 by decide), hadd (show 8 ≤ 56 by decide),
    hadd (show 16 ≤ 56 by decide), hadd (show 32 ≤ 56 by decide), hadd (show 40 ≤ 56 by decide),
    hadd (show 48 ≤ 56 by decide), pure_bind, readLe_eq]
  rfl

/-- The bytes before the first zero byte. -/
theorem take_findIdx (segment : List UInt8) :
    segment.take (segment.findIdx (· == 0)) = segment.takeWhile (· ≠ 0) := by
  rw [takeWhile_eq_take_findIdx_not]
  congr 2
  funext b
  simp only [ne_eq, decide_not, Bool.not_not]
  rfl

theorem interpreterText_eq (hspace : 0 < h.fileSize → h.offset + h.fileSize < 2 ^ 64 ∧
      h.offset + h.fileSize ≤ image.length)
    (interpreter : Option (List UInt8)) : interpreterText image interpreter h =
      pure (interpreter.or (Exec.interpreterText image h)) := by
  cases interpreter with
  | some text =>
    rw [interpreterText, if_neg (fun hboth => nomatch hboth.1), Option.some_or]
  | none =>
    rw [interpreterText, Exec.interpreterText, Option.none_or]
    by_cases hcase : h.segmentType = .interpreter ∧ 0 < h.fileSize
    · obtain ⟨hlt, hle⟩ := hspace hcase.2
      rw [if_pos ⟨rfl, hcase⟩, if_pos hcase, add_of_lt hlt, pure_bind, range, get_of_le hle]
      generalize slice image h.offset h.fileSize = segment
      have hlength : segment.findIdx (· == 0) ≤ segment.length := findIdx_le_length
      have htext : (segment.takeWhile (· ≠ 0)).length = segment.findIdx (· == 0) := by
        rw [← take_findIdx, length_take, min_eq_left hlength]
      have hrange : range segment 0 (segment.findIdx (· == 0)) =
          pure (segment.takeWhile (· ≠ 0)) := by
        rw [range, get, if_pos ⟨Nat.zero_le _, hlength⟩, slice, drop_zero, Nat.sub_zero,
          take_findIdx]
        rfl
      simp only [htext]
      change (if 0 < segment.findIdx (· == 0) then _ else _) = _
      rw [hrange]
      split_ifs <;> rfl
    · rw [if_neg fun hboth => hcase hboth.2, if_neg hcase]

theorem parseProgramHeaders_eq (image : List UInt8) (tableOffset entrySize remaining index : ℕ)
    (interpreter : Option (List UInt8)) :
    parseProgramHeaders image tableOffset entrySize remaining index interpreter =
      lift (Exec.parseProgramHeaders image tableOffset entrySize remaining index interpreter) := by
  induction remaining generalizing index interpreter with
  | zero => rfl
  | succ remaining ih =>
    rw [parseProgramHeaders, Exec.parseProgramHeaders, lift_bind, parseProgramHeader_eq]
    refine bind_congr_ok fun header hheader => ?_
    rw [interpreterText_eq (parseProgramHeader_space (lift_eq_ok.mp hheader)), pure_bind, ih,
      lift_bind]
    rfl

/-- **`parse_elf64` does not panic.** -/
theorem parseElf64_eq (image : List UInt8) : parseElf64 image = lift (Exec.parseElf64 image) := by
  rw [parseElf64, Exec.parseElf64]
  simp only [lift_bind, lift_ensure, lift_pure]
  refine bind_congr_ok fun _ hlen => ?_
  have hlen := ensure_eq_ok.mp hlen
  rw [elf64EhdrSize] at hlen
  have hget {i : ℕ} (hi : i < 64) : image[i]? = some (image.get ⟨i, by omega⟩) :=
    List.getElem?_eq_getElem (by omega)
  have hindex {i : ℕ} (hi : i < 64) : index image i = pure (image.get ⟨i, by omega⟩) := by
    rw [index, hget hi]
    rfl
  simp only [hindex (show 4 < 64 by decide), hindex (show 5 < 64 by decide),
    hindex (show 6 < 64 by decide), hget (show 4 < 64 by decide), hget (show 5 < 64 by decide),
    hget (show 6 < 64 by decide), Option.some.injEq, pure_bind, readLe_eq, parseProgramHeaders_eq]
  rfl

theorem alignDown_eq (value : ℕ) : alignDown value 4096 = pure (Exec.alignDown value) := by
  have hlow : sub 4096 1 = pure 4095 := rfl
  rw [alignDown, hlow, pure_bind]
  rfl

theorem planSegment_eq (index : ℕ) (h : ProgramHeader) :
    planSegment index h = lift (Exec.planSegment index h) := by
  rw [planSegment, Exec.planSegment]
  simp only [lift_bind, lift_okOr, lift_ensure, lift_pure, alignDown_eq, pure_bind]

/-- **`build_load_plan` does not panic.** -/
theorem buildLoadPlan_eq (image : ElfImage) :
    buildLoadPlan image = lift (Exec.buildLoadPlan image) := by
  rw [buildLoadPlan, Exec.buildLoadPlan]
  generalize 0 = index
  induction image.programHeaders generalizing index with
  | nil => rfl
  | cons h headers ih =>
    rw [planSegments, Exec.planSegments]
    split_ifs
    · simp only [lift_bind, lift_pure, planSegment_eq, ih]
    · exact ih (index + 1)

end Strict

/-! ### What is accepted -/

/-- The little-endian field of `n` bytes at an offset of an image. -/
def field (image : List UInt8) (n offset : ℕ) : ℕ := ofLeBytes (slice image offset n)

/-- `e_phoff`. -/
def phoff (image : List UInt8) : ℕ := field image 8 32

/-- `e_phentsize`. -/
def phentsize (image : List UInt8) : ℕ := field image 2 54

/-- `e_phnum`. -/
def phnum (image : List UInt8) : ℕ := field image 2 56

/-- An entry of the program header table. -/
def headerAt (image : List UInt8) (index : ℕ) : ProgramHeader :=
  let entry := phoff image + index * phentsize image
  { segmentType := .fromRaw (field image 4 entry)
    flags := field image 4 (entry + 4)
    offset := field image 8 (entry + 8)
    virtualAddress := field image 8 (entry + 16)
    fileSize := field image 8 (entry + 32)
    memorySize := field image 8 (entry + 40)
    alignment := field image 8 (entry + 48) }

/-- A header that is accepted. -/
structure ProgramHeader.Accepted (image : List UInt8) (h : ProgramHeader) : Prop where
  size : h.fileSize ≤ h.memorySize
  file : 0 < h.fileSize → h.offset + h.fileSize ≤ image.length
  memory : 0 < h.memorySize → h.virtualAddress + h.memorySize < 2 ^ 64

/-- An image that is accepted. -/
structure Accepted (image : List UInt8) : Prop where
  length : 64 ≤ image.length
  elfClass : field image 1 4 = 2
  elfData : field image 1 5 = 1
  identVersion : field image 1 6 = 1
  version : field image 4 20 = 1
  ehsize : field image 2 52 = 64
  count : phnum image ≤ maxProgramHeaders
  entrySize : 0 < phnum image → 56 ≤ phentsize image
  table : 0 < phnum image → phoff image + phentsize image * phnum image ≤ image.length
  headers : ∀ i < phnum image, (headerAt image i).Accepted image

section Exact

variable {image : List UInt8}

theorem readLe_of_le (hlen : image.length < 2 ^ 64) (hle : offset + n ≤ image.length) :
    readLe n image offset = .ok (field image n offset) :=
  readLe_eq_ok.mpr ⟨by omega, hle, rfl⟩

theorem getElem?_eq_some_iff_field {i : ℕ} (hi : i < image.length) (b : UInt8) :
    image[i]? = some b ↔ field image 1 i = b.toNat := by
  rw [field, slice, take_one_drop_eq_of_lt_length hi, ofLeBytes, ofLeBytes, Nat.mul_zero,
    Nat.add_zero, UInt8.toNat_inj, List.getElem?_eq_getElem hi, Option.some.injEq]
  rfl

section

variable (hlen : image.length < 2 ^ 64)

include hlen

/-- The checks of a header. -/
theorem checkSegment_iff : checkSegment image h = .ok () ↔ h.Accepted image := by
  rw [checkSegment_eq_ok]
  constructor
  · rintro ⟨hsize, hfile, hmemory⟩
    exact ⟨hsize, fun hpos => (hfile hpos).2, hmemory⟩
  · rintro ⟨hsize, hfile, hmemory⟩
    exact ⟨hsize, fun hpos => ⟨(hfile hpos).trans_lt hlen, hfile hpos⟩, hmemory⟩

/-- An entry inside the image is read, and then checked. -/
theorem parseProgramHeader_iff
    (hentry : phoff image + index * phentsize image + 56 ≤ image.length) :
    parseProgramHeader image (phoff image) (phentsize image) index = .ok h ↔
      h = headerAt image index ∧ h.Accepted image := by
  have hread (n k : ℕ) (hk : k + n ≤ 56) :
      readLe n image (phoff image + index * phentsize image + k) =
        pure (field image n (phoff image + index * phentsize image + k)) :=
    readLe_of_le hlen (by omega)
  have hparse : parseProgramHeader image (phoff image) (phentsize image) index =
      checkSegment image (headerAt image index) >>= fun _ => pure (headerAt image index) := by
    have hmul := checkedMul_eq_some.mpr ⟨show index * phentsize image < 2 ^ 64 by omega, rfl⟩
    have hstart := checkedAdd_eq_some.mpr
      ⟨show phoff image + index * phentsize image < 2 ^ 64 by omega, rfl⟩
    have hend := checkedAdd_eq_some.mpr
      ⟨show phoff image + index * phentsize image + 56 < 2 ^ 64 by omega, rfl⟩
    have hfirst := hread 4 0 (by decide)
    rw [Nat.add_zero] at hfirst
    rw [parseProgramHeader]
    simp only [readU32Le, readU64Le, elf64PhdrSize, hmul, hstart, hend, okOr_some, pure_bind,
      ensure_of hentry, hfirst, hread 4 4 (by decide), hread 8 8 (by decide),
      hread 8 16 (by decide), hread 8 32 (by decide), hread 8 40 (by decide),
      hread 8 48 (by decide)]
    rfl
  rw [hparse, bind_eq_ok]
  constructor
  · rintro ⟨_, hcheck, hh⟩
    rw [pure_eq_ok] at hh
    subst hh
    exact ⟨rfl, (checkSegment_iff hlen).mp hcheck⟩
  · rintro ⟨rfl, hacc⟩
    exact ⟨(), (checkSegment_iff hlen).mpr hacc, rfl⟩

/-- The loop over the table. -/
theorem parseProgramHeaders_iff
    (hentry : ∀ i < phnum image, phoff image + i * phentsize image + 56 ≤ image.length)
    (hle : index + remaining ≤ phnum image) (interpreter : Option (List UInt8))
    (headers : List ProgramHeader) :
    (∃ text, parseProgramHeaders image (phoff image) (phentsize image) remaining index
        interpreter = .ok (headers, text)) ↔
      headers = (List.range' index remaining).map (headerAt image) ∧
        ∀ i ∈ List.range' index remaining, (headerAt image i).Accepted image := by
  induction remaining generalizing index interpreter headers with
  | zero =>
    simp only [parseProgramHeaders, Except.ok.injEq, Prod.mk.injEq, exists_and_left, exists_eq',
      and_true, range'_zero, map_nil, not_mem_nil, false_imp_iff, implies_true]
    exact eq_comm
  | succ remaining ih =>
    have hnext : index + 1 + remaining ≤ phnum image := by omega
    rw [range'_succ, map_cons, forall_mem_cons]
    simp only [parseProgramHeaders, bind_eq_ok, pure_eq_ok,
      parseProgramHeader_iff hlen (hentry index (by omega)), Prod.exists]
    constructor
    · rintro ⟨text, _, ⟨rfl, hacc⟩, rest, text', hloop, heq⟩
      cases heq
      obtain ⟨rfl, hall⟩ := (ih hnext _ rest).mp ⟨_, hloop⟩
      exact ⟨rfl, hacc, hall⟩
    · rintro ⟨rfl, hacc, hall⟩
      obtain ⟨text, hloop⟩ := (ih hnext
        (interpreter.or (interpreterText image (headerAt image index))) _).mpr ⟨rfl, hall⟩
      exact ⟨text, _, ⟨rfl, hacc⟩, _, _, hloop, rfl⟩

theorem checkTable_iff : checkTable image (phoff image) (phentsize image) (phnum image) = .ok () ↔
      phnum image ≤ maxProgramHeaders ∧ (0 < phnum image → 56 ≤ phentsize image ∧
        phoff image + phentsize image * phnum image ≤ image.length) := by
  rw [checkTable]
  simp only [bind_eq_ok, ensure_eq_ok, exists_const]
  refine and_congr_right fun _ => ?_
  split_ifs with hcount
  · simp only [bind_eq_ok, okOr_eq_ok, ensure_eq_ok, checkedMul_eq_some, checkedAdd_eq_some, hcount,
      forall_const]
    constructor
    · rintro ⟨_, hsize, _, ⟨-, rfl⟩, _, ⟨-, rfl⟩, hend⟩
      exact ⟨hsize, hend⟩
    · rintro ⟨hsize, hend⟩
      exact ⟨(), hsize, _, ⟨by omega, rfl⟩, _, ⟨by omega, rfl⟩, hend⟩
  · simp [hcount]

end

theorem entry_le_of_table (hi : i < phnum image) (hsize : 56 ≤ phentsize image)
    (htable : phoff image + phentsize image * phnum image ≤ image.length) :
    phoff image + i * phentsize image + 56 ≤ image.length := by
  have hmul : (i + 1) * phentsize image ≤ phnum image * phentsize image :=
    Nat.mul_le_mul_right _ hi
  rw [Nat.succ_mul, Nat.mul_comm (phnum image)] at hmul
  omega

/-- `parse_elf64` field by field. -/
theorem parseElf64_fields (hlen : image.length < 2 ^ 64) (hlow : 64 ≤ image.length)
    (headers : List ProgramHeader) :
    (∃ elf, parseElf64 image = .ok elf ∧ elf.programHeaders = headers) ↔
      (field image 1 4 = 2 ∧ field image 1 5 = 1 ∧ field image 1 6 = 1 ∧ field image 2 52 = 64 ∧
        field image 4 20 = 1) ∧
      checkTable image (phoff image) (phentsize image) (phnum image) = .ok () ∧
      ∃ text, parseProgramHeaders image (phoff image) (phentsize image) (phnum image) 0 none =
        .ok (headers, text) := by
  have hread (n k : ℕ) (hk : k + n ≤ 64) : readLe n image k = pure (field image n k) :=
    readLe_of_le hlen (by omega)
  have hbyte (i : ℕ) (hi : i < 64) (b : UInt8) : image[i]? = some b ↔ field image 1 i = b.toNat :=
    getElem?_eq_some_iff_field (by omega) b
  simp only [parseElf64, readU16Le, readU32Le, readU64Le, hread 2 52 (by decide),
    hread 2 16 (by decide), hread 2 18 (by decide), hread 4 20 (by decide), hread 8 24 (by decide),
    hread 8 32 (by decide), hread 2 54 (by decide), hread 2 56 (by decide), pure_bind, bind_eq_ok,
    ensure_eq_ok, hbyte 4 (by decide), hbyte 5 (by decide), hbyte 6 (by decide)]
  constructor
  · rintro ⟨elf, ⟨_, -, _, hclass, _, hdata, _, hident, _, hsize, _, hversion, _, htable,
      ⟨found, text⟩, hheaders, hpure⟩, rfl⟩
    cases hpure
    exact ⟨⟨hclass, hdata, hident, hsize, hversion⟩, htable, text, hheaders⟩
  · rintro ⟨⟨hclass, hdata, hident, hsize, hversion⟩, htable, text, hheaders⟩
    exact ⟨_, ⟨(), hlow, (), hclass, (), hdata, (), hident, (), hsize, (), hversion, (), htable, _,
      hheaders, rfl⟩, rfl⟩

/-- **The exact condition.** The headers of an accepted image are the entries of its table. -/
theorem parseElf64_eq_ok (hlen : image.length < 2 ^ 64) (headers : List ProgramHeader) :
    (∃ elf, parseElf64 image = .ok elf ∧ elf.programHeaders = headers) ↔
      Accepted image ∧ headers = (List.range (phnum image)).map (headerAt image) := by
  by_cases hlow : 64 ≤ image.length
  · rw [parseElf64_fields hlen hlow, checkTable_iff hlen]
    constructor
    · rintro ⟨⟨hclass, hdata, hident, hsize, hversion⟩, ⟨hcount, htable⟩, hheaders⟩
      have hentry (i : ℕ) (hi : i < phnum image) :=
        entry_le_of_table hi (htable (by omega)).1 (htable (by omega)).2
      obtain ⟨rfl, hall⟩ := (parseProgramHeaders_iff hlen hentry (by omega) none headers).mp hheaders
      rw [← range_eq_range'] at hall ⊢
      exact ⟨⟨hlow, hclass, hdata, hident, hversion, hsize, hcount, fun hpos => (htable hpos).1,
        fun hpos => (htable hpos).2, fun i hi => hall i (mem_range.mpr hi)⟩, rfl⟩
    · rintro ⟨hacc, rfl⟩
      have hentry (i : ℕ) (hi : i < phnum image) :=
        entry_le_of_table hi (hacc.entrySize (by omega)) (hacc.table (by omega))
      refine ⟨⟨hacc.elfClass, hacc.elfData, hacc.identVersion, hacc.ehsize, hacc.version⟩,
        ⟨hacc.count, fun hpos => ⟨hacc.entrySize hpos, hacc.table hpos⟩⟩, ?_⟩
      rw [parseProgramHeaders_iff hlen hentry (by omega), ← range_eq_range']
      exact ⟨rfl, fun i hi => hacc.headers i (mem_range.mp hi)⟩
  · refine iff_of_false ?_ fun hacc => hlow hacc.1.length
    rintro ⟨elf, hparse, -⟩
    simp only [parseElf64, bind_eq_ok, ensure_eq_ok] at hparse
    obtain ⟨_, hlow', -⟩ := hparse
    exact hlow hlow'

end Exact

/-! ### The plan -/

/-- The entry of the plan for a header and its index. -/
structure LoadSegmentPlan.PlanOf (p : ProgramHeader × ℕ) (s : LoadSegmentPlan) : Prop where
  index : s.index = p.2
  fileOffset : s.fileOffset = p.1.offset
  virtualStart : s.virtualStart = p.1.virtualAddress
  virtualEnd : s.virtualEnd = p.1.virtualAddress + p.1.memorySize
  mapStart : 4096 ∣ s.mapStart
  mapEnd : 4096 ∣ s.mapEnd
  mapStart_le : s.mapStart ≤ s.virtualStart
  virtualStart_le : s.virtualStart ≤ s.virtualEnd
  virtualEnd_le : s.virtualEnd ≤ s.mapEnd
  pageOffset : s.pageOffset = s.virtualStart - s.mapStart
  pageOffset_lt : s.pageOffset < 4096
  rest_lt : s.mapEnd - s.virtualEnd < 4096
  fileBytes : s.fileBytes = p.1.fileSize
  memoryBytes : s.memoryBytes = p.1.memorySize
  bytes : s.fileBytes + s.zeroFillBytes = s.memoryBytes
  alignment : s.alignment = p.1.alignment
  permissions : s.permissions = .fromHeader p.1

/-- The LOAD headers of an image, with their indices. -/
def ElfImage.loadHeaders (elf : ElfImage) : List (ProgramHeader × ℕ) :=
  elf.programHeaders.zipIdx.filter (·.1.isLoadable)

theorem planSegment_cases (haddress : h.virtualAddress < 2 ^ 64)
    (hsize : h.fileSize ≤ h.memorySize) (index : ℕ) :
    planSegment index h = .error .segmentAddressOverflow ∨
      ∃ s, planSegment index h = .ok s ∧ s.PlanOf (h, index) := by
  by_cases hend : h.virtualAddress + h.memorySize + 4095 < 2 ^ 64
  · have hadd := checkedAdd_eq_some.mpr
      ⟨show h.virtualAddress + h.memorySize < 2 ^ 64 by omega, rfl⟩
    have hstart : alignDown h.virtualAddress = h.virtualAddress / 4096 * 4096 :=
      maskLow_page haddress
    have hup : alignUp (h.virtualAddress + h.memorySize) =
        some ((h.virtualAddress + h.memorySize + 4095) / 4096 * 4096) := by
      rw [alignUp, checkedAdd_eq_some.mpr ⟨hend, rfl⟩, Option.map_some, maskLow_page hend]
    have hsub := checkedSub_eq_some.mpr
      ⟨show h.virtualAddress / 4096 * 4096 ≤ h.virtualAddress by omega, rfl⟩
    have hle : h.virtualAddress + h.memorySize ≤
      (h.virtualAddress + h.memorySize + 4095) / 4096 * 4096 := by omega
    have hoffset : h.virtualAddress - h.virtualAddress / 4096 * 4096 < 4096 := by omega
    have hrest : (h.virtualAddress + h.memorySize + 4095) / 4096 * 4096 -
      (h.virtualAddress + h.memorySize) < 4096 := by omega
    right
    rw [planSegment]
    simp only [ensure_of hsize, hadd, hstart, hup, hsub, okOr_some, pure_bind]
    exact ⟨_, rfl, rfl, rfl, rfl, rfl, Nat.dvd_mul_left _ _, Nat.dvd_mul_left _ _,
      Nat.div_mul_le_self _ _, Nat.le_add_right _ _, hle, rfl, hoffset, hrest, rfl, rfl,
      Nat.add_sub_cancel' hsize, rfl, rfl⟩
  · left
    rw [planSegment, ensure_of hsize, pure_bind]
    by_cases hlt : h.virtualAddress + h.memorySize < 2 ^ 64
    · have hup : alignUp (h.virtualAddress + h.memorySize) = none := by
        rw [alignUp, checkedAdd_eq_none.mpr (not_lt.mp hend), Option.map_none]
      rw [checkedAdd_eq_some.mpr ⟨hlt, rfl⟩, okOr_some, pure_bind, hup]
      rfl
    · rw [checkedAdd_eq_none.mpr (not_lt.mp hlt)]
      rfl

theorem planSegments_cases (headers : List ProgramHeader)
    (hfits : ∀ h ∈ headers, h.Fits image) (index : ℕ) :
    planSegments index headers = .error .segmentAddressOverflow ∨
      ∃ plan, planSegments index headers = .ok plan ∧
        List.Forall₂ LoadSegmentPlan.PlanOf ((headers.zipIdx index).filter (·.1.isLoadable))
          plan := by
  induction headers generalizing index with
  | nil => exact .inr ⟨[], rfl, .nil⟩
  | cons h headers ih =>
    have hh := hfits h mem_cons_self
    have hrest := ih (fun h' hmem => hfits h' (mem_cons_of_mem h hmem)) (index + 1)
    rw [planSegments, zipIdx_cons, filter_cons]
    split_ifs with hload
    · rcases planSegment_cases hh.address_lt hh.size_le index with herr | ⟨s, hok, hs⟩
      · rw [herr]
        exact .inl rfl
      · rw [hok]
        rcases hrest with herr | ⟨plan, hplan, hall⟩
        · rw [herr]
          exact .inl rfl
        · rw [hplan]
          exact .inr ⟨s :: plan, rfl, .cons hs hall⟩
    · exact hrest

/-- **Parsing and planning all byte strings.** Neither function panics. An image is accepted exactly
under the condition `Accepted`, and its headers are then the entries of its table in order. The plan
of an accepted image has one entry for each LOAD header in order, unless the rounding of an address
overflows. The length of a byte string is a `usize`. -/
theorem parseElf64_exact (image : List UInt8) (hlen : image.length < 2 ^ 64) :
    Strict.parseElf64 image = lift (parseElf64 image) ∧
    ((∃ elf, parseElf64 image = .ok elf) ↔ Accepted image) ∧
    ∀ elf, parseElf64 image = .ok elf →
      elf.programHeaders = (List.range (phnum image)).map (headerAt image) ∧
      Strict.buildLoadPlan elf = lift (buildLoadPlan elf) ∧
      (buildLoadPlan elf = .error .segmentAddressOverflow ∨
        ∃ plan, buildLoadPlan elf = .ok plan ∧
          List.Forall₂ LoadSegmentPlan.PlanOf elf.loadHeaders plan) := by
  refine ⟨Strict.parseElf64_eq image, ⟨?_, ?_⟩, ?_⟩
  · rintro ⟨elf, hparse⟩
    exact ((parseElf64_eq_ok hlen elf.programHeaders).mp ⟨elf, hparse, rfl⟩).1
  · intro hacc
    obtain ⟨elf, hparse, -⟩ := (parseElf64_eq_ok hlen _).mpr ⟨hacc, rfl⟩
    exact ⟨elf, hparse⟩
  · intro elf hparse
    exact ⟨((parseElf64_eq_ok hlen elf.programHeaders).mp ⟨elf, hparse, rfl⟩).2,
      Strict.buildLoadPlan_eq elf, planSegments_cases elf.programHeaders (parseElf64_fits hparse) 0⟩

/-- An image with one page is accepted and planned. -/
theorem parseElf64_exact_one_page : ∃ elf, parseElf64 userImage = .ok elf ∧ Accepted userImage ∧
    (∃ s, buildLoadPlan elf = .ok [s]) ∧
    elf.programHeaders = (List.range (phnum userImage)).map (headerAt userImage) := by
  have hlen : userImage.length < 2 ^ 64 := by decide +kernel
  obtain ⟨-, haccepted, helf⟩ := parseElf64_exact userImage hlen
  have hcheck : ((parseElf64 userImage).toOption.any fun elf =>
      (buildLoadPlan elf).toOption.any fun plan => plan.length == 1) = true := by
    decide +kernel
  obtain ⟨elf, hparse, hcheck⟩ := exists_of_any hcheck
  obtain ⟨plan, hplan, hone⟩ := exists_of_any hcheck
  obtain ⟨s, rfl⟩ := length_eq_one_iff.mp (beq_iff_eq.mp hone)
  exact ⟨elf, hparse, haccepted.mp ⟨elf, hparse⟩, ⟨s, hplan⟩, (helf elf hparse).1⟩

end Hxnu.Exec
