import Hxnu.Exec.Elf

/-!
# Activation of an executable

`build_activation` of `kernel/src/init_exec.rs`: the planned segments are moved to the load base, and
their file bytes are cut out of the image. The load base is the lowest planned address if that lies
in user space, and a fixed address otherwise.

## Main definitions

* `prepareElf`: the ELF part of `prepare_executable_load` in `kernel/src/vfs.rs`.
* `buildActivation`: `build_activation`.

## Main results

* `buildActivation_segments`: every segment is moved by the same distance.
-/

namespace Hxnu.Exec

open Word Buffer Fallible List

variable {base origin : ℕ} {bytes image : List UInt8} {entries : List VmMapPlanEntry}
  {s : LoadSegmentPlan}

def userSpaceBase : ℕ := 0x0000000000400000

def userSpaceLimit : ℕ := 0x0000800000000000

inductive ExecutableFormat
  | elf
  | shebangScript
  | text
  | unknown
  deriving DecidableEq, Repr

structure VmMapPlanEntry where
  index : ℕ
  fileOffset : ℕ
  virtualStart : ℕ
  virtualEnd : ℕ
  mapStart : ℕ
  mapEnd : ℕ
  pageOffset : ℕ
  fileBytes : ℕ
  memoryBytes : ℕ
  zeroFillBytes : ℕ
  alignment : ℕ
  readable : Bool
  writable : Bool
  executable : Bool
  deriving DecidableEq, Repr

/-- The fields of `ExecutableLoadPrep` that the activation reads. -/
structure ExecutableLoadPrep where
  path : List UInt8
  format : ExecutableFormat
  imageType : Option ℕ
  machine : Option ℕ
  entryPoint : Option ℕ
  programHeaderCount : ℕ
  vmMapEntries : List VmMapPlanEntry
  vmMapTotalBytes : ℕ
  vmMapZeroFillBytes : ℕ
  deriving DecidableEq, Repr

def LoadSegmentPlan.vmMapEntry (s : LoadSegmentPlan) : VmMapPlanEntry where
  index := s.index
  fileOffset := s.fileOffset
  virtualStart := s.virtualStart
  virtualEnd := s.virtualEnd
  mapStart := s.mapStart
  mapEnd := s.mapEnd
  pageOffset := s.pageOffset
  fileBytes := s.fileBytes
  memoryBytes := s.memoryBytes
  zeroFillBytes := s.zeroFillBytes
  alignment := s.alignment
  readable := s.permissions.read
  writable := s.permissions.write
  executable := s.permissions.execute

/-- The preparation of an ELF image with the given plan. -/
def prepareElf (path : List UInt8) (elf : ElfImage) (plan : List LoadSegmentPlan) :
    ExecutableLoadPrep where
  path
  format := .elf
  imageType := some elf.imageType
  machine := some elf.machine
  entryPoint := some elf.entryPoint
  programHeaderCount := elf.programHeaders.length
  vmMapEntries := plan.map LoadSegmentPlan.vmMapEntry
  vmMapTotalBytes := plan.foldl (fun total s => satAdd total (s.mapEnd - s.mapStart)) 0
  vmMapZeroFillBytes := plan.foldl (fun total s => satAdd total s.zeroFillBytes) 0

structure ActivatedSegment where
  index : ℕ
  virtualStart : ℕ
  virtualEnd : ℕ
  mapStart : ℕ
  mapEnd : ℕ
  fileBytes : ℕ
  memoryBytes : ℕ
  readable : Bool
  writable : Bool
  executable : Bool
  bytes : List UInt8
  deriving DecidableEq, Repr

structure ActivatedInitImage where
  path : List UInt8
  format : ExecutableFormat
  imageType : ℕ
  machine : ℕ
  entryPoint : ℕ
  vmStart : ℕ
  vmEnd : ℕ
  totalBytes : ℕ
  zeroFillBytes : ℕ
  entrySegmentIndex : ℕ
  entrySegmentMapOffset : ℕ
  phAddr : ℕ
  phNum : ℕ
  segments : List ActivatedSegment
  deriving DecidableEq, Repr

/-- The errors of `build_activation` and of the functions that map an activated image. -/
inductive InitExecActivateError
  | unsupportedFormat
  | missingEntryPoint
  | missingImageType
  | missingMachine
  | noLoadSegments
  | noExecutableSegments
  | entryOutsideExecutableSegments
  | invalidSegmentMap
  deriving DecidableEq, Repr

open InitExecActivateError

/-- `checked_add(..).ok_or(InvalidSegmentMap)?`, and the same for the other checked operations. -/
def checked {α : Type} (o : Option α) : Except (Stop InitExecActivateError) α :=
  okOr o (.error invalidSegmentMap)

/-- The bytes of a segment. The end of the slice wraps around, and the slice panics if that puts the
end below the start. -/
def segmentBytes (bytes : List UInt8) (s : VmMapPlanEntry) :
    Except (Stop InitExecActivateError) (List UInt8) := do
  let last := wrapAdd s.fileOffset s.fileBytes
  ensure (last ≤ bytes.length) (Stop.error invalidSegmentMap)
  ensure (s.fileOffset ≤ last) (Stop.panic : Stop InitExecActivateError)
  return slice bytes s.fileOffset (last - s.fileOffset)

/-- `user_load_base.checked_add(address.checked_sub(orig_vm_start)?)?`. -/
def relocate (origVmStart userLoadBase address : ℕ) : Except (Stop InitExecActivateError) ℕ := do
  let offset ← checked (checkedSub address origVmStart)
  checked (checkedAdd userLoadBase offset)

/-- The variables of the loop over the segments. -/
structure Activation where
  hasExecutableSegment : Bool
  entrySegmentIndex : Option ℕ
  entrySegmentMapOffset : ℕ
  segments : List ActivatedSegment
  deriving DecidableEq, Repr

/-- The segment that a round of the loop pushes. -/
def VmMapPlanEntry.activated (s : VmMapPlanEntry)
    (virtualStart virtualEnd mapStart mapEnd : ℕ) (bytes : List UInt8) : ActivatedSegment where
  index := s.index
  virtualStart
  virtualEnd
  mapStart
  mapEnd
  fileBytes := s.fileBytes
  memoryBytes := s.memoryBytes
  readable := s.readable
  writable := s.writable
  executable := s.executable
  bytes

/-- One round of the loop over the segments. -/
def activateSegment (bytes : List UInt8) (entryPoint origVmStart userLoadBase : ℕ) (a : Activation)
    (s : VmMapPlanEntry) : Except (Stop InitExecActivateError) Activation := do
  let content ← segmentBytes bytes s
  ensure (s.fileBytes = content.length) (Stop.error invalidSegmentMap)
  let mapStart ← relocate origVmStart userLoadBase s.mapStart
  let mapEnd ← checked (checkedAdd mapStart (wrapSub s.mapEnd s.mapStart))
  let virtualStart ← relocate origVmStart userLoadBase s.virtualStart
  let virtualEnd ← relocate origVmStart userLoadBase s.virtualEnd
  let segments := a.segments ++ [s.activated virtualStart virtualEnd mapStart mapEnd content]
  if s.executable then
    if s.virtualStart ≤ entryPoint ∧ entryPoint < s.virtualEnd then
      let offset ← checked (checkedSub entryPoint s.mapStart)
      return ⟨true, some s.index, offset, segments⟩
    else return { a with hasExecutableSegment := true, segments }
  else return { a with segments }

/-- The lowest planned address. -/
def origVmStart (entries : List VmMapPlanEntry) : ℕ :=
  entries.foldl (fun lowest s => min lowest s.mapStart) maxValue

/-- The highest planned address. -/
def origVmEnd (entries : List VmMapPlanEntry) : ℕ :=
  entries.foldl (fun highest s => max highest s.mapEnd) 0

def userLoadBase (entries : List VmMapPlanEntry) : ℕ :=
  if origVmStart entries < userSpaceLimit then origVmStart entries else userSpaceBase

def buildActivation (image : ExecutableLoadPrep) (bytes : List UInt8) :
    Except (Stop InitExecActivateError) ActivatedInitImage := do
  ensure (image.format = .elf) (Stop.error unsupportedFormat)
  let entryPoint ← okOr image.entryPoint (.error missingEntryPoint)
  let imageType ← okOr image.imageType (.error missingImageType)
  let machine ← okOr image.machine (.error missingMachine)
  ensure (image.vmMapEntries ≠ []) (Stop.error noLoadSegments)
  let origin := origVmStart image.vmMapEntries
  let base := userLoadBase image.vmMapEntries
  let a ← image.vmMapEntries.foldlM (activateSegment bytes entryPoint origin base)
    ⟨false, none, 0, []⟩
  ensure (a.hasExecutableSegment = true) (Stop.error noExecutableSegments)
  let entrySegmentIndex ← okOr a.entrySegmentIndex (.error entryOutsideExecutableSegments)
  let userEntry ← relocate origin base entryPoint
  let vmSize ← checked (checkedSub (origVmEnd image.vmMapEntries) origin)
  let userVmEnd ← checked (checkedAdd base vmSize)
  return {
    path := image.path
    format := image.format
    imageType
    machine
    entryPoint := userEntry
    vmStart := base
    vmEnd := userVmEnd
    totalBytes := image.vmMapTotalBytes
    zeroFillBytes := image.vmMapZeroFillBytes
    entrySegmentIndex
    entrySegmentMapOffset := a.entrySegmentMapOffset
    phAddr := wrapAdd base 64
    phNum := image.programHeaderCount
    segments := a.segments }

/-! ### Relocation -/

/-- The planned segment `e`, moved from `origin` to `base`, with its file bytes. -/
def VmMapPlanEntry.moved (bytes : List UInt8) (origin base : ℕ) (e : VmMapPlanEntry) :
    ActivatedSegment :=
  e.activated (base + (e.virtualStart - origin)) (base + (e.virtualEnd - origin))
    (base + (e.mapStart - origin)) (base + (e.mapStart - origin) + wrapSub e.mapEnd e.mapStart)
    (slice bytes e.fileOffset e.fileBytes)

/-- What the loop checks of a planned segment. -/
structure Movable (bytes : List UInt8) (origin base : ℕ) (e : VmMapPlanEntry) : Prop where
  mapStart_ge : origin ≤ e.mapStart
  virtualStart_ge : origin ≤ e.virtualStart
  virtualEnd_ge : origin ≤ e.virtualEnd
  mapEnd_lt : base + (e.mapStart - origin) + wrapSub e.mapEnd e.mapStart < 2 ^ 64
  in_bytes : e.fileOffset + e.fileBytes ≤ bytes.length

theorem relocate_eq_ok :
    relocate origin base x = .ok y ↔ origin ≤ x ∧ base + (x - origin) < 2 ^ 64 ∧
      y = base + (x - origin) := by
  simp only [relocate, checked, bind_eq_ok, okOr_eq_ok, checkedSub_eq_some, checkedAdd_eq_some]
  constructor
  · rintro ⟨_, ⟨hle, rfl⟩, hlt, rfl⟩
    exact ⟨hle, hlt, rfl⟩
  · rintro ⟨hle, hlt, rfl⟩
    exact ⟨_, ⟨hle, rfl⟩, hlt, rfl⟩

/-- The slice that passes the length check has the file bytes of the segment. -/
theorem segmentBytes_eq_ok (h : segmentBytes bytes e = .ok content)
    (hlength : e.fileBytes = content.length) :
    e.fileOffset + e.fileBytes ≤ bytes.length ∧
      content = slice bytes e.fileOffset e.fileBytes := by
  simp only [segmentBytes, bind_eq_ok, ensure_eq_ok, pure_eq_ok] at h
  obtain ⟨_, hlast, _, hle, rfl⟩ := h
  have hbytes : e.fileBytes = wrapAdd e.fileOffset e.fileBytes - e.fileOffset := by
    rw [length_slice (by omega)] at hlength
    exact hlength
  refine ⟨by omega, ?_⟩
  rw [← hbytes]

/-- The segment is executable, and the entry point lies in it. -/
structure VmMapPlanEntry.HoldsEntry (e : VmMapPlanEntry) (entryPoint : ℕ) : Prop where
  executable : e.executable = true
  start_le : e.virtualStart ≤ entryPoint
  lt_end : entryPoint < e.virtualEnd

/-- A round of the loop adds one segment. -/
theorem activateSegment_ok (h : activateSegment bytes entryPoint origin base a e = .ok a') :
    a'.segments = a.segments ++ [e.moved bytes origin base] ∧ Movable bytes origin base e ∧
      (a'.entrySegmentIndex = a.entrySegmentIndex ∨
        e.HoldsEntry entryPoint ∧ a'.entrySegmentIndex = some e.index) := by
  simp only [activateSegment, bind_eq_ok, ensure_eq_ok, relocate_eq_ok, checked, okOr_eq_ok,
    checkedAdd_eq_some] at h
  obtain ⟨content, hcontent, _, hlength, _, ⟨hmapStart, -, rfl⟩, _, ⟨hmapEnd, rfl⟩, _,
    ⟨hvirtualStart, -, rfl⟩, _, ⟨hvirtualEnd, -, rfl⟩, h⟩ := h
  obtain ⟨hin, rfl⟩ := segmentBytes_eq_ok hcontent hlength
  have hmovable : Movable bytes origin base e :=
    ⟨hmapStart, hvirtualStart, hvirtualEnd, hmapEnd, hin⟩
  split_ifs at h with hexecutable hentry
  · simp only [bind_eq_ok, pure_eq_ok] at h
    obtain ⟨_, -, rfl⟩ := h
    exact ⟨rfl, hmovable, .inr ⟨⟨hexecutable, hentry.1, hentry.2⟩, rfl⟩⟩
  · obtain rfl := pure_eq_ok.mp h
    exact ⟨rfl, hmovable, .inl rfl⟩
  · obtain rfl := pure_eq_ok.mp h
    exact ⟨rfl, hmovable, .inl rfl⟩

theorem foldlM_activateSegment
    (h : entries.foldlM (activateSegment bytes entryPoint origin base) a = .ok a') :
    a'.segments = a.segments ++ entries.map (VmMapPlanEntry.moved bytes origin base) ∧
      (∀ e ∈ entries, Movable bytes origin base e) ∧
      (a'.entrySegmentIndex = a.entrySegmentIndex ∨
        ∃ e ∈ entries, e.HoldsEntry entryPoint ∧ a'.entrySegmentIndex = some e.index) := by
  induction entries generalizing a with
  | nil =>
    obtain rfl := pure_eq_ok.mp h
    exact ⟨(append_nil _).symm, fun _ => nofun, .inl rfl⟩
  | cons e entries ih =>
    obtain ⟨a₁, hfirst, hrest⟩ := bind_eq_ok.mp h
    obtain ⟨hs, hmovable, hentry⟩ := activateSegment_ok hfirst
    obtain ⟨hsegments, hall, hentries⟩ := ih hrest
    refine ⟨?_, ?_, ?_⟩
    · rw [hsegments, hs, append_assoc, singleton_append, map_cons]
    · intro e' hmem
      rcases mem_cons.mp hmem with rfl | hmem
      · exact hmovable
      · exact hall e' hmem
    · obtain hkept | ⟨e', he', hholds⟩ := hentries
      · rw [hkept]
        exact hentry.imp_right fun h => ⟨e, mem_cons_self, h⟩
      · exact .inr ⟨e', mem_cons_of_mem e he', hholds⟩

/-- **The segments of an activated image are the planned ones, moved to the load base.** So are the
entry point and the end of the highest segment. -/
theorem buildActivation_segments {image : ExecutableLoadPrep}
    {act : ActivatedInitImage} (h : buildActivation image bytes = .ok act) :
    let origin := origVmStart image.vmMapEntries
    let base := userLoadBase image.vmMapEntries
    act.segments = image.vmMapEntries.map (VmMapPlanEntry.moved bytes origin base) ∧
      image.vmMapEntries ≠ [] ∧ (∀ e ∈ image.vmMapEntries, Movable bytes origin base e) ∧
      (act.vmStart = base ∧ act.phAddr = wrapAdd base 64 ∧ act.phNum = image.programHeaderCount) ∧
      relocate origin base (origVmEnd image.vmMapEntries) = .ok act.vmEnd ∧
      ∃ entryPoint, image.entryPoint = some entryPoint ∧
        relocate origin base entryPoint = .ok act.entryPoint ∧
        ∃ e ∈ image.vmMapEntries, e.HoldsEntry entryPoint ∧ e.index = act.entrySegmentIndex := by
  simp only [buildActivation, bind_eq_ok, ensure_eq_ok, okOr_eq_ok, pure_eq_ok] at h
  obtain ⟨_, -, entryPoint, hentryPoint, _, -, _, -, _, hne, a, hfold, _, -, index, hindex, _, hentry,
    size, hsize, _, hend, rfl⟩ := h
  obtain ⟨hsegments, hall, hfound⟩ := foldlM_activateSegment hfold
  refine ⟨hsegments, hne, hall, ⟨rfl, rfl, rfl⟩, bind_eq_ok.mpr ⟨size, hsize, hend⟩, entryPoint,
    hentryPoint, hentry, ?_⟩
  obtain hnone | ⟨e, he, hholds, hindex'⟩ := hfound
  · rw [hnone] at hindex
    cases hindex
  · exact ⟨e, he, hholds, Option.some.inj (hindex'.symm.trans hindex)⟩

/-! ### The planned range -/

/-- The minimum that a loop computes: a lower bound that is attained. -/
theorem foldl_min_spec {α β : Type*} [LinearOrder β] (f : α → β) (a : β) (l : List α) :
    (∀ s ∈ l, l.foldl (fun lowest s => min lowest (f s)) a ≤ f s) ∧
      l.foldl (fun lowest s => min lowest (f s)) a ≤ a ∧
      (l.foldl (fun lowest s => min lowest (f s)) a = a ∨
        ∃ s ∈ l, l.foldl (fun lowest s => min lowest (f s)) a = f s) := by
  induction l generalizing a with
  | nil => exact ⟨fun _ => nofun, le_rfl, .inl rfl⟩
  | cons s l ih =>
    obtain ⟨hmem, hle, hattained⟩ := ih (min a (f s))
    refine ⟨?_, hle.trans (min_le_left _ _), ?_⟩
    · intro t ht
      rcases mem_cons.mp ht with rfl | ht
      · exact hle.trans (min_le_right _ _)
      · exact hmem t ht
    · rcases hattained with heq | ⟨t, ht, heq⟩
      · rcases min_choice a (f s) with hmin | hmin
        · exact .inl (heq.trans hmin)
        · exact .inr ⟨s, mem_cons_self, heq.trans hmin⟩
      · exact .inr ⟨t, mem_cons_of_mem s ht, heq⟩

/-- The lowest planned address is a lower bound, and it is that of a segment. -/
theorem origVmStart_spec (hne : entries ≠ []) (hlt : ∀ e ∈ entries, e.mapStart ≤ maxValue) :
    (∀ e ∈ entries, origVmStart entries ≤ e.mapStart) ∧
      ∃ e ∈ entries, origVmStart entries = e.mapStart := by
  obtain ⟨hmem, hle, hattained⟩ := foldl_min_spec VmMapPlanEntry.mapStart maxValue entries
  refine ⟨hmem, ?_⟩
  rcases hattained with heq | hattained
  · obtain ⟨e, he⟩ := exists_mem_of_ne_nil entries hne
    exact ⟨e, he, le_antisymm (hmem e he) ((hlt e he).trans heq.ge)⟩
  · exact hattained

/-- The highest planned address is an upper bound, and it is that of a segment. -/
theorem origVmEnd_spec (hne : entries ≠ []) : (∀ e ∈ entries, e.mapEnd ≤ origVmEnd entries) ∧
      ∃ e ∈ entries, origVmEnd entries = e.mapEnd := by
  -- a maximum is a minimum in the opposite order
  obtain ⟨hmem, hle, hattained⟩ :=
    foldl_min_spec (β := ℕᵒᵈ) (fun e : VmMapPlanEntry => OrderDual.toDual e.mapEnd)
      (OrderDual.toDual 0) entries
  change ∀ e ∈ entries, e.mapEnd ≤ origVmEnd entries at hmem
  change origVmEnd entries = 0 ∨ ∃ e ∈ entries, origVmEnd entries = e.mapEnd at hattained
  refine ⟨hmem, ?_⟩
  rcases hattained with heq | hattained
  · obtain ⟨e, he⟩ := exists_mem_of_ne_nil entries hne
    exact ⟨e, he, le_antisymm (heq.le.trans (Nat.zero_le _)) (hmem e he)⟩
  · exact hattained

/-! ### The layout of an activated image -/

/-- The planned segments of an image, moved from `origin` to `base`, are the activated ones. -/
structure Placed (image : List UInt8) (plan : List LoadSegmentPlan) (act : ActivatedInitImage)
    (origin base : ℕ) : Prop where
  segments : act.segments = plan.map fun s => s.vmMapEntry.moved image origin base
  nonempty : plan ≠ []
  planned : ∀ s ∈ plan, s.Planned image
  movable : ∀ s ∈ plan, Movable image origin base s.vmMapEntry
  origin_dvd : 4096 ∣ origin
  base_dvd : 4096 ∣ base

theorem LoadSegmentPlan.Planned.mapStart_dvd (h : s.Planned image) : 4096 ∣ s.mapStart := by
  rw [h.mapStart]
  exact Dvd.intro_left _ rfl

theorem LoadSegmentPlan.Planned.mapEnd_dvd (h : s.Planned image) : 4096 ∣ s.mapEnd := by
  rw [h.mapEnd]
  exact Dvd.intro_left _ rfl

theorem LoadSegmentPlan.Planned.bounds
    (h : s.Planned image) : s.mapStart ≤ s.virtualStart ∧ s.virtualStart < s.mapStart + 4096 ∧
      s.virtualStart ≤ s.virtualEnd ∧ s.virtualEnd ≤ s.mapEnd ∧ s.mapEnd < s.virtualEnd + 4096 ∧
      s.mapEnd < 2 ^ 64 := by
  have hstart := h.mapStart
  have hend := h.mapEnd
  have hvirtual := h.virtualEnd
  have hlt := h.end_lt
  omega

/-- The origin is the lowest planned page, and the load base is a page too. -/
theorem planned_origin {plan : List LoadSegmentPlan}
    (hplanned : ∀ s ∈ plan, s.Planned image) (hne : plan.map LoadSegmentPlan.vmMapEntry ≠ []) :
    IsLeast {x | ∃ s ∈ plan, x = s.mapStart} (origVmStart (plan.map LoadSegmentPlan.vmMapEntry)) ∧
      4096 ∣ origVmStart (plan.map LoadSegmentPlan.vmMapEntry) ∧
      4096 ∣ userLoadBase (plan.map LoadSegmentPlan.vmMapEntry) := by
  have hlt : ∀ e ∈ plan.map LoadSegmentPlan.vmMapEntry, e.mapStart ≤ maxValue := by
    rw [forall_mem_map]
    intro s hs
    have hbounds := (hplanned s hs).bounds
    change s.mapStart ≤ 2 ^ 64 - 1
    omega
  obtain ⟨hlower, e, he, horigin⟩ := origVmStart_spec hne hlt
  obtain ⟨s, hs, rfl⟩ := mem_map.mp he
  have hdvd : 4096 ∣ origVmStart (plan.map LoadSegmentPlan.vmMapEntry) := by
    rw [horigin]
    exact (hplanned s hs).mapStart_dvd
  refine ⟨⟨⟨s, hs, horigin⟩, ?_⟩, hdvd, ?_⟩
  · rintro x ⟨t, ht, rfl⟩
    exact hlower _ (mem_map_of_mem ht)
  · rw [userLoadBase]
    split_ifs
    · exact hdvd
    · decide

/-- **An accepted image is placed.** -/
theorem placed_of_ok (hparse : parseElf64 image = .ok elf) (hplan : buildLoadPlan elf = .ok plan)
    (hact : buildActivation (prepareElf path elf plan) image = .ok act) :
    Placed image plan act (origVmStart (plan.map LoadSegmentPlan.vmMapEntry))
      (userLoadBase (plan.map LoadSegmentPlan.vmMapEntry)) := by
  have hplanned := buildLoadPlan_planned hparse hplan
  obtain ⟨hsegments, hne, hmovable, -⟩ := buildActivation_segments hact
  rw [show (prepareElf path elf plan).vmMapEntries = plan.map LoadSegmentPlan.vmMapEntry from rfl]
    at hsegments hne hmovable
  obtain ⟨-, horigin, hbase⟩ := planned_origin hplanned hne
  refine ⟨?_, ?_, hplanned, fun s hs => hmovable _ (mem_map_of_mem hs), horigin, hbase⟩
  · rw [hsegments, map_map]
    rfl
  · rintro rfl
    exact hne rfl

section Placed

variable {image : List UInt8} {plan : List LoadSegmentPlan} {act : ActivatedInitImage}
  {origin base : ℕ} {s : LoadSegmentPlan}

/-- The pages of a segment are moved with it. -/
theorem LoadSegmentPlan.Planned.moved_mapEnd (h : s.Planned image) (bytes : List UInt8) (base : ℕ)
    (horigin : origin ≤ s.mapStart) :
    (s.vmMapEntry.moved bytes origin base).mapEnd = base + (s.mapEnd - origin) := by
  have hbounds := h.bounds
  have hsize : wrapSub s.mapEnd s.mapStart = s.mapEnd - s.mapStart :=
    wrapSub_of_le (by omega) (by omega)
  change base + (s.mapStart - origin) + wrapSub s.mapEnd s.mapStart = base + (s.mapEnd - origin)
  omega

theorem Placed.moved_mapEnd (h : Placed image plan act origin base) (hs : s ∈ plan) :
    (s.vmMapEntry.moved image origin base).mapEnd = base + (s.mapEnd - origin) :=
  (h.planned s hs).moved_mapEnd image base (h.movable s hs).mapStart_ge

theorem Placed.moved_mapStart_dvd (h : Placed image plan act origin base) (hs : s ∈ plan) :
    4096 ∣ (s.vmMapEntry.moved image origin base).mapStart :=
  h.base_dvd.add (Nat.dvd_sub (h.planned s hs).mapStart_dvd h.origin_dvd)

end Placed

end Hxnu.Exec
