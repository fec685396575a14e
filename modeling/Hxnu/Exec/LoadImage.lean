import Hxnu.Exec.UserSpace

/-!
# The memory of a loaded image

Mapping the segments of an image in ascending order gives the program the memory that its headers
describe. Two neighbouring segments may share a page; the second then goes on in the frame of the
first, because that page is the last one mapped.

The invariant of the loops is the result itself, for the segments mapped so far and for the part of
the current segment below the current page.

## Main definitions

* `ActivatedSegment.upTo`: the part of a segment below a page.
* `Loaded`: memory is as the segments describe it.

## Main results

* `Loaded.mapSegmentPage`: a round adds one page of the current segment.
* `mapSegments_holds_image`: the memory of an accepted image.
-/

namespace Hxnu.Exec

open Word Buffer Fallible Arch Mm.Frame Tables List

variable {x root hhdm : ℕ} {st : MapState} {segments : List ActivatedSegment}

/-! ### What segments describe -/

namespace ActivatedSegment

/-- The part of a segment below `page`. -/
def upTo (s : ActivatedSegment) (page : ℕ) : ActivatedSegment :=
  { s with mapEnd := page, bytes := s.bytes.take (page - s.virtualStart) }

/-- The address lies in a page of the segment. -/
def InPages (s : ActivatedSegment) (x : ℕ) : Prop := s.mapStart ≤ x ∧ x < s.mapEnd

/-- The address holds a file byte of the segment. -/
def InFile (s : ActivatedSegment) (x : ℕ) : Prop :=
  s.virtualStart ≤ x ∧ x < s.virtualStart + s.bytes.length

instance (s : ActivatedSegment) (x : ℕ) : Decidable (s.InFile x) :=
  inferInstanceAs (Decidable (_ ∧ _))

/-- A segment of whole pages of user space, around its file bytes. -/
structure Shape (s : ActivatedSegment) : Prop where
  start_dvd : 4096 ∣ s.mapStart
  end_dvd : 4096 ∣ s.mapEnd
  start_le : s.mapStart ≤ s.virtualStart
  start_lt : s.virtualStart < s.mapStart + 4096
  file_le : s.virtualStart + s.bytes.length ≤ s.mapEnd
  limit : s.mapEnd ≤ userSpaceLimit

/-- The segment `t` ends before `s`, up to a shared page. -/
structure Before (t s : ActivatedSegment) : Prop where
  file : t.virtualStart + t.bytes.length ≤ s.virtualStart
  pages : t.mapEnd ≤ s.mapStart + 4096

theorem upTo_mapEnd {s : ActivatedSegment} (h : s.Shape) : s.upTo s.mapEnd = s := by
  have hbytes : s.bytes.take (s.mapEnd - s.virtualStart) = s.bytes := by
    have hle := h.file_le
    exact take_of_length_le (by omega)
  rw [upTo, hbytes]

end ActivatedSegment

/-- Memory is as the segments describe it, and the last page mapped is the highest one. -/
structure Loaded (hhdm root : ℕ) (segments : List ActivatedSegment) (st : MapState) : Prop where
  backed : PhysicalMemory.Backed hhdm userIndices root st.memory
  mapped : ∀ x < userSpaceLimit, st.memory.translate root x ≠ none ↔ ∃ s ∈ segments, s.InPages x
  file : ∀ s ∈ segments, ∀ x, s.InFile x →
    st.memory.load root x = some (s.bytes.getD (x - s.virtualStart) 0)
  zero : ∀ x < userSpaceLimit, (∀ s ∈ segments, ¬s.InFile x) →
    ∀ b, st.memory.load root x = some b → b = 0
  writable : ∀ x < userSpaceLimit, ∀ e, st.memory.translate root x = some (e, []) →
    (e.testBit 1 = true ↔ ∃ s ∈ segments, s.writable = true ∧ s.InPages x)
  last : ∀ page phys, st.lastMapped = some (page, phys) → 4096 ∣ page ∧ page < userSpaceLimit ∧
    hhdm + phys < 2 ^ 64 ∧
    (∃ e, st.memory.translate root page = some (e, []) ∧ e &&& pageAddressMask = phys) ∧
    ∀ s ∈ segments, ∀ x, s.InPages x → x < page + 4096
  first : st.lastMapped = none → ∀ s ∈ segments, ∀ x, ¬s.InPages x

/-! ### One page -/

theorem indices_eq_iff_page {page : ℕ} (hx : x < userSpaceLimit) (hpage : page < userSpaceLimit) :
    indices x = indices page ↔ x / 4096 = page / 4096 := by
  rw [userSpaceLimit] at hx hpage
  rw [indices_eq_iff, Nat.mod_eq_of_lt (by omega), Nat.mod_eq_of_lt (by omega)]

/-- Addresses in a page have the translation of the page. -/
theorem translate_of_page {m : PhysicalMemory} {page : ℕ} (h : x / 4096 = page / 4096) :
    m.translate root x = m.translate root page := by
  have hindices : indices x = indices page := indices_eq_iff.mpr (by rw [h])
  rw [PhysicalMemory.translate, PhysicalMemory.translate, hindices]

/-- The page has been mapped to the frame `phys`: a new page reads as zeros, and an old one as
before. -/
structure Prepared (hhdm root page phys flags : ℕ) (m m' : PhysicalMemory) : Prop where
  backed : PhysicalMemory.Backed hhdm userIndices root m'
  entry : ∃ e, m'.translate root page = some (e, []) ∧ e &&& pageAddressMask = phys ∧
    (e.testBit 1 = true ↔ flags.testBit 1 = true ∨
      ∃ e₀, m.translate root page = some (e₀, []) ∧ e₀.testBit 1 = true)
  inPage : ∀ x, x / 4096 = page / 4096 →
    (m.translate root page = none → m'.load root x = some 0) ∧
    (m.translate root page ≠ none → m'.load root x = m.load root x)
  others : ∀ x < userSpaceLimit, x / 4096 ≠ page / 4096 →
    m'.translate root x = m.translate root x ∧ m'.load root x = m.load root x

section Page

variable {hhdm root page phys flags : ℕ} {m m₁ m' : PhysicalMemory}

/-- The frame address and the other flags of a leaf do not make it writable. -/
theorem testBit_leaf (hphys : 4096 ∣ phys) :
    (phys ||| pagePresent ||| pageUser ||| flags).testBit 1 = flags.testBit 1 := by
  have hframe : phys.testBit 1 = false := by
    obtain ⟨q, rfl⟩ := hphys
    rw [show 4096 * q = q <<< 12 by rw [Nat.shiftLeft_eq, Nat.mul_comm], Nat.testBit_shiftLeft]
    rfl
  rw [Nat.testBit_or, Nat.testBit_or, Nat.testBit_or, hframe,
    show pagePresent.testBit 1 = false from rfl, show pageUser.testBit 1 = false from rfl,
    Bool.false_or, Bool.false_or, Bool.false_or]

/-- A page that is mapped again keeps its bytes. -/
theorem prepared_again {e : ℕ} (hlimit : page < userSpaceLimit)
    (he : m.translate root page = some (e, [])) (hphys : e &&& pageAddressMask = phys)
    (hbacked : PhysicalMemory.Backed hhdm userIndices root m)
    (h : PhysicalMemory.BackedPage hhdm userIndices root page phys flags m m') :
    Prepared hhdm root page phys flags m m' := by
  obtain ⟨he', hmask⟩ := h.again e he
  refine ⟨h.backed, ⟨_, he', hmask.trans hphys, ?_⟩, ?_, ?_⟩
  · rw [Nat.testBit_or, Bool.or_eq_true, he, or_comm]
    refine or_congr_right ⟨fun hbit => ⟨e, rfl, hbit⟩, ?_⟩
    rintro ⟨e₀, heq, hbit⟩
    cases heq
    exact hbit
  · intro x hx
    refine ⟨fun hnone => absurd hnone (he.trans_ne nofun), fun _ => ?_⟩
    have hframe := (hbacked.frame _ e [] (valid_indices (pageTableIndex_mem_userIndices hlimit)) rfl
      he).2
    have hlt := Nat.mod_lt x (show 4096 > 0 by decide)
    rw [PhysicalMemory.load_of_translate ((translate_of_page hx).trans he'),
      PhysicalMemory.load_of_translate ((translate_of_page hx).trans he), hmask,
      h.extension.byteAt hframe (by omega) (by omega)]
  · intro x hx hne
    exact h.others x (pageTableIndex_mem_userIndices hx)
      fun heq => hne ((indices_eq_iff_page hx hlimit).mp heq)

/-- A page that is mapped to a new frame reads as zeros. -/
theorem prepared_fresh (hlimit : page < userSpaceLimit) (hnone : m.translate root page = none)
    (hsame : ∀ x, pageTableIndex x 39 ∈ userIndices →
      m₁.translate root x = m.translate root x ∧ m₁.load root x = m.load root x)
    (hzero : ∀ y, phys ≤ y → y < phys + 4096 → Words.byteAt m₁.words y = 0)
    (hdata : PhysicalMemory.DataFrame userIndices root m₁ phys)
    (h : PhysicalMemory.BackedPage hhdm userIndices root page phys flags m₁ m') :
    Prepared hhdm root page phys flags m m' := by
  have hindex := pageTableIndex_mem_userIndices hlimit
  obtain ⟨e, he, hentry, hmask⟩ := h.fresh ((hsame page hindex).1.trans hnone)
  refine ⟨h.backed, ⟨e, he, hmask, ?_⟩, ?_, ?_⟩
  · rw [hentry, testBit_leaf hdata.aligned, hnone]
    exact ⟨.inl, fun hor => hor.resolve_right fun ⟨_, heq, _⟩ => nomatch heq⟩
  · intro x hx
    refine ⟨fun _ => ?_, fun hsome => absurd hnone hsome⟩
    have hlt := Nat.mod_lt x (show 4096 > 0 by decide)
    rw [PhysicalMemory.load_of_translate ((translate_of_page hx).trans he), hmask,
      h.extension.byteAt hdata (by omega) (by omega), hzero _ (by omega) (by omega)]
  · intro x hx hne
    have hindex' := pageTableIndex_mem_userIndices hx
    obtain ⟨htranslate, hload⟩ := h.others x hindex'
      fun heq => hne ((indices_eq_iff_page hx hlimit).mp heq)
    exact ⟨htranslate.trans (hsame x hindex').1, hload.trans (hsame x hindex').2⟩

section

variable (h : Prepared hhdm root page phys flags m m') (s : ActivatedSegment) (hdvd : 4096 ∣ page)
    (hlimit : page < userSpaceLimit)

include h s hdvd hlimit

/-- **The file bytes of the page are copied into its frame.** -/
theorem Prepared.copyToFrame : PhysicalMemory.Backed hhdm userIndices root
      (copyToFrame m' s (s.virtualStart + s.bytes.length) page (page + 4096) phys) ∧
    ∀ x < userSpaceLimit,
      (copyToFrame m' s (s.virtualStart + s.bytes.length) page (page + 4096) phys).translate root x =
        m'.translate root x ∧
      (copyToFrame m' s (s.virtualStart + s.bytes.length) page (page + 4096) phys).load root x =
        if x / 4096 = page / 4096 ∧ s.InFile x then some (s.bytes.getD (x - s.virtualStart) 0)
        else m'.load root x := by
  obtain ⟨e, he, hmask, -⟩ := h.entry
  rw [Exec.copyToFrame]
  split_ifs with hcopy
  · have hlength : (slice s.bytes (max page s.virtualStart - s.virtualStart)
        (min (page + 4096) (s.virtualStart + s.bytes.length) - max page s.virtualStart)).length =
        min (page + 4096) (s.virtualStart + s.bytes.length) - max page s.virtualStart :=
      length_slice (by omega)
    obtain ⟨hbacked, hbytes⟩ := h.backed.writeBytes (a := phys + (max page s.virtualStart - page))
      (pageTableIndex_mem_userIndices hlimit) (slice s.bytes _ _) he hmask (Nat.le_add_right _ _)
      (by rw [hlength]; omega)
    refine ⟨hbacked, fun x hx => ⟨(hbytes x (pageTableIndex_mem_userIndices hx)).1, ?_⟩⟩
    rw [(hbytes x (pageTableIndex_mem_userIndices hx)).2, hlength]
    have hiff : (indices x = indices page ∧ phys + (max page s.virtualStart - page) ≤
          phys + x % 4096 ∧ phys + x % 4096 < phys + (max page s.virtualStart - page) +
          (min (page + 4096) (s.virtualStart + s.bytes.length) - max page s.virtualStart)) ↔
        x / 4096 = page / 4096 ∧ s.InFile x := by
      rw [indices_eq_iff_page hx hlimit, ActivatedSegment.InFile]
      omega
    by_cases hin : x / 4096 = page / 4096 ∧ s.InFile x
    · obtain ⟨hpage, hlow, hhigh⟩ := hin
      rw [if_pos (hiff.mpr ⟨hpage, hlow, hhigh⟩), if_pos ⟨hpage, hlow, hhigh⟩,
        getD_slice (by omega), show max page s.virtualStart - s.virtualStart +
          (phys + x % 4096 - (phys + (max page s.virtualStart - page))) = x - s.virtualStart by omega]
    · rw [if_neg (mt hiff.mp hin), if_neg hin]
  · refine ⟨h.backed, fun x hx => ⟨rfl, ?_⟩⟩
    rw [if_neg]
    rintro ⟨hpage, hlow, hhigh⟩
    omega

/-- What a round does to user memory: the page gets an entry, its file bytes are read, and the other
bytes of the page are as they were, or zero in a new page. -/
structure Round (hhdm root page phys flags : ℕ) (s : ActivatedSegment) (m m' : PhysicalMemory) :
    Prop where
  backed : PhysicalMemory.Backed hhdm userIndices root m'
  entry : ∃ e, e &&& pageAddressMask = phys ∧
    (e.testBit 1 = true ↔ flags.testBit 1 = true ∨
      ∃ e₀, m.translate root page = some (e₀, []) ∧ e₀.testBit 1 = true) ∧
    ∀ x < userSpaceLimit, x / 4096 = page / 4096 → m'.translate root x = some (e, [])
  file : ∀ x < userSpaceLimit, x / 4096 = page / 4096 → s.InFile x →
    m'.load root x = some (s.bytes.getD (x - s.virtualStart) 0)
  fresh : ∀ x < userSpaceLimit, x / 4096 = page / 4096 → ¬s.InFile x →
    m.translate root page = none → m'.load root x = some 0
  kept : ∀ x < userSpaceLimit, x / 4096 = page / 4096 → ¬s.InFile x →
    m.translate root page ≠ none → m'.load root x = m.load root x
  others : ∀ x < userSpaceLimit, x / 4096 ≠ page / 4096 →
    m'.translate root x = m.translate root x ∧ m'.load root x = m.load root x

theorem Prepared.round : Round hhdm root page phys flags s m
      (Exec.copyToFrame m' s (s.virtualStart + s.bytes.length) page (page + 4096) phys) := by
  obtain ⟨hbacked, hread⟩ := h.copyToFrame s hdvd hlimit
  obtain ⟨e, he, hmask, hbit⟩ := h.entry
  refine ⟨hbacked, ⟨e, hmask, hbit, ?_⟩, ?_, ?_, ?_, ?_⟩
  · intro x hx hpage
    rw [(hread x hx).1, translate_of_page hpage, he]
  · intro x hx hpage hfile
    rw [(hread x hx).2, if_pos ⟨hpage, hfile⟩]
  · intro x hx hpage hfile hnone
    rw [(hread x hx).2, if_neg fun hin => hfile hin.2, (h.inPage x hpage).1 hnone]
  · intro x hx hpage hfile hsome
    rw [(hread x hx).2, if_neg fun hin => hfile hin.2, (h.inPage x hpage).2 hsome]
  · intro x hx hpage
    rw [(hread x hx).1, (hread x hx).2, if_neg fun hin => hpage hin.1]
    exact h.others x hx hpage

end

/-- The end of a round, once the frame is chosen. -/
theorem mapSegmentPage_of_frame (hframe : segmentFrame st hhdm page = (.ok phys, st₁))
    (hphys : hhdm + phys < 2 ^ 64) (haligned : 4096 ∣ phys) (htop : phys + 4096 ≤ physicalTop)
    (hdvd : 4096 ∣ page) (hlimit : page < userSpaceLimit) :
    mapSegmentPage root hhdm flags s fileEnd page st =
      match st₁.memory.mapUserPage root hhdm page phys flags with
      | (.error _, memory) => (.error .invalidSegmentMap, { st₁ with memory })
      | (.ok (), memory) => (.ok (page + 4096),
          { st₁ with memory := copyToFrame memory s fileEnd page (page + 4096) phys }) := by
  rw [userSpaceLimit] at hlimit
  rw [physicalTop] at htop
  have hnext : checkedAdd page pageSize = some (page + 4096) :=
    checkedAdd_eq_some.mpr ⟨show page + 4096 < 2 ^ 64 by omega, rfl⟩
  rw [mapSegmentPage, hframe]
  simp only
  rw [PhysicalMemory.mapUserRegion_page hdvd haligned (show pageSize ≤ 4096 from le_rfl) (by omega)
    (by omega)]
  rcases st₁.memory.mapUserPage root hhdm page phys flags with ⟨r, memory⟩
  cases r with
  | error e => rfl
  | ok u =>
    simp only
    rw [checkedAdd_eq_some.mpr ⟨hphys, rfl⟩, hnext]

/-- **A round either maps the page and copies its file bytes, or finds no frame left.** -/
theorem Loaded.prepare (h : Loaded hhdm root segments st) (hroot : hhdm + root < 2 ^ 64)
    (hflags : flags &&& pageAddressMask = 0) (hdvd : 4096 ∣ page) (hlimit : page < userSpaceLimit)
    (hnew : (∀ phys, st.lastMapped ≠ some (page, phys)) → st.memory.translate root page = none)
    (s : ActivatedSegment) (fileEnd : ℕ) :
    (∃ e st', mapSegmentPage root hhdm flags s fileEnd page st = (.error e, st') ∧
      st'.memory.frames.allocate = (none, st'.memory.frames)) ∨
    ∃ phys m', Prepared hhdm root page phys flags st.memory m' ∧ hhdm + phys < 2 ^ 64 ∧
      mapSegmentPage root hhdm flags s fileEnd page st = (.ok (page + 4096),
        ⟨copyToFrame m' s fileEnd page (page + 4096) phys, some (page, phys)⟩) := by
  have hindex := pageTableIndex_mem_userIndices hlimit
  have hspec := segmentFrame_spec h.backed.sound hhdm page
  rcases hframe : segmentFrame st hhdm page with ⟨r, st₁⟩
  rw [hframe] at hspec
  change SegmentFrame st hhdm page r st₁ at hspec
  cases hspec with
  | exhausted hnone =>
    refine .inl ⟨.invalidSegmentMap, st, ?_, hnone⟩
    rw [mapSegmentPage, hframe]
  | overflow hf hover =>
    have := h.backed.free _ (hf.taken _ le_rfl (by omega))
    omega
  | @reused phys hlast =>
    obtain ⟨-, -, hphys, ⟨e, he, hmask⟩, -⟩ := h.last page phys hlast
    have hdata := (h.backed.frame _ e [] (valid_indices hindex) rfl he).2
    rw [hmask] at hdata
    rw [mapSegmentPage_of_frame hframe hphys hdata.aligned hdata.le_top hdvd hlimit]
    have hpage : st.memory.translate root page = none →
        PhysicalMemory.DataFrame userIndices root st.memory phys ∧
          PhysicalMemory.Loose userIndices root st.memory phys :=
      fun hnone => absurd (he.symm.trans hnone) (by simp)
    rcases h.backed.mapUserPage_cases hroot hindex hflags hpage with
      ⟨e', m', hresult, hnone⟩ | ⟨m', hresult, hmapped⟩
    · rw [hresult]
      exact .inl ⟨_, _, rfl, hnone⟩
    · refine .inr ⟨phys, m', prepared_again hlimit he hmask h.backed hmapped, hphys, ?_⟩
      rw [hresult, ← hlast]
  | @fresh phys frames hf hlast =>
    have hnone := hnew hlast
    obtain ⟨hbacked, hdata, hloose, hsame, hzero⟩ := h.backed.newFrame hf
    have hphys := h.backed.free phys (hf.taken phys le_rfl (by omega))
    rw [mapSegmentPage_of_frame hframe hphys hf.aligned hf.le_top hdvd hlimit]
    rcases hbacked.mapUserPage_cases hroot hindex hflags fun _ => ⟨hdata, hloose⟩ with
      ⟨e', m', hresult, hnone'⟩ | ⟨m', hresult, hmapped⟩
    · rw [hresult]
      exact .inl ⟨_, _, rfl, hnone'⟩
    · rw [hresult]
      exact .inr ⟨phys, m', prepared_fresh hlimit hnone hsame hzero hdata hmapped, hphys, rfl⟩

end Page

/-! ### One segment -/

section Segment

variable {hhdm root page phys : ℕ} {s : ActivatedSegment} {done : List ActivatedSegment}
  {st : MapState}

theorem flags_and_mask (s : ActivatedSegment) : s.flags &&& pageAddressMask = 0 := by
  rw [ActivatedSegment.flags]
  split_ifs <;> rfl

theorem testBit_flags (s : ActivatedSegment) : s.flags.testBit 1 = s.writable := by
  rw [ActivatedSegment.flags]
  cases s.writable <;> rfl

/-- A page that is not the last one mapped has not been mapped. -/
theorem Loaded.translate_eq_none (h : Loaded hhdm root (done ++ [s.upTo page]) st)
    (hdvd : 4096 ∣ page) (hlow : s.mapStart ≤ page) (hlimit : page < userSpaceLimit)
    (hbefore : ∀ t ∈ done, t.Before s) (hnew : ∀ phys, st.lastMapped ≠ some (page, phys)) :
    st.memory.translate root page = none := by
  by_contra hsome
  obtain ⟨t, ht, hin⟩ := (h.mapped page hlimit).mp hsome
  cases hlast : st.lastMapped with
  | none => exact h.first hlast t ht page hin
  | some p =>
    obtain ⟨last, phys⟩ := p
    obtain ⟨hdvd', hlimit', -, ⟨e, he, -⟩, hmax⟩ := h.last last phys hlast
    have hupper := hmax t ht page hin
    obtain ⟨t', ht', hin'⟩ := (h.mapped last hlimit').mp (he.trans_ne nofun)
    -- the last page is not above the current one, since it belongs to a segment mapped before
    have hlower : last < page + 4096 := by
      rcases mem_append.mp ht' with hmem | hmem
      · have hpages := (hbefore t' hmem).pages
        have hlt := hin'.2
        omega
      · rw [mem_singleton.mp hmem] at hin'
        have hlt : last < page := hin'.2
        omega
    have heq : last = page := by omega
    exact hnew phys (by rw [hlast, heq])

theorem mem_upTo_iff {P : ActivatedSegment → Prop} {t : ActivatedSegment} :
    (∃ u ∈ done ++ [t], P u) ↔ (∃ u ∈ done, P u) ∨ P t := by
  constructor
  · rintro ⟨u, hu, hP⟩
    rcases mem_append.mp hu with hu | hu
    · exact .inl ⟨u, hu, hP⟩
    · exact .inr (mem_singleton.mp hu ▸ hP)
  · rintro (⟨u, hu, hP⟩ | hP)
    · exact ⟨u, mem_append_left _ hu, hP⟩
    · exact ⟨t, mem_append_right _ (mem_singleton_self t), hP⟩

/-- The file bytes below a page, in the segment and in its part. -/
theorem inFile_upTo : (s.upTo page).InFile x ↔ s.InFile x ∧ x < page := by
  rw [ActivatedSegment.InFile, ActivatedSegment.InFile, ActivatedSegment.upTo, length_take]
  simp only
  omega

theorem getD_upTo (hlow : s.virtualStart ≤ x) (hx : x < page) :
    (s.upTo page).bytes.getD (x - s.virtualStart) 0 = s.bytes.getD (x - s.virtualStart) 0 := by
  rw [ActivatedSegment.upTo, getD_eq_getElem?_getD, getD_eq_getElem?_getD,
    List.getElem?_take_of_lt (by omega)]

theorem load_eq_none_of_translate {m : PhysicalMemory} (h : m.load root x ≠ none) :
    m.translate root x ≠ none :=
  fun hnone => h (PhysicalMemory.load_of_none hnone)

/-- **A round adds one page of the segment.** -/
theorem Loaded.round (h : Loaded hhdm root (done ++ [s.upTo page]) st) (hs : s.Shape)
    (hdvd : 4096 ∣ page) (hlow : s.mapStart ≤ page) (hhigh : page < s.mapEnd)
    (hbefore : ∀ t ∈ done, t.Before s) (hphys : hhdm + phys < 2 ^ 64) {m' : PhysicalMemory}
    (hround : Round hhdm root page phys s.flags s st.memory m') :
    Loaded hhdm root (done ++ [s.upTo (page + 4096)]) ⟨m', some (page, phys)⟩ := by
  have hlimit : page < userSpaceLimit := hhigh.trans_le hs.limit
  obtain ⟨e, hmask, hbit, hentry⟩ := hround.entry
  have hstart := hs.start_lt
  have hmapEnd := hs.limit
  have hfileEnd := hs.file_le
  refine ⟨hround.backed, ?_, ?_, ?_, ?_, ?_, nofun⟩
  · intro x hx
    rw [mem_upTo_iff]
    by_cases hpage : x / 4096 = page / 4096
    · refine ⟨fun _ => .inr ⟨show s.mapStart ≤ x by omega, show x < page + 4096 by omega⟩, fun _ => ?_⟩
      rw [hentry x hx hpage]
      exact nofun
    · rw [(hround.others x hx hpage).1, h.mapped x hx, mem_upTo_iff]
      refine or_congr_right (and_congr_right fun _ => ?_)
      change x < page ↔ x < page + 4096
      omega
  · intro u hu x hin
    rcases mem_append.mp hu with hu | hu
    · -- a byte of an earlier segment lies below this one
      have hold := h.file u (mem_append_left _ hu) x hin
      have hfile := (hbefore u hu).file
      have hx : x < s.virtualStart := hin.2.trans_le hfile
      have hout : ¬s.InFile x := fun hin' => absurd hin'.1 (by omega)
      by_cases hpage : x / 4096 = page / 4096
      · rw [hround.kept x (by omega) hpage hout, hold]
        rw [← translate_of_page hpage]
        exact load_eq_none_of_translate (hold.trans_ne nofun)
      · rw [(hround.others x (by omega) hpage).2, hold]
    · rw [mem_singleton.mp hu] at hin ⊢
      obtain ⟨hin', hx⟩ := inFile_upTo.mp hin
      change m'.load root x = some ((s.upTo (page + 4096)).bytes.getD (x - s.virtualStart) 0)
      rw [getD_upTo hin'.1 hx]
      have hbelow := hin'.2
      by_cases hpage : x / 4096 = page / 4096
      · exact hround.file x (by omega) hpage hin'
      · have hx' : x < page := by omega
        have hold := h.file _ (mem_append_right _ (mem_singleton_self _)) x
          (inFile_upTo.mpr ⟨hin', hx'⟩)
        change st.memory.load root x = some ((s.upTo page).bytes.getD (x - s.virtualStart) 0) at hold
        rw [(hround.others x (by omega) hpage).2, hold, getD_upTo hin'.1 hx']
  · intro x hx hout b hb
    have hout' : ¬(s.InFile x ∧ x < page + 4096) := fun hin =>
      hout _ (mem_append_right _ (mem_singleton_self _)) (inFile_upTo.mpr hin)
    have hold : ∀ u ∈ done ++ [s.upTo page], ¬u.InFile x := by
      intro u hu hin
      rcases mem_append.mp hu with hu | hu
      · exact hout u (mem_append_left _ hu) hin
      · rw [mem_singleton.mp hu] at hin
        obtain ⟨hin', hx'⟩ := inFile_upTo.mp hin
        exact hout' ⟨hin', by omega⟩
    by_cases hpage : x / 4096 = page / 4096
    · have hfile : ¬s.InFile x := fun hin => hout' ⟨hin, by omega⟩
      by_cases hnone : st.memory.translate root page = none
      · rw [hround.fresh x hx hpage hfile hnone] at hb
        exact (Option.some.inj hb).symm
      · rw [hround.kept x hx hpage hfile hnone] at hb
        exact h.zero x hx hold b hb
    · rw [(hround.others x hx hpage).2] at hb
      exact h.zero x hx hold b hb
  · intro x hx e' he'
    rw [mem_upTo_iff (P := fun u => u.writable = true ∧ u.InPages x)]
    by_cases hpage : x / 4096 = page / 4096
    · have hin : (s.upTo (page + 4096)).InPages x :=
        ⟨show s.mapStart ≤ x by omega, show x < page + 4096 by omega⟩
      have hout : ¬(s.upTo page).InPages x := fun hin' => absurd (show x < page from hin'.2) (by omega)
      rw [hentry x hx hpage] at he'
      cases he'
      rw [hbit, testBit_flags, or_comm, ← translate_of_page hpage]
      refine or_congr ?_ ⟨fun hw => ⟨hw, hin⟩, fun hw => hw.1⟩
      constructor
      · rintro ⟨e₀, he₀, hbit₀⟩
        have hmem := (h.writable x hx e₀ he₀).mp hbit₀
        rw [mem_upTo_iff (P := fun u => u.writable = true ∧ u.InPages x)] at hmem
        exact hmem.resolve_right fun hand => hout hand.2
      · rintro ⟨u, hu, hw, hin'⟩
        have hsome := (h.mapped x hx).mpr ⟨u, mem_append_left _ hu, hin'⟩
        obtain ⟨⟨e₀, rest⟩, he₀⟩ := Option.ne_none_iff_exists'.mp hsome
        obtain ⟨rfl, -⟩ := h.backed.frame _ e₀ rest
          (valid_indices (pageTableIndex_mem_userIndices hx)) rfl he₀
        exact ⟨e₀, he₀, (h.writable x hx e₀ he₀).mpr ⟨u, mem_append_left _ hu, hw, hin'⟩⟩
    · rw [(hround.others x hx hpage).1] at he'
      rw [h.writable x hx e' he', mem_upTo_iff (P := fun u => u.writable = true ∧ u.InPages x)]
      refine or_congr_right (and_congr_right fun _ => and_congr_right fun _ => ?_)
      change x < page ↔ x < page + 4096
      omega
  · rintro page' phys' heq
    cases heq
    refine ⟨hdvd, hlimit, hphys, ⟨e, hentry page hlimit rfl, hmask⟩, ?_⟩
    intro u hu x hin
    rcases mem_append.mp hu with hu | hu
    · have hpages := (hbefore u hu).pages
      have hlt := hin.2
      omega
    · rw [mem_singleton.mp hu] at hin
      exact hin.2

/-- Before its first page, a segment adds nothing. -/
theorem Loaded.begin (h : Loaded hhdm root done st) (hs : s.Shape) :
    Loaded hhdm root (done ++ [s.upTo s.mapStart]) st := by
  have hpages (x : ℕ) : ¬(s.upTo s.mapStart).InPages x := fun hin => absurd hin.1 (not_le.mpr hin.2)
  have hfile (x : ℕ) : ¬(s.upTo s.mapStart).InFile x := by
    intro hin
    have hstart := hs.start_le
    obtain ⟨⟨hlow, -⟩, hlt⟩ := inFile_upTo.mp hin
    omega
  refine ⟨h.backed, ?_, ?_, ?_, ?_, ?_, ?_⟩
  · intro x hx
    rw [h.mapped x hx, mem_upTo_iff, or_iff_left (hpages x)]
  · intro u hu x hin
    rcases mem_append.mp hu with hu | hu
    · exact h.file u hu x hin
    · exact absurd (mem_singleton.mp hu ▸ hin) (hfile x)
  · intro x hx hout
    exact h.zero x hx fun u hu => hout u (mem_append_left _ hu)
  · intro x hx e he
    rw [h.writable x hx e he, mem_upTo_iff (P := fun u => u.writable = true ∧ u.InPages x),
      or_iff_left fun hand => hpages x hand.2]
  · intro page phys hlast
    obtain ⟨hdvd, hlimit, hphys, hentry, hmax⟩ := h.last page phys hlast
    refine ⟨hdvd, hlimit, hphys, hentry, ?_⟩
    intro u hu x hin
    rcases mem_append.mp hu with hu | hu
    · exact hmax u hu x hin
    · exact absurd (mem_singleton.mp hu ▸ hin) (hpages x)
  · intro hlast u hu x hin
    rcases mem_append.mp hu with hu | hu
    · exact h.first hlast u hu x hin
    · exact absurd (mem_singleton.mp hu ▸ hin) (hpages x)

/-- **A segment is mapped**, or no frame is left. -/
theorem Loaded.mapSegmentPages (h : Loaded hhdm root done st) (hs : s.Shape)
    (hroot : hhdm + root < 2 ^ 64) (hbefore : ∀ t ∈ done, t.Before s) :
    ((mapSegmentPages root hhdm s.flags s st).1 = .ok () →
      Loaded hhdm root (done ++ [s]) (mapSegmentPages root hhdm s.flags s st).2) ∧
    ∀ e, (Exec.mapSegmentPages root hhdm s.flags s st).1 = .error e →
      (Exec.mapSegmentPages root hhdm s.flags s st).2.memory.frames.allocate.1 = none := by
  have hstart := hs.start_le
  have hfile := hs.file_le
  have hlimit := hs.limit
  have hdvdEnd := hs.end_dvd
  rw [userSpaceLimit] at hlimit
  rw [Exec.mapSegmentPages, checkedAdd_eq_some.mpr ⟨by omega, rfl⟩]
  have hrule := mapSegmentLoop_rule root hhdm s.flags s (s.virtualStart + s.bytes.length)
    (P := fun page st => 4096 ∣ page ∧ s.mapStart ≤ page ∧ page ≤ s.mapEnd ∧
      Loaded hhdm root (done ++ [s.upTo page]) st)
    (Q := fun st => st.memory.frames.allocate.1 = none) ?_
    ⟨hs.start_dvd, le_rfl, by omega, h.begin hs⟩
  · refine ⟨fun hok => ?_, hrule.2⟩
    obtain ⟨last, hlast, -, -, hle, hloaded⟩ := hrule.1 hok
    rw [le_antisymm hle hlast, ActivatedSegment.upTo_mapEnd hs] at hloaded
    exact hloaded
  · rintro page st hlt ⟨hdvd, hlow, -, hloaded⟩
    rcases hloaded.prepare hroot (flags_and_mask s) hdvd (hlt.trans_le hs.limit)
      (hloaded.translate_eq_none hdvd hlow (hlt.trans_le hs.limit) hbefore) s
      (s.virtualStart + s.bytes.length) with
      ⟨e, st', hround, hnone⟩ | ⟨phys, m', hprepared, hphys, hround⟩
    · rw [hround]
      exact ⟨by simp, fun _ _ => by rw [hnone]⟩
    · rw [hround]
      refine ⟨?_, by simp⟩
      rintro next ⟨⟩
      exact ⟨hdvd.add (dvd_refl 4096), by omega, by omega, hloaded.round hs hdvd hlow hlt hbefore hphys
        (hprepared.round s hdvd (hlt.trans_le hs.limit))⟩

/-- **All segments are mapped**, or no frame is left. -/
theorem Loaded.mapSegments (h : Loaded hhdm root [] st)
    (hroot : hhdm + root < 2 ^ 64) (hshape : ∀ s ∈ segments, s.Shape)
    (hbefore : segments.Pairwise ActivatedSegment.Before) :
    ((mapSegments root hhdm segments st).1 = .ok () →
      Loaded hhdm root segments (mapSegments root hhdm segments st).2) ∧
    ∀ e, (Exec.mapSegments root hhdm segments st).1 = .error e →
      (Exec.mapSegments root hhdm segments st).2.memory.frames.allocate.1 = none := by
  refine mapSegments_rule root hhdm (P := Loaded hhdm root)
    (Q := fun st => st.memory.frames.allocate.1 = none) ?_ h
  intro done s rest st hsplit hdone
  rw [nil_append] at hsplit
  rw [hsplit, pairwise_append] at hbefore
  exact hdone.mapSegmentPages (hshape s (by rw [hsplit]; simp)) hroot
    fun t ht => hbefore.2.2 t ht s mem_cons_self

end Segment

/-! ### The image -/

/-- The user address of a planned address. -/
def place (plan : List LoadSegmentPlan) (x : ℕ) : ℕ :=
  userLoadBase (plan.map LoadSegmentPlan.vmMapEntry) +
    (x - origVmStart (plan.map LoadSegmentPlan.vmMapEntry))

section Image

variable {image : List UInt8} {plan : List LoadSegmentPlan} {act : ActivatedInitImage}
  {origin base : ℕ} {s t : LoadSegmentPlan}

section

variable (h : Placed image plan act origin base) (hs : s ∈ plan)

include h hs

theorem Placed.length_bytes : (s.vmMapEntry.moved image origin base).bytes.length = s.fileBytes :=
  length_slice (h.movable s hs).in_bytes

/-- Moved segments that end in user space are whole pages of it. -/
theorem Placed.shape (hlimit : base + (s.virtualEnd - origin) ≤ userSpaceLimit) :
    (s.vmMapEntry.moved image origin base).Shape := by
  have hplanned := h.planned s hs
  have hbounds := hplanned.bounds
  have horigin : origin ≤ s.mapStart := (h.movable s hs).mapStart_ge
  have hsize := hplanned.size_le
  have hvirtual := hplanned.virtualEnd
  have hdvd := hplanned.mapEnd_dvd
  have horigin_dvd := h.origin_dvd
  have hbase_dvd := h.base_dvd
  have hlength := h.length_bytes hs
  have hmapEnd := h.moved_mapEnd hs
  refine ⟨h.moved_mapStart_dvd hs, ?_, ?_, ?_, ?_, ?_⟩
  · rw [hmapEnd]
    omega
  · change base + (s.mapStart - origin) ≤ base + (s.virtualStart - origin)
    omega
  · change base + (s.virtualStart - origin) < base + (s.mapStart - origin) + 4096
    omega
  · rw [hlength, hmapEnd]
    change base + (s.virtualStart - origin) + s.fileBytes ≤ _
    omega
  · rw [hmapEnd]
    rw [userSpaceLimit] at hlimit ⊢
    omega

theorem Placed.before (ht : t ∈ plan) (hle : s.virtualEnd ≤ t.virtualStart) :
    (s.vmMapEntry.moved image origin base).Before (t.vmMapEntry.moved image origin base) := by
  have hbounds := (h.planned s hs).bounds
  have hbounds' := (h.planned t ht).bounds
  have hsize := (h.planned s hs).size_le
  have hvirtual := (h.planned s hs).virtualEnd
  have hdvd := (h.planned s hs).mapEnd_dvd
  have hdvd' := (h.planned t ht).mapStart_dvd
  have horigin : origin ≤ s.mapStart := (h.movable s hs).mapStart_ge
  have horigin' : origin ≤ t.mapStart := (h.movable t ht).mapStart_ge
  refine ⟨?_, ?_⟩
  · rw [h.length_bytes hs]
    change base + (s.virtualStart - origin) + s.fileBytes ≤ base + (t.virtualStart - origin)
    omega
  · rw [h.moved_mapEnd hs]
    change base + (s.mapEnd - origin) ≤ base + (t.mapStart - origin) + 4096
    omega

end

/-- The memory that the plan of an image describes: a segment holds its file bytes, followed by zeros;
every other mapped byte is zero; the mapped pages are those of the segments; and a page is writable
exactly when some segment with this page is. -/
structure HoldsImage (image : List UInt8) (plan : List LoadSegmentPlan) (root : ℕ)
    (m : PhysicalMemory) : Prop where
  file : ∀ s ∈ plan, ∀ k < s.fileBytes, ∃ b, image[s.fileOffset + k]? = some b ∧
    m.load root (place plan s.virtualStart + k) = some b
  zeroFill : ∀ s ∈ plan, ∀ k, s.fileBytes ≤ k → k < s.memoryBytes →
    m.load root (place plan s.virtualStart + k) = some 0
  outside : ∀ x < userSpaceLimit, ∀ b, m.load root x = some b →
    (∀ s ∈ plan, ¬(place plan s.virtualStart ≤ x ∧ x < place plan s.virtualEnd)) → b = 0
  pages : ∀ x < userSpaceLimit, m.load root x ≠ none ↔
    ∃ s ∈ plan, place plan s.mapStart ≤ x ∧ x < place plan s.mapEnd
  writable : ∀ x < userSpaceLimit, m.Writable root x ↔ ∃ s ∈ plan, s.permissions.write = true ∧
    place plan s.mapStart ≤ x ∧ x < place plan s.mapEnd

/-- A mapped page of user space can be read. -/
theorem Loaded.load_ne_none (h : Loaded hhdm root segments st) (hx : x < userSpaceLimit) :
    st.memory.load root x ≠ none ↔ ∃ s ∈ segments, s.InPages x := by
  rw [← h.mapped x hx]
  refine ⟨load_eq_none_of_translate, fun hsome => ?_⟩
  obtain ⟨⟨e, rest⟩, he⟩ := Option.ne_none_iff_exists'.mp hsome
  obtain ⟨rfl, -⟩ := h.backed.frame _ e rest
    (valid_indices (pageTableIndex_mem_userIndices hx)) rfl he
  rw [PhysicalMemory.load_of_translate he]
  exact nofun

theorem Loaded.writable_iff (h : Loaded hhdm root segments st) (hx : x < userSpaceLimit) :
    st.memory.Writable root x ↔ ∃ s ∈ segments, s.writable = true ∧ s.InPages x := by
  have hindex := pageTableIndex_mem_userIndices hx
  cases htranslate : st.memory.translate root x with
  | none =>
    refine ⟨fun hw => absurd htranslate hw.1, ?_⟩
    rintro ⟨s, hs, -, hin⟩
    exact absurd htranslate ((h.mapped x hx).mpr ⟨s, hs, hin⟩)
  | some p =>
    obtain ⟨e, rest⟩ := p
    obtain ⟨rfl, -⟩ := h.backed.frame _ e rest (valid_indices hindex) rfl htranslate
    rw [h.backed.writable_iff hindex htranslate, PhysicalMemory.and_pageWritable_ne_zero,
      h.writable x hx e htranslate]

/-- **Loaded segments of a placed image hold the image.** -/
theorem Loaded.holdsImage
    (hplaced : Placed image plan act (origVmStart (plan.map LoadSegmentPlan.vmMapEntry))
      (userLoadBase (plan.map LoadSegmentPlan.vmMapEntry)))
    (horder : plan.Pairwise fun s t => s.virtualEnd ≤ t.virtualStart)
    (hlimit : ∀ s ∈ plan, place plan s.virtualEnd ≤ userSpaceLimit)
    (h : Loaded hhdm root act.segments st) : HoldsImage image plan root st.memory := by
  have hmem {P : ActivatedSegment → Prop} : (∃ u ∈ act.segments, P u) ↔ ∃ s ∈ plan,
      P (s.vmMapEntry.moved image (origVmStart (plan.map LoadSegmentPlan.vmMapEntry))
        (userLoadBase (plan.map LoadSegmentPlan.vmMapEntry))) := by
    rw [hplaced.segments]
    simp only [mem_map, exists_exists_and_eq_and]
  have hpages (s : LoadSegmentPlan) (hs : s ∈ plan) (x : ℕ) :
      (s.vmMapEntry.moved image (origVmStart (plan.map LoadSegmentPlan.vmMapEntry))
        (userLoadBase (plan.map LoadSegmentPlan.vmMapEntry))).InPages x ↔
      place plan s.mapStart ≤ x ∧ x < place plan s.mapEnd := by
    rw [ActivatedSegment.InPages, hplaced.moved_mapEnd hs]
    rfl
  have hfile (s : LoadSegmentPlan) (hs : s ∈ plan) (x : ℕ) :
      (s.vmMapEntry.moved image (origVmStart (plan.map LoadSegmentPlan.vmMapEntry))
        (userLoadBase (plan.map LoadSegmentPlan.vmMapEntry))).InFile x ↔
      place plan s.virtualStart ≤ x ∧ x < place plan s.virtualStart + s.fileBytes := by
    rw [ActivatedSegment.InFile, hplaced.length_bytes hs]
    rfl
  have hmove (s : LoadSegmentPlan) (hs : s ∈ plan) (x : ℕ) (hx : s.virtualStart ≤ x) :
      place plan x = place plan s.virtualStart + (x - s.virtualStart) := by
    have horigin := (hplaced.movable s hs).virtualStart_ge
    change _ ≤ s.virtualStart at horigin
    rw [place, place]
    omega
  have hend (s : LoadSegmentPlan) (hs : s ∈ plan) :
      place plan s.virtualEnd = place plan s.virtualStart + s.memoryBytes := by
    have hvirtual := (hplaced.planned s hs).virtualEnd
    rw [hmove s hs _ (by omega)]
    omega
  have hsegment (s : LoadSegmentPlan) (hs : s ∈ plan) : s.vmMapEntry.moved image
      (origVmStart (plan.map LoadSegmentPlan.vmMapEntry))
      (userLoadBase (plan.map LoadSegmentPlan.vmMapEntry)) ∈ act.segments := by
    rw [hplaced.segments]
    exact mem_map_of_mem hs
  have hout (x : ℕ) (hx : ∀ s ∈ plan,
      ¬(place plan s.virtualStart ≤ x ∧ x < place plan s.virtualStart + s.fileBytes)) :
      ∀ u ∈ act.segments, ¬u.InFile x := by
    rw [hplaced.segments, forall_mem_map]
    exact fun s hs hin => hx s hs ((hfile s hs x).mp hin)
  have hapart : ∀ s ∈ plan, ∀ t ∈ plan, s ≠ t →
      s.virtualEnd ≤ t.virtualStart ∨ t.virtualEnd ≤ s.virtualStart := by
    let Apart (s t : LoadSegmentPlan) : Prop :=
      s.virtualEnd ≤ t.virtualStart ∨ t.virtualEnd ≤ s.virtualStart
    have hsymm : Std.Symm Apart := ⟨fun _ _ => Or.symm⟩
    have hpairwise : plan.Pairwise Apart := horder.imp fun hle => Or.inl hle
    exact fun s hs t ht => hpairwise.forall hs ht
  refine ⟨?_, ?_, ?_, ?_, ?_⟩
  · intro s hs k hk
    have hin := (hplaced.movable s hs).in_bytes
    change s.fileOffset + s.fileBytes ≤ image.length at hin
    have hload := h.file _ (hsegment s hs) (place plan s.virtualStart + k)
      ((hfile s hs _).mpr ⟨by omega, by omega⟩)
    change _ = some ((slice image s.fileOffset s.fileBytes).getD
      (place plan s.virtualStart + k - place plan s.virtualStart) 0) at hload
    rw [Nat.add_sub_cancel_left, getD_slice hk, getD_eq_getElem _ _ (by omega)] at hload
    exact ⟨_, List.getElem?_eq_getElem (by omega), hload⟩
  · intro s hs k hlow hhigh
    have hbounds := (hplaced.planned s hs).bounds
    have hvirtual := (hplaced.planned s hs).virtualEnd
    have hx : place plan s.virtualStart + k < userSpaceLimit := by
      have hle := hlimit s hs
      rw [hend s hs] at hle
      omega
    have hin : place plan s.mapStart ≤ place plan s.virtualStart + k ∧
        place plan s.virtualStart + k < place plan s.mapEnd := by
      have horigin := (hplaced.movable s hs).mapStart_ge
      change _ ≤ s.mapStart at horigin
      rw [place, place, place]
      omega
    obtain ⟨b, hb⟩ := Option.ne_none_iff_exists'.mp ((h.load_ne_none hx).mpr
      ⟨_, hsegment s hs, (hpages s hs _).mpr hin⟩)
    rw [hb, h.zero _ hx (hout _ ?_) b hb]
    intro t ht hin'
    by_cases hst : s = t
    · subst hst
      omega
    · have hmoved := hmove t ht
      have hsize := (hplaced.planned t ht).size_le
      have hbounds' := (hplaced.planned t ht).bounds
      have hvirtual' := (hplaced.planned t ht).virtualEnd
      rcases hapart s hs t ht hst with hle | hle
      · rw [hmove s hs t.virtualStart (by omega)] at hin'
        omega
      · rw [hmove t ht s.virtualStart (by omega)] at hin'
        omega
  · intro x hx b hb hnot
    refine h.zero x hx (hout x fun s hs hin => hnot s hs ⟨hin.1, ?_⟩) b hb
    have hsize := (hplaced.planned s hs).size_le
    rw [hend s hs]
    omega
  · intro x hx
    rw [h.load_ne_none hx, hmem]
    exact exists_congr fun s => and_congr_right fun hs => hpages s hs x
  · intro x hx
    rw [h.writable_iff hx, hmem (P := fun u => u.writable = true ∧ u.InPages x)]
    exact exists_congr fun s => and_congr_right fun hs => and_congr_right fun _ => hpages s hs x

end Image

/-- **The memory of an accepted image.** Let its segments be listed so that each ends at or before the
start of the next, and let them end in user space. Then mapping them into a new page table gives the
program the memory that the plan describes, unless no frame is left. -/
theorem mapSegments_holds_image {image path : List UInt8} {elf : ElfImage}
    {plan : List LoadSegmentPlan} {act : ActivatedInitImage} (hparse : parseElf64 image = .ok elf)
    (hplan : buildLoadPlan elf = .ok plan)
    (hact : buildActivation (prepareElf path elf plan) image = .ok act)
    (horder : plan.Pairwise fun s t => s.virtualEnd ≤ t.virtualStart)
    (hlimit : ∀ s ∈ plan, place plan s.virtualEnd ≤ userSpaceLimit)
    {m m₁ : PhysicalMemory} {hhdm cr3 root : ℕ} (hsound : m.frames.Sound)
    (hvisible : ∀ x ∈ m.frames.unused, hhdm + x < 2 ^ 64)
    (hroot : m.createUserPageTable hhdm cr3 = (.ok root, m₁)) :
    (∀ e, (mapSegments root hhdm act.segments ⟨m₁, none⟩).1 = .error e →
      (mapSegments root hhdm act.segments ⟨m₁, none⟩).2.memory.frames.allocate.1 = none) ∧
    ((mapSegments root hhdm act.segments ⟨m₁, none⟩).1 = .ok () →
      HoldsImage image plan root (mapSegments root hhdm act.segments ⟨m₁, none⟩).2.memory) := by
  have hplaced := placed_of_ok hparse hplan hact
  have hnew := PhysicalMemory.createUserPageTable_ok hsound hroot
  have hrootVisible := hvisible root (hnew.allocated.taken root le_rfl (by omega))
  have hnone (x : ℕ) (hx : x < userSpaceLimit) : m₁.translate root x = none :=
    hnew.translation (valid_indices (pageTableIndex_mem_userIndices hx))
  have hstart : Loaded hhdm root [] ⟨m₁, none⟩ := by
    refine ⟨hnew.backed hvisible, ?_, nofun, ?_, ?_, nofun, fun _ _ => nofun⟩
    · intro x hx
      rw [hnone x hx]
      exact ⟨fun h => absurd rfl h, fun ⟨_, h, _⟩ => nomatch h⟩
    · intro x hx _ b hb
      rw [PhysicalMemory.load_of_none (hnone x hx)] at hb
      cases hb
    · intro x hx e he
      rw [hnone x hx] at he
      cases he
  have hshape : ∀ s ∈ act.segments, s.Shape := by
    rw [hplaced.segments, forall_mem_map]
    exact fun s hs => hplaced.shape hs (hlimit s hs)
  have hbefore : act.segments.Pairwise ActivatedSegment.Before := by
    rw [hplaced.segments, pairwise_map]
    exact horder.imp_of_mem fun hs ht hle => hplaced.before hs ht hle
  obtain ⟨hok, herror⟩ := hstart.mapSegments hrootVisible hshape hbefore
  exact ⟨herror, fun hr => (hok hr).holdsImage hplaced horder hlimit⟩

/-- The page of an image with one page holds the header of the image, and cannot be written. -/
theorem mapSegments_holds_one_page : ∃ elf plan act, parseElf64 userImage = .ok elf ∧
    buildLoadPlan elf = .ok plan ∧ buildActivation (prepareElf [] elf plan) userImage = .ok act ∧
    HoldsImage userImage plan 0x200000 (mapSegments 0x200000 0 act.segments
      ⟨(exampleMemory.createUserPageTable 0 0x1000).2, none⟩).2.memory := by
  have haccepted := exists_accepted userImage
    (Q := fun plan act => plan.Pairwise (fun s t => s.virtualEnd ≤ t.virtualStart) ∧
      (∀ s ∈ plan, place plan s.virtualEnd ≤ userSpaceLimit) ∧ (mapSegments 0x200000 0 act.segments
        ⟨(exampleMemory.createUserPageTable 0 0x1000).2, none⟩).1 = .ok ()) (by decide +kernel)
  obtain ⟨elf, plan, act, hparse, hplan, hact, horder, hlimit, hok⟩ := haccepted
  have hvisible : ∀ x ∈ exampleMemory.frames.unused, 0 + x < 2 ^ 64 := by
    rintro x ⟨r, hr, -, hlt⟩
    rw [mem_singleton.mp hr] at hlt
    change x < 0x300000 at hlt
    omega
  have hroot : exampleMemory.createUserPageTable 0 0x1000 =
      (.ok 0x200000, (exampleMemory.createUserPageTable 0 0x1000).2) :=
    Prod.ext (by decide +kernel) rfl
  exact ⟨elf, plan, act, hparse, hplan, hact, (mapSegments_holds_image hparse hplan hact horder hlimit
    exampleMemory_sound hvisible hroot).2 hok⟩

instance decidableDisjointIco (a b c d : ℕ) :
    Decidable (Disjoint (Set.Ico a b) (Set.Ico c d)) :=
  decidable_of_iff _ Set.Ico_disjoint_Ico.symm

/-- An image with an empty segment inside its first one, in a page before the one that the first and
the last segment share. -/
def nestedImage : List UInt8 :=
  elfHeaderBytes 0x400000 3 ++ loadHeaderBytes 5 0 0x400000 0 0x2800 ++
    loadHeaderBytes 6 0 0x401800 0 0 ++ loadHeaderBytes 6 0 0x402900 1 0x100

/-- **The file byte of the last segment is lost.** The segments are disjoint, in ascending order and in
user space. But the empty one makes `map_segment_pages` forget the last page of the first one, so that
the byte is copied to a new frame, while the page keeps the frame it has. -/
theorem mapSegments_loses_byte : ∃ elf plan act, parseElf64 nestedImage = .ok elf ∧
    buildLoadPlan elf = .ok plan ∧ buildActivation (prepareElf [] elf plan) nestedImage = .ok act ∧
    (plan.Pairwise fun s t => s.virtualStart ≤ t.virtualStart ∧
      Disjoint (Set.Ico s.virtualStart s.virtualEnd) (Set.Ico t.virtualStart t.virtualEnd)) ∧
    (∀ s ∈ plan, s.virtualEnd ≤ userSpaceLimit) ∧
    (exampleMemory.createUserPageTable 0 0x1000).1 = .ok 0x200000 ∧
    (mapSegments 0x200000 0 act.segments
      ⟨(exampleMemory.createUserPageTable 0 0x1000).2, none⟩).1 = .ok () ∧
    ∃ s ∈ plan, 0 < s.fileBytes ∧ nestedImage[s.fileOffset]? = some 0x7f ∧
      (mapSegments 0x200000 0 act.segments
        ⟨(exampleMemory.createUserPageTable 0 0x1000).2, none⟩).2.memory.load 0x200000
          (place plan s.virtualStart) = some 0 :=
  exists_accepted nestedImage (by decide +kernel)

end Hxnu.Exec
