import Hxnu.Arch.KernelHalf
import Hxnu.Lib.Bytes

/-!
# User memory

The memory that a user program sees through its page tables, byte by byte. A frame that backs a page
is neither a table nor free, and different pages have different frames, so that a write into one
frame is a write into one page.

## Main definitions

* `PhysicalMemory.load`: the byte at a virtual address.
* `PhysicalMemory.DataFrame`: a frame in use that is not a table.

## Main results

* `PhysicalMemory.Extends.dataFrame`: mapping pages keeps data frames.
* `PhysicalMemory.Space.dataFrame`: a newly allocated frame is a data frame.
-/

namespace Hxnu.Arch

open Word Mm.Frame Tables

/-- The root entries of the user half. -/
def userIndices : Set ℕ := {i | i < kernelHigherHalfStart}

theorem pageTableIndex_mem_userIndices (h : va < 2 ^ 47) : pageTableIndex va 39 ∈ userIndices := by
  change pageTableIndex va 39 < 256
  rw [pageTableIndex_eq]
  omega

namespace PhysicalMemory

/-- Store bytes at a physical address. -/
def writeBytes (m : PhysicalMemory) (address : ℕ) (bytes : List UInt8) : PhysicalMemory :=
  { m with words := Words.writeBytes m.words address bytes }

theorem writeBytes_words (m : PhysicalMemory) (address : ℕ) (bytes : List UInt8) :
    (m.writeBytes address bytes).words = Words.writeBytes m.words address bytes := rfl

/-- A frame in use that is not a table below the root. -/
structure DataFrame (A : Set ℕ) (root : ℕ) (m : PhysicalMemory) (f : ℕ) : Prop where
  aligned : 4096 ∣ f
  le_top : f + 4096 ≤ physicalTop
  not_table : ∀ l ∈ page entriesPerTable f, l ∉ tableWords A root m
  used : ∀ l ∈ page entriesPerTable f, l ∉ m.frames.unused

section Frames

variable {A : Set ℕ} {root f : ℕ} {m m' : PhysicalMemory}

theorem Extends.dataFrame (h : Extends A root m m') (hf : DataFrame A root m f) :
    DataFrame A root m' f where
  aligned := hf.aligned
  le_top := hf.le_top
  not_table l hl hl' := (h.grown l hl').elim (hf.not_table l hl) (hf.used l hl)
  used l hl hx := hf.used l hl (h.unused l hx)

/-- Memory changes outside the tables, and nothing becomes free. -/
theorem Space.congr (h : Space A root m) (m' : PhysicalMemory)
    (hsame : ∀ l ∈ tableWords A root m, m'.words l = m.words l)
    (hframes : Kept m.frames m'.frames) :
    Space A root m' ∧ tableWords A root m' = tableWords A root m ∧
      ∀ q, Valid entriesPerTable 4 A q → m'.translation root q = m.translation root q := by
  have hwords : tableWords A root m' = tableWords A root m := treeWords_congr hsame
  refine ⟨⟨h.tree.congr hsame, hframes.1, ?_⟩, hwords, fun q hq => find_congr hsame hq⟩
  rw [hwords]
  exact fun l hl hx => h.used l hl (hframes.2 l hx)

/-- **A newly allocated frame is a data frame**, and the space is as it was. -/
theorem Space.newFrame (h : Space A root m) {frames : FrameAllocator}
    (hf : Allocated m.frames f frames) :
    Unmapped A root m (zeroTable { m with frames } f) ∧
      DataFrame A root (zeroTable { m with frames } f) f := by
  have hout (l : ℕ) (hl : l ∉ m.frames.unused) :
      (zeroTable { m with frames } f).words l = m.words l := by
    rw [zeroTable_words]
    exact Words.fill_of_not_mem fun i hi heq => hl (mem_unused_of_page hf ⟨i, hi, heq⟩)
  have hleft : ∀ x ∈ frames.unused, x ∈ m.frames.unused := fun x hx => (hf.left x hx).1
  obtain ⟨hspace, hwords, htranslation⟩ := h.congr (zeroTable { m with frames } f)
    (fun l hl => hout l (h.used l hl)) ⟨hf.sound, hleft⟩
  refine ⟨⟨⟨hspace, ?_, hleft, fun l _ hl => hout l hl⟩, fun q hq _ => htranslation q hq⟩,
    ⟨hf.aligned, hf.le_top, ?_, fun l hl => not_mem_unused_of_page hf hl⟩⟩
  · rw [hwords]
    exact fun l hl => .inl hl
  · rw [hwords]
    exact fun l hl hl' => h.used l hl' (mem_unused_of_page hf hl)

/-- Bytes are written into a data frame. -/
theorem Space.writeBytes (h : Space A root m) (hf : DataFrame A root m f) (ha : f ≤ a)
    (hb : a + bytes.length ≤ f + 4096) :
    Space A root (m.writeBytes a bytes) ∧
      tableWords A root (m.writeBytes a bytes) = tableWords A root m ∧
      ∀ q, Valid entriesPerTable 4 A q →
        (m.writeBytes a bytes).translation root q = m.translation root q := by
  refine h.congr _ ?_ ⟨h.sound, fun _ hx => hx⟩
  intro l hl
  rw [writeBytes_words]
  exact Words.writeBytes_of_not_mem (Dvd.dvd.trans (by decide) hf.aligned) ha hb
    fun hpage => hf.not_table l hpage hl

end Frames

/-! ### Permissions -/

/-- The entry lets user writes through. -/
def Opens (entry : ℕ) : Prop := entry &&& pageWritable ≠ 0 ∧ entry &&& pageUser ≠ 0

theorem and_two_pow_ne_zero : x &&& 2 ^ i ≠ 0 ↔ x.testBit i = true := by
  rw [Nat.and_two_pow]
  cases x.testBit i <;> simp

theorem and_pageWritable_ne_zero : x &&& pageWritable ≠ 0 ↔ x.testBit 1 = true :=
  and_two_pow_ne_zero (i := 1)

theorem opens_new (f : ℕ) : Opens (f ||| pagePresent ||| pageWritable ||| pageUser) := by
  refine ⟨and_pageWritable_ne_zero.mpr ?_, (and_two_pow_ne_zero (i := 2)).mpr ?_⟩
  · rw [Nat.testBit_or, Nat.testBit_or, show pageWritable.testBit 1 = true from rfl, Bool.or_true,
      Bool.true_or]
  · rw [Nat.testBit_or, show pageUser.testBit 2 = true from rfl, Bool.or_true]

/-- An entry that leads to a table: it lets user writes through, and the direct map at `hhdm` reaches
the table. -/
def TableEntry (hhdm entry : ℕ) : Prop :=
  Opens entry ∧ hhdm + (entry &&& pageAddressMask) < 2 ^ 64

/-- All tables are open to user writes, and the direct map reaches them and the free memory. -/
structure OpenTables (hhdm : ℕ) (A : Set ℕ) (root : ℕ) (m : PhysicalMemory) : Prop where
  inner : Inner (TableEntry hhdm) entryTable entriesPerTable 4 A m.words root
  free : ∀ x ∈ m.frames.unused, hhdm + x < 2 ^ 64

/-- Tables stay open, and mapping fails only if no frame is left. -/
structure OpenResult (hhdm : ℕ) (A : Set ℕ) (root : ℕ) (r : Except MapError Unit)
    (m : PhysicalMemory) : Prop extends OpenTables hhdm A root m where
  failed : ∀ e, r = .error e → m.frames.allocate = (none, m.frames)

section Open

variable {A : Set ℕ} {hhdm root pa flags : ℕ} {path : List ℕ} {m : PhysicalMemory}

theorem OpenTables.orReturn (hopen : OpenTables hhdm A root m) (h : Space A root m)
    (hpath : Valid entriesPerTable 4 A path) (hfull : path.length = 4)
    (hsplit : path = p ++ j :: tail)
    (hword : word entryTable m.words root p = some (table + 8 * index))
    (hrest : ∀ t m', OpenTables hhdm A root m' → Space A root m' → word entryTable m'.words root (p
      ++ [j]) = some (t + 8 * j) → OpenResult hhdm A root (rest t m').1 (rest t m').2) :
    OpenResult hhdm A root (PhysicalMemory.orReturn (m.nextTableUser hhdm table index) rest).1
      (PhysicalMemory.orReturn (m.nextTableUser hhdm table index) rest).2 := by
  have hp : Valid entriesPerTable 4 A p :=
    hpath.of_append hsplit (by rintro rfl; cases hword)
  have hlength : p.length < 4 := by
    rw [hsplit, List.length_append, List.length_cons] at hfull
    omega
  have hspec := nextTableUser_spec h.sound hhdm table index
  rcases hnext : m.nextTableUser hhdm table index with ⟨next, m'⟩
  rw [hnext] at hspec
  change NextUser m hhdm _ next m' at hspec
  cases hspec with
  | exhausted hnone => exact ⟨hopen, fun _ _ => hnone⟩
  | overflow htop hover hkept hsource =>
    exfalso
    rcases hsource with hfree | htable
    · exact absurd (hopen.free _ hfree) (not_lt.mpr hover)
    · have hvisible := (hopen.inner p _ _ hp hlength hword htable).2
      rw [mask_of_entryTable htable] at hvisible
      omega
  | huge hpresent hnone => exact ⟨hopen, nofun⟩
  | found htable => exact hrest _ m hopen h (word_concat_some hword htable j)
  | @new f frames habsent hf =>
    obtain ⟨hhangs, hinstalled⟩ := h.hangs hp hlength hword habsent hf rfl
    obtain ⟨hext, -, hnew⟩ := h.new hp hlength hword habsent hf rfl
    refine hrest _ _ ⟨?_, fun x hx => hopen.free x (hext.unused x hx)⟩ hext.space (hnew j)
    refine h.tree.inner_install hhangs hinstalled hopen.inner ⟨opens_new f, ?_⟩
    rw [mask_of_entryTable (entryTable_new hf.aligned hf.le_top)]
    exact hopen.free f (hf.taken f le_rfl (by omega))

/-- **Mapping a page keeps tables open, and fails only if no frame is left.** -/
theorem OpenTables.mapUserPage (hopen : OpenTables hhdm A root m) (h : Space A root m)
    (hroot : hhdm + root < 2 ^ 64) (pa flags : ℕ) (hva : pageTableIndex va 39 ∈ A) :
    OpenResult hhdm A root (m.mapUserPage root hhdm va pa flags).1
      (m.mapUserPage root hhdm va pa flags).2 := by
  have hpath := valid_indices hva
  rw [PhysicalMemory.mapUserPage, checkedAdd_eq_some.mpr ⟨hroot, rfl⟩]
  refine hopen.orReturn h hpath rfl (p := [pageTableIndex va 39]) rfl rfl ?_
  intro pdpt m₁ hopen₁ h₁ hpdpt
  refine hopen₁.orReturn h₁ hpath rfl (p := [pageTableIndex va 39, pageTableIndex va 30]) rfl
    hpdpt ?_
  intro pd m₂ hopen₂ h₂ hpd
  refine hopen₂.orReturn h₂ hpath rfl
    (p := [pageTableIndex va 39, pageTableIndex va 30, pageTableIndex va 21]) rfl hpd ?_
  intro pt m₃ hopen₃ h₃ hpt
  have hleaf (v : ℕ) : OpenTables hhdm A root
      (m₃.writeEntry (pt + 8 * pageTableIndex va 12) v) :=
    ⟨h₃.tree.inner_writeLeaf hpath rfl hpt (fun l hl => Function.update_of_ne hl _ _) hopen₃.inner,
      hopen₃.free⟩
  refine ⟨?_, by simp⟩
  rw [PhysicalMemory.mapEntry]
  split_ifs
  · exact hleaf _
  · exact hleaf _

end Open

/-! ### The memory of a user program -/

/-- The byte that a user program reads at a virtual address, through pages of 4096 bytes. -/
def load (m : PhysicalMemory) (root va : ℕ) : Option UInt8 :=
  match m.translate root va with
  | some (entry, []) => some (Words.byteAt m.words ((entry &&& pageAddressMask) + va % 4096))
  | _ => none

/-- Every entry on the walk of a mapped address lets writes through. -/
def Writable (m : PhysicalMemory) (root va : ℕ) : Prop :=
  m.translate root va ≠ none ∧ ∀ l ∈ walk m.words root va, m.words l &&& pageWritable ≠ 0

/-- A space whose pages are backed by data frames of their own. -/
structure Backed (hhdm : ℕ) (A : Set ℕ) (root : ℕ) (m : PhysicalMemory) : Prop
    extends Space A root m, OpenTables hhdm A root m where
  frame : ∀ q e rest, Valid entriesPerTable 4 A q → q.length = 4 →
    m.translation root q = some (e, rest) →
    rest = [] ∧ DataFrame A root m (e &&& pageAddressMask)
  apart : ∀ q q' e e', Valid entriesPerTable 4 A q → Valid entriesPerTable 4 A q' →
    q.length = 4 → q'.length = 4 → m.translation root q = some (e, []) →
    m.translation root q' = some (e', []) → e &&& pageAddressMask = e' &&& pageAddressMask → q = q'

section Backed

variable {A : Set ℕ} {hhdm root f va : ℕ} {m m' : PhysicalMemory}

theorem load_of_translate (h : m.translate root va = some (e, [])) :
    m.load root va = some (Words.byteAt m.words ((e &&& pageAddressMask) + va % 4096)) := by
  rw [load, h]

theorem load_of_none (h : m.translate root va = none) : m.load root va = none := by
  rw [load, h]

/-- The bytes of a data frame do not change when tables are made. -/
theorem Extends.byteAt (h : Extends A root m m') (hf : DataFrame A root m f) (hlow : f ≤ y)
    (hhigh : y < f + 4096) : Words.byteAt m'.words y = Words.byteAt m.words y := by
  have hword : y / 8 * 8 ∈ page entriesPerTable f :=
    Words.word_mem_page (Dvd.dvd.trans (by decide) hf.aligned) hlow hhigh
  exact Words.byteAt_congr (h.same _ (hf.not_table _ hword) (hf.used _ hword))

section

variable (h : Backed hhdm A root m)

include h

/-- **A mapped page is writable exactly when its own entry is.** -/
theorem Backed.writable_iff (hva : pageTableIndex va 39 ∈ A)
    (htranslate : m.translate root va = some (e, [])) :
    m.Writable root va ↔ e &&& pageWritable ≠ 0 := by
  have hfind : find entryTable entryPresent m.words root (indices va) = some (e, []) := htranslate
  obtain ⟨q, l, hq, hword, rfl, -, -⟩ := find_eq_some.mp hfind
  rw [List.append_nil] at hq
  subst hq
  have hwalk (l' : ℕ) : l' ∈ walk m.words root va ↔
      ∃ q rest, indices va = q ++ rest ∧ word entryTable m.words root q = some l' :=
    mem_visited_iff
  constructor
  · intro hwritable
    exact hwritable.2 l ((hwalk l).mpr ⟨indices va, [], (List.append_nil _).symm, hword⟩)
  · intro hleaf
    refine ⟨htranslate.trans_ne nofun, fun l' hl' => ?_⟩
    obtain ⟨q, rest, hq, hl'⟩ := (hwalk l').mp hl'
    cases rest with
    | nil =>
      rw [List.append_nil] at hq
      rw [← hq, hword] at hl'
      cases hl'
      exact hleaf
    | cons j rest =>
      -- an entry before the last leads to a table
      have hvalid : Valid entriesPerTable 4 A q :=
        (valid_indices hva).of_append hq (by rintro rfl; cases hl')
      have hlength : q.length < 4 := by
        have := congrArg List.length hq
        rw [List.length_append, List.length_cons] at this
        change 4 = _ at this
        omega
      cases htable : entryTable (m.words l') with
      | none =>
        rw [hq, word_append_none hl' htable] at hword
        cases hword
      | some t => exact (h.inner q l' t hvalid hlength hl' htable).1.1

/-- A page whose translation is kept reads as before when tables are made. -/
theorem Backed.load_congr (hm : Extends A root m m')
    (hva : pageTableIndex va 39 ∈ A) (htranslate : m'.translate root va = m.translate root va) :
    m'.load root va = m.load root va := by
  rw [load, load, htranslate]
  split
  · rename_i e he
    have hframe := (h.frame _ e [] (valid_indices hva) rfl he).2
    have hlt := Nat.mod_lt va (show 4096 > 0 by decide)
    rw [hm.byteAt hframe (by omega) (by omega)]
  · rfl

/-- No page is backed by the frame `f`. -/
def Loose (A : Set ℕ) (root : ℕ) (m : PhysicalMemory) (f : ℕ) : Prop :=
  ∀ q e, Valid entriesPerTable 4 A q → q.length = 4 → m.translation root q = some (e, []) →
    e &&& pageAddressMask ≠ f

/-- **A new zeroed frame**: it backs no page, and user memory is as it was. -/
theorem Backed.newFrame {frames : FrameAllocator} (hf : Allocated m.frames f frames) :
    Backed hhdm A root (zeroTable { m with frames } f) ∧
      DataFrame A root (zeroTable { m with frames } f) f ∧
      Loose A root (zeroTable { m with frames } f) f ∧
      (∀ x, pageTableIndex x 39 ∈ A →
        (zeroTable { m with frames } f).translate root x = m.translate root x ∧
        (zeroTable { m with frames } f).load root x = m.load root x) ∧
      ∀ y, f ≤ y → y < f + 4096 → Words.byteAt (zeroTable { m with frames } f).words y = 0 := by
  obtain ⟨hunmapped, hdata⟩ := h.toSpace.newFrame hf
  have htranslation := hunmapped.translations
  refine ⟨⟨hunmapped.space, ⟨?_, fun x hx => h.free x (hf.left x hx).1⟩, ?_, ?_⟩, hdata, ?_, ?_, ?_⟩
  · refine h.inner.congr fun l hl => ?_
    rw [zeroTable_words]
    exact Words.fill_of_not_mem fun i hi heq =>
      h.used l hl (mem_unused_of_page hf ⟨i, hi, heq⟩)
  · intro q e rest hq hfull htranslate
    rw [htranslation q hq hfull] at htranslate
    obtain ⟨hrest, hframe⟩ := h.frame q e rest hq hfull htranslate
    exact ⟨hrest, hunmapped.toExtends.dataFrame hframe⟩
  · intro q q' e e' hq hq' hfull hfull' he he'
    rw [htranslation q hq hfull] at he
    rw [htranslation q' hq' hfull'] at he'
    exact h.apart q q' e e' hq hq' hfull hfull' he he'
  · intro q e hq hfull he heq
    rw [htranslation q hq hfull] at he
    have hused := (h.frame q e [] hq hfull he).2.used
    have hmem : f ∈ page entriesPerTable f := ⟨0, by decide, rfl⟩
    rw [heq] at hused
    exact hused f hmem (mem_unused_of_page hf hmem)
  · intro x hx
    have hpath := valid_indices hx
    have htranslate : (zeroTable { m with frames } f).translate root x = m.translate root x :=
      htranslation _ hpath rfl
    exact ⟨htranslate, h.load_congr hunmapped.toExtends hx htranslate⟩
  · intro y hlow hhigh
    rw [zeroTable_words]
    exact Words.byteAt_fill_zero (Dvd.dvd.trans (by decide) hf.aligned) hlow hhigh

/-- What mapping a page does to backed memory. A page without a translation gets the frame; one with a
translation keeps its own and gains the flags. -/
structure BackedPage (hhdm : ℕ) (A : Set ℕ) (root va pa flags : ℕ) (m m' : PhysicalMemory) : Prop where
  backed : Backed hhdm A root m'
  extension : Extends A root m m'
  fresh : m.translate root va = none →
    ∃ e, m'.translate root va = some (e, []) ∧ e = pa ||| pagePresent ||| pageUser ||| flags ∧
      e &&& pageAddressMask = pa
  again : ∀ e, m.translate root va = some (e, []) →
    m'.translate root va = some (e ||| flags, []) ∧
      (e ||| flags) &&& pageAddressMask = e &&& pageAddressMask
  others : ∀ x, pageTableIndex x 39 ∈ A → indices x ≠ indices va →
    m'.translate root x = m.translate root x ∧ m'.load root x = m.load root x

section

variable (hroot : hhdm + root < 2 ^ 64) (hva : pageTableIndex va 39 ∈ A)
    (hflags : flags &&& pageAddressMask = 0)
    (hframe : m.translate root va = none → DataFrame A root m pa ∧ Loose A root m pa)

include hroot hva hflags hframe

theorem Backed.mapUserPage (hok : (m.mapUserPage root hhdm va pa flags).1 = .ok ()) :
    BackedPage hhdm A root va pa flags m (m.mapUserPage root hhdm va pa flags).2 := by
  have hmapped := h.toSpace.mapUserPage hhdm pa flags hva
  have hopen := h.toOpenTables.mapUserPage h.toSpace hroot pa flags hva
  have hpath := valid_indices hva
  generalize (m.mapUserPage root hhdm va pa flags).2 = m' at hmapped hopen ⊢
  have hupdate := hmapped.ok hok
  have hfresh (hnone : m.translate root va = none) :
      ∃ e, m'.translate root va = some (e, []) ∧ e = pa ||| pagePresent ||| pageUser ||| flags ∧
        e &&& pageAddressMask = pa := by
    have hpa := mask_of_aligned (hframe hnone).1.aligned (hframe hnone).1.le_top
    have hnone' : m.translation root (indices va) = none := hnone
    rw [hnone', mapped, hpa] at hupdate
    refine ⟨_, hupdate, rfl, ?_⟩
    rw [Nat.and_or_distrib_right, Nat.and_or_distrib_right, Nat.and_or_distrib_right, hpa, hflags,
      show pagePresent &&& pageAddressMask = 0 from rfl,
      show pageUser &&& pageAddressMask = 0 from rfl, Nat.or_zero, Nat.or_zero, Nat.or_zero]
  have hagain (e : ℕ) (he : m.translate root va = some (e, [])) :
      m'.translate root va = some (e ||| flags, []) ∧
        (e ||| flags) &&& pageAddressMask = e &&& pageAddressMask := by
    have he' : m.translation root (indices va) = some (e, []) := he
    rw [he', mapped] at hupdate
    exact ⟨hupdate, by rw [Nat.and_or_distrib_right, hflags, Nat.or_zero]⟩
  -- the frame of each page is the old one, or the frame of the new page
  have hframes (q : List ℕ) (e : ℕ) (rest : List ℕ) (hq : Valid entriesPerTable 4 A q)
      (hfull : q.length = 4) (he : m'.translation root q = some (e, rest)) :
      rest = [] ∧ ((∃ e₀, m.translation root q = some (e₀, []) ∧
          e &&& pageAddressMask = e₀ &&& pageAddressMask) ∨
        q = indices va ∧ m.translate root va = none ∧ e &&& pageAddressMask = pa) := by
    by_cases hqv : q = indices va
    · subst hqv
      cases hold : m.translate root va with
      | none =>
        obtain ⟨e', he', -, hmask⟩ := hfresh hold
        obtain ⟨rfl, rfl⟩ := Prod.mk.inj (Option.some.inj (he'.symm.trans he))
        exact ⟨rfl, .inr ⟨rfl, rfl, hmask⟩⟩
      | some p =>
        obtain ⟨e₀, rest₀⟩ := p
        obtain ⟨rfl, -⟩ := h.frame _ e₀ rest₀ hq hfull hold
        obtain ⟨he', hmask⟩ := hagain e₀ hold
        obtain ⟨rfl, rfl⟩ := Prod.mk.inj (Option.some.inj (he'.symm.trans he))
        exact ⟨rfl, .inl ⟨e₀, hold, hmask⟩⟩
    · rw [hmapped.others q hq hfull hqv] at he
      obtain ⟨rfl, -⟩ := h.frame q e rest hq hfull he
      exact ⟨rfl, .inl ⟨e, he, rfl⟩⟩
  refine ⟨⟨hmapped.space, hopen.toOpenTables, ?_, ?_⟩, hmapped.toExtends, hfresh, hagain, ?_⟩
  · intro q e rest hq hfull he
    obtain ⟨hrest, hcases⟩ := hframes q e rest hq hfull he
    refine ⟨hrest, hmapped.toExtends.dataFrame ?_⟩
    rcases hcases with ⟨e₀, he₀, hmask⟩ | ⟨-, hnone, hmask⟩
    · rw [hmask]
      exact (h.frame q e₀ [] hq hfull he₀).2
    · rw [hmask]
      exact (hframe hnone).1
  · intro q q' e e' hq hq' hfull hfull' he he' heq
    obtain ⟨-, hcases⟩ := hframes q e [] hq hfull he
    obtain ⟨-, hcases'⟩ := hframes q' e' [] hq' hfull' he'
    rcases hcases with ⟨e₀, he₀, hmask⟩ | ⟨hqv, hnone, hmask⟩
    · rcases hcases' with ⟨e₀', he₀', hmask'⟩ | ⟨-, hnone', hmask'⟩
      · exact h.apart q q' e₀ e₀' hq hq' hfull hfull' he₀ he₀' (by rw [← hmask, ← hmask', heq])
      · exact absurd (by rw [← hmask, heq, hmask']) ((hframe hnone').2 q e₀ hq hfull he₀)
    · rcases hcases' with ⟨e₀', he₀', hmask'⟩ | ⟨hqv', -, -⟩
      · exact absurd (by rw [← hmask', ← heq, hmask]) ((hframe hnone).2 q' e₀' hq' hfull' he₀')
      · rw [hqv, hqv']
  · intro x hx hne
    have hvalid := valid_indices hx
    have htranslate : m'.translate root x = m.translate root x := hmapped.others _ hvalid rfl hne
    exact ⟨htranslate, h.load_congr hmapped.toExtends hx htranslate⟩

/-- Mapping a page either does so, or finds no frame left. -/
theorem Backed.mapUserPage_cases : (∃ e m', m.mapUserPage root hhdm va pa flags = (.error e, m') ∧
      m'.frames.allocate = (none, m'.frames)) ∨
    ∃ m', m.mapUserPage root hhdm va pa flags = (.ok (), m') ∧
      BackedPage hhdm A root va pa flags m m' := by
  have hresult := h.toOpenTables.mapUserPage h.toSpace hroot pa flags hva
  have hpage := h.mapUserPage hroot hva hflags hframe
  generalize m.mapUserPage root hhdm va pa flags = result at hresult hpage ⊢
  obtain ⟨r, m'⟩ := result
  cases r with
  | error e => exact .inl ⟨e, m', rfl, hresult.failed e rfl⟩
  | ok u => exact .inr ⟨m', rfl, hpage rfl⟩

end

/-- **Bytes written into the frame of a page** are read in this page and in no other. -/
theorem Backed.writeBytes (hva : pageTableIndex va 39 ∈ A)
    (bytes : List UInt8) (he : m.translate root va = some (e, [])) (hf : e &&& pageAddressMask = f)
    (ha : f ≤ a) (hb : a + bytes.length ≤ f + 4096) :
    Backed hhdm A root (m.writeBytes a bytes) ∧ ∀ x, pageTableIndex x 39 ∈ A →
      (m.writeBytes a bytes).translate root x = m.translate root x ∧
      (m.writeBytes a bytes).load root x =
        if indices x = indices va ∧ a ≤ f + x % 4096 ∧ f + x % 4096 < a + bytes.length then
          some (bytes.getD (f + x % 4096 - a) 0)
        else m.load root x := by
  have hdata : DataFrame A root m f := hf ▸ (h.frame _ e [] (valid_indices hva) rfl he).2
  obtain ⟨hspace, hwords, htranslation⟩ := h.toSpace.writeBytes hdata ha hb
  have hbyte (y : ℕ) : Words.byteAt (m.writeBytes a bytes).words y =
      if a ≤ y ∧ y < a + bytes.length then bytes.getD (y - a) 0 else Words.byteAt m.words y := by
    rw [writeBytes_words, Words.byteAt_writeBytes]
  refine ⟨⟨hspace, ⟨?_, h.free⟩, ?_, ?_⟩, ?_⟩
  · refine h.inner.congr fun l hl => ?_
    rw [writeBytes_words]
    exact Words.writeBytes_of_not_mem (Dvd.dvd.trans (by decide) hdata.aligned) ha hb
      fun hpage => hdata.not_table l hpage hl
  · intro q e rest hq hfull he
    rw [htranslation q hq] at he
    obtain ⟨hrest, hframe⟩ := h.frame q e rest hq hfull he
    refine ⟨hrest, hframe.aligned, hframe.le_top, ?_, hframe.used⟩
    rw [hwords]
    exact hframe.not_table
  · intro q q' e e' hq hq' hfull hfull' he he'
    rw [htranslation q hq] at he
    rw [htranslation q' hq'] at he'
    exact h.apart q q' e e' hq hq' hfull hfull' he he'
  · intro x hx
    have hvalid := valid_indices hx
    have htranslate : (m.writeBytes a bytes).translate root x = m.translate root x :=
      htranslation _ hvalid
    refine ⟨htranslate, ?_⟩
    by_cases hpage : indices x = indices va
    · have hex : m.translate root x = some (e, []) := by
        rw [translate, hpage]
        exact he
      rw [load_of_translate (htranslate.trans hex), load_of_translate hex, hbyte, hf]
      by_cases hin : a ≤ f + x % 4096 ∧ f + x % 4096 < a + bytes.length
      · rw [if_pos hin, if_pos ⟨hpage, hin⟩]
      · rw [if_neg hin, if_neg fun hand => hin hand.2]
    · rw [if_neg fun hand => hpage hand.1, load, load, htranslate]
      split
      · rename_i e' he'
        -- the frame of another page is another frame
        have hdata' := (h.frame _ e' [] hvalid rfl he').2
        have hne : e' &&& pageAddressMask ≠ f := by
          intro heq
          exact hpage (h.apart _ _ e' e hvalid (valid_indices hva) rfl rfl he' he (heq.trans hf.symm))
        have haligned := hdata.aligned
        have haligned' := hdata'.aligned
        have hlt := Nat.mod_lt x (show 4096 > 0 by decide)
        rw [hbyte, if_neg (by omega)]
      · rfl

end

end Backed

/-! ### A new root -/

/-- A new root: its user half is empty, and its kernel half is that of the kernel root. -/
structure NewRoot (m : PhysicalMemory) (kernelRoot root : ℕ) (m' : PhysicalMemory) : Prop where
  allocated : Allocated m.frames root m'.frames
  user : ∀ i < kernelHigherHalfStart, m'.words (root + 8 * i) = 0
  kernel : ∀ i, kernelHigherHalfStart ≤ i → i < entriesPerTable →
    kernelRoot + 8 * i ∉ page entriesPerTable root →
    m'.words (root + 8 * i) = m.words (kernelRoot + 8 * i)
  same : ∀ l, l ∉ page entriesPerTable root → m'.words l = m.words l

theorem createUserPageTable_ok (hsound : m.frames.Sound)
    (h : m.createUserPageTable hhdm cr3 = (.ok root, m')) :
    NewRoot m (cr3 &&& pageAddressMask) root m' := by
  rw [createUserPageTable, allocatePageTableFrame] at h
  rcases hsound.allocate with hnone | ⟨f, frames, hsome, hf⟩
  · rw [hnone] at h
    cases h
  · rw [hsome] at h
    simp only at h
    cases hroot : checkedAdd hhdm f with
    | none =>
      rw [hroot] at h
      cases h
    | some _ =>
      rw [hroot] at h
      simp only at h
      cases hkernel : checkedAdd hhdm (cr3 &&& pageAddressMask) with
      | none =>
        rw [hkernel] at h
        cases h
      | some _ =>
        rw [hkernel] at h
        cases h
        have hzero (l : ℕ) (hl : l ∉ page entriesPerTable root) :
            (zeroTable { m with frames } root).words l = m.words l := by
          rw [zeroTable_words]
          exact Words.fill_of_not_mem fun i hi heq => hl ⟨i, hi, heq⟩
        refine ⟨hf, ?_, ?_, ?_⟩
        · intro i hi
          rw [kernelHigherHalfStart] at hi
          simp only
          rw [Words.fill_of_lt (by rw [kernelHigherHalfStart]; omega), zeroTable_words,
            Words.fill_apply (by rw [entriesPerTable]; omega)]
        · intro i hlow hhigh hout
          simp only
          rw [show root + 8 * i = root + 8 * kernelHigherHalfStart + 8 * (i - kernelHigherHalfStart)
            by omega, Words.fill_apply (by omega), Nat.add_sub_cancel' hlow, hzero _ hout]
        · intro l hl
          simp only
          rw [Words.fill_of_not_mem, hzero l hl]
          rintro i hi rfl
          exact hl ⟨kernelHigherHalfStart + i, by omega, by ring⟩

section NewRoot

variable {m m' : PhysicalMemory} {kernelRoot root : ℕ}

/-- **The user half of a new root is an empty space.** -/
theorem NewRoot.space (h : NewRoot m kernelRoot root m') :
    Space userIndices root m' ∧
      ∀ l ∈ tableWords userIndices root m', ∃ i < kernelHigherHalfStart, l = root + 8 * i := by
  have hempty (i : ℕ) (hi : i ∈ userIndices) (_ : i < entriesPerTable) :
      entryTable (m'.words (root + 8 * i)) = none := by
    rw [h.user i hi]
    rfl
  obtain ⟨hspace, hwords⟩ := space_of_empty h.allocated.sound hempty
    fun i _ hlt => not_mem_unused_of_page h.allocated ⟨i, hlt, rfl⟩
  refine ⟨hspace, fun l hl => ?_⟩
  obtain ⟨i, hi, -, rfl⟩ := hwords l hl
  exact ⟨i, hi, rfl⟩

/-- No user page has a translation. -/
theorem NewRoot.translation (h : NewRoot m kernelRoot root m')
    (hq : Valid entriesPerTable 4 userIndices q) : m'.translation root q = none := by
  cases q with
  | nil => rfl
  | cons i q =>
    have hi : i ∈ userIndices := hq.head i rfl
    have hzero : m'.words (root + 8 * i) = 0 := h.user i hi
    have hnext : entryTable (m'.words (root + 8 * i)) = none := by rw [hzero]; rfl
    have habsent : entryPresent (m'.words (root + 8 * i)) = false := by rw [hzero]; rfl
    exact find_of_absent hnext habsent

/-- **The user half of a new root is backed memory without pages.** -/
theorem NewRoot.backed (h : NewRoot m kernelRoot root m')
    (hvisible : ∀ x ∈ m.frames.unused, hhdm + x < 2 ^ 64) : Backed hhdm userIndices root m' := by
  refine ⟨h.space.1, ⟨?_, fun x hx => hvisible x (h.allocated.left x hx).1⟩, ?_, ?_⟩
  · refine inner_of_empty fun i hi _ => ?_
    rw [h.user i hi]
    rfl
  · intro q e rest hq _ he
    rw [h.translation hq] at he
    cases he
  · intro q q' e e' hq _ _ _ he
    rw [h.translation hq] at he
    cases he

end NewRoot

end PhysicalMemory

end Hxnu.Arch
