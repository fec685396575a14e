import Hxnu.Arch.PageTable
import Hxnu.Lib.TableTree
import Hxnu.Mm.FrameUse

/-!
# Address translation

What the tables built by `early_map.rs` mean: a virtual address has four indices, and the walk along
them ends at the entry that maps its page, if there is one. Over a tree of tables, mapping a page is
the update of one translation, and mapping a region updates the translations of its pages.

## Main definitions

* `indices`: the path of a virtual address.
* `PhysicalMemory.translation`: the entry that maps a page, with the indices that a huge page leaves.
* `PhysicalMemory.Space`: the tables below a root form a tree, and none of them is free memory.
* `PhysicalMemory.Extends`: memory changed only in the tree and in memory that was free.

## Main results

* `PhysicalMemory.Space.mapUserPage`: one translation is updated.
* `mapUserRegion_translation`: the translations of the region are updated, and no other.
-/

namespace Hxnu.Arch

open Word Mm.Frame Tables Function

variable {entry f flags ppage vpage size root hhdm len : ℕ} {m m' : PhysicalMemory}
  {frames : FrameAllocator} {p : List ℕ}

/-! ### Entries -/

/-- The table that an entry leads to. -/
def entryTable (entry : ℕ) : Option ℕ :=
  if entry &&& pagePresent = 0 ∨ entry &&& pageHuge ≠ 0 then none
  else some (entry &&& pageAddressMask)

def entryPresent (entry : ℕ) : Bool := entry &&& pagePresent != 0

theorem entryPresent_eq_false : entryPresent entry = false ↔ entry &&& pagePresent = 0 := by
  rw [entryPresent, bne_eq_false_iff_eq]

theorem entryPresent_eq_testBit (entry : ℕ) : entryPresent entry = entry.testBit 0 := by
  simp [entryPresent, pagePresent, Nat.testBit, Nat.and_comm]

theorem entryPresent_or (a b : ℕ) : entryPresent (a ||| b) = (entryPresent a || entryPresent b) := by
  simp only [entryPresent_eq_testBit, Nat.testBit_or]

theorem entryPresent_new (frame a b : ℕ) :
    entryPresent (frame ||| pagePresent ||| a ||| b) = true := by
  rw [entryPresent_or, entryPresent_or, entryPresent_or, show entryPresent pagePresent = true from rfl,
    Bool.or_true, Bool.true_or, Bool.true_or]

theorem entryTable_of_absent (h : entry &&& pagePresent = 0) : entryTable entry = none := by
  rw [entryTable, if_pos (.inl h)]

theorem mask_of_entryTable (h : entryTable entry = some t) : entry &&& pageAddressMask = t := by
  rw [entryTable] at h
  split_ifs at h
  exact Option.some.inj h

theorem mask_eq (x : ℕ) : x &&& pageAddressMask = x / 4096 % 2 ^ 40 * 4096 := by
  have hmask : pageAddressMask = (2 ^ 40 - 1) <<< 12 := by decide
  rw [hmask, show 4096 = 2 ^ 12 from rfl, ← Nat.shiftRight_eq_div_pow, ← Nat.shiftLeft_eq]
  refine Nat.eq_of_testBit_eq fun i => ?_
  simp only [Nat.testBit_and, Nat.testBit_shiftLeft, Nat.testBit_two_pow_sub_one,
    Nat.testBit_mod_two_pow, Nat.testBit_shiftRight]
  by_cases hi : 12 ≤ i
  · rw [Nat.add_sub_cancel' hi]
    simp only [hi, decide_true, Bool.true_and, Bool.and_comm]
  · simp [hi]

theorem mask_lt (x : ℕ) : (x &&& pageAddressMask) + 4096 ≤ physicalTop := by
  rw [mask_eq, physicalTop]
  omega

theorem mask_of_aligned (h : 4096 ∣ x) (hx : x + 4096 ≤ physicalTop) :
    x &&& pageAddressMask = x := by
  rw [physicalTop] at hx
  rw [mask_eq]
  omega

theorem and_low_of_aligned (h : 4096 ∣ f) (hk : k < 4096) : f &&& k = 0 := by
  obtain ⟨q, rfl⟩ := h
  have hshift : 4096 * q = q <<< 12 := by rw [Nat.shiftLeft_eq, Nat.mul_comm]
  refine Nat.eq_of_testBit_eq fun i => ?_
  rw [Nat.testBit_and, Nat.zero_testBit, hshift, Nat.testBit_shiftLeft]
  by_cases hi : 12 ≤ i
  · have hki : k < 2 ^ i := hk.trans_le (Nat.pow_le_pow_right (n := 2) two_pos hi)
    rw [Nat.testBit_lt_two_pow hki, Bool.and_false]
  · simp [hi]

/-- An entry made of a frame and low bits leads to the frame. -/
theorem entryTable_or_low (h : 4096 ∣ f) (hf : f + 4096 ≤ physicalTop)
    (hpresent : b &&& pagePresent = 1) (hhuge : b &&& pageHuge = 0)
    (hb : b &&& pageAddressMask = 0) : entryTable (f ||| b) = some f := by
  have hnot : ¬ ((f ||| b) &&& pagePresent = 0 ∨ (f ||| b) &&& pageHuge ≠ 0) := by
    rw [Nat.and_or_distrib_right, Nat.and_or_distrib_right, hpresent, hhuge,
      and_low_of_aligned h (show pagePresent < 4096 by decide),
      and_low_of_aligned h (show pageHuge < 4096 by decide)]
    decide
  rw [entryTable, if_neg hnot, Nat.and_or_distrib_right, mask_of_aligned h hf, hb, Nat.or_zero]

/-- A new entry leads to its table. -/
theorem entryTable_new (h : 4096 ∣ f) (hf : f + 4096 ≤ physicalTop) :
    entryTable (f ||| pagePresent ||| pageWritable ||| pageUser) = some f := by
  rw [Nat.lor_assoc, Nat.lor_assoc]
  exact entryTable_or_low h hf rfl rfl rfl

/-- Flags that do not touch what an entry leads to. -/
structure PlainFlags (flags : ℕ) : Prop where
  present : flags &&& pagePresent = 0
  huge : flags &&& pageHuge = 0
  address : flags &&& pageAddressMask = 0

theorem PlainFlags.entryTable_or (h : PlainFlags flags) (entry : ℕ) :
    entryTable (entry ||| flags) = entryTable entry := by
  rw [entryTable, entryTable, Nat.and_or_distrib_right, Nat.and_or_distrib_right,
    Nat.and_or_distrib_right, h.present, h.huge, h.address, Nat.or_zero, Nat.or_zero, Nat.or_zero]

/-- A new leaf, taken for a table, leads to its frame. -/
theorem PlainFlags.entryTable_leaf (h : PlainFlags flags) (pa : ℕ) :
    entryTable ((pa &&& pageAddressMask) ||| pagePresent ||| pageUser ||| flags) =
      some (pa &&& pageAddressMask) := by
  rw [h.entryTable_or, Nat.lor_assoc]
  refine entryTable_or_low ?_ (mask_lt pa) rfl rfl rfl
  rw [mask_eq]
  exact Dvd.intro_left _ rfl

/-! ### Paths of addresses -/

/-- The indices of a virtual address in the tables of the four levels. -/
def indices (address : ℕ) : List ℕ :=
  [pageTableIndex address 39, pageTableIndex address 30, pageTableIndex address 21,
    pageTableIndex address 12]

theorem pageTableIndex_eq (address shift : ℕ) :
    pageTableIndex address shift = address / 2 ^ shift % 512 := by
  rw [pageTableIndex, Nat.shiftRight_eq_div_pow]
  exact Nat.and_two_pow_sub_one_eq_mod _ 9

theorem pageTableIndex_lt (address shift : ℕ) : pageTableIndex address shift < entriesPerTable := by
  rw [pageTableIndex_eq]
  exact Nat.mod_lt _ (by decide)

/-- Two addresses have the same indices when their pages agree in their low 36 bits. -/
theorem indices_eq_iff : indices a = indices b ↔ a / 4096 % 2 ^ 36 = b / 4096 % 2 ^ 36 := by
  simp only [indices, pageTableIndex_eq, List.cons.injEq, and_true]
  omega

theorem valid_indices (h : pageTableIndex address 39 ∈ A) :
    Valid entriesPerTable 4 A (indices address) := by
  refine ⟨List.cons_ne_nil _ _, le_rfl, ?_, ?_⟩
  · intro i hi
    simp only [indices, List.mem_cons, List.not_mem_nil, or_false] at hi
    rcases hi with rfl | rfl | rfl | rfl <;> exact pageTableIndex_lt _ _
  · intro i hi
    cases hi
    exact h

/-! ### One table -/

/-- Nothing becomes free. -/
def Kept (fa fa' : FrameAllocator) : Prop := fa'.Sound ∧ ∀ x ∈ fa'.unused, x ∈ fa.unused

namespace PhysicalMemory

/-- What `next_table_user` does at the entry `w`. -/
inductive NextUser (m : PhysicalMemory) (hhdm w : ℕ) :
    Except MapError NextTable → PhysicalMemory → Prop
  | exhausted (h : m.frames.allocate = (none, m.frames)) :
      NextUser m hhdm w (.error .pageTableAllocationFailed) m
  | overflow {p : ℕ} {frames : FrameAllocator} (hp : p < physicalTop) (h : 2 ^ 64 ≤ hhdm + p)
      (hframes : Kept m.frames frames)
      (hsource : p ∈ m.frames.unused ∨ entryTable (m.words w) = some p) :
      NextUser m hhdm w (.error .addressOverflow) { m with frames }
  | huge (hpresent : entryPresent (m.words w) = true) (h : entryTable (m.words w) = none) :
      NextUser m hhdm w (.ok .hugePage) m
  | found {t : ℕ} (h : entryTable (m.words w) = some t) : NextUser m hhdm w (.ok (.table t)) m
  | new {f : ℕ} {frames : FrameAllocator} (habsent : entryPresent (m.words w) = false)
      (h : Allocated m.frames f frames) :
      NextUser m hhdm w (.ok (.table f)) ((zeroTable { m with frames } f).writeEntry w
        (f ||| pagePresent ||| pageWritable ||| pageUser))

theorem nextTableUser_spec (hsound : m.frames.Sound) (hhdm table index : ℕ) :
    NextUser m hhdm (table + 8 * index) (m.nextTableUser hhdm table index).1
      (m.nextTableUser hhdm table index).2 := by
  rw [nextTableUser]
  by_cases hpresent : m.words (table + 8 * index) &&& pagePresent = 0
  · rw [if_pos hpresent]
    rcases hsound.allocate with hnone | ⟨f, frames, hsome, hf⟩
    · rw [hnone]
      exact .exhausted hnone
    · rw [hsome]
      simp only
      cases hadd : checkedAdd hhdm f with
      | none =>
        have htop := hf.le_top
        exact .overflow (by omega) (checkedAdd_eq_none.mp hadd)
          ⟨hf.sound, fun x hx => (hf.left x hx).1⟩ (.inl (hf.taken f le_rfl (by omega)))
      | some _ => exact .new (entryPresent_eq_false.mpr hpresent) hf
  · rw [if_neg hpresent]
    have hpresent' : entryPresent (m.words (table + 8 * index)) = true := by
      rw [entryPresent, bne_iff_ne]
      exact hpresent
    by_cases hhuge : m.words (table + 8 * index) &&& pageHuge ≠ 0
    · rw [if_pos hhuge]
      exact .huge hpresent' (by rw [entryTable, if_pos (.inr hhuge)])
    · rw [if_neg hhuge]
      have htable : entryTable (m.words (table + 8 * index)) =
          some (m.words (table + 8 * index) &&& pageAddressMask) := by
        rw [entryTable, if_neg (not_or.mpr ⟨hpresent, hhuge⟩)]
      cases hadd : checkedAdd hhdm (m.words (table + 8 * index) &&& pageAddressMask) with
      | none =>
        have htop := mask_lt (m.words (table + 8 * index))
        exact .overflow (by omega) (checkedAdd_eq_none.mp hadd) ⟨hsound, fun x hx => hx⟩ (.inr htable)
      | some _ => exact .found htable

/-! ### Spaces -/

/-- The words of the tables below a root, through the root entries in `A`. -/
def tableWords (A : Set ℕ) (root : ℕ) (m : PhysicalMemory) : Set ℕ :=
  treeWords entryTable entriesPerTable 4 A m.words root

/-- The entry that maps the page with the given indices, and the indices that a huge page leaves. -/
def translation (m : PhysicalMemory) (root : ℕ) (path : List ℕ) : Option (ℕ × List ℕ) :=
  find entryTable entryPresent m.words root path

/-- The tables below a root, through the root entries in `A`, form a tree of memory in use. -/
structure Space (A : Set ℕ) (root : ℕ) (m : PhysicalMemory) : Prop where
  tree : Tree entryTable entriesPerTable 4 A m.words root
  sound : m.frames.Sound
  used : ∀ l ∈ tableWords A root m, l ∉ m.frames.unused

/-- Memory changes only in the tables of a space and in memory that was free. -/
structure Extends (A : Set ℕ) (root : ℕ) (m m' : PhysicalMemory) : Prop where
  space : Space A root m'
  grown : ∀ l ∈ tableWords A root m', l ∈ tableWords A root m ∨ l ∈ m.frames.unused
  unused : ∀ x ∈ m'.frames.unused, x ∈ m.frames.unused
  same : ∀ l, l ∉ tableWords A root m → l ∉ m.frames.unused → m'.words l = m.words l

section Spaces

variable {A : Set ℕ} {root : ℕ} {m m' m'' : PhysicalMemory}

theorem Extends.refl (h : Space A root m) : Extends A root m m :=
  ⟨h, fun _ hl => .inl hl, fun _ hx => hx, fun _ _ _ => rfl⟩

theorem Extends.trans (h : Extends A root m m') (h' : Extends A root m' m'') :
    Extends A root m m'' := by
  refine ⟨h'.space, ?_, fun x hx => h.unused x (h'.unused x hx), ?_⟩
  · intro l hl
    rcases h'.grown l hl with hl | hl
    · exact h.grown l hl
    · exact .inr (h.unused l hl)
  · intro l hl hunused
    rw [h'.same l ?_ fun hx => hunused (h.unused l hx), h.same l hl hunused]
    intro hl'
    rcases h.grown l hl' with hl' | hl'
    · exact hl hl'
    · exact hunused hl'

/-- A root without tables is a space of its own entries. -/
theorem space_of_empty (hsound : m.frames.Sound)
    (h : ∀ i ∈ A, i < entriesPerTable → entryTable (m.words (root + 8 * i)) = none)
    (hused : ∀ i ∈ A, i < entriesPerTable → root + 8 * i ∉ m.frames.unused) :
    Space A root m ∧ ∀ l ∈ tableWords A root m, ∃ i ∈ A, i < entriesPerTable ∧ l = root + 8 * i := by
  have hwords : ∀ l ∈ tableWords A root m, ∃ i ∈ A, i < entriesPerTable ∧ l = root + 8 * i := by
    rintro l ⟨p, hp, hl⟩
    obtain ⟨i, -, hi, hlt, hword⟩ := eq_singleton_of_empty h hp hl
    exact ⟨i, hi, hlt, hword⟩
  refine ⟨⟨tree_of_empty h, hsound, ?_⟩, hwords⟩
  intro l hl
  obtain ⟨i, hi, hlt, rfl⟩ := hwords l hl
  exact hused i hi hlt

/-- Frames may be lost. -/
theorem Space.keep (h : Space A root m) (hk : Kept m.frames frames) :
    Extends A root m { m with frames } :=
  ⟨⟨h.tree, hk.1, fun l hl hx => h.used l hl (hk.2 l hx)⟩, fun _ hl => .inl hl, hk.2,
    fun _ _ _ => rfl⟩

theorem mem_unused_of_page (h : Allocated fa f fa') (hl : l ∈ page entriesPerTable f) :
    l ∈ fa.unused := by
  obtain ⟨i, hi, rfl⟩ := hl
  rw [entriesPerTable] at hi
  exact h.taken _ (by omega) (by omega)

theorem not_mem_unused_of_page (h : Allocated fa f fa') (hl : l ∈ page entriesPerTable f) :
    l ∉ fa'.unused := by
  obtain ⟨i, hi, rfl⟩ := hl
  intro hx
  have hout := (h.left _ hx).2
  rw [entriesPerTable] at hi
  omega

section

variable (h : Space A root m) (hp : Valid entriesPerTable 4 A p) (hlength : p.length < 4)
    (hw : word entryTable m.words root p = some w) (habsent : entryPresent (m.words w) = false)
    (hf : Allocated m.frames f frames)
    (hm' : m' = (zeroTable { m with frames } f).writeEntry w
      (f ||| pagePresent ||| pageWritable ||| pageUser))

include h hp hlength hw habsent hf hm'

/-- A new table hangs below an entry that leads nowhere. -/
theorem Space.hangs : Hangs entryTable entriesPerTable 4 A m.words root p w
        (f ||| pagePresent ||| pageWritable ||| pageUser) f ∧
      Installed entriesPerTable m.words w (f ||| pagePresent ||| pageWritable ||| pageUser) f
        m'.words := by
  have hfresh (l : ℕ) (hl : l ∈ tableWords A root m) : l ∉ page entriesPerTable f :=
    fun hpage => h.used l hl (mem_unused_of_page hf hpage)
  have hwout : w ∉ page entriesPerTable f := hfresh w ⟨p, hp, hw⟩
  have hwords : m'.words = update (Words.fill m.words f entriesPerTable fun _ => 0) w
      (f ||| pagePresent ||| pageWritable ||| pageUser) := by
    rw [hm']
    rfl
  refine ⟨⟨hp, hlength, hw, entryTable_of_absent (entryPresent_eq_false.mp habsent),
    entryTable_new hf.aligned hf.le_top, rfl, hfresh⟩, ?_⟩
  rw [hwords]
  refine ⟨update_self _ _ _, ?_, ?_⟩
  · rintro l ⟨i, hi, rfl⟩
    rw [update_of_ne, Words.fill_apply hi]
    rintro rfl
    exact hwout ⟨i, hi, rfl⟩
  · intro l hne hout
    rw [update_of_ne hne, Words.fill_of_not_mem fun i hi heq => hout ⟨i, hi, heq⟩]

/-- A new table is hung into a space, at an entry that leads nowhere. -/
theorem Space.new : Extends A root m m' ∧ (∀ q, Valid entriesPerTable 4 A q → q.length = 4 →
        m'.translation root q = m.translation root q) ∧
      ∀ j, word entryTable m'.words root (p ++ [j]) = some (f + 8 * j) := by
  obtain ⟨hhangs, hinstalled⟩ := h.hangs hp hlength hw habsent hf hm'
  have hframes : m'.frames = frames := by rw [hm']; rfl
  obtain ⟨htree, hgrown⟩ := h.tree.install hhangs hinstalled
  refine ⟨⟨⟨htree, by rw [hframes]; exact hf.sound, ?_⟩, ?_, ?_, ?_⟩, ?_, ?_⟩
  · intro l hl hx
    rw [hframes] at hx
    rcases hgrown l hl with hold | hpage
    · exact h.used l hold (hf.left l hx).1
    · exact not_mem_unused_of_page hf hpage hx
  · intro l hl
    exact (hgrown l hl).imp_right (mem_unused_of_page hf)
  · rw [hframes]
    exact fun x hx => (hf.left x hx).1
  · intro l hl hunused
    refine hinstalled.same l ?_ fun hpage => hunused (mem_unused_of_page hf hpage)
    rintro rfl
    exact hl ⟨p, hp, hw⟩
  · intro q hq hfull
    exact h.tree.find_install hhangs hinstalled habsent rfl hq hfull
  · intro j
    exact word_concat_some
      ((h.tree.word_install hhangs hinstalled hp).2 (fun j hj => by simp at hj) ▸ hw)
      (by rw [hinstalled.entry, hhangs.leads]) j

end

end Spaces

/-! ### One page -/

/-- What mapping a page does to its translation: a missing one is made, a present one gains the
flags, and a huge page is left alone. -/
def mapped (physicalAddress flags : ℕ) : Option (ℕ × List ℕ) → Option (ℕ × List ℕ)
  | none => some ((physicalAddress &&& pageAddressMask) ||| pagePresent ||| pageUser ||| flags, [])
  | some (entry, []) => some (entry ||| flags, [])
  | some (entry, i :: rest) => some (entry, i :: rest)

/-- Why mapping a page fails: no frame is left, or the direct map does not cover all memory. -/
def Fails (hhdm root : ℕ) (m : PhysicalMemory) : Prop :=
  m.frames.allocate = (none, m.frames) ∨ 2 ^ 64 < hhdm + physicalTop ∨ 2 ^ 64 ≤ hhdm + root

/-- Every translation is as it was. -/
structure Unmapped (A : Set ℕ) (root : ℕ) (m m' : PhysicalMemory) : Prop
    extends Extends A root m m' where
  translations : ∀ q, Valid entriesPerTable 4 A q → q.length = 4 →
    m'.translation root q = m.translation root q

/-- The page with the indices `path` is mapped, or mapping it fails. -/
structure PageMapped (A : Set ℕ) (hhdm root : ℕ) (path : List ℕ) (physicalAddress flags : ℕ)
    (m : PhysicalMemory) (r : Except MapError Unit) (m' : PhysicalMemory) : Prop
    extends Extends A root m m' where
  others : ∀ q, Valid entriesPerTable 4 A q → q.length = 4 → q ≠ path →
    m'.translation root q = m.translation root q
  ok : r = .ok () →
    m'.translation root path = mapped physicalAddress flags (m.translation root path)
  failed : ∀ e, r = .error e → m'.translation root path = m.translation root path ∧
    Fails hhdm root m'

section Page

variable {A : Set ℕ} {hhdm root pa flags : ℕ} {path : List ℕ} {m m' m'' : PhysicalMemory}
  {r : Except MapError Unit}

theorem Unmapped.refl (h : Space A root m) : Unmapped A root m m :=
  ⟨.refl h, fun _ _ _ => rfl⟩

section

variable (h : Unmapped A root m m') (hpath : Valid entriesPerTable 4 A path)
    (hfull : path.length = 4)

include h hpath hfull

theorem Unmapped.pageMapped (h' : PageMapped A hhdm root path pa flags m' r m'') :
    PageMapped A hhdm root path pa flags m r m'' := by
  refine ⟨h.toExtends.trans h'.toExtends, ?_, ?_, ?_⟩
  · intro q hq hlength hne
    rw [h'.others q hq hlength hne, h.translations q hq hlength]
  · intro hr
    rw [h'.ok hr, h.translations path hpath hfull]
  · intro e hr
    rw [(h'.failed e hr).1, h.translations path hpath hfull]
    exact ⟨rfl, (h'.failed e hr).2⟩

theorem Unmapped.failed (e : MapError) (hfails : Fails hhdm root m') :
    PageMapped A hhdm root path pa flags m (.error e) m' := by
  refine ⟨h.toExtends, fun q hq hlength _ => h.translations q hq hlength, nofun, ?_⟩
  intro _ _
  exact ⟨h.translations path hpath hfull, hfails⟩

end

section

variable (h : Space A root m) (hpath : Valid entriesPerTable 4 A path) (hfull : path.length = 4)

include h hpath hfull

/-- The step from a table to the next: `rest` goes on from the table at the longer path. -/
theorem Space.orReturn (hsplit : path = p ++ j :: tail)
    (hword : word entryTable m.words root p = some (table + 8 * index))
    (hrest : ∀ t m', Space A root m' → word entryTable m'.words root (p ++ [j]) = some (t + 8 * j) →
      PageMapped A hhdm root path pa flags m' (rest t m').1 (rest t m').2) :
    PageMapped A hhdm root path pa flags m
      (PhysicalMemory.orReturn (m.nextTableUser hhdm table index) rest).1
      (PhysicalMemory.orReturn (m.nextTableUser hhdm table index) rest).2 := by
  have hp : Valid entriesPerTable 4 A p :=
    hpath.of_append hsplit (by rintro rfl; cases hword)
  have hlength : p.length < 4 := by
    rw [hsplit, List.length_append, List.length_cons] at hfull
    omega
  have hspec := nextTableUser_spec h.sound hhdm table index
  rcases hnext : m.nextTableUser hhdm table index with ⟨next, m'⟩
  rw [hnext] at hspec
  change NextUser m hhdm _ next m' at hspec
  cases hspec with
  | exhausted hnone => exact (Unmapped.refl h).failed hpath hfull _ (.inl hnone)
  | overflow htop hover hkept _ =>
    refine Unmapped.failed ⟨h.keep hkept, fun _ _ _ => rfl⟩ hpath hfull _ (.inr (.inl ?_))
    omega
  | huge hpresent hnone =>
    -- the walk of the page ends at the huge page
    have hfind : m.translation root path = some (m.words (table + 8 * index), j :: tail) :=
      find_eq_some.mpr ⟨p, _, hsplit, hword, rfl, hpresent, fun _ => hnone⟩
    refine ⟨.refl h, fun _ _ _ _ => rfl, fun _ => ?_, nofun⟩
    exact hfind.trans (by rw [hfind, mapped])
  | found htable => exact hrest _ m h (word_concat_some hword htable j)
  | new habsent hf =>
    obtain ⟨hext, hsame, hnew⟩ := h.new hp hlength hword habsent hf rfl
    exact Unmapped.pageMapped ⟨hext, hsame⟩ hpath hfull (hrest _ _ hext.space (hnew j))

/-- The entry of the page is written. -/
theorem Space.mapEntry (hword : word entryTable m.words root path = some pte)
    (hok : r = .ok ()) : PageMapped A hhdm root path pa flags m r (m.mapEntry pte pa flags) := by
  have hfind : m.translation root path =
      if entryPresent (m.words pte) then some (m.words pte, []) else none := find_of_word hword
  have hmapped : ∃ v, m.mapEntry pte pa flags = m.writeEntry pte v ∧ entryPresent v = true ∧
      some (v, []) = mapped pa flags (m.translation root path) := by
    rw [PhysicalMemory.mapEntry, hfind]
    by_cases habsent : m.words pte &&& pagePresent = 0
    · refine ⟨_, if_pos habsent, ?_, ?_⟩
      · exact entryPresent_new _ _ _
      · rw [entryPresent_eq_false.mpr habsent]
        rfl
    · have hpresent : entryPresent (m.words pte) = true := by
        rw [entryPresent, bne_iff_ne]
        exact habsent
      refine ⟨_, if_neg habsent, ?_, ?_⟩
      · rw [entryPresent_or, hpresent, Bool.true_or]
      · rw [hpresent]
        rfl
  obtain ⟨v, hwrite, hpresent, hv⟩ := hmapped
  rw [hwrite]
  have hsame (l : ℕ) (hl : l ≠ pte) : (m.writeEntry pte v).words l = m.words l := by
    rw [writeEntry_words, update_of_ne hl]
  have hwords := h.tree.treeWords_writeLeaf hpath hfull hword hsame
  refine ⟨⟨⟨h.tree.writeLeaf hpath hfull hword hsame, h.sound, ?_⟩, ?_, fun x hx => hx, ?_⟩, ?_, ?_, ?_⟩
  · rw [tableWords, hwords]
    exact h.used
  · intro l hl
    rw [tableWords, hwords] at hl
    exact .inl hl
  · intro l hl _
    refine hsame l ?_
    rintro rfl
    exact hl ⟨path, hpath, hword⟩
  · intro q hq hlength hne
    exact h.tree.find_writeLeaf hpath hfull hword hsame hq hne hlength
  · intro _
    have hword' := (h.tree.word_writeLeaf hpath hfull hword hsame hpath).trans hword
    have hentry : (m.writeEntry pte v).words pte = v := by
      rw [writeEntry_words, update_self]
    rw [← hv, translation, find_of_word hword', hentry, if_pos hpresent]
  · intro e he
    rw [hok] at he
    cases he

end

/-- **Mapping a page updates its translation and no other.** -/
theorem Space.mapUserPage (h : Space A root m) (hhdm pa flags : ℕ)
    (hva : pageTableIndex va 39 ∈ A) :
    PageMapped A hhdm root (indices va) pa flags m
      (m.mapUserPage root hhdm va pa flags).1 (m.mapUserPage root hhdm va pa flags).2 := by
  have hpath := valid_indices hva
  rw [PhysicalMemory.mapUserPage]
  cases hadd : checkedAdd hhdm root with
  | none => exact (Unmapped.refl h).failed hpath rfl _ (.inr (.inr (checkedAdd_eq_none.mp hadd)))
  | some _ =>
    refine h.orReturn hpath rfl (p := [pageTableIndex va 39]) rfl rfl ?_
    intro pdpt m₁ h₁ hpdpt
    refine h₁.orReturn hpath rfl (p := [pageTableIndex va 39, pageTableIndex va 30]) rfl hpdpt ?_
    intro pd m₂ h₂ hpd
    refine h₂.orReturn hpath rfl
      (p := [pageTableIndex va 39, pageTableIndex va 30, pageTableIndex va 21]) rfl hpd ?_
    intro pt m₃ h₃ hpt
    exact h₃.mapEntry hpath rfl hpt rfl

end Page

/-! ### A region -/

theorem mapUserPages_of_error (h : m.mapUserPage root hhdm vpage ppage flags = (.error e, m')) :
    mapUserPages size hsize m root hhdm flags endPage vpage ppage = (.error e, m') := by
  rw [mapUserPages, h]

theorem mapUserPages_last :
    mapUserPages size hsize m root hhdm flags vpage vpage ppage =
      m.mapUserPage root hhdm vpage ppage flags := by
  rw [mapUserPages]
  split
  · rename_i e m' h
    rw [h]
  · rename_i m' h
    rw [if_pos rfl, h]

theorem mapUserPages_next (h : m.mapUserPage root hhdm vpage ppage flags = (.ok (), m'))
    (hne : vpage ≠ endPage) (hvpage : vpage + size < 2 ^ 64) (hppage : ppage + size < 2 ^ 64) :
    mapUserPages size hsize m root hhdm flags endPage vpage ppage =
      mapUserPages size hsize m' root hhdm flags endPage (vpage + size) (ppage + size) := by
  rw [mapUserPages, h]
  simp only
  rw [if_neg hne]
  split
  · rename_i hnone
    exact absurd (checkedAdd_eq_none.mp hnone) (not_le.mpr hvpage)
  · rename_i vpage' hsome
    obtain ⟨-, rfl⟩ := checkedAdd_eq_some.mp hsome
    rw [checkedAdd_eq_some.mpr ⟨hppage, rfl⟩]

/-- The pages `v, v + 4096, …, v + 4096 * n` are mapped, or mapping one of them fails. -/
structure RegionMapped (A : Set ℕ) (hhdm root v p n flags : ℕ) (m : PhysicalMemory)
    (r : Except MapError Unit) (m' : PhysicalMemory) : Prop extends Extends A root m m' where
  others : ∀ q, Valid entriesPerTable 4 A q → q.length = 4 →
    (∀ i ≤ n, q ≠ indices (v + 4096 * i)) → m'.translation root q = m.translation root q
  ok : r = .ok () → ∀ i ≤ n, m'.translation root (indices (v + 4096 * i)) =
    mapped (p + 4096 * i) flags (m.translation root (indices (v + 4096 * i)))
  failed : ∀ e, r = .error e → Fails hhdm root m'

section Region

variable {A : Set ℕ} {hhdm root p v n flags : ℕ} {m : PhysicalMemory}

/-- **The loop updates the translations of its pages**, by induction on the pages that follow. -/
theorem Space.mapUserPages (h : Space A root m) (hhdm flags : ℕ)
    (hA : ∀ i ≤ n, pageTableIndex (v + 4096 * i) 39 ∈ A) (hv : v + 4096 * n < 2 ^ 64)
    (hp : p + 4096 * n < 2 ^ 64) (hn : n < 2 ^ 36) (hsize : 0 < size)
    (hpageSize : size = 4096) :
    RegionMapped A hhdm root v p n flags m
      (PhysicalMemory.mapUserPages size hsize m root hhdm flags (v + 4096 * n) v p).1
      (PhysicalMemory.mapUserPages size hsize m root hhdm flags (v + 4096 * n) v p).2 := by
  induction n generalizing v p m with
  | zero =>
    have hpage := h.mapUserPage hhdm p flags (hA 0 le_rfl)
    rw [Nat.mul_zero, Nat.add_zero] at hpage ⊢
    rw [mapUserPages_last]
    refine ⟨hpage.toExtends, ?_, ?_, fun e he => (hpage.failed e he).2⟩
    · intro q hq hfull hne
      exact hpage.others q hq hfull (by simpa using hne 0 le_rfl)
    · intro hok i hi
      rw [Nat.le_zero.mp hi, Nat.mul_zero, Nat.add_zero, Nat.add_zero]
      exact hpage.ok hok
  | succ n ih =>
    have hpage := h.mapUserPage hhdm p flags (hA 0 (Nat.zero_le _))
    rw [Nat.mul_zero, Nat.add_zero] at hpage
    have hdistinct (i : ℕ) (hi : i ≤ n) : indices (v + 4096 * (i + 1)) ≠ indices v := by
      intro heq
      have := indices_eq_iff.mp heq
      omega
    have hshift (x i : ℕ) : x + 4096 * (i + 1) = x + size + 4096 * i := by omega
    have hvalid (i : ℕ) (hi : i ≤ n + 1) := valid_indices (hA i hi)
    rcases hresult : m.mapUserPage root hhdm v p flags with ⟨r, m₁⟩
    rw [hresult] at hpage
    change PageMapped A hhdm root (indices v) p flags m r m₁ at hpage
    cases r with
    | error e =>
      rw [mapUserPages_of_error hresult]
      refine ⟨hpage.toExtends, ?_, nofun, fun _ _ => (hpage.failed e rfl).2⟩
      intro q hq hfull hne
      exact hpage.others q hq hfull (by simpa using hne 0 (Nat.zero_le _))
    | ok u =>
      have hrest := ih hpage.space
        (fun i hi => hshift v i ▸ hA (i + 1) (Nat.succ_le_succ hi)) (hshift v n ▸ hv)
        (hshift p n ▸ hp) (by omega)
      rw [mapUserPages_next hresult (by omega) (by omega) (by omega), hshift v n]
      refine ⟨hpage.toExtends.trans hrest.toExtends, ?_, ?_, hrest.failed⟩
      · intro q hq hfull hne
        rw [hrest.others q hq hfull fun i hi => hshift v i ▸ hne (i + 1) (Nat.succ_le_succ hi)]
        exact hpage.others q hq hfull (by simpa using hne 0 (Nat.zero_le _))
      · intro hok i hi
        cases i with
        | zero =>
          -- the first page is not among the pages that follow
          rw [hrest.others _ (hvalid 0 hi) rfl fun i hi => hshift v i ▸ (hdistinct i hi).symm]
          exact hpage.ok rfl
        | succ i =>
          have hi' : i ≤ n := Nat.le_of_succ_le_succ hi
          have hpages := hrest.ok hok i hi'
          rw [← hshift v i, ← hshift p i] at hpages
          rw [hpages, hpage.others _ (hvalid (i + 1) hi) rfl (hdistinct i hi')]

/-- A region starts at its first page, and its last page is the one of its last byte. -/
theorem mapUserRegion_eq (hv : 4096 ∣ v) (hp : 4096 ∣ p) (hlen : v + max len 1 ≤ 2 ^ 64)
    (hptop : p < 2 ^ 64) (hhdm root flags : ℕ) (m : PhysicalMemory) :
    m.mapUserRegion root hhdm v p len flags =
      PhysicalMemory.mapUserPages pageSize (by decide) m root hhdm flags
        (v + 4096 * ((max len 1 - 1) / 4096)) v p := by
  have hlast : v + (max len 1 - 1) < 2 ^ 64 := by omega
  have hend : maskLow 12 (v + (max len 1 - 1)) = v + 4096 * ((max len 1 - 1) / 4096) := by
    rw [maskLow_page hlast]
    omega
  have hstart : maskLow 12 v = v := by
    rw [maskLow_page (by omega)]
    omega
  have hphysical : maskLow 12 p = p := by
    rw [maskLow_page hptop]
    omega
  rw [mapUserRegion, checkedAdd_eq_some.mpr ⟨hlast, rfl⟩]
  simp only
  rw [hend, hstart, hphysical]

/-- A region of one page. -/
theorem mapUserRegion_page (hv : 4096 ∣ v) (hp : 4096 ∣ p) (hlen : len ≤ 4096)
    (hvtop : v + 4096 ≤ 2 ^ 64) (hptop : p < 2 ^ 64) (hhdm root flags : ℕ) (m : PhysicalMemory) :
    m.mapUserRegion root hhdm v p len flags = m.mapUserPage root hhdm v p flags := by
  rw [mapUserRegion_eq hv hp (by omega) hptop, show (max len 1 - 1) / 4096 = 0 by omega, Nat.mul_zero,
    Nat.add_zero, mapUserPages_last]

end Region

end PhysicalMemory

/-! ### Regions of virtual memory -/

/-- The addresses that the processor accepts. -/
def Canonical (address : ℕ) : Prop := address < 2 ^ 47 ∨ 2 ^ 64 - 2 ^ 47 ≤ address ∧ address < 2 ^ 64

/-- The entry that maps the page of a virtual address, and the indices that a huge page leaves. -/
def PhysicalMemory.translate (m : PhysicalMemory) (root address : ℕ) : Option (ℕ × List ℕ) :=
  m.translation root (indices address)

theorem translate_of_absent
    (h : entryPresent (m.words (root + 8 * pageTableIndex address 39)) = false) :
    m.translate root address = none :=
  find_of_absent (entryTable_of_absent (entryPresent_eq_false.mp h)) h

/-- A canonical range lies in one half of the address space. -/
theorem canonical_range (hlen : 0 < len) (h : ∀ x, v ≤ x → x < v + len → Canonical x) :
    v + len ≤ 2 ^ 47 ∨ 2 ^ 64 - 2 ^ 47 ≤ v ∧ v + len ≤ 2 ^ 64 := by
  have hfirst := h v le_rfl (by omega)
  have hlast := h (v + (len - 1)) (by omega) (by omega)
  by_cases hhole : v < 2 ^ 47 ∧ 2 ^ 47 ≤ v + (len - 1)
  · have := h (2 ^ 47) (by omega) (by omega)
    rw [Canonical] at this
    omega
  · rw [Canonical] at hfirst hlast
    omega

/-- **`map_user_region` updates the translations of its region and no other.** For a tree of tables
whose frames are not free, and a region without huge pages: if the call returns `Ok`, a page that had
no translation has the physical page with the flags, and a page that had one gains the flags and keeps
its frame. Every other translation is unchanged, also if the call fails. -/
theorem mapUserRegion_translation {m : PhysicalMemory} {root : ℕ} (hspace : m.Space Set.univ root)
    (hhdm v p len flags : ℕ) (hv : 4096 ∣ v) (hp : 4096 ∣ p)
    (hphysical : p + max len 1 ≤ 2 ^ 52)
    (hcanonical : ∀ x, v ≤ x → x < v + max len 1 → Canonical x)
    (hflags : flags &&& pageAddressMask = 0)
    (hhuge : ∀ x, v ≤ x → x < v + max len 1 →
      ∀ entry rest, m.translate root x = some (entry, rest) → rest = []) :
    ((m.mapUserRegion root hhdm v p len flags).1 = .ok () → ∀ i, 4096 * i < max len 1 →
      (m.translate root (v + 4096 * i) = none →
        ∃ entry, (m.mapUserRegion root hhdm v p len flags).2.translate root (v + 4096 * i) =
            some (entry, []) ∧
          entry = (p + 4096 * i) ||| pagePresent ||| pageUser ||| flags ∧
          entry &&& pageAddressMask = p + 4096 * i) ∧
      (∀ entry rest, m.translate root (v + 4096 * i) = some (entry, rest) →
        (m.mapUserRegion root hhdm v p len flags).2.translate root (v + 4096 * i) =
            some (entry ||| flags, []) ∧
          (entry ||| flags) &&& pageAddressMask = entry &&& pageAddressMask)) ∧
    ∀ u, Canonical u → (∀ i, 4096 * i < max len 1 → u / 4096 ≠ (v + 4096 * i) / 4096) →
      (m.mapUserRegion root hhdm v p len flags).2.translate root u = m.translate root u := by
  have hrange := canonical_range (by omega) hcanonical
  rw [PhysicalMemory.mapUserRegion_eq hv hp (by omega) (by omega)]
  have hpages (i : ℕ) : 4096 * i < max len 1 ↔ i ≤ (max len 1 - 1) / 4096 := by omega
  have hmapped : PhysicalMemory.RegionMapped Set.univ hhdm root v p ((max len 1 - 1) / 4096) flags m
      _ _ := hspace.mapUserPages hhdm flags (fun _ _ => Set.mem_univ _) (by omega) (by omega)
    (by omega) (show 0 < pageSize by decide) rfl
  refine ⟨?_, ?_⟩
  · intro hok i hi
    have htranslation := hmapped.ok hok i ((hpages i).mp hi)
    refine ⟨?_, ?_⟩
    · intro hnone
      have hframe : (p + 4096 * i) &&& pageAddressMask = p + 4096 * i :=
        mask_of_aligned (by omega) (show p + 4096 * i + 4096 ≤ 2 ^ 52 by omega)
      rw [PhysicalMemory.translate] at hnone
      rw [hnone, PhysicalMemory.mapped, hframe] at htranslation
      refine ⟨_, htranslation, rfl, ?_⟩
      rw [Nat.and_or_distrib_right, Nat.and_or_distrib_right, Nat.and_or_distrib_right, hframe, hflags,
        show pagePresent &&& pageAddressMask = 0 from rfl,
        show pageUser &&& pageAddressMask = 0 from rfl, Nat.or_zero, Nat.or_zero, Nat.or_zero]
    · intro entry rest hentry
      obtain rfl := hhuge (v + 4096 * i) (by omega) (by omega) entry rest hentry
      rw [PhysicalMemory.translate] at hentry
      rw [hentry, PhysicalMemory.mapped] at htranslation
      refine ⟨htranslation, ?_⟩
      rw [Nat.and_or_distrib_right, hflags, Nat.or_zero]
  · intro u hu hout
    refine hmapped.others (indices u) (valid_indices (Set.mem_univ _)) rfl ?_
    intro i hi heq
    refine hout i ((hpages i).mpr hi) ?_
    -- canonical addresses with the same indices lie in the same page
    have hindices := indices_eq_iff.mp heq
    have hpage := hcanonical (v + 4096 * i) (by omega) (by have := (hpages i).mpr hi; omega)
    rw [Canonical] at hu hpage
    omega

/-- Zeroed memory with free frames from two megabytes on. -/
def exampleMemory : PhysicalMemory where
  words _ := 0
  frames := ⟨true, 0x200000, 0x100000, 0, [⟨0x200000, 0x300000, 0x200000⟩]⟩

theorem exampleMemory_sound : exampleMemory.frames.Sound := by
  refine ⟨[⟨0x200000, 0x200000, 0x300000, le_rfl, by decide⟩], rfl, List.pairwise_singleton _ _, ?_⟩
  intro s hs
  rw [List.mem_singleton.mp hs]
  exact ⟨by decide, by decide⟩

theorem exampleMemory_space (A : Set ℕ) : exampleMemory.Space A 0x1000 := by
  refine (PhysicalMemory.space_of_empty exampleMemory_sound
    (fun _ _ _ => entryTable_of_absent (Nat.zero_and _)) ?_).1
  rintro i - hi ⟨r, hr, hle, -⟩
  rw [List.mem_singleton.mp hr] at hle
  rw [entriesPerTable] at hi
  change 0x200000 ≤ 0x1000 + 8 * i at hle
  omega

/-- A page is mapped into an empty space. -/
theorem mapUserRegion_translation_one_page :
    ∃ entry, (exampleMemory.mapUserRegion 0x1000 0 0x400000 0x9000 0x800 6).2.translate 0x1000
        0x400000 = some (entry, []) ∧ entry &&& pageAddressMask = 0x9000 := by
  have hempty (x : ℕ) : exampleMemory.translate 0x1000 x = none :=
    translate_of_absent (entryPresent_eq_false.mpr (Nat.zero_and _))
  have hok : (exampleMemory.mapUserRegion 0x1000 0 0x400000 0x9000 0x800 6).1 = .ok () := by
    rw [PhysicalMemory.mapUserRegion_page (by decide) (by decide) (by decide) (by decide) (by decide)]
    decide +kernel
  obtain ⟨hmapped, -⟩ := mapUserRegion_translation (exampleMemory_space Set.univ)
    0 0x400000 0x9000 0x800 6 (by decide) (by decide) (by decide)
    (fun x _ hx => .inl (hx.trans (by decide))) (by decide)
    (fun x _ _ entry rest hentry => by rw [hempty] at hentry; cases hentry)
  obtain ⟨entry, hentry, -, hframe⟩ := (hmapped hok 0 (by decide)).1 (hempty _)
  exact ⟨entry, hentry, hframe⟩

/-- A region of no bytes still maps a page. At the physical address `2 ^ 52` its frame is `0`. -/
theorem mapUserRegion_drops_address_bit :
    exampleMemory.Space Set.univ 0x1000 ∧ 2 ^ 52 + 0 ≤ 2 ^ 52 ∧
    exampleMemory.translate 0x1000 0 = none ∧
    (exampleMemory.mapUserRegion 0x1000 0 0 (2 ^ 52) 0 6).1 = .ok () ∧
    ∃ entry, (exampleMemory.mapUserRegion 0x1000 0 0 (2 ^ 52) 0 6).2.translate 0x1000 0 =
      some (entry, []) ∧ entry &&& pageAddressMask = 0 := by
  rw [PhysicalMemory.mapUserRegion_page (by decide) (by decide) (by decide) (by decide) (by decide)]
  exact ⟨exampleMemory_space Set.univ, le_rfl, rfl, by decide +kernel, 7, by decide +kernel,
    by decide +kernel⟩

end Hxnu.Arch
