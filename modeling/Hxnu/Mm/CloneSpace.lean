import Hxnu.Arch.UserMemory
import Hxnu.Lib.TableCopy

/-!
# Copies of user spaces

The function `clone_space` of `kernel/src/mm/vmm.rs`, which `fork` uses: it gives the child a root
with the kernel half of the parent's, and copies the tables and the pages of the user half.

Physical memory is visible at `0xFFFF_8000_0000_0000`, and a pointer that `phys_to_virt` makes is the
physical address it stands for. The four loops of the source are one loop at four levels. A frame
that cannot be allocated makes `unwrap` panic, except for the root.

## Main definitions

* `cloneSpace`: `clone_space`; the result is missing when it panics.
* `framesNeeded`: how many frames it takes.
* `Parent`: the tables and pages of the parent are in use, and its entries are plain.
* `Cloned`: what the child has.

## Main results

* `cloneEntry_spec`, `cloneEntries_spec`: one entry and the first entries of a table are copied.
* `cloneSpace_copies`: the child has a copy of each page of the parent.
-/

namespace Hxnu.Mm.Vmm

open Word Mm.Frame Arch Tables Function

variable {e f i : ℕ} {m : PhysicalMemory}

/-! ### The source -/

/-- `copy_nonoverlapping` of a page. -/
def copyPage (m : PhysicalMemory) (source target : ℕ) : PhysicalMemory :=
  { m with words := Words.fill m.words target entriesPerTable fun i => m.words (source + 8 * i) }

theorem copyPage_words (m : PhysicalMemory) (source target : ℕ) : (copyPage m source target).words =
    Words.fill m.words target entriesPerTable fun i => m.words (source + 8 * i) := rfl

/-- The body of the loop over the entries of a table with `level` levels of tables below it: an entry
that is present gets a table of its own, or at the last level a page of its own. -/
def cloneEntry : ℕ → ℕ → ℕ → PhysicalMemory → ℕ → Option PhysicalMemory
  | 0, parent, child, m, i =>
    let entry := m.words (parent + 8 * i)
    if entry &&& 1 = 0 then some m
    else
      match m.frames.allocate with
      | (none, _) => none
      | (some frame, frames) =>
        some ((copyPage { m with frames } (maskLow 12 entry) frame).writeEntry (child + 8 * i)
          (frame ||| (entry &&& 0xfff)))
  | level + 1, parent, child, m, i =>
    let entry := m.words (parent + 8 * i)
    if entry &&& 1 = 0 then some m
    else
      match m.frames.allocate with
      | (none, _) => none
      | (some frame, frames) =>
        (List.range entriesPerTable).foldlM (cloneEntry level (maskLow 12 entry) frame)
          ((PhysicalMemory.zeroTable { m with frames } frame).writeEntry (child + 8 * i)
            (frame ||| 7))

/-- The loop over the first `n` entries of a table. -/
def cloneEntries (n level parent child : ℕ) (m : PhysicalMemory) : Option PhysicalMemory :=
  (List.range n).foldlM (cloneEntry level parent child) m

/-- The new root: the kernel half of the parent's, and an empty user half. -/
def copyRoot (m : PhysicalMemory) (parentPml4 childPml4 : ℕ) : PhysicalMemory :=
  { m with
    words := Words.fill
      (Words.fill m.words (childPml4 + 8 * kernelHigherHalfStart)
        (entriesPerTable - kernelHigherHalfStart)
        fun i => m.words (parentPml4 + 8 * kernelHigherHalfStart + 8 * i))
      childPml4 kernelHigherHalfStart fun _ => 0 }

section CopyRoot

variable {m : PhysicalMemory} {parentPml4 childPml4 i l : ℕ}

theorem copyRoot_words : (copyRoot m parentPml4 childPml4).words = Words.fill
    (Words.fill m.words (childPml4 + 8 * kernelHigherHalfStart)
      (entriesPerTable - kernelHigherHalfStart)
      fun i => m.words (parentPml4 + 8 * kernelHigherHalfStart + 8 * i))
    childPml4 kernelHigherHalfStart fun _ => 0 := rfl

theorem copyRoot_low (hi : i < kernelHigherHalfStart) :
    (copyRoot m parentPml4 childPml4).words (childPml4 + 8 * i) = 0 := by
  rw [copyRoot_words, Words.fill_apply hi]

theorem copyRoot_high (hle : kernelHigherHalfStart ≤ i) (hlt : i < entriesPerTable) :
    (copyRoot m parentPml4 childPml4).words (childPml4 + 8 * i) = m.words (parentPml4 + 8 * i) := by
  obtain ⟨j, rfl⟩ := Nat.exists_eq_add_of_le hle
  have hsource : parentPml4 + 8 * (kernelHigherHalfStart + j) =
      parentPml4 + 8 * kernelHigherHalfStart + 8 * j := by omega
  have htarget : childPml4 + 8 * (kernelHigherHalfStart + j) =
      childPml4 + 8 * kernelHigherHalfStart + 8 * j := by omega
  rw [copyRoot_words, hsource, htarget, Words.fill_of_ge (by omega),
    Words.fill_apply (show j < entriesPerTable - kernelHigherHalfStart by omega)]

theorem copyRoot_of_not_mem (hl : l ∉ page entriesPerTable childPml4) :
    (copyRoot m parentPml4 childPml4).words l = m.words l := by
  have hle : kernelHigherHalfStart ≤ entriesPerTable := by decide
  rw [copyRoot_words, Words.fill_of_not_mem, Words.fill_of_not_mem]
  · rintro i hi rfl
    exact hl ⟨kernelHigherHalfStart + i, by omega, by omega⟩
  · rintro i hi rfl
    exact hl ⟨i, by omega, rfl⟩

end CopyRoot

/-- `clone_space`: the root of the child, which is `0` if there is no frame for it, and the memory
after the call; nothing if it panics. -/
def cloneSpace (m : PhysicalMemory) (parentPml4 : ℕ) : Option (ℕ × PhysicalMemory) :=
  match m.frames.allocate with
  | (none, frames) => some (0, { m with frames })
  | (some childPml4, frames) =>
    (cloneEntries kernelHigherHalfStart 3 parentPml4 childPml4
      (copyRoot { m with frames } parentPml4 childPml4)).map fun m => (childPml4, m)

theorem cloneEntries_succ (n level parent child : ℕ) (m : PhysicalMemory) :
    cloneEntries (n + 1) level parent child m =
      (cloneEntries n level parent child m).bind fun m => cloneEntry level parent child m n := by
  rw [cloneEntries, List.range_succ, List.foldlM_append]
  refine congrArg (Option.bind _) (funext fun m => ?_)
  rw [List.foldlM_cons]
  exact bind_pure _

/-! ### Entries -/

/-- How the entries of page tables are read. -/
def pageFormat : EntryFormat where
  size := entriesPerTable
  next := entryTable
  present := entryPresent
  frame e := e &&& pageAddressMask
  sameFlags e e' := e' &&& 0xfff = e &&& 0xfff

theorem maskLow_of_lt (h : e < 2 ^ 52) : maskLow 12 e = e &&& pageAddressMask := by
  rw [maskLow_page (by omega), mask_eq]
  omega

/-- A plain entry leads to the table that `clone_space` reads. -/
theorem entryTable_of_plain (hpresent : e &&& 1 ≠ 0) (hhuge : e &&& pageHuge = 0)
    (hlt : e < 2 ^ 52) : entryTable e = some (maskLow 12 e) := by
  have hplain : ¬(e &&& pagePresent = 0 ∨ e &&& pageHuge ≠ 0) :=
    not_or.mpr ⟨hpresent, not_not.mpr hhuge⟩
  rw [entryTable, if_neg hplain, maskLow_of_lt hlt]

theorem low_and_mask (e : ℕ) : e &&& 0xfff &&& pageAddressMask = 0 := by
  rw [Nat.and_assoc, show 0xfff &&& pageAddressMask = 0 from rfl, Nat.and_zero]

/-- The entry of a copied page has the new frame and the flags of the original. -/
theorem frame_or_low (hf : 4096 ∣ f) (htop : f + 4096 ≤ physicalTop) (e : ℕ) :
    (f ||| (e &&& 0xfff)) &&& pageAddressMask = f ∧ (f ||| (e &&& 0xfff)) &&& 0xfff = e &&& 0xfff := by
  rw [Nat.and_or_distrib_right, Nat.and_or_distrib_right, low_and_mask, mask_of_aligned hf htop,
    and_low_of_aligned hf (by decide), Nat.and_assoc, Nat.and_self, Nat.or_zero, Nat.zero_or]
  exact ⟨rfl, rfl⟩

theorem entryPresent_or_low (f : ℕ) (h : entryPresent e = true) :
    entryPresent (f ||| (e &&& 0xfff)) = true := by
  rw [entryPresent_eq_testBit] at h ⊢
  rw [Nat.testBit_or, Nat.testBit_and, h, show Nat.testBit 0xfff 0 = true from rfl, Bool.and_true,
    Bool.or_true]

theorem entryTable_or_seven (hf : 4096 ∣ f) (htop : f + 4096 ≤ physicalTop) :
    entryTable (f ||| 7) = some f :=
  entryTable_or_low hf htop rfl rfl rfl

/-! ### Frames taken -/

/-- From `m` to `m'`, `count` frames are taken; memory changes only at `S` and where it was free. -/
structure Takes (m m' : PhysicalMemory) (S : Set ℕ) (count : ℕ) : Prop where
  sound : m'.frames.Sound
  initialized : m'.frames.initialized = true
  unused : m'.frames.unused ⊆ m.frames.unused
  same : ∀ l ∉ S, l ∉ m.frames.unused → m'.words l = m.words l
  available : m'.frames.available + count = m.frames.available

section Takes

variable {m m' m'' : PhysicalMemory} {S T : Set ℕ} {a b : ℕ}

theorem Takes.refl (hsound : m.frames.Sound) (hinit : m.frames.initialized = true) (S : Set ℕ) :
    Takes m m S 0 :=
  ⟨hsound, hinit, subset_rfl, fun _ _ _ => rfl, rfl⟩

theorem Takes.trans (h : Takes m m' S a) (h' : Takes m' m'' T b) (hT : T ⊆ S ∪ m.frames.unused) :
    Takes m m'' S (a + b) := by
  refine ⟨h'.sound, h'.initialized, h'.unused.trans h.unused, ?_, ?_⟩
  · intro l hS hl
    rw [h'.same l (fun hT' => (hT hT').elim hS hl) fun hx => hl (h.unused hx), h.same l hS hl]
  · have hfirst := h.available
    have hsecond := h'.available
    omega

theorem Takes.mono (h : Takes m m' S a) (hST : S ⊆ T) : Takes m m' T a :=
  ⟨h.sound, h.initialized, h.unused, fun l hl hx => h.same l (fun hS => hl (hST hS)) hx, h.available⟩

/-- A frame is taken and written, together with `S`. -/
theorem takes_frame (hf : Allocated m.frames f frames)
    (hsame : ∀ l ∉ S, l ∉ page entriesPerTable f → words l = m.words l) :
    Takes m ⟨words, frames⟩ S 1 := by
  refine ⟨hf.sound, hf.initialized, fun x hx => (hf.left x hx).1, ?_, hf.available⟩
  exact fun l hS hl => hsame l hS fun hpage => hl (PhysicalMemory.mem_unused_of_page hf hpage)

end Takes

/-! ### The levels -/

/-- The number of frames that the copy of what is below an entry takes. -/
def framesFor (m : PhysicalMemory) : ℕ → ℕ → ℕ
  | 0, w => if m.words w &&& 1 = 0 then 0 else 1
  | k + 1, w =>
    if m.words w &&& 1 = 0 then 0
    else 1 + ∑ i ∈ Finset.range entriesPerTable, framesFor m k (maskLow 12 (m.words w) + 8 * i)

/-- What is below an entry, in `k` levels, is in use; its entries have no bits above bit 51, and do
not map huge pages. -/
def Source (m : PhysicalMemory) (k w : ℕ) : Prop :=
  ∀ p l, p.length ≤ k → (∀ i ∈ p, i < entriesPerTable) → reach entryTable m.words w p = some l →
    l ∉ m.frames.unused ∧ (entryPresent (m.words l) = true → m.words l < 2 ^ 52 ∧
      (p.length < k → m.words l &&& pageHuge = 0) ∧
      (p.length = k → Disjoint (pageFormat.pageOf (m.words l)) m.frames.unused))

theorem Source.below (h : Source m (k + 1) w) (ht : entryTable (m.words w) = some t)
    (hi : i < entriesPerTable) : Source m k (t + 8 * i) := by
  intro p l hlength hp hl
  obtain ⟨hused, hplain⟩ := h (i :: p) l (Nat.succ_le_succ hlength)
    (List.forall_mem_cons.mpr ⟨hi, hp⟩) ((reach_cons_some ht).trans hl)
  refine ⟨hused, fun hpresent => ?_⟩
  obtain ⟨hlt, hhuge, hpage⟩ := hplain hpresent
  exact ⟨hlt, fun hp => hhuge (Nat.succ_lt_succ hp), fun hp => hpage (congrArg Nat.succ hp)⟩

/-- The body of the loop at level `k` copies an entry of the memory `m₀`, whatever has been copied
before, into an empty entry. -/
def CopiesEntry (m₀ : PhysicalMemory) (k : ℕ) : Prop :=
  ∀ {m : PhysicalMemory} {parent child i c : ℕ}, Takes m₀ m ∅ c → Source m₀ k (parent + 8 * i) →
    child + 8 * i ∈ m₀.frames.unused → child + 8 * i ∉ m.frames.unused →
    m.words (child + 8 * i) = 0 → framesFor m₀ k (parent + 8 * i) ≤ m.frames.available →
    ∃ m', cloneEntry k parent child m i = some m' ∧
      Takes m m' {child + 8 * i} (framesFor m₀ k (parent + 8 * i)) ∧
      pageFormat.Copied k m₀.words (parent + 8 * i) m'.words (child + 8 * i)
        (m.frames.unused \ m'.frames.unused)

section Levels

variable {m₀ m : PhysicalMemory} {k parent child c : ℕ}

/-- **The first entries of a table are copied**, by induction on their number. -/
theorem cloneEntries_spec (hentry : CopiesEntry m₀ k) (hm : Takes m₀ m ∅ c)
    (hsource : ∀ i < n, Source m₀ k (parent + 8 * i))
    (hslots : ∀ i < n, child + 8 * i ∈ m₀.frames.unused ∧ child + 8 * i ∉ m.frames.unused ∧ m.words
      (child + 8 * i) = 0)
    (hcount : ∑ i ∈ Finset.range n, framesFor m₀ k (parent + 8 * i) ≤ m.frames.available) :
    ∃ m', cloneEntries n k parent child m = some m' ∧
      Takes m m' (page n child) (∑ i ∈ Finset.range n, framesFor m₀ k (parent + 8 * i)) ∧
      pageFormat.CopiedTable n k m₀.words parent m'.words child
        (m.frames.unused \ m'.frames.unused) := by
  induction n with
  | zero => exact ⟨m, rfl, Takes.refl hm.sound hm.initialized _, .zero⟩
  | succ n ih =>
    rw [Finset.sum_range_succ] at hcount ⊢
    obtain ⟨m₁, hrun, htakes, hcopied⟩ := ih (fun i hi => hsource i (hi.trans n.lt_succ_self))
      (fun i hi => hslots i (hi.trans n.lt_succ_self)) (by omega)
    obtain ⟨hslot, hused, hzero⟩ := hslots n n.lt_succ_self
    have hpage : page n child ⊆ m₀.frames.unused := by
      rintro l ⟨i, hi, rfl⟩
      exact (hslots i (hi.trans n.lt_succ_self)).1
    have hnext : child + 8 * n ∉ page n child := by
      rintro ⟨i, hi, heq⟩
      omega
    have havailable := htakes.available
    obtain ⟨m₂, hrun₂, htakes₂, hcopied₂⟩ := hentry
      (hm.trans htakes fun l hl => .inr (hpage hl)) (hsource n n.lt_succ_self) hslot
      (fun hx => hused (htakes.unused hx)) ((htakes.same _ hnext hused).trans hzero) (by omega)
    refine ⟨m₂, ?_, ?_, ?_⟩
    · rw [cloneEntries_succ, hrun]
      exact hrun₂
    · refine (htakes.mono ?_).trans htakes₂ ?_
      · rintro l ⟨i, hi, rfl⟩
        exact ⟨i, hi.trans n.lt_succ_self, rfl⟩
      · rintro l rfl
        exact .inl ⟨n, n.lt_succ_self, rfl⟩
    · refine hcopied.succ hcopied₂ ?_ ?_ ?_ ?_ ?_
      · exact Set.disjoint_left.mpr fun l hl hl' => hl.2 hl'.1
      · intro i hi
        have hne : child + 8 * i ≠ child + 8 * n := by omega
        exact htakes₂.same _ hne fun hx =>
          (hslots i (hi.trans n.lt_succ_self)).2.1 (htakes.unused hx)
      · intro l hl
        refine htakes₂.same l ?_ hl.2
        rintro rfl
        exact hused hl.1
      · exact Set.sdiff_subset_sdiff_right htakes₂.unused
      · exact Set.sdiff_subset_sdiff_left htakes.unused

/-- The frame that is allocated when one is left. -/
theorem Takes.allocate (hm : Takes m₀ m ∅ c) (havailable : 0 < m.frames.available) :
    ∃ f frames, m.frames.allocate = (some f, frames) ∧ Allocated m.frames f frames := by
  rcases hm.sound.allocate with hnone | hsome
  · have hzero := hm.sound.available_of_none hm.initialized (by rw [hnone])
    omega
  · exact hsome

/-- An entry that is absent is left empty. -/
theorem cloneEntry_absent (hm : Takes m₀ m ∅ c)
    (hw : m.words (parent + 8 * i) = m₀.words (parent + 8 * i))
    (habsent : m₀.words (parent + 8 * i) &&& 1 = 0) (hzero : m.words (child + 8 * i) = 0) :
    ∃ m', cloneEntry k parent child m i = some m' ∧
      Takes m m' {child + 8 * i} (framesFor m₀ k (parent + 8 * i)) ∧
      pageFormat.Copied k m₀.words (parent + 8 * i) m'.words (child + 8 * i)
        (m.frames.unused \ m'.frames.unused) := by
  have hcopied : pageFormat.Copied k m₀.words (parent + 8 * i) m.words (child + 8 * i)
      (m.frames.unused \ m.frames.unused) := by
    refine EntryFormat.copied_of_absent (entryTable_of_absent habsent)
      (entryPresent_eq_false.mpr habsent) ?_ ?_
    · rw [hzero]
      rfl
    · rw [hzero]
      rfl
  have hrun : cloneEntry k parent child m i = some m := by
    cases k <;> rw [cloneEntry, if_pos (hw ▸ habsent)]
  have hframes : framesFor m₀ k (parent + 8 * i) = 0 := by
    cases k <;> rw [framesFor, if_pos habsent]
  exact ⟨m, hrun, hframes ▸ Takes.refl hm.sound hm.initialized _, hcopied⟩

/-- **A page is copied.** -/
theorem copiesEntry_zero : CopiesEntry m₀ 0 := by
  intro m parent child i c hm hsource hslot hused hzero hcount
  obtain ⟨hwused, hplain⟩ := hsource [] _ le_rfl nofun rfl
  have hw : m.words (parent + 8 * i) = m₀.words (parent + 8 * i) := hm.same _ (Set.notMem_empty _) hwused
  by_cases habsent : m₀.words (parent + 8 * i) &&& 1 = 0
  · exact cloneEntry_absent hm hw habsent hzero
  have hpresent : entryPresent (m₀.words (parent + 8 * i)) = true := bne_iff_ne.mpr habsent
  obtain ⟨hlt, -, hpage⟩ := hplain hpresent
  rw [framesFor, if_neg habsent] at hcount
  obtain ⟨f, frames, hallocate, hf⟩ := hm.allocate hcount
  have hout : child + 8 * i ∉ page entriesPerTable f :=
    fun hpage => hused (PhysicalMemory.mem_unused_of_page hf hpage)
  refine ⟨(copyPage { m with frames } (maskLow 12 (m₀.words (parent + 8 * i))) f).writeEntry
    (child + 8 * i) (f ||| (m₀.words (parent + 8 * i) &&& 0xfff)), ?_, ?_, ?_⟩
  · rw [cloneEntry, if_neg (hw ▸ habsent), hallocate, hw]
  · rw [framesFor, if_neg habsent]
    refine takes_frame hf fun l hne hl => ?_
    rw [update_of_ne hne, copyPage_words,
      Words.fill_of_not_mem fun j hj heq => hl ⟨j, hj, heq⟩]
  · obtain ⟨hframe, hlow⟩ := frame_or_low hf.aligned hf.le_top (m₀.words (parent + 8 * i))
    refine EntryFormat.CopiedPage.entry ?_ hpresent ?_
    all_goals rw [PhysicalMemory.writeEntry_words, update_self]
    · refine ⟨hlow, ?_, ?_⟩
      · intro x hx
        rw [EntryFormat.pageOf] at hx
        change x ∈ Set.Ico (_ &&& pageAddressMask) ((_ &&& pageAddressMask) + 8 * entriesPerTable) at hx
        rw [hframe, entriesPerTable] at hx
        exact ⟨hf.taken x hx.1 hx.2, fun hx' => by
          have hleft := (hf.left x hx').2
          have hlow := hx.1
          have hhigh := hx.2
          omega⟩
      · intro j hj
        change j < entriesPerTable at hj
        change update _ _ _ ((_ &&& pageAddressMask) + 8 * j) = _
        rw [hframe, update_of_ne fun heq => hout ⟨j, hj, heq.symm⟩, copyPage_words,
          Words.fill_apply hj, maskLow_of_lt hlt]
        refine hm.same _ (Set.notMem_empty _) (Set.disjoint_left.mp (hpage rfl) ⟨Nat.le_add_right _ _, ?_⟩)
        exact Nat.add_lt_add_left (Nat.mul_lt_mul_of_pos_left hj (by decide)) _
    · exact entryPresent_or_low f hpresent

/-- **A table is copied**, once its entries are. -/
theorem copiesEntry_succ (hentry : CopiesEntry m₀ k) : CopiesEntry m₀ (k + 1) := by
  intro m parent child i c hm hsource hslot hused hzero hcount
  obtain ⟨hwused, hplain⟩ := hsource [] _ (Nat.zero_le _) nofun rfl
  have hw : m.words (parent + 8 * i) = m₀.words (parent + 8 * i) := hm.same _ (Set.notMem_empty _) hwused
  by_cases habsent : m₀.words (parent + 8 * i) &&& 1 = 0
  · exact cloneEntry_absent hm hw habsent hzero
  obtain ⟨hlt, hhuge, -⟩ := hplain (bne_iff_ne.mpr habsent)
  have hnext := entryTable_of_plain habsent (hhuge (Nat.succ_pos k)) hlt
  rw [framesFor, if_neg habsent] at hcount ⊢
  obtain ⟨f, frames, hallocate, hf⟩ := hm.allocate (by omega)
  have hout : child + 8 * i ∉ page entriesPerTable f :=
    fun hpage => hused (PhysicalMemory.mem_unused_of_page hf hpage)
  let m₁ := (PhysicalMemory.zeroTable { m with frames } f).writeEntry (child + 8 * i) (f ||| 7)
  have htakes : Takes m m₁ {child + 8 * i} 1 := by
    refine takes_frame hf fun l hne hl => ?_
    rw [update_of_ne hne, PhysicalMemory.zeroTable_words,
      Words.fill_of_not_mem fun j hj heq => hl ⟨j, hj, heq⟩]
  have hm₁ : Takes m₀ m₁ ∅ (c + 1) := by
    refine hm.trans htakes ?_
    rintro l rfl
    exact .inr hslot
  have havailable := htakes.available
  have hslots : ∀ j < entriesPerTable, f + 8 * j ∈ m₀.frames.unused ∧
      f + 8 * j ∉ m₁.frames.unused ∧ m₁.words (f + 8 * j) = 0 := by
    intro j hj
    have hmem : f + 8 * j ∈ page entriesPerTable f := ⟨j, hj, rfl⟩
    refine ⟨hm.unused (PhysicalMemory.mem_unused_of_page hf hmem),
      PhysicalMemory.not_mem_unused_of_page hf hmem, ?_⟩
    have hne : f + 8 * j ≠ child + 8 * i := fun heq => hout (heq ▸ hmem)
    change update _ _ _ _ = 0
    rw [update_of_ne hne, PhysicalMemory.zeroTable_words, Words.fill_apply hj]
  obtain ⟨m', hrun, htakes', hcopied⟩ := cloneEntries_spec hentry hm₁
    (fun j hj => hsource.below hnext hj) hslots (by omega)
  have hpage : page entriesPerTable f ⊆ m.frames.unused :=
    fun l hl => PhysicalMemory.mem_unused_of_page hf hl
  have hword : m'.words (child + 8 * i) = f ||| 7 := by
    rw [htakes'.same _ hout fun hx => hused (htakes.unused hx)]
    exact update_self _ _ _
  refine ⟨m', ?_, ?_, ?_⟩
  · rw [cloneEntry, if_neg (hw ▸ habsent), hallocate, hw]
    exact hrun
  · exact htakes.trans htakes' fun l hl => .inr (hpage hl)
  · refine (hcopied.mono (Set.sdiff_subset_sdiff_left htakes.unused)).entry hnext ?_ ?_
    · rw [hword]
      exact entryTable_or_seven hf.aligned hf.le_top
    · exact fun l hl => ⟨hpage hl, fun hx =>
        PhysicalMemory.not_mem_unused_of_page hf hl (htakes'.unused hx)⟩

theorem copiesEntry (k : ℕ) : CopiesEntry m₀ k := by
  induction k with
  | zero => exact copiesEntry_zero
  | succ k ih => exact copiesEntry_succ ih

end Levels

/-! ### The child -/

/-- The number of frames that `clone_space` takes. -/
def framesNeeded (m : PhysicalMemory) (parentPml4 : ℕ) : ℕ :=
  1 + ∑ i ∈ Finset.range kernelHigherHalfStart, framesFor m 3 (parentPml4 + 8 * i)

/-- The addresses of the page that an entry at full depth maps. -/
def pageOf (entry : ℕ) : Set ℕ :=
  Set.Ico (entry &&& pageAddressMask) ((entry &&& pageAddressMask) + 4096)

/-- The tables and the pages of the parent are in use. In its lower half there is no huge page, and
no entry has bits above bit 51. -/
structure Parent (m : PhysicalMemory) (root : ℕ) : Prop where
  aligned : 4096 ∣ root
  root_used : ∀ i < entriesPerTable, root + 8 * i ∉ m.frames.unused
  tables_used : ∀ l ∈ m.tableWords userIndices root, l ∉ m.frames.unused
  pages_used : ∀ va < 2 ^ 47, ∀ e, m.translate root va = some (e, []) →
    Disjoint (pageOf e) m.frames.unused
  plain : ∀ p l, Valid entriesPerTable 4 userIndices p → word entryTable m.words root p = some l →
    entryPresent (m.words l) = true →
      m.words l < 2 ^ 52 ∧ (p.length < 4 → m.words l &&& pageHuge = 0)

/-- The page that `e'` maps in `m'` is a copy of the page that `e` maps in `m`: it has the same bytes
and the same flags, and a frame that was free. -/
structure PageCopy (m m' : PhysicalMemory) (e e' : ℕ) : Prop where
  flags : e' &&& 0xfff = e &&& 0xfff
  bytes : ∀ k < 4096, Words.byteAt m'.words ((e' &&& pageAddressMask) + k) =
    Words.byteAt m.words ((e &&& pageAddressMask) + k)
  fresh : pageOf e' ⊆ m.frames.unused \ m'.frames.unused

/-- The child with the root `child` is a copy of the parent with the root `root`. -/
structure Cloned (m : PhysicalMemory) (root : ℕ) (m' : PhysicalMemory) (child : ℕ) : Prop where
  absent : ∀ va < 2 ^ 47, m'.translate child va = none ↔ m.translate root va = none
  page : ∀ va < 2 ^ 47, ∀ e rest, m.translate root va = some (e, rest) → rest = [] ∧
    ∃ e', m'.translate child va = some (e', []) ∧ PageCopy m m' e e'
  apart : ∀ va < 2 ^ 47, ∀ va' < 2 ^ 47, va / 4096 ≠ va' / 4096 → ∀ e e',
    m'.translate child va = some (e, []) → m'.translate child va' = some (e', []) →
      Disjoint (pageOf e) (pageOf e')
  parent_apart : ∀ va < 2 ^ 47, ∀ va' < 2 ^ 47, ∀ e e', m'.translate child va = some (e, []) →
    m.translate root va' = some (e', []) → Disjoint (pageOf e) (pageOf e')
  kernel : ∀ i, kernelHigherHalfStart ≤ i → i < entriesPerTable →
    m'.words (child + 8 * i) = m.words (root + 8 * i)
  same : ∀ l ∉ m.frames.unused, m'.words l = m.words l

/-- Every path below the root belongs to an address of the lower half. -/
theorem exists_indices (hp : Valid entriesPerTable 4 userIndices p) (hlength : p.length = 4) :
    ∃ va < 2 ^ 47, indices va = p := by
  match p, hlength with
  | [a, b, c, d], _ =>
    have ha : a < 256 := hp.head a rfl
    have hlt (i : ℕ) (hi : i ∈ [a, b, c, d]) : i < 512 := hp.lt i hi
    have hb := hlt b (by simp)
    have hc := hlt c (by simp)
    have hd := hlt d (by simp)
    refine ⟨a * 2 ^ 39 + b * 2 ^ 30 + c * 2 ^ 21 + d * 2 ^ 12, by omega, ?_⟩
    simp only [indices, pageTableIndex_eq, List.cons.injEq, and_true]
    omega

/-- What is below an entry of the root is in use and plain. -/
theorem Parent.source (h : Parent m root) (hi : i < kernelHigherHalfStart) :
    Source m 3 (root + 8 * i) := by
  intro p l hlength hp hl
  have hi' : i < entriesPerTable := hi.trans (by decide)
  have hvalid : Valid entriesPerTable 4 userIndices (i :: p) := by
    refine ⟨List.cons_ne_nil _ _, Nat.succ_le_succ hlength, List.forall_mem_cons.mpr ⟨hi', hp⟩, ?_⟩
    intro j hj
    cases hj
    exact hi
  have hword : word entryTable m.words root (i :: p) = some l := hl
  refine ⟨h.tables_used l ⟨i :: p, hvalid, hword⟩, fun hpresent => ?_⟩
  obtain ⟨hlt, hhuge⟩ := h.plain (i :: p) l hvalid hl hpresent
  refine ⟨hlt, fun hp => hhuge (Nat.succ_lt_succ hp), fun hfull => ?_⟩
  obtain ⟨va, hva, hindices⟩ := exists_indices hvalid (congrArg Nat.succ hfull)
  refine h.pages_used va hva (m.words l) ?_
  rw [PhysicalMemory.translate, hindices, PhysicalMemory.translation, find_of_word hword,
    if_pos hpresent]

theorem below_indices (va : ℕ) :
    pageFormat.Below 3 [pageTableIndex va 30, pageTableIndex va 21, pageTableIndex va 12] := by
  refine ⟨rfl, fun i hi => ?_⟩
  simp only [List.mem_cons, List.not_mem_nil, or_false] at hi
  rcases hi with rfl | rfl | rfl <;> exact pageTableIndex_lt _ _

theorem pageCopy_of_copied (h : pageFormat.CopiedPage m.words m'.words F e e')
    (hF : F ⊆ m.frames.unused \ m'.frames.unused) : PageCopy m m' e e' := by
  have haligned (x : ℕ) : 8 ∣ x &&& pageAddressMask := by
    rw [mask_eq]
    omega
  refine ⟨h.sameFlags, fun k hk => ?_, h.fresh.trans hF⟩
  exact Words.byteAt_of_words (haligned e) (haligned e') h.words hk

/-- The copied entries of a root, with its kernel half, are a copy of the parent. -/
theorem cloned_of_copiedTable (hparent : Parent m root)
    (hcopied : pageFormat.CopiedTable kernelHigherHalfStart 3 m.words root m'.words child F)
    (hF : F ⊆ m.frames.unused \ m'.frames.unused)
    (hkernel : ∀ i, kernelHigherHalfStart ≤ i → i < entriesPerTable → m'.words (child + 8 * i) =
      m.words (root + 8 * i)) (hsame : ∀ l ∉ m.frames.unused, m'.words l = m.words l) :
    Cloned m root m' child := by
  have hpath (va : ℕ) (hva : va < 2 ^ 47) :=
    hcopied.path _ (pageTableIndex_mem_userIndices hva) _ (below_indices va)
  refine ⟨?_, ?_, ?_, ?_, hkernel, hsame⟩
  · intro va hva
    refine ⟨fun hnone => ?_, (hpath va hva).absent⟩
    cases htranslate : m.translate root va with
    | none => rfl
    | some r =>
      obtain ⟨-, e', he', -⟩ := (hpath va hva).page r.1 r.2 htranslate
      exact absurd (hnone.symm.trans he') nofun
  · intro va hva e rest he
    obtain ⟨hrest, e', he', hpage⟩ := (hpath va hva).page e rest he
    exact ⟨hrest, e', he', pageCopy_of_copied hpage hF⟩
  · intro va hva va' hva' hne e e' he he'
    refine hcopied.apart _ (pageTableIndex_mem_userIndices hva) _
      (pageTableIndex_mem_userIndices hva') _ _ e e' (below_indices va) (below_indices va') ?_ he he'
    intro heq
    have hindices : indices va = indices va' := heq
    rw [indices_eq_iff] at hindices
    omega
  · intro va hva va' hva' e e' he he'
    refine Set.disjoint_left.mpr fun x hx hx' => ?_
    exact Set.disjoint_left.mp (hparent.pages_used va' hva' e' he') hx'
      (hF ((hpath va hva).fresh he hx)).1

/-- **The child is a copy of the parent.** Let the tables and pages of the parent be in use, its lower
half without huge pages or bits above bit 51, and let enough frames be free. Then `clone_space`
returns a root below which each page of the parent has a copy in a frame of its own. -/
theorem cloneSpace_copies {m : PhysicalMemory} {root : ℕ} (hparent : Parent m root)
    (hsound : m.frames.Sound) (hinit : m.frames.initialized = true)
    (hframes : framesNeeded m root ≤ m.frames.available) :
    ∃ child m', cloneSpace m root = some (child, m') ∧ Cloned m root m' child := by
  rw [framesNeeded] at hframes
  obtain ⟨child, frames, hallocate, hf⟩ := (Takes.refl hsound hinit ∅).allocate (by omega)
  let m₁ := copyRoot { m with frames } root child
  have htakes : Takes m m₁ ∅ 1 := takes_frame hf fun l _ hl => copyRoot_of_not_mem hl
  have hslots : ∀ i < kernelHigherHalfStart, child + 8 * i ∈ m.frames.unused ∧
      child + 8 * i ∉ m₁.frames.unused ∧ m₁.words (child + 8 * i) = 0 := by
    intro i hi
    have hmem : child + 8 * i ∈ page entriesPerTable child := ⟨i, hi.trans (by decide), rfl⟩
    exact ⟨PhysicalMemory.mem_unused_of_page hf hmem,
      PhysicalMemory.not_mem_unused_of_page hf hmem, copyRoot_low hi⟩
  have havailable := htakes.available
  obtain ⟨m', hrun, htakes', hcopied⟩ := cloneEntries_spec (copiesEntry 3) htakes
    (fun i hi => hparent.source hi) hslots (by omega)
  refine ⟨child, m', ?_, ?_⟩
  · rw [cloneSpace, hallocate]
    exact congrArg (Option.map _) hrun
  · refine cloned_of_copiedTable hparent hcopied (Set.sdiff_subset_sdiff_left htakes.unused) ?_ ?_
    · intro i hle hlt
      have hout : child + 8 * i ∉ page kernelHigherHalfStart child := by
        rintro ⟨j, hj, heq⟩
        omega
      rw [htakes'.same _ hout (PhysicalMemory.not_mem_unused_of_page hf ⟨i, hlt, rfl⟩)]
      exact copyRoot_high hle hlt
    · refine fun l hl => (htakes.trans htakes' ?_).same l (Set.notMem_empty l) hl
      rintro x ⟨i, hi, rfl⟩
      exact .inr (hslots i hi).1

/-- A parent with one page, at address `0`. -/
def oneParent : PhysicalMemory where
  words l := ([(0x1000, 0x2007), (0x2000, 0x3007), (0x3000, 0x4007), (0x4000, 0x5005),
    (0x5008, 42)].lookup l).getD 0
  frames := exampleMemory.frames

theorem oneParent_parent : Parent oneParent 0x1000 := by
  have hunused : ∀ x ∈ oneParent.frames.unused, 0x200000 ≤ x := by
    rintro x ⟨r, hr, hle, -⟩
    rw [List.mem_singleton.mp hr] at hle
    exact hle
  have hwords (l : ℕ) : oneParent.words l ∈ [0x2007, 0x3007, 0x4007, 0x5005, 42, 0] := by
    simp only [oneParent, List.lookup]
    repeat' split
    all_goals decide
  have hsmall (l : ℕ) : oneParent.words l ≤ 0x5005 ∧ oneParent.words l &&& pageHuge = 0 := by
    have hmem := hwords l
    generalize oneParent.words l = e at hmem
    revert e
    decide
  have hword {p : List ℕ} {l : ℕ} (hp : ∀ i ∈ p, i < entriesPerTable)
      (hl : word entryTable oneParent.words 0x1000 p = some l) : l < 0x10000 := by
    rw [entriesPerTable] at hp
    induction p using List.reverseRecOn with
    | nil => cases hl
    | append_singleton p j _ =>
      have hj := hp j (List.mem_append_right _ (List.mem_singleton_self j))
      by_cases hnil : p = []
      · subst hnil
        cases hl
        omega
      · rw [word_concat hnil, Option.bind_eq_some_iff] at hl
        obtain ⟨l', -, hl⟩ := hl
        obtain ⟨t, ht, rfl⟩ := Option.map_eq_some_iff.mp hl
        have hle : t ≤ oneParent.words l' := mask_of_entryTable ht ▸ Nat.and_le_left
        have hsmall := (hsmall l').1
        omega
  refine ⟨by decide, ?_, ?_, ?_, ?_⟩
  · intro i hi hx
    rw [entriesPerTable] at hi
    have hle := hunused _ hx
    omega
  · rintro l ⟨p, hp, hl⟩ hx
    have hle := hunused _ hx
    have hlt := hword hp.lt hl
    omega
  · intro va hva e he
    rw [PhysicalMemory.translate, PhysicalMemory.translation, find_eq_some] at he
    obtain ⟨q, l, -, -, rfl, -⟩ := he
    refine Set.disjoint_left.mpr fun x hx hx' => ?_
    have hle := hunused _ hx'
    have hframe : oneParent.words l &&& pageAddressMask ≤ oneParent.words l := Nat.and_le_left
    have hlt : x < (oneParent.words l &&& pageAddressMask) + 4096 := hx.2
    have hsmall := (hsmall l).1
    omega
  · intro p l _ _ _
    exact ⟨(hsmall l).1.trans_lt (by decide), fun _ => (hsmall l).2⟩

/-- The child has a copy of the page. -/
theorem cloneSpace_copies_one_page :
    ∃ child m' e', cloneSpace oneParent 0x1000 = some (child, m') ∧
      m'.translate child 0 = some (e', []) ∧ e' &&& 0xfff = 5 ∧
      Words.byteAt m'.words ((e' &&& pageAddressMask) + 8) = 42 := by
  obtain ⟨child, m', hclone, hcloned⟩ := cloneSpace_copies oneParent_parent exampleMemory_sound rfl
    (by decide +kernel)
  have hpage : oneParent.translate 0x1000 0 = some (0x5005, []) := by decide +kernel
  obtain ⟨-, e', he', hcopy⟩ := hcloned.page 0 (by decide) _ _ hpage
  refine ⟨child, m', e', hclone, he', hcopy.flags, ?_⟩
  rw [hcopy.bytes 8 (by decide)]
  decide +kernel

end Hxnu.Mm.Vmm
