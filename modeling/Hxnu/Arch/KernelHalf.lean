import Hxnu.Arch.Translation

/-!
# The kernel half of an address space

Every address space shares the tables of the kernel half. If the tables of the user half and the
kernel half are apart and neither is free memory, then mapping user pages changes no entry on the
walk of a kernel address. Nothing is assumed of the user half by itself: its tables may be shared
between addresses and levels.

## Main definitions

* `walk`: the entries that the processor reads for an address.
* `PhysicalMemory.Separate`: the halves are apart, and their tables are not free.
* `PhysicalMemory.Untouched`: no entry on the walk of a kernel address gains a bit.
* `PhysicalMemory.Guarded`: the words of the kernel half are kept, with a family of words of the
  user half that no walk leaves.

## Main results

* `PhysicalMemory.Guarded.mapUserPage`: mapping a user page keeps the kernel half.
* `PhysicalMemory.Stays.mapUserPage`: mapping any page keeps present entries present.
-/

namespace Hxnu.Arch

open Word Mm.Frame Tables Function

variable {address f c l root n : ℕ} {frames : FrameAllocator} {m : PhysicalMemory}

def UserHalf (address : ℕ) : Prop := address < 2 ^ 47

def KernelHalf (address : ℕ) : Prop := 2 ^ 64 - 2 ^ 47 ≤ address ∧ address < 2 ^ 64

theorem index_of_kernelHalf (h : KernelHalf address) :
    kernelHigherHalfStart ≤ pageTableIndex address 39 := by
  obtain ⟨hle, hlt⟩ := h
  rw [kernelHigherHalfStart, pageTableIndex_eq]
  omega

theorem index_of_userHalf (h : UserHalf address) :
    pageTableIndex address 39 < kernelHigherHalfStart := by
  rw [UserHalf] at h
  rw [kernelHigherHalfStart, pageTableIndex_eq]
  omega

/-- The entries that the processor reads on the walk of an address. -/
def walk (words : ℕ → ℕ) (root address : ℕ) : List ℕ :=
  visited entryTable words (root + 8 * pageTableIndex address 39)
    [pageTableIndex address 30, pageTableIndex address 21, pageTableIndex address 12]

/-- The entries of the kernel half. -/
def kernelWords (words : ℕ → ℕ) (root : ℕ) : Set ℕ :=
  {l | ∃ address, KernelHalf address ∧ l ∈ walk words root address}

namespace PhysicalMemory

/-- The tables of the two halves are apart, and neither are free memory. -/
structure Separate (root : ℕ) (m : PhysicalMemory) : Prop where
  sound : m.frames.Sound
  apart : ∀ u, UserHalf u → ∀ l ∈ walk m.words root u, l ∉ kernelWords m.words root
  used : ∀ u, UserHalf u ∨ KernelHalf u → ∀ l ∈ walk m.words root u, l ∉ m.frames.unused

/-- No entry on the walk of a kernel address is made or gains a bit. -/
def Untouched (root : ℕ) (m m' : PhysicalMemory) : Prop :=
  ∀ address, KernelHalf address →
    ∀ l, l ∈ walk m.words root address ∨ l ∈ walk m'.words root address →
      m'.words l ||| m.words l = m.words l

/-- The words in `K` are as recorded. The family `W` holds the entries of the user half, by the
number of levels below them. It is apart from `K`, and neither is free memory. -/
structure Guarded (K : Set ℕ) (record : ℕ → ℕ) (root : ℕ) (W : ℕ → Set ℕ) (m : PhysicalMemory) :
    Prop where
  closed : Closed entryTable entriesPerTable m.words W
  roots : ∀ i < kernelHigherHalfStart, root + 8 * i ∈ W 3
  apart : ∀ k, ∀ l ∈ W k, l ∉ K
  used : ∀ k, ∀ l ∈ W k, l ∉ m.frames.unused
  guarded : ∀ l ∈ K, l ∉ m.frames.unused
  sound : m.frames.Sound
  kept : ∀ l ∈ K, m.words l = record l

section Guard

variable {K : Set ℕ} {record : ℕ → ℕ} {hhdm root pa flags k : ℕ} {W : ℕ → Set ℕ}
  {m : PhysicalMemory}

section

variable (h : Guarded K record root W m)

include h

/-- Frames may be lost. -/
theorem Guarded.keep (hk : Kept m.frames frames) : Guarded K record root W { m with frames } where
  closed := h.closed
  roots := h.roots
  apart := h.apart
  used k l hl hx := h.used k l hl (hk.2 l hx)
  guarded l hl hx := h.guarded l hl (hk.2 l hx)
  sound := hk.1
  kept := h.kept

/-- A zeroed frame joins the user half at every level. -/
theorem Guarded.zeroTable (hf : Allocated m.frames f frames) :
    Guarded K record root (grow W Set.univ (page entriesPerTable f))
      (PhysicalMemory.zeroTable { m with frames } f) where
  closed := by
    refine h.closed.zeroed rfl Set.univ fun k l hl => ?_
    by_contra hin
    rw [entriesPerTable] at hin
    exact h.used k l hl (hf.taken l (by omega) (by omega))
  roots i hi := .inl (h.roots i hi)
  apart := by
    rintro k l (hl | ⟨-, hl⟩) hK
    · exact h.apart k l hl hK
    · exact h.guarded l hK (mem_unused_of_page hf hl)
  used := by
    rintro k l (hl | ⟨-, hl⟩) hx
    · exact h.used k l hl (hf.left l hx).1
    · exact not_mem_unused_of_page hf hl hx
  guarded l hl hx := h.guarded l hl (hf.left l hx).1
  sound := hf.sound
  kept l hl := by
    rw [zeroTable_words, Words.fill_of_not_mem fun i hi heq =>
      h.guarded l hl (mem_unused_of_page hf ⟨i, hi, heq⟩), h.kept l hl]

/-- An entry of the user half may be written that leads back into the user half. -/
theorem Guarded.writeEntry (hw : w ∈ W k)
    (hv : ∀ j t, w ∈ W (j + 1) → entryTable v = some t → page entriesPerTable t ⊆ W j) :
    Guarded K record root W (m.writeEntry w v) where
  closed := h.closed.write hv
  roots := h.roots
  apart := h.apart
  used := h.used
  guarded := h.guarded
  sound := h.sound
  kept l hl := by
    have hne : l ≠ w := by
      rintro rfl
      exact h.apart k l hw hl
    rw [writeEntry_words, update_of_ne hne, h.kept l hl]

/-- The step from a table to the next, below an entry of the user half. -/
theorem Guarded.orReturn (hw : table + 8 * index ∈ W (k + 1))
    (hrest : ∀ t m' W', Guarded K record root W' m' → (∀ j, W j ⊆ W' j) → page entriesPerTable t ⊆
      W' k → ∃ W'', Guarded K record root W'' (rest t m').2) :
    ∃ W', Guarded K record root W'
      (PhysicalMemory.orReturn (m.nextTableUser hhdm table index) rest).2 := by
  have hspec := nextTableUser_spec h.sound hhdm table index
  rcases hnext : m.nextTableUser hhdm table index with ⟨next, m'⟩
  rw [hnext] at hspec
  change NextUser m hhdm _ next m' at hspec
  cases hspec with
  | exhausted hnone => exact ⟨W, h⟩
  | overflow htop hover hkept _ => exact ⟨W, h.keep hkept⟩
  | huge hpresent hnone => exact ⟨W, h⟩
  | found htable => exact hrest _ m W h (fun _ _ hl => hl) (h.closed k _ _ hw htable)
  | @new f frames habsent hf =>
    have hnew : ∀ j, page entriesPerTable f ⊆ grow W Set.univ (page entriesPerTable f) j :=
      fun j l hl => .inr ⟨Set.mem_univ j, hl⟩
    refine hrest _ _ (grow W Set.univ (page entriesPerTable f))
      ((h.zeroTable hf).writeEntry (k := k + 1) (.inl hw) ?_) (fun _ _ hl => .inl hl) (hnew k)
    intro j t _ ht
    rw [entryTable_new hf.aligned hf.le_top] at ht
    cases ht
    exact hnew j

/-- **Mapping a user page keeps the kernel half**, if the physical page is in the family: a walk that
takes the page for a table stays in the user half. -/
theorem Guarded.mapUserPage (hva : pageTableIndex va 39 < kernelHigherHalfStart)
    (hpa : ∀ j, page entriesPerTable (pa &&& pageAddressMask) ⊆ W j) (hflags : PlainFlags flags) :
    ∃ W', Guarded K record root W' (m.mapUserPage root hhdm va pa flags).2 := by
  rw [PhysicalMemory.mapUserPage]
  cases checkedAdd hhdm root with
  | none => exact ⟨W, h⟩
  | some _ =>
    refine h.orReturn (h.roots _ hva) ?_
    intro pdpt m₁ W₁ h₁ hsub₁ hpdpt
    refine h₁.orReturn (hpdpt ⟨_, pageTableIndex_lt va 30, rfl⟩) ?_
    intro pd m₂ W₂ h₂ hsub₂ hpd
    refine h₂.orReturn (hpd ⟨_, pageTableIndex_lt va 21, rfl⟩) ?_
    intro pt m₃ W₃ h₃ hsub₃ hpt
    have hpte := hpt ⟨_, pageTableIndex_lt va 12, rfl⟩
    refine ⟨W₃, ?_⟩
    rw [PhysicalMemory.mapEntry]
    simp only
    split_ifs with habsent
    · refine h₃.writeEntry hpte ?_
      intro j t _ ht
      rw [hflags.entryTable_leaf] at ht
      cases ht
      exact fun l hl => hsub₃ j (hsub₂ j (hsub₁ j (hpa j hl)))
    · refine h₃.writeEntry hpte ?_
      intro j t hj ht
      rw [hflags.entryTable_or] at ht
      exact h₃.closed j _ t hj ht

end

end Guard

/-! ### The halves of a table -/

/-- Every path of the user half is the path of an address. -/
theorem exists_userHalf (ha : a < kernelHigherHalfStart) (hb : b < entriesPerTable)
    (hc : c < entriesPerTable) (hd : d < entriesPerTable) :
    ∃ u, UserHalf u ∧ indices u = [a, b, c, d] := by
  rw [kernelHigherHalfStart] at ha
  rw [entriesPerTable] at hb hc hd
  refine ⟨a * 2 ^ 39 + b * 2 ^ 30 + c * 2 ^ 21 + d * 2 ^ 12, ?_, ?_⟩
  · rw [UserHalf]
    omega
  · simp only [indices, pageTableIndex_eq, List.cons.injEq, and_true]
    omega

/-- The entries of the user half, by the number of levels below them. -/
def userLevels (words : ℕ → ℕ) (root : ℕ) : ℕ → Set ℕ :=
  levels entryTable entriesPerTable words {l | ∃ i < kernelHigherHalfStart, l = root + 8 * i} 3

theorem mem_walk_of_userLevels {words : ℕ → ℕ} {k : ℕ} (h : l ∈ userLevels words root k) :
    ∃ u, UserHalf u ∧ l ∈ walk words root u := by
  obtain ⟨w, ⟨i, hi, rfl⟩, path, hlength, hpath, hreach⟩ := h
  have hmem : l ∈ visited entryTable words (root + 8 * i) (path ++ List.replicate k 0) :=
    mem_visited_of_reach hreach
  have hlt : ∀ j ∈ path ++ List.replicate k 0, j < entriesPerTable := by
    intro j hj
    rcases List.mem_append.mp hj with hj | hj
    · exact hpath j hj
    · rw [List.eq_of_mem_replicate hj]
      decide
  obtain ⟨b, c, d, hsplit⟩ : ∃ b c d, path ++ List.replicate k 0 = [b, c, d] := by
    refine List.length_eq_three.mp ?_
    rw [List.length_append, List.length_replicate, hlength]
  rw [hsplit] at hmem hlt
  obtain ⟨u, hu, hindices⟩ := exists_userHalf hi (hlt b (by simp)) (hlt c (by simp)) (hlt d (by simp))
  refine ⟨u, hu, ?_⟩
  simp only [indices, List.cons.injEq, and_true] at hindices
  obtain ⟨rfl, rfl, rfl, rfl⟩ := hindices
  exact hmem

theorem Separate.guarded (h : Separate root m) :
    Guarded (kernelWords m.words root) m.words root (userLevels m.words root) m where
  closed := closed_levels _ 3
  roots i hi := root_mem_levels ⟨i, hi, rfl⟩
  apart k l hl := by
    obtain ⟨u, hu, hwalk⟩ := mem_walk_of_userLevels hl
    exact h.apart u hu l hwalk
  used k l hl := by
    obtain ⟨u, hu, hwalk⟩ := mem_walk_of_userLevels hl
    exact h.used u (.inl hu) l hwalk
  guarded := by
    rintro l ⟨u, hu, hwalk⟩
    exact h.used u (.inr hu) l hwalk
  sound := h.sound
  kept _ _ := rfl

/-- **The walks of the kernel half are as they were.** -/
theorem Guarded.walk_eq (h : Guarded (kernelWords m.words root) m.words root W m')
    (ha : KernelHalf address) : walk m'.words root address = walk m.words root address :=
  visited_congr fun l hl => h.kept l ⟨address, ha, hl⟩

theorem Guarded.untouched (h : Guarded (kernelWords m.words root) m.words root W m') :
    Untouched root m m' := by
  intro address ha l hl
  rw [h.walk_eq ha, or_self] at hl
  rw [h.kept l ⟨address, ha, hl⟩, Nat.or_self]

/-! ### What every mapping preserves -/

/-- `P n` holds as long as at most `n` more tables are made. -/
structure Preserved (hhdm : ℕ) (P : ℕ → PhysicalMemory → Prop) : Prop where
  sound : ∀ n m, P n m → m.frames.Sound
  mono : ∀ n m, P (n + 1) m → P n m
  lost : ∀ n m p frames, P (n + 1) m → p < physicalTop → 2 ^ 64 ≤ hhdm + p →
    Kept m.frames frames → P n { m with frames }
  new : ∀ n m w f frames, P (n + 1) m → Allocated m.frames f frames →
    P n ((zeroTable { m with frames } f).writeEntry w
      (f ||| pagePresent ||| pageWritable ||| pageUser))
  leaf : ∀ n m pte pa flags, P n m → P n (m.mapEntry pte pa flags)

section Preserve

variable {hhdm : ℕ} {P : ℕ → PhysicalMemory → Prop} {m : PhysicalMemory}

theorem Preserved.orReturn (hP : Preserved hhdm P) {table index : ℕ} (h : P (n + 1) m)
    {rest : ℕ → PhysicalMemory → Except MapError Unit × PhysicalMemory} {Q : PhysicalMemory → Prop}
    (hQ : ∀ m', P n m' → Q m') (hrest : ∀ t m', P n m' → Q (rest t m').2) :
    Q (PhysicalMemory.orReturn (m.nextTableUser hhdm table index) rest).2 := by
  have hspec := nextTableUser_spec (hP.sound _ m h) hhdm table index
  rcases hnext : m.nextTableUser hhdm table index with ⟨next, m'⟩
  rw [hnext] at hspec
  change NextUser m hhdm _ next m' at hspec
  cases hspec with
  | exhausted | huge => exact hQ m (hP.mono n m h)
  | overflow htop hover hkept _ => exact hQ _ (hP.lost n m _ _ h htop hover hkept)
  | found htable => exact hrest _ m (hP.mono n m h)
  | new habsent hf => exact hrest _ _ (hP.new n m _ _ _ h hf)

/-- Mapping a page makes at most three tables. -/
theorem Preserved.mapUserPage (hP : Preserved hhdm P) (h : P (n + 3) m)
    (root va pa flags : ℕ) : P n (m.mapUserPage root hhdm va pa flags).2 := by
  have hmono {k : ℕ} (hk : ∃ j, k = n + j) (m : PhysicalMemory) (h : P k m) : P n m := by
    obtain ⟨j, rfl⟩ := hk
    induction j with
    | zero => exact h
    | succ j ih => exact ih (hP.mono _ m h)
  rw [PhysicalMemory.mapUserPage]
  cases checkedAdd hhdm root with
  | none => exact hmono ⟨3, rfl⟩ m h
  | some _ =>
    refine hP.orReturn h (hmono ⟨2, rfl⟩) fun pdpt m₁ h₁ => ?_
    refine hP.orReturn h₁ (hmono ⟨1, rfl⟩) fun pd m₂ h₂ => ?_
    refine hP.orReturn h₂ (hmono ⟨0, rfl⟩) fun pt m₃ h₃ => ?_
    exact hP.leaf _ _ _ _ _ h₃

/-- A present entry stays present, wherever pages are mapped. -/
structure Stays (l : ℕ) (m : PhysicalMemory) : Prop where
  sound : m.frames.Sound
  present : entryPresent (m.words l) = true
  used : l ∉ m.frames.unused

theorem Stays.writeEntry (h : Stays l m) (hv : entryPresent v = true) :
    Stays l (m.writeEntry w v) := by
  refine ⟨h.sound, ?_, h.used⟩
  rw [writeEntry_words]
  by_cases hlw : l = w
  · rw [hlw, update_self, hv]
  · rw [update_of_ne hlw, h.present]

theorem Stays.zeroTable (h : Stays l m)
    (hf : Allocated m.frames f frames) : Stays l (PhysicalMemory.zeroTable { m with frames } f) := by
  refine ⟨hf.sound, ?_, fun hx => h.used (hf.left l hx).1⟩
  rw [zeroTable_words, Words.fill_of_not_mem fun i hi heq =>
    h.used (mem_unused_of_page hf ⟨i, hi, heq⟩), h.present]

theorem preserved_stays (hhdm l : ℕ) : Preserved hhdm fun _ => Stays l where
  sound _ _ h := h.sound
  mono _ _ h := h
  lost _ _ _ _ h _ _ hk := ⟨hk.1, h.present, fun hx => h.used (hk.2 l hx)⟩
  new _ _ _ _ _ h hf := (h.zeroTable hf).writeEntry (entryPresent_new _ _ _)
  leaf _ m pte pa flags h := by
    rw [PhysicalMemory.mapEntry]
    split_ifs with habsent
    · exact h.writeEntry (entryPresent_new _ _ _)
    · refine h.writeEntry ?_
      rw [entryPresent_or, entryPresent, bne_iff_ne.mpr habsent, Bool.true_or]

/-- Frames are left, beyond `n` that may be used. -/
structure Stocked (c n : ℕ) (m : PhysicalMemory) : Prop where
  sound : m.frames.Sound
  initialized : m.frames.initialized = true
  stock : n + c ≤ m.frames.available

theorem Stocked.allocate (h : Stocked c (n + 1) m) :
    ∃ f frames, m.frames.allocate = (some f, frames) ∧ Allocated m.frames f frames := by
  rcases h.sound.allocate with hnone | hsome
  · have hzero := h.sound.available_of_none h.initialized (by rw [hnone])
    have := h.stock
    omega
  · exact hsome

theorem Stocked.of_allocated (h : Stocked c (n + 1) m)
    (hf : Allocated m.frames f frames) (words : ℕ → ℕ) : Stocked c n ⟨words, frames⟩ := by
  have hstock := h.stock
  have havailable := hf.available
  exact ⟨hf.sound, hf.initialized, by change n + c ≤ frames.available; omega⟩

theorem preserved_stocked (hhdm : ℕ) (htop : hhdm + physicalTop ≤ 2 ^ 64) (c : ℕ) :
    Preserved hhdm (Stocked c) where
  sound _ _ h := h.sound
  mono _ _ h := ⟨h.sound, h.initialized, by have := h.stock; omega⟩
  lost _ _ _ _ _ hp hover _ := by omega
  new _ _ _ _ _ h hf := h.of_allocated hf _
  leaf _ m _ _ _ h := by
    rw [PhysicalMemory.mapEntry]
    split_ifs
    · exact ⟨h.sound, h.initialized, h.stock⟩
    · exact ⟨h.sound, h.initialized, h.stock⟩

/-- A page below a missing root entry makes the entry, if frames are left. -/
theorem Stocked.mapUserPage_stays {va pa flags : ℕ} (h : Stocked c (n + 1) m)
    (htop : hhdm + physicalTop ≤ 2 ^ 64) (hroot : hhdm + root < 2 ^ 64)
    (habsent : entryPresent (m.words (root + 8 * pageTableIndex va 39)) = false)
    (hused : root + 8 * pageTableIndex va 39 ∉ m.frames.unused) :
    Stays (root + 8 * pageTableIndex va 39) (m.mapUserPage root hhdm va pa flags).2 := by
  set w := root + 8 * pageTableIndex va 39 with hw
  have hP := preserved_stays hhdm w
  have hrest (t : ℕ) (m' : PhysicalMemory) (h' : Stays w m') : Stays w
      (orReturn (m'.nextTableUser hhdm t (pageTableIndex va 30)) fun pd m =>
        orReturn (m.nextTableUser hhdm pd (pageTableIndex va 21)) fun pt m =>
          (.ok (), m.mapEntry (pt + 8 * pageTableIndex va 12) pa flags)).2 := by
    refine hP.orReturn (n := 0) h' (fun _ h => h) fun pd m₂ h₂ => ?_
    refine hP.orReturn (n := 0) h₂ (fun _ h => h) fun pt m₃ h₃ => ?_
    exact hP.leaf 0 _ _ _ _ h₃
  rw [PhysicalMemory.mapUserPage, checkedAdd_eq_some.mpr ⟨hroot, rfl⟩]
  simp only
  have hspec := nextTableUser_spec h.sound hhdm root (pageTableIndex va 39)
  rcases hnext : m.nextTableUser hhdm root (pageTableIndex va 39) with ⟨next, m'⟩
  rw [hnext] at hspec
  change NextUser m hhdm w next m' at hspec
  cases hspec with
  | exhausted hnone =>
    obtain ⟨f, frames, hsome, -⟩ := h.allocate
    rw [hnone] at hsome
    cases hsome
  | overflow hp hover hkept _ => omega
  | huge hpresent hnone =>
    rw [habsent] at hpresent
    cases hpresent
  | found htable =>
    rw [entryTable_of_absent (entryPresent_eq_false.mp habsent)] at htable
    cases htable
  | @new f frames _ hf =>
    refine hrest f _ ⟨hf.sound, ?_, fun hx => hused (hf.left w hx).1⟩
    rw [writeEntry_words, update_self, entryPresent_new]

end Preserve

end PhysicalMemory

end Hxnu.Arch
