import Mathlib

/-!
# Reference counts

Handles refer to entries of a table, and each entry has a count, which is meant to be the number of
handles that refer to it. A new handle gets a fresh entry or shares one, and a handle that is dropped
gives its reference back: the count goes down, and the entry is freed when the last reference goes.

The counts are exact if every reference is taken and given back. If a handle is set without counting,
an entry may be freed while handles refer to it. The file says exactly when a list of drops does that.

## Main definitions

* `Refs`: handles, entries, counts, and the data of the entries.
* `Refs.alloc`, `Refs.share`, `Refs.drop`, `Refs.dropAll`, `Refs.setRef`: what may happen to them.
* `Refs.Exact`: an entry is used if a handle refers to it, and its count is the number of handles.
* `Refs.NoDangling`: every handle refers to a used entry.
* `Refs.SafeDrop`: the entries that a list of drops frees have no other handles.

## Main results

* `Refs.Exact.alloc`, `Refs.Exact.share`, `Refs.Exact.dropAll`: counts stay exact.
* `Refs.used_dropAll`: which entries a list of drops frees.
* `Refs.NoDangling.dropAll_iff`: a list of drops leaves no dangling handle exactly if it is safe.
-/

namespace Hxnu.RefCount

open Function

/-- Handles `κ` that refer to entries `ι`; an entry has a count and data. -/
@[ext]
structure Refs (κ ι α : Type*) where
  ref : κ → Option ι
  used : ι → Bool
  count : ι → ℕ
  data : ι → α

namespace Refs

variable {κ ι α : Type*} [DecidableEq ι] {r : Refs κ ι α} {h h' : κ} {i j : ι} {hs : List κ}

/-! ### Giving back a reference -/

/-- Give back a reference to an entry. -/
def release (r : Refs κ ι α) (i : ι) : Refs κ ι α :=
  if r.used i = true then
    if 1 < r.count i then { r with count := update r.count i (r.count i - 1) }
    else { r with used := update r.used i false }
  else r

@[simp] theorem release_ref (i : ι) : (r.release i).ref = r.ref := by
  rw [release]
  split_ifs <;> rfl

@[simp] theorem release_data (i : ι) : (r.release i).data = r.data := by
  rw [release]
  split_ifs <;> rfl

/-- What is given back does not depend on the handles. -/
theorem release_of_refs (ref : κ → Option ι) (i : ι) :
    ({ r with ref } : Refs κ ι α).release i = { r.release i with ref } := by
  rw [release, release]
  split_ifs <;> rfl

theorem release_used : (r.release i).used j = true ↔
    r.used j = true ∧ (j = i → 1 < r.count i) := by
  rw [release]
  split_ifs with hused hcount
  · exact ⟨fun h => ⟨h, fun _ => hcount⟩, fun h => h.1⟩
  · by_cases hj : j = i
    · subst hj
      simp [hcount]
    · simp [hj]
  · refine ⟨fun h => ⟨h, fun hj => absurd (hj ▸ h) hused⟩, fun h => h.1⟩

theorem release_count_of_ne (hj : j ≠ i) : (r.release i).count j = r.count j := by
  rw [release]
  split_ifs
  · exact update_of_ne hj _ _
  · rfl
  · rfl

theorem release_count_self (hused : r.used i = true) (hcount : 1 < r.count i) :
    (r.release i).count i = r.count i - 1 := by
  rw [release, if_pos hused, if_pos hcount]
  exact update_self _ _ _

variable [DecidableEq κ]

/-! ### Operations -/

/-- Give a handle an entry that is not used. -/
def alloc (r : Refs κ ι α) (h : κ) (i : ι) (a : α) : Refs κ ι α where
  ref := update r.ref h (some i)
  used := update r.used i true
  count := update r.count i 1
  data := update r.data i a

/-- Let a handle refer to an entry; a used entry counts the reference by `bump`. -/
def share (bump : ℕ → ℕ) (r : Refs κ ι α) (h : κ) (i : ι) : Refs κ ι α :=
  { r with
    ref := update r.ref h (some i)
    count := if r.used i = true then update r.count i (bump (r.count i)) else r.count }

/-- Let a handle refer to what it is told to, without counting. -/
def setRef (r : Refs κ ι α) (h : κ) (target : Option ι) : Refs κ ι α :=
  { r with ref := update r.ref h target }

theorem release_setRef (h : κ) (target : Option ι) (i : ι) :
    (r.setRef h target).release i = (r.release i).setRef h target := by
  rw [setRef, release_of_refs, setRef, release_ref]

/-- A handle that is about to share an entry may refer to anything before. -/
theorem share_setRef (bump : ℕ → ℕ) (h : κ) (target : Option ι) (i : ι) :
    (r.setRef h target).share bump h i = r.share bump h i :=
  Refs.ext (update_idem _ _ _) rfl rfl rfl

/-- Give back the reference of a handle, if it has one. -/
def drop (r : Refs κ ι α) (h : κ) : Refs κ ι α :=
  match r.ref h with
  | none => r
  | some i => (r.release i).setRef h none

def dropAll (r : Refs κ ι α) (hs : List κ) : Refs κ ι α := hs.foldl drop r

theorem drop_of_none (hh : r.ref h = none) : r.drop h = r := by
  rw [drop, hh]

theorem drop_of_some (hh : r.ref h = some i) : r.drop h = (r.release i).setRef h none := by
  rw [drop, hh]

theorem dropAll_cons (h : κ) (hs : List κ) : r.dropAll (h :: hs) = (r.drop h).dropAll hs := rfl

theorem drop_ref (h h' : κ) : (r.drop h).ref h' = if h' = h then none else r.ref h' := by
  cases hh : r.ref h with
  | none =>
    rw [drop_of_none hh]
    split_ifs with heq
    · rw [heq, hh]
    · rfl
  | some i =>
    rw [drop_of_some hh, setRef, release_ref]
    exact update_apply _ _ _ _

@[simp] theorem drop_data (h : κ) : (r.drop h).data = r.data := by
  cases hh : r.ref h with
  | none => rw [drop_of_none hh]
  | some i =>
    rw [drop_of_some hh]
    exact release_data i

theorem dropAll_ref (hs : List κ) (h : κ) :
    (r.dropAll hs).ref h = if h ∈ hs then none else r.ref h := by
  induction hs generalizing r with
  | nil => rfl
  | cons h' hs ih =>
    rw [dropAll_cons, ih, drop_ref]
    by_cases heq : h = h'
    · simp [heq]
    · simp [heq]

@[simp] theorem dropAll_data (hs : List κ) : (r.dropAll hs).data = r.data := by
  induction hs generalizing r with
  | nil => rfl
  | cons h hs ih => rw [dropAll_cons, ih, drop_data]

/-! ### Exact counts -/

section Exact

variable [Fintype κ]

/-- The handles that refer to an entry. -/
def holders (r : Refs κ ι α) (i : ι) : Finset κ := Finset.univ.filter fun h => r.ref h = some i

omit [DecidableEq κ] in
@[simp] theorem mem_holders : h ∈ r.holders i ↔ r.ref h = some i := by simp [holders]

/-- An entry is used exactly if a handle refers to it, and its count is the number of handles. -/
structure Exact (r : Refs κ ι α) : Prop where
  used_iff : ∀ i, r.used i = true ↔ ∃ h, r.ref h = some i
  count_eq : ∀ i, r.used i = true → r.count i = (r.holders i).card

theorem holders_update_some (hh : r.ref h = none) (r' : Refs κ ι α)
    (hr' : r'.ref = update r.ref h (some i)) (j : ι) :
    r'.holders j = if j = i then insert h (r.holders i) else r.holders j := by
  ext h'
  by_cases heq : h' = h
  · subst heq
    by_cases hj : j = i
    · simp [hr', hj]
    · simp [hr', hj, hh, Ne.symm hj]
  · by_cases hj : j = i
    · simp [hr', hj, heq]
    · simp [hr', hj, heq]

theorem card_holders_insert (hh : r.ref h = none) :
    (insert h (r.holders i)).card = (r.holders i).card + 1 := by
  refine Finset.card_insert_of_notMem ?_
  rw [mem_holders, hh]
  exact nofun

omit [DecidableEq κ] in
theorem Exact.holders_eq_empty (hr : r.Exact) (hi : r.used i = false) : r.holders i = ∅ := by
  ext h
  rw [mem_holders]
  refine ⟨fun hh => ?_, fun hmem => absurd hmem (Finset.notMem_empty h)⟩
  rw [(hr.used_iff i).mpr ⟨h, hh⟩] at hi
  cases hi

/-- **A fresh entry has one handle.** -/
theorem Exact.alloc (hr : r.Exact) (hh : r.ref h = none) (hi : r.used i = false) (a : α) :
    (r.alloc h i a).Exact := by
  have hholders := holders_update_some hh (r.alloc h i a) rfl
  refine ⟨fun j => ?_, fun j hj => ?_⟩
  · by_cases heq : j = i
    · subst heq
      exact ⟨fun _ => ⟨h, update_self _ _ _⟩, fun _ => update_self _ _ _⟩
    · change update r.used i true j = true ↔ _
      rw [update_of_ne heq, hr.used_iff]
      refine exists_congr fun h' => ?_
      rw [← mem_holders, ← mem_holders, hholders, if_neg heq]
  · rw [hholders]
    split_ifs with heq
    · subst heq
      rw [card_holders_insert hh, hr.holders_eq_empty hi]
      exact update_self _ _ _
    · change update r.used i true j = true at hj
      rw [update_of_ne heq] at hj
      exact (update_of_ne heq _ _).trans (hr.count_eq j hj)

/-- **A shared entry has one handle more**, and its count goes up by one. -/
theorem Exact.share (hr : r.Exact) (hh : r.ref h = none) (hi : r.ref h' = some i)
    (hbump : ∀ n ≤ Fintype.card κ, bump n = n + 1) : (r.share bump h i).Exact := by
  have hused : r.used i = true := (hr.used_iff i).mpr ⟨h', hi⟩
  have hholders := holders_update_some hh (r.share bump h i) rfl
  refine ⟨fun j => ?_, fun j hj => ?_⟩
  · change r.used j = true ↔ _
    by_cases heq : j = i
    · subst heq
      exact ⟨fun _ => ⟨h, update_self _ _ _⟩, fun _ => hused⟩
    · rw [hr.used_iff]
      refine exists_congr fun h' => ?_
      rw [← mem_holders, ← mem_holders, hholders, if_neg heq]
  · change r.used j = true at hj
    change (if r.used i = true then update r.count i (bump (r.count i)) else r.count) j = _
    rw [if_pos hused, hholders]
    split_ifs with heq
    · subst heq
      rw [update_self, card_holders_insert hh, ← hr.count_eq j hj, hbump]
      rw [hr.count_eq j hj]
      exact Finset.card_le_univ _
    · rw [update_of_ne heq, hr.count_eq j hj]

/-- **A dropped reference is given back**, and the last one frees the entry. -/
theorem Exact.drop (hr : r.Exact) (h : κ) : (r.drop h).Exact := by
  cases hh : r.ref h with
  | none => rwa [drop_of_none hh]
  | some i =>
    have hused : r.used i = true := (hr.used_iff i).mpr ⟨h, hh⟩
    have hmem : h ∈ r.holders i := mem_holders.mpr hh
    have hholders (j : ι) : (r.drop h).holders j =
        if j = i then (r.holders i).erase h else r.holders j := by
      ext h'
      rw [mem_holders, drop_ref]
      by_cases heq : h' = h
      · subst heq
        by_cases hj : j = i
        · simp [hj]
        · simp [hj, hh, Ne.symm hj]
      · by_cases hj : j = i
        · simp [hj, heq]
        · simp [hj, heq]
    have hcard : ((r.holders i).erase h).card = r.count i - 1 := by
      rw [Finset.card_erase_of_mem hmem, hr.count_eq i hused]
    have hpos : 0 < r.count i := by
      rw [hr.count_eq i hused]
      exact Finset.card_pos.mpr ⟨h, hmem⟩
    have hdrop_used (j : ι) : (r.drop h).used j = true ↔
        r.used j = true ∧ (j = i → 1 < r.count i) := by
      rw [drop_of_some hh]
      exact release_used
    refine ⟨fun j => ?_, fun j hj => ?_⟩
    · rw [hdrop_used]
      have hexists : (∃ h', (r.drop h).ref h' = some j) ↔ ((r.drop h).holders j).Nonempty :=
        exists_congr fun h' => mem_holders.symm
      rw [hexists, hholders]
      split_ifs with heq
      · subst heq
        rw [← Finset.card_pos, hcard]
        simp only [hused, true_and, forall_const]
        omega
      · rw [hr.used_iff]
        simp only [heq, false_imp_iff, and_true]
        exact exists_congr fun h' => mem_holders.symm
    · obtain ⟨hj, hcount⟩ := (hdrop_used j).mp hj
      rw [hholders]
      split_ifs with heq
      · subst heq
        rw [hcard, drop_of_some hh]
        exact release_count_self hused (hcount rfl)
      · rw [drop_of_some hh]
        exact (release_count_of_ne heq).trans (hr.count_eq j hj)

theorem Exact.dropAll (hr : r.Exact) (hs : List κ) : (r.dropAll hs).Exact := by
  induction hs generalizing r with
  | nil => exact hr
  | cons h hs ih => exact ih (hr.drop h)

end Exact

/-! ### Dangling handles -/

/-- Every handle refers to a used entry. -/
def NoDangling (r : Refs κ ι α) : Prop := ∀ h i, r.ref h = some i → r.used i = true

omit [DecidableEq κ] in
theorem Exact.noDangling [Fintype κ] (hr : r.Exact) : r.NoDangling :=
  fun h i hh => (hr.used_iff i).mpr ⟨h, hh⟩

/-- How many handles of a list refer to an entry. -/
def hits (r : Refs κ ι α) (hs : List κ) (i : ι) : ℕ := hs.countP fun h => r.ref h = some i

/-- The entries that a list of drops frees have no other handles. -/
def SafeDrop (r : Refs κ ι α) (hs : List κ) : Prop :=
  ∀ i, r.used i = true → 0 < r.hits hs i → r.count i ≤ r.hits hs i →
    ∀ h, r.ref h = some i → h ∈ hs

theorem hits_drop_of_notMem (hh : h ∉ hs) : (r.drop h).hits hs i = r.hits hs i := by
  refine List.countP_congr fun h' hh' => ?_
  have hne : h' ≠ h := fun heq => hh (heq ▸ hh')
  rw [drop_ref, if_neg hne]

/-- **The entries that a list of drops frees**: those with as many references in the list as their
count says. -/
theorem used_dropAll (hnodup : hs.Nodup) : (r.dropAll hs).used i = true ↔
    r.used i = true ∧ (r.hits hs i = 0 ∨ r.hits hs i < r.count i) := by
  induction hs generalizing r with
  | nil => exact ⟨fun h => ⟨h, .inl rfl⟩, fun h => h.1⟩
  | cons h hs ih =>
    obtain ⟨hnot, hnodup⟩ := List.nodup_cons.mp hnodup
    rw [dropAll_cons, ih hnodup, hits_drop_of_notMem hnot]
    have hhits : r.hits (h :: hs) i = r.hits hs i + if r.ref h = some i then 1 else 0 := by
      rw [hits, List.countP_cons]
      simp only [decide_eq_true_eq]
      rfl
    rw [hhits]
    cases hh : r.ref h with
    | none =>
      rw [drop_of_none hh, if_neg nofun, Nat.add_zero]
    | some j =>
      rw [drop_of_some hh]
      change (r.release j).used i = true ∧ (_ ∨ _ < (r.release j).count i) ↔ _
      rw [release_used]
      by_cases hij : i = j
      · subst hij
        rw [if_pos rfl]
        by_cases hused : r.used i = true
        · by_cases hcount : 1 < r.count i
          · rw [release_count_self hused hcount]
            simp only [hused, hcount, true_and, implies_true]
            omega
          · simp only [hused, hcount, true_and, forall_const, false_and, false_iff]
            omega
        · simp [hused]
      · have hne : some j ≠ some i := fun heq => hij (Option.some.inj heq).symm
        rw [if_neg hne, release_count_of_ne hij, Nat.add_zero]
        simp [hij]

/-- **A list of drops leaves no dangling handle exactly if it is safe.** -/
theorem NoDangling.dropAll_iff (hr : r.NoDangling) (hnodup : hs.Nodup) :
    (r.dropAll hs).NoDangling ↔ r.SafeDrop hs := by
  constructor
  · intro hnone i hused hpos hle h hh
    by_contra hnot
    have hafter := hnone h i (by rw [dropAll_ref, if_neg hnot, hh])
    rw [used_dropAll hnodup] at hafter
    omega
  · intro hsafe h i hh
    rw [dropAll_ref] at hh
    split_ifs at hh with hmem
    have hused := hr h i hh
    rw [used_dropAll hnodup]
    refine ⟨hused, ?_⟩
    by_contra hfreed
    exact hmem (hsafe i hused (by omega) (by omega) h hh)

/-- With exact counts, every list of drops is safe. -/
theorem Exact.safeDrop [Fintype κ] (hr : r.Exact) (hnodup : hs.Nodup) : r.SafeDrop hs :=
  (hr.noDangling.dropAll_iff hnodup).mp (hr.dropAll hs).noDangling

theorem NoDangling.alloc (hr : r.NoDangling) (h : κ) (i : ι) (a : α) :
    (r.alloc h i a).NoDangling := by
  intro h' j hh'
  change update r.ref h (some i) h' = some j at hh'
  change update r.used i true j = true
  by_cases hj : j = i
  · rw [hj, update_self]
  · rw [update_of_ne hj]
    by_cases heq : h' = h
    · rw [heq, update_self] at hh'
      exact absurd (Option.some.inj hh').symm hj
    · rw [update_of_ne heq] at hh'
      exact hr h' j hh'

omit [DecidableEq ι] in
/-- A handle may refer to what another one refers to. -/
theorem NoDangling.setRef (hr : r.NoDangling) (htarget : ∀ i, target = some i → r.used i = true) :
    (r.setRef h target).NoDangling := by
  intro h' j hh'
  change update r.ref h target h' = some j at hh'
  by_cases heq : h' = h
  · rw [heq, update_self] at hh'
    exact htarget j hh'
  · rw [update_of_ne heq] at hh'
    exact hr h' j hh'

theorem NoDangling.share (hr : r.NoDangling) (hi : r.used i = true) :
    (r.share bump h i).NoDangling :=
  hr.setRef fun _ hj => Option.some.inj hj ▸ hi

end Refs

end Hxnu.RefCount
