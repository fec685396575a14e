import Hxnu.Lib.Tables

/-!
# Trees of tables without sharing

A path is a nonempty list of indices that starts at a fixed root table. If no two paths lead to the
same word, then a write to one word changes what one path finds. This file says how paths and
lookups change when a new table is hung below an entry, when an entry at full depth is written, and
when memory outside the tree is written.

## Main definitions

* `Tables.word`: the word that a path leads to.
* `Tables.find`: the entry that a walk from the root ends at, with the indices it has not used.
* `Tables.Tree`: no two paths lead to the same word.

## Main results

* `Tables.Tree.install`, `Tables.Tree.find_install`: a new table leaves every lookup as it is.
* `Tables.Tree.writeLeaf`, `Tables.Tree.find_writeLeaf`: an entry at full depth is the business of
  one lookup.
* `Tables.word_congr`, `Tables.find_congr`: a tree depends only on its own words.
-/

namespace Hxnu.Tables

open List

variable {rest : List ℕ} {R : ℕ → Prop}

variable {next : ℕ → Option ℕ} {present : ℕ → Bool} {mem mem' : ℕ → ℕ} {n depth root l w : ℕ}
  {A : Set ℕ} {p q : List ℕ}

/-! ### Paths -/

/-- The word of the tree below the table `root` that a path leads to. -/
def word (next : ℕ → Option ℕ) (mem : ℕ → ℕ) (root : ℕ) : List ℕ → Option ℕ
  | [] => none
  | i :: path => reach next mem (root + 8 * i) path

theorem reach_concat (p : List ℕ) (j : ℕ) : reach next mem w (p ++ [j]) =
    (reach next mem w p).bind fun l => (next (mem l)).map (· + 8 * j) := by
  induction p generalizing w with
  | nil =>
    rw [nil_append, reach, reach, Option.bind_some]
    cases next (mem w) <;> rfl
  | cons i p ih =>
    rw [cons_append, reach, reach]
    cases hnext : next (mem w) with
    | none => rfl
    | some t => exact ih

/-- A longer path follows the entry that the shorter one leads to. -/
theorem word_concat (hp : p ≠ []) (j : ℕ) : word next mem root (p ++ [j]) =
    (word next mem root p).bind fun l => (next (mem l)).map (· + 8 * j) := by
  cases p with
  | nil => exact absurd rfl hp
  | cons i p => exact reach_concat p j

theorem word_concat_some (hp : word next mem root p = some l) (hl : next (mem l) = some t) (j : ℕ) :
    word next mem root (p ++ [j]) = some (t + 8 * j) := by
  have hne : p ≠ [] := by
    rintro rfl
    cases hp
  rw [word_concat hne, hp, Option.bind_some, hl, Option.map_some]

theorem word_concat_none (hp : word next mem root p = some l) (hl : next (mem l) = none)
    (j : ℕ) : word next mem root (p ++ [j]) = none := by
  have hne : p ≠ [] := by
    rintro rfl
    cases hp
  rw [word_concat hne, hp, Option.bind_some, hl, Option.map_none]

theorem word_append_none (hp : word next mem root p = some l) (hl : next (mem l) = none) :
    word next mem root (p ++ j :: rest) = none := by
  induction rest using List.reverseRecOn with
  | nil => exact word_concat_none hp hl j
  | append_singleton rest i ih =>
    rw [← cons_append, ← append_assoc, word_concat (by simp), ih, Option.bind_none]

/-- The paths of a tree: they start with an index in `A` and are no longer than the tree is deep. -/
structure Valid (n depth : ℕ) (A : Set ℕ) (p : List ℕ) : Prop where
  ne_nil : p ≠ []
  length_le : p.length ≤ depth
  lt : ∀ i ∈ p, i < n
  head : ∀ i, p.head? = some i → i ∈ A

theorem Valid.of_append (h : Valid n depth A p) (hp : p = q ++ rest)
    (hq : q ≠ []) : Valid n depth A q := by
  subst hp
  refine ⟨hq, ?_, fun i hi => h.lt i (mem_append_left _ hi), ?_⟩
  · have hlength := h.length_le
    rw [length_append] at hlength
    omega
  · intro i hi
    refine h.head i ?_
    rw [head?_append, hi, Option.some_or]

theorem Valid.of_concat (h : Valid n depth A (p ++ [j])) (hp : p ≠ []) :
    Valid n depth A p ∧ j < n ∧ p.length < depth := by
  have hlength := h.length_le
  rw [length_append, length_singleton] at hlength
  exact ⟨h.of_append rfl hp, h.lt j (mem_append_right _ (mem_singleton_self j)), hlength⟩

/-! ### Lookups -/

/-- The present entry at which the walk from a word with the given indices ends, with the indices
that are left. Indices are left when the entry does not lead to a table. -/
def lookup (next : ℕ → Option ℕ) (present : ℕ → Bool) (mem : ℕ → ℕ) :
    ℕ → List ℕ → Option (ℕ × List ℕ)
  | w, [] => if present (mem w) then some (mem w, []) else none
  | w, j :: path => match next (mem w) with
    | some t => lookup next present mem (t + 8 * j) path
    | none => if present (mem w) then some (mem w, j :: path) else none

/-- The lookup of a path from the root. -/
def find (next : ℕ → Option ℕ) (present : ℕ → Bool) (mem : ℕ → ℕ) (root : ℕ) :
    List ℕ → Option (ℕ × List ℕ)
  | [] => none
  | i :: path => lookup next present mem (root + 8 * i) path

theorem lookup_eq_some : lookup next present mem w p = some (e, rest) ↔
      ∃ q l, p = q ++ rest ∧ reach next mem w q = some l ∧ mem l = e ∧ present e = true ∧
        (rest ≠ [] → next e = none) := by
  induction p generalizing w with
  | nil =>
    rw [lookup]
    constructor
    · intro h
      split_ifs at h with hpresent
      cases h
      exact ⟨[], w, rfl, rfl, rfl, hpresent, fun h => absurd rfl h⟩
    · rintro ⟨q, l, hq, hreach, rfl, hpresent, -⟩
      obtain ⟨rfl, rfl⟩ := append_eq_nil_iff.mp hq.symm
      cases hreach
      rw [if_pos hpresent]
  | cons j p ih =>
    rw [lookup]
    cases hnext : next (mem w) with
    | some t =>
      simp only
      rw [ih]
      constructor
      · rintro ⟨q, l, rfl, hreach, hrest⟩
        exact ⟨j :: q, l, rfl, by rw [reach_cons_some hnext, hreach], hrest⟩
      · rintro ⟨q, l, hq, hreach, rfl, hpresent, hrest⟩
        cases q with
        | nil =>
          -- the walk would stop at an entry that leads on
          cases hreach
          rw [nil_append] at hq
          rw [hrest (hq ▸ cons_ne_nil j p)] at hnext
          cases hnext
        | cons i q =>
          rw [cons_append] at hq
          obtain ⟨rfl, rfl⟩ := List.cons.inj hq
          rw [reach_cons_some hnext] at hreach
          exact ⟨q, l, rfl, hreach, rfl, hpresent, hrest⟩
    | none =>
      simp only
      constructor
      · intro h
        split_ifs at h with hpresent
        cases h
        exact ⟨[], w, rfl, rfl, rfl, hpresent, fun _ => hnext⟩
      · rintro ⟨q, l, hq, hreach, rfl, hpresent, -⟩
        cases q with
        | nil =>
          cases hreach
          rw [nil_append] at hq
          rw [if_pos hpresent, hq]
        | cons i q =>
          rw [reach, hnext] at hreach
          cases hreach

theorem lookup_of_absent (hnext : next (mem w) = none) (habsent : present (mem w) = false) :
    lookup next present mem w p = none := by
  cases p with
  | nil =>
    rw [lookup, habsent]
    rfl
  | cons j p =>
    rw [lookup, hnext, habsent]
    rfl

theorem find_of_absent (hnext : next (mem (root + 8 * i)) = none)
    (habsent : present (mem (root + 8 * i)) = false) : find next present mem root (i :: p) = none :=
  lookup_of_absent hnext habsent

/-- A lookup depends only on the words it visits. -/
theorem lookup_congr (h : ∀ l ∈ visited next mem w p, mem' l = mem l) :
    lookup next present mem' w p = lookup next present mem w p := by
  induction p generalizing w with
  | nil => rw [lookup, lookup, h w (head_mem_visited _)]
  | cons i p ih =>
    rw [lookup, lookup, h w (head_mem_visited _)]
    cases hnext : next (mem w) with
    | none => rfl
    | some t =>
      rw [visited_cons_some hnext] at h
      exact ih fun l hl => h l (mem_cons_of_mem w hl)

/-- A lookup ends at the word of a part of its path. -/
theorem find_eq_some : find next present mem root p = some (e, rest) ↔
      ∃ q l, p = q ++ rest ∧ word next mem root q = some l ∧ mem l = e ∧ present e = true ∧
        (rest ≠ [] → next e = none) := by
  cases p with
  | nil =>
    constructor
    · intro h
      cases h
    · rintro ⟨q, l, hq, hword, -⟩
      obtain ⟨rfl, -⟩ := append_eq_nil_iff.mp hq.symm
      cases hword
  | cons i p =>
    rw [find, lookup_eq_some]
    constructor
    · rintro ⟨q, l, rfl, hreach, hrest⟩
      exact ⟨i :: q, l, rfl, hreach, hrest⟩
    · rintro ⟨q, l, hq, hword, hrest⟩
      cases q with
      | nil => cases hword
      | cons k q =>
        rw [cons_append] at hq
        obtain ⟨rfl, rfl⟩ := List.cons.inj hq
        exact ⟨q, l, rfl, hword, hrest⟩

/-! ### Trees -/

/-- No two paths lead to the same word. -/
def Tree (next : ℕ → Option ℕ) (n depth : ℕ) (A : Set ℕ) (mem : ℕ → ℕ) (root : ℕ) : Prop :=
  ∀ p q l, Valid n depth A p → Valid n depth A q → word next mem root p = some l →
    word next mem root q = some l → p = q

/-- The words that paths lead to. -/
def treeWords (next : ℕ → Option ℕ) (n depth : ℕ) (A : Set ℕ) (mem : ℕ → ℕ) (root : ℕ) : Set ℕ :=
  {l | ∃ p, Valid n depth A p ∧ word next mem root p = some l}

/-- If no entry of the root leads to a table, the paths are single indices. -/
theorem eq_singleton_of_empty (h : ∀ i ∈ A, i < n → next (mem (root + 8 * i)) = none)
    (hp : Valid n depth A p) (hl : word next mem root p = some l) :
    ∃ i, p = [i] ∧ i ∈ A ∧ i < n ∧ l = root + 8 * i := by
  cases p with
  | nil => cases hl
  | cons i p =>
    have hi : i ∈ A := hp.head i rfl
    have hlt : i < n := hp.lt i mem_cons_self
    cases p with
    | nil => exact ⟨i, rfl, hi, hlt, (Option.some.inj hl).symm⟩
    | cons j p =>
      rw [word, reach, h i hi hlt] at hl
      cases hl

theorem tree_of_empty (h : ∀ i ∈ A, i < n → next (mem (root + 8 * i)) = none) :
    Tree next n depth A mem root := by
  intro p q l hp hq hl hl'
  obtain ⟨i, rfl, -, -, hi⟩ := eq_singleton_of_empty h hp hl
  obtain ⟨j, rfl, -, -, hj⟩ := eq_singleton_of_empty h hq hl'
  rw [show i = j by omega]

/-- Paths depend only on the entries above the full depth. -/
theorem word_congr (h : ∀ q l, Valid n depth A q → q.length < depth →
      word next mem root q = some l → mem' l = mem l) (hp : Valid n depth A p) :
    word next mem' root p = word next mem root p := by
  induction p using List.reverseRecOn with
  | nil => rfl
  | append_singleton p j ih =>
    by_cases hnil : p = []
    · subst hnil
      rfl
    · obtain ⟨hvalid, -, hlength⟩ := hp.of_concat hnil
      rw [word_concat hnil, word_concat hnil, ih hvalid]
      cases hword : word next mem root p with
      | none => rfl
      | some l => rw [Option.bind_some, Option.bind_some, h p l hvalid hlength hword]

theorem find_congr (h : ∀ l ∈ treeWords next n depth A mem root, mem' l = mem l)
    (hp : Valid n depth A p) :
    find next present mem' root p = find next present mem root p := by
  have hword {q : List ℕ} (hq : Valid n depth A q) :
      word next mem' root q = word next mem root q :=
    word_congr (fun q l hq _ hl => h l ⟨q, hq, hl⟩) hq
  have hsub {q rest : List ℕ} {l : ℕ} (hpq : p = q ++ rest)
      (hl : word next mem root q = some l ∨ word next mem' root q = some l) :
      Valid n depth A q := by
    have hne : q ≠ [] := by
      rintro rfl
      rcases hl with hl | hl <;> cases hl
    exact hp.of_append hpq hne
  ext ⟨e, rest⟩
  rw [find_eq_some, find_eq_some]
  constructor
  · rintro ⟨q, l, hpq, hl, hrest⟩
    have hq := hsub hpq (.inr hl)
    rw [hword hq] at hl
    rw [h l ⟨q, hq, hl⟩] at hrest
    exact ⟨q, l, hpq, hl, hrest⟩
  · rintro ⟨q, l, hpq, hl, hrest⟩
    have hq := hsub hpq (.inl hl)
    rw [← h l ⟨q, hq, hl⟩] at hrest
    exact ⟨q, l, hpq, (hword hq).trans hl, hrest⟩

theorem treeWords_congr (h : ∀ l ∈ treeWords next n depth A mem root, mem' l = mem l) :
    treeWords next n depth A mem' root = treeWords next n depth A mem root := by
  ext l
  refine exists_congr fun q => and_congr_right fun hq => ?_
  rw [word_congr (fun q l hq _ hl => h l ⟨q, hq, hl⟩) hq]

theorem Tree.congr (ht : Tree next n depth A mem root)
    (h : ∀ l ∈ treeWords next n depth A mem root, mem' l = mem l) :
    Tree next n depth A mem' root := by
  have hword {q : List ℕ} (hq : Valid n depth A q) :
      word next mem' root q = word next mem root q :=
    word_congr (fun q l hq _ hl => h l ⟨q, hq, hl⟩) hq
  intro p q l hp hq hl hl'
  rw [hword hp] at hl
  rw [hword hq] at hl'
  exact ht p q l hp hq hl hl'

/-- Entries that lead to tables satisfy `R`. -/
def Inner (R : ℕ → Prop) (next : ℕ → Option ℕ) (n depth : ℕ) (A : Set ℕ) (mem : ℕ → ℕ)
    (root : ℕ) : Prop :=
  ∀ p l t, Valid n depth A p → p.length < depth → word next mem root p = some l →
    next (mem l) = some t → R (mem l)

theorem inner_of_empty
    (h : ∀ i ∈ A, i < n → next (mem (root + 8 * i)) = none) : Inner R next n depth A mem root := by
  intro p l t hp _ hl ht
  obtain ⟨i, -, hi, hlt, rfl⟩ := eq_singleton_of_empty h hp hl
  rw [h i hi hlt] at ht
  cases ht

theorem Inner.congr (hR : Inner R next n depth A mem root)
    (h : ∀ l ∈ treeWords next n depth A mem root, mem' l = mem l) :
    Inner R next n depth A mem' root := by
  intro p l t hp hlength hl ht
  rw [word_congr (fun q l hq _ hl => h l ⟨q, hq, hl⟩) hp] at hl
  rw [h l ⟨p, hp, hl⟩] at ht ⊢
  exact hR p l t hp hlength hl ht

/-! ### A new table -/

/-- A zeroed table at `f` is hung below the word `w`. -/
structure Installed (n : ℕ) (mem : ℕ → ℕ) (w v f : ℕ) (mem' : ℕ → ℕ) : Prop where
  entry : mem' w = v
  zero : ∀ l ∈ page n f, mem' l = 0
  same : ∀ l, l ≠ w → l ∉ page n f → mem' l = mem l

/-- What it takes to hang a new table below the entry of a path. -/
structure Hangs (next : ℕ → Option ℕ) (n depth : ℕ) (A : Set ℕ) (mem : ℕ → ℕ) (root : ℕ)
    (p : List ℕ) (w v f : ℕ) : Prop where
  valid : Valid n depth A p
  length_lt : p.length < depth
  word : word next mem root p = some w
  missing : next (mem w) = none
  leads : next v = some f
  zero : next 0 = none
  fresh : ∀ l ∈ treeWords next n depth A mem root, l ∉ page n f

namespace Tree

variable {v f : ℕ}

section

variable (ht : Tree next n depth A mem root) (hp : Hangs next n depth A mem root p w v f)
    (h : Installed n mem w v f mem')

include ht hp h

theorem word_install (hq : Valid n depth A q) :
    (∀ j, q = p ++ [j] → word next mem' root q = some (f + 8 * j)) ∧
      ((∀ j, q ≠ p ++ [j]) → word next mem' root q = word next mem root q) := by
  -- induction on the path: only at `p` does the walk read a word that changed
  induction q using List.reverseRecOn with
  | nil => exact absurd rfl hq.ne_nil
  | append_singleton q i ih =>
    by_cases hnil : q = []
    · subst hnil
      refine ⟨?_, fun _ => rfl⟩
      intro j hj
      have hlength := congrArg List.length hj
      have := length_pos_of_ne_nil hp.valid.ne_nil
      simp only [nil_append, length_singleton, length_append] at hlength
      omega
    · obtain ⟨hvalid, hi, -⟩ := hq.of_concat hnil
      obtain ⟨hnew, hold⟩ := ih hvalid
      by_cases hqp : q = p
      · -- the new table itself
        subst hqp
        have hword : word next mem' root q = some w := by
          rw [hold (fun j hj => by simp at hj), hp.word]
        have hlead : word next mem' root (q ++ [i]) = some (f + 8 * i) :=
          word_concat_some hword (by rw [h.entry, hp.leads]) i
        refine ⟨?_, fun hne => absurd rfl (hne i)⟩
        intro j hj
        rw [hlead, singleton_inj.mp (append_cancel_left hj)]
      · refine ⟨fun j hj => absurd (append_inj_left' hj rfl) hqp, fun _ => ?_⟩
        by_cases hbelow : ∃ j, q = p ++ [j]
        · -- below the new table, where everything is zero
          obtain ⟨j, rfl⟩ := hbelow
          have hj : j < n := (hvalid.of_concat hp.valid.ne_nil).2.1
          rw [word_concat_none (hnew j rfl) (by rw [h.zero _ ⟨j, hj, rfl⟩, hp.zero]),
            word_concat hnil, word_concat_none hp.word hp.missing, Option.bind_none]
        · rw [word_concat hnil, word_concat hnil, hold (not_exists.mp hbelow)]
          cases hword : word next mem root q with
          | none => rfl
          | some l =>
            have hne : l ≠ w := by
              rintro rfl
              exact hqp (ht q p l hvalid hp.valid hword hp.word)
            rw [Option.bind_some, Option.bind_some, h.same l hne (hp.fresh l ⟨q, hvalid, hword⟩)]

/-- **A new table keeps the tree a tree**, with the words of the table added. -/
theorem install : Tree next n depth A mem' root ∧ ∀ l ∈ treeWords next n depth A mem' root,
        l ∈ treeWords next n depth A mem root ∨ l ∈ page n f := by
  have hcases {q : List ℕ} {l : ℕ} (hq : Valid n depth A q)
      (hl : word next mem' root q = some l) :
      word next mem root q = some l ∨ ∃ j < n, q = p ++ [j] ∧ l = f + 8 * j := by
    obtain ⟨hnew, hold⟩ := ht.word_install hp h hq
    by_cases hbelow : ∃ j, q = p ++ [j]
    · obtain ⟨j, rfl⟩ := hbelow
      rw [hnew j rfl] at hl
      exact .inr ⟨j, (hq.of_concat hp.valid.ne_nil).2.1, rfl, (Option.some.inj hl).symm⟩
    · exact .inl ((hold (not_exists.mp hbelow)).symm.trans hl)
  refine ⟨?_, ?_⟩
  · intro q q' l hq hq' hl hl'
    rcases hcases hq hl with hold | ⟨j, hj, rfl, hnew⟩
    · rcases hcases hq' hl' with hold' | ⟨j', hj', rfl, hnew'⟩
      · exact ht q q' l hq hq' hold hold'
      · exact absurd ⟨j', hj', hnew'⟩ (hp.fresh l ⟨q, hq, hold⟩)
    · rcases hcases hq' hl' with hold' | ⟨j', hj', rfl, hnew'⟩
      · exact absurd ⟨j, hj, hnew⟩ (hp.fresh l ⟨q', hq', hold'⟩)
      · rw [show j = j' by omega]
  · rintro l ⟨q, hq, hl⟩
    rcases hcases hq hl with hold | ⟨j, hj, -, hnew⟩
    · exact .inl ⟨q, hq, hold⟩
    · exact .inr ⟨j, hj, hnew⟩

/-- **A new table leaves every lookup of full depth as it is**: the entry that led nowhere now leads
to empty entries. -/
theorem find_install
    (habsent : present (mem w) = false) (hzero : present 0 = false) (hq : Valid n depth A q)
    (hfull : q.length = depth) :
    find next present mem' root q = find next present mem root q := by
  ext ⟨e, rest⟩
  rw [find_eq_some, find_eq_some]
  constructor
  · rintro ⟨r, l, hqr, hl, rfl, hpresent, hrest⟩
    have hr : Valid n depth A r := hq.of_append hqr (by rintro rfl; cases hl)
    obtain ⟨hnew, hold⟩ := ht.word_install hp h hr
    by_cases hbelow : ∃ j, r = p ++ [j]
    · obtain ⟨j, rfl⟩ := hbelow
      rw [hnew j rfl] at hl
      cases hl
      rw [h.zero _ ⟨j, (hr.of_concat hp.valid.ne_nil).2.1, rfl⟩, hzero] at hpresent
      cases hpresent
    · rw [hold (not_exists.mp hbelow)] at hl
      by_cases hlw : l = w
      · -- the walk goes on from `w`, so it does not stop there
        subst hlw
        have hrp := ht r p l hr hp.valid hl hp.word
        have hlength := congrArg List.length hqr
        rw [length_append, hfull, hrp] at hlength
        have hlt := hp.length_lt
        have hnone := hrest (ne_nil_of_length_pos (by omega))
        rw [h.entry, hp.leads] at hnone
        cases hnone
      · rw [h.same l hlw (hp.fresh l ⟨r, hr, hl⟩)] at hpresent hrest ⊢
        exact ⟨r, l, hqr, hl, rfl, hpresent, hrest⟩
  · rintro ⟨r, l, hqr, hl, rfl, hpresent, hrest⟩
    have hr : Valid n depth A r := hq.of_append hqr (by rintro rfl; cases hl)
    have hlw : l ≠ w := by
      rintro rfl
      rw [habsent] at hpresent
      cases hpresent
    have hold : ∀ j, r ≠ p ++ [j] := by
      rintro j rfl
      rw [word_concat_none hp.word hp.missing] at hl
      cases hl
    have hsame := h.same l hlw (hp.fresh l ⟨r, hr, hl⟩)
    refine ⟨r, l, hqr, ?_, hsame, hpresent, hrest⟩
    rw [(ht.word_install hp h hr).2 hold, hl]

theorem inner_install
    (hR : Inner R next n depth A mem root) (hv : R v) : Inner R next n depth A mem' root := by
  intro q l t hq hlength hl hlt
  obtain ⟨hnew, hold⟩ := ht.word_install hp h hq
  by_cases hbelow : ∃ j, q = p ++ [j]
  · -- the entries of the new table are zero
    obtain ⟨j, rfl⟩ := hbelow
    rw [hnew j rfl] at hl
    cases hl
    rw [h.zero _ ⟨j, (hq.of_concat hp.valid.ne_nil).2.1, rfl⟩, hp.zero] at hlt
    cases hlt
  · rw [hold (not_exists.mp hbelow)] at hl
    by_cases hlw : l = w
    · rw [hlw, h.entry]
      exact hv
    · rw [h.same l hlw (hp.fresh l ⟨q, hq, hl⟩)] at hlt ⊢
      exact hR q l t hq hlength hl hlt

end

/-! ### An entry at full depth -/

section Leaf

variable (ht : Tree next n depth A mem root) (hp : Valid n depth A p) (hfull : p.length = depth)
  (hw : word next mem root p = some w) (hsame : ∀ l, l ≠ w → mem' l = mem l)

include ht hp hfull hw hsame

/-- No path goes on from an entry at full depth. -/
theorem word_writeLeaf (hq : Valid n depth A q) :
    word next mem' root q = word next mem root q := by
  refine word_congr (fun r l hr hlt hl => hsame l ?_) hq
  rintro rfl
  rw [ht r p l hr hp hl hw, hfull] at hlt
  exact lt_irrefl depth hlt

theorem writeLeaf : Tree next n depth A mem' root := by
  intro q r l hq hr hl hl'
  rw [ht.word_writeLeaf hp hfull hw hsame hq] at hl
  rw [ht.word_writeLeaf hp hfull hw hsame hr] at hl'
  exact ht q r l hq hr hl hl'

theorem treeWords_writeLeaf :
    treeWords next n depth A mem' root = treeWords next n depth A mem root := by
  ext l
  refine exists_congr fun q => and_congr_right fun hq => ?_
  rw [ht.word_writeLeaf hp hfull hw hsame hq]

/-- **Only one lookup sees an entry at full depth.** -/
theorem find_writeLeaf (hq : Valid n depth A q) (hne : q ≠ p) (hlength : q.length = depth) :
    find next present mem' root q = find next present mem root q := by
  have hother {r rest : List ℕ} {l : ℕ} (hr : Valid n depth A r) (hqr : q = r ++ rest)
      (hl : word next mem root r = some l) : mem' l = mem l := by
    refine hsame l ?_
    rintro rfl
    have hrp := ht r p l hr hp hl hw
    have hrest : rest = [] := by
      have := congrArg List.length hqr
      rw [length_append, hlength, hrp, hfull] at this
      exact length_eq_zero_iff.mp (by omega)
    exact hne (by rw [hqr, hrest, append_nil, hrp])
  ext ⟨e, rest⟩
  rw [find_eq_some, find_eq_some]
  constructor
  · rintro ⟨r, l, hqr, hl, hrest⟩
    have hr : Valid n depth A r := hq.of_append hqr (by rintro rfl; cases hl)
    rw [ht.word_writeLeaf hp hfull hw hsame hr] at hl
    rw [hother hr hqr hl] at hrest
    exact ⟨r, l, hqr, hl, hrest⟩
  · rintro ⟨r, l, hqr, hl, hrest⟩
    have hr : Valid n depth A r := hq.of_append hqr (by rintro rfl; cases hl)
    rw [← hother hr hqr hl] at hrest
    exact ⟨r, l, hqr, (ht.word_writeLeaf hp hfull hw hsame hr).trans hl, hrest⟩

theorem inner_writeLeaf (hR : Inner R next n depth A mem root) :
    Inner R next n depth A mem' root := by
  intro q l t hq hlength hl hlt
  rw [ht.word_writeLeaf hp hfull hw hsame hq] at hl
  have hne : l ≠ w := by
    rintro rfl
    rw [ht q p l hq hp hl hw, hfull] at hlength
    exact lt_irrefl depth hlength
  rw [hsame l hne] at hlt ⊢
  exact hR q l t hq hlength hl hlt

end Leaf

end Tree

/-- The words that a walk reads are the words of the parts of its path. -/
theorem mem_visited_iff :
    l ∈ visited next mem (root + 8 * i) path ↔
      ∃ q rest, i :: path = q ++ rest ∧ word next mem root q = some l := by
  induction path generalizing root i with
  | nil =>
    rw [visited, mem_singleton]
    constructor
    · rintro rfl
      exact ⟨[i], [], rfl, rfl⟩
    · rintro ⟨q, rest, hq, hl⟩
      cases q with
      | nil => cases hl
      | cons j q =>
        obtain ⟨rfl, hnil⟩ := List.cons.inj hq
        obtain ⟨rfl, -⟩ := append_eq_nil_iff.mp hnil.symm
        exact (Option.some.inj hl).symm
  | cons j path ih =>
    rw [visited, mem_cons]
    constructor
    · rintro (rfl | hl)
      · exact ⟨[i], j :: path, rfl, rfl⟩
      · cases hnext : next (mem (root + 8 * i)) with
        | none =>
          rw [hnext] at hl
          cases hl
        | some t =>
          rw [hnext] at hl
          obtain ⟨q, rest, hq, hword⟩ := ih.mp hl
          refine ⟨i :: q, rest, by rw [hq, cons_append], ?_⟩
          cases q with
          | nil => cases hword
          | cons k q =>
            rw [word, reach_cons_some hnext]
            exact hword
    · rintro ⟨q, rest, hq, hl⟩
      cases q with
      | nil => cases hl
      | cons k q =>
        obtain ⟨rfl, hrest⟩ := List.cons.inj hq
        cases q with
        | nil => exact .inl (Option.some.inj hl).symm
        | cons k q =>
          rw [word, reach] at hl
          cases hnext : next (mem (root + 8 * i)) with
          | none =>
            rw [hnext] at hl
            cases hl
          | some t =>
            rw [hnext] at hl
            exact .inr (ih.mpr ⟨k :: q, rest, hrest, hl⟩)

/-- A walk that reaches the end of its path finds the entry there. -/
theorem find_of_word (h : word next mem root p = some l) :
    find next present mem root p = if present (mem l) then some (mem l, []) else none := by
  split_ifs with hpresent
  · exact find_eq_some.mpr ⟨p, l, (append_nil p).symm, h, rfl, hpresent, fun hne => absurd rfl hne⟩
  · rw [Option.eq_none_iff_forall_ne_some]
    rintro ⟨e, rest⟩ hfind
    obtain ⟨q, l', rfl, hq, rfl, hpresent', hrest⟩ := find_eq_some.mp hfind
    cases rest with
    | nil =>
      rw [append_nil, hq] at h
      cases h
      exact hpresent hpresent'
    | cons j rest =>
      -- the walk would have stopped before
      have hnone := hrest (cons_ne_nil j rest)
      rw [word_append_none hq hnone] at h
      cases h

end Hxnu.Tables
