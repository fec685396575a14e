import Hxnu.Lib.TableTree
import Mathlib

/-!
# Copies of trees of tables

A tree of tables is copied into memory that was free: every entry that leads to a table gets a table
of its own, and every entry at full depth a page of its own with the words of the original page. The
copy takes a set of addresses, and two parts of it that take disjoint sets do not disturb each other.
A table is copied entry by entry; this file gives the rules for one entry, and for one more entry of a
table.

## Main definitions

* `EntryFormat`: how the entries of tables are read.
* `EntryFormat.Copied`: below an entry there is a copy of what is below another.
* `EntryFormat.CopiedTable`: the same for the first entries of a table.

## Main results

* `EntryFormat.CopiedTable.succ`: one more entry is copied.
* `EntryFormat.CopiedTable.entry`: the copy of a whole table is the copy of an entry.
-/

namespace Hxnu.Tables

/-- How the entries of tables of `size` entries are read: the table that an entry leads to, whether
it is present, the page that an entry at full depth maps, and which entries have the same flags. -/
structure EntryFormat where
  size : ℕ
  next : ℕ → Option ℕ
  present : ℕ → Bool
  frame : ℕ → ℕ
  sameFlags : ℕ → ℕ → Prop

namespace EntryFormat

variable {E : EntryFormat} {mem mem' mem'' : ℕ → ℕ} {w w' t t' k N : ℕ} {F G H : Set ℕ}
  {p q : List ℕ}

/-- The addresses of the page that an entry maps. -/
def pageOf (E : EntryFormat) (e : ℕ) : Set ℕ := Set.Ico (E.frame e) (E.frame e + 8 * E.size)

/-- The paths of `k` indices. -/
structure Below (E : EntryFormat) (k : ℕ) (p : List ℕ) : Prop where
  length_eq : p.length = k
  lt : ∀ i ∈ p, i < E.size

/-- The page of `e'` is a copy of the page of `e`, in `F`. -/
structure CopiedPage (E : EntryFormat) (mem mem' : ℕ → ℕ) (F : Set ℕ) (e e' : ℕ) : Prop where
  sameFlags : E.sameFlags e e'
  fresh : E.pageOf e' ⊆ F
  words : ∀ i < E.size, mem' (E.frame e' + 8 * i) = mem (E.frame e + 8 * i)

/-- The walk from `w'` finds a copy of the page that the walk from `w` finds. -/
structure CopiedPath (E : EntryFormat) (mem : ℕ → ℕ) (w : ℕ) (mem' : ℕ → ℕ) (w' : ℕ) (F : Set ℕ)
    (p : List ℕ) : Prop where
  walk : ∀ l ∈ visited E.next mem' w' p, l = w' ∨ l ∈ F
  absent : lookup E.next E.present mem w p = none → lookup E.next E.present mem' w' p = none
  page : ∀ e rest, lookup E.next E.present mem w p = some (e, rest) → rest = [] ∧
    ∃ e', lookup E.next E.present mem' w' p = some (e', []) ∧ E.CopiedPage mem mem' F e e'

/-- Below the entry `w'` is a copy, in `F`, of the `k` levels below the entry `w`. -/
structure Copied (E : EntryFormat) (k : ℕ) (mem : ℕ → ℕ) (w : ℕ) (mem' : ℕ → ℕ) (w' : ℕ)
    (F : Set ℕ) : Prop where
  path : ∀ p, E.Below k p → E.CopiedPath mem w mem' w' F p
  apart : ∀ p q e e', E.Below k p → E.Below k q → p ≠ q →
    lookup E.next E.present mem' w' p = some (e, []) →
    lookup E.next E.present mem' w' q = some (e', []) → Disjoint (E.pageOf e) (E.pageOf e')

/-- The first `N` entries of the table `t'`, with `k` levels below each, are copies of those of the
table `t`. -/
structure CopiedTable (E : EntryFormat) (N k : ℕ) (mem : ℕ → ℕ) (t : ℕ) (mem' : ℕ → ℕ) (t' : ℕ)
    (F : Set ℕ) : Prop where
  path : ∀ i < N, ∀ p, E.Below k p → E.CopiedPath mem (t + 8 * i) mem' (t' + 8 * i) F p
  apart : ∀ i < N, ∀ j < N, ∀ p q e e', E.Below k p → E.Below k q → i :: p ≠ j :: q →
    lookup E.next E.present mem' (t' + 8 * i) p = some (e, []) →
    lookup E.next E.present mem' (t' + 8 * j) q = some (e', []) → Disjoint (E.pageOf e) (E.pageOf e')

theorem Below.tail (h : E.Below (k + 1) (i :: p)) : i < E.size ∧ E.Below k p :=
  ⟨h.lt i List.mem_cons_self, Nat.succ.inj h.length_eq, fun j hj => h.lt j (List.mem_cons_of_mem i hj)⟩

/-! ### Paths -/

theorem CopiedPage.congr (h : E.CopiedPage mem mem' F e e') (hF : ∀ l ∈ F, mem'' l = mem' l)
    (hG : F ⊆ G) : E.CopiedPage mem mem'' G e e' := by
  refine ⟨h.sameFlags, h.fresh.trans hG, fun i hi => ?_⟩
  rw [← h.words i hi]
  exact hF _ (h.fresh ⟨Nat.le_add_right _ _, by omega⟩)

section

variable (h : E.CopiedPath mem w mem' w' F p) (hw : mem'' w' = mem' w')
    (hF : ∀ l ∈ F, mem'' l = mem' l)

include h hw hF

theorem CopiedPath.lookup_eq :
    lookup E.next E.present mem'' w' p = lookup E.next E.present mem' w' p := by
  refine lookup_congr fun l hl => ?_
  rcases h.walk l hl with rfl | hl
  · exact hw
  · exact hF l hl

/-- A copy stays when memory changes elsewhere. -/
theorem CopiedPath.congr (hG : F ⊆ G) : E.CopiedPath mem w mem'' w' G p := by
  have hlookup := h.lookup_eq hw hF
  refine ⟨?_, ?_, ?_⟩
  · intro l hl
    have hvisited : visited E.next mem'' w' p = visited E.next mem' w' p := by
      refine visited_congr fun l hl => ?_
      rcases h.walk l hl with rfl | hl
      · exact hw
      · exact hF l hl
    rw [hvisited] at hl
    exact (h.walk l hl).imp_right fun hl => hG hl
  · rw [hlookup]
    exact h.absent
  · intro e rest he
    obtain ⟨hrest, e', he', hpage⟩ := h.page e rest he
    exact ⟨hrest, e', hlookup ▸ he', hpage.congr hF hG⟩

end

/-- The page that the copy has on a path is in `F`. -/
theorem CopiedPath.fresh (h : E.CopiedPath mem w mem' w' F p)
    (he : lookup E.next E.present mem' w' p = some (e, rest)) : E.pageOf e ⊆ F := by
  cases hlookup : lookup E.next E.present mem w p with
  | none =>
    rw [h.absent hlookup] at he
    cases he
  | some r =>
    obtain ⟨-, e', he', hpage⟩ := h.page r.1 r.2 hlookup
    rw [he'] at he
    cases he
    exact hpage.fresh

/-! ### Entries -/

/-- Nothing is below an absent entry. -/
theorem copied_of_absent (hnext : E.next (mem w) = none) (habsent : E.present (mem w) = false)
    (hnext' : E.next (mem' w') = none) (habsent' : E.present (mem' w') = false) :
    E.Copied k mem w mem' w' F := by
  have hnone : ∀ p, lookup E.next E.present mem w p = none := fun p => lookup_of_absent hnext habsent
  have hnone' : ∀ p, lookup E.next E.present mem' w' p = none :=
    fun p => lookup_of_absent hnext' habsent'
  refine ⟨fun p _ => ⟨fun l hl => .inl ?_, fun _ => hnone' p, ?_⟩, ?_⟩
  · cases p with
    | nil => exact List.mem_singleton.mp hl
    | cons i p =>
      rw [visited_cons_none hnext'] at hl
      exact List.mem_singleton.mp hl
  · intro e rest he
    rw [hnone] at he
    cases he
  · intro p q e e' _ _ _ he
    rw [hnone'] at he
    cases he

/-- An entry at full depth is copied with its page. -/
theorem CopiedPage.entry (h : E.CopiedPage mem mem' F (mem w) (mem' w'))
    (hpresent : E.present (mem w) = true) (hpresent' : E.present (mem' w') = true) :
    E.Copied 0 mem w mem' w' F := by
  refine ⟨?_, ?_⟩
  · intro p hp
    obtain rfl := List.eq_nil_of_length_eq_zero hp.length_eq
    refine ⟨fun l hl => .inl (List.mem_singleton.mp hl), ?_, ?_⟩
    · rw [lookup, if_pos hpresent]
      simp
    · intro e rest he
      rw [lookup, if_pos hpresent] at he
      cases he
      refine ⟨rfl, mem' w', ?_, h⟩
      rw [lookup, if_pos hpresent']
  · intro p q e e' hp hq hne
    exact absurd ((List.eq_nil_of_length_eq_zero hp.length_eq).trans
      (List.eq_nil_of_length_eq_zero hq.length_eq).symm) hne

/-! ### Tables -/

namespace CopiedTable

theorem zero : E.CopiedTable 0 k mem t mem' t' F := ⟨by simp, by simp⟩

theorem mono (h : E.CopiedTable N k mem t mem' t' F) (hG : F ⊆ G) :
    E.CopiedTable N k mem t mem' t' G :=
  ⟨fun i hi p hp => (h.path i hi p hp).congr rfl (fun _ _ => rfl) hG, h.apart⟩

/-- **One more entry is copied**, into memory that the entries before it do not use. -/
theorem succ (h : E.CopiedTable N k mem t mem' t' F)
    (hentry : E.Copied k mem (t + 8 * N) mem'' (t' + 8 * N) G) (hdisjoint : Disjoint F G)
    (hslots : ∀ i < N, mem'' (t' + 8 * i) = mem' (t' + 8 * i)) (hF : ∀ l ∈ F, mem'' l = mem' l)
    (hFH : F ⊆ H) (hGH : G ⊆ H) : E.CopiedTable (N + 1) k mem t mem'' t' H := by
  have hold (i : ℕ) (hi : i < N) (p : List ℕ) (hp : E.Below k p) :
      E.CopiedPath mem (t + 8 * i) mem'' (t' + 8 * i) F p :=
    (h.path i hi p hp).congr (hslots i hi) hF subset_rfl
  refine ⟨?_, ?_⟩
  · intro i hi p hp
    rcases Nat.lt_succ_iff_lt_or_eq.mp hi with hi | rfl
    · exact (h.path i hi p hp).congr (hslots i hi) hF hFH
    · exact (hentry.path p hp).congr rfl (fun _ _ => rfl) hGH
  · intro i hi j hj p q e e' hp hq hne he he'
    rcases Nat.lt_succ_iff_lt_or_eq.mp hi with hi | rfl <;>
      rcases Nat.lt_succ_iff_lt_or_eq.mp hj with hj | rfl
    · rw [(h.path i hi p hp).lookup_eq (hslots i hi) hF] at he
      rw [(h.path j hj q hq).lookup_eq (hslots j hj) hF] at he'
      exact h.apart i hi j hj p q e e' hp hq hne he he'
    · exact hdisjoint.mono ((hold i hi p hp).fresh he) ((hentry.path q hq).fresh he')
    · exact hdisjoint.symm.mono ((hentry.path p hp).fresh he) ((hold j hj q hq).fresh he')
    · exact hentry.apart p q e e' hp hq (fun hpq => hne (hpq ▸ rfl)) he he'

/-- **The copy of a whole table** is a copy of an entry that leads to it. -/
theorem entry (h : E.CopiedTable E.size k mem t mem' t' F) (hnext : E.next (mem w) = some t)
    (hnext' : E.next (mem' w') = some t') (htable : Tables.page E.size t' ⊆ F) :
    E.Copied (k + 1) mem w mem' w' F := by
  refine ⟨?_, ?_⟩
  · intro p hp
    cases p with
    | nil => cases hp.length_eq
    | cons i p =>
      obtain ⟨hi, hp⟩ := hp.tail
      obtain ⟨hwalk, habsent, hpage⟩ := h.path i hi p hp
      refine ⟨?_, ?_, ?_⟩
      · intro l hl
        rw [visited_cons_some hnext'] at hl
        rcases List.mem_cons.mp hl with rfl | hl
        · exact .inl rfl
        · rcases hwalk l hl with rfl | hl
          · exact .inr (htable ⟨i, hi, rfl⟩)
          · exact .inr hl
      · rw [lookup, hnext, lookup, hnext']
        exact habsent
      · rw [lookup, hnext, lookup, hnext']
        exact hpage
  · intro p q e e' hp hq hne he he'
    cases p with
    | nil => cases hp.length_eq
    | cons i p =>
      cases q with
      | nil => cases hq.length_eq
      | cons j q =>
        rw [lookup, hnext'] at he he'
        obtain ⟨hi, hp⟩ := hp.tail
        obtain ⟨hj, hq⟩ := hq.tail
        exact h.apart i hi j hj p q e e' hp hq hne he he'

end CopiedTable

end EntryFormat

end Hxnu.Tables
