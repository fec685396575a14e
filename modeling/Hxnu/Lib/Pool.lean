import Mathlib

/-!
# First-fit pools of bump spans

A span is an interval `[lo, hi)` of addresses with a bump pointer `next` inside it: everything
below `next` has been handed out. A pool is a list of spans; `take n` hands out `n` addresses from
the first span that still has `n` free ones.

Whatever the requests, the ranges handed out lie in the used parts of the spans and are pairwise
disjoint once the spans are (`Ledger`), and the free addresses and the granted ones add up to the
size of the pool.

## Main definitions

* `Pool.Span`, `Pool.take`, `Pool.freeBytes`, `Pool.unused`.
* `Pool.Ledger`: what holds of the ranges handed out so far.

## Main results

* `Pool.take_eq_none_iff`: a request fails exactly when no single span can hold it.
* `Pool.take_eq_some`: the shape of a successful request.
* `Pool.Ledger.take`: a successful request extends the ledger.
* `Pool.unused_take`: a request hands out unused addresses, which are used from then on.
-/

namespace Hxnu.Pool

open List

variable {n a : ℕ} {ss ss' : List Span}

/-- An interval of addresses with a bump pointer. -/
@[ext]
structure Span where
  /-- The first address. -/
  lo : ℕ
  /-- The first address that has not been handed out. -/
  next : ℕ
  /-- The first address past the span. -/
  hi : ℕ
  lo_le_next : lo ≤ next
  next_le_hi : next ≤ hi

namespace Span

/-- The number of addresses not handed out yet. -/
def free (s : Span) : ℕ := s.hi - s.next

/-- The span after `n` of its free addresses have been handed out. -/
def bump (s : Span) (n : ℕ) (h : n ≤ s.free) : Span where
  lo := s.lo
  next := s.next + n
  hi := s.hi
  lo_le_next := s.lo_le_next.trans (Nat.le_add_right _ _)
  next_le_hi := by
    have := s.next_le_hi
    rw [free] at h
    omega

@[simp] theorem bump_lo (s : Span) (n : ℕ) (h : n ≤ s.free) : (s.bump n h).lo = s.lo := rfl

@[simp] theorem bump_next (s : Span) (n : ℕ) (h : n ≤ s.free) :
    (s.bump n h).next = s.next + n := rfl

@[simp] theorem bump_hi (s : Span) (n : ℕ) (h : n ≤ s.free) : (s.bump n h).hi = s.hi := rfl

theorem free_bump (s : Span) (n : ℕ) (h : n ≤ s.free) : (s.bump n h).free + n = s.free := by
  have hle : n ≤ s.hi - s.next := h
  change s.hi - (s.next + n) + n = s.hi - s.next
  omega

/-- Two spans share no address. -/
def Apart (s t : Span) : Prop := s.hi ≤ t.lo ∨ t.hi ≤ s.lo

end Span

/-- Hand out `n` addresses from the first span that has as many free ones. -/
def take (n : ℕ) : List Span → Option (ℕ × List Span)
  | [] => none
  | s :: ss =>
    if h : n ≤ s.free then some (s.next, s.bump n h :: ss)
    else (take n ss).map fun p => (p.1, s :: p.2)

/-- The free addresses of a pool. -/
def freeBytes (ss : List Span) : ℕ := (ss.map Span.free).sum

theorem take_eq_none_iff : take n ss = none ↔ ∀ s ∈ ss, s.free < n := by
  induction ss with
  | nil => simp [take]
  | cons s ss ih =>
    rw [take]
    split_ifs with h
    · simp only [mem_cons, forall_eq_or_imp, not_lt.mpr h, false_and]
    · simp only [Option.map_eq_none_iff, ih, mem_cons, forall_eq_or_imp, not_le.mp h,
        true_and]

/-- A successful request bumps one span, at whose pointer the range starts. -/
theorem take_eq_some (h : take n ss = some (a, ss')) :
    ∃ (pre : List Span) (s : Span) (post : List Span) (hn : n ≤ s.free),
      ss = pre ++ s :: post ∧ a = s.next ∧ ss' = pre ++ s.bump n hn :: post := by
  induction ss generalizing ss' with
  | nil => simp [take] at h
  | cons s ss ih =>
    rw [take] at h
    split_ifs at h with hn
    · obtain ⟨rfl, rfl⟩ := Prod.mk.inj (Option.some.inj h)
      exact ⟨[], s, ss, hn, rfl, rfl, rfl⟩
    · obtain ⟨⟨b, ss₁⟩, htake, heq⟩ := Option.map_eq_some_iff.mp h
      obtain ⟨rfl, rfl⟩ := Prod.mk.inj heq
      obtain ⟨pre, t, post, ht, rfl, rfl, rfl⟩ := ih htake
      exact ⟨s :: pre, t, post, ht, rfl, rfl, rfl⟩

theorem freeBytes_take (h : take n ss = some (a, ss')) : freeBytes ss' + n = freeBytes ss := by
  obtain ⟨pre, s, post, hn, rfl, -, rfl⟩ := take_eq_some h
  have := s.free_bump n hn
  simp only [freeBytes, map_append, map_cons, sum_append, sum_cons]
  omega

/-! ### The size of a pool -/

/-- The addresses of the spans of a pool. -/
def covered : List Span → Finset ℕ
  | [] => ∅
  | s :: ss => Finset.Ico s.lo s.hi ∪ covered ss

theorem mem_covered : x ∈ covered ss ↔ ∃ s ∈ ss, s.lo ≤ x ∧ x < s.hi := by
  induction ss with
  | nil => simp [covered]
  | cons s ss ih => simp [covered, ih]

theorem card_covered (h : ss.Pairwise Span.Apart) :
    (covered ss).card = (ss.map fun s => s.hi - s.lo).sum := by
  induction ss with
  | nil => rfl
  | cons s ss ih =>
    obtain ⟨hs, hss⟩ := pairwise_cons.mp h
    have hdisj : Disjoint (Finset.Ico s.lo s.hi) (covered ss) := by
      rw [Finset.disjoint_left]
      intro x hx hx'
      obtain ⟨hlo, hhi⟩ := Finset.mem_Ico.mp hx
      obtain ⟨t, ht, hlo', hhi'⟩ := mem_covered.mp hx'
      rcases hs t ht with h' | h' <;> omega
    rw [covered, Finset.card_union_of_disjoint hdisj, ih hss, Nat.card_Ico, map_cons,
      sum_cons]

/-- Disjoint spans below `N` hold at most `N` addresses together. -/
theorem sum_size_le (h : ss.Pairwise Span.Apart) (hN : ∀ s ∈ ss, s.hi ≤ N) :
    (ss.map fun s => s.hi - s.lo).sum ≤ N := by
  rw [← card_covered h, ← Finset.card_range N]
  refine Finset.card_le_card fun x hx => ?_
  obtain ⟨s, hs, -, hhi⟩ := mem_covered.mp hx
  exact Finset.mem_range.mpr (hhi.trans_le (hN s hs))

/-! ### The ranges handed out -/

/-- The ranges `(start, length)` handed out from a pool: each lies in the used part of a span, and
they share no address. -/
structure Ledger (ss : List Span) (granted : List (ℕ × ℕ)) : Prop where
  /-- The spans of the pool share no address. -/
  apart : ss.Pairwise Span.Apart
  /-- Every range lies below the pointer of a span. -/
  inside : ∀ g ∈ granted, ∃ s ∈ ss, s.lo ≤ g.1 ∧ g.1 + g.2 ≤ s.next
  /-- Two ranges share no address. -/
  disjoint : granted.Pairwise fun g g' => g.1 + g.2 ≤ g'.1 ∨ g'.1 + g'.2 ≤ g.1

namespace Ledger

variable {ss ss' : List Span} {granted : List (ℕ × ℕ)} {n a : ℕ}

theorem nil (h : ss.Pairwise Span.Apart) : Ledger ss [] := ⟨h, by simp, .nil⟩

/-- A span of the pool other than the bumped one keeps its distance, since bumping moves neither
end of a span. -/
private theorem apart_bump {pre post : List Span} {s : Span} (hn : n ≤ s.free)
    (h : (pre ++ s :: post).Pairwise Span.Apart) :
    (pre ++ s.bump n hn :: post).Pairwise Span.Apart := by
  simp only [pairwise_append, pairwise_cons, mem_cons, forall_eq_or_imp,
    Span.Apart, Span.bump_lo, Span.bump_hi] at h ⊢
  exact h

/-- **A request keeps the ledger.** The new range starts at the pointer of its span, so every
earlier range of that span lies below it and every other range lies in another span. -/
theorem take (hl : Ledger ss granted) (h : Pool.take n ss = some (a, ss')) :
    Ledger ss' ((a, n) :: granted) := by
  obtain ⟨pre, s, post, hn, rfl, rfl, rfl⟩ := take_eq_some h
  have hap := hl.apart
  rw [pairwise_append, pairwise_cons] at hap
  obtain ⟨-, ⟨hpost, -⟩, hpre⟩ := hap
  refine ⟨apart_bump hn hl.apart, ?_, List.Pairwise.cons ?_ hl.disjoint⟩
  · intro g hg
    rcases mem_cons.mp hg with rfl | hg
    · exact ⟨s.bump n hn, by simp, s.lo_le_next, le_rfl⟩
    · obtain ⟨t, ht, hlo, hle⟩ := hl.inside g hg
      simp only [mem_append, mem_cons] at ht
      rcases ht with ht | rfl | ht
      · exact ⟨t, by simp [ht], hlo, hle⟩
      · exact ⟨t.bump n hn, by simp, hlo, hle.trans (Nat.le_add_right _ _)⟩
      · exact ⟨t, by simp [ht], hlo, hle⟩
  · intro g hg
    obtain ⟨t, ht, hlo, hle⟩ := hl.inside g hg
    have hs := s.lo_le_next
    have hbound : s.next + n ≤ s.hi := (s.bump n hn).next_le_hi
    have ht' := t.next_le_hi
    simp only [mem_append, mem_cons] at ht
    rcases ht with ht | rfl | ht
    · rcases hpre t ht s mem_cons_self with h' | h' <;> omega
    · exact Or.inr hle
    · rcases hpost t ht with h' | h' <;> omega

end Ledger

/-! ### The addresses not handed out -/

/-- The addresses of a pool that have not been handed out. -/
def unused (ss : List Span) : Set ℕ := {x | ∃ s ∈ ss, s.next ≤ x ∧ x < s.hi}

/-- **A request hands out unused addresses**, which are used from then on. -/
theorem unused_take (hapart : ss.Pairwise Span.Apart) (h : take n ss = some (a, ss')) :
    (∀ x, a ≤ x → x < a + n → x ∈ unused ss) ∧
      ∀ x ∈ unused ss', x ∈ unused ss ∧ (x < a ∨ a + n ≤ x) := by
  obtain ⟨pre, s, post, hn, rfl, rfl, rfl⟩ := take_eq_some h
  have hbound : s.next + n ≤ s.hi := (s.bump n hn).next_le_hi
  have hlo := s.lo_le_next
  have hs : s ∈ pre ++ s :: post := mem_append_right pre mem_cons_self
  rw [pairwise_append, pairwise_cons] at hapart
  obtain ⟨-, ⟨hpost, -⟩, hpre⟩ := hapart
  refine ⟨fun x hle hlt => ⟨s, hs, hle, by omega⟩, ?_⟩
  rintro x ⟨t, ht, hle, hlt⟩
  have ht' := t.lo_le_next
  simp only [mem_append, mem_cons] at ht
  rcases ht with ht | rfl | ht
  · refine ⟨⟨t, mem_append_left _ ht, hle, hlt⟩, ?_⟩
    rcases hpre t ht s mem_cons_self with h' | h' <;> omega
  · have hle' : s.next + n ≤ x := hle
    exact ⟨⟨s, hs, by omega, hlt⟩, .inr hle'⟩
  · refine ⟨⟨t, mem_append_right pre (mem_cons_of_mem s ht), hle, hlt⟩, ?_⟩
    rcases hpost t ht with h' | h' <;> omega

end Hxnu.Pool
