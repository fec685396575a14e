import Hxnu.Lib.Ring

/-!
# Waiting lines in order of precedence

Elements wait in `n` first-in first-out lists, the lanes. The head of the first lane that is not
empty is the next one to be taken. A turn lets one element join the tail of its lane, lets some
elements leave, and takes the next one; the others keep their order.

An element that waits is not overtaken by one of the same or a later lane: as long as it neither
leaves nor is taken, an element that stood behind it, or did not wait at all, is not taken either.

## Main definitions

* `Lanes`, `Lanes.head`, `Lanes.push`, `Lanes.keep`, `Lanes.pop`.
* `Lanes.Turn`: one turn.
* `Lanes.Ahead`: an element waits, and another one does not wait before it.

## Main results

* `Lanes.Ahead.head_ne`, `Lanes.Ahead.turn`: no overtaking in one turn.
-/

namespace Hxnu

open Function List

/-- The lists in which elements wait, the head first. -/
abbrev Lanes (n : ℕ) (α : Type*) : Type _ := Fin n → List α

namespace Lanes

variable {n : ℕ} {α : Type*}

/-- The first lane that is not empty. -/
def best (q : Lanes n α) : Option (Fin n) := Ring.first fun p => !(q p).isEmpty

/-- The element to be taken next. -/
def head (q : Lanes n α) : Option α := q.best.bind fun p => (q p).head?

/-- An element joins the tail of a lane. -/
def push (q : Lanes n α) (p : Fin n) (x : α) : Lanes n α := update q p (q p ++ [x])

/-- Only some of the elements stay. -/
def keep (q : Lanes n α) (stays : α → Bool) : Lanes n α := fun p => (q p).filter stays

/-- The next element is taken. -/
def pop (q : Lanes n α) : Lanes n α :=
  match q.best with
  | none => q
  | some p => update q p (q p).tail

/-- The lanes after `added` has joined its lane and those that are `gone` have left. -/
def updated (q : Lanes n α) (lane : α → Fin n) (added : Option α) (gone : α → Bool) : Lanes n α :=
  (added.elim q fun x => q.push (lane x) x).keep fun x => !gone x

/-- One turn: `added` joins its lane, those that are `gone` leave, and `next` is taken. -/
structure Turn (lane : α → Fin n) (q : Lanes n α) (added : Option α) (gone : α → Bool)
    (next : Option α) (q' : Lanes n α) : Prop where
  head : ∀ x ∈ next, (q.updated lane added gone).head = some x
  lanes : q' =
    if next.isSome then (q.updated lane added gone).pop else q.updated lane added gone

theorem best_eq_none_iff {q : Lanes n α} : q.best = none ↔ ∀ p, q p = [] := by
  simp only [best, Ring.first_eq_none_iff, Bool.not_eq_false', List.isEmpty_iff]

theorem mem_of_head {q : Lanes n α} {x : α} (hhead : q.head = some x) : ∃ p, x ∈ q p := by
  obtain ⟨p, -, hp⟩ := Option.bind_eq_some_iff.mp hhead
  exact ⟨p, mem_of_mem_head? hp⟩

theorem best_le {q : Lanes n α} {p p' : Fin n} (hbest : q.best = some p) (hp : q p' ≠ []) :
    p ≤ p' := by
  rw [best, Ring.first_eq_some_iff] at hbest
  by_contra hlt
  have hempty := hbest.2 p' (not_le.mp hlt)
  rw [Bool.not_eq_false', List.isEmpty_iff] at hempty
  exact hp hempty

theorem keep_of_forall {q : Lanes n α} {stays : α → Bool} (h : ∀ p, ∀ x ∈ q p, stays x = true) :
    q.keep stays = q :=
  funext fun p => filter_eq_self.mpr (h p)

theorem updated_none (q : Lanes n α) (lane : α → Fin n) :
    q.updated lane none (fun _ => false) = q :=
  keep_of_forall fun _ _ _ => rfl

theorem updated_some (q : Lanes n α) (lane : α → Fin n) (x : α) :
    q.updated lane (some x) (fun _ => false) = q.push (lane x) x :=
  keep_of_forall fun _ _ _ => rfl

theorem keep_updated (q : Lanes n α) (lane : α → Fin n) (added : Option α) (gone : α → Bool) :
    (q.updated lane added fun _ => false).keep (fun x => !gone x) = q.updated lane added gone := by
  funext p
  simp only [updated, keep, Bool.not_false, filter_true]

/-- An element that joins a lane behind the next one is not the next one. -/
theorem head_push {q : Lanes n α} {p p' : Fin n} {x y : α} (hbest : q.best = some p) (hle : p ≤ p')
    (hhead : q.head = some x) : (q.push p' y).head = some x := by
  rw [head, hbest, Option.bind_some] at hhead
  have hkept : ((q.push p' y) p).head? = some x := by
    by_cases hp : p = p'
    · subst hp
      rw [push, update_self, head?_append, hhead, Option.some_or]
    · rw [push, update_of_ne hp, hhead]
  have hbest' : (q.push p' y).best = some p := by
    rw [best, Ring.first_eq_some_iff] at hbest ⊢
    refine ⟨?_, ?_⟩
    · rw [Bool.not_eq_true', isEmpty_eq_false_iff_exists_mem]
      exact ⟨x, mem_of_mem_head? hkept⟩
    · intro p₁ hlt
      rw [push, update_of_ne (hlt.trans_le hle).ne]
      exact hbest.2 p₁ hlt
  rw [head, hbest', Option.bind_some, hkept]

/-! ### No overtaking -/

/-- The element `b` waits in the lane `p`, and `a` does not wait before it. -/
structure Ahead (q : Lanes n α) (p : Fin n) (b a : α) : Prop where
  ne : a ≠ b
  lane : ∃ front back, q p = front ++ b :: back ∧ a ∉ front
  earlier : ∀ p' < p, a ∉ q p'

namespace Ahead

variable {q : Lanes n α} {p : Fin n} {a b : α}

theorem push (h : Ahead q p b a) (hx : x = a → p ≤ p') : Ahead (q.push p' x) p b a := by
  obtain ⟨front, back, hsplit, hfront⟩ := h.lane
  refine ⟨h.ne, ?_, ?_⟩
  · by_cases hp : p = p'
    · subst hp
      refine ⟨front, back ++ [x], ?_, hfront⟩
      rw [Lanes.push, update_self, hsplit, append_assoc, cons_append]
    · exact ⟨front, back, by rw [Lanes.push, update_of_ne hp, hsplit], hfront⟩
  · intro p₁ hlt
    by_cases hp : p₁ = p'
    · subst hp
      rw [Lanes.push, update_self, mem_append, mem_singleton, not_or]
      exact ⟨h.earlier p₁ hlt, fun heq => absurd (hx heq.symm) (not_le.mpr hlt)⟩
    · rw [Lanes.push, update_of_ne hp]
      exact h.earlier p₁ hlt

theorem keep (h : Ahead q p b a) (stays : α → Bool) (hb : stays b = true) :
    Ahead (q.keep stays) p b a := by
  obtain ⟨front, back, hsplit, hfront⟩ := h.lane
  refine ⟨h.ne, ⟨front.filter stays, back.filter stays, ?_, ?_⟩, ?_⟩
  · rw [Lanes.keep, hsplit, filter_append, filter_cons_of_pos hb]
  · exact fun hmem => hfront (mem_of_mem_filter hmem)
  · exact fun p' hlt hmem => h.earlier p' hlt (mem_of_mem_filter hmem)

theorem best_le (h : Ahead q p b a) : ∃ p', q.best = some p' ∧ p' ≤ p := by
  obtain ⟨front, back, hsplit, -⟩ := h.lane
  have hne : q p ≠ [] := by
    rw [hsplit]
    exact append_ne_nil_of_right_ne_nil _ (cons_ne_nil _ _)
  cases hbest : q.best with
  | none => exact absurd (best_eq_none_iff.mp hbest p) hne
  | some p' => exact ⟨p', rfl, Lanes.best_le hbest hne⟩

/-- **The element behind is not the next one.** -/
theorem head_ne (h : Ahead q p b a) : q.head ≠ some a := by
  obtain ⟨p', hbest, hle⟩ := h.best_le
  rw [head, hbest, Option.bind_some]
  intro hhead
  have hmem := mem_of_mem_head? hhead
  rcases hle.lt_or_eq with hlt | rfl
  · exact h.earlier p' hlt hmem
  · obtain ⟨front, back, hsplit, hfront⟩ := h.lane
    rw [hsplit] at hhead
    cases front with
    | nil => exact h.ne (Option.some.inj hhead).symm
    | cons x front =>
      cases hhead
      exact hfront mem_cons_self

theorem pop (h : Ahead q p b a) (hnext : q.head ≠ some b) : Ahead q.pop p b a := by
  obtain ⟨p', hbest, hle⟩ := h.best_le
  rw [head, hbest, Option.bind_some] at hnext
  obtain ⟨front, back, hsplit, hfront⟩ := h.lane
  simp only [Lanes.pop, hbest]
  refine ⟨h.ne, ?_, ?_⟩
  · by_cases hp : p = p'
    · subst hp
      rw [update_self]
      rw [hsplit] at hnext ⊢
      cases front with
      | nil => exact absurd rfl hnext
      | cons x front =>
        exact ⟨front, back, rfl, fun hmem => hfront (mem_cons_of_mem _ hmem)⟩
    · exact ⟨front, back, by rw [update_of_ne hp, hsplit], hfront⟩
  · intro p₁ hlt
    by_cases hp : p₁ = p'
    · subst hp
      rw [update_self]
      exact fun hmem => h.earlier p₁ hlt (mem_of_mem_tail hmem)
    · rw [update_of_ne hp]
      exact h.earlier p₁ hlt

/-- **No overtaking in one turn.** The element behind is not taken, and it stays behind unless the
one ahead leaves or is taken. -/
theorem turn {lane : α → Fin n} (h : Ahead q p b a) (hlane : p ≤ lane a) {added next : Option α}
    {gone : α → Bool} {q' : Lanes n α} (hturn : Turn lane q added gone next q')
    (hb : gone b = false) :
    next ≠ some a ∧ (next ≠ some b → Ahead q' p b a) := by
  obtain ⟨hhead, hlanes⟩ := hturn
  have hadded : Ahead (added.elim q fun x => q.push (lane x) x) p b a := by
    cases added with
    | none => exact h
    | some x => exact h.push fun heq => heq ▸ hlane
  have hkept : Ahead (q.updated lane added gone) p b a :=
    hadded.keep (fun x => !gone x) (by simp [hb])
  cases next with
  | none => exact ⟨nofun, fun _ => hlanes ▸ hkept⟩
  | some x =>
    have hx := hhead x rfl
    refine ⟨fun heq => hkept.head_ne (hx.trans heq), fun hne => ?_⟩
    rw [hlanes]
    exact hkept.pop fun heq => hne (hx.symm.trans heq)

end Ahead

end Lanes

end Hxnu
