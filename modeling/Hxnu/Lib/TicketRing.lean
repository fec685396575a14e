import Mathlib

/-!
# Rings with tickets

A bounded queue for many producers and consumers: a ring of `N` slots, each with a cell for an
encoded item and a ticket, and two counters. A position is claimed by moving the `tail` past it, and
won by moving the `head` past it. The slot of a position `p` is `p % N`; its ticket is `p` while the
slot waits for the item of `p`, `p + 1` once the item is there, and `p + N` once the item has been
read, so that the slot waits for the next lap.

Every load, store and exchange is a step of its own, and an exchange may fail although the counter
has the expected value. The steps of all threads interleave. What holds in every state follows from
the phases that a position goes through (`Phase`): only the thread that owns a position moves it on,
and a position is claimed only after the position one lap before has been released.

## Main definitions

* `State`, `Place`, `Step`: the ring, where a thread is in its call, and the steps.
* `Phase`, `Current`: the phases of a position, and the position that a slot is used for.
* `Inv`: the invariant.
* `Advances`: what a step makes of the phases.

## Main results

* `Inv.advance`: a position moves on to its next phase.
* `Inv.step`: every step keeps the invariant.
* `Inv.head_le`, `Inv.tail_le`: at most `N` positions are claimed and not won.
-/

namespace Hxnu.TicketRing

open Function

/-- Where a thread is in a call: a producer up to `publish`, a consumer after it. -/
inductive Place (τ : Type*)
  | idle
  | put (v : τ)
  | check (v : τ) (pos : ℕ)
  | claim (v : τ) (pos : ℕ)
  | store (v : τ) (pos : ℕ)
  | publish (v : τ) (pos : ℕ)
  | take
  | look (pos : ℕ)
  | win (pos : ℕ)
  | read (pos : ℕ)
  | release (pos : ℕ)

inductive Event (τ α : Type*)
  | begun (v : τ)
  | full (pos : ℕ)
  | claimed (pos : ℕ) (v : τ)
  | stored (pos : ℕ)
  | published (pos : ℕ)
  | won (pos : ℕ)
  | read (pos : ℕ) (x : α)
  | released (pos : ℕ)
  | returned
  deriving DecidableEq

structure State (ι τ α : Type*) where
  head : ℕ
  tail : ℕ
  sequence : ℕ → ℕ
  data : ℕ → α
  threads : ι → Place τ

variable {ι τ α : Type*}

/-- A thread goes to another place. -/
def State.goto [DecidableEq ι] (s : State ι τ α) (i : ι) (place : Place τ) : State ι τ α :=
  { s with threads := update s.threads i place }

@[simp] theorem State.goto_threads_self [DecidableEq ι] (s : State ι τ α) (i : ι)
    (place : Place τ) : (s.goto i place).threads i = place := update_self ..

theorem State.goto_threads_of_ne [DecidableEq ι] (s : State ι τ α) (hne : j ≠ i) (place : Place τ) :
    (s.goto i place).threads j = s.threads j := update_of_ne hne ..

/-- The steps of the thread `i`. -/
inductive Step [DecidableEq ι] (N : ℕ) (enc : τ → α) (i : ι) (s : State ι τ α) :
    Option (Event τ α) → State ι τ α → Prop
  | begins (v : τ) (h : s.threads i = .idle) : Step N enc i s (some (.begun v)) (s.goto i (.put v))
  | takes (h : s.threads i = .idle) : Step N enc i s none (s.goto i .take)
  | loadTail {v : τ} (h : s.threads i = .put v) : Step N enc i s none (s.goto i (.check v s.tail))
  | free {v : τ} {pos : ℕ} (h : s.threads i = .check v pos) (hseq : s.sequence (pos % N) = pos) :
      Step N enc i s none (s.goto i (.claim v pos))
  | full {v : τ} {pos : ℕ} (h : s.threads i = .check v pos) (hseq : s.sequence (pos % N) < pos) :
      Step N enc i s (some (.full pos)) (s.goto i .idle)
  | behind {v : τ} {pos : ℕ} (h : s.threads i = .check v pos) (hseq : pos < s.sequence (pos % N)) :
      Step N enc i s none (s.goto i (.put v))
  | claim {v : τ} {pos : ℕ} (h : s.threads i = .claim v pos) (htail : s.tail = pos) :
      Step N enc i s (some (.claimed pos v))
        (({ s with tail := pos + 1 } : State ι τ α).goto i (.store v pos))
  | claimFails {v : τ} {pos : ℕ} (h : s.threads i = .claim v pos) :
      Step N enc i s none (s.goto i (.check v s.tail))
  | store {v : τ} {pos : ℕ} (h : s.threads i = .store v pos) :
      Step N enc i s (some (.stored pos))
        (({ s with data := update s.data (pos % N) (enc v) } : State ι τ α).goto i
          (.publish v pos))
  | publish {v : τ} {pos : ℕ} (h : s.threads i = .publish v pos) :
      Step N enc i s (some (.published pos))
        (({ s with sequence := update s.sequence (pos % N) (pos + 1) } :
          State ι τ α).goto i .idle)
  | loadHead (h : s.threads i = .take) : Step N enc i s none (s.goto i (.look s.head))
  | ready {pos : ℕ} (h : s.threads i = .look pos) (hseq : s.sequence (pos % N) = pos + 1) :
      Step N enc i s none (s.goto i (.win pos))
  | nothing {pos : ℕ} (h : s.threads i = .look pos) (hseq : s.sequence (pos % N) < pos + 1) :
      Step N enc i s (some .returned) (s.goto i .idle)
  | late {pos : ℕ} (h : s.threads i = .look pos) (hseq : pos + 1 < s.sequence (pos % N)) :
      Step N enc i s none (s.goto i .take)
  | win {pos : ℕ} (h : s.threads i = .win pos) (hhead : s.head = pos) :
      Step N enc i s (some (.won pos))
        (({ s with head := pos + 1 } : State ι τ α).goto i (.read pos))
  | winFails {pos : ℕ} (h : s.threads i = .win pos) :
      Step N enc i s none (s.goto i (.look s.head))
  | read {pos : ℕ} (h : s.threads i = .read pos) :
      Step N enc i s (some (.read pos (s.data (pos % N)))) (s.goto i (.release pos))
  | release {pos : ℕ} (h : s.threads i = .release pos) :
      Step N enc i s (some (.released pos))
        (({ s with sequence := update s.sequence (pos % N) (pos + N) } :
          State ι τ α).goto i (.look (pos + 1)))

/-! ### Phases -/

/-- The phases of a position, in their order. -/
inductive Phase
  | unclaimed
  | claimed
  | stored
  | published
  | won
  | read
  | released
  deriving DecidableEq

namespace Phase

def rank : Phase → ℕ
  | .unclaimed => 0
  | .claimed => 1
  | .stored => 2
  | .published => 3
  | .won => 4
  | .read => 5
  | .released => 6

/-- The ticket of the slot of a position. -/
def ticket (N : ℕ) : Phase → ℕ → ℕ
  | .unclaimed, p => p
  | .claimed, p => p
  | .stored, p => p
  | .published, p => p + 1
  | .won, p => p + 1
  | .read, p => p + 1
  | .released, p => p + N

/-- The item is in the cell and has not been read. -/
def Filled (f : Phase) : Prop := f = .stored ∨ f = .published ∨ f = .won

/-- Some thread has to move the position on. -/
def Owned (f : Phase) : Prop := f = .claimed ∨ f = .stored ∨ f = .won ∨ f = .read

theorem rank_injective : Function.Injective rank := by
  intro f g h
  cases f <;> cases g <;> first | rfl | cases h

theorem Filled.ne_unclaimed {f : Phase} (h : f.Filled) : f ≠ .unclaimed := by
  rcases h with rfl | rfl | rfl <;> nofun

theorem Filled.ne_released {f : Phase} (h : f.Filled) : f ≠ .released := by
  rcases h with rfl | rfl | rfl <;> nofun

end Phase

section Laps

variable {N : ℕ} {phase : ℕ → Phase} {p q : ℕ}

/-- The position one lap before has been released. -/
def Available (N : ℕ) (phase : ℕ → Phase) (p : ℕ) : Prop := p < N ∨ phase (p - N) = .released

/-- The position that its slot is used for. -/
def Current (N : ℕ) (phase : ℕ → Phase) (p : ℕ) : Prop :=
  phase p ≠ .released ∧ Available N phase p

/-- Positions are claimed one lap after another. -/
def Lapped (N : ℕ) (phase : ℕ → Phase) : Prop :=
  ∀ p, phase (p + N) ≠ .unclaimed → phase p = .released

theorem Lapped.available (h : Lapped N phase) (hp : phase p ≠ .unclaimed) :
    Available N phase p := by
  rcases Nat.lt_or_ge p N with hlt | hge
  · exact .inl hlt
  · refine .inr (h _ ?_)
    rwa [Nat.sub_add_cancel hge]

/-- A released position has released positions before it in its slot. -/
theorem Lapped.released_of_le (h : Lapped N phase) (hslot : p % N = q % N) (hle : p ≤ q)
    (hq : phase q = .released) : phase p = .released := by
  obtain ⟨k, rfl⟩ : ∃ k, q = p + N * k := by
    obtain ⟨k, hk⟩ := (Nat.modEq_iff_dvd' hle).mp hslot
    exact ⟨k, by omega⟩
  clear hle hslot
  induction k with
  | zero => exact hq
  | succ k ih =>
    refine ih (h _ ?_)
    rw [Nat.add_assoc, ← Nat.mul_succ, hq]
    nofun

theorem add_le_of_lt_of_mod_eq (hslot : p % N = q % N) (hlt : p < q) : p + N ≤ q := by
  obtain ⟨k, hk⟩ := (Nat.modEq_iff_dvd' hlt.le).mp hslot
  have hpos : 0 < k := Nat.pos_of_ne_zero fun h0 => by
    rw [h0, Nat.mul_zero] at hk
    omega
  have hle := Nat.le_mul_of_pos_right N hpos
  omega

theorem sub_mod_of_le (hle : N ≤ p) : (p - N) % N = p % N := by
  conv_rhs => rw [← Nat.sub_add_cancel hle, Nat.add_mod_right]

/-- An available position is not behind the current one. -/
theorem Current.le (h : Lapped N phase) (hp : Current N phase p) (hq : Available N phase q)
    (hslot : p % N = q % N) : q ≤ p := by
  by_contra hlt
  rw [not_le] at hlt
  have hle := add_le_of_lt_of_mod_eq hslot hlt
  rcases hq with hq | hq
  · omega
  · refine hp.1 (h.released_of_le ?_ (Nat.le_sub_of_add_le hle) hq)
    rw [hslot, sub_mod_of_le (by omega)]

/-- **A slot is used for one position.** -/
theorem Current.unique (h : Lapped N phase) (hp : Current N phase p) (hq : Current N phase q)
    (hslot : p % N = q % N) : p = q :=
  le_antisymm (hq.le h hp.2 hslot.symm) (hp.le h hq.2 hslot)

/-- Every slot is used for a position. -/
theorem exists_current (hpos : 0 < N) (hn : ∀ p, n ≤ p → phase p = .unclaimed) (p : ℕ) :
    ∃ c, Current N phase c ∧ c % N = p % N := by
  classical
  have hex : ∃ k, phase (p % N + N * k) ≠ .released := by
    refine ⟨n, ?_⟩
    rw [hn _ (Nat.le_add_left_of_le (Nat.le_mul_of_pos_left n hpos))]
    nofun
  refine ⟨p % N + N * Nat.find hex, ⟨Nat.find_spec hex, ?_⟩, ?_⟩
  · cases hk : Nat.find hex with
    | zero => exact .inl (Nat.mod_lt p hpos)
    | succ k =>
      have hmin := Nat.find_min hex (show k < Nat.find hex by omega)
      refine .inr ?_
      rw [Nat.mul_succ, ← Nat.add_assoc, Nat.add_sub_cancel]
      exact not_not.mp hmin
  · rw [Nat.add_mul_mod_self_left, Nat.mod_mod]

end Laps

/-! ### The invariant -/

/-- The thread has to move a position on. -/
def Place.Owns : Place τ → ℕ → Prop
  | .store _ pos, p => pos = p
  | .publish _ pos, p => pos = p
  | .read pos, p => pos = p
  | .release pos, p => pos = p
  | _, _ => False

/-- What a thread relies on. -/
def Place.Sound (N head tail : ℕ) (phase : ℕ → Phase) (value : ℕ → τ) : Place τ → Prop
  | .idle => True
  | .put _ => True
  | .check _ pos => pos ≤ tail
  | .claim _ pos => pos ≤ tail ∧ Available N phase pos
  | .store v pos => phase pos = .claimed ∧ value pos = v
  | .publish v pos => phase pos = .stored ∧ value pos = v
  | .take => True
  | .look pos => pos ≤ head
  | .win pos => pos ≤ head ∧ 3 ≤ (phase pos).rank
  | .read pos => phase pos = .won
  | .release pos => phase pos = .read

/-- The positions are in their phases, and hold their items. -/
structure Inv (N : ℕ) (enc : τ → α) (s : State ι τ α) (phase : ℕ → Phase) (value : ℕ → τ) :
    Prop where
  tail : ∀ p, phase p = .unclaimed ↔ s.tail ≤ p
  head : ∀ p, 4 ≤ (phase p).rank ↔ p < s.head
  lapped : Lapped N phase
  ticket : ∀ p, Current N phase p → s.sequence (p % N) = (phase p).ticket N p
  data : ∀ p, (phase p).Filled → s.data (p % N) = enc (value p)
  sound : ∀ i, (s.threads i).Sound N s.head s.tail phase value
  owner : ∀ i j p, (s.threads i).Owns p → (s.threads j).Owns p → i = j
  owned : ∀ p, (phase p).Owned → ∃ i, (s.threads i).Owns p

namespace Inv

variable {N : ℕ} {enc : τ → α} {s : State ι τ α} {phase : ℕ → Phase} {value : ℕ → τ} {i : ι}
  (h : Inv N enc s phase value)

include h

theorem head_le : s.head ≤ s.tail := by
  by_contra hlt
  rw [not_le] at hlt
  have htaken := (h.head s.tail).mpr hlt
  rw [(h.tail s.tail).mpr le_rfl] at htaken
  exact absurd htaken (by decide)

/-- **At most `N` positions are claimed and not won.** -/
theorem tail_le : s.tail ≤ s.head + N := by
  by_contra hlt
  rw [not_le] at hlt
  have hclaimed : phase (s.head + N) ≠ .unclaimed := fun heq =>
    absurd ((h.tail _).mp heq) (not_le.mpr hlt)
  have htaken : 4 ≤ (phase s.head).rank := by
    rw [h.lapped _ hclaimed]
    decide
  exact lt_irrefl _ ((h.head _).mp htaken)

/-- An owned position is in a phase in which it has an owner. -/
theorem owned_of_owns (howns : (s.threads i).Owns p) : (phase p).Owned := by
  have hsound := h.sound i
  cases hplace : s.threads i <;> rw [hplace] at howns hsound <;>
    simp only [Place.Owns] at howns
  case store v pos =>
    subst howns
    exact .inl hsound.1
  case publish v pos =>
    subst howns
    exact .inr (.inl hsound.1)
  case read pos =>
    subst howns
    exact .inr (.inr (.inl hsound))
  case release pos =>
    subst howns
    exact .inr (.inr (.inr hsound))

/-- A claimed position that is not yet released is the one its slot is used for. -/
theorem current (hclaimed : phase p ≠ .unclaimed) (hreleased : phase p ≠ .released) :
    Current N phase p := ⟨hreleased, h.lapped.available hclaimed⟩

/-- The position that the slot of `p` is used for, and its ticket. -/
theorem exists_ticket (hpos : 0 < N) (p : ℕ) :
    ∃ c, Current N phase c ∧ c % N = p % N ∧ s.sequence (p % N) = (phase c).ticket N c ∧
      c ≤ s.sequence (p % N) ∧ s.sequence (p % N) ≤ c + 1 := by
  obtain ⟨c, hc, hslot⟩ := exists_current hpos (fun p hp => (h.tail p).mpr hp) p
  have hticket := h.ticket c hc
  rw [hslot] at hticket
  refine ⟨c, hc, hslot, hticket, ?_⟩
  have hreleased := hc.1
  rw [hticket]
  cases hphase : phase c with
  | released => exact absurd hphase hreleased
  | _ => simp only [Phase.ticket]; omega

/-- Tickets are less than a lap ahead of the tail. -/
theorem sequence_lt (hpos : 0 < N) (p : ℕ) : s.sequence (p % N) < s.tail + N := by
  obtain ⟨c, hc, -, hticket, -, hle⟩ := h.exists_ticket hpos p
  by_cases hclaimed : phase c = .unclaimed
  · rw [hticket, hclaimed, Phase.ticket]
    rcases hc.2 with hlt | hreleased
    · omega
    · have hlt : ¬ s.tail ≤ c - N := fun hge => by
        rw [(h.tail _).mpr hge] at hreleased
        cases hreleased
      omega
  · have hlt : ¬ s.tail ≤ c := fun hge => hclaimed ((h.tail c).mpr hge)
    omega

/-! #### What the tickets tell -/

theorem available_of_free (hN : 2 ≤ N) (hseq : s.sequence (pos % N) = pos) :
    Available N phase pos := by
  obtain ⟨c, hc, hslot, hticket, hge, hle⟩ := h.exists_ticket (by omega) pos
  rw [hseq] at hge hle
  rcases Nat.lt_or_ge c pos with hlt | hge'
  · have hlap := add_le_of_lt_of_mod_eq hslot hlt
    omega
  · obtain rfl : c = pos := le_antisymm hge hge'
    exact hc.2

theorem not_available_of_full (hN : 2 ≤ N) (hseq : s.sequence (pos % N) < pos) :
    ¬ Available N phase pos := by
  intro havailable
  obtain ⟨c, hc, hslot, hticket, hge, hle⟩ := h.exists_ticket (by omega) pos
  have hle' := hc.le h.lapped havailable hslot
  omega

theorem published_of_ready (hN : 2 ≤ N) (hseq : s.sequence (pos % N) = pos + 1) :
    3 ≤ (phase pos).rank := by
  obtain ⟨c, hc, hslot, hticket, hge, hle⟩ := h.exists_ticket (by omega) pos
  rw [hseq] at hge hle hticket
  rcases Nat.lt_trichotomy c pos with hlt | rfl | hgt
  · omega
  · cases hphase : phase c <;> rw [hphase] at hticket <;> simp only [Phase.ticket] at hticket
    case released => exact absurd hphase hc.1
    case published => decide
    case won => decide
    case read => decide
    all_goals omega
  · have hlap := add_le_of_lt_of_mod_eq hslot.symm hgt
    omega

end Inv

/-! ### Moving on -/

section Moving

variable [DecidableEq ι] {N : ℕ} {enc : τ → α} {s s' : State ι τ α} {phase : ℕ → Phase}
  {value value' : ℕ → τ} {i : ι} {p : ℕ} {b : Phase} {place : Place τ}

/-- What a thread relies on stays when another thread moves a position on. -/
theorem Place.Sound.mono (h : place.Sound N head tail phase value) (hhead : head ≤ head')
    (htail : tail ≤ tail') (hphase : phase p ≠ .released) (hrank : (phase p).rank ≤ b.rank)
    (hvalue : ∀ q, q ≠ p → value' q = value q) (howns : ¬ place.Owns p) :
    place.Sound N head' tail' (update phase p b) value' := by
  cases place with
  | idle | put _ | take => trivial
  | check v pos => exact h.trans htail
  | claim v pos =>
    refine ⟨h.1.trans htail, h.2.imp_right fun hreleased => ?_⟩
    rw [update_of_ne]
    · exact hreleased
    · rintro rfl
      exact hphase hreleased
  | store v pos =>
    have hne : pos ≠ p := howns
    exact ⟨by rw [update_of_ne hne, h.1], by rw [hvalue pos hne, h.2]⟩
  | publish v pos =>
    have hne : pos ≠ p := howns
    exact ⟨by rw [update_of_ne hne, h.1], by rw [hvalue pos hne, h.2]⟩
  | look pos => exact h.trans hhead
  | win pos =>
    refine ⟨h.1.trans hhead, ?_⟩
    by_cases hne : pos = p
    · subst hne
      rw [update_self]
      exact h.2.trans hrank
    · rw [update_of_ne hne]
      exact h.2
  | read pos =>
    have hne : pos ≠ p := howns
    exact (update_of_ne hne b phase).trans h
  | release pos =>
    have hne : pos ≠ p := howns
    exact (update_of_ne hne b phase).trans h

namespace Inv

variable (h : Inv N enc s phase value)

include h

/-- A step that moves no position on. -/
theorem move (hi : s.threads i = place₀) (howns : ∀ p, ¬ place₀.Owns p)
    (howns' : ∀ p, ¬ place.Owns p) (hsound : place.Sound N s.head s.tail phase value) :
    Inv N enc (s.goto i place) phase value where
  tail := h.tail
  head := h.head
  lapped := h.lapped
  ticket := h.ticket
  data := h.data
  sound := by
    intro j
    by_cases hj : j = i
    · subst hj
      rw [State.goto_threads_self]
      exact hsound
    · rw [State.goto_threads_of_ne s hj]
      exact h.sound j
  owner := by
    intro j k p hj hk
    have hne (k : ι) (hk : ((s.goto i place).threads k).Owns p) : (s.threads k).Owns p := by
      by_cases hki : k = i
      · subst hki
        rw [State.goto_threads_self] at hk
        exact absurd hk (howns' p)
      · rwa [State.goto_threads_of_ne s hki] at hk
    exact h.owner j k p (hne j hj) (hne k hk)
  owned := by
    intro p hp
    obtain ⟨j, hj⟩ := h.owned p hp
    have hne : j ≠ i := by
      rintro rfl
      exact howns p (hi ▸ hj)
    exact ⟨j, by rwa [State.goto_threads_of_ne s hne]⟩

omit [DecidableEq ι] in
/-- After a position has moved on, positions are still claimed one lap after another. -/
theorem lapped_advance (hpos : 0 < N) (hcurrent : Current N phase p) :
    Lapped N (update phase p b) := by
  intro q hq
  have hnext : phase (p + N) = .unclaimed := by
    by_contra hclaimed
    exact hcurrent.1 (h.lapped p hclaimed)
  by_cases hqp : q = p
  · subst hqp
    rw [update_of_ne (by omega)] at hq
    exact absurd hnext hq
  · rw [update_of_ne hqp]
    by_cases hqN : q + N = p
    · subst hqN
      have havailable := hcurrent.2.resolve_left (by omega)
      rwa [Nat.add_sub_cancel] at havailable
    · rw [update_of_ne hqN] at hq
      exact h.lapped q hq

omit [DecidableEq ι] h in
/-- The other slots are used for the positions they were used for. -/
theorem current_of_advance (hq : Current N (update phase p b) q) (hslot : q % N ≠ p % N) :
    Current N phase q := by
  have hqp : q ≠ p := fun heq => hslot (congrArg (· % N) heq)
  have hprev : N ≤ q → q - N ≠ p := fun hge heq => hslot (by rw [← heq, sub_mod_of_le hge])
  refine ⟨by simpa only [update_of_ne hqp] using hq.1, ?_⟩
  rcases Nat.lt_or_ge q N with hlt | hge
  · exact .inl hlt
  · have hreleased := hq.2.resolve_left (by omega)
    rw [update_of_ne (hprev hge)] at hreleased
    exact .inr hreleased

omit [DecidableEq ι] in
/-- The slot of `p` is used for `p`, or for the next lap once `p` is released. -/
theorem ticket_advance (hpos : 0 < N) (hcurrent : Current N phase p)
    (hq : Current N (update phase p b) q) (hslot : q % N = p % N) :
    (update phase p b q).ticket N q = b.ticket N p := by
  have hlapped : Lapped N (update phase p b) := h.lapped_advance hpos hcurrent
  have hunclaimed : phase (p + N) = .unclaimed := by
    by_contra hne
    exact hcurrent.1 (h.lapped p hne)
  by_cases hb : b = .released
  · have hlap : Current N (update phase p b) (p + N) := by
      refine ⟨?_, .inr ?_⟩
      · rw [update_of_ne (by omega), hunclaimed]
        nofun
      · rw [Nat.add_sub_cancel, update_self, hb]
    obtain rfl := hq.unique hlapped hlap (by rw [hslot, Nat.add_mod_right])
    rw [update_of_ne (by omega), hunclaimed, hb]
    rfl
  · have hcurrent' : Current N (update phase p b) p := by
      refine ⟨by rwa [update_self], hcurrent.2.imp_right fun hreleased => ?_⟩
      rw [update_of_ne]
      · exact hreleased
      · intro heq
        rw [heq] at hreleased
        exact hcurrent.1 hreleased
    obtain rfl := hq.unique hlapped hcurrent' hslot
    rw [update_self]

/-- **A position moves on** to its next phase. -/
theorem advance (hpos : 0 < N) (hcurrent : Current N phase p)
    (hnext : b.rank = (phase p).rank + 1)
    (hthreads : s'.threads = update s.threads i place)
    (htail : s'.tail = if b = .claimed then p + 1 else s.tail) (hclaim : b = .claimed → s.tail = p)
    (hhead : s'.head = if b = .won then p + 1 else s.head) (hwin : b = .won → s.head = p)
    (hsequence : ∀ slot, slot ≠ p % N → s'.sequence slot = s.sequence slot)
    (hticket : s'.sequence (p % N) = b.ticket N p)
    (hdata : ∀ slot, slot ≠ p % N → s'.data slot = s.data slot)
    (hfilled : b.Filled → s'.data (p % N) = enc (value' p))
    (hvalue : ∀ q, q ≠ p → value' q = value q)
    (howns : ∀ q, (s.threads i).Owns q → q = p) (hmine : (phase p).Owned → (s.threads i).Owns p)
    (hsound : place.Sound N s'.head s'.tail (update phase p b) value')
    (howns' : ∀ q, place.Owns q ↔ q = p ∧ b.Owned) :
    Inv N enc s' (update phase p b) value' := by
  have hlapped : Lapped N (update phase p b) := h.lapped_advance hpos hcurrent
  have hother (j : ι) (hj : j ≠ i) : ¬ (s.threads j).Owns p := fun hjp =>
    hj (h.owner j i p hjp (hmine (h.owned_of_owns hjp)))
  have hclaimed : phase p = .unclaimed ↔ b = .claimed := by
    rw [← Phase.rank_injective.eq_iff, ← Phase.rank_injective.eq_iff (a := b), hnext]
    simp only [Phase.rank]
    omega
  have hwon : (phase p).rank = 3 ↔ b = .won := by
    rw [← Phase.rank_injective.eq_iff (a := b), hnext]
    simp only [Phase.rank]
    omega
  refine ⟨fun q => ?_, fun q => ?_, hlapped, fun q hq => ?_, fun q hq => ?_, fun j => ?_,
    fun j k q hj hk => ?_, fun q hq => ?_⟩
  · by_cases hqp : q = p
    · subst hqp
      have hb : b ≠ .unclaimed := by
        rintro rfl
        cases hnext
      rw [update_self, htail]
      split_ifs with hfirst
      · exact iff_of_false hb (by omega)
      · exact iff_of_false hb fun hle => hfirst (hclaimed.mp ((h.tail q).mpr hle))
    · rw [update_of_ne hqp, h.tail q, htail]
      split_ifs with hfirst
      · rw [hclaim hfirst]
        omega
      · rfl
  · by_cases hqp : q = p
    · subst hqp
      rw [update_self, hhead]
      split_ifs with hlast
      · rw [hlast]
        exact iff_of_true (by decide) (Nat.lt_succ_self q)
      · rw [← h.head q, hnext]
        have hne : (phase q).rank ≠ 3 := fun h3 => hlast (hwon.mp h3)
        omega
    · rw [update_of_ne hqp, h.head q, hhead]
      split_ifs with hlast
      · rw [hwin hlast]
        omega
      · rfl
  · by_cases hslot : q % N = p % N
    · rw [hslot, hticket]
      exact (h.ticket_advance hpos hcurrent hq hslot).symm
    · rw [hsequence _ hslot, update_of_ne fun hqp => hslot (congrArg (· % N) hqp)]
      exact h.ticket q (current_of_advance hq hslot)
  · by_cases hqp : q = p
    · subst hqp
      rw [update_self] at hq
      exact hfilled hq
    · rw [update_of_ne hqp] at hq
      have hslot : q % N ≠ p % N := fun heq =>
        hqp ((h.current hq.ne_unclaimed hq.ne_released).unique h.lapped hcurrent heq)
      rw [hdata _ hslot, hvalue q hqp]
      exact h.data q hq
  · rw [hthreads]
    by_cases hj : j = i
    · subst hj
      rw [update_self]
      exact hsound
    · rw [update_of_ne hj]
      refine (h.sound j).mono ?_ ?_ hcurrent.1 (by omega) hvalue (hother j hj)
      · rw [hhead]
        split_ifs with hlast
        · rw [hwin hlast]
          omega
        · rfl
      · rw [htail]
        split_ifs with hfirst
        · rw [hclaim hfirst]
          omega
        · rfl
  · have hback (k : ι) (hk : (s'.threads k).Owns q) :
        k = i ∧ q = p ∨ (s.threads k).Owns q ∧ q ≠ p := by
      rw [hthreads] at hk
      by_cases hki : k = i
      · subst hki
        rw [update_self] at hk
        exact .inl ⟨rfl, ((howns' q).mp hk).1⟩
      · rw [update_of_ne hki] at hk
        exact .inr ⟨hk, fun hqp => hother k hki (hqp ▸ hk)⟩
    rcases hback j hj with ⟨rfl, hqp⟩ | ⟨hj, hqp⟩
    · rcases hback k hk with ⟨rfl, -⟩ | ⟨-, hne⟩
      · rfl
      · exact absurd hqp hne
    · rcases hback k hk with ⟨-, heq⟩ | ⟨hk, -⟩
      · exact absurd heq hqp
      · exact h.owner j k q hj hk
  · rw [hthreads]
    by_cases hqp : q = p
    · subst hqp
      rw [update_self] at hq
      exact ⟨i, by rw [update_self]; exact (howns' q).mpr ⟨rfl, hq⟩⟩
    · rw [update_of_ne hqp] at hq
      obtain ⟨j, hj⟩ := h.owned q hq
      have hji : j ≠ i := fun heq => hqp (howns q (heq ▸ hj))
      exact ⟨j, by rwa [update_of_ne hji]⟩

end Inv

/-- What a step makes of the phases and of the items, and what is said about it. -/
inductive Advances (N : ℕ) (enc : τ → α) (s s' : State ι τ α) (phase : ℕ → Phase)
    (value : ℕ → τ) : Option (Event τ α) → (ℕ → Phase) → (ℕ → τ) → Prop
  | silent (htail : s'.tail = s.tail) (hhead : s'.head = s.head) :
      Advances N enc s s' phase value none phase value
  | begun (v : τ) (htail : s'.tail = s.tail) (hhead : s'.head = s.head) :
      Advances N enc s s' phase value (some (.begun v)) phase value
  | returned (htail : s'.tail = s.tail) (hhead : s'.head = s.head) :
      Advances N enc s s' phase value (some .returned) phase value
  | full {p : ℕ} (hp : ¬ Available N phase p) (htail : s'.tail = s.tail)
      (hhead : s'.head = s.head) : Advances N enc s s' phase value (some (.full p)) phase value
  | claimed (v : τ) {p : ℕ} (hp : phase p = .unclaimed) (hclaim : s.tail = p)
      (htail : s'.tail = p + 1) (hhead : s'.head = s.head) :
      Advances N enc s s' phase value (some (.claimed p v)) (update phase p .claimed)
        (update value p v)
  | stored {p : ℕ} (hp : phase p = .claimed) (htail : s'.tail = s.tail)
      (hhead : s'.head = s.head) :
      Advances N enc s s' phase value (some (.stored p)) (update phase p .stored) value
  | published {p : ℕ} (hp : phase p = .stored) (htail : s'.tail = s.tail)
      (hhead : s'.head = s.head) :
      Advances N enc s s' phase value (some (.published p)) (update phase p .published)
        value
  | won {p : ℕ} (hp : phase p = .published) (htail : s'.tail = s.tail) (hwin : s.head = p)
      (hhead : s'.head = p + 1) :
      Advances N enc s s' phase value (some (.won p)) (update phase p .won) value
  | read {p : ℕ} (hp : phase p = .won) (htail : s'.tail = s.tail) (hhead : s'.head = s.head) :
      Advances N enc s s' phase value (some (.read p (enc (value p))))
        (update phase p .read) value
  | released {p : ℕ} (hp : phase p = .read) (htail : s'.tail = s.tail) (hhead : s'.head = s.head) :
      Advances N enc s s' phase value (some (.released p)) (update phase p .released) value

/-- **Every step keeps the invariant.** -/
theorem Inv.step (hN : 2 ≤ N) (h : Inv N enc s phase value) (hstep : Step N enc i s e s') :
    ∃ phase' value', Inv N enc s' phase' value' ∧
      Advances N enc s s' phase value e phase' value' := by
  have hsound := h.sound i
  cases hstep with
  | begins v hi =>
    exact ⟨phase, value, h.move hi (fun _ => id) (fun _ => id) trivial, .begun v rfl rfl⟩
  | takes hi =>
    exact ⟨phase, value, h.move hi (fun _ => id) (fun _ => id) trivial, .silent rfl rfl⟩
  | loadTail hi | claimFails hi | loadHead hi | winFails hi =>
    exact ⟨phase, value, h.move hi (fun _ => id) (fun _ => id) le_rfl, .silent rfl rfl⟩
  | free hi hseq =>
    rw [hi] at hsound
    have hsound' := And.intro hsound (h.available_of_free hN hseq)
    exact ⟨phase, value, h.move hi (fun _ => id) (fun _ => id) hsound', .silent rfl rfl⟩
  | full hi hseq =>
    exact ⟨phase, value, h.move hi (fun _ => id) (fun _ => id) trivial,
      .full (h.not_available_of_full hN hseq) rfl rfl⟩
  | behind hi hseq =>
    exact ⟨phase, value, h.move hi (fun _ => id) (fun _ => id) trivial, .silent rfl rfl⟩
  | ready hi hseq =>
    rw [hi] at hsound
    have hsound' := And.intro hsound (h.published_of_ready hN hseq)
    exact ⟨phase, value, h.move hi (fun _ => id) (fun _ => id) hsound', .silent rfl rfl⟩
  | nothing hi hseq =>
    exact ⟨phase, value, h.move hi (fun _ => id) (fun _ => id) trivial, .returned rfl rfl⟩
  | late hi hseq =>
    exact ⟨phase, value, h.move hi (fun _ => id) (fun _ => id) trivial, .silent rfl rfl⟩
  | @claim v pos hi htail =>
    rw [hi] at hsound
    have hphase : phase pos = .unclaimed := (h.tail pos).mpr htail.le
    have hcurrent : Current N phase pos := ⟨by rw [hphase]; nofun, hsound.2⟩
    refine ⟨_, _, h.advance (p := pos) (b := .claimed) (by omega) hcurrent (by rw [hphase]; rfl)
      rfl rfl (fun _ => htail) rfl nofun (fun _ _ => rfl) ?_ (fun _ _ => rfl) ?_
      (fun q hq => update_of_ne hq v value) ?_ ?_ ?_ ?_, .claimed v hphase htail rfl rfl⟩
    · exact (h.ticket pos hcurrent).trans (by rw [hphase]; rfl)
    · rintro (hb | hb | hb) <;> cases hb
    · rw [hi]
      exact fun q => False.elim
    · rw [hphase]
      rintro (hb | hb | hb | hb) <;> cases hb
    · exact ⟨update_self .., update_self ..⟩
    · exact fun q => ⟨fun hq => ⟨hq.symm, .inl rfl⟩, fun hq => hq.1.symm⟩
  | @store v pos hi =>
    rw [hi] at hsound
    have hcurrent := h.current (by rw [hsound.1]; nofun) (by rw [hsound.1]; nofun)
    refine ⟨_, _, h.advance (p := pos) (b := .stored) (by omega) hcurrent
      (by rw [hsound.1]; rfl) rfl rfl nofun rfl nofun (fun _ _ => rfl) ?_
      (fun slot hslot => update_of_ne hslot ..) (fun _ => ?_) (fun _ _ => rfl)
      ?_ ?_ ?_ ?_, .stored hsound.1 rfl rfl⟩
    · exact (h.ticket pos hcurrent).trans (by rw [hsound.1]; rfl)
    · exact (update_self ..).trans (congrArg enc hsound.2.symm)
    · rw [hi]
      exact fun q => Eq.symm
    · rw [hi]
      exact fun _ => rfl
    · exact ⟨update_self .., hsound.2⟩
    · exact fun q => ⟨fun hq => ⟨hq.symm, .inr (.inl rfl)⟩, fun hq => hq.1.symm⟩
  | @publish v pos hi =>
    rw [hi] at hsound
    have hcurrent := h.current (by rw [hsound.1]; nofun) (by rw [hsound.1]; nofun)
    refine ⟨_, _, h.advance (p := pos) (b := .published) (by omega) hcurrent
      (by rw [hsound.1]; rfl) rfl rfl nofun rfl nofun
      (fun slot hslot => update_of_ne hslot ..) (update_self ..)
      (fun _ _ => rfl) (fun _ => h.data pos (.inl hsound.1)) (fun _ _ => rfl) ?_ ?_ trivial ?_,
      .published hsound.1 rfl rfl⟩
    · rw [hi]
      exact fun q => Eq.symm
    · rw [hi]
      exact fun _ => rfl
    · refine fun q => ⟨False.elim, ?_⟩
      rintro ⟨-, hb | hb | hb | hb⟩ <;> cases hb
  | @win pos hi hhead =>
    rw [hi] at hsound
    have hphase : phase pos = .published := by
      have hle : (phase pos).rank ≤ 3 := by
        by_contra hlt
        exact absurd ((h.head pos).mp (not_le.mp hlt)) (by omega)
      exact Phase.rank_injective (le_antisymm hle hsound.2)
    have hcurrent := h.current (p := pos) (by rw [hphase]; nofun) (by rw [hphase]; nofun)
    refine ⟨_, _, h.advance (p := pos) (b := .won) (by omega) hcurrent (by rw [hphase]; rfl)
      rfl rfl nofun rfl (fun _ => hhead) (fun _ _ => rfl) ?_ (fun _ _ => rfl)
      (fun _ => h.data pos (.inr (.inl hphase))) (fun _ _ => rfl) ?_ ?_ ?_ ?_,
      .won hphase rfl hhead rfl⟩
    · exact (h.ticket pos hcurrent).trans (by rw [hphase]; rfl)
    · rw [hi]
      exact fun q => False.elim
    · rw [hphase]
      rintro (hb | hb | hb | hb) <;> cases hb
    · exact update_self ..
    · exact fun q => ⟨fun hq => ⟨hq.symm, .inr (.inr (.inl rfl))⟩, fun hq => hq.1.symm⟩
  | @read pos hi =>
    rw [hi] at hsound
    have hsound : phase pos = .won := hsound
    have hcurrent := h.current (p := pos) (by rw [hsound]; nofun) (by rw [hsound]; nofun)
    rw [h.data pos (.inr (.inr hsound))]
    refine ⟨_, _, h.advance (p := pos) (b := .read) (by omega) hcurrent (by rw [hsound]; rfl)
      rfl rfl nofun rfl nofun (fun _ _ => rfl) ?_ (fun _ _ => rfl) ?_ (fun _ _ => rfl)
      ?_ ?_ ?_ ?_, .read hsound rfl rfl⟩
    · exact (h.ticket pos hcurrent).trans (by rw [hsound]; rfl)
    · rintro (hb | hb | hb) <;> cases hb
    · rw [hi]
      exact fun q => Eq.symm
    · rw [hi]
      exact fun _ => rfl
    · exact update_self ..
    · exact fun q => ⟨fun hq => ⟨hq.symm, .inr (.inr (.inr rfl))⟩, fun hq => hq.1.symm⟩
  | @release pos hi =>
    rw [hi] at hsound
    have hsound : phase pos = .read := hsound
    have hcurrent := h.current (p := pos) (by rw [hsound]; nofun) (by rw [hsound]; nofun)
    have hlt : pos < s.head := (h.head pos).mp (by rw [hsound]; decide)
    refine ⟨_, _, h.advance (p := pos) (b := .released) (by omega) hcurrent
      (by rw [hsound]; rfl) rfl rfl nofun rfl nofun
      (fun slot hslot => update_of_ne hslot ..) (update_self ..)
      (fun _ _ => rfl) ?_ (fun _ _ => rfl) ?_ ?_ hlt ?_, .released hsound rfl rfl⟩
    · rintro (hb | hb | hb) <;> cases hb
    · rw [hi]
      exact fun q => Eq.symm
    · rw [hi]
      exact fun _ => rfl
    · refine fun q => ⟨False.elim, ?_⟩
      rintro ⟨-, hb | hb | hb | hb⟩ <;> cases hb

end Moving

end Hxnu.TicketRing
