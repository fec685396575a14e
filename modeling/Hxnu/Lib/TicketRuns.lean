import Hxnu.Lib.TicketRing

/-!
# The events of a ring with tickets

What a log of the events of a ring (`TicketRing`) says: the positions are claimed and won in their
order, the item that is read from a position is the one that its producer brought, and a producer is
told that the ring is full only while the position one lap before has not been released. A consumer
that runs alone, with no producer between its claim and its publication, returns with the ring
empty.

## Main definitions

* `Logged`: the events so far, told by the phases.
* `State.Settled`, `Place.Drains`, `State.work`: a consumer that runs alone.

## Main results

* `Logged.step`: every step keeps the account.
* `Inv.drains_step`, `Inv.work_lt`: what a step of the consumer does, and that it has less left to
  do.
-/

namespace Hxnu.TicketRing

open Function List

variable {ι τ α : Type*}

/-! ### The events of a run -/

namespace Event

/-- The position that a producer has claimed, with its item. -/
def claimOf : Event τ α → Option (ℕ × τ)
  | .claimed pos v => some (pos, v)
  | _ => none

/-- The position that a consumer has won. -/
def winOf : Event τ α → Option ℕ
  | .won pos => some pos
  | _ => none

/-- The position whose item has been read. -/
def readOf : Event τ α → Option ℕ
  | .read pos _ => some pos
  | _ => none

theorem mem_claims {log : List (Event τ α)} {pos : ℕ} {v : τ} :
    (pos, v) ∈ log.filterMap claimOf ↔ .claimed pos v ∈ log := by
  rw [mem_filterMap]
  constructor
  · rintro ⟨event, hmem, hclaim⟩
    cases event <;> cases hclaim
    exact hmem
  · exact fun hmem => ⟨_, hmem, rfl⟩

theorem mem_wins {log : List (Event τ α)} {pos : ℕ} :
    pos ∈ log.filterMap winOf ↔ .won pos ∈ log := by
  rw [mem_filterMap]
  constructor
  · rintro ⟨event, hmem, hwin⟩
    cases event <;> cases hwin
    exact hmem
  · exact fun hmem => ⟨_, hmem, rfl⟩

theorem mem_reads {log : List (Event τ α)} {pos : ℕ} :
    pos ∈ log.filterMap readOf ↔ ∃ x, .read pos x ∈ log := by
  rw [mem_filterMap]
  constructor
  · rintro ⟨event, hmem, hread⟩
    cases event <;> cases hread
    exact ⟨_, hmem⟩
  · exact fun ⟨x, hmem⟩ => ⟨_, hmem, rfl⟩

end Event

/-- The events so far, told by the phases. -/
structure Logged (N : ℕ) (enc : τ → α) (log : List (Event τ α)) (s : State ι τ α)
    (phase : ℕ → Phase) (value : ℕ → τ) : Prop where
  claims : log.filterMap Event.claimOf = (List.range s.tail).map fun p => (p, value p)
  wins : log.filterMap Event.winOf = List.range s.head
  read_of_mem : ∀ p x, .read p x ∈ log → 5 ≤ (phase p).rank ∧ x = enc (value p)
  mem_of_read : ∀ p, 5 ≤ (phase p).rank → .read p (enc (value p)) ∈ log
  once : (log.filterMap Event.readOf).Nodup
  stored : ∀ p, .stored p ∈ log → 2 ≤ (phase p).rank
  released : ∀ p, .released p ∈ log → 6 ≤ (phase p).rank
  full : ∀ l₁ l₂ p, log = l₁ ++ .full p :: l₂ → N ≤ p ∧ .released (p - N) ∉ l₁

section Events

variable {N : ℕ} {enc : τ → α} {s s' : State ι τ α} {phase phase' : ℕ → Phase}
  {value value' : ℕ → τ} {log : List (Event τ α)} {e : Option (Event τ α)}

section

variable (h : Advances N enc s s' phase value e phase' value')

include h

theorem Advances.rank_le (q : ℕ) : (phase q).rank ≤ (phase' q).rank := by
  have hupdate {p : ℕ} {a b : Phase} (hp : phase p = a) (hab : a.rank ≤ b.rank) :
      (phase q).rank ≤ (update phase p b q).rank := by
    by_cases hqp : q = p
    · subst hqp
      rwa [update_self, hp]
    · rw [update_of_ne hqp]
  cases h with
  | silent | begun | returned | full => exact le_rfl
  | claimed v hp | stored hp | published hp | won hp | read hp | released hp =>
    exact hupdate hp (by decide)

theorem Advances.value_eq (hq : 1 ≤ (phase q).rank) : value' q = value q := by
  cases h with
  | claimed v hp =>
    refine update_of_ne ?_ v value
    rintro rfl
    rw [hp] at hq
    exact absurd hq (by decide)
  | _ => rfl

/-- What a step adds to the claims. -/
theorem Advances.claims :
    (e.toList.filterMap Event.claimOf = [] ∧ s'.tail = s.tail ∧ value' = value) ∨
      ∃ v, e.toList.filterMap Event.claimOf = [(s.tail, v)] ∧ s'.tail = s.tail + 1 ∧
        value' = update value s.tail v := by
  cases h with
  | claimed v hp hclaim htail =>
    subst hclaim
    exact .inr ⟨v, rfl, htail, rfl⟩
  | silent htail | begun v htail | returned htail | full hp htail | stored hp htail
  | published hp htail | won hp htail | read hp htail | released hp htail =>
    exact .inl ⟨rfl, htail, rfl⟩

/-- What a step adds to the wins. -/
theorem Advances.wins : (e.toList.filterMap Event.winOf = [] ∧ s'.head = s.head) ∨
      (e.toList.filterMap Event.winOf = [s.head] ∧ s'.head = s.head + 1) := by
  cases h with
  | won hp htail hwin hhead =>
    subst hwin
    exact .inr ⟨rfl, hhead⟩
  | silent _ hhead | begun _ _ hhead | returned _ hhead | full _ _ hhead | claimed _ _ _ _ hhead
  | stored _ _ hhead | published _ _ hhead | read _ _ hhead | released _ _ hhead =>
    exact .inl ⟨rfl, hhead⟩

/-- A step reads the item of a position that was not read before, or no item is read. -/
theorem Advances.reads : (e.toList.filterMap Event.readOf = [] ∧ (∀ p x, .read p x ∉ e.toList) ∧
        ∀ q, 5 ≤ (phase' q).rank → 5 ≤ (phase q).rank) ∨
      ∃ p, e = some (.read p (enc (value p))) ∧ phase p = .won ∧ value' = value ∧
        phase' = update phase p .read := by
  have hupdate {p q : ℕ} {b : Phase} (hb : b.rank < 5 ∨ 5 ≤ (phase p).rank)
      (hq : 5 ≤ (update phase p b q).rank) : 5 ≤ (phase q).rank := by
    by_cases hqp : q = p
    · subst hqp
      rw [update_self] at hq
      exact hb.resolve_left (by omega)
    · rwa [update_of_ne hqp] at hq
  cases h with
  | @read p hp => exact .inr ⟨p, rfl, hp, rfl, rfl⟩
  | silent => exact .inl ⟨rfl, nofun, fun _ => id⟩
  | begun | returned | full => exact .inl ⟨rfl, by simp, fun _ => id⟩
  | claimed | stored | published | won =>
    exact .inl ⟨rfl, by simp, fun q => hupdate (.inl (by decide))⟩
  | released hp =>
    exact .inl ⟨rfl, by simp, fun q => hupdate (.inr (by rw [hp]; decide))⟩

end

/-- **Every step is told by the phases.** -/
theorem Logged.step (h : Logged N enc log s phase value)
    (hadv : Advances N enc s s' phase value e phase' value') :
    Logged N enc (log ++ e.toList) s' phase' value' where
  claims := by
    rw [filterMap_append, h.claims]
    obtain ⟨hnone, htail, rfl⟩ | ⟨v, hclaim, htail, rfl⟩ := hadv.claims
    · rw [hnone, htail, append_nil]
    · rw [hclaim, htail, range_succ, map_append, map_singleton, update_self]
      congr 1
      refine map_congr_left fun p hp => ?_
      rw [update_of_ne (mem_range.mp hp).ne]
  wins := by
    rw [filterMap_append, h.wins]
    obtain ⟨hnone, hhead⟩ | ⟨hwin, hhead⟩ := hadv.wins
    · rw [hnone, hhead, append_nil]
    · rw [hwin, hhead, range_succ]
  read_of_mem := by
    intro p x hmem
    rcases mem_append.mp hmem with hold | hnew
    · obtain ⟨hrank, hx⟩ := h.read_of_mem p x hold
      exact ⟨hrank.trans (hadv.rank_le p), by rw [hadv.value_eq (by omega), hx]⟩
    · obtain ⟨-, hno, -⟩ | ⟨q, rfl, -, rfl, rfl⟩ := hadv.reads
      · exact absurd hnew (hno p x)
      · cases mem_singleton.mp hnew
        exact ⟨by rw [update_self]; decide, rfl⟩
  mem_of_read := by
    intro p hp
    rw [mem_append]
    obtain ⟨-, -, hback⟩ | ⟨q, rfl, -, rfl, rfl⟩ := hadv.reads
    · have hrank := hback p hp
      rw [hadv.value_eq (by omega)]
      exact .inl (h.mem_of_read p hrank)
    · by_cases hpq : p = q
      · subst hpq
        exact .inr (mem_singleton_self _)
      · rw [update_of_ne hpq] at hp
        exact .inl (h.mem_of_read p hp)
  once := by
    rw [filterMap_append]
    obtain ⟨hnone, -, -⟩ | ⟨q, rfl, hwon, -, -⟩ := hadv.reads
    · rw [hnone, append_nil]
      exact h.once
    · change (log.filterMap Event.readOf ++ [q]).Nodup
      rw [← concat_eq_append]
      refine h.once.concat fun hmem => ?_
      obtain ⟨x, hread⟩ := Event.mem_reads.mp hmem
      have hrank := (h.read_of_mem _ _ hread).1
      rw [hwon] at hrank
      exact absurd hrank (by decide)
  stored := by
    intro p hmem
    rcases mem_append.mp hmem with hold | hnew
    · exact (h.stored p hold).trans (hadv.rank_le p)
    · cases hadv <;> simp only [Option.toList, not_mem_nil, mem_singleton] at hnew <;>
        cases hnew
      rw [update_self]
      decide
  released := by
    intro p hmem
    rcases mem_append.mp hmem with hold | hnew
    · exact (h.released p hold).trans (hadv.rank_le p)
    · cases hadv <;> simp only [Option.toList, not_mem_nil, mem_singleton] at hnew <;>
        cases hnew
      rw [update_self]
      decide
  full := by
    intro l₁ l₂ p heq
    cases e with
    | none =>
      rw [Option.toList, append_nil] at heq
      exact h.full l₁ l₂ p heq
    | some event =>
      rcases eq_nil_or_concat l₂ with rfl | ⟨l₃, event', rfl⟩
      · obtain ⟨rfl, hlast⟩ := append_inj' heq rfl
        cases singleton_inj.mp hlast
        cases hadv with
        | full hp =>
          rw [Available, not_or, not_lt] at hp
          refine ⟨hp.1, fun hmem => hp.2 ?_⟩
          have hrank := h.released _ hmem
          cases hphase : phase (p - N) <;> rw [hphase] at hrank <;>
            first | rfl | exact absurd hrank (by decide)
      · have heq' : log ++ [event] = (l₁ ++ .full p :: l₃) ++ [event'] :=
          heq.trans (by simp)
        exact h.full l₁ l₃ p (append_inj' heq' rfl).1

end Events

/-! ### A consumer alone -/

/-- A producer is between its claim and its publication. -/
def Place.Midway : Place τ → Prop
  | .store _ _ => True
  | .publish _ _ => True
  | _ => False

/-- No producer is between its claim and its publication. -/
def State.Settled (s : State ι τ α) : Prop := ∀ i, ¬ (s.threads i).Midway

/-- A consumer is at the head of the ring. -/
def Place.Drains (head : ℕ) : Place τ → Prop
  | .take => True
  | .look pos => pos = head
  | .win pos => pos = head
  | .read pos => pos + 1 = head
  | .release pos => pos + 1 = head
  | _ => False

/-- What a consumer has left to do in one round. -/
def Place.work : Place τ → ℕ
  | .win _ => 1
  | .look _ => 2
  | .release _ => 3
  | .take => 3
  | .read _ => 4
  | _ => 0

/-- What a consumer has left to do. -/
def State.work (s : State ι τ α) (i : ι) : ℕ := 4 * (s.tail - s.head) + (s.threads i).work

section Alone

variable [DecidableEq ι] {N : ℕ} {enc : τ → α} {s s' : State ι τ α} {phase : ℕ → Phase}
  {value : ℕ → τ} {i : ι} {e : Option (Event τ α)}

theorem State.Settled.goto (h : s.Settled) (hplace : ¬ place.Midway) :
    (s.goto i place).Settled := by
  intro j
  by_cases hj : j = i
  · subst hj
    rw [State.goto_threads_self]
    exact hplace
  · rw [State.goto_threads_of_ne s hj]
    exact h j

omit [DecidableEq ι] in
/-- Without producers, the head is published or the ring is empty. -/
theorem Inv.head_phase (h : Inv N enc s phase value) (hsettled : s.Settled) :
    phase s.head = .published ∨ s.head = s.tail := by
  have hrank : ¬ 4 ≤ (phase s.head).rank := fun hle => lt_irrefl _ ((h.head _).mp hle)
  have howned : ¬ (phase s.head).Owned := by
    intro howned
    obtain ⟨j, hj⟩ := h.owned _ howned
    have hsound := h.sound j
    cases hplace : s.threads j <;> rw [hplace] at hj hsound <;> simp only [Place.Owns] at hj
    case store v pos => exact hsettled j (by rw [hplace]; trivial)
    case publish v pos => exact hsettled j (by rw [hplace]; trivial)
    case read pos =>
      subst hj
      exact hrank (by rw [show phase s.head = .won from hsound]; decide)
    case release pos =>
      subst hj
      exact hrank (by rw [show phase s.head = .read from hsound]; decide)
  cases hphase : phase s.head with
  | unclaimed => exact .inr (le_antisymm h.head_le ((h.tail _).mp hphase))
  | published => exact .inl rfl
  | claimed | stored => exact absurd (by simp [Phase.Owned, hphase]) howned
  | won | read | released =>
    rw [hphase] at hrank
    exact absurd (by decide) hrank

omit [DecidableEq ι] in
/-- The ticket at the head is not ahead of it. -/
theorem Inv.sequence_head_le (h : Inv N enc s phase value) (hpos : 0 < N) :
    s.sequence (s.head % N) ≤ s.head + 1 := by
  obtain ⟨c, hc, hslot, -, -, hle⟩ := h.exists_ticket hpos s.head
  by_contra hlt
  have hlap := add_le_of_lt_of_mod_eq hslot.symm (by omega : s.head < c)
  have hreleased : phase s.head = .released :=
    h.lapped.released_of_le (by rw [sub_mod_of_le (by omega), hslot])
      (Nat.le_sub_of_add_le hlap) (hc.2.resolve_left (by omega))
  refine lt_irrefl s.head ((h.head _).mp ?_)
  rw [hreleased]
  decide

/-- **A consumer that runs alone** goes on at the head of the ring, or returns when it is empty. -/
theorem Inv.drains_step (h : Inv N enc s phase value) (hsettled : s.Settled)
    (hdrains : (s.threads i).Drains s.head) (hstep : Step N enc i s e s') :
    s'.Settled ∧ s'.tail = s.tail ∧
      ((s'.threads i).Drains s'.head ∨ s'.threads i = .idle ∧ s'.head = s'.tail) := by
  cases hstep with
  | begins v hi | takes hi | loadTail hi | free hi | full hi | behind hi | claim hi | claimFails hi
  | store hi | publish hi =>
    rw [hi] at hdrains
    exact hdrains.elim
  | loadHead hi | winFails hi =>
    refine ⟨hsettled.goto id, rfl, .inl ?_⟩
    rw [State.goto_threads_self]
    rfl
  | ready hi hseq =>
    rw [hi] at hdrains
    refine ⟨hsettled.goto id, rfl, .inl ?_⟩
    rw [State.goto_threads_self]
    exact hdrains
  | @nothing pos hi hseq =>
    rw [hi] at hdrains
    obtain rfl : pos = s.head := hdrains
    refine ⟨hsettled.goto id, rfl, .inr ⟨State.goto_threads_self .., ?_⟩⟩
    rcases h.head_phase hsettled with hphase | hempty
    · have hticket := h.ticket s.head (h.current (by rw [hphase]; nofun) (by rw [hphase]; nofun))
      rw [hphase, Phase.ticket] at hticket
      omega
    · exact hempty
  | late hi hseq =>
    refine ⟨hsettled.goto id, rfl, .inl ?_⟩
    rw [State.goto_threads_self]
    trivial
  | @win pos hi hhead =>
    refine ⟨State.Settled.goto (s := { s with head := pos + 1 }) hsettled id, rfl, .inl ?_⟩
    rw [State.goto_threads_self]
    rfl
  | read hi =>
    rw [hi] at hdrains
    refine ⟨hsettled.goto id, rfl, .inl ?_⟩
    rw [State.goto_threads_self]
    exact hdrains
  | @release pos hi =>
    rw [hi] at hdrains
    refine ⟨State.Settled.goto
      (s := { s with sequence := update s.sequence (pos % N) (pos + N) }) hsettled id,
      rfl, .inl ?_⟩
    rw [State.goto_threads_self]
    exact hdrains

/-- Unless an exchange fails, the consumer has less left to do. -/
theorem Inv.work_lt (h : Inv N enc s phase value) (hpos : 0 < N)
    (hdrains : (s.threads i).Drains s.head) (hstep : Step N enc i s e s')
    (hprompt : ∀ pos, s.threads i = .win pos → e ≠ none) :
    s'.threads i = .idle ∨ s'.work i < s.work i := by
  cases hstep with
  | begins v hi | takes hi | loadTail hi | free hi | full hi | behind hi | claim hi | claimFails hi
  | store hi | publish hi =>
    rw [hi] at hdrains
    exact hdrains.elim
  | winFails hi => exact absurd rfl (hprompt _ hi)
  | nothing hi hseq => exact .inl (State.goto_threads_self ..)
  | loadHead hi | ready hi | read hi =>
    right
    rw [State.work, State.work, State.goto_threads_self, hi]
    exact Nat.add_lt_add_left (by simp [Place.work]) _
  | late hi hseq =>
    rw [hi] at hdrains
    have hle := h.sequence_head_le hpos
    rw [← show _ = s.head from hdrains] at hle
    omega
  | @win pos hi hhead =>
    right
    have hsound := h.sound i
    rw [hi] at hsound
    have hclaimed : ¬ s.tail ≤ pos := fun hle => by
      have hrank := hsound.2
      rw [(h.tail pos).mpr hle] at hrank
      exact absurd hrank (by decide)
    rw [State.work, State.work, State.goto_threads_self, hi]
    change 4 * (s.tail - (pos + 1)) + 4 < 4 * (s.tail - s.head) + 1
    omega
  | release hi =>
    right
    rw [State.work, State.work, State.goto_threads_self, hi]
    exact Nat.add_lt_add_left (by simp [Place.work]) _

end Alone

end Hxnu.TicketRing
