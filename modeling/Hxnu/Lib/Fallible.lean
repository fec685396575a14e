import Mathlib.Tactic.Common

/-!
# Fallible computations

Code that returns early with an error is an `Except` computation. Each lemma here turns the success
of one kind of step into what the step has established, so that the success of a whole function is
the conjunction over its steps.

## Main definitions

* `Fallible.ensure`: `if !p { return Err(e) }`.
* `Fallible.okOr`: `ok_or(e)?`.
* `Fallible.Stop`, `Fallible.lift`: how a computation stops early if it may also panic.

## Main results

* `Fallible.bind_eq_ok`, `Fallible.ensure_eq_ok`, `Fallible.okOr_eq_ok`: inversion of success.
* `Fallible.bind_congr_ok`, `Fallible.lift_bind`: steps of computations that do not panic.
* `Fallible.foldlM_range`: loops that succeed.
-/

namespace Hxnu.Fallible

variable {ε : Type*} {α β : Type}

/-- Go on if `p` holds, and fail with `e` otherwise. -/
def ensure (p : Prop) [Decidable p] (e : ε) : Except ε Unit := if p then .ok () else .error e

/-- `ok_or`. -/
def okOr (o : Option α) (e : ε) : Except ε α :=
  match o with
  | none => .error e
  | some a => .ok a

/-- A computation stops early because it returns an error, or because it panics. -/
inductive Stop (ε : Type*)
  | error (e : ε)
  | panic
  deriving DecidableEq, Repr

@[simp] theorem bind_eq_ok {x : Except ε α} {f : α → Except ε β} {b : β} :
    x >>= f = .ok b ↔ ∃ a, x = .ok a ∧ f a = .ok b := by
  cases x with
  | error e => exact ⟨nofun, fun ⟨_, h, _⟩ => nomatch h⟩
  | ok a => exact ⟨fun h => ⟨a, rfl, h⟩, fun ⟨_, h, hf⟩ => by cases h; exact hf⟩

@[simp] theorem pure_eq_ok {a b : α} : (pure a : Except ε α) = .ok b ↔ a = b := by
  constructor
  · intro h
    cases h
    rfl
  · rintro rfl
    rfl

@[simp] theorem ensure_eq_ok {p : Prop} [Decidable p] {e : ε} {u : Unit} :
    ensure p e = .ok u ↔ p := by
  rw [ensure]
  split_ifs with hp
  · exact ⟨fun _ => hp, fun _ => rfl⟩
  · exact ⟨nofun, fun h => absurd h hp⟩

@[simp] theorem okOr_eq_ok {o : Option α} {e : ε} {a : α} : okOr o e = .ok a ↔ o = some a := by
  cases o with
  | none => exact ⟨nofun, nofun⟩
  | some b => rw [okOr, Except.ok.injEq, Option.some.injEq]

theorem okOr_some (a : α) (e : ε) : okOr (some a) e = pure a := rfl

theorem ensure_of {p : Prop} [Decidable p] (hp : p) (e : ε) : ensure p e = pure () := if_pos hp

theorem bind_congr_ok {x : Except ε α} {f g : α → Except ε β} (h : ∀ a, x = .ok a → f a = g a) :
    x >>= f = x >>= g := by
  cases x with
  | error e => rfl
  | ok a => exact h a rfl

/-! ### Computations that may also panic -/

/-- A computation that does not panic, among those that may. -/
def lift (x : Except ε α) : Except (Stop ε) α := x.mapError .error

theorem lift_bind (x : Except ε α) (f : α → Except ε β) :
    lift (x >>= f) = lift x >>= fun a => lift (f a) := by
  cases x <;> rfl

theorem lift_ensure (p : Prop) [Decidable p] (e : ε) :
    lift (ensure p e) = ensure p (Stop.error e) := by
  rw [ensure, ensure]
  split_ifs <;> rfl

theorem lift_okOr (o : Option α) (e : ε) : lift (okOr o e) = okOr o (Stop.error e) := by
  cases o <;> rfl

theorem lift_pure (a : α) : lift (pure a : Except ε α) = pure a := rfl

@[simp] theorem lift_eq_ok {x : Except ε α} {a : α} : lift x = .ok a ↔ x = .ok a := by
  cases x with
  | error e => exact ⟨nofun, nofun⟩
  | ok b => exact ⟨fun h => congrArg _ (Except.ok.inj h), fun h => congrArg _ (Except.ok.inj h)⟩

theorem map_eq_ok {β : Type*} {x : Except ε α} {f : α → β} {b : β} :
    x.map f = .ok b ↔ ∃ a, x = .ok a ∧ f a = b := by
  cases x with
  | error e => exact ⟨nofun, fun ⟨_, h, _⟩ => nomatch h⟩
  | ok a => exact ⟨fun h => ⟨a, rfl, Except.ok.inj h⟩, fun ⟨_, h, hb⟩ => Except.ok.inj h ▸ hb ▸ rfl⟩

theorem toOption_eq_some {x : Except ε α} {a : α} : x.toOption = some a ↔ x = .ok a := by
  cases x with
  | error e => exact ⟨nofun, nofun⟩
  | ok b => exact ⟨fun h => congrArg _ (Option.some.inj h), fun h => congrArg _ (Except.ok.inj h)⟩

/-- A check of the result of a computation that succeeds. -/
theorem exists_of_any {x : Except ε α} {p : α → Bool} (h : x.toOption.any p = true) :
    ∃ a, x = .ok a ∧ p a = true := by
  cases x with
  | error e => cases h
  | ok a => exact ⟨a, rfl, h⟩

theorem exists_of_decide {x : Except ε α} {Q : α → Prop} [DecidablePred Q]
    (h : x.toOption.any (Q ·) = true) : ∃ a, x = .ok a ∧ Q a := by
  obtain ⟨a, ha, hQ⟩ := exists_of_any h
  exact ⟨a, ha, of_decide_eq_true hQ⟩

/-- **Loops over a range.** What every turn makes of what the turn before has established holds at
the end. -/
theorem foldlM_range {σ : Type*} {f : σ → ℕ → Except ε σ} {P : ℕ → σ → Prop} {n : ℕ}
    (hbody : ∀ k < n, ∀ s, P k s → ∃ s', f s k = .ok s' ∧ P (k + 1) s') {s : σ} (h : P 0 s) :
    ∃ s', (List.range n).foldlM f s = .ok s' ∧ P n s' := by
  induction n with
  | zero => exact ⟨s, rfl, h⟩
  | succ n ih =>
    obtain ⟨s₁, hs₁, h₁⟩ := ih fun k hk => hbody k (Nat.lt_succ_of_lt hk)
    obtain ⟨s₂, hs₂, h₂⟩ := hbody n (Nat.lt_succ_self n) s₁ h₁
    refine ⟨s₂, ?_, h₂⟩
    rw [List.range_succ, List.foldlM_append, hs₁]
    simp only [bind, Except.bind, List.foldlM_cons, List.foldlM_nil, hs₂, pure, Except.pure]

/-- **Loops over a list.** What every turn keeps holds at the end. -/
theorem foldlM_invariant {σ β : Type*} {f : σ → β → Except ε σ} {I : σ → Prop}
    (hstep : ∀ s b, I s → ∃ s', f s b = .ok s' ∧ I s') (l : List β) {s : σ} (h : I s) :
    ∃ s', l.foldlM f s = .ok s' ∧ I s' := by
  induction l generalizing s with
  | nil => exact ⟨s, rfl, h⟩
  | cons b l ih =>
    obtain ⟨s₁, hs₁, h₁⟩ := hstep s b h
    rw [List.foldlM_cons, hs₁]
    exact ih h₁

end Hxnu.Fallible
