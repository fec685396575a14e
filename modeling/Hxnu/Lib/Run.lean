import Mathlib

/-!
# Runs of transition systems and of machines with outputs

A transition system is a relation `step s a t` between a state, the action taken in it and the
state after it; `Run step` is its closure under finite lists of actions. A machine is a function
`step : σ → α → β × σ` that answers each action and always moves on; `outputs` and `final` are its
answers and its last state on a list of actions.

The two induction rules used everywhere are stated once: what every step preserves holds at the end
of every run (`Run.invariant`, `final_invariant`), and a relation between two machines that every
step keeps, with equal answers, gives equal answers on every list of actions
(`outputs_eq_of_simulation`).

## Main definitions

* `Run`, `Reachable`: runs of a transition system and the states they reach.
* `outputs`, `final`: runs of a machine.

## Main results

* `Run.invariant`, `Reachable.invariant`: an invariant of the steps is one of the runs.
* `exists_of_attempts`: a run that is computed.
* `outputs_eq_of_simulation`: a simulation gives the same answers.
-/

namespace Hxnu

/-! ### Transition systems -/

section Transition

variable {σ α : Type*} {step : σ → α → σ → Prop}

/-- The runs of a transition system: `Run step s as t` when the actions `as`, taken in order from
`s`, can end in `t`. -/
inductive Run (step : σ → α → σ → Prop) : σ → List α → σ → Prop
  | nil (s : σ) : Run step s [] s
  | cons {s t u : σ} {a : α} {as : List α} (h : step s a t) (hr : Run step t as u) :
      Run step s (a :: as) u

/-- The states that some run from `init` ends in. -/
def Reachable (step : σ → α → σ → Prop) (init s : σ) : Prop := ∃ as, Run step init as s

namespace Run

theorem append (h₁ : Run step s as t) (h₂ : Run step t bs u) : Run step s (as ++ bs) u := by
  induction h₁ with
  | nil => exact h₂
  | cons h _ ih => exact .cons h (ih h₂)

theorem single (h : step s a t) : Run step s [a] t := .cons h (.nil t)

/-- **Invariant rule.** A property that every step preserves holds at the end of a run that starts
with it. -/
theorem invariant {I : σ → Prop} (hstep : ∀ s a t, I s → step s a t → I t) {s t : σ}
    {as : List α} (hr : Run step s as t) (hs : I s) : I t := by
  induction hr with
  | nil => exact hs
  | cons h _ ih => exact ih (hstep _ _ _ hs h)

/-- A run computed step by step. -/
theorem of_foldlM (hf : ∀ s a t, f s a = some t → step s a t) :
    ∀ {as : List α} {s t : σ}, as.foldlM f s = some t → Run step s as t
  | [], s, t, h => by
    cases h
    exact .nil s
  | a :: as, s, t, h => by
    rw [List.foldlM_cons, Option.bind_eq_bind, Option.bind_eq_some_iff] at h
    obtain ⟨u, hu, hrest⟩ := h
    exact .cons (hf s a u hu) (of_foldlM hf hrest)

/-- A run of fewer steps is a run of more steps. -/
theorem mono (hle : ∀ s a t, step s a t → step' s a t) (hr : Run step s as t) :
    Run step' s as t := by
  induction hr with
  | nil s => exact .nil s
  | cons h _ ih => exact .cons (hle _ _ _ h) ih

end Run

namespace Reachable

theorem refl (s : σ) : Reachable step s s := ⟨[], .nil s⟩

theorem tail (h : Reachable step init s) (hst : step s a t) : Reachable step init t :=
  let ⟨as, hr⟩ := h
  ⟨as ++ [a], hr.append (.single hst)⟩

theorem invariant {I : σ → Prop} {init s : σ} (h : Reachable step init s) (h₀ : I init)
    (hstep : ∀ s a t, I s → step s a t → I t) : I s :=
  let ⟨_, hr⟩ := h
  hr.invariant hstep h₀

end Reachable

end Transition

/-! ### Runs that are computed -/

section Evaluate

variable {σ α β ι ε ε' : Type*} {step : σ → α → σ → Prop}

/-- Take an action within a guard. -/
def attempt (guard : σ → α → Bool) (exec : σ → α → Except ε β) (next : σ → α → β → σ) (s : σ)
    (a : α) : Option σ :=
  if guard s a = true then (exec s a).toOption.map (next s a) else none

/-- **A run that is computed**, from a first state that is computed, too. -/
theorem exists_of_attempts {guard : σ → α → Bool} {exec : σ → α → Except ε β}
    {next : σ → α → β → σ}
    (hstep : ∀ s a b, guard s a = true → exec s a = .ok b → step s a (next s a b))
    {boot : Except ε' ι} {start : ι → σ} {as : List α} {Q : σ → Prop} [DecidablePred Q]
    (h : (boot.toOption.any fun i =>
      (as.foldlM (attempt guard exec next) (start i)).any (Q ·)) = true) :
    ∃ i s, boot = .ok i ∧ Reachable step (start i) s ∧ Q s := by
  obtain ⟨i, hi, h⟩ := (Option.any_eq_true _ _).mp h
  obtain ⟨s, hs, hp⟩ := (Option.any_eq_true _ _).mp h
  have htaken (s : σ) (a : α) (t : σ) (hattempt : attempt guard exec next s a = some t) :
      step s a t := by
    rw [attempt] at hattempt
    split_ifs at hattempt with hguard
    obtain ⟨b, hb, rfl⟩ := Option.map_eq_some_iff.mp hattempt
    cases hexec : exec s a with
    | error e =>
      rw [hexec] at hb
      cases hb
    | ok b' =>
      rw [hexec] at hb
      cases hb
      exact hstep s a b hguard hexec
  cases boot with
  | error e => cases hi
  | ok i' =>
    cases hi
    exact ⟨i, s, rfl, ⟨as, .of_foldlM htaken hs⟩, of_decide_eq_true hp⟩

end Evaluate

/-! ### Machines with outputs -/

section Machine

variable {σ τ α β : Type*}

/-- The answers of a machine to a list of actions. -/
def outputs (step : σ → α → β × σ) : σ → List α → List β
  | _, [] => []
  | s, a :: as => (step s a).1 :: outputs step (step s a).2 as

/-- The state of a machine after a list of actions. -/
def final (step : σ → α → β × σ) : σ → List α → σ
  | s, [] => s
  | s, a :: as => final step (step s a).2 as

theorem outputs_append (step : σ → α → β × σ) (as bs : List α) (s : σ) :
    outputs step s (as ++ bs) = outputs step s as ++ outputs step (final step s as) bs := by
  induction as generalizing s with
  | nil => rfl
  | cons a as ih => exact congrArg (_ :: ·) (ih _)

/-- What every step of a machine preserves holds after every list of actions. -/
theorem final_invariant {step : σ → α → β × σ} {I : σ → Prop}
    (hstep : ∀ s a, I s → I (step s a).2) : (as : List α) → {s : σ} → I s → I (final step s as)
  | [], _, hs => hs
  | a :: as, s, hs => final_invariant hstep as (hstep s a hs)

/-- A relation between the states of two machines that every step keeps, with equal answers, gives
equal answers on every list of actions, and relates the last states. -/
theorem outputs_eq_of_simulation {f : σ → α → β × σ} {g : τ → α → β × τ} {R : σ → τ → Prop}
    (hstep : ∀ s t a, R s t → (f s a).1 = (g t a).1 ∧ R (f s a).2 (g t a).2) :
    (as : List α) → {s : σ} → {t : τ} → R s t →
      outputs f s as = outputs g t as ∧ R (final f s as) (final g t as)
  | [], _, _, h => ⟨rfl, h⟩
  | a :: as, s, t, h => by
    obtain ⟨hout, hnext⟩ := hstep s t a h
    obtain ⟨houts, hfinal⟩ := outputs_eq_of_simulation hstep as hnext
    exact ⟨by rw [outputs, outputs, hout, houts], hfinal⟩

end Machine

end Hxnu
