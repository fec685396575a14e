import Mathlib

/-!
# A resource under a spin lock

Any number of agents share a resource and a lock word. Each agent stands at a place of its code;
a step is one access to the shared memory, and the steps of the agents interleave in any order.
What the agent that holds the lock keeps, every step keeps (`LockCode.exists_owned`).
-/

namespace Hxnu

/-- Code over the places `π` with choices `α`. Only places that hold the lock change the resource. -/
structure LockCode (α π ρ : Type*) where
  holds : π → Bool
  step : α → π → ρ → π × ρ
  resource_eq : holds p = false → (step a p r).2 = r

/-- The lock word, the resource and the place of each agent. -/
structure Shared (ι π ρ : Type*) where
  lock : Bool
  resource : ρ
  places : ι → π

namespace LockCode

variable {α ι π ρ : Type*} [DecidableEq ι] {C : LockCode α π ρ}

/-- A step of an agent. It does not take the lock while the lock word is set. -/
def next (C : LockCode α π ρ) (s : Shared ι π ρ) : ι × α → Shared ι π ρ
  | (i, a) =>
    let held := C.holds (s.places i)
    let (q, r) := C.step a (s.places i) s.resource
    if s.lock && !held && C.holds q then s
    else ⟨if held = C.holds q then s.lock else C.holds q, r, Function.update s.places i q⟩

/-- The agent `owner` holds the lock, or none does. The resource is as `I` says for its place. -/
structure Owned (C : LockCode α π ρ) (I : Option π → ρ → Prop) (s : Shared ι π ρ)
    (owner : Option ι) : Prop where
  lock : s.lock = owner.isSome
  holds : ∀ i, C.holds (s.places i) = true ↔ owner = some i
  resource : I (owner.map s.places) s.resource

variable {I : Option π → ρ → Prop} (hI : ∀ a p r, I (Option.guard (C.holds ·) p) r →
  I (Option.guard (C.holds ·) (C.step a p r).1) (C.step a p r).2)

include hI

theorem Owned.next {s : Shared ι π ρ} (hs : C.Owned I s owner) (i : ι) (a : α) :
    ∃ owner', C.Owned I (C.next s (i, a)) owner' := by
  obtain ⟨hlock, hholds, hresource⟩ := hs
  have heq := C.resource_eq (p := s.places i) (a := a) (r := s.resource)
  have hstep := hI a (s.places i) s.resource
  rw [LockCode.next]
  generalize C.step a (s.places i) s.resource = x at heq hstep ⊢
  obtain ⟨q, r⟩ := x
  dsimp only at heq hstep ⊢
  split_ifs
  · exact ⟨owner, hlock, hholds, hresource⟩
  · refine ⟨owner, ?_, ?_, ?_⟩ <;> cases owner <;> grind [Function.update_apply]
  -- The lock is taken or let go.
  · refine ⟨if C.holds q then some i else none, ?_, ?_, ?_⟩ <;> cases owner <;>
      grind [Function.update_apply]

end LockCode

end Hxnu
