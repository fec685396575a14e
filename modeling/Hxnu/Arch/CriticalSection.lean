import Hxnu.Lib.Run

/-!
# Critical sections and the interrupt flag

Four parts of the kernel keep interrupts out of a critical section: the lock of the LCL queue
(`syscall.rs`), the guard of a Supernova driver (`supernova.rs`), the lock of a NeoIO device tree
(`neoio/mod.rs`) and the guard of the log (`log.rs`). The first three are spin locks: they clear the
interrupt flag, wait for the lock, and set the flag when they let the lock go. The guard of the log
remembers the flag and sets it again only if it was set.

A well-nested sequence of sections is a list of events: a section begins, or the innermost open one
ends.

## Main definitions

* `Cpu`, `Cpu.lock`, `Cpu.unlock`, `Cpu.newInterruptGuard`, `Cpu.dropInterruptGuard`: the flag of one
  processor, the locks and the open sections.
* `Cpu.Restored`: the flag is clear inside a section, and outside it is as it was at the start.

## Main results

* `restored_iff`: which sequences keep the flag.
-/

namespace Hxnu.Arch

/-- The spin locks: the one of the LCL queue, one for each driver and one for each manager. -/
inductive SpinLock
  | lclQueue
  | supernova (driver : ℕ)
  | neoIo (manager : ℕ)
  deriving DecidableEq, Repr

/-- A section that can be entered. -/
inductive CriticalSection
  | spin (l : SpinLock)
  | log
  deriving DecidableEq, Repr

/-- An open section, with what it needs to end. -/
inductive SectionGuard
  | spin (l : SpinLock)
  | log (interruptFlagWasSet : Bool)
  deriving DecidableEq, Repr

/-- A processor: its interrupt flag, the locks, and its open sections from the innermost one. -/
structure Cpu where
  interruptFlag : Bool
  locked : SpinLock → Bool
  guards : List SectionGuard

namespace Cpu

/-! ### The four sections -/

/-- `cli`, and a loop of `compare_exchange` that is left when the lock is free. -/
def acquire (l : SpinLock) (c : Cpu) : Option Cpu :=
  if c.locked l then none
  else some ⟨false, Function.update c.locked l true, .spin l :: c.guards⟩

/-- The lock is free again, and `sti`. -/
def release (l : SpinLock) (rest : List SectionGuard) (c : Cpu) : Cpu :=
  ⟨true, Function.update c.locked l false, rest⟩

/-- `lock_lcl`. -/
def lockLcl : Cpu → Option Cpu := acquire .lclQueue

/-- `unlock_lcl`. -/
def unlockLcl : List SectionGuard → Cpu → Cpu := release .lclQueue

/-- `SupernovaDriver::lock`. -/
def lockSupernova (driver : ℕ) : Cpu → Option Cpu := acquire (.supernova driver)

/-- `SupernovaGuard::drop`. -/
def dropSupernovaGuard (driver : ℕ) : List SectionGuard → Cpu → Cpu := release (.supernova driver)

/-- `lock_tree`. -/
def lockTree (manager : ℕ) : Cpu → Option Cpu := acquire (.neoIo manager)

/-- `unlock_tree`. -/
def unlockTree (manager : ℕ) : List SectionGuard → Cpu → Cpu := release (.neoIo manager)

/-- `InterruptGuard::new`: read the flag, then `cli`. -/
def newInterruptGuard (c : Cpu) : Cpu := ⟨false, c.locked, .log c.interruptFlag :: c.guards⟩

/-- `InterruptGuard::drop`: `sti` if the flag was set. -/
def dropInterruptGuard (interruptFlagWasSet : Bool) (rest : List SectionGuard) (c : Cpu) : Cpu :=
  ⟨if interruptFlagWasSet then true else c.interruptFlag, c.locked, rest⟩

/-- Take one of the spin locks. -/
def lock : SpinLock → Cpu → Option Cpu
  | .lclQueue => lockLcl
  | .supernova driver => lockSupernova driver
  | .neoIo manager => lockTree manager

/-- Let one of the spin locks go. -/
def unlock : SpinLock → List SectionGuard → Cpu → Cpu
  | .lclQueue => unlockLcl
  | .supernova driver => dropSupernovaGuard driver
  | .neoIo manager => unlockTree manager

theorem lock_eq (l : SpinLock) : lock l = acquire l := by
  cases l <;> rfl

theorem unlock_eq (l : SpinLock) : unlock l = release l := by
  cases l <;> rfl

/-! ### Sequences of sections -/

/-- A section begins, or the innermost open section ends. -/
inductive Event
  | enter (s : CriticalSection)
  | leave
  deriving DecidableEq, Repr

/-- What an event does; a processor that waits for a lock it holds makes no step. -/
def exec (c : Cpu) : Event → Option Cpu
  | .enter (.spin l) => c.lock l
  | .enter .log => some c.newInterruptGuard
  | .leave =>
    match c.guards with
    | [] => none
    | .spin l :: rest => some (c.unlock l rest)
    | .log interruptFlagWasSet :: rest => some (c.dropInterruptGuard interruptFlagWasSet rest)

/-- The step relation of `exec`. -/
def Step (c : Cpu) (e : Event) (c' : Cpu) : Prop := c.exec e = some c'

/-- No section is open. -/
def start (interruptFlag : Bool) (locked : SpinLock → Bool) : Cpu := ⟨interruptFlag, locked, []⟩

/-- Interrupts are off inside a section, and outside the flag is `b`. -/
structure Restored (b : Bool) (c : Cpu) : Prop where
  inside : c.guards ≠ [] → c.interruptFlag = false
  outside : c.guards = [] → c.interruptFlag = b

/-- What the log sections of a list of open sections remember: the flag is set only outside. -/
def Remembers (b : Bool) : List SectionGuard → Prop
  | [] => True
  | .spin _ :: rest => Remembers b rest
  | .log interruptFlagWasSet :: rest =>
    (rest ≠ [] → interruptFlagWasSet = false) ∧ (rest = [] → interruptFlagWasSet = b) ∧
      Remembers b rest

variable {b : Bool} {c c' : Cpu}

/-- A spin lock may be let go only as the last open section, with the flag set at the start. -/
def LeavesLast (b : Bool) (c : Cpu) : Prop :=
  ∀ l rest, c.guards = .spin l :: rest → rest = [] ∧ b = true

theorem Restored.of_cleared (hflag : c.interruptFlag = false) (hguards : c.guards ≠ []) :
    c.Restored b :=
  ⟨fun _ => hflag, fun h => absurd h hguards⟩

/-- One event keeps the flag if a spin lock is let go only as the last section. -/
theorem Step.restored (h : Step c e c') (hr : c.Restored b) (hm : Remembers b c.guards)
    (hleave : e = .leave → c.LeavesLast b) : c'.Restored b ∧ Remembers b c'.guards := by
  rw [Step] at h
  cases e with
  | enter s =>
    cases s with
    | spin l =>
      rw [exec, lock_eq, acquire] at h
      split_ifs at h
      obtain rfl := Option.some.inj h
      exact ⟨.of_cleared rfl (List.cons_ne_nil _ _), hm⟩
    | log =>
      obtain rfl := Option.some.inj h
      exact ⟨.of_cleared rfl (List.cons_ne_nil _ _), hr.inside, hr.outside, hm⟩
  | leave =>
    rw [exec] at h
    split at h
    · cases h
    · next l rest hguards =>
      obtain ⟨rfl, rfl⟩ := hleave rfl l rest hguards
      obtain rfl := Option.some.inj h
      rw [unlock_eq]
      exact ⟨⟨fun hne => absurd rfl hne, fun _ => rfl⟩, trivial⟩
    · next was rest hguards =>
      obtain rfl := Option.some.inj h
      rw [hguards] at hm
      have hclear : c.interruptFlag = false := hr.inside (hguards ▸ List.cons_ne_nil _ _)
      have hflag : (c.dropInterruptGuard was rest).interruptFlag = was := by
        cases was with
        | true => rfl
        | false => exact hclear
      exact ⟨⟨fun hne => hflag.trans (hm.1 hne), fun heq => hflag.trans (hm.2.1 heq)⟩, hm.2.2⟩

/-- Run lemma: a run that lets spin locks go only as the last section keeps the flag. -/
theorem restored_of_run (h : Run Step c events c') (hr : c.Restored b) (hm : Remembers b c.guards)
    (hleave : ∀ before d, before ++ [.leave] <+: events → Run Step c before d → d.LeavesLast b) :
    c'.Restored b := by
  induction h with
  | nil => exact hr
  | @cons c d _ e events hstep _ ih =>
    have hhead : e = .leave → c.LeavesLast b := by
      rintro rfl
      exact hleave [] c ⟨events, rfl⟩ (.nil c)
    obtain ⟨hr', hm'⟩ := hstep.restored hr hm hhead
    refine ih hr' hm' fun before f hbefore hrun => ?_
    exact hleave (e :: before) f ((List.prefix_cons_inj e).mpr hbefore) (.cons hstep hrun)

/-- **Which sequences keep the interrupt flag.** For every well-nested sequence of sections and every
value of the flag before it: interrupts are off while a section is open and the flag has its old
value whenever none is, if and only if a spin lock is let go only as the last open section and only
with the flag set before. -/
theorem restored_iff (b : Bool) (locked : SpinLock → Bool) (events : List Event) :
    (∀ before c, before <+: events → Run Step (start b locked) before c → c.Restored b) ↔
      ∀ before c, before ++ [.leave] <+: events → Run Step (start b locked) before c →
        ∀ l rest, c.guards = .spin l :: rest → rest = [] ∧ b = true := by
  constructor
  · intro h before c hbefore hrun l rest hguards
    have hstep : Step c .leave (release l rest c) := by
      rw [Step, exec, hguards]
      exact congrArg some (congrFun (congrFun (unlock_eq l) rest) c)
    have hafter := h _ _ hbefore (hrun.append (.single hstep))
    -- The flag is set after the event, so no section can be left.
    have hrest : rest = [] := by
      by_contra hne
      exact nomatch hafter.inside hne
    exact ⟨hrest, (hafter.outside hrest).symm⟩
  · intro h before c hbefore hrun
    exact restored_of_run hrun ⟨fun hne => absurd rfl hne, fun _ => rfl⟩ trivial
      fun first d hfirst hrun' => h first d (hfirst.trans hbefore) hrun'

/-- Two sequences that lose the flag: the LCL lock taken with interrupts off, as a system call
through an interrupt gate does, leaves them on; and inside a section of the log it turns them on
before the section ends. -/
theorem lcl_lock_sets_flag :
    (∃ c, Run Step (start false fun _ => false) [.enter (.spin .lclQueue), .leave] c ∧
      c.guards = [] ∧ c.interruptFlag = true) ∧
    ∃ c, Run Step (start true fun _ => false) [.enter .log, .enter (.spin .lclQueue), .leave] c ∧
      c.guards = [.log true] ∧ c.interruptFlag = true :=
  ⟨⟨_, .cons rfl (.single rfl), rfl, rfl⟩, ⟨_, .cons rfl (.cons rfl (.single rfl)), rfl, rfl⟩⟩

end Cpu

end Hxnu.Arch
