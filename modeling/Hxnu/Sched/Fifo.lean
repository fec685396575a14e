import Hxnu.Sched.Lists
import Hxnu.Sched.Safety

/-!
# The run queues are first-in first-out

Every operation of the scheduler acts on the run queues as on 64 lists: a thread joins the tail of
its list, threads that exit or are activated leave, and the head of the lowest-numbered list that is
not empty is dispatched.

The runs are those without `reap_child`, from the state in which `bootstrap()` returns; every other
operation may be called at any time, `on_timer_tick` included. Over such a run no thread overtakes
another: whoever waits when a thread is dispatched has been dispatched or has exited when the same
thread is dispatched again.

## Main definitions

* `QueueOp`, `FifoStep`: the operations and the runs.
* `dispatches`: the thread that an operation dispatches.
* `Acts`: what each operation does to the lists.
* `FifoQueues`, `NoOvertaking`: the two halves of the statement.

## Main results

* `Lined.step`: every operation acts on the lists as it should.
* `Due.turned`: no overtaking in one operation.
* `run_queues_are_fifo`: both hold in every state of every run.
-/

namespace Hxnu.Sched

open Word Scheduler Function List

variable {group : ℕ} {slot : Slot} {R : Set Slot} {s : Scheduler}

/-! ### Runs -/

inductive QueueOp
  | onTimerTick
  | call (op : Op)

/-- The state after an operation, if it does not panic. -/
def QueueOp.exec (P : Platform) (s : Scheduler) : QueueOp → Except Panic Scheduler
  | .onTimerTick => .ok s.onTimerTick.2
  | .call op => op.exec P s

/-- The operations of the runs: no thread is reaped, and threads are created only while
`thread_count` can be incremented. -/
def inRun (s : Scheduler) : QueueOp → Bool
  | .call (.createUserThread _) => decide (s.threadCount + 1 < 2 ^ 64)
  | .call (.forkCurrentThread _) => decide (s.threadCount + 1 < 2 ^ 64)
  | .call (.reapChild _ _) => false
  | _ => true

/-- One operation of a run. -/
def FifoStep (P : Platform) (s : Scheduler) (op : QueueOp) (s' : Scheduler) : Prop :=
  inRun s op = true ∧ op.exec P s = .ok s'

/-- The thread that an operation dispatches. A yield that returns `None` has dispatched the caller
again if this is a user thread that runs. -/
def dispatches (s : Scheduler) : QueueOp → Option Slot
  | .onTimerTick => if s.onTimerTick.1.isSome then s.onTimerTick.2.currentSlot else none
  | .call .contextSwitchPair =>
    match s.contextSwitchPair with
    | .ok (some (_, next, _), _) => some next
    | _ => none
  | .call (.yieldCurrentUserThread rsp) =>
    match s.yieldCurrentUserThread rsp with
    | .ok (some next, _) => some next
    | .ok (none, s') =>
      s.currentSlot.filter fun c =>
        (s.threads c).role == .user && (s'.threads c).state == .running
    | .error _ => none
  | .call (.requestExitGroup status) =>
    match s.requestExitGroup status with
    | .ok (some _, s') => s'.currentSlot
    | _ => none
  | _ => none

/-! ### What the operations do to the lists -/

/-- Does a yield do anything? -/
def Scheduler.mayYield (s : Scheduler) : Prop :=
  ∃ c, s.currentSlot = some c ∧ (s.threads c).role = .user ∧ (s.threads c).state ≠ .exited

/-- Does a switch of kernel contexts do anything? -/
def Scheduler.maySwitch (s : Scheduler) : Prop :=
  s.currentSlot ≠ none ∧ s.lanes.head ≠ none ∧ s.lanes.head ≠ s.currentSlot

/-- Does an exit of the thread in slot `c` do anything? -/
def Scheduler.mayExit (s : Scheduler) (c : Slot) : Prop :=
  s.currentSlot = some c ∧ (s.threads c).state ≠ .exited ∧ (s.threads c).threadGroupId ≠ 0

/-- What an operation does to the lists. -/
def Acts (s : Scheduler) (op : QueueOp) (s' : Scheduler) : Prop :=
  match op with
  | .onTimerTick => Switches s s.outgoing (fun _ => false) (dispatches s op) s'
  | .call (.yieldCurrentUserThread _) =>
    (s.mayYield → Switches s s.outgoing (fun _ => false) (dispatches s op) s') ∧
      (¬ s.mayYield → s' = s ∧ dispatches s op = none)
  | .call .contextSwitchPair =>
    (s.maySwitch → Switches s s.outgoing (fun _ => false) (dispatches s op) s') ∧
      (¬ s.maySwitch → s' = s ∧ dispatches s op = none)
  | .call (.requestExitGroup _) =>
    (∀ c, s.mayExit c →
      Switches s none (s.inGroup (s.threads c).threadGroupId) (dispatches s op) s' ∧
        ((s.threads c).state = .running → (s'.threads c).state = .exited)) ∧
      ((∀ c, ¬ s.mayExit c) → s' = s ∧ dispatches s op = none)
  | .call .initialContextPair =>
    s'.lanes = s.lanes ∧ s'.currentSlot = s.currentSlot ∨
    ∃ b target, s.bootstrapSlot = .ok (some b) ∧ s'.currentSlot = some target ∧
      Lanes.Turn s'.priorityForThread s.lanes (s.setState b .exited).outgoing (· == target) none
        s'.lanes
  | .call _ => s'.currentSlot = s.currentSlot ∧
      ∃ added, Turned s added (fun _ => false) none s'

/-- The operations that dispatch the head of the lists. -/
def QueueOp.isSwitch : QueueOp → Bool
  | .onTimerTick => true
  | .call .contextSwitchPair => true
  | .call (.yieldCurrentUserThread _) => true
  | .call (.requestExitGroup _) => true
  | _ => false

/-! ### The operations -/

section Operations

variable {P : Platform} {s s' : Scheduler} {R : Set Slot}

/-- **A yield.** -/
theorem Lined.yieldCurrentUserThread (h : Lined s R) (rsp : ℕ) :
    ∃ r s', s.yieldCurrentUserThread rsp = .ok (r, s') ∧ (∃ R', Lined s' R') ∧
      Acts s (.call (.yieldCurrentUserThread rsp)) s' := by
  by_cases hmay : s.mayYield
  · obtain ⟨c, hc, hrole, hstate⟩ := id hmay
    have hsaved : Lined (s.saveRsp c rsp) R := h.quiet Quiet.saveRsp rfl
    have hhalf : Halfway s s.outgoing _ ((s.saveRsp c rsp).preempt c) := .preempt hsaved .saveRsp hc
    have hsteps := yieldCurrentUserThread_of_user h.initialized hc hrole hstate rsp
    suffices hsuff : ∃ r s', s.yieldCurrentUserThread rsp = .ok (r, s') ∧ (∃ R', Lined s' R') ∧
        Switches s s.outgoing (fun _ => false)
          (dispatches s (.call (.yieldCurrentUserThread rsp))) s' by
      obtain ⟨r, s', hyield, hlined, hswitches⟩ := hsuff
      exact ⟨r, s', hyield, hlined, fun _ => hswitches, fun hnot => absurd hmay hnot⟩
    cases hbest : ((s.saveRsp c rsp).preempt c).bestPriority with
    | none =>
      simp only [hbest] at hsteps
      have hstill : (((s.saveRsp c rsp).preempt c).threads c).state ≠ .running := by
        rw [state_preempt]
        split_ifs with hrun
        · exact nofun
        · exact fun hrunning => hrun ⟨rfl, hrunning⟩
      have hnone : dispatches s (.call (.yieldCurrentUserThread rsp)) = none := by
        simp [dispatches, hsteps, hc, Option.filter, hstill]
      rw [hnone]
      exact ⟨none, _, hsteps, hhalf.lined, hhalf.idle hbest⟩
    | some p =>
      obtain ⟨next, s₂, hdeq, -, hcur, -, ⟨R', hlined⟩, hswitches⟩ := hhalf.dispatch hbest
      simp only [hbest, hdeq] at hsteps
      by_cases hnext : next = c
      · subst hnext
        have hset : s₂.setState next .running = s₂.setCurrent next :=
          (setCurrent_of_current (hcur.trans ((preempt_currentSlot ..).trans hc))).symm
        rw [if_pos rfl, hset] at hsteps
        have hself : dispatches s (.call (.yieldCurrentUserThread rsp)) = some next := by
          simp [dispatches, hsteps, hc, Option.filter, hrole]
        rw [hself]
        exact ⟨none, _, hsteps, ⟨R', hlined⟩, hswitches⟩
      · rw [if_neg hnext] at hsteps
        have hother : dispatches s (.call (.yieldCurrentUserThread rsp)) = some next := by
          simp [dispatches, hsteps]
        rw [hother]
        refine ⟨some next, _, hsteps, ⟨R', ?_⟩, ?_⟩
        · exact (hlined.quiet (.addDispatch next) rfl).quiet .addSwitch rfl
        · exact (hswitches.quiet (.addDispatch next)).quiet .addSwitch
  · have hyield : s.yieldCurrentUserThread rsp = .ok (none, s) := by
      refine yieldCurrentUserThread_of_not fun c _ hc hrole => ?_
      by_contra hstate
      exact hmay ⟨c, hc, hrole, hstate⟩
    have hnone : dispatches s (.call (.yieldCurrentUserThread rsp)) = none := by
      simp only [dispatches, hyield]
      refine Option.filter_eq_none_iff.mpr ?_
      intro c hc htest
      rw [Bool.and_eq_true, beq_iff_eq, beq_iff_eq] at htest
      exact hmay ⟨c, hc, htest.1, htest.2.trans_ne nofun⟩
    exact ⟨none, s, hyield, ⟨R, h⟩, fun hyes => absurd hyes hmay, fun _ => ⟨rfl, hnone⟩⟩

/-- The head of the lists, unless it is the current thread. -/
theorem Lined.nextSwitchIndex (h : Lined s R) :
    s.nextSwitchIndex = if s.lanes.head ≠ s.currentSlot then s.lanes.head else none := by
  rw [Scheduler.nextSwitchIndex, if_neg (by rw [h.initialized]; simp), Lanes.head,
    ← h.bestPriority]
  cases s.bestPriority with
  | none => simp
  | some p =>
    rw [Option.bind_some, lanes, queue]
    simp only
    cases (s.runqueues p).toList.head? with
    | none => simp
    | some next => rfl

/-- **A switch of kernel contexts.** -/
theorem Lined.contextSwitchPair (h : Lined s R) :
    ∃ r s', s.contextSwitchPair = .ok (r, s') ∧ (∃ R', Lined s' R') ∧
      Acts s (.call .contextSwitchPair) s' := by
  by_cases hmay : s.maySwitch
  · obtain ⟨hcurrent, hhead, hne⟩ := id hmay
    obtain ⟨c, hc⟩ := Option.ne_none_iff_exists'.mp hcurrent
    obtain ⟨next, hnext⟩ := Option.ne_none_iff_exists'.mp hhead
    have hindex : s.nextSwitchIndex = some next := by
      rw [h.nextSwitchIndex, if_pos hne, hnext]
    have hhalf : Halfway s s.outgoing _ (s.preempt c) := .preempt h (.refl s) hc
    obtain ⟨R₁, hlined₁⟩ := hhalf.lined
    -- The current thread has joined the list behind `next`.
    have hhead₁ : (s.preempt c).lanes.head = some next := by
      rw [hhalf.lanes, outgoing_of_current hc]
      split_ifs
      · rw [Lanes.updated_some]
        have hbest := h.bestPriority_of_head hhead
        rw [h.bestPriority] at hbest
        exact Lanes.head_push hbest le_rfl hnext
      · rw [Lanes.updated_none, hnext]
    have hbest : (s.preempt c).bestPriority = some 0 :=
      hlined₁.bestPriority_of_head (hhead₁.trans_ne nofun)
    obtain ⟨dequeued, s₂, hdeq, hdequeued, -, -, ⟨R', hlined⟩, hswitches⟩ := hhalf.dispatch hbest
    cases Option.some.inj (hdequeued.symm.trans hhead₁)
    have hcn : c ≠ next := fun heq => hne (by rw [hnext, hc, heq])
    have hsteps : s.contextSwitchPair = .ok (some (c, next,
        (((s₂.setCurrent next).addDispatch next).addSwitch).dispatchSnapshot next),
        ((s₂.setCurrent next).addDispatch next).addSwitch) := by
      rw [Scheduler.contextSwitchPair, hc]
      simp only [hindex, hlined₁.priorityForThread, hdeq, if_neg hcn]
    have hdispatches : dispatches s (.call .contextSwitchPair) = some next := by
      simp only [dispatches, hsteps]
    refine ⟨_, _, hsteps, ⟨R', ?_⟩, fun _ => ?_, fun hnot => absurd hmay hnot⟩
    · exact (hlined.quiet (.addDispatch next) rfl).quiet .addSwitch rfl
    · rw [hdispatches]
      exact (hswitches.quiet (.addDispatch next)).quiet .addSwitch
  · have hsteps : s.contextSwitchPair = .ok (none, s) := by
      rw [Scheduler.contextSwitchPair]
      cases hc : s.currentSlot with
      | none => rfl
      | some c =>
        have hindex : s.nextSwitchIndex = none := by
          rw [h.nextSwitchIndex]
          split_ifs with hne
          · by_contra hhead
            exact hmay ⟨hc.trans_ne nofun, hhead, hne⟩
          · rfl
        simp only [hindex]
    have hdispatches : dispatches s (.call .contextSwitchPair) = none := by
      simp only [dispatches, hsteps]
    exact ⟨none, s, hsteps, ⟨R, h⟩, fun hyes => absurd hyes hmay, fun _ => ⟨rfl, hdispatches⟩⟩

/-- The first half of a timer tick. -/
theorem Lined.chargeCurrent (h : Lined s R) :
    Halfway s s.outgoing (fun _ => false) s.chargeCurrent := by
  rw [Scheduler.chargeCurrent]
  cases hc : s.currentSlot with
  | none =>
    rw [outgoing_of_none hc]
    exact .of_quiet h (.refl s)
  | some c =>
    have hticks : Quiet s (s.setThread c { s.threads c with
        totalTicks := satAdd (s.threads c).totalTicks 1 }) := .setThread rfl rfl
    have hlined := h.quiet hticks rfl
    simp only
    split_ifs with hrun hblocked
    · exact .preempt hlined hticks hc
    · rw [outgoing_of_current hc, if_neg hrun]
      exact .of_quiet hlined hticks
    · rw [outgoing_of_current hc, if_neg hrun]
      exact .of_quiet h (.refl s)

/-- **A timer tick.** -/
theorem Lined.onTimerTick (h : Lined s R) :
    (∃ R', Lined s.onTimerTick.2 R') ∧ Acts s .onTimerTick s.onTimerTick.2 := by
  suffices hsuff : ∃ d s', s.onTimerTick = (d, s') ∧ (∃ R', Lined s' R') ∧
      Switches s s.outgoing (fun _ => false) (if d.isSome then s'.currentSlot else none) s' by
    obtain ⟨d, s', htick, hlined, hswitches⟩ := hsuff
    rw [Acts, dispatches, htick]
    exact ⟨hlined, hswitches⟩
  by_cases hguard : s.initialized = false ∨ (s.runqueueBitmap = 0 ∧ s.currentSlot = none)
  · obtain ⟨hbitmap, hc⟩ := hguard.resolve_left (by rw [h.initialized]; simp)
    refine ⟨none, s, if_pos hguard, ⟨R, h⟩, ?_⟩
    rw [outgoing_of_none hc]
    refine (Halfway.of_quiet h (.refl s)).idle ?_
    rw [Scheduler.bestPriority, Ring.first_eq_none_iff]
    intro p
    rw [hbitmap]
    exact BitVec.getLsbD_zero
  · rw [Scheduler.onTimerTick, if_neg hguard]
    have hhalf := h.chargeCurrent
    generalize s.chargeCurrent = s₁ at hhalf ⊢
    obtain ⟨R₁, hlined₁⟩ := hhalf.lined
    simp only
    cases hbest : s₁.bestPriority with
    | none =>
      refine ⟨none, s₁.clearCurrent, rfl, ⟨R₁, hlined₁.clearCurrent⟩, ?_⟩
      have hidle := hhalf.idle hbest
      exact ⟨⟨hidle.turn, hidle.left, hidle.exited⟩, hidle.idle, by simp⟩
    | some p =>
      obtain ⟨next, s₂, hdeq, -, -, -, ⟨R', hlined⟩, hswitches⟩ := hhalf.dispatch hbest
      simp only [hdeq]
      -- The switch counter may or may not be incremented.
      have hcounted : Quiet s₂ (if some next ≠ s₂.currentSlot then s₂.addSwitch else s₂) ∧
          (if some next ≠ s₂.currentSlot then s₂.addSwitch else s₂).fixed = s₂.fixed := by
        split_ifs
        · exact ⟨.addSwitch, rfl⟩
        · exact ⟨.refl s₂, rfl⟩
      generalize (if some next ≠ s₂.currentSlot then s₂.addSwitch else s₂) = s₃ at hcounted ⊢
      obtain ⟨hquiet, hfixed⟩ := hcounted
      refine ⟨_, _, rfl, ⟨R', ?_⟩, ?_⟩
      · exact (hlined.quiet hquiet.setCurrent hfixed).quiet (.addDispatch next) rfl
      · exact (hswitches.quiet hquiet.setCurrent).quiet (.addDispatch next)

/-! ### Ending a group -/

/-- The state `s₁` after the loop of `request_exit_group` over the slots in `l`. -/
structure Ended (s : Scheduler) (group : ℕ) (l : List Slot) (s₁ : Scheduler) : Prop where
  lined : ∃ R, Lined s₁ R
  currentSlot : s₁.currentSlot = s.currentSlot
  fixed : s₁.fixed = s.fixed
  threads : ∀ x, s₁.threads x = if x ∈ l ∧ s.inGroup group x = true then
    { s.threads x with state := .exited } else s.threads x
  lanes : s₁.lanes = s.lanes.keep fun x => !(decide (x ∈ l) && s.inGroup group x)

/-- One turn of the loop. -/
theorem Ended.exitSlot (h : Lined s R) (hlt : (slot : ℕ) < s.threadCount) (count : ℕ) :
    Ended s group [slot] (exitSlot group (s, count) slot).1 := by
  have hiff : ((s.threads slot).threadGroupId = group ∧ (s.threads slot).state ≠ .exited) ↔
      s.inGroup group slot = true := by
    rw [inGroup, Bool.and_eq_true, beq_iff_eq, bne_iff_ne]
  rw [Scheduler.exitSlot]
  simp only [hiff]
  split_ifs with hin
  · have hset : Lined (s.setState slot .exited) R := h.setState (fun _ => .inr rfl) hlt
    obtain ⟨hlined, hlanes⟩ := hset.removeQueued slot
    refine ⟨⟨_, hlined⟩, removeQueued_currentSlot .., removeQueued_fixed .., ?_, ?_⟩
    · intro x
      rw [removeQueued_threads, setState_threads]
      by_cases hx : x = slot
      · rw [hx, update_self, if_pos ⟨mem_singleton_self slot, hin⟩]
      · rw [update_of_ne hx, if_neg fun hmem => hx (mem_singleton.mp hmem.1)]
    · rw [hlanes]
      refine congrArg s.lanes.keep (funext fun x => ?_)
      by_cases hx : x = slot
      · simp [hx, hin]
      · simp [hx]
  · refine ⟨⟨R, h⟩, rfl, rfl, ?_, ?_⟩
    · intro x
      rw [if_neg]
      rintro ⟨hx, hyes⟩
      exact hin (mem_singleton.mp hx ▸ hyes)
    · refine (Lanes.keep_of_forall fun p x _ => ?_).symm
      by_cases hx : x = slot
      · simp [hx, hin]
      · simp [hx]

theorem Ended.append (h : Ended s group l s₁) (h' : Ended s₁ group l' s₂) :
    Ended s group (l ++ l') s₂ := by
  have hin (x : Slot) : s₁.inGroup group x = (s.inGroup group x && !decide (x ∈ l)) := by
    rw [inGroup, inGroup, h.threads]
    by_cases hx : x ∈ l
    · by_cases hyes : s.inGroup group x = true
      · simp [hx, hyes]
      · rw [if_neg fun hboth => hyes hboth.2]
        rw [inGroup] at hyes
        simp [hyes, hx]
    · simp [hx]
  refine ⟨h'.lined, h'.currentSlot.trans h.currentSlot, h'.fixed.trans h.fixed, ?_, ?_⟩
  · intro x
    rw [h'.threads, hin, h.threads]
    by_cases hx : x ∈ l <;> by_cases hx' : x ∈ l' <;> by_cases hyes : s.inGroup group x = true <;>
      simp [hx, hx', hyes]
  · rw [h'.lanes, h.lanes]
    funext p
    rw [Lanes.keep, Lanes.keep, Lanes.keep, filter_filter]
    refine congrArg (List.filter · (s.lanes p)) (funext fun x => ?_)
    rw [hin]
    by_cases hx : x ∈ l <;> by_cases hx' : x ∈ l' <;> cases s.inGroup group x <;> simp [hx, hx']

/-- The whole loop. -/
theorem Ended.foldl {l : List Slot} (h : Lined s R)
    (hl : ∀ x ∈ l, (x : ℕ) < s.threadCount) (count : ℕ) :
    Ended s group l (l.foldl (Scheduler.exitSlot group) (s, count)).1 := by
  induction l generalizing s R count with
  | nil => exact ⟨⟨R, h⟩, rfl, rfl, fun x => by simp, (Lanes.keep_of_forall (by simp)).symm⟩
  | cons slot l ih =>
    have hone : Ended s group [slot] _ := .exitSlot h (hl slot mem_cons_self) count
    obtain ⟨R₁, hlined₁⟩ := hone.lined
    refine hone.append (ih hlined₁ ?_ _)
    intro x hx
    rw [show (Scheduler.exitSlot group (s, count) slot).1.threadCount = s.threadCount from
      congrArg Fixed.threadCount hone.fixed]
    exact hl x (mem_cons_of_mem slot hx)

/-- After the whole loop the threads of the group have left the lists and have exited. -/
theorem Ended.halfway (h : Lined s R) (hended : Ended s group s.liveSlots s₁) :
    Halfway s none (s.inGroup group) s₁ where
  lined := hended.lined
  lanes := by
    rw [hended.lanes]
    funext p
    refine filter_congr fun x hx => ?_
    have hlive : x ∈ s.liveSlots := mem_liveSlots.mpr (h.lt_threadCount (h.mem_lanes hx))
    rw [decide_eq_true hlive, Bool.true_and]
  left p x hx hin := by
    have hlive : x ∈ s.liveSlots := mem_liveSlots.mpr (h.lt_threadCount (h.mem_lanes hx))
    rw [hended.threads, if_pos ⟨hlive, hin⟩]
  exited x hx := by
    rw [hended.threads]
    split_ifs
    · rfl
    · exact hx

/-- **The exit of a thread group.** -/
theorem Lined.requestExitGroup (h : Lined s R) (hcount : s.threadCount ≤ maxThreads) {c : Slot}
    (hmay : s.mayExit c) (status : ℤ) :
    ∃ record s', s.requestExitGroup status = .ok (some record, s') ∧ (∃ R', Lined s' R') ∧
      Switches s none (s.inGroup (s.threads c).threadGroupId) s'.currentSlot s' ∧
      ((s.threads c).state = .running → (s'.threads c).state = .exited) := by
  obtain ⟨hc, hstate, hgroup⟩ := hmay
  have hguard := not_or.mpr ⟨hstate, hgroup⟩
  have hended : Ended s (s.threads c).threadGroupId s.liveSlots _ :=
    .foldl h (fun x hx => mem_liveSlots.mp hx) 0
  rw [Scheduler.requestExitGroup, if_neg (by rw [h.initialized]; simp), hc]
  simp only [if_neg hguard]
  rw [forEachSlot_of_le hcount]
  generalize s.liveSlots.foldl (Scheduler.exitSlot (s.threads c).threadGroupId) (s, 0) = r
    at hended ⊢
  obtain ⟨s₁, count⟩ := r
  have hhalf := hended.halfway h
  obtain ⟨R₁, hlined₁⟩ := hended.lined
  have hhalf' : Halfway s none (s.inGroup (s.threads c).threadGroupId) s₁.clearCurrent :=
    ⟨⟨R₁, hlined₁.clearCurrent⟩, hhalf.lanes, hhalf.left, hhalf.exited⟩
  have hgone : (s.threads c).state = .running → (s₁.threads c).state = .exited := by
    intro hrun
    have hlive : c ∈ s.liveSlots :=
      mem_liveSlots.mpr (h.slots c (hrun.trans_ne (by simp)))
    have hin : s.inGroup (s.threads c).threadGroupId c = true := by
      rw [inGroup, Bool.and_eq_true, beq_iff_eq, bne_iff_ne]
      exact ⟨rfl, hstate⟩
    rw [hended.threads, if_pos ⟨hlive, hin⟩]
  simp only [bind, Except.bind]
  have hsame : (s₁.threads c).threadGroupId = (s.threads c).threadGroupId := by
    rw [hended.threads]
    split_ifs <;> rfl
  rw [if_pos hsame]
  cases hbest : s₁.clearCurrent.bestPriority with
  | none => exact ⟨_, _, rfl, hhalf'.lined, hhalf'.idle hbest, hgone⟩
  | some p =>
    obtain ⟨next, s₂, hdeq, hhead, -, hthreads, ⟨R', hlined⟩, hswitches⟩ :=
      hhalf'.dispatch hbest
    simp only [hdeq]
    refine ⟨_, _, rfl, ⟨R', hlined.quiet .addSwitch rfl⟩, hswitches.quiet .addSwitch, ?_⟩
    intro hrun
    have hne : c ≠ next := by
      rintro rfl
      obtain ⟨p', hmem⟩ := Lanes.mem_of_head hhead
      rw [hhalf'.lanes] at hmem
      exact h.not_mem hrun (by simp) (by simp) (h.mem_lanes (mem_of_mem_filter hmem))
    rw [addSwitch_threads, setCurrent_threads, update_of_ne hne, hthreads]
    exact hgone hrun

theorem Lined.acts_requestExitGroup (h : Lined s R) (hexit : s.requestExitGroup status = .ok r) :
    (∃ R', Lined r.2 R') ∧ Acts s (.call (.requestExitGroup status)) r.2 := by
  by_cases hmay : ∃ c, s.mayExit c
  · obtain ⟨c, hc⟩ := hmay
    have hcount : s.threadCount ≤ maxThreads := by
      by_contra hlt
      obtain ⟨hcurrent, hstate, hgroup⟩ := hc
      have hguard := not_or.mpr ⟨hstate, hgroup⟩
      rw [Scheduler.requestExitGroup, if_neg (by rw [h.initialized]; simp), hcurrent] at hexit
      simp only [if_neg hguard] at hexit
      rw [forEachSlot, if_pos (not_le.mp hlt)] at hexit
      cases hexit
    obtain ⟨record, s', hexit', hlined, hswitches, hgone⟩ := h.requestExitGroup hcount hc status
    have hdispatches : dispatches s (.call (.requestExitGroup status)) = s'.currentSlot := by
      simp only [dispatches, hexit']
    rw [hexit'] at hexit
    cases hexit
    refine ⟨hlined, ?_, fun hnot => absurd hc (hnot c)⟩
    intro c' hc'
    cases Option.some.inj (hc.1.symm.trans hc'.1)
    rw [hdispatches]
    exact ⟨hswitches, hgone⟩
  · have hexit' : s.requestExitGroup status = .ok (none, s) := by
      refine requestExitGroup_of_not fun c _ hc => ?_
      by_contra hnot
      rw [not_or] at hnot
      exact hmay ⟨c, hc, hnot⟩
    have hdispatches : dispatches s (.call (.requestExitGroup status)) = none := by
      simp only [dispatches, hexit']
    rw [hexit'] at hexit
    cases hexit
    exact ⟨⟨R, h⟩, fun c hc => absurd ⟨c, hc⟩ hmay, fun _ => ⟨rfl, hdispatches⟩⟩

/-! ### The other operations -/

/-- A turn without a dispatch. -/
theorem Halfway.acts (h : Halfway s added (fun _ => false) s')
    (hcur : s'.currentSlot = s.currentSlot) :
    (∃ R', Lined s' R') ∧ s'.currentSlot = s.currentSlot ∧
      ∃ added, Turned s added (fun _ => false) none s' :=
  ⟨h.lined, hcur, added, h.turned⟩

section

variable (h : Lined s R) (hcount : s.threadCount + 1 < 2 ^ 64)

include h hcount

/-- A new thread in a free slot. -/
theorem Lined.spawn (hfree : (s.threads slot).state = .unused) (hslot : (slot : ℕ) ≤ s.threadCount)
    (ht : t.state = .runnable) (hprio : t.basePriority = 0) :
    Halfway s (some slot) (fun _ => false) ((s.addThread.setThread slot t).enqueue slot).2 := by
  have hquiet : Quiet s s.addThread := ⟨rfl, rfl, rfl, fun _ => rfl, fun _ => rfl⟩
  have hlt : (slot : ℕ) < s.addThread.threadCount := by
    rw [show s.addThread.threadCount = s.threadCount + 1 from wrapAdd_of_lt hcount]
    exact Nat.lt_succ_of_le hslot
  refine Halfway.of_quiet_left ?_ hquiet
  exact .place (h.addThread hcount) hfree nofun nofun hlt ht hprio

theorem Lined.createUserThread (pageTable : ℕ) :
    ∃ added, Halfway s added (fun _ => false) (s.createUserThread P pageTable).2 ∧
      (s.createUserThread P pageTable).2.currentSlot = s.currentSlot := by
  by_cases hlt : s.threadCount < maxThreads
  · have hfree : (s.threads ⟨s.threadCount, hlt⟩).state = .unused := h.slots.unused le_rfl
    have hspawn := h.spawn hcount (t := s.userThread P ⟨s.threadCount, hlt⟩ pageTable) hfree le_rfl
      rfl rfl
    rw [createUserThread_of_lt h.initialized hlt]
    exact ⟨_, hspawn, enqueue_currentSlot ..⟩
  · obtain ⟨e, hcreate⟩ := createUserThread_of_full (.inr (not_lt.mp hlt)) P pageTable
    rw [hcreate]
    exact ⟨none, .of_quiet h (.refl s), rfl⟩

theorem Lined.forkCurrentThread (newCr3 : ℕ) :
    ∃ added, Halfway s added (fun _ => false) (s.forkCurrentThread newCr3).2 ∧
      (s.forkCurrentThread newCr3).2.currentSlot = s.currentSlot := by
  rcases forkCurrentThread_cases s newCr3 with ⟨e, hfork⟩ | ⟨-, e, hfork⟩ |
    ⟨parent, child, -, -, hfree, hbelow, hfork⟩
  · rw [hfork]
    exact ⟨none, .of_quiet h (.refl s), rfl⟩
  · rw [hfork]
    exact ⟨none, .of_quiet (h.addThread hcount) ⟨rfl, rfl, rfl, fun _ => rfl, fun _ => rfl⟩, rfl⟩
  · rw [hfork]
    refine ⟨some child, h.spawn hcount hfree (h.slots.le_threadCount hbelow) rfl
      (h.priority parent), ?_⟩
    rw [enqueue_currentSlot]
    rfl

end

theorem Lined.blockCurrentThread (h : Lined s R) :
    Halfway s none (fun _ => false) s.blockCurrentThread ∧
      s.blockCurrentThread.currentSlot = s.currentSlot := by
  rw [Scheduler.blockCurrentThread]
  split
  · exact ⟨.of_quiet h (.refl s), rfl⟩
  · rename_i c hc
    split_ifs with hrun
    · have hset : Lined (s.setState c .blocked) R :=
        h.setState (fun hR => absurd hR (h.not_mem hrun (by simp) (by simp)))
          (h.slots c (hrun.trans_ne (by simp)))
      refine ⟨⟨⟨R, hset⟩, (Lanes.updated_none ..).symm, by simp, ?_⟩, rfl⟩
      intro x hx
      have hxc : x ≠ c := by
        rintro rfl
        rw [hrun] at hx
        cases hx
      rw [setState_threads, update_of_ne hxc, hx]
    · exact ⟨.of_quiet h (.refl s), rfl⟩

theorem Lined.unblockThreadWithResult (h : Lined s R) (pid tid : ℕ) :
    ∃ added, Halfway s added (fun _ => false) (s.unblockThreadWithResult pid tid).2 ∧
      (s.unblockThreadWithResult pid tid).2.currentSlot = s.currentSlot := by
  rcases unblockThreadWithResult_cases s pid tid with hnone | ⟨slot, hblocked, hunblock⟩
  · rw [hnone]
    exact ⟨none, .of_quiet h (.refl s), rfl⟩
  · rw [hunblock]
    refine ⟨some slot, ?_, ?_⟩
    · exact .place h hblocked nofun nofun (h.slots slot (hblocked.trans_ne nofun)) rfl
        (h.priority slot)
    · rw [enqueue_currentSlot, setState_currentSlot]

theorem of_findThread (h : s.findThread p = .ok (some slot)) :
    (slot : ℕ) < s.threadCount ∧ p (s.threads slot) = true := by
  rw [findThread] at h
  split at h
  · rename_i hfirst
    cases h
    have hfound := (Ring.first_eq_some_iff.mp hfirst).1
    rwa [Bool.and_eq_true, decide_eq_true_eq] at hfound
  · split_ifs at h
    cases h

/-- **`initial_context_pair`**: the thread that is activated leaves its list. -/
theorem Lined.initialContextPair (h : Lined s R) (hinitial : s.initialContextPair = .ok r) :
    (∃ R', Lined r.2 R') ∧ Acts s (.call .initialContextPair) r.2 := by
  rcases initialContextPair_cases hinitial with hr | ⟨b, hb, hr⟩
  · rw [hr]
    exact ⟨⟨R, h⟩, .inl ⟨rfl, rfl⟩⟩
  have hlt : (b : ℕ) < s.threadCount := (of_findThread hb).1
  have hset : Lined (s.setState b .exited) R := h.setState (fun _ => .inr rfl) hlt
  rcases hr with hr | ⟨target, hr⟩
  · rw [hr]
    exact ⟨⟨R, hset⟩, .inl ⟨rfl, rfl⟩⟩
  rcases activateThreadSlot_cases (s.setState b .exited) target with hsame | ⟨hlt', -, hactivate⟩
  · rw [hr, hsame]
    exact ⟨⟨R, hset⟩, .inl ⟨rfl, rfl⟩⟩
  rw [hr, hactivate]
  have hhalf : Halfway (s.setState b .exited) (s.setState b .exited).outgoing (fun _ => false)
      ((s.setState b .exited).currentSlot.elim (s.setState b .exited)
        (s.setState b .exited).preempt) ∧
      ((s.setState b .exited).currentSlot.elim (s.setState b .exited)
        (s.setState b .exited).preempt).fixed = s.fixed := by
    cases hc : (s.setState b .exited).currentSlot with
    | none =>
      rw [outgoing_of_none hc]
      exact ⟨.of_quiet hset (.refl _), rfl⟩
    | some c => exact ⟨.preempt hset (.refl _) hc, preempt_fixed ..⟩
  generalize (s.setState b .exited).currentSlot.elim (s.setState b .exited)
    (s.setState b .exited).preempt = s₁ at hhalf ⊢
  obtain ⟨hhalf, hfixed⟩ := hhalf
  obtain ⟨R₁, hlined₁⟩ := hhalf.lined
  obtain ⟨hlined₂, hlanes₂⟩ := hlined₁.removeQueued target
  have hlt₂ : (target : ℕ) < (s₁.removeQueued target).threadCount := by
    rw [show (s₁.removeQueued target).threadCount = s.threadCount from
      congrArg Fixed.threadCount ((removeQueued_fixed s₁ target).trans hfixed)]
    exact hlt'
  have hlined : Lined ((s₁.removeQueued target).setCurrent target).addSwitch (R₁ \ {target}) :=
    (hlined₂.setCurrent (fun hmem => hmem.2 rfl) hlt₂).quiet .addSwitch rfl
  refine ⟨⟨_, hlined⟩, .inr ⟨b, target, hb, rfl, nofun, ?_⟩⟩
  rw [hlined.priorityForThread]
  change (s₁.removeQueued target).lanes = _
  rw [hlanes₂, hhalf.lanes]
  exact Lanes.keep_updated ..

/-- **Every operation acts on the lists as it should.** -/
theorem Lined.step (h : Lined s R) (hstep : FifoStep P s op s') :
    (∃ R', Lined s' R') ∧ Acts s op s' := by
  obtain ⟨hin, hexec⟩ := hstep
  cases op with
  | onTimerTick =>
    cases hexec
    exact h.onTimerTick
  | call op =>
    cases op with
    | createUserThread pageTable =>
      cases hexec
      obtain ⟨added, hhalf, hcur⟩ := h.createUserThread (P := P) (of_decide_eq_true hin) pageTable
      exact hhalf.acts hcur
    | initialContextPair =>
      obtain ⟨r, hr, rfl⟩ := Fallible.map_eq_ok.mp hexec
      exact h.initialContextPair hr
    | contextSwitchPair =>
      obtain ⟨r, s₁, hswitch, hresult⟩ := h.contextSwitchPair
      change s.contextSwitchPair.map Prod.snd = .ok s' at hexec
      rw [hswitch] at hexec
      cases hexec
      exact hresult
    | yieldCurrentUserThread rsp =>
      obtain ⟨r, s₁, hyield, hresult⟩ := h.yieldCurrentUserThread rsp
      change (s.yieldCurrentUserThread rsp).map Prod.snd = .ok s' at hexec
      rw [hyield] at hexec
      cases hexec
      exact hresult
    | blockCurrentThread =>
      cases hexec
      exact h.blockCurrentThread.1.acts h.blockCurrentThread.2
    | unblockThreadWithResult pid tid =>
      cases hexec
      obtain ⟨added, hhalf, hcur⟩ := h.unblockThreadWithResult pid tid
      exact hhalf.acts hcur
    | requestExitGroup status =>
      obtain ⟨r, hr, rfl⟩ := Fallible.map_eq_ok.mp hexec
      exact h.acts_requestExitGroup hr
    | forkCurrentThread newCr3 =>
      cases hexec
      obtain ⟨added, hhalf, hcur⟩ := h.forkCurrentThread (of_decide_eq_true hin) newCr3
      exact hhalf.acts hcur
    | reapChild parentPid targetPid => cases hin

/-- The operations that dispatch do not panic, unless `request_exit_group` runs past the table. -/
theorem Lined.returns (h : Lined s R) {op : QueueOp} (hop : op.isSwitch = true)
    (hcount : ∀ status, op = .call (.requestExitGroup status) → s.threadCount ≤ maxThreads) :
    ∃ s', op.exec P s = .ok s' := by
  cases op with
  | onTimerTick => exact ⟨_, rfl⟩
  | call op =>
    cases op with
    | contextSwitchPair =>
      obtain ⟨r, s₁, hswitch, -⟩ := h.contextSwitchPair
      exact ⟨s₁, Fallible.map_eq_ok.mpr ⟨_, hswitch, rfl⟩⟩
    | yieldCurrentUserThread rsp =>
      obtain ⟨r, s₁, hyield, -⟩ := h.yieldCurrentUserThread rsp
      exact ⟨s₁, Fallible.map_eq_ok.mpr ⟨_, hyield, rfl⟩⟩
    | requestExitGroup status =>
      by_cases hmay : ∃ c, s.mayExit c
      · obtain ⟨c, hc⟩ := hmay
        obtain ⟨record, s₁, hexit, -⟩ := h.requestExitGroup (hcount _ rfl) hc status
        exact ⟨s₁, Fallible.map_eq_ok.mpr ⟨_, hexit, rfl⟩⟩
      · refine ⟨s, Fallible.map_eq_ok.mpr ⟨_, requestExitGroup_of_not fun c _ hc => ?_, rfl⟩⟩
        by_contra hnot
        rw [not_or] at hnot
        exact hmay ⟨c, hc, hnot⟩
    | createUserThread | initialContextPair | blockCurrentThread | unblockThreadWithResult
    | forkCurrentThread | reapChild => cases hop

end Operations

/-! ### No overtaking -/

/-- A run with the threads that were dispatched. -/
structure DispatchLog where
  sched : Scheduler
  dispatched : List Slot

/-- One operation of a run other than `initial_context_pair`. -/
def LogStep (P : Platform) (l : DispatchLog) (op : QueueOp) (l' : DispatchLog) : Prop :=
  op ≠ .call .initialContextPair ∧ FifoStep P l.sched op l'.sched ∧
    l'.dispatched = l.dispatched ++ (dispatches l.sched op).toList

section Overtaking

variable {P : Platform} {s s' : Scheduler} {op : QueueOp} {a b : Slot}

/-- An operation switches, or it dispatches nobody. -/
theorem Acts.switches (h : Acts s op s') :
    (∃ added gone, Switches s added gone (dispatches s op) s') ∨
      dispatches s op = none ∧ (op.isSwitch = true → s' = s) := by
  cases op with
  | onTimerTick => exact .inl ⟨_, _, h⟩
  | call op =>
    cases op with
    | yieldCurrentUserThread rsp =>
      by_cases hmay : s.mayYield
      · exact .inl ⟨_, _, h.1 hmay⟩
      · exact .inr ⟨(h.2 hmay).2, fun _ => (h.2 hmay).1⟩
    | contextSwitchPair =>
      by_cases hmay : s.maySwitch
      · exact .inl ⟨_, _, h.1 hmay⟩
      · exact .inr ⟨(h.2 hmay).2, fun _ => (h.2 hmay).1⟩
    | requestExitGroup status =>
      by_cases hmay : ∃ c, s.mayExit c
      · obtain ⟨c, hc⟩ := hmay
        exact .inl ⟨_, _, (h.1 c hc).1⟩
      · obtain ⟨hsame, hnone⟩ := h.2 fun c hc => hmay ⟨c, hc⟩
        exact .inr ⟨hnone, fun _ => hsame⟩
    | createUserThread | initialContextPair | blockCurrentThread | unblockThreadWithResult
    | forkCurrentThread | reapChild => exact .inr ⟨rfl, nofun⟩

/-- Every operation but `initial_context_pair` is one turn of the lists. -/
theorem Acts.turned (h : Acts s op s') (hin : inRun s op = true)
    (hop : op ≠ .call .initialContextPair) :
    ∃ added gone, Turned s added gone (dispatches s op) s' := by
  rcases h.switches with ⟨added, gone, hswitches⟩ | ⟨hnone, hsame⟩
  · exact ⟨added, gone, hswitches.toTurned⟩
  rw [hnone]
  by_cases hswitch : op.isSwitch = true
  · rw [hsame hswitch]
    exact ⟨none, fun _ => false, ⟨nofun, (Lanes.updated_none ..).symm⟩, nofun, fun _ hx _ => hx⟩
  · cases op with
    | onTimerTick => exact absurd rfl hswitch
    | call op =>
      cases op with
      | createUserThread | blockCurrentThread | unblockThreadWithResult | forkCurrentThread =>
        obtain ⟨-, added, hturned⟩ := h
        exact ⟨added, _, hturned⟩
      | initialContextPair => exact absurd rfl hop
      | reapChild => cases hin
      | yieldCurrentUserThread | contextSwitchPair | requestExitGroup => exact absurd rfl hswitch

/-- A thread that is dispatched runs. -/
theorem Acts.running (h : Acts s op s') (hdispatch : dispatches s op = some a) :
    (s'.threads a).state = .running := by
  rcases h.switches with ⟨added, gone, hswitches⟩ | ⟨hnone, -⟩
  · exact (hswitches.current a hdispatch).2
  · cases hnone.symm.trans hdispatch

/-- The thread `b` has exited, or it waits and `a` does not wait before it. -/
def Due (s : Scheduler) (b a : Slot) : Prop :=
  (s.threads b).state = .exited ∨ s.lanes.Ahead 0 b a

/-- **One turn.** Unless `b` is dispatched, it stays due; if `a` is dispatched, `b` has exited. -/
theorem Due.turned (h : Due s b a) (hne : a ≠ b) {added next : Option Slot} {gone : Slot → Bool}
    (hturned : Turned s added gone next s') :
    (next ≠ some b → Due s' b a) ∧ (next = some a → (s'.threads b).state = .exited) := by
  rcases h with hexited | hahead
  · have hstays (hb : next ≠ some b) := hturned.exited b hexited hb
    refine ⟨fun hb => .inl (hstays hb), ?_⟩
    rintro rfl
    exact hstays fun heq => hne (Option.some.inj heq)
  · cases hgone : gone b with
    | true =>
      obtain ⟨front, back, hsplit, -⟩ := hahead.lane
      have hmem : b ∈ s.lanes 0 := by
        rw [hsplit]
        exact mem_append_right _ mem_cons_self
      have hexited := hturned.left 0 b hmem hgone
      exact ⟨fun _ => .inl hexited, fun _ => hexited⟩
    | false =>
      obtain ⟨ha, hb⟩ := hahead.turn (Fin.zero_le _) hturned.turn hgone
      exact ⟨fun hnext => .inr (hb hnext), fun hnext => absurd hnext ha⟩

/-- A thread that waits while `a` runs is due before `a`. -/
theorem Lined.due (h : Lined s R) (hb : b ∈ s.queue p) (ha : (s.threads a).state = .running) :
    a ≠ b ∧ Due s b a := by
  have hout {p : Priority} : a ∉ s.lanes p := by
    intro hmem
    exact h.not_mem ha nofun nofun (h.mem_lanes hmem)
  have hp : p = 0 := by
    rw [← ((h.queues.mem p b).mp hb).2, h.priorityForThread]
  subst hp
  have hne : a ≠ b := by
    rintro rfl
    exact hout hb
  obtain ⟨front, back, hsplit⟩ := append_of_mem hb
  refine ⟨hne, .inr ⟨hne, ⟨front, back, hsplit, fun hmem => hout (p := 0) ?_⟩, fun p _ => hout⟩⟩
  change a ∈ s.queue 0
  rw [hsplit]
  exact mem_append_left _ hmem

end Overtaking

/-! ### The whole statement -/

/-- The run queues of a state are 64 lists, and the operations act on them. -/
structure FifoQueues (P : Platform) (s : Scheduler) : Prop where
  bitmap : ∀ p : Priority, s.runqueueBitmap.getLsbD p = true ↔ s.queue p ≠ []
  nodup : ∀ p, (s.queue p).Nodup
  own : ∀ p, ∀ x ∈ s.queue p, s.priorityForThread x = p
  acts : ∀ op s', FifoStep P s op s' → Acts s op s'
  returns : ∀ op : QueueOp, op.isSwitch = true →
    (∀ status, op = .call (.requestExitGroup status) → s.threadCount ≤ maxThreads) →
    ∃ s', op.exec P s = .ok s'

/-- A thread that waits when `a` is dispatched has been dispatched or has exited when `a` is
dispatched again. -/
def NoOvertaking (P : Platform) (s : Scheduler) : Prop :=
  ∀ op s₁ a b p, FifoStep P s op s₁ → dispatches s op = some a → b ∈ s₁.queue p →
    ∀ l, Reachable (LogStep P) ⟨s₁, []⟩ l →
      ∀ op' s₂, FifoStep P l.sched op' s₂ → dispatches l.sched op' = some a →
        b ∈ l.dispatched ∨ (s₂.threads b).state = .exited

theorem Lined.fifoQueues {P : Platform} (h : Lined s R) : FifoQueues P s where
  bitmap := h.bitmap
  nodup := h.queues.nodup
  own p x hx := ((h.queues.mem p x).mp hx).2
  acts _ _ hstep := (h.step hstep).2
  returns _ hop hcount := h.returns hop hcount

theorem Lined.noOvertaking {P : Platform} (h : Lined s R) : NoOvertaking P s := by
  intro op s₁ a b p hstep hdispatch hb l hl op' s₂ hstep' hdispatch'
  obtain ⟨⟨R₁, hlined₁⟩, hacts⟩ := h.step hstep
  obtain ⟨hne, hdue⟩ := hlined₁.due hb (hacts.running hdispatch)
  -- Along the run, `b` stays due until it is dispatched.
  obtain ⟨⟨R', hlined⟩, hstays⟩ : (∃ R', Lined l.sched R') ∧
      (b ∈ l.dispatched ∨ Due l.sched b a) := by
    refine hl.invariant (I := fun l : DispatchLog => (∃ R', Lined l.sched R') ∧
      (b ∈ l.dispatched ∨ Due l.sched b a)) ⟨⟨R₁, hlined₁⟩, .inr hdue⟩ ?_
    rintro l op l' ⟨⟨R', hlined⟩, hstays⟩ ⟨hop, hstep, hlog⟩
    obtain ⟨hlined', hacts⟩ := hlined.step hstep
    refine ⟨hlined', ?_⟩
    rw [hlog, mem_append, Option.mem_toList]
    rcases hstays with hmem | hdue
    · exact .inl (.inl hmem)
    · obtain ⟨added, gone, hturned⟩ := hacts.turned hstep.1 hop
      by_cases hnext : dispatches l.sched op = some b
      · exact .inl (.inr hnext)
      · exact .inr ((hdue.turned hne hturned).1 hnext)
  rcases hstays with hmem | hdue
  · exact .inl hmem
  · have hop : op' ≠ .call .initialContextPair := by
      rintro rfl
      cases hdispatch'
    obtain ⟨added, gone, hturned⟩ := (hlined.step hstep').2.turned hstep'.1 hop
    exact .inr ((hdue.turned hne hturned).2 hdispatch')

/-- The state in which `bootstrap()` returns. -/
theorem Booted.lined (h : Booted s) : Lined s s.runnable where
  queues := h.queueInv.queues
  waiting _ hx := .inl hx
  priority := h.basePriority
  slots x hused := by
    rw [h.threadCount]
    by_contra hge
    exact hused (h.free x (not_lt.mp hge)).1
  initialized := h.kernel.initialized

/-- **The run queues are first-in first-out lists.** In every state of every run without
`reap_child`, each operation appends, removes and dispatches as on 64 lists, and no thread overtakes
another one. -/
theorem run_queues_are_fifo (P : Platform) {n : ℕ} (hn : n ≠ 0) {s₀ : Scheduler}
    (hs : bootstrap P n = .ok s₀) {s : Scheduler} (hr : Reachable (FifoStep P) s₀ s) :
    FifoQueues P s ∧ NoOvertaking P s := by
  obtain ⟨R, hlined⟩ : ∃ R, Lined s R :=
    hr.invariant (I := fun s => ∃ R, Lined s R) ⟨_, (booted_of_bootstrap hn hs).lined⟩
      fun _ _ _ hinv hstep => (hinv.choose_spec.step hstep).1
  exact ⟨hlined.fifoQueues, hlined.noOvertaking⟩

/-! ### Runs that are computed -/

theorem exists_of_fifoRun (P : Platform) (n : ℕ) (ops : List QueueOp) [DecidablePred Q]
    (h : ((bootstrap P n).toOption.any fun s => (ops.foldlM (attempt inRun (fun s op => op.exec P s)
      fun _ _ s => s) s).any (Q ·)) = true) :
    ∃ s₀ s, bootstrap P n = .ok s₀ ∧ Reachable (FifoStep P) s₀ s ∧ Q s :=
  exists_of_attempts (fun _ _ _ hin hexec => ⟨hin, hexec⟩) h

/-- Two processes and the idle thread take turns. -/
theorem run_queues_are_fifo_two_processes : ∃ s₀ s, bootstrap examplePlatform 3 = .ok s₀ ∧
    Reachable (FifoStep examplePlatform) s₀ s ∧ s.currentSlot = some 3 ∧ s.queue 0 = [2, 1] ∧
    FifoQueues examplePlatform s ∧ NoOvertaking examplePlatform s := by
  obtain ⟨s₀, s, hs₀, hr, hcurrent, hqueue⟩ := exists_of_fifoRun examplePlatform 3
    [.call (.createUserThread 0x2000), .call (.createUserThread 0x3000), .call .initialContextPair,
      .call (.yieldCurrentUserThread 0), .call .contextSwitchPair]
    (Q := fun s => s.currentSlot = some 3 ∧ s.queue 0 = [2, 1]) (by decide +kernel)
  exact ⟨s₀, s, hs₀, hr, hcurrent, hqueue,
    run_queues_are_fifo examplePlatform (by decide) hs₀ hr⟩

/-- The idle thread, which is the current one, is blocked and unblocked and so is the head of the
list: a switch of kernel contexts then dispatches nobody, although a user thread waits, too. -/
theorem contextSwitchPair_keeps_current_head : ∃ s₀ s, bootstrap examplePlatform 3 = .ok s₀ ∧
    Reachable (FifoStep examplePlatform) s₀ s ∧ s.currentSlot = some 1 ∧ s.queue 0 = [1, 2] ∧
    dispatches s (.call .contextSwitchPair) = none :=
  exists_of_fifoRun examplePlatform 3
    [.call .blockCurrentThread, .call .contextSwitchPair, .call .blockCurrentThread,
      .call (.unblockThreadWithResult 0 2), .call (.createUserThread 0x2000)] (by decide +kernel)

end Hxnu.Sched
