import Hxnu.Lib.Run
import Hxnu.Lib.TicketRuns
import Hxnu.Lib.Word

/-!
# The heterogeneous scheduler

The ring of hardware tasks of `kernel/src/hsched.rs`. `submit_workload` and `dispatch_pending` are
modelled as programs of atomic loads, stores and exchanges, each of them one step, in a sequentially
consistent memory; a weak exchange may fail although the value is the expected one. Any number of
threads run the two functions.

Positions are 64-bit words. As long as at most `2 ^ 63 - 16` tasks have been accepted, no position
wraps and the signed differences are exact, so the ring is a ring with tickets (`TicketRing`). After
that, a submitter that has been stopped after its load of the tail takes an old ticket for a full
ring.

The payload of an SXRC workload, which the scheduler drops, is left out.

## Main definitions

* `HardwareTask.encode`, `HardwareTask.decode`, `HeterogeneousScheduler`.
* `step`: the steps of the two functions.
* `ring`: the scheduler as a ring with tickets.
* `Lawful`: the laws of the queue.

## Main results

* `step_ring`: the steps are steps of the ring with tickets.
* `shared_ring_is_lawful`: the laws hold in every run that accepts at most `2 ^ 63 - 16` tasks.
* `full_after_many_tasks`: they do not hold in every run.
-/

namespace Hxnu.Hsched

open Word TicketRing Function List

variable {log : List RingEvent} {n : ℕ}

structure HardwareTask where
  id : UInt32
  target : UInt8
  deriving DecidableEq, Repr

namespace HardwareTask

def encode (task : HardwareTask) : UInt64 :=
  let valid := (1 : UInt64) <<< 63
  let tgt := task.target.toUInt64 <<< 32
  valid ||| tgt ||| task.id.toUInt64

def decode (val : UInt64) : Option HardwareTask :=
  if val &&& ((1 : UInt64) <<< 63) = 0 then none
  else some ⟨(val &&& 0xFFFFFFFF).toUInt32, ((val >>> 32) &&& 0xFF).toUInt8⟩

/-- **A task is what its encoding says.** -/
theorem decode_encode (task : HardwareTask) : decode task.encode = some task := by
  obtain ⟨id, target⟩ := task
  have hvalid : ¬ (encode ⟨id, target⟩ &&& ((1 : UInt64) <<< 63) = 0) := by
    intro hzero
    have hbit := congrArg (fun w => w.toBitVec.getLsbD 63) hzero
    simp [encode] at hbit
  have hid : (encode ⟨id, target⟩ &&& 0xFFFFFFFF).toUInt32 = id := by
    apply UInt32.toBitVec_inj.mp
    ext i hi
    simp only [encode]
    interval_cases i <;> simp
  have htarget : ((encode ⟨id, target⟩ >>> 32) &&& 0xFF).toUInt8 = target := by
    apply UInt8.toBitVec_inj.mp
    ext i hi
    simp only [encode]
    interval_cases i <;> simp
  rw [decode, if_neg hvalid, hid, htarget]

end HardwareTask

inductive WorkloadType
  | cpuAvx512
  | gpuCompute
  | sxrc
  | directTarget (t : UInt8)
  deriving DecidableEq, Repr

/-- The lane of a workload. -/
def WorkloadType.target : WorkloadType → UInt8
  | .cpuAvx512 => 0
  | .gpuCompute => 1
  | .sxrc => 1
  | .directTarget t => t

/-- A word read as a signed number (`as isize`). -/
def asIsize (w : ℕ) : ℤ := if w < 2 ^ 63 then w else (w : ℤ) - 2 ^ 64

/-- The next atomic operation of a thread. -/
inductive Pc
  | idle
  | fetchId (target : UInt8)
  | loadTail (task : HardwareTask)
  | loadSequence (task : HardwareTask) (pos : ℕ)
  | exchangeTail (task : HardwareTask) (pos : ℕ)
  | storeData (task : HardwareTask) (pos : ℕ)
  | storeSequence (task : HardwareTask) (pos : ℕ)
  | loadHead
  | loadTicket (pos : ℕ)
  | exchangeHead (pos : ℕ)
  | loadData (pos : ℕ)
  | storeTicket (pos : ℕ) (val : UInt64)
  deriving DecidableEq, Repr

/-- The scheduler, and the threads that call it. -/
structure HeterogeneousScheduler (ι : Type*) where
  nextId : UInt32
  sequence : ℕ → ℕ
  data : ℕ → UInt64
  head : ℕ
  tail : ℕ
  pc : ι → Pc

def HeterogeneousScheduler.new (ι : Type*) : HeterogeneousScheduler ι where
  nextId := 1
  sequence := id
  data := fun _ => 0
  head := 0
  tail := 0
  pc := fun _ => .idle

variable {ι : Type*} [DecidableEq ι]

def HeterogeneousScheduler.goto (s : HeterogeneousScheduler ι) (i : ι) (pc : Pc) :
    HeterogeneousScheduler ι :=
  { s with pc := update s.pc i pc }

@[simp] theorem HeterogeneousScheduler.goto_pc_self (s : HeterogeneousScheduler ι) (i : ι)
    (pc : Pc) : (s.goto i pc).pc i = pc := update_self ..

/-- What a thread does next: a call, or the next operation of the call it is in. `fails` is whether
a weak exchange fails for no reason. -/
inductive Act
  | submitWorkload (workload : WorkloadType)
  | dispatchPending
  | go (fails : Bool)

abbrev RingEvent : Type := Event HardwareTask UInt64

/-- The operation of a thread, and what can be said about it. -/
def operate (s : HeterogeneousScheduler ι) (i : ι) (fails : Bool) :
    Pc → HeterogeneousScheduler ι × Option RingEvent
  | .idle => (s, none)
  | .fetchId target =>
    let task : HardwareTask := ⟨s.nextId, target⟩
    (({ s with nextId := s.nextId + 1 } : HeterogeneousScheduler ι).goto i (.loadTail task),
      some (.begun task))
  | .loadTail task => (s.goto i (.loadSequence task s.tail), none)
  | .loadSequence task pos =>
    let dif := asIsize (wrapSub (s.sequence (pos % 16)) pos)
    if dif = 0 then (s.goto i (.exchangeTail task pos), none)
    else if dif < 0 then (s.goto i .idle, some (.full pos))
    else (s.goto i (.loadTail task), none)
  | .exchangeTail task pos =>
    if s.tail = pos ∧ fails = false then
      (({ s with tail := wrapAdd pos 1 } : HeterogeneousScheduler ι).goto i (.storeData task pos),
        some (.claimed pos task))
    else (s.goto i (.loadSequence task s.tail), none)
  | .storeData task pos =>
    (({ s with data := update s.data (pos % 16) task.encode } :
      HeterogeneousScheduler ι).goto i (.storeSequence task pos), some (.stored pos))
  | .storeSequence _ pos =>
    (({ s with sequence := update s.sequence (pos % 16) (wrapAdd pos 1) } :
      HeterogeneousScheduler ι).goto i .idle, some (.published pos))
  | .loadHead => (s.goto i (.loadTicket s.head), none)
  | .loadTicket pos =>
    let dif := asIsize (wrapSub (s.sequence (pos % 16)) (wrapAdd pos 1))
    if dif = 0 then (s.goto i (.exchangeHead pos), none)
    else if dif < 0 then (s.goto i .idle, some .returned)
    else (s.goto i .loadHead, none)
  | .exchangeHead pos =>
    if s.head = pos ∧ fails = false then
      (({ s with head := wrapAdd pos 1 } : HeterogeneousScheduler ι).goto i (.loadData pos),
        some (.won pos))
    else (s.goto i (.loadTicket s.head), none)
  | .loadData pos =>
    (s.goto i (.storeTicket pos (s.data (pos % 16))), some (.read pos (s.data (pos % 16))))
  | .storeTicket pos _ =>
    (({ s with sequence := update s.sequence (pos % 16) (wrapAdd pos 16) } :
      HeterogeneousScheduler ι).goto i (.loadTicket (wrapAdd pos 1)), some (.released pos))

/-- A thread that is in no call begins one; one that is in a call goes on with it. -/
def step (s : HeterogeneousScheduler ι) (i : ι) :
    Act → Option (HeterogeneousScheduler ι × Option RingEvent)
  | .submitWorkload workload =>
    if s.pc i = .idle then some (s.goto i (.fetchId workload.target), none) else none
  | .dispatchPending => if s.pc i = .idle then some (s.goto i .loadHead, none) else none
  | .go fails => if s.pc i = .idle then none else some (operate s i fails (s.pc i))

/-- A step of a run: who did what, and what can be said about it. -/
abbrev Label (ι : Type*) : Type _ := ι × Act × Option RingEvent

def Stepped (s : HeterogeneousScheduler ι) (a : Label ι) (t : HeterogeneousScheduler ι) : Prop :=
  step s a.1 a.2.1 = some (t, a.2.2)

/-- The events of a run. -/
def events (run : List (Label ι)) : List RingEvent := run.flatMap fun a => a.2.2.toList

/-- A list of operations, with the steps they are. -/
def perform (s : HeterogeneousScheduler ι) :
    List (ι × Act) → Option (HeterogeneousScheduler ι × List (Label ι))
  | [] => some (s, [])
  | (i, act) :: acts => do
    let (t, e) ← step s i act
    let (u, run) ← perform t acts
    return (u, (i, act, e) :: run)

theorem Run.of_perform {acts : List (ι × Act)} {run : List (Label ι)}
    {s t : HeterogeneousScheduler ι} (h : perform s acts = some (t, run)) :
    Run Stepped s run t := by
  induction acts generalizing s run with
  | nil =>
    cases h
    exact .nil _
  | cons a acts ih =>
    simp only [perform, Option.bind_eq_bind, Option.bind_eq_some_iff, Option.pure_def,
      Option.some.injEq, Prod.mk.injEq] at h
    obtain ⟨⟨t', e⟩, hstep, ⟨u, rest⟩, hrest, rfl, rfl⟩ := h
    exact .cons hstep (ih hrest)

/-! ### The ring with tickets -/

/-- Where a thread is, in a ring with tickets. -/
def Pc.place : Pc → Place HardwareTask
  | .idle => .idle
  | .fetchId _ => .idle
  | .loadTail task => .put task
  | .loadSequence task pos => .check task pos
  | .exchangeTail task pos => .claim task pos
  | .storeData task pos => .store task pos
  | .storeSequence task pos => .publish task pos
  | .loadHead => .take
  | .loadTicket pos => .look pos
  | .exchangeHead pos => .win pos
  | .loadData pos => .read pos
  | .storeTicket pos _ => .release pos

/-- The scheduler as a ring with tickets. -/
def ring (s : HeterogeneousScheduler ι) : State ι HardwareTask UInt64 where
  head := s.head
  tail := s.tail
  sequence := s.sequence
  data := s.data
  threads := fun i => (s.pc i).place

theorem ring_goto (s : HeterogeneousScheduler ι) (i : ι) (pc : Pc) :
    ring (s.goto i pc) = (ring s).goto i pc.place := by
  rw [ring, State.goto]
  congr 1
  funext j
  by_cases hj : j = i
  · subst hj
    simp
  · simp [HeterogeneousScheduler.goto, update_of_ne hj, ring]

/-- The signed difference of two small words is their difference. -/
theorem asIsize_wrapSub (ha : a < 2 ^ 63) (hb : b < 2 ^ 63) :
    asIsize (wrapSub a b) = (a : ℤ) - b := by
  rw [asIsize, wrapSub]
  split_ifs <;> omega

variable {s s' : HeterogeneousScheduler ι} {i : ι} {act : Act} {e : Option RingEvent}
  {phase : ℕ → Phase} {value : ℕ → HardwareTask}

section

variable (h : Inv 16 HardwareTask.encode (ring s) phase value) (hfew : s.tail ≤ 2 ^ 63 - 16)

include h hfew

/-- The operations are steps of the ring with tickets. -/
theorem operate_ring (hpc : s.pc i = pc) (hidle : pc ≠ .idle) (fails : Bool) :
    Step 16 HardwareTask.encode i (ring s) (operate s i fails pc).2
      (ring (operate s i fails pc).1) := by
  have hsound := h.sound i
  have hthread : (ring s).threads i = pc.place := congrArg Pc.place hpc
  rw [hthread] at hsound
  have hhead : s.head ≤ s.tail := h.head_le
  have hsequence (p : ℕ) : s.sequence (p % 16) < 2 ^ 63 :=
    lt_of_lt_of_le (h.sequence_lt (by decide) p) (by change s.tail + 16 ≤ _; omega)
  cases pc with
  | idle => exact absurd rfl hidle
  | fetchId target =>
    rw [operate, ring_goto]
    exact .begins _ hthread
  | loadTail task =>
    rw [operate, ring_goto]
    exact .loadTail hthread
  | loadSequence task pos =>
    have hpos : pos ≤ s.tail := hsound
    have hdif := asIsize_wrapSub (hsequence pos) (by omega : pos < 2 ^ 63)
    rw [operate]
    simp only [hdif]
    split_ifs with hzero hneg
    · rw [ring_goto]
      exact .free hthread (by change s.sequence (pos % 16) = pos; omega)
    · rw [ring_goto]
      exact .full hthread (by change s.sequence (pos % 16) < pos; omega)
    · rw [ring_goto]
      exact .behind hthread (by change pos < s.sequence (pos % 16); omega)
  | exchangeTail task pos =>
    rw [operate]
    split_ifs with hwins
    · rw [ring_goto, wrapAdd_of_lt (by omega)]
      exact .claim hthread hwins.1
    · rw [ring_goto]
      exact .claimFails hthread
  | storeData task pos =>
    rw [operate, ring_goto]
    exact .store hthread
  | storeSequence task pos =>
    have hphase : phase pos = .stored := hsound.1
    have hpos : ¬ s.tail ≤ pos := fun hle => by
      rw [(h.tail pos).mpr hle] at hphase
      cases hphase
    rw [operate, ring_goto, wrapAdd_of_lt (by omega)]
    exact .publish hthread
  | loadHead =>
    rw [operate, ring_goto]
    exact .loadHead hthread
  | loadTicket pos =>
    have hpos : pos ≤ s.head := hsound
    have hdif := asIsize_wrapSub (hsequence pos) (by omega : pos + 1 < 2 ^ 63)
    rw [operate, wrapAdd_of_lt (by omega)]
    simp only [hdif]
    split_ifs with hzero hneg
    · rw [ring_goto]
      exact .ready hthread (by change s.sequence (pos % 16) = pos + 1; omega)
    · rw [ring_goto]
      exact .nothing hthread (by change s.sequence (pos % 16) < pos + 1; omega)
    · rw [ring_goto]
      exact .late hthread (by change pos + 1 < s.sequence (pos % 16); omega)
  | exchangeHead pos =>
    rw [operate]
    split_ifs with hwins
    · rw [ring_goto, wrapAdd_of_lt (by omega)]
      exact .win hthread hwins.1
    · rw [ring_goto]
      exact .winFails hthread
  | loadData pos =>
    rw [operate, ring_goto]
    exact .read hthread
  | storeTicket pos val =>
    have hphase : phase pos = .read := hsound
    have hpos : pos < s.head := (h.head pos).mp (by rw [hphase]; decide)
    rw [operate, ring_goto, wrapAdd_of_lt (by omega), wrapAdd_of_lt (by omega)]
    exact .release hthread

/-- **The steps are steps of the ring with tickets**, or begin a submission. -/
theorem step_ring (hstep : step s i act = some (s', e)) :
    (ring s' = ring s ∧ e = none) ∨ Step 16 HardwareTask.encode i (ring s) e (ring s') := by
  cases act with
  | submitWorkload workload =>
    rw [step, Option.ite_none_right_eq_some, Option.some.injEq, Prod.mk.injEq] at hstep
    obtain ⟨hidle, rfl, rfl⟩ := hstep
    refine .inl ⟨?_, rfl⟩
    rw [ring_goto, State.goto]
    congr 1
    exact update_eq_self_iff.mpr (congrArg Pc.place hidle).symm
  | dispatchPending =>
    rw [step, Option.ite_none_right_eq_some, Option.some.injEq, Prod.mk.injEq] at hstep
    obtain ⟨hidle, rfl, rfl⟩ := hstep
    rw [ring_goto]
    exact .inr (.takes (congrArg Pc.place hidle))
  | go fails =>
    rw [step, Option.ite_none_left_eq_some, Option.some.injEq] at hstep
    obtain ⟨hidle, hoperate⟩ := hstep
    have hring := operate_ring h hfew rfl hidle fails
    rw [hoperate] at hring
    exact .inr hring

end

/-! ### Runs -/

/-- The scheduler is a ring with tickets whose phases tell the events. -/
def Traced (log : List RingEvent) (s : HeterogeneousScheduler ι) : Prop :=
  ∃ phase value, Inv 16 HardwareTask.encode (ring s) phase value ∧
    Logged 16 HardwareTask.encode log (ring s) phase value

/-- The positions that were claimed, with their tasks. -/
def claims (log : List RingEvent) : List (ℕ × HardwareTask) := log.filterMap Event.claimOf

omit [DecidableEq ι] in
theorem Traced.new : Traced [] (HeterogeneousScheduler.new ι) := by
  refine ⟨fun _ => .unclaimed, fun _ => ⟨0, 0⟩, ⟨?_, ?_, ?_, ?_, ?_, ?_, ?_, ?_⟩,
    ⟨rfl, rfl, nofun, ?_, nodup_nil, nofun, nofun, ?_⟩⟩
  · exact fun p => iff_of_true rfl (Nat.zero_le p)
  · exact fun p => iff_of_false (by decide) (Nat.not_lt_zero p)
  · exact fun p hp => absurd rfl hp
  · rintro p ⟨-, hlt | hreleased⟩
    · exact Nat.mod_eq_of_lt hlt
    · cases hreleased
  · rintro p (hp | hp | hp) <;> cases hp
  · exact fun _ => trivial
  · exact fun _ _ _ => False.elim
  · rintro p (hp | hp | hp | hp) <;> cases hp
  · exact fun p hp => absurd hp (by decide)
  · intro l₁ l₂ p heq
    simp at heq

omit [DecidableEq ι] in
theorem Traced.tail_eq (h : Traced log s) : s.tail = (claims log).length := by
  obtain ⟨phase, value, -, hlogged⟩ := h
  rw [claims, hlogged.claims, length_map, length_range]
  rfl

theorem Traced.step (h : Traced log s)
    (hfew : (claims log).length ≤ 2 ^ 63 - 16) (hstep : step s i act = some (s', e)) :
    Traced (log ++ e.toList) s' := by
  rw [← h.tail_eq] at hfew
  obtain ⟨phase, value, hinv, hlogged⟩ := h
  rcases step_ring hinv hfew hstep with ⟨hring, rfl⟩ | hring
  · refine ⟨phase, value, ?_⟩
    rw [hring, Option.toList, append_nil]
    exact ⟨hinv, hlogged⟩
  · obtain ⟨phase', value', hinv', hadv⟩ := hinv.step (by decide) hring
    exact ⟨phase', value', hinv', hlogged.step hadv⟩

/-- **Every run is a run of the ring with tickets.** -/
theorem Traced.run {run : List (Label ι)} (hrun : Run Stepped s run s')
    (h : Traced log s) (hfew : (claims (log ++ events run)).length ≤ 2 ^ 63 - 16) :
    Traced (log ++ events run) s' := by
  induction hrun generalizing log with
  | nil s =>
    rw [events, flatMap_nil, append_nil]
    exact h
  | @cons s t u a as hstep _ ih =>
    rw [events, flatMap_cons, ← append_assoc] at hfew ⊢
    have hearlier : (claims log).length ≤
        (claims (log ++ a.2.2.toList ++ as.flatMap fun a => a.2.2.toList)).length := by
      rw [claims, claims, append_assoc, filterMap_append, length_append]
      exact Nat.le_add_right _ _
    exact ih (h.step (hearlier.trans hfew) hstep) hfew

/-! ### The laws -/

/-- A submitter is between its exchange and its publication. -/
def Pc.Midway : Pc → Prop
  | .storeData _ _ => True
  | .storeSequence _ _ => True
  | _ => False

/-- The next operation of a thread, with the events so far. -/
def goAlone (i : ι) (sl : HeterogeneousScheduler ι × List RingEvent) (fail : Bool) :
    Option (HeterogeneousScheduler ι × List RingEvent) := do
  let (s, e) ← step sl.1 i (.go fail)
  return (s, sl.2 ++ e.toList)

/-- A call of `dispatch_pending` by a thread that runs alone; `fails` says which of its operations
fail if they are weak exchanges. -/
def dispatchAlone (s : HeterogeneousScheduler ι) (i : ι) (fails : List Bool) :
    Option (HeterogeneousScheduler ι × List RingEvent) := do
  let (s, e) ← step s i .dispatchPending
  fails.foldlM (goAlone i) (s, e.toList)

/-- The laws of the queue. -/
structure Lawful (log : List RingEvent) (s : HeterogeneousScheduler ι) : Prop where
  /-- Submitters win the positions in their order. -/
  claimed : (claims log).map Prod.fst = List.range s.tail
  /-- Dispatchers win the positions in their order, each once. -/
  won : log.filterMap Event.winOf = List.range s.head
  /-- What a dispatcher reads is the encoding of the task of its position. -/
  read : ∀ pos val, .read pos val ∈ log → .won pos ∈ log ∧
    ∃ task, .claimed pos task ∈ log ∧ val = task.encode ∧ HardwareTask.decode val = some task
  /-- No position is read twice. -/
  once : (log.filterMap Event.readOf).Nodup
  /-- A task stays in its slot until it is read. -/
  kept : ∀ pos task, .claimed pos task ∈ log → .stored pos ∈ log →
    pos ∉ log.filterMap Event.readOf → s.data (pos % 16) = task.encode
  bounds : s.head ≤ s.tail ∧ s.tail ≤ s.head + 16
  /-- The ring is full for a submitter only if the position before has not been released. -/
  full : ∀ l₁ l₂ pos, log = l₁ ++ .full pos :: l₂ → 16 ≤ pos ∧ .released (pos - 16) ∉ l₁
  /-- A dispatcher that runs alone has consumed every task when it returns. -/
  alone : ∀ i, s.pc i = .idle → (∀ j, ¬ (s.pc j).Midway) →
    (∀ fails s' l, dispatchAlone s i fails = some (s', l) → s'.pc i = .idle →
      (log ++ l).filterMap Event.winOf = (claims (log ++ l)).map Prod.fst) ∧
    ∃ n s' l, dispatchAlone s i (List.replicate n false) = some (s', l) ∧ s'.pc i = .idle

/-- A dispatcher that runs alone is at the head of the ring, or has returned with the ring empty. -/
structure Alone (log : List RingEvent) (i : ι)
    (sl : HeterogeneousScheduler ι × List RingEvent) : Prop where
  traced : Traced (log ++ sl.2) sl.1
  few : sl.1.tail ≤ 2 ^ 63 - 16
  settled : (ring sl.1).Settled
  place : (sl.1.pc i).place.Drains sl.1.head ∨
    sl.1.pc i = .idle ∧ sl.1.head = sl.1.tail

theorem goAlone_of_ne (fail : Bool) (h : sl.1.pc i ≠ .idle) :
    goAlone i sl fail = some ((operate sl.1 i fail (sl.1.pc i)).1,
      sl.2 ++ (operate sl.1 i fail (sl.1.pc i)).2.toList) := by
  rw [goAlone, step, if_neg h]
  rfl

/-- A dispatcher that is in no call any more has returned. -/
theorem idle_of_place (hdrains : pc.place.Drains n)
    (hplace : ((operate s i fail pc).1.pc i).place = .idle) :
    (operate s i fail pc).1.pc i = .idle := by
  cases pc with
  | loadTicket pos =>
    rw [operate] at hplace ⊢
    split_ifs at hplace ⊢ <;> simp [Pc.place] at hplace ⊢
  | exchangeHead pos =>
    rw [operate] at hplace
    split_ifs at hplace <;> simp [Pc.place] at hplace
  | loadHead | loadData _ | storeTicket _ _ => simp [operate, Pc.place] at hplace
  | _ => exact hdrains.elim

section Dispatching

variable {log : List RingEvent} {sl sl' : HeterogeneousScheduler ι × List RingEvent}

omit [DecidableEq ι] in
theorem Alone.ne_idle (h : Alone log i sl)
    (hempty : ¬ (sl.1.pc i = .idle ∧ sl.1.head = sl.1.tail)) :
    (sl.1.pc i).place.Drains sl.1.head ∧ sl.1.pc i ≠ .idle := by
  have hdrains := h.place.resolve_right hempty
  refine ⟨hdrains, fun hidle => ?_⟩
  rw [hidle] at hdrains
  exact hdrains

/-- An operation of a dispatcher that runs alone. -/
theorem Alone.operate (h : Alone log i sl) (hidle : sl.1.pc i ≠ .idle) (fail : Bool) :
    Alone log i ((operate sl.1 i fail (sl.1.pc i)).1,
        sl.2 ++ (operate sl.1 i fail (sl.1.pc i)).2.toList) ∧
      ((operate sl.1 i false (sl.1.pc i)).1.pc i = .idle ∨
        (ring (operate sl.1 i false (sl.1.pc i)).1).work i < (ring sl.1).work i) := by
  obtain ⟨hdrains, -⟩ := h.ne_idle fun hboth => hidle hboth.1
  obtain ⟨phase, value, hinv, hlogged⟩ := h.traced
  have hring (fail : Bool) := operate_ring hinv h.few rfl hidle fail
  refine ⟨?_, ?_⟩
  · obtain ⟨hsettled, htail, hplace⟩ := hinv.drains_step h.settled hdrains (hring fail)
    obtain ⟨phase', value', hinv', hadv⟩ := hinv.step (by decide) (hring fail)
    have hlogged' := hlogged.step hadv
    rw [append_assoc] at hlogged'
    refine ⟨⟨phase', value', hinv', hlogged'⟩, htail.trans_le h.few, hsettled, hplace.imp_right ?_⟩
    rintro ⟨hplace, hempty⟩
    exact ⟨idle_of_place hdrains hplace, hempty⟩
  · have hprompt (pos : ℕ) (hpos : (ring sl.1).threads i = .win pos) :
        (Hsched.operate sl.1 i false (sl.1.pc i)).2 ≠ none := by
      have hplace : (sl.1.pc i).place = .win pos := hpos
      cases hpc : sl.1.pc i with
      | exchangeHead pos' =>
        rw [hpc] at hdrains
        rw [Hsched.operate, if_pos ⟨(show pos' = _ from hdrains).symm, rfl⟩]
        nofun
      | _ =>
        rw [hpc] at hplace
        cases hplace
    rcases hinv.work_lt (by decide) hdrains (hring false) hprompt with hplace | hlt
    · exact .inl (idle_of_place hdrains hplace)
    · exact .inr hlt

/-- A dispatcher that runs alone stays at the head, whichever of its exchanges fail. -/
theorem Alone.foldlM (h : Alone log i sl) {fails : List Bool}
    (hgo : fails.foldlM (goAlone i) sl = some sl') : Alone log i sl' := by
  induction fails generalizing sl with
  | nil =>
    cases hgo
    exact h
  | cons fail fails ih =>
    rw [foldlM_cons, Option.bind_eq_bind, Option.bind_eq_some_iff] at hgo
    obtain ⟨sl₁, hfirst, hrest⟩ := hgo
    by_cases hidle : sl.1.pc i = .idle
    · rw [goAlone, step, if_pos hidle] at hfirst
      cases hfirst
    · rw [goAlone_of_ne fail hidle, Option.some.injEq] at hfirst
      subst hfirst
      exact ih (h.operate hidle fail).1 hrest

/-- **A dispatcher that runs alone returns** if none of its exchanges fail for no reason. -/
theorem Alone.returns (h : Alone log i sl) :
    ∃ n sl', (List.replicate n false).foldlM (goAlone i) sl = some sl' ∧ sl'.1.pc i = .idle := by
  induction hwork : (ring sl.1).work i using Nat.strong_induction_on generalizing sl with
  | _ work ih =>
    by_cases hidle : sl.1.pc i = .idle
    · exact ⟨0, sl, rfl, hidle⟩
    · obtain ⟨h', hnext⟩ := h.operate hidle false
      have hgo := goAlone_of_ne false hidle
      rcases hnext with hdone | hlt
      · refine ⟨1, ((Hsched.operate sl.1 i false (sl.1.pc i)).1,
          sl.2 ++ (Hsched.operate sl.1 i false (sl.1.pc i)).2.toList), ?_, hdone⟩
        rw [replicate_one, foldlM_cons, hgo]
        rfl
      · obtain ⟨n, sl', hn, hdone⟩ := ih _ (hwork ▸ hlt) h' rfl
        refine ⟨n + 1, sl', ?_, hdone⟩
        rw [replicate_succ, foldlM_cons, hgo]
        exact hn

/-- The call of a dispatcher that runs alone. -/
theorem Alone.start (h : Traced log s) (hfew : (claims log).length ≤ 2 ^ 63 - 16)
    (hidle : s.pc i = .idle) (hsettled : ∀ j, ¬ (s.pc j).Midway) :
    step s i .dispatchPending = some (s.goto i .loadHead, none) ∧
      Alone log i (s.goto i .loadHead, []) := by
  have hstep : step s i .dispatchPending = some (s.goto i .loadHead, none) := if_pos hidle
  have htraced := h.step hfew hstep
  refine ⟨hstep, ⟨htraced, h.tail_eq.trans_le hfew, ?_, .inl ?_⟩⟩
  · rw [ring_goto]
    refine State.Settled.goto (fun j => ?_) id
    have hj := hsettled j
    intro hmidway
    refine hj ?_
    change (s.pc j).place.Midway at hmidway
    cases hpc : s.pc j <;> rw [hpc] at hmidway <;> trivial
  · rw [HeterogeneousScheduler.goto_pc_self]
    trivial

end Dispatching

/-- The laws, from the phases. -/
theorem Traced.lawful (h : Traced log s)
    (hfew : (claims log).length ≤ 2 ^ 63 - 16) : Lawful log s := by
  have htraced := h
  obtain ⟨phase, value, hinv, hlogged⟩ := h
  have hclaimed (pos : ℕ) (task : HardwareTask) :
      .claimed pos task ∈ log ↔ pos < s.tail ∧ value pos = task := by
    rw [← Event.mem_claims, hlogged.claims]
    simp only [mem_map, mem_range, Prod.mk.injEq]
    constructor
    · rintro ⟨p, hp, rfl, hvalue⟩
      exact ⟨hp, hvalue⟩
    · exact fun ⟨hp, hvalue⟩ => ⟨pos, hp, rfl, hvalue⟩
  have htail (pos : ℕ) (hrank : 1 ≤ (phase pos).rank) : pos < s.tail := by
    by_contra hle
    rw [(hinv.tail pos).mpr (not_lt.mp hle)] at hrank
    exact absurd hrank (by decide)
  refine ⟨?_, hlogged.wins, ?_, hlogged.once, ?_, ⟨hinv.head_le, hinv.tail_le⟩, hlogged.full, ?_⟩
  · rw [claims, hlogged.claims, map_map]
    exact map_id _
  · intro pos val hread
    obtain ⟨hrank, rfl⟩ := hlogged.read_of_mem pos val hread
    refine ⟨?_, value pos, (hclaimed pos _).mpr ⟨htail pos (by omega), rfl⟩, rfl,
      HardwareTask.decode_encode _⟩
    rw [← Event.mem_wins, hlogged.wins, mem_range]
    exact (hinv.head pos).mp (by omega)
  · intro pos task hclaim hstored hunread
    obtain ⟨-, rfl⟩ := (hclaimed pos task).mp hclaim
    have hge := hlogged.stored pos hstored
    have hlt : ¬ 5 ≤ (phase pos).rank := fun hle =>
      hunread (Event.mem_reads.mpr ⟨_, hlogged.mem_of_read pos hle⟩)
    refine hinv.data pos ?_
    cases hphase : phase pos <;> rw [hphase] at hge hlt <;>
      simp [Phase.rank, Phase.Filled] at hge hlt ⊢
  · intro i hidle hsettled
    obtain ⟨hstep, halone⟩ := Alone.start htraced hfew hidle hsettled
    refine ⟨fun fails s' l hdispatch hreturned => ?_, ?_⟩
    · rw [dispatchAlone, hstep] at hdispatch
      have halone' := halone.foldlM hdispatch
      obtain ⟨phase', value', hinv', hlogged'⟩ := halone'.traced
      have hempty : s'.head = s'.tail := by
        refine (halone'.place.resolve_left fun hdrains => ?_).2
        rw [hreturned] at hdrains
        exact hdrains
      rw [claims, hlogged'.claims, hlogged'.wins, map_map]
      change List.range s'.head = (List.range s'.tail).map id
      rw [map_id, hempty]
    · obtain ⟨n, sl', hn, hreturned⟩ := halone.returns
      refine ⟨n, sl'.1, sl'.2, ?_, hreturned⟩
      rw [dispatchAlone, hstep]
      exact hn

/-- **The laws of the queue.** They hold in every run of any threads that accepts at most
`2 ^ 63 - 16` tasks. -/
theorem shared_ring_is_lawful {run : List (Label ι)}
    (hrun : Run Stepped (HeterogeneousScheduler.new ι) run s)
    (hfew : (claims (events run)).length ≤ 2 ^ 63 - 16) : Lawful (events run) s :=
  (Traced.run hrun .new hfew).lawful hfew

theorem shared_ring_is_lawful_two_threads :
    ∃ run s, Run Stepped (HeterogeneousScheduler.new Bool) run s ∧
      (claims (events run)).length = 1 ∧ Lawful (events run) s := by
  have hperform : (perform (HeterogeneousScheduler.new Bool)
      ((false, .submitWorkload .gpuCompute) :: List.replicate 4 (false, .go false) ++
        (true, .dispatchPending) :: List.replicate 2 (true, .go false) ++
        List.replicate 2 (false, .go false) ++ (true, .dispatchPending) ::
        List.replicate 3 (true, .go false))).any
      (fun r => (claims (events r.2)).length = 1) = true := by
    decide +kernel
  obtain ⟨⟨s, run⟩, hr, hclaims⟩ := (Option.any_eq_true _ _).mp hperform
  have hone := of_decide_eq_true hclaims
  exact ⟨run, s, Run.of_perform hr, hone,
    shared_ring_is_lawful (Run.of_perform hr) (by rw [hone]; decide)⟩

/-! ### Too many tasks -/

section Rounds

/-- A submission by a thread that runs alone. -/
theorem perform_submit (hidle : s.pc i = .idle) (hfree : s.sequence (s.tail % 16) = s.tail)
    (hword : s.tail < 2 ^ 64 - 16) (workload : WorkloadType) :
    perform s ((i, .submitWorkload workload) :: List.replicate 6 (i, .go false)) =
      some ({ s with
        nextId := s.nextId + 1
        tail := s.tail + 1
        data := update s.data (s.tail % 16)
          (HardwareTask.encode ⟨s.nextId, workload.target⟩)
        sequence := update s.sequence (s.tail % 16) (s.tail + 1) },
        [(i, .submitWorkload workload, none),
          (i, .go false, some (.begun ⟨s.nextId, workload.target⟩)), (i, .go false, none),
          (i, .go false, none),
          (i, .go false, some (.claimed s.tail ⟨s.nextId, workload.target⟩)),
          (i, .go false, some (.stored s.tail)), (i, .go false, some (.published s.tail))]) := by
  have hzero : asIsize (wrapSub s.tail s.tail) = 0 := by
    rw [asIsize, wrapSub]
    split_ifs <;> omega
  have hnext : wrapAdd s.tail 1 = s.tail + 1 := wrapAdd_of_lt (by omega)
  simp [perform, step, operate, hidle, HeterogeneousScheduler.goto, hfree, hzero, hnext,
    List.replicate]

/-- A submission up to its load of the tail. -/
theorem perform_loadTail (hidle : s.pc i = .idle) (workload : WorkloadType) :
    perform s [(i, .submitWorkload workload), (i, .go false), (i, .go false)] =
      some (({ s with nextId := s.nextId + 1 } : HeterogeneousScheduler ι).goto i
          (.loadSequence ⟨s.nextId, workload.target⟩ s.tail),
        [(i, .submitWorkload workload, none),
          (i, .go false, some (.begun ⟨s.nextId, workload.target⟩)), (i, .go false, none)]) := by
  simp [perform, step, operate, hidle, HeterogeneousScheduler.goto]

/-- A dispatch by a thread that runs alone, with one task in the ring. -/
theorem perform_dispatch (hidle : s.pc i = .idle) (hword : s.head < 2 ^ 64 - 16)
    (hready : s.sequence (s.head % 16) = s.head + 1)
    (hnone : s.sequence ((s.head + 1) % 16) = s.head + 1) :
    perform s ((i, .dispatchPending) :: List.replicate 6 (i, .go false)) =
      some ({ s with
        head := s.head + 1
        sequence := update s.sequence (s.head % 16) (s.head + 16) },
        [(i, .dispatchPending, none), (i, .go false, none), (i, .go false, none),
          (i, .go false, some (.won s.head)),
          (i, .go false, some (.read s.head (s.data (s.head % 16)))),
          (i, .go false, some (.released s.head)), (i, .go false, some .returned)]) := by
  have hzero : asIsize (wrapSub (s.head + 1) (s.head + 1)) = 0 := by
    rw [asIsize, wrapSub]
    split_ifs <;> omega
  have hminus : asIsize (wrapSub (s.head + 1) (s.head + 2)) = -1 := by
    rw [asIsize, wrapSub]
    split_ifs <;> omega
  have hnext : wrapAdd s.head 1 = s.head + 1 := wrapAdd_of_lt (by omega)
  have hnext' : wrapAdd (s.head + 1) 1 = s.head + 2 := wrapAdd_of_lt (by omega)
  have hlap : wrapAdd s.head 16 = s.head + 16 := wrapAdd_of_lt (by omega)
  have hslot : (s.head + 1) % 16 ≠ s.head % 16 := by omega
  simp [perform, step, operate, hidle, HeterogeneousScheduler.goto, hready, hnone, hzero, hminus,
    hnext, hnext', hlap, hslot, List.replicate]

/-- The ring is empty, and every slot waits for its next position from `n` on. -/
structure Empty (n : ℕ) (s : HeterogeneousScheduler ι) : Prop where
  head : s.head = n
  tail : s.tail = n
  sequence : ∀ j < 16, s.sequence j = n + (j + 16 - n % 16) % 16

omit [DecidableEq ι] in
theorem Empty.new : Empty 0 (HeterogeneousScheduler.new ι) := by
  refine ⟨rfl, rfl, fun j hj => ?_⟩
  change j = _
  omega

/-- A thread that runs alone submits a task and takes it from the ring. -/
theorem Empty.round (h : Empty n s) (hidle : s.pc i = .idle) (hn : n < 2 ^ 64 - 16) :
    ∃ run t, Run Stepped s run t ∧ Empty (n + 1) t ∧ t.pc = s.pc ∧ .released n ∈ events run := by
  obtain ⟨rfl, htail, hsequence⟩ := h
  have hslot := hsequence (s.head % 16) (by omega)
  have hslot' := hsequence ((s.head + 1) % 16) (by omega)
  have hsubmit := perform_submit hidle (by rw [htail]; omega) (by omega) .gpuCompute
  refine ⟨_, _, (Run.of_perform hsubmit).append (Run.of_perform (perform_dispatch hidle hn ?_ ?_)),
    ⟨rfl, congrArg (· + 1) htail, fun j hj => ?_⟩, rfl, ?_⟩
  · simp only [htail, update_self]
  · simp only [htail]
    rw [update_of_ne (by omega), hslot']
    omega
  · simp only [htail]
    by_cases hj' : j = s.head % 16
    · rw [hj', update_self]
      omega
    · rw [update_of_ne hj', update_of_ne hj', hsequence j hj]
      omega
  · simp [events]

/-- A thread that runs alone submits and takes any number of tasks. -/
theorem Empty.rounds (h : Empty n s) (hidle : s.pc i = .idle) (k : ℕ) (hk : n + k ≤ 2 ^ 64 - 16) :
    ∃ run t, Run Stepped s run t ∧ Empty (n + k) t ∧ t.pc = s.pc ∧
      ∀ p, n ≤ p → p < n + k → .released p ∈ events run := by
  induction k with
  | zero => exact ⟨[], s, .nil s, h, rfl, fun p hge hlt => absurd hge (by omega)⟩
  | succ k ih =>
    obtain ⟨run, t, hrun, hempty, hpc, hreleased⟩ := ih (by omega)
    obtain ⟨run', u, hrun', hempty', hpc', hreleased'⟩ :=
      hempty.round (i := i) (by rw [hpc, hidle]) (by omega)
    refine ⟨run ++ run', u, hrun.append hrun', hempty', hpc'.trans hpc, fun p hge hlt => ?_⟩
    rw [events, flatMap_append, mem_append]
    rcases Nat.lt_or_ge p (n + k) with hold | hnew
    · exact .inl (hreleased p hge hold)
    · obtain rfl : p = n + k := by omega
      exact .inr hreleased'

end Rounds

/-- **An old ticket is taken for a full ring.** A submitter stops after its load of the tail, at
position `16`. When more than `2 ^ 63` tasks have been accepted and consumed it goes on: the ring is
empty and position `0` has long been released, but the submitter is told that the ring is full. -/
theorem full_after_many_tasks :
    ∃ run s l, Run Stepped (HeterogeneousScheduler.new Bool) run s ∧ s.head = s.tail ∧
      events run = l ++ [.full 16] ∧ .released 0 ∈ l ∧ ¬ Lawful (events run) s := by
  obtain ⟨run₁, s₁, hrun₁, hempty₁, hpc₁, hreleased⟩ :=
    Empty.rounds (ι := Bool) (i := false) .new rfl 16 (by decide)
  -- The submitter loads the tail and stops.
  obtain ⟨run₂, s₂, task, hrun₂, hempty₂, hidle₂, hstopped⟩ : ∃ run₂ s₂ task,
      Run Stepped s₁ run₂ s₂ ∧ Empty 16 s₂ ∧ s₂.pc false = .idle ∧
        s₂.pc true = .loadSequence task 16 := by
    have hidle (b : Bool) : s₁.pc b = .idle := congrFun hpc₁ b
    refine ⟨_, _, ⟨s₁.nextId, 1⟩, Run.of_perform (perform_loadTail (hidle true) .gpuCompute),
      ⟨hempty₁.head, hempty₁.tail, hempty₁.sequence⟩, hidle false, ?_⟩
    rw [HeterogeneousScheduler.goto_pc_self, hempty₁.tail]
    rfl
  obtain ⟨run₃, s₃, hrun₃, hempty₃, hpc₃, -⟩ := hempty₂.rounds hidle₂ (2 ^ 63 - 15) (by decide)
  -- Its slot has been used for later positions since.
  have hgo : Stepped s₃ (true, .go false, some (.full 16)) (s₃.goto true .idle) := by
    have hpc : s₃.pc true = .loadSequence task 16 := (congrFun hpc₃ true).trans hstopped
    have hticket : s₃.sequence 0 = 2 ^ 63 + 16 := hempty₃.sequence 0 (by decide)
    rw [Stepped, step, hpc, if_neg nofun, operate]
    simp only [Nat.mod_self, hticket]
    rw [if_neg (by decide), if_pos (by decide)]
  have hrun := ((hrun₁.append hrun₂).append hrun₃).append (.single hgo)
  have hevents : events (run₁ ++ run₂ ++ run₃ ++ [(true, .go false, some (.full 16))]) =
      events (run₁ ++ run₂ ++ run₃) ++ [.full 16] := by
    rw [events, flatMap_append]
    rfl
  have hmem : .released 0 ∈ events (run₁ ++ run₂ ++ run₃) := by
    rw [events, append_assoc, flatMap_append]
    exact mem_append_left _ (hreleased 0 le_rfl (by decide))
  refine ⟨_, _, _, hrun, hempty₃.head.trans hempty₃.tail.symm, hevents, hmem, fun hlawful => ?_⟩
  exact (hlawful.full _ [] 16 hevents).2 hmem

end Hxnu.Hsched
