import Hxnu.Lib.Lock

/-!
# The device tree of NeoIO

Hot-plugged devices are added to a table of 64 nodes (`neoio/mod.rs`). Any number of callers, on any
processor or in a handler, run `init` and `inject_dynamic_fdt_node` at once; each access to the
shared memory is a step. Modules read the table through `get_tree_ptr` without the lock.
-/

namespace Hxnu.NeoIo

inductive TopologySource
  | acpi | deviceTreeBlob | hotPlugPcie

/-- The arguments of `inject_dynamic_fdt_node`. -/
structure HotPlug where
  (vendorId deviceId : UInt16)
  (isNpu isGpu : Bool)

structure NeoNode extends HotPlug where
  source : TopologySource
  iommuDomainIsolated : Bool

def HotPlug.node (d : HotPlug) : NeoNode := ⟨d, .hotPlugPcie, true⟩

structure NeoDeviceTree where
  nodes : List (Option NeoNode)
  nodeCount : ℕ

/-- The manager without its lock. `injected` lists the calls that counted their node. -/
structure NeoIoManager where
  isActive : Bool
  tree : NeoDeviceTree
  injected : List HotPlug

/-- Where a caller stands. It is in the loop of `lock_tree` at `init` and `wait`. -/
inductive Place
  | idle | init | activate | unlock
  | check (d : HotPlug)
  | wait (d : HotPlug)
  | compare (d : HotPlug)
  | write (d : HotPlug)
  | count (d : HotPlug)

def Place.holds : Place → Bool
  | .idle | .init | .check _ | .wait _ => false
  | _ => true

/-- What an idle caller calls, or that a weak exchange fails. -/
inductive Choice
  | init
  | inject (d : HotPlug)
  | fail

/-- The steps of `init` and `inject_dynamic_fdt_node`. -/
def step (c : Choice) : Place → NeoIoManager → Place × NeoIoManager
  | .idle, m => (match c with | .init => .init | .inject d => .check d | .fail => .idle, m)
  | .init, m => (match c with | .fail => .init | _ => .activate, m)
  | .activate, m => (.unlock, {m with isActive := true})
  | .check d, m => (if m.isActive then .wait d else .idle, m)
  | .wait d, m => (match c with | .fail => .wait d | _ => .compare d, m)
  | .compare d, m => (if m.tree.nodeCount < m.tree.nodes.length then .write d else .unlock, m)
  | .write d, m =>
    (.count d, {m with tree.nodes := m.tree.nodes.set m.tree.nodeCount (some d.node)})
  | .count d, m => (.unlock,
    {m with tree.nodeCount := m.tree.nodeCount + 1, injected := m.injected ++ [d]})
  | .unlock, m => (.idle, m)

def neoIo : LockCode Choice Place NeoIoManager where
  holds := Place.holds
  step := step
  resource_eq {p a r} hp := by cases p <;> first | rfl | cases hp

/-- `NeoIoManager::new`. -/
def new : Shared ι Place NeoIoManager :=
  ⟨false, ⟨false, ⟨List.replicate 64 none, 0⟩, []⟩, fun _ => .idle⟩

/-- The table has just the nodes of `ds`. -/
def Filled (m : NeoIoManager) (ds : List HotPlug) : Prop :=
  m.tree.nodeCount = m.injected.length ∧ ds.length ≤ 64 ∧
    m.tree.nodes = ds.map (some ·.node) ++ List.replicate (64 - ds.length) none

/-- The table while the lock is held at a place, or is free. -/
def FilledAt : Option Place → NeoIoManager → Prop
  | some (.write _), m => Filled m m.injected ∧ m.injected.length < 64
  | some (.count d), m => Filled m (m.injected ++ [d])
  | _, m => Filled m m.injected

theorem Filled.write (h : Filled m m.injected) (hroom : m.injected.length < 64) (d : HotPlug) :
    Filled {m with tree.nodes := m.tree.nodes.set m.tree.nodeCount (some d.node)}
      (m.injected ++ [d]) := by
  obtain ⟨hcount, _, hnodes⟩ := h
  refine ⟨hcount, by simpa using hroom, ?_⟩
  have hrest : 64 - m.injected.length = 63 - m.injected.length + 1 := by omega
  simp [hnodes, hcount, hrest, List.replicate_succ]

theorem FilledAt.step (c : Choice) (p : Place) (m : NeoIoManager)
    (h : FilledAt (Option.guard (·.holds) p) m) :
    FilledAt (Option.guard (·.holds) (step c p m).1) (step c p m).2 := by
  cases p with
  | compare d =>
    have hfilled : Filled m m.injected := h
    rw [NeoIo.step]
    split_ifs with hroom
    · exact ⟨h, by simpa [hfilled.1, hfilled.2.2, hfilled.2.1] using hroom⟩
    · exact h
  | write d => exact h.1.write h.2 d
  | count d => exact ⟨by simp [NeoIo.step, h.1], h.2⟩
  | check d =>
    rw [NeoIo.step]
    split_ifs <;> exact h
  | _ => cases c <;> exact h

end Hxnu.NeoIo
