import Hxnu.Mm.Compress.Store

/-!
# The pager

`PagerState` of `kernel/src/mm/pager.rs`: `reclaim_page` stores a page in the compressed store and
`restore_page` loads it back, with counters. The three statics of the runtime, the store and the
pager form one `PagerWorld`.

## Main definitions

* `PagerState`, `PagerWorld.reclaimPage`, `PagerWorld.restorePage`.
* `PagerWorld.booted`: the state after the three `initialize` calls.
-/

namespace Hxnu.Mm

open Word Compress

inductive PagerInitError
  | alreadyInitialized
  | compressionStoreUnavailable
  deriving DecidableEq, Repr

inductive PagerError
  | notInitialized
  | store (e : StoreError)
  | verifyFailed
  deriving DecidableEq, Repr

structure PagerEntry where
  pageId : UInt64
  pageClass : CompressionClass
  encodedBytes : ℕ

/-- The counters of `reclaim_page` and `restore_page`. -/
structure PagerStats where
  reclaimRequests : ℕ := 0
  reclaimSuccesses : ℕ := 0
  reclaimFailures : ℕ := 0
  restoreRequests : ℕ := 0
  restoreSuccesses : ℕ := 0
  restoreFailures : ℕ := 0
  restoreMisses : ℕ := 0
  reclaimedZeroPages : ℕ := 0
  reclaimedSamePages : ℕ := 0
  reclaimedSxrcPages : ℕ := 0
  reclaimedRawPages : ℕ := 0
  restoredZeroPages : ℕ := 0
  restoredSamePages : ℕ := 0
  restoredSxrcPages : ℕ := 0
  restoredRawPages : ℕ := 0

namespace PagerStats

def accountReclaimedClass (stats : PagerStats) : CompressionClass → PagerStats
  | .zero => { stats with reclaimedZeroPages := satAdd stats.reclaimedZeroPages 1 }
  | .same => { stats with reclaimedSamePages := satAdd stats.reclaimedSamePages 1 }
  | .sxrc => { stats with reclaimedSxrcPages := satAdd stats.reclaimedSxrcPages 1 }
  | .raw => { stats with reclaimedRawPages := satAdd stats.reclaimedRawPages 1 }

def accountRestoredClass (stats : PagerStats) : CompressionClass → PagerStats
  | .zero => { stats with restoredZeroPages := satAdd stats.restoredZeroPages 1 }
  | .same => { stats with restoredSamePages := satAdd stats.restoredSamePages 1 }
  | .sxrc => { stats with restoredSxrcPages := satAdd stats.restoredSxrcPages 1 }
  | .raw => { stats with restoredRawPages := satAdd stats.restoredRawPages 1 }

end PagerStats

structure PagerState where
  initialized : Bool
  stats : PagerStats

def PagerState.new : PagerState := ⟨false, {}⟩

def PagerState.initializePager (pager : PagerState) (store : StoreState) :
    Except PagerInitError Unit × PagerState :=
  if pager.initialized then (.error .alreadyInitialized, pager)
  else if store.initialized = false then (.error .compressionStoreUnavailable, pager)
  else (.ok (), { pager with initialized := true })

/-- The statics behind the pager. -/
structure PagerWorld where
  runtime : CompressionRuntime
  store : StoreState
  pager : PagerState

namespace PagerWorld

/-- The state after `compress::initialize`, `store::initialize` and `pager::initialize`. -/
def booted : PagerWorld :=
  let runtime := CompressionRuntime.new.initializeRuntime.2
  let store := (StoreState.new.initializeStore runtime).2
  ⟨runtime, store, (PagerState.new.initializePager store).2⟩

variable (profile : Profile)

def reclaimPage (w : PagerWorld) (pageId : UInt64) (page : Page) :
    Except PagerError PagerEntry × PagerWorld :=
  if w.pager.initialized = false then (.error .notInitialized, w)
  else
    let stats := { w.pager.stats with
      reclaimRequests := satAdd w.pager.stats.reclaimRequests 1 }
    match w.store.storePage profile w.runtime pageId page with
    | (.ok entry, store, runtime) =>
      let stats := { stats with reclaimSuccesses := satAdd stats.reclaimSuccesses 1 }
      (.ok ⟨entry.pageId, entry.pageClass, entry.encodedBytes⟩,
        ⟨runtime, store, { w.pager with
          stats := stats.accountReclaimedClass entry.pageClass }⟩)
    | (.error e, store, runtime) =>
      (.error (.store e), ⟨runtime, store, { w.pager with
        stats := { stats with reclaimFailures := satAdd stats.reclaimFailures 1 } }⟩)

/-- `restore_page`: the result, the output page and the state. -/
def restorePage (w : PagerWorld) (pageId : UInt64) (out : List UInt8) :
    Except PagerError PagerEntry × List UInt8 × PagerWorld :=
  if w.pager.initialized = false then (.error .notInitialized, out, w)
  else
    let stats := { w.pager.stats with
      restoreRequests := satAdd w.pager.stats.restoreRequests 1 }
    match w.store.loadPage profile w.runtime pageId out with
    | (.ok entry, out, store, runtime) =>
      let stats := { stats with restoreSuccesses := satAdd stats.restoreSuccesses 1 }
      (.ok ⟨entry.pageId, entry.pageClass, entry.encodedBytes⟩, out,
        ⟨runtime, store, { w.pager with
          stats := stats.accountRestoredClass entry.pageClass }⟩)
    | (.error e, out, store, runtime) =>
      let stats := { stats with restoreFailures := satAdd stats.restoreFailures 1 }
      let stats := if e = .notFound then
        { stats with restoreMisses := satAdd stats.restoreMisses 1 } else stats
      (.error (.store e), out, ⟨runtime, store, { w.pager with stats := stats }⟩)

end PagerWorld

end Hxnu.Mm
