import Hxnu.Lib.Ring
import Hxnu.Lib.Word
import Hxnu.Mm.Compress.Codec

/-!
# The compression runtime and the compressed page store

`CompressionRuntime` of `kernel/src/mm/compress/mod.rs`, a switch and counters around the codec, and
`StoreState` of `store.rs`, an array of 64 slots of encoded pages. `store_page` overwrites the slot
of the same page id, else takes the first empty slot, else the slot at the rotating index
`next_evict`.

The `static mut` runtime that `store_page` and `load_page` reach is passed as an argument and
returned. The summaries of the `initialize` functions are constants and are left out.

## Main definitions

* `CompressionRuntime`, `CompressionRuntime.encodePage`, `CompressionRuntime.decodePage`.
* `StoreSlot`, `StoreState`, `StoreState.storePage`, `StoreState.loadPage`.
-/

namespace Hxnu.Mm.Compress

open Word Buffer

variable {st : StoreState} {pageId : UInt64}

/-! ### Runtime -/

structure CompressionStats where
  encodedPages : ℕ := 0
  decodedPages : ℕ := 0
  zeroPages : ℕ := 0
  samePages : ℕ := 0
  sxrcPages : ℕ := 0
  rawPages : ℕ := 0
  fallbackRawPages : ℕ := 0
  encodeFailures : ℕ := 0
  decodeFailures : ℕ := 0

def CompressionStats.accountEncodedClass (stats : CompressionStats) :
    CompressionClass → CompressionStats
  | .zero => { stats with zeroPages := satAdd stats.zeroPages 1 }
  | .same => { stats with samePages := satAdd stats.samePages 1 }
  | .sxrc => { stats with sxrcPages := satAdd stats.sxrcPages 1 }
  | .raw => { stats with
      rawPages := satAdd stats.rawPages 1
      fallbackRawPages := satAdd stats.fallbackRawPages 1 }

inductive CompressionInitError
  | alreadyInitialized
  deriving DecidableEq, Repr

/-- The runtime: its backend, the `NullBackend`, consists of its counters. -/
structure CompressionRuntime where
  initialized : Bool
  stats : CompressionStats

namespace CompressionRuntime

def new : CompressionRuntime := ⟨false, {}⟩

def initializeRuntime (rt : CompressionRuntime) :
    Except CompressionInitError Unit × CompressionRuntime :=
  if rt.initialized then (.error .alreadyInitialized, rt)
  else (.ok (), { rt with initialized := true })

/-- `encode_page` through the backend. -/
def encodePage (profile : Profile) (rt : CompressionRuntime) (page : Page)
    (scratch : List UInt8) : Except CompressionError EncodedPage × CompressionRuntime :=
  if rt.initialized = false then (.error .notInitialized, rt)
  else
    let stats := { rt.stats with encodedPages := satAdd rt.stats.encodedPages 1 }
    match (Compress.encodePage profile page scratch).1 with
    | .ok encoded =>
      (.ok encoded, { rt with stats := stats.accountEncodedClass encoded.pageClass })
    | .error e =>
      (.error e,
        { rt with stats := { stats with encodeFailures := satAdd stats.encodeFailures 1 } })

/-- `decode_page` through the backend: the result, the output page and the runtime. -/
def decodePage (profile : Profile) (rt : CompressionRuntime) (encoded : EncodedPage)
    (out : List UInt8) : Except CompressionError Unit × List UInt8 × CompressionRuntime :=
  if rt.initialized = false then (.error .notInitialized, out, rt)
  else
    match Compress.decodePage profile encoded.bytes out with
    | (.ok _, out) =>
      (.ok (), out, { rt with
        stats := { rt.stats with decodedPages := satAdd rt.stats.decodedPages 1 } })
    | (.error e, out) =>
      (.error e, out, { rt with
        stats := { rt.stats with decodeFailures := satAdd rt.stats.decodeFailures 1 } })

end CompressionRuntime

/-! ### Store -/

def storeCapacityPages : ℕ := 64

instance : NeZero storeCapacityPages := ⟨by decide⟩

inductive StoreInitError
  | alreadyInitialized
  | compressionRuntimeUnavailable
  deriving DecidableEq, Repr

inductive StoreError
  | notInitialized
  | notFound
  | encode (e : CompressionError)
  | decode (e : CompressionError)
  deriving DecidableEq, Repr

structure StoreEntry where
  pageId : UInt64
  pageClass : CompressionClass
  encodedBytes : ℕ

/-- The counters of the store; the two capacities of the source are constants. -/
structure StoreStats where
  storedPages : ℕ := 0
  storedZeroPages : ℕ := 0
  storedSamePages : ℕ := 0
  storedSxrcPages : ℕ := 0
  storedRawPages : ℕ := 0
  currentEncodedBytes : ℕ := 0
  totalInputBytes : ℕ := 0
  totalEncodedBytes : ℕ := 0
  storeRequests : ℕ := 0
  storeSuccesses : ℕ := 0
  loadRequests : ℕ := 0
  loadSuccesses : ℕ := 0
  loadMisses : ℕ := 0
  replacements : ℕ := 0
  evictions : ℕ := 0
  encodeFailures : ℕ := 0
  decodeFailures : ℕ := 0

namespace StoreStats

def accountAdded (stats : StoreStats) (pageClass : CompressionClass) (encodedLen : ℕ) :
    StoreStats :=
  let stats := { stats with
    currentEncodedBytes := satAdd stats.currentEncodedBytes encodedLen }
  match pageClass with
  | .zero => { stats with storedZeroPages := satAdd stats.storedZeroPages 1 }
  | .same => { stats with storedSamePages := satAdd stats.storedSamePages 1 }
  | .sxrc => { stats with storedSxrcPages := satAdd stats.storedSxrcPages 1 }
  | .raw => { stats with storedRawPages := satAdd stats.storedRawPages 1 }

def accountRemoved (stats : StoreStats) (pageClass : CompressionClass) (encodedLen : ℕ) :
    StoreStats :=
  let stats := { stats with currentEncodedBytes := stats.currentEncodedBytes - encodedLen }
  match pageClass with
  | .zero => { stats with storedZeroPages := stats.storedZeroPages - 1 }
  | .same => { stats with storedSamePages := stats.storedSamePages - 1 }
  | .sxrc => { stats with storedSxrcPages := stats.storedSxrcPages - 1 }
  | .raw => { stats with storedRawPages := stats.storedRawPages - 1 }

end StoreStats

structure StoreSlot where
  occupied : Bool
  pageId : UInt64
  pageClass : CompressionClass
  encodedLen : UInt16
  encoded : List UInt8

def StoreSlot.empty : StoreSlot := ⟨false, 0, .raw, 0, List.replicate maxEncodedPageBytes 0⟩

/-- The write of `store_page` into its slot. -/
def StoreSlot.write (slot : StoreSlot) (pageId : UInt64) (encoded : EncodedPage) : StoreSlot where
  occupied := true
  pageId := pageId
  pageClass := encoded.pageClass
  encodedLen := UInt16.ofNat encoded.bytes.length
  encoded := splice slot.encoded 0 encoded.bytes

structure StoreState where
  initialized : Bool
  nextEvict : Fin storeCapacityPages
  slots : Fin storeCapacityPages → StoreSlot
  stats : StoreStats

namespace StoreState

def new : StoreState := ⟨false, 0, fun _ => .empty, {}⟩

def initializeStore (st : StoreState) (rt : CompressionRuntime) :
    Except StoreInitError Unit × StoreState :=
  if st.initialized then (.error .alreadyInitialized, st)
  else if rt.initialized = false then (.error .compressionRuntimeUnavailable, st)
  else (.ok (), { st with initialized := true })

def findSlot (st : StoreState) (pageId : UInt64) : Option (Fin storeCapacityPages) :=
  Ring.first fun i => (st.slots i).occupied && (st.slots i).pageId == pageId

def findEmptySlot (st : StoreState) : Option (Fin storeCapacityPages) :=
  Ring.first fun i => !(st.slots i).occupied

/-- The slot `store_page` writes to, with the store after the choice. -/
def targetSlot (st : StoreState) (pageId : UInt64) : Fin storeCapacityPages × StoreState :=
  match st.findSlot pageId with
  | some i =>
    (i, { st with stats := { st.stats with replacements := satAdd st.stats.replacements 1 } })
  | none =>
    match st.findEmptySlot with
    | some i => (i, st)
    | none => (st.nextEvict, { st with
        nextEvict := st.nextEvict + 1
        stats := { st.stats with evictions := satAdd st.stats.evictions 1 } })

theorem targetSlot_of_found (h : st.findSlot pageId = some i) :
    st.targetSlot pageId = (i, { st with
      stats := { st.stats with replacements := satAdd st.stats.replacements 1 } }) := by
  simp only [targetSlot, h]

theorem targetSlot_of_empty (h : st.findSlot pageId = none) (hi : st.findEmptySlot = some i) :
    st.targetSlot pageId = (i, st) := by
  simp only [targetSlot, h, hi]

theorem targetSlot_of_full (h : st.findSlot pageId = none) (hi : st.findEmptySlot = none) :
    st.targetSlot pageId = (st.nextEvict, { st with
      nextEvict := st.nextEvict + 1
      stats := { st.stats with evictions := satAdd st.stats.evictions 1 } }) := by
  simp only [targetSlot, h, hi]

/-- The bookkeeping of `store_page` for the slot it overwrites. -/
def accountOverwritten (st : StoreState) (i : Fin storeCapacityPages) : StoreState :=
  let slot := st.slots i
  if slot.occupied then
    { st with stats := st.stats.accountRemoved slot.pageClass slot.encodedLen.toNat }
  else { st with stats := { st.stats with storedPages := satAdd st.stats.storedPages 1 } }

def writeSlot (st : StoreState) (i : Fin storeCapacityPages) (pageId : UInt64)
    (encoded : EncodedPage) : StoreState :=
  { st with slots := Function.update st.slots i ((st.slots i).write pageId encoded) }

def storePage (profile : Profile) (st : StoreState) (rt : CompressionRuntime) (pageId : UInt64)
    (page : Page) : Except StoreError StoreEntry × StoreState × CompressionRuntime :=
  if st.initialized = false then (.error .notInitialized, st, rt)
  else
    let st := { st with stats := { st.stats with
      storeRequests := satAdd st.stats.storeRequests 1
      totalInputBytes := satAdd st.stats.totalInputBytes pageBytes } }
    match rt.encodePage profile page (List.replicate maxEncodedPageBytes 0) with
    | (.error e, rt) =>
      (.error (.encode e), { st with stats := { st.stats with
        encodeFailures := satAdd st.stats.encodeFailures 1 } }, rt)
    | (.ok encoded, rt) =>
      let encodedLen := encoded.bytes.length
      let (i, st) := st.targetSlot pageId
      let st := (st.accountOverwritten i).writeSlot i pageId encoded
      let stats := st.stats.accountAdded encoded.pageClass encodedLen
      (.ok ⟨pageId, encoded.pageClass, encodedLen⟩,
        { st with stats := { stats with
          storeSuccesses := satAdd stats.storeSuccesses 1
          totalEncodedBytes := satAdd stats.totalEncodedBytes encodedLen } }, rt)

/-- `load_page`: the result, the output page, the store and the runtime. -/
def loadPage (profile : Profile) (st : StoreState) (rt : CompressionRuntime) (pageId : UInt64)
    (out : List UInt8) :
    Except StoreError StoreEntry × List UInt8 × StoreState × CompressionRuntime :=
  if st.initialized = false then (.error .notInitialized, out, st, rt)
  else
    let st := { st with stats := { st.stats with
      loadRequests := satAdd st.stats.loadRequests 1 } }
    match st.findSlot pageId with
    | none => (.error .notFound, out, { st with stats := { st.stats with
        loadMisses := satAdd st.stats.loadMisses 1 } }, rt)
    | some i =>
      let slot := st.slots i
      let encodedLen := slot.encodedLen.toNat
      match rt.decodePage profile ⟨slot.pageClass, slot.encoded.take encodedLen⟩ out with
      | (.ok (), out, rt) =>
        (.ok ⟨pageId, slot.pageClass, encodedLen⟩, out, { st with stats := { st.stats with
          loadSuccesses := satAdd st.stats.loadSuccesses 1 } }, rt)
      | (.error e, out, rt) =>
        (.error (.decode e), out, { st with stats := { st.stats with
          decodeFailures := satAdd st.stats.decodeFailures 1 } }, rt)

end StoreState

end Hxnu.Mm.Compress
