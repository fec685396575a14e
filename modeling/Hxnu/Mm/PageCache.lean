import Hxnu.Lib.Run
import Hxnu.Mm.Compress.RoundTrip
import Hxnu.Mm.Pager

/-!
# The pager is a first-in first-out cache

The abstract cache is a list of at most 64 pairs of a page id and a page, in insertion order. The
slots of the store hold it in the order of a rotating array (`Hxnu.Ring.Layout`), each page in an
encoded form that decodes to it.

## Main definitions

* `Cache.reclaim`, `Cache.restore`: the abstract cache.
* `Holds`: the state of the pager stands for a cache.

## Main results

* `Holds.reclaimPage`, `Holds.restorePage`: one call agrees with the cache.
* `pager_refines_cache`: every sequence of calls gets the answers of the cache.
-/

namespace Hxnu.Mm

open Word Buffer Compress Function List

variable {k : ℕ} {slot : StoreSlot} {cache : Cache}

/-! ### The abstract cache -/

/-- A call of the pager; a restore brings the page it writes to. -/
inductive PagerCall
  | reclaim (pageId : UInt64) (page : Page)
  | restore (pageId : UInt64) (out : Page)

/-- What a caller of the pager sees. -/
inductive PagerReply
  | reclaimed
  | restored (bytes : List UInt8)
  | notFound
  | failed (e : PagerError)

/-- Pages with their ids, the oldest first. -/
abbrev Cache : Type := List (UInt64 × Page)

namespace Cache

/-- A page that is present is replaced where it stands; a new one is appended, and drops the oldest
one if 64 are present. -/
def reclaim (cache : Cache) (pageId : UInt64) (page : Page) : Cache :=
  match cache.findIdx? (·.1 == pageId) with
  | some k => cache.set k (pageId, page)
  | none => if cache.length < storeCapacityPages then cache ++ [(pageId, page)]
      else cache.tail ++ [(pageId, page)]

section Reclaim

variable {cache : Cache} {pageId : UInt64} {page : Page}

theorem reclaim_of_some (h : cache.findIdx? (·.1 == pageId) = some k) :
    cache.reclaim pageId page = cache.set k (pageId, page) := by
  simp only [reclaim, h]

theorem reclaim_of_lt (h : cache.findIdx? (·.1 == pageId) = none)
    (hlt : cache.length < storeCapacityPages) :
    cache.reclaim pageId page = cache ++ [(pageId, page)] := by
  simp only [reclaim, h, if_pos hlt]

theorem reclaim_of_full (h : cache.findIdx? (·.1 == pageId) = none)
    (hfull : ¬ cache.length < storeCapacityPages) :
    cache.reclaim pageId page = cache.tail ++ [(pageId, page)] := by
  simp only [reclaim, h, if_neg hfull]

end Reclaim

def restore (cache : Cache) (pageId : UInt64) : Option Page :=
  (cache.find? (·.1 == pageId)).map Prod.snd

/-- One call on the cache. -/
def call (cache : Cache) : PagerCall → PagerReply × Cache
  | .reclaim pageId page => (.reclaimed, cache.reclaim pageId page)
  | .restore pageId _ =>
    match cache.restore pageId with
    | some page => (.restored page.bytes, cache)
    | none => (.notFound, cache)

end Cache

/-- One call on the pager of the source. -/
def PagerWorld.call (w : PagerWorld) : PagerCall → PagerReply × PagerWorld
  | .reclaim pageId page =>
    match w.reclaimPage profileGenerated pageId page with
    | (.ok _, w) => (.reclaimed, w)
    | (.error e, w) => (.failed e, w)
  | .restore pageId out =>
    match w.restorePage profileGenerated pageId out.bytes with
    | (.ok _, out, w) => (.restored out, w)
    | (.error (.store .notFound), _, w) => (.notFound, w)
    | (.error e, _, w) => (.failed e, w)

/-! ### The representation -/

/-- A slot holds an encoding of the page under its id, or is empty. -/
def SlotHolds (slot : StoreSlot) : Option (UInt64 × Page) → Prop
  | none => slot.occupied = false
  | some (pageId, page) => slot.occupied = true ∧ slot.pageId = pageId ∧
      ∀ out : Page, Compress.decodePage profileGenerated
        (slot.encoded.take slot.encodedLen.toNat) out.bytes = (.ok slot.pageClass, page.bytes)

/-- The slots hold the cache, in the order of a rotating array. -/
structure StoreHolds (st : StoreState) (cache : Cache) : Prop where
  initialized : st.initialized = true
  length_encoded : ∀ i, (st.slots i).encoded.length = maxEncodedPageBytes
  nodup : (cache.map Prod.fst).Nodup
  layout : ∃ cells, (∀ i, SlotHolds (st.slots i) (cells i)) ∧ Ring.Layout cells st.nextEvict cache

/-- The state of the pager stands for a cache. -/
structure Holds (w : PagerWorld) (cache : Cache) : Prop where
  runtime : w.runtime.initialized = true
  store : StoreHolds w.store cache
  pager : w.pager.initialized = true

theorem holds_booted : Holds PagerWorld.booted [] where
  runtime := rfl
  store :=
    { initialized := rfl
      length_encoded := fun _ => length_replicate
      nodup := nodup_nil
      layout := ⟨fun _ => none, fun _ => rfl, Ring.Layout.empty⟩ }
  pager := rfl

/-! ### Searching the slots -/

theorem SlotHolds.hasId (h : SlotHolds slot cell) (pageId : UInt64) :
    (slot.occupied && slot.pageId == pageId) = cell.any (·.1 == pageId) := by
  cases cell with
  | none => rw [show slot.occupied = false from h]; rfl
  | some p => rw [h.1, h.2.1, Bool.true_and, Option.any_some]

theorem SlotHolds.isFree (h : SlotHolds slot cell) : (!slot.occupied) = cell.isNone := by
  cases cell with
  | none => rw [show slot.occupied = false from h]; rfl
  | some p => rw [h.1]; rfl

section Search

variable {st : StoreState} {cache : Cache} {cells : Fin storeCapacityPages → Option (UInt64 × Page)}
  (hcells : ∀ i, SlotHolds (st.slots i) (cells i)) (hlayout : Ring.Layout cells st.nextEvict cache)
  {pageId : UInt64}

include hcells hlayout

theorem findSlot_eq_none (h : cache.findIdx? (·.1 == pageId) = none) :
    st.findSlot pageId = none := by
  rw [StoreState.findSlot]
  simp only [fun i => (hcells i).hasId pageId]
  refine hlayout.first_cell_eq_none fun m => ?_
  cases hm : cache[m]? with
  | none => rfl
  | some p => exact findIdx?_eq_none_iff.mp h p (mem_of_getElem? hm)

theorem findSlot_eq_some (hnodup : (cache.map Prod.fst).Nodup)
    (h : cache.findIdx? (·.1 == pageId) = some k) :
    ∃ hk : k < storeCapacityPages, st.findSlot pageId = some (st.nextEvict + ⟨k, hk⟩) := by
  obtain ⟨hk, hid, -⟩ := findIdx?_eq_some_iff_getElem.mp h
  refine ⟨hk.trans_le hlayout.length_le, ?_⟩
  rw [StoreState.findSlot]
  simp only [fun i => (hcells i).hasId pageId]
  refine hlayout.first_cell_eq_some (by simpa [List.getElem?_eq_getElem hk] using hid) fun m hm => ?_
  obtain ⟨p, hp, hpid⟩ := Option.any_eq_true _ _ |>.mp hm
  obtain ⟨hm', rfl⟩ := List.getElem?_eq_some_iff.mp hp
  have hi : m < (cache.map Prod.fst).length := by simpa using hm'
  have hj : k < (cache.map Prod.fst).length := by simpa using hk
  have hkey : (cache.map Prod.fst)[m] = (cache.map Prod.fst)[k] := by
    rw [List.getElem_map, List.getElem_map, eq_of_beq hpid, eq_of_beq hid]
  exact hnodup.getElem_inj_iff.mp hkey

theorem findEmptySlot_eq :
    st.findEmptySlot =
      if h : cache.length < storeCapacityPages then some ⟨cache.length, h⟩ else none := by
  rw [StoreState.findEmptySlot]
  simp only [fun i => (hcells i).isFree]
  exact hlayout.first_free

end Search

/-! ### Storing a page -/

/-- An encoded page that decodes to the page. -/
structure DecodesTo (encoded : EncodedPage) (page : Page) : Prop where
  length_le : encoded.bytes.length ≤ maxEncodedPageBytes
  decode : ∀ out : Page, Compress.decodePage profileGenerated encoded.bytes out.bytes =
    (.ok encoded.pageClass, page.bytes)

theorem exists_decodesTo (page : Page) (h : maxEncodedPageBytes ≤ scratch.length) :
    ∃ encoded, (Compress.encodePage profileGenerated page scratch).1 = .ok encoded ∧
      DecodesTo encoded page := by
  obtain ⟨pageClass, payload, hlen, hpayload, heq⟩ :=
    encodePage_spec profileGenerated_distinctIds page h
  refine ⟨_, heq, ?_, fun out => decodePage_of_payloadFor hpayload hlen out.length_bytes⟩
  rw [length_append, EncodedHeader.length_toBytes, maxEncodedPageBytes]
  omega

section Write

variable {st : StoreState} {cells : Fin storeCapacityPages → Option (UInt64 × Page)}
  {pageId : UInt64} {page : Page} {encoded : EncodedPage}

theorem slotHolds_write (hdec : DecodesTo encoded page) :
    SlotHolds (slot.write pageId encoded) (some (pageId, page)) := by
  have hlen : (UInt16.ofNat encoded.bytes.length).toNat = encoded.bytes.length := by
    rw [UInt16.toNat_ofNat', Nat.mod_eq_of_lt (hdec.length_le.trans_lt (by decide))]
  have htake : (splice slot.encoded 0 encoded.bytes).take (0 + encoded.bytes.length) =
      slot.encoded.take 0 ++ encoded.bytes := take_splice (Nat.zero_le _)
  rw [Nat.zero_add, take_zero, nil_append] at htake
  refine ⟨rfl, rfl, fun out => ?_⟩
  simp only [StoreSlot.write, hlen, htake]
  exact hdec.decode out

theorem slotHolds_update (hcells : ∀ i, SlotHolds (st.slots i) (cells i))
    (hdec : DecodesTo encoded page) (i j : Fin storeCapacityPages) :
    SlotHolds (update st.slots i ((st.slots i).write pageId encoded) j)
      (update cells i (some (pageId, page)) j) := by
  by_cases hj : j = i
  · subst hj
    rw [update_self, update_self]
    exact slotHolds_write hdec
  · rw [update_of_ne hj, update_of_ne hj]
    exact hcells j

theorem length_encoded_update
    (hlength : ∀ i, (st.slots i).encoded.length = maxEncodedPageBytes)
    (hdec : DecodesTo encoded page) (i j : Fin storeCapacityPages) :
    (update st.slots i ((st.slots i).write pageId encoded) j).encoded.length =
      maxEncodedPageBytes := by
  by_cases hj : j = i
  · subst hj
    have hle := hdec.length_le
    rw [update_self]
    rw [← hlength j] at hle ⊢
    exact length_splice (by rwa [Nat.zero_add])
  · rw [update_of_ne hj]
    exact hlength j

/-- Keys stay distinct when a page is replaced where it stands. -/
theorem map_fst_set (h : cache.findIdx? (·.1 == pageId) = some k) :
    (cache.set k (pageId, page)).map Prod.fst = cache.map Prod.fst := by
  obtain ⟨hk, hid, -⟩ := findIdx?_eq_some_iff_getElem.mp h
  have hk' : k < (cache.map Prod.fst).length := by simpa using hk
  have hkey : pageId = (cache.map Prod.fst)[k] := by
    rw [List.getElem_map]
    exact (eq_of_beq hid).symm
  rw [map_set]
  change (cache.map Prod.fst).set k pageId = _
  rw [hkey, set_getElem_self]

/-- Keys stay distinct when a page with a new key is appended. -/
theorem nodup_append_new (hnodup : (cache.map Prod.fst).Nodup) (h : ∀ p ∈ cache, p.1 ≠ pageId) :
    ((cache ++ [(pageId, page)]).map Prod.fst).Nodup := by
  rw [map_append, map_singleton, nodup_append]
  refine ⟨hnodup, nodup_singleton _, fun a ha b hb => ?_⟩
  obtain ⟨p, hp, rfl⟩ := mem_map.mp ha
  rw [mem_singleton.mp hb]
  exact h p hp

/-- A write into slot `i` that makes the cells hold `cache'`. -/
theorem StoreHolds.write {st' : StoreState} {cache' : Cache} {i : Fin storeCapacityPages}
    (h : StoreHolds st cache) (hcells : ∀ i, SlotHolds (st.slots i) (cells i))
    (hdec : DecodesTo encoded page) (hinit : st'.initialized = st.initialized)
    (hslots : st'.slots = st.slots) (hnodup : (cache'.map Prod.fst).Nodup)
    (hlayout : Ring.Layout (update cells i (some (pageId, page))) st'.nextEvict cache') :
    StoreHolds ((st'.accountOverwritten i).writeSlot i pageId encoded) cache' := by
  have hsame : (st'.accountOverwritten i).slots = st.slots ∧
      (st'.accountOverwritten i).initialized = st.initialized ∧
      (st'.accountOverwritten i).nextEvict = st'.nextEvict := by
    rw [StoreState.accountOverwritten]
    split_ifs <;> exact ⟨hslots, hinit, rfl⟩
  obtain ⟨hslots', hinit', hnext⟩ := hsame
  refine ⟨hinit'.trans h.initialized, ?_, hnodup,
    update cells i (some (pageId, page)), ?_, ?_⟩
  · rw [StoreState.writeSlot, hslots']
    exact length_encoded_update h.length_encoded hdec i
  · rw [StoreState.writeSlot, hslots']
    exact slotHolds_update hcells hdec i
  · rw [← hnext] at hlayout
    exact hlayout

/-- **Storing a page.** Whichever slot is chosen, the store holds the cache with the page
reclaimed. -/
theorem StoreHolds.store (h : StoreHolds st cache) (pageId : UInt64)
    (hdec : DecodesTo encoded page) :
    StoreHolds (((st.targetSlot pageId).2.accountOverwritten (st.targetSlot pageId).1).writeSlot
      (st.targetSlot pageId).1 pageId encoded) (cache.reclaim pageId page) := by
  obtain ⟨cells, hcells, hlayout⟩ := h.layout
  cases hidx : cache.findIdx? (·.1 == pageId) with
  | some k =>
    obtain ⟨hk, hfind⟩ := findSlot_eq_some hcells hlayout h.nodup hidx
    obtain ⟨hk', -, -⟩ := findIdx?_eq_some_iff_getElem.mp hidx
    have hnodup := h.nodup
    rw [StoreState.targetSlot_of_found hfind, Cache.reclaim_of_some hidx]
    exact h.write hcells hdec rfl rfl (map_fst_set hidx ▸ hnodup)
      (hlayout.replace hk' (pageId, page))
  | none =>
    have hnew : ∀ p ∈ cache, p.1 ≠ pageId := fun p hp =>
      by simpa using findIdx?_eq_none_iff.mp hidx p hp
    have hslot := findSlot_eq_none hcells hlayout hidx
    have hempty := findEmptySlot_eq hcells hlayout
    by_cases hlt : cache.length < storeCapacityPages
    · rw [dif_pos hlt] at hempty
      rw [StoreState.targetSlot_of_empty hslot hempty, Cache.reclaim_of_lt hidx hlt]
      exact h.write hcells hdec rfl rfl (nodup_append_new h.nodup hnew)
        (hlayout.push hlt (pageId, page))
    · have hfull : cache.length = storeCapacityPages :=
        le_antisymm hlayout.length_le (not_lt.mp hlt)
      have htail : (cache.tail.map Prod.fst).Nodup := by
        rw [map_tail]
        exact h.nodup.tail
      have hnodup : ((cache.tail ++ [(pageId, page)]).map Prod.fst).Nodup :=
        nodup_append_new htail fun p hp => hnew p (mem_of_mem_tail hp)
      rw [dif_neg hlt] at hempty
      rw [StoreState.targetSlot_of_full hslot hempty, Cache.reclaim_of_full hidx hlt]
      exact h.write hcells hdec rfl rfl hnodup (hlayout.rotate hfull (pageId, page))

end Write

/-! ### One call -/

section Call

variable {w : PagerWorld} {cache : Cache}

/-- Reclaiming a page succeeds and does to the pager what it does to the cache. -/
theorem Holds.reclaimPage (h : Holds w cache) (pageId : UInt64) (page : Page) :
    ∃ entry w', w.reclaimPage profileGenerated pageId page = (.ok entry, w') ∧
      Holds w' (cache.reclaim pageId page) := by
  obtain ⟨encoded, henc, hdec⟩ := exists_decodesTo page
    (show maxEncodedPageBytes ≤ (List.replicate maxEncodedPageBytes 0).length by
      rw [length_replicate])
  have hrequest : StoreHolds { w.store with stats := { w.store.stats with
      storeRequests := satAdd w.store.stats.storeRequests 1
      totalInputBytes := satAdd w.store.stats.totalInputBytes pageBytes } } cache :=
    ⟨h.store.initialized, h.store.length_encoded, h.store.nodup, h.store.layout⟩
  rw [PagerWorld.reclaimPage, if_neg (by simp [h.pager]), StoreState.storePage,
    if_neg (by simp [h.store.initialized]), CompressionRuntime.encodePage,
    if_neg (by simp [h.runtime])]
  simp only [henc]
  refine ⟨_, _, rfl, h.runtime, ?_, h.pager⟩
  have hstored := hrequest.store pageId hdec
  exact ⟨hstored.initialized, hstored.length_encoded, hstored.nodup, hstored.layout⟩

theorem restore_eq_none (h : cache.findIdx? (·.1 == pageId) = none) :
    cache.restore pageId = none := by
  rw [Cache.restore, Option.map_eq_none_iff, find?_eq_none]
  intro p hp
  simpa using findIdx?_eq_none_iff.mp h p hp

theorem restore_eq_some (h : cache.findIdx? (·.1 == pageId) = some k) :
    ∃ page, cache.restore pageId = some page ∧ cache[k]? = some (pageId, page) := by
  obtain ⟨hk, hid, hmin⟩ := findIdx?_eq_some_iff_getElem.mp h
  have hfind : cache.find? (·.1 == pageId) = some cache[k] :=
    find?_eq_some_iff_getElem.mpr ⟨hid, k, hk, rfl, fun j hj => by simpa using hmin j hj⟩
  refine ⟨cache[k].2, by rw [Cache.restore, hfind, Option.map_some], ?_⟩
  rw [List.getElem?_eq_getElem hk, ← eq_of_beq hid]

/-- Restoring a page gives the page of the cache, and leaves the cache. -/
theorem Holds.restorePage (h : Holds w cache) (pageId : UInt64) (out : Page) :
    (∃ page entry w', cache.restore pageId = some page ∧
      w.restorePage profileGenerated pageId out.bytes = (.ok entry, page.bytes, w') ∧
      Holds w' cache) ∨
    (∃ w', cache.restore pageId = none ∧
      w.restorePage profileGenerated pageId out.bytes =
        (.error (.store .notFound), out.bytes, w') ∧ Holds w' cache) := by
  obtain ⟨cells, hcells, hlayout⟩ := h.store.layout
  have hkeep (stats : StoreStats) : StoreHolds { w.store with stats } cache :=
    ⟨h.store.initialized, h.store.length_encoded, h.store.nodup, h.store.layout⟩
  have hfindSlot (stats : StoreStats) :
      StoreState.findSlot { w.store with stats } pageId = w.store.findSlot pageId := rfl
  rw [PagerWorld.restorePage, if_neg (by simp [h.pager]), StoreState.loadPage,
    if_neg (by simp [h.store.initialized])]
  cases hidx : cache.findIdx? (·.1 == pageId) with
  | none =>
    simp only [hfindSlot, findSlot_eq_none hcells hlayout hidx]
    exact .inr ⟨_, restore_eq_none hidx, rfl, h.runtime, hkeep _, h.pager⟩
  | some k =>
    obtain ⟨hk, hslot⟩ := findSlot_eq_some hcells hlayout h.store.nodup hidx
    obtain ⟨page, hpage, hcell⟩ := restore_eq_some hidx
    have hholds := hcells (w.store.nextEvict + ⟨k, hk⟩)
    rw [hlayout.cell, hcell] at hholds
    obtain ⟨-, -, hdecode⟩ := hholds
    simp only [hfindSlot, hslot, CompressionRuntime.decodePage, h.runtime, Bool.true_eq_false,
      if_false, hdecode out]
    exact .inl ⟨page, _, _, hpage, rfl, rfl, hkeep _, h.pager⟩

end Call

/-- **The pager is the cache.** Every sequence of calls after the three `initialize` calls gets the
answers of the abstract cache, so no reclaim fails and no restore reports a decoding error. -/
theorem pager_refines_cache (calls : List PagerCall) :
    outputs PagerWorld.call PagerWorld.booted calls = outputs Cache.call [] calls := by
  refine (outputs_eq_of_simulation (R := Holds) (fun w cache call h => ?_) calls holds_booted).1
  cases call with
  | reclaim pageId page =>
    obtain ⟨entry, w', heq, hw'⟩ := h.reclaimPage pageId page
    simp only [PagerWorld.call, Cache.call, heq]
    exact ⟨trivial, hw'⟩
  | restore pageId out =>
    rcases h.restorePage pageId out with ⟨page, entry, w', hc, heq, hw'⟩ | ⟨w', hc, heq, hw'⟩
    · simp only [PagerWorld.call, Cache.call, heq, hc]
      exact ⟨trivial, hw'⟩
    · simp only [PagerWorld.call, Cache.call, heq, hc]
      exact ⟨trivial, hw'⟩

end Hxnu.Mm
