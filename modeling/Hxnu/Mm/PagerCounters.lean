import Hxnu.Mm.PageCache

/-!
# The counters of the pager and of its store

Both the store and the pager keep counters with saturating arithmetic. What the store says about its
contents (pages, pages of each class, encoded bytes) is a sum over the slots, one quantity for each
`Tally`, so that the effect of an overwritten slot on all of them is one equation. The counters of
calls add up by outcome. Nothing is clipped before a request counter reaches `2 ^ 64 - 1`, since the
request counters bound the others.

## Main definitions

* `Tally`, `StoreStats.tally`, `StoreSlot.tally`: what a counter of the contents says, and what one
  slot contributes to it.
* `StoreState.Accounts`, `PagerStats.Balanced`: the counters are right.

## Main results

* `StoreState.Accounts.storePage`, `StoreState.Accounts.loadPage`: one call of the store.
* `Counted.reclaimPage`, `Counted.restorePage`: one call of the pager.
* `counters_agree`: the counters are right after every sequence of calls.
-/

namespace Hxnu.Mm

open Word Buffer Compress Function

-- Two statistics that differ in a saturated counter are compared by their other fields only.
attribute [local irreducible] satAdd

namespace Compress

/-! ### The contents of the store -/

/-- A quantity that the store counts over its occupied slots. -/
inductive Tally
  | pages
  | ofClass (pageClass : CompressionClass)
  | bytes
  deriving DecidableEq

/-- The counter of the store for a quantity. -/
def StoreStats.tally (stats : StoreStats) : Tally → ℕ
  | .pages => stats.storedPages
  | .ofClass .zero => stats.storedZeroPages
  | .ofClass .same => stats.storedSamePages
  | .ofClass .sxrc => stats.storedSxrcPages
  | .ofClass .raw => stats.storedRawPages
  | .bytes => stats.currentEncodedBytes

/-- What an encoding of a class and a length contributes to a quantity. -/
def Tally.of (pageClass : CompressionClass) (encodedLen : ℕ) : Tally → ℕ
  | .pages => 1
  | .ofClass c => if pageClass = c then 1 else 0
  | .bytes => encodedLen

/-- What a slot contributes to a quantity. -/
def StoreSlot.tally (slot : StoreSlot) (k : Tally) : ℕ :=
  if slot.occupied then k.of slot.pageClass slot.encodedLen.toNat else 0

theorem Tally.of_le (k : Tally) (c : CompressionClass) (n : ℕ) : k.of c n ≤ max 1 n := by
  cases k with
  | pages => exact le_max_left 1 n
  | ofClass c' =>
    rw [Tally.of]
    split_ifs
    · exact le_max_left 1 n
    · exact Nat.zero_le _
  | bytes => exact le_max_right 1 n

theorem StoreSlot.tally_lt (slot : StoreSlot) (k : Tally) : slot.tally k < 2 ^ 16 := by
  rw [tally]
  split_ifs
  · exact (k.of_le _ _).trans_lt (max_lt (by decide) slot.encodedLen.toNat_lt)
  · decide

/-- The counters of the contents are sums over the slots. -/
def StoreState.Contents (st : StoreState) : Prop :=
  ∀ k, st.stats.tally k = ∑ i, (st.slots i).tally k

/-- The counters of the store are right. -/
structure StoreState.Accounts (st : StoreState) : Prop where
  contents : st.Contents
  storeRequests : st.stats.storeRequests = st.stats.storeSuccesses + st.stats.encodeFailures
  storeSuccesses : st.stats.storeSuccesses =
    st.stats.storedPages + st.stats.replacements + st.stats.evictions
  loadRequests : st.stats.loadRequests =
    st.stats.loadSuccesses + st.stats.loadMisses + st.stats.decodeFailures

/-- Replacing one element of a family changes a sum over the family by the difference. -/
theorem sum_update_add {ι α : Type*} [Fintype ι] [DecidableEq ι] (f : ι → α) (g : α → ℕ) (i : ι)
    (v : α) : ∑ j, g (update f i v j) + g (f i) = ∑ j, g (f j) + g v := by
  have hrest : ∑ j ∈ Finset.univ.erase i, g (update f i v j) =
      ∑ j ∈ Finset.univ.erase i, g (f j) :=
    Finset.sum_congr rfl fun j hj => by rw [update_of_ne (Finset.ne_of_mem_erase hj)]
  rw [← Finset.add_sum_erase _ _ (Finset.mem_univ i),
    ← Finset.add_sum_erase _ (fun j => g (f j)) (Finset.mem_univ i), hrest, update_self]
  omega

namespace StoreState.Contents

variable {st : StoreState}

/-- No subtraction of `account_removed` is clipped. -/
theorem tally_slot_le (h : st.Contents) (i : Fin storeCapacityPages) (k : Tally) :
    (st.slots i).tally k ≤ st.stats.tally k := by
  rw [h]
  exact Finset.single_le_sum (f := fun i => (st.slots i).tally k) (fun _ _ => Nat.zero_le _)
    (Finset.mem_univ i)

/-- No addition of `account_added` is clipped. -/
theorem tally_add_lt (h : st.Contents) (c : CompressionClass) (hn : n ≤ maxEncodedPageBytes)
    (k : Tally) : st.stats.tally k + k.of c n < 2 ^ 64 := by
  have hsum : ∑ i, (st.slots i).tally k ≤ ∑ _i : Fin storeCapacityPages, 2 ^ 16 :=
    Finset.sum_le_sum fun i _ => ((st.slots i).tally_lt k).le
  have hof : k.of c n ≤ maxEncodedPageBytes := (k.of_le c n).trans (max_le (by decide) hn)
  rw [Finset.sum_const, Finset.card_univ, Fintype.card_fin] at hsum
  rw [h]
  exact (Nat.add_le_add hsum hof).trans_lt (by decide)

end StoreState.Contents

/-! ### The effect of the bookkeeping -/

section Bookkeeping

variable {stats : StoreStats} {c : CompressionClass} {n : ℕ}

/-- A stored page adds itself to every quantity but the number of pages, which `store_page` counts
apart. -/
theorem StoreStats.tally_accountAdded (h : k ≠ .pages → stats.tally k + k.of c n < 2 ^ 64) :
    (stats.accountAdded c n).tally k =
      if k = .pages then stats.tally k else stats.tally k + k.of c n := by
  cases k with
  | pages => cases c <;> rfl
  | ofClass c' =>
    have hadd := satAdd_of_lt (h nofun)
    cases c <;> cases c' <;> first | exact hadd | rfl
  | bytes =>
    have hadd := satAdd_of_lt (h nofun)
    cases c <;> exact hadd

theorem StoreStats.tally_accountRemoved (k : Tally) :
    (stats.accountRemoved c n).tally k =
      if k = .pages then stats.tally k else stats.tally k - k.of c n := by
  cases k with
  | pages => cases c <;> rfl
  | ofClass c' => cases c <;> cases c' <;> rfl
  | bytes => cases c <;> rfl

end Bookkeeping

/-- The counters of calls, without those of the contents. -/
def StoreStats.calls (stats : StoreStats) : StoreStats :=
  { stats with
    storedPages := 0
    storedZeroPages := 0
    storedSamePages := 0
    storedSxrcPages := 0
    storedRawPages := 0
    currentEncodedBytes := 0 }

namespace StoreState

variable {st : StoreState} {i : Fin storeCapacityPages} {c : CompressionClass} {n : ℕ}

theorem calls_overwrite :
    ((st.accountOverwritten i).stats.accountAdded c n).calls = st.stats.calls := by
  have hadded (stats : StoreStats) : (stats.accountAdded c n).calls = stats.calls := by
    cases c <;> rfl
  rw [hadded, accountOverwritten]
  split_ifs
  · cases (st.slots i).pageClass <;> rfl
  · rfl

/-- **Overwriting a slot.** Every quantity loses what the slot contributed and gains what the new
encoding contributes. -/
theorem tally_overwrite (hle : ∀ k, (st.slots i).tally k ≤ st.stats.tally k)
    (hlt : ∀ k, st.stats.tally k + k.of c n < 2 ^ 64) (k : Tally) :
    ((st.accountOverwritten i).stats.accountAdded c n).tally k + (st.slots i).tally k =
      st.stats.tally k + k.of c n := by
  by_cases hocc : (st.slots i).occupied = true
  · have hstats : (st.accountOverwritten i).stats =
        st.stats.accountRemoved (st.slots i).pageClass (st.slots i).encodedLen.toNat := by
      rw [accountOverwritten]
      exact congrArg StoreState.stats (if_pos hocc)
    have hslot : (st.slots i).tally k =
        k.of (st.slots i).pageClass (st.slots i).encodedLen.toNat := if_pos hocc
    have hremoved : (st.accountOverwritten i).stats.tally k ≤ st.stats.tally k := by
      rw [hstats, StoreStats.tally_accountRemoved]
      split_ifs
      · exact le_rfl
      · exact Nat.sub_le _ _
    have hroom := (Nat.add_le_add_right hremoved (k.of c n)).trans_lt (hlt k)
    have hk := hle k
    rw [StoreStats.tally_accountAdded fun _ => hroom, hstats, StoreStats.tally_accountRemoved]
    rw [hslot] at hk ⊢
    split_ifs with hpages
    · subst hpages
      rfl
    · omega
  · have hstats : (st.accountOverwritten i).stats =
        { st.stats with storedPages := satAdd st.stats.storedPages 1 } := by
      rw [accountOverwritten]
      exact congrArg StoreState.stats (if_neg hocc)
    have hslot : (st.slots i).tally k = 0 := if_neg hocc
    have hcounted : (st.accountOverwritten i).stats.tally k =
        if k = .pages then st.stats.tally k + 1 else st.stats.tally k := by
      rw [hstats]
      cases k with
      | pages => exact satAdd_of_lt (hlt .pages)
      | ofClass c' => cases c' <;> rfl
      | bytes => rfl
    have hroom : k ≠ .pages → (st.accountOverwritten i).stats.tally k + k.of c n < 2 ^ 64 := by
      intro hpages
      rw [hcounted, if_neg hpages]
      exact hlt k
    rw [StoreStats.tally_accountAdded hroom, hcounted, hslot]
    split_ifs with hpages
    · subst hpages
      rfl
    · rfl

/-- `store_page` has chosen the slot `i`: only the counters of replacements and evictions moved,
by one if the slot was occupied. -/
structure Chosen (st : StoreState) (i : Fin storeCapacityPages) (st' : StoreState) : Prop where
  slots : st'.slots = st.slots
  tally : ∀ k, st'.stats.tally k = st.stats.tally k
  storeRequests : st'.stats.storeRequests = st.stats.storeRequests
  storeSuccesses : st'.stats.storeSuccesses = st.stats.storeSuccesses
  encodeFailures : st'.stats.encodeFailures = st.stats.encodeFailures
  loadRequests : st'.stats.loadRequests = st.stats.loadRequests
  loadSuccesses : st'.stats.loadSuccesses = st.stats.loadSuccesses
  loadMisses : st'.stats.loadMisses = st.stats.loadMisses
  decodeFailures : st'.stats.decodeFailures = st.stats.decodeFailures
  overwritten : st'.stats.replacements + st'.stats.evictions =
    st.stats.replacements + st.stats.evictions + (st.slots i).tally .pages

theorem chosen_targetSlot (st : StoreState) (hreplacements : st.stats.replacements + 1 < 2 ^ 64)
    (hevictions : st.stats.evictions + 1 < 2 ^ 64) (pageId : UInt64) :
    ∃ i st', st.targetSlot pageId = (i, st') ∧ st.Chosen i st' := by
  cases hfound : st.findSlot pageId with
  | some i =>
    have hocc := (Ring.first_eq_some_iff.mp hfound).1
    rw [Bool.and_eq_true] at hocc
    refine ⟨i, _, targetSlot_of_found hfound, rfl, fun _ => rfl, rfl, rfl, rfl, rfl, rfl, rfl,
      rfl, ?_⟩
    rw [StoreSlot.tally, if_pos hocc.1, Tally.of, satAdd_of_lt hreplacements]
    exact Nat.add_right_comm _ _ _
  | none =>
    cases hempty : st.findEmptySlot with
    | some i =>
      have hfree := (Ring.first_eq_some_iff.mp hempty).1
      refine ⟨i, _, targetSlot_of_empty hfound hempty, rfl, fun _ => rfl, rfl, rfl, rfl, rfl,
        rfl, rfl, rfl, ?_⟩
      rw [StoreSlot.tally, if_neg (by simpa using hfree), Nat.add_zero]
    | none =>
      have hocc := Ring.first_eq_none_iff.mp hempty st.nextEvict
      refine ⟨_, _, targetSlot_of_full hfound hempty, rfl, fun _ => rfl, rfl, rfl, rfl, rfl,
        rfl, rfl, rfl, ?_⟩
      rw [StoreSlot.tally, if_pos (by simpa using hocc), Tally.of, satAdd_of_lt hevictions]
      rfl

end StoreState

/-! ### The calls of the store -/

namespace StoreState.Accounts

variable {st : StoreState} {rt : CompressionRuntime} {pageId : UInt64}

/-- A request counter bounds the counters of its outcomes. -/
theorem store_le (h : st.Accounts) :
    st.stats.storeSuccesses ≤ st.stats.storeRequests ∧
      st.stats.encodeFailures ≤ st.stats.storeRequests ∧
      st.stats.replacements ≤ st.stats.storeRequests ∧
      st.stats.evictions ≤ st.stats.storeRequests := by
  have hrequests := h.storeRequests
  have hsuccesses := h.storeSuccesses
  omega

theorem length_le_of_encodePage
    (h : rt.encodePage profileGenerated page (List.replicate maxEncodedPageBytes 0) = (.ok encoded,
      rt')) : encoded.bytes.length ≤ maxEncodedPageBytes := by
  obtain ⟨encoded', henc, hdec⟩ := exists_decodesTo page
    (show maxEncodedPageBytes ≤ (List.replicate maxEncodedPageBytes 0).length by
      rw [List.length_replicate])
  rw [CompressionRuntime.encodePage, henc] at h
  split_ifs at h with hinit
  · cases congrArg Prod.fst h
  · have hsame : encoded' = encoded := Except.ok.inj (congrArg Prod.fst h)
    exact hsame ▸ hdec.length_le

end StoreState.Accounts

/-- A page goes into the slot that was chosen for it. -/
theorem StoreState.Contents.write {st : StoreState} (h : st.Contents) {encoded : EncodedPage}
    (hlen : encoded.bytes.length ≤ maxEncodedPageBytes) (i : Fin storeCapacityPages)
    (pageId : UInt64) (k : Tally) :
    ((st.accountOverwritten i).stats.accountAdded encoded.pageClass encoded.bytes.length).tally k =
      ∑ j, (((st.accountOverwritten i).writeSlot i pageId encoded).slots j).tally k := by
  have hslots : ((st.accountOverwritten i).writeSlot i pageId encoded).slots =
      update st.slots i ((st.slots i).write pageId encoded) := by
    rw [writeSlot, accountOverwritten]
    split_ifs <;> rfl
  have hmod : (UInt16.ofNat encoded.bytes.length).toNat = encoded.bytes.length := by
    rw [UInt16.toNat_ofNat', Nat.mod_eq_of_lt (hlen.trans_lt (by decide))]
  have hwritten : ((st.slots i).write pageId encoded).tally k =
      k.of encoded.pageClass encoded.bytes.length := by
    have hocc : ((st.slots i).write pageId encoded).occupied = true := rfl
    rw [StoreSlot.tally, if_pos hocc]
    exact congrArg (fun len => k.of encoded.pageClass len) hmod
  have hstats := tally_overwrite (h.tally_slot_le i) (h.tally_add_lt encoded.pageClass hlen) k
  have hsum := sum_update_add st.slots (fun slot => slot.tally k) i
    ((st.slots i).write pageId encoded)
  have hold := h k
  simp only [hwritten] at hsum
  rw [hslots]
  omega

namespace StoreState

variable {st : StoreState} {rt rt' : CompressionRuntime} {pageId : UInt64} {page : Page}

/-- The store after a request was counted. -/
def countStoreRequest (st : StoreState) : StoreState :=
  { st with stats := { st.stats with
    storeRequests := satAdd st.stats.storeRequests 1
    totalInputBytes := satAdd st.stats.totalInputBytes pageBytes } }

theorem storePage_of_error (hinit : ¬ st.initialized = false)
    (hencode : rt.encodePage profileGenerated page (List.replicate maxEncodedPageBytes 0) = (.error
      e, rt')) :
    (st.storePage profileGenerated rt pageId page).2.1 =
      { st.countStoreRequest with stats := { st.countStoreRequest.stats with
        encodeFailures := satAdd st.stats.encodeFailures 1 } } := by
  rw [storePage, if_neg hinit]
  simp only [hencode, countStoreRequest]

theorem storePage_of_ok (hinit : ¬ st.initialized = false)
    (hencode : rt.encodePage profileGenerated page (List.replicate maxEncodedPageBytes 0) = (.ok
      encoded, rt')) (htarget : st.countStoreRequest.targetSlot pageId = (i, st')) :
    (st.storePage profileGenerated rt pageId page).2.1 =
      let stats := (st'.accountOverwritten i).stats.accountAdded encoded.pageClass
        encoded.bytes.length
      { (st'.accountOverwritten i).writeSlot i pageId encoded with stats := { stats with
        storeSuccesses := satAdd stats.storeSuccesses 1
        totalEncodedBytes := satAdd stats.totalEncodedBytes encoded.bytes.length } } := by
  rw [countStoreRequest] at htarget
  rw [storePage, if_neg hinit]
  simp only [hencode, htarget]
  rfl

end StoreState

namespace StoreState.Accounts

variable {st : StoreState} {rt : CompressionRuntime} {pageId : UInt64}

/-- **`store_page`** keeps the counters right, and counts at most one request. -/
theorem storePage (h : st.Accounts) (hlt : st.stats.storeRequests + 1 < 2 ^ 64)
    (rt : CompressionRuntime) (pageId : UInt64) (page : Page) :
    (st.storePage profileGenerated rt pageId page).2.1.Accounts ∧
      (st.storePage profileGenerated rt pageId page).2.1.stats.storeRequests ≤
        st.stats.storeRequests + 1 ∧
      (st.storePage profileGenerated rt pageId page).2.1.stats.loadRequests =
        st.stats.loadRequests := by
  obtain ⟨hsuccesses, hfailures, hreplacements, hevictions⟩ := h.store_le
  have hrequests := h.storeRequests
  by_cases hinit : st.initialized = false
  · rw [StoreState.storePage, if_pos hinit]
    exact ⟨h, Nat.le_succ _, rfl⟩
  cases hencode : rt.encodePage profileGenerated page (List.replicate maxEncodedPageBytes 0) with
  | mk result rt' =>
  cases result with
  | error e =>
    rw [StoreState.storePage_of_error hinit hencode]
    refine ⟨⟨h.contents, ?_, h.storeSuccesses, h.loadRequests⟩, satAdd_le _ _, rfl⟩
    change satAdd st.stats.storeRequests 1 =
      st.stats.storeSuccesses + satAdd st.stats.encodeFailures 1
    rw [satAdd_of_lt hlt, satAdd_of_lt (by omega)]
    omega
  | ok encoded =>
    have hlen := length_le_of_encodePage hencode
    obtain ⟨i, st', htarget, hchosen⟩ := st.countStoreRequest.chosen_targetSlot
      (Nat.lt_of_le_of_lt (Nat.add_le_add_right hreplacements 1) hlt)
      (Nat.lt_of_le_of_lt (Nat.add_le_add_right hevictions 1) hlt) pageId
    have hcontents : st'.Contents := by
      intro k
      rw [hchosen.tally, hchosen.slots]
      exact h.contents k
    have hcalls : ((st'.accountOverwritten i).stats.accountAdded encoded.pageClass
        encoded.bytes.length).calls = st'.stats.calls := StoreState.calls_overwrite
    have hpages := StoreState.tally_overwrite (hcontents.tally_slot_le i)
      (hcontents.tally_add_lt encoded.pageClass hlen) .pages
    have hwritten := hcontents.write hlen i pageId
    rw [StoreState.storePage_of_ok hinit hencode htarget]
    generalize (st'.accountOverwritten i).stats.accountAdded encoded.pageClass
      encoded.bytes.length = stats at hcalls hpages hwritten ⊢
    simp only [StoreStats.calls, StoreStats.mk.injEq, true_and] at hcalls
    obtain ⟨-, -, hreq, hsucc, hload, hloaded, hmissed, hrepl, hevict, hencfail, hdecfail⟩ :=
      hcalls
    rw [hchosen.storeRequests, show st.countStoreRequest.stats.storeRequests =
      st.stats.storeRequests + 1 from satAdd_of_lt hlt] at hreq
    rw [hchosen.storeSuccesses] at hsucc
    have hpages' : stats.storedPages + (st.slots i).tally .pages = st.stats.storedPages + 1 := by
      rw [hchosen.tally, hchosen.slots] at hpages
      exact hpages
    have hoverwritten : stats.replacements + stats.evictions =
        st.stats.replacements + st.stats.evictions + (st.slots i).tally .pages := by
      rw [hrepl, hevict]
      exact hchosen.overwritten
    have hsuccess : satAdd stats.storeSuccesses 1 = st.stats.storeSuccesses + 1 := by
      rw [hsucc]
      exact satAdd_of_lt (Nat.lt_of_le_of_lt (Nat.add_le_add_right hsuccesses 1) hlt)
    refine ⟨⟨hwritten, ?_, ?_, ?_⟩, hreq.le, hload.trans hchosen.loadRequests⟩
    · change stats.storeRequests = satAdd stats.storeSuccesses 1 + stats.encodeFailures
      rw [hreq, hsuccess, hencfail, hchosen.encodeFailures, h.storeRequests]
      exact Nat.add_right_comm _ _ _
    · change satAdd stats.storeSuccesses 1 =
        stats.storedPages + stats.replacements + stats.evictions
      rw [hsuccess, h.storeSuccesses]
      omega
    · change stats.loadRequests = stats.loadSuccesses + stats.loadMisses + stats.decodeFailures
      rw [hload, hloaded, hmissed, hdecfail, hchosen.loadRequests, hchosen.loadSuccesses,
        hchosen.loadMisses, hchosen.decodeFailures]
      exact h.loadRequests

/-- `load_page` counts one request and one outcome, and leaves the slots. -/
theorem loadPage_cases (hinit : ¬ st.initialized = false) (rt : CompressionRuntime)
    (pageId : UInt64) (out : List UInt8) :
    ∃ successes misses failures, (st.loadPage profileGenerated rt pageId out).2.2.1 =
        { st with stats := { st.stats with
          loadRequests := satAdd st.stats.loadRequests 1
          loadSuccesses := successes
          loadMisses := misses
          decodeFailures := failures } } ∧
      ((successes, misses, failures) =
          (satAdd st.stats.loadSuccesses 1, st.stats.loadMisses, st.stats.decodeFailures) ∨
        (successes, misses, failures) =
          (st.stats.loadSuccesses, satAdd st.stats.loadMisses 1, st.stats.decodeFailures) ∨
        (successes, misses, failures) =
          (st.stats.loadSuccesses, st.stats.loadMisses, satAdd st.stats.decodeFailures 1)) := by
  rw [StoreState.loadPage, if_neg hinit]
  dsimp only
  split
  · exact ⟨_, _, _, rfl, .inr (.inl rfl)⟩
  · split
    · exact ⟨_, _, _, rfl, .inl rfl⟩
    · exact ⟨_, _, _, rfl, .inr (.inr rfl)⟩

/-- **`load_page`** keeps the counters right, and counts at most one request. -/
theorem loadPage (h : st.Accounts) (hlt : st.stats.loadRequests + 1 < 2 ^ 64)
    (rt : CompressionRuntime) (pageId : UInt64) (out : List UInt8) :
    (st.loadPage profileGenerated rt pageId out).2.2.1.Accounts ∧
      (st.loadPage profileGenerated rt pageId out).2.2.1.stats.loadRequests ≤
        st.stats.loadRequests + 1 ∧
      (st.loadPage profileGenerated rt pageId out).2.2.1.stats.storeRequests =
        st.stats.storeRequests := by
  by_cases hinit : st.initialized = false
  · rw [StoreState.loadPage, if_pos hinit]
    exact ⟨h, Nat.le_succ _, rfl⟩
  obtain ⟨successes, misses, failures, heq, hcases⟩ := loadPage_cases hinit rt pageId out
  have hloads := h.loadRequests
  rw [heq]
  refine ⟨⟨h.contents, h.storeRequests, h.storeSuccesses, ?_⟩, satAdd_le _ _, rfl⟩
  change satAdd st.stats.loadRequests 1 = successes + misses + failures
  rw [satAdd_of_lt hlt]
  rcases hcases with hcase | hcase | hcase <;> simp only [Prod.mk.injEq] at hcase <;>
    obtain ⟨rfl, rfl, rfl⟩ := hcase <;> rw [satAdd_of_lt (by omega)] <;> omega

end StoreState.Accounts

end Compress

/-! ### The calls of the pager -/

/-- The counters of the pager add up. -/
structure PagerStats.Balanced (stats : PagerStats) : Prop where
  reclaimRequests : stats.reclaimRequests = stats.reclaimSuccesses + stats.reclaimFailures
  restoreRequests : stats.restoreRequests = stats.restoreSuccesses + stats.restoreFailures
  reclaimSuccesses : stats.reclaimSuccesses = stats.reclaimedZeroPages +
    stats.reclaimedSamePages + stats.reclaimedSxrcPages + stats.reclaimedRawPages
  restoreSuccesses : stats.restoreSuccesses = stats.restoredZeroPages +
    stats.restoredSamePages + stats.restoredSxrcPages + stats.restoredRawPages

namespace PagerStats.Balanced

variable {stats : PagerStats}

theorem reclaimed (h : stats.Balanced) (hlt : stats.reclaimRequests + 1 < 2 ^ 64)
    (c : CompressionClass) :
    (PagerStats.accountReclaimedClass { stats with
      reclaimRequests := satAdd stats.reclaimRequests 1
      reclaimSuccesses := satAdd stats.reclaimSuccesses 1 } c).Balanced := by
  obtain ⟨hreclaim, hrestore, hclasses, hrestored⟩ := h
  have hrequest := satAdd_of_lt hlt
  have hsuccess : satAdd stats.reclaimSuccesses 1 = stats.reclaimSuccesses + 1 :=
    satAdd_of_lt (by omega)
  cases c <;> refine ⟨?_, hrestore, ?_, hrestored⟩ <;>
    simp only [PagerStats.accountReclaimedClass, hrequest, hsuccess] <;>
    first | omega | (rw [satAdd_of_lt (by omega)]; omega)

theorem restored (h : stats.Balanced) (hlt : stats.restoreRequests + 1 < 2 ^ 64)
    (c : CompressionClass) :
    (PagerStats.accountRestoredClass { stats with
      restoreRequests := satAdd stats.restoreRequests 1
      restoreSuccesses := satAdd stats.restoreSuccesses 1 } c).Balanced := by
  obtain ⟨hreclaim, hrestore, hclasses, hrestored⟩ := h
  have hrequest := satAdd_of_lt hlt
  have hsuccess : satAdd stats.restoreSuccesses 1 = stats.restoreSuccesses + 1 :=
    satAdd_of_lt (by omega)
  cases c <;> refine ⟨hreclaim, ?_, hclasses, ?_⟩ <;>
    simp only [PagerStats.accountRestoredClass, hrequest, hsuccess] <;>
    first | omega | (rw [satAdd_of_lt (by omega)]; omega)

end PagerStats.Balanced

theorem PagerStats.requests_accountReclaimedClass (stats : PagerStats) (c : CompressionClass) :
    (stats.accountReclaimedClass c).reclaimRequests = stats.reclaimRequests ∧
      (stats.accountReclaimedClass c).restoreRequests = stats.restoreRequests := by
  cases c <;> exact ⟨rfl, rfl⟩

theorem PagerStats.requests_accountRestoredClass (stats : PagerStats) (c : CompressionClass) :
    (stats.accountRestoredClass c).reclaimRequests = stats.reclaimRequests ∧
      (stats.accountRestoredClass c).restoreRequests = stats.restoreRequests := by
  cases c <;> exact ⟨rfl, rfl⟩

/-- The counters of the pager and of its store are right. -/
structure Counted (w : PagerWorld) : Prop where
  store : w.store.Accounts
  pager : w.pager.stats.Balanced
  storeRequests : w.store.stats.storeRequests ≤ w.pager.stats.reclaimRequests
  loadRequests : w.store.stats.loadRequests ≤ w.pager.stats.restoreRequests

namespace Counted

variable {w : PagerWorld} {pageId : UInt64}

theorem booted : Counted PagerWorld.booted where
  store := ⟨fun k => by
    have hslot : StoreSlot.empty.tally k = 0 := rfl
    have hsum : ∑ _i : Fin storeCapacityPages, StoreSlot.empty.tally k = 0 := by
      rw [hslot, Finset.sum_const_zero]
    refine Eq.trans ?_ hsum.symm
    cases k with
    | pages => rfl
    | ofClass c => cases c <;> rfl
    | bytes => rfl, rfl, rfl, rfl⟩
  pager := ⟨rfl, rfl, rfl, rfl⟩
  storeRequests := le_rfl
  loadRequests := le_rfl

/-- **`reclaim_page`** keeps the counters right. -/
theorem reclaimPage (h : Counted w) (hlt : w.pager.stats.reclaimRequests + 1 < 2 ^ 64)
    (page : Page) : Counted (w.reclaimPage profileGenerated pageId page).2 := by
  have hrequest : satAdd w.pager.stats.reclaimRequests 1 = w.pager.stats.reclaimRequests + 1 :=
    satAdd_of_lt hlt
  have hle := Nat.add_le_add_right h.storeRequests 1
  obtain ⟨hstore, hstores, hloads⟩ :=
    h.store.storePage (Nat.lt_of_le_of_lt hle hlt) w.runtime pageId page
  have hle' := hstores.trans hle
  rw [← hrequest] at hle'
  rw [PagerWorld.reclaimPage]
  split_ifs with hinit
  · exact h
  dsimp only
  split
  next entry store runtime heq =>
    rw [heq] at hstore hle' hloads
    have hkept := PagerStats.requests_accountReclaimedClass { w.pager.stats with
      reclaimRequests := satAdd w.pager.stats.reclaimRequests 1
      reclaimSuccesses := satAdd w.pager.stats.reclaimSuccesses 1 } entry.pageClass
    exact ⟨hstore, h.pager.reclaimed hlt entry.pageClass, hle'.trans_eq hkept.1.symm,
      (hloads.trans_le h.loadRequests).trans_eq hkept.2.symm⟩
  next e store runtime heq =>
    rw [heq] at hstore hle' hloads
    refine ⟨hstore, ⟨?_, h.pager.restoreRequests, h.pager.reclaimSuccesses,
      h.pager.restoreSuccesses⟩, hle', hloads.trans_le h.loadRequests⟩
    have hsum := h.pager.reclaimRequests
    change satAdd w.pager.stats.reclaimRequests 1 =
      w.pager.stats.reclaimSuccesses + satAdd w.pager.stats.reclaimFailures 1
    rw [hrequest, satAdd_of_lt (by omega)]
    omega

/-- **`restore_page`** keeps the counters right. -/
theorem restorePage (h : Counted w) (hlt : w.pager.stats.restoreRequests + 1 < 2 ^ 64)
    (out : List UInt8) : Counted (w.restorePage profileGenerated pageId out).2.2 := by
  have hrequest : satAdd w.pager.stats.restoreRequests 1 = w.pager.stats.restoreRequests + 1 :=
    satAdd_of_lt hlt
  have hle := Nat.add_le_add_right h.loadRequests 1
  obtain ⟨hstore, hloads, hstores⟩ :=
    h.store.loadPage (Nat.lt_of_le_of_lt hle hlt) w.runtime pageId out
  have hle' := hloads.trans hle
  rw [← hrequest] at hle'
  rw [PagerWorld.restorePage]
  split_ifs with hinit
  · exact h
  dsimp only
  split
  next entry out store runtime heq =>
    rw [heq] at hstore hle' hstores
    have hkept := PagerStats.requests_accountRestoredClass { w.pager.stats with
      restoreRequests := satAdd w.pager.stats.restoreRequests 1
      restoreSuccesses := satAdd w.pager.stats.restoreSuccesses 1 } entry.pageClass
    exact ⟨hstore, h.pager.restored hlt entry.pageClass,
      (hstores.trans_le h.storeRequests).trans_eq hkept.1.symm, hle'.trans_eq hkept.2.symm⟩
  next e out store runtime heq =>
    rw [heq] at hstore hle' hstores
    have hsum : satAdd w.pager.stats.restoreRequests 1 =
        w.pager.stats.restoreSuccesses + satAdd w.pager.stats.restoreFailures 1 := by
      have hsum := h.pager.restoreRequests
      rw [hrequest, satAdd_of_lt (by omega)]
      omega
    -- A miss is counted once more, in a counter of its own.
    split_ifs with hmiss
    · exact ⟨hstore, ⟨h.pager.reclaimRequests, hsum, h.pager.reclaimSuccesses,
        h.pager.restoreSuccesses⟩, hstores.trans_le h.storeRequests, hle'⟩
    · exact ⟨hstore, ⟨h.pager.reclaimRequests, hsum, h.pager.reclaimSuccesses,
        h.pager.restoreSuccesses⟩, hstores.trans_le h.storeRequests, hle'⟩

end Counted

/-! ### Runs -/

section Requests

variable {w : PagerWorld}

/-- Neither request counter of the pager is saturated. -/
def PagerWorld.Unsaturated (w : PagerWorld) : Prop :=
  w.pager.stats.reclaimRequests < maxValue ∧ w.pager.stats.restoreRequests < maxValue

theorem requests_reclaimPage (pageId : UInt64) (page : Page) :
    (w.reclaimPage profileGenerated pageId page).2 = w ∨
      (w.reclaimPage profileGenerated pageId page).2.pager.stats.reclaimRequests =
          satAdd w.pager.stats.reclaimRequests 1 ∧
        (w.reclaimPage profileGenerated pageId page).2.pager.stats.restoreRequests =
          w.pager.stats.restoreRequests := by
  rw [PagerWorld.reclaimPage]
  split_ifs with hinit
  · exact .inl rfl
  · right
    dsimp only
    split
    · exact PagerStats.requests_accountReclaimedClass _ _
    · exact ⟨rfl, rfl⟩

theorem requests_restorePage (pageId : UInt64) (out : List UInt8) :
    (w.restorePage profileGenerated pageId out).2.2 = w ∨
      (w.restorePage profileGenerated pageId out).2.2.pager.stats.restoreRequests =
          satAdd w.pager.stats.restoreRequests 1 ∧
        (w.restorePage profileGenerated pageId out).2.2.pager.stats.reclaimRequests =
          w.pager.stats.reclaimRequests := by
  rw [PagerWorld.restorePage]
  split_ifs with hinit
  · exact .inl rfl
  · right
    dsimp only
    split
    · exact (PagerStats.requests_accountRestoredClass _ _).symm
    · split_ifs <;> exact ⟨rfl, rfl⟩

theorem add_one_lt_of_satAdd (h : satAdd a 1 < maxValue) : a + 1 < maxValue := by
  rw [satAdd] at h
  exact (min_lt_iff.mp h).resolve_right (lt_irrefl _)

/-- One call keeps the counters right as long as no request counter is saturated. -/
theorem Counted.call (h : w.Unsaturated → Counted w) (c : PagerCall)
    (hunsaturated : (w.call c).2.Unsaturated) : Counted (w.call c).2 := by
  cases c with
  | reclaim pageId page =>
    have hstate : (w.call (.reclaim pageId page)).2 =
        (w.reclaimPage profileGenerated pageId page).2 := by
      rw [PagerWorld.call]
      split <;> simp only [*]
    rw [hstate] at hunsaturated ⊢
    rcases requests_reclaimPage (w := w) pageId page with heq | ⟨hreclaim, hrestore⟩
    · rw [heq] at hunsaturated ⊢
      exact h hunsaturated
    · rw [PagerWorld.Unsaturated, hreclaim, hrestore] at hunsaturated
      have hlt := add_one_lt_of_satAdd hunsaturated.1
      exact (h ⟨(Nat.lt_succ_self _).trans hlt, hunsaturated.2⟩).reclaimPage
        (hlt.trans (by decide)) page
  | restore pageId out =>
    have hstate : (w.call (.restore pageId out)).2 =
        (w.restorePage profileGenerated pageId out.bytes).2.2 := by
      rw [PagerWorld.call]
      split <;> simp only [*]
    rw [hstate] at hunsaturated ⊢
    rcases requests_restorePage (w := w) pageId out.bytes with heq | ⟨hrestore, hreclaim⟩
    · rw [heq] at hunsaturated ⊢
      exact h hunsaturated
    · rw [PagerWorld.Unsaturated, hreclaim, hrestore] at hunsaturated
      have hlt := add_one_lt_of_satAdd hunsaturated.2
      exact (h ⟨hunsaturated.1, (Nat.lt_succ_self _).trans hlt⟩).restorePage
        (hlt.trans (by decide)) out.bytes

end Requests

/-- The counters are right after every sequence of calls. -/
theorem Counted.final (calls : List PagerCall)
    (h : (final PagerWorld.call PagerWorld.booted calls).Unsaturated) :
    Counted (Hxnu.final PagerWorld.call PagerWorld.booted calls) :=
  final_invariant (I := fun w => w.Unsaturated → Counted w) (fun _ c hw => Counted.call hw c) calls
    (fun _ => Counted.booted) h

section Sums

variable {st : StoreState}

theorem sum_tally_pages :
    ∑ i, (st.slots i).tally .pages = Finset.card {i | (st.slots i).occupied = true} := by
  rw [Finset.card_filter]
  rfl

theorem sum_tally_ofClass (c : CompressionClass) :
    ∑ i, (st.slots i).tally (.ofClass c) =
      Finset.card {i | (st.slots i).occupied = true ∧ (st.slots i).pageClass = c} := by
  rw [Finset.card_filter]
  refine Finset.sum_congr rfl fun i _ => ?_
  rw [ite_and]
  rfl

theorem sum_tally_bytes :
    ∑ i, (st.slots i).tally .bytes =
      ∑ i with (st.slots i).occupied = true, (st.slots i).encodedLen.toNat := by
  rw [Finset.sum_filter]
  rfl

end Sums

/-- **The counters agree with the store and with each other.** After every sequence of calls that
leaves the two request counters of the pager below `2 ^ 64 - 1`, which bound the counters of all
outcomes, the counters of the contents are those of the occupied slots, no subtraction for one of
them would be clipped, and the counters of calls add up. -/
theorem counters_agree (calls : List PagerCall) {w : PagerWorld}
    (hw : final PagerWorld.call PagerWorld.booted calls = w)
    (hreclaim : w.pager.stats.reclaimRequests < 2 ^ 64 - 1)
    (hrestore : w.pager.stats.restoreRequests < 2 ^ 64 - 1) :
    -- the contents of the store
    (w.store.stats.storedPages = Finset.card {i | (w.store.slots i).occupied = true} ∧
      w.store.stats.storedPages ≤ storeCapacityPages ∧
      (∀ c, w.store.stats.tally (.ofClass c) =
        Finset.card {i | (w.store.slots i).occupied = true ∧ (w.store.slots i).pageClass = c}) ∧
      w.store.stats.currentEncodedBytes =
        ∑ i with (w.store.slots i).occupied = true, (w.store.slots i).encodedLen.toNat ∧
      (∀ i, (w.store.slots i).occupied = true →
        1 ≤ w.store.stats.tally (.ofClass (w.store.slots i).pageClass) ∧
          (w.store.slots i).encodedLen.toNat ≤ w.store.stats.currentEncodedBytes)) ∧
    -- the calls of the store
    (w.store.stats.storeRequests = w.store.stats.storeSuccesses + w.store.stats.encodeFailures ∧
      w.store.stats.storeSuccesses = w.store.stats.storedPages + w.store.stats.replacements +
        w.store.stats.evictions ∧
      w.store.stats.loadRequests = w.store.stats.loadSuccesses + w.store.stats.loadMisses +
        w.store.stats.decodeFailures) ∧
    -- the calls of the pager
    w.pager.stats.Balanced := by
  subst hw
  have hcounted := Counted.final calls ⟨hreclaim, hrestore⟩
  generalize final PagerWorld.call PagerWorld.booted calls = w at hcounted
  have hstore := hcounted.store
  have hpages := (hstore.contents .pages).trans sum_tally_pages
  refine ⟨⟨hpages, ?_, fun c => (hstore.contents _).trans (sum_tally_ofClass c),
    (hstore.contents .bytes).trans sum_tally_bytes, fun i hocc => ?_⟩,
    ⟨hstore.storeRequests, hstore.storeSuccesses, hstore.loadRequests⟩, hcounted.pager⟩
  · calc w.store.stats.storedPages
        = Finset.card {i | (w.store.slots i).occupied = true} := hpages
      _ ≤ Fintype.card (Fin storeCapacityPages) := Finset.card_le_univ _
      _ = storeCapacityPages := Fintype.card_fin _
  · have hclass := hstore.contents.tally_slot_le i (.ofClass (w.store.slots i).pageClass)
    have hbytes := hstore.contents.tally_slot_le i .bytes
    rw [StoreSlot.tally, if_pos hocc] at hclass hbytes
    rw [Tally.of, if_pos rfl] at hclass
    exact ⟨hclass, hbytes⟩

/-- A page reclaimed twice and restored, and a restore of a page that was never reclaimed. -/
def replacedCalls : List PagerCall :=
  let page : Page := ⟨List.replicate pageBytes 5, List.length_replicate⟩
  [.reclaim 1 page, .reclaim 1 page, .restore 1 page, .restore 2 page]

theorem counters_agree_replaced :
    (final PagerWorld.call PagerWorld.booted replacedCalls).pager.stats.reclaimRequests = 2 ∧
      (final PagerWorld.call PagerWorld.booted replacedCalls).pager.stats.restoreRequests = 2 ∧
      (final PagerWorld.call PagerWorld.booted replacedCalls).pager.stats.Balanced := by
  have hreclaim : (final PagerWorld.call PagerWorld.booted
      replacedCalls).pager.stats.reclaimRequests = 2 := by decide +kernel
  have hrestore : (final PagerWorld.call PagerWorld.booted
      replacedCalls).pager.stats.restoreRequests = 2 := by decide +kernel
  exact ⟨hreclaim, hrestore, (counters_agree replacedCalls rfl (hreclaim.trans_lt (by decide))
    (hrestore.trans_lt (by decide))).2.2⟩

end Hxnu.Mm
