import Hxnu.Mm.Compress.Encoding

/-!
# The codec round trip

A payload of class `sxrc` is the serialisation of a list of tokens, and each token stands for some
bytes of the page (`Token.expand`). The tokens of the encoder stand for the bytes of the page that
have not been emitted, pending literal bytes included; the decoder loop inverts the serialisation of
any such list.

## Main results

* `decodeLoop_serialize`: the decoder turns serialised tokens into the bytes they stand for.
* `expands_tokensFrom`: the tokens of the encoder stand for the page.
* `decodePage_encodePage`: every page survives the round trip, for all tables with distinct ids.
-/

namespace Hxnu.Mm.Compress

open Buffer List

variable {page : Page} {offset : ℕ}

/-! ### What tokens stand for -/

/-- The tokens stand for the bytes, each for at least one. -/
inductive Expands (profile : Profile) : List Token → List UInt8 → Prop
  | nil : Expands profile [] []
  | cons {t : Token} {ts : List Token} {xs ys : List UInt8} (h : t.expand profile = some xs)
      (hne : xs ≠ []) (hr : Expands profile ts ys) : Expands profile (t :: ts) (xs ++ ys)

variable {profile : Profile}

/-! ### Decoding a token stream -/

theorem ofLeBytes_leBytes_u16 (v : UInt16) : UInt16.ofNat (ofLeBytes (leBytes 2 v.toNat)) = v := by
  have hv : v.toNat % 256 ^ 2 = v.toNat := Nat.mod_eq_of_lt v.toNat_lt
  rw [ofLeBytes_leBytes, hv, UInt16.ofNat_toNat]

theorem ofLeBytes_leBytes_u32 (v : UInt32) : UInt32.ofNat (ofLeBytes (leBytes 4 v.toNat)) = v := by
  have hv : v.toNat % 256 ^ 4 = v.toNat := Nat.mod_eq_of_lt v.toNat_lt
  rw [ofLeBytes_leBytes, hv, UInt32.ofNat_toNat]

theorem readU16_append (pre rest : List UInt8) (id : UInt16) :
    readU16 (pre ++ (leBytes 2 id.toNat ++ rest)) pre.length = .ok (id, pre.length + 2) := by
  have hslice := slice_append pre (leBytes 2 id.toNat) rest
  rw [length_leBytes] at hslice
  rw [readU16, if_neg (by simp; omega), hslice, ofLeBytes_leBytes_u16]

/-- The decoder reads back a token. -/
theorem decodeToken_append {t : Token} {xs : List UInt8} (h : t.expand profile = some xs)
    (pre rest : List UInt8) :
    decodeToken profile (pre ++ (t.bytes ++ rest)) pre.length =
      .ok (xs, pre.length + t.bytes.length) := by
  have htag (b : UInt8) (l : List UInt8) : (pre ++ b :: l).getD pre.length 0 = b := by simp
  have hnext (b : UInt8) (l : List UInt8) : pre ++ b :: l = (pre ++ [b]) ++ l := by simp
  have hlength (b : UInt8) : pre.length + 1 = (pre ++ [b]).length := by simp
  cases t with
  | literal run =>
    simp only [Token.expand] at h
    split_ifs at h with hrun
    obtain rfl := Option.some.inj h
    have hlen : (UInt8.ofNat run.length).toNat = run.length := by
      rw [UInt8.toNat_ofNat']
      omega
    have hrunLen : (pre ++ tokenLiteral :: UInt8.ofNat run.length :: (run ++ rest)).getD
        (pre.length + 1) 0 = UInt8.ofNat run.length := by
      simp
    have hslice := slice_append (pre ++ [tokenLiteral, UInt8.ofNat run.length]) run rest
    simp only [append_assoc, cons_append, nil_append, length_append,
      length_cons, length_nil, Nat.zero_add, Nat.reduceAdd] at hslice
    simp only [Token.bytes, cons_append, decodeToken, htag, hrunLen, hlen, hslice, if_true,
      length_append, length_cons, Nat.add_assoc, Nat.reduceAdd]
    rw [if_neg (by omega), if_neg (by omega), if_neg (by omega)]
    congr 2
    omega
  | dictionary id =>
    obtain ⟨value, hvalue, rfl⟩ := Option.map_eq_some_iff.mp h
    have hread := readU16_append (pre ++ [tokenDict]) rest id
    rw [← hlength, ← hnext] at hread
    simp only [Token.bytes, cons_append, decodeToken, htag, hread, hvalue, if_true,
      length_cons, length_leBytes, if_neg (show tokenDict ≠ tokenLiteral by decide)]
    rfl
  | pattern id =>
    have hread := readU16_append (pre ++ [tokenPattern]) rest id
    rw [← hlength, ← hnext] at hread
    have hbytes : lookupPatternById profile id = some xs := h
    simp only [Token.bytes, cons_append, decodeToken, htag, hread, hbytes, if_true,
      length_cons, length_leBytes, if_neg (show tokenPattern ≠ tokenLiteral by decide),
      if_neg (show tokenPattern ≠ tokenDict by decide)]

theorem decodeLoop_step {payload out bytes : List UInt8} {read write next : ℕ}
    (hwrite : write < pageBytes) (hread : read < payload.length)
    (htoken : decodeToken profile payload read = .ok (bytes, next))
    (hfit : write + bytes.length ≤ pageBytes) :
    decodeLoop profile payload out read write =
      decodeLoop profile payload (splice out write bytes) next (write + bytes.length) := by
  rw [decodeLoop, if_pos hwrite, if_neg (not_le.mpr hread)]
  split
  · rename_i heq
    rw [htoken] at heq
    cases heq
  · rename_i heq
    rw [htoken] at heq
    cases heq
    rw [if_neg (not_lt.mpr hfit)]

/-- **The decoder inverts serialisation.** The tokens left in the payload fill the rest of the
page. -/
theorem decodeLoop_serialize {ts : List Token} {xs : List UInt8} (h : Expands profile ts xs)
    (pre out : List UInt8) (write : ℕ) (hout : out.length = pageBytes)
    (hwrite : write + xs.length = pageBytes) :
    decodeLoop profile (pre ++ serialize ts) out pre.length write =
      (.ok (), out.take write ++ xs) := by
  induction h generalizing pre out write with
  | nil =>
    rw [length_nil, Nat.add_zero] at hwrite
    rw [decodeLoop, if_neg (by omega), if_neg (by simp), append_nil,
      take_of_length_le (by omega)]
  | @cons t ts xs ys ht hne hts ih =>
    have hpos : 0 < xs.length := length_pos_iff.mpr hne
    have htpos := t.bytes_length_pos
    rw [length_append] at hwrite
    rw [serialize_cons, decodeLoop_step (by omega) (by simp; omega)
      (decodeToken_append ht pre (serialize ts)) (by omega)]
    have hrest := ih (pre ++ t.bytes) (splice out write xs) (write + xs.length)
      (by rw [length_splice (by omega), hout]) (by omega)
    rw [append_assoc, length_append] at hrest
    rw [hrest, take_splice (by omega), append_assoc]

/-! ### The token picked stands for the bytes at the read position -/

/-- The tables hold each id at most once. -/
structure Profile.DistinctIds (profile : Profile) : Prop where
  dictionary : (profile.dictionary.map Prod.fst).Nodup
  patterns : (profile.patterns.map Prod.fst).Nodup

/-- In a table with distinct ids, looking up the id of an entry finds the entry. -/
theorem find?_id_of_mem {β : Type*} {table : List (UInt16 × β)}
    (hnodup : (table.map Prod.fst).Nodup) {entry : UInt16 × β} (hmem : entry ∈ table) :
    table.find? (fun e => e.1 == entry.1) = some entry := by
  induction table with
  | nil => simp at hmem
  | cons e table ih =>
    rw [map_cons, nodup_cons] at hnodup
    rcases mem_cons.mp hmem with rfl | hmem
    · simp
    · have hne : e.1 ≠ entry.1 := fun heq =>
        hnodup.1 (heq ▸ mem_map_of_mem hmem)
      rw [find?_cons_of_neg (by simpa using hne)]
      exact ih hnodup.2 hmem

theorem leBytes_ofNat_slice (h : offset + 4 ≤ pageBytes) :
    leBytes 4 (UInt32.ofNat (ofLeBytes (slice page.bytes offset 4))).toNat =
      slice page.bytes offset 4 := by
  have hlen : (slice page.bytes offset 4).length = 4 :=
    length_slice (by rw [page.length_bytes]; exact h)
  have hlt := ofLeBytes_lt (slice page.bytes offset 4)
  have hbytes := leBytes_ofLeBytes (slice page.bytes offset 4)
  rw [hlen] at hlt hbytes
  rw [UInt32.toNat_ofNat', Nat.mod_eq_of_lt (by omega), hbytes]

/-- A token that stands for the bytes of the page at an offset. -/
def StandsAt (profile : Profile) (page : Page) (offset : ℕ) (token : EncodeToken) : Prop :=
  token.toToken.expand profile = some (slice page.bytes offset token.decodedLen) ∧
    offset + token.decodedLen ≤ pageBytes

theorem dictionaryCandidate_standsAt (hids : profile.DistinctIds)
    (h : dictionaryCandidate profile page offset = some p) : StandsAt profile page offset p.2 := by
  rw [dictionaryCandidate] at h
  split_ifs at h with hfit
  simp only at h
  split at h
  · rename_i id hid
    split_ifs at h
    obtain rfl := Option.some.inj h
    obtain ⟨entry, hentry, rfl⟩ := Option.map_eq_some_iff.mp hid
    have hvalue := find?_some hentry
    have hfind := find?_id_of_mem hids.dictionary (mem_of_find?_eq_some hentry)
    refine ⟨?_, hfit⟩
    simp only [EncodeToken.toToken, Token.expand, lookupDictionaryById, hfind, Option.map_some,
      EncodeToken.decodedLen, eq_of_beq hvalue, dictDecodeBytes, leBytes_ofNat_slice hfit]
  · cases h

/-- What `best_pattern_at` finds is an entry of the table that occurs at the offset. -/
theorem bestPatternAt_eq_some (h : bestPatternAt profile page offset = some entry) :
    entry ∈ profile.patterns ∧ slice page.bytes offset entry.2.length = entry.2 ∧
      offset + entry.2.length ≤ pageBytes := by
  let Found (best : Option (UInt16 × List UInt8)) : Prop := ∀ e, best = some e →
    e ∈ profile.patterns ∧ slice page.bytes offset e.2.length = e.2 ∧
      offset + e.2.length ≤ pageBytes
  have hstep (best : Option (UInt16 × List UInt8)) (hbest : Found best)
      (e : UInt16 × List UInt8) (he : e ∈ profile.patterns) :
      Found (betterPattern page offset best e) := by
    rw [betterPattern]
    split_ifs with h₁ h₂ h₃ h₄
    · exact hbest
    · exact hbest
    · exact hbest
    · intro e' he'
      obtain rfl := Option.some.inj he'
      exact ⟨he, not_not.mp h₃, not_lt.mp h₂⟩
    · exact hbest
  have hfound : Found (bestPatternAt profile page offset) :=
    List.foldlRecOn profile.patterns (betterPattern page offset) (fun _ h => by cases h) hstep
  exact hfound entry h

theorem pickToken_standsAt (hids : profile.DistinctIds)
    (h : pickToken profile page offset = some token) : StandsAt profile page offset token := by
  obtain ⟨p, hp, rfl⟩ := Option.map_eq_some_iff.mp h
  rw [orPattern.eq_def] at hp
  split at hp
  · rename_i id bytes hbest
    obtain ⟨hmem, hslice, hfit⟩ := bestPatternAt_eq_some hbest
    simp only at hp
    split_ifs at hp
    · obtain rfl := Option.some.inj hp
      refine ⟨?_, hfit⟩
      have hfind := find?_id_of_mem hids.patterns hmem
      simp only [EncodeToken.toToken, Token.expand, lookupPatternById, hfind, Option.map_some,
        EncodeToken.decodedLen, hslice]
    · exact dictionaryCandidate_standsAt hids hp
    · exact dictionaryCandidate_standsAt hids hp
  · exact dictionaryCandidate_standsAt hids hp

/-! ### The tokens of a page stand for the page -/

theorem slice_ne_nil (hpos : 0 < len) (hfit : start + len ≤ pageBytes) :
    slice page.bytes start len ≠ [] := by
  have hlen := length_slice (hfit.trans page.length_bytes.ge)
  intro hnil
  rw [hnil, length_nil] at hlen
  omega

section Tokens

variable {page : Page} {read literalStart literalLen : ℕ} {ts : List Token}

theorem expands_literal (hpos : 0 < literalLen) (hle : literalLen ≤ 255)
    (hfit : literalStart + literalLen ≤ pageBytes)
    (h : Expands profile ts (page.bytes.drop (literalStart + literalLen))) :
    Expands profile (.literal (slice page.bytes literalStart literalLen) :: ts)
      (page.bytes.drop literalStart) := by
  have hlen := length_slice (hfit.trans page.length_bytes.ge)
  have hexpand : (Token.literal (slice page.bytes literalStart literalLen)).expand profile =
      some (slice page.bytes literalStart literalLen) := if_pos (by rw [hlen]; exact ⟨hpos, hle⟩)
  rw [← slice_append_drop page.bytes literalStart literalLen]
  exact .cons hexpand (slice_ne_nil hpos hfit) h

/-- Pending literal bytes are the last bytes read. -/
theorem expands_pendingTokens (hlt : literalLen < 255)
    (hpending : literalLen = 0 ∨ literalStart + literalLen = read ∧ read ≤ pageBytes)
    (h : Expands profile ts (page.bytes.drop read)) :
    Expands profile (pendingTokens page literalStart literalLen ++ ts)
      (page.bytes.drop (read - literalLen)) := by
  rw [pendingTokens]
  split_ifs with hpos
  · obtain ⟨rfl, hread⟩ := hpending.resolve_left hpos.ne'
    rw [Nat.add_sub_cancel]
    exact expands_literal hpos hlt.le hread h
  · rw [Nat.eq_zero_of_not_pos hpos]
    exact h

/-- **The tokens stand for the bytes of the page** that have not been emitted. -/
theorem expands_tokensFrom (hids : profile.DistinctIds) (hread : read ≤ pageBytes)
    (hlt : literalLen < 255)
    (hpending : literalLen = 0 ∨ literalStart + literalLen = read ∧ read ≤ pageBytes) :
    Expands profile (tokensFrom profile page read literalStart literalLen)
      (page.bytes.drop (read - literalLen)) := by
  fun_induction tokensFrom profile page read literalStart literalLen with
  | case1 read literalStart literalLen hlt' token hpick _ ih =>
    obtain ⟨hexpand, hfit⟩ := pickToken_standsAt hids hpick
    refine expands_pendingTokens hlt hpending ?_
    rw [← slice_append_drop page.bytes read token.decodedLen]
    exact .cons hexpand (slice_ne_nil token.decodedLen_pos hfit)
      (ih hfit (by decide) (.inl rfl))
  | case2 read literalStart literalLen hlt' hpick start hfull ih =>
    have hstart : start + (literalLen + 1) = read + 1 := literalStart_add hpending
    have hbegin : read - literalLen = start := by omega
    rw [hbegin]
    refine expands_literal (Nat.succ_pos _) hfull.le (hstart.trans_le hlt') ?_
    rw [hstart]
    exact ih hlt' (by decide) (.inl rfl)
  | case3 read literalStart literalLen hlt' hpick start hfull ih =>
    have hstart : start + (literalLen + 1) = read + 1 := literalStart_add hpending
    rw [← Nat.add_sub_add_right read 1]
    exact ih hlt' (by omega) (.inr ⟨hstart, hlt'⟩)
  | case4 read literalStart literalLen hend =>
    have hnone : page.bytes.drop read = [] :=
      drop_eq_nil_of_le (by rw [page.length_bytes]; exact not_lt.mp hend)
    rw [← append_nil (pendingTokens page literalStart literalLen)]
    exact expands_pendingTokens hlt hpending (hnone ▸ .nil)

end Tokens

/-! ### Headers -/

theorem CompressionClass.fromId_id (c : CompressionClass) : fromId c.id = .ok c := by
  cases c <;> decide

theorem EncodedHeader.decode_toBytes (header : EncodedHeader) (payload : List UInt8) :
    EncodedHeader.decode (header.toBytes ++ payload) = .ok header := by
  have hmagic : readU32Le (header.toBytes ++ payload) 0 = UInt32.ofNat (ofLeBytes magic) := rfl
  have hversion : (header.toBytes ++ payload).getD 4 0 = version := rfl
  have hclass : (header.toBytes ++ payload).getD 5 0 = header.pageClass.id := rfl
  have hlen : readU16Le (header.toBytes ++ payload) 6 = header.payloadLen :=
    ofLeBytes_leBytes_u16 header.payloadLen
  have hdecoded : readU16Le (header.toBytes ++ payload) 8 = UInt16.ofNat pageBytes := rfl
  have hsum : readU32Le (header.toBytes ++ payload) 12 = header.checksum :=
    ofLeBytes_leBytes_u32 header.checksum
  rw [EncodedHeader.decode, if_neg (by simp), hmagic, if_neg (not_not.mpr rfl), hversion,
    if_neg (not_not.mpr rfl), hclass, CompressionClass.fromId_id]
  simp only [hdecoded, hlen, hsum, ne_eq, not_true_eq_false, if_false]

/-! ### Payloads -/

/-- The payload of a class from which the page can be read back. -/
def PayloadFor (profile : Profile) (page : Page) (payload : List UInt8) :
    CompressionClass → Prop
  | .zero => payload = [] ∧ page.bytes = List.replicate pageBytes 0
  | .same => ∃ b, payload = [b] ∧ page.bytes = List.replicate pageBytes b
  | .raw => payload = page.bytes
  | .sxrc => payload.length < pageBytes ∧
      ∃ ts, payload = serialize ts ∧ Expands profile ts page.bytes

/-- An encoded page decodes to the page. -/
theorem decodePage_of_payloadFor (h : PayloadFor profile page payload c)
    (hlen : payload.length ≤ pageBytes) (hout : out.length = pageBytes) :
    decodePage profile
      ((EncodedHeader.mk c (UInt16.ofNat payload.length) (fnv1a32 payload)).toBytes ++ payload)
      out = (.ok c, page.bytes) := by
  have hlt : payload.length < 2 ^ 16 := hlen.trans_lt (by decide)
  have hnat : (UInt16.ofNat payload.length).toNat = payload.length := by
    rw [UInt16.toNat_ofNat', Nat.mod_eq_of_lt hlt]
  have hslice (l : List UInt8) (hl : l.length = headerBytes) :
      slice (l ++ payload) headerBytes payload.length = payload := by
    have := slice_append l payload []
    rwa [append_nil, hl] at this
  rw [decodePage, EncodedHeader.decode_toBytes]
  simp only [hnat, hslice _ (EncodedHeader.length_toBytes _), length_append,
    EncodedHeader.length_toBytes, ne_eq, not_true_eq_false, if_false]
  cases c with
  | zero =>
    obtain ⟨rfl, hpage⟩ := h
    rw [hpage]
    rfl
  | same =>
    obtain ⟨b, rfl, hpage⟩ := h
    rw [hpage]
    rfl
  | raw =>
    obtain rfl : payload = page.bytes := h
    simp only [page.length_bytes, not_true_eq_false, if_false]
  | sxrc =>
    obtain ⟨-, ts, rfl, hexp⟩ := h
    have hloop := decodeLoop_serialize hexp [] out 0 hout
      (by rw [Nat.zero_add, page.length_bytes])
    rw [nil_append, length_nil, take_zero, nil_append] at hloop
    simp only [decodeSxrcPayload, hloop]

theorem eq_replicate_of_all (h : page.bytes.all (· == b) = true) :
    page.bytes = List.replicate pageBytes b := by
  rw [all_eq_true] at h
  exact eq_replicate_iff.mpr ⟨page.length_bytes, fun x hx => eq_of_beq (h x hx)⟩

/-! ### Pages -/

/-- The encoding of a page is a payload from which the page can be read back. -/
theorem payloadFor_encoding (hids : profile.DistinctIds) (page : Page) :
    PayloadFor profile page (encoding profile page).2 (encoding profile page).1 := by
  rw [encoding]
  split_ifs with hzero hsame hshort
  · exact ⟨rfl, eq_replicate_of_all hzero⟩
  · exact ⟨page.bytes.getD 0 0, rfl, eq_replicate_of_all hsame⟩
  · exact ⟨hshort, _, rfl, expands_tokensFrom hids (Nat.zero_le _) (by decide) (.inl rfl)⟩
  · rfl

/-- What `encode_page` returns: a header and a payload from which the page can be read back. -/
theorem encodePage_spec (hids : profile.DistinctIds) (page : Page)
    (h : maxEncodedPageBytes ≤ scratch.length) :
    ∃ c payload, payload.length ≤ pageBytes ∧ PayloadFor profile page payload c ∧
      (encodePage profile page scratch).1 = .ok ⟨c,
        (EncodedHeader.mk c (UInt16.ofNat payload.length) (fnv1a32 payload)).toBytes ++
          payload⟩ :=
  ⟨_, _, length_encoding_le, payloadFor_encoding hids page, encodePage_eq_encoding h⟩

/-- **Round trip.** For all tables with distinct ids, every page, every scratch buffer that is large
enough and every output page, encoding succeeds and decoding gives the page back. -/
theorem decodePage_encodePage (hids : profile.DistinctIds) (page out : Page)
    (scratch : List UInt8) (h : maxEncodedPageBytes ≤ scratch.length) :
    ∃ e, (encodePage profile page scratch).1 = .ok e ∧
      decodePage profile e.bytes out.bytes = (.ok e.pageClass, page.bytes) ∧
      e.bytes.length ≤ maxEncodedPageBytes ∧
      (e.pageClass = .sxrc → e.payload.length < pageBytes) := by
  obtain ⟨c, payload, hlen, hpayload, heq⟩ := encodePage_spec hids page h
  refine ⟨_, heq, decodePage_of_payloadFor hpayload hlen out.length_bytes, ?_, ?_⟩
  · rw [length_append, EncodedHeader.length_toBytes, maxEncodedPageBytes]
    omega
  · rintro rfl
    rw [EncodedPage.payload, drop_left' (EncodedHeader.length_toBytes _)]
    exact hpayload.1

theorem profileGenerated_distinctIds : profileGenerated.DistinctIds :=
  ⟨by decide, by decide⟩

/-- The shipped tables. -/
theorem decodePage_encodePage_shipped :
    profileGenerated.DistinctIds ∧ ∀ page out : Page,
      ∃ e, (encodePage profileGenerated page (List.replicate maxEncodedPageBytes 0)).1 = .ok e ∧
        decodePage profileGenerated e.bytes out.bytes = (.ok e.pageClass, page.bytes) :=
  ⟨profileGenerated_distinctIds, fun page out =>
    let ⟨e, henc, hdec, _⟩ := decodePage_encodePage profileGenerated_distinctIds page out
      (List.replicate maxEncodedPageBytes 0) (by rw [length_replicate])
    ⟨e, henc, hdec⟩⟩

end Hxnu.Mm.Compress
