import Hxnu.Mm.Compress.Encoding
import Hxnu.Mm.Compress.Grammar

/-!
# Damaged encodings

What `decode_page` does with an encoded page in which one byte was replaced. Each step of the
checksum is a bijection on 32-bit words, so a single changed byte of the payload changes the
checksum, and a changed checksum field no longer agrees with it. The first twelve bytes of the header
are not covered by the checksum, but a header that is accepted with its class unchanged gives the same
page. A changed class is noticed by the length of the payload, except that a page that is stored as it
is may happen to be a stream of tokens.

## Main results

* `fnv1a32_set_ne`: a changed byte changes the checksum.
* `damaged_payload_detected`: a changed byte of the payload or of the checksum field.
* `damaged_header_detected_iff`: a changed byte of the rest of the header.
-/

namespace Hxnu.Mm.Compress

open Buffer List

variable {hash : UInt32} {bytes payload xs : List UInt8} {i : ℕ} {v : UInt8} {c : CompressionClass}

/-! ### The checksum -/

/-- One step of the checksum. -/
def fnvStep (hash : UInt32) (byte : UInt8) : UInt32 := (hash ^^^ byte.toUInt32) * fnv1a32Prime

theorem fnv1a32_eq_foldl (bytes : List UInt8) :
    fnv1a32 bytes = bytes.foldl fnvStep fnv1a32OffsetBasis := rfl

/-- The prime is odd, so it has an inverse. -/
theorem fnv1a32Prime_mul_inverse : fnv1a32Prime * 0x359c449b = 1 := by decide

theorem mul_fnv1a32Prime_inj (h : a * fnv1a32Prime = b * fnv1a32Prime) : a = b := by
  have hmul (x : UInt32) : x * fnv1a32Prime * 0x359c449b = x := by
    rw [UInt32.mul_assoc, fnv1a32Prime_mul_inverse, UInt32.mul_one]
  rw [← hmul a, h, hmul b]

theorem fnvStep_left_inj (h : fnvStep hash byte = fnvStep hash' byte) : hash = hash' :=
  (UInt32.xor_left_inj _).mp (mul_fnv1a32Prime_inj h)

theorem fnvStep_right_inj (h : fnvStep hash byte = fnvStep hash byte') : byte = byte' :=
  UInt8.toUInt32_inj.mp ((UInt32.xor_right_inj _).mp (mul_fnv1a32Prime_inj h))

/-- Equal bytes do not bring different states together. -/
theorem foldl_fnvStep_inj (bytes : List UInt8)
    (h : bytes.foldl fnvStep hash = bytes.foldl fnvStep hash') : hash = hash' := by
  induction bytes generalizing hash hash' with
  | nil => exact h
  | cons byte bytes ih => exact fnvStep_left_inj (ih h)

/-- **A changed byte changes the checksum.** -/
theorem fnv1a32_set_ne (hi : i < bytes.length)
    (hv : v ≠ bytes.getD i 0) : fnv1a32 (bytes.set i v) ≠ fnv1a32 bytes := by
  have hset : bytes.set i v = bytes.take i ++ v :: bytes.drop (i + 1) := by
    rw [set_eq_take_append_cons_drop, if_pos hi]
  have hsplit : bytes = bytes.take i ++ bytes.getD i 0 :: bytes.drop (i + 1) := by
    rw [← drop_eq_getD_cons hi, take_append_drop]
  have hwhole : fnv1a32 bytes = (bytes.drop (i + 1)).foldl fnvStep
      (fnvStep ((bytes.take i).foldl fnvStep fnv1a32OffsetBasis) (bytes.getD i 0)) := by
    rw [← foldl_cons, ← foldl_append, ← hsplit, fnv1a32_eq_foldl]
  intro h
  rw [hset, hwhole, fnv1a32_eq_foldl, foldl_append, foldl_cons] at h
  exact hv (fnvStep_right_inj (foldl_fnvStep_inj _ h))

/-! ### The payload and the checksum field -/

variable {profile : Profile}

theorem decodePage_of_checksum_ne {header : EncodedHeader} (out : Page)
    (hlen : header.payloadLen.toNat = payload.length) (hsum : fnv1a32 payload ≠ header.checksum) :
    decodePage profile (header.toBytes ++ payload) out.bytes =
      (.error .checksumMismatch, out.bytes) := by
  have hslice : slice (header.toBytes ++ payload) headerBytes payload.length = payload := by
    have h := slice_append header.toBytes payload []
    rwa [append_nil, header.length_toBytes] at h
  rw [decodePage, EncodedHeader.decode_toBytes]
  simp only [hlen, hslice]
  rw [if_neg (by simp), if_pos hsum]

/-- The header of an encoded page. -/
def encodedHeader (profile : Profile) (page : Page) : EncodedHeader where
  pageClass := (encoding profile page).1
  payloadLen := UInt16.ofNat (encoding profile page).2.length
  checksum := fnv1a32 (encoding profile page).2

theorem encodedPage_bytes (page : Page) :
    (encodedPage profile page).bytes =
      (encodedHeader profile page).toBytes ++ (encoding profile page).2 := rfl

theorem encodedPage_pageClass (page : Page) :
    (encodedPage profile page).pageClass = (encoding profile page).1 := rfl

theorem payloadLen_encodedHeader (page : Page) :
    (encodedHeader profile page).payloadLen.toNat = (encoding profile page).2.length := by
  have hle : (encoding profile page).2.length ≤ pageBytes := length_encoding_le
  have hlt : (encoding profile page).2.length < 2 ^ 16 := hle.trans_lt (by decide)
  rw [encodedHeader, UInt16.toNat_ofNat', Nat.mod_eq_of_lt hlt]

/-- The header with other bytes in its checksum field is the header with another checksum. -/
theorem toBytes_set_checksum (header : EncodedHeader) (v : UInt8) (hi : 12 ≤ i) :
    header.toBytes.set i v = EncodedHeader.toBytes { header with
      checksum := UInt32.ofNat
        (ofLeBytes ((leBytes 4 header.checksum.toNat).set (i - 12) v)) } := by
  have hfront : (magic ++ [version] ++ [header.pageClass.id] ++
      leBytes 2 header.payloadLen.toNat ++ leBytes 2 pageBytes ++ leBytes 2 0).length = 12 := rfl
  have hlen : ((leBytes 4 header.checksum.toNat).set (i - 12) v).length = 4 := by
    rw [length_set, length_leBytes]
  have hlt : ofLeBytes ((leBytes 4 header.checksum.toNat).set (i - 12) v) < 2 ^ 32 := by
    have h := ofLeBytes_lt ((leBytes 4 header.checksum.toNat).set (i - 12) v)
    rwa [hlen] at h
  have hbytes := leBytes_ofLeBytes ((leBytes 4 header.checksum.toNat).set (i - 12) v)
  rw [hlen] at hbytes
  rw [EncodedHeader.toBytes, EncodedHeader.toBytes,
    set_append_right _ _ (by rw [hfront]; exact hi), hfront, UInt32.toNat_ofNat',
    Nat.mod_eq_of_lt hlt, hbytes]

theorem checksum_set_ne {sum : UInt32} (hi : i < 4) (hv : v ≠ (leBytes 4 sum.toNat).getD i 0) :
    UInt32.ofNat (ofLeBytes ((leBytes 4 sum.toNat).set i v)) ≠ sum := by
  intro h
  have hbytes : leBytes 4 (UInt32.ofNat (ofLeBytes ((leBytes 4 sum.toNat).set i v))).toNat =
      (leBytes 4 sum.toNat).set i v := by
    have hlen : ((leBytes 4 sum.toNat).set i v).length = 4 := by
      rw [length_set, length_leBytes]
    have hlt : ofLeBytes ((leBytes 4 sum.toNat).set i v) < 2 ^ 32 := by
      have h := ofLeBytes_lt ((leBytes 4 sum.toNat).set i v)
      rwa [hlen] at h
    have hread := leBytes_ofLeBytes ((leBytes 4 sum.toNat).set i v)
    rw [hlen] at hread
    rw [UInt32.toNat_ofNat', Nat.mod_eq_of_lt hlt, hread]
  rw [h] at hbytes
  have hget : (leBytes 4 sum.toNat).getD i 0 = ((leBytes 4 sum.toNat).set i v).getD i 0 :=
    congrArg (fun l => l.getD i 0) hbytes
  rw [hget, getD_eq_getElem _ 0 (by rw [length_set, length_leBytes]; exact hi),
    List.getElem_set_self] at hv
  exact hv rfl

/-- **Damage behind byte 12.** An encoded page with one byte of the payload or of the checksum field
replaced is rejected for its checksum. -/
theorem damaged_payload_detected (page out : Page) {scratch : List UInt8} {e : EncodedPage}
    (he : (encodePage profileGenerated page scratch).1 = .ok e) {i : ℕ} (hi : 12 ≤ i)
    (hlt : i < e.bytes.length) {v : UInt8} (hv : v ≠ e.bytes.getD i 0) :
    decodePage profileGenerated (e.bytes.set i v) out.bytes =
      (.error .checksumMismatch, out.bytes) := by
  rw [encodePage_eq_ok he, encodedPage_bytes] at hlt hv ⊢
  have hlen : (encodedHeader profileGenerated page).payloadLen.toNat =
      (encoding profileGenerated page).2.length := payloadLen_encodedHeader page
  have hhead := (encodedHeader profileGenerated page).length_toBytes
  have hsum : (encodedHeader profileGenerated page).checksum =
      fnv1a32 (encoding profileGenerated page).2 := rfl
  generalize encodedHeader profileGenerated page = header at *
  generalize (encoding profileGenerated page).2 = payload at *
  rw [length_append, hhead] at hlt
  by_cases hpayload : headerBytes ≤ i
  · have hget : (header.toBytes ++ payload).getD i 0 = payload.getD (i - headerBytes) 0 := by
      rw [getD_append_right _ _ _ _ (by rw [hhead]; exact hpayload), hhead]
    rw [hget] at hv
    rw [set_append_right _ _ (by rw [hhead]; exact hpayload), hhead]
    refine decodePage_of_checksum_ne out (by rw [length_set, hlen]) ?_
    rw [hsum]
    exact fnv1a32_set_ne (by omega) hv
  · rw [not_le, headerBytes] at hpayload
    have hfront : (magic ++ [version] ++ [header.pageClass.id] ++
        leBytes 2 header.payloadLen.toNat ++ leBytes 2 pageBytes ++ leBytes 2 0).length = 12 := rfl
    have hget : (header.toBytes ++ payload).getD i 0 =
        (leBytes 4 header.checksum.toNat).getD (i - 12) 0 := by
      rw [getD_append _ _ _ _ (by rw [hhead]; exact hpayload), EncodedHeader.toBytes,
        getD_append_right _ _ _ _ (by rw [hfront]; exact hi), hfront]
    rw [hget] at hv
    rw [set_append_left _ _ (by rw [hhead]; exact hpayload), toBytes_set_checksum header v hi]
    refine decodePage_of_checksum_ne out hlen ?_
    rw [← hsum]
    exact (checksum_set_ne (by omega) hv).symm

/-! ### The rest of the header -/

section Header

theorem getD_set_of_ne (h : i ≠ j) : (bytes.set i v).getD j 0 = bytes.getD j 0 := by
  rw [getD_eq_getElem?_getD, getD_eq_getElem?_getD, List.getElem?_set_ne h]

theorem getD_set_self (h : i < bytes.length) : (bytes.set i v).getD i 0 = v := by
  rw [getD_eq_getElem _ 0 (by rwa [length_set]), List.getElem_set_self]

/-- A replaced byte outside a range. -/
theorem slice_set_of_not (h : i < a ∨ a + n ≤ i) : slice (bytes.set i v) a n = slice bytes a n := by
  rcases h with h | h
  · rw [slice, slice, drop_set_of_lt h]
  · have hread (l : List UInt8) : slice l a n = (l.take (a + n)).drop a := by
      rw [slice, drop_take, Nat.add_sub_cancel_left]
    rw [hread, hread, take_set_of_le h]

/-- A byte string stands for one page only. -/
theorem Encodes.unique (hne : profile.NonemptyPatterns) (out : Page)
    (h : Encodes profile encoded c xs) (h' : Encodes profile encoded c' ys) : c = c' ∧ xs = ys := by
  have heq := ((decodePage_eq_ok hne out).mpr h).symm.trans ((decodePage_eq_ok hne out).mpr h')
  exact ⟨Except.ok.inj (Prod.mk.inj heq).1, (Prod.mk.inj heq).2⟩

theorem three_le_length_bytes {t : Token} (h : t.expand profile = some xs) :
    3 ≤ t.bytes.length := by
  cases t with
  | literal run =>
    rw [Token.expand] at h
    split_ifs at h with hrun
    rw [Token.bytes, length_cons, length_cons]
    omega
  | dictionary | pattern => rw [Token.bytes, length_cons, length_leBytes]

/-- A stream of tokens that stands for a page has at least three bytes. -/
theorem PayloadOf.three_le_length (h : PayloadOf profile payload page .sxrc) :
    3 ≤ payload.length := by
  obtain ⟨ts, rfl, hexp, hlen⟩ := h
  cases ts with
  | nil =>
    cases Option.some.inj hexp
    cases hlen
  | cons t ts =>
    obtain ⟨xs, ht, -⟩ := Option.bind_eq_some_iff.mp hexp
    rw [serialize_cons, length_append]
    exact (three_le_length_bytes ht).trans (Nat.le_add_right _ _)

/-- The lengths of the payloads of a class. -/
def FitsClass (n : ℕ) : CompressionClass → Prop
  | .zero => n = 0
  | .same => n = 1
  | .raw => n = pageBytes
  | .sxrc => 3 ≤ n

theorem PayloadOf.fitsClass (h : PayloadOf profile payload page c) :
    FitsClass payload.length c := by
  cases c with
  | zero => exact congrArg List.length h.1
  | same =>
    obtain ⟨byte, rfl, -⟩ := h
    rfl
  | raw => exact h.1
  | sxrc => exact h.three_le_length

/-- **Payloads of different classes.** A payload of the encoder fits another class only if the page
is stored as it is, and that class is the one of token streams. -/
theorem FitsClass.eq_raw_sxrc (hne : c ≠ c') (hc : c = .sxrc → n < pageBytes) (h : FitsClass n c)
    (h' : FitsClass n c') : c = .raw ∧ c' = .sxrc := by
  have hpage : pageBytes = 4096 := rfl
  cases c with
  | zero | same =>
    cases c' <;> simp only [FitsClass] at h h' <;> first | exact absurd rfl hne | omega
  | sxrc =>
    have hlt := hc rfl
    cases c' <;> simp only [FitsClass] at h h' <;> first | exact absurd rfl hne | omega
  | raw =>
    refine ⟨rfl, ?_⟩
    cases c' <;> simp only [FitsClass] at h h' <;> first | rfl | exact absurd rfl hne | omega

/-- An encoded page stands for the page. -/
theorem encodes_encodedPage (page : Page) :
    Encodes profileGenerated (encodedPage profileGenerated page).bytes
      (encodedPage profileGenerated page).pageClass page.bytes := by
  obtain ⟨e, he, hdecode, -⟩ := decodePage_encodePage profileGenerated_distinctIds page page
    (List.replicate maxEncodedPageBytes 0) (by rw [length_replicate])
  rw [encodePage_eq_ok he] at hdecode
  exact (decodePage_eq_ok profileGenerated_nonemptyPatterns page).mp hdecode

theorem length_payload_of_sxrc (h : (encodedPage profile page).pageClass = .sxrc) :
    ((encodedPage profile page).bytes.drop headerBytes).length < pageBytes := by
  rw [encodedPage_pageClass] at h
  rw [encodedPage_bytes, drop_left' (EncodedHeader.length_toBytes _)]
  rw [encoding] at h ⊢
  split_ifs at h ⊢ with hzero hsame hshort
  exact hshort

/-- The payload of a page that is stored as it is. -/
theorem payload_of_raw (h : (encodedPage profile page).pageClass = .raw) :
    (encodedPage profile page).bytes.drop headerBytes = page.bytes := by
  rw [encodedPage_pageClass] at h
  rw [encodedPage_bytes, drop_left' (EncodedHeader.length_toBytes _)]
  rw [encoding] at h ⊢
  split_ifs at h ⊢ with hzero hsame hshort
  rfl

/-- The page happens to be a stream of tokens that stands for another page. -/
def IsOtherStream (page : Page) : Prop :=
  ∃ ts other, page.bytes = serialize ts ∧ expandAll profileGenerated ts = some other ∧
    other.length = pageBytes ∧ other ≠ page.bytes

section Damaged

variable {encoded xs ys : List UInt8} {c c' : CompressionClass} {i : ℕ} {v : UInt8}

/-- Behind the twelfth byte nothing is changed. -/
theorem drop_set_of_lt_twelve (hi : i < 12) :
    (encoded.set i v).drop headerBytes = encoded.drop headerBytes :=
  drop_set_of_lt (hi.trans (by decide))

/-- The class byte replaced: the rest of the header is still accepted. -/
theorem Encodes.set_class (h : Encodes profile encoded c xs)
    (hpayload : PayloadOf profile (encoded.drop headerBytes) ys c') :
    Encodes profile (encoded.set 5 c'.id) c' ys := by
  have hlong : 16 ≤ encoded.length := h.header
  refine ⟨?_, ?_, ?_, ?_, ?_, ?_, ?_, ?_⟩
  · rw [length_set]
    exact h.header
  · rw [slice_set_of_not (by omega), h.magic]
  · rw [getD_set_of_ne (by decide), h.version]
  · exact getD_set_self (by omega)
  · rw [slice_set_of_not (by omega), h.decodedLen]
  · rw [length_set, slice_set_of_not (by omega), h.length]
  · rw [drop_set_of_lt_twelve (by decide), slice_set_of_not (by omega), h.checksum]
  · rw [drop_set_of_lt_twelve (by decide)]
    exact hpayload

/-- A damaged header that keeps the class keeps the page. -/
theorem Encodes.of_set_class_eq (h : Encodes profile encoded c xs) (hi : i < 12)
    (h' : Encodes profile (encoded.set i v) c ys) : Encodes profile encoded c ys := by
  have hpayload := h'.payload
  rw [drop_set_of_lt_twelve hi] at hpayload
  exact ⟨h.header, h.magic, h.version, h.classId, h.decodedLen, h.length, h.checksum, hpayload⟩

end Damaged

/-- **Damage in the first twelve bytes.** An encoded page with one of these bytes replaced is rejected
or still gives the page, unless the page is stored as it is, happens to be a stream of tokens that
stands for another page, and the class byte is replaced by the one of token streams. -/
theorem damaged_header_detected_iff (page out : Page) {scratch : List UInt8} {e : EncodedPage}
    (he : (encodePage profileGenerated page scratch).1 = .ok e) {i : ℕ} (hi : i < 12) {v : UInt8}
    (hv : v ≠ e.bytes.getD i 0) :
    ((∃ error, (decodePage profileGenerated (e.bytes.set i v) out.bytes).1 = .error error) ∨
      ∃ c, decodePage profileGenerated (e.bytes.set i v) out.bytes = (.ok c, page.bytes)) ↔
    ¬ (i = 5 ∧ v = CompressionClass.sxrc.id ∧ e.pageClass = .raw ∧ IsOtherStream page) := by
  rw [encodePage_eq_ok he] at hv ⊢
  have henc := encodes_encodedPage page
  have hsxrc : (encodedPage profileGenerated page).pageClass = .sxrc →
      ((encodedPage profileGenerated page).bytes.drop headerBytes).length < pageBytes :=
    length_payload_of_sxrc
  have hraw : (encodedPage profileGenerated page).pageClass = .raw →
      (encodedPage profileGenerated page).bytes.drop headerBytes = page.bytes := payload_of_raw
  generalize encodedPage profileGenerated page = e at hv henc hsxrc hraw ⊢
  have hiff {c : CompressionClass} {ys : List UInt8} :
      decodePage profileGenerated (e.bytes.set i v) out.bytes = (.ok c, ys) ↔
        Encodes profileGenerated (e.bytes.set i v) c ys :=
    decodePage_eq_ok profileGenerated_nonemptyPatterns out
  constructor
  · rintro hgood ⟨rfl, rfl, hclass, ts, other, hpage, hexp, hlen, hne⟩
    have hpayload : PayloadOf profileGenerated (e.bytes.drop headerBytes) other .sxrc := by
      rw [hraw hclass]
      exact ⟨ts, hpage, hexp, hlen⟩
    have hdecode := hiff.mpr (henc.set_class hpayload)
    rw [hdecode] at hgood
    rcases hgood with ⟨error, herror⟩ | ⟨c, hc⟩
    · cases herror
    · exact hne (Prod.mk.inj hc).2
  · intro hother
    cases hdecode : (decodePage profileGenerated (e.bytes.set i v) out.bytes).1 with
    | error error => exact .inl ⟨error, rfl⟩
    | ok c =>
      refine .inr ⟨c, Prod.ext hdecode ?_⟩
      have henc' := hiff.mp (Prod.ext hdecode rfl)
      by_cases hclass : c = e.pageClass
      · subst hclass
        exact ((henc.of_set_class_eq hi henc').unique profileGenerated_nonemptyPatterns out
          henc).2
      · have hpayload := henc'.payload
        rw [drop_set_of_lt_twelve hi] at hpayload
        obtain ⟨hraw', rfl⟩ := FitsClass.eq_raw_sxrc (Ne.symm hclass) hsxrc
          henc.payload.fitsClass hpayload.fitsClass
        have hlong : 16 ≤ e.bytes.length := henc.header
        have h₅ : i = 5 := by
          by_contra hne
          have hid := henc'.classId
          rw [getD_set_of_ne hne, henc.classId, hraw'] at hid
          exact absurd hid (by decide)
        subst h₅
        have hv' : v = CompressionClass.sxrc.id := by
          rw [← henc'.classId, getD_set_self (by omega)]
        rw [hraw hraw'] at hpayload
        obtain ⟨ts, hpage, hexp, hlen⟩ := hpayload
        by_contra hne
        exact hother ⟨rfl, hv', hraw', ts, _, hpage, hexp, hlen, hne⟩

end Header

/-! ### A page that is a stream of tokens -/

section Stream

variable {page : Page} {read literalStart literalLen : ℕ}

/-- Where the encoder finds no reference, the token stream is longer than the page. -/
theorem le_length_tokensFrom (hnone : ∀ read < pageBytes, pickToken profile page read = none)
    (hpending : literalLen = 0 ∨ literalStart + literalLen = read ∧ read ≤ pageBytes) :
    pageBytes - read + literalLen ≤
      (serialize (tokensFrom profile page read literalStart literalLen)).length := by
  fun_induction tokensFrom profile page read literalStart literalLen with
  | case1 read literalStart literalLen hread token htoken hpos ih =>
    rw [hnone read hread] at htoken
    cases htoken
  | case2 read literalStart literalLen hread htoken start hfull ih =>
    have hstart : start + (literalLen + 1) = read + 1 := literalStart_add hpending
    have hlen : (slice page.bytes start (literalLen + 1)).length = literalLen + 1 :=
      length_slice (by rw [page.length_bytes]; omega)
    have hrest := ih (.inl rfl)
    rw [serialize_cons, length_append, Token.bytes, length_cons, length_cons, hlen]
    omega
  | case3 read literalStart literalLen hread htoken start hfull ih =>
    have hrest := ih (.inr ⟨literalStart_add hpending, hread⟩)
    omega
  | case4 read literalStart literalLen hread =>
    rw [pendingTokens]
    split_ifs with hpos
    · have hfit := hpending.resolve_left hpos.ne'
      have hlen : (slice page.bytes literalStart literalLen).length = literalLen :=
        length_slice (by rw [page.length_bytes]; omega)
      rw [serialize_cons, serialize_nil, append_nil, Token.bytes, length_cons,
        length_cons, hlen]
      omega
    · rw [serialize_nil, length_nil]
      omega

/-- The shipped dictionary has only words below `2 ^ 16`. -/
theorem dictionaryCandidate_eq_none
    (h : page.bytes.getD (read + 2) 0 ≠ 0 ∨ page.bytes.getD (read + 3) 0 ≠ 0) :
    dictionaryCandidate profileGenerated page read = none := by
  rw [dictionaryCandidate]
  split_ifs with hfit
  · have hbound : read + 4 ≤ page.bytes.length := by
      rw [page.length_bytes]
      exact hfit
    have hslice : slice page.bytes read 4 = [page.bytes.getD read 0, page.bytes.getD (read + 1) 0,
        page.bytes.getD (read + 2) 0, page.bytes.getD (read + 3) 0] := by
      rw [Strict.slice_succ (by omega), Strict.slice_succ (by omega), Strict.slice_succ (by omega),
        Strict.slice_succ (by omega)]
      rfl
    have hvalue : 2 ^ 16 ≤ (UInt32.ofNat (ofLeBytes (slice page.bytes read 4))).toNat := by
      change 2 ^ 16 ≤ (EncodedHeader.readU32Le page.bytes read).toNat
      rw [toNat_readU32Le hbound, hslice]
      simp only [ofLeBytes]
      have hne : (page.bytes.getD (read + 2) 0).toNat ≠ 0 ∨
          (page.bytes.getD (read + 3) 0).toNat ≠ 0 :=
        h.imp (fun h hzero => h (UInt8.toNat_inj.mp hzero))
          (fun h hzero => h (UInt8.toNat_inj.mp hzero))
      omega
    have hlookup : lookupDictionaryByValue profileGenerated
        (UInt32.ofNat (ofLeBytes (slice page.bytes read 4))) = none := by
      rw [lookupDictionaryByValue, Option.map_eq_none_iff, find?_eq_none]
      intro entry hentry heq
      have hword : entry.2.toNat < 2 ^ 16 := by
        rw [profileGenerated] at hentry
        fin_cases hentry <;> decide
      rw [eq_of_beq heq] at hword
      omega
    simp only [hlookup]
  · rfl

/-- The shipped patterns are too short to be of use to the encoder. -/
theorem pickToken_eq_dictionaryCandidate :
    pickToken profileGenerated page read =
      (dictionaryCandidate profileGenerated page read).map Prod.snd := by
  rw [pickToken]
  cases hbest : bestPatternAt profileGenerated page read with
  | none => rfl
  | some entry =>
    have hshort : entry.2.length ≤ 3 := by
      have hmem := (bestPatternAt_eq_some hbest).1
      rw [profileGenerated] at hmem
      fin_cases hmem <;> decide
    rw [orPattern, dif_neg]
    rw [tokenRefBytes]
    omega

/-- No two bytes in a row are zero. -/
def noZeroPair : List UInt8 → Bool
  | a :: b :: bytes => (a != 0 || b != 0) && noZeroPair (b :: bytes)
  | _ => true

theorem getD_ne_of_noZeroPair (h : noZeroPair bytes = true)
    (hi : i + 1 < bytes.length) : bytes.getD i 0 ≠ 0 ∨ bytes.getD (i + 1) 0 ≠ 0 := by
  induction bytes generalizing i with
  | nil => cases hi
  | cons a bytes ih =>
    cases bytes with
    | nil => simp at hi
    | cons b bytes =>
      rw [noZeroPair, Bool.and_eq_true, Bool.or_eq_true, bne_iff_ne, bne_iff_ne] at h
      cases i with
      | zero => exact h.1
      | succ i => exact ih h.2 (by simpa using hi)

/-- A page without two zero bytes in a row is stored as it is, unless it repeats one byte. -/
theorem encoding_of_noZeroPair (h : noZeroPair page.bytes = true)
    (hzero : isZeroPage page = false) (hsame : isSamePage page = false) :
    encoding profileGenerated page = (.raw, page.bytes) := by
  have hnone : ∀ read < pageBytes, pickToken profileGenerated page read = none := by
    intro read hread
    rw [pickToken_eq_dictionaryCandidate]
    by_cases hfit : read + 3 < page.bytes.length
    · rw [dictionaryCandidate_eq_none (getD_ne_of_noZeroPair h hfit), Option.map_none]
    · rw [page.length_bytes] at hfit
      have hnofit : ¬ read + dictDecodeBytes ≤ pageBytes := fun h => hfit h
      rw [dictionaryCandidate, if_neg hnofit, Option.map_none]
  have hlen : pageBytes ≤ (tokenStream profileGenerated page).length := by
    have hle : pageBytes - 0 + 0 ≤ (serialize (tokensFrom profileGenerated page 0 0 0)).length :=
      le_length_tokensFrom hnone (.inl rfl)
    exact hle
  rw [encoding, hzero, hsame, if_neg Bool.false_ne_true, if_neg Bool.false_ne_true,
    if_neg (not_lt.mpr hlen)]

theorem serialize_replicate (n : ℕ) (t : Token) :
    serialize (List.replicate n t) = (List.replicate n t.bytes).flatten := by
  rw [serialize, flatMap_def, map_replicate]

theorem expandAll_replicate (h : t.expand profile = some xs) (n : ℕ) :
    expandAll profile (List.replicate n t) = some (List.replicate n xs).flatten := by
  induction n with
  | zero => rfl
  | succ n ih =>
    rw [replicate_succ, expandAll, h, Option.bind_some, ih]
    rfl

/-- A literal run, two words of the dictionary and `n` patterns. -/
def streamTokens (n : ℕ) : List Token :=
  .literal [7, 7] :: .dictionary 1 :: .dictionary 1 :: List.replicate n (.pattern 1)

/-- What these tokens stand for. -/
def streamExpansion (n : ℕ) : List UInt8 :=
  [7, 7] ++ ([0, 0, 0, 0] ++ ([0, 0, 0, 0] ++ (List.replicate n [0x48, 0x89, 0xd8]).flatten))

theorem expandAll_streamTokens (n : ℕ) :
    expandAll profileGenerated (streamTokens n) = some (streamExpansion n) := by
  have hword : (Token.dictionary 1).expand profileGenerated = some [0, 0, 0, 0] := by
    decide +kernel
  have hpattern : (Token.pattern 1).expand profileGenerated = some [0x48, 0x89, 0xd8] := by
    decide +kernel
  rw [streamTokens, expandAll, expandAll, expandAll, expandAll_replicate hpattern, hword]
  rfl

theorem length_serialize_streamTokens (n : ℕ) :
    (serialize (streamTokens n)).length = 10 + n * 3 := by
  simp only [streamTokens, serialize_cons, serialize_replicate, length_append,
    length_flatten, map_replicate, sum_replicate, Token.bytes, length_cons,
    length_nil, length_leBytes, smul_eq_mul]
  omega

theorem length_streamExpansion (n : ℕ) : (streamExpansion n).length = 10 + n * 3 := by
  simp only [streamExpansion, length_append, length_flatten, map_replicate,
    sum_replicate, length_cons, length_nil, smul_eq_mul]
  omega

/-- With as many patterns, the stream and what it stands for are both as long as a page. -/
def streamPage : Page where
  bytes := serialize (streamTokens 1362)
  length_bytes := length_serialize_streamTokens 1362

theorem streamExpansion_ne (n : ℕ) : streamExpansion n ≠ serialize (streamTokens n) := by
  rw [streamExpansion, streamTokens, serialize_cons, Token.bytes]
  intro heq
  exact absurd (List.cons.inj heq).1 (by decide)

theorem streamPage_isOtherStream : IsOtherStream streamPage :=
  ⟨streamTokens 1362, streamExpansion 1362, rfl, expandAll_streamTokens 1362,
    length_streamExpansion 1362, streamExpansion_ne 1362⟩

theorem encoding_streamPage :
    encoding profileGenerated streamPage = (.raw, streamPage.bytes) :=
  encoding_of_noZeroPair (by decide +kernel) (by decide +kernel) (by decide +kernel)

/-- The page is stored as it is; with the class byte replaced by the one of token streams it decodes
to another page. -/
theorem damaged_class_gives_other_page : ∃ e other,
    (encodePage profileGenerated streamPage (List.replicate maxEncodedPageBytes 0)).1 = .ok e ∧
      e.bytes.getD 5 0 = CompressionClass.raw.id ∧
      decodePage profileGenerated (e.bytes.set 5 CompressionClass.sxrc.id) streamPage.bytes =
        (.ok .sxrc, other) ∧ other ≠ streamPage.bytes := by
  have henc := encodes_encodedPage streamPage
  have hclass : (encodedPage profileGenerated streamPage).pageClass = .raw := by
    rw [encodedPage_pageClass, encoding_streamPage]
  obtain ⟨ts, other, hpage, hexp, hlen, hne⟩ := streamPage_isOtherStream
  have hpayload : PayloadOf profileGenerated
      ((encodedPage profileGenerated streamPage).bytes.drop headerBytes) other .sxrc := by
    rw [payload_of_raw hclass]
    exact ⟨ts, hpage, hexp, hlen⟩
  refine ⟨encodedPage profileGenerated streamPage, other,
    encodePage_eq_encoding (by rw [length_replicate]), ?_, ?_, hne⟩
  · rw [henc.classId, hclass]
  · exact (decodePage_eq_ok profileGenerated_nonemptyPatterns streamPage).mpr
      (henc.set_class hpayload)

end Stream

/-! ### An example -/

/-- A page that repeats one byte. -/
def sevensPage : Page := ⟨List.replicate pageBytes 7, length_replicate⟩

theorem encodedPage_sevensPage :
    encodedPage profileGenerated sevensPage = ⟨.same, (EncodedHeader.mk .same 1
      (fnv1a32 [7])).toBytes ++ [7]⟩ := by
  have hzero : isZeroPage sevensPage = false := by decide +kernel
  have hsame : isSamePage sevensPage = true := by decide +kernel
  rw [encodedPage, encoding, hzero, hsame]
  rfl

/-- The payload byte replaced. -/
theorem damaged_payload_detected_same :
    decodePage profileGenerated ((encodedPage profileGenerated sevensPage).bytes.set 16 8)
      sevensPage.bytes = (.error .checksumMismatch, sevensPage.bytes) := by
  have he : (encodePage profileGenerated sevensPage (List.replicate maxEncodedPageBytes 0)).1 =
      .ok (encodedPage profileGenerated sevensPage) :=
    encodePage_eq_encoding (by rw [length_replicate])
  refine damaged_payload_detected sevensPage sevensPage he (by decide) ?_ ?_
  · rw [encodedPage_sevensPage]
    decide
  · rw [encodedPage_sevensPage]
    decide

/-- The class byte replaced. -/
theorem damaged_header_detected_same : (∃ error, (decodePage profileGenerated
      ((encodedPage profileGenerated sevensPage).bytes.set 5 2) sevensPage.bytes).1 =
        .error error) ∨
    ∃ c, decodePage profileGenerated
      ((encodedPage profileGenerated sevensPage).bytes.set 5 2) sevensPage.bytes =
        (.ok c, sevensPage.bytes) := by
  have he : (encodePage profileGenerated sevensPage (List.replicate maxEncodedPageBytes 0)).1 =
      .ok (encodedPage profileGenerated sevensPage) :=
    encodePage_eq_encoding (by rw [length_replicate])
  refine (damaged_header_detected_iff sevensPage sevensPage he (by decide) ?_).mpr ?_
  · rw [encodedPage_sevensPage]
    decide
  · rw [encodedPage_sevensPage]
    rintro ⟨-, -, hclass, -⟩
    cases hclass

end Hxnu.Mm.Compress
