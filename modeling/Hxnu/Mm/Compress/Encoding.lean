import Hxnu.Mm.Compress.Codec

/-!
# One encoding for each page

A payload of class `sxrc` is the serialisation of a list of tokens. `encode_page` works in a scratch
buffer of the caller. The token stream it tries first may not fit there, and it may write part of
the stream before it gives up. This file states the encoding of a page without a buffer: the tokens
are a function of the page alone (`tokensFrom`), the loop of `encode_sxrc_payload` emits them one
after the other as far as there is room, and the payload is the stream of tokens if that is shorter
than a page and the page itself if not.

## Main definitions

* `Token`, `serialize`: a payload as a list of tokens.
* `tokensFrom`: the tokens the encoder emits from a state of its loop on.
* `emitAll`: emitting tokens until one does not fit.
* `encoding`: the class and the payload of a page.

## Main results

* `encodeLoop_eq_emitAll`: the loop of the encoder emits its tokens.
* `encodePage_eq_encoding`, `encodePage_eq_ok`: what `encode_page` returns.
* `encodePage_scratch_irrelevant`: any two scratch buffers that are large enough give the same
  result.
-/

namespace Hxnu.Mm.Compress

open Buffer List

/-! ### Token streams -/

/-- The tokens of a payload. -/
inductive Token
  | literal (run : List UInt8)
  | dictionary (id : UInt16)
  | pattern (id : UInt16)

namespace Token

/-- The bytes of a token in the payload. -/
def bytes : Token → List UInt8
  | literal run => tokenLiteral :: UInt8.ofNat run.length :: run
  | dictionary id => tokenDict :: leBytes 2 id.toNat
  | pattern id => tokenPattern :: leBytes 2 id.toNat

/-- The bytes of the page a token stands for. -/
def expand (profile : Profile) : Token → Option (List UInt8)
  | literal run => if 0 < run.length ∧ run.length ≤ 255 then some run else none
  | dictionary id => (lookupDictionaryById profile id).map fun value => leBytes 4 value.toNat
  | pattern id => lookupPatternById profile id

theorem bytes_length_pos (t : Token) : 0 < t.bytes.length := by
  cases t <;> simp [bytes]

end Token

/-- The payload of a list of tokens. -/
def serialize (ts : List Token) : List UInt8 := ts.flatMap Token.bytes

@[simp] theorem serialize_nil : serialize [] = [] := rfl

@[simp] theorem serialize_cons (t : Token) (ts : List Token) :
    serialize (t :: ts) = t.bytes ++ serialize ts := flatMap_cons

/-! ### Emitting tokens -/

/-- Write a token at `write` if it fits. -/
def emit (out : List UInt8) (write : ℕ) (t : Token) : Except CompressionError ℕ × List UInt8 :=
  if out.length < write + t.bytes.length then (.error .outputTooSmall, out)
  else (.ok (write + t.bytes.length), splice out write t.bytes)

theorem emitLiteralRun_eq_emit (hpos : 0 < run.length) (hle : run.length ≤ 255) :
    emitLiteralRun out write run 0 = emit out write (.literal run) := by
  have hlen : (Token.literal run).bytes.length = 2 + run.length := by
    simp [Token.bytes]
    omega
  rw [emitLiteralRun, if_pos hpos, emit, hlen]
  simp only [Nat.sub_zero, min_eq_left hle, Nat.zero_add]
  split_ifs with hfull
  · rfl
  · have hwhole : slice run 0 run.length = run := by simp [slice]
    have hwrite : write ≤ out.length := by omega
    have hfirst := splice_splice hwrite [tokenLiteral] [UInt8.ofNat run.length]
    have hrest := splice_splice hwrite [tokenLiteral, UInt8.ofNat run.length] run
    rw [emitLiteralRun, if_neg (lt_irrefl _), hwhole]
    simp only [length_cons, length_nil, Nat.zero_add, cons_append,
      nil_append, Nat.reduceAdd] at hfirst hrest
    rw [hfirst, hrest]
    rfl

/-- The token an encoder reference stands for. -/
def EncodeToken.toToken : EncodeToken → Token
  | dictionary id _ _ => .dictionary id
  | pattern id _ _ => .pattern id

theorem emitRefToken_eq_emit (token : EncodeToken) :
    emitRefToken out write token.tag token.id = emit out write token.toToken := by
  have hbytes : token.toToken.bytes = token.tag :: leBytes 2 token.id.toNat := by
    cases token <;> rfl
  rw [emitRefToken, emit, hbytes, length_cons, length_leBytes, tokenRefBytes]
  split_ifs with hfull
  · rfl
  · have hsplice := splice_splice (show write ≤ out.length by omega) [token.tag]
      (leBytes 2 token.id.toNat)
    rw [length_singleton] at hsplice
    simp only [hsplice]
    rfl

/-! ### Headers -/

/-- The sixteen bytes of a header. -/
def EncodedHeader.toBytes (header : EncodedHeader) : List UInt8 :=
  magic ++ [version] ++ [header.pageClass.id] ++ leBytes 2 header.payloadLen.toNat ++
    leBytes 2 pageBytes ++ leBytes 2 0 ++ leBytes 4 header.checksum.toNat

@[simp] theorem EncodedHeader.length_toBytes (header : EncodedHeader) :
    header.toBytes.length = headerBytes := by
  simp [EncodedHeader.toBytes, magic, headerBytes]

theorem EncodedHeader.encodeInto_eq (header : EncodedHeader) (h : headerBytes ≤ out.length) :
    header.encodeInto out = (.ok (), splice out 0 header.toBytes) := by
  have hjoin := splice_splice (Nat.zero_le out.length)
  rw [EncodedHeader.encodeInto, if_neg (not_lt.mpr h)]
  simp only [EncodedHeader.toBytes]
  rw [← hjoin, ← hjoin, ← hjoin, ← hjoin, ← hjoin, ← hjoin]
  simp [magic]

variable (profile : Profile) (page : Page)

/-! ### The tokens of a page -/

/-- The pending literal bytes as a token. -/
def pendingTokens (literalStart literalLen : ℕ) : List Token :=
  if 0 < literalLen then [.literal (slice page.bytes literalStart literalLen)] else []

/-- The tokens that the loop of `encode_sxrc_payload` emits from the given state on. -/
def tokensFrom (read literalStart literalLen : ℕ) : List Token :=
  if read < pageBytes then
    match pickToken profile page read with
    | some token =>
      have := token.decodedLen_pos
      pendingTokens page literalStart literalLen ++
        token.toToken :: tokensFrom (read + token.decodedLen) literalStart 0
    | none =>
      let literalStart := if literalLen = 0 then read else literalStart
      if literalLen + 1 = 255 then
        .literal (slice page.bytes literalStart (literalLen + 1)) ::
          tokensFrom (read + 1) literalStart 0
      else tokensFrom (read + 1) literalStart (literalLen + 1)
  else pendingTokens page literalStart literalLen
termination_by pageBytes - read

/-- Write tokens from `write` on until one does not fit. -/
def emitAll (out : List UInt8) (write : ℕ) : List Token → Except CompressionError ℕ × List UInt8
  | [] => (.ok write, out)
  | t :: ts =>
    match emit out write t with
    | (.error e, out) => (.error e, out)
    | (.ok write, out) => emitAll out write ts

section Emit

variable {profile page} {out : List UInt8} {write : ℕ}

theorem emitAll_singleton (t : Token) : emitAll out write [t] = emit out write t := by
  rw [emitAll]
  rcases emit out write t with ⟨e | write, out⟩ <;> rfl

theorem emitAll_append (ts us : List Token) :
    emitAll out write (ts ++ us) =
      match emitAll out write ts with
      | (.error e, out) => (.error e, out)
      | (.ok write, out) => emitAll out write us := by
  induction ts generalizing out write with
  | nil => rfl
  | cons t ts ih =>
    rw [cons_append, emitAll, emitAll]
    rcases emit out write t with ⟨e | write, out⟩
    · rfl
    · exact ih

/-- **Emitting tokens** writes their bytes if all of them fit. -/
theorem emitAll_of_le (ts : List Token) (h : write + (serialize ts).length ≤ out.length) :
    emitAll out write ts =
      (.ok (write + (serialize ts).length), splice out write (serialize ts)) := by
  induction ts generalizing out write with
  | nil =>
    rw [emitAll, serialize_nil, splice, append_nil, length_nil, Nat.add_zero,
      take_append_drop]
  | cons t ts ih =>
    rw [serialize_cons, length_append] at h
    have hfit : write + t.bytes.length ≤ out.length := by omega
    have hlen := length_splice hfit
    rw [emitAll, emit, if_neg (not_lt.mpr hfit)]
    simp only
    rw [ih (by omega), splice_splice (by omega), serialize_cons, length_append,
      Nat.add_assoc]

theorem emitAll_of_lt (ts : List Token) (h : out.length < write + (serialize ts).length) :
    (emitAll out write ts).1 = .error .outputTooSmall ∨ out.length < write := by
  induction ts generalizing out write with
  | nil => exact .inr (by simpa using h)
  | cons t ts ih =>
    rw [serialize_cons, length_append] at h
    rw [emitAll, emit]
    split_ifs with hfull
    · exact .inl rfl
    · have hlen := length_splice (not_lt.mp hfull)
      have hrest := ih (show (splice out write t.bytes).length <
        write + t.bytes.length + (serialize ts).length by omega)
      exact .inl (hrest.resolve_right (by omega))

theorem length_emitAll (ts : List Token) : (emitAll out write ts).2.length = out.length := by
  induction ts generalizing out write with
  | nil => rfl
  | cons t ts ih =>
    rw [emitAll, emit]
    split_ifs with hfull
    · rfl
    · exact ih.trans (length_splice (not_lt.mp hfull))

end Emit

/-! ### The loop of the encoder -/

section Loop

variable {profile page} {out : List UInt8} {read write literalStart literalLen : ℕ}

/-- A literal run of the page is emitted as one token. -/
theorem emitLiteralRun_eq_emitAll (hpos : 0 < literalLen) (hle : literalLen ≤ 255)
    (hfit : literalStart + literalLen ≤ pageBytes) :
    emitLiteralRun out write (slice page.bytes literalStart literalLen) 0 =
      emitAll out write [.literal (slice page.bytes literalStart literalLen)] := by
  have hlen := length_slice (hfit.trans page.length_bytes.ge)
  rw [emitAll_singleton, emitLiteralRun_eq_emit (by rw [hlen]; exact hpos)
    (by rw [hlen]; exact hle)]

/-- The pending bytes, with the byte at `read`, end behind it. -/
theorem literalStart_add (hpending : literalLen = 0 ∨ literalStart + literalLen = read ∧
      read ≤ pageBytes) :
    (if literalLen = 0 then read else literalStart) + (literalLen + 1) = read + 1 := by
  split_ifs with hzero
  · rw [hzero]
  · rw [← (hpending.resolve_left hzero).1, Nat.add_assoc]

theorem flushLiteral_eq_emitAll (hle : literalLen ≤ 255)
    (hfit : literalLen = 0 ∨ literalStart + literalLen ≤ pageBytes) :
    flushLiteral page out write literalStart literalLen =
      emitAll out write (pendingTokens page literalStart literalLen) := by
  rw [flushLiteral, pendingTokens]
  split_ifs with hpos
  · exact emitLiteralRun_eq_emitAll hpos hle (hfit.resolve_left hpos.ne')
  · rfl

/-- **The loop of the encoder emits the tokens of the page.** Pending literal bytes are the last
bytes read. -/
theorem encodeLoop_eq_emitAll (hlt : literalLen < 255)
    (hpending : literalLen = 0 ∨ literalStart + literalLen = read ∧ read ≤ pageBytes) :
    encodeLoop profile page out read write literalStart literalLen =
      emitAll out write (tokensFrom profile page read literalStart literalLen) := by
  have hfit {read literalStart literalLen : ℕ}
      (h : literalLen = 0 ∨ literalStart + literalLen = read ∧ read ≤ pageBytes) :
      literalLen = 0 ∨ literalStart + literalLen ≤ pageBytes :=
    h.imp_right fun h => h.1.le.trans h.2
  fun_induction encodeLoop profile page out read write literalStart literalLen with
  | case1 out read write literalStart literalLen hread token htoken e out' hflush =>
    rw [flushLiteral_eq_emitAll hlt.le (hfit hpending)] at hflush
    rw [tokensFrom, if_pos hread, htoken]
    simp only
    rw [emitAll_append, hflush]
  | case2 out read write literalStart literalLen hread token htoken write' out' hflush e out''
      hemit =>
      rw [flushLiteral_eq_emitAll hlt.le (hfit hpending)] at hflush
      rw [emitRefToken_eq_emit] at hemit
      rw [tokensFrom, if_pos hread, htoken]
      simp only
      rw [emitAll_append, hflush]
      simp only
      rw [emitAll, hemit]
  | case3 out read write literalStart literalLen hread token htoken write' out' hflush write''
      out'' hemit hpos ih =>
      rw [flushLiteral_eq_emitAll hlt.le (hfit hpending)] at hflush
      rw [emitRefToken_eq_emit] at hemit
      rw [tokensFrom, if_pos hread, htoken]
      simp only
      rw [emitAll_append, hflush]
      simp only
      rw [emitAll, hemit]
      exact ih (by decide) (.inl rfl)
  | case4 out read write literalStart literalLen hread hnone start hfull e out' hemit =>
    have hstart : start + (literalLen + 1) = read + 1 := literalStart_add hpending
    rw [emitLiteralRun_eq_emitAll (show 0 < literalLen + 1 from Nat.succ_pos _) hfull.le
      (hstart.trans_le hread), emitAll_singleton] at hemit
    rw [tokensFrom, if_pos hread, hnone]
    simp only
    rw [show (if literalLen = 0 then read else literalStart) = start from rfl, if_pos hfull,
      emitAll, hemit]
  | case5 out read write literalStart literalLen hread hnone start hfull write' out' hemit ih =>
    have hstart : start + (literalLen + 1) = read + 1 := literalStart_add hpending
    rw [emitLiteralRun_eq_emitAll (show 0 < literalLen + 1 from Nat.succ_pos _) hfull.le
      (hstart.trans_le hread), emitAll_singleton] at hemit
    rw [tokensFrom, if_pos hread, hnone]
    simp only
    rw [show (if literalLen = 0 then read else literalStart) = start from rfl, if_pos hfull,
      emitAll, hemit]
    exact ih (by decide) (.inl rfl)
  | case6 out read write literalStart literalLen hread hnone start hfull ih =>
    have hstart : start + (literalLen + 1) = read + 1 := literalStart_add hpending
    rw [tokensFrom, if_pos hread, hnone]
    simp only
    rw [if_neg hfull]
    exact ih (by omega) (.inr ⟨hstart, hread⟩)
  | case7 out read write literalStart literalLen hread =>
    rw [flushLiteral_eq_emitAll hlt.le (hfit hpending), tokensFrom, if_neg hread]

end Loop

/-! ### The encoding of a page -/

/-- The stream of tokens of a page. -/
def tokenStream : List UInt8 := serialize (tokensFrom profile page 0 0 0)

/-- The class and the payload of a page. -/
def encoding : CompressionClass × List UInt8 :=
  if isZeroPage page then (.zero, [])
  else if isSamePage page then (.same, [page.bytes.getD 0 0])
  else if (tokenStream profile page).length < pageBytes then (.sxrc, tokenStream profile page)
  else (.raw, page.bytes)

/-- The header and the payload of a page. -/
def encodedPage : EncodedPage :=
  let (c, payload) := encoding profile page
  ⟨c, (EncodedHeader.mk c (UInt16.ofNat payload.length) (fnv1a32 payload)).toBytes ++ payload⟩

variable {profile page} {scratch : List UInt8}

theorem length_encoding_le : (encoding profile page).2.length ≤ pageBytes := by
  rw [encoding]
  split_ifs with hzero hsame hshort
  · exact Nat.zero_le _
  · rw [length_singleton]
    decide
  · exact hshort.le
  · exact page.length_bytes.le

theorem encodeSxrcPayload_of_le (h : (tokenStream profile page).length ≤ out.length) :
    encodeSxrcPayload profile page out =
      (.ok (tokenStream profile page).length, splice out 0 (tokenStream profile page)) := by
  rw [encodeSxrcPayload, encodeLoop_eq_emitAll (by decide) (.inl rfl)]
  rw [emitAll_of_le _ (by rw [Nat.zero_add]; exact h), Nat.zero_add]
  rfl

theorem encodeSxrcPayload_of_lt (h : out.length < (tokenStream profile page).length) :
    (encodeSxrcPayload profile page out).1 = .error .outputTooSmall := by
  rw [encodeSxrcPayload, encodeLoop_eq_emitAll (by decide) (.inl rfl)]
  have hshort : out.length < 0 + (serialize (tokensFrom profile page 0 0 0)).length := by
    rw [Nat.zero_add]
    exact h
  exact (emitAll_of_lt _ hshort).resolve_right (Nat.not_lt_zero _)

theorem length_encodeSxrcPayload (out : List UInt8) :
    (encodeSxrcPayload profile page out).2.length = out.length := by
  rw [encodeSxrcPayload, encodeLoop_eq_emitAll (by decide) (.inl rfl), length_emitAll]

/-- The buffer with a payload behind its first sixteen bytes. -/
theorem slice_take_append (h : headerBytes ≤ scratch.length) :
    slice (scratch.take headerBytes ++ (payload ++ rest)) headerBytes payload.length =
      payload := by
  have hlen : (scratch.take headerBytes).length = headerBytes := by
    rw [length_take, min_eq_left h]
  have hslice := slice_append (scratch.take headerBytes) payload rest
  rwa [hlen] at hslice

/-- What is written behind the first sixteen bytes of the buffer. -/
theorem encodePayload_eq_encoding (h : maxEncodedPageBytes ≤ scratch.length) :
    ∃ scratch', encodePayload profile page scratch =
        (.ok ((encoding profile page).1, (encoding profile page).2.length), scratch') ∧
      scratch'.length = scratch.length ∧
      slice scratch' headerBytes (encoding profile page).2.length = (encoding profile page).2 := by
  have hlong : headerBytes + pageBytes ≤ scratch.length := h
  have hhead : headerBytes ≤ scratch.length := by omega
  rw [encodePayload, encoding]
  by_cases hzero : isZeroPage page = true
  · rw [if_pos hzero, if_pos hzero]
    exact ⟨scratch, rfl, rfl, rfl⟩
  rw [if_neg hzero, if_neg hzero]
  by_cases hsame : isSamePage page = true
  · have hone : 1 ≤ pageBytes := by decide
    rw [if_pos hsame, if_pos hsame, if_neg (by omega)]
    generalize page.bytes.getD 0 0 = byte
    have hfit : headerBytes + [byte].length ≤ scratch.length := by
      rw [length_singleton]
      omega
    exact ⟨splice scratch headerBytes [byte], rfl, length_splice hfit, slice_splice hhead⟩
  rw [if_neg hsame, if_neg hsame, if_neg (not_lt.mpr hlong)]
  have hdrop : (scratch.drop headerBytes).length = scratch.length - headerBytes :=
    length_drop
  -- The raw fallback overwrites whatever the token stream left behind.
  have hraw (payloadScratch : List UInt8)
      (hlen : payloadScratch.length = (scratch.drop headerBytes).length) :
      (scratch.take headerBytes ++ splice payloadScratch 0 page.bytes).length = scratch.length ∧
        slice (scratch.take headerBytes ++ splice payloadScratch 0 page.bytes) headerBytes
          page.bytes.length = page.bytes := by
    have hfit : 0 + page.bytes.length ≤ payloadScratch.length := by
      rw [page.length_bytes]
      omega
    constructor
    · rw [length_append, length_splice hfit, hlen, ← length_append,
        take_append_drop]
    · rw [splice, take_zero, nil_append]
      exact slice_take_append hhead
  by_cases hshort : (tokenStream profile page).length < pageBytes
  · have hfit : 0 + (tokenStream profile page).length ≤ (scratch.drop headerBytes).length := by
      omega
    rw [encodeSxrcPayload_of_le (by omega), if_pos hshort]
    simp only
    rw [if_pos hshort]
    refine ⟨_, rfl, ?_, ?_⟩
    · rw [length_append, length_splice hfit, ← length_append, take_append_drop]
    · rw [splice, take_zero, nil_append]
      exact slice_take_append hhead
  · rw [if_neg hshort]
    by_cases hfit : (tokenStream profile page).length ≤ (scratch.drop headerBytes).length
    · rw [encodeSxrcPayload_of_le hfit]
      simp only
      rw [if_neg hshort]
      have hlen : (splice (scratch.drop headerBytes) 0 (tokenStream profile page)).length =
          (scratch.drop headerBytes).length := length_splice (by rwa [Nat.zero_add])
      refine ⟨_, ?_, hraw _ hlen⟩
      rw [page.length_bytes]
    · have hresult := encodeSxrcPayload_of_lt (not_le.mp hfit)
      have hlen : (encodeSxrcPayload profile page (scratch.drop headerBytes)).2.length =
          (scratch.drop headerBytes).length := length_encodeSxrcPayload _
      generalize encodeSxrcPayload profile page (scratch.drop headerBytes) = r at hresult hlen ⊢
      obtain ⟨result, out⟩ := r
      obtain rfl : result = .error .outputTooSmall := hresult
      refine ⟨_, ?_, hraw out hlen⟩
      rw [page.length_bytes]

/-- The header is written in front of a payload that is in place. -/
theorem encodePage_of_encodePayload (h : headerBytes ≤ scratch.length)
    (heq : encodePayload profile page scratch = (.ok (c, payload.length), scratch'))
    (hfit : headerBytes + payload.length ≤ scratch'.length)
    (hslice : slice scratch' headerBytes payload.length = payload) :
    (encodePage profile page scratch).1 = .ok ⟨c,
      (EncodedHeader.mk c (UInt16.ofNat payload.length) (fnv1a32 payload)).toBytes ++
        payload⟩ := by
  rw [encodePage, if_neg (not_lt.mpr h), heq]
  simp only [hslice, EncodedHeader.encodeInto_eq _ (show headerBytes ≤ scratch'.length by omega)]
  set header : EncodedHeader := ⟨c, UInt16.ofNat payload.length, fnv1a32 payload⟩
  have hhead : (splice scratch' 0 header.toBytes).take headerBytes = header.toBytes := by
    have htake : (splice scratch' 0 header.toBytes).take (0 + header.toBytes.length) =
        scratch'.take 0 ++ header.toBytes := take_splice (Nat.zero_le _)
    rwa [header.length_toBytes, Nat.zero_add, take_zero, nil_append] at htake
  rw [← take_append_slice, hhead, slice_splice_of_ge (by simp) (Nat.zero_le _), hslice]

/-- **What `encode_page` returns** in a buffer that is large enough. -/
theorem encodePage_eq_encoding (h : maxEncodedPageBytes ≤ scratch.length) :
    (encodePage profile page scratch).1 = .ok (encodedPage profile page) := by
  have hlong : headerBytes + pageBytes ≤ scratch.length := h
  obtain ⟨scratch', heq, hlen, hslice⟩ :
      ∃ scratch', encodePayload profile page scratch =
          (.ok ((encoding profile page).1, (encoding profile page).2.length), scratch') ∧
        scratch'.length = scratch.length ∧
        slice scratch' headerBytes (encoding profile page).2.length =
          (encoding profile page).2 := encodePayload_eq_encoding h
  have hle : (encoding profile page).2.length ≤ pageBytes := length_encoding_le
  have hfit : headerBytes + (encoding profile page).2.length ≤ scratch'.length := by omega
  exact encodePage_of_encodePayload (by omega) heq hfit hslice

/-- If `encode_page` succeeds, in whatever buffer, it returns the encoding of the page. -/
theorem encodePage_eq_ok (he : (encodePage profile page scratch).1 = .ok e) :
    e = encodedPage profile page := by
  by_cases h : maxEncodedPageBytes ≤ scratch.length
  · rw [encodePage_eq_encoding h] at he
    exact (Except.ok.inj he).symm
  have hhead : headerBytes ≤ scratch.length := by
    by_contra hshort
    rw [encodePage, if_pos (not_le.mp hshort)] at he
    cases he
  by_cases hzero : isZeroPage page = true
  · have heq : encodePayload profile page scratch = (.ok (.zero, ([] : List UInt8).length),
        scratch) := if_pos hzero
    rw [encodePage_of_encodePayload hhead heq hhead rfl] at he
    rw [encodedPage, encoding, if_pos hzero]
    exact (Except.ok.inj he).symm
  by_cases hsame : isSamePage page = true
  · by_cases hroom : scratch.length < headerBytes + 1
    · rw [encodePage, if_neg (not_lt.mpr hhead), encodePayload, if_neg hzero, if_pos hsame,
        if_pos hroom] at he
      cases he
    · have heq : encodePayload profile page scratch =
          (.ok (.same, [page.bytes.getD 0 0].length),
            splice scratch headerBytes [page.bytes.getD 0 0]) := by
        rw [encodePayload, if_neg hzero, if_pos hsame, if_neg hroom]
        rfl
      rw [encodedPage, encoding, if_neg hzero, if_pos hsame]
      generalize page.bytes.getD 0 0 = byte at heq ⊢
      have hfit : headerBytes + [byte].length ≤ scratch.length := not_lt.mp hroom
      rw [encodePage_of_encodePayload hhead heq ((length_splice hfit).symm ▸ hfit)
        (slice_splice hhead)] at he
      exact (Except.ok.inj he).symm
  · have hshort : scratch.length < headerBytes + pageBytes := not_le.mp h
    rw [encodePage, if_neg (not_lt.mpr hhead), encodePayload, if_neg hzero, if_neg hsame,
      if_pos hshort] at he
    cases he

/-- **The scratch buffer does not matter.** Any two buffers that are large enough, of whatever sizes
and contents, give the same class and the same bytes. -/
theorem encodePage_scratch_irrelevant (profile : Profile) (page : Page)
    (scratch scratch' : List UInt8) (h : maxEncodedPageBytes ≤ scratch.length)
    (h' : maxEncodedPageBytes ≤ scratch'.length) :
    ∃ e, (encodePage profile page scratch).1 = .ok e ∧
      (encodePage profile page scratch').1 = .ok e :=
  ⟨encodedPage profile page, encodePage_eq_encoding h, encodePage_eq_encoding h'⟩

/-- Two buffers of different sizes and contents. -/
theorem encodePage_scratch_irrelevant_two :
    let page : Page := ⟨List.replicate pageBytes 7, length_replicate⟩
    ∃ e, (encodePage profileGenerated page (List.replicate maxEncodedPageBytes 0)).1 = .ok e ∧
      (encodePage profileGenerated page (List.replicate (maxEncodedPageBytes + 100) 1)).1 =
        .ok e :=
  encodePage_scratch_irrelevant profileGenerated _ _ _ (by rw [length_replicate])
    (by rw [length_replicate]; exact Nat.le_add_right _ _)

end Hxnu.Mm.Compress
