import Hxnu.Mm.Compress.RoundTrip

/-!
# What the decoder accepts

`decode_page` reads bytes that may have been damaged. This file states exactly which byte strings it
accepts and which page it makes of them, and that it never reads or writes outside a buffer. For the
latter the decoder is written once more in `Strict`, with every access that Rust stops at when it is
out of range.

## Main definitions

* `Strict.decodePage`: the decoder with its accesses; `none` stands for a panic.
* `expandAll`: the bytes a list of tokens stands for.
* `Encodes`: the byte strings that stand for a page, by class.

## Main results

* `Strict.decodePage_eq`: no access is out of range.
* `decodeLoop_eq_ok`: the token streams that the loop of `decode_sxrc_payload` accepts.
* `decodePage_exact`: the decoder on all byte strings.
-/

namespace Hxnu.Mm.Compress

open Buffer List

variable {bytes input payload out xs page : List UInt8} {offset read : ℕ} {c : CompressionClass}

variable (profile : Profile)

/-! ### The decoder with its accesses -/

namespace Strict

/-- `&bytes[start..start + len]`. -/
def range (bytes : List UInt8) (start len : ℕ) : Option (List UInt8) :=
  if start + len ≤ bytes.length then some (slice bytes start len) else none

/-- `out[write..write + bytes.len()].copy_from_slice(bytes)`. -/
def copyFromSlice (out : List UInt8) (write : ℕ) (bytes : List UInt8) : Option (List UInt8) :=
  if write + bytes.length ≤ out.length then some (splice out write bytes) else none

/-- The `n` bytes from `offset` on, read one by one. -/
def readBytes (input : List UInt8) (offset : ℕ) : ℕ → Option (List UInt8)
  | 0 => some []
  | n + 1 => do
    let byte ← input[offset]?
    let bytes ← readBytes input (offset + 1) n
    some (byte :: bytes)

def readU16Le (input : List UInt8) (offset : ℕ) : Option UInt16 :=
  (readBytes input offset 2).map fun bytes => UInt16.ofNat (ofLeBytes bytes)

def readU32Le (input : List UInt8) (offset : ℕ) : Option UInt32 :=
  (readBytes input offset 4).map fun bytes => UInt32.ofNat (ofLeBytes bytes)

/-- `EncodedHeader::decode`. -/
def decodeHeader (input : List UInt8) : Option (Except CompressionError EncodedHeader) :=
  if input.length < headerBytes then some (.error .truncatedInput)
  else do
    let word ← readU32Le input 0
    if word ≠ UInt32.ofNat (ofLeBytes magic) then some (.error .invalidHeaderMagic)
    else
      let byte ← input[4]?
      if byte ≠ version then some (.error .unsupportedHeaderVersion)
      else
        let id ← input[5]?
        match CompressionClass.fromId id with
        | .error e => some (.error e)
        | .ok pageClass =>
          let payloadLen ← readU16Le input 6
          let decodedLen ← readU16Le input 8
          if decodedLen ≠ UInt16.ofNat pageBytes then some (.error .invalidDecodedLength)
          else
            let checksum ← readU32Le input 12
            some (.ok ⟨pageClass, payloadLen, checksum⟩)

def readU16 (payload : List UInt8) (read : ℕ) : Option (Except CompressionError (UInt16 × ℕ)) :=
  if payload.length < read + 2 then some (.error .invalidPayloadLength)
  else (readU16Le payload read).map fun value => .ok (value, read + 2)

/-- A token at `read`. -/
def decodeToken (payload : List UInt8) (read : ℕ) :
    Option (Except CompressionError (List UInt8 × ℕ)) := do
  let token ← payload[read]?
  let read := read + 1
  if token = tokenLiteral then
    if payload.length ≤ read then some (.error .invalidPayloadLength)
    else
      let byte ← payload[read]?
      let len := byte.toNat
      let read := read + 1
      if len = 0 then some (.error .invalidPayloadLength)
      else if payload.length < read + len then some (.error .invalidPayloadLength)
      else
        let run ← range payload read len
        some (.ok (run, read + len))
  else if token = tokenDict then
    match ← readU16 payload read with
    | .error e => some (.error e)
    | .ok (id, read) =>
      match lookupDictionaryById profile id with
      | none => some (.error .invalidPayloadLength)
      | some value => some (.ok (leBytes dictDecodeBytes value.toNat, read))
  else if token = tokenPattern then
    match ← readU16 payload read with
    | .error e => some (.error e)
    | .ok (id, read) =>
      match lookupPatternById profile id with
      | none => some (.error .invalidPayloadLength)
      | some bytes => some (.ok (bytes, read))
  else some (.error .invalidPayloadLength)

theorem getElem?_eq_getD {i : ℕ} (h : i < bytes.length) : bytes[i]? = some (bytes.getD i 0) := by
  rw [List.getElem?_eq_getElem h, getD_eq_getElem bytes 0 h]

theorem slice_succ (h : offset < bytes.length) :
    slice bytes offset (n + 1) = bytes.getD offset 0 :: slice bytes (offset + 1) n := by
  rw [slice, slice, drop_eq_getElem_cons h, take_succ_cons,
    getD_eq_getElem bytes 0 h]

theorem readBytes_eq (h : offset + n ≤ input.length) :
    readBytes input offset n = some (slice input offset n) := by
  induction n generalizing offset with
  | zero => rfl
  | succ n ih =>
    have hoffset : offset < input.length := by omega
    rw [readBytes, getElem?_eq_getD hoffset, ih (by omega), slice_succ hoffset]
    rfl

theorem readU16Le_eq (h : offset + 2 ≤ input.length) :
    readU16Le input offset = some (EncodedHeader.readU16Le input offset) := by
  rw [readU16Le, readBytes_eq h]
  rfl

theorem readU32Le_eq (h : offset + 4 ≤ input.length) :
    readU32Le input offset = some (EncodedHeader.readU32Le input offset) := by
  rw [readU32Le, readBytes_eq h]
  rfl

theorem decodeHeader_eq (input : List UInt8) :
    decodeHeader input = some (EncodedHeader.decode input) := by
  rw [decodeHeader, EncodedHeader.decode]
  by_cases hshort : input.length < headerBytes
  · rw [if_pos hshort, if_pos hshort]
  rw [if_neg hshort, if_neg hshort]
  rw [not_lt, headerBytes] at hshort
  rw [readU32Le_eq (by omega), getElem?_eq_getD (show 4 < input.length by omega),
    getElem?_eq_getD (show 5 < input.length by omega), readU16Le_eq (by omega),
    readU16Le_eq (by omega), readU32Le_eq (by omega)]
  simp only [Option.bind_eq_bind, Option.bind_some]
  cases CompressionClass.fromId (input.getD 5 0) with
  | error | ok =>
    simp only
    split_ifs <;> rfl

theorem readU16_eq (payload : List UInt8) (read : ℕ) :
    readU16 payload read = some (Compress.readU16 payload read) := by
  rw [readU16, Compress.readU16]
  split_ifs with hshort
  · rfl
  · rw [readU16Le_eq (not_lt.mp hshort)]
    rfl

variable {profile}

theorem decodeToken_eq (h : read < payload.length) :
    decodeToken profile payload read = some (Compress.decodeToken profile payload read) := by
  rw [decodeToken, Compress.decodeToken, getElem?_eq_getD h]
  simp only [readU16_eq, Option.bind_eq_bind, Option.bind_some]
  by_cases hliteral : payload.getD read 0 = tokenLiteral
  · rw [if_pos hliteral, if_pos hliteral]
    by_cases hshort : payload.length ≤ read + 1
    · rw [if_pos hshort, if_pos hshort]
    · rw [if_neg hshort, if_neg hshort, getElem?_eq_getD (not_le.mp hshort), Option.bind_some]
      split_ifs with hzero hlong
      · rfl
      · rfl
      · rw [range, if_pos (not_lt.mp hlong)]
        rfl
  rw [if_neg hliteral, if_neg hliteral]
  split_ifs with hdict hpattern
  · cases Compress.readU16 payload (read + 1) with
    | error e => rfl
    | ok found =>
      simp only
      cases lookupDictionaryById profile found.1 <;> rfl
  · cases Compress.readU16 payload (read + 1) with
    | error e => rfl
    | ok found =>
      simp only
      cases lookupPatternById profile found.1 <;> rfl
  · rfl

variable (profile)

/-- The loop of `decode_sxrc_payload`. -/
def decodeLoop (payload out : List UInt8) (read write : ℕ) :
    Option (Except CompressionError Unit × List UInt8) :=
  if write < pageBytes then
    if hread : payload.length ≤ read then some (.error .invalidPayloadLength, out)
    else
      match h : decodeToken profile payload read with
      | none => none
      | some (.error e) => some (.error e, out)
      | some (.ok (bytes, next)) =>
        if pageBytes < write + bytes.length then some (.error .invalidPayloadLength, out)
        else
          match copyFromSlice out write bytes with
          | none => none
          | some out =>
            have := lt_of_decodeToken profile
              (Option.some.inj ((decodeToken_eq (not_le.mp hread)).symm.trans h))
            decodeLoop payload out next (write + bytes.length)
  else if read ≠ payload.length then some (.error .invalidPayloadLength, out)
  else some (.ok (), out)
termination_by payload.length - read

/-- `decode_page`. -/
def decodePage (encoded out : List UInt8) :
    Option (Except CompressionError CompressionClass × List UInt8) := do
  match ← decodeHeader encoded with
  | .error e => some (.error e, out)
  | .ok header =>
    let payloadLen := header.payloadLen.toNat
    let encodedLen := headerBytes + payloadLen
    if encoded.length ≠ encodedLen then some (.error .invalidPayloadLength, out)
    else
      let payload ← range encoded headerBytes payloadLen
      if fnv1a32 payload ≠ header.checksum then some (.error .checksumMismatch, out)
      else
        match header.pageClass with
        | .zero =>
          if payload ≠ [] then some (.error .invalidPayloadLength, out)
          else some (.ok .zero, List.replicate pageBytes 0)
        | .same =>
          if payload.length ≠ 1 then some (.error .invalidPayloadLength, out)
          else
            let byte ← payload[0]?
            some (.ok .same, List.replicate pageBytes byte)
        | .raw =>
          if payload.length ≠ pageBytes then some (.error .invalidPayloadLength, out)
          else (copyFromSlice out 0 payload).map fun out => (.ok .raw, out)
        | .sxrc =>
          (decodeLoop profile payload out 0 0).map fun
            | (.error e, out) => (.error e, out)
            | (.ok (), out) => (.ok .sxrc, out)

variable {profile}

theorem copyFromSlice_eq (h : write + bytes.length ≤ out.length) :
    copyFromSlice out write bytes = some (splice out write bytes) :=
  if_pos h

theorem decodeLoop_eq (read write : ℕ) (hout : out.length = pageBytes) :
    decodeLoop profile payload out read write =
      some (Compress.decodeLoop profile payload out read write) := by
  fun_induction Compress.decodeLoop profile payload out read write with
  | case1 out read write hwrite hend =>
    rw [decodeLoop, if_pos hwrite, dif_pos hend]
  | case2 out read write hwrite hend e htoken =>
    rw [decodeLoop, if_pos hwrite, dif_neg hend]
    split <;> rename_i heq <;> rw [decodeToken_eq (not_le.mp hend), htoken] at heq <;> cases heq
    rfl
  | case3 out read write hwrite hend bytes next htoken hlong =>
    rw [decodeLoop, if_pos hwrite, dif_neg hend]
    split <;> rename_i heq <;> rw [decodeToken_eq (not_le.mp hend), htoken] at heq <;> cases heq
    rw [if_pos hlong]
  | case4 out read write hwrite hend bytes next htoken hlong hlt ih =>
    have hfit : write + bytes.length ≤ out.length := hout ▸ not_lt.mp hlong
    rw [decodeLoop, if_pos hwrite, dif_neg hend]
    split <;> rename_i heq <;> rw [decodeToken_eq (not_le.mp hend), htoken] at heq <;> cases heq
    rw [if_neg hlong, copyFromSlice_eq hfit]
    exact ih ((length_splice hfit).trans hout)
  | case5 out read write hwrite hne =>
    rw [decodeLoop, if_neg hwrite, if_pos hne]
  | case6 out read write hwrite hend =>
    rw [decodeLoop, if_neg hwrite, if_neg hend]

/-- **No access of the decoder is out of range.** -/
theorem decodePage_eq (encoded : List UInt8) (out : Page) :
    decodePage profile encoded out.bytes =
      some (Compress.decodePage profile encoded out.bytes) := by
  rw [decodePage, Compress.decodePage, decodeHeader_eq]
  cases EncodedHeader.decode encoded with
  | error e => rfl
  | ok header =>
    simp only [Option.bind_eq_bind, Option.bind_some]
    by_cases hlength : encoded.length = headerBytes + header.payloadLen.toNat
    · rw [if_neg (not_not.mpr hlength), if_neg (not_not.mpr hlength), range,
        if_pos hlength.ge, Option.bind_some]
      generalize slice encoded headerBytes header.payloadLen.toNat = payload
      by_cases hsum : fnv1a32 payload = header.checksum
      · rw [if_neg (not_not.mpr hsum), if_neg (not_not.mpr hsum)]
        cases header.pageClass with
        | zero =>
          simp only
          split_ifs <;> rfl
        | same =>
          simp only
          split_ifs with hone
          · rfl
          · rw [not_not] at hone
            rw [getElem?_eq_getD (by rw [hone]; exact Nat.one_pos)]
            rfl
        | raw =>
          simp only
          split_ifs with hfull
          · rfl
          · rw [not_not] at hfull
            rw [copyFromSlice_eq (by rw [hfull, out.length_bytes, Nat.zero_add]),
              splice_zero (hfull.trans out.length_bytes.symm)]
            rfl
        | sxrc =>
          simp only [decodeLoop_eq 0 0 out.length_bytes, Option.map_some, decodeSxrcPayload]
          all_goals rcases Compress.decodeLoop profile payload out.bytes 0 0 with ⟨_ | _, _⟩ <;> rfl
      · rw [if_pos hsum, if_pos hsum]
    · rw [if_pos hlength, if_pos hlength]

end Strict

/-! ### Token streams -/

/-- The bytes a list of tokens stands for, if each token stands for some. -/
def expandAll (ts : List Token) : Option (List UInt8) :=
  match ts with
  | [] => some []
  | t :: ts => (t.expand profile).bind fun xs => (expandAll ts).map (xs ++ ·)

/-- The tables have no empty pattern, so every token stands for at least one byte. -/
def Profile.NonemptyPatterns : Prop := ∀ entry ∈ profile.patterns, entry.2 ≠ []

variable {profile}

theorem expand_ne_nil (hne : profile.NonemptyPatterns) {t : Token}
    (h : t.expand profile = some xs) : xs ≠ [] := by
  cases t with
  | literal run =>
    rw [Token.expand] at h
    split_ifs at h with hrun
    obtain rfl := Option.some.inj h
    exact length_pos_iff.mp hrun.1
  | dictionary id =>
    obtain ⟨value, -, rfl⟩ := Option.map_eq_some_iff.mp h
    exact cons_ne_nil _ _
  | pattern id =>
    obtain ⟨entry, hentry, rfl⟩ := Option.map_eq_some_iff.mp h
    exact hne entry (mem_of_find?_eq_some hentry)

theorem expands_iff (hne : profile.NonemptyPatterns) :
    Expands profile ts xs ↔ expandAll profile ts = some xs := by
  induction ts generalizing xs with
  | nil =>
    rw [expandAll, Option.some.injEq]
    constructor
    · rintro ⟨⟩
      rfl
    · rintro rfl
      exact .nil
  | cons t ts ih =>
    rw [expandAll, Option.bind_eq_some_iff]
    constructor
    · rintro (_ | ⟨ht, -, hts⟩)
      refine ⟨_, ht, ?_⟩
      rw [ih.mp hts]
      rfl
    · rintro ⟨ys, ht, hts⟩
      obtain ⟨zs, hzs, rfl⟩ := Option.map_eq_some_iff.mp hts
      exact .cons ht (expand_ne_nil hne ht) (ih.mpr hzs)

/-- Two bytes are the little-endian form of a word. -/
theorem leBytes_readU16 {next : ℕ} {id : UInt16} (h : readU16 payload read = .ok (id, next)) :
    payload.drop read = leBytes 2 id.toNat ++ payload.drop next := by
  rw [readU16] at h
  split_ifs at h with hshort
  obtain ⟨rfl, rfl⟩ := Prod.mk.inj (Except.ok.inj h)
  have hlen : (slice payload read 2).length = 2 := length_slice (not_lt.mp hshort)
  have hlt : ofLeBytes (slice payload read 2) < 2 ^ 16 := by
    have := ofLeBytes_lt (slice payload read 2)
    rwa [hlen] at this
  have hbytes : leBytes 2 (UInt16.ofNat (ofLeBytes (slice payload read 2))).toNat =
      slice payload read 2 := by
    have hread := leBytes_ofLeBytes (slice payload read 2)
    rw [hlen] at hread
    rw [UInt16.toNat_ofNat', Nat.mod_eq_of_lt hlt, hread]
  rw [hbytes, slice, ← drop_drop, take_append_drop]

theorem drop_eq_getD_cons (h : read < payload.length) :
    payload.drop read = payload.getD read 0 :: payload.drop (read + 1) := by
  rw [drop_eq_getElem_cons h, getD_eq_getElem payload 0 h]

/-- **What is read is a token.** -/
theorem decodeToken_eq_ok {next : ℕ} (hread : read < payload.length)
    (h : decodeToken profile payload read = .ok (xs, next)) :
    ∃ t : Token, t.expand profile = some xs ∧
      payload.drop read = t.bytes ++ payload.drop next ∧ next = read + t.bytes.length := by
  rw [drop_eq_getD_cons hread]
  simp only [decodeToken] at h
  by_cases hliteral : payload.getD read 0 = tokenLiteral
  · rw [if_pos hliteral] at h
    split_ifs at h with hshort hzero hlong
    obtain ⟨rfl, rfl⟩ := Prod.mk.inj (Except.ok.inj h)
    have hlen := length_slice (not_lt.mp hlong)
    have hlt := (payload.getD (read + 1) 0).toNat_lt
    refine ⟨.literal (slice payload (read + 1 + 1) (payload.getD (read + 1) 0).toNat), ?_, ?_, ?_⟩
    · rw [Token.expand, hlen, if_pos ⟨Nat.pos_of_ne_zero hzero, Nat.le_of_lt_succ hlt⟩]
    · have hrest : payload.drop (read + 1 + 1) =
          slice payload (read + 1 + 1) (payload.getD (read + 1) 0).toNat ++
            payload.drop (read + 1 + 1 + (payload.getD (read + 1) 0).toNat) := by
        rw [slice, ← drop_drop (j := read + 1 + 1), take_append_drop]
      rw [Token.bytes, hlen, UInt8.ofNat_toNat, hliteral, drop_eq_getD_cons (not_le.mp hshort),
        hrest, cons_append, cons_append]
    · rw [Token.bytes, length_cons, length_cons, hlen]
      omega
  rw [if_neg hliteral] at h
  split_ifs at h with hdict hpattern
  · split at h
    · cases h
    rename_i id next' hid
    split at h
    · cases h
    rename_i value hvalue
    obtain ⟨rfl, rfl⟩ := Prod.mk.inj (Except.ok.inj h)
    refine ⟨.dictionary id, ?_, ?_, ?_⟩
    · rw [Token.expand, hvalue]
      rfl
    · rw [hdict, leBytes_readU16 hid]
      rfl
    · rw [readU16_eq_ok hid, Token.bytes, length_cons, length_leBytes]
  · split at h
    · cases h
    rename_i id next' hid
    split at h
    · cases h
    rename_i bytes hbytes
    obtain ⟨rfl, rfl⟩ := Prod.mk.inj (Except.ok.inj h)
    refine ⟨.pattern id, hbytes, ?_, ?_⟩
    · rw [hpattern, leBytes_readU16 hid]
      rfl
    · rw [readU16_eq_ok hid, Token.bytes, length_cons, length_leBytes]

/-- **The token streams that are accepted.** If the loop ends well, the rest of the payload is a list
of tokens that fills the rest of the page. -/
theorem exists_tokens_of_decodeLoop (hne : profile.NonemptyPatterns)
    {write : ℕ} (hout : out.length = pageBytes) (hwrite : write ≤ pageBytes)
    (hread : read ≤ payload.length)
    (h : decodeLoop profile payload out read write = (.ok (), page)) :
    ∃ ts xs, payload.drop read = serialize ts ∧ Expands profile ts xs ∧
      write + xs.length = pageBytes ∧ page = out.take write ++ xs := by
  fun_induction decodeLoop profile payload out read write with
  | case1 | case2 | case3 | case5 => cases h
  | case4 out read write hlt hend bytes next htoken hlong hnext ih =>
    have hfit := not_lt.mp hlong
    obtain ⟨t, ht, hdrop, rfl⟩ := decodeToken_eq_ok (not_le.mp hend) htoken
    have hle : read + t.bytes.length ≤ payload.length := by
      have hlen := congrArg List.length hdrop
      rw [length_append, length_drop, length_drop] at hlen
      omega
    obtain ⟨ts, xs, hrest, hts, hlen, rfl⟩ :=
      ih ((length_splice (by omega)).trans hout) hfit hle h
    refine ⟨t :: ts, bytes ++ xs, ?_, .cons ht (expand_ne_nil hne ht) hts, ?_, ?_⟩
    · rw [hdrop, hrest, serialize_cons]
    · rw [length_append]
      omega
    · rw [take_splice (by omega), append_assoc]
  | case6 out read write hge hend =>
    obtain rfl := (Prod.mk.inj h).2
    have hfull : write = pageBytes := le_antisymm hwrite (not_lt.mp hge)
    rw [not_not] at hend
    refine ⟨[], [], ?_, .nil, ?_, ?_⟩
    · rw [hend, drop_length, serialize_nil]
    · rw [hfull, length_nil, Nat.add_zero]
    · rw [hfull, append_nil, take_of_length_le hout.le]

theorem decodeLoop_eq_ok (hne : profile.NonemptyPatterns) (hout : out.length = pageBytes) :
    decodeLoop profile payload out 0 0 = (.ok (), page) ↔
      ∃ ts, payload = serialize ts ∧ expandAll profile ts = some page ∧
        page.length = pageBytes := by
  constructor
  · intro h
    obtain ⟨ts, xs, hdrop, hexp, hlen, rfl⟩ :=
      exists_tokens_of_decodeLoop hne hout (Nat.zero_le _) (Nat.zero_le _) h
    rw [Nat.zero_add] at hlen
    exact ⟨ts, hdrop, (expands_iff hne).mp hexp, hlen⟩
  · rintro ⟨ts, rfl, hexp, hlen⟩
    have h := decodeLoop_serialize ((expands_iff hne).mpr hexp) [] out 0 hout
      (by rw [Nat.zero_add, hlen])
    rwa [nil_append, length_nil, take_zero, nil_append] at h

/-! ### Encoded pages -/

variable (profile)

/-- The payloads of each class, with the page that they stand for. -/
def PayloadOf (payload page : List UInt8) : CompressionClass → Prop
  | .zero => payload = [] ∧ page = List.replicate pageBytes 0
  | .same => ∃ byte, payload = [byte] ∧ page = List.replicate pageBytes byte
  | .raw => payload.length = pageBytes ∧ page = payload
  | .sxrc => ∃ ts, payload = serialize ts ∧ expandAll profile ts = some page ∧
      page.length = pageBytes

/-- The byte strings that stand for a page. -/
structure Encodes (encoded : List UInt8) (pageClass : CompressionClass) (page : List UInt8) :
    Prop where
  header : headerBytes ≤ encoded.length
  magic : slice encoded 0 4 = magic
  version : encoded.getD 4 0 = 1
  classId : encoded.getD 5 0 = pageClass.id
  decodedLen : ofLeBytes (slice encoded 8 2) = pageBytes
  length : encoded.length = headerBytes + ofLeBytes (slice encoded 6 2)
  checksum : (fnv1a32 (encoded.drop headerBytes)).toNat = ofLeBytes (slice encoded 12 4)
  payload : PayloadOf profile (encoded.drop headerBytes) page pageClass

variable {profile}

theorem CompressionClass.fromId_eq_ok {id : UInt8} : fromId id = .ok c ↔ id = c.id := by
  constructor
  · intro h
    rw [fromId] at h
    split_ifs at h with h₀ h₁ h₂ h₃ <;> cases h
    · exact h₀
    · exact h₁
    · exact h₂
    · exact h₃
  · rintro rfl
    exact fromId_id c

theorem toNat_readU16Le (h : offset + 2 ≤ input.length) :
    (EncodedHeader.readU16Le input offset).toNat = ofLeBytes (slice input offset 2) := by
  have hlt : ofLeBytes (slice input offset 2) < 2 ^ 16 := by
    have hlt := ofLeBytes_lt (slice input offset 2)
    rwa [length_slice h] at hlt
  rw [EncodedHeader.readU16Le, UInt16.toNat_ofNat', Nat.mod_eq_of_lt hlt]

theorem toNat_readU32Le (h : offset + 4 ≤ input.length) :
    (EncodedHeader.readU32Le input offset).toNat = ofLeBytes (slice input offset 4) := by
  have hlt : ofLeBytes (slice input offset 4) < 2 ^ 32 := by
    have hlt := ofLeBytes_lt (slice input offset 4)
    rwa [length_slice h] at hlt
  rw [EncodedHeader.readU32Le, UInt32.toNat_ofNat', Nat.mod_eq_of_lt hlt]

theorem readU32Le_magic_iff (h : headerBytes ≤ input.length) :
    EncodedHeader.readU32Le input 0 = UInt32.ofNat (ofLeBytes magic) ↔
      slice input 0 4 = magic := by
  rw [headerBytes] at h
  have hlen : (slice input 0 4).length = magic.length := length_slice (by omega)
  have hmagic : (UInt32.ofNat (ofLeBytes magic)).toNat = ofLeBytes magic := by decide
  rw [← UInt32.toNat_inj, toNat_readU32Le (by omega), hmagic, ofLeBytes_inj hlen]

theorem readU16Le_pageBytes_iff (h : headerBytes ≤ input.length) :
    EncodedHeader.readU16Le input 8 = UInt16.ofNat pageBytes ↔
      ofLeBytes (slice input 8 2) = pageBytes := by
  rw [headerBytes] at h
  have hpage : (UInt16.ofNat pageBytes).toNat = pageBytes := by decide
  rw [← UInt16.toNat_inj, toNat_readU16Le (by omega), hpage]

/-- The headers that are accepted. -/
theorem EncodedHeader.decode_eq_ok :
    EncodedHeader.decode input = .ok header ↔
      headerBytes ≤ input.length ∧ slice input 0 4 = magic ∧ input.getD 4 0 = version ∧
        input.getD 5 0 = header.pageClass.id ∧ ofLeBytes (slice input 8 2) = pageBytes ∧
        header.payloadLen = readU16Le input 6 ∧ header.checksum = readU32Le input 12 := by
  rw [EncodedHeader.decode]
  by_cases hshort : input.length < headerBytes
  · rw [if_pos hshort]
    exact iff_of_false (by simp) fun h => absurd h.1 (not_le.mpr hshort)
  have hlong := not_lt.mp hshort
  rw [if_neg hshort]
  by_cases hmagic : readU32Le input 0 = UInt32.ofNat (ofLeBytes magic)
  swap
  · rw [if_pos hmagic]
    exact iff_of_false (by simp) fun h => hmagic ((readU32Le_magic_iff hlong).mpr h.2.1)
  rw [if_neg (not_not.mpr hmagic)]
  rw [readU32Le_magic_iff hlong] at hmagic
  by_cases hversion : input.getD 4 0 = version
  swap
  · rw [if_pos hversion]
    exact iff_of_false (by simp) fun h => hversion h.2.2.1
  rw [if_neg (not_not.mpr hversion)]
  cases hclass : CompressionClass.fromId (input.getD 5 0) with
  | error e =>
    refine iff_of_false (by simp) fun h => ?_
    rw [CompressionClass.fromId_eq_ok.mpr h.2.2.2.1] at hclass
    cases hclass
  | ok pageClass =>
    rw [CompressionClass.fromId_eq_ok] at hclass
    simp only
    by_cases hdecoded : readU16Le input 8 = UInt16.ofNat pageBytes
    swap
    · rw [if_pos hdecoded]
      exact iff_of_false (by simp) fun h =>
        hdecoded ((readU16Le_pageBytes_iff hlong).mpr h.2.2.2.2.1)
    rw [if_neg (not_not.mpr hdecoded)]
    rw [readU16Le_pageBytes_iff hlong] at hdecoded
    constructor
    · rintro ⟨⟩
      exact ⟨hlong, hmagic, hversion, hclass, hdecoded, rfl, rfl⟩
    · rintro ⟨-, -, -, hid, -, hlen, hsum⟩
      have hsame : pageClass = header.pageClass := by
        rw [hid] at hclass
        have h := (CompressionClass.fromId_id header.pageClass).symm.trans
          (hclass ▸ CompressionClass.fromId_id pageClass)
        exact (Except.ok.inj h).symm
      rw [hsame, ← hlen, ← hsum]

theorem CompressionClass.id_injective (h : c.id = c'.id) : c = c' := by
  have hok := (fromId_id c).symm.trans (h ▸ fromId_id c')
  exact Except.ok.inj hok

/-- With a header that is accepted, the rest of the conditions are about the payload. -/
theorem encodes_iff (hheader : EncodedHeader.decode encoded = .ok header) :
    Encodes profile encoded c page ↔
      encoded.length = headerBytes + header.payloadLen.toNat ∧
        fnv1a32 (slice encoded headerBytes header.payloadLen.toNat) = header.checksum ∧
        header.pageClass = c ∧
        PayloadOf profile (slice encoded headerBytes header.payloadLen.toNat) page c := by
  obtain ⟨hlong, hmagic, hversion, hclass, hdecoded, hlen, hsum⟩ :=
    EncodedHeader.decode_eq_ok.mp hheader
  have hlong' : 16 ≤ encoded.length := hlong
  have hnat : header.payloadLen.toNat = ofLeBytes (slice encoded 6 2) := by
    rw [hlen, toNat_readU16Le (by omega)]
  have hsumNat : header.checksum.toNat = ofLeBytes (slice encoded 12 4) := by
    rw [hsum, toNat_readU32Le (by omega)]
  have hpayload (h : encoded.length = headerBytes + header.payloadLen.toNat) :
      slice encoded headerBytes header.payloadLen.toNat = encoded.drop headerBytes := by
    rw [slice, take_of_length_le]
    rw [length_drop, h, Nat.add_sub_cancel_left]
  constructor
  · intro h
    have hlength := h.length
    rw [← hnat] at hlength
    rw [hpayload hlength, ← UInt32.toNat_inj, hsumNat]
    exact ⟨hlength, h.checksum, CompressionClass.id_injective (hclass.symm.trans h.classId),
      h.payload⟩
  · rintro ⟨hlength, hfnv, rfl, hof⟩
    rw [hpayload hlength] at hfnv hof
    refine ⟨hlong, hmagic, hversion, hclass, hdecoded, hnat ▸ hlength, ?_, hof⟩
    rw [hfnv, hsumNat]

/-- **What the decoder accepts**, and the page it makes of it. -/
theorem decodePage_eq_ok (hne : profile.NonemptyPatterns) (out : Page) :
    decodePage profile encoded out.bytes = (.ok c, page) ↔ Encodes profile encoded c page := by
  rw [decodePage]
  cases hheader : EncodedHeader.decode encoded with
  | error e =>
    refine iff_of_false (by simp) fun h => ?_
    have hok : EncodedHeader.decode encoded = .ok
        ⟨c, EncodedHeader.readU16Le encoded 6, EncodedHeader.readU32Le encoded 12⟩ :=
      EncodedHeader.decode_eq_ok.mpr
        ⟨h.header, h.magic, h.version, h.classId, h.decodedLen, rfl, rfl⟩
    rw [hok] at hheader
    cases hheader
  | ok header =>
    rw [encodes_iff hheader]
    simp only
    by_cases hlength : encoded.length = headerBytes + header.payloadLen.toNat
    swap
    · rw [if_pos hlength]
      exact iff_of_false (by simp) fun h => hlength h.1
    rw [if_neg (not_not.mpr hlength)]
    generalize slice encoded headerBytes header.payloadLen.toNat = payload
    by_cases hsum : fnv1a32 payload = header.checksum
    swap
    · rw [if_pos hsum]
      exact iff_of_false (by simp) fun h => hsum h.2.1
    rw [if_neg (not_not.mpr hsum)]
    simp only [hlength, hsum, true_and]
    cases header.pageClass with
    | zero =>
      by_cases hempty : payload = []
      · rw [if_neg (not_not.mpr hempty)]
        constructor
        · rintro ⟨⟩
          exact ⟨rfl, hempty, rfl⟩
        · rintro ⟨rfl, -, rfl⟩
          rfl
      · rw [if_pos hempty]
        refine iff_of_false (by simp) ?_
        rintro ⟨rfl, hpayload, -⟩
        exact hempty hpayload
    | same =>
      by_cases hone : payload.length = 1
      · obtain ⟨byte, rfl⟩ := length_eq_one_iff.mp hone
        rw [if_neg (not_not.mpr hone)]
        constructor
        · rintro ⟨⟩
          exact ⟨rfl, byte, rfl, rfl⟩
        · rintro ⟨rfl, byte', hbyte, rfl⟩
          cases hbyte
          rfl
      · rw [if_pos hone]
        refine iff_of_false (by simp) ?_
        rintro ⟨rfl, byte, rfl, -⟩
        exact hone rfl
    | raw =>
      by_cases hfull : payload.length = pageBytes
      · rw [if_neg (not_not.mpr hfull)]
        constructor
        · rintro ⟨⟩
          exact ⟨rfl, hfull, rfl⟩
        · rintro ⟨rfl, -, rfl⟩
          rfl
      · rw [if_pos hfull]
        refine iff_of_false (by simp) ?_
        rintro ⟨rfl, hpayload, -⟩
        exact hfull hpayload
    | sxrc =>
      have hloop : decodeLoop profile payload out.bytes 0 0 = (.ok (), page) ↔
          PayloadOf profile payload page .sxrc := decodeLoop_eq_ok hne out.length_bytes
      simp only [decodeSxrcPayload]
      generalize decodeLoop profile payload out.bytes 0 0 = result at hloop ⊢
      rcases result with ⟨e | ⟨⟩, out'⟩
      · refine iff_of_false (by simp) ?_
        rintro ⟨rfl, hpayload⟩
        cases hloop.mpr hpayload
      · constructor
        · rintro ⟨⟩
          exact ⟨rfl, hloop.mp rfl⟩
        · rintro ⟨rfl, hpayload⟩
          cases hloop.mpr hpayload
          rfl

theorem profileGenerated_nonemptyPatterns : profileGenerated.NonemptyPatterns := by
  intro entry hentry
  rw [profileGenerated] at hentry
  fin_cases hentry <;> exact cons_ne_nil _ _

/-- **The decoder on all byte strings**, with the shipped tables. No access is out of range; a byte
string is accepted if and only if it stands for a page, and then that page is the result, whatever
the output held before. -/
theorem decodePage_exact (encoded : List UInt8) (out : Page) :
    Strict.decodePage profileGenerated encoded out.bytes =
        some (decodePage profileGenerated encoded out.bytes) ∧
      ((∃ c, (decodePage profileGenerated encoded out.bytes).1 = .ok c) ↔
        ∃ c page, Encodes profileGenerated encoded c page) ∧
      ∀ c, (decodePage profileGenerated encoded out.bytes).1 = .ok c →
        Encodes profileGenerated encoded c (decodePage profileGenerated encoded out.bytes).2 ∧
          ∀ c' page, Encodes profileGenerated encoded c' page →
            c' = c ∧ page = (decodePage profileGenerated encoded out.bytes).2 := by
  have hiff {c : CompressionClass} {page : List UInt8} :
      decodePage profileGenerated encoded out.bytes = (.ok c, page) ↔
        Encodes profileGenerated encoded c page :=
    decodePage_eq_ok profileGenerated_nonemptyPatterns out
  have hsound {c : CompressionClass}
      (h : (decodePage profileGenerated encoded out.bytes).1 = .ok c) :
      Encodes profileGenerated encoded c (decodePage profileGenerated encoded out.bytes).2 :=
    hiff.mp (Prod.ext h rfl)
  refine ⟨Strict.decodePage_eq encoded out, ⟨?_, ?_⟩, ?_⟩
  · rintro ⟨c, h⟩
    exact ⟨c, _, hsound h⟩
  · rintro ⟨c, page, h⟩
    exact ⟨c, congrArg Prod.fst (hiff.mpr h)⟩
  · intro c h
    refine ⟨hsound h, ?_⟩
    intro c' page h'
    have hdecode := hiff.mpr h'
    rw [hdecode] at h ⊢
    exact ⟨Except.ok.inj h, rfl⟩

end Hxnu.Mm.Compress
