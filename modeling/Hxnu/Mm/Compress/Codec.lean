import Hxnu.Lib.Buffer

/-!
# The page codec

The codec of `kernel/src/mm/compress/`: `checksum.rs`, `header.rs`, `codec.rs` and the types of
`mod.rs`. A page is encoded as a 16-byte header and a payload of one of four classes; the class
`sxrc` is a stream of literal runs and references into two static tables.

A byte buffer is a list, and a write into it is `Buffer.splice`. Functions that write into a buffer
of the caller return the buffer as it is after the call, on errors too. Lengths and offsets are
naturals: every sum in the source is bounded by twice the length of a buffer.

## Main definitions

* `Profile`, `profileGenerated`: the static tables, and the shipped ones.
* `EncodedHeader.encodeInto`, `EncodedHeader.decode`.
* `encodeSxrcPayload`, `decodeSxrcPayload`.
* `encodePage`, `decodePage`.
-/

namespace Hxnu.Mm.Compress

open Buffer

def pageBytes : ℕ := 4096

def headerBytes : ℕ := 16

def maxEncodedPageBytes : ℕ := headerBytes + pageBytes

/-- The contents of a page, `[u8; PAGE_BYTES]`. -/
@[ext]
structure Page where
  bytes : List UInt8
  length_bytes : bytes.length = pageBytes

inductive CompressionClass
  | zero
  | same
  | sxrc
  | raw
  deriving DecidableEq, Repr

inductive CompressionError
  | notInitialized
  | outputTooSmall
  | truncatedInput
  | invalidHeaderMagic
  | unsupportedHeaderVersion
  | invalidPayloadLength
  | invalidDecodedLength
  | checksumMismatch
  | unsupportedClass
  deriving DecidableEq, Repr

namespace CompressionClass

def id : CompressionClass → UInt8
  | zero => 0
  | same => 1
  | sxrc => 2
  | raw => 3

def fromId (id : UInt8) : Except CompressionError CompressionClass :=
  if id = 0 then .ok zero
  else if id = 1 then .ok same
  else if id = 2 then .ok sxrc
  else if id = 3 then .ok raw
  else .error .unsupportedClass

end CompressionClass

/-- An encoded page: the class and the bytes, header included. -/
structure EncodedPage where
  pageClass : CompressionClass
  bytes : List UInt8

def EncodedPage.payload (e : EncodedPage) : List UInt8 := e.bytes.drop headerBytes

/-! ### Checksum -/

def fnv1a32OffsetBasis : UInt32 := 0x811c9dc5

def fnv1a32Prime : UInt32 := 0x01000193

def fnv1a32 (bytes : List UInt8) : UInt32 :=
  bytes.foldl (fun hash byte => (hash ^^^ byte.toUInt32) * fnv1a32Prime) fnv1a32OffsetBasis

/-! ### Header -/

/-- The bytes `HXCP`. -/
def magic : List UInt8 := [0x48, 0x58, 0x43, 0x50]

def version : UInt8 := 1

structure EncodedHeader where
  pageClass : CompressionClass
  payloadLen : UInt16
  checksum : UInt32

namespace EncodedHeader

def encodeInto (header : EncodedHeader) (out : List UInt8) :
    Except CompressionError Unit × List UInt8 :=
  if out.length < headerBytes then (.error .outputTooSmall, out)
  else
    let out := splice out 0 magic
    let out := splice out 4 [version]
    let out := splice out 5 [header.pageClass.id]
    let out := splice out 6 (leBytes 2 header.payloadLen.toNat)
    let out := splice out 8 (leBytes 2 pageBytes)
    let out := splice out 10 (leBytes 2 0)
    let out := splice out 12 (leBytes 4 header.checksum.toNat)
    (.ok (), out)

def readU16Le (input : List UInt8) (offset : ℕ) : UInt16 :=
  UInt16.ofNat (ofLeBytes (slice input offset 2))

def readU32Le (input : List UInt8) (offset : ℕ) : UInt32 :=
  UInt32.ofNat (ofLeBytes (slice input offset 4))

def decode (input : List UInt8) : Except CompressionError EncodedHeader :=
  if input.length < headerBytes then .error .truncatedInput
  else if readU32Le input 0 ≠ UInt32.ofNat (ofLeBytes magic) then .error .invalidHeaderMagic
  else if input.getD 4 0 ≠ version then .error .unsupportedHeaderVersion
  else
    match CompressionClass.fromId (input.getD 5 0) with
    | .error e => .error e
    | .ok pageClass =>
      if readU16Le input 8 ≠ UInt16.ofNat pageBytes then .error .invalidDecodedLength
      else .ok ⟨pageClass, readU16Le input 6, readU32Le input 12⟩

end EncodedHeader

/-! ### Static tables -/

/-- The tables that `sxrc-profile-gen` writes: dictionary words and byte patterns with their ids. -/
structure Profile where
  dictionary : List (UInt16 × UInt32)
  patterns : List (UInt16 × List UInt8)

/-- The shipped tables of `profile_generated.rs`. -/
def profileGenerated : Profile where
  dictionary := [(0x0001, 0x00000000), (0x0002, 0x0000ffff), (0x0003, 0x000007fe),
    (0x0004, 0x000004ee), (0x0005, 0x00009090)]
  patterns := [(0x0001, [0x48, 0x89, 0xd8]), (0x0002, [0x55])]

variable (profile : Profile)

def lookupDictionaryByValue (value : UInt32) : Option UInt16 :=
  (profile.dictionary.find? fun entry => entry.2 == value).map Prod.fst

def lookupDictionaryById (id : UInt16) : Option UInt32 :=
  (profile.dictionary.find? fun entry => entry.1 == id).map Prod.snd

def lookupPatternById (id : UInt16) : Option (List UInt8) :=
  (profile.patterns.find? fun entry => entry.1 == id).map Prod.snd

/-! ### Picking a token -/

def tokenLiteral : UInt8 := 0x00

def tokenDict : UInt8 := 0x01

def tokenPattern : UInt8 := 0x02

def tokenRefBytes : ℕ := 3

def dictDecodeBytes : ℕ := 4

/-- A reference the encoder can emit. It always stands for at least one byte of the page. -/
inductive EncodeToken
  | dictionary (id : UInt16) (decodedLen : ℕ) (pos : 0 < decodedLen)
  | pattern (id : UInt16) (decodedLen : ℕ) (pos : 0 < decodedLen)

namespace EncodeToken

def tag : EncodeToken → UInt8
  | dictionary .. => tokenDict
  | pattern .. => tokenPattern

def id : EncodeToken → UInt16
  | dictionary id _ _ => id
  | pattern id _ _ => id

def decodedLen : EncodeToken → ℕ
  | dictionary _ n _ => n
  | pattern _ n _ => n

theorem decodedLen_pos : (token : EncodeToken) → 0 < token.decodedLen
  | dictionary _ _ h => h
  | pattern _ _ h => h

end EncodeToken

/-- The body of the loop of `best_pattern_at`. -/
def betterPattern (page : Page) (offset : ℕ) (best : Option (UInt16 × List UInt8))
    (entry : UInt16 × List UInt8) : Option (UInt16 × List UInt8) :=
  if entry.2 = [] then best
  else if pageBytes < offset + entry.2.length then best
  else if slice page.bytes offset entry.2.length ≠ entry.2 then best
  else if best.all (fun current => current.2.length < entry.2.length) then some entry
  else best

def bestPatternAt (page : Page) (offset : ℕ) : Option (UInt16 × List UInt8) :=
  profile.patterns.foldl (betterPattern page offset) none

/-- The dictionary candidate of `pick_token`, with its savings. -/
def dictionaryCandidate (page : Page) (offset : ℕ) : Option (ℕ × EncodeToken) :=
  if offset + dictDecodeBytes ≤ pageBytes then
    let value := UInt32.ofNat (ofLeBytes (slice page.bytes offset 4))
    match lookupDictionaryByValue profile value with
    | some id =>
      let savings := dictDecodeBytes - tokenRefBytes
      if 0 < savings then some (savings, .dictionary id dictDecodeBytes (by decide)) else none
    | none => none
  else none

/-- The second half of `pick_token`: a pattern replaces the candidate if it saves more. -/
def orPattern (best : Option (ℕ × EncodeToken)) :
    Option (UInt16 × List UInt8) → Option (ℕ × EncodeToken)
  | some (id, bytes) =>
    let savings := bytes.length - tokenRefBytes
    if h : 0 < savings then
      if best.all (fun current => current.1 < savings) then
        some (savings, .pattern id bytes.length (h.trans_le (Nat.sub_le _ _)))
      else best
    else best
  | none => best

def pickToken (page : Page) (offset : ℕ) : Option EncodeToken :=
  (orPattern (dictionaryCandidate profile page offset) (bestPatternAt profile page offset)).map
    Prod.snd

/-! ### Encoding -/

/-- `emit_literal_run`, from `offset` on: the new write position and the buffer. -/
def emitLiteralRun (out : List UInt8) (write : ℕ) (bytes : List UInt8) (offset : ℕ) :
    Except CompressionError ℕ × List UInt8 :=
  if offset < bytes.length then
    let chunk := min (bytes.length - offset) 255
    let needed := 2 + chunk
    if out.length < write + needed then (.error .outputTooSmall, out)
    else
      let out := splice out write [tokenLiteral]
      let out := splice out (write + 1) [UInt8.ofNat chunk]
      let out := splice out (write + 2) (slice bytes offset chunk)
      emitLiteralRun out (write + needed) bytes (offset + chunk)
  else (.ok write, out)
termination_by bytes.length - offset

def emitRefToken (out : List UInt8) (write : ℕ) (tag : UInt8) (id : UInt16) :
    Except CompressionError ℕ × List UInt8 :=
  if out.length < write + tokenRefBytes then (.error .outputTooSmall, out)
  else
    let out := splice out write [tag]
    let out := splice out (write + 1) (leBytes 2 id.toNat)
    (.ok (write + tokenRefBytes), out)

/-- `emit_literal_run` of the pending literal bytes, if there are any. -/
def flushLiteral (page : Page) (out : List UInt8) (write literalStart literalLen : ℕ) :
    Except CompressionError ℕ × List UInt8 :=
  if 0 < literalLen then emitLiteralRun out write (slice page.bytes literalStart literalLen) 0
  else (.ok write, out)

/-- The loop of `encode_sxrc_payload`. -/
def encodeLoop (page : Page) (out : List UInt8) (read write literalStart literalLen : ℕ) :
    Except CompressionError ℕ × List UInt8 :=
  if read < pageBytes then
    match pickToken profile page read with
    | some token =>
      match flushLiteral page out write literalStart literalLen with
      | (.error e, out) => (.error e, out)
      | (.ok write, out) =>
        match emitRefToken out write token.tag token.id with
        | (.error e, out) => (.error e, out)
        | (.ok write, out) =>
          have := token.decodedLen_pos
          encodeLoop page out (read + token.decodedLen) write literalStart 0
    | none =>
      let literalStart := if literalLen = 0 then read else literalStart
      if literalLen + 1 = 255 then
        match emitLiteralRun out write (slice page.bytes literalStart (literalLen + 1)) 0 with
        | (.error e, out) => (.error e, out)
        | (.ok write, out) => encodeLoop page out (read + 1) write literalStart 0
      else encodeLoop page out (read + 1) write literalStart (literalLen + 1)
  else flushLiteral page out write literalStart literalLen
termination_by pageBytes - read

def encodeSxrcPayload (page : Page) (out : List UInt8) :
    Except CompressionError ℕ × List UInt8 :=
  encodeLoop profile page out 0 0 0 0

def isZeroPage (page : Page) : Bool := page.bytes.all (· == 0)

def isSamePage (page : Page) : Bool := page.bytes.all (· == page.bytes.getD 0 0)

/-- The class, the payload length and the scratch buffer after the payload is written. -/
def encodePayload (page : Page) (scratch : List UInt8) :
    Except CompressionError (CompressionClass × ℕ) × List UInt8 :=
  if isZeroPage page then (.ok (.zero, 0), scratch)
  else if isSamePage page then
    if scratch.length < headerBytes + 1 then (.error .outputTooSmall, scratch)
    else (.ok (.same, 1), splice scratch headerBytes [page.bytes.getD 0 0])
  else if scratch.length < headerBytes + pageBytes then (.error .outputTooSmall, scratch)
  else
    let (result, payloadScratch) := encodeSxrcPayload profile page (scratch.drop headerBytes)
    let raw := (.ok (.raw, pageBytes),
      scratch.take headerBytes ++ splice payloadScratch 0 page.bytes)
    match result with
    | .ok sxrcLen =>
      if sxrcLen < pageBytes then
        (.ok (.sxrc, sxrcLen), scratch.take headerBytes ++ payloadScratch)
      else raw
    | .error .outputTooSmall => raw
    | .error e => (.error e, scratch.take headerBytes ++ payloadScratch)

/-- `codec::encode_page`: the encoded page, which is the front of the scratch buffer. -/
def encodePage (page : Page) (scratch : List UInt8) :
    Except CompressionError EncodedPage × List UInt8 :=
  if scratch.length < headerBytes then (.error .outputTooSmall, scratch)
  else
    match encodePayload profile page scratch with
    | (.error e, scratch) => (.error e, scratch)
    | (.ok (pageClass, payloadLen), scratch) =>
      let encodedLen := headerBytes + payloadLen
      let payload := slice scratch headerBytes payloadLen
      let header : EncodedHeader := ⟨pageClass, UInt16.ofNat payloadLen, fnv1a32 payload⟩
      match header.encodeInto scratch with
      | (.error e, scratch) => (.error e, scratch)
      | (.ok (), scratch) => (.ok ⟨pageClass, scratch.take encodedLen⟩, scratch)

/-! ### Decoding -/

/-- `read_u16`: the value and the new read position. -/
def readU16 (payload : List UInt8) (read : ℕ) : Except CompressionError (UInt16 × ℕ) :=
  if payload.length < read + 2 then .error .invalidPayloadLength
  else .ok (UInt16.ofNat (ofLeBytes (slice payload read 2)), read + 2)

theorem readU16_eq_ok {payload : List UInt8} {read next : ℕ} {value : UInt16}
    (h : readU16 payload read = .ok (value, next)) : next = read + 2 := by
  rw [readU16] at h
  split_ifs at h
  exact (Prod.mk.inj (Except.ok.inj h)).2.symm

/-- The bytes a token at `read` stands for, with the read position behind the token. -/
def decodeToken (payload : List UInt8) (read : ℕ) :
    Except CompressionError (List UInt8 × ℕ) :=
  let token := payload.getD read 0
  let read := read + 1
  if token = tokenLiteral then
    if payload.length ≤ read then .error .invalidPayloadLength
    else
      let len := (payload.getD read 0).toNat
      let read := read + 1
      if len = 0 then .error .invalidPayloadLength
      else if payload.length < read + len then .error .invalidPayloadLength
      else .ok (slice payload read len, read + len)
  else if token = tokenDict then
    match readU16 payload read with
    | .error e => .error e
    | .ok (id, read) =>
      match lookupDictionaryById profile id with
      | none => .error .invalidPayloadLength
      | some value => .ok (leBytes dictDecodeBytes value.toNat, read)
  else if token = tokenPattern then
    match readU16 payload read with
    | .error e => .error e
    | .ok (id, read) =>
      match lookupPatternById profile id with
      | none => .error .invalidPayloadLength
      | some bytes => .ok (bytes, read)
  else .error .invalidPayloadLength

/-- Every token advances the read position. -/
theorem lt_of_decodeToken {payload bytes : List UInt8} {read next : ℕ}
    (h : decodeToken profile payload read = .ok (bytes, next)) : read < next := by
  simp only [decodeToken] at h
  split_ifs at h
  · obtain ⟨-, rfl⟩ := Prod.mk.inj (Except.ok.inj h)
    omega
  all_goals
    split at h
    · cases h
    · rename_i hread
      have hnext := readU16_eq_ok hread
      split at h
      · cases h
      · obtain ⟨-, rfl⟩ := Prod.mk.inj (Except.ok.inj h)
        omega

/-- The loop of `decode_sxrc_payload`. -/
def decodeLoop (payload out : List UInt8) (read write : ℕ) :
    Except CompressionError Unit × List UInt8 :=
  if write < pageBytes then
    if payload.length ≤ read then (.error .invalidPayloadLength, out)
    else
      match h : decodeToken profile payload read with
      | .error e => (.error e, out)
      | .ok (bytes, next) =>
        if pageBytes < write + bytes.length then (.error .invalidPayloadLength, out)
        else
          have := lt_of_decodeToken profile h
          decodeLoop payload (splice out write bytes) next (write + bytes.length)
  else if read ≠ payload.length then (.error .invalidPayloadLength, out)
  else (.ok (), out)
termination_by payload.length - read

def decodeSxrcPayload (payload out : List UInt8) : Except CompressionError Unit × List UInt8 :=
  decodeLoop profile payload out 0 0

/-- `codec::decode_page`: the class, and the output page after the call. -/
def decodePage (encoded out : List UInt8) :
    Except CompressionError CompressionClass × List UInt8 :=
  match EncodedHeader.decode encoded with
  | .error e => (.error e, out)
  | .ok header =>
    let payloadLen := header.payloadLen.toNat
    let encodedLen := headerBytes + payloadLen
    if encoded.length ≠ encodedLen then (.error .invalidPayloadLength, out)
    else
      let payload := slice encoded headerBytes payloadLen
      if fnv1a32 payload ≠ header.checksum then (.error .checksumMismatch, out)
      else
        match header.pageClass with
        | .zero =>
          if payload ≠ [] then (.error .invalidPayloadLength, out)
          else (.ok .zero, List.replicate pageBytes 0)
        | .same =>
          if payload.length ≠ 1 then (.error .invalidPayloadLength, out)
          else (.ok .same, List.replicate pageBytes (payload.getD 0 0))
        | .raw =>
          if payload.length ≠ pageBytes then (.error .invalidPayloadLength, out)
          else (.ok .raw, payload)
        | .sxrc =>
          match decodeSxrcPayload profile payload out with
          | (.error e, out) => (.error e, out)
          | (.ok (), out) => (.ok .sxrc, out)

end Hxnu.Mm.Compress
