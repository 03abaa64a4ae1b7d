import DecodeFabric.Lib.Framing
import DecodeFabric.Snapshot

/- Frames on a connection.

   A connection carries frames: a header of three little-endian words (the length with the header, the
   protocol version, the message type) and a payload. `FrameDecoder` holds the bytes that have
   arrived and cuts off at most one frame at a time; `recv_frame` asks it for a frame before and after each
   read from the socket. `frames` is the layout itself, read off the stream as a whole, and
   `receive_eq_scan` says that the loop over reads of any size finds what it finds.

   Correspondence (C++ ↔ Lean):
     `protocol::encode_frame`              ↔ `encodeFrame`
     `FrameDecoder::try_emit` / `feed`     ↔ `FrameDecoder.tryEmit` / `feed`
     `TcpConnection::recv_frame`           ↔ `FrameDecoder.recvFrame`, over the reads the socket will give -/
namespace DecodeFabric
open Lib List
variable {bs rest : Bytes} {i length t : Nat} {maxFrame : UInt32}

def kHeaderBytes : UInt32 := 12
def kDefaultMaxFrameBytes : UInt32 := 64 * 1024 * 1024
def kProtocolVersion : UInt32 := 1

/-- `enum class FrameType : std::uint32_t`, decoded by a cast. -/
structure FrameType where
  value : UInt32
  deriving DecidableEq

namespace FrameType
def hello : FrameType := ⟨1⟩
def helloAck : FrameType := ⟨2⟩
def executeRequest : FrameType := ⟨10⟩
def executeResult : FrameType := ⟨11⟩
def workerStatus : FrameType := ⟨12⟩
def workerShutdownAck : FrameType := ⟨13⟩
def preparedResult : FrameType := ⟨14⟩
def commitGrant : FrameType := ⟨15⟩
def commitReceipt : FrameType := ⟨16⟩
def abortPrepared : FrameType := ⟨17⟩
def grantStatus : FrameType := ⟨18⟩
def submitRequest : FrameType := ⟨20⟩
def acknowledge : FrameType := ⟨21⟩
def cancelRequest : FrameType := ⟨22⟩
def statusQuery : FrameType := ⟨23⟩
def statusReply : FrameType := ⟨24⟩
def snapshotRequest : FrameType := ⟨25⟩
def snapshotReply : FrameType := ⟨26⟩
def explainRequest : FrameType := ⟨27⟩
def explainReply : FrameType := ⟨28⟩
def shutdown : FrameType := ⟨30⟩
def shutdownAck : FrameType := ⟨31⟩
def error : FrameType := ⟨32⟩
def getAuthority : FrameType := ⟨40⟩
def authorityReply : FrameType := ⟨41⟩
def submitAck : FrameType := ⟨42⟩
def rollEpoch : FrameType := ⟨43⟩

/-- The enumerators. -/
def declared : List FrameType :=
  [hello, helloAck, executeRequest, executeResult, workerStatus, workerShutdownAck, preparedResult, commitGrant,
    commitReceipt, abortPrepared, grantStatus, submitRequest, acknowledge, cancelRequest, statusQuery, statusReply,
    snapshotRequest, snapshotReply, explainRequest, explainReply, shutdown, shutdownAck, error, getAuthority,
    authorityReply, submitAck, rollEpoch]

end FrameType

structure Frame where
  totalLength : UInt32 := 0
  version : UInt32 := 0
  type : FrameType := .error
  payload : Bytes := []

def Frame.valid (f : Frame) : Bool :=
  decide (f.version = kProtocolVersion ∧ f.totalLength ≥ kHeaderBytes ∧
    f.totalLength.toNat = kHeaderBytes.toNat + f.payload.length)

def encodeFrame (type : FrameType) (payload : Bytes) : Bytes :=
  putU32 (.ofNat (kHeaderBytes.toNat + payload.length)) ++ putU32 kProtocolVersion ++ putU32 type.value ++ payload

/-! The decoder. -/

structure FrameDecoder where
  buf : Bytes := []
  maxFrame : UInt32 := kDefaultMaxFrameBytes

/-- The word at `buf[i]` … `buf[i + 3]`, as the decoder puts it together. -/
def wordAt (buf : Bytes) (i : Nat) : UInt32 :=
  (buf.getD i 0).toUInt32 ||| ((buf.getD (i + 1) 0).toUInt32 <<< 8) ||| ((buf.getD (i + 2) 0).toUInt32 <<< 16) |||
    ((buf.getD (i + 3) 0).toUInt32 <<< 24)

/-- The loop that looks for a message type among the known ones. -/
def knownType (type : UInt32) : Bool := (range' 1 45).any fun t => UInt32.ofNat t == type

namespace FrameDecoder

/-- `try_emit`: an error empties the buffer. -/
def tryEmit (d : FrameDecoder) : FrameDecoder × Except Error (Option Frame) :=
  if d.buf.length < 4 then (d, .ok none)
  else
    let length := wordAt d.buf 0
    if length < kHeaderBytes then
      ({ d with buf := [] }, .error ⟨.protocolMalformed, "frame length below header"⟩)
    else if length > d.maxFrame then
      ({ d with buf := [] }, .error ⟨.protocolOversizedFrame, "frame exceeds max size"⟩)
    else if d.buf.length < length.toNat then (d, .ok none)
    else
      let version := wordAt d.buf 4
      if version ≠ kProtocolVersion then
        ({ d with buf := [] }, .error ⟨.protocolUnknownVersion, "unknown protocol version"⟩)
      else
        let type := wordAt d.buf 8
        if !knownType type then
          ({ d with buf := [] }, .error ⟨.protocolUnknownType, "unknown message type"⟩)
        else
          ({ d with buf := d.buf.drop length.toNat },
            .ok (some
              { totalLength := length
                version
                type := ⟨type⟩
                payload := (d.buf.take length.toNat).drop kHeaderBytes.toNat }))

def feed (d : FrameDecoder) (data : Bytes) : FrameDecoder × Except Error (Option Frame) :=
  { d with buf := d.buf ++ data }.tryEmit

end FrameDecoder

/-- How a `recv_frame` ends; `closed` is its "connection closed", when the peer has nothing more to send. -/
inductive Recv where
  | frame (f : Frame)
  | failed (e : Error)
  | closed

namespace FrameDecoder

/-- `recv_frame`: the reads are what the socket will give, in order. -/
def recvFrame (d : FrameDecoder) : List Bytes → Recv × FrameDecoder × List Bytes
  | [] =>
    match d.feed [] with
    | (d, .error e) => (.failed e, d, [])
    | (d, .ok (some f)) => (.frame f, d, [])
    | (d, .ok none) => (.closed, d, [])
  | r :: reads =>
    match d.feed [] with
    | (d, .error e) => (.failed e, d, r :: reads)
    | (d, .ok (some f)) => (.frame f, d, r :: reads)
    | (d, .ok none) =>
      match d.feed r with
      | (d, .error e) => (.failed e, d, reads)
      | (d, .ok (some f)) => (.frame f, d, reads)
      | (d, .ok none) => d.recvFrame reads

end FrameDecoder

/-! The layout. -/

def lengthField (bs : Bytes) : Nat := getLE (bs.take 4)
def versionField (bs : Bytes) : Nat := getLE ((bs.drop 4).take 4)
def typeField (bs : Bytes) : Nat := getLE ((bs.drop 8).take 4)

/-- What is wrong with a length. -/
def lengthError (maxFrame : UInt32) (length : Nat) : Option Error :=
  if length < kHeaderBytes.toNat then some ⟨.protocolMalformed, "frame length below header"⟩
  else if maxFrame.toNat < length then some ⟨.protocolOversizedFrame, "frame exceeds max size"⟩
  else none

/-- What is wrong with the rest of a header. -/
def headerError (version type : Nat) : Option Error :=
  if version ≠ 1 then some ⟨.protocolUnknownVersion, "unknown protocol version"⟩
  else if type = 0 ∨ 45 < type then some ⟨.protocolUnknownType, "unknown message type"⟩
  else none

/-- The frame at the start of `bs`. -/
def firstFrame (bs : Bytes) : Frame where
  totalLength := .ofNat (lengthField bs)
  version := .ofNat (versionField bs)
  type := ⟨.ofNat (typeField bs)⟩
  payload := (bs.take (lengthField bs)).drop kHeaderBytes.toNat

/-- What a stream starts with. The length is judged as soon as it is there, the rest of the header only once the
    whole frame is. -/
def frameHead (maxFrame : UInt32) (bs : Bytes) : Head UInt8 Frame Error :=
  if bs.length < 4 then .more
  else
    match lengthError maxFrame (lengthField bs) with
    | some e => .fail e
    | none =>
      if bs.length < lengthField bs then .more
      else
        match headerError (versionField bs) (typeField bs) with
        | some e => .fail e
        | none => .frame (firstFrame bs) (bs.drop (lengthField bs))

section Layout
variable {maxFrame : UInt32} {bs : Bytes}

/-- A length that is accepted covers the header. -/
theorem lengthError_eq_none_iff : lengthError maxFrame length = none ↔ 12 ≤ length ∧ length ≤ maxFrame.toNat := by
  have hcover : kHeaderBytes.toNat = 12 := rfl
  unfold lengthError
  rw [hcover]
  split
  · exact iff_of_false (Option.some_ne_none _) (by omega)
  · split
    · exact iff_of_false (Option.some_ne_none _) (by omega)
    · exact iff_of_true rfl (by omega)

/-- The bytes start with a complete frame of an admissible length and the current version, of a type `type`. -/
structure StartsWith (maxFrame : UInt32) (bs : Bytes) (type : Nat) : Prop where
  header : 12 ≤ lengthField bs
  max : lengthField bs ≤ maxFrame.toNat
  complete : lengthField bs ≤ bs.length
  version : versionField bs = kProtocolVersion.toNat
  type : typeField bs = type

/-- A complete frame is judged by its version and type. -/
theorem frameHead_complete (h : 12 ≤ lengthField bs)
    (hmax : lengthField bs ≤ maxFrame.toNat) (hwhole : lengthField bs ≤ bs.length) :
    frameHead maxFrame bs = match headerError (versionField bs) (typeField bs) with
      | some e => .fail e
      | none => .frame (firstFrame bs) (bs.drop (lengthField bs)) := by
  unfold frameHead
  rw [if_neg (by omega), lengthError_eq_none_iff.mpr ⟨h, hmax⟩]
  dsimp only
  rw [if_neg (Nat.not_lt.mpr hwhole)]

theorem StartsWith.head (h : StartsWith maxFrame bs t) :
    frameHead maxFrame bs = if t = 0 ∨ 45 < t then .fail ⟨.protocolUnknownType, "unknown message type"⟩
      else .frame (firstFrame bs) (bs.drop (lengthField bs)) := by
  rw [frameHead_complete h.header h.max h.complete, headerError, h.type,
    if_neg (not_not.mpr (show versionField bs = 1 from h.version))]
  by_cases ht : t = 0 ∨ 45 < t
  · rw [if_pos ht, if_pos ht]
  · rw [if_neg ht, if_neg ht]

/-- A frame is cut off whatever its type, if that is a number from 1 to 45. -/
theorem frameHead_frame {f : Frame} (h : frameHead maxFrame bs = .frame f rest) :
    ∃ t, 0 < t ∧ t ≤ 45 ∧ StartsWith maxFrame bs t ∧ f = firstFrame bs ∧ rest = bs.drop (lengthField bs) := by
  unfold frameHead at h
  split at h
  · cases h
  · split at h
    · cases h
    · next hlength =>
      obtain ⟨htwelve, hmax⟩ := lengthError_eq_none_iff.mp hlength
      split at h
      · cases h
      · next hwhole =>
        unfold headerError at h
        split_ifs at h with hversion htype
        cases h
        exact ⟨_, by omega, by omega, ⟨htwelve, hmax, Nat.not_lt.mp hwhole, not_not.mp hversion, rfl⟩, rfl, rfl⟩

theorem frameHead_shrinks {f : Frame} (h : frameHead maxFrame bs = .frame f rest) : rest.length < bs.length := by
  obtain ⟨t, -, -, hstarts, -, rfl⟩ := frameHead_frame h
  have hheader := hstarts.header
  have hwhole := hstarts.complete
  rw [length_drop]
  omega

variable (later : Bytes)

theorem field_append (h : i + 4 ≤ bs.length) : ((bs ++ later).drop i).take 4 = (bs.drop i).take 4 := by
  have hfour : 4 ≤ (bs.drop i).length := by
    rw [length_drop]
    omega
  rw [drop_append_of_le_length (by omega), take_append_of_le_length hfour]

theorem lengthField_append (h : 4 ≤ bs.length) : lengthField (bs ++ later) = lengthField bs :=
  congrArg getLE (field_append later (i := 0) (by omega))

theorem versionField_append (h : 12 ≤ bs.length) : versionField (bs ++ later) = versionField bs :=
  congrArg getLE (field_append later (by omega))

theorem typeField_append (h : 12 ≤ bs.length) : typeField (bs ++ later) = typeField bs :=
  congrArg getLE (field_append later (by omega))

theorem firstFrame_append (h : 12 ≤ bs.length) (hwhole : lengthField bs ≤ bs.length) :
    firstFrame (bs ++ later) = firstFrame bs := by
  unfold firstFrame
  rw [lengthField_append later (by omega), versionField_append later h, typeField_append later h,
    take_append_of_le_length hwhole]

/-- What is said of the start of a stream stays said when more arrives. -/
theorem frameHead_append {head : Head UInt8 Frame Error} (h : frameHead maxFrame bs = head) (hmore : head ≠ .more) :
    frameHead maxFrame (bs ++ later) = head.append later := by
  subst h
  have hlen : (bs ++ later).length = bs.length + later.length := length_append
  unfold frameHead at hmore ⊢
  by_cases hfour : bs.length < 4
  · exact absurd (if_pos hfour) hmore
  rw [if_neg hfour] at hmore ⊢
  rw [if_neg (by omega), lengthField_append later (by omega)]
  cases hlength : lengthError maxFrame (lengthField bs) with
  | some e => rfl
  | none =>
    have htwelve := (lengthError_eq_none_iff.mp hlength).1
    simp only [hlength] at hmore ⊢
    by_cases hwhole : bs.length < lengthField bs
    · exact absurd (if_pos hwhole) hmore
    rw [if_neg hwhole, if_neg (by omega), versionField_append later (by omega), typeField_append later (by omega)]
    cases headerError (versionField bs) (typeField bs) with
    | some e => rfl
    | none =>
      dsimp only [Head.append]
      rw [firstFrame_append later (by omega) (by omega), drop_append_of_le_length (by omega)]

end Layout

/-- The layout of a stream of frames of at most `maxFrame` bytes. -/
def frames (maxFrame : UInt32) : Framing UInt8 Frame Error where
  head := frameHead maxFrame
  append h hmore later := frameHead_append later h hmore
  shrinks := frameHead_shrinks

theorem frames_head (maxFrame : UInt32) : (frames maxFrame).head = frameHead maxFrame := rfl

/-! The decoder follows the layout. -/

theorem or_shiftLeft {n k : Nat} (h : n < 2 ^ k) (m : Nat) : n ||| m <<< k = n + 2 ^ k * m := by
  rw [Nat.or_comm, ← Nat.shiftLeft_add_eq_or_of_lt h, Nat.shiftLeft_eq, Nat.mul_comm, Nat.add_comm]

/-- A byte shifted to its place in a word does not overflow it. -/
theorem shifted_toNat (b : UInt8) {k : UInt32} (hk : k.toNat ≤ 24) :
    (b.toUInt32 <<< k).toNat = b.toNat <<< k.toNat := by
  have hb := b.toNat_lt
  have hpow : 2 ^ k.toNat ≤ 2 ^ 24 := Nat.pow_le_pow_right (by decide) hk
  have hmul : b.toNat * 2 ^ k.toNat ≤ 255 * 2 ^ 24 := Nat.mul_le_mul (by omega) hpow
  rw [UInt32.toNat_shiftLeft, UInt8.toNat_toUInt32, Nat.mod_eq_of_lt (by omega : k.toNat < 32), Nat.mod_eq_of_lt]
  rw [Nat.shiftLeft_eq]
  omega

theorem joined_toNat (a b c d : UInt8) :
    (a.toUInt32 ||| (b.toUInt32 <<< 8) ||| (c.toUInt32 <<< 16) ||| (d.toUInt32 <<< 24)).toNat = getLE [a, b, c, d] := by
  have ha := a.toNat_lt
  have hb := b.toNat_lt
  have hc := c.toNat_lt
  rw [UInt32.toNat_or, UInt32.toNat_or, UInt32.toNat_or, shifted_toNat b (by decide), shifted_toNat c (by decide),
    shifted_toNat d (by decide), UInt8.toNat_toUInt32]
  show a.toNat ||| b.toNat <<< 8 ||| c.toNat <<< 16 ||| d.toNat <<< 24 = _
  rw [or_shiftLeft ha b.toNat, or_shiftLeft (by omega) c.toNat, or_shiftLeft (by omega) d.toNat]
  simp only [getLE]
  omega

theorem wordAt_toNat {buf : Bytes} (h : i + 4 ≤ buf.length) : (wordAt buf i).toNat = getLE ((buf.drop i).take 4) := by
  have hget : ∀ j, buf.getD (i + j) 0 = (buf.drop i).getD j 0 := by
    intro j
    rw [getD_eq_getElem?_getD, getD_eq_getElem?_getD, getElem?_drop]
  have hlen : 4 ≤ (buf.drop i).length := by
    rw [length_drop]
    omega
  unfold wordAt
  rw [hget 1, hget 2, hget 3, ← Nat.add_zero i, hget 0, Nat.add_zero]
  match buf.drop i, hlen with
  | a :: b :: c :: d :: _, _ => exact joined_toNat a b c d

theorem knownType_iff (type : UInt32) : knownType type = true ↔ ¬ (type.toNat = 0 ∨ 45 < type.toNat) := by
  simp only [knownType, any_eq_true, mem_range'_1, beq_iff_eq]
  constructor
  · rintro ⟨t, ht, rfl⟩
    rw [UInt32.toNat_ofNat_of_lt' (show t < 2 ^ 32 by omega)]
    omega
  · intro h
    exact ⟨type.toNat, by omega, UInt32.ofNat_toNat⟩

/-- What the decoder makes of a head: a frame leaves the rest, an error leaves nothing. -/
def FrameDecoder.after (d : FrameDecoder) : Head UInt8 Frame Error → FrameDecoder × Except Error (Option Frame)
  | .more => (d, .ok none)
  | .fail e => ({ d with buf := [] }, .error e)
  | .frame f rest => ({ d with buf := rest }, .ok (some f))

theorem FrameDecoder.tryEmit_eq (d : FrameDecoder) : d.tryEmit = d.after (frameHead d.maxFrame d.buf) := by
  unfold tryEmit frameHead
  by_cases hfour : d.buf.length < 4
  · rw [if_pos hfour, if_pos hfour]
    rfl
  · have hlength : (wordAt d.buf 0).toNat = lengthField d.buf := wordAt_toNat (by omega)
    rw [if_neg hfour, if_neg hfour]
    dsimp only
    unfold lengthError
    simp only [GT.gt, UInt32.lt_iff_toNat_lt, hlength]
    split
    · rfl
    · next htwelve =>
      split
      · rfl
      · dsimp only
        split
        · rfl
        · next hwhole =>
          have hcover : kHeaderBytes.toNat = 12 := rfl
          have hversion : (wordAt d.buf 4).toNat = versionField d.buf := wordAt_toNat (by omega)
          have htype : (wordAt d.buf 8).toNat = typeField d.buf := wordAt_toNat (by omega)
          have hone : wordAt d.buf 4 ≠ kProtocolVersion ↔ versionField d.buf ≠ 1 := by
            rw [← hversion]
            exact not_congr UInt32.toNat_inj.symm
          have hknown : (!knownType (wordAt d.buf 8)) = true ↔ typeField d.buf = 0 ∨ 45 < typeField d.buf := by
            rw [Bool.not_eq_true', ← Bool.not_eq_true, knownType_iff, not_not, htype]
          unfold headerError
          simp only [hone, hknown]
          split
          · rfl
          · split
            · rfl
            · simp only [after, firstFrame, ← hlength, ← hversion, ← htype, UInt32.ofNat_toNat]

/-! The receive loop. -/

namespace FrameDecoder

/-- What a connection still has to be cut: the buffered bytes, then the reads to come. -/
def stream (d : FrameDecoder) (reads : List Bytes) : Bytes := d.buf ++ reads.flatten

theorem feed_nil (d : FrameDecoder) : d.feed [] = d.after (frameHead d.maxFrame d.buf) := by
  unfold feed
  rw [append_nil]
  exact d.tryEmit_eq

theorem feed_eq (d : FrameDecoder) (r : Bytes) :
    d.feed r = { d with buf := d.buf ++ r }.after (frameHead d.maxFrame (d.buf ++ r)) := tryEmit_eq _

/-- What a call of `recv_frame` says about the stream. -/
def Tells (d : FrameDecoder) (reads : List Bytes) : Recv × FrameDecoder × List Bytes → Prop
  | (.frame f, d', reads') =>
    frameHead d.maxFrame (d.stream reads) = .frame f (d'.stream reads') ∧ d'.maxFrame = d.maxFrame
  | (.failed e, _, _) => frameHead d.maxFrame (d.stream reads) = .fail e
  | (.closed, d', _) => frameHead d.maxFrame (d.stream reads) = .more ∧ d'.buf = d.stream reads

-- The induction is on the reads. An answer given on the part that has arrived is the answer on the stream by the
-- laws of the layout; without one, the read joins the buffer and the stream is the same.
theorem recvFrame_tells : ∀ (reads : List Bytes) (d : FrameDecoder), d.Tells reads (d.recvFrame reads)
  | [], d => by
    unfold recvFrame
    rw [feed_nil]
    cases h : frameHead d.maxFrame d.buf with
    | more => exact ⟨(congrArg _ (append_nil _)).trans h, (append_nil _).symm⟩
    | fail e => exact frameHead_append _ h (by simp)
    | frame f rest => exact ⟨frameHead_append _ h (by simp), rfl⟩
  | r :: reads, d => by
    unfold recvFrame
    rw [feed_nil]
    cases h : frameHead d.maxFrame d.buf with
    | fail e => exact frameHead_append _ h (by simp)
    | frame f rest => exact ⟨frameHead_append _ h (by simp), rfl⟩
    | more =>
      dsimp only [after]
      rw [feed_eq]
      have hsame : d.stream (r :: reads) = d.buf ++ r ++ reads.flatten := by
        rw [stream, flatten_cons, append_assoc]
      cases hr : frameHead d.maxFrame (d.buf ++ r) with
      | fail e => exact (congrArg _ hsame).trans (frameHead_append _ hr (by simp))
      | frame f rest => exact ⟨(congrArg _ hsame).trans (frameHead_append _ hr (by simp)), rfl⟩
      | more =>
        have hnext := recvFrame_tells reads { d with buf := d.buf ++ r }
        dsimp only [after]
        unfold Tells at hnext ⊢
        rw [hsame]
        exact hnext

theorem recvFrame_shrinks {d d' : FrameDecoder} {reads reads' : List Bytes} {f : Frame}
    (h : d.recvFrame reads = (.frame f, d', reads')) : (d'.stream reads').length < (d.stream reads).length := by
  have htells := d.recvFrame_tells reads
  rw [h] at htells
  exact frameHead_shrinks htells.1

/-- The receive loop: frames are asked for until the stream fails or ends. -/
def receive (d : FrameDecoder) (reads : List Bytes) : Scanned UInt8 Frame Error :=
  match _h : d.recvFrame reads with
  | (.frame f, d', reads') => (d'.receive reads').cons f
  | (.failed e, _, _) => ⟨[], .error e⟩
  | (.closed, d', _) => ⟨[], .ok d'.buf⟩
termination_by (d.stream reads).length
decreasing_by exact recvFrame_shrinks ‹_›

theorem receive_eq_scan (d : FrameDecoder) (reads : List Bytes) :
    d.receive reads = (frames d.maxFrame).scan (d.stream reads) := by
  have htells := d.recvFrame_tells reads
  rw [receive]
  split
  · next f d' reads' h =>
    rw [h] at htells
    rw [Framing.scan_frame htells.1, receive_eq_scan d' reads', htells.2]
  · next e _ _ h =>
    rw [h] at htells
    have hfail : (frames d.maxFrame).head (d.stream reads) = .fail e := htells
    rw [Framing.scan_fail hfail]
  · next d' _ h =>
    rw [h] at htells
    rw [Framing.scan_more htells.1, htells.2]
termination_by (d.stream reads).length
decreasing_by exact recvFrame_shrinks ‹_›

end FrameDecoder

/-! Sent frames. -/

/-- The frame that is received for what was sent. -/
def sentFrame (sent : FrameType × Bytes) : Frame where
  totalLength := .ofNat (kHeaderBytes.toNat + sent.2.length)
  version := kProtocolVersion
  type := sent.1
  payload := sent.2

theorem declared_known : ∀ t ∈ FrameType.declared, ¬ (t.value.toNat = 0 ∨ 45 < t.value.toNat) := by decide

theorem getLE_putU32 (v : UInt32) : getLE (putU32 v) = v.toNat := by
  rw [putU32, getLE_putLE, Nat.mod_eq_of_lt (show v.toNat < 256 ^ 4 from v.toNat_lt)]

theorem length_putU32 (v : UInt32) : (putU32 v).length = 4 := length_putLE 4 _

section Sent
variable (t : FrameType) {payload : Bytes} (later : Bytes)

theorem encodeFrame_append : encodeFrame t payload ++ later = putU32 (.ofNat (kHeaderBytes.toNat + payload.length)) ++
      (putU32 kProtocolVersion ++ (putU32 t.value ++ (payload ++ later))) := by
  simp only [encodeFrame, append_assoc]

theorem length_encodeFrame : (encodeFrame t payload).length = 12 + payload.length := by
  simp only [encodeFrame, length_append, length_putU32]

theorem lengthField_encodeFrame (h : 12 + payload.length < 2 ^ 32) :
    lengthField (encodeFrame t payload ++ later) = 12 + payload.length := by
  rw [encodeFrame_append, lengthField, take_left' (length_putU32 _), getLE_putU32]
  exact UInt32.toNat_ofNat_of_lt' h

theorem versionField_encodeFrame : versionField (encodeFrame t payload ++ later) = 1 := by
  rw [encodeFrame_append, versionField, drop_left' (length_putU32 _), take_left' (length_putU32 _),
    getLE_putU32]
  rfl

theorem typeField_encodeFrame : typeField (encodeFrame t payload ++ later) = t.value.toNat := by
  rw [encodeFrame_append, typeField, ← append_assoc,
    drop_left' (by rw [length_append, length_putU32, length_putU32]), take_left' (length_putU32 _),
    getLE_putU32]

theorem firstFrame_encodeFrame (h : 12 + payload.length < 2 ^ 32) :
    firstFrame (encodeFrame t payload ++ later) = sentFrame (t, payload) := by
  have hpayload : (encodeFrame t payload).drop kHeaderBytes.toNat = payload := by
    rw [encodeFrame, drop_left' (by simp only [length_append, length_putU32]; rfl)]
  rw [firstFrame, lengthField_encodeFrame t later h, versionField_encodeFrame, typeField_encodeFrame,
    take_left' (length_encodeFrame t), hpayload, UInt32.ofNat_toNat]
  rfl

variable {t}

/-- A sent frame is cut off, whatever follows it. -/
theorem frameHead_encodeFrame (ht : t ∈ FrameType.declared) (hfits : 12 + payload.length ≤ maxFrame.toNat) :
    frameHead maxFrame (encodeFrame t payload ++ later) = .frame (sentFrame (t, payload)) later := by
  have hword : 12 + payload.length < 2 ^ 32 := Nat.lt_of_le_of_lt hfits maxFrame.toNat_lt
  have hlength := lengthField_encodeFrame t later hword
  have hwhole : (encodeFrame t payload ++ later).length = 12 + payload.length + later.length := by
    rw [length_append, length_encodeFrame]
  have hstarts : StartsWith maxFrame (encodeFrame t payload ++ later) t.value.toNat :=
    ⟨by omega, by omega, by omega, versionField_encodeFrame t later, typeField_encodeFrame t later⟩
  rw [hstarts.head, if_neg (declared_known t ht), firstFrame_encodeFrame t later hword, hlength,
    drop_left' (length_encodeFrame t)]

end Sent

/-- Reads of any size give what the layout gives on the stream they make up; what was sent as frames comes back as
    those frames, and nothing is left over. -/
theorem framing_independent_of_reads (maxFrame : UInt32) (reads : List Bytes) :
    FrameDecoder.receive { maxFrame } reads = (frames maxFrame).scan reads.flatten ∧
    ∀ sent : List (FrameType × Bytes), (∀ s ∈ sent, s.1 ∈ FrameType.declared ∧ 12 + s.2.length ≤ maxFrame.toNat) →
      reads.flatten = (sent.flatMap fun s => encodeFrame s.1 s.2) →
      (FrameDecoder.receive { maxFrame } reads).frames.map (fun f => (f.type, f.payload)) = sent ∧
      (FrameDecoder.receive { maxFrame } reads).ending = .ok [] := by
  have hscan : FrameDecoder.receive { maxFrame } reads = (frames maxFrame).scan reads.flatten :=
    FrameDecoder.receive_eq_scan { maxFrame } reads
  refine ⟨hscan, fun sent hsent hstream => ?_⟩
  have hhead : ∀ s ∈ sent, ∀ later,
      (frames maxFrame).head (encodeFrame s.1 s.2 ++ later) = .frame (sentFrame s) later := by
    intro s hs later
    rw [frames_head]
    exact frameHead_encodeFrame later (hsent s hs).1 (hsent s hs).2
  have hcut : (frames maxFrame).scan (sent.flatMap fun s => encodeFrame s.1 s.2) = ⟨sent.map sentFrame, .ok []⟩ :=
    Framing.scan_written sent hhead rfl
  have hback : ∀ s : FrameType × Bytes, ((sentFrame s).type, (sentFrame s).payload) = s := fun _ => rfl
  rw [hscan, hstream, hcut]
  exact ⟨by simp only [map_map, Function.comp_def, hback, map_id'], rfl⟩

/-- A hello and an empty acknowledgement, read in three pieces. -/
theorem frames_read_in_pieces : (FrameDecoder.receive { maxFrame := 64 }
      [[13, 0, 0, 0, 1, 0], [0, 0, 1, 0, 0, 0, 7, 12, 0], [0, 0, 1, 0, 0, 0, 21, 0, 0, 0]]).frames.map
        (fun f => (f.type, f.payload)) = [(.hello, [7]), (.acknowledge, [])] :=
  ((framing_independent_of_reads 64 _).2 [(.hello, [7]), (.acknowledge, [])] (by decide) (by decide)).1

/-! The declared grammar. -/

/-- The bytes start with a frame of a declared type. -/
def InGrammar (maxFrame : UInt32) (bs : Bytes) : Prop := ∃ t ∈ FrameType.declared, StartsWith maxFrame bs t.value.toNat

/-- What is wrong with a header, once there is enough of it: a length is judged by itself, version and type with the
    frame. -/
inductive Faulty (maxFrame : UInt32) (bs : Bytes) : ErrorCode → Prop
  | short : 4 ≤ bs.length → lengthField bs < 12 → Faulty maxFrame bs .protocolMalformed
  | long : 4 ≤ bs.length → maxFrame.toNat < lengthField bs → 12 ≤ lengthField bs →
      Faulty maxFrame bs .protocolOversizedFrame
  | version : 12 ≤ lengthField bs → lengthField bs ≤ maxFrame.toNat → lengthField bs ≤ bs.length →
      versionField bs ≠ kProtocolVersion.toNat → Faulty maxFrame bs .protocolUnknownVersion
  | type (t : Nat) : StartsWith maxFrame bs t → (∀ d ∈ FrameType.declared, d.value.toNat ≠ t) →
      Faulty maxFrame bs .protocolUnknownType

/-- The decoder accepts exactly the declared grammar: it emits a frame if the bytes start with one, the frame is valid
    and leaves the bytes after it, and a faulty header is answered with its error. -/
structure FrameDecoder.Strict (d : FrameDecoder) : Prop where
  emits : (∃ f, d.tryEmit.2 = .ok (some f)) ↔ InGrammar d.maxFrame d.buf
  valid : ∀ f, d.tryEmit.2 = .ok (some f) → f.valid = true ∧ d.tryEmit.1.buf = d.buf.drop f.totalLength.toNat
  faulty : ∀ code, Faulty d.maxFrame d.buf code → ∃ e, d.tryEmit.2 = .error e ∧ e.code = code

section Grammar
variable {d : FrameDecoder}

theorem StartsWith.unique {t' : Nat} (h : StartsWith maxFrame bs t)
    (h' : StartsWith maxFrame bs t') : t = t' := h.type.symm.trans h'.type

/-- The decoder emits the first frame of the bytes, whatever its type if that is a number from 1 to 45. -/
theorem FrameDecoder.tryEmit_frame {f : Frame} (h : d.tryEmit.2 = .ok (some f)) :
    ∃ t, 0 < t ∧ t ≤ 45 ∧ StartsWith d.maxFrame d.buf t ∧ f = firstFrame d.buf ∧
      d.tryEmit.1.buf = d.buf.drop (lengthField d.buf) := by
  rw [tryEmit_eq] at h ⊢
  cases hhead : frameHead d.maxFrame d.buf with
  | more | fail e => rw [hhead] at h; cases h
  | frame f' rest =>
    rw [hhead] at h
    cases Except.ok.inj h
    exact frameHead_frame hhead

theorem StartsWith.firstFrame_valid (h : StartsWith maxFrame bs t) :
    (firstFrame bs).valid = true ∧ (firstFrame bs).totalLength.toNat = lengthField bs := by
  have hword : (UInt32.ofNat (lengthField bs)).toNat = lengthField bs :=
    UInt32.toNat_ofNat_of_lt' (Nat.lt_of_le_of_lt h.max maxFrame.toNat_lt)
  refine ⟨decide_eq_true ⟨?_, ?_, ?_⟩, hword⟩
  · show UInt32.ofNat (versionField bs) = kProtocolVersion
    rw [h.version, UInt32.ofNat_toNat]
  · rw [ge_iff_le, UInt32.le_iff_toNat_le]
    exact hword ▸ h.header
  · show (UInt32.ofNat (lengthField bs)).toNat = 12 + ((bs.take (lengthField bs)).drop 12).length
    rw [hword, length_drop, length_take_of_le h.complete]
    exact (Nat.add_sub_cancel' h.header).symm

/-- A faulty header is answered with its error, unless the fault is a type the loop takes for a known one. -/
theorem Faulty.answered {code : ErrorCode} (h : Faulty d.maxFrame d.buf code)
    (hgap : ∀ t, StartsWith d.maxFrame d.buf t → 0 < t → t ≤ 45 → ∃ k ∈ FrameType.declared, k.value.toNat = t) :
    ∃ e, d.tryEmit.2 = .error e ∧ e.code = code := by
  have hanswer : ∀ e, frameHead d.maxFrame d.buf = .fail e → d.tryEmit.2 = .error e := by
    intro e hhead
    rw [FrameDecoder.tryEmit_eq, hhead]
    rfl
  cases h with
  | short hfour hshort =>
    refine ⟨_, hanswer ⟨.protocolMalformed, "frame length below header"⟩ ?_, rfl⟩
    unfold frameHead
    rw [if_neg (by omega), lengthError, if_pos (show lengthField d.buf < kHeaderBytes.toNat from hshort)]
  | long hfour hmax hheader =>
    refine ⟨_, hanswer ⟨.protocolOversizedFrame, "frame exceeds max size"⟩ ?_, rfl⟩
    unfold frameHead
    rw [if_neg (by omega), lengthError,
      if_neg (show ¬ lengthField d.buf < kHeaderBytes.toNat from Nat.not_lt.mpr hheader),
      if_pos hmax]
  | version hheader hmax hwhole hversion =>
    refine ⟨_, hanswer ⟨.protocolUnknownVersion, "unknown protocol version"⟩ ?_, rfl⟩
    rw [frameHead_complete hheader hmax hwhole, headerError, if_pos (show versionField d.buf ≠ 1 from hversion)]
  | type t hstarts hundeclared =>
    refine ⟨_, hanswer ⟨.protocolUnknownType, "unknown message type"⟩ ?_, rfl⟩
    rw [hstarts.head]
    refine if_pos ?_
    by_contra hknown
    obtain ⟨k, hk, heq⟩ := hgap t hstarts (by omega) (by omega)
    exact hundeclared k hk heq

end Grammar

/-- The decoder accepts exactly the declared grammar, unless the bytes start with a complete frame whose type is a
    number from 1 to 45 that is no enumerator. -/
theorem frameDecoder_strict_iff (d : FrameDecoder) : d.Strict ↔
    ∀ t, StartsWith d.maxFrame d.buf t → 0 < t → t ≤ 45 → ∃ k ∈ FrameType.declared, k.value.toNat = t := by
  constructor
  · intro h t hstarts hlow hhigh
    have hemits : d.tryEmit.2 = .ok (some (firstFrame d.buf)) := by
      rw [FrameDecoder.tryEmit_eq, hstarts.head, if_neg (by omega)]
      rfl
    obtain ⟨k, hk, hstarts'⟩ := h.emits.mp ⟨_, hemits⟩
    exact ⟨k, hk, hstarts'.unique hstarts⟩
  · intro hgap
    refine ⟨⟨?_, ?_⟩, fun f hf => ?_, fun code hcode => hcode.answered hgap⟩
    · rintro ⟨f, hf⟩
      obtain ⟨t, hlow, hhigh, hstarts, -⟩ := FrameDecoder.tryEmit_frame hf
      obtain ⟨k, hk, rfl⟩ := hgap t hstarts hlow hhigh
      exact ⟨k, hk, hstarts⟩
    · rintro ⟨k, hk, hstarts⟩
      refine ⟨firstFrame d.buf, ?_⟩
      rw [FrameDecoder.tryEmit_eq, hstarts.head, if_neg (declared_known k hk)]
      rfl
    · obtain ⟨t, -, -, hstarts, rfl, hrest⟩ := FrameDecoder.tryEmit_frame hf
      obtain ⟨hvalid, hlength⟩ := hstarts.firstFrame_valid
      rw [hlength]
      exact ⟨hvalid, hrest⟩

/-- A complete frame of type 3, which is no enumerator, is emitted. -/
theorem frameDecoder_emits_undeclared : (FrameDecoder.tryEmit { buf := [12, 0, 0, 0, 1, 0, 0, 0, 3, 0, 0, 0] }).2 =
        .ok (some { totalLength := 12, version := 1, type := ⟨3⟩, payload := [] }) ∧
      ¬ FrameDecoder.Strict { buf := [12, 0, 0, 0, 1, 0, 0, 0, 3, 0, 0, 0] } := by
  have hemits : (FrameDecoder.tryEmit { buf := [12, 0, 0, 0, 1, 0, 0, 0, 3, 0, 0, 0] }).2 =
      .ok (some { totalLength := 12, version := 1, type := ⟨3⟩, payload := [] }) := by
    rw [FrameDecoder.tryEmit_eq]
    rfl
  refine ⟨hemits, fun hstrict => ?_⟩
  obtain ⟨k, hk, hstarts⟩ := hstrict.emits.mp ⟨_, hemits⟩
  have hnone : ∀ k ∈ FrameType.declared, 3 ≠ k.value.toNat := by decide
  exact hnone k hk hstarts.type

end DecodeFabric
