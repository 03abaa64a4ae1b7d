import DecodeFabric.Protocol
import DecodeFabric.RoundTrip

/- Round trips and cuts of the protocol's messages.

   For every message one derivation follows its writer and its reader field by field (`Coded`) and gives both results:
   decoding an encoding returns the message, and no strict prefix of an encoding decodes.

   `X.Fits limit` says that a message is one the source's types can hold: identifiers and times of 64 bits, lists
   within the reader's count limit, and byte strings of at most `limit` bytes. The reader only accepts byte strings
   up to `2 ^ 32`; a longer one is refused, wherever it is cut. -/
namespace Lib.Coded
open DecodeFabric
variable {P : Prop} {β : Type} {w : Bytes} {b : β} {what : String}

/-! A field in front of a code. -/

theorem id {n : Nat} {k} (hn : n < 2 ^ 64) (h : Coded P (k n) w b) : Coded P (id64 what >>= k) (putId n ++ w) b :=
  (coded_id what hn).bind h

theorem u64 {v k} (h : Coded P (k v) w b) : Coded P (DecodeFabric.u64 what >>= k) (putU64 v ++ w) b :=
  (coded_u64 what v).bind h

theorem u32 {v k} (h : Coded P (k v) w b) : Coded P (DecodeFabric.u32 what >>= k) (putU32 v ++ w) b :=
  (coded_u32 what v).bind h

theorem flag {v k} (h : Coded P (k v) w b) : Coded P (DecodeFabric.flag what >>= k) (putFlag v ++ w) b :=
  (coded_flag what v).bind h

end Lib.Coded

namespace DecodeFabric
open Lib List

@[simp] theorem BackendKind.ofByte_byte (k : BackendKind) : .ofByte k.byte = k := by
  cases k with
  | undeclared i => exact castByte_undeclared _ _ i
  | _ => rfl

@[simp] theorem DType.ofByte_byte (k : DType) : .ofByte k.byte = k := by
  cases k with
  | undeclared i => exact castByte_undeclared _ _ i
  | _ => rfl

@[simp] theorem WorkerHealth.ofByte_byte (k : WorkerHealth) : .ofByte k.byte = k := by
  cases k with
  | undeclared i => exact castByte_undeclared _ _ i
  | _ => rfl

/-! What the source's types can hold. -/

def CompatibilityKey.ids (k : CompatibilityKey) : List Nat := [k.model, k.revision, k.adapter, k.device]
def StateDescriptor.ids (st : StateDescriptor) : List Nat := [st.id, st.device]

structure DeviceDescriptor.Fits (limit : Nat) (d : DeviceDescriptor) : Prop where
  id : d.id < 2 ^ 64
  name : d.name.length ≤ limit

structure DecodeMemberSpec.Fits (limit : Nat) (m : DecodeMemberSpec) : Prop where
  ids : IdsFit [m.sequence, m.attempt, m.generation]
  state : IdsFit m.state.ids
  payload : m.payload.length ≤ limit

structure MemberOutcome.Fits (limit : Nat) (mo : MemberOutcome) : Prop where
  ids : IdsFit [mo.sequence, mo.attempt, mo.generation]
  errorMessage : mo.errorMessage.length ≤ limit
  startedAt : TimeFits mo.startedAt
  finishedAt : TimeFits mo.finishedAt
  active : TimeFits mo.activeNs

structure DecodeExecutionRequest.Fits (limit : Nat) (req : DecodeExecutionRequest) : Prop where
  ids : IdsFit [req.dispatchId, req.epoch, req.worker, req.workerBoot, req.reservationId]
  key : IdsFit req.key.ids
  device : req.device.Fits limit
  count : req.members.length ≤ maxWireMembers
  members : ∀ m ∈ req.members, m.Fits limit
  groupPayload : req.groupPayload.length ≤ limit
  deadlineHint : TimeFits req.deadlineHintNs

structure DecodeExecutionResult.Fits (limit : Nat) (res : DecodeExecutionResult) : Prop where
  ids : IdsFit [res.dispatchId, res.epoch, res.worker, res.workerBoot]
  groupActive : TimeFits res.groupActiveNs
  groupErrorMessage : res.groupErrorMessage.length ≤ limit
  count : res.outcomes.length ≤ maxWireMembers
  outcomes : ∀ mo ∈ res.outcomes, mo.Fits limit

structure DecodeRequest.Fits (limit : Nat) (req : DecodeRequest) : Prop where
  ids : IdsFit [req.id, req.initialAttempt, req.tenant, req.model, req.revision, req.adapter, req.sequence,
    req.deviceConstraint]
  state : IdsFit req.state.ids
  deadline : TimeFits req.deadline
  perTokenTarget : TimeFits req.perTokenTargetNs
  arrival : TimeFits req.arrival
  samplingMetadata : req.samplingMetadata.length ≤ limit

structure SubmitAck.Fits (limit : Nat) (a : SubmitAck) : Prop where
  sequence : a.sequence < 2 ^ 64
  reason : a.reason.length ≤ limit

structure ExplainRequest.Fits (limit : Nat) (q : ExplainRequest) : Prop where
  sequence : q.sequence < 2 ^ 64
  question : q.question.length ≤ limit

structure ExplainReply.Fits (limit : Nat) (q : ExplainReply) : Prop where
  text : q.text.length ≤ limit
  json : q.json.length ≤ limit

def AuthorityReply.ids (a : AuthorityReply) : List Nat :=
  [a.sequence, a.dispatch, a.epoch, a.worker, a.workerBoot, a.attempt, a.generation]

structure PreparedMember.Fits (limit : Nat) (pm : PreparedMember) : Prop where
  ids : IdsFit [pm.sequence, pm.state, pm.attempt, pm.generation, pm.dispatch, pm.epoch, pm.worker, pm.workerBoot,
    pm.proposal]
  active : TimeFits pm.activeNs
  outcome : pm.outcome.Fits limit

structure PreparedDecode.Fits (limit : Nat) (res : PreparedDecode) : Prop where
  ids : IdsFit [res.dispatchId, res.epoch, res.worker, res.workerBoot]
  groupActive : TimeFits res.groupActiveNs
  groupErrorMessage : res.groupErrorMessage.length ≤ limit
  count : res.members.length ≤ maxWireMembers
  members : ∀ pm ∈ res.members, pm.Fits limit

structure CommitGrant.Fits (g : CommitGrant) : Prop where
  ids : IdsFit g.ids
  active : TimeFits g.activeNs

structure MemberReceipt.Fits (rec : MemberReceipt) : Prop where
  ids : IdsFit rec.ids
  active : TimeFits rec.activeNs
  committedAt : TimeFits rec.committedAt

structure ReceiptDecode.Fits (limit : Nat) (res : ReceiptDecode) : Prop where
  ids : IdsFit [res.dispatchId, res.epoch, res.worker, res.workerBoot]
  groupErrorMessage : res.groupErrorMessage.length ≤ limit
  count : res.receipts.length ≤ maxWireMembers
  receipts : ∀ rec ∈ res.receipts, rec.Fits

def AbortPrepared.ids (a : AbortPrepared) : List Nat :=
  [a.proposal, a.sequence, a.state, a.attempt, a.generation, a.dispatch, a.epoch, a.worker, a.workerBoot]

structure WorkerDescriptor.Fits (limit : Nat) (w : WorkerDescriptor) : Prop where
  ids : IdsFit [w.id, w.bootId]
  device : w.device.Fits limit
  count : w.supportedModels.length ≤ maxWireModels
  supportedModels : ∀ k ∈ w.supportedModels, IdsFit k.ids

/-! Fields. -/

section Fields
variable {P : Prop}

theorem coded_enum {α : Type} {ofByte : UInt8 → α} {byte : α → UInt8} (h : ∀ k, ofByte (byte k) = k) (k : α) :
    Coded P (ofByte <$> u8 truncErr) (putU8 (byte k)) k := by
  have hcoded := (coded_u8 (P := P) truncErr (byte k)).map ofByte
  rwa [h] at hcoded

theorem coded_kind (k : MemberOutcomeKind) : Coded P readKind (putU8 k.byte) k :=
  coded_enum MemberOutcomeKind.ofByte_byte k

theorem coded_backend (k : BackendKind) : Coded P readBackend (putU8 k.byte) k := coded_enum BackendKind.ofByte_byte k

theorem coded_dtype (k : DType) : Coded P readDType (putU8 k.byte) k := coded_enum DType.ofByte_byte k

theorem coded_health (k : WorkerHealth) : Coded P readHealth (putU8 k.byte) k := coded_enum WorkerHealth.ofByte_byte k

theorem coded_latency (k : LatencyClass) : Coded P readLatency (putU8 (.ofNat k.byte)) k :=
  coded_enum LatencyClass.ofByte_byte k

theorem coded_errorCode (c : ErrorCode) : Coded P readErrorCode (putU32 c.value) c :=
  (coded_u32 truncErr c.value).map ErrorCode.mk

theorem coded_double (x : Binary64) : Coded P readDouble (putU64 x.bits) x :=
  (coded_u64 truncErr x.bits).map Binary64.mk

theorem coded_time {t : Nanoseconds} (ht : TimeFits t) : Coded P (ns truncErr) (putNs t) t :=
  coded_ns truncErr ht.1 ht.2

/-- A list within its limit. -/
theorem coded_counted {α : Type} {limit : Nat} (hlimit : limit < 2 ^ 64) (what : String) {item : Reader Error α}
    {write : α → Bytes} {items : List α} (hcount : items.length ≤ limit) (h : ∀ i ∈ items, Coded P item (write i) i) :
    Coded P (readCounted limit what item) (putCounted write items) items := by
  have hrest := (Coded.failIf (P := P) (Nat.not_lt.mpr hcount) (⟨.protocolInvalidField, what⟩ : Error)).bind
    (k := fun _ => Reader.times items.length item) (Coded.times items h)
  exact (coded_id truncErr (Nat.lt_of_le_of_lt hcount hlimit)).bind hrest

end Fields

/-! Byte strings. -/

section Strings
variable {limit : Nat} (hlimit : limit < 2 ^ 64)
include hlimit

/-- A byte string that is too long for the reader is refused with all of its bytes there, so it is refused cut or
    whole. -/
theorem coded_bytes {b : Bytes} (hb : b.length ≤ limit) : Coded (limit ≤ 2 ^ 32) readBytes (putBytes b) b := by
  have hlength : Coded (limit ≤ 2 ^ 32) (id64 truncErr) (putId b.length) b.length :=
    coded_id truncErr (Nat.lt_of_le_of_lt hb hlimit)
  have hblob : Coded (limit ≤ 2 ^ 32) (Reader.blob b.length (truncated "truncated byte-vector payload")) b b :=
    Coded.blob b _
  have hbound : Coded (limit ≤ 2 ^ 32)
      (Reader.failIf (b.length > 2 ^ 32) (⟨.boundedLengthExceeded, "byte vector exceeds bound"⟩ : Error) >>= fun _ =>
        pure b) [] b := by
    by_cases hlong : b.length > 2 ^ 32
    · refine ⟨fun v hv hne => absurd (prefix_nil.mp hv) hne, .inr fun rest => ?_, fun hP => ?_⟩
      · exact (Refuses.failIf hlong _ _).bind _
      · exact absurd (Nat.le_trans hb hP) (Nat.not_le.mpr hlong)
    · exact (Coded.failIf hlong _).bind (Coded.pure b)
  have h := hlength.bind (k := fun n => Reader.blob n (truncated "truncated byte-vector payload") >>= fun out =>
    Reader.failIf (n > 2 ^ 32) (⟨.boundedLengthExceeded, "byte vector exceeds bound"⟩ : Error) >>= fun _ => pure out)
    (hblob.bind hbound)
  rw [append_nil] at h
  exact h

end Strings

/-! The messages, field by field. -/

section Messages
variable {P : Prop}

theorem coded_key {k : CompatibilityKey} (h : IdsFit k.ids) : Coded P readKey (writeKey k) k := by
  simp only [IdsFit, CompatibilityKey.ids, forall_mem_cons] at h
  obtain ⟨hmodel, hrevision, hadapter, hdevice, -⟩ := h
  exact .id hmodel <| .id hrevision <| .id hadapter <| (coded_backend _).bind <| .id hdevice <| (coded_dtype _).bind <|
    .u32 <| .u32 <| .u32 <| .u32 <| .pure k

theorem coded_state {st : StateDescriptor} (h : IdsFit st.ids) : Coded P readState (writeState st) st := by
  simp only [IdsFit, StateDescriptor.ids, forall_mem_cons] at h
  obtain ⟨hid, hdevice, -⟩ := h
  exact .id hid <| .u64 <| .id hdevice <| .u64 <| .u64 <| .u64 <| .u64 <| .pure st

theorem coded_commitGrant {g : CommitGrant} (h : g.Fits) : Coded P readCommitGrant (encodeCommitGrant g) g := by
  have hids := h.ids
  simp only [IdsFit, CommitGrant.ids, forall_mem_cons] at hids
  obtain ⟨hgrant, hproposal, hepoch, hworker, hboot, hseq, hstate, hattempt, hgen, hdispatch, -⟩ := hids
  exact .id hgrant <| .id hproposal <| .id hepoch <| .id hworker <| .id hboot <| .id hseq <| .id hstate <|
    .id hattempt <| .id hgen <| .id hdispatch <| .u64 <| .u64 <| .u64 <| .u64 <| (coded_kind _).bind <| .flag <| .u32 <|
    (coded_time h.active).bind <| .pure g

theorem coded_memberReceipt {rec : MemberReceipt} (h : rec.Fits) :
    Coded P readMemberReceipt (writeMemberReceipt rec) rec := by
  have hids := h.ids
  simp only [IdsFit, MemberReceipt.ids, forall_mem_cons] at hids
  obtain ⟨hreceipt, hgrant, hproposal, hepoch, hworker, hboot, hseq, hstate, hattempt, hgen, hdispatch, -⟩ := hids
  exact .id hreceipt <| .id hgrant <| .id hproposal <| .id hepoch <| .id hworker <| .id hboot <| .id hseq <|
    .id hstate <| .id hattempt <| .id hgen <| .id hdispatch <| .u64 <| .u64 <| .u64 <| .u64 <| .u64 <|
    (coded_kind _).bind <| .flag <| .u32 <| (coded_time h.active).bind <| (coded_time h.committedAt).bind <|
    .pure rec

theorem coded_abortPrepared {a : AbortPrepared} (h : IdsFit a.ids) :
    Coded P readAbortPrepared (encodeAbortPrepared a) a := by
  simp only [IdsFit, AbortPrepared.ids, forall_mem_cons] at h
  obtain ⟨hproposal, hseq, hstate, hattempt, hgen, hdispatch, hepoch, hworker, hboot, -⟩ := h
  exact .id hproposal <| .id hseq <| .id hstate <| .id hattempt <| .id hgen <| .id hdispatch <| .id hepoch <|
    .id hworker <| .id hboot <| .pure a

theorem coded_statusReply (s : StatusReply) : Coded P readStatusReply (encodeStatusReply s) s :=
  .u32 <| .u32 <| .u64 <| .u64 <| .u32 <| .u64 <| .u64 <| .u64 <| .pure s

theorem coded_query {q : QueryRequest} (hrequest : q.request < 2 ^ 64) (hsequence : q.sequence < 2 ^ 64) :
    Coded P readQuery (encodeQuery q) q :=
  .id hrequest <| .id hsequence <| .flag <| .pure q

theorem coded_getAuthority {g : GetAuthority} (h : g.sequence < 2 ^ 64) :
    Coded P readGetAuthority (encodeGetAuthority g) g := (coded_id truncErr h).map GetAuthority.mk

theorem coded_authorityReply {a : AuthorityReply} (h : IdsFit a.ids) :
    Coded P readAuthorityReply (encodeAuthorityReply a) a := by
  simp only [IdsFit, AuthorityReply.ids, forall_mem_cons] at h
  obtain ⟨hseq, hdispatch, hepoch, hworker, hboot, hattempt, hgen, -⟩ := h
  exact .flag <| .id hseq <| .id hdispatch <| .id hepoch <| .id hworker <| .id hboot <| .id hattempt <| .id hgen <|
    .u64 <| .pure a

end Messages

section Strings
variable {limit : Nat} (hlimit : limit < 2 ^ 64)
include hlimit

theorem coded_device {d : DeviceDescriptor} (h : d.Fits limit) : Coded (limit ≤ 2 ^ 32) readDevice (writeDevice d) d :=
  .id h.id <| (coded_backend _).bind <| (coded_bytes hlimit h.name).bind <| .u32 <| .u32 <| .u64 <| .u32 <| .u32 <|
    .pure d

theorem coded_member {m : DecodeMemberSpec} (h : m.Fits limit) :
    Coded (limit ≤ 2 ^ 32) readMember (writeMember m) m := by
  have hids := h.ids
  simp only [IdsFit, forall_mem_cons] at hids
  obtain ⟨hseq, hattempt, hgen, -⟩ := hids
  exact .id hseq <| .id hattempt <| .id hgen <| (coded_state h.state).bind <| .u64 <| .u64 <| .u64 <|
    (coded_bytes hlimit h.payload).bind <| .pure m

theorem coded_outcome {mo : MemberOutcome} (h : mo.Fits limit) :
    Coded (limit ≤ 2 ^ 32) readOutcome (writeOutcome mo) mo := by
  have hids := h.ids
  simp only [IdsFit, forall_mem_cons] at hids
  obtain ⟨hseq, hattempt, hgen, -⟩ := hids
  exact .id hseq <| (coded_kind _).bind <| .u64 <| .u64 <| .flag <| (coded_errorCode _).bind <|
    (coded_bytes hlimit h.errorMessage).bind <| .flag <| (coded_time h.startedAt).bind <|
    (coded_time h.finishedAt).bind <| (coded_time h.active).bind <| .u64 <| .u64 <| .id hattempt <| .id hgen <|
    .pure mo

theorem coded_executeRequest {req : DecodeExecutionRequest} (h : req.Fits limit) :
    Coded (limit ≤ 2 ^ 32) readExecuteRequest (encodeExecuteRequest req) req := by
  have hids := h.ids
  simp only [IdsFit, forall_mem_cons] at hids
  obtain ⟨hdispatch, hepoch, hworker, hboot, hreservation, -⟩ := hids
  exact .id hdispatch <| .id hepoch <| .id hworker <| .id hboot <| .id hreservation <| (coded_key h.key).bind <|
    (coded_device hlimit h.device).bind <|
    (coded_counted (by decide) _ h.count fun m hm => coded_member hlimit (h.members m hm)).bind <|
    (coded_bytes hlimit h.groupPayload).bind <| (coded_time h.deadlineHint).bind <| .pure req

/-- What comes back of a result does not say whether the group may be retried. -/
theorem coded_executeResult {res : DecodeExecutionResult} (h : res.Fits limit) :
    Coded (limit ≤ 2 ^ 32) readExecuteResult (encodeExecuteResult res) { res with groupRetryable := false } := by
  have hids := h.ids
  simp only [IdsFit, forall_mem_cons] at hids
  obtain ⟨hdispatch, hepoch, hworker, hboot, -⟩ := hids
  exact .id hdispatch <| .id hepoch <| .id hworker <| .id hboot <| (coded_time h.groupActive).bind <|
    (coded_errorCode _).bind <| (coded_bytes hlimit h.groupErrorMessage).bind <|
    (coded_counted (by decide) _ h.count fun mo hmo => coded_outcome hlimit (h.outcomes mo hmo)).bind <| .pure _

theorem coded_submitRequest {req : DecodeRequest} (h : req.Fits limit) :
    Coded (limit ≤ 2 ^ 32) readSubmitRequest (encodeSubmitRequest req) req := by
  have hids := h.ids
  simp only [IdsFit, forall_mem_cons] at hids
  obtain ⟨hid, hattempt, htenant, hmodel, hrevision, hadapter, hseq, hdevice, -⟩ := hids
  exact .id hid <| .id hattempt <| .id htenant <| .id hmodel <| .id hrevision <| .id hadapter <| .id hseq <| .u64 <|
    .u64 <| .u64 <| .u32 <| (coded_double _).bind <| (coded_latency _).bind <| (coded_time h.deadline).bind <|
    (coded_time h.perTokenTarget).bind <| .u64 <| .id hdevice <| (coded_bytes hlimit h.samplingMetadata).bind <|
    (coded_state h.state).bind <| (coded_time h.arrival).bind <| .pure req

theorem coded_submitAck {a : SubmitAck} (h : a.Fits limit) :
    Coded (limit ≤ 2 ^ 32) readSubmitAck (encodeSubmitAck a) a :=
  .flag <| .id h.sequence <| (coded_bytes hlimit h.reason).bind <| .pure a

theorem coded_explainRequest {q : ExplainRequest} (h : q.Fits limit) :
    Coded (limit ≤ 2 ^ 32) readExplainRequest (encodeExplainRequest q) q :=
  .id h.sequence <| (coded_bytes hlimit h.question).bind <| .pure q

theorem coded_explainReply {q : ExplainReply} (h : q.Fits limit) :
    Coded (limit ≤ 2 ^ 32) readExplainReply (encodeExplainReply q) q :=
  (coded_bytes hlimit h.text).bind <| (coded_bytes hlimit h.json).bind <| .pure q

theorem coded_prepared {pm : PreparedMember} (h : pm.Fits limit) :
    Coded (limit ≤ 2 ^ 32) readPrepared (writePrepared pm) pm := by
  have hids := h.ids
  simp only [IdsFit, forall_mem_cons] at hids
  obtain ⟨hseq, hstate, hattempt, hgen, hdispatch, hepoch, hworker, hboot, hproposal, -⟩ := hids
  exact .id hseq <| .id hstate <| .id hattempt <| .id hgen <| .id hdispatch <| .id hepoch <| .id hworker <| .id hboot <|
    .id hproposal <| .u64 <| .u64 <| .u64 <| .u64 <| .u64 <| (coded_time h.active).bind <|
    (coded_outcome hlimit h.outcome).bind <| .pure pm

theorem coded_preparedResult {res : PreparedDecode} (h : res.Fits limit) :
    Coded (limit ≤ 2 ^ 32) readPreparedResult (encodePreparedResult res) res := by
  have hids := h.ids
  simp only [IdsFit, forall_mem_cons] at hids
  obtain ⟨hdispatch, hepoch, hworker, hboot, -⟩ := hids
  exact .id hdispatch <| .id hepoch <| .id hworker <| .id hboot <| (coded_time h.groupActive).bind <|
    (coded_errorCode _).bind <| (coded_bytes hlimit h.groupErrorMessage).bind <|
    (coded_counted (by decide) _ h.count fun pm hpm => coded_prepared hlimit (h.members pm hpm)).bind <| .pure res

theorem coded_commitReceipts {res : ReceiptDecode} (h : res.Fits limit) :
    Coded (limit ≤ 2 ^ 32) readCommitReceipts (encodeCommitReceipts res) res := by
  have hids := h.ids
  simp only [IdsFit, forall_mem_cons] at hids
  obtain ⟨hdispatch, hepoch, hworker, hboot, -⟩ := hids
  exact .id hdispatch <| .id hepoch <| .id hworker <| .id hboot <| (coded_errorCode _).bind <|
    (coded_bytes hlimit h.groupErrorMessage).bind <|
    (coded_counted (by decide) _ h.count fun rec hrec => coded_memberReceipt (h.receipts rec hrec)).bind <|
    .pure res

theorem coded_worker {w : WorkerDescriptor} (h : w.Fits limit) : Coded (limit ≤ 2 ^ 32) readWorker (encWorker w) w := by
  have hids := h.ids
  simp only [IdsFit, forall_mem_cons] at hids
  obtain ⟨hid, hboot, -⟩ := hids
  exact .id hid <| .id hboot <| (coded_health _).bind <| .u64 <| .u64 <| .u64 <| .id h.device.id <|
    (coded_backend _).bind <| (coded_bytes hlimit h.device.name).bind <| .u64 <| .u32 <| .u32 <| .u32 <| .u32 <|
    (coded_counted (by decide) _ h.count fun k hk => coded_key (h.supportedModels k hk)).bind <| .pure w

end Strings

/-! The decoders. -/

/-- No strict prefix of `w` decodes. -/
def RejectsCuts {α : Type} (decode : Bytes → Except Error α) (w : Bytes) : Prop :=
  ∀ v, v <+: w → v ≠ w → ∃ e, decode v = .error e

section Decoders
variable {α : Type} {P : Prop} {r : Reader Error α} {w : Bytes} {a : α}

theorem decodes (h : Coded P r w a) (hP : P) : decodeWith r w = .ok a := by
  have hread := h.reads hP []
  rw [append_nil] at hread
  rw [decodeWith, hread]
  rfl

theorem rejectsCuts (h : Coded P r w a) : RejectsCuts (decodeWith r) w := by
  intro v hv hne
  obtain ⟨e, he⟩ := h.cut v hv hne
  refine ⟨e, ?_⟩
  rw [decodeWith, he]
  rfl

end Decoders

/-- Decoding an encoding returns the message. -/
theorem codecs_round_trip :
    (∀ req : DecodeExecutionRequest, req.Fits (2 ^ 32) → decodeExecuteRequest (encodeExecuteRequest req) = .ok req) ∧
    (∀ res : PreparedDecode, res.Fits (2 ^ 32) → decodePreparedResult (encodePreparedResult res) = .ok res) ∧
    (∀ g : CommitGrant, g.Fits → decodeCommitGrant (encodeCommitGrant g) = .ok g) ∧
    (∀ res : ReceiptDecode, res.Fits (2 ^ 32) → decodeCommitReceipts (encodeCommitReceipts res) = .ok res) ∧
    (∀ a : AbortPrepared, IdsFit a.ids → decodeAbortPrepared (encodeAbortPrepared a) = .ok a) ∧
    (∀ req : DecodeRequest, req.Fits (2 ^ 32) → decodeSubmitRequest (encodeSubmitRequest req) = .ok req) ∧
    ∀ w : WorkerDescriptor, w.Fits (2 ^ 32) → decWorker (encWorker w) = .ok w := by
  have hlimit : 2 ^ 32 < 2 ^ 64 := by decide
  have hbound : 2 ^ 32 ≤ 2 ^ 32 := Nat.le_refl _
  refine ⟨fun req h => ?_, fun res h => ?_, fun g h => ?_, fun res h => ?_, fun a h => ?_, fun req h => ?_,
    fun w h => ?_⟩
  · exact decodes (coded_executeRequest hlimit h) hbound
  · exact decodes (coded_preparedResult hlimit h) hbound
  · exact decodes (coded_commitGrant h) trivial
  · exact decodes (coded_commitReceipts hlimit h) hbound
  · exact decodes (coded_abortPrepared h) trivial
  · exact decodes (coded_submitRequest hlimit h) hbound
  · exact decodes (coded_worker hlimit h) hbound

namespace Sample

/-- A request of one member with a payload, a name and a time in the past. -/
def wireRequest : DecodeExecutionRequest where
  dispatchId := 2 ^ 64 - 1
  worker := 3
  device := { id := 1, backend := .undeclared 7, name := [103, 112, 117] }
  members := [{ sequence := 5, attempt := 6, state := { id := 9, ownerTag := 4 }, payload := [0, 255] }]
  deadlineHintNs := -12

/-- A prepared member with a failure as its outcome. -/
def wirePrepared : PreparedDecode where
  dispatchId := 7
  groupActiveNs := -1
  members := [{ sequence := 5, proposal := 8, outcome :=
    { sequence := 5, kind := .retryableFailure, errorCode := .transactionConflict,
      errorMessage := [98, 117, 115, 121] } }]

def wireReceipts : ReceiptDecode where
  receipts := [{ receiptId := 1, grantId := 1, sequence := 5, tokenIdentifier := 77, committedAt := -3 }]

def wireWorker : WorkerDescriptor where
  id := 1
  bootId := 2
  device := { id := 1, memoryBytes := 4096, computeCapabilityMajor := 12 }
  supportedModels := [{ model := 1, device := 1 }, { model := 2, device := 1, dtype := .bf16 }]

theorem wireRequest_fits : wireRequest.Fits (2 ^ 32) where
  ids := by decide
  key := by decide
  device := ⟨by decide, by decide⟩
  count := by decide
  members := by
    intro m hm
    cases mem_singleton.mp hm
    exact ⟨by decide, by decide, by decide⟩
  groupPayload := by decide
  deadlineHint := by decide

theorem wirePrepared_fits : wirePrepared.Fits (2 ^ 32) where
  ids := by decide
  groupActive := by decide
  groupErrorMessage := by decide
  count := by decide
  members := by
    intro pm hpm
    cases mem_singleton.mp hpm
    exact ⟨by decide, by decide, by decide, by decide, by decide, by decide, by decide⟩

theorem wireReceipts_fits : wireReceipts.Fits (2 ^ 32) where
  ids := by decide
  groupErrorMessage := by decide
  count := by decide
  receipts := by
    intro rec hrec
    cases mem_singleton.mp hrec
    exact ⟨by decide, by decide, by decide⟩

theorem wireWorker_fits : wireWorker.Fits (2 ^ 32) where
  ids := by decide
  device := ⟨by decide, by decide⟩
  count := by decide
  supportedModels := by decide

end Sample

theorem codecs_round_trip_samples :
    decodeExecuteRequest (encodeExecuteRequest Sample.wireRequest) = .ok Sample.wireRequest ∧
    decodePreparedResult (encodePreparedResult Sample.wirePrepared) = .ok Sample.wirePrepared ∧
    decodeCommitGrant (encodeCommitGrant { grantId := 4, terminal := true, activeNs := -9 }) =
      .ok { grantId := 4, terminal := true, activeNs := -9 } ∧
    decodeCommitReceipts (encodeCommitReceipts Sample.wireReceipts) = .ok Sample.wireReceipts ∧
    decodeAbortPrepared (encodeAbortPrepared { proposal := 1, sequence := 2 }) = .ok { proposal := 1, sequence := 2 } ∧
    decodeSubmitRequest
      (encodeSubmitRequest { id := 1, sequence := 2, latencyClass := .undeclared 3, deadline := -1 }) =
      .ok { id := 1, sequence := 2, latencyClass := .undeclared 3, deadline := -1 } ∧
    decWorker (encWorker Sample.wireWorker) = .ok Sample.wireWorker := by
  obtain ⟨hrequest, hprepared, hgrant, hreceipts, habort, hsubmit, hworker⟩ := codecs_round_trip
  exact ⟨hrequest _ Sample.wireRequest_fits, hprepared _ Sample.wirePrepared_fits, hgrant _ ⟨by decide, by decide⟩,
    hreceipts _ Sample.wireReceipts_fits, habort _ (by decide),
    hsubmit _ ⟨by decide, by decide, by decide, by decide, by decide, by decide⟩, hworker _ Sample.wireWorker_fits⟩

/-- No message is read out of a part of an encoding. The byte strings are of any length a vector can have, those the
    reader would refuse as a whole included. -/
theorem codecs_reject_cuts : (∀ req : DecodeExecutionRequest, req.Fits (2 ^ 64 - 1) →
      RejectsCuts decodeExecuteRequest (encodeExecuteRequest req)) ∧
    (∀ res : DecodeExecutionResult, res.Fits (2 ^ 64 - 1) → RejectsCuts decodeExecuteResult (encodeExecuteResult res)) ∧
    (∀ res : PreparedDecode, res.Fits (2 ^ 64 - 1) → RejectsCuts decodePreparedResult (encodePreparedResult res)) ∧
    (∀ g : CommitGrant, g.Fits → RejectsCuts decodeCommitGrant (encodeCommitGrant g)) ∧
    (∀ res : ReceiptDecode, res.Fits (2 ^ 64 - 1) → RejectsCuts decodeCommitReceipts (encodeCommitReceipts res)) ∧
    (∀ a : AbortPrepared, IdsFit a.ids → RejectsCuts decodeAbortPrepared (encodeAbortPrepared a)) ∧
    (∀ req : DecodeRequest, req.Fits (2 ^ 64 - 1) → RejectsCuts decodeSubmitRequest (encodeSubmitRequest req)) ∧
    (∀ a : SubmitAck, a.Fits (2 ^ 64 - 1) → RejectsCuts decodeSubmitAck (encodeSubmitAck a)) ∧
    (∀ s : StatusReply, RejectsCuts decodeStatusReply (encodeStatusReply s)) ∧
    (∀ json : Bytes, json.length ≤ 2 ^ 64 - 1 → RejectsCuts decodeSnapshotReply (encodeSnapshotReply json)) ∧
    (∀ q : QueryRequest, q.request < 2 ^ 64 → q.sequence < 2 ^ 64 → RejectsCuts decodeQuery (encodeQuery q)) ∧
    (∀ q : ExplainRequest, q.Fits (2 ^ 64 - 1) → RejectsCuts decodeExplainRequest (encodeExplainRequest q)) ∧
    (∀ q : ExplainReply, q.Fits (2 ^ 64 - 1) → RejectsCuts decodeExplainReply (encodeExplainReply q)) ∧
    (∀ g : GetAuthority, g.sequence < 2 ^ 64 → RejectsCuts decodeGetAuthority (encodeGetAuthority g)) ∧
    ∀ a : AuthorityReply, IdsFit a.ids → RejectsCuts decodeAuthorityReply (encodeAuthorityReply a) := by
  have hlimit : 2 ^ 64 - 1 < 2 ^ 64 := by decide
  refine ⟨fun req h => ?_, fun res h => ?_, fun res h => ?_, fun g h => ?_, fun res h => ?_, fun a h => ?_,
    fun req h => ?_,
    fun a h => ?_, fun s => ?_, fun json h => ?_, fun q hrequest hsequence => ?_, fun q h => ?_, fun q h => ?_,
    fun g h => ?_, fun a h => ?_⟩
  · exact rejectsCuts (coded_executeRequest hlimit h)
  · exact rejectsCuts (coded_executeResult hlimit h)
  · exact rejectsCuts (coded_preparedResult hlimit h)
  · exact rejectsCuts (coded_commitGrant (P := True) h)
  · exact rejectsCuts (coded_commitReceipts hlimit h)
  · exact rejectsCuts (coded_abortPrepared (P := True) h)
  · exact rejectsCuts (coded_submitRequest hlimit h)
  · exact rejectsCuts (coded_submitAck hlimit h)
  · exact rejectsCuts (coded_statusReply (P := True) s)
  · exact rejectsCuts (coded_bytes hlimit h)
  · exact rejectsCuts (coded_query (P := True) hrequest hsequence)
  · exact rejectsCuts (coded_explainRequest hlimit h)
  · exact rejectsCuts (coded_explainReply hlimit h)
  · exact rejectsCuts (coded_getAuthority (P := True) h)
  · exact rejectsCuts (coded_authorityReply (P := True) h)

/-- An explanation cut inside its second string, and a grant cut before its last byte. -/
theorem codecs_reject_cut_samples : (∃ e, decodeExplainReply (putBytes [1, 2] ++ putId 3 ++ [7, 8]) = .error e) ∧
    ∃ e, decodeCommitGrant (encodeCommitGrant { grantId := 4 }).dropLast = .error e := by
  obtain ⟨-, -, -, hgrant, -, -, -, -, -, -, -, -, hexplain, -, -⟩ := codecs_reject_cuts
  exact ⟨hexplain { text := [1, 2], json := [7, 8, 9] } ⟨by decide, by decide⟩ _ (by decide) (by decide),
    hgrant { grantId := 4 } ⟨by decide, by decide⟩ _ (List.dropLast_prefix _) (by decide)⟩

/-! What an execution result keeps. -/

theorem readBytes_yields : Yields (fun b : Bytes => b.length ≤ 2 ^ 32) readBytes := by
  refine Yields.bind _ fun n => (Yields.blob n _).chain fun b hb => (Yields.failIf _ _).chain fun _ hbound => ?_
  exact Yields.pure (hb ▸ Nat.not_lt.mp hbound)

theorem readOutcome_yields : Yields (fun mo : MemberOutcome => mo.errorMessage.length ≤ 2 ^ 32) readOutcome := by
  unfold readOutcome
  iterate 6 refine Yields.bind _ fun _ => ?_
  refine readBytes_yields.chain fun em hem => ?_
  iterate 8 refine Yields.bind _ fun _ => ?_
  exact Yields.pure hem

/-- A result that was read has no word on retries, and messages within the reader's bound. -/
theorem readExecuteResult_yields :
    Yields (fun res : DecodeExecutionResult => res.groupRetryable = false ∧ res.groupErrorMessage.length ≤ 2 ^ 32 ∧
      ∀ mo ∈ res.outcomes, mo.errorMessage.length ≤ 2 ^ 32) readExecuteResult := by
  unfold readExecuteResult
  iterate 6 refine Yields.bind _ fun _ => ?_
  refine readBytes_yields.chain fun gem hgem => ?_
  have hcounted : Yields (fun outcomes : List MemberOutcome => ∀ mo ∈ outcomes, mo.errorMessage.length ≤ 2 ^ 32)
      (readCounted maxWireMembers "outcome count too large" readOutcome) :=
    Yields.bind _ fun cnt => Yields.bind _ fun _ => readOutcome_yields.times cnt
  exact hcounted.chain fun outcomes houtcomes => Yields.pure ⟨rfl, hgem, houtcomes⟩

/-- An execution result with at most `2 ^ 18` outcomes comes back from the wire as it was exactly if it does not ask
    for a retry of the group and its messages have at most `2 ^ 32` bytes. -/
theorem executeResult_round_trip_iff {res : DecodeExecutionResult} (h : res.Fits (2 ^ 64 - 1)) :
    decodeExecuteResult (encodeExecuteResult res) = .ok res ↔
      res.groupRetryable = false ∧ res.groupErrorMessage.length ≤ 2 ^ 32 ∧
        ∀ mo ∈ res.outcomes, mo.errorMessage.length ≤ 2 ^ 32 := by
  constructor
  · intro hdecoded
    cases hrun : readExecuteResult.run (encodeExecuteResult res) with
    | error e =>
      rw [decodeExecuteResult, decodeWith, hrun] at hdecoded
      cases hdecoded
    | ok out =>
      rw [decodeExecuteResult, decodeWith, hrun] at hdecoded
      obtain ⟨res', rest⟩ := out
      cases hdecoded
      exact readExecuteResult_yields _ _ _ hrun
  · rintro ⟨hretry, hmessage, houtcomes⟩
    have hfits : res.Fits (2 ^ 32) :=
      ⟨h.ids, h.groupActive, hmessage, h.count, fun mo hmo =>
        ⟨(h.outcomes mo hmo).ids, houtcomes mo hmo, (h.outcomes mo hmo).startedAt, (h.outcomes mo hmo).finishedAt,
          (h.outcomes mo hmo).active⟩⟩
    have hdecoded : decodeExecuteResult (encodeExecuteResult res) = .ok { res with groupRetryable := false } :=
      decodes (coded_executeResult (by decide) hfits) (Nat.le_refl _)
    rw [hdecoded, ← hretry]

theorem executeResult_round_trip_failure :
    decodeExecuteResult (encodeExecuteResult { dispatchId := 3, groupError := ⟨7⟩, outcomes := [{ sequence := 5 }] }) =
      .ok { dispatchId := 3, groupError := ⟨7⟩, outcomes := [{ sequence := 5 }] } := by
  refine (executeResult_round_trip_iff ⟨by decide, by decide, by decide, by decide, fun mo hmo => ?_⟩).mpr
    ⟨rfl, by decide, fun mo hmo => ?_⟩
  · obtain rfl := mem_singleton.mp hmo
    exact ⟨by decide, by decide, by decide, by decide, by decide⟩
  · obtain rfl := mem_singleton.mp hmo
    exact Nat.zero_le _

/-- The worker reports a failure of the whole group that may be retried; the coordinator reads one that may not. -/
theorem executeResult_loses_retry :
    decodeExecuteResult (encodeExecuteResult { groupError := ⟨7⟩, groupRetryable := true }) =
        .ok { groupError := ⟨7⟩, groupRetryable := false } ∧
      decodeExecuteResult (encodeExecuteResult { groupError := ⟨7⟩, groupRetryable := true }) ≠
        .ok { groupError := ⟨7⟩, groupRetryable := true } := by
  have hfits : ({ groupError := ⟨7⟩, groupRetryable := true } : DecodeExecutionResult).Fits (2 ^ 32) :=
    ⟨by decide, by decide, by decide, by decide, forall_mem_nil _⟩
  have hdecoded := decodes (coded_executeResult (by decide) hfits) (Nat.le_refl _)
  refine ⟨hdecoded, fun heq => ?_⟩
  have hres := Except.ok.inj (hdecoded.symm.trans heq)
  exact Bool.false_ne_true (congrArg DecodeExecutionResult.groupRetryable hres)

end DecodeFabric
