import DecodeFabric.Snapshot

/- The messages of the protocol as bytes.

   Each message has a writer and a reader of its own in the source, and nothing but the order of the fields makes
   them fit; both are translated here, field by field. A reader takes what it needs from the front of the payload and
   does not ask whether anything is left. Lists carry their length, which the reader bounds before it
   reads on; byte strings carry theirs, which is checked against what is left and then bounded.

   `DecodeExecutionResult::group_retryable` is not on the wire.

   Correspondence (C++ ↔ Lean):
     `protocol::encode_X` / `decode_X`, `enc_worker` / `dec_worker`   ↔ `encodeX` / `decodeX`, `encWorker` / `decWorker`
     `write_key` / `read_key` and the other helpers                   ↔ `writeKey` / `readKey` … -/
namespace DecodeFabric
open Lib List

/-! Enumerations as bytes. -/

def BackendKind.byte : BackendKind → UInt8
  | cpu => 0
  | cuda => 1
  | undeclared i => .ofNat (2 + i)

/-- `static_cast<BackendKind>`. -/
def BackendKind.ofByte : UInt8 → BackendKind := castByte [cpu, cuda] rfl undeclared

def DType.byte : DType → UInt8
  | invalid => 0
  | f32 => 1
  | f16 => 2
  | bf16 => 3
  | f64 => 4
  | i32 => 5
  | i64 => 6
  | u8 => 7
  | undeclared i => .ofNat (8 + i)

/-- `static_cast<DType>`. -/
def DType.ofByte : UInt8 → DType := castByte [invalid, f32, f16, bf16, f64, i32, i64, u8] rfl undeclared

def WorkerHealth.byte : WorkerHealth → UInt8
  | unknown => 0
  | healthy => 1
  | degraded => 2
  | failed => 3
  | undeclared i => .ofNat (4 + i)

/-- `static_cast<WorkerHealth>`. -/
def WorkerHealth.ofByte : UInt8 → WorkerHealth := castByte [unknown, healthy, degraded, failed] rfl undeclared

/-! `binary::Writer` and `binary::Reader`. -/

/-- `bytes` and `str`. -/
def putBytes (b : Bytes) : Bytes := putId b.length ++ b

/-- A vector: its size, then its items. -/
def putCounted {α : Type} (write : α → Bytes) (items : List α) : Bytes := putId items.length ++ items.flatMap write

def truncErr : String := "truncated byte stream"

/-- `bytes` and `str`: the length is held against what is left before it is held against the bound. -/
def readBytes : Reader Error Bytes := do
  let n ← id64 truncErr
  let out ← Reader.blob n (truncated "truncated byte-vector payload")
  Reader.failIf (n > 2 ^ 32) ⟨.boundedLengthExceeded, "byte vector exceeds bound"⟩
  return out

/-- A count of at most `limit`, then as many items. -/
def readCounted {α : Type} (limit : Nat) (what : String) (item : Reader Error α) : Reader Error (List α) := do
  let cnt ← id64 truncErr
  Reader.failIf (cnt > limit) ⟨.protocolInvalidField, what⟩
  Reader.times cnt item

def maxWireMembers : Nat := 2 ^ 18
def maxWireModels : Nat := 4096

def readKind : Reader Error MemberOutcomeKind := MemberOutcomeKind.ofByte <$> u8 truncErr
def readBackend : Reader Error BackendKind := BackendKind.ofByte <$> u8 truncErr
def readDType : Reader Error DType := DType.ofByte <$> u8 truncErr
def readHealth : Reader Error WorkerHealth := WorkerHealth.ofByte <$> u8 truncErr
def readLatency : Reader Error LatencyClass := LatencyClass.ofByte <$> u8 truncErr
def readErrorCode : Reader Error ErrorCode := ErrorCode.mk <$> u32 truncErr
def readDouble : Reader Error Binary64 := Binary64.mk <$> u64 truncErr

/-- A decoder runs its reader over the payload. -/
def decodeWith {α : Type} (r : Reader Error α) (bytes : Bytes) : Except Error α := (r.run bytes).map Prod.fst

/-! Helpers shared by the messages. -/

def writeKey (k : CompatibilityKey) : Bytes := flatten
  [ putId k.model, putId k.revision, putId k.adapter,
    putU8 k.backend.byte,
    putId k.device,
    putU8 k.dtype.byte,
    putU32 k.tensorLayout, putU32 k.kvRepresentation,
    putU32 k.sequenceRequirements, putU32 k.operatorPolicy ]

def readKey : Reader Error CompatibilityKey := do
  let a ← id64 truncErr
  let b ← id64 truncErr
  let c ← id64 truncErr
  let d ← readBackend
  let e ← id64 truncErr
  let f ← readDType
  let g ← u32 truncErr
  let h ← u32 truncErr
  let i ← u32 truncErr
  let j ← u32 truncErr
  return { model := a, revision := b, adapter := c, backend := d, device := e, dtype := f, tensorLayout := g,
           kvRepresentation := h, sequenceRequirements := i, operatorPolicy := j }

def writeDevice (d : DeviceDescriptor) : Bytes := flatten
  [ putId d.id, putU8 d.backend.byte, putBytes d.name,
    putU32 d.computeCapabilityMajor, putU32 d.computeCapabilityMinor,
    putU64 d.memoryBytes, putU32 d.supportedDtypes, putU32 d.maxGroupsConcurrent ]

def readDevice : Reader Error DeviceDescriptor := do
  let id ← id64 truncErr
  let bk ← readBackend
  let nm ← readBytes
  let m ← u32 truncErr
  let mn ← u32 truncErr
  let mem ← u64 truncErr
  let sd ← u32 truncErr
  let mg ← u32 truncErr
  return { id, backend := bk, name := nm, computeCapabilityMajor := m, computeCapabilityMinor := mn, memoryBytes := mem,
           supportedDtypes := sd, maxGroupsConcurrent := mg }

def writeState (st : StateDescriptor) : Bytes := flatten
  [ putId st.id, putU64 st.generation, putId st.device,
    putU64 st.bytesHeld, putU64 st.estimatedGrowth, putU64 st.ownerTag, putU64 st.accessVersion ]

def readState : Reader Error StateDescriptor := do
  let a ← id64 truncErr
  let b ← u64 truncErr
  let c ← id64 truncErr
  let d ← u64 truncErr
  let e ← u64 truncErr
  let f ← u64 truncErr
  let g ← u64 truncErr
  return { id := a, generation := b, device := c, bytesHeld := d, estimatedGrowth := e, ownerTag := f,
           accessVersion := g }

def writeMember (m : DecodeMemberSpec) : Bytes := flatten
  [ putId m.sequence, putId m.attempt, putId m.generation,
    writeState m.state,
    putU64 m.currentLength, putU64 m.generatedTokens, putU64 m.remainingBudget,
    putBytes m.payload ]

def readMember : Reader Error DecodeMemberSpec := do
  let seq ← id64 truncErr
  let att ← id64 truncErr
  let gen ← id64 truncErr
  let st ← readState
  let cl ← u64 truncErr
  let gt ← u64 truncErr
  let rb ← u64 truncErr
  let pl ← readBytes
  return { sequence := seq, attempt := att, generation := gen, state := st, currentLength := cl, generatedTokens := gt,
           remainingBudget := rb, payload := pl }

/-- `write_outcome`; `encode_execute_result` writes the same fields in the same order. -/
def writeOutcome (mo : MemberOutcome) : Bytes := flatten
  [ putId mo.sequence,
    putU8 mo.kind.byte,
    putU64 mo.generated, putU64 mo.tokenIdentifier,
    putFlag mo.terminal,
    putU32 mo.errorCode.value, putBytes mo.errorMessage,
    putFlag mo.retryable,
    putNs mo.startedAt, putNs mo.finishedAt, putNs mo.activeNs,
    putU64 mo.kvBytesDelta, putU64 mo.kvBytesAfter,
    putId mo.attempt, putId mo.generation ]

/-- `read_outcome`, and the loop body of `decode_execute_result`. -/
def readOutcome : Reader Error MemberOutcome := do
  let seq ← id64 truncErr
  let k ← readKind
  let gn ← u64 truncErr
  let tid ← u64 truncErr
  let te ← flag truncErr
  let ec ← readErrorCode
  let em ← readBytes
  let rb ← flag truncErr
  let sa ← ns truncErr
  let fa ← ns truncErr
  let an ← ns truncErr
  let kd ← u64 truncErr
  let ka ← u64 truncErr
  let att ← id64 truncErr
  let gr ← id64 truncErr
  return { sequence := seq, kind := k, generated := gn, tokenIdentifier := tid, terminal := te, errorCode := ec,
           errorMessage := em, retryable := rb, startedAt := sa, finishedAt := fa, activeNs := an, kvBytesDelta := kd,
           kvBytesAfter := ka, attempt := att, generation := gr }

/-! `ExecuteRequest`, `ExecuteResult`. -/

def encodeExecuteRequest (req : DecodeExecutionRequest) : Bytes := flatten
  [ putId req.dispatchId, putId req.epoch,
    putId req.worker, putId req.workerBoot,
    putId req.reservationId,
    writeKey req.key,
    writeDevice req.device,
    putCounted writeMember req.members,
    putBytes req.groupPayload,
    putNs req.deadlineHintNs ]

def readExecuteRequest : Reader Error DecodeExecutionRequest := do
  let did ← id64 truncErr
  let ep ← id64 truncErr
  let wk ← id64 truncErr
  let wb ← id64 truncErr
  let rid ← id64 truncErr
  let key ← readKey
  let dev ← readDevice
  let members ← readCounted maxWireMembers "member count too large" readMember
  let gp ← readBytes
  let dh ← ns truncErr
  return { dispatchId := did, epoch := ep, worker := wk, workerBoot := wb, reservationId := rid, key, device := dev,
           members, groupPayload := gp, deadlineHintNs := dh }

def decodeExecuteRequest : Bytes → Except Error DecodeExecutionRequest := decodeWith readExecuteRequest

def encodeExecuteResult (res : DecodeExecutionResult) : Bytes := flatten
  [ putId res.dispatchId, putId res.epoch,
    putId res.worker, putId res.workerBoot,
    putNs res.groupActiveNs,
    putU32 res.groupError.value,
    putBytes res.groupErrorMessage,
    putCounted writeOutcome res.outcomes ]

def readExecuteResult : Reader Error DecodeExecutionResult := do
  let did ← id64 truncErr
  let ep ← id64 truncErr
  let wk ← id64 truncErr
  let wb ← id64 truncErr
  let ga ← ns truncErr
  let ge ← readErrorCode
  let gem ← readBytes
  let outcomes ← readCounted maxWireMembers "outcome count too large" readOutcome
  return { dispatchId := did, epoch := ep, worker := wk, workerBoot := wb, groupActiveNs := ga, groupError := ge,
           groupErrorMessage := gem, outcomes }

def decodeExecuteResult : Bytes → Except Error DecodeExecutionResult := decodeWith readExecuteResult

/-! `SubmitRequest` and the client's queries. -/

def encodeSubmitRequest (req : DecodeRequest) : Bytes := flatten
  [ putId req.id, putId req.initialAttempt, putId req.tenant,
    putId req.model, putId req.revision, putId req.adapter,
    putId req.sequence,
    putU64 req.promptLength, putU64 req.maxGenerationLength, putU64 req.pregenerated,
    putU32 req.priority,
    putU64 req.tenantWeight.bits,
    putU8 (.ofNat req.latencyClass.byte),
    putNs req.deadline, putNs req.perTokenTargetNs,
    putU64 req.estimatedKvGrowthPerToken, putId req.deviceConstraint,
    putBytes req.samplingMetadata,
    writeState req.state,
    putNs req.arrival ]

def readSubmitRequest : Reader Error DecodeRequest := do
  let id ← id64 truncErr
  let ia ← id64 truncErr
  let tn ← id64 truncErr
  let md ← id64 truncErr
  let rv ← id64 truncErr
  let ad ← id64 truncErr
  let sq ← id64 truncErr
  let pl ← u64 truncErr
  let mg ← u64 truncErr
  let pg ← u64 truncErr
  let pr ← u32 truncErr
  let wb ← readDouble
  let lc ← readLatency
  let dl ← ns truncErr
  let pt ← ns truncErr
  let kg ← u64 truncErr
  let dc ← id64 truncErr
  let sm ← readBytes
  let st ← readState
  let ar ← ns truncErr
  return { id, initialAttempt := ia, tenant := tn, model := md, revision := rv, adapter := ad, sequence := sq,
           promptLength := pl, maxGenerationLength := mg, pregenerated := pg, priority := pr, tenantWeight := wb,
           latencyClass := lc, deadline := dl, perTokenTargetNs := pt, estimatedKvGrowthPerToken := kg,
           deviceConstraint := dc, samplingMetadata := sm, state := st, arrival := ar }

def decodeSubmitRequest : Bytes → Except Error DecodeRequest := decodeWith readSubmitRequest

structure SubmitAck where
  admitted : Bool := false
  sequence : SequenceId := 0
  reason : Bytes := []

def encodeSubmitAck (a : SubmitAck) : Bytes := flatten [putFlag a.admitted, putId a.sequence, putBytes a.reason]

def readSubmitAck : Reader Error SubmitAck := do
  let ad ← flag truncErr
  let sq ← id64 truncErr
  let rs ← readBytes
  return { admitted := ad, sequence := sq, reason := rs }

def decodeSubmitAck : Bytes → Except Error SubmitAck := decodeWith readSubmitAck

structure StatusReply where
  active : UInt32 := 0
  ready : UInt32 := 0
  generatedTokens : UInt64 := 0
  decodeSteps : UInt64 := 0
  groups : UInt32 := 0
  requestsAdmitted : UInt64 := 0
  staleRejections : UInt64 := 0
  epoch : UInt64 := 0

def encodeStatusReply (s : StatusReply) : Bytes := flatten
  [ putU32 s.active, putU32 s.ready, putU64 s.generatedTokens,
    putU64 s.decodeSteps, putU32 s.groups, putU64 s.requestsAdmitted,
    putU64 s.staleRejections, putU64 s.epoch ]

def readStatusReply : Reader Error StatusReply := do
  let a ← u32 truncErr
  let b ← u32 truncErr
  let c ← u64 truncErr
  let d ← u64 truncErr
  let e ← u32 truncErr
  let f ← u64 truncErr
  let g ← u64 truncErr
  let h ← u64 truncErr
  return { active := a, ready := b, generatedTokens := c, decodeSteps := d, groups := e, requestsAdmitted := f,
           staleRejections := g, epoch := h }

def decodeStatusReply : Bytes → Except Error StatusReply := decodeWith readStatusReply

def encodeSnapshotReply (json : Bytes) : Bytes := putBytes json

def decodeSnapshotReply : Bytes → Except Error Bytes := decodeWith readBytes

structure QueryRequest where
  request : RequestId := 0
  sequence : SequenceId := 0
  wantSnapshot : Bool := false

def encodeQuery (q : QueryRequest) : Bytes := flatten [putId q.request, putId q.sequence, putFlag q.wantSnapshot]

def readQuery : Reader Error QueryRequest := do
  let a ← id64 truncErr
  let b ← id64 truncErr
  let c ← flag truncErr
  return { request := a, sequence := b, wantSnapshot := c }

def decodeQuery : Bytes → Except Error QueryRequest := decodeWith readQuery

structure ExplainRequest where
  sequence : SequenceId := 0
  question : Bytes := []

def encodeExplainRequest (q : ExplainRequest) : Bytes := flatten [putId q.sequence, putBytes q.question]

def readExplainRequest : Reader Error ExplainRequest := do
  let a ← id64 truncErr
  let b ← readBytes
  return { sequence := a, question := b }

def decodeExplainRequest : Bytes → Except Error ExplainRequest := decodeWith readExplainRequest

structure ExplainReply where
  text : Bytes := []
  json : Bytes := []

def encodeExplainReply (q : ExplainReply) : Bytes := flatten [putBytes q.text, putBytes q.json]

def readExplainReply : Reader Error ExplainReply := do
  let a ← readBytes
  let b ← readBytes
  return { text := a, json := b }

def decodeExplainReply : Bytes → Except Error ExplainReply := decodeWith readExplainReply

structure GetAuthority where
  sequence : SequenceId := 0

def encodeGetAuthority (g : GetAuthority) : Bytes := putId g.sequence

def readGetAuthority : Reader Error GetAuthority := do
  let a ← id64 truncErr
  return { sequence := a }

def decodeGetAuthority : Bytes → Except Error GetAuthority := decodeWith readGetAuthority

structure AuthorityReply where
  «exists» : Bool := false
  sequence : SequenceId := 0
  dispatch : DispatchId := 0
  epoch : CoordinatorEpoch := 0
  worker : WorkerId := 0
  workerBoot : WorkerBootId := 0
  attempt : AttemptId := 0
  generation : DecodeGeneration := 0
  generated : UInt64 := 0

def encodeAuthorityReply (a : AuthorityReply) : Bytes := flatten
  [ putFlag a.exists, putId a.sequence, putId a.dispatch,
    putId a.epoch, putId a.worker, putId a.workerBoot,
    putId a.attempt, putId a.generation, putU64 a.generated ]

def readAuthorityReply : Reader Error AuthorityReply := do
  let e ← flag truncErr
  let s ← id64 truncErr
  let d ← id64 truncErr
  let p ← id64 truncErr
  let wk ← id64 truncErr
  let wb ← id64 truncErr
  let at0 ← id64 truncErr
  let g ← id64 truncErr
  let gn ← u64 truncErr
  return { «exists» := e, sequence := s, dispatch := d, epoch := p, worker := wk, workerBoot := wb, attempt := at0,
           generation := g, generated := gn }

def decodeAuthorityReply : Bytes → Except Error AuthorityReply := decodeWith readAuthorityReply

/-! The transaction. -/

def writePrepared (pm : PreparedMember) : Bytes := flatten
  [ putId pm.sequence, putId pm.state, putId pm.attempt,
    putId pm.generation, putId pm.dispatch, putId pm.epoch,
    putId pm.worker, putId pm.workerBoot, putId pm.proposal,
    putU64 pm.preStateDigest, putU64 pm.postStateDigest, putU64 pm.deltaDigest,
    putU64 pm.committedPositionBefore, putU64 pm.committedPositionAfter,
    putNs pm.activeNs,
    writeOutcome pm.outcome ]

def readPrepared : Reader Error PreparedMember := do
  let a ← id64 truncErr
  let b ← id64 truncErr
  let c ← id64 truncErr
  let d ← id64 truncErr
  let e ← id64 truncErr
  let f ← id64 truncErr
  let g2 ← id64 truncErr
  let h ← id64 truncErr
  let pro ← id64 truncErr
  let pre ← u64 truncErr
  let post ← u64 truncErr
  let dd ← u64 truncErr
  let cb ← u64 truncErr
  let ca ← u64 truncErr
  let an ← ns truncErr
  let oc ← readOutcome
  return { sequence := a, state := b, attempt := c, generation := d, dispatch := e, epoch := f, worker := g2,
           workerBoot := h, proposal := pro, preStateDigest := pre, postStateDigest := post, deltaDigest := dd,
           committedPositionBefore := cb, committedPositionAfter := ca, activeNs := an, outcome := oc }

def encodePreparedResult (res : PreparedDecode) : Bytes := flatten
  [ putId res.dispatchId, putId res.epoch,
    putId res.worker, putId res.workerBoot,
    putNs res.groupActiveNs,
    putU32 res.groupError.value,
    putBytes res.groupErrorMessage,
    putCounted writePrepared res.members ]

def readPreparedResult : Reader Error PreparedDecode := do
  let did ← id64 truncErr
  let ep ← id64 truncErr
  let wk ← id64 truncErr
  let wb ← id64 truncErr
  let ga ← ns truncErr
  let ge ← readErrorCode
  let gem ← readBytes
  let members ← readCounted maxWireMembers "prepared member count too large" readPrepared
  return { dispatchId := did, epoch := ep, worker := wk, workerBoot := wb, groupActiveNs := ga, groupError := ge,
           groupErrorMessage := gem, members }

def decodePreparedResult : Bytes → Except Error PreparedDecode := decodeWith readPreparedResult

def encodeCommitGrant (g : CommitGrant) : Bytes := flatten
  [ putId g.grantId, putId g.proposal,
    putId g.epoch, putId g.worker, putId g.workerBoot,
    putId g.sequence, putId g.state, putId g.attempt,
    putId g.generation, putId g.dispatch,
    putU64 g.committedPosition,
    putU64 g.preStateDigest, putU64 g.postStateDigest, putU64 g.deltaDigest,
    putU8 g.outcomeKind.byte, putFlag g.terminal,
    putU32 g.tokenIdentifier, putNs g.activeNs ]

def readCommitGrant : Reader Error CommitGrant := do
  let gid ← id64 truncErr
  let pro ← id64 truncErr
  let ep ← id64 truncErr
  let wk ← id64 truncErr
  let wb ← id64 truncErr
  let sq ← id64 truncErr
  let st ← id64 truncErr
  let att ← id64 truncErr
  let gn ← id64 truncErr
  let di ← id64 truncErr
  let cp ← u64 truncErr
  let pre ← u64 truncErr
  let post ← u64 truncErr
  let dd ← u64 truncErr
  let ok ← readKind
  let term ← flag truncErr
  let tok ← u32 truncErr
  let an ← ns truncErr
  return { grantId := gid, proposal := pro, epoch := ep, worker := wk, workerBoot := wb, sequence := sq, state := st,
           attempt := att, generation := gn, dispatch := di, committedPosition := cp, preStateDigest := pre,
           postStateDigest := post, deltaDigest := dd, outcomeKind := ok, terminal := term, tokenIdentifier := tok,
           activeNs := an }

def decodeCommitGrant : Bytes → Except Error CommitGrant := decodeWith readCommitGrant

def writeMemberReceipt (rec : MemberReceipt) : Bytes := flatten
  [ putId rec.receiptId, putId rec.grantId, putId rec.proposal,
    putId rec.epoch, putId rec.worker, putId rec.workerBoot,
    putId rec.sequence, putId rec.state, putId rec.attempt,
    putId rec.generation, putId rec.dispatch,
    putU64 rec.committedPositionBefore, putU64 rec.committedPositionAfter,
    putU64 rec.preStateDigest, putU64 rec.postStateDigest, putU64 rec.deltaDigest,
    putU8 rec.outcomeKind.byte, putFlag rec.terminal,
    putU32 rec.tokenIdentifier, putNs rec.activeNs, putNs rec.committedAt ]

def readMemberReceipt : Reader Error MemberReceipt := do
  let a ← id64 truncErr
  let b ← id64 truncErr
  let c ← id64 truncErr
  let d ← id64 truncErr
  let e ← id64 truncErr
  let f ← id64 truncErr
  let g2 ← id64 truncErr
  let h ← id64 truncErr
  let i2 ← id64 truncErr
  let j ← id64 truncErr
  let k ← id64 truncErr
  let cb ← u64 truncErr
  let ca ← u64 truncErr
  let pre ← u64 truncErr
  let post ← u64 truncErr
  let dd ← u64 truncErr
  let ok ← readKind
  let term ← flag truncErr
  let tok ← u32 truncErr
  let an ← ns truncErr
  let cat ← ns truncErr
  return { receiptId := a, grantId := b, proposal := c, epoch := d, worker := e, workerBoot := f, sequence := g2,
           state := h, attempt := i2, generation := j, dispatch := k, committedPositionBefore := cb,
           committedPositionAfter := ca, preStateDigest := pre, postStateDigest := post, deltaDigest := dd,
           outcomeKind := ok, terminal := term, tokenIdentifier := tok, activeNs := an, committedAt := cat }

def encodeCommitReceipts (res : ReceiptDecode) : Bytes := flatten
  [ putId res.dispatchId, putId res.epoch,
    putId res.worker, putId res.workerBoot,
    putU32 res.groupError.value,
    putBytes res.groupErrorMessage,
    putCounted writeMemberReceipt res.receipts ]

def readCommitReceipts : Reader Error ReceiptDecode := do
  let did ← id64 truncErr
  let ep ← id64 truncErr
  let wk ← id64 truncErr
  let wb ← id64 truncErr
  let ge ← readErrorCode
  let gem ← readBytes
  let receipts ← readCounted maxWireMembers "receipt count too large" readMemberReceipt
  return { dispatchId := did, epoch := ep, worker := wk, workerBoot := wb, groupError := ge, groupErrorMessage := gem,
           receipts }

def decodeCommitReceipts : Bytes → Except Error ReceiptDecode := decodeWith readCommitReceipts

def encodeAbortPrepared (a : AbortPrepared) : Bytes := flatten
  [ putId a.proposal, putId a.sequence, putId a.state,
    putId a.attempt, putId a.generation, putId a.dispatch,
    putId a.epoch, putId a.worker, putId a.workerBoot ]

def readAbortPrepared : Reader Error AbortPrepared := do
  let pro ← id64 truncErr
  let sq ← id64 truncErr
  let st ← id64 truncErr
  let att ← id64 truncErr
  let gn ← id64 truncErr
  let di ← id64 truncErr
  let ep ← id64 truncErr
  let wk ← id64 truncErr
  let wb ← id64 truncErr
  return { proposal := pro, sequence := sq, state := st, attempt := att, generation := gn, dispatch := di, epoch := ep,
           worker := wk, workerBoot := wb }

def decodeAbortPrepared : Bytes → Except Error AbortPrepared := decodeWith readAbortPrepared

/-! `Hello`. -/

/-- The device is written in an order of its own, not by `write_device`. -/
def encWorker (w : WorkerDescriptor) : Bytes := flatten
  [ putId w.id, putId w.bootId,
    putU8 w.health.byte,
    putU64 w.advertisedCapacity, putU64 w.activeReservations, putU64 w.generation,
    putId w.device.id,
    putU8 w.device.backend.byte,
    putBytes w.device.name,
    putU64 w.device.memoryBytes,
    putU32 w.device.computeCapabilityMajor, putU32 w.device.computeCapabilityMinor,
    putU32 w.device.supportedDtypes, putU32 w.device.maxGroupsConcurrent,
    putCounted writeKey w.supportedModels ]

def readWorker : Reader Error WorkerDescriptor := do
  let a ← id64 truncErr
  let b ← id64 truncErr
  let c ← readHealth
  let d ← u64 truncErr
  let e ← u64 truncErr
  let f ← u64 truncErr
  let g ← id64 truncErr
  let h ← readBackend
  let i ← readBytes
  let j ← u64 truncErr
  let m1 ← u32 truncErr
  let m2 ← u32 truncErr
  let m3 ← u32 truncErr
  let m4 ← u32 truncErr
  let supportedModels ← readCounted maxWireModels "too many models" readKey
  return { id := a, bootId := b, health := c, advertisedCapacity := d, activeReservations := e, generation := f
           device := { id := g, backend := h, name := i, memoryBytes := j, computeCapabilityMajor := m1,
                       computeCapabilityMinor := m2, supportedDtypes := m3, maxGroupsConcurrent := m4 }
           supportedModels }

def decWorker : Bytes → Except Error WorkerDescriptor := decodeWith readWorker

end DecodeFabric
