import DecodeFabric.Lib.Codec
import DecodeFabric.System
import Mathlib.Logic.Function.Iterate

/- Snapshots: `serialize_state` and `recover_state`.

   A snapshot is a little-endian record with a CRC-32 trailer. Writer and reader are two separate
   translations of the two functions; nothing here makes them fit but the field order each has in the
   source.

   `recover_state` checks the trailer, the magic and the version, and from the three counters on
   writes into the fabric as it goes: an error further down leaves what was written (`Load`). Its reader
   runs over the whole string, the trailer included. A sequence is rebuilt from defaults, so
   what the snapshot does not carry comes back as it is in a new `Impl::Seq`.

   Correspondence (C++ ↔ Lean):
     `binary::Writer` / `binary::Reader`       ↔ `putU8` … `putNs` / `u8` … `ns`
     `Crc32::update`                           ↔ `Crc32.update`
     `DecodeFabric::serialize_state`           ↔ `Fabric.serializeState`
     `DecodeFabric::recover_state`             ↔ `Fabric.recoverState` -/
namespace DecodeFabric
open Lib

/-! Enumerations as bytes. -/

/-- The enumeration value a byte is cast to: the enumerators in order, then the bytes none names. -/
def castByte {α : Type} (declared : List α) {k : Nat} (hk : declared.length + k = 256) (undeclared : Fin k → α)
    (b : UInt8) : α :=
  if h : b.toNat < declared.length then declared.get ⟨b.toNat, h⟩
  else undeclared ⟨b.toNat - declared.length, by have hb := b.toNat_lt; omega⟩

def SequenceState.byte : SequenceState → UInt8
  | admitted => 0
  | waiting => 1
  | ready => 2
  | grouped => 3
  | reserved => 4
  | dispatched => 5
  | running => 6
  | stepCompleted => 7
  | readyForNextToken => 8
  | yielded => 9
  | paused => 10
  | cancelRequested => 11
  | cancelled => 12
  | deadlineExpired => 13
  | retryableFailure => 14
  | nonRetryableFailure => 15
  | retrying => 16
  | completed => 17
  | staleSuperseded => 18
  | undeclared i => .ofNat (19 + i)

/-- `static_cast<SequenceState>`. -/
def SequenceState.ofByte : UInt8 → SequenceState :=
  castByte [admitted, waiting, ready, grouped, reserved, dispatched, running, stepCompleted, readyForNextToken, yielded,
    paused, cancelRequested, cancelled, deadlineExpired, retryableFailure, nonRetryableFailure, retrying, completed,
    staleSuperseded] rfl undeclared

/-- `static_cast<LatencyClass>`. -/
def LatencyClass.ofByte : UInt8 → LatencyClass :=
  castByte [none, realTime, interactive, standard, bulk] rfl undeclared

def MemberOutcomeKind.byte : MemberOutcomeKind → UInt8
  | stepSuccessContinue => 0
  | stepSuccessTerminal => 1
  | yielded => 2
  | retryableFailure => 3
  | nonRetryableFailure => 4
  | cancelled => 5
  | expired => 6
  | staleAuthorityRejected => 7
  | undeclared i => .ofNat (8 + i)

/-- `static_cast<MemberOutcomeKind>`. -/
def MemberOutcomeKind.ofByte : UInt8 → MemberOutcomeKind :=
  castByte [stepSuccessContinue, stepSuccessTerminal, yielded, retryableFailure, nonRetryableFailure, cancelled,
  expired,
    staleAuthorityRejected] rfl undeclared

def GrantStatus.word : GrantStatus → UInt32
  | pending => 0
  | consumed => 1
  | aborted => 2

/-- The status a recovered grant has: a pending one is aborted. A word above 2 is no status; `apply_commit_receipt`
    compares with 1 and with 2 and takes any other for pending. -/
def GrantStatus.recover (w : UInt32) : GrantStatus :=
  if w = 0 ∨ w = 2 then aborted else if w = 1 then consumed else pending

/-! `binary::Writer`. -/

def putU8 (v : UInt8) : Bytes := [v]
def putU32 (v : UInt32) : Bytes := putLE 4 v.toNat
def putU64 (v : UInt64) : Bytes := putLE 8 v.toNat
def putFlag (b : Bool) : Bytes := putU8 (if b then 1 else 0)

/-- `u64` of an identifier or a count. -/
def putId (n : Nat) : Bytes := putLE 8 n

def putNs (t : Nanoseconds) : Bytes := putU64 (Int64.ofInt t).toUInt64

/-! `binary::Reader`, each read with the message of the error it turns into. -/

def truncated (what : String) : Error := ⟨.persistenceTruncated, what⟩

def u8 (what : String) : Reader Error UInt8 := UInt8.ofNat <$> Reader.word 1 (truncated what)
def u32 (what : String) : Reader Error UInt32 := UInt32.ofNat <$> Reader.word 4 (truncated what)
def u64 (what : String) : Reader Error UInt64 := UInt64.ofNat <$> Reader.word 8 (truncated what)
def flag (what : String) : Reader Error Bool := (· != 0) <$> u8 what
def id64 (what : String) : Reader Error Nat := Reader.word 8 (truncated what)
def ns (what : String) : Reader Error Nanoseconds := (fun v => v.toInt64.toInt) <$> u64 what

/-! The checksum. -/

namespace Crc32

def bit (crc : UInt32) : UInt32 := (crc >>> 1) ^^^ (0xEDB88320 &&& (0 - (crc &&& 1)))

def update (crc : UInt32) (bytes : Bytes) : UInt32 :=
  bytes.foldl (fun crc b => bit^[8] (crc ^^^ b.toUInt32)) crc

end Crc32

/-- The checksum a body is stored with. -/
def checksum (body : Bytes) : UInt32 := ~~~ Crc32.update 0xFFFFFFFF body

def kPersistenceVersion : UInt32 := 3

/-! Writing. -/

def writeAccepted (a : AcceptedGeneration) : Bytes := List.flatten
  [ putU64 a.idempotencyKey,
    putId a.epoch, putId a.worker, putId a.workerBoot,
    putId a.sequence, putId a.state, putId a.attempt,
    putId a.generation, putId a.dispatch,
    putU64 a.committedPositionBefore, putU64 a.committedPositionAfter,
    putU64 a.preStateDigest, putU64 a.postStateDigest, putU64 a.deltaDigest,
    putFlag a.terminal, putFlag a.promotionObserved ]

def writeSeq (seq : SequenceId) (s : Seq) : Bytes := List.flatten
  [ putId seq,
    putId s.req.id, putId s.currentAttempt,
    putId s.req.tenant, putId s.req.model, putId s.req.revision,
    putU64 s.req.promptLength, putU64 s.req.maxGenerationLength,
    putU64 s.budget.generated, putId s.generation,
    putU64 s.generated, putU64 s.committed, putU64 s.currentLength,
    putNs s.req.deadline, putU32 s.req.priority,
    putU8 (.ofNat s.req.latencyClass.byte), putU8 s.machine.byte,
    putId s.state.id, putU64 s.state.generation,
    putU64 s.state.bytesHeld, putU64 s.state.estimatedGrowth, putU64 s.state.ownerTag,
    putU32 s.attemptCount,
    putU64 s.committedStateDigest, putFlag s.stateDigestEstablished,
    putFlag s.hasAccepted,
    if s.hasAccepted then writeAccepted s.accepted else [] ]

def writeTerminal (seq : SequenceId) (st : SequenceState) : Bytes := putId seq ++ putU8 st.byte

def writeReceipt (r : MemberReceipt) : Bytes := List.flatten
  [ putId r.receiptId, putId r.grantId, putId r.proposal,
    putId r.epoch, putId r.worker, putId r.workerBoot,
    putId r.sequence, putId r.state, putId r.attempt,
    putId r.generation, putId r.dispatch,
    putU64 r.committedPositionBefore, putU64 r.committedPositionAfter,
    putU64 r.preStateDigest, putU64 r.postStateDigest, putU64 r.deltaDigest,
    putU8 r.outcomeKind.byte, putFlag r.terminal,
    putU32 r.tokenIdentifier, putNs r.activeNs, putNs r.committedAt ]

def writeGrant (gr : GrantRecord) : Bytes :=
  let g := gr.grant
  List.flatten
  [ putId g.grantId, putId g.proposal,
    putId g.epoch, putId g.worker, putId g.workerBoot,
    putId g.sequence, putId g.state, putId g.attempt,
    putId g.generation, putId g.dispatch,
    putU64 g.committedPosition,
    putU64 g.preStateDigest, putU64 g.postStateDigest, putU64 g.deltaDigest,
    putU8 g.outcomeKind.byte, putFlag g.terminal,
    putU32 g.tokenIdentifier, putNs g.activeNs,
    putU32 gr.status.word,
    putFlag gr.hasReceipt,
    if gr.hasReceipt then writeReceipt gr.receipt else [] ]

namespace Fabric

/-- The magic, the version and the persisted counters. -/
def writeHeader (s : Fabric) : Bytes :=
  putU8 68 ++ putU8 70 ++ putU8 83 ++ putU8 84 ++ putU32 kPersistenceVersion ++
  putId s.epoch ++ putId s.nextSeq ++ putId s.nextDispatch

def writeSeqs (s : Fabric) : Bytes := putId s.seqs.entries.length ++ s.seqs.entries.flatMap fun e => writeSeq e.1 e.2

def writeTerminals (s : Fabric) : Bytes :=
  putId s.terminalRecords.entries.length ++ s.terminalRecords.entries.flatMap fun e => writeTerminal e.1 e.2

def writeGrants (s : Fabric) : Bytes :=
  putId s.grantLedger.entries.length ++ s.grantLedger.entries.flatMap fun e => writeGrant e.2

def snapshotBody (s : Fabric) : Bytes :=
  s.writeHeader ++ s.writeSeqs ++ s.writeTerminals ++ s.writeGrants ++ putId s.receiptCount

def serializeState (s : Fabric) : Bytes := s.snapshotBody ++ putU32 (checksum s.snapshotBody)

end Fabric

/-! Reading. -/

/-- The state a recovered sequence restarts in. The transition is a guarded one and its result is dropped. -/
def SequenceState.reconciled (restored : SequenceState) : SequenceState :=
  match restored with
  | dispatched | running | reserved | grouped | stepCompleted | cancelled | deadlineExpired => restored.move waiting
  | _ => restored

/-- A budget advanced token by token. -/
def TokenBudget.replayed (max generated : UInt64) : TokenBudget :=
  (fun b : TokenBudget => b.advanced 1)^[generated.toNat] { max }

def readAccepted : Reader Error AcceptedGeneration := do
  let ik ← u64 "accepted key"
  let ae ← id64 "accepted epoch"
  let aw ← id64 "accepted worker"
  let ab ← id64 "accepted boot"
  let sq ← id64 "accepted seq"
  let st2 ← id64 "accepted state"
  let a_at ← id64 "accepted attempt"
  let gn ← id64 "accepted gen"
  let di ← id64 "accepted dispatch"
  let cb ← u64 "accepted cb"
  let ca ← u64 "accepted ca"
  let pre ← u64 "accepted pre"
  let post ← u64 "accepted post"
  let dd ← u64 "accepted delta"
  let term ← flag "accepted terminal"
  let po ← flag "accepted promotion"
  return { idempotencyKey := ik, epoch := ae, worker := aw, workerBoot := ab, sequence := sq, state := st2,
           attempt := a_at, generation := gn, dispatch := di, committedPositionBefore := cb,
           committedPositionAfter := ca, preStateDigest := pre, postStateDigest := post, deltaDigest := dd,
           terminal := term, promotionObserved := po }

/-- One sequence record. What was in flight and what was reserved stays at its default. -/
def readSeq : Reader Error (SequenceId × Seq) := do
  let seq ← id64 "seq id"
  let rq ← id64 "req id"
  let att ← id64 "attempt"
  let t ← id64 "tenant"
  let md ← id64 "model"
  let rv ← id64 "revision"
  let pl ← u64 "prompt"
  let ml ← u64 "maxlen"
  let bg ← u64 "generated"
  let gen ← id64 "generation"
  let gen_t ← u64 "g"
  let comm ← u64 "c"
  let clen ← u64 "clen"
  let dl ← ns "deadline"
  let pr ← u32 "priority"
  let lc ← u8 "latency"
  let st ← u8 "state"
  let sid ← id64 "state id"
  let sg ← u64 "state gen"
  let bh ← u64 "bytes held"
  let eg ← u64 "est growth"
  let ot ← u64 "owner tag"
  let ac ← u32 "attempt count"
  let csd ← u64 "committed digest"
  let sde ← flag "digest established"
  let hac ← flag "accepted flag"
  let acc ← Reader.optional hac readAccepted {}
  return (seq,
    { req :=
        { id := rq, tenant := t, model := md, revision := rv, promptLength := pl, maxGenerationLength := ml
          deadline := dl, priority := pr, latencyClass := .ofByte lc }
      machine := (SequenceState.ofByte st).reconciled
      currentAttempt := att
      budget := .replayed ml bg
      generation := gen
      generated := gen_t
      committed := comm
      currentLength := clen
      state := { id := sid, generation := sg, bytesHeld := bh, estimatedGrowth := eg, ownerTag := ot }
      attemptCount := ac
      committedStateDigest := csd
      stateDigestEstablished := sde
      hasAccepted := hac
      accepted := acc })

def readTerminal : Reader Error (SequenceId × SequenceState) := do
  let tseq ← id64 "t seq"
  let tst ← u8 "t state"
  return (tseq, .ofByte tst)

def readReceipt : Reader Error MemberReceipt := do
  let ra ← id64 "receipt id"
  let rb ← id64 "receipt grant"
  let rc ← id64 "receipt proposal"
  let rd ← id64 "receipt epoch"
  let re ← id64 "receipt worker"
  let rf ← id64 "receipt boot"
  let rg ← id64 "receipt seq"
  let rh ← id64 "receipt state"
  let ri ← id64 "receipt attempt"
  let rj ← id64 "receipt gen"
  let rk ← id64 "receipt dispatch"
  let la ← u64 "receipt cb"
  let lb ← u64 "receipt ca"
  let lc ← u64 "receipt pre"
  let ld ← u64 "receipt post"
  let le ← u64 "receipt delta"
  let lf ← u8 "receipt kind"
  let lg ← flag "receipt terminal"
  let lh ← u32 "receipt token"
  let li ← ns "receipt active"
  let lj ← ns "receipt time"
  return { receiptId := ra, grantId := rb, proposal := rc, epoch := rd, worker := re, workerBoot := rf,
           sequence := rg, state := rh, attempt := ri, generation := rj, dispatch := rk,
           committedPositionBefore := la, committedPositionAfter := lb, preStateDigest := lc, postStateDigest := ld,
           deltaDigest := le, outcomeKind := .ofByte lf, terminal := lg, tokenIdentifier := lh, activeNs := li,
           committedAt := lj }

def readGrant : Reader Error GrantRecord := do
  let gid ← id64 "grant id"
  let pro ← id64 "grant proposal"
  let g_ep ← id64 "grant epoch"
  let wk ← id64 "grant worker"
  let wb ← id64 "grant boot"
  let sq ← id64 "grant seq"
  let st2 ← id64 "grant state"
  let att ← id64 "grant attempt"
  let gn ← id64 "grant generation"
  let di ← id64 "grant dispatch"
  let cp ← u64 "grant position"
  let pre ← u64 "grant pre"
  let post ← u64 "grant post"
  let dd ← u64 "grant delta"
  let kind ← u8 "grant ok"
  let term ← flag "grant term"
  let tok ← u32 "grant token"
  let an ← ns "grant active"
  let status ← u32 "grant status"
  let has_rec ← flag "grant has receipt"
  let receipt ← Reader.optional has_rec readReceipt {}
  return { grant :=
             { grantId := gid, proposal := pro, epoch := g_ep, worker := wk, workerBoot := wb, sequence := sq
               state := st2, attempt := att, generation := gn, dispatch := di, committedPosition := cp
               preStateDigest := pre, postStateDigest := post, deltaDigest := dd, outcomeKind := .ofByte kind
               terminal := term, tokenIdentifier := tok, activeNs := an }
           status := .recover status
           receipt := receipt
           hasReceipt := has_rec }

/-! Recovery. -/

/-- The counters a snapshot starts with. -/
structure SnapshotHeader where
  epoch : CoordinatorEpoch
  nextSeq : Nat
  nextDispatch : Nat

def readHeader : Reader Error SnapshotHeader := do
  let m0 ← u8 "missing magic"
  let m1 ← u8 "missing magic"
  let m2 ← u8 "missing magic"
  let m3 ← u8 "missing magic"
  Reader.failIf (m0 ≠ 68 ∨ m1 ≠ 70 ∨ m2 ≠ 83 ∨ m3 ≠ 84) ⟨.persistenceCorrupt, "bad magic"⟩
  let ver ← Reader.word 4 ⟨.persistenceUnknownVersion, "bad persistence version"⟩
  Reader.failIf (ver ≠ kPersistenceVersion.toNat) ⟨.persistenceUnknownVersion, "bad persistence version"⟩
  let epoch ← id64 "epoch"
  let nextSeq ← id64 "next_seq"
  let nextDispatch ← id64 "next_dispatch"
  return { epoch, nextSeq, nextDispatch }

/-- The trailer is there and is the checksum of what comes before it. -/
def checkTrailer (bytes : Bytes) : Except Error Unit :=
  if bytes.length < 5 then .error ⟨.persistenceTruncated, "state too short"⟩
  else if checksum (bytes.take (bytes.length - 4)) ≠ UInt32.ofNat (getLE (bytes.drop (bytes.length - 4))) then
    .error ⟨.persistenceChecksumMismatch, "state checksum mismatch"⟩
  else .ok ()

namespace Fabric

/-- The counters are taken over and the tables emptied. -/
def restart (h : SnapshotHeader) (s : Fabric) : Fabric :=
  { s with
    epoch := h.epoch
    nextSeq := h.nextSeq
    nextDispatch := h.nextDispatch
    seqs := .empty
    reqToSeq := .empty
    terminalRecords := .empty
    tenantActive := .empty }

/-- `emplace` keeps the entry a key already has. -/
def restoreSeq (s : Fabric) (e : SequenceId × Seq) : Fabric :=
  { s with
    seqs := if (s.seqs.find? e.1).isSome then s.seqs else s.seqs.insert e.1 e.2
    reqToSeq := s.reqToSeq.insert e.2.req.id e.1
    tenantActive := s.tenantActive.insert e.2.req.tenant (s.tenantActive.getD e.2.req.tenant 0 + 1) }

def restoreTerminal (s : Fabric) (e : SequenceId × SequenceState) : Fabric :=
  { s with terminalRecords := s.terminalRecords.insert e.1 e.2 }

def restoreGrant (s : Fabric) (gr : GrantRecord) : Fabric :=
  { s with grantLedger := s.grantLedger.insert gr.grant.grantId gr }

/-- The counters derived from the restored sequences. -/
def recount (s : Fabric) (receiptCount : Nat) : Fabric :=
  recordEvent
    { s with
      receiptCount := receiptCount
      stats := { s.stats with
        generatedTokens := s.seqs.total fun _ x => x.generated.toNat
        decodeSteps := s.seqs.total fun _ x => x.generation - 1
        sequencesStarted := s.seqs.entries.length
        requestsAdmitted := s.reqToSeq.entries.length } }
    .memoryReconciled 0 0 (text "recovered")

end Fabric

abbrev Recovery := Load Fabric Error

/-- The largest grant ledger recovery accepts. -/
def maxRecoveredGrants : Nat := 2 ^ 22

def recoverSeq : Recovery Unit := do
  let e ← Load.read readSeq
  Load.change (·.restoreSeq e)

def recoverSeqs : Recovery Unit := do
  let cnt ← Load.read (id64 "seq count")
  Load.times cnt recoverSeq

def recoverTerminal : Recovery Unit := do
  let e ← Load.read readTerminal
  Load.change (·.restoreTerminal e)

def recoverTerminals : Recovery Unit := do
  let tcnt ← Load.read (id64 "terminal count")
  Load.times tcnt recoverTerminal

def recoverGrant : Recovery Unit := do
  let gr ← Load.read readGrant
  Load.change (·.restoreGrant gr)

def recoverGrants : Recovery Unit := do
  Load.change fun s => { s with grantLedger := .empty, receiptCount := 0 }
  let gcnt ← Load.read (id64 "grant count")
  if gcnt > maxRecoveredGrants then Load.fail ⟨.persistenceInvalidField, "grant count too large"⟩
  else Load.times gcnt recoverGrant

def recoverReceiptCount : Recovery Unit := do
  let rcnt ← Load.read (id64 "receipt count")
  Load.change (·.recount rcnt)

/-- Everything after the counters. -/
def recoverTables : Recovery Unit := do
  recoverSeqs
  recoverTerminals
  recoverGrants
  recoverReceiptCount

def Fabric.recoverState (s : Fabric) (bytes : Bytes) : Fabric × Except Error Unit :=
  match checkTrailer bytes with
  | .error e => (s, .error e)
  | .ok () =>
    match readHeader.run bytes with
    | .error e => (s, .error e)
    | .ok (h, rest) =>
      let r := recoverTables.exec rest (s.restart h)
      (r.2, r.1.map fun _ => ())

/-! What the restoring steps keep, a recovery keeps, whether or not it succeeds. -/

section Upholds
variable {I : Fabric → Prop}

theorem recoverLedger_upholds (clear : ∀ t, I t → I { t with grantLedger := .empty, receiptCount := 0 })
    (restoreGrant : ∀ t gr, I t → I (t.restoreGrant gr)) (recount : ∀ t n, I t → I (t.recount n)) :
    Upholds I (recoverGrants >>= fun _ => recoverReceiptCount) := by
  have hgrant : Upholds I recoverGrant := (Upholds.read _).bind fun gr => Upholds.change fun t => restoreGrant t gr
  have hgrants : Upholds I recoverGrants := by
    refine (Upholds.change clear).bind fun _ => (Upholds.read _).bind fun n => ?_
    split
    · exact Upholds.fail _
    · exact Upholds.times hgrant n
  exact hgrants.bind fun _ => (Upholds.read _).bind fun n => Upholds.change fun t => recount t n

theorem recoverTables_upholds {Q : SequenceId × Seq → Prop} (hQ : Yields Q readSeq)
    (restoreSeq : ∀ t e, Q e → I t → I (t.restoreSeq e)) (restoreTerminal : ∀ t e, I t → I (t.restoreTerminal e))
    (hledger : Upholds I (recoverGrants >>= fun _ => recoverReceiptCount)) : Upholds I recoverTables := by
  have hseq : Upholds I recoverSeq := Upholds.read_bind hQ fun e he => Upholds.change fun t => restoreSeq t e he
  have hterminal : Upholds I recoverTerminal :=
    (Upholds.read _).bind fun e => Upholds.change fun t => restoreTerminal t e
  have hseqs : Upholds I recoverSeqs := (Upholds.read _).bind fun n => Upholds.times hseq n
  have hterminals : Upholds I recoverTerminals := (Upholds.read _).bind fun n => Upholds.times hterminal n
  exact hseqs.bind fun _ => hterminals.bind fun _ => hledger

end Upholds
end DecodeFabric
