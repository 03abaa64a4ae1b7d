import DecodeFabric.Lib.Run
import DecodeFabric.CpuExecutor

/- The CUDA executor.

   The same protocol as the CPU executor, written a second time. The committed and the tentative state of a sequence are
   device buffers; `inited` says that the committed one was allocated and filled, `has_tentative` that the tentative
   one holds a prepared step. `clear_tentative` frees the buffer and resets the fields that describe the step, all but
   the two digests. `commit` compares the position first and recomputes the digest of the committed buffer. The end-of-
   sequence rule is read from the payload of each request, not kept with the state.

   The kernel, its host mirror and the digest are parameters (`CudaNumerics`); the reconstruction loop runs on the host
   mirror. Every call of the CUDA runtime is taken to succeed. A buffer that was not allocated is `none`, and copying
   it to the host is an error. -/
namespace DecodeFabric
open Lib

/-- The numeric part: `initial_state`, `step_state_float`, the outputs of `df_decode_step_kernel` and `digest_dev`. -/
structure CudaNumerics where
  Vec : Type
  initialState : StateId → AttemptId → Vec
  stepStateFloat : Vec → Vec
  kernelStep : Vec → Vec
  kernelToken : Vec → UInt32
  kernelChecksum : Vec → UInt64
  digestDev : Vec → UInt64 → UInt64 → UInt64

structure DevState (C : CudaNumerics) where
  device : Option C.Vec := none
  tentative : Option C.Vec := none
  kvBytes : UInt64 := 0
  tokens : UInt64 := 0
  token : UInt32 := 0
  checksum : UInt64 := 0
  inited : Bool := false
  hasTentative : Bool := false
  preparedProposal : ProposalId := 0
  preparedAttempt : AttemptId := 0
  preparedGeneration : DecodeGeneration := 0
  preparedSequence : SequenceId := 0
  preparedWorker : WorkerId := 0
  preparedWorkerBoot : WorkerBootId := 0
  preparedEpoch : CoordinatorEpoch := 0
  preparedDispatch : DispatchId := 0
  tentativeKvBytes : UInt64 := 0
  tentativeToken : UInt32 := 0
  tentativeChecksum : UInt64 := 0
  preparedPreDigest : UInt64 := 0
  preparedPostDigest : UInt64 := 0

structure CudaExecutor (C : CudaNumerics) where
  states : Table StateId (DevState C) := .empty
  receiptsByGrant : Table GrantId MemberReceipt := .empty
  consumedProposals : Table ProposalId Bool := .empty
  nextProposal : Nat := 0

section
variable {C : CudaNumerics}

namespace DevState

/-- The first part of `ensure_initialized`. -/
def allocate (m : DecodeMemberSpec) (st : DevState C) : DevState C :=
  if st.inited then st
  else
    { st with
      device := some (C.initialState m.state.id m.attempt)
      kvBytes := m.state.bytesHeld
      tokens := 0
      token := 0
      checksum := 0
      inited := true }

/-- The reconstruction loop on a host copy, run at most `fuel` times. -/
def reconstruct (target : UInt64) : Nat → C.Vec → UInt64 → UInt64 → C.Vec × UInt64 × UInt64
  | 0, host, tokens, kvBytes => (host, tokens, kvBytes)
  | fuel + 1, host, tokens, kvBytes =>
    if tokens < target then reconstruct target fuel (C.stepStateFloat host) (tokens + 1) (kvBytes + kvDelta)
    else (host, tokens, kvBytes)

def ensureInitialized (m : DecodeMemberSpec) (st : DevState C) : DevState C × Except Error Unit :=
  let st := st.allocate m
  if st.tokens < m.generatedTokens then
    match st.device with
    | none => (st, .error ⟨.backendError, "cudaMemcpy reconstruction read failed"⟩)
    | some host =>
      let (host, tokens, kvBytes) :=
        reconstruct m.generatedTokens (m.generatedTokens.toNat - st.tokens.toNat) host st.tokens st.kvBytes
      ({ st with device := some host, tokens, kvBytes }, .ok ())
  else (st, .ok ())

/-- The digests of the step stay. -/
def clearTentative (st : DevState C) : DevState C :=
  { st with
    tentative := none
    hasTentative := false
    preparedProposal := 0
    preparedAttempt := 0
    preparedGeneration := 0
    preparedSequence := 0
    preparedWorker := 0
    preparedWorkerBoot := 0
    preparedEpoch := 0
    preparedDispatch := 0
    tentativeKvBytes := 0
    tentativeToken := 0
    tentativeChecksum := 0 }

/-- Why the step of `m` cannot be staged over the transition already prepared, if it cannot. -/
def prepareConflict (m : DecodeMemberSpec) (st : DevState C) : Option Error :=
  if st.hasTentative then
    if st.preparedAttempt = m.attempt ∧ st.preparedGeneration = m.generation then
      some ⟨.duplicateCompletion, "duplicate prepare for the same authoritative generation"⟩
    else if st.preparedAttempt ≠ m.attempt then none
    else some ⟨.transactionConflict, "prepare out of order: prior generation unresolved"⟩
  else none

/-- A transition that is not in the way, but there, is stale. -/
def clearStale (st : DevState C) : DevState C := if st.hasTentative then st.clearTentative else st

/-- The kernel has run on the committed buffer `host`, and its outputs are recorded under `proposal`. -/
def stage (proposal : ProposalId) (req : DecodeExecutionRequest) (m : DecodeMemberSpec) (host : C.Vec)
    (st : DevState C) :
    DevState C :=
  let next := C.kernelStep host
  { st with
    tentative := some next
    hasTentative := true
    preparedProposal := proposal
    preparedAttempt := m.attempt
    preparedGeneration := m.generation
    preparedSequence := m.sequence
    preparedWorker := req.worker
    preparedWorkerBoot := req.workerBoot
    preparedEpoch := req.epoch
    preparedDispatch := req.dispatchId
    tentativeKvBytes := st.kvBytes + kvDelta
    tentativeToken := C.kernelToken next
    tentativeChecksum := C.kernelChecksum next
    preparedPreDigest := C.digestDev host st.tokens st.kvBytes
    preparedPostDigest := C.digestDev next (st.tokens + 1) (st.kvBytes + kvDelta) }

/-- What `prepare` reports for `m`, its step staged from `st` in `ns` nanoseconds. -/
def preparedMember (proposal : ProposalId) (req : DecodeExecutionRequest) (m : DecodeMemberSpec) (ns : Nanoseconds)
    (host : C.Vec) (st : DevState C) : PreparedMember :=
  let next := C.kernelStep host
  let token := C.kernelToken next
  let pre := C.digestDev host st.tokens st.kvBytes
  let post := C.digestDev next (st.tokens + 1) (st.kvBytes + kvDelta)
  let eos := m.payload.head?.any fun b => b &&& 1 ≠ 0
  let eosTarget := (m.payload.getD 1 0).toUInt32
  let terminal : Bool := (eos && token == eosTarget) ||
    decide (m.generatedTokens + 1 ≥ m.generatedTokens + m.remainingBudget)
  { sequence := m.sequence
    state := m.state.id
    attempt := m.attempt
    generation := m.generation
    dispatch := req.dispatchId
    epoch := req.epoch
    worker := req.worker
    workerBoot := req.workerBoot
    proposal := proposal
    preStateDigest := pre
    postStateDigest := post
    deltaDigest := fnvMix pre post
    committedPositionBefore := st.tokens
    committedPositionAfter := st.tokens + 1
    activeNs := ns
    outcome :=
      { sequence := m.sequence
        kind := if terminal then .stepSuccessTerminal else .stepSuccessContinue
        attempt := m.attempt
        generation := m.generation
        generated := 1
        tokenIdentifier := token.toUInt64
        terminal := terminal
        finishedAt := ns
        activeNs := ns
        kvBytesDelta := kvDelta
        kvBytesAfter := st.kvBytes + kvDelta } }

/-- The transition staged in `st` is the one `g` was granted for. -/
def authorityMatches (st : DevState C) (g : CommitGrant) : Bool :=
  decide (st.preparedProposal = g.proposal ∧ st.preparedAttempt = g.attempt ∧ st.preparedGeneration = g.generation ∧
    st.preparedSequence = g.sequence ∧ st.preparedWorker = g.worker ∧ st.preparedWorkerBoot = g.workerBoot ∧
    st.preparedEpoch = g.epoch ∧ st.preparedDispatch = g.dispatch)

/-- The tentative buffer is copied over the committed one, and freed. -/
def promoted (st : DevState C) : DevState C :=
  clearTentative
    { st with
      device := st.tentative
      kvBytes := st.tentativeKvBytes
      tokens := st.tokens + 1
      token := st.tentativeToken
      checksum := st.tentativeChecksum }

end DevState

namespace CudaExecutor

def put (ex : CudaExecutor C) (σ : StateId) (st : DevState C) : CudaExecutor C :=
  { ex with states := ex.states.insert σ st }

def prepareMember (req : DecodeExecutionRequest) (ns : Nanoseconds) (ex : CudaExecutor C) (m : DecodeMemberSpec) :
    CudaExecutor C × Except Error PreparedMember :=
  match ((ex.states.find? m.state.id).getD {}).ensureInitialized m with
  | (st, .error e) => (ex.put m.state.id st, .error e)
  | (st, .ok ()) =>
    match st.prepareConflict m with
    | some e => (ex.put m.state.id st, .error e)
    | none =>
      let st := st.clearStale
      match st.device with
      | none => (ex.put m.state.id st, .error ⟨.backendError, "cudaMemcpy committed failed"⟩)
      | some host =>
        let proposal := ex.nextProposal + 1
        ({ ex.put m.state.id (st.stage proposal req m host) with nextProposal := proposal },
          .ok (st.preparedMember proposal req m ns host))

/-- The loop stops at the first member that fails, what was staged before staying staged. -/
def prepare (req : DecodeExecutionRequest) (took : StepTimes) (ex : CudaExecutor C) :
    CudaExecutor C × Except Error PreparedDecode :=
  match scanE (fun ex m => prepareMember req (took m) ex m) ex req.members with
  | (ex, .error e) => (ex, .error e)
  | (ex, .ok pms) =>
    (ex, .ok
      { dispatchId := req.dispatchId
        epoch := req.epoch
        worker := req.worker
        workerBoot := req.workerBoot
        members := pms
        groupActiveNs := (pms.map PreparedMember.activeNs).sum })

/-- The receipt of grant `g`, promoted from token count `before`; the digests are the grant's. -/
def receiptFor (g : CommitGrant) (before : UInt64) : MemberReceipt where
  receiptId := g.grantId
  grantId := g.grantId
  proposal := g.proposal
  epoch := g.epoch
  worker := g.worker
  workerBoot := g.workerBoot
  sequence := g.sequence
  state := g.state
  attempt := g.attempt
  generation := g.generation
  dispatch := g.dispatch
  committedPositionBefore := before
  committedPositionAfter := before + 1
  preStateDigest := g.preStateDigest
  postStateDigest := g.postStateDigest
  deltaDigest := g.deltaDigest
  outcomeKind := g.outcomeKind
  terminal := g.terminal
  tokenIdentifier := g.tokenIdentifier
  activeNs := g.activeNs

/-- Promote the transition staged in `st`, on grant `g`. -/
def promote (ex : CudaExecutor C) (g : CommitGrant) (st : DevState C) : CudaExecutor C :=
  { ex with
    states := ex.states.insert g.state st.promoted
    consumedProposals := ex.consumedProposals.insert g.proposal true
    receiptsByGrant := ex.receiptsByGrant.insert g.grantId (receiptFor g st.tokens) }

def commit (g : CommitGrant) (ex : CudaExecutor C) : CudaExecutor C × Except Error MemberReceipt :=
  match ex.receiptsByGrant.find? g.grantId with
  | some existing =>
    if receiptFitsGrant existing g then (ex, .ok existing)
    else (ex, .error ⟨.duplicateCompletion, "conflicting reuse of an already-consumed commit grant"⟩)
  | none =>
    match ex.states.find? g.state with
    | none => (ex, .error ⟨.unknownState, "no prepared transition for grant state"⟩)
    | some st =>
      if !st.hasTentative || st.tentative.isNone then
        (ex, .error ⟨.unknownState, "no prepared transition for grant state"⟩)
      else if !st.authorityMatches g then (ex, .error ⟨.supersededByRetry, "grant proposal/authority mismatch"⟩)
      else if st.tokens ≠ g.committedPosition then
        (ex, .error ⟨.invalidArgument, "grant committed-position mismatch"⟩)
      else
        match st.device with
        | none => (ex, .error ⟨.backendError, "cudaMemcpy committed failed"⟩)
        | some host =>
          if C.digestDev host st.tokens st.kvBytes ≠ g.preStateDigest ∨ st.preparedPreDigest ≠ g.preStateDigest then
            (ex, .error ⟨.stateDigestMismatch, "grant pre-state digest mismatch"⟩)
          else if st.preparedPostDigest ≠ g.postStateDigest then
            (ex, .error ⟨.stateDigestMismatch, "grant post-state digest mismatch"⟩)
          else (ex.promote g st, .ok (receiptFor g st.tokens))

def abort (a : AbortPrepared) (ex : CudaExecutor C) : CudaExecutor C × Except Error Unit :=
  match ex.consumedProposals.find? a.proposal with
  | some _ => (ex, .error ⟨.alreadyTerminal, "abort after commit"⟩)
  | none =>
    ({ ex with
        states := ex.states.modify a.state fun st =>
          if st.hasTentative && st.preparedProposal == a.proposal then st.clearTentative else st },
      .ok ())

def committedTokens (ex : CudaExecutor C) (σ : StateId) : UInt64 :=
  match ex.states.find? σ with
  | none => 0
  | some st => st.tokens

def hasPrepared (ex : CudaExecutor C) (σ : StateId) (proposal : ProposalId) : Bool :=
  match ex.states.find? σ with
  | none => false
  | some st => st.hasTentative && st.preparedProposal == proposal

end CudaExecutor
end
end DecodeFabric
