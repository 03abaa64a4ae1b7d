import DecodeFabric.Core

/- The messages exchanged between the fabric and the executors, and the idempotency
   key of an accepted generation.

   A decode step is a transaction: a dispatch asks a worker to prepare it
   (`DecodeExecutionRequest`), the worker answers with what it prepared
   (`PreparedDecode`), the fabric grants or aborts each member (`CommitGrant`,
   `AbortPrepared`), and a commit comes back as a receipt (`ReceiptDecode`).
   `DecodeExecutionResult` is the older path without a transaction.

   Every field of a message is whatever the sender put there: nothing here relates
   the header of a `PreparedDecode` to its members, or a member to its own outcome. -/
namespace DecodeFabric

inductive MemberOutcomeKind where
  | stepSuccessContinue
  | stepSuccessTerminal
  | yielded
  | retryableFailure
  | nonRetryableFailure
  | cancelled
  | expired
  | staleAuthorityRejected
  | undeclared (extra : Fin 248)
  deriving DecidableEq

structure MemberOutcome where
  sequence : SequenceId := 0
  kind : MemberOutcomeKind := .stepSuccessContinue
  attempt : AttemptId := 0
  generation : DecodeGeneration := 0
  generated : UInt64 := 0
  tokenIdentifier : UInt64 := 0
  terminal : Bool := false
  errorCode : ErrorCode := .ok
  errorMessage : Bytes := []
  retryable : Bool := false
  startedAt : TimePoint := 0
  finishedAt : TimePoint := 0
  activeNs : Nanoseconds := 0
  kvBytesDelta : UInt64 := 0
  kvBytesAfter : UInt64 := 0

def MemberOutcome.succeeded (o : MemberOutcome) : Bool :=
  decide (o.kind = .stepSuccessContinue ∨ o.kind = .stepSuccessTerminal)

/-! Dispatching a step. -/

structure DecodeMemberSpec where
  sequence : SequenceId := 0
  attempt : AttemptId := 0
  generation : DecodeGeneration := 0
  state : StateDescriptor := {}
  currentLength : UInt64 := 0
  generatedTokens : UInt64 := 0
  remainingBudget : UInt64 := 0
  payload : Bytes := []

structure DecodeExecutionRequest where
  dispatchId : DispatchId := 0
  epoch : CoordinatorEpoch := 0
  worker : WorkerId := 0
  workerBoot : WorkerBootId := 0
  key : CompatibilityKey := {}
  device : DeviceDescriptor := {}
  reservationId : ReservationId := 0
  members : List DecodeMemberSpec := []
  groupPayload : Bytes := []
  deadlineHintNs : Nanoseconds := 0

structure DecodeExecutionResult where
  dispatchId : DispatchId := 0
  epoch : CoordinatorEpoch := 0
  worker : WorkerId := 0
  workerBoot : WorkerBootId := 0
  outcomes : List MemberOutcome := []
  groupActiveNs : Nanoseconds := 0
  groupError : ErrorCode := .ok
  groupErrorMessage : Bytes := []
  groupRetryable : Bool := false

/-! The prepare/commit transaction. -/

structure PreparedMember where
  sequence : SequenceId := 0
  state : StateId := 0
  attempt : AttemptId := 0
  generation : DecodeGeneration := 0
  dispatch : DispatchId := 0
  epoch : CoordinatorEpoch := 0
  worker : WorkerId := 0
  workerBoot : WorkerBootId := 0
  proposal : ProposalId := 0
  preStateDigest : UInt64 := 0
  postStateDigest : UInt64 := 0
  deltaDigest : UInt64 := 0
  outcome : MemberOutcome := {}
  committedPositionBefore : UInt64 := 0
  committedPositionAfter : UInt64 := 0
  activeNs : Nanoseconds := 0

def PreparedMember.isCommitEligible (pm : PreparedMember) : Bool := pm.outcome.succeeded

structure PreparedDecode where
  dispatchId : DispatchId := 0
  epoch : CoordinatorEpoch := 0
  worker : WorkerId := 0
  workerBoot : WorkerBootId := 0
  members : List PreparedMember := []
  groupActiveNs : Nanoseconds := 0
  groupError : ErrorCode := .ok
  groupErrorMessage : Bytes := []

structure CommitGrant where
  grantId : GrantId := 0
  proposal : ProposalId := 0
  epoch : CoordinatorEpoch := 0
  worker : WorkerId := 0
  workerBoot : WorkerBootId := 0
  sequence : SequenceId := 0
  state : StateId := 0
  attempt : AttemptId := 0
  generation : DecodeGeneration := 0
  dispatch : DispatchId := 0
  committedPosition : UInt64 := 0
  preStateDigest : UInt64 := 0
  postStateDigest : UInt64 := 0
  deltaDigest : UInt64 := 0
  outcomeKind : MemberOutcomeKind := .stepSuccessContinue
  terminal : Bool := false
  tokenIdentifier : UInt32 := 0
  activeNs : Nanoseconds := 0

structure MemberReceipt where
  receiptId : ReceiptId := 0
  grantId : GrantId := 0
  proposal : ProposalId := 0
  epoch : CoordinatorEpoch := 0
  worker : WorkerId := 0
  workerBoot : WorkerBootId := 0
  sequence : SequenceId := 0
  state : StateId := 0
  attempt : AttemptId := 0
  generation : DecodeGeneration := 0
  dispatch : DispatchId := 0
  committedPositionBefore : UInt64 := 0
  committedPositionAfter : UInt64 := 0
  preStateDigest : UInt64 := 0
  postStateDigest : UInt64 := 0
  deltaDigest : UInt64 := 0
  outcomeKind : MemberOutcomeKind := .stepSuccessContinue
  terminal : Bool := false
  tokenIdentifier : UInt32 := 0
  activeNs : Nanoseconds := 0
  committedAt : TimePoint := 0

structure ReceiptDecode where
  dispatchId : DispatchId := 0
  epoch : CoordinatorEpoch := 0
  worker : WorkerId := 0
  workerBoot : WorkerBootId := 0
  receipts : List MemberReceipt := []
  groupError : ErrorCode := .ok
  groupErrorMessage : Bytes := []

structure AbortPrepared where
  proposal : ProposalId := 0
  sequence : SequenceId := 0
  state : StateId := 0
  attempt : AttemptId := 0
  generation : DecodeGeneration := 0
  dispatch : DispatchId := 0
  epoch : CoordinatorEpoch := 0
  worker : WorkerId := 0
  workerBoot : WorkerBootId := 0

/-- The authority tuple a rejected or non-committing member is aborted under. -/
def PreparedMember.abortSpec (pm : PreparedMember) : AbortPrepared where
  proposal := pm.proposal
  sequence := pm.sequence
  state := pm.state
  attempt := pm.attempt
  generation := pm.generation
  dispatch := pm.dispatch
  epoch := pm.epoch
  worker := pm.worker
  workerBoot := pm.workerBoot

/-! Accepted generations and their idempotency key. -/

structure AcceptedGeneration where
  idempotencyKey : UInt64 := 0
  epoch : CoordinatorEpoch := 0
  worker : WorkerId := 0
  workerBoot : WorkerBootId := 0
  sequence : SequenceId := 0
  state : StateId := 0
  attempt : AttemptId := 0
  generation : DecodeGeneration := 0
  dispatch : DispatchId := 0
  committedPositionBefore : UInt64 := 0
  committedPositionAfter : UInt64 := 0
  preStateDigest : UInt64 := 0
  postStateDigest : UInt64 := 0
  deltaDigest : UInt64 := 0
  terminal : Bool := false
  promotionObserved : Bool := false

/-- One round of FNV-1a over a 64-bit word. -/
def fnvMix (h v : UInt64) : UInt64 := (h ^^^ v) * 1099511628211

/-- `acceptance_key_fields`: the words in the order the source mixes them. -/
def acceptanceKeyFields (ep wk wb seq st att gen disp pos : UInt64) : UInt64 :=
  [ep, wk, wb, seq, st, att, gen, disp, pos].foldl fnvMix 1469598103934665603

/-- The multiplier is odd, so multiplying by it loses nothing. -/
theorem fnvMix_inj {h h' v v' : UInt64} : fnvMix h v = fnvMix h' v' ↔ h ^^^ v = h' ^^^ v' := by
  refine ⟨fun heq => ?_, fun heq => by unfold fnvMix; rw [heq]⟩
  have hinverse : (1099511628211 : UInt64) * 14886173955864302971 = 1 := by decide
  have hcancel := congrArg (· * (14886173955864302971 : UInt64)) heq
  simpa only [fnvMix, UInt64.mul_assoc, hinverse, UInt64.mul_one] using hcancel

theorem fnvMix_left_inj {h h' v : UInt64} : fnvMix h v = fnvMix h' v ↔ h = h' :=
  fnvMix_inj.trans (UInt64.xor_left_inj v)

theorem fnvMix_right_inj {h v v' : UInt64} : fnvMix h v = fnvMix h v' ↔ v = v' :=
  fnvMix_inj.trans (UInt64.xor_right_inj h)

/-- No two dispatch ids give one identity the same key. -/
theorem acceptanceKeyFields_dispatch {ep wk wb seq st att gen disp disp' pos : UInt64}
    (h : acceptanceKeyFields ep wk wb seq st att gen disp pos = acceptanceKeyFields ep wk wb seq st att gen disp' pos) :
    disp = disp' := fnvMix_right_inj.mp (fnvMix_left_inj.mp h)

def MemberReceipt.acceptanceKey (r : MemberReceipt) : UInt64 :=
  acceptanceKeyFields (.ofNat r.epoch) (.ofNat r.worker) (.ofNat r.workerBoot) (.ofNat r.sequence)
    (.ofNat r.state) (.ofNat r.attempt) (.ofNat r.generation) (.ofNat r.dispatch) r.committedPositionBefore

def PreparedMember.acceptanceKey (pm : PreparedMember) : UInt64 :=
  acceptanceKeyFields (.ofNat pm.epoch) (.ofNat pm.worker) (.ofNat pm.workerBoot) (.ofNat pm.sequence)
    (.ofNat pm.state) (.ofNat pm.attempt) (.ofNat pm.generation) (.ofNat pm.dispatch)
    pm.committedPositionBefore

def makeAccepted (r : MemberReceipt) (promotionObserved : Bool) : AcceptedGeneration where
  idempotencyKey := r.acceptanceKey
  epoch := r.epoch
  worker := r.worker
  workerBoot := r.workerBoot
  sequence := r.sequence
  state := r.state
  attempt := r.attempt
  generation := r.generation
  dispatch := r.dispatch
  committedPositionBefore := r.committedPositionBefore
  committedPositionAfter := r.committedPositionAfter
  preStateDigest := r.preStateDigest
  postStateDigest := r.postStateDigest
  deltaDigest := r.deltaDigest
  terminal := r.terminal
  promotionObserved := promotionObserved

def receiptsMatch (a b : MemberReceipt) : Bool :=
  decide (a.receiptId = b.receiptId ∧ a.grantId = b.grantId ∧ a.proposal = b.proposal ∧
    a.sequence = b.sequence ∧ a.state = b.state ∧ a.attempt = b.attempt ∧ a.generation = b.generation ∧
    a.worker = b.worker ∧ a.workerBoot = b.workerBoot ∧ a.epoch = b.epoch ∧ a.dispatch = b.dispatch ∧
    a.committedPositionBefore = b.committedPositionBefore ∧
    a.committedPositionAfter = b.committedPositionAfter ∧
    a.preStateDigest = b.preStateDigest ∧ a.postStateDigest = b.postStateDigest)

/-- The fields `apply_commit_receipt` compares with the grant. The receipt's `worker`,
    `committed_position_after`, `delta_digest` and outcome metadata are not among them. -/
def receiptFitsGrant (r : MemberReceipt) (g : CommitGrant) : Bool :=
  decide (r.grantId = g.grantId ∧ r.proposal = g.proposal ∧ r.sequence = g.sequence ∧
    r.state = g.state ∧ r.attempt = g.attempt ∧ r.generation = g.generation ∧
    r.workerBoot = g.workerBoot ∧ r.epoch = g.epoch ∧ r.dispatch = g.dispatch ∧
    r.committedPositionBefore = g.committedPosition ∧
    r.preStateDigest = g.preStateDigest ∧ r.postStateDigest = g.postStateDigest)

end DecodeFabric
