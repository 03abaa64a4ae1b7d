import DecodeFabric.Schedule

/- The transactional protocol of the fabric: `apply_completion`, `authorize_prepared`,
   `apply_commit_receipt` and `abort_prepared`.

   Each message carries a list of members handled one after the other, every one against the
   state its predecessors left. The chain of checks a member runs through is a verdict function
   (`completionVerdict`, `prepareVerdict`, `receiptVerdict`), in the order of the source; what
   the fabric then does is one function per verdict.

   Two things to keep in mind when reading. A prepared member is checked with its own authority
   fields, but a grant is issued in the name of the message header. And the outcome inside a
   prepared member names a sequence of its own, which `applyNoncommitOutcome` uses for the
   reservation and the terminal record while the lifecycle of the member's sequence moves. -/
namespace DecodeFabric
open Lib DecodeFabric.Seq

/-! Changes to one sequence. -/

namespace Seq

/-- `stale_reconcile`, the reservation apart. -/
def reconcile (now : TimePoint) (x : Seq) : Seq :=
  { x with
    hasInflight := false
    inFlightDispatch := 0
    hasInflightGrant := false
    inFlightGrant := 0
    inFlightProposal := 0
    machine := if x.executing then (x.machine.move .stepCompleted).move .readyForNextToken else x.machine
    readyAt := if x.executing then now else x.readyAt }

def endDispatch (x : Seq) : Seq := { x with hasInflight := false, inFlightDispatch := 0 }

/-- The budget counted up again from zero to the committed tokens. -/
def rebuildBudget (x : Seq) : TokenBudget :=
  (fun b : TokenBudget => b.advanced 1)^[x.committed.toNat] { max := x.req.maxGenerationLength }

/-- Roll back to the last committed point. -/
def rollBack (x : Seq) : Seq := { x with generated := x.committed, budget := x.rebuildBudget }

/-- Record that the prepared member holds grant `gid`. -/
def holdGrant (gid : GrantId) (pm : PreparedMember) (x : Seq) : Seq :=
  { x with
    inFlightGrant := gid
    hasInflightGrant := true
    inFlightProposal := pm.proposal
    inFlightPosition := pm.committedPositionBefore }

/-- Advance by the one token of receipt `r`, finished at `fin`. -/
def commitToken (fin : TimePoint) (r : MemberReceipt) (x : Seq) : Seq :=
  { x with
    budget := x.budget.advanced 1
    generated := x.generated + 1
    committed := x.committed + 1
    currentLength := x.currentLength + 1
    generation := x.generation + 1
    lastTokenAt := fin
    committedStateDigest := r.postStateDigest
    stateDigestEstablished := true
    accepted := makeAccepted r true
    hasAccepted := true }

/-- Whether the sequence ends with receipt `r`, its token counted. -/
def endsWith (r : MemberReceipt) (x : Seq) : Bool := r.terminal || x.budget.exhausted

def settle (fin : TimePoint) (r : MemberReceipt) (x : Seq) : Seq :=
  if x.endsWith r then { x with machine := (x.machine.move .stepCompleted).move .completed }
  else { x with machine := (x.machine.move .stepCompleted).move .readyForNextToken, readyAt := fin }

def clearGrant (x : Seq) : Seq :=
  { x with hasInflightGrant := false, inFlightGrant := 0, inFlightProposal := 0 }

/-- `abort_prepared` on the sequence whose proposal is aborted, its reservation apart. The dispatch
    id stays recorded. -/
def abort (now : TimePoint) (x : Seq) : Seq :=
  { x with
    hasInflightGrant := false
    inFlightGrant := 0
    inFlightProposal := 0
    inFlightPosition := 0
    hasInflight := false
    machine := if x.executing then (x.machine.move .stepCompleted).move .waiting else x.machine
    readyAt := if x.executing then now else x.readyAt }

end Seq

/-! Changes to one ledger entry. -/

namespace GrantRecord

def consume (r : MemberReceipt) (gr : GrantRecord) : GrantRecord :=
  { gr with status := .consumed, receipt := r, hasReceipt := true }

def abort (gr : GrantRecord) : GrantRecord :=
  if gr.status = .pending then { gr with status := .aborted } else gr

end GrantRecord

namespace Fabric

def staleReconcile (s : Fabric) (q : SequenceId) : Fabric :=
  (s.releaseReservation q).modifySeq q (reconcile s.clock)

/-- The worker is registered under another boot than `boot`. -/
def bootMoved (s : Fabric) (worker : WorkerId) (boot : WorkerBootId) : Bool :=
  (s.workerCurrentBoot.find? worker).any (· ≠ boot)

/-! Outcomes that commit nothing. -/

/-- `apply_noncommit_outcome` on sequence `q` (found as `x`) for outcome `mo`, whose own
    `sequence` field need not be `q`. -/
def applyNoncommitOutcome (s : Fabric) (q : SequenceId) (x : Seq) (mo : MemberOutcome) : Fabric :=
  match mo.kind with
  | .yielded =>
    (s.modifySeq q fun y =>
      { (y.moveTo .stepCompleted).moveTo .yielded with readyAt := mo.finishedAt }).recordEvent
      .yielding x.req.id mo.sequence (text "yielded")
  | .retryableFailure =>
    let s := s.releaseReservation mo.sequence
    let s := s.modifySeq q fun y => if y.machine = .dispatched then y.moveTo .retryableFailure else y
    if x.attemptCount ≥ s.cfg.retryPolicy.maxAttempts then
      let s := s.modifySeq q (moveTo .nonRetryableFailure)
      let s := { s with
        terminalRecords := s.terminalRecords.insert mo.sequence .nonRetryableFailure
        stats := { s.stats with sequencesFailed := s.stats.sequencesFailed + 1 } }
      s.recordEvent .retryFailed x.req.id mo.sequence (text "retry_budget_exhausted")
    else
      let s := if s.cfg.retryPolicy.preserveCommittedTokens then s else s.modifySeq q rollBack
      let s := s.modifySeq q (beginAttempt s.mintAttempt s.clock)
      let s := { s with stats := { s.stats with retries := s.stats.retries + 1 } }
      s.recordEvent .retryStarted x.req.id mo.sequence (text "new_attempt")
  | .nonRetryableFailure =>
    let s := s.modifySeq q fun y => if y.machine = .dispatched then y.moveTo .nonRetryableFailure else y
    let s := s.releaseTenantSlot x.req.tenant
    let s := { s with
      stats := { s.stats with sequencesFailed := s.stats.sequencesFailed + 1 }
      terminalRecords := s.terminalRecords.insert mo.sequence .nonRetryableFailure }
    s.recordEvent .requestRejected x.req.id mo.sequence mo.errorMessage
  | .cancelled =>
    if x.machine.isTerminal then s
    else
      let s := (s.modifySeq q (moveTo .cancelled)).releaseTenantSlot x.req.tenant
      let s := { s with
        stats := s.stats.countCancelled
        terminalRecords := s.terminalRecords.insert mo.sequence .cancelled }
      s.recordEvent .sequenceCancelled x.req.id mo.sequence (text "backend_cancel")
  | .expired =>
    if x.machine.isTerminal then s
    else
      let s := (s.modifySeq q (moveTo .deadlineExpired)).releaseTenantSlot x.req.tenant
      let s := { s with
        stats := s.stats.countExpired
        terminalRecords := s.terminalRecords.insert mo.sequence .deadlineExpired }
      s.recordEvent .sequenceExpired x.req.id mo.sequence (text "backend_expired")
  | .stepSuccessContinue | .stepSuccessTerminal | .staleAuthorityRejected | .undeclared _ => s

/-- End the dispatch of `q` and apply a non-committing outcome. -/
def resolveNoncommit (s : Fabric) (q : SequenceId) (x : Seq) (mo : MemberOutcome) : Fabric :=
  ((s.modifySeq q endDispatch).releaseReservation q).applyNoncommitOutcome q x mo

/-! Completions. -/

inductive CompletionVerdict where
  /-- Rejected, the sequence untouched. -/
  | ignore (why : String)
  /-- Rejected, and the sequence is no longer in flight. -/
  | disown (why : String)
  /-- The outcome applies. -/
  | apply
  deriving DecidableEq

/-- The checks of `apply_completion`, most stale first. -/
def completionVerdict (s : Fabric) (result : DecodeExecutionResult) (x : Seq) (mo : MemberOutcome) :
    CompletionVerdict :=
  if result.epoch ≠ s.epoch then .disown "stale_epoch"
  else if s.bootMoved result.worker result.workerBoot then .ignore "stale_worker_boot"
  else if mo.attempt ≠ x.currentAttempt then .ignore "stale_attempt"
  else if mo.generation ≠ x.inFlightGeneration then .ignore "stale_generation"
  else if result.dispatchId ≠ x.inFlightDispatch then .ignore "stale_dispatch"
  else if x.machine.isTerminal then .ignore "completion_for_terminal"
  else if x.machine = .cancelRequested ∨ x.machine = .cancelled then .disown "completion_for_cancelled"
  else if x.machine = .deadlineExpired then .disown "completion_for_expired"
  else if mo.kind = .staleAuthorityRejected then .ignore "backend_rejected"
  else if mo.kind = .stepSuccessContinue ∨ mo.kind = .stepSuccessTerminal then
    .ignore "completion_without_receipt"
  else .apply

/-- One turn of `apply_completion`. -/
def applyOutcome (result : DecodeExecutionResult) (s : Fabric) (mo : MemberOutcome) : Fabric :=
  match s.seqs.find? mo.sequence with
  | none => s.rejectStale 0 mo.sequence "unknown_sequence"
  | some x =>
    match s.completionVerdict result x mo with
    | .ignore why => s.rejectStale x.req.id mo.sequence why
    | .disown why =>
      ((s.releaseReservation mo.sequence).modifySeq mo.sequence
        fun y => { y with hasInflight := false }).rejectStale x.req.id mo.sequence why
    | .apply => s.resolveNoncommit mo.sequence x mo

def applyCompletion (s : Fabric) (result : DecodeExecutionResult) : Fabric × Except Error Unit :=
  (result.outcomes.foldl (applyOutcome result) s, .ok ())

/-! Authorization. -/

/-- A refused member: the code and reason sent back, what is logged, and whether it is counted. -/
structure Rejection where
  code : ErrorCode
  reason : String
  event : Option String
  counted : Bool
  deriving DecidableEq

inductive PrepareVerdict where
  | reject (r : Rejection)
  | noncommit
  | grant
  deriving DecidableEq

/-- A counted stale rejection, logged as `event`. -/
def PrepareVerdict.stale (code : ErrorCode) (reason event : String) : PrepareVerdict :=
  .reject ⟨code, reason, some event, true⟩

/-- The checks of `authorize_prepared` on a member of a known sequence. -/
def prepareVerdict (s : Fabric) (x : Seq) (pm : PreparedMember) : PrepareVerdict :=
  if pm.epoch ≠ s.epoch then .stale .staleCoordinatorEpoch "stale_epoch" "stale_epoch"
  else if s.bootMoved pm.worker pm.workerBoot then .stale .staleWorkerBoot "stale_worker_boot" "stale_worker_boot"
  else if pm.attempt ≠ x.currentAttempt then .stale .staleAttempt "stale_attempt" "stale_attempt"
  else if pm.generation ≠ x.inFlightGeneration then
    .stale .staleDecodeGeneration "stale_generation" "stale_generation"
  else if pm.dispatch ≠ x.inFlightDispatch then .stale .duplicateCompletion "stale_dispatch" "stale_dispatch"
  else if x.machine.isTerminal then .stale .completionForTerminal "terminal" "completion_for_terminal"
  else if x.machine = .cancelRequested ∨ x.machine = .cancelled then
    .stale .completionForCancelled "cancelled" "completion_for_cancelled"
  else if x.machine = .deadlineExpired then .stale .completionForExpired "expired" "completion_for_expired"
  else if !pm.isCommitEligible then .noncommit
  else if x.hasAccepted ∧ x.accepted.idempotencyKey = pm.acceptanceKey then
    -- a replay of the accepted generation is logged but not counted as stale
    .reject ⟨.duplicateCompletion, "already-accepted generation reconciled idempotently",
      some "already_accepted_replay", false⟩
  else if x.hasInflightGrant then
    .reject ⟨.transactionConflict, "conflicting pending grant for sequence+generation", none, true⟩
  else if pm.committedPositionBefore ≠ x.generated then
    .reject ⟨.invalidArgument, "committed-position mismatch", none, true⟩
  else if x.stateDigestEstablished ∧ pm.preStateDigest ≠ x.committedStateDigest then
    .reject ⟨.stateDigestMismatch, "pre-state digest does not match committed executor state", none, true⟩
  else .grant

structure GrantOrAbort where
  hasGrant : Bool := false
  grant : CommitGrant := {}
  hasAbort : Bool := false
  abortSpec : AbortPrepared := {}
  proposal : ProposalId := 0
  aborted : Bool := false
  rejected : Bool := false
  errorCode : ErrorCode := .ok
  reason : String := ""
  outcome : MemberOutcome := {}

structure AuthorizeResult where
  dispatchId : DispatchId := 0
  epoch : CoordinatorEpoch := 0
  worker : WorkerId := 0
  workerBoot : WorkerBootId := 0
  members : List GrantOrAbort := []

/-- The answer a member gets unless it is granted: an abort of its own proposal. -/
def abortReply (pm : PreparedMember) : GrantOrAbort :=
  { proposal := pm.proposal, abortSpec := pm.abortSpec, hasAbort := true }

/-- The grant issued for `pm`: its authority is the header's, its transition the member's. -/
def makeGrant (gid : GrantId) (prepared : PreparedDecode) (pm : PreparedMember) : CommitGrant where
  grantId := gid
  proposal := pm.proposal
  epoch := prepared.epoch
  worker := prepared.worker
  workerBoot := prepared.workerBoot
  sequence := pm.sequence
  state := pm.state
  attempt := pm.attempt
  generation := pm.generation
  dispatch := pm.dispatch
  committedPosition := pm.committedPositionBefore
  preStateDigest := pm.preStateDigest
  postStateDigest := pm.postStateDigest
  deltaDigest := pm.deltaDigest
  outcomeKind := pm.outcome.kind
  terminal := pm.outcome.terminal
  tokenIdentifier := pm.outcome.tokenIdentifier.toUInt32
  activeNs := pm.activeNs

/-- Reconcile the sequence of a refused member, then count and log the refusal. -/
def rejectMember (s : Fabric) (q : SequenceId) (x : Seq) (r : Rejection) : Fabric :=
  let s := s.staleReconcile q
  let s := if r.counted then
    { s with stats := { s.stats with staleRejections := s.stats.staleRejections + 1 } } else s
  match r.event with
  | none => s
  | some why => s.recordEvent .staleRejected x.req.id q (text why)

/-- Enter a new pending grant and hand it to the sequence. -/
def issueGrant (s : Fabric) (prepared : PreparedDecode) (x : Seq) (pm : PreparedMember) : Fabric :=
  let gid := s.nextGrant
  let s := { s with
    nextGrant := s.nextGrant + 1
    grantLedger := s.grantLedger.insert gid { grant := makeGrant gid prepared pm } }
  (s.modifySeq pm.sequence (holdGrant gid pm)).recordEvent
    .reservationGranted x.req.id pm.sequence (text "commit_grant_issued")

/-- One turn of `authorize_prepared`. -/
def authorizeMember (prepared : PreparedDecode) (s : Fabric) (pm : PreparedMember) : Fabric × GrantOrAbort :=
  match s.seqs.find? pm.sequence with
  | none =>
    (s.rejectStale 0 pm.sequence "unknown_sequence",
      { abortReply pm with
        rejected := true, aborted := true, errorCode := .unknownSequence, reason := "unknown_sequence" })
  | some x =>
    match s.prepareVerdict x pm with
    | .reject r =>
      (s.rejectMember pm.sequence x r,
        { abortReply pm with rejected := true, aborted := true, errorCode := r.code, reason := r.reason })
    | .noncommit =>
      (s.resolveNoncommit pm.sequence x pm.outcome,
        { abortReply pm with aborted := true, outcome := pm.outcome })
    | .grant =>
      (s.issueGrant prepared x pm,
        { abortReply pm with hasGrant := true, grant := makeGrant s.nextGrant prepared pm, hasAbort := false })

def authorizePrepared (s : Fabric) (prepared : PreparedDecode) : Fabric × AuthorizeResult :=
  let (s, members) := scan (authorizeMember prepared) s prepared.members
  (s, { dispatchId := prepared.dispatchId
        epoch := prepared.epoch
        worker := prepared.worker
        workerBoot := prepared.workerBoot
        members })

/-! Receipts. -/

inductive ReceiptVerdict where
  | duplicate
  | reject (request : RequestId) (why : String)
  | finalize (x : Seq)

/-- The checks of `apply_commit_receipt`; a receipt that passes carries the sequence it finalizes. -/
def receiptVerdict (s : Fabric) (r : MemberReceipt) : ReceiptVerdict :=
  match s.grantLedger.find? r.grantId with
  | none => .reject 0 "unknown_grant"
  | some gr =>
    match gr.status with
    | .consumed =>
      if gr.hasReceipt ∧ receiptsMatch gr.receipt r then .duplicate
      else if (s.seqs.find? r.sequence).any (fun x =>
          x.hasAccepted && x.accepted.idempotencyKey == r.acceptanceKey && x.accepted.promotionObserved) then
        .duplicate
      else .reject 0 "conflicting_duplicate_receipt"
    | .aborted => .reject 0 "aborted_grant"
    | .pending =>
      if !receiptFitsGrant r gr.grant then .reject 0 "receipt_grant_mismatch"
      else
        match s.seqs.find? r.sequence with
        | none => .reject 0 "unknown_sequence"
        | some x =>
          if !x.hasInflightGrant ∨ x.inFlightGrant ≠ r.grantId ∨ x.inFlightProposal ≠ r.proposal then
            .reject x.req.id "grant_not_inflight"
          else if x.machine.isTerminal ∨ x.machine = .cancelRequested ∨ x.machine = .cancelled ∨
              x.machine = .deadlineExpired then
            .reject x.req.id "completion_for_terminal"
          else .finalize x

/-- The completed sequence leaves its tenant's active count. -/
def recordCompleted (s : Fabric) (q : SequenceId) (x : Seq) : Fabric :=
  let s := s.releaseTenantSlot x.req.tenant
  let s := { s with
    stats := { s.stats with sequencesCompleted := s.stats.sequencesCompleted + 1 }
    terminalRecords := s.terminalRecords.insert q .completed }
  s.recordEvent .sequenceCompleted x.req.id q (text "terminal")

/-- The time a receipt's token counts as finished. -/
def finishTime (s : Fabric) (r : MemberReceipt) : TimePoint :=
  if r.committedAt ≠ 0 then r.committedAt else s.clock

/-- Count the token of `r` for the service statistics and its tenant. -/
def countToken (s : Fabric) (x : Seq) (r : MemberReceipt) : Fabric :=
  let fin := s.finishTime r
  let s := { s with
    stats := { s.stats with
      decodeSteps := s.stats.decodeSteps + 1
      generatedTokens := s.stats.generatedTokens + 1
      totalActiveNs := s.stats.totalActiveNs + r.activeNs
      totalInterTokenNs :=
        if x.lastTokenAt ≠ 0 then s.stats.totalInterTokenNs + (fin - x.lastTokenAt)
        else s.stats.totalInterTokenNs } }
  (s.updateTenantTokens x.req.tenant 1).recordEvent .stepCompleted x.req.id r.sequence
    (text ("token " ++ toString (x.generated + 1).toNat))

/-- Close the transaction of receipt `r`: the grant is consumed, the sequence no longer in flight. -/
def closeTransaction (s : Fabric) (x : Seq) (r : MemberReceipt) : Fabric :=
  let q := r.sequence
  let s := { s with grantLedger := s.grantLedger.modify r.grantId (GrantRecord.consume r) }
  let s := ((s.modifySeq q endDispatch).releaseReservation q).modifySeq q clearGrant
  let s := { s with receiptCount := s.receiptCount + 1 }
  s.recordEvent .reservationReleased x.req.id q (text "receipt_consumed")

/-- Finalize exactly one generation of the receipt's sequence, found as `x`. -/
def finalize (s : Fabric) (x : Seq) (r : MemberReceipt) : Fabric :=
  let q := r.sequence
  let fin := s.finishTime r
  let s := (s.modifySeq q (commitToken fin r)).countToken x r
  let s := s.modifySeq q (settle fin r)
  let s := if (x.commitToken fin r).endsWith r then s.recordCompleted q x else s
  s.closeTransaction x r

/-- One turn of `apply_commit_receipt`. -/
def applyReceipt (s : Fabric) (r : MemberReceipt) : Fabric :=
  match s.receiptVerdict r with
  | .duplicate => s
  | .reject request why => s.rejectStale request r.sequence why
  | .finalize x => s.finalize x r

def applyCommitReceipt (s : Fabric) (receipts : ReceiptDecode) : Fabric × Except Error Unit :=
  (receipts.receipts.foldl applyReceipt s, .ok ())

/-! Aborts. -/

def abortPrepared (s : Fabric) (a : AbortPrepared) : Fabric × Except Error Unit :=
  match s.seqs.find? a.sequence with
  | none => (s, .ok ())
  | some x =>
    if x.hasInflightGrant ∧ x.inFlightProposal = a.proposal then
      let s := { s with
        grantLedger := s.grantLedger.modify x.inFlightGrant GrantRecord.abort }
      let s := (s.releaseReservation a.sequence).modifySeq a.sequence (abort s.clock)
      (s.recordEvent .staleRejected x.req.id a.sequence (text "aborted_prepared"), .ok ())
    else (s, .ok ())

end Fabric
end DecodeFabric
