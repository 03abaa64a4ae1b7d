import DecodeFabric.State

/- Admission, cancellation, retry, worker and epoch control, and boundary processing:
   `submit`, `cancel`, `cancel_request`, `retry`, `register_worker`, `mark_worker_dead`,
   `roll_epoch` and `advance`.

   Each operation takes the fabric and returns it with the operation's result. The result of
   a lifecycle transition is dropped everywhere, as in the source, so `SequenceState.move`
   stands for `transition_to`: a forbidden edge leaves the state as it is and the rest of the
   operation goes on. A loop over the sequences is a fold over the keys. -/
namespace DecodeFabric
open Lib DecodeFabric.Seq

/-! Changes to one sequence. -/

namespace Seq

def moveTo (st : SequenceState) (x : Seq) : Seq := { x with machine := x.machine.move st }

/-- The sequence `submit` builds for an accepted request. -/
def ofRequest (req : DecodeRequest) : Seq where
  req := req
  machine := (SequenceState.admitted.move .waiting).move .ready
  currentAttempt := if req.initialAttempt ≠ 0 then req.initialAttempt else req.id
  budget :=
    if req.pregenerated > 0 then TokenBudget.advanced { max := req.maxGenerationLength } req.pregenerated
    else { max := req.maxGenerationLength }
  generated := if req.pregenerated > 0 then req.pregenerated else 0
  committed := if req.pregenerated > 0 then req.pregenerated else 0
  currentLength := req.promptLength + (if req.pregenerated > 0 then req.pregenerated else 0)
  state := req.state
  arrival := req.arrival
  readyAt := req.arrival

/-- Mint a new attempt and make the sequence schedulable again. What was in flight stays recorded. -/
def beginAttempt (attempt : AttemptId) (now : TimePoint) (x : Seq) : Seq :=
  { x with
    currentAttempt := attempt
    attemptCount := x.attemptCount + 1
    machine := (x.machine.move .retrying).move .ready
    readyAt := now }

/-- A step is executing: the states `mark_worker_dead`, `stale_reconcile` and `abort_prepared` re-queue from. -/
def executing (x : Seq) : Bool := decide (x.machine = .dispatched ∨ x.machine = .running)

/-- `mark_worker_dead` on a sequence in flight on that worker, its reservation apart. -/
def workerDown (now : TimePoint) (x : Seq) : Seq :=
  { x with
    hasInflight := false
    machine := if x.executing then (x.machine.move .stepCompleted).move .waiting else x.machine
    readyAt := if x.machine.isTerminal then x.readyAt else now }

def deadlineReached (tn : TimePoint) (x : Seq) : Bool := decide (x.req.deadline ≠ 0 ∧ tn ≥ x.req.deadline)

end Seq

namespace Stats
def countCancelled (t : Stats) : Stats :=
  { t with cancellations := t.cancellations + 1, sequencesCancelled := t.sequencesCancelled + 1 }
def countExpired (t : Stats) : Stats :=
  { t with deadlineMisses := t.deadlineMisses + 1, sequencesExpired := t.sequencesExpired + 1 }
end Stats

/-! Results. -/

structure AdmissionDecision where
  admitted : Bool := false
  request : RequestId := 0
  sequence : SequenceId := 0
  reason : String := ""
  facts : List String := []

structure CancelResult where
  cancelled : Bool := false
  state : SequenceState := .admitted
  reason : String := ""

structure RetryResult where
  retried : Bool := false
  newAttempt : AttemptId := 0
  state : SequenceState := .admitted
  reason : String := ""

namespace Fabric

/-! Admission. -/

/-- `build_key`: stamp the arrival and rewrite the model identity to the key that serves it. -/
def buildKey (s : Fabric) (req : DecodeRequest) : DecodeRequest :=
  let req := if req.arrival = 0 then { req with arrival := s.clock } else req
  let k := s.keyForModel req
  { req with model := k.model, revision := k.revision, adapter := k.adapter }

def activeCount (s : Fabric) : Nat := s.seqs.entries.countP fun e => !e.2.machine.isTerminal

/-- Why admission is refused for load, if it is. The outstanding budget the source also sums is not read. -/
def backpressure (s : Fabric) (req : DecodeRequest) : Option String :=
  if s.cfg.limits.maxActiveSequences > 0 ∧ s.activeCount ≥ s.cfg.limits.maxActiveSequences.toNat then
    some "active_sequence_limit_reached"
  else if s.cfg.groupLimits.maxTenantShare > 0 ∧
      (s.tenantActive.find? req.tenant).any (· ≥ s.cfg.groupLimits.maxTenantShare) then
    some "tenant_limit_exceeded"
  else none

def refuse (s : Fabric) (kind : EventKind) (request : RequestId) (q : SequenceId) (reason fact : String) :
    Fabric × AdmissionDecision :=
  (s.recordEvent kind request q (text reason), { request, reason, facts := [fact] })

/-- Enter an accepted sequence under `id`. -/
def enrol (s : Fabric) (req : DecodeRequest) (id : SequenceId) : Fabric × AdmissionDecision :=
  let s := { s with
    seqs := if (s.seqs.find? id).isSome then s.seqs else s.seqs.insert id (ofRequest req)
    reqToSeq := s.reqToSeq.insert req.id id
    stats := { s.stats with
      requestsAdmitted := s.stats.requestsAdmitted + 1, sequencesStarted := s.stats.sequencesStarted + 1 }
    tenantActive := s.tenantActive.insert req.tenant (s.tenantActive.getD req.tenant 0 + 1) }
  (s.recordEvent .requestAdmitted req.id id (text "waiting"),
    { admitted := true, request := req.id, sequence := id, reason := "admitted", facts := ["state=ready"] })

def submit (s : Fabric) (inp : DecodeRequest) : Fabric × AdmissionDecision :=
  match inp.validate with
  | .error e => s.refuse .requestRejected inp.id 0 e.message "request_validation_failed"
  | .ok () =>
    let req := s.buildKey inp
    if req.model = 0 then
      s.refuse .requestRejected req.id 0 "unknown_model" "model_not_supported_by_any_worker"
    else
      match s.backpressure req with
      | some why => s.refuse .backpressureApplied req.id 0 why "backpressure_applied"
      | none =>
        if req.sequence ≠ 0 then
          if (s.seqs.find? req.sequence).isSome then
            s.refuse .requestRejected req.id req.sequence "duplicate_sequence_id" "duplicate_sequence"
          else s.enrol req req.sequence
        else { s with nextSeq := s.nextSeq + 1 }.enrol req s.nextSeq

/-! Cancellation. -/

/-- Take sequence `q` to terminal state `st`, its reservation and event apart: the tenant's slot is
    released, the end counted and recorded, whether or not the lifecycle allowed the move. -/
def retire (s : Fabric) (q : SequenceId) (x : Seq) (st : SequenceState) (count : Stats → Stats) : Fabric :=
  let s := (s.modifySeq q (moveTo st)).releaseTenantSlot x.req.tenant
  { s with stats := count s.stats, terminalRecords := s.terminalRecords.insert q st }

def cancel (s : Fabric) (q : SequenceId) : Fabric × CancelResult :=
  match s.seqs.find? q with
  | none => (s, { state := .admitted, reason := "unknown_sequence" })
  | some x =>
    if x.machine.isTerminal then (s, { state := x.machine, reason := "already_terminal" })
    else if x.machine = .cancelRequested then (s, { state := x.machine, reason := "already_cancelling" })
    else if x.machine = .dispatched ∨ x.machine = .running ∨ x.machine = .reserved ∨ x.machine = .grouped then
      (s.modifySeq q (moveTo .cancelRequested),
        { cancelled := true, state := x.machine.move .cancelRequested, reason := "cancel_requested" })
    else
      let s := (s.releaseReservation q).retire q x .cancelled Stats.countCancelled
      (s.recordEvent .sequenceCancelled x.req.id q (text "cancelled"),
        { cancelled := true, state := x.machine.move .cancelled, reason := "cancel_requested" })

def cancelRequest (s : Fabric) (r : RequestId) : Fabric × CancelResult :=
  match s.reqToSeq.find? r with
  | none => (s, { reason := "unknown_request" })
  | some q => s.cancel q

/-! Retry. -/

/-- The attempts of `q` are used up. -/
def exhaustRetries (s : Fabric) (q : SequenceId) (x : Seq) : Fabric :=
  let s := s.modifySeq q (moveTo .nonRetryableFailure)
  let s := { s with
    terminalRecords := s.terminalRecords.insert q .nonRetryableFailure
    stats := { s.stats with sequencesFailed := s.stats.sequencesFailed + 1 } }
  s.recordEvent .retryFailed x.req.id q (text "retry_budget_exhausted")

/-- The attempt id a retry mints now. -/
def mintAttempt (s : Fabric) : AttemptId := s.nextDispatch + 1000000

/-- Start a new attempt of `q`. -/
def startAttempt (s : Fabric) (q : SequenceId) (x : Seq) : Fabric :=
  let s := s.modifySeq q (beginAttempt s.mintAttempt s.clock)
  let s := { s with stats := { s.stats with retries := s.stats.retries + 1 } }
  s.recordEvent .retryStarted x.req.id q (text "new_attempt")

/-- Unless the policy preserves the tokens, a retry goes on from the committed ones. -/
def preserveTokens (s : Fabric) (q : SequenceId) : Fabric :=
  if s.cfg.retryPolicy.preserveCommittedTokens then s
  else s.modifySeq q fun y => { y with generated := y.committed }

def retry (s : Fabric) (q : SequenceId) : Fabric × RetryResult :=
  match s.seqs.find? q with
  | none => (s, { reason := "unknown_sequence" })
  | some x =>
    if x.machine = .retryableFailure ∨ x.machine = .running ∨ x.machine = .dispatched then
      let s := s.preserveTokens q
      if x.attemptCount ≥ s.cfg.retryPolicy.maxAttempts then
        (s.exhaustRetries q x, { reason := "retry_budget_exhausted" })
      else
        (s.startAttempt q x,
          { retried := true, newAttempt := s.mintAttempt, state := .ready, reason := "retried" })
    else (s, { reason := "not_retryable_now" })

/-! Workers and epochs. -/

def registerWorker (s : Fabric) (wd : WorkerDescriptor) : Fabric × Except Error Unit :=
  if !wd.valid then (s, .error ⟨.unknownWorker, "invalid worker descriptor"⟩)
  else
    let dm := s.devMem.getD wd.device.id {}
    let s := { s with
      workers := s.workers.insert wd.id wd
      workerCurrentBoot := s.workerCurrentBoot.insert wd.id wd.bootId
      devMem := s.devMem.insert wd.device.id
        { dm with
          capacity := max dm.capacity wd.device.memoryBytes
          headroomFloor := s.cfg.limits.memoryHeadroomBytes } }
    (s.recordEvent .workerUp 0 0 (text ("worker " ++ toString wd.id ++ " boot " ++ toString wd.bootId)), .ok ())

/-- One turn of the loop in `mark_worker_dead`. -/
def reconcileWorkerDown (id : WorkerId) (s : Fabric) (q : SequenceId) : Fabric :=
  match s.seqs.find? q with
  | none => s
  | some x =>
    if x.hasInflight ∧ x.inFlightWorker = id then
      (s.releaseReservation q).modifySeq q (workerDown s.clock)
    else s

def markWorkerDead (s : Fabric) (id : WorkerId) : Fabric × Except Error Unit :=
  let s := { s with workers := s.workers.modify id .down }
  let s := s.recordEvent .workerDown 0 0 (text ("worker " ++ toString id))
  (s.seqs.keys.foldl (reconcileWorkerDown id) s, .ok ())

def rollEpoch (s : Fabric) : Fabric × Except Error CoordinatorEpoch :=
  let s := { s with epoch := s.epoch + 1 }
  (s.recordEvent .epochRolled 0 0 (text ("epoch " ++ toString s.epoch)), .ok s.epoch)

/-! Boundary processing. -/

/-- One turn of the loop in `advance`: expiry first, then a requested cancellation. -/
def advanceSeq (tn : TimePoint) (s : Fabric) (q : SequenceId) : Fabric :=
  match s.seqs.find? q with
  | none => s
  | some x =>
    if x.machine.isTerminal then s
    else if x.deadlineReached tn then
      ((s.releaseReservation q).retire q x .deadlineExpired Stats.countExpired).recordEvent
        .sequenceExpired x.req.id q (text "deadline")
    else if x.machine = .cancelRequested then
      ((s.releaseReservation q).retire q x .cancelled Stats.countCancelled).recordEvent
        .sequenceCancelled x.req.id q (text "cancelled")
    else s

def advance (s : Fabric) (tn : TimePoint) : Fabric × Except Error Unit :=
  (s.seqs.keys.foldl (advanceSeq tn) s, .ok ())

end Fabric
end DecodeFabric
