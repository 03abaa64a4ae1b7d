import DecodeFabric.Lib.Table
import DecodeFabric.Messages

/- The fabric's internal state (`DecodeFabric::Impl`) and the helpers its operations share.

   Every `unordered_map` is a `Table`, whose entry order is the order loops visit it in. The
   clock is a field that only the environment moves, so one operation reads one time. The
   scheduler's score is a sum of `double`s that is only ever compared; it enters as an
   arbitrary function of the sequence and the tick, scaled to an integer.

   Left out: fields that are written and never read by the modelled operations (the derived
   rates in `Stats`, the copies of limits, `prev_group_members`), and the mutex.

   Correspondence (C++ ↔ Lean):
     `Impl::Seq`, `Impl::GrantRecord`, `Impl::DevMem` ↔ `Seq`, `GrantRecord`, `DevMem`
     `Impl::record_event`                             ↔ `Fabric.recordEvent`
     `Impl::release_reservation`                      ↔ `Fabric.releaseReservation`
     `Impl::key_for_model`                            ↔ `Fabric.keyForModel`
     `Impl::update_tenant_tokens`                     ↔ `Fabric.updateTenantTokens` -/
namespace DecodeFabric
open Lib

structure Seq where
  req : DecodeRequest
  machine : SequenceState := .admitted
  currentAttempt : AttemptId := 0
  budget : TokenBudget := { max := 0 }
  currentLength : UInt64 := 0
  generated : UInt64 := 0
  committed : UInt64 := 0
  generation : DecodeGeneration := 1
  inFlightDispatch : DispatchId := 0
  inFlightWorker : WorkerId := 0
  inFlightWorkerBoot : WorkerBootId := 0
  inFlightEpoch : CoordinatorEpoch := 0
  inFlightGeneration : DecodeGeneration := 0
  hasInflight : Bool := false
  committedStateDigest : UInt64 := 0
  stateDigestEstablished : Bool := false
  inFlightGrant : GrantId := 0
  hasInflightGrant : Bool := false
  inFlightProposal : ProposalId := 0
  inFlightPosition : UInt64 := 0
  accepted : AcceptedGeneration := {}
  hasAccepted : Bool := false
  reservation : ReservationId := 0
  state : StateDescriptor := {}
  attemptCount : UInt32 := 1
  arrival : TimePoint := 0
  readyAt : TimePoint := 0
  lastTokenAt : TimePoint := 0
  lastGroupedAt : TimePoint := 0
  lastDispatchedAt : TimePoint := 0
  everRan : Bool := false

structure DevMem where
  capacity : UInt64 := 0
  reserved : UInt64 := 0
  headroomFloor : UInt64 := 0

/-- Give `bytes` back, never below zero. -/
def DevMem.release (d : DevMem) (bytes : UInt64) : DevMem :=
  { d with reserved := if d.reserved ≥ bytes then d.reserved - bytes else 0 }

structure Reservation where
  id : ReservationId := 0
  group : DecodeGroupId := 0
  device : DeviceId := 0
  bytes : UInt64 := 0
  released : Bool := false
  madeAt : TimePoint := 0

/-- `GrantRecord::status`: 0 pending, 1 consumed, 2 aborted. -/
inductive GrantStatus where
  | pending
  | consumed
  | aborted
  deriving DecidableEq

structure GrantRecord where
  grant : CommitGrant := {}
  status : GrantStatus := .pending
  receipt : MemberReceipt := {}
  hasReceipt : Bool := false

inductive EventKind where
  | requestAdmitted
  | requestRejected
  | sequenceGrouped
  | dispatchIssued
  | stepCompleted
  | sequenceCompleted
  | sequenceCancelled
  | sequenceExpired
  | retryStarted
  | retryFailed
  | workerUp
  | workerDown
  | epochRolled
  | staleRejected
  | reservationGranted
  | reservationReleased
  | backpressureApplied
  | yielding
  | memoryReconciled
  deriving DecidableEq

structure Event where
  id : Nat
  time : TimePoint
  kind : EventKind
  request : RequestId
  sequence : SequenceId
  detail : Bytes

structure Stats where
  requestsAdmitted : Nat := 0
  sequencesStarted : Nat := 0
  sequencesCompleted : Nat := 0
  sequencesCancelled : Nat := 0
  sequencesExpired : Nat := 0
  sequencesFailed : Nat := 0
  decodeSteps : Nat := 0
  generatedTokens : Nat := 0
  dispatchIssued : Nat := 0
  totalActiveNs : Nanoseconds := 0
  totalInterTokenNs : Nanoseconds := 0
  cancellations : Nat := 0
  retries : Nat := 0
  staleRejections : Nat := 0
  deadlineMisses : Nat := 0

structure GroupLimits where
  maxSequences : UInt32 := 64
  /-- Configured, and not read by any operation. -/
  maxKvGrowthBytes : UInt64 := 0
  maxTenantShare : UInt32 := 0
  maxLatencyClass : LatencyClass := .bulk

structure FabricLimits where
  maxActiveSequences : UInt32 := 0
  /-- Configured, and not read by any operation. -/
  maxOutstandingTokens : UInt64 := 0
  memoryHeadroomBytes : UInt64 := 0

structure RetryPolicy where
  maxAttempts : UInt32 := 3
  preserveCommittedTokens : Bool := true

structure Config where
  groupLimits : GroupLimits := {}
  limits : FabricLimits := {}
  retryPolicy : RetryPolicy := {}
  eventCapacity : Nat := 16384
  /-- The composite scheduling score of a sequence at a tick. -/
  score : Seq → TimePoint → Int := fun _ _ => 0

structure Fabric where
  cfg : Config
  clock : TimePoint := 0
  epoch : CoordinatorEpoch := 1
  seqs : Table SequenceId Seq := .empty
  reqToSeq : Table RequestId SequenceId := .empty
  workers : Table WorkerId WorkerDescriptor := .empty
  devMem : Table DeviceId DevMem := .empty
  tenantTokens : Table TenantId UInt64 := .empty
  tenantActive : Table TenantId UInt32 := .empty
  terminalRecords : Table SequenceId SequenceState := .empty
  reservations : Table ReservationId Reservation := .empty
  events : List Event := []
  eventHead : Nat := 0
  stats : Stats := {}
  workerCurrentBoot : Table WorkerId WorkerBootId := .empty
  nextSeq : Nat := 1
  nextGroup : Nat := 1
  nextDispatch : Nat := 1
  nextReservation : Nat := 1
  nextGrant : Nat := 1
  grantLedger : Table GrantId GrantRecord := .empty
  receiptCount : Nat := 0

namespace Fabric

/-- A fabric as constructed. -/
def init (cfg : Config) (clock : TimePoint) : Fabric := { cfg, clock }

/-- Append to the event history, or overwrite the oldest entry once it is full. -/
def recordEvent (s : Fabric) (kind : EventKind) (request : RequestId) (sequence : SequenceId)
    (detail : Bytes) : Fabric :=
  { s with
    events :=
      if s.events.length < s.cfg.eventCapacity then
        s.events ++ [⟨s.events.length + 1, s.clock, kind, request, sequence, detail⟩]
      else s.events.set s.eventHead ⟨s.events.length + 1, s.clock, kind, request, sequence, detail⟩
    eventHead :=
      if s.events.length < s.cfg.eventCapacity then s.eventHead
      else (s.eventHead + 1) % s.cfg.eventCapacity }

/-- Mutate sequence `q` in place. -/
def modifySeq (s : Fabric) (q : SequenceId) (f : Seq → Seq) : Fabric :=
  { s with seqs := s.seqs.modify q f }

/-- Return the memory behind `x`'s reservation, if it is still on the books. -/
def freeReservation (s : Fabric) (q : SequenceId) (x : Seq) : Fabric :=
  match s.reservations.find? x.reservation with
  | none => s
  | some r =>
    if r.released then s
    else
      recordEvent
        { s with
          devMem := s.devMem.modify r.device (·.release r.bytes)
          reservations := s.reservations.erase x.reservation }
        .reservationReleased x.req.id q (text "released")

def releaseReservation (s : Fabric) (q : SequenceId) : Fabric :=
  match s.seqs.find? q with
  | none => s
  | some x =>
    if x.reservation = 0 then s
    else (s.freeReservation q x).modifySeq q fun y => { y with reservation := 0 }

/-- The first key, in enumeration order, of a worker that serves the request's model,
    revision and adapter on the device it asks for. -/
def keyForModel (s : Fabric) (req : DecodeRequest) : CompatibilityKey :=
  let served : Option CompatibilityKey := s.workers.entries.findSome? fun w =>
    if req.deviceConstraint ≠ 0 ∧ w.2.device.id ≠ req.deviceConstraint then none
    else w.2.supportedModels.find? fun mk =>
      decide (mk.model = req.model ∧ mk.revision = req.revision ∧ mk.adapter = req.adapter)
  served.getD {}

def addSaturating (v n : UInt64) : UInt64 :=
  if v > 0xFFFFFFFFFFFFFFFF - n then 0xFFFFFFFFFFFFFFFF else v + n

/-- `tenant_tokens[t] += by`, saturating. -/
def updateTenantTokens (s : Fabric) (t : TenantId) (n : UInt64) : Fabric :=
  { s with
    tenantTokens :=
      match s.tenantTokens.find? t with
      | none => s.tenantTokens.insert t n
      | some v => s.tenantTokens.insert t (addSaturating v n) }

/-- `tenant_active[t] = max(0u, tenant_active[t] - 1u)`; the maximum is vacuous on unsigned
    numbers, so the count wraps below zero. -/
def releaseTenantSlot (s : Fabric) (t : TenantId) : Fabric :=
  { s with tenantActive := s.tenantActive.insert t (max 0 (s.tenantActive.getD t 0 - 1)) }

/-- Count a stale rejection and log why. -/
def rejectStale (s : Fabric) (request : RequestId) (q : SequenceId) (why : String) : Fabric :=
  recordEvent { s with stats := { s.stats with staleRejections := s.stats.staleRejections + 1 } }
    .staleRejected request q (text why)

end Fabric
end DecodeFabric
