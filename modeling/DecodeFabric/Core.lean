import Mathlib.Data.List.Basic

/- Core vocabulary of the runtime: identifiers, errors, the sequence lifecycle,
   token budgets, compatibility keys, devices, workers and requests.

   Identifiers are 64-bit in the source and minted from counters that are taken not to
   wrap; here they are naturals, `0` being the null id. Token counts, positions,
   digests and byte amounts stay 64-bit and wrap as the source's do. Times are signed
   nanoseconds, kept as integers. A string that can come off the wire is its bytes.

   An enumeration that is decoded by a cast can hold a byte no enumerator names;
   `undeclared` stands for those bytes (its argument counts from the first free one).

   Correspondence (C++ ↔ Lean):
     `SequenceStateMachine::can_transition` / `transition_to` ↔ `canTransition` / `transitionTo`
     `detail::checked_add`, `TokenBudget::advance`            ↔ `checkedAdd`, `TokenBudget.advance`
     `CompatibilityKey::to_string`                            ↔ `CompatibilityKey.toText`
     `DecodeRequest::validate`                                ↔ `DecodeRequest.validate` -/
namespace DecodeFabric

abbrev RequestId := Nat
abbrev AttemptId := Nat
abbrev TenantId := Nat
abbrev ModelId := Nat
abbrev ModelRevision := Nat
abbrev AdapterId := Nat
abbrev SequenceId := Nat
abbrev DecodeGroupId := Nat
abbrev DispatchId := Nat
abbrev DecodeGeneration := Nat
abbrev StateId := Nat
abbrev DeviceId := Nat
abbrev WorkerId := Nat
abbrev WorkerBootId := Nat
abbrev CoordinatorEpoch := Nat
abbrev ReservationId := Nat
abbrev ProposalId := Nat
abbrev GrantId := Nat
abbrev ReceiptId := Nat

abbrev Nanoseconds := Int
abbrev TimePoint := Int
abbrev Bytes := List UInt8

/-- The bytes of a literal. -/
def text (s : String) : Bytes := s.toUTF8.toList

/-! Errors. -/

/-- `enum class ErrorCode : std::uint32_t`; the named codes are those the model's functions raise. -/
structure ErrorCode where
  value : UInt32
  deriving DecidableEq

namespace ErrorCode
def ok : ErrorCode := ⟨0⟩
def invalidArgument : ErrorCode := ⟨1⟩
def alreadyTerminal : ErrorCode := ⟨5⟩
def unknownWorker : ErrorCode := ⟨11⟩
def unknownSequence : ErrorCode := ⟨16⟩
def unknownState : ErrorCode := ⟨17⟩
def backpressure : ErrorCode := ⟨40⟩
def staleCoordinatorEpoch : ErrorCode := ⟨60⟩
def staleWorkerBoot : ErrorCode := ⟨61⟩
def staleAttempt : ErrorCode := ⟨62⟩
def staleDecodeGeneration : ErrorCode := ⟨63⟩
def duplicateCompletion : ErrorCode := ⟨65⟩
def completionForCancelled : ErrorCode := ⟨66⟩
def completionForExpired : ErrorCode := ⟨67⟩
def completionForTerminal : ErrorCode := ⟨68⟩
def supersededByRetry : ErrorCode := ⟨69⟩
def stateDigestMismatch : ErrorCode := ⟨73⟩
def transactionConflict : ErrorCode := ⟨74⟩
def backendError : ErrorCode := ⟨84⟩
def protocolMalformed : ErrorCode := ⟨90⟩
def protocolOversizedFrame : ErrorCode := ⟨91⟩
def protocolUnknownVersion : ErrorCode := ⟨93⟩
def protocolUnknownType : ErrorCode := ⟨94⟩
def protocolInvalidField : ErrorCode := ⟨95⟩
def persistenceCorrupt : ErrorCode := ⟨100⟩
def persistenceChecksumMismatch : ErrorCode := ⟨101⟩
def persistenceTruncated : ErrorCode := ⟨102⟩
def persistenceUnknownVersion : ErrorCode := ⟨103⟩
def persistenceIoError : ErrorCode := ⟨104⟩
def persistenceInvalidField : ErrorCode := ⟨105⟩
def overflow : ErrorCode := ⟨110⟩
def boundedLengthExceeded : ErrorCode := ⟨112⟩
end ErrorCode

structure Error where
  code : ErrorCode
  message : String
  deriving DecidableEq

/-! The sequence lifecycle. -/

inductive SequenceState where
  | admitted
  | waiting
  | ready
  | grouped
  | reserved
  | dispatched
  | running
  | stepCompleted
  | readyForNextToken
  | yielded
  | paused
  | cancelRequested
  | cancelled
  | deadlineExpired
  | retryableFailure
  | nonRetryableFailure
  | retrying
  | completed
  | staleSuperseded
  | undeclared (extra : Fin 237)
  deriving DecidableEq

namespace SequenceState

def name : SequenceState → String
  | admitted => "Admitted"
  | waiting => "Waiting"
  | ready => "Ready"
  | grouped => "Grouped"
  | reserved => "Reserved"
  | dispatched => "Dispatched"
  | running => "Running"
  | stepCompleted => "StepCompleted"
  | readyForNextToken => "ReadyForNextToken"
  | yielded => "Yielded"
  | paused => "Paused"
  | cancelRequested => "CancelRequested"
  | cancelled => "Cancelled"
  | deadlineExpired => "DeadlineExpired"
  | retryableFailure => "RetryableFailure"
  | nonRetryableFailure => "NonRetryableFailure"
  | retrying => "Retrying"
  | completed => "Completed"
  | staleSuperseded => "StaleSuperseded"
  | undeclared _ => "Unknown"

/-- Terminal states are absorbing. -/
def isTerminal : SequenceState → Bool
  | cancelled | deadlineExpired | nonRetryableFailure | completed | staleSuperseded => true
  | _ => false

/-- The states the scheduler takes candidates from. -/
def isCandidate : SequenceState → Bool
  | waiting | ready | readyForNextToken | yielded => true
  | _ => false

theorem live_of_isCandidate {st : SequenceState} (h : st.isCandidate = true) : st.isTerminal = false := by
  revert h
  cases st <;> simp [isCandidate, isTerminal]

/-- The edges `can_transition` lists for each state. -/
def successors : SequenceState → List SequenceState
  | admitted => [waiting, cancelled, deadlineExpired]
  | waiting => [ready, paused, cancelled, deadlineExpired]
  | ready => [grouped, waiting, yielded, paused, cancelled, deadlineExpired]
  | readyForNextToken => [grouped, waiting, yielded, paused, cancelled, deadlineExpired]
  | grouped => [reserved, ready, waiting, cancelled, deadlineExpired]
  | reserved => [dispatched, ready, waiting, cancelled, deadlineExpired]
  | dispatched => [running, stepCompleted, cancelRequested, cancelled, deadlineExpired, staleSuperseded,
      retryableFailure, nonRetryableFailure, retrying]
  | running => [stepCompleted, completed, nonRetryableFailure, retryableFailure, retrying, cancelled,
      deadlineExpired, staleSuperseded]
  | stepCompleted => [readyForNextToken, completed, cancelled, deadlineExpired, nonRetryableFailure,
      retryableFailure, retrying, staleSuperseded, waiting]
  | yielded => [ready, waiting, paused, cancelled, deadlineExpired]
  | paused => [ready, waiting, cancelled, deadlineExpired]
  | cancelRequested => [cancelled, deadlineExpired, completed]
  | retryableFailure => [retrying]
  | retrying => [ready, cancelled, deadlineExpired]
  | cancelled | deadlineExpired | nonRetryableFailure | completed | staleSuperseded | undeclared _ => []

def canTransition (src dst : SequenceState) : Bool :=
  if src = dst then false
  else if src.isTerminal then false
  else decide (dst ∈ src.successors)

/-- `transition_to`: the new state, or an error that leaves the machine as it is. -/
def transitionTo (src next : SequenceState) : Except Error SequenceState :=
  if canTransition src next then .ok next
  else .error ⟨.invalidArgument, "invalid transition " ++ src.name ++ " -> " ++ next.name⟩

/-- The machine's state after a `transition_to` whose result the caller drops, as
    every caller in the runtime does. -/
def move (src next : SequenceState) : SequenceState :=
  match src.transitionTo next with
  | .ok st => st
  | .error _ => src

theorem move_eq (src next : SequenceState) : src.move next = if canTransition src next then next else src := by
  unfold move transitionTo
  by_cases h : canTransition src next = true <;> simp [h]

/-- Of a candidate grouping, placement and dispatch make no ended sequence. -/
theorem candidate_moves {st : SequenceState} (h : st.isCandidate = true) :
    (st.move .grouped).isTerminal = false ∧ ((st.move .grouped).move .ready).isTerminal = false ∧
      (((st.move .grouped).move .reserved).move .dispatched).isTerminal = false := by
  cases st <;> first | decide | cases h

end SequenceState

/-! Token budgets. -/

/-- `b > UINT64_MAX - a` is an overflow; the difference cannot wrap, so it is taken in the naturals. -/
def checkedAdd (a b : UInt64) : Except Error UInt64 :=
  if b.toNat > (UInt64.size - 1) - a.toNat then .error ⟨.overflow, "token counter overflow"⟩ else .ok (a + b)

structure TokenBudget where
  max : UInt64
  generated : UInt64 := 0
  deriving DecidableEq

namespace TokenBudget

def remaining (b : TokenBudget) : UInt64 := if b.generated ≥ b.max then 0 else b.max - b.generated
def exhausted (b : TokenBudget) : Bool := decide (b.generated ≥ b.max)

def advance (b : TokenBudget) (n : UInt64) : Except Error TokenBudget := do
  let next ← checkedAdd b.generated n
  if next > b.max then .error ⟨.backpressure, "generation budget exhausted"⟩
  else .ok { b with generated := next }

/-- The budget after an `advance` whose result is dropped. -/
def advanced (b : TokenBudget) (n : UInt64) : TokenBudget :=
  match b.advance n with
  | .ok b' => b'
  | .error _ => b

end TokenBudget

/-! Compatibility keys. -/

inductive BackendKind where
  | cpu
  | cuda
  | undeclared (extra : Fin 254)
  deriving DecidableEq

def BackendKind.name : BackendKind → String
  | cpu => "cpu"
  | cuda => "cuda"
  | undeclared _ => "unknown_backend"

inductive DType where
  | invalid
  | f32
  | f16
  | bf16
  | f64
  | i32
  | i64
  | u8
  | undeclared (extra : Fin 248)
  deriving DecidableEq

def DType.name : DType → String
  | invalid => "invalid"
  | f32 => "f32"
  | f16 => "f16"
  | bf16 => "bf16"
  | f64 => "f64"
  | i32 => "i32"
  | i64 => "i64"
  | u8 => "u8"
  | undeclared _ => "unknown_dtype"

structure CompatibilityKey where
  model : ModelId := 0
  revision : ModelRevision := 0
  adapter : AdapterId := 0
  backend : BackendKind := .cpu
  device : DeviceId := 0
  dtype : DType := .f32
  tensorLayout : UInt32 := 0
  kvRepresentation : UInt32 := 0
  sequenceRequirements : UInt32 := 0
  operatorPolicy : UInt32 := 0
  deriving DecidableEq

namespace CompatibilityKey

def valid (k : CompatibilityKey) : Bool := decide (k.model ≠ 0 ∧ k.device ≠ 0)

/-- The canonical text groups are keyed by. -/
def toText (k : CompatibilityKey) : String :=
  "model=" ++ toString k.model ++ ":rev=" ++ toString k.revision ++ ":adapter=" ++ toString k.adapter ++
  ":backend=" ++ k.backend.name ++ ":device=" ++ toString k.device ++ ":dtype=" ++ k.dtype.name ++
  ":layout=" ++ toString k.tensorLayout.toNat ++ ":kv=" ++ toString k.kvRepresentation.toNat ++
  ":seq=" ++ toString k.sequenceRequirements.toNat ++ ":op=" ++ toString k.operatorPolicy.toNat

end CompatibilityKey

/-! Devices, workers and executor state descriptors. -/

structure DeviceDescriptor where
  id : DeviceId := 0
  backend : BackendKind := .cpu
  name : Bytes := []
  computeCapabilityMajor : UInt32 := 0
  computeCapabilityMinor : UInt32 := 0
  memoryBytes : UInt64 := 0
  supportedDtypes : UInt32 := 0
  maxGroupsConcurrent : UInt32 := 0

inductive WorkerHealth where
  | unknown
  | healthy
  | degraded
  | failed
  | undeclared (extra : Fin 252)
  deriving DecidableEq

structure WorkerDescriptor where
  id : WorkerId := 0
  bootId : WorkerBootId := 0
  device : DeviceDescriptor := {}
  health : WorkerHealth := .healthy
  advertisedCapacity : UInt64 := 0
  activeReservations : UInt64 := 0
  supportedModels : List CompatibilityKey := []
  generation : UInt64 := 0

def WorkerDescriptor.valid (w : WorkerDescriptor) : Bool := decide (w.id ≠ 0 ∧ w.bootId ≠ 0)

/-- One more dispatch. -/
abbrev WorkerDescriptor.charged (w : WorkerDescriptor) : WorkerDescriptor :=
  { w with activeReservations := w.activeReservations + 1 }

abbrev WorkerDescriptor.down (w : WorkerDescriptor) : WorkerDescriptor :=
  { w with health := .failed, activeReservations := 0 }

structure StateDescriptor where
  id : StateId := 0
  generation : UInt64 := 0
  device : DeviceId := 0
  bytesHeld : UInt64 := 0
  estimatedGrowth : UInt64 := 0
  ownerTag : UInt64 := 0
  accessVersion : UInt64 := 0

/-! Requests. -/

inductive LatencyClass where
  | none
  | realTime
  | interactive
  | standard
  | bulk
  | undeclared (extra : Fin 251)
  deriving DecidableEq

/-- The underlying byte, which `>` on the enumeration compares. -/
def LatencyClass.byte : LatencyClass → Nat
  | none => 0
  | realTime => 1
  | interactive => 2
  | standard => 3
  | bulk => 4
  | undeclared i => 5 + i

/-- A `double` by its IEEE-754 bits. -/
structure Binary64 where
  bits : UInt64
  deriving DecidableEq

/-- `x > 0.0`: the bits of the positive numbers and of `+inf`. -/
def Binary64.positive (x : Binary64) : Bool := decide (0 < x.bits ∧ x.bits ≤ 0x7FF0000000000000)

structure DecodeRequest where
  id : RequestId := 0
  initialAttempt : AttemptId := 0
  tenant : TenantId := 0
  model : ModelId := 0
  revision : ModelRevision := 0
  adapter : AdapterId := 0
  sequence : SequenceId := 0
  promptLength : UInt64 := 0
  maxGenerationLength : UInt64 := 0
  pregenerated : UInt64 := 0
  priority : UInt32 := 0
  tenantWeight : Binary64 := ⟨0x3FF0000000000000⟩
  latencyClass : LatencyClass := .standard
  deadline : TimePoint := 0
  arrival : TimePoint := 0
  perTokenTargetNs : Nanoseconds := 0
  estimatedKvGrowthPerToken : UInt64 := 0
  deviceConstraint : DeviceId := 0
  samplingMetadata : Bytes := []
  state : StateDescriptor := {}

def DecodeRequest.validRequestId (r : DecodeRequest) : Bool :=
  decide (r.id ≠ 0 ∧ r.sequence ≠ 0 ∧ r.tenant ≠ 0 ∧ r.model ≠ 0 ∧ r.revision ≠ 0)

def DecodeRequest.validate (r : DecodeRequest) : Except Error Unit :=
  if !r.validRequestId then
    .error ⟨.invalidArgument, "request/sequence/tenant/model/revision id invalid"⟩
  else if r.maxGenerationLength = 0 then
    .error ⟨.invalidArgument, "maximum generation length must be > 0"⟩
  else if r.pregenerated > r.maxGenerationLength then
    .error ⟨.invalidArgument, "pregenerated exceeds maximum generation length"⟩
  else if !r.tenantWeight.positive then
    .error ⟨.invalidArgument, "tenant weight must be positive"⟩
  else .ok ()

end DecodeFabric
