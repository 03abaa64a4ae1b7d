import DecodeFabric.Lib.Run
import DecodeFabric.Control
import Mathlib.Data.List.Sort

/- Scheduling: `DecodeFabric::schedule` and the `Dispatch` it emits.

   A tick goes through four passes, each a loop of the source:
     1. `boundarySeq` over all sequences: expiry and requested cancellations;
     2. `collectSeq` over all sequences: candidates, with exhausted ones completed on the way;
     3. `formStep` over the candidates in score order: groups by key text, under the limits;
     4. `placeGroup` over the groups: worker, memory, reservation, dispatch.

   Passes 3 and 4 move members through Grouped, Reserved and Dispatched and ignore whether the
   lifecycle allows it. `stable_sort` is `insertionSort` for the source's comparison. -/
namespace DecodeFabric
open Lib DecodeFabric.Seq

/-- A formed group as handed to a worker. -/
structure Dispatch where
  id : DispatchId := 0
  group : DecodeGroupId := 0
  epoch : CoordinatorEpoch := 0
  worker : WorkerId := 0
  workerBoot : WorkerBootId := 0
  reservation : ReservationId := 0
  key : CompatibilityKey := {}
  device : DeviceDescriptor := {}
  issuedAt : TimePoint := 0
  members : List DecodeMemberSpec := []

def Dispatch.toText (d : Dispatch) : String :=
  "dispatch[id=" ++ toString d.id ++ ",group=" ++ toString d.group ++ ",epoch=" ++ toString d.epoch ++
  ",worker=" ++ toString d.worker ++ ",boot=" ++ toString d.workerBoot ++
  ",members=" ++ toString d.members.length ++ "]"

structure Candidate where
  seq : SequenceId
  key : CompatibilityKey
  score : Int

/-- Score descending, then sequence id ascending. -/
def Candidate.before (a b : Candidate) : Prop := a.score > b.score ∨ (a.score = b.score ∧ a.seq ≤ b.seq)

instance : DecidableRel Candidate.before := fun a b =>
  inferInstanceAs (Decidable (a.score > b.score ∨ (a.score = b.score ∧ a.seq ≤ b.seq)))

structure Formed where
  key : CompatibilityKey
  members : List SequenceId

/-! Changes to one sequence. -/

namespace Seq

def enterGroup (tn : TimePoint) (x : Seq) : Seq :=
  { x with machine := x.machine.move .grouped, lastGroupedAt := tn, readyAt := tn }

/-- Record dispatch `d` as the sequence's authority and move it towards Dispatched. -/
def dispatchUnder (d : Dispatch) (x : Seq) : Seq :=
  { x with
    inFlightDispatch := d.id
    inFlightWorker := d.worker
    inFlightWorkerBoot := d.workerBoot
    inFlightEpoch := d.epoch
    inFlightGeneration := x.generation
    hasInflight := true
    reservation := d.reservation
    lastDispatchedAt := d.issuedAt
    machine := (x.machine.move .reserved).move .dispatched
    everRan := true }

/-- A member of a group that leaves as dispatch `d`. -/
abbrev sent (tn : TimePoint) (d : Dispatch) (x : Seq) : Seq := (x.enterGroup tn).dispatchUnder d

/-- What the worker is told about member `q`. -/
def memberSpec (q : SequenceId) (x : Seq) : DecodeMemberSpec where
  sequence := q
  attempt := x.currentAttempt
  generation := x.generation
  state := x.state
  currentLength := x.currentLength
  generatedTokens := x.generated
  remainingBudget := x.budget.remaining
  payload := x.req.samplingMetadata

/-- The memory a member is charged for one step. -/
def growth (x : Seq) : UInt64 := if x.state.estimatedGrowth ≠ 0 then x.state.estimatedGrowth else 64

end Seq

namespace Fabric

/-! Pass 1. -/

def expireAt (tn : TimePoint) (s : Fabric) (q : SequenceId) (x : Seq) : Fabric :=
  if x.deadlineReached tn then (s.releaseReservation q).retire q x .deadlineExpired Stats.countExpired
  else s

def cancelIfRequested (s : Fabric) (q : SequenceId) (x : Seq) : Fabric :=
  if x.machine = .cancelRequested then (s.releaseReservation q).retire q x .cancelled Stats.countCancelled
  else s

/-- One turn of the deadline pass. Unlike `advance` it logs nothing and does not stop after an
    expiry, so the cancellation check reads the state the expiry left. -/
def boundarySeq (tn : TimePoint) (s : Fabric) (q : SequenceId) : Fabric :=
  match s.seqs.find? q with
  | none => s
  | some x =>
    if x.machine.isTerminal then s
    else
      let s := s.expireAt tn q x
      match s.seqs.find? q with
      | none => s
      | some x => s.cancelIfRequested q x

/-! Pass 2. -/

/-- A candidate without budget: recorded as completed, though no candidate state has an edge to Completed. -/
def completeExhausted (s : Fabric) (q : SequenceId) (x : Seq) : Fabric :=
  let s := (s.releaseReservation q).modifySeq q (moveTo .completed)
  let s := { s with
    terminalRecords := s.terminalRecords.insert q .completed
    stats := { s.stats with sequencesCompleted := s.stats.sequencesCompleted + 1 } }
  s.recordEvent .sequenceCompleted x.req.id q (text "budget_exhausted")

/-- One turn of the candidate loop. -/
def collectSeq (tn : TimePoint) (acc : Fabric × List Candidate) (q : SequenceId) : Fabric × List Candidate :=
  match acc.1.seqs.find? q with
  | none => acc
  | some x =>
    if !x.machine.isCandidate then acc
    else if x.budget.exhausted then (acc.1.completeExhausted q x, acc.2)
    else
      let k := acc.1.keyForModel x.req
      if !k.valid then acc
      else (acc.1, acc.2 ++ [⟨q, k, acc.1.cfg.score x tn⟩])

/-! Pass 3. -/

/-- The groups under construction; `groupIndex` finds a group by its key's text. -/
structure Forming where
  fabric : Fabric
  groupIndex : Table String Nat := .empty
  formed : List Formed := []

/-- The index of the group for `key`, opening it if need be. -/
def Forming.open (f : Forming) (key : CompatibilityKey) : Forming × Nat :=
  match f.groupIndex.find? key.toText with
  | some gi => (f, gi)
  | none =>
    ({ f with
        groupIndex := f.groupIndex.insert key.toText f.formed.length
        formed := f.formed ++ [⟨key, []⟩] }, f.formed.length)

/-- Whether the limits keep `x` out of the group. -/
def refusedByLimits (s : Fabric) (members : List SequenceId) (x : Seq) : Bool :=
  let lim := s.cfg.groupLimits
  let share := members.countP fun m => (s.seqs.find? m).any fun y => y.req.tenant = x.req.tenant
  decide (members ≠ [] ∧ members.length ≥ lim.maxSequences.toNat) ||
  decide (lim.maxTenantShare > 0 ∧ share ≥ lim.maxTenantShare.toNat) ||
  decide (lim.maxLatencyClass ≠ .bulk ∧ x.req.latencyClass.byte > lim.maxLatencyClass.byte)

/-- One turn of group formation. -/
def formStep (tn : TimePoint) (f : Forming) (c : Candidate) : Forming :=
  let (f, gi) := f.open c.key
  match f.fabric.seqs.find? c.seq, f.formed[gi]? with
  | some x, some g =>
    if f.fabric.refusedByLimits g.members x then f
    else
      { f with
        fabric := f.fabric.modifySeq c.seq (enterGroup tn)
        formed := f.formed.set gi { g with members := g.members ++ [c.seq] } }
  | _, _ => f

/-! Pass 4. -/

def supportsGroup (w : WorkerDescriptor) (key : CompatibilityKey) : Bool :=
  w.supportedModels.any fun mk =>
    decide (mk.model = key.model ∧ mk.revision = key.revision ∧ mk.device = key.device)

def eligible (w : WorkerDescriptor) (key : CompatibilityKey) : Bool :=
  decide (w.health = .healthy) && supportsGroup w key &&
  !decide (w.advertisedCapacity > 0 ∧ w.activeReservations ≥ w.advertisedCapacity)

/-- The first eligible worker with the fewest active reservations. -/
def chooseWorker (s : Fabric) (key : CompatibilityKey) : Option (WorkerId × WorkerDescriptor) :=
  s.workers.entries.foldl (fun chosen w =>
    if !eligible w.2 key then chosen
    else match chosen with
      | none => some w
      | some c => if w.2.activeReservations < c.2.activeReservations then some w else chosen) none

/-- Undo the grouping of a group that is not dispatched. -/
def ungroup (s : Fabric) (members : List SequenceId) : Fabric :=
  members.foldl (fun s m => s.modifySeq m (moveTo .ready)) s

def groupGrowth (s : Fabric) (members : List SequenceId) : UInt64 :=
  members.foldl (fun g m => g + ((s.seqs.find? m).map growth).getD 64) 0

/-- Whether device memory refuses a group of this growth. -/
def memoryRefused (dm : DevMem) (growth : UInt64) : Bool :=
  let headroom := if dm.capacity > dm.reserved then dm.capacity - dm.reserved else 0
  decide (dm.capacity > 0 ∧ (growth > headroom ∨ (dm.headroomFloor > 0 ∧ headroom < dm.headroomFloor)))

/-- Write the authority of `d` into member `m` and describe it for the worker. -/
def dispatchMember (d : Dispatch) (s : Fabric) (m : SequenceId) : Fabric × DecodeMemberSpec :=
  match s.seqs.find? m with
  | none => (s, {})
  | some x =>
    ((s.modifySeq m (dispatchUnder d)).recordEvent .sequenceGrouped x.req.id m (text "grouped"),
      x.memberSpec m)

/-- Take the reservation for a group and return the dispatch it is charged to, its members still to be filled in. -/
def openDispatch (tn : TimePoint) (s : Fabric) (g : Formed) (w : WorkerDescriptor) (growth : UInt64) :
    Fabric × Dispatch :=
  let dm := s.devMem.getD w.device.id {}
  let d : Dispatch :=
    { id := s.nextDispatch
      group := s.nextGroup
      epoch := s.epoch
      worker := w.id
      workerBoot := s.workerCurrentBoot.getD w.id 0
      reservation := s.nextReservation
      key := g.key
      device := w.device
      issuedAt := tn }
  let res : Reservation :=
    { id := s.nextReservation, group := s.nextGroup, device := w.device.id, bytes := growth, madeAt := tn }
  let s := { s with
    nextReservation := s.nextReservation + 1
    nextGroup := s.nextGroup + 1
    nextDispatch := s.nextDispatch + 1
    reservations := s.reservations.insert s.nextReservation res
    devMem := s.devMem.insert w.device.id { dm with reserved := dm.reserved + growth } }
  (s.recordEvent .reservationGranted 0 0 (text "group_reservation"), d)

/-- Dispatch a group to the chosen worker. -/
def dispatchGroup (tn : TimePoint) (s : Fabric) (g : Formed) (wk : WorkerId) (w : WorkerDescriptor)
    (growth : UInt64) : Fabric × Dispatch :=
  let (s, d) := s.openDispatch tn g w growth
  let (s, specs) := scan (dispatchMember d) s g.members
  let d := { d with members := specs }
  let s := { s with
    workers := s.workers.modify wk .charged
    stats := { s.stats with dispatchIssued := s.stats.dispatchIssued + 1 } }
  (s.recordEvent .dispatchIssued 0 0 (text d.toText), d)

/-- One turn of the placement loop. -/
def placeGroup (tn : TimePoint) (acc : Fabric × List Dispatch) (g : Formed) : Fabric × List Dispatch :=
  if g.members = [] then acc
  else
    match acc.1.chooseWorker g.key with
    | none => (acc.1.ungroup g.members, acc.2)
    | some (wk, w) =>
      let growth := acc.1.groupGrowth g.members
      if memoryRefused (acc.1.devMem.getD w.device.id {}) growth then
        ((acc.1.ungroup g.members).recordEvent .backpressureApplied 0 0 (text "memory_headroom"), acc.2)
      else
        let (s, d) := acc.1.dispatchGroup tn g wk w growth
        (s, acc.2 ++ [d])

/-! The four passes. -/

def boundaryPass (tn : TimePoint) (s : Fabric) : Fabric := s.seqs.keys.foldl (boundarySeq tn) s

def collectPass (tn : TimePoint) (s : Fabric) : Fabric × List Candidate :=
  s.seqs.keys.foldl (collectSeq tn) (s, [])

def formPass (tn : TimePoint) (s : Fabric) (cands : List Candidate) : Forming :=
  (cands.insertionSort Candidate.before).foldl (formStep tn) { fabric := s }

def placePass (tn : TimePoint) (f : Forming) : Fabric × List Dispatch :=
  f.formed.foldl (placeGroup tn) (f.fabric, [])

def schedule (s : Fabric) (tn : TimePoint) : Fabric × List Dispatch :=
  let (s, cands) := (s.boundaryPass tn).collectPass tn
  placePass tn (s.formPass tn cands)

end Fabric
end DecodeFabric
