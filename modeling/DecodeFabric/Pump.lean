import DecodeFabric.Backends

/- The synchronous pump: `pump_once` and `pump_until_idle`.

   A pump drives one executor, of any kind: it processes the boundaries, schedules, and takes every dispatch through
   prepare, authorize, commit or abort, and finalize before it turns to the next. The fabric and a CPU
   executor together are a `Host`. `authorize_prepared` has no failing path, so the branch for its failure is
   left out. The calls of one pump read one time; `took` is the time each preparation takes.

   `pumpUntilIdle` runs at most `fuel` cycles and returns nothing if that was not enough; `now` is the clock at
   each cycle. Between calls of the fabric's control operations the host takes the environment's steps, as the
   fabric does alone. -/
namespace DecodeFabric
open Lib

/-- What a failed preparation is reported as: a retryable failure of every member. -/
def DecodeMemberSpec.prepareFailure (m : DecodeMemberSpec) (e : Error) : MemberOutcome where
  sequence := m.sequence
  kind := .retryableFailure
  attempt := m.attempt
  generation := m.generation
  errorMessage := text e.message
  retryable := true

def Dispatch.prepareFailure (d : Dispatch) (e : Error) : DecodeExecutionResult where
  dispatchId := d.id
  epoch := d.epoch
  worker := d.worker
  workerBoot := d.workerBoot
  groupError := e.code
  groupErrorMessage := text e.message
  outcomes := d.members.map (·.prepareFailure e)

/-- What a pump starts with: the boundaries are processed and the next dispatches formed. -/
abbrev Fabric.round (s : Fabric) (tn : TimePoint) : Fabric × List Dispatch := (s.advance tn).1.schedule tn

namespace DecodeExecutor
variable {E : Type} (B : DecodeExecutor E)

/-- One turn of the commit loop: the receipt to be finalized, if there is one. -/
def resolveMember (tn : TimePoint) (ex : E) (ga : Fabric.GrantOrAbort) : E × Option MemberReceipt :=
  if ga.rejected ∨ ga.aborted ∨ !ga.hasGrant then
    (if ga.hasAbort then (B.abort ga.abortSpec ex).1 else ex, none)
  else
    match B.commit ga.grant ex with
    | (ex, .ok mr) => (ex, some { mr with committedAt := tn })
    | (ex, .error _) => (if ga.hasAbort then (B.abort ga.abortSpec ex).1 else ex, none)

/-- Commit or abort every member, and collect the receipts. -/
def resolveMembers (tn : TimePoint) (ex : E) (members : List Fabric.GrantOrAbort) : E × List MemberReceipt :=
  let (ex, receipts) := scan (B.resolveMember tn) ex members
  (ex, receipts.filterMap id)

/-- One dispatch of a pump. -/
def pumpDispatch (took : StepTimes) (tn : TimePoint) (p : Fabric × E) (d : Dispatch) :
    Fabric × E :=
  match B.prepare d.toRequest took p.2 with
  | (ex, .error e) => ((p.1.applyCompletion (d.prepareFailure e)).1, ex)
  | (ex, .ok prepared) =>
    let (s, auth) := p.1.authorizePrepared prepared
    let (ex, receipts) := B.resolveMembers tn ex auth.members
    let (s, _) := s.applyCommitReceipt
      { dispatchId := d.id, epoch := d.epoch, worker := d.worker, workerBoot := d.workerBoot, receipts }
    (s, ex)

def pumpOnce (took : Dispatch → StepTimes) (tn : TimePoint) (p : Fabric × E) :
    (Fabric × E) × List Dispatch :=
  let (s, ds) := p.1.round tn
  (ds.foldl (fun p d => B.pumpDispatch (took d) tn p d) (s, p.2), ds)

end DecodeExecutor

structure Host (N : Numerics) where
  fabric : Fabric
  executor : Executor N := {}

section
variable {N : Numerics}

namespace Host

def init (cfg : Config) (clock : TimePoint) : Host N := { fabric := Fabric.init cfg clock }

def exec (H : Host N) (o : Op) : Host N := { H with fabric := H.fabric.exec o }

def pumpDispatch (took : StepTimes) (tn : TimePoint) (H : Host N) (d : Dispatch) : Host N :=
  let (fabric, executor) := (cpuDecodeExecutor N).pumpDispatch took tn (H.fabric, H.executor) d
  { fabric, executor }

def pumpOnce (took : Dispatch → StepTimes) (tn : TimePoint) (H : Host N) :
    Host N × List Dispatch :=
  let ((fabric, executor), ds) := (cpuDecodeExecutor N).pumpOnce took tn (H.fabric, H.executor)
  ({ fabric, executor }, ds)

abbrev timed (H : Host N) (now : TimePoint) : Host N := { H with fabric := { H.fabric with clock := now } }

/-- Some sequence is in a state the scheduler takes candidates from. -/
def hasCandidate (H : Host N) : Bool := H.fabric.seqs.entries.any fun e => e.2.machine.isCandidate

/-- The loop of `pump_until_idle` from cycle `cycles` on. -/
def pumpUntilIdle (took : Nat → Dispatch → StepTimes) (now : Nat → TimePoint) (maxCycles : Int) :
    Nat → Nat → Host N → Option (Host N)
  | 0, _, _ => none
  | fuel + 1, cycles, H =>
    let H := H.timed (now cycles)
    let (H, ds) := H.pumpOnce (took cycles) (now cycles)
    if maxCycles > 0 ∧ (cycles + 1 : Int) ≥ maxCycles then some H
    else if !H.hasCandidate ∧ ds = [] then some H
    else if ds = [] ∧ H.hasCandidate then some H
    else pumpUntilIdle took now maxCycles fuel (cycles + 1) H

end Host

/-! Runs. -/

/-- The calls between pumps that execute nothing. -/
inductive Control where
  | submit (req : DecodeRequest)
  | cancel (q : SequenceId)
  | cancelRequest (r : RequestId)
  | retry (q : SequenceId)
  | advance (tn : TimePoint)
  | schedule (tn : TimePoint)
  | registerWorker (wd : WorkerDescriptor)
  | markWorkerDead (id : WorkerId)
  | rollEpoch

def Control.op : Control → Op
  | submit req => .submit req
  | cancel q => .cancel q
  | cancelRequest r => .cancelRequest r
  | retry q => .retry q
  | advance tn => .advance tn
  | schedule tn => .schedule tn
  | registerWorker wd => .registerWorker wd
  | markWorkerDead id => .markWorkerDead id
  | rollEpoch => .rollEpoch

inductive HostCall where
  | control (c : Control)
  | pump (took : Dispatch → StepTimes) (tn : TimePoint)
  | environment

inductive HostNext : Host N → HostCall → Host N → Prop
  | control (H : Host N) (c : Control) : HostNext H (.control c) (H.exec c.op)
  | pump (H : Host N) (took : Dispatch → StepTimes) (tn : TimePoint) :
      HostNext H (.pump took tn) (H.pumpOnce took tn).1
  | tick (H : Host N) (now : TimePoint) : HostNext H .environment (H.timed now)
  | rehash (H : Host N) (seqs : Table SequenceId Seq) (workers : Table WorkerId WorkerDescriptor) :
      seqs.Reorder H.fabric.seqs → workers.Reorder H.fabric.workers →
      HostNext H .environment { H with fabric := { H.fabric with seqs, workers } }

/-- `h` is a run of a new fabric with a new executor that ends in `H`. -/
def HostRunsTo (h : List (Edge (Host N) HostCall)) (H : Host N) : Prop :=
  ∃ (cfg : Config) (clock : TimePoint), Run HostNext (Host.init cfg clock) h H

end
end DecodeFabric
