import DecodeFabric.System
import DecodeFabric.CpuExecutor

/- The fabric with its workers.

   `run_coordinator` puts the fabric behind connections: a worker process says Hello and is
   registered, the scheduling thread sends every dispatch to the connection its worker has then,
   and the handler of a connection answers each PreparedResult with grants and aborts on that
   same connection. `worker_main` prepares, commits and aborts as it is told and reports back.

   A `Peer` is one worker process with its two queues. Frames wait in the queues for any time, are
   handled in order and at most once, and may be lost. The scheduling thread sends after
   `schedule` has returned, so other calls may come between (`pending`). What is encoded is taken
   to be what is decoded. -/
namespace DecodeFabric
open Lib

inductive ToWorker where
  | executeRequest (req : DecodeExecutionRequest)
  | commitGrant (g : CommitGrant)
  | abortPrepared (a : AbortPrepared)

inductive ToCoordinator where
  | preparedResult (p : PreparedDecode)
  | commitReceipt (r : ReceiptDecode)

structure Peer (N : Numerics) where
  worker : WorkerId
  executor : Executor N := {}
  inbox : List ToWorker := []
  outbox : List ToCoordinator := []

structure Cluster (N : Numerics) where
  fabric : Fabric
  peers : Table Nat (Peer N) := .empty
  nextConn : Nat := 0
  /-- `g_worker_conns`: the connection a worker is reached on. -/
  conns : Table WorkerId Nat := .empty
  /-- Dispatches `schedule` returned that the scheduling thread has yet to send. -/
  pending : List Dispatch := []

section
variable {N : Numerics}

/-! The worker. -/

/-- The request a dispatch is sent as. -/
def Dispatch.toRequest (d : Dispatch) : DecodeExecutionRequest where
  dispatchId := d.id
  epoch := d.epoch
  worker := d.worker
  workerBoot := d.workerBoot
  key := d.key
  device := d.device
  reservationId := d.reservation
  members := d.members
  groupPayload := text d.key.toText

namespace Peer

/-- What a request is answered with; a preparation that failed is answered without members. -/
def prepareReply (req : DecodeExecutionRequest) : Except Error PreparedDecode → PreparedDecode
  | .ok prepared => prepared
  | .error e =>
    { dispatchId := req.dispatchId
      epoch := req.epoch
      worker := req.worker
      workerBoot := req.workerBoot
      groupError := e.code
      groupErrorMessage := text e.message }

/-- What a commit is answered with; a refused one is answered without a receipt. -/
def receiptReply (g : CommitGrant) (r : Except Error MemberReceipt) : ReceiptDecode where
  dispatchId := g.dispatch
  epoch := g.epoch
  worker := g.worker
  workerBoot := g.workerBoot
  receipts :=
    match r with
    | .ok mr => [{ mr with committedAt := 0 }]
    | .error _ => []

/-- One turn of the loop of `worker_main`. -/
def handle (took : StepTimes) (p : Peer N) : ToWorker → Peer N
  | .executeRequest req =>
    let (ex, result) := p.executor.prepare req took
    { p with executor := ex, outbox := p.outbox ++ [.preparedResult (prepareReply req result)] }
  | .commitGrant g =>
    let (ex, r) := p.executor.commit g
    { p with executor := ex, outbox := p.outbox ++ [.commitReceipt (receiptReply g r)] }
  | .abortPrepared a => { p with executor := (p.executor.abort a).1 }

def push (frames : List ToWorker) (p : Peer N) : Peer N := { p with inbox := p.inbox ++ frames }

end Peer

/-! The coordinator. -/

/-- The frames the members of an authorization are answered with. -/
def Fabric.AuthorizeResult.replies (a : AuthorizeResult) : List ToWorker :=
  a.members.filterMap fun ga =>
    if ga.hasGrant then some (.commitGrant ga.grant)
    else if ga.hasAbort then some (.abortPrepared ga.abortSpec)
    else none

inductive Action where
  | submit (req : DecodeRequest)
  | retry (q : SequenceId)
  | registerWorker (wd : WorkerDescriptor)
  | markWorkerDead (id : WorkerId)
  | rollEpoch
  /-- A worker process connects. -/
  | hello (wd : WorkerDescriptor)
  /-- The handler of connection `i` cannot read any more. -/
  | lost (i : Nat)
  | schedule (tn : TimePoint)
  /-- The scheduling thread sends the next dispatch. -/
  | send
  /-- Worker `i` handles its next frame. -/
  | work (i : Nat) (took : StepTimes)
  /-- The coordinator handles the next frame of connection `i`. -/
  | receive (i : Nat)
  /-- The next frame to, or from, worker `i` is lost. -/
  | loseInbox (i : Nat)
  | loseOutbox (i : Nat)

namespace Cluster

def init (cfg : Config) (clock : TimePoint) : Cluster N := { fabric := Fabric.init cfg clock }

def exec (C : Cluster N) (o : Op) : Cluster N := { C with fabric := C.fabric.exec o }

/-- The connection is entered whether or not the fabric accepts the descriptor. -/
def hello (C : Cluster N) (wd : WorkerDescriptor) : Cluster N :=
  { C.exec (.registerWorker wd) with
    peers := C.peers.insert C.nextConn { worker := wd.id }
    nextConn := C.nextConn + 1
    conns := C.conns.insert wd.id C.nextConn }

/-- The worker is marked dead and its entry erased, even if it has come back on another connection. -/
def lost (C : Cluster N) (p : Peer N) : Cluster N :=
  { C.exec (.markWorkerDead p.worker) with conns := C.conns.erase p.worker }

/-- Send `d` to the connection its worker has now, if it has one. -/
def sendDispatch (C : Cluster N) (d : Dispatch) : Cluster N :=
  match C.conns.find? d.worker with
  | none => C
  | some i => { C with peers := C.peers.modify i (Peer.push [.executeRequest d.toRequest]) }

/-- What the handler of connection `i` does with a frame. -/
def handle (C : Cluster N) (i : Nat) : ToCoordinator → Cluster N
  | .preparedResult p =>
    let (fabric, auth) := C.fabric.authorizePrepared p
    { C with fabric, peers := C.peers.modify i (Peer.push auth.replies) }
  | .commitReceipt r => C.exec (.applyCommitReceipt r)

/-- The cluster after an action; what has nothing to act on changes nothing. -/
def act (C : Cluster N) : Action → Cluster N
  | .submit req => C.exec (.submit req)
  | .retry q => C.exec (.retry q)
  | .registerWorker wd => C.exec (.registerWorker wd)
  | .markWorkerDead id => C.exec (.markWorkerDead id)
  | .rollEpoch => C.exec .rollEpoch
  | .hello wd => C.hello wd
  | .lost i =>
    match C.peers.find? i with
    | none => C
    | some p => C.lost p
  | .schedule tn => { C.exec (.schedule tn) with pending := C.pending ++ (C.fabric.schedule tn).2 }
  | .send =>
    match C.pending with
    | [] => C
    | d :: ds => ({ C with pending := ds } : Cluster N).sendDispatch d
  | .work i took =>
    { C with peers := C.peers.modify i fun p =>
        match p.inbox with
        | [] => p
        | f :: fs => ({ p with inbox := fs } : Peer N).handle took f }
  | .receive i =>
    match C.peers.find? i with
    | none => C
    | some p =>
      match p.outbox with
      | [] => C
      | f :: fs =>
        ({ C with peers := C.peers.modify i fun p => { p with outbox := fs } } : Cluster N).handle i f
  | .loseInbox i => { C with peers := C.peers.modify i fun p => { p with inbox := p.inbox.tail } }
  | .loseOutbox i => { C with peers := C.peers.modify i fun p => { p with outbox := p.outbox.tail } }

end Cluster

/-! Runs. -/

inductive ClusterCall where
  | act (a : Action)
  | environment

/-- Actions, and between them what the environment does to the fabric. -/
inductive ClusterNext : Cluster N → ClusterCall → Cluster N → Prop
  | act (C : Cluster N) (a : Action) : ClusterNext C (.act a) (C.act a)
  | tick (C : Cluster N) (now : TimePoint) :
      ClusterNext C .environment { C with fabric := { C.fabric with clock := now } }
  | rehash (C : Cluster N) (seqs : Table SequenceId Seq) (workers : Table WorkerId WorkerDescriptor) :
      seqs.Reorder C.fabric.seqs → workers.Reorder C.fabric.workers →
      ClusterNext C .environment { C with fabric := { C.fabric with seqs, workers } }

/-- `h` is a run of a new cluster that ends in `C`. -/
def ClusterRunsTo (h : List (Edge (Cluster N) ClusterCall)) (C : Cluster N) : Prop :=
  ∃ (cfg : Config) (clock : TimePoint), Run ClusterNext (Cluster.init cfg clock) h C

/-- The history of a list of actions. -/
def clusterTrace (C : Cluster N) : List Action → List (Edge (Cluster N) ClusterCall)
  | [] => []
  | a :: as => ⟨C, .act a, C.act a⟩ :: clusterTrace (C.act a) as

/-- The cluster after a list of actions. -/
def Cluster.actAll (C : Cluster N) (as : List Action) : Cluster N := as.foldl act C

theorem clusterTrace_run : ∀ (C : Cluster N) (as : List Action), Run ClusterNext C (clusterTrace C as) (C.actAll as)
  | C, [] => Run.nil C
  | C, a :: as => (Run.single (ClusterNext.act C a)).append (clusterTrace_run (C.act a) as)

end
/-! Numbers for concrete runs. -/

namespace Sample

/-- A stand-in recurrence: a step counts up, the checksum is the state itself. -/
def numerics : Numerics where
  Vec := UInt64
  initialState := fun σ a => UInt64.ofNat (σ + a)
  stepState := fun v => v + 1
  stateChecksum := fun v => v
  stepToken := fun v => v.toUInt32

def took : StepTimes := fun _ => 0

end Sample
end DecodeFabric
