import DecodeFabric.Transaction

/- The fabric as a transition system.

   `Op` lists the operations of the public interface that change the fabric (`recover_state`
   apart), `Fabric.exec` what each does. Between two operations the environment may let the
   clock move (`tick`) and the hash tables the fabric loops over may come to enumerate their
   entries in another order (`rehash`). Operations hold the fabric's lock, so a run is a
   sequence of them, in any order and with any arguments. -/
namespace DecodeFabric
open Lib

inductive Op where
  | submit (req : DecodeRequest)
  | cancel (q : SequenceId)
  | cancelRequest (r : RequestId)
  | retry (q : SequenceId)
  | registerWorker (wd : WorkerDescriptor)
  | markWorkerDead (id : WorkerId)
  | rollEpoch
  | advance (tn : TimePoint)
  | schedule (tn : TimePoint)
  | applyCompletion (result : DecodeExecutionResult)
  | authorizePrepared (prepared : PreparedDecode)
  | applyCommitReceipt (receipts : ReceiptDecode)
  | abortPrepared (a : AbortPrepared)

inductive Call where
  | op (o : Op)
  | tick (now : TimePoint)
  | rehash

/-- The fabric after an operation. -/
def Fabric.exec (s : Fabric) : Op → Fabric
  | .submit req => (s.submit req).1
  | .cancel q => (s.cancel q).1
  | .cancelRequest r => (s.cancelRequest r).1
  | .retry q => (s.retry q).1
  | .registerWorker wd => (s.registerWorker wd).1
  | .markWorkerDead id => (s.markWorkerDead id).1
  | .rollEpoch => s.rollEpoch.1
  | .advance tn => (s.advance tn).1
  | .schedule tn => (s.schedule tn).1
  | .applyCompletion result => (s.applyCompletion result).1
  | .authorizePrepared prepared => (s.authorizePrepared prepared).1
  | .applyCommitReceipt receipts => (s.applyCommitReceipt receipts).1
  | .abortPrepared a => (s.abortPrepared a).1

inductive Next : Fabric → Call → Fabric → Prop
  | op (s : Fabric) (o : Op) : Next s (.op o) (s.exec o)
  | tick (s : Fabric) (now : TimePoint) : Next s (.tick now) { s with clock := now }
  | rehash (s : Fabric) (seqs : Table SequenceId Seq) (workers : Table WorkerId WorkerDescriptor) :
      seqs.Reorder s.seqs → workers.Reorder s.workers → Next s .rehash { s with seqs, workers }

abbrev History := List (Edge Fabric Call)

/-- `h` is a run of a newly constructed fabric that ends in `s`. -/
def RunsTo (h : History) (s : Fabric) : Prop :=
  ∃ (cfg : Config) (clock : TimePoint), Run Next (Fabric.init cfg clock) h s

def Reachable (s : Fabric) : Prop := ∃ h, RunsTo h s

theorem Reachable.next {s t : Fabric} {c : Call} (h : Reachable s) (hn : Next s c t) : Reachable t := by
  obtain ⟨hist, cfg, clock, hr⟩ := h
  exact ⟨_, cfg, clock, hr.snoc hn⟩

/-- The history of a list of operations. -/
def trace (s : Fabric) : List Op → History
  | [] => []
  | o :: os => ⟨s, .op o, s.exec o⟩ :: trace (s.exec o) os

/-- The fabric after a list of operations. -/
def Fabric.execAll (s : Fabric) (os : List Op) : Fabric := os.foldl exec s

theorem trace_run : ∀ (s : Fabric) (os : List Op), Run Next s (trace s os) (s.execAll os)
  | s, [] => Run.nil s
  | s, o :: os => (Run.single (Next.op s o)).append (trace_run (s.exec o) os)

theorem trace_append : ∀ (s : Fabric) (os os' : List Op), trace s (os ++ os') = trace s os ++ trace (s.execAll os) os'
  | _, [], _ => rfl
  | s, o :: os, os' => congrArg _ (trace_append (s.exec o) os os')

theorem trace_runsTo (cfg : Config) (clock : TimePoint) (os : List Op) :
    RunsTo (trace (Fabric.init cfg clock) os) ((Fabric.init cfg clock).execAll os) :=
  ⟨cfg, clock, trace_run _ os⟩

/-! What happened in a run. -/

/-- The turns of `apply_commit_receipt` that finalize: the fabric at the turn, and the receipt. -/
def finalizations (e : Edge Fabric Call) : List (Fabric × MemberReceipt) :=
  match e.label with
  | .op (.applyCommitReceipt receipts) =>
    (turns Fabric.applyReceipt e.pre receipts.receipts).filter fun p =>
      match p.1.receiptVerdict p.2 with
      | .finalize _ => true
      | _ => false
  | _ => []

/-- The receipts finalized for sequence `q` along a run, in order. -/
def finalizedFor (q : SequenceId) (h : History) : List MemberReceipt :=
  ((h.flatMap finalizations).map Prod.snd).filter fun r => r.sequence = q

/-- The grants an operation issues. -/
def issuedBy (e : Edge Fabric Call) : List CommitGrant :=
  match e.label with
  | .op (.authorizePrepared prepared) =>
    (e.pre.authorizePrepared prepared).2.members.filterMap fun ga => if ga.hasGrant then some ga.grant else none
  | _ => []

/-- The members `schedule` emits. -/
def emittedBy (e : Edge Fabric Call) : List DecodeMemberSpec :=
  match e.label with
  | .op (.schedule tn) => (e.pre.schedule tn).2.flatMap Dispatch.members
  | _ => []

/-! One worker, one sequence and its first step, for concrete runs. -/

namespace Sample

def key : CompatibilityKey := { model := 1, revision := 1, device := 1 }

def worker (id : WorkerId) (boot : WorkerBootId) : WorkerDescriptor :=
  { id, bootId := boot, device := { id := 1 }, supportedModels := [key] }

def request : DecodeRequest :=
  { id := 1, tenant := 1, model := 1, revision := 1, sequence := 1, maxGenerationLength := 4, state := { id := 1 } }

/-- What worker 1 prepares for dispatch 1. -/
def member : PreparedMember :=
  { sequence := 1, state := 1, attempt := 1, generation := 1, dispatch := 1, epoch := 1, worker := 1, workerBoot := 1
    proposal := 1, preStateDigest := 10, postStateDigest := 11 }

def prepared : PreparedDecode := { dispatchId := 1, epoch := 1, worker := 1, workerBoot := 1, members := [member] }

def receipt : MemberReceipt :=
  { receiptId := 1, grantId := 1, proposal := 1, epoch := 1, worker := 1, workerBoot := 1, sequence := 1, state := 1
    attempt := 1, generation := 1, dispatch := 1, preStateDigest := 10, postStateDigest := 11 }

def start : Fabric := Fabric.init {} 0

def dispatched : List Op := [.registerWorker (worker 1 1), .submit request, .schedule 1]

def granted : List Op := dispatched ++ [.authorizePrepared prepared]

def committed : List Op := granted ++ [.applyCommitReceipt { receipts := [receipt] }]

theorem runsTo (os : List Op) : RunsTo (trace start os) (start.execAll os) := trace_runsTo _ _ os

theorem runsTo_append (os os' : List Op) :
    RunsTo (trace start os ++ trace (start.execAll os) os') (start.execAll (os ++ os')) :=
  trace_append start os os' ▸ runsTo (os ++ os')

/-- A worker and a request for one sequence over state 1, not sent yet. -/
def waiting : Fabric := start.execAll [.registerWorker (worker 1 1), .submit request]

theorem waiting_reachable : Reachable waiting := ⟨_, runsTo _⟩

end Sample
end DecodeFabric
