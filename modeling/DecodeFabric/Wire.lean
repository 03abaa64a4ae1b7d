import DecodeFabric.Cluster
import DecodeFabric.Codecs
import DecodeFabric.Frames

/- A worker's connection, byte by byte.

   `Cluster` hands messages over as they are. What `worker_main` has is a socket: it takes frames off the bytes its
   reads bring, decodes their payloads, skips what does not decode, and sends frames back. On the bytes of messages
   that the source's types can hold, cut into reads in any way, it does what `Peer.handle` does
   (`worker_over_wire`). -/
namespace DecodeFabric
open Lib List Sample
variable {N : Numerics}

/-- The frame a message is sent in. -/
def ToWorker.wire : ToWorker → FrameType × Bytes
  | .executeRequest req => (.executeRequest, encodeExecuteRequest req)
  | .commitGrant g => (.commitGrant, encodeCommitGrant g)
  | .abortPrepared a => (.abortPrepared, encodeAbortPrepared a)

def ToCoordinator.wire : ToCoordinator → FrameType × Bytes
  | .preparedResult p => (.preparedResult, encodePreparedResult p)
  | .commitReceipt r => (.commitReceipt, encodeCommitReceipts r)

/-- Every field has a value of its type in the source. -/
def ToWorker.Fits : ToWorker → Prop
  | .executeRequest req => req.Fits (2 ^ 32)
  | .commitGrant g => g.Fits
  | .abortPrepared a => IdsFit a.ids

structure WorkerProcess (N : Numerics) where
  executor : Executor N := {}
  sent : List (FrameType × Bytes) := []
  running : Bool := true

namespace WorkerProcess
variable (took : StepTimes)

def send (w : WorkerProcess N) (ex : Executor N) (m : ToCoordinator) : WorkerProcess N :=
  { w with executor := ex, sent := w.sent ++ [m.wire] }

/-- One turn of the loop of `worker_main`. -/
def turn (w : WorkerProcess N) (f : Frame) : WorkerProcess N :=
  if !w.running then w
  else if f.type = .executeRequest then
    match decodeExecuteRequest f.payload with
    | .error _ => w
    | .ok req =>
      let (ex, result) := w.executor.prepare req took
      w.send ex (.preparedResult (Peer.prepareReply req result))
  else if f.type = .commitGrant then
    match decodeCommitGrant f.payload with
    | .error _ => w
    | .ok g =>
      let (ex, r) := w.executor.commit g
      w.send ex (.commitReceipt (Peer.receiptReply g r))
  else if f.type = .abortPrepared then
    match decodeAbortPrepared f.payload with
    | .error _ => w
    | .ok a => { w with executor := (w.executor.abort a).1 }
  else if f.type = .shutdown then { w with sent := w.sent ++ [(.workerShutdownAck, [])], running := false }
  else w

/-- The loop, over what the reads of the socket bring. -/
def main (reads : List Bytes) : WorkerProcess N := (FrameDecoder.receive {} reads).frames.foldl (turn took) {}

end WorkerProcess

/-- A worker as its connection shows it. -/
def Peer.process (p : Peer N) : WorkerProcess N := { executor := p.executor, sent := p.outbox.map ToCoordinator.wire }

theorem Peer.process_turn (took : StepTimes) (p : Peer N) {m : ToWorker} (h : m.Fits) :
    p.process.turn took (sentFrame m.wire) = (p.handle took m).process := by
  have hsent : ∀ ex m, (p.process).send ex m =
      ({ p with executor := ex, outbox := p.outbox ++ [m] } : Peer N).process := by
    intro ex m
    simp only [WorkerProcess.send, process, map_append, map_cons, map_nil]
  cases m with
  | executeRequest req =>
    have hback : decodeExecuteRequest (encodeExecuteRequest req) = .ok req :=
      decodes (coded_executeRequest (by decide) h) (Nat.le_refl _)
    simp only [WorkerProcess.turn, sentFrame, ToWorker.wire, hback]
    exact hsent _ _
  | commitGrant g =>
    have hback : decodeCommitGrant (encodeCommitGrant g) = .ok g := decodes (coded_commitGrant h) trivial
    simp only [WorkerProcess.turn, sentFrame, ToWorker.wire, hback]
    exact hsent _ _
  | abortPrepared a =>
    have hback : decodeAbortPrepared (encodeAbortPrepared a) = .ok a := decodes (coded_abortPrepared h) trivial
    simp only [WorkerProcess.turn, sentFrame, ToWorker.wire, hback]
    rfl

/-- However the bytes of the messages arrive, the worker process is the abstract worker that has handled them. -/
theorem worker_over_wire (took : StepTimes) (id : WorkerId) (ms : List ToWorker)
    (hfits : ∀ m ∈ ms, m.Fits ∧ 12 + m.wire.2.length ≤ kDefaultMaxFrameBytes.toNat) (reads : List Bytes)
    (hreads : reads.flatten = ms.flatMap fun m => encodeFrame m.wire.1 m.wire.2) :
    WorkerProcess.main took reads = (ms.foldl (Peer.handle took) ({ worker := id } : Peer N)).process := by
  have hframes : (FrameDecoder.receive {} reads).frames = ms.map fun m => sentFrame m.wire := by
    rw [FrameDecoder.receive_eq_scan, FrameDecoder.stream, nil_append, hreads, Framing.scan_written ms ?_ rfl]
    intro m hm later
    have htype : m.wire.1 ∈ FrameType.declared := by cases m <;> simp [ToWorker.wire, FrameType.declared]
    rw [frames_head]
    exact frameHead_encodeFrame later htype (hfits m hm).2
  rw [WorkerProcess.main, hframes, foldl_map]
  -- message by message, from any state of the worker
  have hrun : ∀ (l : List ToWorker) (p : Peer N), (∀ m ∈ l, m.Fits) →
      l.foldl (fun w m => WorkerProcess.turn took w (sentFrame m.wire)) p.process =
      (l.foldl (Peer.handle took) p).process := by
    intro l
    induction l with
    | nil => exact fun _ _ => rfl
    | cons m l ih =>
      intro p hl
      rw [foldl_cons, p.process_turn took (hl m mem_cons_self)]
      exact ih _ fun m hm => hl m (mem_cons_of_mem _ hm)
  exact hrun ms { worker := id } fun m hm => (hfits m hm).1

/-- A request, a grant and an abort, in three reads that end within messages. -/
theorem worker_over_wire_cut : ∃ reads : List Bytes, reads.length = 3 ∧ (∀ b ∈ reads, b ≠ []) ∧
    (WorkerProcess.main (fun _ => 0) reads : WorkerProcess numerics).sent.length = 2 := by
  let ms : List ToWorker := [.executeRequest wireRequest, .commitGrant { grantId := 1, proposal := 1, state := 9 },
    .abortPrepared { proposal := 1, state := 9 }]
  let b := ms.flatMap fun m => encodeFrame m.wire.1 m.wire.2
  refine ⟨[b.take 5, (b.drop 5).take 300, (b.drop 5).drop 300], rfl, by decide +kernel, ?_⟩
  rw [worker_over_wire _ 1 ms ?_ _ (by simp only [flatten_cons, flatten_nil, append_nil, take_append_drop, b])]
  · rfl
  · simp only [ms, forall_mem_cons]
    exact ⟨⟨wireRequest_fits, by decide +kernel⟩, ⟨⟨by decide, by decide⟩, by decide +kernel⟩,
      ⟨(by decide : IdsFit _), by decide +kernel⟩, forall_mem_nil _⟩

end DecodeFabric
