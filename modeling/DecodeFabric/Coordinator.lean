import DecodeFabric.Cluster
import DecodeFabric.Progress

/- The coordinator process.

   `Cluster` allows what any owner of a fabric may do. `run_coordinator` does less: its client connections submit,
   cancel, replay completions and roll the epoch, its worker connections register, report and go away, and its
   scheduling thread calls `schedule` with the time point zero, whatever the clock says. Status, snapshot, authority and
   explain requests read only and are left out.

   The first result is about the time. Deadlines are processed by `advance` and `schedule` against the time they are
   called with; the coordinator never calls the one and calls the other at zero, so a deadline is met only if it lies
   before zero (`deadlines_hold_iff`). -/
namespace DecodeFabric
open Lib List Sample SequenceState DecodeFabric.Seq

inductive CoordinatorAction where
  /-- A client's SubmitRequest, CancelRequest, ExecuteResult or RollEpoch. -/
  | submit (req : DecodeRequest)
  | cancelRequest (r : RequestId)
  | executeResult (result : DecodeExecutionResult)
  | rollEpoch
  /-- A worker process connects. -/
  | hello (wd : WorkerDescriptor)
  /-- The handler of connection `i` cannot read any more. -/
  | lost (i : Nat)
  /-- The worker of connection `i` says Shutdown. -/
  | shutdown (i : Nat)
  /-- The coordinator handles the next frame of connection `i`. -/
  | receive (i : Nat)
  /-- A turn of the scheduling thread, and the sending of the next dispatch it got. -/
  | tick
  | send
  /-- Worker `i` handles its next frame. -/
  | work (i : Nat) (took : StepTimes)
  /-- The next frame to, or from, worker `i` is lost. -/
  | loseInbox (i : Nat)
  | loseOutbox (i : Nat)

inductive CoordinatorCall where
  | act (a : CoordinatorAction)
  | environment

section
variable {N : Numerics}

namespace Cluster

/-- The connection is forgotten, the worker stays registered. -/
def shutdown (C : Cluster N) (p : Peer N) : Cluster N := { C with conns := C.conns.erase p.worker }

/-- The cluster after an action of the coordinator or of a worker. -/
def coordinate (C : Cluster N) : CoordinatorAction → Cluster N
  | .submit req => C.act (.submit req)
  | .cancelRequest r => C.exec (.cancelRequest r)
  | .executeResult result => C.exec (.applyCompletion result)
  | .rollEpoch => C.act .rollEpoch
  | .hello wd => C.act (.hello wd)
  | .lost i => C.act (.lost i)
  | .shutdown i =>
    match C.peers.find? i with
    | none => C
    | some p => C.shutdown p
  | .receive i => C.act (.receive i)
  | .tick => C.act (.schedule 0)
  | .send => C.act .send
  | .work i took => C.act (.work i took)
  | .loseInbox i => C.act (.loseInbox i)
  | .loseOutbox i => C.act (.loseOutbox i)

/-- The dispatches the scheduling thread gets at a tick; each is sent as one ExecuteRequest. -/
def issued (C : Cluster N) : List Dispatch := (C.fabric.schedule 0).2

end Cluster

inductive CoordinatorNext : Cluster N → CoordinatorCall → Cluster N → Prop
  | act (C : Cluster N) (a : CoordinatorAction) : CoordinatorNext C (.act a) (C.coordinate a)
  | clock (C : Cluster N) (now : TimePoint) :
      CoordinatorNext C .environment { C with fabric := { C.fabric with clock := now } }
  | rehash (C : Cluster N) (seqs : Table SequenceId Seq) (workers : Table WorkerId WorkerDescriptor) :
      seqs.Reorder C.fabric.seqs → workers.Reorder C.fabric.workers →
      CoordinatorNext C .environment { C with fabric := { C.fabric with seqs, workers } }

/-- `h` is a run of a new coordinator that ends in `C`. -/
def CoordinatorRunsTo (h : List (Edge (Cluster N) CoordinatorCall)) (C : Cluster N) : Prop :=
  ∃ (cfg : Config) (clock : TimePoint), Run CoordinatorNext (Cluster.init cfg clock) h C

/-- The history of a list of actions, and the cluster after it. -/
def coordinatorTrace (C : Cluster N) : List CoordinatorAction → List (Edge (Cluster N) CoordinatorCall)
  | [] => []
  | a :: as => ⟨C, .act a, C.coordinate a⟩ :: coordinatorTrace (C.coordinate a) as

def Cluster.coordinateAll (C : Cluster N) (as : List CoordinatorAction) : Cluster N := as.foldl coordinate C

theorem coordinatorTrace_run : ∀ (C : Cluster N) (as : List CoordinatorAction),
    Run CoordinatorNext C (coordinatorTrace C as) (C.coordinateAll as)
  | C, [] => Run.nil C
  | C, a :: as => (Run.single (CoordinatorNext.act C a)).append (coordinatorTrace_run (C.coordinate a) as)

/-! Deadlines. -/

/-- No candidate state has an edge to Completed. -/
theorem Seq.collected_machine (x : Seq) : x.collected.machine = x.machine := by
  unfold collected
  split
  · next h =>
    obtain ⟨hcand, -⟩ := h
    show x.machine.move .completed = x.machine
    revert hcand
    cases x.machine <;> simp [isCandidate, move_eq, canTransition,
      successors, isTerminal]
  · rfl

/-- A live sequence leaves the deadline pass as expired exactly when its deadline is seen to be reached and the
    lifecycle allows the move. -/
theorem Seq.polled_expired_iff {tn : TimePoint} {x : Seq} (hlive : x.machine.isTerminal = false) :
    (x.polled tn).machine = .deadlineExpired ↔
      x.deadlineReached tn = true ∧ canTransition x.machine .deadlineExpired = true := by
  -- a requested cancellation ends as cancelled, never as expired
  have hcancel : ∀ y : Seq, (if y.machine = .cancelRequested then SeqOp.apply (.retire .cancelled) y else y).machine =
      .deadlineExpired ↔ y.machine = .deadlineExpired := by
    intro y
    split
    · next hy =>
      have hmove : (SeqOp.apply (.retire .cancelled) y).machine = cancelRequested.move .cancelled :=
        congrArg (fun st => st.move .cancelled) hy
      rw [hmove, hy]
      decide
    · rfl
  unfold polled
  rw [collected_machine]
  unfold boundary
  simp only [hlive, Bool.false_eq_true, if_false]
  rw [hcancel]
  cases hreached : x.deadlineReached tn with
  | false =>
    simp only [Bool.false_eq_true, if_false, false_and, iff_false]
    rintro hexpired
    rw [hexpired] at hlive
    cases hlive
  | true =>
    simp only [if_true, true_and]
    show x.machine.move .deadlineExpired = .deadlineExpired ↔ _
    rw [move_eq]
    by_cases hmove : canTransition x.machine .deadlineExpired = true
    · simp only [hmove, if_true]
    · simp only [hmove, Bool.false_eq_true, if_false, iff_false]
      rintro hexpired
      rw [hexpired] at hlive
      cases hlive

/-- What a tick does to the lifecycle of a live sequence, as far as its expiry goes. -/
theorem Fabric.schedule_expired_iff {s : Fabric} {tn : TimePoint} {q : SequenceId} {x : Seq}
    (hx : s.seqs.find? q = some x) (hlive : x.machine.isTerminal = false) :
    (∃ y, (s.schedule tn).1.seqs.find? q = some y ∧ y.machine = .deadlineExpired) ↔
      x.deadlineReached tn = true ∧ canTransition x.machine .deadlineExpired = true := by
  cases hreached : x.deadlineReached tn with
  | true =>
    have hpolled : (x.polled tn).machine = .deadlineExpired ↔ _ := polled_expired_iff hlive
    rw [hreached] at hpolled
    rw [schedule_late s hx hreached, ← hpolled]
    constructor
    · rintro ⟨y, hy, hexpired⟩
      cases hy
      exact hexpired
    · exact fun hexpired => ⟨_, rfl, hexpired⟩
  | false =>
    simp only [Bool.false_eq_true, false_and, iff_false]
    rintro ⟨y, hy, hexpired⟩
    obtain ⟨sent, htick⟩ := s.schedule_spec tn
    obtain ⟨y', hy', hseq⟩ := htick.seq_after hx
    cases hy.symm.trans hy'
    cases hseq with
    | polled =>
      rw [polled_expired_iff hlive, hreached] at hexpired
      cases hexpired.1
    | putBack hcand _ =>
      change (x.machine.move .grouped).move .ready = _ at hexpired
      revert hcand hexpired
      cases x.machine <;> first | decide | (intro hcand; cases hcand)
    | sent d _ hcand _ =>
      change ((x.machine.move .grouped).move .reserved).move .dispatched = _ at hexpired
      revert hcand hexpired
      cases x.machine <;> first | decide | (intro hcand; cases hcand)

/-- The deadlines at a tick: no member that goes out is past its deadline by the fabric's clock, and every live sequence
    that is past it expires. -/
structure KeepsDeadlines (e : Edge (Cluster N) CoordinatorCall) : Prop where
  sent : ∀ d ∈ e.pre.issued, ∀ m ∈ d.members, ∀ x, e.pre.fabric.seqs.find? m.sequence = some x →
    x.deadlineReached e.pre.fabric.clock = false
  expired : ∀ q x, e.pre.fabric.seqs.find? q = some x → x.machine.isTerminal = false →
    x.deadlineReached e.pre.fabric.clock = true →
    ∃ y, e.post.fabric.seqs.find? q = some y ∧ y.machine = .deadlineExpired

/-- Every live sequence that is past its deadline by the clock is past it at time zero, and can be expired. -/
def Fabric.OverdueAtZero (s : Fabric) : Prop :=
  ∀ q x, s.seqs.find? q = some x → x.machine.isTerminal = false → x.deadlineReached s.clock = true →
    x.req.deadline < 0 ∧ canTransition x.machine .deadlineExpired = true

theorem Seq.deadlineReached_zero (x : Seq) : x.deadlineReached 0 = true ↔ x.req.deadline < 0 := by
  unfold deadlineReached
  rw [decide_eq_true_iff]
  constructor
  · rintro ⟨hne, hle⟩
    exact lt_of_le_of_ne hle hne
  · intro hneg
    exact ⟨ne_of_lt hneg, le_of_lt hneg⟩

theorem tick_keepsDeadlines_iff (C : Cluster N) :
    KeepsDeadlines ⟨C, .act .tick, C.coordinate .tick⟩ ↔ C.fabric.OverdueAtZero := by
  constructor
  · intro h q x hx hlive hlate
    obtain ⟨hreached, hmove⟩ := (Fabric.schedule_expired_iff hx hlive).mp (h.expired q x hx hlive hlate)
    exact ⟨x.deadlineReached_zero.mp hreached, hmove⟩
  · intro h
    constructor
    · intro d hd m hm x hx
      obtain ⟨y, hdue, -, -⟩ := (Fabric.schedule_emitted 0 d hd).member m hm
      cases hx.symm.trans hdue.found
      by_contra hlate
      obtain ⟨hneg, -⟩ := h _ x hx (live_of_isCandidate hdue.candidate) (Bool.eq_true_of_not_eq_false hlate)
      have hreached := x.deadlineReached_zero.mpr hneg
      rw [hdue.inTime] at hreached
      cases hreached
    · intro q x hx hlive hlate
      obtain ⟨hneg, hmove⟩ := h q x hx hlive hlate
      exact (Fabric.schedule_expired_iff hx hlive).mpr ⟨x.deadlineReached_zero.mpr hneg, hmove⟩

/-- In a run of the coordinator every tick keeps the deadlines if and only if at every tick the overdue live sequences
    have deadlines before zero and can be expired. -/
theorem deadlines_hold_iff {h : List (Edge (Cluster N) CoordinatorCall)} {C : Cluster N} (hr : CoordinatorRunsTo h C) :
    (∀ e ∈ h, e.label = .act .tick → KeepsDeadlines e) ↔
      ∀ e ∈ h, e.label = .act .tick → e.pre.fabric.OverdueAtZero := by
  obtain ⟨cfg, clock, hr⟩ := hr
  refine forall₂_congr fun e he => forall_congr' fun hlabel => ?_
  obtain ⟨h₁, h₂, rfl⟩ := append_of_mem he
  obtain ⟨-, hnext, -⟩ := hr.split
  obtain ⟨D, c, E⟩ := e
  obtain rfl : c = .act .tick := hlabel
  change CoordinatorNext D (.act .tick) E at hnext
  cases hnext
  exact tick_keepsDeadlines_iff D

end
/-! A coordinator that outlives a deadline. -/

namespace Sample

/-- The clock stands at 10 when a request due at 5 comes in and the scheduling thread runs. -/
def lateStart : Cluster numerics := Cluster.init {} 10

def lateRequest : List CoordinatorAction := [.hello (worker 1 1), .submit { request with deadline := 5 }]

/-- The same with a deadline before time zero. -/
def earlyDeadline : List CoordinatorAction := [.hello (worker 1 1), .submit { request with deadline := -5 }]

end Sample

theorem deadlines_hold_earlyDeadline :
    CoordinatorRunsTo (coordinatorTrace lateStart (earlyDeadline ++ [.tick]))
      (lateStart.coordinateAll (earlyDeadline ++ [.tick])) ∧
    ∀ e ∈ coordinatorTrace lateStart (earlyDeadline ++ [.tick]), e.label = .act .tick →
      KeepsDeadlines e := by
  have hr : CoordinatorRunsTo _ _ := ⟨{}, 10, coordinatorTrace_run lateStart (earlyDeadline ++ [.tick])⟩
  refine ⟨hr, (deadlines_hold_iff hr).mpr fun e he hlabel => ?_⟩
  have hlast : e.pre = lateStart.coordinateAll earlyDeadline := by
    rcases mem_cons.mp he with rfl | he
    · cases hlabel
    · rcases mem_cons.mp he with rfl | he
      · cases hlabel
      · rw [mem_singleton.mp he]
        rfl
  rw [hlast]
  intro q x hx _ _
  have hone : (q, x) = (1, _) := mem_singleton.mp (Table.find?_eq_some_iff.mp hx)
  obtain ⟨-, rfl⟩ := Prod.mk.inj hone
  exact ⟨by decide, by decide⟩

/-- The request goes out five nanoseconds after its deadline, and is not expired. -/
theorem coordinator_misses_deadline :
    ∃ e ∈ coordinatorTrace lateStart (lateRequest ++ [.tick]), e.label = .act .tick ∧
      e.pre.fabric.clock = 10 ∧
      (∃ d ∈ e.pre.issued, ∃ m ∈ d.members, ∃ x, e.pre.fabric.seqs.find? m.sequence = some x ∧ x.req.deadline = 5) ∧
      (e.post.fabric.seqs.find? 1).map machine = some .dispatched ∧ ¬ KeepsDeadlines e := by
  refine ⟨⟨lateStart.coordinateAll lateRequest, .act .tick,
    lateStart.coordinateAll (lateRequest ++ [.tick])⟩, ?_, rfl, rfl, ?_, by decide, fun hkept => ?_⟩
  · exact mem_cons_of_mem _ (mem_cons_of_mem _ (mem_singleton.mpr rfl))
  · exact ⟨_, mem_singleton.mpr rfl, _, mem_singleton.mpr rfl, _, rfl, rfl⟩
  · obtain ⟨y, hy, hexpired⟩ := hkept.expired 1 _ rfl rfl rfl
    cases hy
    cases hexpired

end DecodeFabric
