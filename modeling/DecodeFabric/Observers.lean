import DecodeFabric.Batching
import DecodeFabric.Finality
import DecodeFabric.Binding
import DecodeFabric.Requeue
import DecodeFabric.Stranded

/- What the queries of a fabric tell.

   The queries read under a shared lock and change nothing. What they report is tied here to the run before them: which
   lifecycle states there are to be seen (`lifecycle_exact`), how the counts of a snapshot hang together
   (`snapshot_counts`), that a grant reported as pending is (`pending_grants_agree`), and that an authority reported
   as in flight was sent (`authority_was_sent`). -/
namespace DecodeFabric
open Lib Table Fabric Sample List
variable {s t : Fabric} {q : SequenceId} {x y : Seq}

/-! The queries. -/

structure Snapshot where
  epoch : CoordinatorEpoch := 0
  admitted : Nat := 0
  active : Nat := 0
  ready : Nat := 0
  grouped : Nat := 0
  running : Nat := 0
  completed : Nat := 0
  cancelled : Nat := 0
  expired : Nat := 0
  reservations : List Reservation := []
  workers : List WorkerDescriptor := []
  perTenantTokens : List String := []
  stats : Stats := {}

/-- One turn of the counting loop of `snapshot`. -/
def Snapshot.count (sn : Snapshot) (st : SequenceState) : Snapshot :=
  if st = .admitted then { sn with admitted := sn.admitted + 1 }
  else if st = .waiting then { sn with admitted := sn.admitted + 1 }
  else if st.isCandidate then { sn with ready := sn.ready + 1 }
  else if st = .grouped ∨ st = .reserved then { sn with grouped := sn.grouped + 1 }
  else if st = .dispatched ∨ st = .running then { sn with running := sn.running + 1 }
  else if st = .completed then { sn with completed := sn.completed + 1 }
  else if st = .cancelled then { sn with cancelled := sn.cancelled + 1 }
  else if st = .deadlineExpired then { sn with expired := sn.expired + 1 }
  else if !st.isTerminal then { sn with active := sn.active + 1 }
  else sn

structure DispatchAuthority where
  «exists» : Bool := false
  dispatch : DispatchId := 0
  epoch : CoordinatorEpoch := 0
  worker : WorkerId := 0
  workerBoot : WorkerBootId := 0
  attempt : AttemptId := 0
  generation : DecodeGeneration := 0
  generated : UInt64 := 0

namespace Fabric

/-- The lifecycle states, in the order of the sequence table. -/
def states (s : Fabric) : List SequenceState := s.seqs.entries.map fun e => e.2.machine

/-- The two counts are kept in 32 bits. -/
def activeSequences (s : Fabric) : UInt32 := .ofNat (s.states.countP fun st => !st.isTerminal)
def readySequences (s : Fabric) : UInt32 := .ofNat (s.states.countP SequenceState.isCandidate)

/-- What the loop counts as active is thrown away and counted again. -/
def snapshot (s : Fabric) : Snapshot :=
  { s.states.foldl Snapshot.count { epoch := s.epoch, stats := s.stats } with
    active := s.states.countP fun st => !st.isTerminal
    reservations := s.reservations.entries.map Prod.snd
    workers := s.workers.entries.map Prod.snd
    perTenantTokens :=
      s.tenantTokens.entries.map fun e => "tenant=" ++ toString e.1 ++ " tokens=" ++ toString e.2.toNat }

def hasPendingGrant (s : Fabric) (q : SequenceId) : Bool := (s.seqs.find? q).any Seq.hasInflightGrant
def pendingGrant (s : Fabric) (q : SequenceId) : GrantId := ((s.seqs.find? q).map Seq.inFlightGrant).getD 0
def sequenceGenerated (s : Fabric) (q : SequenceId) : UInt64 := ((s.seqs.find? q).map Seq.generated).getD 0

/-- -1 for a grant that is not in the ledger. -/
def grantStatus (s : Fabric) (g : GrantId) : Int :=
  match (s.grantLedger.find? g).map GrantRecord.status with
  | none => -1
  | some .pending => 0
  | some .consumed => 1
  | some .aborted => 2

def inFlightAuthority (s : Fabric) (q : SequenceId) : DispatchAuthority :=
  match s.seqs.find? q with
  | none => {}
  | some x =>
    if x.hasInflight ∧ x.inFlightDispatch ≠ 0 then
      { «exists» := true, dispatch := x.inFlightDispatch, epoch := x.inFlightEpoch, worker := x.inFlightWorker
        workerBoot := x.inFlightWorkerBoot, attempt := x.currentAttempt, generation := x.inFlightGeneration
        generated := x.generated }
    else {}

end Fabric

/-! The lifecycle as it is seen. -/

/-- A run that leaves sequence 1 in the given state, for a fabric that allows one attempt. A completion that names no
    dispatch is enough to make a sequence yield that waits for its next token. -/
def Sample.runInto : SequenceState → List Op
  | .ready => submitted
  | .waiting => dispatched ++ [.markWorkerDead 1]
  | .dispatched => dispatched
  | .stepCompleted => dispatched ++ [completion 1 1 .yielded]
  | .readyForNextToken => committed
  | .yielded => committed ++ [completion 0 1 .yielded]
  | .cancelRequested => dispatched ++ [.cancel 1]
  | .cancelled => withdrawn
  | .deadlineExpired => [.registerWorker (worker 1 1), .submit { request with deadline := 1 }, .advance 2]
  | .retryableFailure => failedOut
  | .nonRetryableFailure => dispatched ++ [completion 1 1 .nonRetryableFailure]
  | .completed => [.registerWorker (worker 1 1), .submit { request with maxGenerationLength := 1 }, .schedule 1,
      .authorizePrepared prepared, .applyCommitReceipt { receipts := [receipt] }]
  | _ => []

/-- Of the declared states, exactly twelve are ever seen between two calls: never Admitted, Grouped, Reserved, Running,
    Paused, Retrying or StaleSuperseded. -/
theorem lifecycle_exact (st : SequenceState) :
    (∃ s q x, Reachable s ∧ s.seqs.find? q = some x ∧ x.machine = st) ↔ st.atRest = true := by
  constructor
  · rintro ⟨s, q, x, hs, hx, rfl⟩
    exact (reachable_atRest hs q x hx).state
  · intro hst
    have hrun : ∃ x, ((init { retryPolicy := { maxAttempts := 1 } } 0).execAll (runInto st)).seqs.find? 1 = some x ∧
        x.machine = st := by
      cases st with
      | admitted | grouped | reserved | running | paused | retrying | staleSuperseded | undeclared n => cases hst
      | _ => exact ⟨_, rfl, by decide⟩
    obtain ⟨x, hx, hm⟩ := hrun
    exact ⟨_, 1, x, ⟨_, trace_runsTo _ _ (runInto st)⟩, hx, hm⟩

/-! Counts. -/

/-- The counting loop over states that can be seen. -/
theorem Snapshot.foldl_count : ∀ (l : List SequenceState) (sn : Snapshot), (∀ st ∈ l, st.atRest = true) →
    (l.foldl count sn).grouped = sn.grouped ∧
    (l.foldl count sn).admitted = sn.admitted + l.count .waiting ∧
    (l.foldl count sn).running = sn.running + l.count .dispatched ∧
    (l.foldl count sn).admitted + (l.foldl count sn).ready =
      sn.admitted + sn.ready + l.countP SequenceState.isCandidate ∧
    (l.foldl count sn).completed + (l.foldl count sn).cancelled + (l.foldl count sn).expired +
      l.count .nonRetryableFailure + l.countP (fun st => !st.isTerminal) =
        sn.completed + sn.cancelled + sn.expired + l.length
  | [], sn, _ => ⟨rfl, rfl, rfl, rfl, rfl⟩
  | st :: l, sn, h => by
    obtain ⟨hst, hl⟩ := forall_mem_cons.mp h
    obtain ⟨h₁, h₂, h₃, h₄, h₅⟩ := foldl_count l (sn.count st) hl
    simp only [foldl_cons, count_cons, countP_cons, length_cons]
    cases st with
    | admitted | grouped | reserved | running | paused | retrying | staleSuperseded | undeclared n => cases hst
    | _ =>
      simp [count, SequenceState.isCandidate, SequenceState.isTerminal] at h₁ h₂ h₃ h₄ h₅ ⊢
      omega

theorem snapshot_counts (hs : Reachable s) :
    -- nothing is seen half way through a tick
    s.snapshot.grouped = 0 ∧
    -- "admitted" are the sequences put back after a failure, and "ready" leaves them out
    s.snapshot.admitted = s.states.count .waiting ∧
    s.readySequences = .ofNat (s.snapshot.admitted + s.snapshot.ready) ∧
    s.snapshot.running = s.states.count .dispatched ∧
    s.activeSequences = .ofNat s.snapshot.active ∧
    -- every sequence is counted once, those that failed for good apart
    s.snapshot.active + s.snapshot.completed + s.snapshot.cancelled + s.snapshot.expired +
      s.states.count .nonRetryableFailure = s.seqs.entries.length := by
  have hrest : ∀ st ∈ s.states, st.atRest = true := by
    intro st hst
    obtain ⟨e, he, rfl⟩ := mem_map.mp hst
    exact (reachable_atRest hs e.1 e.2 (find?_eq_some_iff.mpr he)).state
  obtain ⟨hgrouped, hadmitted, hrunning, hready, htotal⟩ :=
    Snapshot.foldl_count s.states { epoch := s.epoch, stats := s.stats } hrest
  simp only [Nat.zero_add] at hadmitted hrunning hready htotal
  have hlength : s.states.length = s.seqs.entries.length := length_map _
  refine ⟨hgrouped, hadmitted, congrArg UInt32.ofNat hready.symm, hrunning, rfl, ?_⟩
  rw [← hlength, ← htotal]
  simp only [snapshot]
  omega

theorem snapshot_counts_requeued : let s := start.execAll (runInto .waiting)
    s.snapshot.admitted = 1 ∧ s.snapshot.ready = 0 ∧
    s.readySequences = .ofNat (s.snapshot.admitted + s.snapshot.ready) :=
  ⟨by decide, by decide, (snapshot_counts ⟨_, runsTo (runInto .waiting)⟩).2.2.1⟩

/-! Grants. -/

/-- A grant reported as pending is pending in the ledger, for this sequence and for the position it has reached, and
    no other sequence reports it. -/
theorem pending_grants_agree (hs : Reachable s) (hq : s.hasPendingGrant q = true) :
    s.grantStatus (s.pendingGrant q) = 0 ∧ s.pendingGrant q < s.nextGrant ∧
    (∃ rec, s.grantLedger.find? (s.pendingGrant q) = some rec ∧ rec.grant.sequence = q ∧
      rec.grant.committedPosition = s.sequenceGenerated q) ∧
    ∀ q', s.hasPendingGrant q' = true → s.pendingGrant q' = s.pendingGrant q → q' = q := by
  obtain ⟨c, hl⟩ := reachable_linked hs
  have hrecord : ∀ j, s.hasPendingGrant j = true → ∃ rec, s.grantLedger.find? (s.pendingGrant j) = some rec ∧
      rec.status = .pending ∧ rec.grant.sequence = j ∧ rec.grant.committedPosition = s.sequenceGenerated j := by
    intro j hj
    obtain ⟨x, hx, hflag⟩ := Option.any_eq_true _ _ |>.mp hj
    have hheld : x.heldGrant = some x.inFlightGrant := if_pos hflag
    have hlive : (s.book c).live j = some x.inFlightGrant := by
      simp only [book, hx, Option.bind_some, hheld]
    obtain ⟨g, hentry, -⟩ := hl.sound.live j _ hlive
    obtain ⟨rec, hrec, hto⟩ := Option.map_eq_some_iff.mp hentry
    have hstatus : rec.status.toPermit = .pending := congrArg Permit.Entry.status hto
    have howner : rec.grant.sequence = j := congrArg Permit.Entry.owner hto
    have hposition := (hl.seq j x hx).held _ hheld rec hrec
    simp only [pendingGrant, sequenceGenerated, hx, Option.map_some, Option.getD_some]
    refine ⟨rec, hrec, ?_, howner, hposition⟩
    revert hstatus
    cases rec.status <;> simp [GrantStatus.toPermit]
  obtain ⟨rec, hrec, hstatus, howner, hposition⟩ := hrecord q hq
  refine ⟨by simp [grantStatus, hrec, hstatus], hl.grant_bounded hrec, ⟨rec, hrec, howner, hposition⟩, ?_⟩
  intro q' hq' hsame
  obtain ⟨rec', hrec', -, howner', -⟩ := hrecord q' hq'
  rw [hsame] at hrec'
  cases hrec.symm.trans hrec'
  exact howner'.symm.trans howner

theorem pending_grants_agree_granted : (start.execAll granted).hasPendingGrant 1 = true ∧
    (start.execAll granted).grantStatus ((start.execAll granted).pendingGrant 1) = 0 :=
  ⟨by decide, (pending_grants_agree ⟨_, runsTo granted⟩ (by decide)).1⟩

/-! Authorities. -/

/-- What a sequence records of its dispatch. -/
def Seq.flight (x : Seq) : DispatchId × CoordinatorEpoch × WorkerId × WorkerBootId × DecodeGeneration :=
  (x.inFlightDispatch, x.inFlightEpoch, x.inFlightWorker, x.inFlightWorkerBoot, x.inFlightGeneration)

/-- Sending apart, an act leaves the record or takes the dispatch out of it. -/
theorem Act.Changes.flight {a : Act} (hc : a.Changes s q x y) (hsend : ∀ d, a ≠ .seq q (.dispatchUnder d)) :
    y.flight = x.flight ∨ y.inFlightDispatch = 0 := by
  cases hc with
  | seq o hg =>
    cases o with
    | dispatchUnder d => exact absurd rfl (hsend d)
    | resolve cfg attempt now mo =>
      obtain ⟨st, ready, a, count, generated, budget, hshape, -⟩ :=
        Seq.noncommit_shape cfg attempt now mo x.endDispatch.release
      right
      change (x.endDispatch.release.noncommit cfg attempt now mo).inFlightDispatch = 0
      rw [hshape]
      rfl
    | reconcile now => exact .inr rfl
    | _ => exact .inl rfl
  | issue | abort => exact .inl rfl
  | finalize => exact .inr rfl

/-- What is in flight after a call was in flight before it, or was sent by it. -/
theorem Next.flight {c : Call} (hn : Next s c t) (h0 : s.nextDispatch ≠ 0) (hy : t.seqs.find? q = some y)
    (hne : y.inFlightDispatch ≠ 0) : (∃ x, s.seqs.find? q = some x ∧ x.flight = y.flight) ∨
      ∃ d ∈ dispatchedBy ⟨s, c, t⟩, ∃ m ∈ d.members, m.sequence = q ∧
        y.flight = (d.id, d.epoch, d.worker, d.workerBoot, m.generation) := by
  by_cases htick : ∃ tn, c = .op (.schedule tn)
  · obtain ⟨tn, rfl⟩ := htick
    cases hn
    obtain ⟨sent, ht⟩ := s.schedule_spec tn
    obtain ⟨x, hx, -⟩ := ht.seq_before hy
    by_cases hsent : q ∈ sent
    · right
      have hname : (s.specOf q).sequence = q := by
        simp only [specOf, hx]
        rfl
      obtain ⟨d, hd, hm⟩ := mem_flatMap.mp (ht.emitted ▸ mem_map_of_mem hsent)
      obtain ⟨x', -, hspec, hafter⟩ := (schedule_emitted tn d hd).member _ hm
      rw [hname] at hspec hafter
      cases hy.symm.trans hafter
      refine ⟨d, hd, _, hm, hname, ?_⟩
      rw [hspec]
      rfl
    · left
      refine ⟨x, hx, ?_⟩
      rcases ht.stayed q x hx hsent with hpolled | ⟨-, -, hback⟩
      · cases hy.symm.trans hpolled
        exact Seq.polled_kept (P := fun z => x.flight = z.flight) (fun _ h => h) (fun _ h => h) (fun _ _ h => h) tn rfl
      · cases hy.symm.trans hback
        rfl
  · left
    refine (next_steps hn h0).invariant (I := fun u => ∀ y, u.seqs.find? q = some y → y.inFlightDispatch ≠ 0 →
      ∃ x, s.seqs.find? q = some x ∧ x.flight = y.flight) ?_ (fun y hy _ => ⟨y, hy, rfl⟩) y hy hne
    intro u v a hm ha hu z hz hlive
    rcases hm.seq_before hz with hsame | ⟨x, hx, hc⟩ | ⟨req, -, -, rfl⟩
    · exact hu z hsame hlive
    · have hsend : ∀ d, a ≠ .seq q (.dispatchUnder d) := by
        rintro d rfl
        have hmay := ha.resolve_left (by simp)
        cases c with
        | op o => cases o <;> simp [Call.MayPerform, Op.MayPerform] at hmay htick
        | tick | rehash => cases hmay
      have hflight := (hc.flight hsend).resolve_right hlive
      obtain ⟨w, hw, hsame⟩ := hu x hx (ne_of_eq_of_ne (congrArg Prod.fst hflight).symm hlive)
      exact ⟨w, hw, hsame.trans hflight.symm⟩
    · exact absurd rfl hlive

theorem RunsTo.flight_sent {h : History} (hr : RunsTo h s) : ∀ q x, s.seqs.find? q = some x → x.inFlightDispatch ≠ 0 →
    ∃ e ∈ h, ∃ d ∈ dispatchedBy e, ∃ m ∈ d.members, m.sequence = q ∧
      x.flight = (d.id, d.epoch, d.worker, d.workerBoot, m.generation) := by
  obtain ⟨cfg, clock, hr⟩ := hr
  induction hr with
  | nil => exact fun q x hx => by cases hx
  | @snoc s t h c hrun hn ih =>
    intro q y hy hne
    have h0 := Nat.ne_of_gt (reachable_nextDispatch ⟨h, cfg, clock, hrun⟩)
    rcases hn.flight h0 hy hne with ⟨x, hx, hsame⟩ | hsent
    · obtain ⟨e, he, hfound⟩ := ih q x hx (ne_of_eq_of_ne (congrArg Prod.fst hsame) hne)
      exact ⟨e, mem_append_left _ he, hsame ▸ hfound⟩
    · exact ⟨_, mem_append_right _ (mem_singleton.mpr rfl), hsent⟩

/-- The authority reported for a sequence is that of a dispatch of the run, and the sequence went out in it for the
    reported generation. -/
theorem authority_was_sent {h : History} (hr : RunsTo h s) (ha : (s.inFlightAuthority q).exists = true) :
    let a := s.inFlightAuthority q
    ∃ e ∈ h, ∃ d ∈ dispatchedBy e, ∃ m ∈ d.members, m.sequence = q ∧
      (a.dispatch, a.epoch, a.worker, a.workerBoot, a.generation) =
        (d.id, d.epoch, d.worker, d.workerBoot, m.generation) := by
  unfold inFlightAuthority at ha ⊢
  split at ha
  · cases ha
  · next x hx =>
    split at ha
    · next hlive =>
      simp only [if_pos hlive]
      exact hr.flight_sent q x hx hlive.2
    · cases ha

theorem authority_was_sent_dispatched : ((start.execAll dispatched).inFlightAuthority 1).exists = true ∧
    ∃ e ∈ trace start dispatched, ∃ d ∈ dispatchedBy e, d.worker = 1 := by
  refine ⟨by decide, ?_⟩
  obtain ⟨e, he, d, hd, m, -, -, hsent⟩ := authority_was_sent (q := 1) (runsTo dispatched) (by decide)
  exact ⟨e, he, d, hd, (Prod.mk.inj (Prod.mk.inj (Prod.mk.inj hsent).2).2).1.symm⟩

end DecodeFabric
