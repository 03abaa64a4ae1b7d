import DecodeFabric.Standing
import DecodeFabric.Recovered

/- What recovery re-queues.

   Between two calls a sequence is never in a transient state (`SequenceState.atRest`), and one that is in
   the middle of a step has budget left. Recovery moves a sequence towards Waiting by a guarded
   transition; Dispatched has no edge to Waiting and RetryableFailure is not moved at all, so these two
   are what decides whether everything is queued again. -/
namespace DecodeFabric
open Lib Table Fabric Sample SequenceState
variable {x y : Seq} {q : SequenceId} {next st : SequenceState} {f : SequenceState → SequenceState} {tn : TimePoint}

/-! The states between two calls. -/

namespace SequenceState

/-- The states a sequence is found in between two calls. -/
def atRest : SequenceState → Bool
  | waiting | ready | dispatched | stepCompleted | readyForNextToken | yielded | cancelRequested | cancelled
  | deadlineExpired | retryableFailure | nonRetryableFailure | completed => true
  | _ => false

/-- A step has been sent out or has come back. -/
def midStep : SequenceState → Bool
  | dispatched | stepCompleted => true
  | _ => false

/-- A change of lifecycle that ends at rest and begins no step. -/
def Settles (f : SequenceState → SequenceState) : Prop :=
  ∀ st, st.atRest = true → (f st).atRest = true ∧ ((f st).midStep = true → st.midStep = true)

theorem Settles.id : Settles fun st => st := fun _ h => ⟨h, fun h => h⟩

theorem settles_move (st : SequenceState) (h : st.atRest = true) (hm : st.midStep = false) :
    Settles fun s => s.move st := by
  intro s hs
  simp only [move_eq]
  split
  · rw [hm]
    exact ⟨h, fun h => by cases h⟩
  · exact ⟨hs, fun h => h⟩

/-- A change that applies to sequences being executed only. -/
theorem Settles.ite (hf : Settles f) (p : SequenceState → Prop) [DecidablePred p] :
    Settles fun st => if p st then f st else st := by
  intro st hst
  by_cases hp : p st
  · simp only [hp, if_true]
    exact hf st hst
  · simp only [hp, if_false]
    exact ⟨hst, fun h => h⟩

/-- Whatever is in the middle of a step is out of it when the step ends for `next`. -/
theorem endStep_atRest (st : SequenceState) (hst : st.atRest = true)
    (hnext : next = .waiting ∨ next = .readyForNextToken ∨ next = .completed) :
    ((st.move .stepCompleted).move next).atRest = true ∧ ((st.move .stepCompleted).move next).midStep = false := by
  rcases hnext with rfl | rfl | rfl <;> cases st <;> first | decide | cases hst

theorem settles_endStep (hnext : next = .waiting ∨ next = .readyForNextToken ∨ next = .completed) :
    Settles fun st => (st.move .stepCompleted).move next := by
  intro st hst
  obtain ⟨hrest, hmid⟩ := endStep_atRest st hst hnext
  exact ⟨hrest, fun h => by rw [hmid] at h; cases h⟩

theorem beginAttempt_atRest (hst : st.atRest = true) :
    ((st.move .retrying).move .ready).atRest = true ∧ ((st.move .retrying).move .ready).midStep = false := by
  cases st <;> first | decide | cases hst

/-- A step that yields has no edge to Yielded and stays completed. -/
theorem settles_yield : Settles fun st => (st.move .stepCompleted).move .yielded := by
  intro st hst
  cases st <;> first | decide | cases hst

theorem putBack_atRest (hst : st.isCandidate = true) :
    ((st.move .grouped).move .ready).atRest = true ∧ ((st.move .grouped).move .ready).midStep = false := by
  cases st <;> first | decide | cases hst

theorem sent_atRest (hst : st.isCandidate = true) :
    (((st.move .grouped).move .reserved).move .dispatched).atRest = true := by
  cases st <;> first | decide | cases hst

end SequenceState

namespace Seq

/-- A sequence as found between two calls. -/
structure AtRest (x : Seq) : Prop where
  state : x.machine.atRest = true
  unspent : x.machine.midStep = true → x.budget.exhausted = false

theorem AtRest.settles (h : x.AtRest) (hf : SequenceState.Settles f)
    (hm : y.machine = f x.machine) (hb : y.budget = x.budget) : y.AtRest := by
  obtain ⟨hrest, hmid⟩ := hf x.machine h.state
  refine ⟨hm ▸ hrest, fun hy => ?_⟩
  rw [hb]
  rw [hm] at hy
  exact h.unspent (hmid hy)

theorem AtRest.settled (h : y.machine.atRest = true ∧ y.machine.midStep = false) : y.AtRest :=
  ⟨h.1, fun hmid => by rw [h.2] at hmid; cases hmid⟩

theorem AtRest.noncommit (h : x.AtRest) (cfg : Config) (a : AttemptId) (now : TimePoint) (mo : MemberOutcome) :
    (x.noncommit cfg a now mo).AtRest := by
  have hfail : SequenceState.Settles fun st => if st = .dispatched then st.move .retryableFailure else st :=
    (settles_move .retryableFailure rfl rfl).ite _
  unfold Seq.noncommit
  cases mo.kind with
  | yielded => exact h.settles settles_yield rfl rfl
  | retryableFailure =>
    simp only
    have hy : (if x.machine = .dispatched then x.moveTo .retryableFailure else x).AtRest := by
      refine h.settles hfail ?_ ?_
      · split <;> rfl
      · split <;> rfl
    split
    · exact hy.settles (settles_move .nonRetryableFailure rfl rfl) rfl rfl
    · split
      · exact settled (beginAttempt_atRest hy.state)
      · exact settled (beginAttempt_atRest hy.state)
  | nonRetryableFailure =>
    simp only
    split
    · exact h.settles (settles_move .nonRetryableFailure rfl rfl) rfl rfl
    · exact h
  | cancelled =>
    simp only
    split
    · exact h
    · exact h.settles (settles_move .cancelled rfl rfl) rfl rfl
  | expired =>
    simp only
    split
    · exact h
    · exact h.settles (settles_move .deadlineExpired rfl rfl) rfl rfl
  | _ => exact h

theorem AtRest.finish (h : x.AtRest) (fin : TimePoint) (r : MemberReceipt) : (x.finish fin r).AtRest := by
  unfold Seq.finish settle
  split
  · exact settled (endStep_atRest x.machine h.state (.inr (.inr rfl)))
  · exact settled (endStep_atRest x.machine h.state (.inr (.inl rfl)))

theorem AtRest.ofRequest (req : DecodeRequest) : (ofRequest req).AtRest := settled ⟨rfl, rfl⟩

/-- Ending a step only if one is executing. -/
theorem AtRest.executed (h : x.AtRest) (next : SequenceState)
    (hnext : next = .waiting ∨ next = .readyForNextToken ∨ next = .completed)
    (hm : y.machine = if x.executing then (x.machine.move .stepCompleted).move next else x.machine)
    (hb : y.budget = x.budget) : y.AtRest := by
  refine h.settles ((settles_endStep hnext).ite fun st => st = .dispatched ∨ st = .running) ?_ hb
  rw [hm]
  simp only [executing, decide_eq_true_eq]

end Seq

/-- The acts of the calls other than `schedule`. -/
def OffTick (a : Act) : Prop := ∃ c : Call, (∀ tn, c ≠ .op (.schedule tn)) ∧ c.MayPerform a

theorem OffTick.atRest {o : SeqOp} (h : OffTick (.seq q o)) (hx : x.AtRest) : (o.apply x).AtRest := by
  have hmove : ∀ st : SequenceState, st.atRest = true → st.midStep = false →
      (SeqOp.apply (.moveTo st) x).AtRest ∧ (SeqOp.apply (.retire st) x).AtRest :=
    fun st h h' => ⟨hx.settles (settles_move st h h') rfl rfl, hx.settles (settles_move st h h') rfl rfl⟩
  obtain ⟨c, hsched, hc⟩ := h
  cases c with
  | tick now | rehash => cases hc
  | op op =>
    cases op with
    | cancel j =>
      rcases hc.2 with rfl | rfl
      · exact (hmove _ rfl rfl).1
      · exact (hmove _ rfl rfl).2
    | cancelRequest r =>
      rcases hc with rfl | rfl
      · exact (hmove _ rfl rfl).1
      · exact (hmove _ rfl rfl).2
    | retry j =>
      rcases hc.2 with rfl | rfl | ⟨a, now, rfl⟩
      · exact hx.settles SequenceState.Settles.id rfl rfl
      · exact (hmove _ rfl rfl).1
      · exact Seq.AtRest.settled (beginAttempt_atRest hx.state)
    | markWorkerDead id =>
      obtain ⟨now, rfl⟩ := hc
      exact hx.executed .waiting (.inl rfl) rfl rfl
    | advance tn =>
      rcases hc with rfl | rfl
      · exact (hmove _ rfl rfl).2
      · exact (hmove _ rfl rfl).2
    | schedule tn => exact absurd rfl (hsched tn)
    | applyCompletion result =>
      rcases hc with rfl | rfl | ⟨cfg, a, now, mo, rfl⟩
      · exact hx.settles SequenceState.Settles.id rfl rfl
      · exact hx.settles SequenceState.Settles.id rfl rfl
      · exact (hx.settles (y := x.endDispatch.release) SequenceState.Settles.id rfl rfl).noncommit cfg a now mo
    | authorizePrepared prepared =>
      rcases hc with ⟨now, rfl⟩ | rfl | ⟨cfg, a, now, mo, rfl⟩
      · exact hx.executed .readyForNextToken (.inr (.inl rfl)) rfl rfl
      · exact hx.settles SequenceState.Settles.id rfl rfl
      · exact (hx.settles (y := x.endDispatch.release) SequenceState.Settles.id rfl rfl).noncommit cfg a now mo
    | submit req | registerWorker wd | rollEpoch | applyCommitReceipt receipts | abortPrepared a => cases hc

theorem atRest_kept : Kept OffTick Seq.AtRest where
  seq ha _ h := ha.atRest h
  enrol _ := Seq.AtRest.ofRequest _
  issue _ _ h := h.settles SequenceState.Settles.id rfl rfl
  finalize _ h := h.finish _ _
  abort _ h := h.executed .waiting (.inl rfl) rfl rfl

/-- A tick begins steps, for candidates with budget only. -/
theorem TickedSeq.atRest {out : List Dispatch} (h : Fabric.TickedSeq tn out x y) (hx : x.AtRest) : y.AtRest := by
  cases h with
  | polled =>
    exact Seq.polled_kept (P := Seq.AtRest)
      (fun y hy => hy.settles (settles_move .deadlineExpired rfl rfl) rfl rfl)
      (fun y hy => hy.settles (settles_move .cancelled rfl rfl) rfl rfl)
      (fun y _ hy => hy.settles (settles_move .completed rfl rfl) rfl rfl) tn hx
  | putBack hcand _ =>
    exact Seq.AtRest.settled (putBack_atRest hcand)
  | sent d _ hcand hunspent =>
    exact ⟨sent_atRest hcand, fun _ => hunspent⟩

theorem next_atRest {s t : Fabric} {c : Call} (hn : Next s c t) (h0 : s.nextDispatch ≠ 0) (hs : s.AllSeqs Seq.AtRest) :
    t.AllSeqs Seq.AtRest := by
  by_cases htick : ∃ tn, c = .op (.schedule tn)
  · obtain ⟨tn, rfl⟩ := htick
    cases hn with
    | op =>
      obtain ⟨sent, hticked⟩ := s.schedule_spec tn
      intro q y hy
      obtain ⟨x, hx, hxy⟩ := hticked.seq_before hy
      exact TickedSeq.atRest hxy (hs q x hx)
  · refine (next_steps hn h0).invariant (I := fun t => t.AllSeqs Seq.AtRest) ?_ hs
    intro s t a hm ha h
    refine micro_allSeqs atRest_kept hm (ha.imp_right fun ha => ⟨c, ?_, ha⟩) h
    exact fun tn hc => htick ⟨tn, hc⟩

theorem reachable_atRest {s : Fabric} (hs : Reachable s) : s.AllSeqs Seq.AtRest := by
  obtain ⟨h, hr⟩ := hs
  exact (transition_invariant (I := fun t => t.AllSeqs Seq.AtRest) (P := fun _ => True) init_allSeqs
    (fun e hn h0 _ hi => next_atRest hn h0 hi) hr fun _ _ => trivial).1

/-! A suitable worker. -/

/-- Worker `w` is healthy, takes any number of groups, serves valid keys only, and one of them has the model,
    revision and adapter of `req`, on a device `req` allows. -/
structure WorkerDescriptor.Suits (w : WorkerDescriptor) (req : DecodeRequest) : Prop where
  valid : w.valid = true
  healthy : w.health = .healthy
  unlimited : w.advertisedCapacity = 0 ∧ w.device.memoryBytes = 0
  keys : ∀ k ∈ w.supportedModels, k.valid = true
  serves : ∃ k ∈ w.supportedModels, k.model = req.model ∧ k.revision = req.revision ∧ k.adapter = req.adapter
  allowed : req.deviceConstraint = 0 ∨ w.device.id = req.deviceConstraint

namespace Fabric

/-- A fabric that has not yet met a worker. -/
structure Unstaffed (s : Fabric) : Prop where
  workers : s.workers = .empty
  devMem : s.devMem = .empty

variable {s : Fabric} {w : WorkerDescriptor} {req : DecodeRequest}

theorem Unstaffed.recruit (h : s.Unstaffed) (hw : w.Suits req) :
    (s.registerWorker w).1.workers.entries = [(w.id, w)] ∧ (s.registerWorker w).1.Roomy ∧
      (s.registerWorker w).1.seqs = s.seqs ∧ (s.registerWorker w).1.cfg = s.cfg := by
  unfold registerWorker
  simp only [hw.valid, Bool.not_true, Bool.false_eq_true, if_false]
  refine ⟨?_, ?_, rfl, rfl⟩
  · show (s.workers.insert w.id w).entries = _
    rw [h.workers, insert_new (by rfl)]
    rfl
  · intro d v hd
    change (s.devMem.insert w.device.id _).find? d = some v at hd
    rw [h.devMem, find?_insert] at hd
    split at hd
    · cases hd
      show max _ w.device.memoryBytes = 0
      rw [hw.unlimited.2]
      rfl
    · cases hd

/-- A sequence queued in an unstaffed fabric is due once a suitable worker registers. -/
theorem Unstaffed.due (h : s.Unstaffed) (hw : w.Suits x.req)
    (hq : s.seqs.find? q = some x) (hcand : x.machine.isCandidate = true) (hunspent : x.budget.exhausted = false)
    (htime : x.deadlineReached tn = false) : (s.registerWorker w).1.Due tn q x := by
  obtain ⟨hentries, -, hseqs, -⟩ := h.recruit hw
  refine ⟨hseqs ▸ hq, hcand, hunspent, htime, ?_⟩
  rcases keyForModel_cases (s := (s.registerWorker w).1) x.req with ⟨e, hfound⟩ | ⟨-, hnone⟩
  · have he := hfound.worker
    rw [hentries, List.mem_singleton] at he
    subst he
    exact hw.keys _ hfound.supported
  · obtain ⟨k, hk, hsame⟩ := hw.serves
    exact absurd hsame (hnone (w.id, w) (hentries ▸ List.mem_singleton.mpr rfl) k hk hw.allowed)

end Fabric

/-! What is queued again. -/

/-- The states of a sequence whose step was under way. -/
def SequenceState.underWay (st : SequenceState) : Bool :=
  decide (st = .dispatched ∨ st = .reserved ∨ st = .grouped ∨ st = .running ∨ st = .stepCompleted)

/-- After recovery from a snapshot of `F`, the fabric `G` has queued everything again: what has not ended is a
    candidate or about to be cancelled, and what was under way goes out at the next tick, unless it comes after the
    deadline, given a worker for it and groups that have room. -/
structure Requeued (F G : Fabric) : Prop where
  states : ∀ q y, G.seqs.find? q = some y → y.machine.isTerminal = false →
    y.machine.isCandidate = true ∨ y.machine = .cancelRequested
  sent : G.Impartial → G.seqs.entries.length ≤ G.cfg.groupLimits.maxSequences.toNat →
    ∀ q x y, F.seqs.find? q = some x → x.machine.underWay = true → G.seqs.find? q = some y →
    ∀ w tn, w.Suits y.req → y.deadlineReached tn = false →
      ∃ d ∈ ((G.registerWorker w).1.schedule tn).2, ∃ m ∈ d.members, m.sequence = q

theorem SequenceState.reconciled_queued (hrest : st.atRest = true) (hd : st ≠ .dispatched)
    (hr : st ≠ .retryableFailure) (ht : st.reconciled.isTerminal = false) :
    st.reconciled.isCandidate = true ∨ st.reconciled = .cancelRequested := by
  cases st <;> first
    | exact .inl rfl
    | exact .inr rfl
    | exact absurd rfl hd
    | exact absurd rfl hr
    | exact absurd ht Bool.false_ne_true.symm
    | exact absurd hrest Bool.false_ne_true

theorem SequenceState.underWay_stepCompleted (hrest : st.atRest = true) (hd : st ≠ .dispatched)
    (hu : st.underWay = true) : st = .stepCompleted := by
  cases st <;> first
    | rfl
    | exact absurd rfl hd
    | exact absurd hu Bool.false_ne_true
    | exact absurd hrest Bool.false_ne_true

/-- Recovery queues everything again if and only if nothing was Dispatched or left at RetryableFailure. -/
theorem recovery_requeues_iff {F G : Fabric} (hF : Reachable F) (hfit : F.Representable) {cfg : Config}
    {clock : TimePoint} (hG : (init cfg clock).recoverState F.serializeState = (G, .ok ())) :
    Requeued F G ↔ ∀ q x, F.seqs.find? q = some x → x.machine ≠ .dispatched ∧ x.machine ≠ .retryableFailure := by
  obtain rfl := recovered_eq hF hfit hG
  have hrest := reachable_atRest hF
  constructor
  · intro hqueued q x hx
    -- either state survives recovery, and is neither
    have hy := recoveredFrom_seq (s := init cfg clock) hx
    have hstate : x.recovered.machine = x.machine.reconciled := rfl
    constructor
    · intro hd
      have := hqueued.states q _ hy (by rw [hstate, hd]; rfl)
      rw [hstate, hd] at this
      rcases this with h | h <;> cases h
    · intro hr
      have := hqueued.states q _ hy (by rw [hstate, hr]; rfl)
      rw [hstate, hr] at this
      rcases this with h | h <;> cases h
  · intro hnone
    constructor
    · intro q y hy ht
      obtain ⟨x, hx, rfl⟩ := recoveredFrom_before hy
      exact reconciled_queued (hrest q x hx).state (hnone q x hx).1 (hnone q x hx).2 ht
    · intro himp hsize q x y hx hu hy w tn hw htime
      obtain rfl := Option.some.inj ((recoveredFrom_seq (s := init cfg clock) hx).symm.trans hy)
      have hunstaffed : ((init cfg clock).recoveredFrom F).Unstaffed := ⟨rfl, rfl⟩
      obtain ⟨hentries, hroomy, hseqs, hcfg⟩ := hunstaffed.recruit hw
      have hst := underWay_stepCompleted (hrest q x hx).state (hnone q x hx).1 hu
      have hcand : x.recovered.machine = .waiting := congrArg reconciled hst
      have hdue := hunstaffed.due hw hy (by rw [hcand]; rfl)
        (by rw [(reachable_restorable hF q x hx).recovered_budget]
            exact (hrest q x hx).unspent (by rw [hst]; rfl)) htime
      refine schedule_sends_all hroomy ?_ ?_ ?_ hdue
      · intro e he
        rw [hentries, List.mem_singleton] at he
        subst he
        exact ⟨hw.healthy, hw.unlimited.1⟩
      · unfold Fabric.Impartial
        rw [hcfg]
        exact himp
      · rw [hseqs, hcfg]
        exact hsize

namespace Sample

/-- The worker yields instead of finishing its step. -/
def yielded : List Op :=
  dispatched ++ [.applyCompletion
    { dispatchId := 1, epoch := 1, worker := 1, workerBoot := 1
      outcomes := [{ sequence := 1, attempt := 1, generation := 1, kind := .yielded }] }]

end Sample

theorem recovery_requeues_yielded :
    ∃ G x, (init {} 0).recoverState (start.execAll yielded).serializeState = (G, .ok ()) ∧
      (start.execAll yielded).seqs.find? 1 = some x ∧ x.machine = .stepCompleted ∧
      Requeued (start.execAll yielded) G := by
  have hF : Reachable (start.execAll yielded) := ⟨_, runsTo yielded⟩
  have hfit : (start.execAll yielded).Representable :=
    ⟨by decide, by decide, by decide, by decide, by decide⟩
  have hG := reachable_recoverState hF hfit (by decide) (init {} 0)
  refine ⟨_, _, hG, rfl, rfl, (recovery_requeues_iff hF hfit hG).mpr ?_⟩
  intro q x hx
  obtain ⟨rfl, rfl⟩ := List.mem_singleton.mp (find?_eq_some_iff.mp hx) |> Prod.mk.inj
  exact ⟨by decide, by decide⟩

/-- A sequence whose step was out when the snapshot was taken stays Dispatched, with nothing in flight: its worker
    registers again and the next tick sends nothing. -/
theorem recovery_strands_dispatched :
    ∃ F G y, Reachable F ∧ (init {} 0).recoverState F.serializeState = (G, .ok ()) ∧
      G.seqs.find? 1 = some y ∧ y.machine = .dispatched ∧ y.hasInflight = false ∧
      ((G.registerWorker (worker 1 1)).1.schedule 1).2.length = 0 := by
  have hF : Reachable (start.execAll dispatched) := ⟨_, runsTo dispatched⟩
  have hfit : (start.execAll dispatched).Representable :=
    ⟨by decide, by decide, by decide, by decide, by decide⟩
  refine ⟨_, _, _, hF, reachable_recoverState hF hfit (by decide) _, rfl, rfl, rfl, rfl⟩

end DecodeFabric
