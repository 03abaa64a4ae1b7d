import DecodeFabric.Lib.RingBuffer
import DecodeFabric.Lifetime

/- The event log.

   `record_event` writes into a ring (`Fabric.ring`, `recordEvent_ring`), and every operation, and every recovery, is a
   series of recordings with nothing touching the ring between them (`LifeNext.logs`). Read from `event_head` on, the
   ring holds the last events. `events()` copies the vector from its front, where the newest events come to stand once
   the ring has wrapped, and the id of an event is one more than the length at the time, which no longer grows then:
   `events_last_iff` says for which runs that is noticed.

   The same pass over the operations gives what they count (`exec_tally`): only `submit` admits, and only receipts
   carry tokens and times. -/
namespace DecodeFabric
open Lib List Fabric Sample DecodeFabric.Seq

/-! Recordings. -/

namespace Fabric

def ring (s : Fabric) : RingBuffer Event := ⟨s.events, s.eventHead⟩

/-- The event a recording makes now. -/
def eventOf (s : Fabric) (kind : EventKind) (request : RequestId) (sequence : SequenceId) (detail : Bytes) : Event :=
  ⟨s.events.length + 1, s.clock, kind, request, sequence, detail⟩

theorem recordEvent_ring (s : Fabric) (kind : EventKind) (request : RequestId) (q : SequenceId) (detail : Bytes) :
    (s.recordEvent kind request q detail).ring =
      s.ring.push s.cfg.eventCapacity (s.eventOf kind request q detail) := by
  unfold ring recordEvent RingBuffer.push
  simp only
  split <;> rfl

/-- `s` became `t` by recordings and by changes elsewhere; `l` lists the recordings, each with the fabric it was made
    in. -/
inductive Logged : Fabric → List (Fabric × Event) → Fabric → Prop
  | quiet {s t : Fabric} : t.ring = s.ring → t.cfg = s.cfg → Logged s [] t
  | event (s : Fabric) (kind : EventKind) (request : RequestId) (q : SequenceId) (detail : Bytes) :
      Logged s [(s, s.eventOf kind request q detail)] (s.recordEvent kind request q detail)
  | trans {s t u : Fabric} {l l' : List (Fabric × Event)} :
      Logged s l t → Logged t l' u → Logged s (l ++ l') u

def Logs (s t : Fabric) : Prop := ∃ l, Logged s l t

end Fabric

/-! What is counted. -/

/-- The admitted requests and the started sequences, as the fabric counts them. -/
def Fabric.admissions (s : Fabric) : Nat × Nat := (s.stats.requestsAdmitted, s.stats.sequencesStarted)

/-- The index of the admitted requests, and the admissions counted. -/
def Fabric.registry (s : Fabric) : Table RequestId SequenceId × Nat × Nat := (s.reqToSeq, s.admissions)

/-- The counters the derived figures are computed from. The source reads `total_queue_ns` too, which
    nothing ever adds to. -/
structure Meter where
  decodeSteps : Nat
  generatedTokens : Nat
  totalActiveNs : Nanoseconds
  totalInterTokenNs : Nanoseconds

def Stats.meter (t : Stats) : Meter where
  decodeSteps := t.decodeSteps
  generatedTokens := t.generatedTokens
  totalActiveNs := t.totalActiveNs
  totalInterTokenNs := t.totalInterTokenNs

/-- What is counted on admission and on receipts. -/
def Fabric.tally (s : Fabric) : (Table RequestId SequenceId × Nat × Nat) × Meter := (s.registry, s.stats.meter)

namespace Fabric
variable {s t u : Fabric} {kind : EventKind} {request : RequestId} {q : SequenceId} {detail : Bytes}

/-- `s` became `t` by recordings, and nothing else was counted. -/
structure Quiet (s t : Fabric) : Prop where
  tally : t.tally = s.tally
  logs : s.Logs t

/-- All that a quiet step says of a fabric. -/
def trail (s : Fabric) : ((Table RequestId SequenceId × Nat × Nat) × Meter) × RingBuffer Event × Config :=
  (s.tally, s.ring, s.cfg)

theorem Logs.trans (h : s.Logs t) (h' : t.Logs u) : s.Logs u := by
  obtain ⟨l, hl⟩ := h
  obtain ⟨l', hl'⟩ := h'
  exact ⟨l ++ l', hl.trans hl'⟩

theorem Logs.same (h : (t.ring, t.cfg) = (s.ring, s.cfg)) : s.Logs t :=
  ⟨[], .quiet (congrArg Prod.fst h) (congrArg Prod.snd h)⟩

theorem Logs.recorded (h : s.Logs t) (h' : (u.ring, u.cfg) = (t.ring, t.cfg)) :
    s.Logs (u.recordEvent kind request q detail) :=
  (h.trans (.same h')).trans ⟨_, .event u kind request q detail⟩

namespace Quiet

theorem same (h : t.trail = s.trail) : Quiet s t := ⟨congrArg Prod.fst h, .same (congrArg Prod.snd h)⟩

theorem trans (h : Quiet s t) (h' : Quiet t u) : Quiet s u := ⟨h'.tally.trans h.tally, h.logs.trans h'.logs⟩

theorem update (h : Quiet s t) (h' : u.trail = t.trail) : Quiet s u := h.trans (same h')

theorem recorded (h : Quiet s t) (h' : u.trail = t.trail) : Quiet s (u.recordEvent kind request q detail) :=
  ⟨(congrArg Prod.fst h').trans h.tally, h.logs.recorded (congrArg Prod.snd h')⟩

theorem event (h : u.trail = s.trail) : Quiet s (u.recordEvent kind request q detail) := recorded (same rfl) h

end Quiet

theorem releaseReservation_quiet (s : Fabric) (q : SequenceId) : Quiet s (s.releaseReservation q) := by
  have hfree : ∀ x, Quiet s (s.freeReservation q x) := by
    intro x
    unfold freeReservation
    split
    · exact .same rfl
    · split
      · exact .same rfl
      · exact .event rfl
  unfold releaseReservation
  split
  · exact .same rfl
  · split
    · exact .same rfl
    · exact (hfree _).update rfl

/-- Retiring counts an end, and no beginning. -/
theorem retire_quiet (s : Fabric) (q : SequenceId) (x : Seq) (st : SequenceState) {count : Stats → Stats}
    (hc : count = Stats.countCancelled ∨ count = Stats.countExpired) :
    Quiet s ((s.releaseReservation q).retire q x st count) := by
  refine (s.releaseReservation_quiet q).update ?_
  rcases hc with rfl | rfl <;> rfl

theorem cancel_quiet (s : Fabric) (q : SequenceId) : Quiet s (s.cancel q).1 := by
  unfold cancel
  split
  · exact .same rfl
  · split_ifs
    · exact .same rfl
    · exact .same rfl
    · exact .same rfl
    · exact .recorded (s.retire_quiet q _ _ (.inl rfl)) rfl

theorem retry_quiet (s : Fabric) (q : SequenceId) : Quiet s (s.retry q).1 := by
  unfold retry preserveTokens
  split
  · exact .same rfl
  · simp only
    split_ifs
    any_goals exact .same rfl
    all_goals exact .event rfl

theorem reconcileWorkerDown_quiet (id : WorkerId) (s : Fabric) (q : SequenceId) :
    Quiet s (reconcileWorkerDown id s q) := by
  unfold reconcileWorkerDown
  split
  · exact .same rfl
  · split
    · exact (s.releaseReservation_quiet q).update rfl
    · exact .same rfl

theorem advanceSeq_quiet (tn : TimePoint) (s : Fabric) (q : SequenceId) : Quiet s (advanceSeq tn s q) := by
  unfold advanceSeq
  split
  · exact .same rfl
  · split_ifs
    · exact .same rfl
    · exact .recorded (s.retire_quiet q _ _ (.inr rfl)) rfl
    · exact .recorded (s.retire_quiet q _ _ (.inl rfl)) rfl
    · exact .same rfl

theorem boundarySeq_quiet (tn : TimePoint) (s : Fabric) (q : SequenceId) : Quiet s (boundarySeq tn s q) :=
  s.boundarySeq_kept (I := Quiet s) (fun t x h => h.trans (t.retire_quiet q x _ (.inr rfl)))
    (fun t x h => h.trans (t.retire_quiet q x _ (.inl rfl))) (.same rfl)

theorem collectSeq_quiet (tn : TimePoint) (acc : Fabric × List Candidate) (q : SequenceId) :
    Quiet acc.1 (collectSeq tn acc q).1 := by
  unfold collectSeq
  split
  · exact .same rfl
  · simp only
    split_ifs
    · exact .same rfl
    · exact .recorded (acc.1.releaseReservation_quiet q) rfl
    · exact .same rfl
    · exact .same rfl

theorem formStep_quiet (tn : TimePoint) (f : Forming) (c : Candidate) : Quiet f.fabric (formStep tn f c).fabric := by
  have hopen : (f.open c.key).1.fabric = f.fabric := by
    unfold Forming.open
    split <;> rfl
  unfold formStep
  rw [← hopen]
  simp only
  split
  · split <;> exact .same rfl
  · exact .same rfl

theorem ungroup_quiet (s : Fabric) (members : List SequenceId) : Quiet s (s.ungroup members) :=
  foldl_invariant (I := Quiet s) (fun _ _ h => h.update rfl) (.same rfl)

theorem dispatchGroup_quiet (tn : TimePoint) (s : Fabric) (g : Formed) (wk : WorkerId) (w : WorkerDescriptor)
    (growth : UInt64) : Quiet s (s.dispatchGroup tn g wk w growth).1 := by
  have hmembers : Quiet s (scan (dispatchMember (s.openDispatch tn g w growth).2) (s.openDispatch tn g w growth).1
      g.members).1 := by
    rw [scan_fst]
    refine foldl_invariant (I := Quiet s) ?_ (.event rfl)
    rintro ⟨t, m⟩ - ht
    unfold dispatchMember
    split
    · exact ht
    · exact .recorded ht rfl
  exact .recorded hmembers rfl

theorem placeGroup_quiet (tn : TimePoint) (acc : Fabric × List Dispatch) (g : Formed) :
    Quiet acc.1 (placeGroup tn acc g).1 := by
  unfold placeGroup
  split
  · exact .same rfl
  · split
    · exact ungroup_quiet ..
    · simp only
      split
      · exact .recorded (ungroup_quiet ..) rfl
      · exact dispatchGroup_quiet ..

theorem schedule_quiet (tn : TimePoint) (s : Fabric) : Quiet s (s.schedule tn).1 := by
  have hboundary : Quiet s (s.boundaryPass tn) :=
    foldl_invariant (I := Quiet s) (fun p _ h => h.trans (boundarySeq_quiet tn p.1 p.2)) (.same rfl)
  have hcollect : Quiet s (s.poll tn).1 :=
    foldl_invariant (I := fun a : Fabric × List Candidate => Quiet s a.1)
      (fun p _ h => h.trans (collectSeq_quiet tn p.1 p.2)) hboundary
  have hform : Quiet s (s.formedAt tn).fabric :=
    foldl_invariant (I := fun f : Forming => Quiet s f.fabric)
      (fun p _ h => h.trans (formStep_quiet tn p.1 p.2)) hcollect
  exact foldl_invariant (I := fun a : Fabric × List Dispatch => Quiet s a.1)
    (fun p _ h => h.trans (placeGroup_quiet tn p.1 p.2)) hform

theorem applyNoncommitOutcome_quiet (s : Fabric) (q : SequenceId) (x : Seq) (mo : MemberOutcome) :
    Quiet s (s.applyNoncommitOutcome q x mo) := by
  unfold applyNoncommitOutcome
  cases mo.kind with
  | retryableFailure =>
    have hrelease := s.releaseReservation_quiet mo.sequence
    simp only
    generalize s.releaseReservation mo.sequence = t at hrelease ⊢
    split
    · exact .recorded hrelease rfl
    · split <;> exact .recorded hrelease rfl
  | cancelled | expired =>
    simp only
    split
    · exact .same rfl
    · exact .event rfl
  | yielded | nonRetryableFailure => exact .event rfl
  | _ => exact .same rfl

theorem resolveNoncommit_quiet (s : Fabric) (q : SequenceId) (x : Seq) (mo : MemberOutcome) :
    Quiet s (s.resolveNoncommit q x mo) :=
  (Quiet.same (s := s) (t := s.modifySeq q endDispatch) rfl).trans
    ((releaseReservation_quiet _ q).trans (applyNoncommitOutcome_quiet _ q x mo))

theorem applyOutcome_quiet (result : DecodeExecutionResult) (s : Fabric) (mo : MemberOutcome) :
    Quiet s (applyOutcome result s mo) := by
  unfold applyOutcome
  split
  · exact .event rfl
  · split
    · exact .event rfl
    · exact .recorded (s.releaseReservation_quiet _) rfl
    · exact resolveNoncommit_quiet ..

theorem authorizeMember_quiet (prepared : PreparedDecode) (s : Fabric) (pm : PreparedMember) :
    Quiet s (authorizeMember prepared s pm).1 := by
  unfold authorizeMember
  split
  · exact .event rfl
  · split
    · unfold rejectMember staleReconcile
      simp only
      have hrelease := s.releaseReservation_quiet pm.sequence
      split <;> split
      · exact hrelease.update rfl
      · exact hrelease.update rfl
      · exact .recorded hrelease rfl
      · exact .recorded hrelease rfl
    · exact resolveNoncommit_quiet ..
    · exact .event rfl

theorem closeTransaction_quiet (s : Fabric) (x : Seq) (r : MemberReceipt) : Quiet s (s.closeTransaction x r) :=
  .recorded ((Quiet.same (s := s) (t := ({ s with
    grantLedger := s.grantLedger.modify r.grantId (GrantRecord.consume r) } : Fabric).modifySeq r.sequence
      endDispatch) rfl).trans (releaseReservation_quiet _ r.sequence)) rfl

theorem abortPrepared_quiet (s : Fabric) (a : AbortPrepared) : Quiet s (s.abortPrepared a).1 := by
  unfold abortPrepared
  split
  · exact .same rfl
  · next x _ =>
    split
    · exact .recorded ((Quiet.same (s := s) (t := { s with
        grantLedger := s.grantLedger.modify x.inFlightGrant GrantRecord.abort }) rfl).trans
        (releaseReservation_quiet _ a.sequence)) rfl
    · exact .same rfl

/-- A receipt adds to the counters of the tokens and the times, and admits nothing. -/
theorem applyReceipt_logs (s : Fabric) (r : MemberReceipt) :
    (s.applyReceipt r).registry = s.registry ∧ s.Logs (s.applyReceipt r) := by
  have hended : ∀ (b : Bool) (q : SequenceId) (x : Seq) (t : Fabric), t.registry = s.registry ∧ s.Logs t →
      (if b then t.recordCompleted q x else t).registry = s.registry ∧
        s.Logs (if b then t.recordCompleted q x else t) := by
    rintro b q x t ⟨hregistry, hlogs⟩
    cases b with
    | false => exact ⟨hregistry, hlogs⟩
    | true => exact ⟨hregistry, hlogs.recorded rfl⟩
  have hcounted : ∀ (t : Fabric) (x : Seq), t.Logs (t.countToken x r) :=
    fun _ _ => .recorded (.same rfl) rfl
  unfold applyReceipt
  split
  · exact ⟨rfl, .same rfl⟩
  · exact ⟨rfl, .recorded (.same rfl) rfl⟩
  · next x _ =>
    unfold finalize
    simp only
    have hclose := closeTransaction_quiet (x := x) (r := r)
    have hcommitted : s.Logs (s.modifySeq r.sequence (commitToken (s.finishTime r) r)) := .same rfl
    obtain ⟨hregistry, hlogs⟩ := hended ((x.commitToken (s.finishTime r) r).endsWith r) r.sequence x
      (((s.modifySeq r.sequence (commitToken (s.finishTime r) r)).countToken x r).modifySeq r.sequence
        (settle (s.finishTime r) r))
      ⟨rfl, (hcommitted.trans (hcounted _ x)).trans (.same rfl)⟩
    exact ⟨(congrArg Prod.fst (hclose _).tally).trans hregistry, hlogs.trans (hclose _).logs⟩

/-- A request adds to the admissions only. -/
theorem submit_logs (s : Fabric) (inp : DecodeRequest) :
    (s.submit inp).1.stats.meter = s.stats.meter ∧ s.Logs (s.submit inp).1 := by
  have hrefuse : ∀ kind request q reason fact, (s.refuse kind request q reason fact).1.stats.meter = s.stats.meter ∧
      s.Logs (s.refuse kind request q reason fact).1 :=
    fun _ _ _ _ _ => ⟨rfl, .recorded (.same rfl) rfl⟩
  unfold submit
  split
  · exact hrefuse ..
  · dsimp only
    split
    · exact hrefuse ..
    · split
      · exact hrefuse ..
      · split
        · split
          · exact hrefuse ..
          · exact ⟨rfl, .recorded (.same rfl) rfl⟩
        · exact ⟨rfl, .recorded (.same rfl) rfl⟩

end Fabric

/-- Only `submit` admits, and only receipts carry times to be summed up. -/
theorem exec_quiet (s : Fabric) {o : Op} (ho : ∀ inp, o ≠ .submit inp)
    (hr : ∀ receipts, o ≠ .applyCommitReceipt receipts) :
    s.Quiet (s.exec o) := by
  cases o with
  | submit inp => exact absurd rfl (ho inp)
  | cancel q => exact s.cancel_quiet q
  | cancelRequest r =>
    simp only [exec, cancelRequest]
    split
    · exact .same rfl
    · exact s.cancel_quiet _
  | retry q => exact s.retry_quiet q
  | registerWorker wd =>
    simp only [exec, registerWorker]
    split
    · exact .same rfl
    · exact .event rfl
  | markWorkerDead id =>
    exact foldl_invariant (I := s.Quiet) (fun p _ h => h.trans (reconcileWorkerDown_quiet id p.1 p.2))
      (.event rfl)
  | rollEpoch => exact .event rfl
  | advance tn =>
    exact foldl_invariant (I := s.Quiet) (fun p _ h => h.trans (advanceSeq_quiet tn p.1 p.2)) (.same rfl)
  | schedule tn => exact s.schedule_quiet tn
  | applyCompletion result =>
    exact foldl_invariant (I := s.Quiet) (fun p _ h => h.trans (applyOutcome_quiet result p.1 p.2)) (.same rfl)
  | authorizePrepared prepared =>
    show s.Quiet (scan (authorizeMember prepared) s prepared.members).1
    rw [scan_fst]
    exact foldl_invariant (I := s.Quiet) (fun p _ h => h.trans (authorizeMember_quiet prepared p.1 p.2))
      (.same rfl)
  | applyCommitReceipt receipts => exact absurd rfl (hr receipts)
  | abortPrepared a => exact s.abortPrepared_quiet a

theorem applyCommitReceipt_logs (s : Fabric) (receipts : ReceiptDecode) :
    (s.applyCommitReceipt receipts).1.registry = s.registry ∧ s.Logs (s.applyCommitReceipt receipts).1 := by
  refine foldl_invariant (I := fun t : Fabric => t.registry = s.registry ∧ s.Logs t) ?_ ⟨rfl, .same rfl⟩
  rintro ⟨t, r⟩ - ⟨hregistry, hlogs⟩
  obtain ⟨hregistry', hlogs'⟩ := t.applyReceipt_logs r
  exact ⟨hregistry'.trans hregistry, hlogs.trans hlogs'⟩

/-! Whole lives. -/

theorem exec_logs (s : Fabric) (o : Op) : s.Logs (s.exec o) := by
  by_cases ho : ∃ inp, o = .submit inp
  · obtain ⟨inp, rfl⟩ := ho
    exact (s.submit_logs inp).2
  · by_cases hr : ∃ receipts, o = .applyCommitReceipt receipts
    · obtain ⟨receipts, rfl⟩ := hr
      exact (applyCommitReceipt_logs s receipts).2
    · exact (exec_quiet s (not_exists.mp ho) (not_exists.mp hr)).logs

theorem recoverState_logs (s : Fabric) (bytes : Bytes) : s.Logs (s.recoverState bytes).1 := by
  unfold recoverState
  split
  · exact .same rfl
  · split
    · exact .same rfl
    · next hd rest _ =>
      have hledger : Upholds s.Logs (recoverGrants >>= fun _ => recoverReceiptCount) :=
        recoverLedger_upholds (fun _ h => h.trans (.same rfl)) (fun _ _ h => h.trans (.same rfl))
          fun _ _ h => h.recorded rfl
      exact recoverTables_upholds readSeq_grounded (fun _ _ _ h => h.trans (.same rfl))
        (fun _ _ h => h.trans (.same rfl)) hledger rest (s.restart hd) (.same rfl)

theorem LifeNext.logs {s t : Fabric} {c : LifeCall} (h : LifeNext s c t) : s.Logs t := by
  cases h with
  | call hn =>
    cases hn with
    | op o => exact exec_logs s o
    | tick | rehash => exact .same rfl
  | recover bytes => exact recoverState_logs s bytes

theorem lives_logs {s t : Fabric} {h : Lifetime} (hr : Run LifeNext s h t) : s.Logs t := by
  induction hr with
  | nil => exact .same rfl
  | snoc _ hn ih => exact ih.trans hn.logs

namespace Fabric
variable {s t : Fabric} {es : List Event} {l : List (Fabric × Event)}

/-- The log of `s` was written from nothing by recording `es`. -/
structure Wrote (s : Fabric) (es : List Event) : Prop where
  ring : s.ring = RingBuffer.pushAll s.cfg.eventCapacity es
  ids : ∀ i e, es[i]? = some e → e.id = min i s.cfg.eventCapacity + 1

theorem Wrote.recordEvent (hs : s.Wrote es) (kind : EventKind) (request : RequestId) (q : SequenceId) (detail : Bytes) :
    (s.recordEvent kind request q detail).Wrote (es ++ [s.eventOf kind request q detail]) := by
  constructor
  · rw [recordEvent_ring, hs.ring]
    exact (RingBuffer.pushAll_snoc _ _).symm
  · intro i e he
    have hlength : s.events.length = min es.length s.cfg.eventCapacity :=
      (congrArg (fun r => r.slots.length) hs.ring).trans (RingBuffer.pushAll_length _ es)
    rcases Nat.lt_trichotomy i es.length with hi | rfl | hi
    · rw [getElem?_append_left hi] at he
      exact hs.ids i e he
    · rw [getElem?_concat_length] at he
      cases he
      exact congrArg (· + 1) hlength
    · rw [getElem?_eq_none (by simp; omega)] at he
      cases he

theorem Logged.wrote (h : Logged s l t) (hs : s.Wrote es) :
    t.cfg = s.cfg ∧ t.Wrote (es ++ l.map Prod.snd) ∧
      ∀ p ∈ l, p.1.ring.InRange p.1.cfg.eventCapacity ↔ 0 < s.cfg.eventCapacity := by
  induction h generalizing es with
  | quiet hring hcfg =>
    refine ⟨hcfg, ?_, fun _ hp => absurd hp not_mem_nil⟩
    rw [map_nil, append_nil]
    exact ⟨by rw [hring, hcfg, hs.ring], hcfg ▸ hs.ids⟩
  | event s kind request q detail =>
    refine ⟨rfl, hs.recordEvent kind request q detail, ?_⟩
    intro p hp
    rw [mem_singleton.mp hp]
    constructor
    · intro h
      change s.events.length < s.cfg.eventCapacity ∨ (s.eventHead < s.events.length ∧ s.cfg.eventCapacity ≠ 0) at h
      omega
    · intro hpos
      rw [hs.ring]
      exact RingBuffer.pushAll_inRange hpos es
  | trans _ _ ih ih' =>
    obtain ⟨hcfg, hwrote, hrange⟩ := ih hs
    obtain ⟨hcfg', hwrote', hrange'⟩ := ih' hwrote
    refine ⟨hcfg'.trans hcfg, ?_, ?_⟩
    · rw [map_append, ← append_assoc]
      exact hwrote'
    · intro p hp
      rcases mem_append.mp hp with hp | hp
      · exact hrange p hp
      · exact hcfg ▸ hrange' p hp

theorem Wrote.increasing (hs : s.Wrote es) (h : es.length ≤ s.cfg.eventCapacity) :
    (es.map Event.id).Pairwise (· < ·) := by
  rw [pairwise_map, pairwise_iff_getElem]
  intro i j hi hj hij
  rw [hs.ids i _ (getElem?_eq_getElem hi), hs.ids j _ (getElem?_eq_getElem hj)]
  omega

/-- Once a log of more than one event has wrapped, its first id is the largest there is. -/
theorem Wrote.unordered (hs : s.Wrote es) (h : s.cfg.eventCapacity < es.length) (hcap : 1 < s.cfg.eventCapacity) :
    ¬ (s.events.map Event.id).Pairwise (· < ·) := by
  have hslots : s.events = (RingBuffer.pushAll s.cfg.eventCapacity es).slots := congrArg RingBuffer.slots hs.ring
  obtain ⟨a, ha, hfront⟩ := RingBuffer.pushAll_front (by omega) h
  have hlength := RingBuffer.pushAll_length s.cfg.eventCapacity es
  rw [← hslots] at hfront hlength
  intro hids
  rw [pairwise_map, pairwise_iff_getElem] at hids
  have hlt := hids 0 1 (by omega) (by omega) Nat.zero_lt_one
  have hfirst : s.events[0].id = s.cfg.eventCapacity + 1 := by
    obtain ⟨i, hi⟩ := mem_iff_getElem?.mp ha
    rw [getElem?_drop] at hi
    rw [getElem?_eq_getElem (by omega)] at hfront
    rw [Option.some.inj hfront, hs.ids _ _ hi]
    omega
  have hsecond : s.events[1].id ≤ s.cfg.eventCapacity + 1 := by
    have hmem : s.events[1] ∈ es := by
      apply mem_of_mem_drop
      rw [← RingBuffer.pushAll_rotate (Nat.lt_of_succ_lt hcap) es, mem_rotate, ← hslots]
      exact getElem_mem _
    obtain ⟨i, hi⟩ := mem_iff_getElem?.mp hmem
    rw [hs.ids i _ hi]
    omega
  omega

end Fabric

/-- Every life records some events, one after the other. The recordings are all in range and `events()` returns the last
    of them in order, with increasing ids, until the ring wraps, and after that only if it has a single slot.
    Read from the write index on, the ring holds the last ones throughout. -/
theorem events_last_iff {cfg : Config} {clock : TimePoint} {h : Lifetime} {s : Fabric}
    (hr : Run LifeNext (init cfg clock) h s) :
    (init cfg clock).Logs s ∧
    ∀ l, (init cfg clock).Logged l s →
      (((∀ p ∈ l, p.1.ring.InRange p.1.cfg.eventCapacity) ∧
          s.events = (l.map Prod.snd).drop (l.length - cfg.eventCapacity) ∧
          (s.events.map Event.id).Pairwise (· < ·)) ↔
        l.length ≤ cfg.eventCapacity ∨ cfg.eventCapacity = 1) ∧
      (0 < cfg.eventCapacity → s.events.rotate s.eventHead = (l.map Prod.snd).drop (l.length - cfg.eventCapacity)) := by
  refine ⟨lives_logs hr, ?_⟩
  intro l hl
  have hstart : (init cfg clock).Wrote [] := ⟨rfl, fun _ _ he => by cases he⟩
  obtain ⟨hcfg, hwrote, hrange⟩ := hl.wrote hstart
  change s.cfg = cfg at hcfg
  change ∀ p ∈ l, _ ↔ 0 < cfg.eventCapacity at hrange
  rw [nil_append] at hwrote
  have hn : (l.map Prod.snd).length = l.length := length_map _
  have hring := hcfg ▸ hwrote.ring
  have hslots : s.events = (RingBuffer.pushAll cfg.eventCapacity (l.map Prod.snd)).slots :=
    congrArg RingBuffer.slots hring
  have hrotate : 0 < cfg.eventCapacity →
      s.events.rotate s.eventHead = (l.map Prod.snd).drop (l.length - cfg.eventCapacity) := by
    intro hpos
    have hlast := RingBuffer.pushAll_rotate hpos (l.map Prod.snd)
    rw [← hring, hn] at hlast
    exact hlast
  refine ⟨⟨?_, ?_⟩, hrotate⟩
  · rintro ⟨hsafe, -, hids⟩
    by_contra hnot
    cases l with
    | nil => exact hnot (.inl (Nat.zero_le _))
    | cons p l =>
      have hpos := (hrange p mem_cons_self).mp (hsafe p mem_cons_self)
      exact hwrote.unordered (by rw [hcfg]; omega) (by rw [hcfg]; omega) hids
  · intro hcase
    by_cases hroom : l.length ≤ cfg.eventCapacity
    · have hevents : s.events = l.map Prod.snd :=
        hslots.trans (congrArg RingBuffer.slots (RingBuffer.pushAll_room (by omega)))
      refine ⟨?_, ?_, ?_⟩
      · intro p hp
        exact (hrange p hp).mpr (by have := length_pos_of_mem hp; omega)
      · rw [hevents, Nat.sub_eq_zero_of_le hroom, drop_zero]
      · rw [hevents]
        exact hwrote.increasing (by rw [hcfg, hn]; exact hroom)
    · have hone : cfg.eventCapacity = 1 := hcase.resolve_left hroom
      have hlength : s.events.length = 1 := by
        rw [hslots, RingBuffer.pushAll_length, hone]
        omega
      obtain ⟨e, he⟩ := length_eq_one_iff.mp hlength
      refine ⟨fun p hp => (hrange p hp).mpr (by omega), ?_, ?_⟩
      · rw [← hrotate (by omega), he, rotate_singleton]
      · rw [he]
        exact pairwise_singleton _ _

namespace Sample

/-- A fabric with room for some events, after some roll-overs of its epoch. -/
def rolled (capacity n : Nat) : Fabric := (init { eventCapacity := capacity } 0).execAll (replicate n .rollEpoch)

theorem rolled_logged : ∃ l, (rolled 2 0).Logged l (rolled 2 2) ∧ l.length = 2 := by
  have hevent : ∀ s : Fabric, ∃ p, s.Logged [p] (s.exec .rollEpoch) := by
    intro s
    have hepoch : s.Logged [] { s with epoch := s.epoch + 1 } := .quiet rfl rfl
    exact ⟨_, hepoch.trans (.event ..)⟩
  obtain ⟨p, hp⟩ := hevent (rolled 2 0)
  obtain ⟨p', hp'⟩ := hevent (rolled 2 1)
  exact ⟨[p] ++ [p'], hp.trans hp', rfl⟩

end Sample

/-- Two events in a log of two. -/
theorem events_last_iff_full : ∃ l, (rolled 2 0).Logged l (rolled 2 2) ∧ l.length = 2 ∧
    (rolled 2 2).events = l.map Prod.snd := by
  obtain ⟨l, hl, hn⟩ := rolled_logged
  have hrun : Run LifeNext (rolled 2 0) (lifetime (trace (rolled 2 0) [.rollEpoch, .rollEpoch]))
      (rolled 2 2) := run_lifetime (trace_run _ _)
  obtain ⟨-, hall⟩ := events_last_iff hrun
  have hlast := ((hall l hl).1.mpr (.inl (Nat.le_of_eq hn))).2.1
  rw [hn] at hlast
  exact ⟨l, hl, hn, hlast⟩

/-- The third event of a log of two stands before the second, with the id the next one will have as well; and a log
    of none is written to out of range. -/
theorem events_wrapped : (rolled 2 3).events.map Event.id = [3, 2] ∧
    (rolled 2 4).events.map Event.id = [3, 3] ∧ ¬ (rolled 0 0).ring.InRange 0 := by
  refine ⟨rfl, rfl, ?_⟩
  rintro (h | ⟨-, h⟩)
  · exact Nat.not_lt_zero _ h
  · exact h rfl

end DecodeFabric
