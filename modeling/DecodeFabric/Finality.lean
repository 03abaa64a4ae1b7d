import DecodeFabric.Redispatch
import DecodeFabric.Requeue

/- How a sequence ends.

   A sequence is closing once it is terminal or its cancellation is requested. No message can
   advance a closing sequence: authorization and finalization reject it, retry and the
   scheduler pass it by, and the lifecycle leads on only to a terminal state, which has no way
   out (`Seq.Closed`, `run_closed`). What differs is how a sequence comes to be closing:
   `cancel` reports success without looking whether the lifecycle took the move, and from
   RetryableFailure there is no edge to Cancelled. -/
namespace DecodeFabric
open Lib Table Fabric Sample SequenceState DecodeFabric.Seq
variable {a : Act} {e : Edge Fabric Call} {h : History} {q : SequenceId} {st : SequenceState}

/-- Terminal, or on the way there by a requested cancellation. -/
def SequenceState.closing (st : SequenceState) : Bool := st.isTerminal || decide (st = .cancelRequested)

theorem SequenceState.move_terminal (h : st.isTerminal = true) (st' : SequenceState) : st.move st' = st := by
  simp [move_eq, canTransition, h]

/-- The lifecycle leads from closing to closing, and from a terminal state nowhere. -/
theorem SequenceState.closing_move (h : st.closing = true) (st' : SequenceState) : (st.move st').closing = true := by
  by_cases ht : st.isTerminal = true
  · rw [move_terminal ht]
    exact h
  · have hreq : st = .cancelRequested := by simpa [closing, ht] using h
    subst hreq
    rw [move_eq]
    split
    · next hcan =>
      have hmem : cancelRequested ≠ st' ∧ (st' = .cancelled ∨ st' = .deadlineExpired ∨ st' = .completed) := by
        simpa [canTransition, isTerminal, successors] using hcan
      rcases hmem.2 with rfl | rfl | rfl <;> rfl
    · rfl

theorem SequenceState.closing_idle (h : st.closing = true) :
    st.isCandidate = false ∧ st ≠ .dispatched ∧ st ≠ .running ∧ st ≠ .retryableFailure := by
  cases st <;> first | decide | cases h

theorem SequenceState.not_closing (hlive : st.isTerminal = false) (hcan : st ≠ .cancelRequested) :
    st.closing = false := by
  unfold closing
  simp [hlive, hcan]

namespace Seq

/-- What a sequence has achieved: everything the commit protocol and the retry policy count. -/
structure Record where
  generated : UInt64
  committed : UInt64
  generation : DecodeGeneration
  currentLength : UInt64
  budget : TokenBudget
  committedStateDigest : UInt64
  stateDigestEstablished : Bool
  accepted : AcceptedGeneration
  hasAccepted : Bool
  currentAttempt : AttemptId
  attemptCount : UInt32

def record (x : Seq) : Record where
  generated := x.generated
  committed := x.committed
  generation := x.generation
  currentLength := x.currentLength
  budget := x.budget
  committedStateDigest := x.committedStateDigest
  stateDigestEstablished := x.stateDigestEstablished
  accepted := x.accepted
  hasAccepted := x.hasAccepted
  currentAttempt := x.currentAttempt
  attemptCount := x.attemptCount

/-- `y` is what has become of the closing sequence `x`. -/
structure Closed (x y : Seq) : Prop where
  record : y.record = x.record
  closing : y.machine.closing = true
  terminal : x.machine.isTerminal = true → y.machine = x.machine

namespace Closed
variable {x y z : Seq}

theorem refl (h : x.machine.closing = true) : x.Closed x := ⟨rfl, h, fun _ => rfl⟩

theorem of_same (h : x.Closed y) (hr : z.record = y.record) (hm : z.machine = y.machine) : x.Closed z :=
  ⟨hr.trans h.record, hm ▸ h.closing, fun ht => hm.trans (h.terminal ht)⟩

theorem move (h : x.Closed y) (st : SequenceState) (hr : z.record = y.record) (hm : z.machine = y.machine.move st) :
    x.Closed z := by
  refine ⟨hr.trans h.record, hm ▸ closing_move h.closing st, fun ht => ?_⟩
  have hy := h.terminal ht
  rw [hm, move_terminal (hy ▸ ht), hy]

theorem not_executing (h : x.Closed y) : y.executing = false := by
  obtain ⟨-, hd, hr, -⟩ := closing_idle h.closing
  simp [executing, hd, hr]

end Closed
end Seq

/-- A retry's own changes apart. -/
def Act.Spares : Act → Prop
  | .seq _ .rollBackTokens => False
  | .seq _ (.beginAttempt _ _) => False
  | _ => True

theorem mayPerform_spares {c : Call} (hr : ∀ q, c ≠ .op (.retry q)) (ha : c.MayPerform a) : a.Spares := by
  cases c with
  | tick now | rehash => cases ha; trivial
  | op o =>
    cases a with
    | seq q so =>
      cases o with
      | retry r => exact absurd rfl (hr r)
      | schedule tn => rcases ha with rfl | rfl | rfl | rfl | rfl | ⟨d, rfl⟩ <;> trivial
      | cancel r => rcases ha with ⟨-, rfl | rfl⟩ <;> trivial
      | cancelRequest r => rcases ha with rfl | rfl <;> trivial
      | markWorkerDead id => obtain ⟨now, rfl⟩ := ha; trivial
      | advance tn => rcases ha with rfl | rfl <;> trivial
      | applyCompletion result => rcases ha with rfl | rfl | ⟨cfg, at', now, mo, rfl⟩ <;> trivial
      | authorizePrepared prepared => rcases ha with ⟨now, rfl⟩ | rfl | ⟨cfg, at', now, mo, rfl⟩ <;> trivial
      | _ => exact False.elim ha
    | _ => trivial

section Step
variable {s t : Fabric} {q : SequenceId} {x y z : Seq}

/-- Nothing that needs a live sequence happens to a closing one. -/
theorem Seq.Closed.not_live (h : x.Closed y) (hlive : y.machine.isTerminal = false)
    (hcan : y.machine ≠ .cancelRequested) : False := by
  have hno := not_closing hlive hcan
  rw [h.closing] at hno
  cases hno

theorem Seq.Closed.seqOp (h : x.Closed y) {o : SeqOp} (ho : Act.Spares (.seq q o)) (hg : o.Guard s y) :
    x.Closed (o.apply y) := by
  cases o with
  | release | disown => exact h.of_same rfl rfl
  | moveTo st | retire st => exact h.move st rfl rfl
  | rollBackTokens | beginAttempt _ _ => exact False.elim ho
  | enterGroup tn => exact h.move .grouped rfl rfl
  | dispatchUnder d => exact (h.move (z := y.moveTo .reserved) .reserved rfl rfl).move .dispatched rfl rfl
  | workerDown now | reconcile now => exact h.of_same rfl (if_neg (Bool.eq_false_iff.mp h.not_executing))
  | resolve cfg attempt now mo => exact (h.not_live hg.2.2.1 hg.2.2.2).elim

theorem micro_closed (hm : Micro s a t) (ha : a.Spares) (hy : s.seqs.find? q = some y) (h : x.Closed y) :
    ∃ z, t.seqs.find? q = some z ∧ x.Closed z := by
  obtain ⟨z, hz, rfl | hc⟩ := hm.seq_after hy
  · exact ⟨z, hz, h⟩
  · refine ⟨z, hz, ?_⟩
    cases hc with
    | seq o hg => exact h.seqOp ha hg
    | issue prepared pm _ hv =>
      have hgr := prepareVerdict_grant hv
      exact (h.not_live hgr.live hgr.notCancelling).elim
    | finalize r _ hv =>
      have hfin := receiptVerdict_finalize hv
      exact (h.not_live hfin.live hfin.notCancelling).elim
    | abort _ => exact h.of_same rfl (if_neg (Bool.eq_false_iff.mp h.not_executing))

theorem issuedAt_closed (hm : Micro s a t) (hy : s.seqs.find? q = some y) (h : x.Closed y) :
    ∀ g ∈ issuedAt ⟨s, a, t⟩, g.sequence ≠ q := by
  intro g hg
  cases hm with
  | issue prepared pm hw hv _ _ =>
    rw [List.mem_singleton.mp hg]
    change pm.sequence ≠ q
    rintro rfl
    cases hw.symm.trans hy
    have hgr := prepareVerdict_grant hv
    exact h.not_live hgr.live hgr.notCancelling
  | _ => cases hg

/-- A retry passes a closing sequence by. -/
theorem retry_closed (r : SequenceId) (hy : s.seqs.find? q = some y) (h : y.machine.closing = true) :
    (s.retry r).1.seqs.find? q = some y := by
  by_cases hrq : r = q
  · subst hrq
    obtain ⟨-, hd, hr, hf⟩ := closing_idle h
    simp only [retry, hy, hd, hr, hf, or_self, if_false]
  · have hsteps := s.retry_steps r (A := fun a => ∃ o, a = .seq r o) ⟨_, rfl⟩ ⟨_, rfl⟩ (fun _ => ⟨_, rfl⟩)
    refine hsteps.invariant (I := fun u => u.seqs.find? q = some y) ?_ hy
    rintro u v a hm ha hu
    rcases ha with rfl | ⟨o, rfl⟩
    · cases hm with
      | note hs _ => exact hs ▸ hu
    · cases hm with
      | seq _ _ _ hs _ => rw [hs, find?_modify_ne (Ne.symm hrq)]; exact hu

/-! Calls. -/

/-- Whatever is called, a closing sequence keeps what it has achieved and is granted nothing. -/
theorem next_closed {c : Call} (hn : Next s c t) (h0 : s.nextDispatch ≠ 0) (hy : s.seqs.find? q = some y)
    (h : x.Closed y) : (∃ z, t.seqs.find? q = some z ∧ x.Closed z) ∧ ∀ g ∈ issuedBy ⟨s, c, t⟩, g.sequence ≠ q := by
  by_cases hretry : ∃ r, c = .op (.retry r)
  · obtain ⟨r, rfl⟩ := hretry
    cases hn with
    | op _ => exact ⟨⟨y, retry_closed r hy h.closing, h⟩, fun g hg => by cases hg⟩
  · obtain ⟨m, hr, hm, hissued, -⟩ := next_traced hn h0
    rw [← hissued]
    let I (u : Fabric) : Prop := ∃ y, u.seqs.find? q = some y ∧ x.Closed y
    have hstep : ∀ e : Edge Fabric Act, Micro e.pre e.label e.post → e.label = .note ∨ c.MayPerform e.label →
        I e.pre → I e.post ∧ ∀ g ∈ issuedAt e, g.sequence ≠ q := by
      rintro e he ha ⟨z, hz, hc⟩
      have hsp : e.label.Spares := by
        rcases ha with hnote | ha
        · rw [hnote]; trivial
        · exact mayPerform_spares (fun r hr => hretry ⟨r, hr⟩) ha
      exact ⟨micro_closed he hsp hz hc, issuedAt_closed he hz hc⟩
    have hI : I s := ⟨y, hy, h⟩
    exact ⟨hr.invariant (I := I) (fun e he ha hi => (hstep e he ha hi).1) hm hI, hr.outputs hstep hm hI⟩

/-- No tick sends a closing sequence. -/
theorem emitted_not_closed (hn : Next e.pre e.label e.post) (hy : e.pre.seqs.find? q = some y)
    (h : x.Closed y) : ∀ m ∈ emittedBy e, m.sequence ≠ q := by
  intro m hm heq
  obtain ⟨tn, he⟩ := emitted_edge hn hm
  rw [he] at hm
  obtain ⟨z, d, hz, -, hcand, -⟩ := emitted_spec hm
  obtain rfl := Option.some.inj ((heq ▸ hz).symm.trans hy)
  rw [(closing_idle h.closing).1] at hcand
  cases hcand

/-- The calls of a run from a closing sequence on: it stays as it is, and nothing is granted or sent. -/
theorem run_closed (hr : Run Next s h t) (h0 : s.nextDispatch ≠ 0) (hx : s.seqs.find? q = some x)
    (hc : x.machine.closing = true) : (∃ y, t.seqs.find? q = some y ∧ x.Closed y) ∧
      ∀ e ∈ h, Next e.pre e.label e.post ∧ (∃ y, e.pre.seqs.find? q = some y ∧ x.Closed y) ∧
        (∀ g ∈ issuedBy e, g.sequence ≠ q) ∧ ∀ m ∈ emittedBy e, m.sequence ≠ q := by
  let I (u : Fabric) : Prop := u.nextDispatch ≠ 0 ∧ ∃ y, u.seqs.find? q = some y ∧ x.Closed y
  have hstep : ∀ e : Edge Fabric Call, Next e.pre e.label e.post → True → I e.pre → I e.post := by
    rintro e hn - ⟨hd, y, hy, hcl⟩
    exact ⟨(run_traced (Run.single hn) hd).2, (next_closed hn hd hy hcl).1⟩
  have hI : I s := ⟨h0, x, hx, Seq.Closed.refl hc⟩
  refine ⟨(hr.invariant hstep (fun _ _ => trivial) hI).2, fun e he => ?_⟩
  obtain ⟨⟨hd, y, hy, hcl⟩, hn⟩ := hr.invariant_at hstep (fun _ _ => trivial) hI he
  exact ⟨hn, ⟨y, hy, hcl⟩, (next_closed hn hd hy hcl).2, emitted_not_closed hn hy hcl⟩

end Step

/-- Terminal sequences are frozen: in every continuation the lifecycle state and everything achieved stay as they
    are, and the sequence is neither granted nor sent. -/
theorem terminal_frozen {s t : Fabric} {h : History} (hs : Reachable s) {q : SequenceId} {x : Seq}
    (hx : s.seqs.find? q = some x) (hterm : x.machine.isTerminal = true) (hr : Run Next s h t) :
    (∃ y, t.seqs.find? q = some y ∧ y.machine = x.machine ∧ y.record = x.record) ∧
      ∀ e ∈ h, (∀ g ∈ issuedBy e, g.sequence ≠ q) ∧ ∀ m ∈ emittedBy e, m.sequence ≠ q := by
  have hc : x.machine.closing = true := by simp [closing, hterm]
  obtain ⟨⟨y, hy, hcl⟩, hedges⟩ := run_closed hr (Nat.ne_of_gt (reachable_nextDispatch hs)) hx hc
  exact ⟨⟨y, hy, hcl.terminal hterm, hcl.record⟩, fun e he => (hedges e he).2.2⟩

/-- The sample sequence is cancelled before its first step. -/
def Sample.withdrawn : List Op := [.registerWorker (worker 1 1), .submit request, .cancel 1]

theorem terminal_frozen_withdrawn :
    ∃ x, (start.execAll withdrawn).seqs.find? 1 = some x ∧ x.machine = .cancelled ∧
      (∃ y, (start.execAll (withdrawn ++ [.retry 1, .schedule 1])).seqs.find? 1 = some y ∧
        y.machine = x.machine ∧ y.record = x.record) ∧
      ∀ e ∈ trace (start.execAll withdrawn) [.retry 1, .schedule 1],
        (∀ g ∈ issuedBy e, g.sequence ≠ 1) ∧ ∀ m ∈ emittedBy e, m.sequence ≠ 1 := by
  obtain ⟨x, hx, hm⟩ : ∃ x, (start.execAll withdrawn).seqs.find? 1 = some x ∧ x.machine = .cancelled :=
    ⟨_, rfl, by decide⟩
  have hrun : Run Next (start.execAll withdrawn) _ _ := trace_run _ [.retry 1, .schedule 1]
  have hfrozen := terminal_frozen ⟨_, runsTo withdrawn⟩ hx (by rw [hm]; rfl) hrun
  exact ⟨x, hx, hm, hfrozen⟩

/-! Boundary processing. -/

section Boundary
variable {x : Seq}

/-- At a boundary a closing sequence ends. -/
theorem Seq.boundary_terminal (tn : TimePoint) (h : x.machine.closing = true) :
    (x.boundary tn).machine.isTerminal = true := by
  unfold boundary
  split
  · next ht => exact ht
  · next ht =>
    have hreq : x.machine = .cancelRequested := by simpa [closing, ht] using h
    have hexp : (SeqOp.apply (.retire .deadlineExpired) x).machine = .deadlineExpired := by
      change x.machine.move .deadlineExpired = .deadlineExpired
      rw [hreq]
      rfl
    have hcan : (SeqOp.apply (.retire .cancelled) x).machine = .cancelled := by
      change x.machine.move .cancelled = .cancelled
      rw [hreq]
      rfl
    cases x.deadlineReached tn with
    | true =>
      simp only [if_true, hexp, reduceCtorEq, if_false]
      rfl
    | false =>
      simp only [Bool.false_eq_true, if_false, hreq, if_true, hcan]
      rfl

end Boundary

/-! Cancellation. -/

/-- Operation `o` asks for the cancellation of sequence `q` and is told that it is cancelled. -/
def Fabric.Cancels (s : Fabric) (q : SequenceId) : Op → Prop
  | .cancel q' => q' = q ∧ (s.cancel q').2.cancelled = true
  | .cancelRequest r => s.reqToSeq.find? r = some q ∧ (s.cancelRequest r).2.cancelled = true
  | _ => False

/-- Calls that process boundaries. -/
def Call.isBoundary : Call → Bool
  | .op (.advance _) | .op (.schedule _) => true
  | _ => false

/-- What a cancellation of `q`, found as `x`, promises of the calls `h` that lead to `t`. -/
structure CancelKept (q : SequenceId) (x : Seq) (h : History) (t : Fabric) : Prop where
  tokens : ∃ y, t.seqs.find? q = some y ∧ y.generated = x.generated ∧ y.generation = x.generation
  unsent : ∀ e ∈ h, ∀ m ∈ emittedBy e, m.sequence ≠ q
  ended : ∀ e ∈ h, e.label.isBoundary = true → ∃ y, e.post.seqs.find? q = some y ∧ y.machine.isTerminal = true

/-- Where `cancel` tries to take a sequence. -/
def SequenceState.cancelMove (st : SequenceState) : SequenceState :=
  if st = .dispatched ∨ st = .running ∨ st = .reserved ∨ st = .grouped then st.move .cancelRequested
  else st.move .cancelled

/-- Between calls, `cancel` closes every sequence it accepts but one in RetryableFailure. -/
theorem SequenceState.cancelMove_closing (hrest : st.atRest = true)
    (hf : st ≠ .retryableFailure) : st.cancelMove.closing = true := by
  cases st <;> first | decide | exact absurd rfl hf | cases hrest

section Cancel
variable {s : Fabric} {q : SequenceId} {x : Seq}

theorem Fabric.Cancels.exec {o : Op} (h : s.Cancels q o) : s.exec o = (s.cancel q).1 ∧
    (s.cancel q).2.cancelled = true := by
  cases o with
  | cancel q' =>
    obtain ⟨rfl, hc⟩ := h
    exact ⟨rfl, hc⟩
  | cancelRequest r =>
    obtain ⟨hq, hc⟩ := h
    simp only [Fabric.exec, Fabric.cancelRequest, hq] at hc ⊢
    exact ⟨trivial, hc⟩
  | _ => exact False.elim h

/-- A cancellation that reports success has tried the move, and changed nothing else that counts. -/
theorem cancelled_spec (hx : s.seqs.find? q = some x) (hc : (s.cancel q).2.cancelled = true) :
    ∃ y, (s.cancel q).1.seqs.find? q = some y ∧ y.record = x.record ∧ y.machine = x.machine.cancelMove := by
  unfold cancel cancelMove at *
  simp only [hx] at hc ⊢
  split at hc
  · cases hc
  · next ht =>
    split at hc
    · cases hc
    · next hreq =>
      rw [if_neg ht, if_neg hreq]
      split
      · refine ⟨x.moveTo .cancelRequested, ?_, rfl, rfl⟩
        rw [modifySeq_seqs, find?_modify_self, hx]
        rfl
      · refine ⟨SeqOp.apply (.retire .cancelled) x, ?_, rfl, rfl⟩
        rw [recordEvent_seqs, release_retire_seqs, find?_modify_self, hx]
        rfl

end Cancel

/-- Boundary processing ends a closing sequence. -/
theorem boundary_ends (hn : Next e.pre e.label e.post) (hb : e.label.isBoundary = true)
    {x : Seq} (hx : e.pre.seqs.find? q = some x) (hc : x.machine.closing = true) :
    ∃ y, e.post.seqs.find? q = some y ∧ y.machine.isTerminal = true := by
  obtain ⟨s, c, t⟩ := e
  change Next s c t at hn
  cases hn with
  | op o =>
    cases o with
    | advance tn =>
      refine ⟨x.boundary tn, ?_, boundary_terminal tn hc⟩
      change (s.advance tn).1.seqs.find? q = _
      rw [advance_find?, hx]
      rfl
    | schedule tn =>
      obtain ⟨sent, htick⟩ := s.schedule_spec tn
      obtain ⟨y, hy, hxy⟩ := htick.seq_after hx
      refine ⟨y, hy, ?_⟩
      have hcand := (closing_idle hc).1
      cases hxy with
      | polled =>
        have hterm := boundary_terminal tn hc
        have hidle : (x.boundary tn).machine.isCandidate = false :=
          (closing_idle (by simp [closing, hterm])).1
        simp only [polled, collected, hidle, Bool.false_eq_true, false_and, if_false]
        exact hterm
      | putBack hyes _ | sent _ _ hyes _ =>
        rw [hcand] at hyes
        cases hyes
    | _ => cases hb
  | tick now | rehash _ _ _ _ => cases hb

/-- From a closing sequence on, the promise of a cancellation is kept. -/
theorem cancelKept_of_closing {s t : Fabric} (hr : Run Next s h t) (h0 : s.nextDispatch ≠ 0)
    {x y : Seq} (hy : s.seqs.find? q = some y) (hrec : y.record = x.record)
    (hc : y.machine.closing = true) : CancelKept q x h t := by
  obtain ⟨⟨z, hz, hcl⟩, hedges⟩ := run_closed hr h0 hy hc
  have hzrec : z.record = x.record := hcl.record.trans hrec
  refine ⟨⟨z, hz, congrArg Seq.Record.generated hzrec, congrArg Seq.Record.generation hzrec⟩,
    fun e he => (hedges e he).2.2.2, ?_⟩
  intro e he hb
  obtain ⟨hn, ⟨w, hw, hwc⟩, -⟩ := hedges e he
  exact boundary_ends hn hb hw hwc.closing

/-- A sequence in RetryableFailure outlives boundary processing. -/
theorem Seq.boundary_retryable {x : Seq} (h : x.machine = .retryableFailure) (tn : TimePoint) :
    (x.boundary tn).machine = .retryableFailure := by
  have hexp : (SeqOp.apply (.retire .deadlineExpired) x).machine = .retryableFailure := by
    change x.machine.move .deadlineExpired = .retryableFailure
    rw [h]
    rfl
  unfold boundary
  rw [h]
  cases x.deadlineReached tn with
  | true => simp [isTerminal, hexp]
  | false => simp [isTerminal, h]

/-- A cancellation that reports success is final exactly if it does not meet the sequence in RetryableFailure, from
    where no edge leads to Cancelled. -/
theorem cancel_final_iff {s : Fabric} (hs : Reachable s) {q : SequenceId} {x : Seq} (hx : s.seqs.find? q = some x)
    {o : Op} (ho : s.Cancels q o) :
    (∀ h t, Run Next (s.exec o) h t → (∀ e ∈ h, e.label.NamesDispatch) → CancelKept q x h t) ↔
      x.machine ≠ .retryableFailure := by
  obtain ⟨hexec, hc⟩ := ho.exec
  obtain ⟨y, hy, hrec, hmove⟩ := cancelled_spec hx hc
  rw [← hexec] at hy
  constructor
  · intro hkept hf
    have hadv := hkept _ _ (Run.single (Next.op (s.exec o) (.advance 0))) (by simp [Call.NamesDispatch])
    obtain ⟨z, hz, hterm⟩ := hadv.ended _ (List.mem_singleton_self _) rfl
    have hyf : y.machine = .retryableFailure := by
      rw [hmove, hf]
      rfl
    have hstay := boundary_retryable hyf 0
    change ((s.exec o).advance 0).1.seqs.find? q = some z at hz
    rw [advance_find?, hy] at hz
    obtain rfl : y.boundary 0 = z := Option.some.inj hz
    rw [hstay] at hterm
    cases hterm
  · intro hf h t hr _
    have h0 : (s.exec o).nextDispatch ≠ 0 :=
      (run_traced (Run.single (Next.op s o)) (Nat.ne_of_gt (reachable_nextDispatch hs))).2
    have hrest := (reachable_atRest hs q x hx).state
    exact cancelKept_of_closing hr h0 hy hrec (hmove ▸ cancelMove_closing hrest hf)

theorem cancel_final_dispatched :
    ∃ x, (start.execAll dispatched).seqs.find? 1 = some x ∧ x.machine = .dispatched ∧
      ((∀ h t, Run Next ((start.execAll dispatched).exec (.cancel 1)) h t →
          (∀ e ∈ h, e.label.NamesDispatch) → CancelKept 1 x h t) ↔ x.machine ≠ .retryableFailure) := by
  obtain ⟨x, hx, hm⟩ : ∃ x, (start.execAll dispatched).seqs.find? 1 = some x ∧ x.machine = .dispatched :=
    ⟨_, rfl, by decide⟩
  exact ⟨x, hx, hm, cancel_final_iff ⟨_, runsTo dispatched⟩ hx ⟨rfl, by decide⟩⟩

/-- The worker fails the only attempt of the sample sequence while its grant is out. -/
def Sample.failedOut : List Op :=
  granted ++ [.applyCompletion
    { dispatchId := 1, epoch := 1, worker := 1, workerBoot := 1
      outcomes := [{ sequence := 1, attempt := 1, generation := 1, kind := .retryableFailure }] }]

/-- A sequence in RetryableFailure is told to be cancelled, is not ended by the next tick, and still commits. -/
theorem cancel_overtaken : let s := (init { retryPolicy := { maxAttempts := 1 } } 0).execAll failedOut
    let later : List Op := [.schedule 2, .applyCommitReceipt { receipts := [receipt] }]
    Reachable s ∧ s.Cancels 1 (.cancel 1) ∧
      (∀ e ∈ trace (s.exec (.cancel 1)) later, e.label.NamesDispatch) ∧
      ∃ x y z, s.seqs.find? 1 = some x ∧ ((s.exec (.cancel 1)).exec (.schedule 2)).seqs.find? 1 = some y ∧
        ((s.exec (.cancel 1)).execAll later).seqs.find? 1 = some z ∧
        x.machine = .retryableFailure ∧ y.machine = .retryableFailure ∧ x.generated = 0 ∧ z.generated = 1 := by
  refine ⟨⟨_, trace_runsTo _ _ failedOut⟩, ⟨rfl, by decide⟩, ?_, _, _, _, rfl, rfl, rfl, by decide, by decide,
    by decide, by decide⟩
  simp [trace, Call.NamesDispatch]

end DecodeFabric
