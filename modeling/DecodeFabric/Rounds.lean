import DecodeFabric.Cycle

/- One cycle of a pump, from any state of the fabric and any state of the executor.

   The executor may have been used by others: it may be ahead of a sequence, keep receipts under ids the fabric has yet
   to use, and have transitions of older attempts staged, which give way. As long as no two sequences that can be
   sent share an executor state, and none finds a transition of its own attempt waiting (`Host.Unhindered`), each
   member of a dispatch is treated by itself: it is committed, it is refused and can be sent again, or its grant
   meets a receipt of another and it hangs. -/
namespace DecodeFabric
open Lib Table List Fabric Option DecodeFabric.Seq Executor
variable {m : DecodeMemberSpec} {d : Dispatch} {σs : List StateId} {x y : Seq} {q : SequenceId}

section
variable {N : Numerics}
variable {ex : Executor N}

/-! The books of the executor. -/

namespace Executor

/-- Proposals are numbered as they are made, also those the executor keeps receipts for. -/
structure Regular (ex : Executor N) : Prop where
  sound : ex.Sound
  spent : ∀ i r, ex.receiptsByGrant.find? i = some r → r.proposal ≤ ex.nextProposal

namespace Regular
variable {ex ex' : Executor N}

theorem init : ({} : Executor N).Regular := ⟨Sound.init, fun i r hr => by cases hr⟩

theorem change (h : ex.Regular) (hc : ex.Change ex') : ex'.Regular := by
  refine ⟨h.sound.change hc, fun i r hr => ?_⟩
  cases hc with
  | same | current m | discarded hst => exact h.spent i r hr
  | staged req m => exact Nat.le_succ_of_le (h.spent i r hr)
  | @promoted g st p hp =>
    change (ex.receiptsByGrant.insert g.grantId _).find? i = some r at hr
    rw [find?_insert] at hr
    split at hr
    · cases hr
      show g.proposal ≤ ex.nextProposal
      rw [← hp.proposal]
      exact (h.sound.staged _ st p hp.entry hp.staged).1
    · exact h.spent i r hr

end Regular

/-- `ex` is the state of an executor after some calls, whoever made them. -/
def Reached (ex : Executor N) : Prop := ∃ h S, Run Session.Next {} h S ∧ S.executor = ex

theorem Reached.regular (h : ex.Reached) : ex.Regular := by
  obtain ⟨h, S, hr, rfl⟩ := h
  refine hr.invariant (P := fun _ => True) (I := fun S => S.executor.Regular) ?_ (fun _ _ => trivial) Regular.init
  rintro ⟨S, c, T⟩ hn - hS
  obtain rfl : T = S.exec c := hn
  exact Session.exec_keeps (fun hc hex => hex.change hc) hS c

end Executor

theorem Reachable.execAll {s : Fabric} (h : Reachable s) (os : List Op) : Reachable (s.execAll os) :=
  foldl_invariant (fun p _ hp => hp.next (Next.op p.1 p.2)) h

/-! One dispatch. -/

namespace Host

/-- The fabric is one of some run, and the executor keeps its books. -/
structure Lawful (H : Host N) : Prop where
  reachable : Reachable H.fabric
  regular : H.executor.Regular

theorem Lawful.pumpDispatch {H : Host N} (h : H.Lawful) (took : StepTimes) (tn : TimePoint)
    (hd : d.id ≠ 0) : (H.pumpDispatch took tn d).Lawful := by
  constructor
  · obtain ⟨os, heq, -⟩ := H.pumpDispatch_ops took tn hd
    rw [heq]
    exact h.reachable.execAll os
  · exact (cpuDecodeExecutor N).pumpDispatch_keeps
      (fun req took _ hex => prepare_keeps (fun hc hex => hex.change hc) req took hex)
      (fun g _ hex => hex.change (commit_change g _)) (fun a _ hex => hex.change (abort_change a _)) h.regular took tn d

/-- The host takes the dispatches `ds`: their members are about different sequences it knows and different states, and
    for none of them a transition of its attempt waits. -/
structure Takes (H : Host N) (ds : List Dispatch) : Prop where
  sequences : ((ds.flatMap Dispatch.members).map fun m => m.sequence).Nodup
  states : ((ds.flatMap Dispatch.members).map fun m => m.state.id).Nodup
  found : ∀ m ∈ ds.flatMap Dispatch.members, ∃ x, H.fabric.seqs.find? m.sequence = some x
  clear : ∀ m ∈ ds.flatMap Dispatch.members, H.executor.pending m.state.id ≠ some m.attempt
  numbered : ∀ d ∈ ds, d.id ≠ 0

section Served
variable {took : StepTimes} {G H H₁ H' : Host N} {d : Dispatch} {m : DecodeMemberSpec} {x : Seq}

/-- What happened to a member is not changed by dispatches about others. -/
theorem Served.later (h : Served took H d H₁ m x)
    (hseq : H'.fabric.seqs.find? m.sequence = H₁.fabric.seqs.find? m.sequence)
    (hstate : H'.executor.states.find? m.state.id = H₁.executor.states.find? m.state.id) : Served took H d H' m x := by
  cases h with
  | committed proposal gid fin r hv hconf hq hst =>
    exact .committed proposal gid fin r hv hconf (hseq.trans hq) (hstate.trans hst)
  | refused proposal rej now hv hq hst => exact .refused proposal rej now hv (hseq.trans hq) (hstate.trans hst)
  | hung proposal gid r hv hlow hr hq => exact .hung proposal gid r hv hlow hr (hseq.trans hq)

/-- Nor does it depend on them. -/
theorem Served.earlier (h : Served took H₁ d H' m x) (hstanding : H₁.fabric.standing = H.fabric.standing)
    (hstate : H₁.executor.states.find? m.state.id = H.executor.states.find? m.state.id)
    (hgrants : H.fabric.nextGrant ≤ H₁.fabric.nextGrant)
    (hreceipts : ∀ i r, H₁.executor.receiptsByGrant.find? i = some r →
      H.executor.receiptsByGrant.find? i = some r ∨ i < H₁.fabric.nextGrant) : Served took H d H' m x := by
  have hentry : H₁.entryFor m = H.entryFor m := by
    unfold entryFor
    rw [hstate]
  have hepoch : H₁.fabric.epoch = H.fabric.epoch := congrArg Fabric.Standing.epoch hstanding
  have hboots : H₁.fabric.workerCurrentBoot = H.fabric.workerCurrentBoot := congrArg Fabric.Standing.boots hstanding
  have hverdict : ∀ pm, H₁.fabric.prepareVerdict x pm = H.fabric.prepareVerdict x pm := by
    intro pm
    unfold prepareVerdict bootMoved
    rw [hepoch, hboots]
  cases h with
  | committed proposal gid fin r hv hconf hq hst =>
    rw [hentry] at hv hconf hq hst
    exact .committed proposal gid fin r (hverdict _ ▸ hv) hconf hq hst
  | refused proposal rej now hv hq hst =>
    rw [hentry] at hv hst
    exact .refused proposal rej now (hverdict _ ▸ hv) hq hst
  | hung proposal gid r hv hlow hr hq =>
    rw [hentry] at hv hq
    refine .hung proposal gid r (hverdict _ ▸ hv) (Nat.le_trans hgrants hlow) ?_ hq
    exact (hreceipts gid r hr).resolve_right (Nat.not_lt.mpr hlow)

end Served

/-! All dispatches of a cycle. -/

/-- What a pump makes of the dispatches `ds`, one after the other. -/
structure DeliveredAll (took : Dispatch → StepTimes) (H : Host N) (ds : List Dispatch)
    (H' : Host N) : Prop where
  kept : ∀ {I : Fabric → Prop}, (∀ s prepared, (∀ pm ∈ prepared.members, pm.isCommitEligible = true ∧ pm.dispatch ≠ 0) →
    I s → I (s.exec (.authorizePrepared prepared))) → (∀ s receipts, I s → I (s.exec (.applyCommitReceipt receipts))) →
    I H.fabric → I H'.fabric
  grants : H.fabric.nextGrant ≤ H'.fabric.nextGrant
  receipts : ∀ i r, H'.executor.receiptsByGrant.find? i = some r →
    H.executor.receiptsByGrant.find? i = some r ∨ i < H'.fabric.nextGrant
  served : ∀ d ∈ ds, ∀ m ∈ d.members, ∀ x, H.fabric.seqs.find? m.sequence = some x → Served (took d) H d H' m x
  seqs : ∀ q, (∀ d ∈ ds, ∀ m ∈ d.members, m.sequence ≠ q) → H'.fabric.seqs.find? q = H.fabric.seqs.find? q
  states : ∀ σ, (∀ d ∈ ds, ∀ m ∈ d.members, m.state.id ≠ σ) → H'.executor.states.find? σ = H.executor.states.find? σ

section Deliver
variable {H : Host N} {d : Dispatch} {ds : List Dispatch}

theorem Takes.first (h : H.Takes (d :: ds)) : (d.members.map fun m => m.sequence).Nodup ∧
    (d.members.map fun m => m.state.id).Nodup := by
  have hseq := h.sequences
  have hstate := h.states
  rw [flatMap_cons, map_append, nodup_append'] at hseq hstate
  exact ⟨hseq.1, hstate.1⟩

/-- The dispatches still to come are about other sequences and other states. -/
theorem Takes.apart (h : H.Takes (d :: ds)) {d' : Dispatch} (hd' : d' ∈ ds) {m' : DecodeMemberSpec}
    (hm : m ∈ d'.members)
    (hm' : m' ∈ d.members) : m'.sequence ≠ m.sequence ∧ m'.state.id ≠ m.state.id := by
  have hseq := h.sequences
  have hstate := h.states
  rw [flatMap_cons, map_append, nodup_append'] at hseq hstate
  have hmem : m ∈ ds.flatMap Dispatch.members := mem_flatMap.mpr ⟨d', hd', hm⟩
  refine ⟨fun heq => hseq.2.2 (mem_map.mpr ⟨m', hm', heq⟩) (mem_map_of_mem hmem), fun heq => ?_⟩
  exact hstate.2.2 (mem_map.mpr ⟨m', hm', heq⟩) (mem_map.mpr ⟨m, hmem, rfl⟩)

theorem Takes.deliverable (h : H.Takes (d :: ds)) (hl : H.Lawful) : H.Deliverable d where
  sequences := h.first.1
  states := h.first.2
  found m hm := h.found m (mem_flatMap.mpr ⟨d, mem_cons_self, hm⟩)
  clear m hm := h.clear m (mem_flatMap.mpr ⟨d, mem_cons_self, hm⟩)
  sound := hl.regular.sound
  receipts i r hr := .inr (hl.regular.spent i r hr)

theorem Takes.rest (h : H.Takes (d :: ds)) {H₁ : Host N}
    (hseqs : ∀ q, (∀ m ∈ d.members, m.sequence ≠ q) → H₁.fabric.seqs.find? q = H.fabric.seqs.find? q)
    (hstates : ∀ σ, (∀ m ∈ d.members, m.state.id ≠ σ) → H₁.executor.states.find? σ = H.executor.states.find? σ) :
    H₁.Takes ds := by
  have hmem : ∀ m ∈ ds.flatMap Dispatch.members, m ∈ (d :: ds).flatMap Dispatch.members := by
    intro m hm
    rw [flatMap_cons]
    exact mem_append_right _ hm
  have hseq := h.sequences
  have hstate := h.states
  rw [flatMap_cons, map_append, nodup_append'] at hseq hstate
  refine ⟨hseq.2.1, hstate.2.1, fun m hm => ?_, fun m hm => ?_, fun d' hd' => h.numbered d' (mem_cons_of_mem _ hd')⟩
  · obtain ⟨d', hd', hm'⟩ := mem_flatMap.mp hm
    rw [hseqs _ fun m' hm'' => (h.apart hd' hm' hm'').1]
    exact h.found m (hmem m hm)
  · obtain ⟨d', hd', hm'⟩ := mem_flatMap.mp hm
    unfold pending
    rw [hstates _ fun m' hm'' => (h.apart hd' hm' hm'').2]
    exact h.clear m (hmem m hm)

theorem pumpDispatch_standing (H : Host N) (took : StepTimes) (tn : TimePoint) (d : Dispatch) :
    (H.pumpDispatch took tn d).fabric.standing = H.fabric.standing :=
  (cpuDecodeExecutor N).pumpDispatch_calls (I := fun s => s.standing = H.fabric.standing)
    (fun ho _ hs => (exec_standing ho).trans hs) rfl took tn d

theorem Lawful.deliverAll (took : Dispatch → StepTimes) (tn : TimePoint) :
    ∀ {ds : List Dispatch} {H : Host N}, H.Lawful → H.Takes ds → DeliveredAll took H ds (H.pumpDispatches took tn ds)
  | [], H, hl, _ => ⟨fun _ _ => id, Nat.le_refl _, fun i r hr => .inl hr, fun d hd => absurd hd not_mem_nil,
      fun _ _ => rfl, fun _ _ => rfl⟩
  | d :: ds, H, hl, ht => by
    have hdeliverable := ht.deliverable hl
    have hfirst := hdeliverable.delivered (took d) tn
    obtain ⟨receipts, hcalled⟩ := pumpDispatch_called hdeliverable (took d) tn
    have hloop := deliverAll took tn (hl.pumpDispatch (took d) tn (ht.numbered d mem_cons_self))
      (ht.rest hfirst.seqs hfirst.states)
    have hothers : ∀ d' ∈ ds, ∀ m ∈ d'.members, ∀ m' ∈ d.members, m'.sequence ≠ m.sequence ∧ m'.state.id ≠ m.state.id :=
      fun d' hd' m hm m' hm' => ht.apart hd' hm hm'
    refine ⟨fun hauth hreceipt hI => hloop.kept hauth hreceipt ?_, Nat.le_trans hfirst.grants hloop.grants,
      fun i r hr => ?_, ?_, fun q hq => ?_, fun σ hσ => ?_⟩
    · rw [hcalled]
      refine hreceipt _ receipts (hauth _ _ (fun pm hpm => ?_) hI)
      obtain ⟨helig, hid⟩ := report_eligible hdeliverable (took d) pm hpm
      exact ⟨helig, hid ▸ ht.numbered d mem_cons_self⟩
    · rcases hloop.receipts i r hr with hr | hi
      · exact (hfirst.receipts i r hr).imp_right fun hi => Nat.lt_of_lt_of_le hi hloop.grants
      · exact .inr hi
    · intro d' hd' m hm x hx
      rcases mem_cons.mp hd' with rfl | hd'
      · refine (hfirst.served m hm x hx).later ?_ ?_
        · exact hloop.seqs _ fun d₂ hd₂ m₂ hm₂ => ((hothers d₂ hd₂ m₂ hm₂ m hm).1).symm
        · exact hloop.states _ fun d₂ hd₂ m₂ hm₂ => ((hothers d₂ hd₂ m₂ hm₂ m hm).2).symm
      · have hx₁ : (H.pumpDispatch (took d) tn d).fabric.seqs.find? m.sequence = some x :=
          (hfirst.seqs _ fun m' hm' => (hothers d' hd' m hm m' hm').1).trans hx
        refine (hloop.served d' hd' m hm x hx₁).earlier (H.pumpDispatch_standing (took d) tn d) ?_ hfirst.grants
          hfirst.receipts
        exact hfirst.states _ fun m' hm' => (hothers d' hd' m hm m' hm').2
    · refine (hloop.seqs q fun d' hd' => hq d' (mem_cons_of_mem _ hd')).trans ?_
      exact hfirst.seqs q (hq d mem_cons_self)
    · refine (hloop.states σ fun d' hd' => hσ d' (mem_cons_of_mem _ hd')).trans ?_
      exact hfirst.states σ (hσ d mem_cons_self)

end Deliver
end Host
end

/-! Sequences that can be sent. -/

namespace Seq
variable {x y : Seq} {tn : TimePoint}

/-- A tick may send the sequence: it is a candidate with budget left. -/
def Sendable (x : Seq) : Prop := x.machine.isCandidate = true ∧ x.budget.exhausted = false

/-- The lifecycle has a way from here to Dispatched. -/
def Prompt (x : Seq) : Prop := x.machine = .ready ∨ x.machine = .readyForNextToken

/-- `y` stands where `x` stood, its lifecycle and its dispatch apart. -/
structure Stays (x y : Seq) : Prop where
  identity : y.identity = x.identity
  spec : ∀ q, y.memberSpec q = x.memberSpec q
  progress : x.SameProgress y
  budget : y.budget = x.budget
  attempts : y.attemptCount = x.attemptCount

theorem Stays.refl (x : Seq) : x.Stays x := ⟨rfl, fun _ => rfl, .refl x, rfl, rfl⟩

/-- The lifecycle of a dispatched sequence whose step is finalized. -/
theorem finish_machine (hd : x.machine = .dispatched) (fin : TimePoint) (r : MemberReceipt) :
    (x.finish fin r).machine = if (x.commitToken fin r).endsWith r then .completed else .readyForNextToken := by
  show ((x.commitToken fin r).settle fin r).machine = _
  unfold settle
  have hd' : (x.commitToken fin r).machine = .dispatched := hd
  split
  · show ((x.commitToken fin r).machine.move .stepCompleted).move .completed = _
    rw [hd']
    rfl
  · show ((x.commitToken fin r).machine.move .stepCompleted).move .readyForNextToken = _
    rw [hd']
    rfl

theorem boundary_identity (tn : TimePoint) (x : Seq) : (x.boundary tn).identity = x.identity := by
  unfold boundary
  split
  · rfl
  · simp only
    split
    · split
      · rfl
      · rfl
    · split
      · rfl
      · rfl

theorem polled_identity (tn : TimePoint) (x : Seq) : (x.polled tn).identity = x.identity := by
  have hcollected : ((x.boundary tn).collected).identity = (x.boundary tn).identity := by
    unfold collected
    split
    · rfl
    · rfl
  exact hcollected.trans (boundary_identity tn x)

theorem Sendable.boundary (h : x.Sendable) (hd : x.deadlineReached tn = false) : x.boundary tn = x := by
  have hlive := SequenceState.live_of_isCandidate h.1
  have hcancel : x.machine ≠ .cancelRequested := by
    intro hm
    have hc := h.1
    rw [hm] at hc
    cases hc
  simp [Seq.boundary, hlive, hd, hcancel]

theorem Sendable.polled (h : x.Sendable) (hd : x.deadlineReached tn = false) : x.polled tn = x := by
  unfold Seq.polled
  rw [h.boundary hd]
  simp [collected, h.2]

/-- What can be sent after polling was not touched by it. -/
theorem polled_sendable (h : (x.polled tn).Sendable) : x.polled tn = x := by
  have hsame : x.polled tn = x.boundary tn := by
    unfold polled collected
    refine if_neg fun hspent => ?_
    have hunspent := h.2
    unfold polled collected at hunspent
    rw [if_pos hspent] at hunspent
    exact Bool.false_ne_true (hunspent.symm.trans hspent.2)
  rw [hsame] at h ⊢
  exact (boundary_candidate h.1).1

theorem putBack_machine (hc : x.machine.isCandidate = true) (tn : TimePoint) :
    ((x.enterGroup tn).moveTo .ready).machine = .ready := by
  change (x.machine.move .grouped).move .ready = .ready
  cases hm : x.machine <;> rw [hm] at hc <;> first | decide | cases hc

theorem Prompt.sent (h : x.Prompt) (tn : TimePoint) (d : Dispatch) : (x.sent tn d).machine = .dispatched := by
  change ((x.machine.move .grouped).move .reserved).move .dispatched = .dispatched
  rcases h with hm | hm <;> rw [hm] <;> decide

theorem Sendable.cases (hc : x.machine.isCandidate = true) (tn : TimePoint) (d : Dispatch) :
    (x.sent tn d).machine = .dispatched ∨
      ¬ x.Prompt ∧ (x.sent tn d).executing = false ∧ (x.sent tn d).machine.isCandidate = true := by
  change ((x.machine.move .grouped).move .reserved).move .dispatched = .dispatched ∨ ¬ (x.machine = _ ∨ x.machine = _) ∧
    decide (((x.machine.move .grouped).move .reserved).move .dispatched = .dispatched ∨
      ((x.machine.move .grouped).move .reserved).move .dispatched = .running) = false ∧
    (((x.machine.move .grouped).move .reserved).move .dispatched).isCandidate = true
  cases hm : x.machine <;> rw [hm] at hc <;> first | decide | cases hc

/-- A refused candidate is a candidate again. -/
theorem refused_machine (hc : x.machine.isCandidate = true) (tn now : TimePoint) (d : Dispatch) :
    (SeqOp.apply (.reconcile now) (x.sent tn d)).machine.isCandidate = true ∧
      (x.Prompt → (SeqOp.apply (.reconcile now) (x.sent tn d)).Prompt) := by
  generalize hy : x.sent tn d = y
  have hmachine : (SeqOp.apply (.reconcile now) y).machine =
      if y.executing then (y.machine.move .stepCompleted).move .readyForNextToken else y.machine := rfl
  rcases Sendable.cases hc tn d with hd | ⟨hslow, hidle, hcand⟩
  · rw [hy] at hd
    have hnext : (SeqOp.apply (.reconcile now) y).machine = .readyForNextToken := by
      rw [hmachine, if_pos (by simp [executing, hd]), hd]
      rfl
    rw [hnext]
    exact ⟨rfl, fun _ => .inr hnext⟩
  · rw [hy] at hidle hcand
    rw [hidle] at hmachine
    rw [hmachine]
    exact ⟨hcand, fun hprompt => absurd hprompt hslow⟩

/-- A member that commits stays on the way to Dispatched, or ends. -/
theorem committed_machine (h : x.Prompt) (tn fin : TimePoint) (d : Dispatch) (gid : GrantId) (pm : PreparedMember)
    (r : MemberReceipt) :
    (((x.sent tn d).holdGrant gid pm).finish fin r).machine.isCandidate = true →
      (((x.sent tn d).holdGrant gid pm).finish fin r).Prompt := by
  have hmachine := finish_machine (x := (x.sent tn d).holdGrant gid pm) (h.sent tn d) fin r
  intro hc
  rw [hmachine] at hc
  split at hmachine
  · next hends =>
    rw [if_pos hends] at hc
    cases hc
  · exact .inr hmachine

end Seq

/-- The sequence is one the fabric sends in its time: it can be sent, and its key is one of a worker. -/
def Fabric.Sends (s : Fabric) (x : Seq) : Prop := x.Sendable ∧ (s.keyForModel x.req).valid = true

theorem Fabric.Sends.same {s t : Fabric} (h : t.Sends y) (hst : t.standing = s.standing)
    (hident : y.identity = x.identity)
    (hx : x.Sendable) : s.Sends x := by
  refine ⟨hx, ?_⟩
  rw [← keyForModel_standing hst, ← show y.req = x.req from congrArg Seq.Identity.req hident]
  exact h.2

section
variable {N : Numerics}

namespace Host

/-- The executor's state of sequence `q`, brought up to date and cleared of what waits there, is where the sequence
    is. -/
def Fits (H : Host N) (q : SequenceId) (x : Seq) : Prop := (H.entryFor (x.memberSpec q)).cleared.Agrees x

/-- Nothing but a mismatch or a repeated key can keep the pump from committing: no two sequences the fabric sends
    share an executor state, none finds a transition of its attempt waiting, and grants meet receipts of others only
    if their sequences can be dispatched in earnest. -/
structure Unhindered (H : Host N) : Prop where
  apart : ∀ q q' x x', H.fabric.seqs.find? q = some x → H.fabric.Sends x → H.fabric.seqs.find? q' = some x' →
    H.fabric.Sends x' → x.state.id = x'.state.id → q = q'
  clear : ∀ q x, H.fabric.seqs.find? q = some x → H.fabric.Sends x →
    H.executor.pending x.state.id ≠ some x.currentAttempt
  receipts : (∀ i r, H.executor.receiptsByGrant.find? i = some r → i < H.fabric.nextGrant) ∨
    ∀ q x, H.fabric.seqs.find? q = some x → H.fabric.Sends x → x.Prompt

/-! One cycle. -/

/-- What a cycle at `tn` makes of a sequence it does not send. -/
inductive Rested (tn : TimePoint) (x y : Seq) : Prop
  | closed : ¬ y.Sendable → y.identity = x.identity → (x.Sendable → x.deadlineReached tn = true) → Rested tn x y
  | waits : x.Sendable → x.Stays y → y.hasInflightGrant = x.hasInflightGrant →
      (y.machine = x.machine ∨ y.machine = .ready) → Rested tn x y

/-- What a cycle from `H` to `H'` makes of sequence `q`, sent under `d`. -/
inductive Went (H : Host N) (d : Dispatch) (H' : Host N) (q : SequenceId) (x y : Seq) : Prop
  | advanced : H.Fits q x → x.hasInflightGrant = false → y.budget = x.budget.advanced 1 → y.hasInflightGrant = false →
      y.state = x.state → (x.Prompt → y.machine.isCandidate = true → y.Prompt) →
      (∃ st, H'.executor.states.find? x.state.id = some st ∧ st.Agrees y) → Went H d H' q x y
  | refused : H.fabric.Collides q x d.worker (.ofNat d.id) ∨ x.hasInflightGrant = true ∨ ¬ H.Fits q x →
      x.Stays y → y.hasInflightGrant = false → y.machine.isCandidate = true → (x.Prompt → y.Prompt) →
      H'.executor.states.find? x.state.id = some (H.entryFor (x.memberSpec q)).cleared → Went H d H' q x y
  | hung (gid : GrantId) (r : MemberReceipt) : H.Fits q x → H.fabric.nextGrant ≤ gid →
      H.executor.receiptsByGrant.find? gid = some r → (x.Prompt → y.machine = .dispatched) → Went H d H' q x y

/-- One cycle of the pump at `tn`, from `H` to `H'`, with the dispatches `ds`. -/
structure Round (tn : TimePoint) (H : Host N) (ds : List Dispatch) (H' : Host N) : Prop where
  lawful : H'.Lawful
  standing : H'.fabric.standing = H.fabric.standing
  roomy : H.fabric.Roomy → H'.fabric.Roomy
  numbered : ds.map Dispatch.id = range' H.fabric.nextDispatch ds.length
  next : H'.fabric.nextDispatch = H.fabric.nextDispatch + ds.length
  grants : H.fabric.nextGrant ≤ H'.fabric.nextGrant
  receipts : ∀ i r, H'.executor.receiptsByGrant.find? i = some r →
    H.executor.receiptsByGrant.find? i = some r ∨ i < H'.fabric.nextGrant
  manned : ∀ d ∈ ds, d.members ≠ [] ∧ d.worker ∈ H.fabric.workerIds
  member : ∀ d ∈ ds, ∀ m ∈ d.members, ∃ x y, H.fabric.seqs.find? m.sequence = some x ∧ H.fabric.Sends x ∧
    H'.fabric.seqs.find? m.sequence = some y ∧ Went H d H' m.sequence x y
  other : ∀ q x, H.fabric.seqs.find? q = some x → (∀ d ∈ ds, ∀ m ∈ d.members, m.sequence ≠ q) →
    ∃ y, H'.fabric.seqs.find? q = some y ∧ Rested tn x y ∧
      (H.fabric.Sends x → H'.executor.states.find? x.state.id = H.executor.states.find? x.state.id)
  absent : ∀ q, H.fabric.seqs.find? q = none → H'.fabric.seqs.find? q = none

/-- What becomes of a member that was sent. -/
theorem Served.went {took : StepTimes} {G H H' : Host N}
    {tn : TimePoint} (h : Served took G d H' m (x.sent tn d))
    (hexec : G.executor = H.executor) (hgrants : G.fabric.nextGrant = H.fabric.nextGrant)
    (hstanding : G.fabric.standing = H.fabric.standing) (hepoch : d.epoch = H.fabric.epoch)
    (hboot : d.workerBoot = H.fabric.workerCurrentBoot.getD d.worker 0) (hx : x.Sendable)
    (hspec : m = x.memberSpec m.sequence) :
    ∃ y, H'.fabric.seqs.find? m.sequence = some y ∧ Went H d H' m.sequence x y := by
  have hstate : m.state = x.state := by rw [hspec]; rfl
  have hentry : G.entryFor m = H.entryFor (x.memberSpec m.sequence) := by
    unfold entryFor
    rw [hexec, ← hspec]
  have hepoch' : G.fabric.epoch = H.fabric.epoch := congrArg Fabric.Standing.epoch hstanding
  have hboots : G.fabric.workerCurrentBoot = H.fabric.workerCurrentBoot := congrArg Fabric.Standing.boots hstanding
  have hfits : ∀ {proposal}, G.fabric.prepareVerdict (x.sent tn d)
      ((G.entryFor m).preparedMember proposal d.toRequest m (took m)) = .grant → H.Fits m.sequence x := by
    intro proposal hv
    have hgranted := prepareVerdict_grant hv
    unfold Fits
    rw [← hentry]
    exact ⟨rfl, hgranted.position, hgranted.digest⟩
  cases h with
  | committed proposal gid fin r hv hconf hq hst =>
    have hgranted := prepareVerdict_grant hv
    obtain ⟨mst, ready, hshape⟩ := finish_shape fin r ((x.sent tn d).holdGrant gid
      ((G.entryFor m).preparedMember proposal d.toRequest m (took m)))
    refine ⟨_, hq, .advanced (hfits hv) hgranted.noGrant ?_ ?_ (finish_state fin r _) ?_ ?_⟩
    · rw [hshape]
      rfl
    · rw [hshape]
    · exact fun hprompt => committed_machine hprompt tn fin d gid _ r
    · rw [← hstate]
      refine ⟨_, hst, ?_⟩
      have hagrees : (G.entryFor m).cleared.Agrees (x.sent tn d) :=
        ⟨rfl, hgranted.position, hgranted.digest⟩
      exact hagrees.replay hconf
  | refused proposal rej now hv hq hst =>
    have hmachine := refused_machine hx.1 tn now d
    refine ⟨_, hq, .refused ?_ ⟨rfl, fun _ => rfl, ⟨rfl, rfl, rfl, rfl⟩, rfl, rfl⟩ rfl hmachine.1 hmachine.2 ?_⟩
    · by_contra hnone
      obtain ⟨hfree, hrest⟩ := not_or.mp hnone
      obtain ⟨hgrant, hfits⟩ := not_or.mp hrest
      have hfits : (G.entryFor m).cleared.Agrees x := by
        rw [hentry]
        exact not_not.mp hfits
      have hfree : ¬ G.fabric.Collides m.sequence x d.worker (.ofNat d.id) :=
        fun hcollides => hfree (hcollides.same hstanding.symm rfl)
      have hv' : G.fabric.prepareVerdict (x.sent tn d)
          ((G.entryFor m).preparedMember proposal d.toRequest m (took m)) = .grant :=
        prepareVerdict_sent (hepoch.trans hepoch'.symm) (by rw [hboots]; exact hboot) hx.1 hspec hfree
          (Bool.eq_false_iff.mpr hgrant) hfits.tokens hfits.digest
      rw [hv'] at hv
      cases hv
    · rw [← hentry, ← hstate]
      exact hst
  | hung proposal gid r hv hlow hr hq =>
    refine ⟨_, hq, .hung gid r (hfits hv) (hgrants ▸ hlow) (hexec ▸ hr) fun hprompt => hprompt.sent tn d⟩

/-! What a tick sends, and what it does not. -/

section Tick
variable {s : Fabric}

/-- A member of a dispatch was a sequence that could be sent. -/
theorem dispatched_sendable (tn : TimePoint) (hd : d ∈ (s.round tn).2)
    (hm : m ∈ d.members) : ∃ x, s.seqs.find? m.sequence = some x ∧ s.Sends x ∧ m = x.memberSpec m.sequence ∧
      (s.round tn).1.seqs.find? m.sequence = some (x.sent tn d) := by
  obtain ⟨y, hdue, hspec, hafter⟩ := (schedule_emitted tn d hd).member m hm
  have hfound := hdue.found
  rw [advance_find?, map_eq_some_iff] at hfound
  obtain ⟨x, hx, rfl⟩ := hfound
  have hsame := (boundary_candidate hdue.candidate).1
  rw [hsame] at hspec hafter
  have hsendable : x.Sendable := ⟨hsame ▸ hdue.candidate, hsame ▸ hdue.unspent⟩
  have hvalid := hdue.served
  rw [hsame, keyForModel_standing (s.advance_standing tn)] at hvalid
  exact ⟨x, hx, ⟨hsendable, hvalid⟩, hspec, hafter⟩

/-- A dispatch is addressed under the current epoch to the worker's current boot. -/
theorem dispatched_address (tn : TimePoint) (hd : d ∈ (s.round tn).2) :
    d.epoch = s.epoch ∧ d.workerBoot = s.workerCurrentBoot.getD d.worker 0 := by
  have hemitted := schedule_emitted tn d hd
  have hbooks := s.advance_books tn
  refine ⟨hemitted.epoch.trans (epoch_of_books hbooks), ?_⟩
  rw [← boots_of_books hbooks]
  exact hemitted.boot

/-- A sequence that no dispatch names was polled, or grouped and put back. -/
theorem unsent_stayed (tn : TimePoint) (hx : s.seqs.find? q = some x)
    (hq : ∀ d ∈ (s.round tn).2, ∀ m ∈ d.members, m.sequence ≠ q) :
    (s.round tn).1.seqs.find? q = some ((x.boundary tn).polled tn) ∨
      x.Sendable ∧ (s.round tn).1.seqs.find? q = some ((x.enterGroup tn).moveTo .ready) := by
  obtain ⟨sent, hticked⟩ := (s.advance tn).1.schedule_spec tn
  have hbound : (s.advance tn).1.seqs.find? q = some (x.boundary tn) := by
    rw [advance_find?, hx]
    rfl
  have hnot : q ∉ sent := by
    intro hmem
    have hspec : (s.advance tn).1.specOf q ∈ (s.round tn).2.flatMap Dispatch.members := by
      rw [hticked.emitted]
      exact mem_map_of_mem hmem
    obtain ⟨d, hd, hm⟩ := mem_flatMap.mp hspec
    refine hq d hd _ hm ?_
    simp only [specOf, hbound]
    rfl
  rcases hticked.stayed q _ hbound hnot with hy | ⟨hc, hunspent, hy⟩
  · exact .inl hy
  · have hsame := (boundary_candidate hc).1
    rw [hsame] at hc hunspent hy
    exact .inr ⟨⟨hc, hunspent⟩, hy⟩

theorem unsent_rested (tn : TimePoint) (hx : s.seqs.find? q = some x)
    (hq : ∀ d ∈ (s.round tn).2, ∀ m ∈ d.members, m.sequence ≠ q) :
    ∃ y, (s.round tn).1.seqs.find? q = some y ∧ Rested tn x y := by
  rcases unsent_stayed tn hx hq with hy | ⟨hsendable, hy⟩
  · refine ⟨_, hy, ?_⟩
    by_cases hsendable : ((x.boundary tn).polled tn).Sendable
    · have hpolled := polled_sendable hsendable
      rw [hpolled] at hsendable ⊢
      have hsame := (boundary_candidate hsendable.1).1
      rw [hsame] at hsendable ⊢
      exact .waits hsendable (.refl x) rfl (.inl rfl)
    · refine .closed hsendable ((polled_identity tn _).trans (boundary_identity tn x)) fun hx => ?_
      by_contra hd
      have hd := Bool.eq_false_iff.mpr hd
      rw [hx.boundary hd, hx.polled hd] at hsendable
      exact hsendable hx
  · exact ⟨_, hy, .waits hsendable ⟨rfl, fun _ => rfl, ⟨rfl, rfl, rfl, rfl⟩, rfl, rfl⟩ rfl
      (.inr (putBack_machine hsendable.1 tn))⟩

theorem absent_stays (tn : TimePoint) (hq : s.seqs.find? q = none) :
    (s.round tn).1.seqs.find? q = none := by
  obtain ⟨sent, hticked⟩ := (s.advance tn).1.schedule_spec tn
  refine hticked.absent q ?_
  rw [advance_find?, hq]
  rfl

end Tick

section Round
variable {H : Host N} (hl : H.Lawful) (hu : H.Unhindered) (took : Dispatch → StepTimes)
    (tn : TimePoint)

theorem scheduled_fabric (H : Host N) (tn : TimePoint) :
    (H.scheduled tn).fabric = (H.fabric.round tn).1 := by
  rw [scheduled]

theorem scheduled_executor (H : Host N) (tn : TimePoint) : (H.scheduled tn).executor = H.executor := by
  rw [scheduled]

theorem pumpOnce_fst (H : Host N) : (H.pumpOnce took tn).1 =
    (H.scheduled tn).pumpDispatches took tn (H.fabric.round tn).2 := by
  rw [pumpOnce_eq]

theorem pumpOnce_fabric (H : Host N) : (H.pumpOnce took tn).1.fabric =
    ((cpuDecodeExecutor N).pumpOnce took tn (H.fabric, H.executor)).1.1 := by
  rw [pumpOnce]

theorem pumpOnce_snd (H : Host N) : (H.pumpOnce took tn).2 = (H.fabric.round tn).2 := by
  rw [pumpOnce_eq]

theorem pumpDispatches_frame (H : Host N) (ds : List Dispatch) :
    (H.pumpDispatches took tn ds).fabric.frame = H.fabric.frame :=
  foldl_invariant (I := fun G : Host N => G.fabric.frame = H.fabric.frame) (fun p _ hG =>
    (cpuDecodeExecutor N).pumpDispatch_calls (I := fun s => s.frame = H.fabric.frame)
      (fun ho hs h => (exec_frame ho hs).trans h) (p := (p.1.fabric, p.1.executor)) hG (took p.2) tn p.2) rfl

theorem pumpOnce_standing (H : Host N) : (H.pumpOnce took tn).1.fabric.standing = H.fabric.standing := by
  rw [pumpOnce_fabric]
  exact (cpuDecodeExecutor N).pumpOnce_calls (I := fun s => s.standing = H.fabric.standing)
    (fun ho hs => (exec_standing ho).trans hs) rfl took tn

theorem pumpOnce_roomy (H : Host N) (h : H.fabric.Roomy) : (H.pumpOnce took tn).1.fabric.Roomy := by
  rw [pumpOnce_fabric]
  exact (cpuDecodeExecutor N).pumpOnce_calls (fun ho hs => hs.exec ho) h took tn

theorem scheduled_standing (H : Host N) (tn : TimePoint) : (H.scheduled tn).fabric.standing = H.fabric.standing := by
  rw [scheduled_fabric, schedule_standing]
  exact H.fabric.advance_standing tn

theorem scheduled_nextGrant (H : Host N) (tn : TimePoint) : (H.scheduled tn).fabric.nextGrant = H.fabric.nextGrant := by
  obtain ⟨sent, hticked⟩ := (H.fabric.advance tn).1.schedule_spec tn
  rw [scheduled_fabric, hticked.nextGrant, nextGrant_of_books (H.fabric.advance_books tn)]

include hl in
theorem Lawful.scheduled : (H.scheduled tn).Lawful := by
  have hadvanced : Reachable (H.fabric.advance tn).1 := hl.reachable.next (Next.op _ (.advance tn))
  have hticked : Reachable (H.fabric.round tn).1 := hadvanced.next (Next.op _ (.schedule tn))
  refine ⟨?_, ?_⟩
  · rw [scheduled_fabric]
    exact hticked
  · rw [scheduled_executor]
    exact hl.regular

include hl hu in
theorem Unhindered.takes : (H.scheduled tn).Takes (H.fabric.round tn).2 := by
  have hreach : Reachable (H.fabric.advance tn).1 := hl.reachable.next (Next.op _ (.advance tn))
  have hnames := schedule_nodup (H.fabric.advance tn).1 tn
  have hmember : ∀ m ∈ (H.fabric.round tn).2.flatMap Dispatch.members,
      ∃ x, H.fabric.seqs.find? m.sequence = some x ∧ H.fabric.Sends x ∧ m = x.memberSpec m.sequence := by
    intro m hm
    obtain ⟨d, hd, hm⟩ := mem_flatMap.mp hm
    obtain ⟨x, hx, hsendable, hspec, -⟩ := dispatched_sendable tn hd hm
    exact ⟨x, hx, hsendable, hspec⟩
  refine ⟨hnames, ?_, ?_, ?_, schedule_ids tn (Nat.ne_of_gt (reachable_nextDispatch hreach))⟩
  · rw [List.Nodup, pairwise_map] at hnames ⊢
    refine hnames.imp_of_mem fun {m m'} hm hm' hne heq => hne ?_
    obtain ⟨x, hx, hsendable, hspec⟩ := hmember m hm
    obtain ⟨x', hx', hsendable', hspec'⟩ := hmember m' hm'
    rw [hspec, hspec'] at heq
    exact hu.apart _ _ x x' hx hsendable hx' hsendable' heq
  · intro m hm
    obtain ⟨x, hx, -⟩ := schedule_told _ tn m hm
    rw [scheduled_fabric]
    exact ⟨x, hx⟩
  · intro m hm
    obtain ⟨x, hx, hsendable, hspec⟩ := hmember m hm
    rw [scheduled_executor, hspec]
    exact hu.clear _ x hx hsendable

theorem Lawful.pumpOnce (hl : H.Lawful) : (H.pumpOnce took tn).1.Lawful := by
  have hreach : Reachable (H.fabric.advance tn).1 := hl.reachable.next (Next.op _ (.advance tn))
  have hids := schedule_ids tn (Nat.ne_of_gt (reachable_nextDispatch hreach))
  rw [pumpOnce_fst]
  exact foldl_invariant (fun p hp hG => hG.pumpDispatch _ tn (hids _ (mem_of_mem_turns hp))) (hl.scheduled tn)

/-- What a pump makes of the dispatches of a tick. -/
theorem Lawful.deliver (hl : H.Lawful) (hu : H.Unhindered) (took : Dispatch → StepTimes) :
    DeliveredAll took (H.scheduled tn) (H.fabric.round tn).2 (H.pumpOnce took tn).1 := by
  rw [pumpOnce_fst]
  exact (hl.scheduled tn).deliverAll took tn (hu.takes hl tn)

include hl hu in
theorem Lawful.round : Round tn H (H.fabric.round tn).2 (H.pumpOnce took tn).1 := by
  have hdelivered := hl.deliver tn hu took
  obtain ⟨sent, hticked⟩ := (H.fabric.advance tn).1.schedule_spec tn
  have hstanding := H.scheduled_standing tn
  have hgrants := H.scheduled_nextGrant tn
  have hnext := nextDispatch_of_books (H.fabric.advance_books tn)
  have hreceipts := hdelivered.receipts
  rw [scheduled_executor] at hreceipts
  refine ⟨hl.pumpOnce took tn, H.pumpOnce_standing took tn, H.pumpOnce_roomy took tn, ?_,
    ?_, ?_, hreceipts, ?_, ?_, ?_, ?_⟩
  · rw [← hnext]
    exact schedule_numbered tn
  · have hframe := (H.scheduled tn).pumpDispatches_frame took tn (H.fabric.round tn).2
    have hkept : (H.pumpOnce took tn).1.fabric.nextDispatch = (H.scheduled tn).fabric.nextDispatch := by
      rw [pumpOnce_fst]
      exact congrArg (·.2.2.2.2) hframe
    rw [← hnext, hkept, scheduled_fabric]
    exact hticked.count
  · rw [← hgrants]
    exact hdelivered.grants
  · intro d hd
    have hemitted := schedule_emitted tn d hd
    obtain ⟨e, he, hid⟩ := hemitted.worker
    refine ⟨hemitted.nonempty, mem_map.mpr ⟨(e.1, e.2.profile), ?_, hid⟩⟩
    rw [← H.fabric.advance_standing tn]
    exact mem_standing he
  · intro d hd m hm
    obtain ⟨hepoch, hboot⟩ := dispatched_address tn hd
    obtain ⟨x, hx, hsendable, hspec, hafter⟩ := dispatched_sendable tn hd hm
    obtain ⟨y, hy, hwent⟩ := (hdelivered.served d hd m hm _ hafter).went (H.scheduled_executor tn) hgrants hstanding
      hepoch hboot hsendable.1 hspec
    exact ⟨x, y, hx, hsendable, hy, hwent⟩
  · intro q x hx hq
    obtain ⟨y, hy, hrested⟩ := unsent_rested tn hx hq
    refine ⟨y, (hdelivered.seqs q hq).trans hy, hrested, fun hsendable => ?_⟩
    -- nobody who was sent shares the state
    have hstates := hdelivered.states x.state.id fun d hd m hm heq => by
      obtain ⟨x', hx', hsendable', hspec, -⟩ := dispatched_sendable tn hd hm
      rw [hspec] at heq
      exact hq d hd m hm (hu.apart _ _ x' x hx' hsendable' hx hsendable heq)
    rwa [scheduled_executor] at hstates
  · intro q hq
    have hsame := hdelivered.seqs q fun d hd m hm heq => by
      obtain ⟨x, hx, -⟩ := dispatched_sendable tn hd hm
      rw [heq, hq] at hx
      cases hx
    rw [hsame, scheduled_fabric]
    exact absent_stays tn hq

end Round

/-! Between two cycles. -/

section Carried
variable {tn : TimePoint} {H H' : Host N} {ds : List Dispatch}

theorem Fits.same (hxy : x.Stays y)
    (hentry : (H'.entryFor (x.memberSpec q)).cleared = (H.entryFor (x.memberSpec q)).cleared) :
    H'.Fits q y ↔ H.Fits q x := by
  unfold Fits
  rw [hxy.spec, hentry]
  exact ⟨fun h => h.same hxy.progress.symm, fun h => h.same hxy.progress⟩

/-- A sequence that can be sent after a cycle is one that could be sent before. -/
structure Carried (H H' : Host N) (q : SequenceId) (x y : Seq) : Prop where
  sendable : H.fabric.Sends x
  state : y.state = x.state
  prompt : x.Prompt → y.Prompt
  clear : H'.executor.pending y.state.id ≠ some y.currentAttempt
  fits : H'.Fits q y ↔ H.Fits q x

theorem Round.before (r : Round tn H ds H') (hy : H'.fabric.seqs.find? q = some y) :
    ∃ x, H.fabric.seqs.find? q = some x := by
  cases hx : H.fabric.seqs.find? q with
  | some x => exact ⟨x, rfl⟩
  | none =>
    rw [r.absent q hx] at hy
    cases hy

/-- What a cycle makes of any sequence. -/
theorem Round.after (r : Round tn H ds H') (hx : H.fabric.seqs.find? q = some x) :
    ∃ y, H'.fabric.seqs.find? q = some y ∧ ((∃ d ∈ ds, H.fabric.Sends x ∧ Went H d H' q x y) ∨
      Rested tn x y ∧
        (H.fabric.Sends x → H'.executor.states.find? x.state.id = H.executor.states.find? x.state.id)) := by
  by_cases hsent : ∃ d ∈ ds, ∃ m ∈ d.members, m.sequence = q
  · obtain ⟨d, hd, m, hm, rfl⟩ := hsent
    obtain ⟨x', y, hx', hsendable, hy, hwent⟩ := r.member d hd m hm
    cases hx.symm.trans hx'
    exact ⟨y, hy, .inl ⟨d, hd, hsendable, hwent⟩⟩
  · obtain ⟨y, hy, hrested, hstates⟩ := r.other q x hx fun d hd m hm heq => hsent ⟨d, hd, m, hm, heq⟩
    exact ⟨y, hy, .inr ⟨hrested, hstates⟩⟩

theorem Went.carried (h : Went H d H' q x y) (hu : H.Unhindered)
    (hx : H.fabric.seqs.find? q = some x) (hsendable : H.fabric.Sends x) (hy : y.Sendable) : Carried H H' q x y := by
  cases h with
  | advanced hfits _ _ _ hstate hprompt hentry =>
    obtain ⟨st, hst, hagrees⟩ := hentry
    rw [← hstate] at hst
    refine ⟨hsendable, hstate, fun h => hprompt h hy.1, ?_, iff_of_true ?_ hfits⟩
    · unfold pending
      rw [hst, bind_some, hagrees.idle]
      exact nofun
    · have hcurrent : H'.entryFor (y.memberSpec q) = st := by
        unfold entryFor
        rw [show (y.memberSpec q).state = y.state from rfl, hst]
        exact SeqState.ensureInitialized_current (UInt64.le_of_eq hagrees.tokens.symm)
      unfold Fits
      rw [hcurrent]
      exact ⟨rfl, hagrees.tokens, hagrees.digest⟩
  | refused _ hstays _ _ hprompt hentry =>
    have hstate : y.state = x.state := congrArg Seq.Identity.state hstays.identity
    refine ⟨hsendable, hstate, hprompt, ?_, Fits.same hstays ?_⟩
    · unfold pending
      rw [hstate, hentry, bind_some]
      exact nofun
    · have hcurrent : H'.entryFor (x.memberSpec q) = (H.entryFor (x.memberSpec q)).cleared := by
        rw [entryFor, show (x.memberSpec q).state = x.state from rfl, hentry]
        exact SeqState.ensureInitialized_current (SeqState.ensureInitialized_reaches _ _)
      rw [hcurrent]
      rfl
  | hung gid r _ hlow hr hprompt =>
    -- under ids the fabric has not used nothing is kept, or the sequence stays in flight
    exfalso
    rcases hu.receipts with hbound | hall
    · exact Nat.not_lt.mpr hlow (hbound gid r hr)
    · have hc := hy.1
      rw [hprompt (hall q x hx hsendable)] at hc
      cases hc

theorem Rested.carried (h : Rested tn x y) (hu : H.Unhindered) (hx : H.fabric.seqs.find? q = some x)
    (hst : H'.fabric.standing = H.fabric.standing) (hy : H'.fabric.Sends y)
    (hstates : H.fabric.Sends x → H'.executor.states.find? x.state.id = H.executor.states.find? x.state.id) :
    Carried H H' q x y := by
  cases h with
  | closed hclosed => exact absurd hy.1 hclosed
  | waits hsendable hstays _ hmachine =>
    have hsendable := hy.same hst hstays.identity hsendable
    have hstate : y.state = x.state := congrArg Seq.Identity.state hstays.identity
    refine ⟨hsendable, hstate, fun hprompt => ?_, ?_, Fits.same hstays ?_⟩
    · rcases hmachine with hm | hm
      · unfold Seq.Prompt
        rw [hm]
        exact hprompt
      · exact .inl hm
    · unfold pending
      rw [hstate, hstates hsendable,
        show y.currentAttempt = x.currentAttempt from congrArg Seq.Identity.attempt hstays.identity]
      exact hu.clear q x hx hsendable
    · rw [entryFor, show (x.memberSpec q).state = x.state from rfl, hstates hsendable]
      rfl

theorem Round.carried (r : Round tn H ds H') (hu : H.Unhindered)
    (hy : H'.fabric.seqs.find? q = some y) (hsendable : H'.fabric.Sends y) :
    ∃ x, H.fabric.seqs.find? q = some x ∧ Carried H H' q x y := by
  obtain ⟨x, hx⟩ := r.before hy
  obtain ⟨y', hy', hafter⟩ := r.after hx
  cases hy.symm.trans hy'
  rcases hafter with ⟨d, -, hsendable', hwent⟩ | ⟨hrested, hstates⟩
  · exact ⟨x, hx, hwent.carried hu hx hsendable' hsendable.1⟩
  · exact ⟨x, hx, hrested.carried hu hx r.standing hsendable hstates⟩

/-- Nothing gets into the way of the pump by itself. -/
theorem Round.unhindered (r : Round tn H ds H') (hu : H.Unhindered) : H'.Unhindered where
  apart q q' y y' hy hs hy' hs' heq := by
    obtain ⟨x, hx, hc⟩ := r.carried hu hy hs
    obtain ⟨x', hx', hc'⟩ := r.carried hu hy' hs'
    refine hu.apart q q' x x' hx hc.sendable hx' hc'.sendable ?_
    rw [← hc.state, ← hc'.state]
    exact heq
  clear q y hy hs := by
    obtain ⟨x, hx, hc⟩ := r.carried hu hy hs
    exact hc.clear
  receipts := by
    refine hu.receipts.imp (fun hbound i m hm => ?_) fun hall q y hy hs => ?_
    · rcases r.receipts i m hm with hm | hi
      · exact Nat.lt_of_lt_of_le (hbound i m hm) r.grants
      · exact hi
    · obtain ⟨x, hx, hc⟩ := r.carried hu hy hs
      exact hc.prompt (hall q x hx hc.sendable)

end Carried

end Host
end
end DecodeFabric
