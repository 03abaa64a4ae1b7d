import DecodeFabric.Endings

/- What a finalized step leaves on record.

   A receipt is compared with its grant in twelve fields. Its worker, the position after the step, the digest of the
   change and the terminal mark are not among them, yet they are what the accepted generation records and, with the
   budget, what decides whether the sequence ends: a receipt can end a sequence that has tokens to go, in the
   name of any worker. And a sequence that was retried with its grant in flight is finalized without the end its
   lifecycle no longer allows (`receipt_forged`). Otherwise the outcome is the granted one, and only otherwise
   (`finalized_as_granted`). -/
namespace DecodeFabric
variable {s : Fabric} {r : MemberReceipt} {x y : Seq} {g : CommitGrant} {st : SequenceState}

/-- A live sequence that is not being cancelled completes from within a step only. -/
theorem SequenceState.completes_iff (hlive : st.isTerminal = false) (hcancel : st ≠ .cancelRequested) :
    (st.move .stepCompleted).move .completed = .completed ↔
      st = .dispatched ∨ st = .running ∨ st = .stepCompleted := by
  refine ⟨fun h => ?_, step_completes⟩
  cases st <;> first | decide | exact absurd rfl hcancel | exact absurd hlive (by decide) | cases h

theorem SequenceState.goes_on (hlive : st.isTerminal = false) :
    (st.move .stepCompleted).move .readyForNextToken ≠ .completed := by
  intro h
  cases st <;> first | exact absurd hlive (by decide) | cases h

/-- `y` is `x` after the step of grant `g`. -/
structure Seq.AsGranted (x : Seq) (g : CommitGrant) (y : Seq) : Prop where
  completed : y.machine = .completed ↔ g.terminal = true ∨ (x.budget.advanced 1).exhausted = true
  worker : y.accepted.worker = g.worker
  after : y.accepted.committedPositionAfter = g.committedPosition + 1
  delta : y.accepted.deltaDigest = g.deltaDigest
  terminal : y.accepted.terminal = g.terminal

/-- The receipt agrees with the grant where `apply_commit_receipt` does not compare them. -/
structure MemberReceipt.Echoes (r : MemberReceipt) (g : CommitGrant) : Prop where
  worker : r.worker = g.worker
  after : r.committedPositionAfter = g.committedPosition + 1
  delta : r.deltaDigest = g.deltaDigest
  terminal : r.terminal = g.terminal

theorem Seq.finish_accepted (fin : TimePoint) (r : MemberReceipt) (x : Seq) :
    (x.finish fin r).accepted = makeAccepted r true := finish_same Seq.accepted (fun _ _ _ => rfl) ..

/-- A finalized sequence has completed if the receipt ends it, and its lifecycle was within a step. -/
theorem Fabric.Finalizable.completed_iff (h : s.Finalizable x r) (fin : TimePoint) :
    (x.finish fin r).machine = .completed ↔ (r.terminal = true ∨ (x.budget.advanced 1).exhausted = true) ∧
      (x.machine = .dispatched ∨ x.machine = .running ∨ x.machine = .stepCompleted) := by
  change ((x.commitToken fin r).settle fin r).machine = .completed ↔ _
  have hends : (x.commitToken fin r).endsWith r = true ↔
      r.terminal = true ∨ (x.budget.advanced 1).exhausted = true := Bool.or_eq_true_iff
  rw [← hends, ← SequenceState.completes_iff h.live h.notCancelling]
  unfold Seq.settle
  split
  · next hend => exact (and_iff_right hend).symm
  · next hmore => exact iff_of_false (SequenceState.goes_on h.live) fun hend => hmore hend.1

/-- A receipt that is finalized under a grant has the granted outcome just if it agrees with the grant in what is not
    compared, and a sequence that ends is in a step. -/
theorem finalized_as_granted (hv : s.receiptVerdict r = .finalize x) :
    ∃ gr y, s.grantLedger.find? r.grantId = some gr ∧ gr.status = .pending ∧
      (s.applyReceipt r).seqs.find? r.sequence = some y ∧
      (x.AsGranted gr.grant y ↔ r.Echoes gr.grant ∧
        (gr.grant.terminal = true ∨ (x.budget.advanced 1).exhausted = true →
          x.machine = .dispatched ∨ x.machine = .running ∨ x.machine = .stepCompleted)) := by
  have hfin := Fabric.receiptVerdict_finalize hv
  obtain ⟨gr, hgr, hpending, -⟩ := hfin.grant
  refine ⟨gr, _, hgr, hpending, Fabric.applyReceipt_finish hv, ?_⟩
  have haccepted := Seq.finish_accepted (s.finishTime r) r x
  have hdone := hfin.completed_iff (s.finishTime r)
  generalize x.finish (s.finishTime r) r = y at haccepted hdone
  constructor
  · rintro ⟨hcompleted, hworker, hafter, hdelta, hterminal⟩
    rw [haccepted] at hworker hafter hdelta hterminal
    exact ⟨⟨hworker, hafter, hdelta, hterminal⟩, fun hend => (hdone.mp (hcompleted.mpr hend)).2⟩
  · rintro ⟨⟨hworker, hafter, hdelta, hterminal⟩, hstep⟩
    rw [hterminal] at hdone
    refine ⟨hdone.trans ⟨And.left, fun hend => ⟨hend, hstep hend⟩⟩, ?_, ?_, ?_, ?_⟩ <;> rw [haccepted]
    · exact hworker
    · exact hafter
    · exact hdelta
    · exact hterminal

theorem finalized_as_granted_sample : ∃ x gr y,
    (Sample.start.execAll Sample.granted).receiptVerdict { Sample.receipt with committedPositionAfter := 1 } =
        .finalize x ∧
      (Sample.start.execAll Sample.granted).grantLedger.find? 1 = some gr ∧ x.AsGranted gr.grant y := by
  have hv : (Sample.start.execAll Sample.granted).receiptVerdict { Sample.receipt with committedPositionAfter := 1 } =
    .finalize _ := rfl
  obtain ⟨gr, y, hgr, -, -, hiff⟩ := finalized_as_granted hv
  refine ⟨_, gr, y, hv, hgr, hiff.mpr ?_⟩
  cases hgr
  exact ⟨⟨rfl, rfl, rfl, rfl⟩, fun _ => .inl rfl⟩

namespace Sample

/-- A receipt for the first of four tokens, in the name of worker 9, that ends the sequence. -/
def forged : MemberReceipt :=
  { receipt with worker := 9, committedPositionAfter := 7, deltaDigest := 5, terminal := true }

end Sample

/-- The sequence ends with three tokens to go, on record as the work of worker 9. After a retry the same receipt is
    finalized and the sequence does not end. -/
theorem receipt_forged :
    (∃ gr y, Reachable (Sample.start.execAll Sample.granted) ∧
      (Sample.start.execAll Sample.granted).grantLedger.find? 1 = some gr ∧ gr.grant.terminal = false ∧
      ((Sample.start.execAll Sample.granted).applyReceipt Sample.forged).seqs.find? 1 = some y ∧
      y.machine = .completed ∧ y.budget.exhausted = false ∧ y.accepted.worker ≠ gr.grant.worker ∧
      y.accepted.committedPositionAfter ≠ gr.grant.committedPosition + 1 ∧
      y.accepted.deltaDigest ≠ gr.grant.deltaDigest ∧ y.accepted.terminal ≠ gr.grant.terminal) ∧
    ∃ y, ((Sample.start.execAll (Sample.granted ++ [.retry 1])).applyReceipt Sample.forged).seqs.find? 1 = some y ∧
      y.accepted.terminal = true ∧ y.generated = 1 ∧ y.machine = .ready := by
  refine ⟨⟨_, _, ⟨_, Sample.runsTo _⟩, rfl, rfl, rfl, ?_⟩, _, rfl, ?_⟩ <;> decide

end DecodeFabric
