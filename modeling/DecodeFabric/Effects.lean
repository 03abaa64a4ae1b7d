import DecodeFabric.Ops

/- Every operation is a sequence of micro steps.

   For each function of the model: what it does to the sequence table (`…_seqs`) and that it
   leaves the books alone (`…_books`), then the operations as `Steps` (`exec_steps`), each with
   the acts it may perform (`Op.MayPerform`). Later modules argue about micro steps and do not
   unfold the operations again. -/
namespace DecodeFabric
open Lib Table DecodeFabric.Seq
variable {a : AbortPrepared} {A : Act → Prop} {r : DecodeRequest} {count : Stats → Stats}

namespace Fabric
variable (s : Fabric) (q : SequenceId) (x : Seq)

/-! Bookkeeping. -/

@[simp] theorem recordEvent_seqs (k : EventKind) (rq : RequestId) (d : Bytes) :
    (s.recordEvent k rq q d).seqs = s.seqs := rfl

@[simp] theorem recordEvent_books (k : EventKind) (rq : RequestId) (d : Bytes) :
    (s.recordEvent k rq q d).books = s.books := rfl

@[simp] theorem modifySeq_seqs (f : Seq → Seq) : (s.modifySeq q f).seqs = s.seqs.modify q f := rfl

@[simp] theorem modifySeq_books (f : Seq → Seq) : (s.modifySeq q f).books = s.books := rfl

@[simp] theorem rejectStale_seqs (rq : RequestId) (why : String) : (s.rejectStale rq q why).seqs = s.seqs := rfl

@[simp] theorem rejectStale_books (rq : RequestId) (why : String) : (s.rejectStale rq q why).books = s.books := rfl

@[simp] theorem freeReservation_seqs : (s.freeReservation q x).seqs = s.seqs := by
  unfold freeReservation
  split
  · rfl
  · split <;> rfl

@[simp] theorem freeReservation_books : (s.freeReservation q x).books = s.books := by
  unfold freeReservation
  split
  · rfl
  · split <;> rfl

/-- Releasing clears the reservation field, whether or not there was one. -/
@[simp] theorem releaseReservation_seqs : (s.releaseReservation q).seqs = s.seqs.modify q release := by
  unfold releaseReservation
  split
  · next hq =>
    rw [modify_of_none hq]
  · next x hq =>
    split
    · next hr =>
      rw [modify_eq_self hq]
      cases x
      simp only at hr
      subst hr
      rfl
    · rw [modifySeq_seqs, freeReservation_seqs]
      rfl

@[simp] theorem releaseReservation_books : (s.releaseReservation q).books = s.books := by
  unfold releaseReservation
  split
  · rfl
  · split
    · rfl
    · rw [modifySeq_books, freeReservation_books]

/-! Fields read off the books. -/

theorem cfg_of_books {s t : Fabric} (h : t.books = s.books) : t.cfg = s.cfg := congrArg Books.cfg h

theorem epoch_of_books {s t : Fabric} (h : t.books = s.books) : t.epoch = s.epoch := congrArg Books.epoch h

theorem boots_of_books {s t : Fabric} (h : t.books = s.books) : t.workerCurrentBoot = s.workerCurrentBoot :=
  congrArg Books.workerCurrentBoot h

theorem nextGrant_of_books {s t : Fabric} (h : t.books = s.books) : t.nextGrant = s.nextGrant :=
  congrArg Books.nextGrant h

theorem nextDispatch_of_books {s t : Fabric} (h : t.books = s.books) : t.nextDispatch = s.nextDispatch :=
  congrArg Books.nextDispatch h

theorem clock_of_books {s t : Fabric} (h : t.books = s.books) : t.clock = s.clock := congrArg Books.clock h

theorem mintAttempt_of_books {s t : Fabric} (h : t.books = s.books) : t.mintAttempt = s.mintAttempt :=
  congrArg (fun b : Books => b.nextDispatch + 1000000) h

/-! Ending a sequence. -/

theorem retire_seqs (st : SequenceState) (count : Stats → Stats) :
    (s.retire q x st count).seqs = s.seqs.modify q (moveTo st) := rfl

/-- Retiring leaves the books alone if what it counts is not the token service. -/
theorem retire_books (st : SequenceState)
    (hc : ∀ t, (count t).decodeSteps = t.decodeSteps ∧ (count t).generatedTokens = t.generatedTokens) :
    (s.retire q x st count).books = s.books := by
  obtain ⟨hd, hg⟩ := hc s.stats
  change Books.mk _ _ _ _ _ _ _ _ _ (count s.stats).decodeSteps (count s.stats).generatedTokens = s.books
  rw [hd, hg]
  rfl

theorem exhaustRetries_seqs : (s.exhaustRetries q x).seqs = s.seqs.modify q (moveTo .nonRetryableFailure) := rfl

theorem exhaustRetries_books : (s.exhaustRetries q x).books = s.books := rfl

theorem startAttempt_seqs : (s.startAttempt q x).seqs = s.seqs.modify q (beginAttempt s.mintAttempt s.clock) := rfl

theorem startAttempt_books : (s.startAttempt q x).books = s.books := rfl

/-- Release, then retire. -/
theorem release_retire_seqs (st : SequenceState) (count : Stats → Stats) :
    ((s.releaseReservation q).retire q x st count).seqs = s.seqs.modify q (SeqOp.apply (.retire st)) := by
  rw [retire_seqs, releaseReservation_seqs, modify_modify]
  rfl

theorem staleReconcile_seqs : (s.staleReconcile q).seqs = s.seqs.modify q (SeqOp.apply (.reconcile s.clock)) := by
  unfold staleReconcile
  rw [modifySeq_seqs, releaseReservation_seqs, modify_modify]
  rfl

theorem staleReconcile_books : (s.staleReconcile q).books = s.books := by
  unfold staleReconcile
  rw [modifySeq_books, releaseReservation_books]

theorem rejectMember_seqs (r : Rejection) :
    (s.rejectMember q x r).seqs = s.seqs.modify q (SeqOp.apply (.reconcile s.clock)) := by
  rw [← staleReconcile_seqs]
  unfold rejectMember
  cases r.counted <;> cases r.event <;> rfl

theorem rejectMember_books (r : Rejection) : (s.rejectMember q x r).books = s.books := by
  rw [← s.staleReconcile_books q]
  unfold rejectMember
  cases r.counted <;> cases r.event <;> rfl

/-- A non-committing outcome changes the sequence as `Seq.noncommit` says; a retryable failure also
    clears the reservation of the sequence the outcome itself names. -/
theorem applyNoncommitOutcome_seqs {s : Fabric} {q : SequenceId} {x y : Seq} (hq : s.seqs.find? q = some y)
    (hm : y.machine = x.machine) (hc : y.attemptCount = x.attemptCount) (mo : MemberOutcome) :
    (s.applyNoncommitOutcome q x mo).seqs =
      (s.seqs.modify mo.sequence (if mo.kind = .retryableFailure then release else id)).modify q
        (noncommit s.cfg s.mintAttempt s.clock mo) := by
  have agree : ∀ f : Seq → Seq, f y = y.noncommit s.cfg s.mintAttempt s.clock mo →
      s.seqs.modify q f = s.seqs.modify q (noncommit s.cfg s.mintAttempt s.clock mo) :=
    fun f hf => modify_congr_at hq hf
  have same : y.noncommit s.cfg s.mintAttempt s.clock mo = y →
      s.seqs = s.seqs.modify q (noncommit s.cfg s.mintAttempt s.clock mo) := by
    intro hf
    rw [← agree id hf.symm, modify_id]
  unfold applyNoncommitOutcome
  cases hk : mo.kind with
  | retryableFailure =>
    -- the release of `mo.sequence` changes neither the lifecycle nor the attempt count of `q`
    obtain ⟨z, hz, hzm, hzc⟩ : ∃ z, (s.releaseReservation mo.sequence).seqs.find? q = some z ∧
        z.machine = x.machine ∧ z.attemptCount = x.attemptCount := by
      rw [releaseReservation_seqs, find?_modify]
      split
      · exact ⟨y.release, by rw [hq]; rfl, hm, hc⟩
      · exact ⟨y, hq, hm, hc⟩
    have hcfg := cfg_of_books (s.releaseReservation_books mo.sequence)
    simp only [if_true]
    rw [releaseReservation_seqs] at hz
    by_cases hmax : x.attemptCount ≥ s.cfg.retryPolicy.maxAttempts
    · simp only [modifySeq, hcfg, hmax, if_true, recordEvent_seqs, releaseReservation_seqs,
        modify_modify]
      refine modify_congr_at hz ?_
      simp [noncommit, hk, hzc, hmax, Function.comp]
    · have hmint := mintAttempt_of_books (s.releaseReservation_books mo.sequence)
      have hclock := clock_of_books (s.releaseReservation_books mo.sequence)
      simp only [modifySeq, hcfg, hmax, if_false, recordEvent_seqs]
      by_cases hp : s.cfg.retryPolicy.preserveCommittedTokens = true
      all_goals
        simp only [hp, if_true, if_false, Bool.false_eq_true, releaseReservation_seqs, modify_modify]
        refine modify_congr_at hz ?_
        rw [← hmint, ← hclock]
        simp only [noncommit, hk, hzc, hmax, hp, if_false, Function.comp]
        rfl
  | cancelled =>
    simp only [reduceCtorEq, if_false, modify_id]
    split
    · next ht => exact same (by simp only [noncommit, hk, hm, ht, if_true])
    · next ht => exact agree (moveTo .cancelled) (by simp [noncommit, hk, hm, ht])
  | expired =>
    simp only [reduceCtorEq, if_false, modify_id]
    split
    · next ht => exact same (by simp only [noncommit, hk, hm, ht, if_true])
    · next ht => exact agree (moveTo .deadlineExpired) (by simp [noncommit, hk, hm, ht])
  | yielded =>
    simp only [reduceCtorEq, if_false, modify_id]
    exact agree (fun v => { (v.moveTo .stepCompleted).moveTo .yielded with readyAt := mo.finishedAt })
      (by simp only [noncommit, hk])
  | nonRetryableFailure =>
    simp only [reduceCtorEq, if_false, modify_id]
    exact agree (fun v => if v.machine = .dispatched then v.moveTo .nonRetryableFailure else v)
      (by simp only [noncommit, hk])
  | stepSuccessContinue | stepSuccessTerminal | staleAuthorityRejected | undeclared =>
    simp only [reduceCtorEq, if_false, modify_id]
    exact same (by simp only [noncommit, hk])

theorem applyNoncommitOutcome_books (mo : MemberOutcome) : (s.applyNoncommitOutcome q x mo).books = s.books := by
  unfold applyNoncommitOutcome
  cases mo.kind with
  | retryableFailure =>
    have hrelease := s.releaseReservation_books mo.sequence
    simp only
    generalize s.releaseReservation mo.sequence = t at hrelease ⊢
    split
    · exact hrelease
    · split <;> exact hrelease
  | cancelled | expired => simp only; split <;> rfl
  | _ => rfl

theorem resolveNoncommit_books (mo : MemberOutcome) : (s.resolveNoncommit q x mo).books = s.books := by
  unfold resolveNoncommit
  rw [applyNoncommitOutcome_books, releaseReservation_books, modifySeq_books]

/-- What a non-committing outcome does to the sequences. -/
theorem resolveNoncommit_seqs {s : Fabric} {q : SequenceId} {x : Seq} (hq : s.seqs.find? q = some x)
    (mo : MemberOutcome) : (s.resolveNoncommit q x mo).seqs =
      (s.seqs.modify mo.sequence (if mo.kind = .retryableFailure then release else id)).modify q
        (resolve s.cfg s.mintAttempt s.clock mo) := by
  have hseqs : ((s.modifySeq q endDispatch).releaseReservation q).seqs =
      s.seqs.modify q (release ∘ endDispatch) := by
    rw [releaseReservation_seqs, modifySeq_seqs, modify_modify]
  have hbooks : ((s.modifySeq q endDispatch).releaseReservation q).books = s.books := by
    rw [releaseReservation_books, modifySeq_books]
  have hfind : ((s.modifySeq q endDispatch).releaseReservation q).seqs.find? q =
      some x.endDispatch.release := by
    rw [hseqs, find?_modify_self, hq]
    rfl
  unfold resolveNoncommit
  rw [applyNoncommitOutcome_seqs (x := x) hfind rfl rfl, hseqs, cfg_of_books hbooks,
    mintAttempt_of_books hbooks, clock_of_books hbooks]
  -- the release of `mo.sequence` commutes with the first two changes of `q`
  rw [modify_comm (f := release ∘ endDispatch), modify_modify]
  · rfl
  · intro _ v
    split <;> rfl

/-! Grants, receipts and aborts. -/

theorem issueGrant_seqs (prepared : PreparedDecode) (pm : PreparedMember) :
    (s.issueGrant prepared x pm).seqs = s.seqs.modify pm.sequence (holdGrant s.nextGrant pm) := rfl

theorem issueGrant_books (prepared : PreparedDecode) (pm : PreparedMember) : (s.issueGrant prepared x pm).books =
      { s.books with
        nextGrant := s.nextGrant + 1
        grantLedger := s.grantLedger.insert s.nextGrant { grant := makeGrant s.nextGrant prepared pm } } := rfl

@[simp] theorem countToken_seqs (r : MemberReceipt) : (s.countToken x r).seqs = s.seqs := rfl

theorem countToken_books (r : MemberReceipt) : (s.countToken x r).books =
      { s.books with
        tenantTokens := (s.updateTenantTokens x.req.tenant 1).tenantTokens
        decodeSteps := s.stats.decodeSteps + 1
        generatedTokens := s.stats.generatedTokens + 1 } := rfl

@[simp] theorem recordCompleted_seqs : (s.recordCompleted q x).seqs = s.seqs := rfl

theorem closeTransaction_seqs (r : MemberReceipt) : (s.closeTransaction x r).seqs =
      s.seqs.modify r.sequence (fun y => y.endDispatch.release.clearGrant) := by
  unfold closeTransaction
  simp only [recordEvent_seqs, modifySeq_seqs, releaseReservation_seqs, modify_modify]
  rfl

theorem closeTransaction_books (r : MemberReceipt) : (s.closeTransaction x r).books =
      { s.books with
        grantLedger := s.grantLedger.modify r.grantId (GrantRecord.consume r)
        receiptCount := s.receiptCount + 1 } := by
  have hrel := releaseReservation_books
    (({ s with grantLedger := s.grantLedger.modify r.grantId (GrantRecord.consume r) } : Fabric).modifySeq
      r.sequence endDispatch) r.sequence
  exact congrArg (fun b : Books => { b with receiptCount := b.receiptCount + 1 }) hrel

theorem finalize_seqs (r : MemberReceipt) :
    (s.finalize x r).seqs = s.seqs.modify r.sequence (finish (s.finishTime r) r) := by
  unfold finalize
  simp only [closeTransaction_seqs, apply_ite seqs, recordCompleted_seqs, modifySeq_seqs, countToken_seqs,
    ite_self, modify_modify]
  rfl

/-- What a finalized receipt makes of its sequence. -/
theorem applyReceipt_finish {s : Fabric} {x : Seq} {r : MemberReceipt} (hv : s.receiptVerdict r = .finalize x) :
    (s.applyReceipt r).seqs.find? r.sequence = some (x.finish (s.finishTime r) r) := by
  simp only [applyReceipt, hv, finalize_seqs, find?_modify_self, (receiptVerdict_finalize hv).seq, Option.map_some]

theorem finalize_books (r : MemberReceipt) : (s.finalize x r).books =
      { s.books with
        grantLedger := s.grantLedger.modify r.grantId (GrantRecord.consume r)
        receiptCount := s.receiptCount + 1
        tenantTokens := (s.updateTenantTokens x.req.tenant 1).tenantTokens
        decodeSteps := s.stats.decodeSteps + 1
        generatedTokens := s.stats.generatedTokens + 1 } := by
  have hended : ∀ (b : Bool) (t : Fabric), (if b then t.recordCompleted r.sequence x else t).books = t.books := by
    intro b t
    cases b <;> rfl
  have hclose : ∀ {t : Fabric} {b : Books}, t.books = b → (t.closeTransaction x r).books =
      { b with
        grantLedger := b.grantLedger.modify r.grantId (GrantRecord.consume r)
        receiptCount := b.receiptCount + 1 } := by
    rintro t b rfl
    exact closeTransaction_books t x r
  refine hclose (b := { s.books with
    tenantTokens := (s.updateTenantTokens x.req.tenant 1).tenantTokens
    decodeSteps := s.stats.decodeSteps + 1
    generatedTokens := s.stats.generatedTokens + 1 }) ?_
  rw [hended, modifySeq_books, countToken_books]
  rfl

theorem abortPrepared_seqs {s : Fabric} {x : Seq} (hq : s.seqs.find? a.sequence = some x)
    (hg : x.hasInflightGrant = true) (hp : x.inFlightProposal = a.proposal) :
    (s.abortPrepared a).1.seqs = s.seqs.modify a.sequence (fun y => y.release.abort s.clock) := by
  unfold abortPrepared
  simp only [hq, hg, hp, and_self, if_true, recordEvent_seqs, modifySeq_seqs, releaseReservation_seqs,
    modify_modify]
  rfl

theorem abortPrepared_books {s : Fabric} {x : Seq} (hq : s.seqs.find? a.sequence = some x)
    (hg : x.hasInflightGrant = true) (hp : x.inFlightProposal = a.proposal) : (s.abortPrepared a).1.books =
      { s.books with grantLedger := s.grantLedger.modify x.inFlightGrant GrantRecord.abort } := by
  unfold abortPrepared
  simp only [hq, hg, hp, and_self, if_true, recordEvent_books, modifySeq_books, releaseReservation_books]
  rfl

end Fabric

/-! The operations. -/

/-- The acts an operation may perform besides notes. -/
def Op.MayPerform : Op → Act → Prop
  | .submit _, .enrol _ _ => True
  | .cancel q, .seq q' o => q' = q ∧ (o = .moveTo .cancelRequested ∨ o = .retire .cancelled)
  | .cancelRequest _, .seq _ o => o = .moveTo .cancelRequested ∨ o = .retire .cancelled
  | .retry q, .seq q' o =>
    q' = q ∧ (o = .rollBackTokens ∨ o = .moveTo .nonRetryableFailure ∨ ∃ a now, o = .beginAttempt a now)
  | .registerWorker _, .environment => True
  | .rollEpoch, .environment => True
  | .markWorkerDead _, .seq _ o => ∃ now, o = .workerDown now
  | .advance _, .seq _ o => o = .retire .deadlineExpired ∨ o = .retire .cancelled
  | .schedule _, .takeDispatch => True
  | .schedule tn, .seq _ o =>
    o = .retire .deadlineExpired ∨ o = .retire .cancelled ∨ o = .retire .completed ∨
    o = .enterGroup tn ∨ o = .moveTo .ready ∨ ∃ d, o = .dispatchUnder d
  | .applyCompletion _, .seq _ o => o = .disown ∨ o = .release ∨ ∃ cfg a now mo, o = .resolve cfg a now mo
  | .authorizePrepared _, .seq _ o =>
    (∃ now, o = .reconcile now) ∨ o = .release ∨ ∃ cfg a now mo, o = .resolve cfg a now mo
  | .authorizePrepared prepared, .issue prepared' pm => prepared' = prepared ∧ pm ∈ prepared.members
  | .applyCommitReceipt receipts, .finalize r => r ∈ receipts.receipts
  | .abortPrepared a, .abort q => q = a.sequence
  | _, _ => False

namespace Fabric
variable (s : Fabric)

theorem enrol_steps (req : DecodeRequest) (id : SequenceId)
    (hreq : req.pregenerated ≤ req.maxGenerationLength) (ha : A (.enrol id req)) : Steps A s (s.enrol req id).1 := by
  cases hid : s.seqs.find? id with
  | some x =>
    refine .quiet _ ?_ rfl
    simp [enrol, hid]
  | none =>
    refine .single (a := .enrol id req) (.enrol hid hreq ?_ rfl) ha
    simp [enrol, hid]

/-- A request that validates asks for no more tokens than it may generate. -/
theorem validate_pregenerated (h : r.validate = .ok ()) : r.pregenerated ≤ r.maxGenerationLength := by
  unfold DecodeRequest.validate at h
  split at h
  · cases h
  · split at h
    · cases h
    · split at h
      · cases h
      · next hp => exact UInt64.not_lt.mp hp

theorem buildKey_pregenerated (r : DecodeRequest) : (s.buildKey r).pregenerated = r.pregenerated := by
  unfold buildKey
  split <;> rfl

theorem buildKey_maxGenerationLength (r : DecodeRequest) :
    (s.buildKey r).maxGenerationLength = r.maxGenerationLength := by
  unfold buildKey
  split <;> rfl

theorem validate_sequence (h : r.validate = .ok ()) : r.sequence ≠ 0 := by
  unfold DecodeRequest.validate at h
  split at h
  · cases h
  · next hid =>
    have hvalid : r.validRequestId = true := by simpa using hid
    exact (of_decide_eq_true hvalid).2.1

theorem buildKey_sequence (r : DecodeRequest) : (s.buildKey r).sequence = r.sequence := by
  unfold buildKey
  split <;> rfl

theorem buildKey_tenant (r : DecodeRequest) : (s.buildKey r).tenant = r.tenant := by
  unfold buildKey
  split <;> rfl

theorem buildKey_state (r : DecodeRequest) : (s.buildKey r).state = r.state := by
  unfold buildKey
  split <;> rfl

theorem submit_steps (req : DecodeRequest) (ha : A (.enrol req.sequence (s.buildKey req))) :
    Steps A s (s.submit req).1 := by
  have refused : ∀ k rq q why fact, Steps A s (s.refuse k rq q why fact).1 :=
    fun _ _ _ _ _ => .quiet _ rfl rfl
  unfold submit
  split
  · exact refused _ _ _ _ _
  · next hv =>
    have hreq : (s.buildKey req).pregenerated ≤ (s.buildKey req).maxGenerationLength := by
      rw [buildKey_pregenerated, buildKey_maxGenerationLength]
      exact validate_pregenerated hv
    simp only
    split
    · exact refused _ _ _ _ _
    · split
      · exact refused _ _ _ _ _
      · split
        · split
          · exact refused _ _ _ _ _
          · rw [buildKey_sequence]
            exact s.enrol_steps _ _ hreq ha
        · -- no valid request leaves the sequence id to the fabric
          next hzero =>
          rw [buildKey_sequence] at hzero
          exact absurd (validate_sequence hv) hzero

theorem release_retire_steps (q : SequenceId) (x : Seq) (st : SequenceState)
    (hc : ∀ t, (count t).decodeSteps = t.decodeSteps ∧ (count t).generatedTokens = t.generatedTokens)
    (ha : A (.seq q (.retire st))) : Steps A s ((s.releaseReservation q).retire q x st count) :=
  .ofSeq (.retire st) (s.release_retire_seqs q x st count)
    ((retire_books _ q x st hc).trans (s.releaseReservation_books q)) (fun _ _ => trivial) ha

theorem cancel_steps (q : SequenceId) (h₁ : A (.seq q (.moveTo .cancelRequested)))
    (h₂ : A (.seq q (.retire .cancelled))) : Steps A s (s.cancel q).1 := by
  unfold cancel
  split
  · exact .refl _ _
  · next x hq =>
    split
    · exact .refl _ _
    · split
      · exact .refl _ _
      · split
        · exact .ofSeq (.moveTo .cancelRequested) rfl rfl (fun _ _ => trivial) h₁
        · exact (s.release_retire_steps q x .cancelled (fun _ => ⟨rfl, rfl⟩) h₂).trans (.quiet _ rfl rfl)

theorem preserveTokens_books (q : SequenceId) : (s.preserveTokens q).books = s.books := by
  unfold preserveTokens
  split <;> rfl

/-- The roll back comes first, whether or not an attempt is left. -/
theorem retry_steps (q : SequenceId) (h₁ : A (.seq q .rollBackTokens)) (h₂ : A (.seq q (.moveTo .nonRetryableFailure)))
    (h₃ : (s.retry q).2.retried = true → A (.seq q (.beginAttempt s.mintAttempt s.clock))) :
    Steps A s (s.retry q).1 := by
  unfold retry at h₃ ⊢
  split at h₃
  · exact .refl _ _
  · next x hq =>
    split at h₃
    · next hst =>
      rw [if_pos hst]
      have hbooks := s.preserveTokens_books q
      have hsteps : Steps A s (s.preserveTokens q) := by
        unfold preserveTokens
        split
        · exact .refl _ _
        · exact .ofSeq .rollBackTokens rfl rfl (fun _ _ => trivial) h₁
      simp only at h₃ ⊢
      split at h₃
      · next hmax =>
        rw [if_pos hmax]
        exact hsteps.trans (.ofSeq (.moveTo .nonRetryableFailure) (exhaustRetries_seqs _ _ _)
          (exhaustRetries_books _ _ _) (fun _ _ => trivial) h₂)
      · next hmax =>
        rw [if_neg hmax]
        rw [← mintAttempt_of_books hbooks, ← clock_of_books hbooks] at h₃
        exact hsteps.trans (.ofSeq (.beginAttempt _ _) (startAttempt_seqs _ _ _) (startAttempt_books _ _ _)
          (fun _ _ => rfl) (h₃ rfl))
    · next hst =>
      rw [if_neg hst]
      exact .refl _ _

theorem registerWorker_steps (wd : WorkerDescriptor) :
    Steps (Op.MayPerform (.registerWorker wd)) s (s.registerWorker wd).1 := by
  unfold registerWorker
  split
  · exact .refl _ _
  · exact .single (.environment (Table.Reorder.refl _) rfl) trivial

theorem reconcileWorkerDown_steps (id : WorkerId) (q : SequenceId) :
    Steps (Op.MayPerform (.markWorkerDead id)) s (reconcileWorkerDown id s q) := by
  unfold reconcileWorkerDown
  split
  · exact .refl _ _
  · split
    · refine .ofSeq (q := q) (.workerDown s.clock) ?_ ?_ (fun _ _ => trivial) ⟨_, rfl⟩
      · rw [modifySeq_seqs, releaseReservation_seqs, modify_modify]
        rfl
      · rw [modifySeq_books, releaseReservation_books]
    · exact .refl _ _

theorem markWorkerDead_steps (id : WorkerId) :
    Steps (Op.MayPerform (.markWorkerDead id)) s (s.markWorkerDead id).1 := by
  unfold markWorkerDead
  refine .trans (.quiet _ ?_ ?_) (.foldl (fun t q _ => t.reconcileWorkerDown_steps id q) _) <;> rfl

theorem advanceSeq_steps (tn : TimePoint) (q : SequenceId) :
    Steps (Op.MayPerform (.advance tn)) s (advanceSeq tn s q) := by
  unfold advanceSeq
  split
  · exact .refl _ _
  · next x hq =>
    split
    · exact .refl _ _
    · split
      · exact (s.release_retire_steps q x .deadlineExpired (fun _ => ⟨rfl, rfl⟩) (.inl rfl)).trans
          (.quiet _ rfl rfl)
      · split
        · exact (s.release_retire_steps q x .cancelled (fun _ => ⟨rfl, rfl⟩) (.inr rfl)).trans
            (.quiet _ rfl rfl)
        · exact .refl _ _

/-! Turns of the message loops. -/

/-- A non-committing outcome: perhaps the release of the sequence it names, then the resolution of `q`. -/
theorem resolveNoncommit_steps {q : SequenceId} {x : Seq} {mo : MemberOutcome}
    (hq : s.seqs.find? q = some x) (hlive : x.machine.isTerminal = false) (hcan : x.machine ≠ .cancelRequested)
    (h₁ : A (.seq mo.sequence .release)) (h₂ : A (.seq q (.resolve s.cfg s.mintAttempt s.clock mo))) :
    Steps A s (s.resolveNoncommit q x mo) := by
  have hseqs := resolveNoncommit_seqs hq mo
  have hbooks := s.resolveNoncommit_books q x mo
  by_cases hk : mo.kind = .retryableFailure
  · rw [if_pos hk] at hseqs
    have hrel : Steps A s (s.modifySeq mo.sequence release) :=
      .ofSeq .release rfl rfl (fun _ _ => trivial) h₁
    refine hrel.trans (.ofSeq (.resolve s.cfg s.mintAttempt s.clock mo) hseqs hbooks ?_ h₂)
    intro y hy
    rw [modifySeq_seqs, find?_modify, hq] at hy
    refine ⟨rfl, rfl, ?_⟩
    split at hy <;> (cases hy; exact ⟨hlive, hcan⟩)
  · rw [if_neg hk, modify_id] at hseqs
    refine .ofSeq (.resolve s.cfg s.mintAttempt s.clock mo) hseqs hbooks ?_ h₂
    intro y hy
    rw [hq] at hy
    cases hy
    exact ⟨rfl, rfl, hlive, hcan⟩

/-- One turn of `apply_completion`, by its verdict. -/
theorem applyOutcome_steps (result : DecodeExecutionResult) (mo : MemberOutcome)
    (hdisown : ∀ x why, s.seqs.find? mo.sequence = some x → s.completionVerdict result x mo = .disown why →
      A (.seq mo.sequence .disown))
    (happly : ∀ x, s.seqs.find? mo.sequence = some x → s.completionVerdict result x mo = .apply →
      A (.seq mo.sequence .release) ∧ A (.seq mo.sequence (.resolve s.cfg s.mintAttempt s.clock mo))) :
    Steps A s (applyOutcome result s mo) := by
  unfold applyOutcome
  split
  · exact .quiet _ rfl rfl
  · next x hq =>
    split
    · exact .quiet _ rfl rfl
    · next why hv =>
      refine .ofSeq (q := mo.sequence) .disown ?_ ?_ (fun _ _ => trivial) (hdisown x why hq hv)
      · rw [rejectStale_seqs, modifySeq_seqs, releaseReservation_seqs, modify_modify]
        rfl
      · rw [rejectStale_books, modifySeq_books, releaseReservation_books]
    · next hv =>
      have hap := completionVerdict_apply hv
      obtain ⟨h₁, h₂⟩ := happly x hq hv
      exact s.resolveNoncommit_steps hq hap.live hap.notCancelling h₁ h₂

/-- One turn of `authorize_prepared`, by its verdict. -/
theorem authorizeMember_steps (prepared : PreparedDecode) (pm : PreparedMember)
    (hreject : ∀ x r, s.seqs.find? pm.sequence = some x → s.prepareVerdict x pm = .reject r →
      A (.seq pm.sequence (.reconcile s.clock)))
    (hnoncommit : ∀ x, s.seqs.find? pm.sequence = some x → s.prepareVerdict x pm = .noncommit →
      A (.seq pm.outcome.sequence .release) ∧
      A (.seq pm.sequence (.resolve s.cfg s.mintAttempt s.clock pm.outcome)))
    (hgrant : ∀ x, s.seqs.find? pm.sequence = some x → s.prepareVerdict x pm = .grant →
      A (.issue prepared pm)) : Steps A s (authorizeMember prepared s pm).1 := by
  unfold authorizeMember
  split
  · exact .quiet _ rfl rfl
  · next x hq =>
    split
    · next r hv =>
      exact .ofSeq (.reconcile s.clock) (s.rejectMember_seqs _ x r) (s.rejectMember_books _ x r)
        (fun _ _ => trivial) (hreject x r hq hv)
    · next hv =>
      have hcur := (prepareVerdict_noncommit hv).1
      obtain ⟨h₁, h₂⟩ := hnoncommit x hq hv
      exact s.resolveNoncommit_steps hq hcur.live hcur.notCancelling h₁ h₂
    · next hv =>
      exact .single (.issue prepared pm hq hv (s.issueGrant_seqs x prepared pm)
        (s.issueGrant_books x prepared pm)) (hgrant x hq hv)

theorem applyOutcome_mayPerform (result : DecodeExecutionResult) (mo : MemberOutcome) :
    Steps (Op.MayPerform (.applyCompletion result)) s (applyOutcome result s mo) :=
  s.applyOutcome_steps result mo (fun _ _ _ _ => .inl rfl)
    (fun _ _ _ => ⟨.inr (.inl rfl), .inr (.inr ⟨_, _, _, _, rfl⟩)⟩)

theorem authorizeMember_mayPerform {prepared : PreparedDecode} {pm : PreparedMember} (hpm : pm ∈ prepared.members) :
    Steps (Op.MayPerform (.authorizePrepared prepared)) s (authorizeMember prepared s pm).1 :=
  s.authorizeMember_steps prepared pm (fun _ _ _ _ => .inl ⟨_, rfl⟩)
    (fun _ _ _ => ⟨.inr (.inl rfl), .inr (.inr ⟨_, _, _, _, rfl⟩)⟩) (fun _ _ _ => ⟨rfl, hpm⟩)

theorem authorizePrepared_eq_foldl (prepared : PreparedDecode) : (s.authorizePrepared prepared).1 =
      prepared.members.foldl (fun t pm => (authorizeMember prepared t pm).1) s := scan_fst _ _ _

theorem applyReceipt_steps {receipts : ReceiptDecode} {r : MemberReceipt} (hr : r ∈ receipts.receipts) :
    Steps (Op.MayPerform (.applyCommitReceipt receipts)) s (applyReceipt s r) := by
  unfold applyReceipt
  split
  · exact .refl _ _
  · exact .quiet _ rfl rfl
  · next x hv =>
    exact .single (.finalize r hv (s.finalize_seqs x r) (s.finalize_books x r)) hr

theorem abortPrepared_steps (a : AbortPrepared) : Steps (Op.MayPerform (.abortPrepared a)) s (s.abortPrepared a).1 := by
  cases hq : s.seqs.find? a.sequence with
  | none =>
    unfold abortPrepared
    rw [hq]
    exact .refl _ _
  | some x =>
    by_cases hg : x.hasInflightGrant = true ∧ x.inFlightProposal = a.proposal
    · exact .single (.abort hq hg.1 (abortPrepared_seqs hq hg.1 hg.2)
        (abortPrepared_books hq hg.1 hg.2)) rfl
    · unfold abortPrepared
      rw [hq]
      simp only [hg, if_false]
      exact .refl _ _

end Fabric
end DecodeFabric
