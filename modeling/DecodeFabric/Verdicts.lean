import DecodeFabric.Transaction

/- What the checks of the transactional protocol establish.

   One inversion per verdict: which facts about the message, the sequence and the ledger hold
   once a member is granted, applied or finalized. -/
namespace DecodeFabric
open Lib
variable {result : DecodeExecutionResult} {s : Fabric} {mo : MemberOutcome} {r : MemberReceipt} {pm : PreparedMember}
  {x : Seq}

/-- A chain of checks that ends in `v` has passed its first check, if failing it gives something else. -/
theorem check_passed {α : Type} {c : Prop} [Decidable c] {a b v : α} (h : (if c then a else b) = v)
    (ha : a ≠ v) : ¬ c ∧ b = v := by
  by_cases hc : c
  · rw [if_pos hc] at h
    exact absurd h ha
  · rw [if_neg hc] at h
    exact ⟨hc, h⟩

namespace Fabric

/-- What holds of a member that passed every staleness check. -/
structure Current (s : Fabric) (x : Seq) (pm : PreparedMember) : Prop where
  epoch : pm.epoch = s.epoch
  boot : s.bootMoved pm.worker pm.workerBoot = false
  attempt : pm.attempt = x.currentAttempt
  generation : pm.generation = x.inFlightGeneration
  dispatch : pm.dispatch = x.inFlightDispatch
  live : x.machine.isTerminal = false
  notCancelling : x.machine ≠ .cancelRequested

/-- What holds of a member that is granted. -/
structure Granted (s : Fabric) (x : Seq) (pm : PreparedMember) : Prop extends Current s x pm where
  eligible : pm.isCommitEligible = true
  fresh : ¬ (x.hasAccepted = true ∧ x.accepted.idempotencyKey = pm.acceptanceKey)
  noGrant : x.hasInflightGrant = false
  position : pm.committedPositionBefore = x.generated
  digest : x.stateDigestEstablished = true → pm.preStateDigest = x.committedStateDigest

/-- A verdict other than a stale rejection comes after all staleness checks. -/
theorem prepareVerdict_current {v : PrepareVerdict}
    (h : s.prepareVerdict x pm = v) (hv : ∀ c r e, PrepareVerdict.stale c r e ≠ v) : Current s x pm := by
  unfold prepareVerdict at h
  obtain ⟨hep, h⟩ := check_passed h (hv _ _ _)
  obtain ⟨hbo, h⟩ := check_passed h (hv _ _ _)
  obtain ⟨hat, h⟩ := check_passed h (hv _ _ _)
  obtain ⟨hge, h⟩ := check_passed h (hv _ _ _)
  obtain ⟨hdi, h⟩ := check_passed h (hv _ _ _)
  obtain ⟨hte, h⟩ := check_passed h (hv _ _ _)
  obtain ⟨hca, h⟩ := check_passed h (hv _ _ _)
  exact
    { epoch := not_not.mp hep
      boot := Bool.eq_false_iff.mpr hbo
      attempt := not_not.mp hat
      generation := not_not.mp hge
      dispatch := not_not.mp hdi
      live := Bool.eq_false_iff.mpr hte
      notCancelling := fun hc => hca (.inl hc) }

/-- The verdict on a member that passed the staleness checks depends on the transaction alone. -/
theorem prepareVerdict_of_current (h : Current s x pm) : s.prepareVerdict x pm =
      if !pm.isCommitEligible then .noncommit
      else if x.hasAccepted ∧ x.accepted.idempotencyKey = pm.acceptanceKey then
        .reject ⟨.duplicateCompletion, "already-accepted generation reconciled idempotently",
          some "already_accepted_replay", false⟩
      else if x.hasInflightGrant then
        .reject ⟨.transactionConflict, "conflicting pending grant for sequence+generation", none, true⟩
      else if pm.committedPositionBefore ≠ x.generated then
        .reject ⟨.invalidArgument, "committed-position mismatch", none, true⟩
      else if x.stateDigestEstablished ∧ pm.preStateDigest ≠ x.committedStateDigest then
        .reject ⟨.stateDigestMismatch, "pre-state digest does not match committed executor state", none, true⟩
      else .grant := by
  have hcancelled : x.machine ≠ .cancelled := by
    intro hc
    have := h.live
    rw [hc] at this
    cases this
  have hexpired : x.machine ≠ .deadlineExpired := by
    intro hc
    have := h.live
    rw [hc] at this
    cases this
  unfold prepareVerdict
  simp only [h.epoch, h.boot, h.attempt, h.generation, h.dispatch, h.live, h.notCancelling, hcancelled,
    hexpired, ne_eq, not_true_eq_false, or_self, if_false, Bool.false_eq_true]

theorem prepareVerdict_noncommit
    (h : s.prepareVerdict x pm = .noncommit) : Current s x pm ∧ pm.isCommitEligible = false := by
  have hcur := prepareVerdict_current h (by intro c r e; unfold PrepareVerdict.stale; simp)
  refine ⟨hcur, ?_⟩
  rw [prepareVerdict_of_current hcur] at h
  by_contra he
  rw [Bool.not_eq_false] at he
  simp only [he, Bool.not_true, Bool.false_eq_true, if_false] at h
  split_ifs at h

theorem prepareVerdict_grant (h : s.prepareVerdict x pm = .grant) : Granted s x pm := by
  have hcur := prepareVerdict_current h (by intro c r e; unfold PrepareVerdict.stale; simp)
  rw [prepareVerdict_of_current hcur] at h
  obtain ⟨hel, h⟩ := check_passed h (by simp)
  obtain ⟨hre, h⟩ := check_passed h (by simp)
  obtain ⟨hgr, h⟩ := check_passed h (by simp)
  obtain ⟨hpo, h⟩ := check_passed h (by simp)
  obtain ⟨hdi, h⟩ := check_passed h (by simp)
  exact
    { toCurrent := hcur
      eligible := by simpa using hel
      fresh := hre
      noGrant := Bool.eq_false_iff.mpr hgr
      position := not_not.mp hpo
      digest := fun he => by_contra fun hne => hdi ⟨he, hne⟩ }

/-- A granted member is what the checks say, and nothing more is needed. -/
theorem prepareVerdict_grant_iff : s.prepareVerdict x pm = .grant ↔ Granted s x pm := by
  refine ⟨prepareVerdict_grant, fun h => ?_⟩
  rw [prepareVerdict_of_current h.toCurrent]
  have hdig : ¬ (x.stateDigestEstablished = true ∧ pm.preStateDigest ≠ x.committedStateDigest) :=
    fun hd => hd.2 (h.digest hd.1)
  rw [if_neg (by simp [h.eligible]), if_neg h.fresh, if_neg (by simp [h.noGrant]),
    if_neg (by simp [h.position]), if_neg hdig]

/-! Completions. -/

/-- What holds of a completion outcome that is applied. -/
structure Applied (s : Fabric) (result : DecodeExecutionResult) (x : Seq) (mo : MemberOutcome) : Prop where
  epoch : result.epoch = s.epoch
  boot : s.bootMoved result.worker result.workerBoot = false
  attempt : mo.attempt = x.currentAttempt
  generation : mo.generation = x.inFlightGeneration
  dispatch : result.dispatchId = x.inFlightDispatch
  live : x.machine.isTerminal = false
  notCancelling : x.machine ≠ .cancelRequested
  notStale : mo.kind ≠ .staleAuthorityRejected
  notSuccess : mo.succeeded = false

theorem completionVerdict_apply (h : s.completionVerdict result x mo = .apply) : Applied s result x mo := by
  unfold completionVerdict at h
  obtain ⟨hep, h⟩ := check_passed h (by simp)
  obtain ⟨hbo, h⟩ := check_passed h (by simp)
  obtain ⟨hat, h⟩ := check_passed h (by simp)
  obtain ⟨hge, h⟩ := check_passed h (by simp)
  obtain ⟨hdi, h⟩ := check_passed h (by simp)
  obtain ⟨hte, h⟩ := check_passed h (by simp)
  obtain ⟨hca, h⟩ := check_passed h (by simp)
  obtain ⟨_, h⟩ := check_passed h (by simp)
  obtain ⟨hst, h⟩ := check_passed h (by simp)
  obtain ⟨hsu, h⟩ := check_passed h (by simp)
  exact
    { epoch := not_not.mp hep
      boot := Bool.eq_false_iff.mpr hbo
      attempt := not_not.mp hat
      generation := not_not.mp hge
      dispatch := not_not.mp hdi
      live := Bool.eq_false_iff.mpr hte
      notCancelling := fun hc => hca (.inl hc)
      notStale := hst
      notSuccess := decide_eq_false hsu }

/-- A completion is disowned for its epoch or because its sequence is about to end. -/
theorem completionVerdict_disown {why : String} (h : s.completionVerdict result x mo = .disown why) :
    (result.epoch ≠ s.epoch ∧ why = "stale_epoch") ∨
    ((x.machine = .cancelRequested ∨ x.machine = .cancelled) ∧ why = "completion_for_cancelled") ∨
    (x.machine = .deadlineExpired ∧ why = "completion_for_expired") := by
  unfold completionVerdict at h
  by_cases hep : result.epoch ≠ s.epoch
  · rw [if_pos hep] at h
    cases h
    exact .inl ⟨hep, rfl⟩
  · rw [if_neg hep] at h
    obtain ⟨-, h⟩ := check_passed h (by simp)
    obtain ⟨-, h⟩ := check_passed h (by simp)
    obtain ⟨-, h⟩ := check_passed h (by simp)
    obtain ⟨-, h⟩ := check_passed h (by simp)
    obtain ⟨-, h⟩ := check_passed h (by simp)
    right
    split at h
    · next hc =>
      cases h
      exact .inl ⟨hc, rfl⟩
    · split at h
      · next hd =>
        cases h
        exact .inr ⟨hd, rfl⟩
      · split_ifs at h

/-! Receipts. -/

/-- What holds of a receipt that is finalized on sequence `x`. -/
structure Finalizable (s : Fabric) (x : Seq) (r : MemberReceipt) : Prop where
  seq : s.seqs.find? r.sequence = some x
  grant : ∃ gr, s.grantLedger.find? r.grantId = some gr ∧ gr.status = .pending ∧
    receiptFitsGrant r gr.grant = true
  holds : x.hasInflightGrant = true
  held : x.inFlightGrant = r.grantId
  proposal : x.inFlightProposal = r.proposal
  live : x.machine.isTerminal = false
  notCancelling : x.machine ≠ .cancelRequested

theorem receiptVerdict_finalize (h : s.receiptVerdict r = .finalize x) : Finalizable s x r := by
  unfold receiptVerdict at h
  split at h
  · cases h
  · next gr hgr =>
    split at h
    · next hst =>
      split at h
      · cases h
      · split at h <;> cases h
    · cases h
    · next hst =>
      obtain ⟨hfit, h⟩ := check_passed h (by simp)
      split at h
      · cases h
      · next y hy =>
        obtain ⟨hheld, h⟩ := check_passed h (by simp)
        obtain ⟨hlive, h⟩ := check_passed h (by simp)
        cases h
        simp only [not_or, Bool.not_eq_true', Bool.not_eq_false, not_not, Bool.not_eq_true] at hheld hlive hfit
        exact
          { seq := hy
            grant := ⟨gr, hgr, hst, hfit⟩
            holds := by simpa using hheld.1
            held := by simpa using hheld.2.1
            proposal := by simpa using hheld.2.2
            live := hlive.1
            notCancelling := hlive.2.1 }

theorem receiptVerdict_of_finalizable (h : Finalizable s x r) : s.receiptVerdict r = .finalize x := by
  obtain ⟨gr, hgr, hpend, hfit⟩ := h.grant
  have hlive : ¬ (x.machine.isTerminal = true ∨ x.machine = .cancelRequested ∨ x.machine = .cancelled ∨
      x.machine = .deadlineExpired) := by
    rintro (ht | hc | hc | hc)
    · rw [h.live] at ht
      cases ht
    · exact h.notCancelling hc
    all_goals
      have hno := h.live
      rw [hc] at hno
      cases hno
  simp only [receiptVerdict, hgr, hpend, hfit, h.seq]
  rw [if_neg (by simp), if_neg (by simp [h.holds, h.held, h.proposal]), if_neg hlive]

end Fabric
end DecodeFabric
