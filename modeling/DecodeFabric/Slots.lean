import DecodeFabric.Endings

/- The slots of the tenants.

   `tenant_active` counts a tenant's sequences for the admission limit. Admission adds one; nine places subtract one,
   with an unsigned expression that wraps at zero. It goes wrong both ways. A retry or a retryable failure that finds
   the attempts used up ends a sequence and keeps its slot. A failure, a cancellation or a receipt whose end the
   lifecycle does not grant gives the slot back though the sequence lives on, and the slot is given back again at its
   real end: a late failure of a lost worker and a cancellation leave a tenant with 2^32 - 1 sequences
   (`slot_returned_twice`). In runs without these the count is exact, no subtraction wraps, and admission applies the
   limit to the number of live sequences (`slots_exact_when`). -/
namespace DecodeFabric
open Lib Table Fabric Sample
variable {s t u v : Fabric} {o : Op} {st : SequenceState}

structure Fabric.Slotted (s : Fabric) : Prop where
  declared : s.AllSeqs fun x => x.machine.declared = true
  slots : s.SlotsKept
  few : ∀ t, s.activeOf t < 2 ^ 32

/-- The slot apart, what is paid for a change does not touch the tenants. -/
theorem Holdings.pay_tenantActive (h : Holdings) (x : Seq) (free slot : Bool)
    (entry : TerminalEntry) :
    (h.pay x free slot entry).accounts.tenantActive =
      if slot then (h.accounts.releaseSlot x.req.tenant).tenantActive else h.accounts.tenantActive := by
  unfold pay
  cases free <;> cases slot <;> simp

theorem Fabric.activeOf_enrol {q : SequenceId} {req : DecodeRequest} (hq : s.seqs.find? q = none)
    (hs : t.seqs = s.seqs.insert q (Seq.ofRequest req)) (u : TenantId) :
    t.activeOf u = s.activeOf u + if req.tenant = u then 1 else 0 := by
  unfold activeOf
  rw [hs, total_insert_new hq]
  congr 1
  refine if_congr (and_iff_left_of_imp fun _ => rfl) rfl rfl

theorem Fabric.SlotsKept.enrol {q : SequenceId} {req : DecodeRequest} (h : s.SlotsKept) (hq : s.seqs.find? q = none)
    (hs : t.seqs = s.seqs.insert q (Seq.ofRequest req))
    (hslots : t.tenantActive = s.tenantActive.insert req.tenant (s.tenantActive.getD req.tenant 0 + 1)) :
    t.SlotsKept := by
  intro u
  rw [hslots, getD_insert, activeOf_enrol hq hs]
  split
  · next hu => rw [hu, if_pos rfl, UInt32.ofNat_add, h]; rfl
  · next hu => rw [if_neg (Ne.symm hu), Nat.add_zero, h]

namespace Fabric.Slotted
variable {s t : Fabric} {q : SequenceId} {x : Seq} {f : Seq → Seq}

theorem same (h : s.Slotted) (hseqs : t.seqs.Reorder s.seqs) (hslots : t.tenantActive = s.tenantActive) :
    t.Slotted := by
  have hactive : ∀ u, t.activeOf u = s.activeOf u := fun u => total_reorder hseqs _
  refine ⟨fun q x hx => h.declared q x ((find?_reorder hseqs q).symm.trans hx), h.slots.same hslots hactive,
    fun u => ?_⟩
  rw [hactive]
  exact h.few u

/-- A sequence goes on. -/
theorem goes (h : s.Slotted) (hs : t.seqs = s.seqs.modify q f) (hslots : t.tenantActive = s.tenantActive)
    (hf : ∀ x, s.seqs.find? q = some x → (f x).req = x.req ∧ (f x).machine.isTerminal = x.machine.isTerminal ∧
      (f x).machine.declared = true) : t.Slotted := by
  have hactive := activeOf_modify_same hs fun x hx => ⟨(hf x hx).1, (hf x hx).2.1⟩
  refine ⟨fun j y hy => ?_, h.slots.same hslots hactive, fun u => ?_⟩
  · rw [hs] at hy
    rcases find?_modify_cases hy with ⟨rfl, x, hx, rfl⟩ | ⟨-, hy⟩
    · exact (hf x hx).2.2
    · exact h.declared j y hy
  · rw [hactive]
    exact h.few u

/-- A live sequence ends, and its slot is given back. -/
theorem ends (h : s.Slotted) (hx : s.seqs.find? q = some x) (hs : t.seqs = s.seqs.modify q f)
    (hslots : t.tenantActive = (s.accounts.releaseSlot x.req.tenant).tenantActive) (hreq : (f x).req = x.req)
    (hlive : x.machine.isTerminal = false) (hend : (f x).machine.isTerminal = true)
    (hdeclared : (f x).machine.declared = true) : t.Slotted := by
  refine ⟨fun j y hy => ?_, h.slots.ends hx hs hreq hlive hend hslots, fun u => ?_⟩
  · rw [hs] at hy
    rcases find?_modify_of_some hx hy with ⟨-, rfl⟩ | ⟨-, hy⟩
    · exact hdeclared
    · exact h.declared j y hy
  · have hless : t.activeOf u ≤ s.activeOf u := by
      have htotal := total_modify hx f
        fun _ (x : Seq) => if x.req.tenant = u ∧ x.machine.isTerminal = false then 1 else 0
      rw [← hs] at htotal
      simp only [hend, Bool.true_eq_false, and_false, if_false, Nat.add_zero] at htotal
      unfold activeOf
      omega
    exact Nat.lt_of_le_of_lt hless (h.few u)

theorem enrol {req : DecodeRequest} (h : s.Slotted) (hq : s.seqs.find? q = none)
    (hs : t.seqs = s.seqs.insert q (Seq.ofRequest req))
    (hslots : t.tenantActive = s.tenantActive.insert req.tenant (s.tenantActive.getD req.tenant 0 + 1))
    (hroom : s.activeOf req.tenant + 1 < 2 ^ 32) : t.Slotted := by
  refine ⟨fun j y hy => ?_, h.slots.enrol hq hs hslots, fun u => ?_⟩
  · rw [hs, find?_insert] at hy
    split at hy
    · cases hy
      rfl
    · exact h.declared j y hy
  · rw [activeOf_enrol hq hs]
    split
    · next hu => exact hu ▸ hroom
    · exact h.few u

theorem send {d : Dispatch} : ∀ {members : List SequenceId} {s t : Fabric}, s.Slotted →
    t.seqs = members.foldl (fun u m => u.modify m (Seq.dispatchUnder d)) s.seqs → t.tenantActive = s.tenantActive →
    t.Slotted
  | [], s, t, h, hs, hslots => h.same (hs ▸ .refl _) hslots
  | m :: members, s, t, h, hs, hslots => by
    have hfirst : ({ s with seqs := s.seqs.modify m (Seq.dispatchUnder d) } : Fabric).Slotted := by
      refine h.goes rfl rfl fun x hx => ?_
      have hgoes : x.machine.Goes (x.dispatchUnder d).machine :=
        ((SequenceState.Goes.refl _).move rfl rfl).move rfl rfl
      exact ⟨rfl, hgoes.isTerminal, hgoes.declared (h.declared m x hx)⟩
    exact hfirst.send hs hslots

/-- The count is not only right modulo 2^32. -/
theorem exact (h : s.Slotted) (u : TenantId) : (s.tenantActive.getD u 0).toNat = s.activeOf u := by
  rw [h.slots u, UInt32.toNat_ofNat', Nat.mod_eq_of_lt (h.few u)]

end Fabric.Slotted

/-! Calls. -/

/-- The slot of a sequence is given back with its end and not otherwise: no retry and no retryable failure ends a
    sequence; a non-retryable failure finds its sequence dispatched, a receipt that ends one finds it in a step; a
    sequence whose retries are used up is not cancelled and does not expire; and a tenant has fewer than 2^32
    sequences. -/
structure Slotting (e : Edge Fabric Call) : Prop where
  retried : ∀ q, e.label = .op (.retry q) → ∀ x, e.pre.seqs.find? q = some x →
    x.attemptCount ≥ e.pre.cfg.retryPolicy.maxAttempts → x.machine ≠ .dispatched ∧ x.machine ≠ .running
  exhausted : ∀ o, e.label = .op o → ∀ u q x mo, Resolves e.pre q x mo u o → mo.kind = .retryableFailure →
    x.attemptCount ≥ u.cfg.retryPolicy.maxAttempts → x.machine ≠ .running ∧ x.machine ≠ .stepCompleted
  failed : ∀ o, e.label = .op o → ∀ u q x mo, Resolves e.pre q x mo u o → mo.kind = .nonRetryableFailure →
    x.machine = .dispatched
  closed : ∀ o, e.label = .op o → ∀ u q x mo, Resolves e.pre q x mo u o → mo.kind = .cancelled ∨ mo.kind = .expired →
    x.machine ≠ .retryableFailure
  retired : ∀ o, e.label = .op o → ∀ q x, e.pre.seqs.find? q = some x → o.Retires e.pre q x →
    x.machine ≠ .retryableFailure
  received : ∀ receipts, e.label = .op (.applyCommitReceipt receipts) → ∀ u r x,
    (u, r) ∈ turns applyReceipt e.pre receipts.receipts → u.receiptVerdict r = .finalize x →
    (x.commitToken (u.finishTime r) r).endsWith r = true →
    x.machine = .dispatched ∨ x.machine = .running ∨ x.machine = .stepCompleted
  few : ∀ req, e.label = .op (.submit req) → e.pre.activeOf req.tenant + 1 < 2 ^ 32

/-- Candidates are not granted a completion. -/
theorem SequenceState.candidate_completed (h : st.isCandidate = true) : st.move .completed = st := by
  cases st <;> first | rfl | exact absurd h Bool.false_ne_true

/-- Outside a step a retryable failure after the last attempt is granted nothing, or leaves the sequence waiting to be
    retried. -/
theorem SequenceState.exhausted_lives (hrun : st ≠ .running) (hstep : st ≠ .stepCompleted)
    (hdeclared : st.declared = true) (hlive : st.isTerminal = false) :
    ((if st = .dispatched then st.move .retryableFailure else st).move .nonRetryableFailure).isTerminal = false ∧
      ((if st = .dispatched then st.move .retryableFailure else st).move .nonRetryableFailure).declared = true := by
  cases st <;> first | decide | exact absurd rfl hrun | exact absurd rfl hstep | exact absurd hlive (by decide) |
    exact absurd hdeclared Bool.false_ne_true

theorem change_slotted {q : SequenceId} {x : Seq} {f : Seq → Seq} {free slot : Bool}
    {entry : TerminalEntry} (hc : Slotting ⟨s, .op o, t⟩)
    (hp : Performs s o u (.change q f free slot entry)) (hx : u.seqs.find? q = some x)
    (hs : v.seqs = u.seqs.modify q f) (hh : v.holdings = u.holdings.pay x free slot entry) (h : u.Slotted) :
    v.Slotted := by
  have hdeclared : x.machine.declared = true := h.declared q x hx
  have hreq := hp.req x
  have hslots : v.tenantActive = (u.holdings.pay x free slot entry).accounts.tenantActive :=
    congrArg (fun g => g.accounts.tenantActive) hh
  rw [Holdings.pay_tenantActive] at hslots
  -- the two ways it can go: the sequence goes on and keeps its slot, or it ends and gives it back
  have stays : slot = false → (f x).machine.isTerminal = x.machine.isTerminal → (f x).machine.declared = true →
      v.Slotted := by
    rintro rfl hterm hdecl
    refine h.goes hs hslots fun y hy => ?_
    cases hx.symm.trans hy
    exact ⟨hreq, hterm, hdecl⟩
  have leaves : ∀ {st : SequenceState}, slot = true → x.machine.isTerminal = false → (f x).machine = st →
      st.isTerminal = true → st.declared = true → v.Slotted := by
    rintro st rfl hlive hst hterm hdecl
    exact h.ends hx hs hslots hreq hlive (hst ▸ hterm) (hst ▸ hdecl)
  cases hp.lives hx with
  | goes hgoes => exact stays rfl hgoes.isTerminal (hgoes.declared hdeclared)
  | retired hfound hret hst hlive hmachine =>
    have hreg := SequenceState.declared_live hdeclared hlive (hc.retired o rfl q x hfound hret)
    obtain ⟨hcancel, hexpire⟩ := SequenceState.regular_ends hreg hlive
    rcases hst with rfl | rfl
    · exact leaves rfl hlive (hmachine.trans hcancel) rfl rfl
    · exact leaves rfl hlive (hmachine.trans hexpire) rfl rfl
  | spent _ _ hcand _ hmachine =>
    rw [SequenceState.candidate_completed hcand] at hmachine
    exact stays rfl (by rw [hmachine]) (by rw [hmachine]; exact hdeclared)
  | givenUp ho hfound hretry hmax hmachine =>
    subst ho
    obtain ⟨hdisp, hrun⟩ := hc.retried q rfl x hfound hmax
    rcases hretry with hst | hst | hst
    · rw [hst] at hmachine
      exact stays rfl (by rw [hmachine, hst]; rfl) (by rw [hmachine]; rfl)
    · exact absurd hst hrun
    · exact absurd hst hdisp
  | @failed mo hres hk hmax hmachine =>
    obtain ⟨hrun, hstep⟩ := hc.exhausted o rfl u q x mo hres hk hmax
    obtain ⟨hterm, hdecl⟩ := SequenceState.exhausted_lives hrun hstep hdeclared hres.live
    exact stays rfl (by rw [hmachine, hterm, hres.live]) (by rw [hmachine]; exact hdecl)
  | @broken mo hres hk hmachine =>
    have hst := hc.failed o rfl u q x mo hres hk
    rw [hst] at hmachine
    exact leaves rfl hres.live hmachine rfl rfl
  | @closed mo st hres hk hmachine =>
    have hfail := hc.closed o rfl u q x mo hres (hk.imp And.left And.left)
    obtain ⟨hcancel, hexpire⟩ :=
      SequenceState.regular_ends (SequenceState.declared_live hdeclared hres.live hfail) hres.live
    rcases hk with ⟨-, rfl⟩ | ⟨-, rfl⟩
    · exact leaves rfl hres.live (hmachine.trans hcancel) rfl rfl
    · exact leaves rfl hres.live (hmachine.trans hexpire) rfl rfl
  | finished ho hturn hq hv hends hmachine =>
    subst ho
    have hdone := SequenceState.step_completes (hc.received _ rfl u _ x hturn hv hends)
    exact leaves rfl (receiptVerdict_finalize hv).live (hmachine.trans hdone) rfl rfl

theorem deed_slotted {c : Call} {d : Deed} (hc : Slotting ⟨s, c, t⟩) (hd : Does u d v)
    (hp : c.Performs s u d) (h : u.Slotted) : v.Slotted := by
  -- the tenants' counts, read off the holdings
  have hslots : ∀ {g : Holdings}, v.holdings = g → v.tenantActive = g.accounts.tenantActive :=
    fun heq => congrArg (fun g => g.accounts.tenantActive) heq
  cases hd with
  | note hs hh | register hs hh | lose hs hh => exact h.same (hs ▸ .refl _) (hslots hh)
  | shuffle hs _ hh => exact h.same hs (hslots hh)
  | enrol hq hs hh =>
    cases c with
    | op o =>
      cases hp with
      | @enrol inp _ _ _ _ _ hsame =>
        have hroom := hc.few inp rfl
        refine h.enrol hq hs (hslots hh) ?_
        rw [buildKey_tenant]
        unfold activeOf at hroom ⊢
        rw [hsame]
        exact hroom
    | tick | rehash => cases hp
  | send hs hh => exact h.send hs (hslots hh)
  | change hx hs hh =>
    cases c with
    | op o => exact change_slotted hc hp hx hs hh h
    | tick | rehash => cases hp

theorem init_slotted (cfg : Config) (clock : TimePoint) : (init cfg clock).Slotted := by
  refine ⟨fun q x hx => ?_, fun u => rfl, fun u => Nat.two_pow_pos 32⟩
  cases hx

/-! Subtractions. -/

/-- To give back the slot of `q`, live, would wrap. -/
def Fabric.SlotWraps (s : Fabric) (q : SequenceId) : Prop :=
  ∃ x, s.seqs.find? q = some x ∧ x.machine.isTerminal = false ∧ s.tenantActive.getD x.req.tenant 0 = 0

/-- Wherever an operation may subtract from `tenant_active`: the fabric as the turn comes to its sequence, and the
    sequence. The count is not touched between there and the subtraction. -/
def Op.slotCalls (s : Fabric) : Op → List (Fabric × SequenceId)
  | .cancel q => [(s, q)]
  | .cancelRequest r => (s.reqToSeq.find? r).toList.map fun q => (s, q)
  | .advance tn => turns (advanceSeq tn) s s.seqs.keys
  | .schedule tn =>
    -- both checks of the deadline pass
    (turns (boundarySeq tn) s s.seqs.keys).flatMap fun p =>
      p :: ((p.1.seqs.find? p.2).filter fun x => !x.machine.isTerminal).toList.map fun x => (p.1.expireAt tn p.2 x, p.2)
  | .applyCompletion result =>
    (turns (applyOutcome result) s result.outcomes).map fun p => (p.1, p.2.sequence)
  | .authorizePrepared prepared =>
    (turns (fun t pm => (authorizeMember prepared t pm).1) s prepared.members).map fun p => (p.1, p.2.sequence)
  | .applyCommitReceipt receipts =>
    (turns applyReceipt s receipts.receipts).map fun p => (p.1, p.2.sequence)
  | .submit _ | .retry _ | .registerWorker _ | .markWorkerDead _ | .rollEpoch | .abortPrepared _ => []

/-- Where the counts are exact, the tenant of a live sequence has a slot to give back. -/
theorem Fabric.Slotted.not_wraps (h : s.Slotted) (q : SequenceId) : ¬ s.SlotWraps q := by
  rintro ⟨x, hx, hlive, hzero⟩
  have hcount := h.exact x.req.tenant
  rw [hzero] at hcount
  have hone : (if x.req.tenant = x.req.tenant ∧ x.machine.isTerminal = false then 1 else 0) ≤ s.activeOf x.req.tenant :=
    le_total hx fun _ y => if y.req.tenant = x.req.tenant ∧ y.machine.isTerminal = false then 1 else 0
  rw [if_pos ⟨rfl, hlive⟩, ← hcount] at hone
  exact absurd hone (by decide)

theorem slotCalls_slotted (hc : Slotting ⟨s, .op o, t⟩) (h : s.Slotted) : ∀ p ∈ o.slotCalls s, p.1.Slotted := by
  have hdeed : ∀ {u v : Fabric} {d : Deed}, Does u d v → Performs s o u d → u.Slotted → v.Slotted :=
    fun hd hp hu => deed_slotted (c := .op o) hc hd hp hu
  intro p hp
  cases o with
  | cancel q =>
    rw [List.mem_singleton.mp hp]
    exact h
  | cancelRequest r =>
    obtain ⟨q, -, rfl⟩ := List.mem_map.mp hp
    exact h
  | advance tn => exact Deeds.at_turns hdeed (fun _ hp => advanceSeq_deeds hp) h p hp
  | schedule tn =>
    obtain ⟨⟨u, q⟩, hturn, hmem⟩ := List.mem_flatMap.mp hp
    have hu : u.Slotted := Deeds.at_turns hdeed (fun _ hp => boundarySeq_deeds hp) h (u, q) hturn
    rcases List.mem_cons.mp hmem with rfl | hmem
    · exact hu
    · obtain ⟨x, hx, rfl⟩ := List.mem_map.mp hmem
      obtain ⟨hfound, hlive⟩ := Option.filter_eq_some_iff.mp (Option.mem_toList.mp hx)
      exact (expireAt_deeds hturn hfound (by simpa using hlive)).invariant hdeed hu
  | applyCompletion result =>
    obtain ⟨p, hturn, rfl⟩ := List.mem_map.mp hp
    exact Deeds.at_turns hdeed (fun _ hp => applyOutcome_deeds hp) h p hturn
  | authorizePrepared prepared =>
    obtain ⟨p, hturn, rfl⟩ := List.mem_map.mp hp
    exact Deeds.at_turns hdeed (fun _ hp => authorizeMember_deeds hp) h p hturn
  | applyCommitReceipt receipts =>
    obtain ⟨p, hturn, rfl⟩ := List.mem_map.mp hp
    exact Deeds.at_turns hdeed (fun _ hp => applyReceipt_deeds hp) h p hturn
  | submit | retry | registerWorker | markWorkerDead | rollEpoch | abortPrepared => simp [Op.slotCalls] at hp

/-! Admission. -/

theorem DecodeRequest.validate_message {r : DecodeRequest} {e : Error} (h : r.validate = .error e) :
    e.message ≠ "tenant_limit_exceeded" := by
  unfold validate at h
  split at h
  · cases h
    decide
  · split at h
    · cases h
      decide
    · split at h
      · cases h
        decide
      · split at h
        · cases h
          decide
        · cases h

/-- The limit on all sequences is reached. -/
def Fabric.full (s : Fabric) : Prop :=
  s.cfg.limits.maxActiveSequences > 0 ∧ s.activeCount ≥ s.cfg.limits.maxActiveSequences.toNat

theorem Fabric.Slotted.backpressure (h : s.Slotted) (req : DecodeRequest) (hfull : ¬ s.full)
    (hshare : 0 < s.cfg.groupLimits.maxTenantShare) : s.backpressure req =
      if s.cfg.groupLimits.maxTenantShare.toNat ≤ s.activeOf req.tenant then some "tenant_limit_exceeded"
        else none := by
  have hcount := h.exact req.tenant
  have hpos : 0 < s.cfg.groupLimits.maxTenantShare.toNat := UInt32.lt_iff_toNat_lt.mp hshare
  unfold full at hfull
  unfold Fabric.backpressure
  rw [if_neg hfull]
  refine if_congr ?_ rfl rfl
  rw [and_iff_right hshare, ← hcount, getD]
  cases s.tenantActive.find? req.tenant with
  | none =>
    refine iff_of_false Bool.false_ne_true fun hle => ?_
    exact absurd (Nat.le_zero.mp hle) (Nat.ne_of_gt hpos)
  | some n =>
    rw [Option.any_some, decide_eq_true_iff, Option.getD_some]
    exact UInt32.le_iff_toNat_le

/-- Where the counts are exact, admission holds a tenant to its share of live sequences. -/
theorem Fabric.Slotted.submit_refuses (h : s.Slotted) (inp : DecodeRequest) (hfull : ¬ s.full)
    (hshare : 0 < s.cfg.groupLimits.maxTenantShare) :
    (s.submit inp).2.admitted = false ∧ (s.submit inp).2.reason = "tenant_limit_exceeded" ↔
      inp.validate = .ok () ∧ (s.buildKey inp).model ≠ 0 ∧
        s.cfg.groupLimits.maxTenantShare.toNat ≤ s.activeOf inp.tenant := by
  have hlimit := h.backpressure (s.buildKey inp) hfull hshare
  rw [buildKey_tenant] at hlimit
  have unknown : "unknown_model" ≠ "tenant_limit_exceeded" := by decide
  have duplicate : "duplicate_sequence_id" ≠ "tenant_limit_exceeded" := by decide
  unfold submit
  cases hvalid : inp.validate with
  | error e => exact iff_of_false (fun hr => DecodeRequest.validate_message hvalid hr.2) (fun hr => by cases hr.1)
  | ok =>
    simp only [hlimit]
    split
    · next hmodel => exact iff_of_false (fun hr => unknown hr.2) fun hr => hr.2.1 hmodel
    · next hmodel =>
      by_cases hle : s.cfg.groupLimits.maxTenantShare.toNat ≤ s.activeOf inp.tenant
      · simp only [if_pos hle]
        exact ⟨fun _ => ⟨trivial, hmodel, hle⟩, fun _ => ⟨rfl, rfl⟩⟩
      · simp only [if_neg hle]
        refine iff_of_false ?_ fun hr => hle hr.2.2
        split
        · split
          · exact fun hr => duplicate hr.2
          · exact fun hr => Bool.false_ne_true hr.1.symm
        · exact fun hr => Bool.false_ne_true hr.1.symm

/-- In a run in which slots are given back with the ends of sequences and not otherwise, the count of every tenant is
    the number of its live sequences, no subtraction wraps, and a tenant is refused for its limit if and only if it
    has as many live sequences. -/
theorem slots_exact_when {h : History} {s : Fabric} (hr : RunsTo h s) (hc : ∀ e ∈ h, Slotting e) :
    (∀ t, (s.tenantActive.getD t 0).toNat =
      s.seqs.total fun _ x => if x.req.tenant = t ∧ x.machine.isTerminal = false then 1 else 0) ∧
    (∀ e ∈ h, ∀ o, e.label = .op o → ∀ p ∈ o.slotCalls e.pre, ¬ p.1.SlotWraps p.2) ∧
    ∀ inp, ¬ s.full → 0 < s.cfg.groupLimits.maxTenantShare →
      ((s.submit inp).2.admitted = false ∧ (s.submit inp).2.reason = "tenant_limit_exceeded" ↔
        inp.validate = .ok () ∧ (s.buildKey inp).model ≠ 0 ∧ s.cfg.groupLimits.maxTenantShare.toNat ≤
          s.seqs.total fun _ x => if x.req.tenant = inp.tenant ∧ x.machine.isTerminal = false then 1 else 0) := by
  obtain ⟨hend, hbefore⟩ := transition_invariant init_slotted
    (fun _ hn _ hp hs => (next_deeds hn).invariant (fun hd ha hu => deed_slotted hp hd ha hu) hs) hr hc
  refine ⟨hend.exact, fun e he o ho p hp => ?_, hend.submit_refuses⟩
  have hpre := (hbefore e he).1
  obtain ⟨s₀, c, t⟩ := e
  change c = .op o at ho
  subst ho
  exact (slotCalls_slotted (hc _ he) hpre p hp).not_wraps p.2

/-- A worker comes up, a request is admitted, a sequence that does not wait to be retried is cancelled. -/
theorem slotting_plain
    (ho : (∃ wd, o = .registerWorker wd) ∨ (∃ req, o = .submit req ∧ s.activeOf req.tenant + 1 < 2 ^ 32) ∨
      ∃ q, o = .cancel q ∧ ∀ x, s.seqs.find? q = some x → x.machine ≠ .retryableFailure) : Slotting ⟨s, .op o, t⟩ := by
  have hres : ∀ {u q x mo}, ¬ Resolves s q x mo u o := by
    rcases ho with ⟨wd, rfl⟩ | ⟨req, rfl, -⟩ | ⟨q, rfl, -⟩ <;> exact nofun
  refine ⟨fun q heq => ?_, fun _ heq u q x mo h => ?_, fun _ heq u q x mo h => ?_, fun _ heq u q x mo h => ?_,
    fun _ heq q x hx hret => ?_, fun receipts heq => ?_, fun req heq => ?_⟩
  all_goals cases heq
  · rcases ho with ⟨wd, ho⟩ | ⟨req, ho, -⟩ | ⟨q, ho, -⟩ <;> cases ho
  · exact absurd h hres
  · exact absurd h hres
  · exact absurd h hres
  · rcases ho with ⟨wd, rfl⟩ | ⟨req, rfl, -⟩ | ⟨q', rfl, hq⟩
    · rcases hret with ⟨⟨⟩⟩ | ⟨⟨⟩⟩ | ⟨⟨⟩⟩
    · rcases hret with ⟨⟨⟩⟩ | ⟨⟨⟩⟩ | ⟨⟨⟩⟩
    · cases hret with
      | cancel hcancel =>
        cases hcancel
        exact hq x hx
      | expire hat | cancelDue hat => cases hat
  · rcases ho with ⟨wd, ho⟩ | ⟨req, ho, -⟩ | ⟨q, ho, -⟩ <;> cases ho
  · rcases ho with ⟨wd, ho⟩ | ⟨req', ho, hfew⟩ | ⟨q, ho, -⟩
    · cases ho
    · cases ho
      exact hfew
    · cases ho

namespace Sample

/-- A fabric in which a tenant may have one sequence. -/
def single : Fabric := init { groupLimits := { maxTenantShare := 1 } } 0

def secondRequest : DecodeRequest := { request with id := 2, sequence := 2 }

/-- Worker 1 is lost, its failure comes in late, and the sequence is cancelled. -/
def lateFailure : List Op :=
  dispatched ++ [.markWorkerDead 1,
    .applyCompletion { dispatchId := 1, epoch := 1, worker := 1, workerBoot := 1
                       outcomes := [{ sequence := 1, kind := .nonRetryableFailure, attempt := 1, generation := 1 }] },
    .cancel 1]

end Sample

theorem slots_exact_single :
    ((single.execAll (cancelled ++ [.submit secondRequest])).tenantActive.getD 1 0).toNat =
      (single.execAll (cancelled ++ [.submit secondRequest])).activeOf 1 ∧
    ((single.execAll (cancelled ++ [.submit secondRequest])).submit
      { request with id := 3, sequence := 3 }).2.reason = "tenant_limit_exceeded" := by
  have hc : ∀ e ∈ trace single (cancelled ++ [.submit secondRequest]), Slotting e := by
    intro e he
    simp only [cancelled, trace, List.cons_append, List.nil_append, List.mem_cons, List.not_mem_nil,
      or_false] at he
    rcases he with rfl | rfl | rfl | rfl
    · exact slotting_plain (.inl ⟨_, rfl⟩)
    · exact slotting_plain (.inr (.inl ⟨_, rfl, by decide⟩))
    · refine slotting_plain (.inr (.inr ⟨_, rfl, fun x hx => ?_⟩))
      cases hx
      decide
    · exact slotting_plain (.inr (.inl ⟨_, rfl, by decide⟩))
  obtain ⟨hexact, -, hrefuse⟩ := slots_exact_when (trace_runsTo _ _ _) hc
  refine ⟨hexact 1, ((hrefuse _ ?_ (by decide)).mpr ⟨rfl, by decide, by decide⟩).2⟩
  rintro ⟨hpos, -⟩
  exact absurd hpos (by decide)

/-- The failure gives back the slot of a sequence that lives on, its cancellation does so again: the tenant, with no
    sequence, counts 2^32 - 1. -/
theorem slot_returned_twice : RunsTo (trace single lateFailure) (single.execAll lateFailure) ∧
    (single.execAll lateFailure).tenantActive.getD 1 0 = 4294967295 ∧
    (single.execAll lateFailure).activeOf 1 = 0 ∧
    ((single.execAll lateFailure).submit secondRequest).2.reason = "tenant_limit_exceeded" :=
  ⟨trace_runsTo _ _ _, by decide, by decide, by decide⟩

end DecodeFabric
