import DecodeFabric.Grants

/- The authority a receipt is finalized under.

   `apply_commit_receipt` compares a receipt with its grant and asks whether the sequence still
   holds that grant. It does not look at the epoch, the boot table, the health of the worker or
   the current attempt, so a grant outlives a change of any of them that comes between grant and
   receipt (`stale_authority_finalized`). What the source does guarantee is stated for runs in
   which no such change happens while a grant is held: there every receipt is finalized under the
   authority its grant was issued under. -/
namespace DecodeFabric
open Lib Table Fabric List Sample
variable {a : Act} {A : Act → Prop} {g : CommitGrant} {e : Edge Fabric Call} {h : History} {q : SequenceId}

/-! Who holds a grant. -/

/-- Sequence `q` holds grant `g`. -/
def Fabric.Holds (s : Fabric) (q : SequenceId) (g : CommitGrant) : Prop :=
  ∃ x rec, s.seqs.find? q = some x ∧ x.hasInflightGrant = true ∧
    s.grantLedger.find? x.inFlightGrant = some rec ∧ rec.grant = g

/-- The act starts a new attempt of `q`. -/
def Act.Reattempts (q : SequenceId) : Act → Prop
  | .seq q' (.beginAttempt _ _) => q' = q
  | .seq q' (.resolve _ _ _ mo) => q' = q ∧ mo.kind = .retryableFailure
  | _ => False

theorem SeqOp.attempt (q : SequenceId) (o : SeqOp) (x : Seq) :
    Act.Reattempts q (.seq q o) ∨ (o.apply x).currentAttempt = x.currentAttempt := by
  cases o with
  | beginAttempt a now => exact .inl rfl
  | resolve cfg a now mo =>
    obtain ⟨st, ready, attempt, count, generated, budget, heq, -, hattempt⟩ :=
      Seq.noncommit_shape cfg a now mo x.endDispatch.release
    rcases hattempt with ⟨hsame, -⟩ | ⟨-, hk, -⟩
    · right
      change (x.endDispatch.release.noncommit cfg a now mo).currentAttempt = _
      rw [heq]
      exact hsame
    · exact .inl ⟨rfl, hk⟩
  | _ => exact .inr rfl

section Holders
variable {s t : Fabric} {q : SequenceId}

/-- A sequence that holds a grant was just issued it or held it before. -/
theorem micro_holder {y : Seq} (hm : Micro s a t) (hy : t.seqs.find? q = some y) (hh : y.hasInflightGrant = true) :
    (∃ prepared pm x, a = .issue prepared pm ∧ pm.sequence = q ∧ s.seqs.find? q = some x ∧
      s.prepareVerdict x pm = .grant ∧ y = x.holdGrant s.nextGrant pm) ∨
    (∃ x, s.seqs.find? q = some x ∧ x.hasInflightGrant = true ∧ x.inFlightGrant = y.inFlightGrant ∧
      (a.Reattempts q ∨ y.currentAttempt = x.currentAttempt)) := by
  rcases hm.seq_before hy with hsame | ⟨x, hx, hc⟩ | ⟨req, -, -, rfl⟩
  · exact .inr ⟨y, hsame, hh, rfl, .inr rfl⟩
  · cases hc with
    | seq o hg =>
      rcases (SeqOp.touched hg).grant with ⟨h1, h2⟩ | h0
      · exact .inr ⟨x, hx, h1 ▸ hh, h2.symm, SeqOp.attempt q o x⟩
      · rw [h0] at hh
        cases hh
    | issue prepared pm hpm hv => exact .inl ⟨prepared, pm, x, rfl, hpm, hx, hv, rfl⟩
    | finalize r _ _ | abort _ => cases hh
  · cases hh

/-- A grant that is held was just issued to its holder or was held before. -/
theorem micro_holds {c : Chains} {y : Seq} (hl : Linked False s c) (hm : Micro s a t)
    (hy : t.seqs.find? q = some y) (h : t.Holds q g) :
    (∃ prepared pm x, a = .issue prepared pm ∧ s.prepareVerdict x pm = .grant ∧
      y = x.holdGrant s.nextGrant pm ∧ g = makeGrant s.nextGrant prepared pm) ∨
    (∃ x, s.seqs.find? q = some x ∧ s.Holds q g ∧ (a.Reattempts q ∨ y.currentAttempt = x.currentAttempt)) := by
  obtain ⟨y', rec, hy', hh, hrec, rfl⟩ := h
  rw [hy] at hy'
  cases hy'
  rcases micro_holder hm hy hh with ⟨prepared, pm, x, rfl, -, -, hv, rfl⟩ | ⟨x, hx, hxh, heq, hatt⟩
  · left
    refine ⟨prepared, pm, x, rfl, hv, rfl, ?_⟩
    cases hm with
    | issue _ _ _ _ _ hb =>
      rw [show t.grantLedger = _ from congrArg Books.grantLedger hb] at hrec
      change (s.grantLedger.insert s.nextGrant _).find? s.nextGrant = some rec at hrec
      rw [find?_insert_self] at hrec
      cases hrec
      rfl
  · right
    obtain ⟨rec₀, hrec₀, -, -, -⟩ := hl.held_entry hx hxh
    obtain ⟨rec₁, hrec₁, hb⟩ := micro_record hl hm hrec₀
    rw [heq, hrec] at hrec₁
    cases hrec₁
    exact ⟨x, hx, ⟨x, rec₀, hx, hxh, hrec₀, hb.1.symm⟩, hatt⟩

/-- Every grant held at the end of a run was issued on the way or held at the start. -/
theorem run_holds {m : List (Edge Fabric Act)} (hr : Run Micro s m t)
    (hl : ∃ c, Linked False s c) (h : t.Holds q g) : g ∈ m.flatMap issuedAt ∨ s.Holds q g := by
  induction hr with
  | nil => exact .inr h
  | snoc hr hm ih =>
    obtain ⟨c, hc⟩ := run_linked hr hl
    rw [flatMap_append, flatMap_singleton, mem_append]
    obtain ⟨y, rec, hy, -⟩ := id h
    rcases micro_holds hc hm hy h with ⟨prepared, pm, x, rfl, -, -, rfl⟩ | ⟨x, -, hold, -⟩
    · exact .inl (.inr (mem_singleton.mpr rfl))
    · exact (ih hold).imp_left .inl

/-! Held grants are current. -/

/-- `g` was issued under the epoch, boot and attempt that hold now. -/
structure Fabric.Vouches (s : Fabric) (x : Seq) (g : CommitGrant) : Prop where
  epoch : g.epoch = s.epoch
  boot : s.workerCurrentBoot.find? g.worker = some g.workerBoot
  attempt : g.attempt = x.currentAttempt

def Fabric.HeldCurrent (s : Fabric) : Prop := ∀ q x g, s.seqs.find? q = some x → s.Holds q g → s.Vouches x g

/-- The act leaves the authority of the grants held in `s` alone. -/
def Act.Steady (s : Fabric) : Act → Prop
  | .issue prepared _ =>
    prepared.epoch = s.epoch ∧ s.workerCurrentBoot.find? prepared.worker = some prepared.workerBoot
  | .seq q (.beginAttempt _ _) => ∀ g, ¬ s.Holds q g
  | .seq q (.resolve _ _ _ mo) => mo.kind = .retryableFailure → ∀ g, ¬ s.Holds q g
  | .environment => False
  | _ => True

theorem Act.Steady.reattempts (h : a.Steady s) (hq : a.Reattempts q) (g : CommitGrant) : ¬ s.Holds q g := by
  cases a with
  | seq q' o =>
    cases o with
    | beginAttempt attempt now =>
      obtain rfl : q' = q := hq
      exact h g
    | resolve cfg attempt now mo =>
      obtain ⟨rfl, hk⟩ : q' = q ∧ mo.kind = .retryableFailure := hq
      exact h hk g
    | _ => exact False.elim hq
  | _ => exact False.elim hq

/-- A steady act keeps epoch and boot table. -/
theorem micro_steady_table (hm : Micro s a t) (ha : a.Steady s) :
    t.epoch = s.epoch ∧ t.workerCurrentBoot = s.workerCurrentBoot := by
  cases hm with
  | environment _ _ => exact False.elim ha
  | note _ hb | seq _ _ _ _ hb | enrol _ _ _ hb | takeDispatch _ hb | issue _ _ _ _ _ hb | finalize _ _ _ hb
  | abort _ _ _ hb => exact ⟨congrArg Books.epoch hb, congrArg Books.workerCurrentBoot hb⟩

theorem micro_heldCurrent {c : Chains} (hl : Linked False s c) (hm : Micro s a t) (ha : a.Steady s)
    (h : s.HeldCurrent) : t.HeldCurrent := by
  obtain ⟨hepoch, hboots⟩ := micro_steady_table hm ha
  intro q y g hy hg
  rcases micro_holds hl hm hy hg with ⟨prepared, pm, x, rfl, hv, rfl, rfl⟩ | ⟨x, hx, hold, hatt⟩
  · exact ⟨ha.1.trans hepoch.symm, hboots ▸ ha.2, (prepareVerdict_grant hv).attempt⟩
  · have hvouch := h q x g hx hold
    refine ⟨hvouch.epoch.trans hepoch.symm, hboots ▸ hvouch.boot, ?_⟩
    rcases hatt with hre | hsame
    · exact absurd hold (ha.reattempts hre g)
    · exact hvouch.attempt.trans hsame.symm

/-- The act neither issues a grant, nor changes epoch or boots, nor starts an attempt of a sequence that holds a
    grant in `s`. -/
def Act.Harmless (s : Fabric) (a : Act) : Prop :=
  (∀ prepared pm, a ≠ .issue prepared pm) ∧ a ≠ .environment ∧ ∀ q, a.Reattempts q → ∀ g, ¬ s.Holds q g

theorem Act.Harmless.steady (h : a.Harmless s) : a.Steady s := by
  obtain ⟨hissue, henv, hre⟩ := h
  cases a with
  | issue prepared pm => exact absurd rfl (hissue prepared pm)
  | environment => exact absurd rfl henv
  | seq q o =>
    cases o with
    | beginAttempt attempt now => exact hre q rfl
    | resolve cfg attempt now mo => exact fun hk => hre q ⟨rfl, hk⟩
    | _ => trivial
  | _ => trivial

theorem note_harmless : Act.Harmless s .note := ⟨by simp, by simp, fun _ h => False.elim h⟩

/-- Harmless acts keep the held grants current, and hand out none. -/
theorem steps_heldCurrent (hst : Steps A s t) (hA : ∀ a, A a → a.Harmless s)
    (hl : ∃ c, Linked False s c) (h : s.HeldCurrent) : t.HeldCurrent ∧ ∀ q g, t.Holds q g → s.Holds q g := by
  have hkeep := hst.invariant
    (I := fun u => (∃ c, Linked False u c) ∧ u.HeldCurrent ∧ ∀ q g, u.Holds q g → s.Holds q g) ?_
    ⟨hl, h, fun _ _ hg => hg⟩
  · exact hkeep.2
  · rintro u v a hm ha ⟨⟨c, hc⟩, hcur, hback⟩
    have hs : a.Harmless s := by
      rcases ha with rfl | ha
      · exact note_harmless
      · exact hA a ha
    -- what is held now was held in `s`, so the act is harmless here too
    have hu : a.Harmless u := ⟨hs.1, hs.2.1, fun q hq g hg => hs.2.2 q hq g (hback q g hg)⟩
    refine ⟨micro_linked_any hm ⟨c, hc⟩, micro_heldCurrent hc hm hu.steady hcur, ?_⟩
    intro q g hg
    obtain ⟨y, rec, hy, -⟩ := id hg
    rcases micro_holds hc hm hy hg with ⟨prepared, pm, x, hiss, -⟩ | ⟨x, -, hold, -⟩
    · exact absurd hiss (hu.1 prepared pm)
    · exact hback q g hold

end Holders

/-! Calls. -/

/-- The call does not change the authority a held grant rests on, and issues grants under current authority:
    no epoch is rolled while a grant is held, no worker a grant is held for is registered under another boot or
    marked dead, no new attempt is started for a sequence that holds a grant, and a message that is granted
    carries in its header the current epoch and the registered boot. -/
def KeepsAuthority (e : Edge Fabric Call) : Prop :=
  match e.label with
  | .op .rollEpoch => ∀ q g, ¬ e.pre.Holds q g
  | .op (.registerWorker wd) => wd.valid = true → ∀ q g, e.pre.Holds q g → g.worker = wd.id → g.workerBoot = wd.bootId
  | .op (.markWorkerDead id) => ∀ q g, e.pre.Holds q g → g.worker ≠ id
  | .op (.retry q) => (e.pre.retry q).2.retried = true → ∀ g, ¬ e.pre.Holds q g
  | .op (.applyCompletion result) =>
    ∀ p ∈ turns (applyOutcome result) e.pre result.outcomes, ∀ x,
      p.1.seqs.find? p.2.sequence = some x → p.1.completionVerdict result x p.2 = .apply →
      p.2.kind = .retryableFailure → x.hasInflightGrant = false
  | .op (.authorizePrepared prepared) =>
    ∀ p ∈ turns (fun t pm => (authorizeMember prepared t pm).1) e.pre prepared.members, ∀ x,
      p.1.seqs.find? p.2.sequence = some x →
      (p.1.prepareVerdict x p.2 = .grant → prepared.epoch = p.1.epoch ∧
        p.1.workerCurrentBoot.find? prepared.worker = some prepared.workerBoot) ∧
      (p.1.prepareVerdict x p.2 = .noncommit → p.2.outcome.kind = .retryableFailure → x.hasInflightGrant = false)
  | _ => True

/-- Calls all of whose acts are harmless. -/
def Op.isHarmless : Op → Bool
  | .submit _ | .cancel _ | .cancelRequest _ | .markWorkerDead _ | .advance _ | .schedule _
  | .applyCommitReceipt _ | .abortPrepared _ => true
  | _ => false

theorem Op.isHarmless.act {o : Op} (ho : o.isHarmless = true) (ha : o.MayPerform a) (s : Fabric) : a.Harmless s := by
  refine ⟨?_, ?_, ?_⟩
  · rintro prepared pm rfl
    cases o <;> first | exact ha | cases ho
  · rintro rfl
    cases o <;> first | exact ha | cases ho
  · intro q hq
    cases a with
    | seq q' so =>
      cases so with
      | beginAttempt attempt now | resolve cfg attempt now mo => cases o <;> simp_all [MayPerform, isHarmless]
      | _ => exact False.elim hq
    | _ => exact False.elim hq

section Calls
variable {s t : Fabric}

theorem steps_linked (h : Steps A s t) (hl : ∃ c, Linked False s c) : ∃ c, Linked False t c :=
  h.invariant (I := fun u => ∃ c, Linked False u c) (fun hm _ hu => micro_linked_any hm hu) hl

/-- The same sequences hold the same grants. -/
theorem holds_of_same (hseqs : ∀ q, t.seqs.find? q = s.seqs.find? q) (hled : t.grantLedger = s.grantLedger)
    (h : t.Holds q g) : s.Holds q g := by
  obtain ⟨x, rec, hx, hh, hrec, hg⟩ := h
  exact ⟨x, rec, hseqs q ▸ hx, hh, hled ▸ hrec, hg⟩

theorem Fabric.HeldCurrent.of_same (h : s.HeldCurrent) (hseqs : ∀ q, t.seqs.find? q = s.seqs.find? q)
    (hled : t.grantLedger = s.grantLedger) (hepoch : t.epoch = s.epoch)
    (hboots : ∀ q g, s.Holds q g → t.workerCurrentBoot.find? g.worker = s.workerCurrentBoot.find? g.worker) :
    t.HeldCurrent := by
  intro q x g hx hg
  have hold := holds_of_same hseqs hled hg
  have hvouch := h q x g (hseqs q ▸ hx) hold
  exact ⟨hvouch.epoch.trans hepoch.symm, (hboots q g hold).trans hvouch.boot, hvouch.attempt⟩

theorem registerWorker_heldCurrent (wd : WorkerDescriptor) (h : s.HeldCurrent)
    (hk : wd.valid = true → ∀ q g, s.Holds q g → g.worker = wd.id → g.workerBoot = wd.bootId) :
    (s.registerWorker wd).1.HeldCurrent := by
  unfold registerWorker
  split
  · exact h
  · next hvalid =>
    refine h.of_same (fun _ => rfl) rfl rfl ?_
    intro q g hg
    obtain ⟨x, rec, hx, -⟩ := id hg
    change (s.workerCurrentBoot.insert wd.id wd.bootId).find? g.worker = _
    rw [find?_insert]
    split
    · next hw =>
      rw [(h q x g hx hg).boot, hk (by simpa using hvalid) q g hg hw]
    · rfl

/-- A sequence without a grant holds none. -/
theorem not_holds_of_free {x : Seq} (hx : s.seqs.find? q = some x) (hh : x.hasInflightGrant = false)
    (g : CommitGrant) : ¬ s.Holds q g := by
  rintro ⟨y, rec, hy, hy', -⟩
  rw [hx] at hy
  cases hy
  rw [hh] at hy'
  cases hy'

theorem retry_heldCurrent (q : SequenceId) (hl : ∃ c, Linked False s c) (h : s.HeldCurrent)
    (hk : (s.retry q).2.retried = true → ∀ g, ¬ s.Holds q g) : (s.retry q).1.HeldCurrent := by
  have hsteps := s.retry_steps (A := Act.Harmless s) q ⟨by simp, by simp, fun _ h => False.elim h⟩
    ⟨by simp, by simp, fun _ h => False.elim h⟩ ?_
  · exact (steps_heldCurrent hsteps (fun _ ha => ha) hl h).1
  · intro hre
    refine ⟨by simp, by simp, ?_⟩
    intro q' hq' g
    obtain rfl : q = q' := hq'
    exact hk hre g

theorem applyOutcome_heldCurrent (result : DecodeExecutionResult) (mo : MemberOutcome)
    (hl : ∃ c, Linked False s c) (h : s.HeldCurrent)
    (hk : ∀ x, s.seqs.find? mo.sequence = some x → s.completionVerdict result x mo = .apply →
      mo.kind = .retryableFailure → x.hasInflightGrant = false) : (applyOutcome result s mo).HeldCurrent := by
  have hsteps := s.applyOutcome_steps (A := Act.Harmless s) result mo
    (fun _ _ _ _ => ⟨by simp, by simp, fun _ h => False.elim h⟩) ?_
  · exact (steps_heldCurrent hsteps (fun _ ha => ha) hl h).1
  · intro x hx hv
    refine ⟨⟨by simp, by simp, fun _ h => False.elim h⟩, by simp, by simp, ?_⟩
    rintro q ⟨rfl, hkind⟩ g
    exact not_holds_of_free hx (hk x hx hv hkind) g

theorem authorizeMember_heldCurrent (prepared : PreparedDecode) (pm : PreparedMember)
    (hl : ∃ c, Linked False s c) (h : s.HeldCurrent) (hk : ∀ x, s.seqs.find? pm.sequence = some x →
      (s.prepareVerdict x pm = .grant → prepared.epoch = s.epoch ∧
        s.workerCurrentBoot.find? prepared.worker = some prepared.workerBoot) ∧
      (s.prepareVerdict x pm = .noncommit → pm.outcome.kind = .retryableFailure → x.hasInflightGrant = false)) :
    (authorizeMember prepared s pm).1.HeldCurrent := by
  by_cases hgrant : ∃ x, s.seqs.find? pm.sequence = some x ∧ s.prepareVerdict x pm = .grant
  · obtain ⟨x, hx, hv⟩ := hgrant
    obtain ⟨c, hc⟩ := hl
    have hm : Micro s (.issue prepared pm) (authorizeMember prepared s pm).1 := by
      simp only [authorizeMember, hx, hv]
      exact .issue prepared pm hx hv (s.issueGrant_seqs x prepared pm) (s.issueGrant_books x prepared pm)
    exact micro_heldCurrent hc hm ((hk x hx).1 hv) h
  · have hsteps := s.authorizeMember_steps (A := Act.Harmless s) prepared pm
      (fun _ _ _ _ => ⟨by simp, by simp, fun _ h => False.elim h⟩) ?_
      (fun x hx hv => absurd ⟨x, hx, hv⟩ hgrant)
    · exact (steps_heldCurrent hsteps (fun _ ha => ha) hl h).1
    · intro x hx hv
      refine ⟨⟨by simp, by simp, fun _ h => False.elim h⟩, by simp, by simp, ?_⟩
      rintro q ⟨rfl, hkind⟩ g
      exact not_holds_of_free hx ((hk x hx).2 hv hkind) g

theorem next_heldCurrent {c : Call} (hn : Next s c t) (hk : KeepsAuthority ⟨s, c, t⟩) (h0 : s.nextDispatch ≠ 0)
    (hl : ∃ c, Linked False s c) (h : s.HeldCurrent) : t.HeldCurrent := by
  have hsteps := next_steps hn h0
  cases hn with
  | tick now => exact h.of_same (fun _ => rfl) rfl rfl (fun _ _ _ => rfl)
  | rehash seqs workers hs _ => exact h.of_same (fun q => find?_reorder hs q) rfl rfl (fun _ _ _ => rfl)
  | op o =>
    cases o with
    | rollEpoch =>
      intro q x g _ hg
      exact absurd (holds_of_same (t := s.exec .rollEpoch) (s := s) (fun _ => rfl) rfl hg) (hk q g)
    | registerWorker wd => exact registerWorker_heldCurrent wd h hk
    | retry q => exact retry_heldCurrent q hl h hk
    | applyCompletion result =>
      refine (foldl_invariant (I := fun u => (∃ c, Linked False u c) ∧ u.HeldCurrent) ?_ ⟨hl, h⟩).2
      rintro p hp ⟨hlp, hcur⟩
      exact ⟨steps_linked (p.1.applyOutcome_mayPerform result p.2) hlp,
        applyOutcome_heldCurrent result p.2 hlp hcur (hk p hp)⟩
    | authorizePrepared prepared =>
      simp only [exec, authorizePrepared_eq_foldl]
      refine (foldl_invariant (I := fun u => (∃ c, Linked False u c) ∧ u.HeldCurrent) ?_ ⟨hl, h⟩).2
      rintro p hp ⟨hlp, hcur⟩
      exact ⟨steps_linked (p.1.authorizeMember_mayPerform (mem_of_mem_turns hp)) hlp,
        authorizeMember_heldCurrent prepared p.2 hlp hcur (hk p hp)⟩
    | _ => exact (steps_heldCurrent hsteps (fun a ha => Op.isHarmless.act rfl ha s) hl h).1

end Calls

/-! Runs. -/

/-- `g` was issued by a call of `h`, and its worker was not marked dead since. -/
def IssuedAlive (h : History) (g : CommitGrant) : Prop :=
  ∃ before e since, h = before ++ e :: since ∧ g ∈ issuedBy e ∧
    ∀ e' ∈ since, e'.label ≠ .op (.markWorkerDead g.worker)

theorem IssuedAlive.snoc (hi : IssuedAlive h g)
    (he : e.label ≠ .op (.markWorkerDead g.worker)) : IssuedAlive (h ++ [e]) g := by
  obtain ⟨before, e₀, since, rfl, hg, halive⟩ := hi
  refine ⟨before, e₀, since ++ [e], by simp, hg, ?_⟩
  intro e' he'
  rcases mem_append.mp he' with he' | he'
  · exact halive e' he'
  · rw [mem_singleton.mp he']
    exact he

/-- Along a run that keeps authority, every grant held is current and was issued to a worker still alive. -/
theorem run_heldCurrent {s : Fabric} {cfg : Config} {clock : TimePoint}
    (hr : Run Next (init cfg clock) h s) (hk : ∀ e ∈ h, KeepsAuthority e) :
    s.HeldCurrent ∧ ∀ q g, s.Holds q g → IssuedAlive h g := by
  have hnone : ∀ q g, ¬ (init cfg clock).Holds q g := by
    rintro q g ⟨x, rec, hx, -⟩
    simp [init] at hx
  refine hr.history (I := fun h s => s.HeldCurrent ∧ ∀ q g, s.Holds q g → IssuedAlive h g)
    (fun h e hr hn hlast hold => ?_) hk
    ⟨fun q x g _ hg => absurd hg (hnone q g), fun q g hg => absurd hg (hnone q g)⟩
  obtain ⟨hcur, halive⟩ := hold
  have h0 := (run_traced hr Nat.one_ne_zero).2
  have hl := reachable_linked ⟨h, cfg, clock, hr⟩
  refine ⟨next_heldCurrent hn hlast h0 hl hcur, ?_⟩
  intro q g hg
  obtain ⟨m, hm, -, hissued, -⟩ := next_traced hn h0
  rcases run_holds hm hl hg with hiss | hold
  · -- issued by this very call
    rw [hissued] at hiss
    exact ⟨h, e, [], rfl, hiss, by simp⟩
  · refine (halive q g hold).snoc ?_
    intro hdead
    unfold KeepsAuthority at hlast
    rw [hdead] at hlast
    exact hlast q g hold rfl

/-- What is held at a turn of `apply_commit_receipt` was held when the call began, and is as current. -/
theorem heldCurrent_at_turn {s : Fabric} {receipts : ReceiptDecode} (hl : ∃ c, Linked False s c)
    (h : s.HeldCurrent) : ∀ p ∈ turns applyReceipt s receipts.receipts,
      p.1.HeldCurrent ∧ ∀ q g, p.1.Holds q g → s.Holds q g := by
  intro p hp
  refine (invariant_at_turn (I := fun u : Fabric => (∃ c, Linked False u c) ∧ u.HeldCurrent ∧
    ∀ q g, u.Holds q g → s.Holds q g) ?_ ⟨hl, h, fun _ _ hg => hg⟩ p hp).2
  rintro u r hr ⟨hlu, hcur, hback⟩
  have hsteps : Steps (Op.MayPerform (.applyCommitReceipt receipts)) u (u.applyReceipt r) := u.applyReceipt_steps hr
  obtain ⟨hcur', hback'⟩ := steps_heldCurrent hsteps
    (fun a ha => Op.isHarmless.act (o := .applyCommitReceipt receipts) rfl ha u) hlu hcur
  exact ⟨steps_linked hsteps hlu, hcur', fun q g hg => hback q g (hback' q g hg)⟩

theorem mem_finalizations {p : Fabric × MemberReceipt} (h : p ∈ finalizations e) :
    ∃ receipts x, e.label = .op (.applyCommitReceipt receipts) ∧
      p ∈ turns applyReceipt e.pre receipts.receipts ∧ p.1.receiptVerdict p.2 = .finalize x := by
  unfold finalizations at h
  split at h
  · next receipts hlabel =>
    obtain ⟨hturn, hv⟩ := mem_filter.mp h
    split at hv
    · next x hx => exact ⟨receipts, x, hlabel, hturn, hx⟩
    · cases hv
  · cases h

theorem finalized_under_current_authority {h : History} {s : Fabric} (hr : RunsTo h s)
    (hk : ∀ e ∈ h, KeepsAuthority e) {before since : History} {e : Edge Fabric Call}
    (he : h = before ++ e :: since) {p : Fabric × MemberReceipt} (hp : p ∈ finalizations e) :
    ∃ x g, p.1.seqs.find? p.2.sequence = some x ∧ receiptFitsGrant p.2 g = true ∧
      p.2.epoch = p.1.epoch ∧ p.1.workerCurrentBoot.find? g.worker = some p.2.workerBoot ∧
      p.2.attempt = x.currentAttempt ∧ IssuedAlive before g := by
  subst he
  obtain ⟨cfg, clock, hr⟩ := hr
  obtain ⟨hpre, -, -⟩ := hr.split
  obtain ⟨hcur, halive⟩ := run_heldCurrent hpre (fun e' he' => hk e' (mem_append_left _ he'))
  obtain ⟨receipts, x, -, hturn, hv⟩ := mem_finalizations hp
  obtain ⟨hcur', hback⟩ := heldCurrent_at_turn (reachable_linked ⟨before, cfg, clock, hpre⟩) hcur p hturn
  -- the sequence holds the grant the receipt fits
  have hfin := receiptVerdict_finalize hv
  obtain ⟨rec, hrec, -, hfit⟩ := hfin.grant
  have hold : p.1.Holds p.2.sequence rec.grant := ⟨x, rec, hfin.seq, hfin.holds, hfin.held ▸ hrec, rfl⟩
  have hvouch := hcur' _ x _ hfin.seq hold
  obtain ⟨-, -, -, hatt, hboot, hepoch, -⟩ := receiptFitsGrant_spec hfit
  exact ⟨x, rec.grant, hfin.seq, hfit, hepoch.trans hvouch.epoch, hboot ▸ hvouch.boot, hatt.trans hvouch.attempt,
    halive _ _ (hback _ _ hold)⟩

/-- The commit of the sample's first step. -/
def Sample.commit : Op := .applyCommitReceipt { receipts := [receipt] }

theorem Sample.committed_keepsAuthority : ∀ e ∈ trace start committed, KeepsAuthority e := by
  intro e he
  simp only [committed, granted, dispatched, cons_append, nil_append, trace,
    mem_cons, not_mem_nil, or_false] at he
  rcases he with rfl | rfl | rfl | rfl | rfl
  · rintro - q g ⟨x, rec, hx, -⟩
    simp [start, init] at hx
  · trivial
  · trivial
  · intro p hp x hx
    obtain rfl := mem_singleton.mp hp
    cases hx
    exact ⟨fun _ => by decide, fun hv => absurd hv (by decide)⟩
  · trivial

theorem finalized_under_current_authority_committed :
    ∃ x g, (start.execAll granted).seqs.find? 1 = some x ∧
      receiptFitsGrant receipt g = true ∧ receipt.epoch = (start.execAll granted).epoch ∧
      (start.execAll granted).workerCurrentBoot.find? g.worker = some receipt.workerBoot ∧
      receipt.attempt = x.currentAttempt ∧ IssuedAlive (trace start granted) g :=
  finalized_under_current_authority (p := (start.execAll granted, receipt))
    (e := ⟨start.execAll granted, .op commit, start.execAll committed⟩)
    (runsTo committed) committed_keepsAuthority rfl (mem_singleton.mpr rfl)

/-- A receipt is finalized after the epoch was rolled, after its worker registered anew, after its worker was
    marked dead, and after its sequence was retried. -/
theorem stale_authority_finalized : (∃ h s, RunsTo h s ∧ ∃ p ∈ h.flatMap finalizations, p.2.epoch ≠ p.1.epoch) ∧
    (∃ h s, RunsTo h s ∧ ∃ p ∈ h.flatMap finalizations, p.1.workerCurrentBoot.find? p.2.worker ≠ some p.2.workerBoot) ∧
    (∃ h s, RunsTo h s ∧ ∃ p ∈ h.flatMap finalizations,
      (p.1.workers.find? p.2.worker).map WorkerDescriptor.health = some .failed) ∧
    (∃ h s, RunsTo h s ∧ ∃ p ∈ h.flatMap finalizations,
      (p.1.seqs.find? p.2.sequence).map Seq.currentAttempt ≠ some p.2.attempt) :=
  ⟨⟨_, _, runsTo (granted ++ [.rollEpoch, commit]), by decide⟩,
   ⟨_, _, runsTo (granted ++ [.registerWorker (worker 1 2), commit]), by decide⟩,
   ⟨_, _, runsTo (granted ++ [.markWorkerDead 1, commit]), by decide⟩,
   ⟨_, _, runsTo (granted ++ [.retry 1, commit]), by decide⟩⟩

end DecodeFabric
