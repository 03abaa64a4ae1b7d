import DecodeFabric.Advance
import DecodeFabric.Coordinator
import DecodeFabric.Flight
import DecodeFabric.Preparation
import DecodeFabric.Restart

/- What becomes of a worker's answers.

   A worker answers every ExecuteRequest and every CommitGrant, also when it could not do what it was asked: the
   PreparedResult then has no members and the CommitReceipt no receipts. The coordinator's handlers loop over the
   members and the receipts, so an empty answer is processed without anything being done. The request's members stay
   in flight, the grant stays pending, and nothing asks again.

   An `Exchange` is the coordinator with its workers and the handler of each connection, which sends its grants and
   aborts one by one; it also remembers which frame each answer on its way belongs to, and which answers have been
   processed. In the runs in which no request clashes with a transition that waits, every commit finds its
   transition, and no receipt meets a sequence that was cancelled or ended meanwhile, every processed answer has settled
   what it answers (`answers_settle`). -/
namespace DecodeFabric
open Lib Table Function List Fabric Sample Executor
variable {g : CommitGrant} {n : DispatchId} {s t : Fabric} {i : Nat} {prepared : PreparedDecode} {f w : ToWorker}

/-! What an answer should settle. -/

namespace Fabric

/-- The grant `x` holds was issued for dispatch `d`. -/
def GrantedFor (s : Fabric) (x : Seq) (d : DispatchId) : Prop :=
  x.hasInflightGrant = true ∧ ∃ rec, s.grantLedger.find? x.inFlightGrant = some rec ∧ rec.grant.dispatch = d

/-- Sequence `q` is in flight under dispatch `d`, and not granted. -/
def Ungranted (s : Fabric) (q : SequenceId) (d : DispatchId) : Prop :=
  ∃ x, s.seqs.find? q = some x ∧ x.hasInflight = true ∧ x.inFlightDispatch = d ∧ ¬ s.GrantedFor x d

/-- Grant `g` is pending, and held by its sequence. -/
def PendingInFlight (s : Fabric) (g : CommitGrant) : Prop :=
  ∃ rec x, s.grantLedger.find? g.grantId = some rec ∧ rec.status = .pending ∧ s.seqs.find? g.sequence = some x ∧
    x.hasInflightGrant = true ∧ x.inFlightGrant = g.grantId

end Fabric

/-- What the frame is about is settled: the members of a request are granted or no longer in flight under it, a grant is
    no longer pending in flight. -/
def ToWorker.Settled (s : Fabric) : ToWorker → Prop
  | .executeRequest req => ∀ m ∈ req.members, ¬ s.Ungranted m.sequence req.dispatchId
  | .commitGrant g => ¬ s.PendingInFlight g
  | .abortPrepared _ => True

/-- The frame was sent by this fabric. -/
def ToWorker.Known (s : Fabric) : ToWorker → Prop
  | .executeRequest req => req.dispatchId < s.nextDispatch
  | .commitGrant g => s.Backs g
  | .abortPrepared _ => True

/-! What is settled stays settled. -/

/-- What the fabric keeps from `s` to `t` of the things frames are about. -/
structure Fabric.Outlasts (s t : Fabric) : Prop where
  dispatches : s.nextDispatch ≤ t.nextDispatch
  backs : ∀ g, s.Backs g → t.Backs g
  ungranted : ∀ q n, n < s.nextDispatch → t.Ungranted q n → s.Ungranted q n
  pending : ∀ g, s.Backs g → t.PendingInFlight g → s.PendingInFlight g

namespace Fabric.Outlasts
variable {s t u : Fabric}

theorem refl (s : Fabric) : s.Outlasts s := ⟨Nat.le_refl _, fun _ => id, fun _ _ _ => id, fun _ _ => id⟩

theorem trans (h₁ : s.Outlasts t) (h₂ : t.Outlasts u) : s.Outlasts u where
  dispatches := h₁.dispatches.trans h₂.dispatches
  backs g hg := h₂.backs g (h₁.backs g hg)
  ungranted q n hn h := h₁.ungranted q n hn (h₂.ungranted q n (Nat.lt_of_lt_of_le hn h₁.dispatches) h)
  pending g hg h := h₁.pending g hg (h₂.pending g (h₁.backs g hg) h)

theorem known (h : s.Outlasts t) (hf : f.Known s) : f.Known t := by
  cases f with
  | executeRequest req => exact Nat.lt_of_lt_of_le hf h.dispatches
  | commitGrant g => exact h.backs g hf
  | abortPrepared a => trivial

theorem settled (h : s.Outlasts t) (hk : f.Known s) (hf : f.Settled s) : f.Settled t := by
  cases f with
  | executeRequest req => exact fun m hm hun => hf m hm (h.ungranted _ _ hk hun)
  | commitGrant g => exact fun hpend => hf (h.pending g hk hpend)
  | abortPrepared a => trivial

end Fabric.Outlasts

section Micro
variable {s t : Fabric} {a : Act}

theorem micro_backs (hm : Micro s a t) (hlink : ∃ c, Linked False s c) (hg : s.Backs g) : t.Backs g := by
  obtain ⟨c, hc⟩ := hlink
  obtain ⟨rec, hrec, rfl⟩ := hg
  obtain ⟨rec', hrec', hup⟩ := hm.entry_after hrec (Nat.ne_of_lt (hc.grant_bounded hrec))
  exact ⟨rec', hrec', hup.grant⟩

/-- A grant in the ledger is not handed out again. -/
theorem micro_pending (hm : Micro s a t) (hlink : ∃ c, Linked False s c) (hg : s.Backs g)
    (h : t.PendingInFlight g) : s.PendingInFlight g := by
  obtain ⟨c, hc⟩ := hlink
  obtain ⟨rec₀, hrec₀, rfl⟩ := hg
  have hold : rec₀.grant.grantId ≠ s.nextGrant := Nat.ne_of_lt (hc.grant_bounded hrec₀)
  obtain ⟨rec', y, hrec', hpend, hy, hheld, hid⟩ := h
  obtain ⟨rec, hrec, hup⟩ | ⟨-, -, -, hnew, -⟩ := hm.entry_before hrec'
  · rcases hm.seq_before hy with hsame | ⟨x, hx, hchange⟩ | ⟨req, -, -, rfl⟩
    · exact ⟨rec, y, hrec, hup.pending hpend, hsame, hheld, hid⟩
    · refine ⟨rec, x, hrec, hup.pending hpend, hx, ?_⟩
      cases hchange with
      | seq o hguard =>
        rcases (SeqOp.touched hguard).grant with ⟨hhas, hgrant⟩ | hnone
        · exact ⟨hhas ▸ hheld, hgrant ▸ hid⟩
        · rw [hnone] at hheld
          cases hheld
      | issue _ _ _ _ => exact absurd hid.symm hold
      | finalize r _ _ | abort _ => cases hheld
    · cases hheld
  · exact absurd hnew hold

/-- A sequence is dispatched, taken out of flight, or stays on its way with the grant it holds. -/
theorem SeqOp.flight (o : SeqOp) (x : Seq) : (∃ d, o = .dispatchUnder d) ∨ (o.apply x).hasInflight = false ∨
    ((o.apply x).hasInflight = x.hasInflight ∧ (o.apply x).inFlightDispatch = x.inFlightDispatch ∧
      (o.apply x).hasInflightGrant = x.hasInflightGrant ∧ (o.apply x).inFlightGrant = x.inFlightGrant) := by
  cases o with
  | dispatchUnder d => exact .inl ⟨d, rfl⟩
  | workerDown now | disown | reconcile now => exact .inr (.inl rfl)
  | resolve cfg a now mo => exact .inr (.inl (Seq.resolve_same Seq.hasInflight (fun _ _ _ _ _ _ _ => rfl) ..))
  | _ => exact .inr (.inr ⟨rfl, rfl, rfl, rfl⟩)

theorem micro_granted (hm : Micro s a t) (hlink : ∃ c, Linked False s c) {x y : Seq}
    (h : s.GrantedFor x n) (hheld : y.hasInflightGrant = x.hasInflightGrant)
    (hgrant : y.inFlightGrant = x.inFlightGrant) :
    t.GrantedFor y n := by
  obtain ⟨c, hc⟩ := hlink
  obtain ⟨hx, rec, hrec, hn⟩ := h
  obtain ⟨rec', hrec', hup⟩ := hm.entry_after hrec (Nat.ne_of_lt (hc.grant_bounded hrec))
  exact ⟨hheld.trans hx, rec', hgrant ▸ hrec', hup.grant.symm ▸ hn⟩

/-- Unless it is dispatched, a sequence does not come to wait for a grant. -/
theorem micro_ungranted (hm : Micro s a t) (ha : ∀ q d, a ≠ .seq q (.dispatchUnder d)) (hlink : ∃ c, Linked False s c)
    {q : SequenceId} (h : t.Ungranted q n) : s.Ungranted q n := by
  obtain ⟨y, hy, hup, hid, hfree⟩ := h
  rcases hm.seq_before hy with hsame | ⟨x, hx, hchange⟩ | ⟨req, -, -, rfl⟩
  · exact ⟨y, hsame, hup, hid, fun hg => hfree (micro_granted hm hlink hg rfl rfl)⟩
  · cases hchange with
    | seq o hguard =>
      rcases o.flight x with ⟨d, rfl⟩ | hdown | ⟨hfly, hdisp, hheld, hgrant⟩
      · exact absurd rfl (ha q d)
      · rw [hdown] at hup
        cases hup
      · exact ⟨x, hx, hfly ▸ hup, hdisp ▸ hid, fun hg => hfree (micro_granted hm hlink hg hheld hgrant)⟩
    | issue prepared pm hq hv =>
      -- the grant just issued is for the dispatch the sequence is under
      refine absurd ⟨rfl, { grant := makeGrant s.nextGrant prepared pm }, ?_, ?_⟩ hfree
      · cases hm with
        | issue _ _ _ _ _ hb =>
          rw [show t.grantLedger = _ from congrArg Books.grantLedger hb]
          exact find?_insert_self _ _ _
      · exact (prepareVerdict_grant hv).dispatch.trans hid
    | finalize r _ _ | abort _ => cases hup
  · cases hup

theorem micro_outlasts (hm : Micro s a t) (ha : ∀ q d, a ≠ .seq q (.dispatchUnder d)) (hlink : ∃ c, Linked False s c) :
    s.Outlasts t where
  dispatches := hm.nextDispatch_le
  backs _ hg := micro_backs hm hlink hg
  ungranted _ _ _ h := micro_ungranted hm ha hlink h
  pending _ hg h := micro_pending hm hlink hg h

theorem steps_outlasts {A : Act → Prop} (h : Steps A s t) (hA : ∀ a, A a → ∀ q d, a ≠ .seq q (.dispatchUnder d))
    (hlink : ∃ c, Linked False s c) : s.Outlasts t := by
  refine (h.invariant (I := fun u => (∃ c, Linked False u c) ∧ s.Outlasts u) ?_ ⟨hlink, .refl s⟩).2
  rintro u v a hm ha ⟨hu, hsu⟩
  refine ⟨micro_linked_any hm hu, hsu.trans (micro_outlasts hm ?_ hu)⟩
  rcases ha with rfl | ha
  · exact fun q d => nofun
  · exact hA a ha

end Micro

/-- A tick dispatches under new ids only. -/
theorem schedule_outlasts (s : Fabric) (tn : TimePoint) : s.Outlasts (s.schedule tn).1 := by
  obtain ⟨sent, htick⟩ := s.schedule_spec tn
  have hledger : (s.schedule tn).1.grantLedger = s.grantLedger := congrArg Books.grantLedger htick.books
  refine ⟨?_, ?_, ?_, ?_⟩
  · rw [htick.count]
    exact Nat.le_add_right _ _
  · rintro g ⟨rec, hrec, hg⟩
    exact ⟨rec, hledger ▸ hrec, hg⟩
  · rintro q n hn ⟨y, hy, hup, hid, hfree⟩
    have hold : ∀ {x : Seq}, (s.GrantedFor x n ↔ (s.schedule tn).1.GrantedFor x n) := by
      intro x
      unfold Fabric.GrantedFor
      rw [hledger]
    obtain ⟨x, hx, hxy⟩ := htick.seq_before hy
    cases hxy with
    | polled =>
      obtain ⟨st, res, hshape⟩ := x.polled_shape tn
      rw [hshape] at hup hid hfree
      exact ⟨x, hx, hup, hid, fun hg => hfree (hold.mp hg)⟩
    | putBack _ _ => exact ⟨x, hx, hup, hid, fun hg => hfree (hold.mp hg)⟩
    | sent d hd _ _ =>
      have hnew := (htick.ids d hd).1
      rw [show d.id = n from hid] at hnew
      exact absurd hn (Nat.not_lt_of_le hnew)
  · rintro g - ⟨rec, y, hrec, hpend, hy, hheld, hid⟩
    obtain ⟨x, hx, hxy⟩ := htick.seq_before hy
    refine ⟨rec, x, hledger ▸ hrec, hpend, hx, ?_⟩
    cases hxy with
    | polled =>
      obtain ⟨st, res, hshape⟩ := x.polled_shape tn
      rw [hshape] at hheld hid
      exact ⟨hheld, hid⟩
    | putBack _ _ | sent d _ _ _ => exact ⟨hheld, hid⟩

theorem next_outlasts {c : Call} (hs : Reachable s) (hn : Next s c t) : s.Outlasts t := by
  by_cases hc : ∃ tn, c = .op (.schedule tn)
  · obtain ⟨tn, rfl⟩ := hc
    cases hn
    exact schedule_outlasts s tn
  · refine steps_outlasts (next_steps hn (Nat.ne_of_gt (reachable_nextDispatch hs))) ?_ (reachable_linked hs)
    rintro a ha q d rfl
    have habove : (Act.seq q (.dispatchUnder d)).Above (d.id + 1) := ha.above fun tn htn => hc ⟨tn, htn⟩
    exact absurd (habove q d rfl) (Nat.not_succ_le_self _)

/-! The proposals of the grants in flight. -/

/-- The grant a sequence holds was issued for the proposal it records. -/
def Fabric.Proposed (s : Fabric) : Prop :=
  ∀ q x, s.seqs.find? q = some x → x.hasInflightGrant = true →
    ∃ rec, s.grantLedger.find? x.inFlightGrant = some rec ∧ rec.grant.proposal = x.inFlightProposal

theorem SeqOp.proposal (o : SeqOp) (x : Seq) : (o.apply x).hasInflightGrant = false ∨
    ((o.apply x).hasInflightGrant = x.hasInflightGrant ∧ (o.apply x).inFlightGrant = x.inFlightGrant ∧
      (o.apply x).inFlightProposal = x.inFlightProposal) := by
  cases o with
  | reconcile now => exact .inl rfl
  | resolve cfg a now mo =>
    obtain ⟨st, ready, attempt, count, generated, budget, heq, -⟩ :=
      Seq.noncommit_shape cfg a now mo x.endDispatch.release
    have happly : (SeqOp.resolve cfg a now mo).apply x = x.endDispatch.release.noncommit cfg a now mo := rfl
    rw [happly, heq]
    exact .inr ⟨rfl, rfl, rfl⟩
  | _ => exact .inr ⟨rfl, rfl, rfl⟩

theorem micro_proposed {a : Act} (hm : Micro s a t) (hlink : ∃ c, Linked False s c) (h : s.Proposed) : t.Proposed := by
  have kept : ∀ {i : GrantId} {p : ProposalId}, (∃ rec, s.grantLedger.find? i = some rec ∧ rec.grant.proposal = p) →
      ∃ rec, t.grantLedger.find? i = some rec ∧ rec.grant.proposal = p := by
    rintro i p ⟨rec, hrec, hp⟩
    obtain ⟨c, hc⟩ := hlink
    obtain ⟨rec', hrec', hup⟩ := hm.entry_after hrec (Nat.ne_of_lt (hc.grant_bounded hrec))
    exact ⟨rec', hrec', hup.grant.symm ▸ hp⟩
  intro q y hy hheld
  rcases hm.seq_before hy with hsame | ⟨x, hx, hchange⟩ | ⟨req, -, -, rfl⟩
  · exact kept (h q y hsame hheld)
  · cases hchange with
    | seq o hguard =>
      rcases o.proposal x with hnone | ⟨hhas, hgrant, hprop⟩
      · rw [hnone] at hheld
        cases hheld
      · rw [hgrant, hprop]
        exact kept (h q x hx (hhas ▸ hheld))
    | issue prepared pm hq hv =>
      refine ⟨{ grant := makeGrant s.nextGrant prepared pm }, ?_, rfl⟩
      cases hm with
      | issue _ _ _ _ _ hb =>
        rw [show t.grantLedger = _ from congrArg Books.grantLedger hb]
        exact find?_insert_self _ _ _
    | finalize r _ _ | abort _ => cases hheld
  · cases hheld

theorem reachable_proposed (hs : Reachable s) : s.Proposed := by
  refine (reachable_invariant (I := fun s => (∃ c, Linked False s c) ∧ s.Proposed) ?_ ?_ hs).2
  · intro cfg clock
    refine ⟨⟨_, Linked.init False cfg clock⟩, fun q x hq => ?_⟩
    cases hq
  · rintro s t a hm ⟨hlink, h⟩
    exact ⟨micro_linked_any hm hlink, micro_proposed hm hlink h⟩

/-! What the handlers settle. -/

/-- A prepared member that is processed is granted, or its sequence is no longer in flight. -/
theorem authorizeMember_settles (s : Fabric) (prepared : PreparedDecode) (pm : PreparedMember) (n : DispatchId) :
    ¬ (authorizeMember prepared s pm).1.Ungranted pm.sequence n := by
  have down : ∀ {t : Fabric}, t.Down pm.sequence → ¬ t.Ungranted pm.sequence n := by
    rintro t hdown ⟨y, hy, hup, -⟩
    rw [hdown y hy] at hup
    cases hup
  cases hx : s.seqs.find? pm.sequence with
  | none =>
    rintro ⟨y, hy, -⟩
    simp only [authorizeMember, hx, rejectStale_seqs] at hy
    cases hy
  | some x =>
    cases hv : s.prepareVerdict x pm with
    | reject r =>
      simp only [authorizeMember, hx, hv]
      exact down (Fabric.Down.of_modify (rejectMember_seqs _ _ x _) fun _ => rfl)
    | noncommit =>
      simp only [authorizeMember, hx, hv]
      exact down (resolveNoncommit_down hx _)
    | grant =>
      simp only [authorizeMember, hx, hv]
      rintro ⟨y, hy, -, hid, hfree⟩
      rw [issueGrant_seqs, find?_modify_self, hx] at hy
      cases hy
      refine hfree ⟨rfl, { grant := makeGrant s.nextGrant prepared pm }, find?_insert_self _ _ _, ?_⟩
      exact (prepareVerdict_grant hv).dispatch.trans hid

/-- The grant a member is answered with is in the ledger. -/
theorem authorizeMember_backs (s : Fabric) (prepared : PreparedDecode) (pm : PreparedMember)
    (h : (authorizeMember prepared s pm).2.hasGrant = true) :
    (authorizeMember prepared s pm).1.Backs (authorizeMember prepared s pm).2.grant := by
  cases hx : s.seqs.find? pm.sequence with
  | none =>
    simp only [authorizeMember, hx] at h
    cases h
  | some x =>
    cases hv : s.prepareVerdict x pm with
    | reject r =>
      simp only [authorizeMember, hx, hv] at h
      cases h
    | noncommit =>
      simp only [authorizeMember, hx, hv] at h
      cases h
    | grant =>
      simp only [authorizeMember, hx, hv]
      exact ⟨{ grant := makeGrant s.nextGrant prepared pm }, find?_insert_self _ _ _, rfl⟩

theorem authorizeMember_outlasts {pm : PreparedMember} (hpm : pm ∈ prepared.members) (hlink : ∃ c, Linked False s c) :
    s.Outlasts (authorizeMember prepared s pm).1 ∧ ∃ c, Linked False (authorizeMember prepared s pm).1 c := by
  have hsteps := s.authorizeMember_mayPerform hpm
  refine ⟨steps_outlasts hsteps ?_ hlink, ?_⟩
  · rintro a ha q d rfl
    simp [Op.MayPerform] at ha
  · exact hsteps.invariant (I := fun u => ∃ c, Linked False u c) (fun hm _ hu => micro_linked_any hm hu) hlink

/-- The loop of `authorize_prepared`: every member processed is settled at the end, and every grant sent is in the
    ledger. -/
theorem authorize_loop (prepared : PreparedDecode) : ∀ (ms : List PreparedMember) (s : Fabric),
    (∀ pm ∈ ms, pm ∈ prepared.members) → (∃ c, Linked False s c) →
    s.Outlasts (scan (authorizeMember prepared) s ms).1 ∧
      (∀ pm ∈ ms, ∀ n < s.nextDispatch, ¬ (scan (authorizeMember prepared) s ms).1.Ungranted pm.sequence n) ∧
      ∀ ga ∈ (scan (authorizeMember prepared) s ms).2, ga.hasGrant = true →
        (scan (authorizeMember prepared) s ms).1.Backs ga.grant
  | [], s, _, _ => ⟨.refl s, fun _ hpm => (by cases hpm), fun _ hga => (by cases hga)⟩
  | pm :: ms, s, hms, hlink => by
    obtain ⟨hfirst, hlink'⟩ := authorizeMember_outlasts (hms pm mem_cons_self) hlink
    obtain ⟨hrest, hsettled, hbacks⟩ := authorize_loop prepared ms (authorizeMember prepared s pm).1
      (fun pm' hpm' => hms pm' (mem_cons_of_mem _ hpm')) hlink'
    refine ⟨hfirst.trans hrest, ?_, ?_⟩
    · intro pm' hpm' n hn
      have hn' := Nat.lt_of_lt_of_le hn hfirst.dispatches
      rcases mem_cons.mp hpm' with rfl | hpm'
      · exact fun hun => authorizeMember_settles s prepared pm' n (hrest.ungranted _ _ hn' hun)
      · exact hsettled pm' hpm' n hn'
    · intro ga hga hgrant
      rcases mem_cons.mp hga with rfl | hga
      · exact hrest.backs _ (authorizeMember_backs s prepared pm hgrant)
      · exact hbacks ga hga hgrant

/-- A receipt that fits its grant settles it, unless the sequence that holds it was cancelled or has ended. -/
theorem applyReceipt_settles (hs : Reachable s) {r : MemberReceipt} (hg : s.Backs g)
    (hfit : receiptFitsGrant r g = true)
    (hlive : ∀ x, s.seqs.find? r.sequence = some x → x.hasInflightGrant = true → x.inFlightGrant = r.grantId →
      x.machine.isTerminal = false ∧ x.machine ≠ .cancelRequested) : ¬ (s.applyReceipt r).PendingInFlight g := by
  intro hafter
  have hlasts : s.Outlasts (s.exec (.applyCommitReceipt { receipts := [r] })) := next_outlasts hs (.op s _)
  obtain ⟨rec, x, hrec, hpend, hx, hheld, hid⟩ := hlasts.pending g hg hafter
  have hfields := hfit
  simp only [receiptFitsGrant, decide_eq_true_eq] at hfields
  obtain ⟨hgid, hprop, hseq, -⟩ := hfields
  obtain ⟨rec₀, hrec₀, rfl⟩ := hg
  cases hrec.symm.trans hrec₀
  obtain ⟨rec', hrec', hp⟩ := reachable_proposed hs _ x hx hheld
  rw [hid, hrec] at hrec'
  cases hrec'
  rw [← hseq] at hx
  obtain ⟨hterm, hcancel⟩ := hlive x hx hheld (hid.trans hgid.symm)
  -- so the receipt is finalized, and its entry consumed
  have hv := receiptVerdict_of_finalizable
    { seq := hx
      grant := ⟨rec, hgid ▸ hrec, hpend, hfit⟩
      holds := hheld
      held := hid.trans hgid.symm
      proposal := hp.symm.trans hprop.symm
      live := hterm
      notCancelling := hcancel }
  obtain ⟨rec', y, hrec', hpend', -⟩ := hafter
  unfold applyReceipt at hrec'
  simp only [hv] at hrec'
  rw [show (s.finalize x r).grantLedger = s.grantLedger.modify r.grantId (GrantRecord.consume r) from
    congrArg Books.grantLedger (s.finalize_books x r), ← hgid, find?_modify_self, hgid, hrec] at hrec'
  cases hrec'
  cases hpend'

/-! The exchange of frames. -/

structure Exchange (N : Numerics) where
  cluster : Cluster N
  /-- What the handler of a connection has yet to send. -/
  owed : Nat → List ToWorker := fun _ => []
  /-- The frames the worker of a connection has answered, the answers still on their way. -/
  answered : Nat → List ToWorker := fun _ => []
  /-- The frames whose answers the coordinator has processed. -/
  processed : List ToWorker := []

/-- A worker sends an answer to the frame, whether or not it could do what it says. -/
def ToWorker.wantsAnswer : ToWorker → Bool
  | .executeRequest _ | .commitGrant _ => true
  | .abortPrepared _ => false

inductive ExchangeAction where
  | act (a : CoordinatorAction)
  /-- The handler of connection `i` sends its next grant or abort. -/
  | reply (i : Nat)

inductive ExchangeCall where
  | act (a : ExchangeAction)
  | environment

section
variable {N : Numerics}
variable {ex : Executor N} {p : Peer N} {f : Peer N → Peer N}

namespace Exchange

def init (cfg : Config) (clock : TimePoint) : Exchange N := { cluster := Cluster.init cfg clock }

/-- The handler of connection `i`, done with the answer before, processes the next. -/
def receive (T : Exchange N) (i : Nat) : Exchange N :=
  match T.owed i, T.cluster.peers.find? i with
  | [], some p =>
    match p.outbox with
    | [] => T
    | f :: fs =>
      let C : Cluster N := { T.cluster with peers := T.cluster.peers.modify i fun p => { p with outbox := fs } }
      let T : Exchange N :=
        { T with
          answered := update T.answered i (T.answered i).tail
          processed := T.processed ++ (T.answered i).head?.toList }
      match f with
      | .preparedResult prepared =>
        let (fabric, auth) := C.fabric.authorizePrepared prepared
        { T with cluster := { C with fabric }, owed := update T.owed i auth.replies }
      | .commitReceipt receipts => { T with cluster := C.exec (.applyCommitReceipt receipts) }
  | _, _ => T

/-- The frame worker `i` handles next, if it will answer it. -/
def nextAnswer (T : Exchange N) (i : Nat) : List ToWorker :=
  match T.cluster.peers.find? i with
  | none => []
  | some p => p.inbox.head?.toList.filter ToWorker.wantsAnswer

def reply (T : Exchange N) (i : Nat) : Exchange N :=
  match T.owed i with
  | [] => T
  | f :: fs =>
    { T with
      cluster := { T.cluster with peers := T.cluster.peers.modify i (Peer.push [f]) }
      owed := update T.owed i fs }

/-- The exchange after an action. -/
def step (T : Exchange N) : ExchangeAction → Exchange N
  | .reply i => T.reply i
  | .act (.receive i) => T.receive i
  | .act (.work i took) =>
    { T with
      cluster := T.cluster.coordinate (.work i took)
      answered := update T.answered i (T.answered i ++ T.nextAnswer i) }
  | .act (.loseOutbox i) =>
    { T with
      cluster := T.cluster.coordinate (.loseOutbox i)
      answered := update T.answered i (T.answered i).tail }
  | .act (.hello wd) =>
    { T with
      cluster := T.cluster.coordinate (.hello wd)
      owed := update T.owed T.cluster.nextConn []
      answered := update T.answered T.cluster.nextConn [] }
  | .act a => { T with cluster := T.cluster.coordinate a }

end Exchange

inductive ExchangeNext : Exchange N → ExchangeCall → Exchange N → Prop
  | act (T : Exchange N) (a : ExchangeAction) : ExchangeNext T (.act a) (T.step a)
  | clock (T : Exchange N) (now : TimePoint) :
      ExchangeNext T .environment
        { T with cluster := { T.cluster with fabric := { T.cluster.fabric with clock := now } } }
  | rehash (T : Exchange N) (seqs : Table SequenceId Seq) (workers : Table WorkerId WorkerDescriptor) :
      seqs.Reorder T.cluster.fabric.seqs → workers.Reorder T.cluster.fabric.workers →
      ExchangeNext T .environment
        { T with cluster := { T.cluster with fabric := { T.cluster.fabric with seqs, workers } } }

/-- `h` is a run of a new coordinator without workers that ends in `T`. -/
def ExchangeRunsTo (h : List (Edge (Exchange N) ExchangeCall)) (T : Exchange N) : Prop :=
  ∃ (cfg : Config) (clock : TimePoint), Run ExchangeNext (Exchange.init cfg clock) h T

/-- The history of a list of actions, and the exchange after it. -/
def exchangeTrace (T : Exchange N) : List ExchangeAction → List (Edge (Exchange N) ExchangeCall)
  | [] => []
  | a :: as => ⟨T, .act a, T.step a⟩ :: exchangeTrace (T.step a) as

def Exchange.stepAll (T : Exchange N) (as : List ExchangeAction) : Exchange N := as.foldl Exchange.step T

theorem exchangeTrace_run : ∀ (T : Exchange N) (as : List ExchangeAction),
    Run ExchangeNext T (exchangeTrace T as) (T.stepAll as)
  | T, [] => Run.nil T
  | T, a :: as => (Run.single (ExchangeNext.act T a)).append (exchangeTrace_run (T.step a) as)

/-! The condition. -/

/-- The executor has the receipt of grant `g`, or the transition to promote on it. -/
def Executor.Honors (ex : Executor N) (g : CommitGrant) : Prop :=
  (∃ r, ex.receiptsByGrant.find? g.grantId = some r ∧ receiptFitsGrant r g = true) ∨ ∃ st p, ex.Promotes g st p

/-- The worker can do what the frame says. -/
def ToWorker.Feasible (ex : Executor N) : ToWorker → Prop
  | .executeRequest req => ex.clash req.members = none
  | .commitGrant g => ex.Honors g
  | .abortPrepared _ => True

/-- A receipt of the frame that meets the sequence holding its grant finds it neither ended nor to be cancelled. -/
def ToCoordinator.Timely (s : Fabric) : ToCoordinator → Prop
  | .preparedResult _ => True
  | .commitReceipt receipts => ∀ r ∈ receipts.receipts, ∀ x, s.seqs.find? r.sequence = some x →
      x.hasInflightGrant = true → x.inFlightGrant = r.grantId →
      x.machine.isTerminal = false ∧ x.machine ≠ .cancelRequested

/-- A worker handles only what it can do, and the coordinator only receipts that come in time. -/
def ExchangeAction.Smooth (T : Exchange N) : ExchangeAction → Prop
  | .act (.work i _) => ∀ p f fs, T.cluster.peers.find? i = some p → p.inbox = f :: fs → f.Feasible p.executor
  | .act (.receive i) => ∀ p f fs, T.cluster.peers.find? i = some p → p.outbox = f :: fs → f.Timely T.cluster.fabric
  | _ => True

def SmoothStep (e : Edge (Exchange N) ExchangeCall) : Prop := ∀ a, e.label = .act a → a.Smooth e.pre

/-! The invariant. -/

/-- The answer does what the frame asked for. -/
inductive ToWorker.AnsweredBy : ToWorker → ToCoordinator → Prop
  | prepared {req : DecodeExecutionRequest} {prepared : PreparedDecode} :
      (∀ m ∈ req.members, ∃ pm ∈ prepared.members, pm.sequence = m.sequence) →
      AnsweredBy (.executeRequest req) (.preparedResult prepared)
  | receipt {g : CommitGrant} {receipts : ReceiptDecode} {r : MemberReceipt} :
      receipts.receipts = [r] → receiptFitsGrant r g = true → AnsweredBy (.commitGrant g) (.commitReceipt receipts)

structure Exchange.Sound (T : Exchange N) : Prop where
  reachable : Reachable T.cluster.fabric
  pending : ∀ d ∈ T.cluster.pending, d.id < T.cluster.fabric.nextDispatch
  owed : ∀ i, ∀ f ∈ T.owed i, f.Known T.cluster.fabric
  inbox : ∀ i p, T.cluster.peers.find? i = some p → ∀ f ∈ p.inbox, f.Known T.cluster.fabric
  answered : ∀ i, ∀ f ∈ T.answered i, f.Known T.cluster.fabric
  outbox : ∀ i p, T.cluster.peers.find? i = some p → List.Forall₂ ToWorker.AnsweredBy (T.answered i) p.outbox
  processed : ∀ f ∈ T.processed, f.Known T.cluster.fabric ∧ f.Settled T.cluster.fabric

/-! Answers that do what was asked. -/

/-- A request without a clash is answered with its members. -/
theorem prepareReply_answers {req : DecodeExecutionRequest} (took : StepTimes)
    (h : ex.clash req.members = none) :
    ToWorker.AnsweredBy (.executeRequest req) (.preparedResult (Peer.prepareReply req (ex.prepare req took).2)) := by
  have hok : ¬ ∃ e, (ex.prepare req took).2 = .error e := by
    rw [prepare_fails_iff, h]
    exact Bool.false_ne_true
  cases hres : (ex.prepare req took).2 with
  | error e => exact absurd ⟨e, hres⟩ hok
  | ok prepared =>
    refine .prepared fun m hm => ?_
    obtain ⟨pm, hpm, hans⟩ := forall₂_answer (prepare_answers hres) m hm
    exact ⟨pm, hpm, hans.sequence⟩

/-- A grant that is honored is answered with a receipt that fits it. -/
theorem receiptReply_answers (h : ex.Honors g) :
    ToWorker.AnsweredBy (.commitGrant g) (.commitReceipt (Peer.receiptReply g (ex.commit g).2)) := by
  obtain ⟨r, hr, hfit⟩ | ⟨st, p, hp⟩ := h
  · have hcommit : ex.commit g = (ex, .ok r) := by
      unfold Executor.commit
      simp only [hr, hfit, if_true]
    rw [hcommit]
    exact .receipt rfl hfit
  · rw [commit_promotes hp]
    exact .receipt rfl hp.fits

theorem Peer.handle_answers {f : ToWorker} (took : StepTimes) (hf : f.Feasible p.executor) :
    (p.handle took f).inbox = p.inbox ∧ ∃ answers, (p.handle took f).outbox = p.outbox ++ answers ∧
      List.Forall₂ ToWorker.AnsweredBy ([f].filter ToWorker.wantsAnswer) answers := by
  cases f with
  | executeRequest req => exact ⟨rfl, _, rfl, .cons (prepareReply_answers took hf) .nil⟩
  | commitGrant g => exact ⟨rfl, _, rfl, .cons (receiptReply_answers hf) .nil⟩
  | abortPrepared a => exact ⟨rfl, [], (append_nil _).symm, .nil⟩

/-! Steps. -/

namespace Exchange.Sound
variable {T : Exchange N}

/-- The fabric moves on, the connections stay as they are. -/
theorem outlast (h : T.Sound) {C : Cluster N} (hreach : Reachable C.fabric) (hlast : T.cluster.fabric.Outlasts C.fabric)
    (hpeers : C.peers = T.cluster.peers)
    (hpend : ∀ d ∈ C.pending, d ∈ T.cluster.pending ∨ d.id < C.fabric.nextDispatch) :
    ({ T with cluster := C } : Exchange N).Sound where
  reachable := hreach
  pending d hd := (hpend d hd).elim (fun hold => Nat.lt_of_lt_of_le (h.pending d hold) hlast.dispatches) id
  owed i f hf := hlast.known (h.owed i f hf)
  inbox i p hp f hf := hlast.known (h.inbox i p (hpeers ▸ hp) f hf)
  answered i f hf := hlast.known (h.answered i f hf)
  outbox i p hp := h.outbox i p (hpeers ▸ hp)
  processed f hf := ⟨hlast.known (h.processed f hf).1, hlast.settled (h.processed f hf).1 (h.processed f hf).2⟩

theorem exec (h : T.Sound) (o : Op) : ({ T with cluster := T.cluster.exec o } : Exchange N).Sound :=
  h.outlast (h.reachable.next (.op _ o)) (next_outlasts h.reachable (.op _ o)) rfl fun _ hd => .inl hd

/-- One connection changes: what it has in its inbox is known, and its outbox holds the answers noted for it. -/
theorem modify (h : T.Sound) (i : Nat) {answered : List ToWorker} (hknown : ∀ w ∈ answered, w.Known T.cluster.fabric)
    (hf : ∀ p, T.cluster.peers.find? i = some p → (∀ w ∈ (f p).inbox, w.Known T.cluster.fabric) ∧
      List.Forall₂ ToWorker.AnsweredBy answered (f p).outbox) : ({ T with
      cluster := { T.cluster with peers := T.cluster.peers.modify i f }
      answered := update T.answered i answered } : Exchange N).Sound := by
  refine { h with inbox := fun j p hp => ?_, answered := fun j w hw => ?_, outbox := fun j p hp => ?_ }
  · rcases find?_modify_cases hp with ⟨rfl, p', hp', rfl⟩ | ⟨-, hp⟩
    · exact (hf p' hp').1
    · exact h.inbox j p hp
  · change w ∈ update T.answered i answered j at hw
    rw [update_apply] at hw
    split at hw
    · exact hknown w hw
    · exact h.answered j w hw
  · show List.Forall₂ ToWorker.AnsweredBy (update T.answered i answered j) p.outbox
    rcases find?_modify_cases hp with ⟨rfl, p', hp', rfl⟩ | ⟨hj, hp⟩
    · rw [update_self]
      exact (hf p' hp').2
    · rw [update_of_ne hj]
      exact h.outbox j p hp

/-- The inbox of one connection changes. -/
theorem modifyInbox (h : T.Sound) (i : Nat)
    (hf : ∀ p, T.cluster.peers.find? i = some p → (∀ w ∈ (f p).inbox, w.Known T.cluster.fabric) ∧
      (f p).outbox = p.outbox) :
    ({ T with cluster := { T.cluster with peers := T.cluster.peers.modify i f } } : Exchange N).Sound := by
  have hmod := h.modify i (f := f) (h.answered i) fun p hp => ⟨(hf p hp).1, (hf p hp).2.symm ▸ h.outbox i p hp⟩
  rwa [update_eq_self] at hmod

theorem push (h : T.Sound) (i : Nat) (hw : w.Known T.cluster.fabric) :
    ({ T with cluster :=
        { T.cluster with peers := T.cluster.peers.modify i (Peer.push [w]) } } : Exchange N).Sound := by
  refine h.modifyInbox i fun p hp => ⟨fun w' hw' => ?_, rfl⟩
  rcases mem_append.mp hw' with hw' | hw'
  · exact h.inbox i p hp w' hw'
  · rw [mem_singleton.mp hw']
    exact hw

theorem work (h : T.Sound) {took : StepTimes}
    (hsmooth : (ExchangeAction.act (.work i took)).Smooth T) : (T.step (.act (.work i took))).Sound := by
  refine h.modify i ?_ fun p hp => ?_
  · intro w hw
    rcases mem_append.mp hw with hw | hw
    · exact h.answered i w hw
    · unfold Exchange.nextAnswer at hw
      split at hw
      · cases hw
      · next p hp =>
        exact h.inbox i p hp w (mem_of_mem_head? (by simpa using (mem_filter.mp hw).1))
  · unfold Exchange.nextAnswer
    rw [hp]
    cases hin : p.inbox with
    | nil =>
      simp only [hin, head?_nil, Option.toList_none, filter_nil, append_nil]
      exact ⟨fun w hw => (by cases hw), h.outbox i p hp⟩
    | cons f fs =>
      obtain ⟨hinbox, answers, houtbox, hans⟩ :=
        Peer.handle_answers (p := { p with inbox := fs }) took (hsmooth p f fs hp hin)
      simp only [hin, head?_cons, Option.toList_some]
      rw [hinbox, houtbox]
      refine ⟨fun w hw => h.inbox i p hp w ?_, rel_append (h.outbox i p hp) hans⟩
      rw [hin]
      exact mem_cons_of_mem f hw

theorem loseOutbox (h : T.Sound) (i : Nat) : (T.step (.act (.loseOutbox i))).Sound := by
  refine h.modify i (fun w hw => h.answered i w (mem_of_mem_tail hw)) fun p hp => ⟨h.inbox i p hp, ?_⟩
  have hout := h.outbox i p hp
  generalize T.answered i = sent at hout
  generalize p.outbox = answers at hout
  cases hout with
  | nil => exact .nil
  | cons _ hrest => exact hrest

theorem hello (h : T.Sound) (wd : WorkerDescriptor) : (T.step (.act (.hello wd))).Sound := by
  have hexec := h.exec (.registerWorker wd)
  refine { hexec with
    owed := fun i f hf => ?_, inbox := fun i p hp => ?_, answered := fun i f hf => ?_, outbox := fun i p hp => ?_ }
  · change f ∈ update T.owed T.cluster.nextConn [] i at hf
    rw [update_apply] at hf
    split at hf
    · cases hf
    · exact hexec.owed i f hf
  · change (T.cluster.peers.insert _ _).find? i = some p at hp
    rw [find?_insert] at hp
    split at hp
    · cases hp
      exact fun f hf => (by cases hf)
    · exact hexec.inbox i p hp
  · change f ∈ update T.answered T.cluster.nextConn [] i at hf
    rw [update_apply] at hf
    split at hf
    · cases hf
    · exact hexec.answered i f hf
  · show List.Forall₂ _ (update T.answered T.cluster.nextConn [] i) _
    change (T.cluster.peers.insert _ _).find? i = some p at hp
    rw [find?_insert] at hp
    rw [update_apply]
    split at hp
    · next hi =>
      cases hp
      rw [if_pos hi]
      exact .nil
    · next hi =>
      rw [if_neg hi]
      exact hexec.outbox i p hp

theorem send (h : T.Sound) : (T.step (.act .send)).Sound := by
  show ({ T with cluster := T.cluster.act .send } : Exchange N).Sound
  unfold Cluster.act
  simp only
  split
  · exact h
  · next d ds hds =>
    have hd : d.id < T.cluster.fabric.nextDispatch := h.pending d (by rw [hds]; exact mem_cons_self)
    have hrest := h.outlast (C := { T.cluster with pending := ds }) h.reachable (.refl _) rfl
      fun d' hd' => .inl (by rw [hds]; exact mem_cons_of_mem d hd')
    unfold Cluster.sendDispatch
    split
    · exact hrest
    · next i _ => exact hrest.push i (w := .executeRequest d.toRequest) hd

theorem tick (h : T.Sound) : (T.step (.act .tick)).Sound := by
  refine h.outlast (C := T.cluster.coordinate .tick) (h.reachable.next (.op _ (.schedule 0)))
    (next_outlasts h.reachable (.op _ (.schedule 0))) rfl fun d hd => ?_
  rcases mem_append.mp hd with hd | hd
  · exact .inl hd
  · obtain ⟨sent, htick⟩ := T.cluster.fabric.schedule_spec 0
    exact .inr (htick.ids d hd).2

theorem lost (h : T.Sound) (i : Nat) : (T.step (.act (.lost i))).Sound := by
  show ({ T with cluster := T.cluster.act (.lost i) } : Exchange N).Sound
  unfold Cluster.act
  simp only
  split
  · exact h
  · next p _ =>
    exact h.outlast (C := T.cluster.lost p) (h.reachable.next (.op _ (.markWorkerDead p.worker)))
      (next_outlasts h.reachable (.op _ (.markWorkerDead p.worker))) rfl fun _ hd => .inl hd

theorem shutdown (h : T.Sound) (i : Nat) : (T.step (.act (.shutdown i))).Sound := by
  show ({ T with cluster := T.cluster.coordinate (.shutdown i) } : Exchange N).Sound
  unfold Cluster.coordinate
  simp only
  split
  · exact h
  · next p _ => exact h.outlast (C := T.cluster.shutdown p) h.reachable (.refl _) rfl fun _ hd => .inl hd

theorem reply (h : T.Sound) (i : Nat) : (T.step (.reply i)).Sound := by
  show (T.reply i).Sound
  unfold Exchange.reply
  split
  · exact h
  · next f fs howed =>
    have hknown : ∀ w ∈ f :: fs, w.Known T.cluster.fabric := howed ▸ h.owed i
    have hpush := h.push i (hknown f mem_cons_self)
    refine { hpush with owed := fun j w hw => ?_ }
    change w ∈ update T.owed i fs j at hw
    rw [update_apply] at hw
    split at hw
    · exact hknown w (mem_cons_of_mem f hw)
    · exact h.owed j w hw

/-- A prepared result is processed: what it answers is settled, and the grants to be sent are in the ledger. -/
theorem receivePrepared (h : T.Sound) (hw : w.Known T.cluster.fabric) (hans : w.AnsweredBy (.preparedResult prepared)) :
    ({ T with
      cluster := { T.cluster with fabric := (T.cluster.fabric.authorizePrepared prepared).1 }
      owed := update T.owed i (T.cluster.fabric.authorizePrepared prepared).2.replies
      processed := T.processed ++ [w] } : Exchange N).Sound := by
  have hnew := h.exec (.authorizePrepared prepared)
  have hlasts := next_outlasts h.reachable (.op _ (.authorizePrepared prepared))
  obtain ⟨-, hsettled, hbacks⟩ := authorize_loop prepared prepared.members T.cluster.fabric (fun _ hpm => hpm)
    (reachable_linked h.reachable)
  refine { hnew with owed := fun j f hf => ?_, processed := fun f hf => ?_ }
  · change f ∈ update T.owed i (T.cluster.fabric.authorizePrepared prepared).2.replies j at hf
    rw [update_apply] at hf
    split at hf
    · obtain ⟨ga, hga, hreply⟩ := mem_filterMap.mp hf
      split at hreply
      · next hgrant =>
        cases hreply
        exact hbacks ga hga hgrant
      · split at hreply
        · cases hreply
          trivial
        · cases hreply
    · exact hnew.owed j f hf
  · rcases mem_append.mp hf with hf | hf
    · exact hnew.processed f hf
    · cases mem_singleton.mp hf
      refine ⟨hlasts.known hw, ?_⟩
      cases hans with
      | prepared hmembers =>
        intro m hm
        obtain ⟨pm, hpm, hseq⟩ := hmembers m hm
        rw [← hseq]
        exact hsettled pm hpm _ hw

/-- A receipt is processed in time, so that the grant it answers is settled. -/
theorem receiveReceipt (h : T.Sound) {receipts : ReceiptDecode} (hw : w.Known T.cluster.fabric)
    (hans : w.AnsweredBy (.commitReceipt receipts))
    (htimely : (ToCoordinator.commitReceipt receipts).Timely T.cluster.fabric) : ({ T with
      cluster := T.cluster.exec (.applyCommitReceipt receipts)
      processed := T.processed ++ [w] } : Exchange N).Sound := by
  have hnew := h.exec (.applyCommitReceipt receipts)
  have hlasts := next_outlasts h.reachable (.op _ (.applyCommitReceipt receipts))
  refine { hnew with processed := fun f hf => ?_ }
  rcases mem_append.mp hf with hf | hf
  · exact hnew.processed f hf
  · cases mem_singleton.mp hf
    refine ⟨hlasts.known hw, ?_⟩
    cases hans with
    | @receipt g _ r hone hfit =>
      have hexec : T.cluster.fabric.exec (.applyCommitReceipt receipts) = T.cluster.fabric.applyReceipt r := by
        show receipts.receipts.foldl applyReceipt T.cluster.fabric = _
        rw [hone]
        rfl
      show ¬ (T.cluster.fabric.exec (.applyCommitReceipt receipts)).PendingInFlight g
      rw [hexec]
      exact applyReceipt_settles h.reachable hw hfit (htimely r (by rw [hone]; exact mem_singleton_self r))

theorem receive (h : T.Sound) (hsmooth : (ExchangeAction.act (.receive i)).Smooth T) :
    (T.step (.act (.receive i))).Sound := by
  show (T.receive i).Sound
  unfold Exchange.receive
  split
  · next p _ hp =>
    split
    · exact h
    · next f fs hout =>
      have hpaired := h.outbox i p hp
      rw [hout] at hpaired
      obtain ⟨w, ws, hans, hrest, hsent⟩ := forall₂_cons_right_iff.mp hpaired
      have hw : w.Known T.cluster.fabric := h.answered i w (by rw [hsent]; exact mem_cons_self)
      have hknown : ∀ w' ∈ ws, w'.Known T.cluster.fabric :=
        fun w' hw' => h.answered i w' (by rw [hsent]; exact mem_cons_of_mem w hw')
      have htaken := h.modify i (f := fun p => { p with outbox := fs }) hknown fun p' hp' => ⟨h.inbox i p' hp', hrest⟩
      rw [hsent]
      cases f with
      | preparedResult prepared => exact htaken.receivePrepared hw hans
      | commitReceipt receipts => exact htaken.receiveReceipt hw hans (hsmooth p _ fs hp hout)
  · exact h

/-- What one action preserves. -/
theorem step (h : T.Sound) {a : ExchangeAction} (hsmooth : a.Smooth T) : (T.step a).Sound := by
  cases a with
  | reply i => exact h.reply i
  | act a =>
    cases a with
    | submit req => exact h.exec (.submit req)
    | cancelRequest r => exact h.exec (.cancelRequest r)
    | executeResult result => exact h.exec (.applyCompletion result)
    | rollEpoch => exact h.exec .rollEpoch
    | hello wd => exact h.hello wd
    | lost i => exact h.lost i
    | shutdown i => exact h.shutdown i
    | receive i => exact h.receive hsmooth
    | tick => exact h.tick
    | send => exact h.send
    | work i took => exact h.work hsmooth
    | loseInbox i =>
      exact h.modifyInbox i fun p hp => ⟨fun w hw => h.inbox i p hp w (mem_of_mem_tail hw), rfl⟩
    | loseOutbox i => exact h.loseOutbox i

theorem init (cfg : Config) (clock : TimePoint) : (Exchange.init cfg clock : Exchange N).Sound := by
  have hpeers : ∀ i, (Exchange.init cfg clock : Exchange N).cluster.peers.find? i = none := fun i => find?_empty i
  refine ⟨⟨[], cfg, clock, Run.nil _⟩, ?_, ?_, ?_, ?_, ?_, ?_⟩
  · exact fun d hd => absurd hd not_mem_nil
  · exact fun i f hf => absurd hf not_mem_nil
  · intro i p hp
    rw [hpeers] at hp
    cases hp
  · exact fun i f hf => absurd hf not_mem_nil
  · intro i p hp
    rw [hpeers] at hp
    cases hp
  · exact fun f hf => absurd hf not_mem_nil

end Exchange.Sound

theorem exchange_sound {h : List (Edge (Exchange N) ExchangeCall)} {T : Exchange N} (hr : ExchangeRunsTo h T)
    (hc : ∀ e ∈ h, SmoothStep e) : T.Sound := by
  obtain ⟨cfg, clock, hr⟩ := hr
  refine hr.invariant (fun ⟨T, l, U⟩ hn hsmooth hold => ?_) hc (Exchange.Sound.init cfg clock)
  change ExchangeNext T l U at hn
  change T.Sound at hold
  cases hn with
  | act a => exact hold.step (hsmooth a rfl)
  | clock now =>
    exact hold.outlast (hold.reachable.next (.tick _ now)) (next_outlasts hold.reachable (.tick _ now)) rfl
      fun _ hd => .inl hd
  | rehash seqs workers hs hw =>
    exact hold.outlast (hold.reachable.next (.rehash _ seqs workers hs hw))
      (next_outlasts hold.reachable (.rehash _ seqs workers hs hw)) rfl fun _ hd => .inl hd

/-- In a run of smooth steps every answer the coordinator has processed has settled what it answers: the members of the
    request are granted or no longer in flight under it, the grant is no longer pending in flight. -/
theorem answers_settle {h : List (Edge (Exchange N) ExchangeCall)} {T : Exchange N} (hr : ExchangeRunsTo h T)
    (hc : ∀ e ∈ h, SmoothStep e) : ∀ f ∈ T.processed, f.Settled T.cluster.fabric :=
  fun f hf => ((exchange_sound hr hc).processed f hf).2

/-- A list of actions is smooth if each is where it comes. -/
theorem smooth_cons {T : Exchange N} {a : ExchangeAction} {as : List ExchangeAction} (ha : a.Smooth T)
    (has : ∀ e ∈ exchangeTrace (T.step a) as, SmoothStep e) : ∀ e ∈ exchangeTrace T (a :: as), SmoothStep e := by
  refine forall_mem_cons.mpr ⟨?_, has⟩
  intro b hb
  cases hb
  exact ha

theorem smooth_work {T : Exchange N} {took : StepTimes} {f : ToWorker}
    {fs : List ToWorker} (hp : T.cluster.peers.find? i = some p) (hin : p.inbox = f :: fs)
    (hf : f.Feasible p.executor) :
    (ExchangeAction.act (.work i took)).Smooth T := by
  intro p' f' fs' hp' hin'
  cases hp.symm.trans hp'
  obtain ⟨rfl, -⟩ := cons.inj (hin.symm.trans hin')
  exact hf

theorem smooth_receive {T : Exchange N} {f : ToCoordinator} {fs : List ToCoordinator}
    (hp : T.cluster.peers.find? i = some p) (hout : p.outbox = f :: fs) (hf : f.Timely T.cluster.fabric) :
    (ExchangeAction.act (.receive i)).Smooth T := by
  intro p' f' fs' hp' hout'
  cases hp.symm.trans hp'
  obtain ⟨rfl, -⟩ := cons.inj (hout.symm.trans hout')
  exact hf

end

/-! A token committed over the wire, and three answers that settle nothing. -/

namespace Sample

def talking : Exchange numerics := Exchange.init {} 0

/-- The first step of a request is prepared, and the answer on its way. -/
def answering : List ExchangeAction :=
  [.act (.hello (worker 1 1)), .act (.submit request), .act .tick, .act .send, .act (.work 0 took)]

def oneToken : List ExchangeAction :=
  answering ++ [.act (.receive 0), .reply 0, .act (.work 0 took), .act (.receive 0)]

/-- The epoch is rolled before the answer is processed. It is rejected, and the next dispatch of the sequence is sent
    before the abort. -/
def overtaking : List ExchangeAction :=
  answering ++ [.act .rollEpoch, .act (.receive 0), .act .tick, .act .send, .reply 0, .act (.work 0 took),
    .act (.receive 0)]

/-- Two requests name the same state, and go out together. -/
def sharing : List ExchangeAction :=
  [.act (.hello (worker 1 1)), .act (.submit request), .act (.submit { request with id := 2, sequence := 2 }),
  .act .tick,
    .act .send, .act (.work 0 took), .act (.receive 0), .reply 0, .reply 0, .act (.work 0 took), .act (.receive 0)]

/-- The request is cancelled while its grant is on its way. -/
def cancelling : List ExchangeAction :=
  answering ++ [.act (.receive 0), .reply 0, .act (.cancelRequest 1), .act (.work 0 took), .act (.receive 0)]

end Sample

theorem answers_settle_oneToken :
    ExchangeRunsTo (exchangeTrace talking oneToken) (talking.stepAll oneToken) ∧
    (∃ req g, (talking.stepAll oneToken).processed = [.executeRequest req, .commitGrant g]) ∧
    ∀ f ∈ (talking.stepAll oneToken).processed,
      f.Settled (talking.stepAll oneToken).cluster.fabric := by
  have hr : ExchangeRunsTo _ _ := ⟨{}, 0, exchangeTrace_run talking oneToken⟩
  refine ⟨hr, ⟨_, _, rfl⟩, answers_settle hr ?_⟩
  -- the request finds nothing waiting, the grant what it was issued for
  refine smooth_cons trivial (smooth_cons trivial (smooth_cons trivial (smooth_cons trivial
    (smooth_cons (smooth_work rfl rfl rfl) (smooth_cons (smooth_receive rfl rfl trivial) (smooth_cons trivial
      (smooth_cons (smooth_work rfl rfl (.inr ⟨_, _, ⟨rfl, rfl, rfl, rfl, rfl, rfl, rfl⟩⟩))
        (smooth_cons (smooth_receive rfl rfl ?_) (forall_mem_nil _)))))))))
  intro r hr x hx _ _
  obtain rfl := mem_singleton.mp hr
  cases hx
  decide

/-- The coordinator has processed an empty prepared result, and the member is in flight without a grant; an empty
    receipt, and the grant is pending in flight; a receipt for a cancelled request, and the grant is pending in
    flight. -/
theorem answers_leave_unsettled :
    (ExchangeRunsTo (exchangeTrace talking overtaking) (talking.stepAll overtaking) ∧
      ∃ req, ToWorker.executeRequest req ∈ (talking.stepAll overtaking).processed ∧
        ∃ m ∈ req.members, (talking.stepAll overtaking).cluster.fabric.Ungranted m.sequence req.dispatchId) ∧
    (ExchangeRunsTo (exchangeTrace talking sharing) (talking.stepAll sharing) ∧
      ∃ g, ToWorker.commitGrant g ∈ (talking.stepAll sharing).processed ∧
        (talking.stepAll sharing).cluster.fabric.PendingInFlight g) ∧
    ExchangeRunsTo (exchangeTrace talking cancelling) (talking.stepAll cancelling) ∧
      ∃ g, ToWorker.commitGrant g ∈ (talking.stepAll cancelling).processed ∧
        (talking.stepAll cancelling).cluster.fabric.PendingInFlight g := by
  refine ⟨⟨⟨{}, 0, exchangeTrace_run _ _⟩, _, mem_cons_of_mem _ (mem_singleton.mpr rfl), _,
    mem_singleton.mpr rfl, _, rfl, rfl, rfl, fun h => ?_⟩,
    ⟨⟨{}, 0, exchangeTrace_run _ _⟩, _, mem_cons_of_mem _ (mem_singleton.mpr rfl), _, _, rfl, rfl, rfl, rfl, rfl⟩,
    ⟨{}, 0, exchangeTrace_run _ _⟩, _, mem_cons_of_mem _ (mem_singleton.mpr rfl), _, _, rfl, rfl, rfl, rfl, rfl⟩
  exact absurd h.1 (by decide)

end DecodeFabric
