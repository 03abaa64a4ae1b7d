import DecodeFabric.Cluster
import DecodeFabric.Advance

/- Agreement of the fabric and its executors.

   An executor promotes a step when the grant reaches it, the fabric counts the token when the
   receipt comes back. In between the executor is one token ahead, which is sound as long as the
   sequence still holds that grant. `authorize_prepared` breaks this: every rejection
   reconciles the sequence, whatever the rejected member was, and with it drops the grant another
   worker may already have promoted; its receipt is then refused (`promotion_disowned`).

   As long as no prepared member meets a sequence that holds a grant, no promotion is lost. What is
   known of a peer is stated relative to the fabric (`Peer.Tied`) and survives whatever the fabric
   does as long as it advances; so each action is looked at on one side only. -/
namespace DecodeFabric
open Lib Table List Sample Executor
variable {g : CommitGrant} {s : Fabric} {r : MemberReceipt} {N : Numerics} {receipts : Table GrantId MemberReceipt}

/-! What is known of a peer. -/

/-- The member asks for the next step of its sequence, or for one already taken. -/
def Fabric.Fits (s : Fabric) (m : DecodeMemberSpec) : Prop :=
  ∃ x, s.seqs.find? m.sequence = some x ∧ x.state.id = m.state.id ∧ m.generatedTokens.toNat ≤ x.generated.toNat

/-- State `σ` belongs to a sequence, and `n` tokens of it are no more than the fabric has counted, or one
    more by a promotion on the grant the sequence holds. -/
def Fabric.Bounds (s : Fabric) (receipts : Table GrantId MemberReceipt) (σ : StateId) (n : UInt64) : Prop :=
  ∃ q x, s.seqs.find? q = some x ∧ x.state.id = σ ∧
    (n.toNat ≤ x.generated.toNat ∨
      (n.toNat = x.generated.toNat + 1 ∧ x.hasInflightGrant = true ∧ ∃ r, receipts.find? x.inFlightGrant = some r))

structure Peer.Tied {N : Numerics} (s : Fabric) (p : Peer N) : Prop where
  tokens : p.executor.AllTokens (s.Bounds p.executor.receiptsByGrant)
  receipts : ∀ i r, p.executor.receiptsByGrant.find? i = some r → r.grantId = i ∧
    ∃ rec, s.grantLedger.find? i = some rec ∧ receiptFitsGrant r rec.grant = true
  requests : ∀ req, .executeRequest req ∈ p.inbox → req.dispatchId ≠ 0 ∧ ∀ m ∈ req.members, s.Fits m
  grants : ∀ g, .commitGrant g ∈ p.inbox → s.Backs g
  prepared : ∀ pd, .preparedResult pd ∈ p.outbox → ∀ pm ∈ pd.members, s.Expects pm

section Advance
variable {s t : Fabric}

theorem Fabric.Fits.advance {m : DecodeMemberSpec} (h : s.Fits m) (ha : s.Advances t) : t.Fits m := by
  obtain ⟨x, hx, hstate, hle⟩ := h
  obtain ⟨y, hy, hxy⟩ := ha.seqs _ x hx
  exact ⟨y, hy, hxy.state.trans hstate, Nat.le_trans hle hxy.tokens⟩

theorem Fabric.Bounds.advance {σ : StateId} {n : UInt64}
    (h : s.Bounds receipts σ n) (ha : s.Advances t) : t.Bounds receipts σ n := by
  obtain ⟨q, x, hx, hstate, hcase⟩ := h
  obtain ⟨y, hy, hxy⟩ := ha.seqs q x hx
  refine ⟨q, y, hy, hxy.state.trans hstate, ?_⟩
  have hle := hxy.tokens
  rcases hcase with hn | ⟨hn, hheld, r, hr⟩
  · left
    omega
  · by_cases hsame : y.generated.toNat = x.generated.toNat
    · obtain ⟨hheld', hgrant, -⟩ := hxy.held hsame hheld
      exact .inr ⟨by omega, hheld', r, hgrant ▸ hr⟩
    · left
      omega

variable {N : Numerics}

theorem Peer.Tied.advance {p : Peer N} (h : p.Tied s) (ha : s.Advances t) : p.Tied t where
  tokens := fun σ st hst => (h.tokens σ st hst).advance ha
  receipts := by
    intro i r hr
    obtain ⟨hid, rec, hrec, hfit⟩ := h.receipts i r hr
    obtain ⟨rec', hrec', heq⟩ := ha.grants i rec hrec
    exact ⟨hid, rec', hrec', heq ▸ hfit⟩
  requests := fun req hreq => ⟨(h.requests req hreq).1, fun m hm => ((h.requests req hreq).2 m hm).advance ha⟩
  grants := fun g hg => (h.grants g hg).advance ha
  prepared := fun pd hpd pm hpm => (h.prepared pd hpd pm hpm).advance ha

/-- A process that has just connected. -/
theorem Peer.Tied.fresh (s : Fabric) (id : WorkerId) : ({ worker := id } : Peer N).Tied s where
  tokens := fun σ st hst => by simp at hst
  receipts := fun i r hr => by simp at hr
  requests := fun req hreq => by simp at hreq
  grants := fun g hg => by simp at hg
  prepared := fun pd hpd => by simp at hpd

end Advance

/-! What the worker does. -/

section Worker
variable {s : Fabric} {N : Numerics} {p : Peer N}

/-- Fewer frames in the queues. -/
theorem Peer.Tied.shrink (h : p.Tied s) {inbox : List ToWorker} {outbox : List ToCoordinator}
    (hin : inbox ⊆ p.inbox) (hout : outbox ⊆ p.outbox) :
    ({ p with inbox := inbox, outbox := outbox } : Peer N).Tied s where
  tokens := h.tokens
  receipts := h.receipts
  requests := fun req hreq => h.requests req (hin hreq)
  grants := fun g hg => h.grants g (hin hg)
  prepared := fun pd hpd => h.prepared pd (hout hpd)

/-- A worker prepares what it is asked for. -/
theorem Peer.Tied.prepare (h : p.Tied s) {req : DecodeExecutionRequest} (hd : req.dispatchId ≠ 0)
    (hm : ∀ m ∈ req.members, s.Fits m) (took : StepTimes) :
    (p.handle took (.executeRequest req)).Tied s := by
  have hbound : ∀ m ∈ req.members, s.Bounds p.executor.receiptsByGrant m.state.id m.generatedTokens := by
    intro m hmem
    obtain ⟨x, hx, hstate, hle⟩ := hm m hmem
    exact ⟨m.sequence, x, hx, hstate, .inl hle⟩
  have htok := prepare_allTokens req took h.tokens hbound
  have hrec := prepare_receipts req took p.executor
  show ({ p with
    executor := (p.executor.prepare req took).1
    outbox := p.outbox ++ [.preparedResult (prepareReply req (p.executor.prepare req took).2)] } : Peer N).Tied s
  refine ⟨by rw [hrec]; exact htok, by rw [hrec]; exact h.receipts, h.requests, h.grants, ?_⟩
  intro pd hpd pm hpm
  rcases mem_append.mp hpd with hpd | hpd
  · exact h.prepared pd hpd pm hpm
  · cases mem_singleton.mp hpd
    cases hres : (p.executor.prepare req took).2 with
    | error e =>
      rw [hres] at hpm
      cases hpm
    | ok prepared =>
      rw [hres] at hpm
      obtain ⟨m, hmem, hanswer⟩ := forall₂_item (prepare_answers hres) pm hpm
      obtain ⟨x, hx, hstate, -⟩ := hm m hmem
      refine ⟨hanswer.dispatch ▸ hd, hanswer.succeeded, x, ?_, ?_⟩
      · rw [hanswer.sequence]
        exact hx
      · rw [hanswer.state]
        exact hstate

/-- The position after a promotion is bounded: the token is counted already, or the grant is held. -/
theorem Fabric.Coherent.promoted (hs : s.Coherent) (hg : s.Backs g) (hr : ∃ r, receipts.find? g.grantId = some r) :
    s.Bounds receipts g.state (g.committedPosition + 1) := by
  obtain ⟨rec, hrec, rfl⟩ := hg
  obtain ⟨x, hx, hstate, hcase⟩ := hs.tracked _ rec hrec
  refine ⟨rec.grant.sequence, x, hx, hstate, ?_⟩
  rcases hcase with hlt | ⟨hheld, hgrant, -, hpos⟩
  · left
    have hsize := x.generated.toNat_lt_size
    have hsucc : (rec.grant.committedPosition + 1).toNat = rec.grant.committedPosition.toNat + 1 := by
      rw [UInt64.toNat_add]
      apply Nat.mod_eq_of_lt
      show rec.grant.committedPosition.toNat + 1 < UInt64.size
      omega
    omega
  · right
    rw [hpos, hgrant]
    exact ⟨(hs.counted _ x hx).generated_succ hheld, hheld, hr⟩

/-- A worker commits what it is granted. -/
theorem Peer.Tied.commit (h : p.Tied s) (hs : s.Coherent) (hg : s.Backs g)
    (took : StepTimes) : (p.handle took (.commitGrant g)).Tied s := by
  have hprepared : ∀ reply pd, .preparedResult pd ∈ p.outbox ++ [.commitReceipt reply] →
      ∀ pm ∈ pd.members, s.Expects pm := by
    intro reply pd hpd
    rcases mem_append.mp hpd with hpd | hpd
    · exact h.prepared pd hpd
    · cases mem_singleton.mp hpd
  show ({ p with executor := (p.executor.commit g).1, outbox := _ } : Peer N).Tied s
  obtain hsame | ⟨st, tent, hp, hprom⟩ := p.executor.commit_cases g
  · rw [hsame]
    exact ⟨h.tokens, h.receipts, h.requests, h.grants, hprepared _⟩
  · rw [hprom]
    have hfound : ∀ i, (∃ r, p.executor.receiptsByGrant.find? i = some r) →
        ∃ r, (p.executor.promote g st tent).receiptsByGrant.find? i = some r := by
      rintro i ⟨r, hr⟩
      show ∃ r, (p.executor.receiptsByGrant.insert g.grantId _).find? i = some r
      rw [find?_insert]
      split
      · exact ⟨_, rfl⟩
      · exact ⟨r, hr⟩
    have htokens : p.executor.AllTokens (s.Bounds (p.executor.promote g st tent).receiptsByGrant) := by
      intro σ st' hst'
      obtain ⟨q, x, hx, hstate, hcase⟩ := h.tokens σ st' hst'
      refine ⟨q, x, hx, hstate, ?_⟩
      rcases hcase with hn | ⟨hn, hheld, hr⟩
      · exact .inl hn
      · exact .inr ⟨hn, hheld, hfound _ hr⟩
    refine ⟨?_, ?_, h.requests, h.grants, hprepared _⟩
    · refine htokens.insert ?_ rfl
      rw [hp.position]
      exact hs.promoted hg ⟨_, find?_insert_self _ _ _⟩
    · intro i r hr
      change (p.executor.receiptsByGrant.insert g.grantId (receiptFor g st.tokens tent)).find? i = some r at hr
      rw [find?_insert] at hr
      split at hr
      · next hi =>
        cases hr
        obtain ⟨rec, hrec, heq⟩ := hg
        exact ⟨hi.symm, rec, hi ▸ hrec, heq ▸ hp.fits⟩
      · exact h.receipts i r hr

theorem Peer.Tied.handle (h : p.Tied s) (hs : s.Coherent) (took : StepTimes) {f : ToWorker}
    {fs : List ToWorker} (hin : p.inbox = f :: fs) : (({ p with inbox := fs } : Peer N).handle took f).Tied s := by
  have hrest : ({ p with inbox := fs } : Peer N).Tied s :=
    h.shrink (by rw [hin]; exact subset_cons_self f fs) (List.Subset.refl _)
  have hmem : f ∈ p.inbox := by
    rw [hin]
    exact mem_cons_self
  cases f with
  | executeRequest req =>
    obtain ⟨hd, hm⟩ := h.requests req hmem
    exact hrest.prepare hd hm took
  | commitGrant g => exact hrest.commit hs (h.grants g hmem) took
  | abortPrepared a =>
    refine ⟨?_, ?_, hrest.requests, hrest.grants, hrest.prepared⟩
    · show (p.executor.abort a).1.AllTokens (s.Bounds (p.executor.abort a).1.receiptsByGrant)
      rw [abort_receipts]
      exact abort_allTokens h.tokens a
    · show ∀ i r, (p.executor.abort a).1.receiptsByGrant.find? i = some r → _
      rw [abort_receipts]
      exact h.receipts

/-- Frames the fabric stands behind. -/
theorem Peer.Tied.push (h : p.Tied s) {frames : List ToWorker}
    (hreq : ∀ req, .executeRequest req ∈ frames → req.dispatchId ≠ 0 ∧ ∀ m ∈ req.members, s.Fits m)
    (hgr : ∀ g, .commitGrant g ∈ frames → s.Backs g) : (p.push frames).Tied s where
  tokens := h.tokens
  receipts := h.receipts
  requests := fun req hmem => (mem_append.mp hmem).elim (h.requests req) (hreq req)
  grants := fun g hmem => (mem_append.mp hmem).elim (h.grants g) (hgr g)
  prepared := h.prepared

end Worker

/-! The cluster. -/

structure Cluster.Sound {N : Numerics} (C : Cluster N) : Prop where
  coherent : C.fabric.Coherent
  tied : ∀ i p, C.peers.find? i = some p → p.Tied C.fabric
  pending : ∀ d ∈ C.pending, d.id ≠ 0 ∧ ∀ m ∈ d.members, C.fabric.Fits m

/-- No member of the PreparedResult handled meets, at its turn, a sequence that holds a grant. -/
def KeepsPromotions {N : Numerics} (e : Edge (Cluster N) ClusterCall) : Prop :=
  match e.label with
  | .act (.receive i) => ∀ p pd rest, e.pre.peers.find? i = some p → p.outbox = .preparedResult pd :: rest →
      ∀ turn ∈ turns (fun u pm => (Fabric.authorizeMember pd u pm).1) e.pre.fabric pd.members,
        ∀ x, turn.1.seqs.find? turn.2.sequence = some x → x.hasInflightGrant = false
  | _ => True

namespace Cluster
variable {N : Numerics} {C : Cluster N}

theorem Sound.init (cfg : Config) (clock : TimePoint) : (init (N := N) cfg clock).Sound where
  coherent := Fabric.Coherent.init cfg clock
  tied := fun i p hp => by simp [Cluster.init] at hp
  pending := fun d hd => by simp [Cluster.init] at hd

/-- The fabric alone moves on. -/
theorem Sound.advance (h : C.Sound) {t : Fabric} (ht : t.Coherent) (ha : C.fabric.Advances t) :
    ({ C with fabric := t } : Cluster N).Sound where
  coherent := ht
  tied := fun i p hp => (h.tied i p hp).advance ha
  pending := fun d hd => ⟨(h.pending d hd).1, fun m hm => ((h.pending d hd).2 m hm).advance ha⟩

/-- One peer alone moves on. -/
theorem Sound.modify (h : C.Sound) {i : Nat} {f : Peer N → Peer N}
    (hf : ∀ p, C.peers.find? i = some p → p.Tied C.fabric → (f p).Tied C.fabric) :
    ({ C with peers := C.peers.modify i f } : Cluster N).Sound where
  coherent := h.coherent
  tied := by
    intro j p hp
    rcases find?_modify_cases hp with ⟨rfl, v, hv, rfl⟩ | ⟨-, hp⟩
    · exact hf v hv (h.tied _ v hv)
    · exact h.tied j p hp
  pending := h.pending

theorem Sound.exec (h : C.Sound) {o : Op} (ho : (Call.op o).isGentle) : (C.exec o).Sound := by
  obtain ⟨hcoh, hadv⟩ := next_coherent (Next.op C.fabric o) ho h.coherent
  exact h.advance hcoh hadv

theorem Sound.hello (h : C.Sound) (wd : WorkerDescriptor) : (C.hello wd).Sound := by
  have hreg : (C.exec (.registerWorker wd)).Sound := h.exec trivial
  refine ⟨hreg.coherent, ?_, hreg.pending⟩
  intro i p hp
  change (C.peers.insert C.nextConn { worker := wd.id }).find? i = some p at hp
  rw [find?_insert] at hp
  split at hp
  · cases hp
    exact Peer.Tied.fresh _ wd.id
  · exact hreg.tied i p hp

theorem Sound.lost (h : C.Sound) (p : Peer N) : (C.lost p).Sound :=
  have hdead : (C.exec (.markWorkerDead p.worker)).Sound := h.exec trivial
  ⟨hdead.coherent, hdead.tied, hdead.pending⟩

/-- What `schedule` returns asks for the next step of every sequence it names. -/
theorem schedule_fits (h0 : s.nextDispatch ≠ 0) (tn : TimePoint) :
    ∀ d ∈ (s.schedule tn).2, d.id ≠ 0 ∧ ∀ m ∈ d.members, s.Fits m := by
  obtain ⟨sent, htick⟩ := s.schedule_spec tn
  intro d hd
  refine ⟨?_, ?_⟩
  · intro hid
    have hle := (htick.ids d hd).1
    rw [hid] at hle
    exact h0 (Nat.le_zero.mp hle)
  · intro m hm
    have hmem : m ∈ (s.schedule tn).2.flatMap Dispatch.members := mem_flatMap.mpr ⟨d, hd, hm⟩
    rw [htick.emitted] at hmem
    obtain ⟨q, hq, rfl⟩ := mem_map.mp hmem
    obtain ⟨x, hx, -⟩ := htick.dispatched q hq
    simp only [Fabric.specOf, hx]
    exact ⟨x, hx, rfl, Nat.le_refl _⟩

theorem Sound.schedule (h : C.Sound) (tn : TimePoint) : (C.act (.schedule tn)).Sound := by
  have hadv := schedule_advances C.fabric tn
  have hmoved := h.advance (schedule_coherent h.coherent tn) hadv
  refine ⟨hmoved.coherent, hmoved.tied, ?_⟩
  intro d hd
  rcases mem_append.mp hd with hd | hd
  · exact hmoved.pending d hd
  · obtain ⟨hid, hfits⟩ := schedule_fits h.coherent.pos tn d hd
    exact ⟨hid, fun m hm => (hfits m hm).advance hadv⟩

theorem Sound.sendDispatch (h : C.Sound) {d : Dispatch} (hid : d.id ≠ 0) (hfits : ∀ m ∈ d.members, C.fabric.Fits m) :
    (C.sendDispatch d).Sound := by
  unfold Cluster.sendDispatch
  split
  · exact h
  · refine h.modify fun p _ hp => hp.push ?_ ?_
    · intro req hreq
      cases mem_singleton.mp hreq
      exact ⟨hid, hfits⟩
    · intro g hg
      cases mem_singleton.mp hg

/-- The handler answers a PreparedResult none of whose members meets a grant. -/
theorem Sound.authorize (h : C.Sound) (i : Nat) {pd : PreparedDecode} (hexp : ∀ pm ∈ pd.members, C.fabric.Expects pm)
    (hfree : ∀ turn ∈ turns (fun u pm => (Fabric.authorizeMember pd u pm).1) C.fabric pd.members,
      ∀ x, turn.1.seqs.find? turn.2.sequence = some x → x.hasInflightGrant = false) :
    (C.handle i (.preparedResult pd)).Sound := by
  obtain ⟨hcoh, hadv, hback⟩ := authorize_scan pd pd.members C.fabric h.coherent hexp hfree
  refine (h.advance hcoh hadv).modify (i := i) (f := Peer.push (C.fabric.authorizePrepared pd).2.replies)
    fun p _ hp => hp.push ?_ ?_
  · intro req hreq
    obtain ⟨ga, -, hga⟩ := mem_filterMap.mp hreq
    split_ifs at hga <;> cases hga
  · intro g hg
    obtain ⟨ga, hmem, hga⟩ := mem_filterMap.mp hg
    split_ifs at hga with hgrant
    · cases hga
      exact hback ga hmem hgrant
    · cases hga

theorem Sound.receive (h : C.Sound) (i : Nat) (hk : KeepsPromotions ⟨C, .act (.receive i), C.act (.receive i)⟩) :
    (C.act (.receive i)).Sound := by
  unfold act
  simp only
  split
  · exact h
  · next p hp =>
    split
    · exact h
    · next f fs hout =>
      have hpopped : ({ C with peers := C.peers.modify i fun p => { p with outbox := fs } } : Cluster N).Sound := by
        refine h.modify fun p' hp' htied => htied.shrink (List.Subset.refl _) ?_
        cases hp.symm.trans hp'
        rw [hout]
        exact subset_cons_self f fs
      cases f with
      | preparedResult pd =>
        refine hpopped.authorize i ?_ (hk p pd fs hp hout)
        exact (h.tied i p hp).prepared pd (by rw [hout]; exact mem_cons_self)
      | commitReceipt r => exact hpopped.exec trivial

/-- Every action that meets its condition keeps the cluster sound. -/
theorem Sound.act (h : C.Sound) (a : Action) (hk : KeepsPromotions ⟨C, .act a, C.act a⟩) : (C.act a).Sound := by
  cases a with
  | submit req | retry q | registerWorker wd | markWorkerDead id | rollEpoch => exact h.exec trivial
  | hello wd => exact h.hello wd
  | lost i =>
    unfold Cluster.act
    simp only
    split
    · exact h
    · exact h.lost _
  | schedule tn => exact h.schedule tn
  | send =>
    unfold Cluster.act
    simp only
    split
    · exact h
    · next d ds hpend =>
      have hmem : d ∈ C.pending := by
        rw [hpend]
        exact mem_cons_self
      have htaken : ({ C with pending := ds } : Cluster N).Sound := by
        refine ⟨h.coherent, h.tied, fun d' hd' => h.pending d' ?_⟩
        rw [hpend]
        exact mem_cons_of_mem _ hd'
      exact htaken.sendDispatch (h.pending d hmem).1 (h.pending d hmem).2
  | work i took =>
    refine h.modify fun p _ hp => ?_
    split
    · exact hp
    · next f fs hin => exact hp.handle h.coherent took hin
  | receive i => exact h.receive i hk
  | loseInbox i => exact h.modify fun p _ hp => hp.shrink (fun _ => mem_of_mem_tail) (List.Subset.refl _)
  | loseOutbox i => exact h.modify fun p _ hp => hp.shrink (List.Subset.refl _) (fun _ => mem_of_mem_tail)

end Cluster

theorem clusterNext_sound {C D : Cluster N} {c : ClusterCall} (hn : ClusterNext C c D)
    (hk : KeepsPromotions ⟨C, c, D⟩) (h : C.Sound) : D.Sound := by
  cases hn with
  | act a => exact h.act a hk
  | tick now =>
    obtain ⟨hcoh, hadv⟩ := next_coherent (Next.tick C.fabric now) trivial h.coherent
    exact h.advance hcoh hadv
  | rehash seqs workers hs hw =>
    obtain ⟨hcoh, hadv⟩ := next_coherent (Next.rehash C.fabric seqs workers hs hw) trivial h.coherent
    exact h.advance hcoh hadv

/-! Runs. -/

theorem run_sound {h : List (Edge (Cluster N) ClusterCall)} {C : Cluster N} (hr : ClusterRunsTo h C)
    (hk : ∀ e ∈ h, KeepsPromotions e) : C.Sound := by
  obtain ⟨cfg, clock, hr⟩ := hr
  refine hr.invariant (I := Cluster.Sound) (P := KeepsPromotions) ?_ hk (Cluster.Sound.init cfg clock)
  intro e hn hke hsound
  exact clusterNext_sound hn hke hsound

/-- The receipt of a grant that is held finalizes its sequence. -/
theorem Fabric.Coherent.finalizes (hs : s.Coherent) {q : SequenceId} {x : Seq}
    (hx : s.seqs.find? q = some x) (hheld : x.hasInflightGrant = true) (hlive : x.machine.isTerminal = false)
    (hid : r.grantId = x.inFlightGrant) {rec : GrantRecord}
    (hrec : s.grantLedger.find? x.inFlightGrant = some rec) (hfit : receiptFitsGrant r rec.grant = true) :
    s.receiptVerdict r = .finalize x ∧ r.sequence = q := by
  obtain ⟨c, hc⟩ := hs.linked
  obtain ⟨rec', hrec', hpend, hseq, -⟩ := hc.held_entry hx hheld
  cases hrec.symm.trans hrec'
  have hrseq : r.sequence = q := (receiptFitsGrant_spec hfit).2.1.trans hseq
  have hrprop : r.proposal = rec.grant.proposal := by
    simp only [receiptFitsGrant, decide_eq_true_eq] at hfit
    exact hfit.2.1
  have hproposal : x.inFlightProposal = rec.grant.proposal := by
    obtain ⟨y, hy, -, hcase⟩ := hs.tracked _ rec hrec
    obtain rfl : x = y := by
      rw [hseq] at hy
      exact Option.some.inj (hx.symm.trans hy)
    rcases hcase with hlt | ⟨-, -, hp, -⟩
    · -- the grant held is for the next token, which is not counted yet
      have hpos := (hc.seq q x hx).held _ (by simp [Seq.heldGrant, hheld]) rec hrec
      rw [hpos] at hlt
      exact absurd hlt (Nat.lt_irrefl _)
    · exact hp
  have hcancel : x.machine ≠ .cancelRequested := (of_decide_eq_true (hs.opens q x hx hheld)).2.2
  refine ⟨receiptVerdict_of_finalizable ?_, hrseq⟩
  exact
    { seq := hrseq ▸ hx
      grant := ⟨rec, hid ▸ hrec, hpend, hfit⟩
      holds := hheld
      held := hid.symm
      proposal := hproposal.trans hrprop.symm
      live := hlive
      notCancelling := hcancel }

/-- A finalized receipt counts one token. -/
theorem applyReceipt_counts {x : Seq} (hv : s.receiptVerdict r = .finalize x) :
    ∃ y, (s.applyReceipt r).seqs.find? r.sequence = some y ∧ y.generated = x.generated + 1 :=
  ⟨x.finish (s.finishTime r) r, Fabric.applyReceipt_finish hv, Seq.finish_generated _ r x⟩

theorem executors_agree {N : Numerics} {h : List (Edge (Cluster N) ClusterCall)} {C : Cluster N}
    (hr : ClusterRunsTo h C) (hk : ∀ e ∈ h, KeepsPromotions e) {q : SequenceId} {x : Seq}
    (hx : C.fabric.seqs.find? q = some x)
    (hown : ∀ q' x', C.fabric.seqs.find? q' = some x' → x'.state.id = x.state.id → q' = q)
    (hlive : x.machine ≠ .cancelled ∧ x.machine ≠ .deadlineExpired ∧ x.machine ≠ .nonRetryableFailure)
    {i : Nat} {p : Peer N} (hp : C.peers.find? i = some p) :
    (p.executor.committedTokens x.state.id).toNat ≤ x.generated.toNat + 1 ∧
    ((p.executor.committedTokens x.state.id).toNat = x.generated.toNat + 1 →
      x.hasInflightGrant = true ∧ ∃ r, p.executor.receiptsByGrant.find? x.inFlightGrant = some r ∧
        C.fabric.receiptVerdict r = .finalize x ∧
        ∃ y, (C.fabric.applyReceipt r).seqs.find? q = some y ∧ y.generated = x.generated + 1) := by
  have hsound := run_sound hr hk
  have htied := hsound.tied i p hp
  unfold committedTokens
  cases hst : p.executor.states.find? x.state.id with
  | none => exact ⟨Nat.zero_le _, fun h0 => absurd h0.symm (Nat.succ_ne_zero _)⟩
  | some st =>
    -- the state is the sequence's own
    obtain ⟨q', x', hx', hstate, hcase⟩ := htied.tokens _ st hst
    obtain rfl : q' = q := hown q' x' hx' hstate
    cases hx.symm.trans hx'
    show st.tokens.toNat ≤ _ ∧ (st.tokens.toNat = _ → _)
    rcases hcase with hle | ⟨heq, hheld, r, hr⟩
    · exact ⟨by omega, fun heq => by omega⟩
    · obtain ⟨hid, rec, hrec, hfit⟩ := htied.receipts _ r hr
      have hnotTerminal : x.machine.isTerminal = false := by
        have hopen := of_decide_eq_true (hsound.coherent.opens _ x hx hheld)
        revert hopen hlive
        cases x.machine <;> simp [SequenceState.isTerminal]
      obtain ⟨hv, hseq⟩ := hsound.coherent.finalizes hx hheld hnotTerminal hid hrec hfit
      obtain ⟨y, hy, hcount⟩ := applyReceipt_counts hv
      exact ⟨by omega, fun _ => ⟨hheld, r, hr, hv, y, hseq ▸ hy, hcount⟩⟩

/-! Two workers, for concrete runs. -/

namespace Sample

def cluster : Cluster numerics := Cluster.init {} 0

theorem clusterRunsTo (as : List Action) : ClusterRunsTo (clusterTrace cluster as) (cluster.actAll as) :=
  ⟨{}, 0, clusterTrace_run _ as⟩

/-- Worker 1 promotes the first step of the sample's sequence; the receipt is on its way. -/
def promoted : List Action :=
  [.hello (worker 1 1), .submit request, .schedule 1, .send, .work 0 took, .receive 0, .work 0 took]

/-- Worker 1 prepares; the sequence is retried on worker 2, which prepares, is granted and promotes; then the
    result of worker 1 comes in. -/
def lateResult : List Action :=
  [.hello (worker 1 1), .hello (worker 2 1), .submit request, .schedule 1, .send, .work 0 took,
    .retry 1, .schedule 2, .send, .work 1 took, .receive 1, .work 1 took, .receive 0]

/-- A step from dispatch to receipt. -/
def step (tn : TimePoint) : List Action :=
  [.schedule tn, .send, .work 0 took, .receive 0, .work 0 took, .receive 0]

/-- After two steps of the sample's sequence another one is submitted with the same state. -/
def sharedState : List Action :=
  [.hello (worker 1 1), .submit request] ++ step 1 ++ step 2 ++ [.submit { request with id := 2, sequence := 2 }]

theorem promoted_keeps : ∀ e ∈ clusterTrace cluster promoted, KeepsPromotions e := by
  intro e he
  simp only [promoted, clusterTrace, mem_cons, not_mem_nil, or_false] at he
  rcases he with rfl | rfl | rfl | rfl | rfl | rfl | rfl
  · trivial
  · trivial
  · trivial
  · trivial
  · trivial
  · intro p pd rest hp hout turn hturn x hx
    cases hp
    obtain ⟨hframe, -⟩ := cons.inj hout
    obtain rfl := ToCoordinator.preparedResult.inj hframe
    obtain rfl := mem_singleton.mp hturn
    cases hx
    rfl
  · trivial

end Sample

theorem executors_agree_promoted :
    ∃ x r, (cluster.actAll promoted).fabric.seqs.find? 1 = some x ∧ x.generated = 0 ∧
      (cluster.actAll promoted).fabric.receiptVerdict r = .finalize x := by
  have hone : ∀ q' x', (cluster.actAll promoted).fabric.seqs.find? q' = some x' → q' = 1 := by
    intro q' x' hx'
    exact mem_singleton.mp (mem_keys_iff.mpr ⟨x', hx'⟩ : q' ∈ [1])
  obtain ⟨-, r, -, hv, -⟩ := (executors_agree (q := 1) (i := 0) (clusterRunsTo promoted)
    promoted_keeps rfl (fun q' x' hx' _ => hone q' x' hx') (by decide) rfl).2 rfl
  exact ⟨_, r, rfl, rfl, hv⟩

/-- A late result takes the grant from a sequence whose step another worker has promoted: that worker stays one
    token ahead and its receipt is refused. And where two sequences share a state, an executor is ahead of
    one of them by what it has done for the other. -/
theorem promotion_disowned : (∃ h, ∃ C : Cluster numerics, ClusterRunsTo h C ∧ C.fabric.seqs.keys = [1] ∧
      ∃ x p, C.fabric.seqs.find? 1 = some x ∧ C.peers.find? 1 = some p ∧ x.machine = .readyForNextToken ∧
        (p.executor.committedTokens x.state.id).toNat = x.generated.toNat + 1 ∧ x.hasInflightGrant = false ∧
        ∃ r, p.executor.receiptsByGrant.find? 1 = some r ∧
          C.fabric.receiptVerdict r = .reject x.req.id "grant_not_inflight") ∧
    (∃ h, ∃ C : Cluster numerics, ClusterRunsTo h C ∧
      ∃ x p, C.fabric.seqs.find? 2 = some x ∧ C.peers.find? 0 = some p ∧ x.machine = .ready ∧
        (p.executor.committedTokens x.state.id).toNat > x.generated.toNat + 1) :=
  ⟨⟨_, _, clusterRunsTo lateResult, rfl, _, _, rfl, rfl, rfl, rfl, rfl, _, rfl, rfl⟩,
   ⟨_, _, clusterRunsTo sharedState, _, _, rfl, rfl, rfl, by decide⟩⟩

end DecodeFabric
