import DecodeFabric.Grants
import DecodeFabric.Recovered
import DecodeFabric.Service
import Mathlib.Data.Fintype.EquivFin

/- Life after a recovery.

   A recovered fabric has nothing in flight and no pending grant, and goes on counting dispatches where the snapshot
   stopped. So whatever it later accepts was dispatched by itself: the authority of the
   crashed coordinator is fenced off (`recovery_fences`).

   The grant counter is not part of a snapshot. A recovered fabric mints grants from 1 again, over the entries it has
   just restored, and the history of a ledger survives only if there was none
   (`recovered_ledger_kept_iff`). -/
namespace DecodeFabric
open Lib Table Fabric Sample DecodeFabric.Seq

/-! The fence. -/

/-- `d` is no dispatch, or one of those numbered from `n` on. -/
def Free (n : Nat) (d : DispatchId) : Prop := d = 0 ∨ n ≤ d

/-- No dispatch below `n` is in flight, and no pending grant is for one. -/
structure Fenced (n : Nat) (s : Fabric) : Prop where
  next : n ≤ s.nextDispatch
  seqs : ∀ q x, s.seqs.find? q = some x → Free n x.inFlightDispatch
  grants : ∀ i rec, s.grantLedger.find? i = some rec → rec.status = .pending → Free n rec.grant.dispatch

/-- A sequence keeps its dispatch, loses it, or is given a new one. -/
theorem SeqOp.dispatch (o : SeqOp) (x : Seq) :
    (o.apply x).inFlightDispatch = x.inFlightDispatch ∨ (o.apply x).inFlightDispatch = 0 ∨
      ∃ d, o = .dispatchUnder d ∧ (o.apply x).inFlightDispatch = d.id := by
  cases o with
  | dispatchUnder d => exact .inr (.inr ⟨d, rfl, rfl⟩)
  | reconcile now => exact .inr (.inl rfl)
  | resolve cfg a now mo => exact .inr (.inl (resolve_same inFlightDispatch (fun _ _ _ _ _ _ _ => rfl) ..))
  | _ => exact .inl rfl

section Fence
variable {n : Nat} {s t : Fabric} {a : Act}

/-- An act does not bring a dispatch below `n` back. -/
def Act.Above (n : Nat) (a : Act) : Prop := ∀ q d, a = .seq q (.dispatchUnder d) → n ≤ d.id

theorem Act.Changes.fenced {q : SequenceId} {x y : Seq} (hc : a.Changes s q x y) (ha : a.Above n)
    (hx : Free n x.inFlightDispatch) : Free n y.inFlightDispatch := by
  cases hc with
  | seq o _ =>
    rcases o.dispatch x with h | h | ⟨d, rfl, h⟩
    · rw [h]
      exact hx
    · exact .inl h
    · rw [h]
      exact .inr (ha q d rfl)
  | issue prepared pm _ _ | abort _ => exact hx
  | finalize r _ _ => exact .inl rfl

theorem Act.Updates.fenced {rec rec' : GrantRecord} (hu : a.Updates rec rec')
    (h : rec.status = .pending → Free n rec.grant.dispatch) (hp : rec'.status = .pending) :
    Free n rec'.grant.dispatch := by
  rw [hu.grant]
  exact h (hu.pending hp)

theorem micro_fenced (hm : Micro s a t) (ha : a.Above n) (h : Fenced n s) : Fenced n t := by
  refine ⟨h.next.trans (hm.nextDispatch_le), ?_, ?_⟩
  · intro q y hy
    rcases hm.seq_before hy with hsame | ⟨x, hx, hc⟩ | ⟨req, -, -, rfl⟩
    · exact h.seqs q y hsame
    · exact hc.fenced ha (h.seqs q x hx)
    · exact .inl rfl
  · intro i rec' hi hp
    rcases hm.entry_before hi with ⟨rec, hrec, hu⟩ | ⟨prepared, pm, rfl, -, rfl⟩
    · exact hu.fenced (h.grants i rec hrec) hp
    · -- a new grant is for the dispatch its sequence is under
      cases hm with
      | issue _ _ hq hv _ _ =>
        show Free n pm.dispatch
        rw [(prepareVerdict_grant hv).dispatch]
        exact h.seqs _ _ hq

theorem micro_issues_free (hm : Micro s a t) (h : Fenced n s) : ∀ g ∈ issuedAt ⟨s, a, t⟩, Free n g.dispatch := by
  intro g hg
  cases hm with
  | issue prepared pm hq hv _ _ =>
    obtain rfl := List.mem_singleton.mp hg
    show Free n pm.dispatch
    rw [(prepareVerdict_grant hv).dispatch]
    exact h.seqs _ _ hq
  | _ => cases hg

theorem micro_finalizes_free (hm : Micro s a t) (h : Fenced n s) :
    ∀ p ∈ finalizedAt ⟨s, a, t⟩, Free n p.2.dispatch := by
  intro p hp
  cases hm with
  | finalize r hv _ _ =>
    obtain rfl := List.mem_singleton.mp hp
    obtain ⟨rec, hrec, hpend, hfit⟩ := (receiptVerdict_finalize hv).grant
    simp only [receiptFitsGrant, decide_eq_true_eq] at hfit
    obtain ⟨-, -, -, -, -, -, -, -, hdispatch, -⟩ := hfit
    show Free n r.dispatch
    rw [hdispatch]
    exact h.grants _ rec hrec hpend
  | _ => cases hp

/-- A tick dispatches under new ids only. -/
theorem schedule_fenced (tn : TimePoint) (h : Fenced n s) : Fenced n (s.schedule tn).1 := by
  obtain ⟨sent, ht⟩ := s.schedule_spec tn
  refine ⟨?_, ?_, ?_⟩
  · rw [ht.count]
    exact h.next.trans (Nat.le_add_right _ _)
  · intro q y hy
    obtain ⟨x, hx, hxy⟩ := ht.seq_before hy
    have hfree := h.seqs q x hx
    cases hxy with
    | polled =>
      obtain ⟨st, res, hshape⟩ := x.polled_shape tn
      rw [hshape]
      exact hfree
    | putBack _ _ => exact hfree
    | sent d hd _ _ => exact .inr (h.next.trans (ht.ids d hd).1)
  · intro i rec hi
    rw [show (s.schedule tn).1.grantLedger = s.grantLedger from congrArg Books.grantLedger ht.books] at hi
    exact h.grants i rec hi

theorem Traced.fenced {A : Act → Prop} {gs : List CommitGrant} {rs : List (Fabric × MemberReceipt)}
    (htr : Traced A s t gs rs) (hA : ∀ a, A a → a.Above n) (h : Fenced n s) :
    Fenced n t ∧ (∀ g ∈ gs, Free n g.dispatch) ∧ ∀ p ∈ rs, Free n p.2.dispatch := by
  obtain ⟨m, hr, hm, rfl, rfl⟩ := htr
  have habove : ∀ e ∈ m, e.label.Above n := by
    intro e he
    rcases hm e he with hnote | hacts
    · intro q d hd
      rw [hnote] at hd
      cases hd
    · exact hA _ hacts
  refine ⟨hr.invariant (fun e hn ha hi => micro_fenced hn ha hi) habove h, ?_, ?_⟩
  · exact hr.outputs (fun e hn ha hi => ⟨micro_fenced hn ha hi, micro_issues_free hn hi⟩) habove h
  · exact hr.outputs (fun e hn ha hi => ⟨micro_fenced hn ha hi, micro_finalizes_free hn hi⟩) habove h

/-- Only a tick dispatches. -/
theorem Call.MayPerform.above {c : Call} (hc : ∀ tn, c ≠ .op (.schedule tn)) (h : c.MayPerform a) : a.Above n := by
  rintro q d rfl
  cases c with
  | tick now | rehash => cases h
  | op o =>
    cases o with
    | schedule tn => exact absurd rfl (hc tn)
    | _ => simp [MayPerform, Op.MayPerform] at h

theorem next_fenced {c : Call} (hn : 0 < n) (hnext : Next s c t) (h : Fenced n s) :
    Fenced n t ∧ (∀ g ∈ issuedBy ⟨s, c, t⟩, Free n g.dispatch) ∧
      ∀ p ∈ finalizations ⟨s, c, t⟩, Free n p.2.dispatch := by
  by_cases hc : ∃ tn, c = .op (.schedule tn)
  · obtain ⟨tn, rfl⟩ := hc
    cases hnext with
    | op _ => exact ⟨schedule_fenced tn h, fun g hg => (by cases hg), fun p hp => (by cases hp)⟩
  · have h0 : s.nextDispatch ≠ 0 := Nat.ne_of_gt (Nat.lt_of_lt_of_le hn h.next)
    exact (next_traced hnext h0).fenced (fun a ha => ha.above fun tn htn => hc ⟨tn, htn⟩) h

theorem run_fenced {h : History} (hn : 0 < n) (hr : Run Next s h t) (hs : Fenced n s) :
    (∀ g ∈ h.flatMap issuedBy, Free n g.dispatch) ∧ ∀ p ∈ h.flatMap finalizations, Free n p.2.dispatch := by
  have hstep : ∀ e : Edge Fabric Call, Next e.pre e.label e.post → Fenced n e.pre →
      Fenced n e.post ∧ (∀ g ∈ issuedBy e, Free n g.dispatch) ∧ ∀ p ∈ finalizations e, Free n p.2.dispatch :=
    fun e hnext hi => next_fenced hn hnext hi
  constructor
  · exact hr.outputs (P := fun _ => True) (fun e hnext _ hi => ⟨(hstep e hnext hi).1, (hstep e hnext hi).2.1⟩)
      (fun _ _ => trivial) hs
  · exact hr.outputs (P := fun _ => True) (fun e hnext _ hi => ⟨(hstep e hnext hi).1, (hstep e hnext hi).2.2⟩)
      (fun _ _ => trivial) hs

end Fence

theorem GrantRecord.recovered_settled (gr : GrantRecord) : gr.recovered.status ≠ .pending := by
  unfold recovered
  cases gr.status <;> simp

/-- A recovered fabric is fenced at the snapshot's dispatch counter. -/
theorem recoveredFrom_fenced (s F : Fabric) : Fenced F.nextDispatch (s.recoveredFrom F) := by
  refine ⟨Nat.le_refl _, ?_, ?_⟩
  · intro q y hy
    change (F.seqs.map recovered).find? q = some y at hy
    rw [find?_map, Option.map_eq_some_iff] at hy
    obtain ⟨x, -, rfl⟩ := hy
    exact .inl rfl
  · intro i rec hi hp
    change (F.grantLedger.map GrantRecord.recovered).find? i = some rec at hi
    rw [find?_map, Option.map_eq_some_iff] at hi
    obtain ⟨gr, -, rfl⟩ := hi
    exact absurd hp gr.recovered_settled

/-- However a run goes on after a recovery, nothing dispatched before the snapshot is granted or finalized. -/
theorem recovery_fences {F G : Fabric} (hF : Reachable F) (hfit : F.Representable) {cfg : Config} {clock : TimePoint}
    (hG : (init cfg clock).recoverState F.serializeState = (G, .ok ())) {h : History} {t : Fabric}
    (hr : Run Next G h t) : (∀ g ∈ h.flatMap issuedBy, ¬ (1 ≤ g.dispatch ∧ g.dispatch < F.nextDispatch)) ∧
      ∀ p ∈ h.flatMap finalizations, ¬ (1 ≤ p.2.dispatch ∧ p.2.dispatch < F.nextDispatch) := by
  obtain rfl := recovered_eq hF hfit hG
  have hfree : ∀ d : DispatchId, Free F.nextDispatch d → ¬ (1 ≤ d ∧ d < F.nextDispatch) := by
    rintro d (rfl | hd) ⟨hpos, hlt⟩
    · exact Nat.not_succ_le_zero 0 hpos
    · exact Nat.not_lt.mpr hd hlt
  obtain ⟨hissued, hfinal⟩ := run_fenced (reachable_nextDispatch hF) hr (recoveredFrom_fenced _ F)
  exact ⟨fun g hg => hfree _ (hissued g hg), fun p hp => hfree _ (hfinal p hp)⟩

namespace Sample

/-- The worker comes back and repeats what it prepared and committed before the crash. -/
def replayed : List Op :=
  [.registerWorker (worker 1 1), .schedule 2, .authorizePrepared prepared,
  .applyCommitReceipt { receipts := [receipt] }]

end Sample

theorem recovery_fences_replayed : ∃ G, (init {} 0).recoverState afterToken.serializeState = (G, .ok ()) ∧
      afterToken.nextDispatch = 2 ∧ (∃ x, (G.execAll replayed).seqs.find? 1 = some x ∧ x.generated = 1) ∧
      ∀ g ∈ (trace G replayed).flatMap issuedBy, ¬ (1 ≤ g.dispatch ∧ g.dispatch < 2) := by
  have hG := reachable_recoverState afterToken_reachable afterToken_representable (by decide)
    (init {} 0)
  refine ⟨_, hG, rfl, ⟨_, rfl, by decide⟩, ?_⟩
  exact (recovery_fences afterToken_reachable afterToken_representable hG (trace_run _ replayed)).1

/-! The grant counter. -/

/-- From `G` on, in every run, the ids on the ledger of `G` are not minted again, a settled entry stays as it is, and
    the receipts counted are the entries consumed. -/
structure LedgerKept (G : Fabric) : Prop where
  fresh : ∀ h t, Run Next G h t → ∀ g ∈ h.flatMap issuedBy, G.grantLedger.find? g.grantId = none
  settled : ∀ h u k t, Run Next G h u → Run Next u k t → ∀ i rec, u.grantLedger.find? i = some rec →
    rec.status ≠ .pending → t.grantLedger.find? i = some rec
  counted : ∀ h t, Run Next G h t → t.receiptCount = t.grantLedger.entries.countP fun e => e.2.status = .consumed

/-- Every id on the ledger has been minted, and every receipt counted is one of its entries. -/
structure LedgerSound (s : Fabric) : Prop where
  minted : ∀ i rec, s.grantLedger.find? i = some rec → i < s.nextGrant
  counted : s.receiptCount = s.consumedCount

section Ledger
variable {s t : Fabric} {a : Act}

theorem micro_minted (hm : Micro s a t) (h : ∀ i rec, s.grantLedger.find? i = some rec → i < s.nextGrant) :
    ∀ i rec, t.grantLedger.find? i = some rec → i < t.nextGrant := by
  intro i rec' hi
  obtain ⟨k, hnext, -⟩ := micro_issued_ids hm
  rcases hm.entry_before hi with ⟨rec, hrec, -⟩ | ⟨prepared, pm, rfl, rfl, -⟩
  · rw [hnext]
    exact Nat.lt_add_right k (h i rec hrec)
  · cases hm with
    | issue _ _ _ _ _ hb =>
      rw [show t.nextGrant = s.nextGrant + 1 from congrArg Books.nextGrant hb]
      exact Nat.lt_succ_self _

theorem micro_receiptCount (hm : Micro s a t) (h : LedgerSound s) : t.receiptCount = t.consumedCount := by
  have same : ∀ b : Books, t.books = b → b.receiptCount = s.receiptCount → t.consumedCount = s.consumedCount →
      t.receiptCount = t.consumedCount := by
    rintro b rfl hr hc
    rw [hc, ← h.counted]
    exact hr
  have ledger : ∀ b : Books, t.books = b → b.grantLedger = s.grantLedger → t.consumedCount = s.consumedCount := by
    rintro b rfl hl
    exact congrArg (fun l : Table GrantId GrantRecord => l.total _) hl
  cases hm with
  | note _ hb | seq _ _ _ _ hb | enrol _ _ _ hb | takeDispatch _ hb | environment _ hb =>
    exact same _ hb rfl (ledger _ hb rfl)
  | abort _ _ _ hb => exact same _ hb rfl (consumedCount_abort (congrArg Books.grantLedger hb))
  | issue prepared pm _ _ _ hb =>
    have hfresh : s.grantLedger.find? s.nextGrant = none := by
      cases hrec : s.grantLedger.find? s.nextGrant with
      | none => rfl
      | some rec => exact absurd (h.minted _ rec hrec) (Nat.lt_irrefl _)
    exact same _ hb rfl (consumedCount_issue hfresh (congrArg Books.grantLedger hb))
  | finalize r hv _ hb =>
    obtain ⟨rec, hrec, hpend, -⟩ := (receiptVerdict_finalize hv).grant
    rw [consumedCount_consume hrec hpend (congrArg Books.grantLedger hb), ← h.counted]
    exact congrArg Books.receiptCount hb

theorem micro_ledgerSound (hm : Micro s a t) (h : LedgerSound s) : LedgerSound t :=
  ⟨micro_minted hm h.minted, micro_receiptCount hm h⟩

/-- Every transition of a run is made of micro steps. -/
theorem run_micro {h : History} {s₀ s : Fabric} (hr : Run Next s₀ h s) (h0 : s₀.nextDispatch ≠ 0) :
    ∃ m, Run Micro s₀ m s ∧ m.flatMap issuedAt = h.flatMap issuedBy := by
  obtain ⟨⟨m, hm, -, hissued, -⟩, -⟩ := run_traced hr h0
  exact ⟨m, hm, hissued⟩

theorem run_ledgerSound {m : List (Edge Fabric Act)} (hr : Run Micro s m t) (h : LedgerSound s) : LedgerSound t :=
  hr.invariant (P := fun _ => True) (fun _ hm _ hi => micro_ledgerSound hm hi) (fun _ _ => trivial) h

theorem run_settled {m : List (Edge Fabric Act)} (hr : Run Micro s m t) (h : LedgerSound s) {i : GrantId}
    {rec : GrantRecord} (hi : s.grantLedger.find? i = some rec) (hset : rec.status ≠ .pending) :
    t.grantLedger.find? i = some rec := by
  have hboth : LedgerSound t ∧ t.grantLedger.find? i = some rec := by
    refine hr.invariant (I := fun u => LedgerSound u ∧ u.grantLedger.find? i = some rec) (P := fun _ => True) ?_
      (fun _ _ => trivial) ⟨h, hi⟩
    rintro e hm - ⟨hsound, hrec⟩
    obtain ⟨rec', hrec', hbecomes⟩ := entry_becomes hm hrec (Nat.ne_of_lt (hsound.minted i rec hrec))
    rw [hbecomes.settled hset] at hrec'
    exact ⟨micro_ledgerSound hm hsound, hrec'⟩
  exact hboth.2

/-- Where every id on the ledger has been minted, the ledger is kept from there on. -/
theorem LedgerSound.kept {G : Fabric} (h : LedgerSound G) (h0 : G.nextDispatch ≠ 0) : LedgerKept G := by
  refine ⟨?_, ?_, ?_⟩
  · intro k t hr g hg
    obtain ⟨m, hm, hissued⟩ := run_micro hr h0
    obtain ⟨n, -, hids⟩ := run_issued_ids hm
    have hmem : g.grantId ∈ List.range' G.nextGrant n := by
      rw [← hids, hissued]
      exact List.mem_map_of_mem hg
    cases hrec : G.grantLedger.find? g.grantId with
    | none => rfl
    | some rec =>
      exact absurd (h.minted _ rec hrec) (Nat.not_lt.mpr (List.mem_range'_1.mp hmem).1)
  · intro k u k' t hr hr' i rec hi hset
    obtain ⟨m, hm, -⟩ := run_micro hr h0
    obtain ⟨m', hm', -⟩ := run_micro hr' (run_traced hr h0).2
    exact run_settled hm' (run_ledgerSound hm h) hi hset
  · intro k t hr
    obtain ⟨m, hm, -⟩ := run_micro hr h0
    rw [← t.consumedCount_eq]
    exact (run_ledgerSound hm h).counted

/-- Grants are numbered from 1: as long as there is no entry 1 there is none. -/
theorem micro_firstGrant (hm : Micro s a t)
    (h : (s.nextGrant = 1 ∧ s.grantLedger.entries = []) ∨ ∃ rec, s.grantLedger.find? 1 = some rec) :
    (t.nextGrant = 1 ∧ t.grantLedger.entries = []) ∨ ∃ rec, t.grantLedger.find? 1 = some rec := by
  -- the ledger is as it was, but for a change of one entry
  have same : ∀ (b : Books) (i : GrantId) (f : GrantRecord → GrantRecord), t.books = b →
      b.nextGrant = s.nextGrant → b.grantLedger = s.grantLedger.modify i f →
      (t.nextGrant = 1 ∧ t.grantLedger.entries = []) ∨ ∃ rec, t.grantLedger.find? 1 = some rec := by
    rintro b i f rfl hnext hled
    change t.nextGrant = s.nextGrant at hnext
    change t.grantLedger = s.grantLedger.modify i f at hled
    rw [hnext, hled]
    rcases h with ⟨hfirst, hnone⟩ | ⟨rec, hrec⟩
    · exact .inl ⟨hfirst, by simp [Table.modify, hnone]⟩
    · right
      rw [find?_modify, hrec]
      split
      · exact ⟨f rec, rfl⟩
      · exact ⟨rec, rfl⟩
  have hid := (s.grantLedger.modify_id 0).symm
  cases hm with
  | note _ hb | seq _ _ _ _ hb | enrol _ _ _ hb | takeDispatch _ hb | environment _ hb => exact same _ 0 id hb rfl hid
  | finalize r _ _ hb | abort _ _ _ hb => exact same _ _ _ hb rfl rfl
  | issue prepared pm _ _ _ hb =>
    right
    rw [show t.grantLedger = _ from congrArg Books.grantLedger hb]
    change ∃ rec, (s.grantLedger.insert s.nextGrant _).find? 1 = some rec
    rw [find?_insert]
    split
    · exact ⟨_, rfl⟩
    · next hne =>
      rcases h with ⟨hfirst, -⟩ | hrec
      · exact absurd hfirst.symm hne
      · exact hrec

theorem reachable_firstGrant {F : Fabric} (hF : Reachable F) (h : F.grantLedger.entries ≠ []) :
    ∃ rec, F.grantLedger.find? 1 = some rec :=
  (reachable_invariant (fun _ _ => .inl ⟨rfl, rfl⟩) (fun hm hi => micro_firstGrant hm hi) hF).resolve_left
    fun hnone => h hnone.2

end Ledger

/-! A grant after a recovery. -/

section Reissue
variable (F : Fabric) (q : SequenceId)

/-- A request for a sequence that is not there. -/
def lateRequest : DecodeRequest := { request with sequence := q }

/-- A step of the new sequence. Nothing was dispatched, and dispatch 0 is what the fabric compares with. -/
def lateMember : PreparedMember := { sequence := q, attempt := 1, epoch := F.epoch }

def lateOps : List Op :=
  [.registerWorker (worker 1 1), .submit (lateRequest q), .authorizePrepared { members := [lateMember F q] }]

variable {F q}

/-- With a worker back, the new sequence is taken in and granted a step under id 1. -/
theorem late_issue (hq0 : q ≠ 0) (hq : F.seqs.find? q = none) :
    ∃ g ∈ (trace ((init {} 0).recoveredFrom F) (lateOps F q)).flatMap issuedBy, g.grantId = 1 := by
  let s₁ := ((init {} 0).recoveredFrom F).exec (.registerWorker (worker 1 1))
  let s₂ := s₁.exec (.submit (lateRequest q))
  have hvalid : (lateRequest q).validate = .ok () := by
    simp [DecodeRequest.validate, DecodeRequest.validRequestId, lateRequest, request, hq0]
    decide
  have habsent : s₁.seqs.find? q = none := by
    change (F.seqs.map recovered).find? q = none
    rw [find?_map, hq]
    rfl
  have hsubmit : s₂ = (s₁.enrol (s₁.buildKey (lateRequest q)) q).1 := by
    show (s₁.submit (lateRequest q)).1 = _
    unfold submit
    rw [hvalid]
    have hseq : (s₁.buildKey (lateRequest q)).sequence = q := rfl
    have hmodel : (s₁.buildKey (lateRequest q)).model = 1 := rfl
    have hload : s₁.backpressure (s₁.buildKey (lateRequest q)) = none := rfl
    simp only [hmodel, hload, hseq, habsent]
    simp [hq0]
  have hfound : s₂.seqs.find? q = some (ofRequest (s₁.buildKey (lateRequest q))) := by
    rw [hsubmit]
    show (if (s₁.seqs.find? q).isSome then s₁.seqs else s₁.seqs.insert q _).find? q = _
    rw [habsent]
    exact find?_insert_self _ _ _
  have hbooks : s₂.books = s₁.books := by
    rw [hsubmit]
    rfl
  have hverdict : s₂.prepareVerdict (ofRequest (s₁.buildKey (lateRequest q))) (lateMember F q) = .grant :=
    prepareVerdict_grant_iff.mpr
      { epoch := (congrArg Books.epoch hbooks).symm
        boot := by
          unfold bootMoved
          rw [show s₂.workerCurrentBoot = s₁.workerCurrentBoot from congrArg Books.workerCurrentBoot hbooks]
          rfl
        attempt := rfl
        generation := rfl
        dispatch := rfl
        live := rfl
        notCancelling := fun hreq => by cases hreq
        eligible := rfl
        fresh := fun h => absurd h.1 Bool.false_ne_true
        noGrant := rfl
        position := rfl
        digest := fun h => absurd h Bool.false_ne_true }
  have hturn : issuedTurn { members := [lateMember F q] } (s₂, lateMember F q) =
      [makeGrant s₂.nextGrant { members := [lateMember F q] } (lateMember F q)] := by
    have hmember : s₂.seqs.find? (lateMember F q).sequence = _ := hfound
    simp only [issuedTurn, authorizeMember, hmember, hverdict, if_true]
  have hlast : issuedBy ⟨s₂, .op (.authorizePrepared { members := [lateMember F q] }),
      (s₂.authorizePrepared { members := [lateMember F q] }).1⟩ =
      [makeGrant s₂.nextGrant { members := [lateMember F q] } (lateMember F q)] := by
    rw [authorizePrepared_issued]
    simp only [turns, List.flatMap_singleton, hturn]
  refine ⟨makeGrant s₂.nextGrant { members := [lateMember F q] } (lateMember F q), ?_,
    congrArg Books.nextGrant hbooks⟩
  refine List.mem_flatMap.mpr ⟨_, List.mem_cons_of_mem _ (List.mem_cons_of_mem _ List.mem_cons_self), ?_⟩
  exact hlast.symm ▸ List.mem_singleton.mpr rfl

end Reissue

theorem recoveredFrom_ledgerSound {F : Fabric} (hF : Reachable F) (h : F.grantLedger.entries = []) (s : Fabric) :
    LedgerSound (s.recoveredFrom F) := by
  have hempty : F.grantLedger = .empty := ext_entries h
  refine ⟨?_, ?_⟩
  · intro i rec hi
    change (F.grantLedger.map GrantRecord.recovered).find? i = some rec at hi
    rw [hempty] at hi
    cases hi
  · have hconserved := reachable_conserved hF
    show F.receiptCount = (F.grantLedger.map GrantRecord.recovered).total _
    rw [hconserved.receipts, ← hconserved.consumed]
    unfold consumedCount
    rw [hempty]
    rfl

/-- The ledger of a recoverable fabric is kept in every run after the recovery if and only if it was empty. -/
theorem recovered_ledger_kept_iff {F : Fabric} (hF : Reachable F) (hfit : F.Representable)
    (hmax : F.grantLedger.entries.length ≤ 2 ^ 22) :
    (∀ cfg clock G, (init cfg clock).recoverState F.serializeState = (G, .ok ()) → LedgerKept G) ↔
      F.grantLedger.entries = [] := by
  constructor
  · intro hkept
    by_contra hne
    obtain ⟨rec, hrec⟩ := reachable_firstGrant hF hne
    have hG := hkept {} 0 _ (reachable_recoverState hF hfit hmax (init {} 0))
    obtain ⟨q, hq⟩ := Infinite.exists_notMem_finset (insert 0 F.seqs.keys.toFinset)
    simp only [Finset.mem_insert, List.mem_toFinset, not_or] at hq
    obtain ⟨g, hg, hid⟩ := late_issue (F := F) hq.1 (find?_eq_none_iff.mpr hq.2)
    have hnone := hG.fresh _ _ (trace_run _ _) g hg
    rw [hid] at hnone
    change (F.grantLedger.map GrantRecord.recovered).find? 1 = none at hnone
    rw [find?_map, hrec] at hnone
    cases hnone
  · intro hempty cfg clock G hG
    obtain rfl := recovered_eq hF hfit hG
    have h0 : F.nextDispatch ≠ 0 := Nat.ne_of_gt (reachable_nextDispatch hF)
    exact (recoveredFrom_ledgerSound hF hempty _).kept h0

namespace Sample

/-- A dispatched step that nothing was granted for yet. -/
def afterDispatch : Fabric := start.execAll dispatched

/-- After a recovery the sequence's second step is dispatched and prepared. -/
def secondGrant : List Op :=
  [.registerWorker (worker 1 1), .schedule 2,
   .authorizePrepared { members := [{ member with
     generation := 2, dispatch := 2, preStateDigest := 11, committedPositionBefore := 1 }] }]

end Sample

theorem recovered_ledger_kept_afterDispatch :
    ∃ G, (init {} 0).recoverState afterDispatch.serializeState = (G, .ok ()) ∧ LedgerKept G := by
  have hreach : Reachable afterDispatch := ⟨_, runsTo dispatched⟩
  have hfit : afterDispatch.Representable := ⟨by decide, by decide, by decide, by decide, by decide⟩
  have hrec := reachable_recoverState hreach hfit (by decide) (init {} 0)
  exact ⟨_, hrec, (recovered_ledger_kept_iff hreach hfit (by decide)).mpr rfl {} 0 _ hrec⟩

/-- Recovered after its first token, a sequence is granted its second step under the id of the first: the consumed
    entry and its receipt are overwritten, and one receipt is counted where no grant is consumed. -/
theorem recovered_ledger_overwritten :
    ∃ G rec rec', (init {} 0).recoverState afterToken.serializeState = (G, .ok ()) ∧
      G.grantLedger.find? 1 = some rec ∧ rec.status = .consumed ∧ rec.hasReceipt = true ∧
      (G.execAll secondGrant).grantLedger.find? 1 = some rec' ∧ rec'.status = .pending ∧
      rec'.hasReceipt = false ∧ (G.execAll secondGrant).receiptCount = 1 ∧
      ((G.execAll secondGrant).grantLedger.entries.countP fun e => e.2.status = .consumed) = 0 := by
  refine ⟨_, _, _, reachable_recoverState afterToken_reachable afterToken_representable (by decide) _,
    rfl, rfl, rfl, rfl, rfl, rfl, rfl, ?_⟩
  decide

end DecodeFabric
