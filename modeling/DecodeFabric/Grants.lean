import DecodeFabric.History
import DecodeFabric.Ledger

/- The life of a grant.

   A grant is entered pending under a new id, and its entry changes at most once more: it is
   consumed by the receipt that finalizes it, or aborted. A sequence that says it holds a grant
   does hold a pending entry made out to it. Runs are followed in micro steps, with the ids
   issued so far counted up from 1 and the ids finalized so far all consumed. -/
namespace DecodeFabric
open Lib List Sample
variable {a : Act} {i : GrantId} {rec : GrantRecord} {m : List (Edge Fabric Act)} {r : MemberReceipt}

/-! One ledger entry along a run. -/

/-- `r'` is `r` later on: the same grant, changed only by leaving Pending. -/
def GrantRecord.Becomes (r r' : GrantRecord) : Prop :=
  r'.grant = r.grant ∧ (r' = r ∨ r.status = .pending ∧ r'.status ≠ .pending)

namespace GrantRecord.Becomes

theorem refl (r : GrantRecord) : r.Becomes r := ⟨rfl, .inl rfl⟩

theorem trans {r₁ r₂ r₃ : GrantRecord} (h₁ : r₁.Becomes r₂) (h₂ : r₂.Becomes r₃) : r₁.Becomes r₃ := by
  refine ⟨h₂.1.trans h₁.1, ?_⟩
  rcases h₁.2 with rfl | ⟨hp, hn⟩
  · exact h₂.2
  · rcases h₂.2 with rfl | ⟨hp', -⟩
    · exact .inr ⟨hp, hn⟩
    · exact absurd hp' hn

/-- Once settled, an entry is never touched again. -/
theorem settled {r r' : GrantRecord} (h : r.Becomes r') (hr : r.status ≠ .pending) : r' = r := by
  rcases h.2 with heq | ⟨hp, -⟩
  · exact heq
  · exact absurd hp hr

end GrantRecord.Becomes

theorem consume_becomes (r : MemberReceipt) (hp : rec.status = .pending) :
    rec.Becomes (rec.consume r) := ⟨rfl, .inr ⟨hp, by simp [GrantRecord.consume]⟩⟩

theorem abort_becomes (rec : GrantRecord) : rec.Becomes rec.abort := by
  unfold GrantRecord.abort
  split
  · next hp => exact ⟨rfl, .inr ⟨hp, by simp⟩⟩
  · exact GrantRecord.Becomes.refl rec

section Ledger
variable {s t : Fabric} {c : Chains}

/-- An entry changes by leaving Pending, unless its id is minted again. -/
theorem entry_becomes (hm : Micro s a t) (hi : s.grantLedger.find? i = some rec) (hne : i ≠ s.nextGrant) :
    ∃ rec', t.grantLedger.find? i = some rec' ∧ rec.Becomes rec' := by
  obtain ⟨rec', hrec', hup⟩ := hm.entry_after hi hne
  refine ⟨rec', hrec', ?_⟩
  cases hup with
  | kept => exact .refl rec
  | consume r _ hpend => exact consume_becomes r hpend
  | abort => exact abort_becomes rec

theorem micro_record (h : Linked False s c) (hm : Micro s a t)
    (hi : s.grantLedger.find? i = some rec) : ∃ rec', t.grantLedger.find? i = some rec' ∧ rec.Becomes rec' :=
  entry_becomes hm hi (Nat.ne_of_lt (h.grant_bounded hi))

/-- What every micro step keeps about the chains. -/
theorem micro_linked_any (hm : Micro s a t) (h : ∃ c, Linked False s c) : ∃ c, Linked False t c :=
  micro_linked_some hm h False.elim

theorem run_linked (hr : Run Micro s m t) (h : ∃ c, Linked False s c) : ∃ c, Linked False t c :=
  hr.invariant (I := fun u => ∃ c, Linked False u c) (P := fun _ => True)
    (fun _ hm _ hi => micro_linked_any hm hi) (fun _ _ => trivial) h

theorem run_record (hr : Run Micro s m t) (h : ∃ c, Linked False s c) (hi : s.grantLedger.find? i = some rec) :
    ∃ rec', t.grantLedger.find? i = some rec' ∧ rec.Becomes rec' := by
  induction hr with
  | nil => exact ⟨rec, hi, .refl rec⟩
  | snoc hr hm ih =>
    obtain ⟨rec₁, h₁, hb₁⟩ := ih
    obtain ⟨c, hc⟩ := run_linked hr h
    obtain ⟨rec₂, h₂, hb₂⟩ := micro_record hc hm h₁
    exact ⟨rec₂, h₂, hb₁.trans hb₂⟩

/-! The ids along a run. -/

theorem micro_issued_ids (hm : Micro s a t) : ∃ k, t.nextGrant = s.nextGrant + k ∧
      (issuedAt ⟨s, a, t⟩).map CommitGrant.grantId = range' s.nextGrant k := by
  cases hm with
  | issue prepared pm _ _ _ hb => exact ⟨1, congrArg Books.nextGrant hb, rfl⟩
  | note _ hb | seq _ _ _ _ hb | enrol _ _ _ hb | takeDispatch _ hb | finalize _ _ _ hb | abort _ _ _ hb
  | environment _ hb => exact ⟨0, congrArg Books.nextGrant hb, rfl⟩

/-- The ids issued along a run are counted up from the first free one. -/
theorem run_issued_ids (hr : Run Micro s m t) : ∃ k, t.nextGrant = s.nextGrant + k ∧
      (m.flatMap issuedAt).map CommitGrant.grantId = range' s.nextGrant k := by
  induction hr with
  | nil => exact ⟨0, rfl, rfl⟩
  | snoc _ hm ih =>
    obtain ⟨k₁, hn₁, hi₁⟩ := ih
    obtain ⟨k₂, hn₂, hi₂⟩ := micro_issued_ids hm
    refine ⟨k₁ + k₂, by rw [hn₂, hn₁, Nat.add_assoc], ?_⟩
    rw [flatMap_append, map_append, hi₁, flatMap_singleton, hi₂, hn₁]
    exact range'_append_1

/-- The ledger has `r` as the receipt that consumed its grant. -/
def Fabric.HasReceipt (s : Fabric) (r : MemberReceipt) : Prop :=
  ∃ rec, s.grantLedger.find? r.grantId = some rec ∧ rec.status = .consumed ∧ rec.hasReceipt = true ∧ rec.receipt = r

/-- A finalized receipt finds its grant pending and is recorded. -/
theorem finalize_record (hm : Micro s (.finalize r) t) :
    (∃ rec, s.grantLedger.find? r.grantId = some rec ∧ rec.status = .pending) ∧ t.HasReceipt r := by
  cases hm with
  | finalize _ hv _ hb =>
    obtain ⟨rec, hrec, hpend, -⟩ := (Fabric.receiptVerdict_finalize hv).grant
    have hled : t.grantLedger = _ := congrArg Books.grantLedger hb
    refine ⟨⟨rec, hrec, hpend⟩, rec.consume r, ?_, rfl, rfl, rfl⟩
    rw [hled, Table.find?_modify_self, hrec]
    rfl

/-- A recorded receipt stays recorded: its entry is settled. -/
theorem run_hasReceipt (hr : Run Micro s m t) (h : ∃ c, Linked False s c) (hs : s.HasReceipt r) : t.HasReceipt r := by
  obtain ⟨rec, hrec, hst, hrest⟩ := hs
  obtain ⟨rec', hrec', hb⟩ := run_record hr h hrec
  rw [hb.settled (by rw [hst]; simp)] at hrec'
  exact ⟨rec, hrec', hst, hrest⟩

/-- What was finalized along a run is recorded at its end. -/
theorem run_finalized_hasReceipt (hr : Run Micro s m t) (h : ∃ c, Linked False s c) :
    ∀ p ∈ m.flatMap finalizedAt, t.HasReceipt p.2 := by
  induction hr with
  | nil => simp
  | @snoc t u m a hr hm ih =>
    intro p hp
    rw [flatMap_append, flatMap_singleton, mem_append] at hp
    rcases hp with hp | hp
    · exact run_hasReceipt (Run.single hm) (run_linked hr h) (ih p hp)
    · by_cases hfin : ∃ r, a = .finalize r
      · obtain ⟨r, rfl⟩ := hfin
        rw [mem_singleton.mp hp]
        exact (finalize_record hm).2
      · rw [finalizedAt_eq_nil fun r hr => hfin ⟨r, hr⟩] at hp
        exact absurd hp not_mem_nil

/-- No grant is finalized twice along a run. -/
theorem run_finalized_ids (hr : Run Micro s m t) (h : ∃ c, Linked False s c) :
    ((m.flatMap finalizedAt).map fun p => p.2.grantId).Nodup := by
  induction hr with
  | nil => simp
  | @snoc t u m a hr hm ih =>
    rw [flatMap_append, map_append, flatMap_singleton]
    by_cases hfin : ∃ r, a = .finalize r
    · obtain ⟨r, rfl⟩ := hfin
      refine nodup_append'.mpr ⟨ih, nodup_singleton _, ?_⟩
      intro i hi hi'
      -- the grant is pending when it is finalized, so it was not consumed before
      obtain ⟨⟨rec, hrec, hpend⟩, -⟩ := finalize_record hm
      obtain ⟨p, hp, hpi⟩ := mem_map.mp hi
      obtain ⟨rec', hrec', hst, -⟩ := run_finalized_hasReceipt hr h p hp
      rw [hpi, mem_singleton.mp hi', hrec] at hrec'
      cases hrec'
      rw [hpend] at hst
      cases hst
    · have hnil : finalizedAt ⟨t, a, u⟩ = [] := finalizedAt_eq_nil fun r hr => hfin ⟨r, hr⟩
      rw [hnil, map_nil, append_nil]
      exact ih

/-! Receipts. -/

/-- The receipt flag says whether the grant is consumed. -/
def Fabric.ReceiptsFlagged (s : Fabric) : Prop :=
  ∀ i rec, s.grantLedger.find? i = some rec → (rec.hasReceipt = true ↔ rec.status = .consumed)

theorem abort_flagged (h : rec.hasReceipt = true ↔ rec.status = .consumed) :
    rec.abort.hasReceipt = true ↔ rec.abort.status = .consumed := by
  unfold GrantRecord.abort
  split
  · next hp =>
    rw [hp] at h
    simpa using h
  · exact h

theorem micro_flagged (hm : Micro s a t) (h : s.ReceiptsFlagged) : t.ReceiptsFlagged := by
  intro i rec' hrec'
  rcases hm.entry_before hrec' with ⟨rec, hrec, hup⟩ | ⟨prepared, pm, -, -, rfl⟩
  · have hflag := h i rec hrec
    cases hup with
    | kept => exact hflag
    | consume r _ _ => simp [GrantRecord.consume]
    | abort => exact abort_flagged hflag
  · simp

end Ledger

/-! The whole life. -/

theorem grant_lifecycle {h : History} {s : Fabric} (hr : RunsTo h s) :
    -- issued ids are new
    ((h.flatMap issuedBy).map CommitGrant.grantId).Nodup ∧
    (∀ e ∈ h, ∀ g ∈ issuedBy e, e.pre.grantLedger.find? g.grantId = none) ∧
    -- an entry only ever leaves Pending
    (∀ e ∈ h, ∀ i rec, e.pre.grantLedger.find? i = some rec →
      ∃ rec', e.post.grantLedger.find? i = some rec' ∧ rec'.grant = rec.grant ∧
        (rec'.status = rec.status ∨ rec.status = .pending)) ∧
    s.ReceiptsFlagged ∧
    -- what a sequence holds
    (∀ q x, s.seqs.find? q = some x → x.hasInflightGrant = true →
      ∃ rec, s.grantLedger.find? x.inFlightGrant = some rec ∧ rec.status = .pending ∧ rec.grant.sequence = q) ∧
    (∀ q x q' x', s.seqs.find? q = some x → s.seqs.find? q' = some x' →
      x.hasInflightGrant = true → x'.hasInflightGrant = true → x.inFlightGrant = x'.inFlightGrant → q = q') ∧
    ((h.flatMap finalizations).map fun p => p.2.grantId).Nodup := by
  obtain ⟨cfg, clock, m, hm, -, hissued, hfinal⟩ := hr.traced
  have h0 : ∃ c, Linked False (Fabric.init cfg clock) c := ⟨_, Linked.init False cfg clock⟩
  obtain ⟨c, hc⟩ := reachable_linked ⟨h, hr⟩
  have hheld : ∀ q x, s.seqs.find? q = some x → x.hasInflightGrant = true →
      ∃ rec, s.grantLedger.find? x.inFlightGrant = some rec ∧ rec.status = .pending ∧ rec.grant.sequence = q := by
    intro q x hq hh
    obtain ⟨rec, hrec, hpend, hown, -⟩ := hc.held_entry hq hh
    exact ⟨rec, hrec, hpend, hown⟩
  refine ⟨?_, ?_, ?_, ?_, hheld, ?_, ?_⟩
  · obtain ⟨k, -, hids⟩ := run_issued_ids hm
    rw [← hissued, hids]
    exact nodup_range'
  · intro e he g hg
    obtain ⟨hpre, m', hm', -, hissued', -⟩ := hr.edge he
    obtain ⟨k, -, hids⟩ := run_issued_ids hm'
    have hmem : g.grantId ∈ range' e.pre.nextGrant k := by
      rw [← hids, hissued']
      exact mem_map_of_mem hg
    obtain ⟨c', hc'⟩ := reachable_linked hpre
    -- the ledger only knows ids below the counter
    cases hrec : e.pre.grantLedger.find? g.grantId with
    | none => rfl
    | some rec =>
      have hlt := hc'.grant_bounded hrec
      have hge := (mem_range'_1.mp hmem).1
      exact absurd hlt (Nat.not_lt.mpr hge)
  · intro e he i rec hrec
    obtain ⟨hpre, m', hm', -⟩ := hr.edge he
    obtain ⟨rec', hrec', hgrant, hst⟩ := run_record hm' (reachable_linked hpre) hrec
    refine ⟨rec', hrec', hgrant, ?_⟩
    rcases hst with rfl | ⟨hp, -⟩
    · exact .inl rfl
    · exact .inr hp
  · refine reachable_invariant (I := Fabric.ReceiptsFlagged) ?_ (fun hm h => micro_flagged hm h) ⟨h, hr⟩
    intro cfg clock i rec hrec
    simp [Fabric.init] at hrec
  · intro q x q' x' hq hq' hh hh' heq
    obtain ⟨rec, hrec, -, rfl⟩ := hheld q x hq hh
    obtain ⟨rec', hrec', -, rfl⟩ := hheld q' x' hq' hh'
    rw [heq, hrec'] at hrec
    cases hrec
    rfl
  · rw [← hfinal]
    exact run_finalized_ids hm h0

theorem grant_lifecycle_committed :
    ((trace start committed).flatMap finalizations).map (fun p => p.2.grantId) = [1] ∧
    (start.execAll committed).ReceiptsFlagged :=
  ⟨by decide, (grant_lifecycle (runsTo committed)).2.2.2.1⟩

end DecodeFabric
