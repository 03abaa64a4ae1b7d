import DecodeFabric.Ledger

/- Conservation of token service.

   The fabric counts a token in five places: the receipt counter, two statistics, the ledger and
   the tenant's tokens. All of them, and the generations of the sequences, move together in the one
   micro step that finalizes a receipt, and nothing else moves any of them. -/
namespace DecodeFabric
open Lib Table Fabric Sample UInt64
variable {i : GrantId} {r : MemberReceipt} {x : Seq} {f : Seq → Seq} {q : SequenceId}

/-- The tokens served to the requests `w` selects, by the generations of their sequences. -/
def Fabric.served (s : Fabric) (w : DecodeRequest → Bool) : Nat :=
  s.seqs.total fun _ x => if w x.req then x.generation - 1 else 0

def Fabric.consumedCount (s : Fabric) : Nat :=
  s.grantLedger.total fun _ rec => if rec.status = .consumed then 1 else 0

/-- The tokens counted for tenant `t`. -/
def Fabric.tokensOf (s : Fabric) (t : TenantId) : UInt64 := s.tenantTokens.getD t 0

structure Fabric.Conserved (s : Fabric) : Prop where
  receipts : s.receiptCount = s.served fun _ => true
  steps : s.stats.decodeSteps = s.served fun _ => true
  tokens : s.stats.generatedTokens = s.served fun _ => true
  consumed : s.consumedCount = s.served fun _ => true
  tenant : ∀ t, (s.tokensOf t).toNat = min (s.served fun req => req.tenant = t) (size - 1)

/-! What a step does to the sums. -/

section Sums
variable {s t : Fabric}

/-- A change of one sequence that keeps request and generation. -/
theorem served_modify_same (hq : s.seqs.find? q = some x)
    (hs : t.seqs = s.seqs.modify q f) (hreq : (f x).req = x.req) (hgen : (f x).generation = x.generation)
    (w : DecodeRequest → Bool) : t.served w = s.served w := by
  unfold served
  rw [hs]
  apply total_modify_same
  intro v hv
  rw [hq] at hv
  cases hv
  rw [hreq, hgen]

/-- One sequence advances by one generation. -/
theorem served_modify_succ {n : Nat} (hq : s.seqs.find? q = some x)
    (hs : t.seqs = s.seqs.modify q f) (hreq : (f x).req = x.req) (hn : x.generation = n + 1)
    (hgen : (f x).generation = x.generation + 1) (w : DecodeRequest → Bool) :
    t.served w = s.served w + if w x.req then 1 else 0 := by
  have htotal := total_modify hq f fun _ (x : Seq) => if w x.req then x.generation - 1 else 0
  rw [hreq, hgen, hn, Nat.add_sub_cancel, Nat.add_sub_cancel, ← hs] at htotal
  unfold served
  cases hw : w x.req with
  | false =>
    simp only [hw, Bool.false_eq_true, if_false, Nat.add_zero] at htotal ⊢
    exact htotal
  | true =>
    simp only [hw, if_true] at htotal ⊢
    omega

theorem served_enrol {req : DecodeRequest} (hq : s.seqs.find? q = none)
    (hs : t.seqs = s.seqs.insert q (Seq.ofRequest req)) (w : DecodeRequest → Bool) : t.served w = s.served w := by
  unfold served
  rw [hs, total_insert_new hq]
  simp [Seq.ofRequest]

theorem served_reorder (hs : t.seqs.Reorder s.seqs) (w : DecodeRequest → Bool) : t.served w = s.served w :=
  total_reorder hs _

theorem addSaturating_one (v : UInt64) : (addSaturating v 1).toNat = min (v.toNat + 1) (size - 1) := by
  have hv := v.toNat_lt_size
  unfold addSaturating
  split
  · next h =>
    have h' : 0xFFFFFFFFFFFFFFFE < v.toNat := by simpa [lt_iff_toNat_lt] using h
    change 0xFFFFFFFFFFFFFFFF = min (v.toNat + 1) 0xFFFFFFFFFFFFFFFF
    omega
  · next h =>
    have h' : v.toNat ≤ 0xFFFFFFFFFFFFFFFE := by simpa [lt_iff_toNat_lt] using h
    rw [UInt64.toNat_add]
    change (v.toNat + 1) % 0x10000000000000000 = min (v.toNat + 1) 0xFFFFFFFFFFFFFFFF
    omega

/-- One more token for tenant `u`, up to saturation. -/
theorem tokensOf_update (s : Fabric) (u t : TenantId) : ((s.updateTenantTokens u 1).tokensOf t).toNat =
      if t = u then min ((s.tokensOf t).toNat + 1) (size - 1) else (s.tokensOf t).toNat := by
  unfold updateTenantTokens tokensOf getD
  by_cases ht : t = u
  · subst ht
    cases hf : s.tenantTokens.find? t with
    | none => simp [find?_insert_self, size]
    | some v => simp [find?_insert_self, addSaturating_one]
  · cases hf : s.tenantTokens.find? u with
    | none | some v => simp [find?_insert_ne ht, ht]

theorem Fabric.consumedCount_eq (s : Fabric) :
    s.consumedCount = s.grantLedger.entries.countP fun e => e.2.status = .consumed := by
  unfold consumedCount total
  induction s.grantLedger.entries with
  | nil => rfl
  | cons e l ih =>
    rw [List.map_cons, List.sum_cons, List.countP_cons, ih]
    simp only [decide_eq_true_eq]
    omega

theorem consumedCount_issue {g : CommitGrant} (hi : s.grantLedger.find? i = none)
    (hled : t.grantLedger = s.grantLedger.insert i { grant := g }) : t.consumedCount = s.consumedCount := by
  unfold consumedCount
  rw [hled, total_insert_new hi]
  simp

theorem consumedCount_consume {rec : GrantRecord} (hi : s.grantLedger.find? i = some rec) (hp : rec.status = .pending)
    (hled : t.grantLedger = s.grantLedger.modify i (GrantRecord.consume r)) :
    t.consumedCount = s.consumedCount + 1 := by
  have htotal := total_modify hi (GrantRecord.consume r)
    fun _ (rec : GrantRecord) => if rec.status = .consumed then 1 else 0
  rw [← hled] at htotal
  simp only [hp, GrantRecord.consume, if_true, reduceCtorEq, if_false, Nat.add_zero] at htotal
  exact htotal

theorem consumedCount_abort (hled : t.grantLedger = s.grantLedger.modify i GrantRecord.abort) :
    t.consumedCount = s.consumedCount := by
  unfold consumedCount
  rw [hled]
  apply total_modify_same
  intro rec _
  unfold GrantRecord.abort
  split
  · next hp => simp [hp]
  · rfl

/-! The step lemma and the run. -/

/-- Nothing that is counted has moved. -/
theorem Fabric.Conserved.of_same (h : s.Conserved) (hserved : ∀ w, t.served w = s.served w)
    (hcount : t.consumedCount = s.consumedCount) (hreceipts : t.receiptCount = s.receiptCount)
    (hsteps : t.stats.decodeSteps = s.stats.decodeSteps)
    (htokens : t.stats.generatedTokens = s.stats.generatedTokens) (htenants : t.tenantTokens = s.tenantTokens) :
    t.Conserved := by
  refine ⟨?_, ?_, ?_, ?_, fun u => ?_⟩
  · rw [hserved, hreceipts, h.receipts]
  · rw [hserved, hsteps, h.steps]
  · rw [hserved, htokens, h.tokens]
  · rw [hserved, hcount, h.consumed]
  · rw [hserved, ← h.tenant u]
    unfold tokensOf
    rw [htenants]

theorem Fabric.Conserved.finalize {c : Chains} (h : s.Conserved)
    (hlink : Linked False s c) (hv : s.receiptVerdict r = .finalize x)
    (hs : t.seqs = s.seqs.modify r.sequence (Seq.finish (s.finishTime r) r)) (hb : t.books = { s.books with
      grantLedger := s.grantLedger.modify r.grantId (GrantRecord.consume r)
      receiptCount := s.receiptCount + 1
      tenantTokens := (s.updateTenantTokens x.req.tenant 1).tenantTokens
      decodeSteps := s.stats.decodeSteps + 1
      generatedTokens := s.stats.generatedTokens + 1 }) : t.Conserved := by
  have hfin := receiptVerdict_finalize hv
  obtain ⟨rec, hrec, hpend, -⟩ := hfin.grant
  obtain ⟨st, ready, hshape⟩ := Seq.finish_shape (s.finishTime r) r x
  have hserved := served_modify_succ hfin.seq hs (by rw [hshape]; rfl) (hlink.seq _ _ hfin.seq).generation
    (by rw [hshape]; rfl)
  have hcount := consumedCount_consume hrec hpend (congrArg Books.grantLedger hb : t.grantLedger = _)
  refine ⟨?_, ?_, ?_, ?_, fun u => ?_⟩
  · rw [hserved, ← h.receipts]
    exact congrArg Books.receiptCount hb
  · rw [hserved, ← h.steps]
    exact congrArg Books.decodeSteps hb
  · rw [hserved, ← h.tokens]
    exact congrArg Books.generatedTokens hb
  · rw [hserved, hcount, ← h.consumed]
    rfl
  · have htok : t.tokensOf u = (s.updateTenantTokens x.req.tenant 1).tokensOf u := by
      unfold tokensOf
      exact congrArg (fun b : Books => b.tenantTokens.getD u 0) hb
    rw [htok, tokensOf_update, hserved, h.tenant u]
    by_cases hu : u = x.req.tenant
    · subst hu
      simp only [if_true, decide_true]
      omega
    · simp [hu, Ne.symm hu]

theorem micro_conserved {c : Chains} {a : Act} (hm : Micro s a t) (hlink : Linked False s c) (h : s.Conserved) :
    t.Conserved := by
  have same : ∀ b : Books, t.books = b → (∀ w, t.served w = s.served w) → t.consumedCount = s.consumedCount →
      b.receiptCount = s.receiptCount → b.decodeSteps = s.stats.decodeSteps →
      b.generatedTokens = s.stats.generatedTokens → b.tenantTokens = s.tenantTokens → t.Conserved := by
    rintro b rfl hserved hcount hr hd hg ht
    exact h.of_same hserved hcount hr hd hg ht
  have ledger : ∀ b : Books, t.books = b → b.grantLedger = s.grantLedger → t.consumedCount = s.consumedCount := by
    rintro b rfl hl
    unfold consumedCount
    exact congrArg (fun l : Table GrantId GrantRecord => l.total _) hl
  cases hm with
  | note hs hb | takeDispatch hs hb =>
    exact same _ hb (fun w => by unfold served; rw [hs]) (ledger _ hb rfl) rfl rfl rfl rfl
  | environment hs hb => exact same _ hb (served_reorder hs) (ledger _ hb rfl) rfl rfl rfl rfl
  | seq o hq hg hs hb =>
    have htouch := SeqOp.touched hg
    exact same _ hb (served_modify_same hq hs htouch.req htouch.generation) (ledger _ hb rfl) rfl rfl rfl rfl
  | enrol hq _ hs hb => exact same _ hb (served_enrol hq hs) (ledger _ hb rfl) rfl rfl rfl rfl
  | issue prepared pm hq _ hs hb =>
    have hfresh : s.grantLedger.find? s.nextGrant = none := by
      cases hrec : s.grantLedger.find? s.nextGrant with
      | none => rfl
      | some rec => exact absurd (hlink.grant_bounded hrec) (Nat.lt_irrefl _)
    exact same _ hb (served_modify_same hq hs rfl rfl)
      (consumedCount_issue hfresh (congrArg Books.grantLedger hb)) rfl rfl rfl rfl
  | finalize r hv hs hb => exact h.finalize hlink hv hs hb
  | abort hq _ hs hb =>
    exact same _ hb (served_modify_same hq hs rfl rfl)
      (consumedCount_abort (congrArg Books.grantLedger hb)) rfl rfl rfl rfl

end Sums

theorem reachable_conserved {s : Fabric} (hs : Reachable s) : s.Conserved := by
  have hboth := reachable_invariant (I := fun s => (∃ c, Linked False s c) ∧ s.Conserved) ?_ ?_ hs
  · exact hboth.2
  · intro cfg clock
    exact ⟨⟨_, Linked.init False cfg clock⟩, rfl, rfl, rfl, rfl, fun _ => rfl⟩
  · rintro s t a hm ⟨⟨c, hc⟩, h⟩
    exact ⟨micro_linked_some hm ⟨c, hc⟩ False.elim, micro_conserved hm hc h⟩

theorem token_service_conserved {s : Fabric} (hs : Reachable s) :
    s.receiptCount = s.stats.decodeSteps ∧ s.stats.decodeSteps = s.stats.generatedTokens ∧
    s.stats.generatedTokens = s.grantLedger.entries.countP (fun e => e.2.status = .consumed) ∧
    s.grantLedger.entries.countP (fun e => e.2.status = .consumed) =
      (s.seqs.entries.map fun e => e.2.generation - 1).sum ∧
    ∀ t, (s.tenantTokens.getD t 0).toNat =
      min ((s.seqs.entries.map fun e => if e.2.req.tenant = t then e.2.generation - 1 else 0).sum) (2 ^ 64 - 1) := by
  have h := reachable_conserved hs
  have hall : s.served (fun _ => true) = (s.seqs.entries.map fun e => e.2.generation - 1).sum := by
    simp only [served, total, if_true]
  refine ⟨h.receipts.trans h.steps.symm, h.steps.trans h.tokens.symm, ?_, ?_, fun t => ?_⟩
  · rw [h.tokens, ← h.consumed, s.consumedCount_eq]
  · rw [← s.consumedCount_eq, h.consumed, hall]
  · rw [← tokensOf, h.tenant t]
    simp only [served, total, decide_eq_true_eq]
    rfl

theorem token_service_conserved_committed : (start.execAll committed).receiptCount = 1 ∧
    (start.execAll committed).receiptCount =
      (start.execAll committed).stats.decodeSteps :=
  ⟨by decide, (token_service_conserved ⟨_, runsTo committed⟩).1⟩

end DecodeFabric
