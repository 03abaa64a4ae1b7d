import DecodeFabric.Grants

/- Exactly-once contiguous generations.

   A sequence's token counters, its budget, its length and its generation move together, by one
   finalized receipt at a time, and the generations of its consumed grants are 1, 2, ... up to
   the last one. The finalize step checks none of this again: it holds because a grant needs a
   dispatch, a dispatch needs a budget that is not exhausted, and neither survives the receipt.
   The one assumption is that a prepared member names its dispatch, since a null dispatch id
   matches a sequence with nothing in flight. -/
namespace DecodeFabric
open Lib List Sample UInt64
variable {a : Act} {e : Edge Fabric Call} {s t : Fabric} {h : History}

/-! Budgets. -/

namespace TokenBudget

theorem advanced_eq {b : TokenBudget} {n : UInt64} (h : b.generated.toNat + n.toNat ≤ b.max.toNat) :
    b.advanced n = { b with generated := b.generated + n } := by
  have hmax : b.max.toNat < size := b.max.toNat_lt_size
  have hsum : (b.generated + n).toNat = b.generated.toNat + n.toNat := by
    rw [UInt64.toNat_add]
    exact Nat.mod_eq_of_lt (Nat.lt_of_le_of_lt h hmax)
  have hfit : ¬ n.toNat > (size - 1) - b.generated.toNat := by omega
  have hle : ¬ b.generated + n > b.max := by
    rw [gt_iff_lt, lt_iff_toNat_lt, hsum]
    omega
  simp only [advanced, advance, checkedAdd, hfit, hle, if_false, bind, Except.bind]

/-- A count that would pass the maximum is dropped. -/
theorem advanced_full {b : TokenBudget} {n : UInt64} (h : b.max.toNat < b.generated.toNat + n.toNat) :
    b.advanced n = b := by
  unfold advanced advance checkedAdd
  by_cases hfit : n.toNat > (size - 1) - b.generated.toNat
  · simp only [hfit, if_true, bind, Except.bind]
  · have hlt := b.generated.toNat_lt_size
    have hover : b.generated + n > b.max := by
      rw [gt_iff_lt, lt_iff_toNat_lt, UInt64.toNat_add, Nat.mod_eq_of_lt (show _ < size by omega)]
      exact h
    simp only [hfit, hover, if_false, if_true, bind, Except.bind]

/-- Counting up token by token within the maximum. -/
theorem iterate_advanced (m : UInt64) : ∀ {n : Nat}, n ≤ m.toNat →
    (fun b : TokenBudget => b.advanced 1)^[n] { max := m } = { max := m, generated := ofNat n }
  | 0, _ => rfl
  | n + 1, h => by
    have hlt : n < size := Nat.lt_of_lt_of_le (Nat.lt_of_succ_le h) (Nat.le_of_lt m.toNat_lt_size)
    rw [Function.iterate_succ_apply', iterate_advanced m (Nat.le_of_succ_le h), advanced_eq]
    · simp [ofNat_add]
    · change (ofNat n).toNat + 1 ≤ m.toNat
      rw [toNat_ofNat_of_lt' hlt]
      exact h

end TokenBudget

/-! The counters of one sequence. -/

/-- The token counters of `y` are those of `x`. -/
def Seq.SameCount (x y : Seq) : Prop :=
  y.generated = x.generated ∧ y.committed = x.committed ∧ y.budget = x.budget ∧ y.generation = x.generation ∧
    y.currentLength = x.currentLength

/-- A rollback to the committed tokens is none where all tokens are committed. -/
theorem Touched.sameCount {x y : Seq} (hxy : Touched x y) (hcommitted : x.committed = x.generated)
    (hbudget : x.rebuildBudget = x.budget) : x.SameCount y := by
  refine ⟨?_, hxy.committed, ?_, hxy.generation, hxy.currentLength⟩
  · rcases hxy.generated with hg | hg
    · exact hg
    · exact hg.trans hcommitted
  · rcases hxy.budget with hb | hb
    · exact hb
    · exact hb.trans hbudget

structure Seq.Counted (x : Seq) : Prop where
  max : x.budget.max = x.req.maxGenerationLength
  budget : x.budget.generated = x.generated
  committed : x.committed = x.generated
  bound : x.generated.toNat ≤ x.req.maxGenerationLength.toNat
  count : x.generated.toNat + 1 = x.req.pregenerated.toNat + x.generation
  pos : 1 ≤ x.generation
  length : x.currentLength = x.req.promptLength + x.generated
  held : x.hasInflightGrant = true → x.budget.exhausted = false
  dispatch : x.inFlightDispatch ≠ 0 → x.budget.exhausted = false

namespace Seq.Counted
variable {x y : Seq}

theorem rebuildBudget (h : x.Counted) : x.rebuildBudget = x.budget := by
  unfold Seq.rebuildBudget
  rw [h.committed, TokenBudget.iterate_advanced _ h.bound, UInt64.ofNat_toNat, ← h.max, ← h.budget]

theorem touched (h : x.Counted) (hxy : Touched x y) : y.Counted := by
  obtain ⟨hgen, -, hbud, -, -⟩ := hxy.sameCount h.committed h.rebuildBudget
  constructor
  · rw [hbud, hxy.req, h.max]
  · rw [hbud, hgen, h.budget]
  · rw [hxy.committed, hgen, h.committed]
  · rw [hgen, hxy.req]
    exact h.bound
  · rw [hgen, hxy.req, hxy.generation]
    exact h.count
  · rw [hxy.generation]
    exact h.pos
  · rw [hxy.currentLength, hxy.req, hgen, h.length]
  · intro hh
    rw [hbud]
    rcases hxy.grant with ⟨hsame, -⟩ | hnone
    · exact h.held (hsame ▸ hh)
    · rw [hnone] at hh
      cases hh
  · intro hd
    rw [hbud]
    rcases hxy.dispatch with ⟨hsame, -⟩ | hzero | ⟨-, hex⟩
    · exact h.dispatch (hsame ▸ hd)
    · exact absurd hzero hd
    · exact hex

/-- A new sequence starts from its pregenerated tokens. -/
theorem ofRequest {req : DecodeRequest} (h : req.pregenerated ≤ req.maxGenerationLength) :
    (Seq.ofRequest req).Counted := by
  have hpre : (if req.pregenerated > 0 then req.pregenerated else 0) = req.pregenerated := by
    split
    · rfl
    · next h0 => exact (UInt64.le_zero_iff.mp (UInt64.not_lt.mp h0)).symm
  have hle : req.pregenerated.toNat ≤ req.maxGenerationLength.toNat := le_iff_toNat_le.mp h
  have hbud : (Seq.ofRequest req).budget = { max := req.maxGenerationLength, generated := req.pregenerated } := by
    simp only [Seq.ofRequest]
    split
    · rw [TokenBudget.advanced_eq (by simpa using hle), UInt64.zero_add]
    · next h0 => rw [UInt64.le_zero_iff.mp (UInt64.not_lt.mp h0)]
  constructor
  · rw [hbud]; rfl
  · rw [hbud]; exact hpre.symm
  · rfl
  · change (if req.pregenerated > 0 then req.pregenerated else 0).toNat ≤ _
    rw [hpre]
    exact hle
  · exact congrArg (fun n : UInt64 => n.toNat + 1) hpre
  · exact Nat.le_refl 1
  · rfl
  · intro hh; cases hh
  · intro hd; exact absurd rfl hd

theorem holdGrant (h : x.Counted) (hd : x.inFlightDispatch ≠ 0) (gid : GrantId) (pm : PreparedMember) :
    (x.holdGrant gid pm).Counted :=
  ⟨h.max, h.budget, h.committed, h.bound, h.count, h.pos, h.length, fun _ => h.dispatch hd, h.dispatch⟩

/-- Where a grant is held there is room for one more token. -/
theorem generated_lt (h : x.Counted) (hh : x.hasInflightGrant = true) :
    x.generated.toNat < x.req.maxGenerationLength.toNat := by
  have hex := h.held hh
  rw [TokenBudget.exhausted, decide_eq_false_iff_not, ge_iff_le, UInt64.not_le, h.budget, h.max] at hex
  exact lt_iff_toNat_lt.mp hex

/-- One token more, as a number. -/
theorem generated_succ (h : x.Counted) (hh : x.hasInflightGrant = true) :
    (x.generated + 1).toNat = x.generated.toNat + 1 := by
  have hlt := h.generated_lt hh
  have hsize := x.req.maxGenerationLength.toNat_lt_size
  rw [UInt64.toNat_add]
  exact Nat.mod_eq_of_lt (Nat.lt_of_le_of_lt hlt hsize)

/-- A finalized receipt counts one token everywhere. -/
theorem finish (h : x.Counted) (hh : x.hasInflightGrant = true) (fin : TimePoint) (r : MemberReceipt) :
    (x.finish fin r).Counted := by
  have hlt := h.generated_lt hh
  have hsucc := h.generated_succ hh
  have hbud : x.budget.advanced 1 = { x.budget with generated := x.budget.generated + 1 } := by
    apply TokenBudget.advanced_eq
    rw [h.budget, h.max]
    exact hlt
  obtain ⟨st, ready, hshape⟩ := Seq.finish_shape fin r x
  rw [hshape]
  constructor
  · change (x.budget.advanced 1).max = _
    rw [hbud]
    exact h.max
  · change (x.budget.advanced 1).generated = x.generated + 1
    rw [hbud, h.budget]
  · exact congrArg (· + 1) h.committed
  · change (x.generated + 1).toNat ≤ _
    rw [hsucc]
    exact hlt
  · change (x.generated + 1).toNat + 1 = x.req.pregenerated.toNat + (x.generation + 1)
    rw [hsucc, h.count, Nat.add_assoc]
  · exact Nat.le_succ_of_le h.pos
  · change x.currentLength + 1 = x.req.promptLength + (x.generated + 1)
    rw [h.length, UInt64.add_assoc]
  · intro hh; cases hh
  · intro hd; exact absurd rfl hd

theorem abort (h : x.Counted) (now : TimePoint) : (x.release.abort now).Counted :=
  ⟨h.max, h.budget, h.committed, h.bound, h.count, h.pos, h.length, Bool.false_ne_true.elim, h.dispatch⟩

end Seq.Counted

/-! All sequences. -/

/-- A micro step that does not issue a grant for a null dispatch. -/
def Act.NamesDispatch : Act → Prop
  | .issue _ pm => pm.dispatch ≠ 0
  | _ => True

theorem counted_kept : Kept Act.NamesDispatch Seq.Counted where
  seq _ hg h := h.touched (SeqOp.touched hg)
  enrol hreq := Seq.Counted.ofRequest hreq
  issue hd hv h := h.holdGrant ((Fabric.prepareVerdict_grant hv).dispatch ▸ hd) _ _
  finalize hv h := h.finish (Fabric.receiptVerdict_finalize hv).holds _ _
  abort _ h := h.abort _

/-! The generations of the consumed grants. -/

/-- In a chain of grants each issued for the generation after the ones before it, the generations are 1, 2, ... -/
theorem Linked.chain_generations {c : Chains} (h : Linked True s c) (q : SequenceId) :
    (c q).map CommitGrant.generation = range' 1 (c q).length := by
  apply ext_getElem
  · simp
  · intro i hi _
    rw [length_map] at hi
    have hcut : c q = (c q).take i ++ (c q)[i] :: (c q).drop (i + 1) := by
      rw [getElem_cons_drop, take_append_drop]
    have hnext := (h.sound.admitted q _ _ _ hcut).2 trivial
    rw [length_take, Nat.min_eq_left (Nat.le_of_lt hi)] at hnext
    rw [getElem_map, hnext, getElem_range', Nat.one_mul, Nat.add_comm]

/-! What the other calls leave alone. -/

theorem micro_same_count (hm : Micro s a t) (hfin : ∀ r, a ≠ .finalize r) (h : s.AllSeqs Seq.Counted)
    {q : SequenceId} {x : Seq} (hq : s.seqs.find? q = some x) : ∃ y, t.seqs.find? q = some y ∧ x.SameCount y := by
  have hx := h q x hq
  obtain ⟨y, hy, rfl | hc⟩ := hm.seq_after hq
  · exact ⟨y, hy, rfl, rfl, rfl, rfl, rfl⟩
  · refine ⟨y, hy, ?_⟩
    cases hc with
    | seq o hg => exact (SeqOp.touched hg).sameCount hx.committed hx.rebuildBudget
    | issue prepared pm _ _ | abort _ => exact ⟨rfl, rfl, rfl, rfl, rfl⟩
    | finalize r _ _ => exact absurd rfl (hfin r)

theorem micro_same_consumed {c : Chains} (hm : Micro s a t) (hfin : ∀ r, a ≠ .finalize r)
    (h : Linked False s c) {i : GrantId} {rec : GrantRecord} (hst : rec.status = .consumed) :
    t.grantLedger.find? i = some rec ↔ s.grantLedger.find? i = some rec := by
  refine ⟨fun ht => ?_, fun hs => ?_⟩
  · rcases hm.entry_before ht with ⟨rec₀, hrec₀, hup⟩ | ⟨prepared, pm, -, -, rfl⟩
    · cases hup with
      | kept => exact hrec₀
      | consume r ha _ => exact absurd ha (hfin r)
      | abort =>
        -- an aborted entry is not consumed, and any other is left as it is
        unfold GrantRecord.abort at hst ⊢
        split at hst
        · cases hst
        · next hp => rw [if_neg hp]; exact hrec₀
    · cases hst
  · obtain ⟨rec', hrec', hb⟩ := micro_record h hm hs
    rw [hb.settled (by rw [hst]; simp)] at hrec'
    exact hrec'

/-! Runs. -/

/-- Every prepared member a call delivers names its dispatch. -/
def Call.NamesDispatch : Call → Prop
  | .op (.authorizePrepared prepared) => ∀ pm ∈ prepared.members, pm.dispatch ≠ 0
  | _ => True

theorem Call.NamesDispatch.act {c : Call} (hc : c.NamesDispatch) (ha : c.MayPerform a) : a.NamesDispatch := by
  cases a with
  | issue prepared pm =>
    cases c with
    | op o =>
      cases o with
      | authorizePrepared prepared' =>
        obtain ⟨-, hpm⟩ : prepared = prepared' ∧ pm ∈ prepared'.members := ha
        exact hc pm hpm
      | _ => exact False.elim ha
    | tick now | rehash => cases ha
  | _ => trivial

theorem Call.mayPerform_finalize {c : Call} {r : MemberReceipt} (h : c.MayPerform (.finalize r)) :
    ∃ receipts, c = .op (.applyCommitReceipt receipts) := by
  cases c with
  | op o =>
    cases o with
    | applyCommitReceipt receipts => exact ⟨receipts, rfl⟩
    | _ => exact False.elim h
  | tick now | rehash => cases h

theorem run_counted (hr : RunsTo h s) (hd : ∀ e ∈ h, e.label.NamesDispatch) : s.AllSeqs Seq.Counted := by
  exact run_invariant (I := fun s => s.AllSeqs Seq.Counted) (P := Act.NamesDispatch) init_allSeqs
    (fun hm ha hs => micro_allSeqs counted_kept hm ha hs) hr (fun e he a ha => (hd e he).act ha)

theorem run_linked_exact (hr : RunsTo h s) (hd : ∀ e ∈ h, e.label.NamesDispatch) : ∃ c, Linked True s c := by
  refine run_invariant (I := fun s => ∃ c, Linked True s c) (P := Act.NamesDispatch)
    (fun cfg clock => ⟨_, Linked.init True cfg clock⟩) ?_ hr (fun e he a ha => (hd e he).act ha)
  intro s t a hm ha hs
  refine micro_linked_some hm hs ?_
  rintro - prepared pm rfl
  rcases ha with ha | ha
  · cases ha
  · exact ha

/-- A call that is not `apply_commit_receipt` changes no token counter and consumes no grant. -/
theorem edge_same_tokens {gs : List CommitGrant} {rs : List (Fabric × MemberReceipt)}
    (htr : Traced e.label.MayPerform e.pre e.post gs rs) (hd : e.label.NamesDispatch)
    (hne : ∀ receipts, e.label ≠ .op (.applyCommitReceipt receipts)) (hcount : e.pre.AllSeqs Seq.Counted)
    (hlink : ∃ c, Linked False e.pre c) :
    (∀ q x, e.pre.seqs.find? q = some x → ∃ y, e.post.seqs.find? q = some y ∧ x.SameCount y) ∧
    (∀ i rec, rec.status = .consumed →
      (e.post.grantLedger.find? i = some rec ↔ e.pre.grantLedger.find? i = some rec)) := by
  obtain ⟨m, hm, hacts, -, -⟩ := htr
  have hkeep := hm.invariant
    (I := fun u => u.AllSeqs Seq.Counted ∧ (∃ c, Linked False u c) ∧
      (∀ q x, e.pre.seqs.find? q = some x → ∃ y, u.seqs.find? q = some y ∧ x.SameCount y) ∧
      (∀ i rec, rec.status = .consumed →
        (u.grantLedger.find? i = some rec ↔ e.pre.grantLedger.find? i = some rec)))
    (P := fun a => a.label = .note ∨ e.label.MayPerform a.label) ?_ hacts
    ⟨hcount, hlink, fun q x hq => ⟨x, hq, rfl, rfl, rfl, rfl, rfl⟩, fun _ _ _ => Iff.rfl⟩
  · exact hkeep.2.2
  · rintro a hstep hact ⟨hu, ⟨c, hc⟩, hseqs, hled⟩
    have hnofin : ∀ r, a.label ≠ .finalize r := by
      intro r hr
      rcases hact with hn | hp
      · rw [hn] at hr
        cases hr
      · obtain ⟨receipts, hrec⟩ := Call.mayPerform_finalize (hr ▸ hp)
        exact hne receipts hrec
    refine ⟨micro_allSeqs counted_kept hstep (hact.imp_right hd.act) hu, micro_linked_any hstep ⟨c, hc⟩, ?_, ?_⟩
    · intro q x hq
      obtain ⟨y, hy, h1, h2, h3, h4, h5⟩ := hseqs q x hq
      obtain ⟨z, hz, g1, g2, g3, g4, g5⟩ := micro_same_count hstep hnofin hu hy
      exact ⟨z, hz, g1.trans h1, g2.trans h2, g3.trans h3, g4.trans h4, g5.trans h5⟩
    · intro i rec hst
      exact (micro_same_consumed hstep hnofin hc hst).trans (hled i rec hst)

theorem RunsTo.take {h₁ h₂ : History} (hr : RunsTo (h₁ ++ e :: h₂) s) : RunsTo h₁ e.pre := by
  obtain ⟨cfg, clock, hr⟩ := hr
  exact ⟨cfg, clock, hr.split.1⟩

theorem exactly_once_generations {h : History} {s : Fabric} (hr : RunsTo h s) (hd : ∀ e ∈ h, e.label.NamesDispatch) :
    (∀ q x, s.seqs.find? q = some x →
      x.generated = x.committed ∧ x.committed = x.budget.generated ∧
      x.budget.generated.toNat = x.req.pregenerated.toNat + (x.generation - 1) ∧
      x.generated ≤ x.req.maxGenerationLength ∧
      x.currentLength = x.req.promptLength + x.generated ∧
      ((s.consumedGrants q).map CommitGrant.generation).Perm (range' 1 (x.generation - 1))) ∧
    (∀ e ∈ h, (∀ receipts, e.label ≠ .op (.applyCommitReceipt receipts)) →
      (∀ q x, e.pre.seqs.find? q = some x → ∃ y, e.post.seqs.find? q = some y ∧ x.SameCount y) ∧
      (∀ i rec, rec.status = .consumed →
        (e.post.grantLedger.find? i = some rec ↔ e.pre.grantLedger.find? i = some rec))) := by
  refine ⟨?_, ?_⟩
  · intro q x hq
    have hx := run_counted hr hd q x hq
    obtain ⟨c, hc⟩ := run_linked_exact hr hd
    have hlink := hc.seq q x hq
    have hcount : x.budget.generated.toNat = x.req.pregenerated.toNat + (x.generation - 1) := by
      rw [hx.budget, ← Nat.add_sub_assoc hx.pos, ← hx.count, Nat.add_sub_cancel]
    refine ⟨hx.committed.symm, hx.committed.trans hx.budget.symm, hcount, le_iff_toNat_le.mpr hx.bound,
      hx.length, ?_⟩
    have hperm := (hc.consumedGrants_perm q).map CommitGrant.generation
    rw [hc.chain_generations q] at hperm
    rw [hlink.generation, Nat.add_sub_cancel]
    exact hperm
  · intro e he hne
    obtain ⟨hpre, htr⟩ := hr.edge he
    obtain ⟨h₁, h₂, rfl⟩ := append_of_mem he
    have hbefore : ∀ e' ∈ h₁, e'.label.NamesDispatch := fun e' he' => hd e' (mem_append_left _ he')
    exact edge_same_tokens htr (hd e he) hne (run_counted hr.take hbefore) (reachable_linked hpre)

theorem exactly_once_generations_committed :
    ((start.execAll committed).consumedGrants 1).map CommitGrant.generation = [1] ∧
    ∀ q x, (start.execAll committed).seqs.find? q = some x → x.generated = x.committed :=
  ⟨by decide, fun q x hq => ((exactly_once_generations (runsTo committed) (by
    intro e he
    simp only [committed, granted, dispatched, cons_append, nil_append, trace,
      mem_cons, not_mem_nil, or_false] at he
    rcases he with rfl | rfl | rfl | rfl | rfl
    all_goals simp [Call.NamesDispatch, prepared, member])).1 q x hq).1⟩

end DecodeFabric
