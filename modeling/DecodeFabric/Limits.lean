import DecodeFabric.Finality
import DecodeFabric.Headroom
import DecodeFabric.Recount

/- The configured limits.

   `max_active_sequences`, `max_outstanding_tokens` and `max_kv_growth_bytes` are to bound the load of a fabric.
   `submit` compares the live sequences with the first; no other operation makes a sequence live again, so it is an
   invariant of every run. `submit` also sums up the remaining budgets, but compares the sum with nothing, and
   nothing reads the other two limits.

   Outstanding tokens rise only when a request is admitted: a step or an end lowers them, and rolling a sequence back
   counts its budget up to where it was. So the second limit holds exactly while each admission stays within it. The
   growth of a dispatch is bounded only as far as the sequences that can go out together are small
   (`configured_limits_iff`). -/
namespace DecodeFabric
open Lib Table List Fabric Sample UInt64
variable {c : Call} {req : DecodeRequest} {e : Edge Fabric Call} {s t : Fabric} {r : MemberReceipt}

/-! What is limited. -/

/-- The tokens a live sequence may still generate. -/
def Seq.outstanding (x : Seq) : Nat := if x.machine.isTerminal then 0 else x.budget.remaining.toNat

/-- The sum `submit` takes over the sequences. -/
def Fabric.outstanding (s : Fabric) : Nat := s.seqs.total fun _ x => x.outstanding

/-- What placement charges for a member. -/
def DecodeMemberSpec.growth (m : DecodeMemberSpec) : UInt64 :=
  if m.state.estimatedGrowth ≠ 0 then m.state.estimatedGrowth else 64

/-- The estimated growth of a dispatch. -/
def Dispatch.growth (d : Dispatch) : Nat := (d.members.map fun m => m.growth.toNat).sum

/-- However sequences that are due under one key are put together, as many as a group may have, they grow by no more
    than `limit`. -/
def Fabric.GroupsWithin (s : Fabric) (tn : TimePoint) (limit : Nat) : Prop :=
  ∀ (members : List SequenceId) (key : String), members.Nodup →
    members.length ≤ max 1 s.cfg.groupLimits.maxSequences.toNat →
    (∀ m ∈ members, ∃ x, s.Due tn m x ∧ (s.keyForModel x.req).toText = key) → s.exactGrowth members ≤ limit

/-- No sequence has more tokens than its counters can count. -/
def Fabric.TokensFit (s : Fabric) : Prop := s.AllSeqs fun x => x.req.pregenerated.toNat + x.generation ≤ 2 ^ 64

/-- A request that the call admits leaves the outstanding tokens within `limit`. -/
def AdmitsUpTo (limit : Nat) (e : Edge Fabric Call) : Prop :=
  ∀ inp, e.label = .op (.submit inp) → (e.pre.submit inp).2.admitted = true →
    e.pre.outstanding + (inp.maxGenerationLength.toNat - inp.pregenerated.toNat) ≤ limit

/-! Live sequences. -/

def Seq.active (x : Seq) : Nat := if x.machine.isTerminal then 0 else 1

theorem Fabric.activeCount_eq_total (s : Fabric) : s.activeCount = s.seqs.total fun _ x => x.active := by
  unfold activeCount total
  induction s.seqs.entries with
  | nil => rfl
  | cons e l ih =>
    have hone : e.2.active = if !e.2.machine.isTerminal then 1 else 0 := by
      unfold Seq.active
      cases e.2.machine.isTerminal <;> rfl
    rw [countP_cons, map_cons, sum_cons, ih, ← hone, Nat.add_comm]

section Step
variable {s t : Fabric} {a : Act} {q : SequenceId} {x y : Seq}

theorem SeqOp.machine_terminal {o : SeqOp} (hg : o.Guard s x) (h : x.machine.isTerminal = true) :
    (o.apply x).machine = x.machine := by
  have hmove := SequenceState.move_terminal h
  cases o with
  | release | rollBackTokens | disown => rfl
  | moveTo st | retire st => exact hmove st
  | enterGroup tn => exact hmove .grouped
  | beginAttempt attempt now =>
    show (x.machine.move .retrying).move .ready = x.machine
    rw [hmove, hmove]
  | dispatchUnder d =>
    show (x.machine.move .reserved).move .dispatched = x.machine
    rw [hmove, hmove]
  | workerDown now =>
    show (if x.executing then (x.machine.move .stepCompleted).move .waiting else x.machine) = x.machine
    rw [hmove, hmove, ite_self]
  | reconcile now =>
    show (if x.executing then (x.machine.move .stepCompleted).move .readyForNextToken else x.machine) = x.machine
    rw [hmove, hmove, ite_self]
  | resolve cfg attempt now mo =>
    rw [hg.2.2.1] at h
    cases h

/-- A terminal state has no way out. -/
theorem Act.Changes.terminal (hc : a.Changes s q x y) (h : x.machine.isTerminal = true) :
    y.machine.isTerminal = true := by
  cases hc with
  | seq o hg => rw [SeqOp.machine_terminal hg h, h]
  | issue prepared pm _ _ => exact h
  | finalize r _ hv =>
    rw [(receiptVerdict_finalize hv).live] at h
    cases h
  | abort _ =>
    show (if x.executing then (x.machine.move .stepCompleted).move .waiting else x.machine).isTerminal = true
    rw [SequenceState.move_terminal h, SequenceState.move_terminal h, ite_self, h]

theorem Act.Changes.active_le (hc : a.Changes s q x y) : y.active ≤ x.active := by
  unfold Seq.active
  by_cases hx : x.machine.isTerminal = true
  · rw [if_pos (hc.terminal hx)]
    exact Nat.zero_le _
  · rw [if_neg hx]
    split <;> omega

/-- A weight no change raises has a total no act but an admission raises. -/
theorem Micro.total_le {w : Seq → Nat} (hm : Micro s a t) (ha : ∀ q req, a ≠ .enrol q req)
    (hw : ∀ q x y, s.seqs.find? q = some x → a.Changes s q x y → w y ≤ w x) :
    (t.seqs.total fun _ x => w x) ≤ s.seqs.total fun _ x => w x := by
  have changed : ∀ {j : SequenceId} {z : Seq} {f : Seq → Seq}, s.seqs.find? j = some z →
      t.seqs = s.seqs.modify j f → a.Changes s j z (f z) →
      (t.seqs.total fun _ x => w x) ≤ s.seqs.total fun _ x => w x := by
    intro j z f hj hs hc
    have htotal := total_modify hj f fun _ x => w x
    have hle := hw j z (f z) hj hc
    rw [hs]
    omega
  cases hm with
  | note hs _ | takeDispatch hs _ => rw [hs]
  | environment hs _ => exact Nat.le_of_eq (total_reorder hs _)
  | enrol _ _ _ _ => exact absurd rfl (ha _ _)
  | seq o hj hg hs _ => exact changed hj hs (.seq o hg)
  | issue prepared pm hj hv hs _ => exact changed hj hs (.issue prepared pm rfl hv)
  | finalize r hv hs _ => exact changed (receiptVerdict_finalize hv).seq hs (.finalize r rfl hv)
  | abort hj hh hs _ => exact changed hj hs (.abort hh)

end Step

/-! Budgets. -/

namespace TokenBudget

/-- A token is counted up to the maximum. -/
theorem advanced_one {b : TokenBudget} (h : b.generated ≤ b.max) :
    (b.advanced 1).generated.toNat = min (b.generated.toNat + 1) b.max.toNat := by
  have hle := le_iff_toNat_le.mp h
  by_cases hlt : b.generated.toNat + 1 ≤ b.max.toNat
  · have hsize := b.max.toNat_lt_size
    rw [advanced_eq (n := 1) hlt, Nat.min_eq_left hlt, UInt64.toNat_add]
    exact Nat.mod_eq_of_lt (Nat.lt_of_le_of_lt hlt hsize)
  · rw [advanced_full (n := 1) (Nat.not_le.mp hlt)]
    omega

theorem iterate_generated (m : UInt64) (n : Nat) :
    ((fun b : TokenBudget => b.advanced 1)^[n] { max := m }).generated.toNat = min n m.toNat := by
  induction n with
  | zero => exact (Nat.zero_min _).symm
  | succ n ih =>
    obtain ⟨hmax, hle⟩ := iterate_bounded m n
    rw [Function.iterate_succ_apply', advanced_one (hle.trans_eq hmax.symm), ih, hmax]
    omega

theorem remaining_toNat (b : TokenBudget) : b.remaining.toNat = b.max.toNat - b.generated.toNat := by
  unfold remaining
  split
  · next h =>
    have hle := le_iff_toNat_le.mp h
    rw [UInt64.toNat_zero]
    omega
  · next h => exact UInt64.toNat_sub_of_le _ _ (UInt64.le_of_lt (UInt64.not_le.mp h))

end TokenBudget

/-- The budget is spent by the tokens the sequence has, as long as they can be counted. -/
structure Seq.Budgeted (x : Seq) : Prop where
  restorable : x.Restorable
  metered : x.Metered
  spent : x.req.pregenerated.toNat + x.generation ≤ 2 ^ 64 →
    x.budget.generated.toNat = min (x.req.pregenerated.toNat + (x.generation - 1)) x.req.maxGenerationLength.toNat

namespace Seq.Budgeted
variable {x y : Seq}

theorem committed (h : x.Budgeted) (hfit : x.req.pregenerated.toNat + x.generation ≤ 2 ^ 64) :
    x.committed.toNat = x.req.pregenerated.toNat + (x.generation - 1) := by
  have htokens := h.metered.tokens
  have hnat : ∀ p n : Nat, 1 ≤ n → p + n ≤ 2 ^ 64 → p + (n - 1) < 2 ^ 64 := by omega
  rw [h.metered.committed]
  rw [Nat.mod_eq_of_lt x.generated.toNat_lt, Nat.mod_eq_of_lt (hnat _ _ h.metered.pos hfit)] at htokens
  exact htokens

/-- Counting the budget up to the committed tokens gives it back. -/
theorem rebuildBudget (h : x.Budgeted) (hfit : x.req.pregenerated.toNat + x.generation ≤ 2 ^ 64) :
    x.rebuildBudget.generated.toNat = x.budget.generated.toNat := by
  unfold Seq.rebuildBudget
  rw [TokenBudget.iterate_generated, h.committed hfit, h.spent hfit]

theorem touched (h : x.Budgeted) (hxy : Touched x y) (hacc : y.accepted = x.accepted)
    (hflag : y.hasAccepted = x.hasAccepted) : y.Budgeted := by
  refine ⟨h.restorable.touched hxy hacc hflag, h.metered.touched hxy, ?_⟩
  rw [hxy.req, hxy.generation]
  intro hfit
  rcases hxy.budget with hb | hb
  · rw [hb]
    exact h.spent hfit
  · rw [hb, h.rebuildBudget hfit]
    exact h.spent hfit

theorem ofRequest (h : req.pregenerated ≤ req.maxGenerationLength) : (Seq.ofRequest req).Budgeted := by
  have hc := Seq.Counted.ofRequest h
  refine ⟨Seq.Restorable.ofRequest h, Seq.Metered.ofRequest req, fun _ => ?_⟩
  have hcount := hc.count
  have hbound := hc.bound
  rw [hc.budget]
  change _ = min (req.pregenerated.toNat + (1 - 1)) req.maxGenerationLength.toNat
  change _ + 1 = req.pregenerated.toNat + 1 at hcount
  change _ ≤ req.maxGenerationLength.toNat at hbound
  omega

theorem finish (h : x.Budgeted) (hv : s.receiptVerdict r = .finalize x) : (x.finish (s.finishTime r) r).Budgeted := by
  refine ⟨h.restorable.finish _ _, metered_kept.finalize hv h.metered, ?_⟩
  obtain ⟨st, ready, hshape⟩ := Seq.finish_shape (s.finishTime r) r x
  rw [hshape]
  intro hfit
  change x.req.pregenerated.toNat + (x.generation + 1) ≤ 2 ^ 64 at hfit
  have hspent := h.spent (Nat.le_trans (Nat.add_le_add_left (Nat.le_succ _) _) hfit)
  have hnat : ∀ p n m : Nat, 1 ≤ n → min (min (p + (n - 1)) m + 1) m = min (p + (n + 1 - 1)) m := by omega
  change (x.budget.advanced 1).generated.toNat =
    min (x.req.pregenerated.toNat + (x.generation + 1 - 1)) x.req.maxGenerationLength.toNat
  rw [TokenBudget.advanced_one h.restorable.within, h.restorable.max, hspent]
  exact hnat _ _ _ h.metered.pos

end Seq.Budgeted

theorem budgeted_kept : Kept (fun _ => True) Seq.Budgeted where
  seq {_ _ x o} _ hg h := h.touched (SeqOp.touched hg) (o.accepted x).1 (o.accepted x).2
  enrol h := Seq.Budgeted.ofRequest h
  issue _ _ h :=
    ⟨⟨h.restorable.max, h.restorable.within, h.restorable.accepted⟩,
      ⟨h.metered.committed, h.metered.generated, h.metered.pos⟩, h.spent⟩
  finalize hv h := h.finish hv
  abort hh h := ⟨restorable_kept.abort hh h.restorable, metered_kept.abort hh h.metered, h.spent⟩

theorem reachable_budgeted (hs : Reachable s) : s.AllSeqs Seq.Budgeted := budgeted_kept.reachable hs

/-! Outstanding tokens. -/

section Outstanding
variable {s t : Fabric} {a : Act} {q : SequenceId} {x y : Seq}

/-- A finalized token is one less to come, and a roll back changes nothing. -/
theorem Act.Changes.outstanding_le (hc : a.Changes s q x y) (hb : x.Budgeted)
    (hfit : (∃ r, a = .finalize r) ∨ x.req.pregenerated.toNat + x.generation ≤ 2 ^ 64) :
    y.outstanding ≤ x.outstanding := by
  have hbudget : x.budget.generated.toNat ≤ y.budget.generated.toNat ∧ y.budget.max = x.budget.max := by
    cases hc with
    | seq o hg =>
      have hxy := SeqOp.touched hg
      rcases hxy.budget with heq | heq
      · rw [heq]
        exact ⟨Nat.le_refl _, rfl⟩
      · rcases hfit with ⟨r, hr⟩ | hfit
        · cases hr
        · rw [heq]
          exact ⟨Nat.le_of_eq (hb.rebuildBudget hfit).symm,
            (TokenBudget.iterate_bounded _ _).1.trans hb.restorable.max.symm⟩
    | issue prepared pm _ _ | abort _ => exact ⟨Nat.le_refl _, rfl⟩
    | finalize r _ _ =>
      obtain ⟨st, ready, hshape⟩ := Seq.finish_shape (s.finishTime r) r x
      have hwithin := hb.restorable.within
      have hle := le_iff_toNat_le.mp hwithin
      rw [hshape]
      change _ ≤ (x.budget.advanced 1).generated.toNat ∧ (x.budget.advanced 1).max = _
      rw [TokenBudget.advanced_one hwithin]
      exact ⟨by omega, (TokenBudget.advanced_bounded hwithin 1).1⟩
  unfold Seq.outstanding
  by_cases hx : x.machine.isTerminal = true
  · rw [if_pos (hc.terminal hx)]
    exact Nat.zero_le _
  · rw [if_neg hx]
    split
    · exact Nat.zero_le _
    · rw [TokenBudget.remaining_toNat, TokenBudget.remaining_toNat, hbudget.2]
      omega

/-- Only a finalized receipt raises the generation of a sequence. -/
theorem Micro.tokensFit (hm : Micro s a t) (ha : ∀ r, a ≠ .finalize r) (hne : ∀ q req, a ≠ .enrol q req)
    (h : s.TokensFit) : t.TokensFit := by
  intro q y hy
  rcases hm.seq_before hy with hsame | ⟨x, hx, hc⟩ | ⟨req, rfl, -⟩
  · exact h q y hsame
  · have hfit := h q x hx
    cases hc with
    | seq o hg =>
      have hxy := SeqOp.touched hg
      simp only [hxy.req, hxy.generation]
      exact hfit
    | issue prepared pm _ _ | abort _ => exact hfit
    | finalize r _ _ => exact absurd rfl (ha r)
  · exact absurd rfl (hne q req)

/-- Only receipts are finalized. -/
theorem Call.MayPerform.finalizes (h : c.MayPerform (.finalize r)) :
    ∃ receipts, c = .op (.applyCommitReceipt receipts) := by
  cases c with
  | op o =>
    cases o with
    | applyCommitReceipt receipts => exact ⟨receipts, rfl⟩
    | _ => exact absurd h id
  | tick now | rehash => cases h

/-- A call that takes no receipts. -/
def Call.TakesNone (c : Call) : Prop := ∀ receipts, c ≠ .op (.applyCommitReceipt receipts)

theorem next_outstanding_le (hs : Reachable s) (hn : Next s c t) (hc : ∀ inp, c ≠ .op (.submit inp))
    (hfit : s.TokensFit) : t.outstanding ≤ s.outstanding := by
  have h0 : s.nextDispatch ≠ 0 := Nat.ne_of_gt (reachable_nextDispatch hs)
  refine ((next_steps hn h0).invariant (I := fun u => u.AllSeqs Seq.Budgeted ∧ (c.TakesNone → u.TokensFit) ∧
    u.outstanding ≤ s.outstanding) ?_ ⟨reachable_budgeted hs, fun _ => hfit, Nat.le_refl _⟩).2.2
  rintro u v a hm ha ⟨hb, hf, hle⟩
  have hne : ∀ q req, a ≠ .enrol q req := by
    rintro q req rfl
    rcases ha with ha | ha
    · cases ha
    · obtain ⟨inp, rfl⟩ := ha.submits
      exact hc inp rfl
  have hfinal : ∀ r, a = .finalize r → ¬ c.TakesNone := by
    rintro r rfl htakes
    rcases ha with ha | ha
    · cases ha
    · obtain ⟨receipts, rfl⟩ := ha.finalizes
      exact htakes receipts rfl
  refine ⟨micro_allSeqs budgeted_kept hm (Or.inr trivial) hb,
    fun htakes => hm.tokensFit (fun r hr => hfinal r hr htakes) hne (hf htakes), Nat.le_trans (hm.total_le hne ?_) hle⟩
  intro q x y hx hchange
  refine hchange.outstanding_le (hb q x hx) ?_
  by_cases htakes : c.TakesNone
  · exact Or.inr (hf htakes q x hx)
  · -- the receipts of a call are all it may act on
    obtain ⟨receipts, hreceipts⟩ := not_forall_not.mp htakes
    subst hreceipts
    left
    rcases ha with rfl | ha
    · cases hchange
    · cases a with
      | finalize r => exact ⟨r, rfl⟩
      | _ => exact absurd ha id

theorem next_active_le (hn : Next s c t) (h0 : s.nextDispatch ≠ 0) (hc : ∀ inp, c ≠ .op (.submit inp)) :
    t.activeCount ≤ s.activeCount := by
  refine (next_steps hn h0).invariant (I := fun u => u.activeCount ≤ s.activeCount) ?_ (Nat.le_refl _)
  intro u v a hm ha hle
  refine Nat.le_trans ?_ hle
  rw [activeCount_eq_total, activeCount_eq_total]
  refine hm.total_le ?_ fun _ _ _ _ hchange => hchange.active_le
  rintro q req rfl
  rcases ha with ha | ha
  · cases ha
  · obtain ⟨inp, rfl⟩ := ha.submits
    exact hc inp rfl

/-! Admissions. -/

theorem ofRequest_outstanding (h : req.pregenerated ≤ req.maxGenerationLength) :
    (Seq.ofRequest req).outstanding = req.maxGenerationLength.toNat - req.pregenerated.toNat := by
  have hc := Seq.Counted.ofRequest h
  have hcount := hc.count
  change _ + 1 = req.pregenerated.toNat + 1 at hcount
  show (Seq.ofRequest req).budget.remaining.toNat = _
  rw [TokenBudget.remaining_toNat, hc.max, hc.budget]
  change req.maxGenerationLength.toNat - _ = _
  omega

/-- An admission adds what the request leaves to generate, and one live sequence. -/
theorem submit_load (s : Fabric) (inp : DecodeRequest) :
    (((s.submit inp).2.admitted = false ∧ (s.submit inp).1.outstanding = s.outstanding ∧
      (s.submit inp).1.activeCount = s.activeCount)) ∨
    ((s.submit inp).2.admitted = true ∧
      (s.submit inp).1.outstanding = s.outstanding + (inp.maxGenerationLength.toNat - inp.pregenerated.toNat) ∧
      (s.submit inp).1.activeCount = s.activeCount + 1 ∧
      (0 < s.cfg.limits.maxActiveSequences → s.activeCount < s.cfg.limits.maxActiveSequences.toNat)) := by
  rcases submit_cases s inp with ⟨hseqs, -, hrefused⟩ | ⟨hvalid, hroom, hnone, heq⟩
  · left
    unfold outstanding activeCount
    rw [hseqs]
    exact ⟨hrefused, rfl, rfl⟩
  · right
    have hle := validate_pregenerated hvalid
    have hnew : (Seq.ofRequest (s.buildKey inp)).outstanding =
        inp.maxGenerationLength.toNat - inp.pregenerated.toNat := by
      rw [ofRequest_outstanding (by rwa [buildKey_pregenerated, buildKey_maxGenerationLength]),
        buildKey_pregenerated, buildKey_maxGenerationLength]
    refine ⟨by rw [heq]; rfl, ?_, ?_, ?_⟩
    · unfold outstanding
      rw [heq, enrol_new hnone, total_insert_new hnone, hnew]
    · rw [activeCount_eq_total, activeCount_eq_total, heq, enrol_new hnone,
        total_insert_new hnone]
      rfl
    · intro hpos
      unfold backpressure at hroom
      split at hroom
      · cases hroom
      · next hfull => exact Nat.lt_of_not_ge fun hge => hfull ⟨hpos, hge⟩

end Outstanding

/-! Groups. -/

/-- A dispatch grows as its members do. -/
theorem schedule_growth_le {tn : TimePoint} {limit : Nat} (h : s.GroupsWithin tn limit) {d : Dispatch}
    (hd : d ∈ (s.schedule tn).2) : d.growth ≤ limit := by
  obtain ⟨u, out, g, wk, w, hturn, hsent⟩ := dispatch_turn hd
  have ht := placements_turn hturn
  have hgrowth : d.growth = s.exactGrowth g.members := by
    unfold Dispatch.growth exactGrowth
    rw [ht.specs hsent, map_map]
    congr 1
    refine map_congr_left fun m hm => ?_
    obtain ⟨x, hdue, -, hfind⟩ := ht.member m hm
    simp only [Function.comp, specOf, hfind, growthOf_found hdue.found]
    rfl
  rw [hgrowth]
  refine h g.members g.key.toText ht.nodup ((s.formedAt_formation tn).limit g ht.formed) fun m hm => ?_
  obtain ⟨x, hdue, hkey, -⟩ := ht.member m hm
  exact ⟨x, hdue, hkey⟩

/-! Runs. -/

theorem next_cfg (hn : Next s c t) (h0 : s.nextDispatch ≠ 0) : t.cfg = s.cfg :=
  (next_steps hn h0).invariant (I := fun u => u.cfg = s.cfg) (fun hm _ hu => hm.cfg.trans hu) rfl

/-- Every transition of a run starts from a reachable fabric under the configuration of its end. -/
theorem RunsTo.before {h : History} (hr : RunsTo h s) (he : e ∈ h) :
    Reachable e.pre ∧ Next e.pre e.label e.post ∧ e.pre.cfg = s.cfg := by
  obtain ⟨cfg, clock, hrun⟩ := hr
  have hcfg : ∀ {h' : History} {u : Fabric}, Run Next (init cfg clock) h' u → u.cfg = cfg := fun hru =>
    hru.history (I := fun _ u => u.cfg = cfg) (P := fun _ => True) (fun _ _ hru hn _ hu =>
      (next_cfg hn (run_traced hru Nat.one_ne_zero).2).trans hu) (fun _ _ => trivial) rfl
  obtain ⟨h₁, h₂, rfl⟩ := append_of_mem he
  obtain ⟨hpre, hnext, -⟩ := hrun.split
  exact ⟨⟨h₁, cfg, clock, hpre⟩, hnext, (hcfg hpre).trans (hcfg hrun).symm⟩

theorem next_active_bounded (hs : Reachable s) (hn : Next s c t)
    (hpos : 0 < s.cfg.limits.maxActiveSequences) (h : s.activeCount ≤ s.cfg.limits.maxActiveSequences.toNat) :
    t.activeCount ≤ s.cfg.limits.maxActiveSequences.toNat := by
  by_cases hc : ∃ inp, c = .op (.submit inp)
  · obtain ⟨inp, rfl⟩ := hc
    cases hn
    show (s.submit inp).1.activeCount ≤ _
    rcases submit_load s inp with ⟨-, -, heq⟩ | ⟨-, -, heq, hroom⟩
    · rw [heq]
      exact h
    · rw [heq]
      exact hroom hpos
  · exact Nat.le_trans (next_active_le hn (Nat.ne_of_gt (reachable_nextDispatch hs)) (not_exists.mp hc)) h

theorem next_outstanding_bounded {limit : Nat} (hs : Reachable e.pre)
    (hn : Next e.pre e.label e.post) (hfit : e.pre.TokensFit) (hadmits : AdmitsUpTo limit e)
    (h : e.pre.outstanding ≤ limit) : e.post.outstanding ≤ limit := by
  obtain ⟨s, c, t⟩ := e
  change Next s c t at hn
  by_cases hc : ∃ inp, c = .op (.submit inp)
  · obtain ⟨inp, rfl⟩ := hc
    cases hn
    show (s.submit inp).1.outstanding ≤ limit
    rcases submit_load s inp with ⟨-, heq, -⟩ | ⟨hadmitted, heq, -, -⟩
    · rw [heq]
      exact h
    · rw [heq]
      exact hadmits inp rfl hadmitted
  · exact Nat.le_trans (next_outstanding_le hs hn (not_exists.mp hc) hfit) h

/-- The number of live sequences is an invariant of every run. The outstanding tokens stay within their limit exactly if
    every admission stays within it, and the growth of a dispatch does if no group that may form is larger. -/
theorem configured_limits_iff {h : History} {s : Fabric} (hr : RunsTo h s) : (0 < s.cfg.limits.maxActiveSequences →
      ∀ e ∈ h, e.post.activeCount ≤ s.cfg.limits.maxActiveSequences.toNat) ∧
    (0 < s.cfg.limits.maxOutstandingTokens → (∀ e ∈ h, e.pre.TokensFit) →
      ((∀ e ∈ h, e.post.outstanding ≤ s.cfg.limits.maxOutstandingTokens.toNat) ↔
        ∀ e ∈ h, AdmitsUpTo s.cfg.limits.maxOutstandingTokens.toNat e)) ∧
    (0 < s.cfg.groupLimits.maxKvGrowthBytes → ∀ e ∈ h, ∀ tn, e.label = .op (.schedule tn) →
      e.pre.GroupsWithin tn s.cfg.groupLimits.maxKvGrowthBytes.toNat →
      ∀ d ∈ (e.pre.schedule tn).2, d.growth ≤ s.cfg.groupLimits.maxKvGrowthBytes.toNat) := by
  refine ⟨fun hpos => ?_, fun _ hfit => ⟨fun hall e he => ?_, fun hadmits => ?_⟩, fun _ e _ tn _ hwithin d hd => ?_⟩
  · have hP : ∀ e ∈ h, Reachable e.pre ∧ e.pre.cfg = s.cfg := fun e he => ⟨(hr.before he).1, (hr.before he).2.2⟩
    refine fun e he => ((transition_invariant (I := fun u => u.activeCount ≤ s.cfg.limits.maxActiveSequences.toNat)
      (fun _ _ => Nat.zero_le _) (fun e hn _ hpre hle => ?_) hr hP).2 e he).2
    rw [← hpre.2] at hle hpos ⊢
    exact next_active_bounded hpre.1 hn hpos hle
  · -- what was admitted stands there afterwards
    intro inp hlabel hadmitted
    have hn := (hr.before he).2.1
    have hpost : e.post = (e.pre.submit inp).1 := by
      rw [hlabel] at hn
      generalize e.post = t at hn
      cases hn
      rfl
    rcases submit_load e.pre inp with ⟨hrefused, -, -⟩ | ⟨-, heq, -, -⟩
    · rw [hadmitted] at hrefused
      cases hrefused
    · rw [← heq, ← hpost]
      exact hall e he
  · have hP : ∀ e ∈ h, Reachable e.pre ∧ e.pre.TokensFit ∧ AdmitsUpTo s.cfg.limits.maxOutstandingTokens.toNat e :=
      fun e he => ⟨(hr.before he).1, hfit e he, hadmits e he⟩
    exact fun e he => ((transition_invariant (I := fun u => u.outstanding ≤ s.cfg.limits.maxOutstandingTokens.toNat)
      (fun _ _ => Nat.zero_le _)
      (fun e hn _ hpre hle => next_outstanding_bounded hpre.1 hn hpre.2.1 hpre.2.2 hle) hr hP).2 e he).2
  · exact schedule_growth_le hwithin hd

namespace Sample

/-- A fabric with the three limits set. -/
def limited (active : UInt32) (tokens growth : UInt64) : Fabric :=
  Fabric.init { limits := { maxActiveSequences := active, maxOutstandingTokens := tokens }
                groupLimits := { maxKvGrowthBytes := growth } } 0

/-- The limits just reached by one sequence with four tokens to go. -/
def snug : Fabric := limited 1 4 64

/-- The same fabric before its first tick. -/
def snugWaiting : Fabric := snug.execAll [.registerWorker (worker 1 1), .submit request]

/-- There is only sequence 1 to be due. -/
theorem snug_groupsWithin : snugWaiting.GroupsWithin 1 64 := by
  intro members key hnodup _ hdue
  have hone : ∀ m ∈ members, m = 1 := by
    intro m hm
    obtain ⟨x, hx, -⟩ := hdue m hm
    exact (Prod.mk.inj (mem_singleton.mp (find?_eq_some_iff.mp hx.found))).1
  match members, hnodup, hone with
  | [], _, _ => exact Nat.zero_le _
  | [m], _, hone =>
    obtain rfl := hone m mem_cons_self
    decide
  | m :: n :: l, hnodup, hone =>
    have hm := hone m (by simp)
    have hn := hone n (by simp)
    simp [hm, hn] at hnodup

theorem snug_tokensFit : ∀ e ∈ trace snug dispatched, e.pre.TokensFit := by
  have hwaiting : snugWaiting.TokensFit := by
    intro q x hx
    obtain ⟨rfl, rfl⟩ := Prod.mk.inj (mem_singleton.mp (find?_eq_some_iff.mp hx))
    decide
  intro e he
  rcases mem_cons.mp he with rfl | he
  · intro q x hx
    cases hx
  · rcases mem_cons.mp he with rfl | he
    · intro q x hx
      cases hx
    · obtain rfl := mem_singleton.mp he
      exact hwaiting

theorem snug_admits : ∀ e ∈ trace snug dispatched, AdmitsUpTo 4 e := by
  intro e he
  rcases mem_cons.mp he with rfl | he
  · rintro inp ⟨⟩
  · rcases mem_cons.mp he with rfl | he
    · rintro inp ⟨⟩ -
      decide
    · obtain rfl := mem_singleton.mp he
      rintro inp ⟨⟩

end Sample

theorem configured_limits_snug :
    (∀ e ∈ trace snug dispatched, e.post.activeCount ≤ 1 ∧ e.post.outstanding ≤ 4) ∧
      (snugWaiting.schedule 1).2.length = 1 ∧ ∀ d ∈ (snugWaiting.schedule 1).2, d.growth ≤ 64 := by
  have hlimits := configured_limits_iff (trace_runsTo _ 0 dispatched : RunsTo (trace snug dispatched) _)
  have htokens := (hlimits.2.1 (by decide) snug_tokensFit).mpr snug_admits
  refine ⟨fun e he => ⟨hlimits.1 (by decide) e he, htokens e he⟩, rfl, ?_⟩
  exact hlimits.2.2 (by decide) ⟨snugWaiting, .op (.schedule 1), snugWaiting.exec (.schedule 1)⟩
    (mem_cons_of_mem _ (mem_cons_of_mem _ mem_cons_self)) 1 rfl snug_groupsWithin

/-- With a limit of 3 tokens a request for 4 is admitted, and with a limit of one byte a dispatch of 64 leaves. -/
theorem configured_limits_ignored :
    RunsTo (trace (limited 0 3 1) dispatched) ((limited 0 3 1).execAll dispatched) ∧
      ((limited 0 3 1).execAll dispatched).outstanding = 4 ∧
      ∃ e ∈ trace (limited 0 3 1) dispatched, e.label = .op (.schedule 1) ∧
        (e.pre.schedule 1).2.map Dispatch.growth = [64] := by
  refine ⟨trace_runsTo _ 0 _, by decide, ?_⟩
  exact ⟨_, mem_cons_of_mem _ (mem_cons_of_mem _ mem_cons_self), rfl, by decide⟩

end DecodeFabric
