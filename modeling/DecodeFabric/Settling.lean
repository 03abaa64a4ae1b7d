import DecodeFabric.Effects
import DecodeFabric.Pump
import DecodeFabric.Lib.Batch

/- The fabric's part in a dispatch, whatever executor the pump drives.

   Each loop of `pump_once` over the members of a dispatch acts on the sequence of the member at hand (`Act.On`) and
   leaves what is known of the others (`Fabric.Beside`), so the loops are batches (`run_beside`). Authorizing the
   reports of a preparation and finalizing the receipts that came of the grants brings every report to its fate
   (`Fabric.settled_all`): it is granted and finalized, granted and left with its grant, refused and put back, or
   ended by the outcome it reports. -/
namespace DecodeFabric
open Lib Table Fabric List
variable {s s₀ t u : Fabric} {a : Act} {q : SequenceId} {x y : Seq} {pm : PreparedMember} {ga : GrantOrAbort}
  {r : MemberReceipt} {o : Option MemberReceipt} {prepared : PreparedDecode} {K L : SequenceId → Prop}

/-! Acts on some sequences. -/

/-- An act of the pump on a sequence of `K`. -/
def Act.On (K : SequenceId → Prop) : Act → Prop
  | .seq q _ => K q
  | .issue _ pm => K pm.sequence
  | .finalize r => K r.sequence
  | _ => False

theorem Act.On.mono (hKL : ∀ q, K q → L q) (ha : a.On K) : a.On L := by
  cases a with
  | seq _ _ | issue _ _ | finalize _ => exact hKL _ ha
  | _ => exact ha

/-- What no such act touches, the other sequences apart. -/
def Fabric.frame (s : Fabric) : Config × TimePoint × CoordinatorEpoch × Table WorkerId WorkerBootId × Nat :=
  (s.cfg, s.clock, s.epoch, s.workerCurrentBoot, s.nextDispatch)

theorem Micro.frame (hm : Micro s a t) (ha : a = .note ∨ a.On K) : t.frame = s.frame := by
  cases hm with
  | note _ hb | seq _ _ _ _ hb | issue _ _ _ _ _ hb | finalize _ _ _ hb =>
    exact congrArg (fun b : Books => (b.cfg, b.clock, b.epoch, b.workerCurrentBoot, b.nextDispatch)) hb
  | enrol | takeDispatch | abort | environment => rcases ha with ha | ha <;> cases ha

theorem Steps.frame (h : Steps (Act.On K) s t) : t.frame = s.frame :=
  h.invariant (I := fun u => u.frame = s.frame) (fun hm ha hs => (hm.frame ha).trans hs) rfl

theorem Steps.nextGrant_le {A : Act → Prop} (h : Steps A s t) : s.nextGrant ≤ t.nextGrant :=
  h.invariant (I := fun u => s.nextGrant ≤ u.nextGrant) (fun hm _ hs => Nat.le_trans hs hm.nextGrant_le) (Nat.le_refl _)

/-- What acts on other sequences leave of sequence `q` and of its pending grants. -/
structure Fabric.Beside (q : SequenceId) (s t : Fabric) : Prop where
  frame : t.frame = s.frame
  grants : s.nextGrant ≤ t.nextGrant
  seq : t.seqs.find? q = s.seqs.find? q
  pending : ∀ g : CommitGrant, g.sequence = q → g.grantId < s.nextGrant →
    s.grantLedger.find? g.grantId = some { grant := g } → t.grantLedger.find? g.grantId = some { grant := g }

theorem Fabric.Beside.refl (q : SequenceId) (s : Fabric) : Beside q s s :=
  ⟨rfl, Nat.le_refl _, rfl, fun _ _ _ => id⟩

theorem Fabric.Beside.trans (h : Beside q s t) (h' : Beside q t u) : Beside q s u where
  frame := h'.frame.trans h.frame
  grants := Nat.le_trans h.grants h'.grants
  seq := h'.seq.trans h.seq
  pending g hg hi he := h'.pending g hg (Nat.lt_of_lt_of_le hi h.grants) (h.pending g hg hi he)

theorem Micro.beside (hm : Micro s a t) (ha : a = .note ∨ a.On K) (hq : ¬ K q) : Beside q s t where
  frame := hm.frame ha
  grants := hm.nextGrant_le
  seq := by
    cases hm with
    | note hs _ => rw [hs]
    | seq _ _ _ hs _ | issue _ _ _ _ hs _ | finalize _ _ hs _ =>
      rw [hs]
      refine find?_modify_ne ?_ _
      rintro rfl
      exact hq (ha.resolve_left nofun)
    | enrol | takeDispatch | abort | environment => rcases ha with ha | ha <;> cases ha
  pending g hg hi he := by
    rw [← he]
    cases hm with
    | note _ hb | seq _ _ _ _ hb => exact congrArg (fun b => b.grantLedger.find? g.grantId) hb
    | issue prepared pm _ _ _ hb =>
      rw [show t.grantLedger = _ from congrArg Books.grantLedger hb]
      exact find?_insert_ne (Nat.ne_of_lt hi) _
    | finalize r hv _ hb =>
      rw [show t.grantLedger = _ from congrArg Books.grantLedger hb, find?_modify_ne]
      -- a receipt for the same id would fit the same grant, so be for the same sequence
      intro heq
      obtain ⟨gr, hgr, -, hfits⟩ := (receiptVerdict_finalize hv).grant
      rw [← heq, he] at hgr
      cases hgr
      have hseq : r.sequence = q := (of_decide_eq_true hfits).2.2.1.trans hg
      exact hq (hseq ▸ ha.resolve_left nofun)
    | enrol | takeDispatch | abort | environment => rcases ha with ha | ha <;> cases ha

theorem Steps.beside (h : Steps (Act.On K) s t) (hq : ¬ K q) : Beside q s t :=
  h.invariant (I := Beside q s) (fun hm ha hs => hs.trans (hm.beside ha hq)) (.refl q s)

/-- A loop whose turns act each on a sequence of its own brings every item from `T` to `D`. -/
theorem run_beside {α β : Type} {f : Fabric → α → Fabric × β} {N : α → SequenceId} {T : Fabric → α → Prop}
    {D : Fabric → α → β → Prop} (hsteps : ∀ s y, T s y → Steps (Act.On (· = N y)) s (f s y).1)
    (hturn : ∀ s y, T s y → D (f s y).1 y (f s y).2) (htodo : ∀ s t y, Beside (N y) s t → T s y → T t y)
    (hdone : ∀ s t y b, Beside (N y) s t → D s y b → D t y b) {l : List α} {s : Fabric}
    (hn : l.Pairwise fun y z => N y ≠ N z) (h : ∀ y ∈ l, T s y) :
    Forall₂ (D (scan f s l).1) l (scan f s l).2 := by
  have hbatch : Batch f (fun y z => N y ≠ N z) (fun _ => True) T D :=
    { apart := Ne.symm
      keeps := fun _ _ => trivial
      turn := fun _ h => hturn _ _ h
      todo := fun _ h hne h' => htodo _ _ _ ((hsteps _ _ h).beside hne.symm) h'
      done := fun _ h hne h' => hdone _ _ _ _ ((hsteps _ _ h).beside hne.symm) h' }
  exact (hbatch.run hn trivial h).2

/-! Authorizing. -/

theorem Fabric.prepareVerdict_frame (h : t.frame = s.frame) (x : Seq) (pm : PreparedMember) :
    t.prepareVerdict x pm = s.prepareVerdict x pm := by
  simp only [frame, Prod.mk.injEq] at h
  unfold prepareVerdict bootMoved
  rw [h.2.2.1, h.2.2.2.1]

namespace Fabric

/-- The answer to a member that is granted. -/
def grantReply (gid : GrantId) (prepared : PreparedDecode) (pm : PreparedMember) : GrantOrAbort :=
  { abortReply pm with hasGrant := true, grant := makeGrant gid prepared pm, hasAbort := false }

/-- What comes of the report `pm` on sequence `x`: an answer, perhaps a receipt for the grant in it, and the
    sequence as it is then. -/
inductive Fate (s : Fabric) (prepared : PreparedDecode) (pm : PreparedMember) (x : Seq) :
    GrantOrAbort → Option MemberReceipt → Seq → Prop
  | finished (gid : GrantId) (r : MemberReceipt) : s.prepareVerdict x pm = .grant →
      receiptFitsGrant r (makeGrant gid prepared pm) = true →
      Fate s prepared pm x (grantReply gid prepared pm) (some r) ((x.holdGrant gid pm).finish (s.finishTime r) r)
  | left (gid : GrantId) : s.prepareVerdict x pm = .grant → s.nextGrant ≤ gid →
      Fate s prepared pm x (grantReply gid prepared pm) none (x.holdGrant gid pm)
  | refused (rej : Rejection) : s.prepareVerdict x pm = .reject rej →
      Fate s prepared pm x
        { abortReply pm with rejected := true, aborted := true, errorCode := rej.code, reason := rej.reason } none
        (SeqOp.apply (.reconcile s.clock) x)
  | ended : s.prepareVerdict x pm = .noncommit →
      Fate s prepared pm x { abortReply pm with aborted := true, outcome := pm.outcome } none
        (x.resolve s.cfg s.mintAttempt s.clock pm.outcome)

/-- That came of `pm`, from `s₀` to `s`. -/
def Settled (s₀ : Fabric) (prepared : PreparedDecode) (s : Fabric) (pm : PreparedMember) (ga : GrantOrAbort)
    (o : Option MemberReceipt) : Prop :=
  ∃ x y, s₀.seqs.find? pm.sequence = some x ∧ s.seqs.find? pm.sequence = some y ∧ Fate s₀ prepared pm x ga o y

/-- `pm` was answered with `ga`, whose grant, if it is one, is pending. -/
structure Answered (s₀ : Fabric) (prepared : PreparedDecode) (s : Fabric) (pm : PreparedMember) (ga : GrantOrAbort) :
    Prop where
  frame : s.frame = s₀.frame
  settled : Settled s₀ prepared s pm ga none
  pending : ga.hasGrant = true →
    ga.grant.grantId < s.nextGrant ∧ s.grantLedger.find? ga.grant.grantId = some { grant := ga.grant }

theorem resolveNoncommit_find? {mo : MemberOutcome} (hx : s.seqs.find? q = some x) (hself : mo.sequence = q) :
    (s.resolveNoncommit q x mo).seqs.find? q = some (x.resolve s.cfg s.mintAttempt s.clock mo) := by
  rw [resolveNoncommit_seqs hx, hself, modify_modify, find?_modify_self, hx]
  split
  · rfl
  · rfl

theorem authorizeMember_on (prepared : PreparedDecode) (hself : pm.outcome.sequence = pm.sequence) (s : Fabric) :
    Steps (Act.On (· = pm.sequence)) s (authorizeMember prepared s pm).1 :=
  s.authorizeMember_steps prepared pm (fun _ _ _ _ => rfl) (fun _ _ _ => ⟨hself, rfl⟩) (fun _ _ _ => rfl)

theorem authorizeMember_answered (prepared : PreparedDecode) (hself : pm.outcome.sequence = pm.sequence)
    (hx : s₀.seqs.find? pm.sequence = some x) (h : Beside pm.sequence s₀ s) :
    Answered s₀ prepared (authorizeMember prepared s pm).1 pm (authorizeMember prepared s pm).2 := by
  have hframe := (authorizeMember_on prepared hself s).frame.trans h.frame
  have hverdict := prepareVerdict_frame h.frame x pm
  have hx' := h.seq.trans hx
  obtain ⟨hcfg, hclock, -, -, hdispatch⟩ := by simpa only [Fabric.frame, Prod.mk.injEq] using h.frame
  unfold authorizeMember at hframe ⊢
  simp only [hx'] at hframe ⊢
  cases hv : s.prepareVerdict x pm with
  | reject rej =>
    simp only [hv] at hframe
    refine ⟨hframe, ⟨x, _, hx, ?_, .refused rej (hverdict ▸ hv)⟩, fun hgrant => ?_⟩
    swap
    · cases hgrant
    rw [rejectMember_seqs, find?_modify_self, hx', hclock]
    rfl
  | noncommit =>
    simp only [hv] at hframe
    refine ⟨hframe, ⟨x, _, hx, ?_, .ended (hverdict ▸ hv)⟩, fun hgrant => ?_⟩
    swap
    · cases hgrant
    rw [resolveNoncommit_find? hx' hself, hcfg, hclock, mintAttempt, mintAttempt, hdispatch]
  | grant =>
    simp only [hv] at hframe
    refine ⟨hframe, ⟨x, _, hx, ?_, .left s.nextGrant (hverdict ▸ hv) h.grants⟩, fun _ =>
      ⟨Nat.lt_succ_self _, find?_insert_self _ _ _⟩⟩
    rw [issueGrant_seqs, find?_modify_self, hx']
    rfl

theorem Settled.beside (h : Settled s₀ prepared s pm ga o) (hst : Beside pm.sequence s t) :
    Settled s₀ prepared t pm ga o := by
  obtain ⟨x, y, hx, hy, hfate⟩ := h
  exact ⟨x, y, hx, hst.seq.trans hy, hfate⟩

theorem Settled.abortSpec (h : Settled s₀ prepared s pm ga o) : ga.abortSpec = pm.abortSpec := by
  obtain ⟨x, y, -, -, hfate⟩ := h
  cases hfate <;> rfl

/-- A grant is for the report it answers. -/
theorem Settled.granted (h : Settled s₀ prepared s pm ga o) (hgrant : ga.hasGrant = true) :
    ∃ gid, ga = grantReply gid prepared pm := by
  obtain ⟨x, y, -, -, hfate⟩ := h
  cases hfate with
  | finished gid _ _ _ | left gid _ _ => exact ⟨gid, rfl⟩
  | refused | ended => cases hgrant

theorem Answered.beside (h : Answered s₀ prepared s pm ga) (hst : Beside pm.sequence s t) :
    Answered s₀ prepared t pm ga where
  frame := hst.frame.trans h.frame
  settled := h.settled.beside hst
  pending hgrant := by
    obtain ⟨hlow, hpending⟩ := h.pending hgrant
    obtain ⟨gid, rfl⟩ := h.settled.granted hgrant
    exact ⟨Nat.lt_of_lt_of_le hlow hst.grants, hst.pending _ rfl hlow hpending⟩

/-! Finalizing. -/

theorem applyReceipt_on (r : MemberReceipt) (s : Fabric) : Steps (Act.On (· = r.sequence)) s (applyReceipt s r) := by
  unfold applyReceipt
  split
  · exact .refl _ _
  · exact .quiet _ rfl rfl
  · next x hv => exact .single (.finalize r hv (s.finalize_seqs x r) (s.finalize_books x r)) rfl

theorem applyReceipt_finalizes (h : Finalizable s x r) : applyReceipt s r = s.finalize x r := by
  simp only [applyReceipt, receiptVerdict_of_finalizable h]

/-- `o` is nothing, or a receipt for the grant in `ga`. -/
def GrantOrAbort.Honours (ga : GrantOrAbort) (o : Option MemberReceipt) : Prop :=
  ∀ r, o = some r → ga.hasGrant = true ∧ receiptFitsGrant r ga.grant = true

/-- Finalize the receipt, if there is one. -/
def finalizeIf (s : Fabric) (o : Option MemberReceipt) : Fabric := o.elim s (applyReceipt s)

theorem foldl_finalizeIf_nextGrant (os : List (Option MemberReceipt)) (s : Fabric) :
    s.nextGrant ≤ (os.foldl finalizeIf s).nextGrant := by
  refine Steps.nextGrant_le (A := fun _ => True) (Steps.foldl (fun u o _ => ?_) s)
  cases o with
  | none => exact .refl _ _
  | some r => exact (applyReceipt_on r u).mono fun _ _ => trivial

theorem foldl_finalizeIf (os : List (Option MemberReceipt)) (s : Fabric) :
    os.foldl finalizeIf s = (os.filterMap id).foldl applyReceipt s := by
  induction os generalizing s with
  | nil => rfl
  | cons o os ih => cases o <;> exact ih _

theorem finalizeIf_on (h : Settled s₀ prepared t pm ga none) (ho : ga.Honours o) (s : Fabric) :
    Steps (Act.On (· = pm.sequence)) s (s.finalizeIf o) := by
  cases o with
  | none => exact .refl _ _
  | some r =>
    obtain ⟨hgrant, hfits⟩ := ho r rfl
    obtain ⟨gid, rfl⟩ := h.granted hgrant
    have hseq : r.sequence = pm.sequence := (of_decide_eq_true hfits).2.2.1
    exact hseq ▸ applyReceipt_on r s

theorem Answered.finalize (h : Answered s₀ prepared s pm ga) (ho : ga.Honours o) :
    Settled s₀ prepared (s.finalizeIf o) pm ga o := by
  cases o with
  | none => exact h.settled
  | some r =>
    obtain ⟨hgrant, hfits⟩ := ho r rfl
    obtain ⟨-, hpending⟩ := h.pending hgrant
    obtain ⟨x, y, hx, hy, hfate⟩ := h.settled
    cases hfate with
    | refused | ended => cases hgrant
    | left gid hv hlow =>
      have hgranted := prepareVerdict_grant hv
      obtain ⟨hid, hproposal, hseq, -⟩ := of_decide_eq_true hfits
      have hfin : Finalizable s (x.holdGrant gid pm) r :=
        ⟨hseq ▸ hy, ⟨_, hid ▸ hpending, rfl, hfits⟩, rfl, hid.symm, hproposal.symm, hgranted.live,
        hgranted.notCancelling⟩
      have hclock : s.clock = s₀.clock := congrArg (fun f => f.2.1) h.frame
      refine ⟨x, _, hx, ?_, .finished gid r hv hfits⟩
      change (applyReceipt s r).seqs.find? pm.sequence = _
      rw [applyReceipt_finalizes hfin, finalize_seqs, show r.sequence = pm.sequence from hseq, find?_modify_self, hy,
        finishTime, finishTime, hclock]
      rfl

/-! The whole of it. -/

section
variable (hn : prepared.members.Pairwise fun pm pm' => pm.sequence ≠ pm'.sequence)
  (hself : ∀ pm ∈ prepared.members, pm.outcome.sequence = pm.sequence)
  (hknown : ∀ pm ∈ prepared.members, ∃ x, s.seqs.find? pm.sequence = some x)
include hn hself hknown

theorem answered_all : Forall₂ (Answered s prepared (s.authorizePrepared prepared).1) prepared.members
    (s.authorizePrepared prepared).2.members := by
  refine run_beside (f := authorizeMember prepared) (N := PreparedMember.sequence)
    (T := fun u pm => pm ∈ prepared.members ∧ Beside pm.sequence s u) ?_ ?_ ?_ ?_ hn fun pm hpm => ⟨hpm, .refl _ s⟩
  · exact fun u pm h => authorizeMember_on prepared (hself pm h.1) u
  · intro u pm h
    obtain ⟨x, hx⟩ := hknown pm h.1
    exact authorizeMember_answered prepared (hself pm h.1) hx h.2
  · exact fun _ _ _ hst h => ⟨h.1, h.2.trans hst⟩
  · exact fun _ _ _ _ hst h => h.beside hst

/-- Every report comes to its fate. -/
theorem settled_all {os : List (Option MemberReceipt)}
    (hos : Forall₂ GrantOrAbort.Honours (s.authorizePrepared prepared).2.members os) :
    Forall₂ (fun pm p => Settled s prepared (os.foldl finalizeIf (s.authorizePrepared prepared).1) pm p.1 p.2)
      prepared.members ((s.authorizePrepared prepared).2.members.zip os) := by
  have hanswer := answered_all hn hself hknown
  generalize (s.authorizePrepared prepared).1 = s₁ at hanswer ⊢
  generalize (s.authorizePrepared prepared).2.members = gas at hos hanswer ⊢
  have hzip := forall₂_zip hanswer hos
  have hlen := hzip.length_eq
  have hapart : (prepared.members.zip (gas.zip os)).Pairwise fun y z => y.1.sequence ≠ z.1.sequence := by
    rw [← map_fst_zip hlen.le, pairwise_map] at hn
    exact hn
  have hall := run_beside (s := s₁) (l := prepared.members.zip (gas.zip os))
    (f := fun u y => (u.finalizeIf y.2.2, ())) (N := fun y => y.1.sequence)
    (T := fun u y => Answered s prepared u y.1 y.2.1 ∧ y.2.1.Honours y.2.2)
    (D := fun u y _ => Settled s prepared u y.1 y.2.1 y.2.2) (fun u _ h => finalizeIf_on h.1.settled h.2 u)
    (fun _ _ h => h.1.finalize h.2) (fun _ _ _ hst h => ⟨h.1.beside hst, h.2⟩) (fun _ _ _ _ hst h => h.beside hst)
    hapart fun _ hy => (forall₂_iff_zip.mp hzip).2 hy
  -- the loop over the receipts alone ends in the same state
  have hloop : (scan (fun (u : Fabric) y => (u.finalizeIf y.2.2, ())) s₁ (prepared.members.zip (gas.zip os))).1 =
      os.foldl finalizeIf s₁ := by
    have hreceipts : (prepared.members.zip (gas.zip os)).map (Prod.snd ∘ Prod.snd) = os := by
      rw [← map_map, map_snd_zip hlen.ge, map_snd_zip hos.length_eq.ge]
    rw [scan_fst, ← hreceipts, foldl_map, hreceipts]
    rfl
  rw [hloop] at hall
  exact forall₂_iff_zip.mpr ⟨hlen, fun hy => (forall₂_answer hall _ hy).choose_spec.2⟩

/-- Nothing else is touched. -/
theorem settled_on {os : List (Option MemberReceipt)}
    (hos : Forall₂ GrantOrAbort.Honours (s.authorizePrepared prepared).2.members os) :
    Steps (Act.On fun q => ∃ pm ∈ prepared.members, q = pm.sequence) s
      (os.foldl finalizeIf (s.authorizePrepared prepared).1) := by
  have hown : ∀ pm ∈ prepared.members, ∀ a, Act.On (· = pm.sequence) a →
      Act.On (fun q => ∃ pm ∈ prepared.members, q = pm.sequence) a :=
    fun pm hpm _ => Act.On.mono fun _ hq => ⟨pm, hpm, hq⟩
  refine Steps.trans ?_ (Steps.foldl (fun u o ho => ?_) _)
  · rw [authorizePrepared_eq_foldl]
    exact Steps.foldl (fun u pm hpm => (authorizeMember_on prepared (hself pm hpm) u).mono (hown pm hpm)) s
  · obtain ⟨ga, hga, hhonours⟩ := forall₂_item hos o ho
    obtain ⟨pm, hpm, hanswered⟩ := forall₂_item (answered_all hn hself hknown) ga hga
    exact (finalizeIf_on hanswered.settled hhonours u).mono (hown pm hpm)

end
end Fabric

/-! The pump over any executor. -/

namespace DecodeExecutor
variable {E : Type} (B : DecodeExecutor E)

/-- A preparation that succeeds reports on the members it was asked for, a commit that succeeds returns the receipt
    of its grant. Either may fail. -/
structure Honest : Prop where
  prepare : ∀ {req took ex ex' prepared}, B.prepare req took ex = (ex', .ok prepared) →
    Forall₂ (fun m pm => pm.sequence = m.sequence ∧ pm.outcome.sequence = m.sequence) req.members prepared.members
  commit : ∀ {g ex ex' r}, B.commit g ex = (ex', .ok r) → receiptFitsGrant r g = true

variable {B}

theorem Honest.honours (hB : B.Honest) (tn : TimePoint) (ex : E) (ga : GrantOrAbort) :
    ga.Honours (B.resolveMember tn ex ga).2 := by
  intro r hr
  unfold resolveMember at hr
  split at hr
  · cases hr
  · next hgo =>
    rcases hcommit : B.commit ga.grant ex with ⟨ex', e | mr⟩
    · rw [hcommit] at hr
      cases hr
    · rw [hcommit] at hr
      cases hr
      have hfits : receiptFitsGrant mr ga.grant = true := hB.commit hcommit
      exact ⟨by simpa using (not_or.mp (not_or.mp hgo).2).2, hfits⟩

theorem Honest.honoured (hB : B.Honest) (tn : TimePoint) (ex : E) (gas : List GrantOrAbort) :
    Forall₂ GrantOrAbort.Honours gas (scan (B.resolveMember tn) ex gas).2 := by
  induction gas generalizing ex with
  | nil => exact .nil
  | cons ga gas ih => exact .cons (hB.honours tn ex ga) (ih _)

/-- The reports are about different sequences of the fabric, each about its own. -/
theorem Honest.reports (hB : B.Honest) {took : StepTimes} {d : Dispatch} {ex ex' : E}
    (hprepare : B.prepare d.toRequest took ex = (ex', .ok prepared))
    (hn : d.members.Pairwise fun m m' => m.sequence ≠ m'.sequence)
    (h : ∀ m ∈ d.members, ∃ x, s.seqs.find? m.sequence = some x) :
    prepared.members.Pairwise (fun pm pm' => pm.sequence ≠ pm'.sequence) ∧
      (∀ pm ∈ prepared.members, pm.outcome.sequence = pm.sequence) ∧
      ∀ pm ∈ prepared.members, ∃ x, s.seqs.find? pm.sequence = some x := by
  have hreports := hB.prepare hprepare
  refine ⟨forall₂_pairwise (fun m m' pm pm' hm hm' hne => ?_) hreports hn, fun pm hpm => ?_, fun pm hpm => ?_⟩
  · rw [hm.1, hm'.1]
    exact hne
  · obtain ⟨m, -, hseq, hout⟩ := forall₂_item hreports pm hpm
    exact hout.trans hseq.symm
  · obtain ⟨m, hm, hseq, -⟩ := forall₂_item hreports pm hpm
    rw [hseq]
    exact h m hm

/-- What every call keeps of the executor, the pump of a dispatch keeps. -/
theorem pumpDispatch_keeps {I : E → Prop} (hprepare : ∀ req took ex, I ex → I (B.prepare req took ex).1)
    (hcommit : ∀ g ex, I ex → I (B.commit g ex).1) (habort : ∀ a ex, I ex → I (B.abort a ex).1)
    {p : Fabric × E} (h : I p.2) (took : StepTimes) (tn : TimePoint) (d : Dispatch) :
    I (B.pumpDispatch took tn p d).2 := by
  have hdiscard : ∀ (ga : GrantOrAbort) ex, I ex →
    I (if ga.hasAbort = true then (B.abort ga.abortSpec ex).1 else ex) := by
    intro ga ex hex
    split
    · exact habort _ _ hex
    · exact hex
  have hturn : ∀ ga ex, I ex → I (B.resolveMember tn ex ga).1 := by
    intro ga ex hex
    unfold resolveMember
    split
    · exact hdiscard ga ex hex
    · have hcommitted := hcommit ga.grant ex hex
      generalize B.commit ga.grant ex = result at hcommitted
      obtain ⟨ex', e | mr⟩ := result
      · exact hdiscard ga ex' hcommitted
      · exact hcommitted
  have hprepared := hprepare d.toRequest took p.2 h
  unfold pumpDispatch
  generalize B.prepare d.toRequest took p.2 = result at hprepared
  obtain ⟨ex, e | prepared⟩ := result
  · exact hprepared
  · change I (scan (B.resolveMember tn) ex _).1
    rw [scan_fst]
    exact foldl_invariant (fun t _ ht => hturn t.2 t.1 ht) hprepared

theorem pumpDispatch_prepared {took : StepTimes} {p : Fabric × E} {d : Dispatch} {ex : E}
    (h : B.prepare d.toRequest took p.2 = (ex, .ok prepared)) (tn : TimePoint) : (B.pumpDispatch took tn p d).1 =
      (scan (B.resolveMember tn) ex (p.1.authorizePrepared prepared).2.members).2.foldl finalizeIf
        (p.1.authorizePrepared prepared).1 := by
  rw [foldl_finalizeIf, pumpDispatch, h]
  rfl

/-- The pump of a dispatch acts on the sequences of its members. -/
theorem Honest.pumpDispatch_on (hB : B.Honest) (took : StepTimes) (tn : TimePoint)
    {p : Fabric × E} {d : Dispatch} (hn : d.members.Pairwise fun m m' => m.sequence ≠ m'.sequence)
    (h : ∀ m ∈ d.members, ∃ x, p.1.seqs.find? m.sequence = some x) :
    Steps (Act.On fun q => ∃ m ∈ d.members, q = m.sequence) p.1 (B.pumpDispatch took tn p d).1 := by
  rcases hprepare : B.prepare d.toRequest took p.2 with ⟨ex, e | prepared⟩
  · unfold pumpDispatch
    rw [hprepare, show (p.1.applyCompletion (d.prepareFailure e)).1 = _ from foldl_map]
    exact Steps.foldl (fun u m hm => u.applyOutcome_steps _ (m.prepareFailure e) (fun _ _ _ _ => ⟨m, hm, rfl⟩)
      fun _ _ _ => ⟨⟨m, hm, rfl⟩, ⟨m, hm, rfl⟩⟩) p.1
  · obtain ⟨hapart, hself, hknown⟩ := hB.reports hprepare hn h
    rw [pumpDispatch_prepared hprepare]
    refine (Fabric.settled_on hapart hself hknown (hB.honoured tn ex _)).mono fun _ => Act.On.mono ?_
    rintro q ⟨pm, hpm, rfl⟩
    obtain ⟨m, hm, hseq, -⟩ := forall₂_item (hB.prepare hprepare) pm hpm
    exact ⟨m, hm, hseq⟩

end DecodeExecutor
end DecodeFabric
