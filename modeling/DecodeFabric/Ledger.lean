import DecodeFabric.Lib.Permit
import DecodeFabric.Tick

/- The grant ledger refines a book of one-use permits.

   Sequences are the owners, commit grants the permits: `authorize_prepared` issues,
   `apply_commit_receipt` spends, `abort_prepared` voids, and every reconciliation silently
   drops the grant a sequence holds. `Fabric.book` reads the fabric as such a book, given the
   chain of grants already spent for each sequence; `Linked` adds what ties a sequence's own
   counters and digest to its chain. `micro_linked` and `finalize_linked` are the simulation. -/
namespace DecodeFabric
open Lib Table Function Fabric Option DecodeFabric.Seq
variable {i : GrantId} {rec : GrantRecord} {l : List CommitGrant} {r : MemberReceipt} {x y : Seq} {q : SequenceId}

/-! What an operation can do to a sequence's protocol fields. -/

/-- `y` is `x` after a change that finalizes nothing and issues nothing. -/
structure Touched (x y : Seq) : Prop where
  req : y.req = x.req
  committed : y.committed = x.committed
  generation : y.generation = x.generation
  currentLength : y.currentLength = x.currentLength
  digest : y.committedStateDigest = x.committedStateDigest
  established : y.stateDigestEstablished = x.stateDigestEstablished
  generated : y.generated = x.generated ∨ y.generated = x.committed
  budget : y.budget = x.budget ∨ y.budget = x.rebuildBudget
  grant : (y.hasInflightGrant = x.hasInflightGrant ∧ y.inFlightGrant = x.inFlightGrant) ∨
    y.hasInflightGrant = false
  dispatch : (y.inFlightDispatch = x.inFlightDispatch ∧ y.inFlightGeneration = x.inFlightGeneration) ∨
    y.inFlightDispatch = 0 ∨ (y.inFlightGeneration = x.generation ∧ x.budget.exhausted = false)

namespace Touched

/-- A change of lifecycle, times and reservation only. -/
theorem plain (h : y = { x with
    machine := y.machine, readyAt := y.readyAt, reservation := y.reservation, hasInflight := y.hasInflight
    currentAttempt := y.currentAttempt, attemptCount := y.attemptCount, lastGroupedAt := y.lastGroupedAt }) :
    Touched x y := by
  rw [h]
  exact ⟨rfl, rfl, rfl, rfl, rfl, rfl, .inl rfl, .inl rfl, .inl ⟨rfl, rfl⟩, .inl ⟨rfl, rfl⟩⟩

end Touched

theorem SeqOp.touched {s : Fabric} {o : SeqOp} (hg : o.Guard s x) : Touched x (o.apply x) := by
  cases o with
  | release | moveTo st | retire st | beginAttempt a now | workerDown now | enterGroup tn | disown =>
    exact Touched.plain rfl
  | rollBackTokens =>
    exact ⟨rfl, rfl, rfl, rfl, rfl, rfl, .inr rfl, .inl rfl, .inl ⟨rfl, rfl⟩, .inl ⟨rfl, rfl⟩⟩
  | dispatchUnder d =>
    exact ⟨rfl, rfl, rfl, rfl, rfl, rfl, .inl rfl, .inl rfl, .inl ⟨rfl, rfl⟩,
      .inr (.inr ⟨rfl, hg.1⟩)⟩
  | reconcile now =>
    exact ⟨rfl, rfl, rfl, rfl, rfl, rfl, .inl rfl, .inl rfl, .inr rfl, .inr (.inl rfl)⟩
  | resolve cfg a now mo =>
    obtain ⟨st, ready, attempt, count, generated, budget, heq, hroll, -⟩ :=
      noncommit_shape cfg a now mo x.endDispatch.release
    change Touched x (x.endDispatch.release.noncommit cfg a now mo)
    rw [heq]
    refine ⟨rfl, rfl, rfl, rfl, rfl, rfl, ?_, ?_, .inl ⟨rfl, rfl⟩, .inr (.inl rfl)⟩
    · exact hroll.imp And.left And.left
    · exact hroll.imp And.right And.right

/-! The fabric as a book of permits. -/

/-- The grant a sequence holds. -/
def Seq.heldGrant (x : Seq) : Option GrantId := if x.hasInflightGrant then some x.inFlightGrant else none

def GrantStatus.toPermit : GrantStatus → Permit.Status
  | .pending => .pending
  | .consumed => .spent
  | .aborted => .void

def GrantRecord.toEntry (r : GrantRecord) : Permit.Entry SequenceId CommitGrant :=
  ⟨r.grant.sequence, r.grant, r.status.toPermit⟩

abbrev Chains := SequenceId → List CommitGrant

def Fabric.book (s : Fabric) (c : Chains) : Permit.Book SequenceId CommitGrant where
  next := s.nextGrant
  entry := fun g => (s.grantLedger.find? g).map GrantRecord.toEntry
  live := fun q => (s.seqs.find? q).bind heldGrant
  chain := c

/-- When grant `g` may follow the grants `l` already spent for its sequence: it starts in the state and at
    the position the last one led to and, if `exact`, is for the next generation. -/
def Follows (exact : Prop) (_ : SequenceId) (l : List CommitGrant) (g : CommitGrant) : Prop :=
  (∀ g' ∈ l.getLast?, g.preStateDigest = g'.postStateDigest ∧
    g.committedPosition = g'.committedPosition + 1) ∧
  (exact → g.generation = l.length + 1)

/-- What ties sequence `x` to the chain `l` of its spent grants. -/
structure SeqLink (s : Fabric) (l : List CommitGrant) (x : Seq) : Prop where
  generation : x.generation = l.length + 1
  committed : x.committed = x.generated
  last : ∀ g ∈ l.getLast?, x.stateDigestEstablished = true ∧ x.committedStateDigest = g.postStateDigest ∧
    x.generated = g.committedPosition + 1
  held : ∀ i ∈ x.heldGrant, ∀ rec, s.grantLedger.find? i = some rec → rec.grant.committedPosition = x.generated
  dispatch : x.inFlightDispatch ≠ 0 → x.inFlightGeneration = x.generation

structure Linked (exact : Prop) (s : Fabric) (c : Chains) : Prop where
  sound : Permit.Sound (Follows exact) (s.book c)
  absent : ∀ q, s.seqs.find? q = none → c q = []
  seq : ∀ q x, s.seqs.find? q = some x → SeqLink s (c q) x

/-- What the sequences hold after a change of one of them. -/
theorem live_modify (t : Table SequenceId Seq) (q : SequenceId) (f : Seq → Seq) :
    (fun j => ((t.modify q f).find? j).bind heldGrant) =
      update (fun j => (t.find? j).bind heldGrant) q
        ((t.find? q).bind fun x => (f x).heldGrant) := by
  funext j
  by_cases hj : j = q
  · subst hj
    rw [update_self, find?_modify_self]
    cases t.find? j <;> rfl
  · rw [update_of_ne hj, find?_modify_ne hj]

/-- What the ledger holds after a change of one entry. -/
theorem entry_modify {t : Table GrantId GrantRecord} (h : t.find? i = some rec) (f : GrantRecord → GrantRecord) :
    (fun g => ((t.modify i f).find? g).map GrantRecord.toEntry) =
      update (fun g => (t.find? g).map GrantRecord.toEntry) i (some (f rec).toEntry) := by
  funext g
  by_cases hg : g = i
  · subst hg
    rw [update_self, find?_modify_self, h]
    rfl
  · rw [update_of_ne hg, find?_modify_ne hg]

theorem Linked.init (exact : Prop) (cfg : Config) (clock : TimePoint) :
    Linked exact (Fabric.init cfg clock) (fun _ => []) := by
  refine ⟨⟨?_, ?_, ?_, ?_⟩, fun _ _ => rfl, ?_⟩
  · intro i e h
    simp [Fabric.book, Fabric.init] at h
  · intro k i h
    simp [Fabric.book, Fabric.init] at h
  · intro k l p r h
    simp [Fabric.book] at h
  · intro k
    simp [Fabric.book, Fabric.init, Permit.Book.spentBy]
  · intro q x h
    simp [Fabric.init] at h

/-! The simulation, step by step. -/

section Simulation
variable {exact : Prop} {s t : Fabric} {c : Chains}

/-- A sequence whose held grant's entry keeps its grant keeps its link. -/
theorem SeqLink.of_ledger (h : SeqLink s l x) (hled : ∀ i ∈ x.heldGrant, ∀ rec, t.grantLedger.find? i = some rec →
      ∃ rec', s.grantLedger.find? i = some rec' ∧ rec.grant = rec'.grant) : SeqLink t l x := by
  refine ⟨h.generation, h.committed, h.last, ?_, h.dispatch⟩
  intro i hi rec hrec
  obtain ⟨rec', hrec', heq⟩ := hled i hi rec hrec
  rw [heq]
  exact h.held i hi rec' hrec'

/-- Nothing the book reads has changed. -/
theorem Linked.of_same (h : Linked exact s c) (hseqs : ∀ q, t.seqs.find? q = s.seqs.find? q)
    (hled : t.grantLedger = s.grantLedger) (hnext : t.nextGrant = s.nextGrant) : Linked exact t c := by
  have hbook : t.book c = s.book c := by
    simp only [book, hseqs, hled, hnext]
  refine ⟨hbook ▸ h.sound, fun q hq => h.absent q (hseqs q ▸ hq), fun q x hx => ?_⟩
  refine (h.seq q x (hseqs q ▸ hx)).of_ledger (fun i _ rec hrec => ⟨rec, hled ▸ hrec, rfl⟩)

/-- A sequence `x` touched into `y` under the same ledger. -/
theorem SeqLink.touched (h : SeqLink s l x) (hxy : Touched x y)
    (hled : t.grantLedger = s.grantLedger) : SeqLink t l y := by
  have hgen : y.generated = x.generated := by
    rcases hxy.generated with hg | hg
    · exact hg
    · exact hg.trans h.committed
  refine ⟨hxy.generation.trans h.generation, ?_, ?_, ?_, ?_⟩
  · rw [hxy.committed, hgen]
    exact h.committed
  · intro g hg
    rw [hxy.established, hxy.digest, hgen]
    exact h.last g hg
  · intro i hi rec hrec
    rw [hgen]
    rw [hled] at hrec
    refine h.held i ?_ rec hrec
    -- what is held after the change was held before
    rcases hxy.grant with ⟨hh, hi'⟩ | hno
    · unfold heldGrant at hi ⊢
      rw [← hh, ← hi']
      exact hi
    · simp [heldGrant, hno] at hi
  · intro hd
    rcases hxy.dispatch with ⟨h1, h2⟩ | h0 | ⟨h2, -⟩
    · rw [h1] at hd
      rw [h2, hxy.generation]
      exact h.dispatch hd
    · exact absurd h0 hd
    · rw [h2, hxy.generation]

theorem Touched.heldGrant (h : Touched x y) : y.heldGrant = x.heldGrant ∨ y.heldGrant = none := by
  unfold Seq.heldGrant
  rcases h.grant with ⟨h1, h2⟩ | h0
  · exact .inl (by rw [h1, h2])
  · exact .inr (by rw [h0]; rfl)

theorem Linked.touched (h : Linked exact s c) {f : Seq → Seq}
    (hq : s.seqs.find? q = some x) (hxy : Touched x (f x)) (hseqs : t.seqs = s.seqs.modify q f)
    (hled : t.grantLedger = s.grantLedger) (hnext : t.nextGrant = s.nextGrant) : Linked exact t c := by
  refine ⟨?_, ?_, ?_⟩
  · have hlive : (t.book c).live = update (s.book c).live q ((f x).heldGrant) := by
      simp only [book, hseqs, live_modify, hq, bind_some]
    rcases hxy.heldGrant with hsame | hnone
    · have hold : (s.book c).live q = (f x).heldGrant := by
        simp only [book, hq, bind_some, hsame]
      have hbook : t.book c = s.book c := by
        rw [← hold, update_eq_self] at hlive
        simp only [book] at hlive ⊢
        rw [hlive, hled, hnext]
      rw [hbook]
      exact h.sound
    · have hbook : t.book c = (s.book c).drop q := by
        rw [hnone] at hlive
        simp only [book, Permit.Book.drop] at hlive ⊢
        rw [hlive, hled, hnext]
      rw [hbook]
      exact h.sound.step (Permit.Step.drop q)
  · intro j hj
    rw [hseqs, find?_modify_eq_none_iff] at hj
    exact h.absent j hj
  · intro j y hy
    rw [hseqs] at hy
    rcases find?_modify_of_some hq hy with ⟨rfl, rfl⟩ | ⟨-, hy⟩
    · exact (h.seq j x hq).touched hxy hled
    · exact (h.seq j y hy).of_ledger (fun i _ rec hrec => ⟨rec, hled ▸ hrec, rfl⟩)

theorem Linked.enrol (h : Linked exact s c) {req : DecodeRequest}
    (hq : s.seqs.find? q = none) (hseqs : t.seqs = s.seqs.insert q (ofRequest req))
    (hled : t.grantLedger = s.grantLedger) (hnext : t.nextGrant = s.nextGrant) : Linked exact t c := by
  have hbook : t.book c = s.book c := by
    have hlive : ∀ j, (t.seqs.find? j).bind heldGrant = (s.seqs.find? j).bind heldGrant := by
      intro j
      rw [hseqs, find?_insert]
      split
      · next hj => rw [hj, hq]; rfl
      · rfl
    simp only [book, hlive, hled, hnext]
  refine ⟨hbook ▸ h.sound, ?_, ?_⟩
  · intro j hj
    rw [hseqs, find?_insert] at hj
    split at hj
    · cases hj
    · exact h.absent j hj
  · intro j y hy
    rw [hseqs, find?_insert] at hy
    split at hy
    · next hj =>
      cases hy
      rw [hj, h.absent q hq]
      exact ⟨rfl, rfl, by simp, by simp [heldGrant, ofRequest], fun h0 => absurd rfl h0⟩
    · exact (h.seq j y hy).of_ledger (fun i _ rec hrec => ⟨rec, hled ▸ hrec, rfl⟩)

/-- The entry behind a held grant: pending, and made out to the holder. -/
theorem Linked.held_entry (h : Linked exact s c) (hq : s.seqs.find? q = some x) (hh : x.hasInflightGrant = true) :
    ∃ rec, s.grantLedger.find? x.inFlightGrant = some rec ∧ rec.status = .pending ∧ rec.grant.sequence = q ∧
      Follows exact q (c q) rec.grant := by
  have hlive : (s.book c).live q = some x.inFlightGrant := by
    simp [book, hq, heldGrant, hh]
  obtain ⟨g, hg, hok⟩ := h.sound.live q _ hlive
  simp only [book, map_eq_some_iff] at hg
  obtain ⟨rec, hrec, hentry⟩ := hg
  simp only [GrantRecord.toEntry, Permit.Entry.mk.injEq] at hentry
  obtain ⟨hown, rfl, hst⟩ := hentry
  refine ⟨rec, hrec, ?_, hown, hok⟩
  revert hst
  cases rec.status <;> simp [GrantStatus.toPermit]

theorem Linked.issue (h : Linked exact s c) {prepared : PreparedDecode} {pm : PreparedMember}
    (hq : s.seqs.find? pm.sequence = some x) (hv : s.prepareVerdict x pm = .grant) (hdisp : exact → pm.dispatch ≠ 0)
    (hseqs : t.seqs = s.seqs.modify pm.sequence (holdGrant s.nextGrant pm))
    (hled : t.grantLedger = s.grantLedger.insert s.nextGrant
      { grant := makeGrant s.nextGrant prepared pm })
    (hnext : t.nextGrant = s.nextGrant + 1) : Linked exact t c := by
  have hgr := prepareVerdict_grant hv
  have hlink := h.seq pm.sequence x hq
  have hnone : (s.book c).live pm.sequence = none := by
    simp [book, hq, heldGrant, hgr.noGrant]
  have hok : Follows exact pm.sequence (c pm.sequence) (makeGrant s.nextGrant prepared pm) := by
    refine ⟨?_, ?_⟩
    · intro g' hg'
      obtain ⟨hest, hdig, hpos⟩ := hlink.last g' hg'
      exact ⟨(hgr.digest hest).trans hdig, hgr.position.trans hpos⟩
    · intro hex
      have hd : x.inFlightDispatch ≠ 0 := hgr.dispatch ▸ hdisp hex
      exact (hgr.generation.trans (hlink.dispatch hd)).trans hlink.generation
  have hbook : t.book c = (s.book c).issue pm.sequence (makeGrant s.nextGrant prepared pm) := by
    have hlive : (fun j => (t.seqs.find? j).bind heldGrant) =
        update (fun j => (s.seqs.find? j).bind heldGrant) pm.sequence (some s.nextGrant) := by
      rw [hseqs, live_modify, hq]
      rfl
    have hentry : (fun g => (t.grantLedger.find? g).map GrantRecord.toEntry) =
        update (fun g => (s.grantLedger.find? g).map GrantRecord.toEntry) s.nextGrant
          (some ⟨pm.sequence, makeGrant s.nextGrant prepared pm, .pending⟩) := by
      funext g
      rw [hled, find?_insert]
      by_cases hg : g = s.nextGrant
      · subst hg
        rw [if_pos rfl, update_self]
        rfl
      · rw [if_neg hg, update_of_ne hg]
    simp only [book, Permit.Book.issue, hlive, hentry, hnext]
  refine ⟨hbook ▸ h.sound.step (Permit.Step.issue hnone hok), ?_, ?_⟩
  · intro j hj
    rw [hseqs, find?_modify_eq_none_iff] at hj
    exact h.absent j hj
  · intro j y hy
    rw [hseqs] at hy
    rcases find?_modify_of_some hq hy with ⟨rfl, rfl⟩ | ⟨hjq, hy⟩
    · refine ⟨hlink.generation, hlink.committed, hlink.last, ?_, hlink.dispatch⟩
      intro i hi rec hrec
      have hi' : i = s.nextGrant := by simpa [heldGrant, holdGrant] using hi.symm
      subst hi'
      rw [hled, find?_insert_self] at hrec
      cases hrec
      exact hgr.position
    · -- what another sequence holds was issued earlier
      refine (h.seq j y hy).of_ledger (fun i hi rec hrec => ⟨rec, ?_, rfl⟩)
      have hlt : i < s.nextGrant := by
        have hlive : (s.book c).live j = some i := by simp only [book, hy, bind_some]; exact hi
        obtain ⟨g, hg, -⟩ := h.sound.live j i hlive
        exact h.sound.bounded i _ hg
      rwa [hled, find?_insert_ne (Nat.ne_of_lt hlt)] at hrec

/-- A change of ledger entries that keeps every grant. -/
theorem entry_grant_kept {tbl : Table GrantId GrantRecord} {j : GrantId} {f : GrantRecord → GrantRecord}
    (hf : ∀ r, (f r).grant = r.grant) (h : (tbl.modify i f).find? j = some rec) :
    ∃ rec', tbl.find? j = some rec' ∧ rec.grant = rec'.grant := by
  rcases find?_modify_cases h with ⟨rfl, v, hv, rfl⟩ | ⟨-, h⟩
  · exact ⟨v, hv, hf v⟩
  · exact ⟨rec, h, rfl⟩

theorem receiptFitsGrant_spec {g : CommitGrant} (h : receiptFitsGrant r g = true) :
    r.grantId = g.grantId ∧ r.sequence = g.sequence ∧ r.generation = g.generation ∧ r.attempt = g.attempt ∧
    r.workerBoot = g.workerBoot ∧ r.epoch = g.epoch ∧ r.committedPositionBefore = g.committedPosition ∧
    r.preStateDigest = g.preStateDigest ∧ r.postStateDigest = g.postStateDigest := by
  simp only [receiptFitsGrant, decide_eq_true_eq] at h
  obtain ⟨h1, -, h3, -, h5, h6, h7, h8, -, h10, h11, h12⟩ := h
  exact ⟨h1, h3, h6, h5, h7, h8, h10, h11, h12⟩

/-- A finalized receipt spends the grant it fits. -/
theorem Linked.finalize (h : Linked exact s c) {fin : TimePoint} (hv : s.receiptVerdict r = .finalize x)
    (hseqs : t.seqs = s.seqs.modify r.sequence (finish fin r))
    (hled : t.grantLedger = s.grantLedger.modify r.grantId (GrantRecord.consume r))
    (hnext : t.nextGrant = s.nextGrant) : ∃ g, receiptFitsGrant r g = true ∧ Follows exact r.sequence (c r.sequence) g ∧
      Linked exact t (update c r.sequence (c r.sequence ++ [g])) := by
  have hfin := receiptVerdict_finalize hv
  obtain ⟨rec, hrec, hpend, hfit⟩ := hfin.grant
  obtain ⟨-, hseq, -, -, -, -, hpos, hpre, hpost⟩ := receiptFitsGrant_spec hfit
  have hlink := h.seq r.sequence x hfin.seq
  have hheld : x.heldGrant = some r.grantId := by simp [heldGrant, hfin.holds, hfin.held]
  have hlive : (s.book c).live r.sequence = some r.grantId := by
    simp only [book, hfin.seq, bind_some, hheld]
  have hentry : (s.book c).entry r.grantId = some ⟨r.sequence, rec.grant, .pending⟩ := by
    simp only [book, hrec, map_some, GrantRecord.toEntry, hpend, ← hseq]
    rfl
  have hbook : t.book (update c r.sequence (c r.sequence ++ [rec.grant])) =
      (s.book c).spend r.sequence r.grantId rec.grant := by
    have hl : (fun j => (t.seqs.find? j).bind heldGrant) =
        update (fun j => (s.seqs.find? j).bind heldGrant) r.sequence none := by
      rw [hseqs, live_modify, hfin.seq]
      rfl
    have he : (fun g => (t.grantLedger.find? g).map GrantRecord.toEntry) =
        update (fun g => (s.grantLedger.find? g).map GrantRecord.toEntry) r.grantId
          (some ⟨r.sequence, rec.grant, .spent⟩) := by
      rw [hled, entry_modify hrec, hseq]
      rfl
    simp only [book, Permit.Book.spend, hl, he, hnext]
  have hok : Follows exact r.sequence (c r.sequence) rec.grant := by
    obtain ⟨p, hp, hok⟩ := h.sound.live _ _ hlive
    rw [hentry] at hp
    cases hp
    exact hok
  refine ⟨rec.grant, hfit, hok, hbook ▸ h.sound.step (Permit.Step.spend hlive hentry), ?_, ?_⟩
  · intro j hj
    rw [hseqs, find?_modify_eq_none_iff] at hj
    have hjq : j ≠ r.sequence := by
      rintro rfl
      rw [hfin.seq] at hj
      cases hj
    rw [update_of_ne hjq]
    exact h.absent j hj
  · intro j y hy
    rw [hseqs] at hy
    rcases find?_modify_of_some hfin.seq hy with ⟨rfl, rfl⟩ | ⟨hjq, hy⟩
    · obtain ⟨st, ready, hshape⟩ := finish_shape fin r x
      rw [update_self, hshape]
      refine ⟨?_, ?_, ?_, ?_, fun hd => absurd rfl hd⟩
      · rw [List.length_append]
        exact congrArg (· + 1) hlink.generation
      · exact congrArg (· + 1) hlink.committed
      · intro g hg
        have hg' : rec.grant = g := by simpa using hg
        rw [← hg', ← hpos, ← hpost]
        refine ⟨rfl, rfl, ?_⟩
        change x.generated + 1 = r.committedPositionBefore + 1
        rw [hpos, hlink.held r.grantId hheld rec hrec]
      · intro i hi
        cases hi
    · rw [update_of_ne hjq]
      refine (h.seq j y hy).of_ledger (fun i _ rec' hrec' => ?_)
      rw [hled] at hrec'
      exact entry_grant_kept (f := GrantRecord.consume r) (fun _ => rfl) hrec'

theorem Linked.abort (h : Linked exact s c) {now : TimePoint}
    (hq : s.seqs.find? q = some x) (hh : x.hasInflightGrant = true)
    (hseqs : t.seqs = s.seqs.modify q (fun y => y.release.abort now))
    (hled : t.grantLedger = s.grantLedger.modify x.inFlightGrant GrantRecord.abort)
    (hnext : t.nextGrant = s.nextGrant) : Linked exact t c := by
  obtain ⟨rec, hrec, hpend, hown, -⟩ := h.held_entry hq hh
  have hlive : (s.book c).live q = some x.inFlightGrant := by
    simp [book, hq, heldGrant, hh]
  have hentry : (s.book c).entry x.inFlightGrant = some ⟨q, rec.grant, .pending⟩ := by
    simp only [book, hrec, map_some, GrantRecord.toEntry, hpend, hown]
    rfl
  have hbook : t.book c = (s.book c).void q x.inFlightGrant rec.grant := by
    have hl : (fun j => (t.seqs.find? j).bind heldGrant) =
        update (fun j => (s.seqs.find? j).bind heldGrant) q none := by
      rw [hseqs, live_modify, hq]
      rfl
    have he : (fun g => (t.grantLedger.find? g).map GrantRecord.toEntry) =
        update (fun g => (s.grantLedger.find? g).map GrantRecord.toEntry) x.inFlightGrant
          (some ⟨q, rec.grant, .void⟩) := by
      rw [hled, entry_modify hrec]
      simp only [GrantRecord.abort, hpend, if_true, GrantRecord.toEntry, hown]
      rfl
    simp only [book, Permit.Book.void, hl, he, hnext]
  refine ⟨hbook ▸ h.sound.step (Permit.Step.void hlive hentry), ?_, ?_⟩
  · intro j hj
    rw [hseqs, find?_modify_eq_none_iff] at hj
    exact h.absent j hj
  · intro j y hy
    rw [hseqs] at hy
    rcases find?_modify_of_some hq hy with ⟨rfl, rfl⟩ | ⟨-, hy⟩
    · have hlink := h.seq j x hq
      exact ⟨hlink.generation, hlink.committed, hlink.last, by simp [heldGrant, abort], hlink.dispatch⟩
    · refine (h.seq j y hy).of_ledger (fun i _ rec' hrec' => ?_)
      rw [hled] at hrec'
      exact entry_grant_kept GrantRecord.abort_grant hrec'

/-- Every micro step but a finalization keeps the chains and all links. -/
theorem micro_linked {a : Act} (hm : Micro s a t) (h : Linked exact s c)
    (hissue : exact → ∀ prepared pm, a = .issue prepared pm → pm.dispatch ≠ 0)
    (hfin : ∀ r, a ≠ .finalize r) : Linked exact t c := by
  cases hm with
  | note hs hb => exact h.of_same (fun q => by rw [hs]) (congrArg Books.grantLedger hb) (congrArg Books.nextGrant hb)
  | seq o hq hg hs hb =>
    exact h.touched hq (SeqOp.touched hg) hs (congrArg Books.grantLedger hb) (congrArg Books.nextGrant hb)
  | enrol hq _ hs hb => exact h.enrol hq hs (congrArg Books.grantLedger hb) (congrArg Books.nextGrant hb)
  | takeDispatch hs hb =>
    exact h.of_same (fun q => by rw [hs]) (congrArg Books.grantLedger hb) (congrArg Books.nextGrant hb)
  | issue prepared pm hq hv hs hb =>
    exact h.issue hq hv (fun hex => hissue hex prepared pm rfl) hs (congrArg Books.grantLedger hb)
      (congrArg Books.nextGrant hb)
  | finalize r _ _ _ => exact absurd rfl (hfin r)
  | abort hq hh hs hb => exact h.abort hq hh hs (congrArg Books.grantLedger hb) (congrArg Books.nextGrant hb)
  | environment hs hb =>
    exact h.of_same (fun q => find?_reorder hs q) (congrArg Books.grantLedger hb)
      (congrArg Books.nextGrant hb)

/-- Every micro step keeps some chains linked. -/
theorem micro_linked_some {a : Act} (hm : Micro s a t) (h : ∃ c, Linked exact s c)
    (hissue : exact → ∀ prepared pm, a = .issue prepared pm → pm.dispatch ≠ 0) : ∃ c, Linked exact t c := by
  obtain ⟨c, h⟩ := h
  by_cases hfin : ∃ r, a = .finalize r
  · obtain ⟨r, rfl⟩ := hfin
    cases hm with
    | finalize r hv hs hb =>
      obtain ⟨g, -, -, hl⟩ := h.finalize hv hs (congrArg Books.grantLedger hb) (congrArg Books.nextGrant hb)
      exact ⟨_, hl⟩
  · exact ⟨c, micro_linked hm h hissue (fun r hr => hfin ⟨r, hr⟩)⟩

/-- The consumed grants of sequence `q` on the ledger. -/
def Fabric.consumedGrants (s : Fabric) (q : SequenceId) : List CommitGrant :=
  s.grantLedger.entries.filterMap fun e =>
    if e.2.status = .consumed ∧ e.2.grant.sequence = q then some e.2.grant else none

theorem Linked.grant_bounded (h : Linked exact s c) (hi : s.grantLedger.find? i = some rec) : i < s.nextGrant := by
  refine h.sound.bounded i rec.toEntry ?_
  simp only [book, hi, map_some]

/-- The chain of a sequence is what the ledger says was consumed for it. -/
theorem Linked.consumedGrants_perm (h : Linked exact s c) (q : SequenceId) : (s.consumedGrants q).Perm (c q) := by
  have hrange := filterMap_perm_range (fun _ _ hi => h.grant_bounded hi)
    (fun _ (rec : GrantRecord) =>
      if rec.status = .consumed ∧ rec.grant.sequence = q then some rec.grant else none)
  refine (hrange.trans (List.Perm.of_eq ?_)).trans (h.sound.spent q)
  apply List.filterMap_congr
  intro i _
  simp only [Permit.Book.spentBy, book]
  cases s.grantLedger.find? i with
  | none => rfl
  | some rec =>
    simp only [map_some, bind_some, GrantRecord.toEntry]
    cases rec.status <;> simp [GrantStatus.toPermit]

end Simulation

/-! Runs. -/

/-- Every reachable fabric is linked, whatever messages it received. -/
theorem reachable_linked {s : Fabric} (hs : Reachable s) : ∃ c, Linked False s c :=
  reachable_invariant (I := fun s => ∃ c, Linked False s c) (fun cfg clock => ⟨_, Linked.init False cfg clock⟩)
    (fun hm h => micro_linked_some hm h False.elim) hs

end DecodeFabric
