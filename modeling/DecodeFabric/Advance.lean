import DecodeFabric.Generations

/- What an executor may rely on.

   `s.Advances t`: from `s` to `t` no sequence has lost committed tokens, and a sequence that has
   gained none still holds the grant it held. It is the relation under which everything known of
   an executor stays true while the fabric moves on, and a preorder, so it is proved one micro
   step at a time. The steps that break it are the ones that take a grant away without counting
   its token: a reconciliation of a sequence that holds a grant, and an abort.

   `Fabric.Coherent` collects what the fabric keeps along the way; its last field says that
   every grant ever issued either has its token counted or is held. -/
namespace DecodeFabric
open Lib Fabric SequenceState DecodeFabric.Seq

/-! One sequence. -/

structure Seq.Advances (x y : Seq) : Prop where
  state : y.state.id = x.state.id
  tokens : x.generated.toNat ≤ y.generated.toNat
  held : y.generated.toNat = x.generated.toNat → x.hasInflightGrant = true →
    y.hasInflightGrant = true ∧ y.inFlightGrant = x.inFlightGrant ∧ y.inFlightProposal = x.inFlightProposal

namespace Seq.Advances
variable {x y z : Seq}

theorem refl (x : Seq) : x.Advances x := ⟨rfl, Nat.le_refl _, fun _ h => ⟨h, rfl, rfl⟩⟩

theorem trans (h₁ : x.Advances y) (h₂ : y.Advances z) : x.Advances z := by
  refine ⟨h₂.state.trans h₁.state, Nat.le_trans h₁.tokens h₂.tokens, ?_⟩
  intro heq hx
  have hxy := h₁.tokens
  have hyz := h₂.tokens
  obtain ⟨hy, hgrant, hprop⟩ := h₁.held (by omega) hx
  obtain ⟨hz, hgrant', hprop'⟩ := h₂.held (by omega) hy
  exact ⟨hz, hgrant'.trans hgrant, hprop'.trans hprop⟩

/-- Neither tokens nor grant have changed. -/
theorem of_same (hs : y.state = x.state) (hg : y.generated = x.generated)
    (hh : y.hasInflightGrant = x.hasInflightGrant) (hi : y.inFlightGrant = x.inFlightGrant)
    (hp : y.inFlightProposal = x.inFlightProposal) : x.Advances y := by
  refine ⟨by rw [hs], by rw [hg], fun _ hx => ⟨?_, hi, hp⟩⟩
  rw [hh]
  exact hx

/-- A sequence that holds nothing has nothing to lose. -/
theorem of_free (hs : y.state = x.state) (hg : y.generated = x.generated) (hx : x.hasInflightGrant = false) :
    x.Advances y := by
  refine ⟨by rw [hs], by rw [hg], fun _ hh => ?_⟩
  rw [hx] at hh
  cases hh

end Seq.Advances

theorem Seq.finish_generated (fin : TimePoint) (r : MemberReceipt) (x : Seq) :
    (x.finish fin r).generated = x.generated + 1 := finish_same generated (fun _ _ _ => rfl) ..

theorem Seq.finish_advances {x : Seq} (h : x.Counted) (hh : x.hasInflightGrant = true) (fin : TimePoint)
    (r : MemberReceipt) : x.Advances (x.finish fin r) := by
  have hsucc : (x.finish fin r).generated.toNat = x.generated.toNat + 1 := by
    rw [finish_generated]
    exact h.generated_succ hh
  refine ⟨?_, by omega, fun heq => by omega⟩
  exact finish_same (fun y => y.state.id) (fun _ _ _ => rfl) ..

/-! The fabric. -/

structure Fabric.Advances (s t : Fabric) : Prop where
  seqs : ∀ q x, s.seqs.find? q = some x → ∃ y, t.seqs.find? q = some y ∧ x.Advances y
  grants : ∀ i rec, s.grantLedger.find? i = some rec →
    ∃ rec', t.grantLedger.find? i = some rec' ∧ rec'.grant = rec.grant

namespace Fabric.Advances
variable {s t u : Fabric}

theorem refl (s : Fabric) : s.Advances s :=
  ⟨fun _ x hx => ⟨x, hx, Seq.Advances.refl x⟩, fun _ rec hrec => ⟨rec, hrec, rfl⟩⟩

theorem trans (h₁ : s.Advances t) (h₂ : t.Advances u) : s.Advances u := by
  refine ⟨?_, ?_⟩
  · intro q x hx
    obtain ⟨y, hy, hxy⟩ := h₁.seqs q x hx
    obtain ⟨z, hz, hyz⟩ := h₂.seqs q y hy
    exact ⟨z, hz, hxy.trans hyz⟩
  · intro i rec hrec
    obtain ⟨rec₁, hrec₁, heq₁⟩ := h₁.grants i rec hrec
    obtain ⟨rec₂, hrec₂, heq₂⟩ := h₂.grants i rec₁ hrec₁
    exact ⟨rec₂, hrec₂, heq₂.trans heq₁⟩

end Fabric.Advances

/-- Grant `g`, issued under id `i`, is for the state of its sequence, and has its token counted or is held. -/
def Fabric.Tracks (s : Fabric) (i : GrantId) (g : CommitGrant) : Prop :=
  ∃ x, s.seqs.find? g.sequence = some x ∧ x.state.id = g.state ∧
    (g.committedPosition.toNat < x.generated.toNat ∨
      (x.hasInflightGrant = true ∧ x.inFlightGrant = i ∧ x.inFlightProposal = g.proposal ∧
        g.committedPosition = x.generated))

def Fabric.GrantsTracked (s : Fabric) : Prop :=
  ∀ i rec, s.grantLedger.find? i = some rec → s.Tracks i rec.grant

theorem Fabric.Tracks.advance {s t : Fabric} {i : GrantId} {g : CommitGrant} (h : s.Tracks i g)
    (ha : s.Advances t) : t.Tracks i g := by
  obtain ⟨x, hx, hstate, hcase⟩ := h
  obtain ⟨y, hy, hxy⟩ := ha.seqs _ x hx
  refine ⟨y, hy, hxy.state.trans hstate, ?_⟩
  have hle := hxy.tokens
  rcases hcase with hlt | ⟨hheld, hgrant, hprop, hpos⟩
  · left
    omega
  · by_cases hsame : y.generated.toNat = x.generated.toNat
    · obtain ⟨hheld', hgrant', hprop'⟩ := hxy.held hsame hheld
      right
      refine ⟨hheld', hgrant'.trans hgrant, hprop'.trans hprop, ?_⟩
      rw [hpos]
      exact UInt64.toNat_inj.mp hsame.symm
    · -- the token of the grant it held has been counted
      left
      rw [hpos]
      omega

/-! Sequences a receipt can still finalize. -/

/-- Not a state in which a receipt is turned away, the failed ones apart. -/
def SequenceState.isOpen (st : SequenceState) : Bool :=
  decide (st ≠ .completed ∧ st ≠ .staleSuperseded ∧ st ≠ .cancelRequested)

theorem SequenceState.isOpen_move {st st' : SequenceState} (h : st.isOpen = true) (h' : st'.isOpen = true) :
    (st.move st').isOpen = true := by
  rw [move_eq]
  split
  · exact h'
  · exact h

theorem SequenceState.isOpen_of_live {st : SequenceState} (hl : st.isTerminal = false) (hc : st ≠ .cancelRequested) :
    st.isOpen = true := by
  cases st with
  | cancelRequested => exact absurd rfl hc
  | completed | staleSuperseded => cases hl
  | _ => rfl

/-- A sequence that holds a grant is open. -/
def Seq.Open (x : Seq) : Prop := x.hasInflightGrant = true → x.machine.isOpen = true

structure Fabric.Coherent (s : Fabric) : Prop where
  pos : s.nextDispatch ≠ 0
  linked : ∃ c, Linked False s c
  counted : s.AllSeqs Seq.Counted
  opens : s.AllSeqs Seq.Open
  tracked : s.GrantsTracked

theorem Fabric.Coherent.init (cfg : Config) (clock : TimePoint) : (init cfg clock).Coherent := by
  refine ⟨Nat.one_ne_zero, ⟨_, Linked.init False cfg clock⟩, ?_, ?_, ?_⟩
  · intro q x hx
    simp [Fabric.init] at hx
  · intro q x hx
    simp [Fabric.init] at hx
  · intro i rec hrec
    simp [Fabric.init] at hrec

/-! Micro steps. -/

/-- The changes of a sequence that take no grant away; a reconciliation is one if there is none to take. -/
def SeqOp.Gentle (x : Seq) : SeqOp → Prop
  | .release | .rollBackTokens | .beginAttempt _ _ | .workerDown _ => True
  | .moveTo st => st.isOpen = true
  | .reconcile _ => x.hasInflightGrant = false
  | _ => False

theorem SeqOp.Gentle.advances {x : Seq} {o : SeqOp} (h : o.Gentle x) (hx : x.Counted) : x.Advances (o.apply x) := by
  cases o with
  | release | beginAttempt a now | workerDown now | moveTo st => exact .of_same rfl rfl rfl rfl rfl
  | rollBackTokens => exact .of_same rfl hx.committed rfl rfl rfl
  | reconcile now => exact .of_free rfl rfl h
  | retire st | enterGroup tn | dispatchUnder d | disown | resolve cfg attempt now mo => exact False.elim h

theorem SeqOp.Gentle.opens {x : Seq} {o : SeqOp} (h : o.Gentle x) (hx : x.Open) : (o.apply x).Open := by
  cases o with
  | release | rollBackTokens => exact hx
  | beginAttempt a now =>
    exact fun hh => isOpen_move (isOpen_move (hx hh) rfl) rfl
  | workerDown now =>
    intro hh
    show (if x.executing then (x.machine.move .stepCompleted).move .waiting else x.machine).isOpen = true
    split
    · exact isOpen_move (isOpen_move (hx hh) rfl) rfl
    · exact hx hh
  | moveTo st => exact fun hh => isOpen_move (hx hh) h
  | reconcile now => exact fun hh => by cases hh
  | retire st | enterGroup tn | dispatchUnder d | disown | resolve cfg attempt now mo => exact False.elim h

/-- The micro steps that keep every promise made to an executor. -/
def Act.Gentle (s : Fabric) : Act → Prop
  | .seq q o => ∀ x, s.seqs.find? q = some x → o.Gentle x
  | .issue _ pm => pm.dispatch ≠ 0 ∧ ∀ x, s.seqs.find? pm.sequence = some x → x.state.id = pm.state
  | .abort _ => False
  | _ => True

section Micro
variable {s t : Fabric} {a : Act}

theorem micro_seq_advances (hm : Micro s a t) (ha : a.Gentle s) (hc : s.AllSeqs Seq.Counted) :
    ∀ q x, s.seqs.find? q = some x → ∃ y, t.seqs.find? q = some y ∧ x.Advances y := by
  intro q x hx
  obtain ⟨y, hy, rfl | hch⟩ := hm.seq_after hx
  · exact ⟨y, hy, .refl y⟩
  · refine ⟨y, hy, ?_⟩
    cases hch with
    | seq o _ => exact (ha x hx).advances (hc q x hx)
    | issue prepared pm _ hv => exact .of_free rfl rfl (prepareVerdict_grant hv).noGrant
    | finalize r _ hv => exact finish_advances (hc q x hx) (receiptVerdict_finalize hv).holds _ r
    | abort _ => exact False.elim ha

theorem micro_advances (hm : Micro s a t) (ha : a.Gentle s) (hs : s.Coherent) : s.Advances t := by
  refine ⟨micro_seq_advances hm ha hs.counted, ?_⟩
  intro i rec hrec
  obtain ⟨c, hc⟩ := hs.linked
  obtain ⟨rec', hrec', hbecomes⟩ := micro_record hc hm hrec
  exact ⟨rec', hrec', hbecomes.1⟩

theorem micro_opens (hm : Micro s a t) (ha : a.Gentle s) (h : s.AllSeqs Seq.Open) : t.AllSeqs Seq.Open := by
  intro q y hy
  rcases hm.seq_before hy with hsame | ⟨x, hx, hc⟩ | ⟨req, -, -, rfl⟩
  · exact h q y hsame
  · cases hc with
    | seq o _ => exact (ha x hx).opens (h q x hx)
    | issue prepared pm _ hv =>
      have hgr := prepareVerdict_grant hv
      exact fun _ => isOpen_of_live hgr.live hgr.notCancelling
    | finalize r _ _ => exact fun hh => by cases hh
    | abort _ => exact False.elim ha
  · exact fun hh => by cases hh

theorem micro_tracked (hm : Micro s a t) (ha : a.Gentle s) (hs : s.Coherent) : t.GrantsTracked := by
  have hadv := micro_advances hm ha hs
  intro i rec hrec
  rcases hm.entry_before hrec with ⟨rec₀, hrec₀, hup⟩ | ⟨prepared, pm, rfl, rfl, rfl⟩
  · rw [hup.grant]
    exact (hs.tracked i rec₀ hrec₀).advance hadv
  · -- the sequence holds the new grant
    cases hm with
    | issue _ _ hq hv hseqs _ =>
      have hstate := ha.2 _ hq
      refine ⟨holdGrant s.nextGrant pm _, ?_, hstate, .inr ⟨rfl, rfl, rfl, ?_⟩⟩
      · show t.seqs.find? pm.sequence = _
        rw [hseqs, Table.find?_modify_self, hq]
        rfl
      · exact (prepareVerdict_grant hv).position

theorem micro_coherent (hm : Micro s a t) (ha : a.Gentle s) (hs : s.Coherent) : t.Coherent where
  pos := micro_nextDispatch hm hs.pos
  linked := micro_linked_any hm hs.linked
  counted := by
    refine micro_allSeqs counted_kept hm (.inr ?_) hs.counted
    cases a with
    | issue prepared pm => exact ha.1
    | _ => trivial
  opens := micro_opens hm ha hs.opens
  tracked := micro_tracked hm ha hs

end Micro

/-! Calls. -/

/-- The calls all of whose steps are gentle, whatever they meet. -/
def Call.isGentle : Call → Prop
  | .op (.submit _) | .op (.retry _) | .op (.registerWorker _) | .op (.markWorkerDead _) | .op .rollEpoch
  | .op (.applyCommitReceipt _) | .tick _ | .rehash => True
  | _ => False

theorem Call.isGentle.act {c : Call} (hc : c.isGentle) {a : Act} (ha : c.MayPerform a) (s : Fabric) : a.Gentle s := by
  cases c with
  | tick now | rehash => cases ha; trivial
  | op o =>
    cases a with
    | seq q so =>
      cases o with
      | retry r =>
        rcases ha with ⟨-, rfl | rfl | ⟨_, _, rfl⟩⟩
        · exact fun _ _ => trivial
        · exact fun _ _ => rfl
        · exact fun _ _ => trivial
      | markWorkerDead id =>
        obtain ⟨now, rfl⟩ := ha
        exact fun _ _ => trivial
      | cancel r | cancelRequest r | advance tn | schedule tn | applyCompletion result | authorizePrepared prepared =>
        exact False.elim hc
      | _ => exact False.elim ha
    | issue prepared pm =>
      cases o with
      | authorizePrepared prepared' => exact False.elim hc
      | _ => exact False.elim ha
    | abort q =>
      cases o with
      | abortPrepared a => exact False.elim hc
      | _ => exact False.elim ha
    | _ => trivial

section Calls
variable {s t : Fabric}

theorem next_coherent {c : Call} (hn : Next s c t) (hc : c.isGentle) (hs : s.Coherent) : t.Coherent ∧ s.Advances t := by
  refine (next_steps hn hs.pos).invariant (I := fun u => u.Coherent ∧ s.Advances u) ?_ ⟨hs, .refl s⟩
  rintro u v a hm ha ⟨hu, hadv⟩
  have hgentle : a.Gentle u := by
    rcases ha with rfl | ha
    · trivial
    · exact hc.act ha u
  exact ⟨micro_coherent hm hgentle hu, hadv.trans (micro_advances hm hgentle hu)⟩

/-! A tick changes no tokens and no grants; a candidate, the only thing it completes, has no edge to Completed. -/

theorem Seq.polled_opens {x : Seq} (h : x.Open) (tn : TimePoint) : (x.polled tn).Open := by
  have hretire : ∀ {st : SequenceState}, st.isOpen = true → ∀ y : Seq, y.Open → (SeqOp.apply (.retire st) y).Open :=
    fun hst _ hy hh => isOpen_move (hy hh) hst
  refine polled_kept (hretire rfl) (hretire rfl) ?_ tn h
  intro y hcand hy hh
  have hno : canTransition y.machine .completed = false := by
    revert hcand
    cases y.machine with
    | undeclared n => exact fun hc => by cases hc
    | _ => decide
  show (y.machine.move .completed).isOpen = true
  rw [move_eq, hno]
  exact hy hh

theorem schedule_opens (hs : s.AllSeqs Seq.Open) (tn : TimePoint) : (s.schedule tn).1.AllSeqs Seq.Open := by
  obtain ⟨sent, htick⟩ := s.schedule_spec tn
  intro q y hy
  obtain ⟨x, hx, hxy⟩ := htick.seq_before hy
  have hopen := hs q x hx
  cases hxy with
  | polled => exact polled_opens hopen tn
  | putBack _ _ => exact fun hh => isOpen_move (isOpen_move (hopen hh) rfl) rfl
  | sent d _ _ _ =>
    exact fun hh => isOpen_move
      (isOpen_move (isOpen_move (hopen hh) rfl) rfl) rfl

theorem schedule_advances (s : Fabric) (tn : TimePoint) : s.Advances (s.schedule tn).1 := by
  obtain ⟨sent, htick⟩ := s.schedule_spec tn
  refine ⟨?_, ?_⟩
  · intro q x hx
    obtain ⟨y, hy, hxy⟩ := htick.seq_after hx
    refine ⟨y, hy, ?_⟩
    cases hxy with
    | polled =>
      obtain ⟨st, res, hp⟩ := x.polled_shape tn
      rw [hp]
      exact .of_same rfl rfl rfl rfl rfl
    | putBack _ _ | sent d _ _ _ => exact .of_same rfl rfl rfl rfl rfl
  · intro i rec hrec
    refine ⟨rec, ?_, rfl⟩
    rw [show (s.schedule tn).1.grantLedger = s.grantLedger from congrArg Books.grantLedger htick.books]
    exact hrec

theorem schedule_coherent (hs : s.Coherent) (tn : TimePoint) : (s.schedule tn).1.Coherent := by
  have hsteps := exec_steps s (.schedule tn) hs.pos
  have hledger : (s.schedule tn).1.grantLedger = s.grantLedger := by
    obtain ⟨sent, htick⟩ := s.schedule_spec tn
    exact congrArg Books.grantLedger htick.books
  refine ⟨?_, ?_, ?_, schedule_opens hs.opens tn, ?_⟩
  · exact steps_nextDispatch hsteps hs.pos
  · exact hsteps.invariant (I := fun u => ∃ c, Linked False u c) (fun hm _ => micro_linked_any hm) hs.linked
  · refine hsteps.invariant (I := fun u => u.AllSeqs Seq.Counted) ?_ hs.counted
    intro u v a hm ha
    refine micro_allSeqs counted_kept hm (ha.imp_right fun ha => ?_)
    cases a with
    | issue prepared pm => exact False.elim ha
    | _ => trivial
  · intro i rec hrec
    rw [hledger] at hrec
    exact (hs.tracked i rec hrec).advance (schedule_advances s tn)

/-! Prepared members. -/

/-- What a member prepared by an executor says that the fabric can rely on. -/
structure Fabric.Expects (s : Fabric) (pm : PreparedMember) : Prop where
  dispatch : pm.dispatch ≠ 0
  succeeded : pm.outcome.succeeded = true
  state : ∃ x, s.seqs.find? pm.sequence = some x ∧ x.state.id = pm.state

theorem Fabric.Expects.advance {pm : PreparedMember} (h : s.Expects pm) (ha : s.Advances t) : t.Expects pm := by
  obtain ⟨x, hx, hstate⟩ := h.state
  obtain ⟨y, hy, hxy⟩ := ha.seqs _ x hx
  exact ⟨h.dispatch, h.succeeded, y, hy, hxy.state.trans hstate⟩

/-- The grant of an answer is in the ledger. -/
def Fabric.Backs (s : Fabric) (g : CommitGrant) : Prop :=
  ∃ rec, s.grantLedger.find? g.grantId = some rec ∧ rec.grant = g

theorem Fabric.Backs.advance {g : CommitGrant} (h : s.Backs g) (ha : s.Advances t) : t.Backs g := by
  obtain ⟨rec, hrec, rfl⟩ := h
  obtain ⟨rec', hrec', heq⟩ := ha.grants _ rec hrec
  exact ⟨rec', hrec', heq⟩

/-- A turn of `authorize_prepared` on a sequence that holds no grant. -/
theorem authorizeMember_coherent (hs : s.Coherent) (prepared : PreparedDecode) {pm : PreparedMember}
    (hpm : s.Expects pm) (hfree : ∀ x, s.seqs.find? pm.sequence = some x → x.hasInflightGrant = false) :
    (authorizeMember prepared s pm).1.Coherent ∧ s.Advances (authorizeMember prepared s pm).1 ∧
      ((authorizeMember prepared s pm).2.hasGrant = true →
        (authorizeMember prepared s pm).1.Backs (authorizeMember prepared s pm).2.grant) := by
  obtain ⟨x, hx, hstate⟩ := hpm.state
  have step : ∀ {a : Act} {u : Fabric}, Micro s a u → a.Gentle s → u.Coherent ∧ s.Advances u :=
    fun hm ha => ⟨micro_coherent hm ha hs, micro_advances hm ha hs⟩
  cases hv : s.prepareVerdict x pm with
  | reject r =>
    simp only [authorizeMember, hx, hv]
    have hm : Micro s (.seq pm.sequence (.reconcile s.clock)) (s.rejectMember pm.sequence x r) :=
      .seq _ hx trivial (s.rejectMember_seqs _ x r) (s.rejectMember_books _ x r)
    obtain ⟨hcoh, hadv⟩ := step hm hfree
    exact ⟨hcoh, hadv, fun hg => by cases hg⟩
  | noncommit =>
    have hno := (prepareVerdict_noncommit hv).2
    rw [PreparedMember.isCommitEligible, hpm.succeeded] at hno
    cases hno
  | grant =>
    simp only [authorizeMember, hx, hv]
    have hm : Micro s (.issue prepared pm) (s.issueGrant prepared x pm) :=
      .issue prepared pm hx hv (s.issueGrant_seqs x prepared pm) (s.issueGrant_books x prepared pm)
    have hgentle : (Act.issue prepared pm).Gentle s := by
      refine ⟨hpm.dispatch, fun y hy => ?_⟩
      cases hx.symm.trans hy
      exact hstate
    obtain ⟨hcoh, hadv⟩ := step hm hgentle
    refine ⟨hcoh, hadv, fun _ => ⟨{ grant := makeGrant s.nextGrant prepared pm }, ?_, rfl⟩⟩
    rw [show (s.issueGrant prepared x pm).grantLedger = _ from
      congrArg Books.grantLedger (s.issueGrant_books x prepared pm)]
    exact Table.find?_insert_self _ _ _

/-- The loop of `authorize_prepared`, no member meeting a grant. -/
theorem authorize_scan (prepared : PreparedDecode) : ∀ (ms : List PreparedMember) (s : Fabric), s.Coherent →
    (∀ pm ∈ ms, s.Expects pm) → (∀ p ∈ turns (fun u pm => (authorizeMember prepared u pm).1) s ms,
      ∀ x, p.1.seqs.find? p.2.sequence = some x → x.hasInflightGrant = false) →
    (scan (authorizeMember prepared) s ms).1.Coherent ∧
      s.Advances (scan (authorizeMember prepared) s ms).1 ∧
      ∀ ga ∈ (scan (authorizeMember prepared) s ms).2, ga.hasGrant = true →
        (scan (authorizeMember prepared) s ms).1.Backs ga.grant
  | [], s, hs, _, _ => ⟨hs, .refl s, fun ga hga => by cases hga⟩
  | pm :: ms, s, hs, hexp, hfree => by
    obtain ⟨hs₁, hadv₁, hback₁⟩ := authorizeMember_coherent hs prepared (hexp pm List.mem_cons_self)
      (hfree (s, pm) List.mem_cons_self)
    obtain ⟨hs₂, hadv₂, hback₂⟩ := authorize_scan prepared ms (authorizeMember prepared s pm).1 hs₁
      (fun pm' hpm' => (hexp pm' (List.mem_cons_of_mem _ hpm')).advance hadv₁)
      (fun p hp => hfree p (List.mem_cons_of_mem _ hp))
    refine ⟨hs₂, hadv₁.trans hadv₂, ?_⟩
    intro ga hga hgrant
    rcases List.mem_cons.mp hga with rfl | hga
    · exact (hback₁ hgrant).advance hadv₂
    · exact hback₂ ga hga hgrant

end Calls

end DecodeFabric
