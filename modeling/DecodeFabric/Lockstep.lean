import DecodeFabric.Serving
import DecodeFabric.Progress
import DecodeFabric.Generations

/- Pump and executor in lockstep.

   The fabric counts a token when it finalizes a receipt, the executor when it commits a grant; a pump does both
   or neither. `Host.InStep` is what holds between any two dispatches: nothing is staged, and every state the
   executor holds has the tokens and the digest that its sequence has. The fabric's other calls leave tokens
   and digests alone (`Fabric.Unmoved`), and one dispatch through the pump re-establishes the relation member by
   member (`Host.Served`). -/
namespace DecodeFabric
open Lib List Sample DecodeFabric.Seq
variable {a : Act} {c : Call} {m : DecodeMemberSpec} {x y : Seq} {q : SequenceId}

/-! The sequences of a fabric keep their executor states. -/

theorem SeqOp.apply_state (o : SeqOp) (x : Seq) : (o.apply x).state = x.state := by
  cases o with
  | resolve cfg a now mo => exact resolve_same state (fun _ _ _ _ _ _ _ => rfl) ..
  | _ => rfl

theorem Seq.finish_state (fin : TimePoint) (r : MemberReceipt) (x : Seq) : (x.finish fin r).state = x.state :=
  finish_same state (fun _ _ _ => rfl) ..

theorem Act.Changes.state {s : Fabric} (h : a.Changes s q x y) : y.state = x.state := by
  cases h with
  | seq o _ => exact o.apply_state x
  | issue prepared pm _ _ => rfl
  | abort _ => rfl
  | finalize r _ _ => exact finish_state _ r x

namespace Fabric
variable {s t u : Fabric}

/-- No two sequences share an executor state. -/
def DistinctStates (s : Fabric) : Prop :=
  ∀ q q' x x', s.seqs.find? q = some x → s.seqs.find? q' = some x' → x.state.id = x'.state.id → q = q'

/-- `t` has the sequences of `s`, and perhaps more. -/
def Extends (s t : Fabric) : Prop :=
  ∀ q x, s.seqs.find? q = some x → ∃ y, t.seqs.find? q = some y ∧ y.state = x.state

theorem Extends.refl (s : Fabric) : s.Extends s := fun _ x hx => ⟨x, hx, rfl⟩

theorem Extends.trans (h₁ : s.Extends t) (h₂ : t.Extends u) : s.Extends u := by
  intro q x hx
  obtain ⟨y, hy, hxy⟩ := h₁ q x hx
  obtain ⟨z, hz, hyz⟩ := h₂ q y hy
  exact ⟨z, hz, hyz.trans hxy⟩

theorem Extends.distinct (h : s.Extends t) (ht : t.DistinctStates) : s.DistinctStates := by
  intro q q' x x' hx hx' heq
  obtain ⟨y, hy, hxy⟩ := h q x hx
  obtain ⟨y', hy', hxy'⟩ := h q' x' hx'
  exact ht q q' y y' hy hy' (by rw [hxy, hxy', heq])

theorem extends_of_steps {A : Act → Prop} (h : Steps A s t) : s.Extends t := by
  refine h.invariant (I := fun u => s.Extends u) ?_ (Extends.refl s)
  intro v w a hm _ hv
  refine hv.trans fun q x hx => ?_
  obtain ⟨y, hy, rfl | hc⟩ := hm.seq_after hx
  · exact ⟨y, hy, rfl⟩
  · exact ⟨y, hy, hc.state⟩

/-! Runs in which every prepared member names its dispatch. -/

def Orderly (s : Fabric) : Prop := ∃ h, RunsTo h s ∧ ∀ e ∈ h, e.label.NamesDispatch

theorem Orderly.init (cfg : Config) (clock : TimePoint) : (init cfg clock).Orderly :=
  ⟨[], ⟨cfg, clock, Run.nil _⟩, by simp⟩

theorem Orderly.reachable (h : s.Orderly) : Reachable s := by
  obtain ⟨h, hr, -⟩ := h
  exact ⟨h, hr⟩

theorem Orderly.counted (h : s.Orderly) : s.AllSeqs Seq.Counted := by
  obtain ⟨h, hr, hd⟩ := h
  exact run_counted hr hd

theorem Orderly.nextDispatch (h : s.Orderly) : s.nextDispatch ≠ 0 := Nat.ne_of_gt (reachable_nextDispatch h.reachable)

theorem Orderly.next (h : s.Orderly) (hn : Next s c t) (hc : c.NamesDispatch) : t.Orderly := by
  obtain ⟨h, ⟨cfg, clock, hr⟩, hd⟩ := h
  refine ⟨h ++ [⟨s, c, t⟩], ⟨cfg, clock, Run.snoc hr hn⟩, fun e he => ?_⟩
  rcases mem_append.mp he with he | he
  · exact hd e he
  · rw [mem_singleton.mp he]
    exact hc

theorem Orderly.extends (h : s.Orderly) (hn : Next s c t) : s.Extends t :=
  extends_of_steps (next_steps hn h.nextDispatch)

theorem Orderly.execAll : ∀ {os : List Op} {s : Fabric}, s.Orderly → (∀ o ∈ os, (Call.op o).NamesDispatch) →
    (s.execAll os).Orderly ∧ s.Extends (s.execAll os)
  | [], s, h, _ => ⟨h, Extends.refl s⟩
  | o :: os, s, h, hos => by
    have hfirst := h.next (Next.op s o) (hos o mem_cons_self)
    obtain ⟨hrest, hext⟩ := hfirst.execAll fun o' ho' => hos o' (mem_cons_of_mem _ ho')
    exact ⟨hrest, (h.extends (Next.op s o)).trans hext⟩

end Fabric

/-! Calls that count no token. -/

/-- State, tokens and digest of `y` are those of `x`. -/
structure Seq.SameProgress (x y : Seq) : Prop where
  state : y.state = x.state
  generated : y.generated = x.generated
  digest : y.committedStateDigest = x.committedStateDigest
  established : y.stateDigestEstablished = x.stateDigestEstablished

theorem Seq.SameProgress.refl (x : Seq) : x.SameProgress x := ⟨rfl, rfl, rfl, rfl⟩

theorem Seq.SameProgress.symm (h : x.SameProgress y) : y.SameProgress x :=
  ⟨h.state.symm, h.generated.symm, h.digest.symm, h.established.symm⟩

theorem Seq.SameProgress.trans {z : Seq} (h₁ : x.SameProgress y) (h₂ : y.SameProgress z) : x.SameProgress z :=
  ⟨h₂.state.trans h₁.state, h₂.generated.trans h₁.generated, h₂.digest.trans h₁.digest,
    h₂.established.trans h₁.established⟩

namespace Fabric
variable {s t u : Fabric}

/-- From `s` to `t` no sequence has made progress; what is new has no digest yet. -/
structure Unmoved (s t : Fabric) : Prop where
  kept : ∀ q x, s.seqs.find? q = some x → ∃ y, t.seqs.find? q = some y ∧ x.SameProgress y
  new : ∀ q y, s.seqs.find? q = none → t.seqs.find? q = some y → y.stateDigestEstablished = false
  grants : s.nextGrant ≤ t.nextGrant

theorem Unmoved.refl (s : Fabric) : s.Unmoved s := by
  refine ⟨fun q x hx => ⟨x, hx, .refl x⟩, fun q y hnone hy => ?_, Nat.le_refl _⟩
  rw [hnone] at hy
  cases hy

theorem Unmoved.trans (h₁ : s.Unmoved t) (h₂ : t.Unmoved u) : s.Unmoved u := by
  refine ⟨?_, ?_, Nat.le_trans h₁.grants h₂.grants⟩
  · intro q x hx
    obtain ⟨y, hy, hxy⟩ := h₁.kept q x hx
    obtain ⟨z, hz, hyz⟩ := h₂.kept q y hy
    exact ⟨z, hz, hxy.trans hyz⟩
  · intro q z hnone hz
    cases ht : t.seqs.find? q with
    | none => exact h₂.new q z ht hz
    | some y =>
      obtain ⟨z', hz', hyz⟩ := h₂.kept q y ht
      cases hz.symm.trans hz'
      rw [hyz.established]
      exact h₁.new q y hnone ht

theorem micro_unmoved (hm : Micro s a t) (hquiet : a.isQuiet) (hc : s.AllSeqs Seq.Counted) : s.Unmoved t := by
  refine ⟨?_, ?_, ?_⟩
  · intro q x hx
    obtain ⟨y, hy, hxy⟩ := micro_same_count hm (fun r hr => by rw [hr] at hquiet; exact hquiet) hc hx
    obtain ⟨y', hy', rfl | hch⟩ := hm.seq_after hx
    · exact ⟨y', hy', .refl y'⟩
    · cases hy.symm.trans hy'
      have hstate := hch.state
      cases hch with
      | seq o hg => exact ⟨_, hy, hstate, hxy.1, (SeqOp.touched hg).digest, (SeqOp.touched hg).established⟩
      | issue prepared pm _ _ | finalize r _ _ => exact hquiet.elim
      | abort _ => exact ⟨_, hy, rfl, rfl, rfl, rfl⟩
  · intro q y hnone hy
    obtain ⟨req, -, -, rfl⟩ := hm.seq_new hnone hy
    rfl
  · exact hm.nextGrant_le

/-- A call that neither authorizes nor finalizes. -/
theorem Orderly.unmoved (h : s.Orderly) (hn : Next s c t) (hquiet : ∀ a, c.MayPerform a → a.isQuiet) :
    t.Orderly ∧ s.Unmoved t := by
  have hboth := (next_steps hn h.nextDispatch).invariant
    (I := fun u => u.AllSeqs Seq.Counted ∧ s.Unmoved u) ?_ ⟨h.counted, .refl s⟩
  · refine ⟨h.next hn ?_, hboth.2⟩
    -- a call that delivers prepared members may issue grants
    cases c with
    | op o =>
      cases o with
      | authorizePrepared prepared =>
        intro pm hpm
        exact (hquiet (.issue prepared pm) ⟨rfl, hpm⟩).elim
      | _ => trivial
    | _ => trivial
  · rintro u v a hm ha ⟨hc, hu⟩
    have hq : a.isQuiet := by
      rcases ha with rfl | ha
      · trivial
      · exact hquiet a ha
    have hnames : a.NamesDispatch := by
      cases a with
      | issue _ _ => exact hq.elim
      | _ => trivial
    exact ⟨micro_allSeqs counted_kept hm (.inr hnames) hc, hu.trans (micro_unmoved hm hq hc)⟩

end Fabric

section
variable {N : Numerics}
variable {H H' : Host N} {st : SeqState N}

/-! The pump as a sequence of the fabric's calls. -/

namespace Host

theorem pumpDispatch_ops (H : Host N) (took : StepTimes) (tn : TimePoint) {d : Dispatch}
    (hd : d.id ≠ 0) :
    ∃ os : List Op, (H.pumpDispatch took tn d).fabric = H.fabric.execAll os ∧ ∀ o ∈ os, (Call.op o).NamesDispatch := by
  have hanswers : ∀ prepared, ((cpuDecodeExecutor N).prepare d.toRequest took H.executor).2 = .ok prepared →
    Forall₂ (Executor.Answers d.toRequest) d.members prepared.members := fun _ h => Executor.prepare_answers h
  unfold pumpDispatch DecodeExecutor.pumpDispatch
  simp only
  generalize (cpuDecodeExecutor N).prepare d.toRequest took H.executor = result at hanswers
  obtain ⟨ex, e | prepared⟩ := result
  · refine ⟨[.applyCompletion (d.prepareFailure e)], rfl, fun o ho => ?_⟩
    rw [mem_singleton.mp ho]
    trivial
  · refine ⟨[.authorizePrepared prepared, .applyCommitReceipt _], rfl, fun o ho => ?_⟩
    rcases mem_cons.mp ho with rfl | ho
    · intro pm hpm
      obtain ⟨m, -, hans⟩ := forall₂_item (hanswers prepared rfl) pm hpm
      rw [hans.dispatch]
      exact hd
    · rw [mem_singleton.mp ho]
      trivial

/-- The dispatches of a pump, one after the other. -/
def pumpDispatches (took : Dispatch → StepTimes) (tn : TimePoint) (H : Host N)
    (ds : List Dispatch) : Host N := ds.foldl (fun H d => H.pumpDispatch (took d) tn d) H

/-- The host after the tick, with the dispatches still to be pumped. -/
def scheduled (H : Host N) (tn : TimePoint) : Host N := { H with fabric := (H.fabric.round tn).1 }

/-- A pump is a tick and its dispatches. -/
theorem pumpOnce_eq (H : Host N) (took : Dispatch → StepTimes) (tn : TimePoint) : H.pumpOnce took tn =
    ((H.scheduled tn).pumpDispatches took tn (H.fabric.round tn).2, (H.fabric.round tn).2) := by
  unfold pumpOnce DecodeExecutor.pumpOnce pumpDispatches
  exact congrArg (·, _) (foldl_hom (fun p : Fabric × Executor N => ({ fabric := p.1, executor := p.2 } : Host N))
    fun _ _ => rfl).symm

theorem pumpDispatches_extends (took : Dispatch → StepTimes) (tn : TimePoint) :
    ∀ {ds : List Dispatch} {H : Host N}, H.fabric.Orderly → (∀ d ∈ ds, d.id ≠ 0) →
      (H.pumpDispatches took tn ds).fabric.Orderly ∧ H.fabric.Extends (H.pumpDispatches took tn ds).fabric
  | [], H, ho, _ => ⟨ho, .refl _⟩
  | d :: ds, H, ho, hids => by
    obtain ⟨os, heq, hos⟩ := H.pumpDispatch_ops (took d) tn (hids d mem_cons_self)
    obtain ⟨hfirst, hext⟩ := ho.execAll hos
    rw [← heq] at hfirst hext
    obtain ⟨hlast, hrest⟩ := pumpDispatches_extends took tn hfirst fun d' hd' => hids d' (mem_cons_of_mem _ hd')
    exact ⟨hlast, hext.trans hrest⟩

end Host

/-! The relation. -/

/-- The committed state `st` is where sequence `x` is, and nothing is staged over it. -/
structure SeqState.Agrees (st : SeqState N) (x : Seq) : Prop where
  idle : st.tentative = none
  tokens : st.tokens = x.generated
  digest : x.stateDigestEstablished = true → digestState st.state st.tokens st.kvBytes = x.committedStateDigest

theorem SeqState.Agrees.same (h : st.Agrees x) (hxy : x.SameProgress y) : st.Agrees y := by
  refine ⟨h.idle, h.tokens.trans hxy.generated.symm, fun he => ?_⟩
  rw [hxy.digest]
  exact h.digest (hxy.established ▸ he)

/-- Once the step prepared from `st` is finalized, the sequence is where `st` is after that step. -/
theorem SeqState.Agrees.replay (h : st.Agrees x) {proposal : ProposalId}
    {req : DecodeExecutionRequest} {ns : Nanoseconds} {gid : GrantId} {fin : TimePoint}
    {r : MemberReceipt} (hr : r.Confirms (st.preparedMember proposal req m ns)) :
    st.replay.Agrees ((x.holdGrant gid (st.preparedMember proposal req m ns)).finish fin r) := by
  obtain ⟨mst, ready, hshape⟩ := finish_shape fin r (x.holdGrant gid (st.preparedMember proposal req m ns))
  rw [hshape]
  refine ⟨h.idle, congrArg (· + 1) h.tokens, fun _ => ?_⟩
  show digestState (N.stepState st.state) (st.tokens + 1) (st.kvBytes + kvDelta) = r.postStateDigest
  rw [hr.digest]
  rfl

namespace Host

structure InStep (H : Host N) : Prop where
  orderly : H.fabric.Orderly
  sound : H.executor.Sound
  receipts : ∀ i r, H.executor.receiptsByGrant.find? i = some r → i < H.fabric.nextGrant
  known : ∀ σ st, H.executor.states.find? σ = some st →
    ∃ q x, H.fabric.seqs.find? q = some x ∧ x.state.id = σ ∧ st.Agrees x
  held : ∀ q x, H.fabric.seqs.find? q = some x → x.stateDigestEstablished = true →
    ∃ st, H.executor.states.find? x.state.id = some st

theorem InStep.init (cfg : Config) (clock : TimePoint) : (init cfg clock : Host N).InStep where
  orderly := Fabric.Orderly.init cfg clock
  sound := ⟨fun i hi => by simp [Host.init] at hi, fun σ st p hst => by simp [Host.init] at hst,
    fun σ σ' st st' p p' hst => by simp [Host.init] at hst⟩
  receipts i r hr := by simp [Host.init] at hr
  known σ st hst := by simp [Host.init] at hst
  held q x hx := by simp [Host.init, Fabric.init] at hx

/-- The relation survives whatever the fabric does without counting a token. -/
theorem InStep.unmoved (h : H.InStep) {t : Fabric} (ho : t.Orderly) (hu : H.fabric.Unmoved t) :
    ({ H with fabric := t } : Host N).InStep where
  orderly := ho
  sound := h.sound
  receipts i r hr := Nat.lt_of_lt_of_le (h.receipts i r hr) hu.grants
  known σ st hst := by
    obtain ⟨q, x, hx, hσ, hagree⟩ := h.known σ st hst
    obtain ⟨y, hy, hxy⟩ := hu.kept q x hx
    exact ⟨q, y, hy, by rw [hxy.state, hσ], hagree.same hxy⟩
  held q y hy he := by
    cases hx : H.fabric.seqs.find? q with
    | none =>
      rw [hu.new q y hx hy] at he
      cases he
    | some x =>
      obtain ⟨y', hy', hxy⟩ := hu.kept q x hx
      cases hy.symm.trans hy'
      rw [hxy.state]
      exact h.held q x hx (hxy.established ▸ he)

/-- Member `m` says where its sequence is. -/
def Told (s : Fabric) (m : DecodeMemberSpec) : Prop :=
  ∃ x, s.seqs.find? m.sequence = some x ∧ m.state = x.state ∧ m.generatedTokens = x.generated

section Dispatch
variable {H : Host N} {d : Dispatch} (h : H.InStep) (hdist : H.fabric.DistinctStates)
  (hn : (d.members.map fun m => m.sequence).Nodup) (htold : ∀ m ∈ d.members, Told H.fabric m)
include h hdist

/-- The executor's state of a member's sequence, if there is one, agrees with the sequence. -/
theorem InStep.agrees (hx : H.fabric.seqs.find? q = some x)
    (hst : H.executor.states.find? x.state.id = some st) : st.Agrees x := by
  obtain ⟨q', x', hx', hσ, hagree⟩ := h.known _ st hst
  obtain rfl := hdist q' q x' x hx' hx hσ
  cases hx.symm.trans hx'
  exact hagree

theorem InStep.entry (hx : H.fabric.seqs.find? m.sequence = some x)
    (hstate : m.state = x.state) (hgen : m.generatedTokens = x.generated) : (H.entryFor m).cleared.Agrees x := by
  unfold entryFor
  rw [hstate]
  cases hst : H.executor.states.find? x.state.id with
  | some st =>
    have hagree := h.agrees hdist hx hst
    rw [SeqState.ensureInitialized_current (UInt64.le_of_eq (hagree.tokens.trans hgen.symm).symm)]
    exact ⟨rfl, hagree.tokens, hagree.digest⟩
  | none =>
    refine ⟨rfl, (SeqState.first_tokens m).trans hgen, fun he => ?_⟩
    obtain ⟨st, hst'⟩ := h.held _ x hx he
    rw [hst] at hst'
    cases hst'

include hn htold

theorem InStep.deliverable : H.Deliverable d where
  sequences := hn
  states := by
    rw [List.Nodup, pairwise_map] at hn ⊢
    refine hn.imp_of_mem fun {m m'} hm hm' hne heq => hne ?_
    obtain ⟨x, hx, hstate, -⟩ := htold m hm
    obtain ⟨x', hx', hstate', -⟩ := htold m' hm'
    rw [hstate, hstate'] at heq
    exact hdist _ _ x x' hx hx' heq
  found m hm := by
    obtain ⟨x, hx, -⟩ := htold m hm
    exact ⟨x, hx⟩
  clear m hm := by
    unfold Executor.pending
    cases hst : H.executor.states.find? m.state.id with
    | none => exact nofun
    | some st =>
      obtain ⟨q, x, -, -, hagree⟩ := h.known _ st hst
      rw [Option.bind_some, hagree.idle]
      exact nofun
  sound := h.sound
  receipts i r hr := .inl (h.receipts i r hr)

/-- One dispatch through the pump. -/
theorem InStep.pumpDispatch (hid : d.id ≠ 0) (took : StepTimes) (tn : TimePoint) :
    (H.pumpDispatch took tn d).InStep := by
  have hpumped := (h.deliverable hdist hn htold).delivered took tn
  obtain ⟨os, hops, hos⟩ := H.pumpDispatch_ops took tn hid
  generalize H.pumpDispatch took tn d = H' at hpumped hops
  -- each member's sequence and state agree again
  have hmember : ∀ m ∈ d.members, ∃ y st, H'.fabric.seqs.find? m.sequence = some y ∧ y.state = m.state ∧
      H'.executor.states.find? m.state.id = some st ∧ st.Agrees y := by
    intro m hm
    obtain ⟨x, hx, hstate, hgen⟩ := htold m hm
    have hentry := h.entry hdist hx hstate hgen
    cases hpumped.served m hm x hx with
    | committed proposal gid fin r _ hconf hy hst =>
      exact ⟨_, _, hy, (finish_state fin r _).trans hstate.symm, hst, hentry.replay hconf⟩
    | refused proposal rej _ _ hy hst =>
      exact ⟨_, _, hy, hstate.symm, hst, hentry.same ⟨rfl, rfl, rfl, rfl⟩⟩
    -- the ids of the executor's receipts are used up
    | hung proposal gid r _ hlow hr => exact absurd (h.receipts gid r hr) (Nat.not_lt.mpr hlow)
  have hreceipts : ∀ i r, H'.executor.receiptsByGrant.find? i = some r → i < H'.fabric.nextGrant := by
    intro i r hr
    rcases hpumped.receipts i r hr with hr | hi
    · exact Nat.lt_of_lt_of_le (h.receipts i r hr) hpumped.grants
    · exact hi
  refine ⟨hops ▸ (h.orderly.execAll hos).1, hpumped.sound, hreceipts, ?_, ?_⟩
  · intro σ st hst
    by_cases hσ : ∃ m ∈ d.members, m.state.id = σ
    · obtain ⟨m, hm, rfl⟩ := hσ
      obtain ⟨y, st', hy, hstate, hst', hagree⟩ := hmember m hm
      cases hst.symm.trans hst'
      exact ⟨m.sequence, y, hy, by rw [hstate], hagree⟩
    · rw [hpumped.states σ fun m hm heq => hσ ⟨m, hm, heq⟩] at hst
      obtain ⟨q, x, hx, hxσ, hagree⟩ := h.known σ st hst
      refine ⟨q, x, ?_, hxσ, hagree⟩
      rw [hpumped.seqs q, hx]
      intro m hm heq
      obtain ⟨x', hx', hstate, -⟩ := htold m hm
      rw [heq, hx] at hx'
      cases hx'
      exact hσ ⟨m, hm, by rw [hstate, hxσ]⟩
  · intro q y hy he
    by_cases hq : ∃ m ∈ d.members, m.sequence = q
    · obtain ⟨m, hm, rfl⟩ := hq
      obtain ⟨y', st, hy', hstate, hst, -⟩ := hmember m hm
      cases hy.symm.trans hy'
      exact ⟨st, by rw [hstate]; exact hst⟩
    · rw [hpumped.seqs q fun m hm heq => hq ⟨m, hm, heq⟩] at hy
      obtain ⟨st, hst⟩ := h.held q y hy he
      refine ⟨st, ?_⟩
      rw [hpumped.states, hst]
      intro m hm heq
      obtain ⟨x', hx', hstate, -⟩ := htold m hm
      rw [hstate] at heq
      exact hq ⟨m, hm, hdist _ _ x' y hx' hy heq⟩

end Dispatch

theorem InStep.pumpDispatches (took : Dispatch → StepTimes) (tn : TimePoint) :
    ∀ {ds : List Dispatch} {H : Host N}, H.InStep → ((ds.flatMap Dispatch.members).map fun m => m.sequence).Nodup →
      (∀ m ∈ ds.flatMap Dispatch.members, Told H.fabric m) → (∀ d ∈ ds, d.id ≠ 0) →
      (H.pumpDispatches took tn ds).fabric.DistinctStates → (H.pumpDispatches took tn ds).InStep
  | [], H, h, _, _, _, _ => h
  | d :: ds, H, h, hn, htold, hids, hdist => by
    rw [flatMap_cons, map_append, nodup_append'] at hn
    obtain ⟨hfirst, hrest, hapart⟩ := hn
    have htold₁ : ∀ m ∈ d.members, Told H.fabric m := fun m hm => htold m (by simp [hm])
    have hdist₀ : H.fabric.DistinctStates := (pumpDispatches_extends took tn h.orderly hids).2.distinct hdist
    have hloop := pumpDispatches took tn (H := H.pumpDispatch (took d) tn d)
      (h.pumpDispatch hdist₀ hfirst htold₁ (hids d mem_cons_self) (took d) tn) hrest
    refine hloop ?_ (fun d' hd' => hids d' (mem_cons_of_mem _ hd')) hdist
    -- the dispatches still to come are about other sequences
    intro m hm
    obtain ⟨x, hx, hstate, hgen⟩ := htold m (by rw [flatMap_cons]; exact mem_append_right _ hm)
    refine ⟨x, ?_, hstate, hgen⟩
    rw [((h.deliverable hdist₀ hfirst htold₁).delivered (took d) tn).seqs, hx]
    intro m' hm' heq
    exact hapart (mem_map.mpr ⟨m', hm', heq⟩) (mem_map_of_mem hm)

end Host

/-! The dispatches of a tick. -/

namespace Fabric
variable (s : Fabric) (tn : TimePoint)

theorem schedule_told : ∀ m ∈ (s.schedule tn).2.flatMap Dispatch.members, Host.Told (s.schedule tn).1 m := by
  intro m hm
  obtain ⟨d, hd, hm⟩ := mem_flatMap.mp hm
  obtain ⟨x, -, hspec, hafter⟩ := (schedule_emitted tn d hd).member m hm
  refine ⟨_, hafter, ?_, ?_⟩
  · rw [hspec]
    rfl
  · rw [hspec]
    rfl

variable {s} in
theorem schedule_ids (h0 : s.nextDispatch ≠ 0) : ∀ d ∈ (s.schedule tn).2, d.id ≠ 0 := by
  obtain ⟨sent, hticked⟩ := s.schedule_spec tn
  intro d hd heq
  have hid := (hticked.ids d hd).1
  rw [heq] at hid
  exact h0 (Nat.le_zero.mp hid)

end Fabric

/-! Runs. -/

theorem Control.isQuiet (c : Control) (h : c.op.MayPerform a) : a.isQuiet := by
  cases c <;> cases a <;> trivial

namespace Host

theorem InStep.exec (h : H.InStep) (c : Control) : (H.exec c.op).InStep := by
  obtain ⟨ho, hu⟩ := h.orderly.unmoved (Next.op H.fabric c.op) fun _ ha => c.isQuiet ha
  exact h.unmoved ho hu

theorem InStep.pumpOnce (h : H.InStep) (took : Dispatch → StepTimes) (tn : TimePoint)
    (hdist : (H.pumpOnce took tn).1.fabric.DistinctStates) : (H.pumpOnce took tn).1.InStep := by
  have hadv : ({ H with fabric := (H.fabric.advance tn).1 } : Host N).InStep := h.exec (.advance tn)
  have hsched : (H.scheduled tn).InStep := hadv.exec (.schedule tn)
  rw [pumpOnce_eq] at hdist ⊢
  exact hsched.pumpDispatches took tn (Fabric.schedule_nodup _ tn) (Fabric.schedule_told _ tn)
    (Fabric.schedule_ids tn hadv.orderly.nextDispatch) hdist

theorem pumpOnce_extends (ho : H.fabric.Orderly) (took : Dispatch → StepTimes)
    (tn : TimePoint) : (H.pumpOnce took tn).1.fabric.Orderly ∧ H.fabric.Extends (H.pumpOnce took tn).1.fabric := by
  have hnext : Next H.fabric (.op (.advance tn)) (H.fabric.advance tn).1 := Next.op H.fabric (.advance tn)
  have hadv := ho.next hnext trivial
  have hnext' : Next (H.fabric.advance tn).1 (.op (.schedule tn)) (H.fabric.round tn).1 :=
    Next.op (H.fabric.advance tn).1 (.schedule tn)
  have hsched := hadv.next hnext' trivial
  obtain ⟨hlast, hext⟩ := pumpDispatches_extends (H := H.scheduled tn) took tn hsched
    (Fabric.schedule_ids tn hadv.nextDispatch)
  rw [pumpOnce_eq]
  exact ⟨hlast, ((ho.extends hnext).trans (hadv.extends hnext')).trans hext⟩

end Host

/-- A call of the host, from a state in step. -/
theorem HostNext.inStep {c : HostCall} (hn : HostNext H c H') (h : H.InStep)
    (hdist : H'.fabric.DistinctStates) : H'.InStep := by
  cases hn with
  | control c => exact h.exec c
  | pump took tn => exact h.pumpOnce took tn hdist
  | tick now =>
    obtain ⟨ho, hu⟩ := h.orderly.unmoved (Next.tick H.fabric now) (by rintro a rfl; trivial)
    exact h.unmoved ho hu
  | rehash seqs workers hs hw =>
    obtain ⟨ho, hu⟩ := h.orderly.unmoved (Next.rehash H.fabric seqs workers hs hw) (by rintro a rfl; trivial)
    exact h.unmoved ho hu

theorem HostNext.extends {c : HostCall} (hn : HostNext H c H') (ho : H.fabric.Orderly) :
    H'.fabric.Orderly ∧ H.fabric.Extends H'.fabric := by
  cases hn with
  | control c =>
    exact ⟨(ho.unmoved (Next.op H.fabric c.op) fun _ ha => c.isQuiet ha).1, ho.extends (Next.op H.fabric c.op)⟩
  | pump took tn => exact Host.pumpOnce_extends ho took tn
  | tick now => exact ⟨ho.next (Next.tick H.fabric now) trivial, ho.extends (Next.tick H.fabric now)⟩
  | rehash seqs workers hs hw =>
    have hn := Next.rehash H.fabric seqs workers hs hw
    exact ⟨ho.next hn trivial, ho.extends hn⟩

/-- Distinct executor states at the end of a run were distinct all along. -/
theorem run_inStep {H₀ : Host N} {h : List (Edge (Host N) HostCall)} (hr : Run HostNext H₀ h H) (h0 : H₀.InStep) :
    H.fabric.Orderly ∧ (H.fabric.DistinctStates → H.InStep) := by
  induction hr with
  | nil => exact ⟨h0.orderly, fun _ => h0⟩
  | snoc _ hn ih =>
    obtain ⟨ho, hin⟩ := ih
    obtain ⟨ho', hext⟩ := hn.extends ho
    exact ⟨ho', fun hdist => hn.inStep (hin (hext.distinct hdist)) hdist⟩

/-- Whatever calls come between the pumps, the executor has committed exactly the tokens of every sequence it knows,
    has nothing staged for it, and is in the state the fabric has on record. -/
theorem pump_lockstep {h : List (Edge (Host N) HostCall)} {H : Host N} (hr : HostRunsTo h H)
    (hdist : H.fabric.DistinctStates) {q : SequenceId} {x : Seq} (hx : H.fabric.seqs.find? q = some x)
    (hknown : (H.executor.states.find? x.state.id).isSome = true) :
    H.executor.committedTokens x.state.id = x.generated ∧
      (∀ proposal, H.executor.hasPrepared x.state.id proposal = false) ∧
      (x.stateDigestEstablished = true → H.executor.committedStateDigest x.state.id = x.committedStateDigest) := by
  obtain ⟨cfg, clock, hr⟩ := hr
  obtain ⟨st, hst⟩ := Option.isSome_iff_exists.mp hknown
  have hagree := ((run_inStep hr (Host.InStep.init cfg clock)).2 hdist).agrees hdist hx hst
  simp only [Executor.committedTokens, Executor.hasPrepared, Executor.committedStateDigest, hst, hagree.idle]
  exact ⟨hagree.tokens, fun _ => rfl, hagree.digest⟩

end

namespace Sample

/-- The sample's sequence after one pump. -/
def pumped : Host numerics :=
  ((((Host.init {} 0).exec (Control.registerWorker (worker 1 1)).op).exec (Control.submit request).op).pumpOnce
    (fun _ => took) 1).1

theorem pumped_runsTo : ∃ h, HostRunsTo h pumped :=
  ⟨_, {}, 0, ((Run.single (HostNext.control _ _)).snoc (HostNext.control _ _)).snoc (HostNext.pump _ _ _)⟩

theorem pumped_keys : pumped.fabric.seqs.keys = [1] := by decide

end Sample

theorem pump_lockstep_pumped : ∃ x, pumped.fabric.seqs.find? 1 = some x ∧ x.generated = 1 ∧
      pumped.executor.committedTokens 1 = 1 ∧ pumped.executor.committedStateDigest 1 = x.committedStateDigest := by
  obtain ⟨h, hr⟩ := pumped_runsTo
  have hone : ∀ q x, pumped.fabric.seqs.find? q = some x → q = 1 := by
    intro q x hx
    have hq := Table.mem_keys_iff.mpr ⟨x, hx⟩
    rw [pumped_keys] at hq
    exact mem_singleton.mp hq
  obtain ⟨x, hx, hstate, hgen, hest⟩ : ∃ x, pumped.fabric.seqs.find? 1 = some x ∧ x.state.id = 1 ∧ x.generated = 1 ∧
      x.stateDigestEstablished = true := ⟨_, rfl, rfl, rfl, rfl⟩
  obtain ⟨htokens, -, hdigest⟩ := pump_lockstep hr
    (fun q q' x x' hx hx' _ => (hone q x hx).trans (hone q' x' hx').symm) hx (by rw [hstate]; decide)
  rw [hstate] at htokens hdigest
  exact ⟨x, hx, hgen, htokens.trans hgen, hdigest hest⟩

end DecodeFabric
