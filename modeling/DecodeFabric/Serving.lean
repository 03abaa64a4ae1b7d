import DecodeFabric.Preparation
import DecodeFabric.Settling

/- One dispatch through a pump.

   `pump_once` takes the members of a dispatch through four loops: prepare, authorize, commit or abort, finalize.
   The members have sequences and states of their own, so the loops of the executor treat them independently, as those
   of the fabric do (`Fabric.settled_all`), and what comes out can be said member by member (`Served`): the member was
   granted, and sequence and executor state are one token further; it was refused, and both are where they were; or its
   grant has the id of a receipt the executor keeps, and the step stays staged. Transitions of other attempts that
   wait in the executor make no difference: they give way. -/
namespace DecodeFabric
open Lib Table Fabric List Option Executor
variable {m : DecodeMemberSpec} {d : Dispatch} {ga : Fabric.GrantOrAbort} {i : GrantId} {r : MemberReceipt}
  {pm : PreparedMember} {q : SequenceId} {σ : StateId} {held : Table GrantId MemberReceipt} {tn : TimePoint}

/-- Receipt `r` confirms the step prepared as `pm`. -/
structure MemberReceipt.Confirms (r : MemberReceipt) (pm : PreparedMember) : Prop where
  sequence : r.sequence = pm.sequence
  digest : r.postStateDigest = pm.postStateDigest
  terminal : r.terminal = pm.outcome.terminal
  key : r.acceptanceKey = pm.acceptanceKey

section
variable {N : Numerics}
variable {ex : Executor N} {p : Prepared N} {st : SeqState N} {entry : StateId → Option (SeqState N)}

/-! Preparing. -/

/-- The state with nothing staged over it. -/
def SeqState.cleared (st : SeqState N) : SeqState N := { st with tentative := none }

/-- Promoting a staged step is taking it, whatever was staged before. -/
theorem SeqState.promoted_stage {st : SeqState N} {proposal : ProposalId} {req : DecodeExecutionRequest}
    (h : (st.stage proposal req m).tentative = some p) : (st.stage proposal req m).promoted p = st.cleared.replay := by
  cases h
  rfl

/-- The reports of the executor are successes. -/
theorem SeqState.preparedMember_eligible (st : SeqState N) (proposal : ProposalId) (req : DecodeExecutionRequest)
    (m : DecodeMemberSpec) (ns : Nanoseconds) : (st.preparedMember proposal req m ns).isCommitEligible = true := by
  unfold PreparedMember.isCommitEligible preparedMember MemberOutcome.succeeded
  simp only
  split
  · rfl
  · rfl

namespace Executor

/-- `prepare_member` where nothing is in its way. -/
def stageMember (req : DecodeExecutionRequest) (took : StepTimes) (ex : Executor N)
    (m : DecodeMemberSpec) : Executor N × PreparedMember :=
  let st := ex.entryFor m
  ({ ex with
      states := ex.states.insert m.state.id (st.stage (ex.nextProposal + 1) req m)
      nextProposal := ex.nextProposal + 1 },
    st.preparedMember (ex.nextProposal + 1) req m (took m))

variable (req : DecodeExecutionRequest) (took : StepTimes)

theorem prepareMember_clear (h : ex.pending m.state.id ≠ some m.attempt) :
    ex.prepareMember req (took m) m = ((ex.stageMember req took m).1, .ok (ex.stageMember req took m).2) := by
  simp only [prepareMember, SeqState.ensureInitialized_waiting, no_conflict h, stageMember]

theorem stageMember_pending (hne : σ ≠ m.state.id) :
    (ex.stageMember req took m).1.pending σ = ex.pending σ := by
  simp only [pending, stageMember, find?_insert_ne hne]

/-- A loop over members whose attempts do not wait does not fail. -/
theorem prepareMembers_clear : ∀ {ms : List DecodeMemberSpec} {ex : Executor N}, (ms.map fun m => m.state.id).Nodup →
    (∀ m ∈ ms, ex.pending m.state.id ≠ some m.attempt) →
    prepareMembers req took ex ms = ((scan (stageMember req took) ex ms).1, .ok (scan (stageMember req took) ex ms).2)
  | [], _, _, _ => rfl
  | m :: ms, ex, hn, hclear => by
    obtain ⟨hm, hn⟩ := nodup_cons.mp hn
    have hclear' : ∀ m' ∈ ms, (ex.stageMember req took m).1.pending m'.state.id ≠ some m'.attempt := by
      intro m' hm'
      rw [stageMember_pending req took fun heq => hm (mem_map.mpr ⟨m', hm', heq⟩)]
      exact hclear m' (mem_cons_of_mem _ hm')
    have hrest := prepareMembers_clear hn hclear'
    unfold prepareMembers
    rw [prepareMember_clear req took (hclear m mem_cons_self)]
    simp only [hrest]
    rfl

theorem Sound.stageMember (h : ex.Sound) (m : DecodeMemberSpec) : (ex.stageMember req took m).1.Sound :=
  h.stage (SeqState.stage_tentative _ _ req m) rfl rfl rfl

/-- Member `m`, whose entry was `entry m.state.id`, is staged, and `pm` reports it. -/
def Staged (entry : StateId → Option (SeqState N)) (ex : Executor N) (m : DecodeMemberSpec)
    (pm : PreparedMember) : Prop :=
  ∃ proposal, pm = (SeqState.ensureInitialized m (entry m.state.id)).preparedMember proposal req m (took m) ∧
    ex.states.find? m.state.id = some ((SeqState.ensureInitialized m (entry m.state.id)).stage proposal req m)

theorem stage_batch (entry : StateId → Option (SeqState N)) :
    Batch (stageMember req took) (fun m m' => m.state.id ≠ m'.state.id) Sound
      (fun ex m => ex.states.find? m.state.id = entry m.state.id) (Staged req took entry) where
  apart h := h.symm
  keeps h _ := h.stageMember req took _
  turn {ex m} _ h := by
    refine ⟨ex.nextProposal + 1, ?_, ?_⟩
    · rw [← h]
      rfl
    · rw [← h]
      exact find?_insert_self _ _ _
  todo _ _ hne h := by
    rw [← h]
    exact find?_insert_ne hne.symm _
  done {ex m m' pm} _ _ hne h := by
    obtain ⟨proposal, hpm, hheld⟩ := h
    refine ⟨proposal, hpm, ?_⟩
    rw [← hheld]
    exact find?_insert_ne hne.symm _

/-- Every step is staged under a new proposal. -/
theorem stage_numbered : ∀ (ms : List DecodeMemberSpec) (ex : Executor N), ∀ pm ∈ (scan (stageMember req took) ex ms).2,
      ex.nextProposal < pm.proposal
  | [], _, pm, hpm => by cases hpm
  | m :: ms, ex, pm, hpm => by
    rcases mem_cons.mp hpm with rfl | hpm
    · exact Nat.lt_succ_self _
    · exact Nat.lt_of_succ_lt (stage_numbered ms (ex.stageMember req took m).1 pm hpm)

/-! Committing and aborting. -/

/-- One turn of the commit loop over the CPU executor. -/
abbrev resolveMember (tn : TimePoint) (ex : Executor N) (ga : Fabric.GrantOrAbort) :
    Executor N × Option MemberReceipt :=
  (cpuDecodeExecutor N).resolveMember tn ex ga

/-- The answer `ga` to the step staged as `p` in `st`: a grant for it, or its refusal. -/
inductive Reply (st : SeqState N) (p : Prepared N) (ga : Fabric.GrantOrAbort) : Prop
  | grant : ga.rejected = false → ga.aborted = false → ga.hasGrant = true → ga.grant.state = ga.abortSpec.state →
      authorityMatches p ga.grant = true → p.preDigest = ga.grant.preStateDigest →
      p.postDigest = ga.grant.postStateDigest → st.tokens = ga.grant.committedPosition → Reply st p ga
  | refusal : ga.rejected = true → ga.hasGrant = false → ga.hasAbort = true → ga.abortSpec.proposal = p.proposal →
      Reply st p ga

/-- The receipt for a grant of the step staged as `p` in `st`, as the pump hands it on. -/
def receiptAt (tn : TimePoint) (g : CommitGrant) (st : SeqState N) (p : Prepared N) : MemberReceipt :=
  { receiptFor g st.tokens p with committedAt := tn }

theorem receiptAt_confirms {req : DecodeExecutionRequest} {proposal : ProposalId} {prepared : PreparedDecode}
    {ns : Nanoseconds} (hp : (st.stage proposal req m).tentative = some p) (hepoch : prepared.epoch = req.epoch)
    (hworker : prepared.worker = req.worker) (hboot : prepared.workerBoot = req.workerBoot) (gid : GrantId) :
    (receiptAt tn (Fabric.makeGrant gid prepared (st.preparedMember proposal req m ns))
    (st.stage proposal req m) p).Confirms
      (st.preparedMember proposal req m ns) := by
  cases hp
  refine ⟨rfl, rfl, rfl, ?_⟩
  simp only [MemberReceipt.acceptanceKey, PreparedMember.acceptanceKey, receiptAt, receiptFor, Fabric.makeGrant, hepoch,
    hworker, hboot]
  rfl

/-- `ga` is resolved: its state, found as `entry` before, has the step promoted and yields a receipt, or has it
    discarded and yields none. -/
def Resolved (tn : TimePoint) (entry : StateId → Option (SeqState N)) (ex : Executor N) (ga : Fabric.GrantOrAbort)
    (o : Option MemberReceipt) : Prop :=
  ∃ st p, entry ga.abortSpec.state = some st ∧ st.tentative = some p ∧
    ((ga.hasGrant = true ∧ o = some (receiptAt tn ga.grant st p) ∧
        ex.states.find? ga.abortSpec.state = some (st.promoted p)) ∨
      (ga.hasGrant = false ∧ o = none ∧ ex.states.find? ga.abortSpec.state = some { st with tentative := none }))

/-- `ga` answers the step staged at its state, found as `entry` before, and its grant is a new one. -/
def Unresolved (entry : StateId → Option (SeqState N)) (ex : Executor N) (ga : Fabric.GrantOrAbort) : Prop :=
  ∃ st p, entry ga.abortSpec.state = some st ∧ ex.states.find? ga.abortSpec.state = some st ∧ st.tentative = some p ∧
    Reply st p ga ∧ (ga.hasGrant = true → ex.receiptsByGrant.find? ga.grant.grantId = none)

/-- Committing a grant of the staged step. -/
theorem resolveMember_grant
    (hst : ex.states.find? ga.abortSpec.state = some st) (hp : st.tentative = some p) (hgrant : ga.hasGrant = true)
    (hreply : Reply st p ga) (hnew : ex.receiptsByGrant.find? ga.grant.grantId = none) (tn : TimePoint) :
    ex.resolveMember tn ga = (ex.promote ga.grant st p, some (receiptAt tn ga.grant st p)) ∧
      p.proposal = ga.grant.proposal ∧ ga.grant.state = ga.abortSpec.state := by
  cases hreply with
  | refusal _ hno => rw [hno] at hgrant; cases hgrant
  | grant hrej habort _ hstate hauth hpre hpost htok =>
    have hprop : p.proposal = ga.grant.proposal := (of_decide_eq_true hauth).1
    refine ⟨?_, hprop, hstate⟩
    rw [← hstate] at hst
    simp [DecodeExecutor.resolveMember, cpuDecodeExecutor, commit, hrej, habort, hgrant, hnew, hst, hp, hauth, hpre,
      hpost, htok,
      receiptAt]

/-- Aborting a staged step. -/
theorem resolveMember_refusal (hsound : ex.Sound)
    (hst : ex.states.find? ga.abortSpec.state = some st) (hp : st.tentative = some p)
    (hgrant : ga.hasGrant = false) (hreply : Reply st p ga) (tn : TimePoint) :
    ex.resolveMember tn ga = ((ex.abort ga.abortSpec).1, none) ∧
      (ex.abort ga.abortSpec).1.states.find? ga.abortSpec.state = some { st with tentative := none } := by
  cases hreply with
  | grant _ _ hyes => rw [hgrant] at hyes; cases hyes
  | refusal hrej _ habort hprop =>
    have hfresh := (hsound.staged _ st p hst hp).2
    refine ⟨by simp [DecodeExecutor.resolveMember, cpuDecodeExecutor, hrej, habort], ?_⟩
    simp only [abort, hprop, hfresh, find?_modify_self, hst, map_some, hp, any_some, decide_true,
      if_true]

theorem abort_other {a : AbortPrepared} (hne : σ ≠ a.state) : (ex.abort a).1.states.find? σ = ex.states.find? σ := by
  unfold abort
  split
  · rfl
  · exact find?_modify_ne hne _

/-- Answers to different states, with different grants. -/
def ApartReplies (ga ga' : Fabric.GrantOrAbort) : Prop :=
  ga.abortSpec.state ≠ ga'.abortSpec.state ∧
    (ga.hasGrant = true → ga'.hasGrant = true → ga.grant.grantId ≠ ga'.grant.grantId)

/-- `ga` is a grant under an id that another receipt, one of `held`, has taken. -/
structure Foreclosed (held : Table GrantId MemberReceipt) (ex : Executor N) (ga : Fabric.GrantOrAbort) : Prop where
  accepted : ga.rejected = false ∧ ga.aborted = false
  granted : ga.hasGrant = true ∧ ga.hasAbort = false
  taken : ∃ r, held.find? ga.grant.grantId = some r ∧ ex.receiptsByGrant.find? ga.grant.grantId = some r ∧
    receiptFitsGrant r ga.grant = false

/-- A grant under a taken id is refused, and the step stays staged: no abort comes with a grant. -/
theorem Foreclosed.resolveMember
    (h : Foreclosed held ex ga) (tn : TimePoint) : ex.resolveMember tn ga = (ex, none) := by
  obtain ⟨⟨hrej, habort⟩, ⟨hgrant, hno⟩, r, -, hr, hfits⟩ := h
  simp [DecodeExecutor.resolveMember, cpuDecodeExecutor, commit, hrej, habort, hgrant, hno, hr, hfits]

/-- What the commit loop made of `ga`: it is resolved, or nothing came of a grant whose id one of `held` has taken. -/
def Concluded (tn : TimePoint) (entry : StateId → Option (SeqState N)) (held : Table GrantId MemberReceipt)
    (ex : Executor N) (ga : Fabric.GrantOrAbort) (o : Option MemberReceipt) : Prop :=
  Resolved tn entry ex ga o ∨ ga.hasGrant = true ∧ o = none ∧ ∃ r, held.find? ga.grant.grantId = some r

/-- A turn of the commit loop changes its own state, and enters at most the receipt of its own grant. -/
theorem resolveMember_frame (hsound : ex.Sound) (h : Unresolved entry ex ga ∨ Foreclosed held ex ga) (tn : TimePoint) :
    (ex.resolveMember tn ga).1.Sound ∧
      Concluded tn entry held (ex.resolveMember tn ga).1 ga (ex.resolveMember tn ga).2 ∧
      (∀ σ, σ ≠ ga.abortSpec.state → (ex.resolveMember tn ga).1.states.find? σ = ex.states.find? σ) ∧
      ∀ i, (ga.hasGrant = true → i ≠ ga.grant.grantId) →
        (ex.resolveMember tn ga).1.receiptsByGrant.find? i = ex.receiptsByGrant.find? i := by
  rcases h with ⟨st, p, hentry, hst, hp, hreply, hnew⟩ | h
  · cases hgrant : ga.hasGrant with
    | true =>
      obtain ⟨heq, hprop, hstate⟩ := resolveMember_grant hst hp hgrant hreply (hnew hgrant) tn
      rw [heq]
      refine ⟨hsound.promote (hstate ▸ hst) hp hprop, .inl ⟨st, p, hentry, hp, .inl ⟨hgrant, rfl, ?_⟩⟩, ?_, ?_⟩
      · rw [← hstate]
        exact find?_insert_self _ _ _
      · intro σ hne
        rw [← hstate] at hne
        exact find?_insert_ne hne _
      · intro i hi
        exact find?_insert_ne (hi rfl) _
    | false =>
      obtain ⟨heq, hafter⟩ := resolveMember_refusal hsound hst hp hgrant hreply tn
      rw [heq]
      refine ⟨hsound.change (abort_change _ ex), .inl ⟨st, p, hentry, hp, .inr ⟨hgrant, rfl, hafter⟩⟩, fun σ => abort_other, ?_⟩
      intro i _
      rw [abort_receipts]
  · obtain ⟨r, hr, -⟩ := h.taken
    rw [h.resolveMember]
    exact ⟨hsound, .inr ⟨h.granted.1, rfl, r, hr⟩, fun _ _ => rfl, fun _ _ => rfl⟩

/-- The commit loop over `gas` has changed no state and entered no receipt that none of them is about. -/
structure Confined (gas : List Fabric.GrantOrAbort) (ex₀ ex : Executor N) : Prop where
  sound : ex.Sound
  states : ∀ σ, (∀ ga ∈ gas, σ ≠ ga.abortSpec.state) → ex.states.find? σ = ex₀.states.find? σ
  receipts : ∀ i, (∀ ga ∈ gas, ga.hasGrant = true → i ≠ ga.grant.grantId) →
    ex.receiptsByGrant.find? i = ex₀.receiptsByGrant.find? i

theorem resolve_batch (tn : TimePoint) (entry : StateId → Option (SeqState N)) (held : Table GrantId MemberReceipt)
    (gas : List Fabric.GrantOrAbort) (ex₀ : Executor N) :
    Batch (resolveMember tn) ApartReplies (Confined gas ex₀)
      (fun ex ga => ga ∈ gas ∧ (Unresolved entry ex ga ∨ Foreclosed held ex ga)) (Concluded tn entry held) where
  apart h := ⟨h.1.symm, fun h₁ h₂ => (h.2 h₂ h₁).symm⟩
  keeps hI h := by
    obtain ⟨hsound, -, hstates, hreceipts⟩ := resolveMember_frame hI.sound h.2 tn
    exact ⟨hsound, fun σ hσ => (hstates σ (hσ _ h.1)).trans (hI.states σ hσ),
      fun i hi => (hreceipts i (hi _ h.1)).trans (hI.receipts i hi)⟩
  turn hI h := (resolveMember_frame hI.sound h.2 tn).2.1
  todo {ex ga ga'} hI h hne h' := by
    obtain ⟨-, -, hstates, hreceipts⟩ := resolveMember_frame hI.sound h.2 tn
    have hkept : ga'.hasGrant = true → (ex.resolveMember tn ga).1.receiptsByGrant.find? ga'.grant.grantId =
        ex.receiptsByGrant.find? ga'.grant.grantId :=
      fun hgrant' => hreceipts _ fun hgrant => (hne.2 hgrant hgrant').symm
    refine ⟨h'.1, h'.2.imp ?_ ?_⟩
    · rintro ⟨st, p, hentry, hst, hp, hreply, hnew⟩
      exact ⟨st, p, hentry, (hstates _ hne.1.symm).trans hst, hp, hreply,
        fun hgrant' => (hkept hgrant').trans (hnew hgrant')⟩
    · rintro ⟨haccepted, hgranted, r, hr, hr', hfits⟩
      exact ⟨haccepted, hgranted, r, hr, (hkept hgranted.1).trans hr', hfits⟩
  done {ex ga ga' o} hI h hne h' := by
    obtain ⟨-, -, hstates, -⟩ := resolveMember_frame hI.sound h.2 tn
    refine h'.imp_left ?_
    rintro ⟨st, p, hentry, hp, hres⟩
    refine ⟨st, p, hentry, hp, ?_⟩
    rw [hstates _ hne.1.symm]
    exact hres

end Executor
end

/-- The CPU executor reports on what it was asked for and returns the receipts of its grants. -/
theorem cpu_honest (N : Numerics) : (cpuDecodeExecutor N).Honest where
  prepare {req took ex ex' prepared} h :=
    (prepare_answers (congrArg Prod.snd h)).imp fun _ _ hans => ⟨hans.sequence, hans.outcome⟩
  commit h := commit_fits h

/-! The whole dispatch. -/

section
variable {N : Numerics}
variable {H : Host N}

namespace Host

/-- A pump may take dispatch `d`: its members have sequences and states of their own, no transition of their attempts
    waits, and each receipt the executor keeps is under an id that is used up, or for a proposal made before. -/
structure Deliverable (H : Host N) (d : Dispatch) : Prop where
  sequences : (d.members.map fun m => m.sequence).Nodup
  states : (d.members.map fun m => m.state.id).Nodup
  found : ∀ m ∈ d.members, ∃ x, H.fabric.seqs.find? m.sequence = some x
  clear : ∀ m ∈ d.members, H.executor.pending m.state.id ≠ some m.attempt
  sound : H.executor.Sound
  receipts : ∀ i r, H.executor.receiptsByGrant.find? i = some r →
    i < H.fabric.nextGrant ∨ r.proposal ≤ H.executor.nextProposal

/-- The executor's state for member `m` as preparation finds it. -/
def entryFor (H : Host N) (m : DecodeMemberSpec) : SeqState N :=
  .ensureInitialized m (H.executor.states.find? m.state.id)

/-- What became of member `m`, whose sequence was `x`, from `H` to `H'`. -/
inductive Served (took : StepTimes) (H : Host N) (d : Dispatch) (H' : Host N)
    (m : DecodeMemberSpec) (x : Seq) : Prop
  | committed (proposal : ProposalId) (gid : GrantId) (fin : TimePoint) (r : MemberReceipt) :
      H.fabric.prepareVerdict x ((H.entryFor m).preparedMember proposal d.toRequest m (took m)) = .grant →
      r.Confirms ((H.entryFor m).preparedMember proposal d.toRequest m (took m)) →
      H'.fabric.seqs.find? m.sequence =
        some ((x.holdGrant gid ((H.entryFor m).preparedMember proposal d.toRequest m (took m))).finish fin r) →
      H'.executor.states.find? m.state.id = some (H.entryFor m).cleared.replay →
      Served took H d H' m x
  | refused (proposal : ProposalId) (rej : Fabric.Rejection) (now : TimePoint) :
      H.fabric.prepareVerdict x ((H.entryFor m).preparedMember proposal d.toRequest m (took m)) = .reject rej →
      H'.fabric.seqs.find? m.sequence = some (SeqOp.apply (.reconcile now) x) →
      H'.executor.states.find? m.state.id = some (H.entryFor m).cleared →
      Served took H d H' m x
  | hung (proposal : ProposalId) (gid : GrantId) (r : MemberReceipt) :
      H.fabric.prepareVerdict x ((H.entryFor m).preparedMember proposal d.toRequest m (took m)) = .grant →
      H.fabric.nextGrant ≤ gid → H.executor.receiptsByGrant.find? gid = some r →
      H'.fabric.seqs.find? m.sequence =
        some (x.holdGrant gid ((H.entryFor m).preparedMember proposal d.toRequest m (took m))) →
      Served took H d H' m x

section Loops
variable {H : Host N} {d : Dispatch} (h : H.Deliverable d) (took : StepTimes) (tn : TimePoint)

/-- The executor after preparation, and its reports. -/
abbrev stage (H : Host N) (d : Dispatch) : Executor N × List PreparedMember :=
  scan (stageMember d.toRequest took) H.executor d.members

/-- What the fabric is told. -/
abbrev report (H : Host N) (d : Dispatch) : PreparedDecode :=
  { dispatchId := d.id
    epoch := d.epoch
    worker := d.worker
    workerBoot := d.workerBoot
    members := (H.stage took d).2
    groupActiveNs := ((H.stage took d).2.map PreparedMember.activeNs).sum }

/-- The answers of the fabric. -/
abbrev answers (H : Host N) (d : Dispatch) : List Fabric.GrantOrAbort :=
  (H.fabric.authorizePrepared (H.report took d)).2.members

/-- The executor after commits and aborts, and the receipts. -/
abbrev resolution (H : Host N) (d : Dispatch) : Executor N × List (Option MemberReceipt) :=
  scan (resolveMember tn) (H.stage took d).1 (H.answers took d)

include h

theorem pumpDispatch_eq : H.pumpDispatch took tn d =
      { fabric := (H.resolution took tn d).2.foldl finalizeIf (H.fabric.authorizePrepared (H.report took d)).1
        executor := (H.resolution took tn d).1 } := by
  have hprep : H.executor.prepare d.toRequest took = ((H.stage took d).1, .ok (H.report took d)) := by
    unfold prepare
    have hloop : prepareMembers d.toRequest took H.executor d.toRequest.members = _ :=
      prepareMembers_clear d.toRequest took h.states h.clear
    rw [hloop]
    rfl
  have hcpu : (cpuDecodeExecutor N).prepare d.toRequest took H.executor = ((H.stage took d).1, .ok (H.report took d)) :=
    hprep
  unfold pumpDispatch DecodeExecutor.pumpDispatch
  rw [hcpu, foldl_finalizeIf]
  rfl

theorem staged : (H.stage took d).1.Sound ∧ List.Forall₂
    (Executor.Staged d.toRequest took (fun σ => H.executor.states.find? σ) (H.stage took d).1) d.members
      (H.stage took d).2 := by
  refine (stage_batch d.toRequest took _).run ?_ h.sound (fun m _ => rfl)
  exact pairwise_map.mp h.states

omit h in
theorem Staged.names {entry : StateId → Option (SeqState N)} {ex : Executor N}
    (hs : Executor.Staged d.toRequest took entry ex m pm) : pm.sequence = m.sequence ∧ pm.state = m.state.id ∧
      pm.outcome.sequence = pm.sequence ∧ pm.isCommitEligible = true := by
  obtain ⟨proposal, rfl, -⟩ := hs
  exact ⟨rfl, rfl, rfl, SeqState.preparedMember_eligible _ _ _ _ _⟩

/-- The reports are about different states, and about different sequences of the fabric. -/
theorem reports : (H.report took d).members.Pairwise (fun pm pm' => pm.state ≠ pm'.state) ∧
    (H.report took d).members.Pairwise (fun pm pm' => pm.sequence ≠ pm'.sequence) ∧
    (∀ pm ∈ (H.report took d).members, pm.outcome.sequence = pm.sequence) ∧
    ∀ pm ∈ (H.report took d).members, ∃ x, H.fabric.seqs.find? pm.sequence = some x := by
  have hstaged := (staged h took).2
  refine ⟨forall₂_pairwise (fun m m' pm pm' hs hs' hne => ?_) hstaged (pairwise_map.mp h.states),
    forall₂_pairwise (fun m m' pm pm' hs hs' hne => ?_) hstaged (pairwise_map.mp h.sequences), fun pm hpm => ?_,
    fun pm hpm => ?_⟩
  · rw [(Staged.names took hs).2.1, (Staged.names took hs').2.1]
    exact hne
  · rw [(Staged.names took hs).1, (Staged.names took hs').1]
    exact hne
  · obtain ⟨m, -, hs⟩ := forall₂_item hstaged pm hpm
    exact (Staged.names took hs).2.2.1
  · obtain ⟨m, hm, hs⟩ := forall₂_item hstaged pm hpm
    rw [(Staged.names took hs).1]
    exact h.found m hm

theorem answered : List.Forall₂ (Fabric.Answered H.fabric (H.report took d)
    (H.fabric.authorizePrepared (H.report took d)).1) (H.stage took d).2 (H.answers took d) := by
  obtain ⟨-, hn, hself, hknown⟩ := reports h took
  exact Fabric.answered_all hn hself hknown

/-- The answers are about different states, and the grants among them have different ids. -/
theorem answers_apart : (H.answers took d).Pairwise Executor.ApartReplies := by
  obtain ⟨hstates, hsequences, -⟩ := reports h took
  refine forall₂_pairwise (fun pm pm' ga ga' ha ha' hne => ?_) (answered h took) (hstates.and hsequences)
  refine ⟨?_, fun hg hg' heq => ?_⟩
  · rw [ha.settled.abortSpec, ha'.settled.abortSpec]
    exact hne.1
  · -- one id, one ledger entry, one grant
    have hone := (ha.pending hg).2.symm.trans (heq ▸ (ha'.pending hg').2)
    obtain ⟨gid, rfl⟩ := ha.settled.granted hg
    obtain ⟨gid', rfl⟩ := ha'.settled.granted hg'
    exact hne.2 (congrArg (fun gr : GrantRecord => gr.grant.sequence) (some.inj hone))

omit h in
theorem stage_receipts : (H.stage took d).1.receiptsByGrant = H.executor.receiptsByGrant := by
  unfold stage
  rw [scan_fst]
  exact foldl_invariant (I := fun ex : Executor N => ex.receiptsByGrant = H.executor.receiptsByGrant)
    (fun _ _ hex => hex) rfl

/-- The answer to a report is an answer to the step staged for it, or a grant under an id already taken. -/
theorem reply (hpm : pm ∈ (H.stage took d).2)
    (hs : Executor.Staged d.toRequest took (fun σ => H.executor.states.find? σ) (H.stage took d).1 m pm)
    {s : Fabric} (ha : Fabric.Answered H.fabric (H.report took d) s pm ga) :
    Executor.Unresolved (fun σ => (H.stage took d).1.states.find? σ) (H.stage took d).1 ga ∨
      Executor.Foreclosed H.executor.receiptsByGrant (H.stage took d).1 ga := by
  have hnumber := stage_numbered d.toRequest took d.members H.executor pm hpm
  obtain ⟨-, -, -, helig⟩ := Staged.names took hs
  obtain ⟨proposal, rfl, hheld⟩ := hs
  obtain ⟨x, y, -, -, hfate⟩ := ha.settled
  cases hfate with
  | left gid _ hlow =>
    cases hr : H.executor.receiptsByGrant.find? gid with
    | none =>
      refine .inl ⟨_, _, hheld, hheld, rfl, ?_, fun _ => ?_⟩
      · exact .grant rfl rfl rfl rfl (by simp [authorityMatches, SeqState.preparedMember, grantReply, makeGrant,
          Dispatch.toRequest]) rfl rfl rfl
      · rw [stage_receipts]
        exact hr
    | some r =>
      refine .inr ⟨⟨rfl, rfl⟩, ⟨rfl, rfl⟩, r, hr, ?_, ?_⟩
      · rw [stage_receipts]
        exact hr
      · -- the proposal of the grant is newer than any the executor has a receipt for
        have hold : r.proposal ≤ H.executor.nextProposal := (h.receipts gid r hr).resolve_left (Nat.not_lt.mpr hlow)
        have hne : r.proposal ≠ proposal := Nat.ne_of_lt (Nat.lt_of_le_of_lt hold hnumber)
        simp [receiptFitsGrant, grantReply, makeGrant, SeqState.preparedMember, hne]
  | refused rej => exact .inl ⟨_, _, hheld, hheld, rfl, .refusal rfl rfl rfl rfl, fun hgrant => by cases hgrant⟩
  | ended hv =>
    rw [(prepareVerdict_noncommit hv).2] at helig
    cases helig

theorem resolved : Executor.Confined (H.answers took d) (H.stage took d).1 (H.resolution took tn d).1 ∧ List.Forall₂
    (Executor.Concluded tn (fun σ => (H.stage took d).1.states.find? σ) H.executor.receiptsByGrant
      (H.resolution took tn d).1) (H.answers took d) (H.resolution took tn d).2 := by
  refine (resolve_batch tn _ _ (H.answers took d) (H.stage took d).1).run (answers_apart h took)
    ⟨(staged h took).1, fun _ _ => rfl, fun _ _ => rfl⟩ fun ga hga => ⟨hga, ?_⟩
  obtain ⟨pm, hpm, ha⟩ := forall₂_item (answered h took) ga hga
  obtain ⟨m, -, hs⟩ := forall₂_item (staged h took).2 pm hpm
  exact reply h took hpm hs ha

omit h in
theorem honoured : List.Forall₂ GrantOrAbort.Honours (H.answers took d) (H.resolution took tn d).2 :=
  (cpu_honest N).honoured tn (H.stage took d).1 (H.answers took d)

/-- Every member of the dispatch is served. -/
theorem delivered (hm : m ∈ d.members) {x : Seq} (hx : H.fabric.seqs.find? m.sequence = some x) :
    Served took H d (H.pumpDispatch took tn d) m x := by
  obtain ⟨-, hn, hself, hknown⟩ := reports h took
  obtain ⟨pm, hpm, hs⟩ := forall₂_answer (staged h took).2 m hm
  obtain ⟨⟨ga, o⟩, hmem, x', y, hx', hy, hfate⟩ :=
    forall₂_answer (Fabric.settled_all hn hself hknown (honoured took tn)) pm hpm
  have hconcluded := (forall₂_iff_zip.mp (resolved h took tn).2).2 hmem
  clear hmem
  obtain ⟨-, -, -, helig⟩ := Staged.names took hs
  obtain ⟨proposal, rfl, hheld⟩ := hs
  cases hx.symm.trans hx'
  rw [pumpDispatch_eq h]
  cases hfate with
  | finished gid r hv =>
    obtain ⟨st, p, hentry, hp, ⟨-, ho, hafter⟩ | ⟨hno, -⟩⟩ | ⟨-, ho, -⟩ := hconcluded
    · cases hheld.symm.trans hentry
      cases ho
      rw [SeqState.promoted_stage hp] at hafter
      exact .committed proposal gid _ _ hv (receiptAt_confirms hp rfl rfl rfl gid) hy hafter
    · cases hno
    · cases ho
  | left gid hv hlow =>
    obtain ⟨st, p, -, -, ⟨-, ho, -⟩ | ⟨hno, -⟩⟩ | ⟨-, -, r, hr⟩ := hconcluded
    · cases ho
    · cases hno
    · exact .hung proposal gid r hv hlow hr hy
  | refused rej hv =>
    obtain ⟨st, p, hentry, hp, ⟨hyes, -⟩ | ⟨-, -, hafter⟩⟩ | ⟨hyes, -⟩ := hconcluded
    · cases hyes
    · cases hheld.symm.trans hentry
      exact .refused proposal rej _ hv hy hafter
    · cases hyes
  | ended hv =>
    rw [(prepareVerdict_noncommit hv).2] at helig
    cases helig

/-- A pump acts on the sequences of the dispatch. -/
theorem settled_on : Steps (Act.On fun q => ∃ m ∈ d.members, m.sequence = q) H.fabric
    (H.pumpDispatch took tn d).fabric := by
  obtain ⟨-, hn, hself, hknown⟩ := reports h took
  rw [pumpDispatch_eq h]
  refine (Fabric.settled_on hn hself hknown (honoured took tn)).mono fun _ => Act.On.mono ?_
  rintro q ⟨pm, hpm, rfl⟩
  obtain ⟨m, hm, hs⟩ := forall₂_item (staged h took).2 pm hpm
  exact ⟨m, hm, (Staged.names took hs).1.symm⟩

/-- Sequences that are not in the dispatch are left alone. -/
theorem unserved_seq (hq : ∀ m ∈ d.members, m.sequence ≠ q) :
    (H.pumpDispatch took tn d).fabric.seqs.find? q = H.fabric.seqs.find? q := by
  refine ((settled_on h took tn).beside ?_).seq
  rintro ⟨m, hm, heq⟩
  exact hq m hm heq

/-- Executor states that are not in the dispatch are left alone. -/
theorem unserved_state (hσ : ∀ m ∈ d.members, m.state.id ≠ σ) :
    (H.pumpDispatch took tn d).executor.states.find? σ = H.executor.states.find? σ := by
  rw [pumpDispatch_eq h]
  refine ((resolved h took tn).1.states σ fun ga hga heq => ?_).trans ?_
  · obtain ⟨pm, hpm, ha⟩ := forall₂_item (answered h took) ga hga
    obtain ⟨m, hm, hs⟩ := forall₂_item (staged h took).2 pm hpm
    rw [ha.settled.abortSpec] at heq
    exact hσ m hm ((Staged.names took hs).2.1.symm.trans heq.symm)
  · rw [scan_fst]
    refine foldl_invariant (I := fun ex : Executor N => ex.states.find? σ = H.executor.states.find? σ) ?_ rfl
    intro p hturn hp
    rw [← hp]
    exact find?_insert_ne (hσ p.2 (mem_of_mem_turns hturn)).symm _

/-- A receipt the executor did not have before is for a grant the fabric has issued. -/
theorem receipts_issued {i : GrantId} {r : MemberReceipt}
    (hr : (H.pumpDispatch took tn d).executor.receiptsByGrant.find? i = some r) :
    H.executor.receiptsByGrant.find? i = some r ∨ i < (H.pumpDispatch took tn d).fabric.nextGrant := by
  by_cases hgrant : ∃ ga ∈ H.answers took d, ga.hasGrant = true ∧ i = ga.grant.grantId
  · obtain ⟨ga, hga, hg, rfl⟩ := hgrant
    obtain ⟨pm, -, ha⟩ := forall₂_item (answered h took) ga hga
    refine .inr (Nat.lt_of_lt_of_le (ha.pending hg).1 ?_)
    rw [pumpDispatch_eq h]
    exact foldl_finalizeIf_nextGrant _ _
  · rw [pumpDispatch_eq h] at hr
    have hsame := (resolved h took tn).1.receipts i fun ga hga hg heq => hgrant ⟨ga, hga, hg, heq⟩
    rw [stage_receipts] at hsame
    exact .inl (hsame.symm.trans hr)

/-- The fabric is called twice: to authorize the reports, and to finalize. -/
theorem pumpDispatch_called : ∃ receipts, (H.pumpDispatch took tn d).fabric =
    (H.fabric.exec (.authorizePrepared (H.report took d))).exec (.applyCommitReceipt receipts) := by
  rw [pumpDispatch_eq h, foldl_finalizeIf]
  exact ⟨{ receipts := (H.resolution took tn d).2.filterMap id }, rfl⟩

theorem report_eligible : ∀ pm ∈ (H.report took d).members, pm.isCommitEligible = true ∧ pm.dispatch = d.id := by
  intro pm hpm
  obtain ⟨m, -, hstaged⟩ := forall₂_item (staged h took).2 pm hpm
  obtain ⟨-, -, -, helig⟩ := Staged.names took hstaged
  obtain ⟨proposal, rfl, -⟩ := hstaged
  exact ⟨helig, rfl⟩

end Loops

/-- What a pump makes of one dispatch. -/
structure Delivered (took : StepTimes) (H : Host N) (d : Dispatch) (H' : Host N) : Prop where
  served : ∀ m ∈ d.members, ∀ x, H.fabric.seqs.find? m.sequence = some x → Served took H d H' m x
  seqs : ∀ q, (∀ m ∈ d.members, m.sequence ≠ q) → H'.fabric.seqs.find? q = H.fabric.seqs.find? q
  states : ∀ σ, (∀ m ∈ d.members, m.state.id ≠ σ) → H'.executor.states.find? σ = H.executor.states.find? σ
  sound : H'.executor.Sound
  receipts : ∀ i r, H'.executor.receiptsByGrant.find? i = some r →
    H.executor.receiptsByGrant.find? i = some r ∨ i < H'.fabric.nextGrant
  grants : H.fabric.nextGrant ≤ H'.fabric.nextGrant

theorem Deliverable.delivered (h : H.Deliverable d) (took : StepTimes)
    (tn : TimePoint) : Delivered took H d (H.pumpDispatch took tn d) where
  served _ hm _ hx := Host.delivered h took tn hm hx
  seqs _ hq := unserved_seq h took tn hq
  states _ hσ := unserved_state h took tn hσ
  sound := by
    rw [pumpDispatch_eq h]
    exact (resolved h took tn).1.sound
  receipts _ _ hr := receipts_issued h took tn hr
  grants := (settled_on h took tn).nextGrant_le

end Host
end
end DecodeFabric
