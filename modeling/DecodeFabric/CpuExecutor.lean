import DecodeFabric.Messages
import DecodeFabric.Lib.Batch
import DecodeFabric.Lib.Table

/- The CPU executor.

   An executor keeps, for every state it holds, the committed recurrent state with its token count,
   and at most one prepared transition. `prepare` brings the committed state up to the token
   count the coordinator names and stages the next step; `commit` promotes the staged step on a
   grant that matches it and keeps the receipt under the grant's id; `abort` discards it.

   The floating-point recurrence is a parameter (`Numerics`): nothing here depends on what a step
   computes. An entry of `states_` is created and initialised under one lock, so an entry of
   `states` is an initialised one; `has_tentative` and the fields it guards are one optional
   `Prepared`. The time a preparation takes is an argument. -/
namespace DecodeFabric
open Lib
variable {m : DecodeMemberSpec} {P : StateId → UInt64 → Prop}

/-- The numeric part: `initial_state`, `step_state`, `state_checksum` and `step_token`. -/
structure Numerics where
  Vec : Type
  initialState : StateId → AttemptId → Vec
  stepState : Vec → Vec
  stateChecksum : Vec → UInt64
  stepToken : Vec → UInt32

/-- The transition staged by `prepare`. -/
structure Prepared (N : Numerics) where
  state : N.Vec
  kvBytes : UInt64
  proposal : ProposalId
  attempt : AttemptId
  generation : DecodeGeneration
  sequence : SequenceId
  worker : WorkerId
  workerBoot : WorkerBootId
  epoch : CoordinatorEpoch
  dispatch : DispatchId
  preDigest : UInt64
  postDigest : UInt64

structure SeqState (N : Numerics) where
  state : N.Vec
  tokens : UInt64 := 0
  kvBytes : UInt64 := 0
  eosEnabled : Bool := false
  eosTarget : UInt32 := 0
  tentative : Option (Prepared N) := none

structure Executor (N : Numerics) where
  states : Table StateId (SeqState N) := .empty
  receiptsByGrant : Table GrantId MemberReceipt := .empty
  consumedProposals : Table ProposalId Bool := .empty
  nextProposal : Nat := 0

/-- How long the preparation of each member takes. -/
abbrev StepTimes := DecodeMemberSpec → Nanoseconds

/-- Per-token growth of the KV bytes. -/
def kvDelta : UInt64 := 64

section
variable {N : Numerics}

def digestState (v : N.Vec) (tokens kvBytes : UInt64) : UInt64 :=
  fnvMix (fnvMix (N.stateChecksum v) tokens) kvBytes

namespace SeqState

/-- One step of the reconstruction loop. -/
def replay (st : SeqState N) : SeqState N :=
  { st with state := N.stepState st.state, tokens := st.tokens + 1, kvBytes := st.kvBytes + kvDelta }

/-- The reconstruction loop, run at most `fuel` times. -/
def catchUp (target : UInt64) : Nat → SeqState N → SeqState N
  | 0, st => st
  | fuel + 1, st => if st.tokens < target then catchUp target fuel st.replay else st

/-- The state a new entry starts from. -/
def fresh (m : DecodeMemberSpec) : SeqState N where
  state := N.initialState m.state.id m.attempt
  kvBytes := m.state.bytesHeld
  eosEnabled := m.payload.head?.any fun b => b &&& 1 ≠ 0
  eosTarget := (m.payload.getD 1 0).toUInt32

/-- `ensure_initialized` on the entry of the member's state. -/
def ensureInitialized (m : DecodeMemberSpec) (entry : Option (SeqState N)) : SeqState N :=
  let st := entry.getD (fresh m)
  st.catchUp m.generatedTokens (m.generatedTokens.toNat - st.tokens.toNat)

/-- Stage the next step of `m` under `proposal`. -/
def stage (proposal : ProposalId) (req : DecodeExecutionRequest) (m : DecodeMemberSpec) (st : SeqState N) :
    SeqState N :=
  let next := N.stepState st.state
  { st with
    tentative := some
      { state := next
        kvBytes := st.kvBytes + kvDelta
        proposal := proposal
        attempt := m.attempt
        generation := m.generation
        sequence := m.sequence
        worker := req.worker
        workerBoot := req.workerBoot
        epoch := req.epoch
        dispatch := req.dispatchId
        preDigest := digestState st.state st.tokens st.kvBytes
        postDigest := digestState next (st.tokens + 1) (st.kvBytes + kvDelta) } }

/-- What `prepare` reports for `m`, its step staged from `st` in `ns` nanoseconds. -/
def preparedMember (proposal : ProposalId) (req : DecodeExecutionRequest) (m : DecodeMemberSpec) (ns : Nanoseconds)
    (st : SeqState N) : PreparedMember :=
  let next := N.stepState st.state
  let token := N.stepToken next
  let pre := digestState st.state st.tokens st.kvBytes
  let post := digestState next (st.tokens + 1) (st.kvBytes + kvDelta)
  let terminal : Bool := (st.eosEnabled && token == st.eosTarget) ||
    decide (m.generatedTokens + 1 ≥ m.generatedTokens + m.remainingBudget)
  { sequence := m.sequence
    state := m.state.id
    attempt := m.attempt
    generation := m.generation
    dispatch := req.dispatchId
    epoch := req.epoch
    worker := req.worker
    workerBoot := req.workerBoot
    proposal := proposal
    preStateDigest := pre
    postStateDigest := post
    deltaDigest := fnvMix pre post
    committedPositionBefore := st.tokens
    committedPositionAfter := st.tokens + 1
    activeNs := ns
    outcome :=
      { sequence := m.sequence
        kind := if terminal then .stepSuccessTerminal else .stepSuccessContinue
        attempt := m.attempt
        generation := m.generation
        generated := 1
        tokenIdentifier := token.toUInt64
        terminal := terminal
        finishedAt := ns
        activeNs := ns
        kvBytesDelta := kvDelta
        kvBytesAfter := st.kvBytes + kvDelta } }

end SeqState

namespace Executor

/-- Why the step of `m` cannot be staged over the transition already prepared, if it cannot. A transition of
    another attempt is stale and gives way. -/
def prepareConflict (m : DecodeMemberSpec) (p : Prepared N) : Option Error :=
  if p.attempt = m.attempt then
    if p.generation = m.generation then
      some ⟨.duplicateCompletion, "duplicate prepare for the same authoritative generation"⟩
    else some ⟨.transactionConflict, "prepare out of order: prior generation unresolved"⟩
  else none

/-- The state of member `m`, brought up to the token count it names. -/
abbrev entryFor (ex : Executor N) (m : DecodeMemberSpec) : SeqState N :=
  .ensureInitialized m (ex.states.find? m.state.id)

def prepareMember (req : DecodeExecutionRequest) (ns : Nanoseconds) (ex : Executor N) (m : DecodeMemberSpec) :
    Executor N × Except Error PreparedMember :=
  let st := ex.entryFor m
  match st.tentative.bind (prepareConflict m) with
  | some e => ({ ex with states := ex.states.insert m.state.id st }, .error e)
  | none =>
    let proposal := ex.nextProposal + 1
    ({ ex with
        states := ex.states.insert m.state.id (st.stage proposal req m)
        nextProposal := proposal },
      .ok (st.preparedMember proposal req m ns))

/-- The loop of `prepare`: it stops at the first member that fails, what was staged before staying staged. -/
def prepareMembers (req : DecodeExecutionRequest) (took : StepTimes) :
    Executor N → List DecodeMemberSpec → Executor N × Except Error (List PreparedMember)
  | ex, [] => (ex, .ok [])
  | ex, m :: ms =>
    match ex.prepareMember req (took m) m with
    | (ex, .error e) => (ex, .error e)
    | (ex, .ok pm) =>
      match prepareMembers req took ex ms with
      | (ex, .error e) => (ex, .error e)
      | (ex, .ok pms) => (ex, .ok (pm :: pms))

def prepare (req : DecodeExecutionRequest) (took : StepTimes) (ex : Executor N) :
    Executor N × Except Error PreparedDecode :=
  match prepareMembers req took ex req.members with
  | (ex, .error e) => (ex, .error e)
  | (ex, .ok pms) =>
    (ex, .ok
      { dispatchId := req.dispatchId
        epoch := req.epoch
        worker := req.worker
        workerBoot := req.workerBoot
        members := pms
        groupActiveNs := (pms.map PreparedMember.activeNs).sum })

/-- The receipt of grant `g`, promoted from token count `before` with the digests staged as `p`. -/
def receiptFor (g : CommitGrant) (before : UInt64) (p : Prepared N) : MemberReceipt where
  receiptId := g.grantId
  grantId := g.grantId
  proposal := g.proposal
  epoch := g.epoch
  worker := g.worker
  workerBoot := g.workerBoot
  sequence := g.sequence
  state := g.state
  attempt := g.attempt
  generation := g.generation
  dispatch := g.dispatch
  committedPositionBefore := before
  committedPositionAfter := before + 1
  preStateDigest := p.preDigest
  postStateDigest := p.postDigest
  deltaDigest := g.deltaDigest
  outcomeKind := g.outcomeKind
  terminal := g.terminal
  tokenIdentifier := g.tokenIdentifier
  activeNs := g.activeNs

/-- The transition staged as `p` is the one `g` was granted for. -/
def authorityMatches (p : Prepared N) (g : CommitGrant) : Bool :=
  decide (p.proposal = g.proposal ∧ p.attempt = g.attempt ∧ p.generation = g.generation ∧
    p.sequence = g.sequence ∧ p.worker = g.worker ∧ p.workerBoot = g.workerBoot ∧ p.epoch = g.epoch ∧
    p.dispatch = g.dispatch)

/-- Promote the transition staged as `p` in `st`, on grant `g`. -/
def promote (ex : Executor N) (g : CommitGrant) (st : SeqState N) (p : Prepared N) : Executor N :=
  { ex with
    states := ex.states.insert g.state
      { st with state := p.state, tokens := st.tokens + 1, kvBytes := p.kvBytes, tentative := none }
    consumedProposals := ex.consumedProposals.insert g.proposal true
    receiptsByGrant := ex.receiptsByGrant.insert g.grantId (receiptFor g st.tokens p) }

def commit (g : CommitGrant) (ex : Executor N) : Executor N × Except Error MemberReceipt :=
  match ex.receiptsByGrant.find? g.grantId with
  | some existing =>
    -- the fields compared are the ones `apply_commit_receipt` compares
    if receiptFitsGrant existing g then (ex, .ok existing)
    else (ex, .error ⟨.duplicateCompletion, "conflicting reuse of an already-consumed commit grant"⟩)
  | none =>
    match ex.states.find? g.state with
    | none => (ex, .error ⟨.unknownState, "no prepared transition for grant state"⟩)
    | some st =>
      match st.tentative with
      | none => (ex, .error ⟨.unknownState, "no prepared transition for grant state"⟩)
      | some p =>
        if !authorityMatches p g then (ex, .error ⟨.supersededByRetry, "grant proposal/authority mismatch"⟩)
        else if p.preDigest ≠ g.preStateDigest ∨ p.postDigest ≠ g.postStateDigest then
          (ex, .error ⟨.stateDigestMismatch, "grant digest mismatch"⟩)
        else if st.tokens ≠ g.committedPosition then
          (ex, .error ⟨.invalidArgument, "grant committed-position mismatch"⟩)
        else (ex.promote g st p, .ok (receiptFor g st.tokens p))

/-- Discard the transition prepared under `a`'s proposal, if it still is; aborting what is already aborted or
    unknown is no error. -/
def abort (a : AbortPrepared) (ex : Executor N) : Executor N × Except Error Unit :=
  match ex.consumedProposals.find? a.proposal with
  | some _ => (ex, .error ⟨.alreadyTerminal, "abort after commit"⟩)
  | none =>
    ({ ex with
        states := ex.states.modify a.state fun st =>
          if st.tentative.any (fun p => p.proposal = a.proposal) then { st with tentative := none } else st },
      .ok ())

def committedTokens (ex : Executor N) (σ : StateId) : UInt64 :=
  match ex.states.find? σ with
  | none => 0
  | some st => st.tokens

def committedStateDigest (ex : Executor N) (σ : StateId) : UInt64 :=
  match ex.states.find? σ with
  | none => 0
  | some st => digestState st.state st.tokens st.kvBytes

def hasPrepared (ex : Executor N) (σ : StateId) (proposal : ProposalId) : Bool :=
  match ex.states.find? σ with
  | none => false
  | some st => st.tentative.any fun p => p.proposal = proposal

end Executor

/-! The reconstruction loop. -/

/-- The loop stops at its target, unless the state is already past it. -/
theorem SeqState.catchUp_tokens (target : UInt64) : ∀ (fuel : Nat) (st : SeqState N),
    fuel = target.toNat - st.tokens.toNat →
    (st.catchUp target fuel).tokens = if st.tokens < target then target else st.tokens
  | 0, st, h => by
    have hle : ¬ st.tokens < target := by
      rw [UInt64.lt_iff_toNat_lt]
      omega
    rw [if_neg hle]
    rfl
  | fuel + 1, st, h => by
    have hlt : st.tokens < target := by
      rw [UInt64.lt_iff_toNat_lt]
      omega
    have hnat : st.tokens.toNat < target.toNat := UInt64.lt_iff_toNat_lt.mp hlt
    have hsucc : (st.tokens + 1).toNat = st.tokens.toNat + 1 := by
      have hsize := target.toNat_lt_size
      rw [UInt64.toNat_add]
      exact Nat.mod_eq_of_lt (Nat.lt_of_le_of_lt hnat hsize)
    have ih := catchUp_tokens target fuel st.replay (by
      change fuel = target.toNat - (st.tokens + 1).toNat
      omega)
    rw [if_pos hlt]
    simp only [catchUp, if_pos hlt, ih]
    change (if st.tokens + 1 < target then target else st.tokens + 1) = target
    split
    · rfl
    · next hge =>
      rw [UInt64.lt_iff_toNat_lt, hsucc] at hge
      exact UInt64.toNat_inj.mp (by omega)

/-- What the replay of a token keeps, the loop keeps. -/
theorem SeqState.catchUp_invariant {target : UInt64} {I : SeqState N → Prop}
    (h : ∀ st, st.tokens < target → I st → I st.replay) : ∀ (fuel : Nat) {st : SeqState N}, I st →
    I (st.catchUp target fuel)
  | 0, _, hst => hst
  | fuel + 1, st, hst => by
    unfold catchUp
    split
    · next hlt => exact catchUp_invariant h fuel (h st hlt hst)
    · exact hst

theorem SeqState.catchUp_tentative (target : UInt64) (fuel : Nat) (st : SeqState N) :
    (st.catchUp target fuel).tentative = st.tentative :=
  catchUp_invariant (I := fun u => u.tentative = st.tentative) (fun _ _ hu => hu) fuel rfl

/-- Without sampling metadata no token is watched for. -/
theorem SeqState.ensureInitialized_eosEnabled {m : DecodeMemberSpec} {entry : Option (SeqState N)} (hm : m.payload = [])
    (h : ∀ st, entry = some st → st.eosEnabled = false) : (ensureInitialized m entry).eosEnabled = false := by
  refine catchUp_invariant (I := fun u => u.eosEnabled = false) (fun _ _ hu => hu) _ ?_
  cases entry with
  | none => simp [fresh, hm]
  | some st => exact h st rfl

/-- A state about to be prepared has the tokens it had, or those the coordinator names. -/
theorem SeqState.ensureInitialized_tokens (m : DecodeMemberSpec) (entry : Option (SeqState N)) :
    (ensureInitialized m entry).tokens = m.generatedTokens ∨
      ∃ st, entry = some st ∧ (ensureInitialized m entry).tokens = st.tokens := by
  unfold ensureInitialized
  simp only
  rw [catchUp_tokens _ _ _ rfl]
  split
  · exact .inl rfl
  · next hge =>
    cases entry with
    | some st => exact .inr ⟨st, rfl, rfl⟩
    | none => exact .inl (UInt64.le_zero_iff.mp (UInt64.not_lt.mp hge)).symm

/-- A state that has the tokens the coordinator names is left as it is. -/
theorem SeqState.ensureInitialized_current {st : SeqState N} (h : m.generatedTokens ≤ st.tokens) :
    ensureInitialized m (some st) = st := by
  have hfuel : m.generatedTokens.toNat - st.tokens.toNat = 0 := Nat.sub_eq_zero_of_le (UInt64.le_iff_toNat_le.mp h)
  show st.catchUp m.generatedTokens (m.generatedTokens.toNat - st.tokens.toNat) = st
  rw [hfuel]
  rfl

/-! What the operations do to committed tokens and receipts. -/

namespace Executor
variable {ex : Executor N}

/-- Every state held, with its committed tokens, satisfies `P`. -/
def AllTokens (ex : Executor N) (P : StateId → UInt64 → Prop) : Prop :=
  ∀ σ st, ex.states.find? σ = some st → P σ st.tokens

theorem AllTokens.insert (h : ex.AllTokens P) {σ : StateId} {st : SeqState N}
    (hst : P σ st.tokens) {ex' : Executor N} (hs : ex'.states = ex.states.insert σ st) : ex'.AllTokens P := by
  intro j st' hj
  rw [hs, Table.find?_insert] at hj
  split at hj
  · next heq =>
    cases hj
    rw [heq]
    exact hst
  · exact h j st' hj

/-- The executor with the state of `m` brought up to date. -/
def withCurrent (ex : Executor N) (m : DecodeMemberSpec) : Executor N :=
  { ex with states := ex.states.insert m.state.id (ex.entryFor m) }

/-- The executor with the next step of `m` staged. -/
def withStaged (req : DecodeExecutionRequest) (ex : Executor N) (m : DecodeMemberSpec) : Executor N :=
  { ex with
    states := ex.states.insert m.state.id
      ((ex.entryFor m).stage (ex.nextProposal + 1) req m)
    nextProposal := ex.nextProposal + 1 }

/-- What `prepare_member` does: it brings the state up to date and stages its next step, or finds another step in the
    way. -/
theorem prepareMember_inv (req : DecodeExecutionRequest) (ns : Nanoseconds) (ex : Executor N) (m : DecodeMemberSpec) :
    (∃ e, ex.prepareMember req ns m = (ex.withCurrent m, .error e)) ∨
    ex.prepareMember req ns m = (ex.withStaged req m, .ok
      ((ex.entryFor m).preparedMember (ex.nextProposal + 1) req m ns)) := by
  unfold prepareMember
  simp only
  split
  · exact .inl ⟨_, rfl⟩
  · exact .inr rfl

theorem prepareMember_allTokens (h : ex.AllTokens P) (req : DecodeExecutionRequest)
    (ns : Nanoseconds) (hm : P m.state.id m.generatedTokens) : (ex.prepareMember req ns m).1.AllTokens P := by
  have hst : P m.state.id (ex.entryFor m).tokens := by
    rcases SeqState.ensureInitialized_tokens m (ex.states.find? m.state.id) with heq | ⟨st, hfind, heq⟩
    · rw [heq]
      exact hm
    · rw [heq]
      exact h _ st hfind
  obtain ⟨e, heq⟩ | heq := prepareMember_inv req ns ex m
  · rw [heq]
    exact h.insert hst rfl
  · rw [heq]
    refine h.insert ?_ rfl
    exact hst

theorem prepareMember_receipts (ex : Executor N) (req : DecodeExecutionRequest) (ns : Nanoseconds)
    (m : DecodeMemberSpec) : (ex.prepareMember req ns m).1.receiptsByGrant = ex.receiptsByGrant := by
  unfold prepareMember
  simp only
  split <;> rfl

/-- What a prepared member says of the member it was asked for. -/
structure Answers (req : DecodeExecutionRequest) (m : DecodeMemberSpec) (pm : PreparedMember) : Prop where
  sequence : pm.sequence = m.sequence
  outcome : pm.outcome.sequence = m.sequence
  state : pm.state = m.state.id
  dispatch : pm.dispatch = req.dispatchId
  succeeded : pm.outcome.succeeded = true

theorem prepareMember_answers {req : DecodeExecutionRequest} {ns : Nanoseconds}
    {pm : PreparedMember} (h : (ex.prepareMember req ns m).2 = .ok pm) : Answers req m pm := by
  unfold prepareMember at h
  simp only at h
  split at h
  · cases h
  · cases h
    refine ⟨rfl, rfl, rfl, rfl, ?_⟩
    simp only [SeqState.preparedMember, MemberOutcome.succeeded]
    split <;> rfl

/-- What every member keeps, the loop of `prepare` keeps. -/
theorem prepareMembers_invariant {I : Executor N → Prop} {req : DecodeExecutionRequest}
    {took : StepTimes} : ∀ {ms : List DecodeMemberSpec},
      (∀ ex, ∀ m ∈ ms, I ex → I (prepareMember req (took m) ex m).1) →
      ∀ {ex : Executor N}, I ex → I (prepareMembers req took ex ms).1
  | [], _, _, h => h
  | m :: ms, hI, ex, h => by
    have hm := hI ex m List.mem_cons_self h
    unfold prepareMembers
    generalize ex.prepareMember req (took m) m = first at hm
    obtain ⟨ex₁, e | pm⟩ := first
    · exact hm
    · have hms := prepareMembers_invariant (fun ex m' hm' => hI ex m' (List.mem_cons_of_mem _ hm')) hm
      simp only
      generalize prepareMembers req took ex₁ ms = rest at hms
      obtain ⟨ex₂, e | pms⟩ := rest
      · exact hms
      · exact hms

/-- A loop that succeeds answers every member, in their order. -/
theorem prepareMembers_answers {req : DecodeExecutionRequest} {took : StepTimes} :
    ∀ {ms : List DecodeMemberSpec} {ex : Executor N} {pms : List PreparedMember},
      (prepareMembers req took ex ms).2 = .ok pms → List.Forall₂ (Answers req) ms pms
  | [], _, _, h => by
    cases h
    exact .nil
  | m :: ms, ex, pms, h => by
    have hm : ∀ pm, (ex.prepareMember req (took m) m).2 = .ok pm → Answers req m pm := fun pm => prepareMember_answers
    unfold prepareMembers at h
    generalize ex.prepareMember req (took m) m = first at h hm
    obtain ⟨ex₁, e | pm⟩ := first
    · cases h
    · have hms := fun pms => @prepareMembers_answers req took ms ex₁ pms
      simp only at h
      generalize prepareMembers req took ex₁ ms = rest at h hms
      obtain ⟨ex₂, e | pms'⟩ := rest
      · cases h
      · cases h
        exact .cons (hm pm rfl) (hms pms' rfl)

theorem prepare_executor (req : DecodeExecutionRequest) (took : StepTimes) (ex : Executor N) :
    (ex.prepare req took).1 = (prepareMembers req took ex req.members).1 := by
  unfold prepare
  split <;> next heq => rw [heq]

theorem prepare_answers {req : DecodeExecutionRequest} {took : StepTimes}
    {prepared : PreparedDecode}
    (h : (ex.prepare req took).2 = .ok prepared) : List.Forall₂ (Answers req) req.members prepared.members := by
  have hans := fun pms => @prepareMembers_answers N req took req.members ex pms
  unfold prepare at h
  generalize prepareMembers req took ex req.members = result at h hans
  obtain ⟨ex', e | pms⟩ := result
  · cases h
  · cases h
    exact hans pms rfl

theorem prepare_allTokens (req : DecodeExecutionRequest) (took : StepTimes) (h : ex.AllTokens P)
    (hms : ∀ m ∈ req.members, P m.state.id m.generatedTokens) : (ex.prepare req took).1.AllTokens P := by
  rw [prepare_executor]
  exact prepareMembers_invariant (I := fun ex => ex.AllTokens P)
    (fun _ m hm hex => prepareMember_allTokens hex req (took m) (hms m hm)) h

theorem prepare_receipts (req : DecodeExecutionRequest) (took : StepTimes) (ex : Executor N) :
    (ex.prepare req took).1.receiptsByGrant = ex.receiptsByGrant := by
  rw [prepare_executor]
  exact prepareMembers_invariant (I := fun ex' => ex'.receiptsByGrant = ex.receiptsByGrant)
    (fun ex' m _ hex => (prepareMember_receipts ex' req (took m) m).trans hex) rfl

/-- Grant `g` fits the step staged as `p` in `st`, and is not used yet. -/
structure Promotes (ex : Executor N) (g : CommitGrant) (st : SeqState N) (p : Prepared N) : Prop where
  unused : ex.receiptsByGrant.find? g.grantId = none
  entry : ex.states.find? g.state = some st
  staged : st.tentative = some p
  authority : authorityMatches p g = true
  pre : p.preDigest = g.preStateDigest
  post : p.postDigest = g.postStateDigest
  position : st.tokens = g.committedPosition

/-- A commit fails, returns the receipt it kept, or promotes the staged step; only the last changes anything. -/
theorem commit_inv (g : CommitGrant) (ex : Executor N) : (∃ e, ex.commit g = (ex, .error e)) ∨
    (∃ r, ex.receiptsByGrant.find? g.grantId = some r ∧ ex.commit g = (ex, .ok r)) ∨
    ∃ st p, ex.Promotes g st p ∧ ex.commit g = (ex.promote g st p, .ok (receiptFor g st.tokens p)) := by
  unfold commit
  split
  · next r hr =>
    split
    · exact .inr (.inl ⟨r, hr, rfl⟩)
    · exact .inl ⟨_, rfl⟩
  · next hnone =>
    split
    · exact .inl ⟨_, rfl⟩
    · next st hst =>
      split
      · exact .inl ⟨_, rfl⟩
      · next p hp =>
        split
        · exact .inl ⟨_, rfl⟩
        · next hauth =>
          split
          · exact .inl ⟨_, rfl⟩
          · next hdig =>
            split
            · exact .inl ⟨_, rfl⟩
            · next htok =>
              rw [not_or, not_not, not_not] at hdig
              exact .inr (.inr ⟨st, p, ⟨hnone, hst, hp, by simpa using hauth, hdig.1, hdig.2, not_not.mp htok⟩, rfl⟩)

theorem commit_promotes {g : CommitGrant} {st : SeqState N} {p : Prepared N} (h : ex.Promotes g st p) :
    ex.commit g = (ex.promote g st p, .ok (receiptFor g st.tokens p)) := by
  simp only [commit, h.unused, h.entry, h.staged, h.authority, h.pre, h.post, h.position, Bool.not_true,
    Bool.false_eq_true, ne_eq, not_true_eq_false, or_self, if_false]

theorem Promotes.fits {g : CommitGrant} {st : SeqState N} {p : Prepared N} (h : ex.Promotes g st p) :
    receiptFitsGrant (receiptFor g st.tokens p) g = true := by
  simp [receiptFitsGrant, receiptFor, h.position, h.pre, h.post]

theorem Promotes.proposal {g : CommitGrant} {st : SeqState N} {p : Prepared N} (h : ex.Promotes g st p) :
    p.proposal = g.proposal := by
  have hauth := h.authority
  simp only [authorityMatches, decide_eq_true_eq] at hauth
  exact hauth.1

/-- A commit that succeeds returns the receipt of its grant. -/
theorem commit_fits {g : CommitGrant} {ex' : Executor N} {r : MemberReceipt} (h : ex.commit g = (ex', .ok r)) :
    receiptFitsGrant r g = true := by
  obtain ⟨e, he⟩ | ⟨r', hr, heq⟩ | ⟨st, p, hp, heq⟩ := ex.commit_inv g
  · rw [he] at h
    cases h
  · by_contra hmis
    rw [heq] at h
    cases h
    simp [commit, hr, hmis] at heq
  · rw [heq] at h
    cases h
    exact hp.fits

/-- A commit leaves the executor as it was, or promotes the staged step its grant fits. -/
theorem commit_cases (g : CommitGrant) (ex : Executor N) :
    (ex.commit g).1 = ex ∨ ∃ st p, ex.Promotes g st p ∧ (ex.commit g).1 = ex.promote g st p := by
  obtain ⟨e, he⟩ | ⟨r, -, hr⟩ | ⟨st, p, hp, hcommit⟩ := ex.commit_inv g
  · exact .inl (by rw [he])
  · exact .inl (by rw [hr])
  · exact .inr ⟨st, p, hp, by rw [hcommit]⟩

/-- An abort leaves the executor as it was, or discards the step staged for the state it names. -/
theorem abort_cases (a : AbortPrepared) (ex : Executor N) : (ex.abort a).1 = ex ∨
    ∃ st, ex.states.find? a.state = some st ∧
      (ex.abort a).1 = { ex with states := ex.states.insert a.state { st with tentative := none } } := by
  unfold abort
  split
  · exact .inl rfl
  · cases hst : ex.states.find? a.state with
    | none => exact .inl (by rw [Table.modify_of_none hst])
    | some st =>
      by_cases hany : st.tentative.any (fun p => p.proposal = a.proposal) = true
      · exact .inr ⟨st, rfl, by rw [Table.modify_eq_insert hst, if_pos hany]⟩
      · refine .inl ?_
        rw [Table.modify_eq_self hst]
        exact if_neg hany

theorem abort_allTokens (h : ex.AllTokens P) (a : AbortPrepared) : (ex.abort a).1.AllTokens P := by
  obtain heq | ⟨st, hst, heq⟩ := ex.abort_cases a
  · rw [heq]
    exact h
  · rw [heq]
    refine h.insert ?_ rfl
    exact h _ st hst

/-- What a call may do: bring a state up to date, stage its next step, promote a staged step, discard one. -/
inductive Change (ex : Executor N) : Executor N → Prop
  | same : Change ex ex
  | current (m : DecodeMemberSpec) : Change ex (ex.withCurrent m)
  | staged (req : DecodeExecutionRequest) (m : DecodeMemberSpec) : Change ex (ex.withStaged req m)
  | promoted {g : CommitGrant} {st : SeqState N} {p : Prepared N} :
      ex.Promotes g st p → Change ex (ex.promote g st p)
  | discarded {σ : StateId} {st : SeqState N} : ex.states.find? σ = some st →
      Change ex { ex with states := ex.states.insert σ { st with tentative := none } }

theorem commit_change (g : CommitGrant) (ex : Executor N) : ex.Change (ex.commit g).1 := by
  obtain heq | ⟨st, p, hp, heq⟩ := ex.commit_cases g
  · rw [heq]
    exact .same
  · rw [heq]
    exact .promoted hp

theorem abort_change (a : AbortPrepared) (ex : Executor N) : ex.Change (ex.abort a).1 := by
  obtain heq | ⟨st, hst, heq⟩ := ex.abort_cases a
  · rw [heq]
    exact .same
  · rw [heq]
    exact .discarded hst

/-- What every change keeps, `prepare` keeps. -/
theorem prepare_keeps {I : Executor N → Prop} (hI : ∀ {ex ex' : Executor N}, ex.Change ex' → I ex → I ex')
    (req : DecodeExecutionRequest) (took : StepTimes) (h : I ex) : I (ex.prepare req took).1 := by
  rw [prepare_executor]
  refine prepareMembers_invariant (fun ex m _ h => ?_) h
  obtain ⟨e, heq⟩ | heq := prepareMember_inv req (took m) ex m
  · rw [heq]
    exact hI (.current m) h
  · rw [heq]
    exact hI (.staged req m) h

theorem abort_receipts (a : AbortPrepared) : (ex.abort a).1.receiptsByGrant = ex.receiptsByGrant := by
  unfold abort
  split <;> rfl

end Executor
end
end DecodeFabric
