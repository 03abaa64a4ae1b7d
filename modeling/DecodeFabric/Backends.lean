import DecodeFabric.CudaExecutor
import DecodeFabric.Session

/- Two executors, one protocol.

   `DecodeExecutor` is the contract both backends implement. A conversation with an executor is a list of calls, the
   same for every backend; a commit names one of the prepared members returned so far, and its grant is copied from
   what this executor returned there.

   `Transactions` is the protocol without the numbers: the token count and the bytes of every state, which proposal
   waits there and under which attempt, and where the grants landed. A commit goes through if its proposal still
   waits and no token was committed since. Both executors refine it, each for its own reasons. The CPU executor compares
   the digests it stored, which are those of the copied member because a proposal is handed out once. The CUDA executor
   also recomputes the digest of the committed buffer, which is the one it was because a waiting step allows token
   counts only to grow. So the two agree, call for call (`backends_agree`). -/
namespace DecodeFabric
open Lib List Executor

structure DecodeExecutor (E : Type) where
  backend : BackendKind
  /-- An executor that has not been called. -/
  fresh : E
  prepare : DecodeExecutionRequest → (StepTimes) → E → E × Except Error PreparedDecode
  commit : CommitGrant → E → E × Except Error MemberReceipt
  abort : AbortPrepared → E → E × Except Error Unit
  committedTokens : E → StateId → UInt64
  hasPrepared : E → StateId → ProposalId → Bool

def cpuDecodeExecutor (N : Numerics) : DecodeExecutor (Executor N) where
  backend := .cpu
  fresh := {}
  prepare := prepare
  commit := commit
  abort := abort
  committedTokens := committedTokens
  hasPrepared := hasPrepared

def cudaDecodeExecutor (C : CudaNumerics) : DecodeExecutor (CudaExecutor C) where
  backend := .cuda
  fresh := {}
  prepare := CudaExecutor.prepare
  commit := CudaExecutor.commit
  abort := CudaExecutor.abort
  committedTokens := CudaExecutor.committedTokens
  hasPrepared := CudaExecutor.hasPrepared

/-! Conversations. -/

inductive BackendCall where
  /-- What a member takes depends on the backend. -/
  | prepare (req : DecodeExecutionRequest) (took : BackendKind → StepTimes)
  /-- Commit on grant `gid`, copied from prepared member `k` of those returned so far. -/
  | commit (gid : GrantId) (k : Nat)
  | abort (a : AbortPrepared)

inductive BackendReply where
  | prepared (result : Except Error PreparedDecode)
  | receipt (result : Except Error MemberReceipt)
  | aborted (result : Except Error Unit)
  /-- No such member was returned, so nothing is called. -/
  | nothing

structure Conversation (E : Type) where
  executor : E
  returned : List PreparedMember := []

/-- What a caller sees of a call: the answer, and afterwards the committed token counts and the transitions that
    wait. -/
structure Observed where
  reply : BackendReply
  tokens : StateId → UInt64
  prepared : StateId → ProposalId → Bool

namespace DecodeExecutor
variable {E : Type}

def call (B : DecodeExecutor E) (S : Conversation E) : BackendCall → Conversation E × BackendReply
  | .prepare req took =>
    let (executor, result) := B.prepare req (took B.backend) S.executor
    ({ executor, returned := S.returned ++ handed result }, .prepared result)
  | .commit gid k =>
    match S.returned[k]? with
    | none => (S, .nothing)
    | some pm =>
      let (executor, result) := B.commit (Session.grantOf gid pm) S.executor
      ({ S with executor }, .receipt result)
  | .abort a =>
    let (executor, result) := B.abort a S.executor
    ({ S with executor }, .aborted result)

def observe (B : DecodeExecutor E) : Conversation E → List BackendCall → List Observed
  | _, [] => []
  | S, c :: cs =>
    let (S, reply) := B.call S c
    ⟨reply, B.committedTokens S.executor, B.hasPrepared S.executor⟩ :: B.observe S cs

end DecodeExecutor

/-! Agreement. -/

structure PreparedMember.Agrees (pm pm' : PreparedMember) : Prop where
  proposal : pm.proposal = pm'.proposal
  before : pm.committedPositionBefore = pm'.committedPositionBefore
  after : pm.committedPositionAfter = pm'.committedPositionAfter
  terminal : pm.outcome.terminal = pm'.outcome.terminal
  kvBytes : pm.outcome.kvBytesAfter = pm'.outcome.kvBytesAfter

structure MemberReceipt.Agrees (r r' : MemberReceipt) : Prop where
  proposal : r.proposal = r'.proposal
  before : r.committedPositionBefore = r'.committedPositionBefore
  after : r.committedPositionAfter = r'.committedPositionAfter
  terminal : r.terminal = r'.terminal

/-- Both calls succeed, with members and receipts that agree, or both fail. -/
inductive BackendReply.Agrees : BackendReply → BackendReply → Prop
  | prepared {p p' : PreparedDecode} :
      List.Forall₂ PreparedMember.Agrees p.members p'.members → Agrees (.prepared (.ok p)) (.prepared (.ok p'))
  | refused {e e' : Error} : Agrees (.prepared (.error e)) (.prepared (.error e'))
  | receipt {r r' : MemberReceipt} : r.Agrees r' → Agrees (.receipt (.ok r)) (.receipt (.ok r'))
  | rejected {e e' : Error} : Agrees (.receipt (.error e)) (.receipt (.error e'))
  | aborted : Agrees (.aborted (.ok ())) (.aborted (.ok ()))
  | kept {e e' : Error} : Agrees (.aborted (.error e)) (.aborted (.error e'))
  | nothing : Agrees .nothing .nothing

structure Observed.Agrees (o o' : Observed) : Prop where
  reply : o.reply.Agrees o'.reply
  tokens : o.tokens = o'.tokens
  prepared : o.prepared = o'.prepared

def BackendCall.EmptyPayloads : BackendCall → Prop
  | .prepare req _ => ∀ m ∈ req.members, m.payload = []
  | _ => True

/-! The protocol. -/

/-- What is kept of a waiting transition. -/
structure Waiting where
  proposal : ProposalId
  attempt : AttemptId
  kvBytes : UInt64

structure Holding where
  tokens : UInt64 := 0
  kvBytes : UInt64
  waiting : Option Waiting := none

/-- Where a grant landed. -/
structure Landing where
  proposal : ProposalId
  before : UInt64
  after : UInt64
  terminal : Bool

/-- What a prepared member says of its step. -/
structure ProposedStep where
  state : StateId
  proposal : ProposalId
  before : UInt64
  after : UInt64
  terminal : Bool
  kvBytes : UInt64

structure Transactions where
  states : StateId → Option Holding := fun _ => none
  receipts : GrantId → Option Landing := fun _ => none
  consumed : ProposalId → Bool := fun _ => false
  nextProposal : Nat := 0

namespace Holding

/-- The counters of the reconstruction loop. -/
def catchUp (target : UInt64) : Nat → Holding → Holding
  | 0, h => h
  | fuel + 1, h =>
    if h.tokens < target then
      catchUp target fuel { h with tokens := h.tokens + 1, kvBytes := h.kvBytes + kvDelta }
    else h

def current (m : DecodeMemberSpec) (entry : Option Holding) : Holding :=
  let h := entry.getD { kvBytes := m.state.bytesHeld }
  h.catchUp m.generatedTokens (m.generatedTokens.toNat - h.tokens.toNat)

def discard (proposal : ProposalId) (h : Holding) : Holding :=
  if h.waiting.any (fun w => w.proposal = proposal) then { h with waiting := none } else h

end Holding

namespace Transactions

/-- A transition of the same attempt is in the way; any other gives way. -/
def prepareMember (P : Transactions) (m : DecodeMemberSpec) : Transactions × Except Unit ProposedStep :=
  let h := Holding.current m (P.states m.state.id)
  if h.waiting.any (fun w => w.attempt = m.attempt) then
    ({ P with states := Function.update P.states m.state.id (some h) }, .error ())
  else
    let proposal := P.nextProposal + 1
    let kvBytes := h.kvBytes + kvDelta
    ({ P with
        states := Function.update P.states m.state.id
          (some { h with waiting := some { proposal, attempt := m.attempt, kvBytes } })
        nextProposal := proposal },
      .ok
        { state := m.state.id
          proposal
          before := h.tokens
          after := h.tokens + 1
          terminal := decide (m.generatedTokens + 1 ≥ m.generatedTokens + m.remainingBudget)
          kvBytes })

def prepare (req : DecodeExecutionRequest) (P : Transactions) : Transactions × Except Unit (List ProposedStep) :=
  scanE prepareMember P req.members

/-- Where a step lands that is committed at `h`. -/
def landing (step : ProposedStep) (h : Holding) : Landing :=
  { proposal := step.proposal, before := h.tokens, after := h.tokens + 1, terminal := step.terminal }

def land (P : Transactions) (gid : GrantId) (step : ProposedStep) (h : Holding) (w : Waiting) : Transactions :=
  { P with
    states := Function.update P.states step.state (some { tokens := h.tokens + 1, kvBytes := w.kvBytes })
    consumed := Function.update P.consumed step.proposal true
    receipts := Function.update P.receipts gid (some (landing step h)) }

/-- Commit the step if it still waits and nothing was committed since it was staged; a grant is used once. -/
def commit (gid : GrantId) (step : ProposedStep) (P : Transactions) : Transactions × Except Unit Landing :=
  match P.receipts gid with
  | some landing => (P, if landing.proposal = step.proposal then .ok landing else .error ())
  | none =>
    match P.states step.state with
    | none => (P, .error ())
    | some h =>
      match h.waiting with
      | none => (P, .error ())
      | some w =>
        if w.proposal = step.proposal ∧ h.tokens = step.before then (P.land gid step h w, .ok (landing step h))
        else (P, .error ())

/-- The step waits at `h` as `w`, where it was staged. -/
structure Lands (P : Transactions) (gid : GrantId) (step : ProposedStep) (h : Holding) (w : Waiting) : Prop where
  unused : P.receipts gid = none
  entry : P.states step.state = some h
  waiting : h.waiting = some w
  proposal : w.proposal = step.proposal
  position : h.tokens = step.before

theorem commit_known {P : Transactions} {gid : GrantId} {l : Landing} (hl : P.receipts gid = some l)
    (step : ProposedStep) :
    P.commit gid step = (P, if l.proposal = step.proposal then .ok l else .error ()) := by
  unfold commit
  rw [hl]

theorem commit_lands {P : Transactions} {gid : GrantId} {step : ProposedStep} {h : Holding} {w : Waiting}
    (hl : P.Lands gid step h w) : P.commit gid step = (P.land gid step h w, .ok (landing step h)) := by
  unfold commit
  simp only [hl.unused, hl.entry, hl.waiting, hl.proposal, hl.position, and_self, if_true]

theorem commit_fails {P : Transactions} {gid : GrantId} {step : ProposedStep} (hr : P.receipts gid = none)
    (hnone : ¬ ∃ h w, P.Lands gid step h w) : P.commit gid step = (P, .error ()) := by
  unfold commit
  rw [hr]
  simp only
  split
  · rfl
  · next h hh =>
    split
    · rfl
    · next w hw =>
      rw [if_neg]
      rintro ⟨hprop, hpos⟩
      exact hnone ⟨h, w, hr, hh, hw, hprop, hpos⟩

def abort (a : AbortPrepared) (P : Transactions) : Transactions × Except Unit Unit :=
  if P.consumed a.proposal then (P, .error ())
  else
    ({ P with states := Function.update P.states a.state ((P.states a.state).map (Holding.discard a.proposal)) },
      .ok ())

def committedTokens (P : Transactions) (σ : StateId) : UInt64 := ((P.states σ).map Holding.tokens).getD 0

def hasPrepared (P : Transactions) (σ : StateId) (proposal : ProposalId) : Bool :=
  (P.states σ).any fun h => h.waiting.any fun w => w.proposal = proposal

end Transactions

def PreparedMember.step (pm : PreparedMember) : ProposedStep where
  state := pm.state
  proposal := pm.proposal
  before := pm.committedPositionBefore
  after := pm.committedPositionAfter
  terminal := pm.outcome.terminal
  kvBytes := pm.outcome.kvBytesAfter

def MemberReceipt.landing (r : MemberReceipt) : Landing where
  proposal := r.proposal
  before := r.committedPositionBefore
  after := r.committedPositionAfter
  terminal := r.terminal

/-! Refinement. -/

/-- `R` ties an executor that has returned some members to a state of the protocol, and every call keeps it. -/
structure DecodeExecutor.Refines {E : Type} (B : DecodeExecutor E)
    (R : E → Transactions → List PreparedMember → Prop) : Prop where
  fresh : R B.fresh {} []
  prepare : ∀ {ex P out}, R ex P out → ∀ req took, (∀ m ∈ req.members, m.payload = []) →
    Paired R (fun p steps => p.members.map PreparedMember.step = steps) PreparedDecode.members out
      (B.prepare req took ex) (P.prepare req)
  commit : ∀ {ex P out}, R ex P out → ∀ gid, ∀ pm ∈ out,
    Paired R (fun r landing => r.landing = landing) (fun _ => []) out (B.commit (Session.grantOf gid pm) ex)
      (P.commit gid pm.step)
  abort : ∀ {ex P out}, R ex P out → ∀ a, Paired R (fun _ _ => True) (fun _ => []) out (B.abort a ex) (P.abort a)
  tokens : ∀ {ex P out}, R ex P out → B.committedTokens ex = P.committedTokens
  prepared : ∀ {ex P out}, R ex P out → B.hasPrepared ex = P.hasPrepared

theorem PreparedMember.agrees_of_step {pm pm' : PreparedMember} (h : pm.step = pm'.step) : pm.Agrees pm' where
  proposal := congrArg ProposedStep.proposal h
  before := congrArg ProposedStep.before h
  after := congrArg ProposedStep.after h
  terminal := congrArg ProposedStep.terminal h
  kvBytes := congrArg ProposedStep.kvBytes h

theorem MemberReceipt.agrees_of_landing {r r' : MemberReceipt} (h : r.landing = r'.landing) : r.Agrees r' where
  proposal := congrArg Landing.proposal h
  before := congrArg Landing.before h
  after := congrArg Landing.after h
  terminal := congrArg Landing.terminal h

section
variable {E E' : Type} {B : DecodeExecutor E} {B' : DecodeExecutor E'}
  {R : E → Transactions → List PreparedMember → Prop} {R' : E' → Transactions → List PreparedMember → Prop}

/-- Two conversations that have come to the same state of the protocol, with the same steps returned. -/
structure InProtocol (R : E → Transactions → List PreparedMember → Prop)
    (R' : E' → Transactions → List PreparedMember → Prop) (S : Conversation E) (S' : Conversation E') : Prop where
  states : ∃ P, R S.executor P S.returned ∧ R' S'.executor P S'.returned
  returned : S.returned.map PreparedMember.step = S'.returned.map PreparedMember.step

/-- One call. -/
theorem InProtocol.call (h : B.Refines R) (h' : B'.Refines R') {S : Conversation E} {S' : Conversation E'}
    (hS : InProtocol R R' S S') {c : BackendCall} (hc : c.EmptyPayloads) :
    InProtocol R R' (B.call S c).1 (B'.call S' c).1 ∧ (B.call S c).2.Agrees (B'.call S' c).2 := by
  obtain ⟨⟨P, hP, hP'⟩, hsteps⟩ := hS
  cases c with
  | prepare req took =>
    obtain ⟨s, e, s', e', t, hcall, hcall', hR, hR'⟩ | ⟨s, p, s', p', t, steps, hcall, hcall', hp, hp', hR, hR'⟩ :=
      (h.prepare hP req (took B.backend) hc).meet (h'.prepare hP' req (took B'.backend) hc)
    · simp only [DecodeExecutor.call, hcall, hcall', handed, append_nil]
      exact ⟨⟨⟨t, hR, hR'⟩, hsteps⟩, .refused⟩
    · have hmembers : p.members.map PreparedMember.step = p'.members.map PreparedMember.step := hp.trans hp'.symm
      simp only [DecodeExecutor.call, hcall, hcall', handed]
      refine ⟨⟨⟨t, hR, hR'⟩, ?_⟩, .prepared ?_⟩
      · simp only [map_append, hsteps, hmembers]
      · have hall : List.Forall₂ (· = ·) (p.members.map PreparedMember.step) (p'.members.map PreparedMember.step) := by
          rw [hmembers]
          exact forall₂_refl _
        rw [forall₂_map_left_iff, forall₂_map_right_iff] at hall
        exact hall.imp fun _ _ => PreparedMember.agrees_of_step
  | commit gid k =>
    have hk : (S.returned[k]?).map PreparedMember.step = (S'.returned[k]?).map PreparedMember.step := by
      rw [← getElem?_map, ← getElem?_map, hsteps]
    cases hpm : S.returned[k]? with
    | none =>
      rw [hpm] at hk
      have hpm' : S'.returned[k]? = none := Option.map_eq_none_iff.mp hk.symm
      simp only [DecodeExecutor.call, hpm, hpm']
      exact ⟨⟨⟨P, hP, hP'⟩, hsteps⟩, .nothing⟩
    | some pm =>
      rw [hpm] at hk
      obtain ⟨pm', hpm', hstep⟩ := Option.map_eq_some_iff.mp hk.symm
      have hcommit := h'.commit hP' gid pm' (mem_of_getElem? hpm')
      rw [hstep] at hcommit
      obtain ⟨s, e, s', e', t, hcall, hcall', hR, hR'⟩ | ⟨s, r, s', r', t, landing, hcall, hcall', hr, hr', hR, hR'⟩ :=
        (h.commit hP gid pm (mem_of_getElem? hpm)).meet hcommit
      · simp only [DecodeExecutor.call, hpm, hpm', hcall, hcall']
        exact ⟨⟨⟨t, hR, hR'⟩, hsteps⟩, .rejected⟩
      · rw [append_nil] at hR hR'
        simp only [DecodeExecutor.call, hpm, hpm', hcall, hcall']
        exact ⟨⟨⟨t, hR, hR'⟩, hsteps⟩, .receipt (MemberReceipt.agrees_of_landing (hr.trans hr'.symm))⟩
  | abort a =>
    obtain ⟨s, e, s', e', t, hcall, hcall', hR, hR'⟩ | ⟨s, _, s', _, t, _, hcall, hcall', -, -, hR, hR'⟩ :=
      (h.abort hP a).meet (h'.abort hP' a)
    · simp only [DecodeExecutor.call, hcall, hcall']
      exact ⟨⟨⟨t, hR, hR'⟩, hsteps⟩, .kept⟩
    · rw [append_nil] at hR hR'
      simp only [DecodeExecutor.call, hcall, hcall']
      exact ⟨⟨⟨t, hR, hR'⟩, hsteps⟩, .aborted⟩

/-- Two executors that refine the protocol agree on every list of calls. -/
theorem InProtocol.observe (h : B.Refines R) (h' : B'.Refines R') : ∀ (cs : List BackendCall),
    (∀ c ∈ cs, c.EmptyPayloads) → ∀ {S : Conversation E} {S' : Conversation E'}, InProtocol R R' S S' →
    List.Forall₂ Observed.Agrees (B.observe S cs) (B'.observe S' cs)
  | [], _, _, _, _ => .nil
  | c :: cs, hcs, S, S', hS => by
    obtain ⟨hnext, hreply⟩ := hS.call h h' (hcs c mem_cons_self)
    obtain ⟨P, hP, hP'⟩ := hnext.states
    refine .cons ⟨hreply, ?_, ?_⟩ (observe h h' cs (fun c hc => hcs c (mem_cons_of_mem _ hc)) hnext)
    · exact (h.tokens hP).trans (h'.tokens hP').symm
    · exact (h.prepared hP).trans (h'.prepared hP').symm

end
end DecodeFabric
