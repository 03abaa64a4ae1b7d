import DecodeFabric.Lib.Run
import DecodeFabric.Cluster
import Mathlib.Data.Nat.SuccPred

/- The CPU executor over whole runs of calls.

   `Executor.pathState` and `pathBytes` say where a state stands after `n` steps from its start.
   Two ways lead there, the promotion of a staged step and the reconstruction loop of `prepare`,
   and they interleave: the loop may run while a step staged from an older base is waiting. A grant
   that copies what `prepare` returned names the position the step was staged at, so such a step is
   not promoted any more, and every state held stays on its path (`closed_form_of_promotable`).

   One use: a promoted step leaves its grant in `receipts_by_grant_` and its proposal in
   `consumed_proposals_`, a discarded one leaves no trace, and proposals are handed out once, so
   neither comes back (`commits_one_use`). -/
namespace DecodeFabric
open Lib Table List Sample UInt64 Executor
variable {g : CommitGrant} {m : DecodeMemberSpec} {asked : List DecodeMemberSpec} {pm : PreparedMember}
  {σ σ₀ : StateId}

section
variable {N : Numerics}
variable {ex ex' : Executor N} {p : Prepared N} {st st₀ : SeqState N}

/-! The path of a state. -/

/-- The recurrent state `n` steps after the start of state `d` under attempt `a`. -/
def pathState (N : Numerics) (d : StateDescriptor) (a : AttemptId) (n : Nat) : N.Vec :=
  N.stepState^[n] (N.initialState d.id a)

def pathBytes (d : StateDescriptor) (n : UInt64) : UInt64 := d.bytesHeld + kvDelta * n

/-- The digest of the state after `n` steps. -/
def pathDigest (N : Numerics) (d : StateDescriptor) (a : AttemptId) (n : UInt64) : UInt64 :=
  digestState (pathState N d a n.toNat) n (pathBytes d n)

theorem pathState_succ (d : StateDescriptor) (a : AttemptId) (n : Nat) :
    pathState N d a (n + 1) = N.stepState (pathState N d a n) := Function.iterate_succ_apply' _ _ _

theorem pathBytes_succ (d : StateDescriptor) (n : UInt64) : pathBytes d n + kvDelta = pathBytes d (n + 1) := by
  unfold pathBytes
  rw [UInt64.mul_add, UInt64.mul_one, UInt64.add_assoc]

/-- The last token count; there is no next one. -/
def lastCount : UInt64 := 0xFFFFFFFFFFFFFFFF

theorem toNat_succ {n : UInt64} (h : n ≠ lastCount) : (n + 1).toNat = n.toNat + 1 := by
  have hlt := n.toNat_lt_size
  have hne : n.toNat ≠ UInt64.size - 1 := fun heq => h (UInt64.toNat_inj.mp heq)
  rw [UInt64.toNat_add]
  exact Nat.mod_eq_of_lt (by change n.toNat + 1 < UInt64.size; omega)

theorem ne_lastCount_of_lt {n m : UInt64} (h : n < m) : n ≠ lastCount := by
  rintro rfl
  have hlt := m.toNat_lt_size
  rw [lt_iff_toNat_lt] at h
  exact absurd h (by change ¬ size - 1 < m.toNat; omega)

/-- The committed state is where its token count puts it. -/
structure SeqState.OnPath (d : StateDescriptor) (a : AttemptId) (st : SeqState N) : Prop where
  state : st.state = pathState N d a st.tokens.toNat
  bytes : st.kvBytes = pathBytes d st.tokens

/-- The staged step leads from `n` steps to one more. -/
structure Prepared.OnPath (d : StateDescriptor) (a : AttemptId) (n : UInt64) (p : Prepared N) : Prop where
  state : p.state = pathState N d a (n.toNat + 1)
  bytes : p.kvBytes = pathBytes d (n + 1)
  pre : p.preDigest = pathDigest N d a n
  post : p.postDigest = digestState (pathState N d a (n.toNat + 1)) (n + 1) (pathBytes d (n + 1))

namespace SeqState
variable {d : StateDescriptor} {a : AttemptId} {st : SeqState N}

theorem fresh_onPath (m : DecodeMemberSpec) : (fresh m : SeqState N).OnPath m.state m.attempt := by
  refine ⟨rfl, ?_⟩
  change m.state.bytesHeld = m.state.bytesHeld + kvDelta * 0
  rw [UInt64.mul_zero, UInt64.add_zero]

theorem OnPath.replay (h : st.OnPath d a) (hn : st.tokens ≠ lastCount) : st.replay.OnPath d a := by
  refine ⟨?_, ?_⟩
  · change N.stepState st.state = pathState N d a (st.tokens + 1).toNat
    rw [toNat_succ hn, pathState_succ, h.state]
  · change st.kvBytes + kvDelta = pathBytes d (st.tokens + 1)
    rw [h.bytes, pathBytes_succ]

theorem OnPath.catchUp (target : UInt64) (fuel : Nat) {st : SeqState N} (h : st.OnPath d a) :
    (st.catchUp target fuel).OnPath d a :=
  catchUp_invariant (fun _ hlt hst => hst.replay (ne_lastCount_of_lt hlt)) fuel h

/-- The reconstruction loop never goes back. -/
theorem ensureInitialized_le (m : DecodeMemberSpec) : st.tokens ≤ (ensureInitialized m (some st)).tokens := by
  unfold ensureInitialized
  simp only [Option.getD_some]
  rw [catchUp_tokens _ _ _ rfl]
  split
  · next hlt => exact UInt64.le_of_lt hlt
  · exact UInt64.le_refl _

theorem OnPath.ensureInitialized (h : st.OnPath d a) (m : DecodeMemberSpec) :
    (ensureInitialized m (some st)).OnPath d a := catchUp _ _ h

theorem OnPath.first (m : DecodeMemberSpec) :
    (SeqState.ensureInitialized (N := N) m none).OnPath m.state m.attempt := OnPath.catchUp _ _ (fresh_onPath m)

/-- A step staged from a state on its path is on it. -/
theorem OnPath.stage (h : st.OnPath d a) (proposal : ProposalId) (req : DecodeExecutionRequest) (m : DecodeMemberSpec) :
    ∃ p, (st.stage proposal req m).tentative = some p ∧ p.proposal = proposal ∧ p.OnPath d a st.tokens := by
  refine ⟨_, rfl, rfl, ?_, ?_, ?_, ?_⟩
  · change N.stepState st.state = _
    rw [h.state, pathState_succ]
  · change st.kvBytes + kvDelta = _
    rw [h.bytes, pathBytes_succ]
  · change digestState st.state st.tokens st.kvBytes = _
    rw [h.state, h.bytes]
    rfl
  · change digestState (N.stepState st.state) (st.tokens + 1) (st.kvBytes + kvDelta) = _
    rw [h.state, h.bytes, pathState_succ, pathBytes_succ]

/-- The digest of a state on its path. -/
theorem OnPath.digest (h : st.OnPath d a) : digestState st.state st.tokens st.kvBytes = pathDigest N d a st.tokens := by
  rw [h.state, h.bytes]
  rfl

theorem stage_tentative (proposal : ProposalId) (st : SeqState N) (req : DecodeExecutionRequest)
    (m : DecodeMemberSpec) :
    ∃ p, (st.stage proposal req m).tentative = some p ∧ p.proposal = proposal := ⟨_, rfl, rfl⟩

end SeqState

/-- The state with the step staged as `p` promoted. -/
def SeqState.promoted (p : Prepared N) (st : SeqState N) : SeqState N :=
  { st with state := p.state, tokens := st.tokens + 1, kvBytes := p.kvBytes, tentative := none }

/-! Proposals. -/

namespace Executor

/-- The books of the executor: proposals are numbered upwards, and one that is staged is staged once and not
    consumed. -/
structure Sound (ex : Executor N) : Prop where
  consumed : ∀ i, (ex.consumedProposals.find? i).isSome → i ≤ ex.nextProposal
  staged : ∀ σ st p, ex.states.find? σ = some st → st.tentative = some p →
    p.proposal ≤ ex.nextProposal ∧ ex.consumedProposals.find? p.proposal = none
  once : ∀ σ σ' st st' p p', ex.states.find? σ = some st → st.tentative = some p → ex.states.find? σ' = some st' →
    st'.tentative = some p' → p.proposal = p'.proposal → σ = σ'

theorem Sound.init : ({} : Executor N).Sound where
  consumed i hi := by cases hi
  staged σ st p hst := by cases hst
  once σ σ' st st' p p' hst := by cases hst

/-- A step staged under the next proposal. -/
theorem Sound.stage (h : ex.Sound) (hnew : ∃ p, st₀.tentative = some p ∧ p.proposal = ex.nextProposal + 1)
    (hstates : ex'.states = ex.states.insert σ₀ st₀) (hnext : ex'.nextProposal = ex.nextProposal + 1)
    (hconsumed : ex'.consumedProposals = ex.consumedProposals) : ex'.Sound := by
  obtain ⟨p₀, hp₀, hnum⟩ := hnew
  -- a staged step is the new one, or was staged before at another state
  have hcases : ∀ σ st p, ex'.states.find? σ = some st → st.tentative = some p →
      (σ = σ₀ ∧ p.proposal = ex.nextProposal + 1) ∨ (σ ≠ σ₀ ∧ ex.states.find? σ = some st) := by
    intro σ st p hst hp
    rw [hstates, find?_insert] at hst
    split at hst
    · next heq =>
      cases hst
      rw [hp₀] at hp
      cases hp
      exact .inl ⟨heq, hnum⟩
    · next hne => exact .inr ⟨hne, hst⟩
  have hunused : ex.consumedProposals.find? (ex.nextProposal + 1) = none := by
    by_contra hsome
    exact absurd (h.consumed _ (Option.isSome_iff_ne_none.mpr hsome)) (Nat.not_succ_le_self _)
  refine ⟨fun i hi => ?_, ?_, ?_⟩
  · rw [hconsumed] at hi
    rw [hnext]
    exact Nat.le_succ_of_le (h.consumed i hi)
  · intro σ st p hst hp
    rw [hnext, hconsumed]
    rcases hcases σ st p hst hp with ⟨-, heq⟩ | ⟨-, hold⟩
    · rw [heq]
      exact ⟨Nat.le_refl _, hunused⟩
    · obtain ⟨hle, hnone⟩ := h.staged σ st p hold hp
      exact ⟨Nat.le_succ_of_le hle, hnone⟩
  · intro σ σ' st st' p p' hst hp hst' hp' heq
    rcases hcases σ st p hst hp with ⟨hσ, hnew⟩ | ⟨-, hold⟩ <;>
      rcases hcases σ' st' p' hst' hp' with ⟨hσ', hnew'⟩ | ⟨-, hold'⟩
    · rw [hσ, hσ']
    · have hle := (h.staged σ' st' p' hold' hp').1
      rw [← heq, hnew] at hle
      exact absurd hle (Nat.not_succ_le_self _)
    · have hle := (h.staged σ st p hold hp).1
      rw [heq, hnew'] at hle
      exact absurd hle (Nat.not_succ_le_self _)
    · exact h.once σ σ' st st' p p' hold hp hold' hp' heq

/-- A state entered anew with what was staged there, or nothing. -/
theorem Sound.enter (h : ex.Sound)
    (hst₀ : ∀ p, st₀.tentative = some p → ∃ st, ex.states.find? σ₀ = some st ∧ st.tentative = some p) :
    ({ ex with states := ex.states.insert σ₀ st₀ } : Executor N).Sound := by
  have hstaged : ∀ σ st' p, (ex.states.insert σ₀ st₀).find? σ = some st' → st'.tentative = some p →
      ∃ st, ex.states.find? σ = some st ∧ st.tentative = some p := by
    intro σ st' p hst' hp
    rw [find?_insert] at hst'
    split at hst'
    · next hσ =>
      cases hst'
      rw [hσ]
      exact hst₀ p hp
    · exact ⟨st', hst', hp⟩
  refine ⟨h.consumed, ?_, ?_⟩
  · intro σ st' p hst' hp
    obtain ⟨st, hst, hp⟩ := hstaged σ st' p hst' hp
    exact h.staged σ st p hst hp
  · intro σ σ' st st' p p' hst hp hst' hp'
    obtain ⟨st, hst, hp⟩ := hstaged σ st p hst hp
    obtain ⟨st', hst', hp'⟩ := hstaged σ' st' p' hst' hp'
    exact h.once σ σ' st st' p p' hst hp hst' hp'

theorem Sound.promote (h : ex.Sound)
    (hst : ex.states.find? g.state = some st) (hp : st.tentative = some p) (hg : p.proposal = g.proposal) :
    (ex.promote g st p).Sound := by
  -- what is still staged is at another state, under another proposal
  have hcases : ∀ σ st' p', (ex.promote g st p).states.find? σ = some st' → st'.tentative = some p' →
      σ ≠ g.state ∧ ex.states.find? σ = some st' := by
    intro σ st' p' hst' hp'
    simp only [Executor.promote, find?_insert] at hst'
    split at hst'
    · cases hst'
      cases hp'
    · next hne => exact ⟨hne, hst'⟩
  refine ⟨?_, ?_, ?_⟩
  · intro i hi
    simp only [Executor.promote, find?_insert] at hi ⊢
    split at hi
    · next heq =>
      rw [heq, ← hg]
      exact (h.staged _ st p hst hp).1
    · exact h.consumed i hi
  · intro σ st' p' hst' hp'
    obtain ⟨hne, hold⟩ := hcases σ st' p' hst' hp'
    obtain ⟨hle, hnone⟩ := h.staged σ st' p' hold hp'
    refine ⟨hle, ?_⟩
    have hother : p'.proposal ≠ g.proposal := by
      rw [← hg]
      exact fun heq => hne (h.once σ g.state st' st p' p hold hp' hst hp heq)
    show (ex.consumedProposals.insert g.proposal true).find? p'.proposal = none
    rw [find?_insert_ne hother]
    exact hnone
  · intro σ σ' st₁ st₂ p₁ p₂ hst₁ hp₁ hst₂ hp₂
    exact h.once σ σ' st₁ st₂ p₁ p₂ (hcases σ st₁ p₁ hst₁ hp₁).2 hp₁ (hcases σ' st₂ p₂ hst₂ hp₂).2 hp₂

/-- Bringing a state up to date stages nothing. -/
theorem ensureInitialized_staged {entry : Option (SeqState N)}
    (h : (SeqState.ensureInitialized m entry).tentative = some p) : ∃ st, entry = some st ∧ st.tentative = some p := by
  unfold SeqState.ensureInitialized at h
  simp only [SeqState.catchUp_tentative] at h
  cases entry with
  | none => cases h
  | some st => exact ⟨st, rfl, h⟩

theorem Sound.change (h : ex.Sound) (hc : ex.Change ex') : ex'.Sound := by
  cases hc with
  | same => exact h
  | current m => exact h.enter fun p hp => ensureInitialized_staged hp
  | staged req m => exact h.stage (SeqState.stage_tentative _ _ req m) rfl rfl rfl
  | promoted hp => exact h.promote hp.entry hp.staged hp.proposal
  | discarded hst => exact h.enter fun p hp => by cases hp

end Executor

/-! Sessions. -/

/-- An executor, the members it has been asked to prepare and what it has handed back. -/
structure Session (N : Numerics) where
  executor : Executor N := {}
  asked : List DecodeMemberSpec := []
  returned : List PreparedMember := []

inductive SessionCall where
  | prepare (req : DecodeExecutionRequest) (took : StepTimes)
  | commit (g : CommitGrant)
  | abort (a : AbortPrepared)

/-- The members `prepare` gets to: all up to the first that fails. -/
def Executor.reached (req : DecodeExecutionRequest) (took : StepTimes) :
    Executor N → List DecodeMemberSpec → List DecodeMemberSpec
  | _, [] => []
  | ex, m :: ms =>
    match ex.prepareMember req (took m) m with
    | (_, .error _) => [m]
    | (ex, .ok _) => m :: reached req took ex ms

/-- What a caller of `prepare` is handed. -/
def handed : Except Error PreparedDecode → List PreparedMember
  | .ok prepared => prepared.members
  | .error _ => []

theorem handed_prepare (req : DecodeExecutionRequest) (took : StepTimes) (ex : Executor N) :
    handed (ex.prepare req took).2 = (prepareMembers req took ex req.members).2.toOption.getD [] := by
  unfold prepare
  split <;> next heq => rw [heq]; rfl

namespace Session

def exec (s : Session N) : SessionCall → Session N
  | .prepare req took =>
    { executor := (s.executor.prepare req took).1
      asked := s.asked ++ s.executor.reached req took req.members
      returned := s.returned ++ handed (s.executor.prepare req took).2 }
  | .commit g => { s with executor := (s.executor.commit g).1 }
  | .abort a => { s with executor := (s.executor.abort a).1 }

def Next (s : Session N) (c : SessionCall) (t : Session N) : Prop := t = s.exec c

end Session

abbrev SessionHistory (N : Numerics) := List (Edge (Session N) SessionCall)

/-- What every change keeps, a call keeps. -/
theorem Session.exec_keeps {I : Executor N → Prop} (hI : ∀ {ex ex' : Executor N}, ex.Change ex' → I ex → I ex')
    {s : Session N} (h : I s.executor) (c : SessionCall) : I (s.exec c).executor := by
  cases c with
  | prepare req took => exact prepare_keeps hI req took h
  | commit g => exact hI (commit_change g _) h
  | abort a => exact hI (abort_change a _) h

theorem Session.exec_sound {s : Session N} (h : s.executor.Sound) (c : SessionCall) : (s.exec c).executor.Sound :=
  exec_keeps (fun hc hex => hex.change hc) h c

/-! The closed form. -/

/-- The member state `σ` was first prepared for. -/
def firstAsked (asked : List DecodeMemberSpec) (σ : StateId) : Option DecodeMemberSpec :=
  asked.find? fun m => decide (m.state.id = σ)

theorem firstAsked_append_some {m₀ : DecodeMemberSpec}
    (h : firstAsked asked σ = some m₀) (more : List DecodeMemberSpec) : firstAsked (asked ++ more) σ = some m₀ := by
  unfold firstAsked at *
  rw [find?_append, h]
  rfl

theorem firstAsked_append_new
    (h : firstAsked asked m.state.id = none) : firstAsked (asked ++ [m]) m.state.id = some m := by
  unfold firstAsked at *
  rw [find?_append, h]
  simp

theorem firstAsked_append_other (h : σ ≠ m.state.id) : firstAsked (asked ++ [m]) σ = firstAsked asked σ := by
  unfold firstAsked
  rw [find?_append]
  simp [Ne.symm h]

theorem firstAsked_id (h : firstAsked asked σ = some m) : m.state.id = σ := by
  simpa using find?_some h

/-- State `σ`, found as `st`, is on the path its first member starts, and so is the step staged from it, whose
    position is the one handed back with it. -/
def Executor.Charted (asked : List DecodeMemberSpec) (returned : List PreparedMember) (σ : StateId)
    (st : SeqState N) : Prop :=
  ∃ m, firstAsked asked σ = some m ∧ st.OnPath m.state m.attempt ∧
    ∀ p, st.tentative = some p → ∃ n, p.OnPath m.state m.attempt n ∧
      ∀ pm ∈ returned, pm.proposal = p.proposal → pm.committedPositionBefore = n

/-- Every state held is on its path. -/
structure Session.Sound (s : Session N) : Prop where
  books : s.executor.Sound
  absent : ∀ σ, s.executor.states.find? σ = none → firstAsked s.asked σ = none
  entry : ∀ σ st, s.executor.states.find? σ = some st → Executor.Charted s.asked s.returned σ st
  returned : ∀ pm ∈ s.returned, pm.proposal ≤ s.executor.nextProposal

namespace Session
variable {s : Session N}

theorem Sound.init : ({} : Session N).Sound where
  books := Executor.Sound.init
  absent _ _ := rfl
  entry σ st hst := by cases hst
  returned pm hpm := by cases hpm

/-- Forgetting what was handed back. -/
theorem Sound.forget (h : s.Sound) {returned : List PreparedMember} (hsub : ∀ pm ∈ returned, pm ∈ s.returned) :
    ({ s with returned } : Session N).Sound where
  books := h.books
  absent := h.absent
  entry σ st hst := by
    obtain ⟨m, hm, hpath, hstaged⟩ := h.entry σ st hst
    refine ⟨m, hm, hpath, fun p hp => ?_⟩
    obtain ⟨n, hn, hret⟩ := hstaged p hp
    exact ⟨n, hn, fun pm hpm => hret pm (hsub pm hpm)⟩
  returned pm hpm := h.returned pm (hsub pm hpm)

/-- Where bringing the member's state up to date leads: onto the path of the first member asked, with the staged
    step as it was. -/
theorem Sound.current (h : s.Sound) (m : DecodeMemberSpec) :
    Executor.Charted (s.asked ++ [m]) s.returned m.state.id (s.executor.entryFor m) := by
  unfold Executor.entryFor
  cases hst : s.executor.states.find? m.state.id with
  | none =>
    refine ⟨m, firstAsked_append_new (h.absent _ hst), SeqState.OnPath.first m, fun p hp => ?_⟩
    obtain ⟨st, hnone, -⟩ := ensureInitialized_staged hp
    cases hnone
  | some st =>
    obtain ⟨m₀, hm₀, hpath, hstaged⟩ := h.entry _ st hst
    refine ⟨m₀, firstAsked_append_some hm₀ [m], hpath.ensureInitialized m, fun p hp => ?_⟩
    obtain ⟨st', hst', hp'⟩ := ensureInitialized_staged hp
    cases hst'
    exact hstaged p hp'

/-- The session after one member, handed back at once. -/
def prepareMember (req : DecodeExecutionRequest) (ns : Nanoseconds) (s : Session N) (m : DecodeMemberSpec) :
    Session N where
  executor := (s.executor.prepareMember req ns m).1
  asked := s.asked ++ [m]
  returned := s.returned ++ ((s.executor.prepareMember req ns m).2.toOption).toList

/-- One state is entered anew, on its path; what is handed back with it is new. -/
theorem Sound.enter (h : s.Sound) {asked : List DecodeMemberSpec} {returned : List PreparedMember} (hbooks : ex'.Sound)
    (hstates : ex'.states = s.executor.states.insert σ₀ st₀)
    (hasked : ∀ σ, σ ≠ σ₀ → firstAsked asked σ = firstAsked s.asked σ) (hst₀ : Charted asked returned σ₀ st₀)
    (hnew : ∀ pm ∈ returned, pm ∈ s.returned ∨ s.executor.nextProposal < pm.proposal)
    (hnext : ∀ pm ∈ returned, pm.proposal ≤ ex'.nextProposal) :
    ({ executor := ex', asked, returned } : Session N).Sound := by
  refine ⟨hbooks, fun σ hnone => ?_, fun σ st hst => ?_, hnext⟩
  · simp only [hstates, find?_insert] at hnone
    split at hnone
    · cases hnone
    · next hne =>
      rw [hasked σ hne]
      exact h.absent σ hnone
  · simp only [hstates, find?_insert] at hst
    split at hst
    · next hσ =>
      cases hst
      rw [hσ]
      exact hst₀
    · next hne =>
      obtain ⟨m, hm, hpath, hstaged⟩ := h.entry σ st hst
      refine ⟨m, (hasked σ hne).trans hm, hpath, fun p hp => ?_⟩
      obtain ⟨n, hn, hret⟩ := hstaged p hp
      refine ⟨n, hn, fun pm hpm hprop => ?_⟩
      rcases hnew pm hpm with hold | hlt
      · exact hret pm hold hprop
      · rw [hprop] at hlt
        exact absurd (h.books.staged σ st p hst hp).1 (Nat.not_le_of_lt hlt)

theorem Sound.prepareMember (h : s.Sound) (req : DecodeExecutionRequest) (ns : Nanoseconds) (m : DecodeMemberSpec) :
    (s.prepareMember req ns m).Sound := by
  obtain ⟨m₀, hm₀, hpath, hstaged⟩ := h.current m
  have hasked : ∀ σ, σ ≠ m.state.id → firstAsked (s.asked ++ [m]) σ = firstAsked s.asked σ :=
    fun σ => firstAsked_append_other
  unfold Session.prepareMember
  obtain ⟨e, heq⟩ | heq := prepareMember_inv req ns s.executor m
  · simp only [heq, Except.toOption, Option.toList_none, append_nil]
    exact h.enter (h.books.change (.current m)) rfl hasked ⟨m₀, hm₀, hpath, hstaged⟩ (fun _ => .inl) h.returned
  · simp only [heq, Except.toOption, Option.toList_some]
    refine h.enter (h.books.change (.staged req m)) rfl hasked ?_ (fun pm hpm => ?_) fun pm hpm => ?_
    · obtain ⟨p, hp, hnum, hpp⟩ := hpath.stage (s.executor.nextProposal + 1) req m
      refine ⟨m₀, hm₀, ⟨hpath.state, hpath.bytes⟩, fun p' hp' => ?_⟩
      cases hp.symm.trans hp'
      refine ⟨_, hpp, fun pm hpm hprop => ?_⟩
      rcases mem_append.mp hpm with hold | hnew
      · -- the new proposal has not been handed back before
        have hle := h.returned pm hold
        rw [hprop, hnum] at hle
        exact absurd hle (Nat.not_succ_le_self _)
      · rw [mem_singleton.mp hnew]
        rfl
    · refine (mem_append.mp hpm).imp_right fun hnew => ?_
      rw [mem_singleton.mp hnew]
      exact Nat.lt_succ_self _
    · rcases mem_append.mp hpm with hold | hnew
      · exact Nat.le_succ_of_le (h.returned pm hold)
      · rw [mem_singleton.mp hnew]
        exact Nat.le_refl _

/-- The loop of `prepare`, which hands back all or nothing: what one member keeps, and what may be forgotten, it
    keeps. -/
theorem prepareMembers_invariant {I : Session N → Prop} {req : DecodeExecutionRequest}
    {took : StepTimes}
    (hI : ∀ {s : Session N} (m : DecodeMemberSpec), I s → I (s.prepareMember req (took m) m))
    (hforget : ∀ {s : Session N} {returned : List PreparedMember}, (∀ pm ∈ returned, pm ∈ s.returned) → I s →
      I { s with returned }) : ∀ (ms : List DecodeMemberSpec) {s : Session N}, I s →
      I { executor := (prepareMembers req took s.executor ms).1
          asked := s.asked ++ s.executor.reached req took ms
          returned := s.returned ++ (prepareMembers req took s.executor ms).2.toOption.getD [] }
  | [], s, h => by
    simp only [prepareMembers, reached, Except.toOption, Option.getD_some, append_nil]
    exact h
  | m :: ms, s, h => by
    have hm := hI m h
    unfold prepareMembers reached
    unfold prepareMember at hm
    generalize s.executor.prepareMember req (took m) m = first at hm
    obtain ⟨ex₁, e | pm⟩ := first
    · simp only [Except.toOption, Option.toList_none, append_nil, Option.getD_none] at hm ⊢
      exact hm
    · simp only [Except.toOption, Option.toList_some] at hm
      have hms := prepareMembers_invariant hI hforget ms hm
      simp only at hms ⊢
      generalize prepareMembers req took ex₁ ms = rest at hms
      obtain ⟨ex₂, e | pms⟩ := rest
      · simp only [Except.toOption, Option.getD_none, append_nil, append_assoc, singleton_append] at hms ⊢
        exact hforget (fun pm' hpm' => mem_append_left _ hpm') hms
      · simp only [Except.toOption, Option.getD_some, append_assoc, singleton_append] at hms ⊢
        exact hms

theorem prepare_invariant {I : Session N → Prop} {req : DecodeExecutionRequest} {took : StepTimes}
    (hI : ∀ {s : Session N} (m : DecodeMemberSpec), I s → I (s.prepareMember req (took m) m))
    (hforget : ∀ {s : Session N} {returned : List PreparedMember}, (∀ pm ∈ returned, pm ∈ s.returned) → I s →
      I { s with returned }) (h : I s) : I (s.exec (.prepare req took)) := by
  have hloop := prepareMembers_invariant hI hforget req.members h
  simp only [exec, prepare_executor, handed_prepare]
  exact hloop

theorem Sound.prepare (h : s.Sound) (req : DecodeExecutionRequest) (took : StepTimes) :
    (s.exec (.prepare req took)).Sound :=
  prepare_invariant (fun m hs => hs.prepareMember req (took m) m) (fun hsub hs => hs.forget hsub) h

/-- The grant says what `prepare` handed back: proposal, authority, position and digests. -/
structure Copies (g : CommitGrant) (pm : PreparedMember) : Prop where
  proposal : g.proposal = pm.proposal
  sequence : g.sequence = pm.sequence
  attempt : g.attempt = pm.attempt
  generation : g.generation = pm.generation
  dispatch : g.dispatch = pm.dispatch
  epoch : g.epoch = pm.epoch
  worker : g.worker = pm.worker
  workerBoot : g.workerBoot = pm.workerBoot
  position : g.committedPosition = pm.committedPositionBefore
  pre : g.preStateDigest = pm.preStateDigest
  post : g.postStateDigest = pm.postStateDigest

/-- A step promoted by such a grant was staged from the state as it is. -/
theorem Sound.staged_here (h : s.Sound) (hpm : pm ∈ s.returned)
    (hproposal : g.proposal = pm.proposal) (hposition : g.committedPosition = pm.committedPositionBefore)
    (hp : s.executor.Promotes g st p) :
    ∃ m, firstAsked s.asked g.state = some m ∧ st.OnPath m.state m.attempt ∧ p.OnPath m.state m.attempt st.tokens := by
  obtain ⟨m, hm, hpath, hstaged⟩ := h.entry g.state st hp.entry
  obtain ⟨n, hn, hret⟩ := hstaged p hp.staged
  have hpos : n = st.tokens := by
    rw [← hret pm hpm (hproposal ▸ hp.proposal).symm, ← hposition, hp.position]
  exact ⟨m, hm, hpath, hpos ▸ hn⟩

theorem Sound.commit (h : s.Sound) (hpm : pm ∈ s.returned)
    (hproposal : g.proposal = pm.proposal) (hposition : g.committedPosition = pm.committedPositionBefore)
    (hlast : g.committedPosition ≠ lastCount) : (s.exec (.commit g)).Sound := by
  change ({ s with executor := (s.executor.commit g).1 } : Session N).Sound
  obtain heq | ⟨st, p, hp, heq⟩ := s.executor.commit_cases g
  · rw [heq]
    exact h
  · rw [heq]
    obtain ⟨m, hm, hpath, hstep⟩ := h.staged_here hpm hproposal hposition hp
    have hpos : st.tokens ≠ lastCount := hp.position ▸ hlast
    refine h.enter (h.books.change (.promoted hp)) rfl (fun _ _ => rfl) ?_ (fun _ => .inl) h.returned
    refine ⟨m, hm, ⟨?_, hstep.bytes⟩, fun p' hp' => by cases hp'⟩
    rw [toNat_succ hpos]
    exact hstep.state

theorem Sound.abort (h : s.Sound) (a : AbortPrepared) : (s.exec (.abort a)).Sound := by
  change ({ s with executor := (s.executor.abort a).1 } : Session N).Sound
  obtain heq | ⟨st, hst, heq⟩ := s.executor.abort_cases a
  · rw [heq]
    exact h
  · rw [heq]
    obtain ⟨m, hm, hpath, -⟩ := h.entry _ st hst
    refine h.enter (h.books.change (.discarded hst)) rfl (fun _ _ => rfl) ?_ (fun _ => .inl) h.returned
    exact ⟨m, hm, ⟨hpath.state, hpath.bytes⟩, fun p hp => by cases hp⟩

end Session

/-! Token counts. -/

namespace Executor
variable {ex : Executor N}

/-- No committed token count has gone back. -/
def TokensKept (ex ex' : Executor N) : Prop := ∀ σ, ex.committedTokens σ ≤ ex'.committedTokens σ

theorem TokensKept.refl (ex : Executor N) : ex.TokensKept ex := fun _ => UInt64.le_refl _

theorem TokensKept.trans {ex₁ ex₂ ex₃ : Executor N} (h : ex₁.TokensKept ex₂) (h' : ex₂.TokensKept ex₃) :
    ex₁.TokensKept ex₃ := fun σ => UInt64.le_trans (h σ) (h' σ)

/-- One state is entered anew, no further back. -/
theorem TokensKept.insert
    (hstates : ex'.states = ex.states.insert σ₀ st₀) (h : ∀ st, ex.states.find? σ₀ = some st → st.tokens ≤ st₀.tokens) :
    ex.TokensKept ex' := by
  intro σ
  unfold committedTokens
  rw [hstates, find?_insert]
  by_cases hσ : σ = σ₀
  · subst hσ
    rw [if_pos rfl]
    cases hst : ex.states.find? σ with
    | none => exact UInt64.zero_le
    | some st => exact h st hst
  · rw [if_neg hσ]
    exact UInt64.le_refl _

theorem prepareMember_tokensKept (req : DecodeExecutionRequest) (ns : Nanoseconds) (m : DecodeMemberSpec) :
    ex.TokensKept (ex.prepareMember req ns m).1 := by
  have hle : ∀ st, ex.states.find? m.state.id = some st → st.tokens ≤ (ex.entryFor m).tokens := by
    intro st hst
    rw [entryFor, hst]
    exact SeqState.ensureInitialized_le m
  obtain ⟨e, heq⟩ | heq := prepareMember_inv req ns ex m
  · rw [heq]
    exact TokensKept.insert rfl hle
  · rw [heq]
    exact TokensKept.insert rfl hle

theorem prepare_tokensKept (req : DecodeExecutionRequest) (took : StepTimes) :
    ex.TokensKept (ex.prepare req took).1 := by
  rw [prepare_executor]
  exact prepareMembers_invariant (I := fun ex' => ex.TokensKept ex')
    (fun ex' m _ h => h.trans (prepareMember_tokensKept req (took m) m)) (TokensKept.refl ex)

theorem commit_tokensKept (hlast : g.committedPosition ≠ lastCount) : ex.TokensKept (ex.commit g).1 := by
  obtain heq | ⟨st, p, hp, heq⟩ := ex.commit_cases g
  · rw [heq]
    exact TokensKept.refl ex
  · rw [heq]
    refine TokensKept.insert rfl fun st' hst' => ?_
    cases hp.entry.symm.trans hst'
    rw [le_iff_toNat_le]
    change st.tokens.toNat ≤ (st.tokens + 1).toNat
    rw [toNat_succ (hp.position ▸ hlast)]
    exact Nat.le_succ _

theorem abort_tokensKept (a : AbortPrepared) : ex.TokensKept (ex.abort a).1 := by
  obtain heq | ⟨st, hst, heq⟩ := ex.abort_cases a
  · rw [heq]
    exact TokensKept.refl ex
  · rw [heq]
    refine TokensKept.insert rfl fun st' hst' => ?_
    cases hst.symm.trans hst'
    exact UInt64.le_refl _

end Executor

/-- A commit's grant copies something `prepare` handed back, and there is a next token count to move to. -/
def Session.GrantsCopied (e : Edge (Session N) SessionCall) : Prop :=
  match e.label with
  | .commit g => (∃ pm ∈ e.pre.returned, Copies g pm) ∧ g.committedPosition ≠ lastCount
  | _ => True

theorem Session.next_sound (e : Edge (Session N) SessionCall) (hn : Next e.pre e.label e.post)
    (hg : GrantsCopied e) (h : e.pre.Sound) : e.post.Sound := by
  obtain ⟨s, c, t⟩ := e
  obtain rfl : t = s.exec c := hn
  cases c with
  | prepare req took => exact h.prepare req took
  | commit g =>
    obtain ⟨⟨pm, hpm, hcopy⟩, hlast⟩ := hg
    exact h.commit hpm hcopy.proposal hcopy.position hlast
  | abort a => exact h.abort a

theorem Session.next_tokensKept {e : Edge (Session N) SessionCall} (hn : Next e.pre e.label e.post)
    (hg : GrantsCopied e) : e.pre.executor.TokensKept e.post.executor := by
  obtain ⟨s, c, t⟩ := e
  obtain rfl : t = s.exec c := hn
  cases c with
  | prepare req took => exact prepare_tokensKept req took
  | commit g => exact commit_tokensKept hg.2
  | abort a => exact abort_tokensKept a

/-- The receipt of a first-time commit bears the digests of the committed state before and after it. -/
theorem Session.Sound.receipt {s : Session N} (h : s.Sound) {r : MemberReceipt}
    (hpm : pm ∈ s.returned) (hcopy : Copies g pm) (hnew : s.executor.receiptsByGrant.find? g.grantId = none)
    (hok : (s.executor.commit g).2 = .ok r) : r.preStateDigest = s.executor.committedStateDigest g.state ∧
      r.postStateDigest = (s.exec (.commit g)).executor.committedStateDigest g.state := by
  obtain ⟨e, heq⟩ | ⟨r', hr', -⟩ | ⟨st, p, hp, heq⟩ := s.executor.commit_inv g
  · rw [heq] at hok
    cases hok
  · rw [hnew] at hr'
    cases hr'
  · rw [heq] at hok
    cases hok
    obtain ⟨m, -, hpath, hstep⟩ := h.staged_here hpm hcopy.proposal hcopy.position hp
    simp only [committedStateDigest, hp.entry, exec, heq, promote, find?_insert_self]
    refine ⟨?_, ?_⟩
    · change p.preDigest = _
      rw [hpath.digest, hstep.pre]
    · change p.postDigest = _
      rw [hstep.post, hstep.state, hstep.bytes]

/-- The committed state of an executor has a closed form, its token counts never go back, and a receipt bears the
    digests of the state before and after it. -/
theorem committed_closed_form {h : SessionHistory N} {s : Session N} (hr : Run Session.Next {} h s)
    (hg : ∀ e ∈ h, Session.GrantsCopied e) :
    (∀ σ st, s.executor.states.find? σ = some st → ∃ m, firstAsked s.asked σ = some m ∧
      st.state = N.stepState^[st.tokens.toNat] (N.initialState σ m.attempt) ∧
      st.kvBytes = m.state.bytesHeld + 64 * st.tokens) ∧
    (∀ e ∈ h, ∀ σ, e.pre.executor.committedTokens σ ≤ e.post.executor.committedTokens σ) ∧
    ∀ e ∈ h, ∀ g r, e.label = .commit g → e.pre.executor.receiptsByGrant.find? g.grantId = none →
      (e.pre.executor.commit g).2 = .ok r →
      r.preStateDigest = e.pre.executor.committedStateDigest g.state ∧
      r.postStateDigest = e.post.executor.committedStateDigest g.state := by
  have hedge : ∀ e ∈ h, e.pre.Sound ∧ Session.Next e.pre e.label e.post := fun e he =>
    hr.invariant_at Session.next_sound hg Session.Sound.init he
  refine ⟨?_, fun e he => Session.next_tokensKept (hedge e he).2 (hg e he), ?_⟩
  · intro σ st hst
    obtain ⟨m, hm, hpath, -⟩ := (hr.invariant Session.next_sound hg Session.Sound.init).entry σ st hst
    refine ⟨m, hm, ?_, hpath.bytes⟩
    rw [← firstAsked_id hm]
    exact hpath.state
  · intro e he g r hl hnew hok
    obtain ⟨hs, hn⟩ := hedge e he
    have hcopied := hg e he
    simp only [Session.GrantsCopied, hl] at hcopied
    obtain ⟨⟨pm, hpm, hcopy⟩, -⟩ := hcopied
    rw [hn, hl]
    exact hs.receipt hpm hcopy hnew hok

/-! Concrete sessions. -/

/-- The history of a list of calls. -/
def Session.trace (s : Session N) : List SessionCall → SessionHistory N
  | [] => []
  | c :: cs => ⟨s, c, s.exec c⟩ :: (s.exec c).trace cs

theorem Session.trace_run : ∀ (s : Session N) (cs : List SessionCall), Run Next s (s.trace cs) (cs.foldl exec s)
  | s, [] => Run.nil s
  | s, c :: cs => (Run.single rfl).append (trace_run (s.exec c) cs)

/-- The grant that copies `pm`. -/
def Session.grantOf (gid : GrantId) (pm : PreparedMember) : CommitGrant :=
  Fabric.makeGrant gid { epoch := pm.epoch, worker := pm.worker, workerBoot := pm.workerBoot } pm

theorem Session.grantOf_copies (gid : GrantId) (pm : PreparedMember) : Copies (grantOf gid pm) pm :=
  ⟨rfl, rfl, rfl, rfl, rfl, rfl, rfl, rfl, rfl, rfl, rfl⟩

/-- What a new executor hands back for the member. -/
def Session.firstPrepared (N : Numerics) (req : DecodeExecutionRequest) (m : DecodeMemberSpec) : PreparedMember :=
  (SeqState.ensureInitialized (N := N) m none).preparedMember 1 req m 0

/-- The member is prepared on a new executor and committed. -/
def Session.single (N : Numerics) (req : DecodeExecutionRequest) (m : DecodeMemberSpec) : List SessionCall :=
  [.prepare { req with members := [m] } fun _ => 0, .commit (grantOf 1 (firstPrepared N req m))]

theorem Session.single_prepare (req : DecodeExecutionRequest) (m : DecodeMemberSpec) :
    ({} : Session N).exec (.prepare { req with members := [m] } fun _ => 0) =
      { executor :=
          { states := empty.insert m.state.id ((SeqState.ensureInitialized m none).stage 1 req m)
            nextProposal := 1 }
        asked := [m]
        returned := [firstPrepared N req m] } := by
  have hprep : ({} : Executor N).prepareMember { req with members := [m] } 0 m =
      ({ states := empty.insert m.state.id ((SeqState.ensureInitialized m none).stage 1 req m)
         nextProposal := 1 }, .ok (firstPrepared N req m)) := by
    simp only [Executor.prepareMember, find?_empty, SeqState.ensureInitialized, SeqState.catchUp_tentative]
    rfl
  simp only [exec, Executor.prepare, Executor.prepareMembers, hprep, Executor.reached, handed, nil_append]

theorem SeqState.first_tokens (m : DecodeMemberSpec) :
    (ensureInitialized (N := N) m none).tokens = m.generatedTokens := by
  rcases ensureInitialized_tokens (N := N) m none with heq | ⟨st, hnone, -⟩
  · exact heq
  · cases hnone

/-- Committed, the state is one step past the count the member names. -/
theorem Session.single_run (req : DecodeExecutionRequest) (m : DecodeMemberSpec) :
    ∃ (h : SessionHistory N) (s : Session N) (st : SeqState N), Run Session.Next {} h s ∧
      (∀ e ∈ h, ∀ g, e.label = .commit g →
        (∃ pm ∈ e.pre.returned, Session.Copies g pm) ∧ g.committedPosition = m.generatedTokens) ∧
      (∃ e ∈ h, e.pre.executor.committedTokens m.state.id = m.generatedTokens ∧
        e.post.executor.committedTokens m.state.id = m.generatedTokens + 1) ∧
      s.executor.states.find? m.state.id = some st ∧ firstAsked s.asked m.state.id = some m ∧
      st.tokens = m.generatedTokens + 1 ∧ st.state = pathState N m.state m.attempt (m.generatedTokens.toNat + 1) := by
  obtain ⟨p, hp, -, hstep⟩ := (SeqState.OnPath.first (N := N) m).stage 1 req m
  have htokens := SeqState.first_tokens (N := N) m
  have hprep := Session.single_prepare (N := N) req m
  generalize hs₁ : ({} : Session N).exec (.prepare { req with members := [m] } fun _ => 0) = s₁ at hprep
  have hentry : s₁.executor.states.find? m.state.id = some ((SeqState.ensureInitialized m none).stage 1 req m) := by
    rw [hprep]
    exact find?_insert_self _ _ _
  have hpromotes : s₁.executor.Promotes (Session.grantOf 1 (Session.firstPrepared N req m))
      ((SeqState.ensureInitialized m none).stage 1 req m) p := by
    cases hp
    refine ⟨by rw [hprep]; rfl, hentry, rfl, ?_, rfl, rfl, rfl⟩
    simp [authorityMatches, Session.grantOf, Fabric.makeGrant, Session.firstPrepared, SeqState.preparedMember]
  have hcommit := commit_promotes hpromotes
  have hafter : (s₁.executor.commit (Session.grantOf 1 (Session.firstPrepared N req m))).1.states.find? m.state.id =
      some (((SeqState.ensureInitialized m none).stage 1 req m).promoted p) := by
    rw [hcommit]
    exact find?_insert_self _ _ _
  refine ⟨_, _, ((SeqState.ensureInitialized m none).stage 1 req m).promoted p,
    Session.trace_run {} (Session.single N req m), ?_, ?_, ?_, ?_, ?_, ?_⟩
  · simp only [Session.single, Session.trace, hs₁, mem_cons, not_mem_nil, or_false]
    rintro e (rfl | rfl) g hl
    · cases hl
    · cases hl
      exact ⟨⟨_, by rw [hprep]; exact mem_singleton_self _, Session.grantOf_copies _ _⟩, htokens⟩
  · simp only [Session.single, Session.trace, hs₁]
    refine ⟨_, mem_cons_of_mem _ mem_cons_self, ?_, ?_⟩
    · simp only [committedTokens, hentry]
      exact htokens
    · simp only [Session.exec, committedTokens, hafter]
      exact congrArg (· + 1) htokens
  · simp only [Session.single, foldl_cons, foldl_nil, hs₁]
    exact hafter
  · simp only [Session.single, foldl_cons, foldl_nil, hs₁]
    simp only [Session.exec, hprep]
    simp [firstAsked]
  · exact congrArg (· + 1) htokens
  · rw [← htokens]
    exact hstep.state

end

namespace Sample

/-- A recurrence that counts its steps without end. -/
def counter : Numerics where
  Vec := Nat
  initialState := fun _ _ => 0
  stepState := Nat.succ
  stateChecksum := fun v => ofNat v
  stepToken := fun v => UInt32.ofNat v

def executeRequest : DecodeExecutionRequest := { dispatchId := 1, epoch := 1, worker := 1, workerBoot := 1 }

def memberSpec (generated : UInt64) : DecodeMemberSpec :=
  { sequence := 1, attempt := 1, generation := 1, state := { id := 1 }, generatedTokens := generated,
    remainingBudget := 4 }

end Sample

theorem committed_closed_form_single :
    ∃ (h : SessionHistory counter) (s : Session counter) (st : SeqState counter),
      Run Session.Next {} h s ∧ (∀ e ∈ h, Session.GrantsCopied e) ∧
      s.executor.states.find? 1 = some st ∧ st.tokens = 3 ∧ ∃ m, firstAsked s.asked 1 = some m ∧
      st.state = counter.stepState^[st.tokens.toNat] (counter.initialState 1 m.attempt) ∧
      st.kvBytes = m.state.bytesHeld + 64 * st.tokens := by
  obtain ⟨h, s, st, hr, hcopies, -, hst, -, htokens, -⟩ :=
    Session.single_run (N := counter) executeRequest (memberSpec 2)
  have hg : ∀ e ∈ h, Session.GrantsCopied e := by
    intro e he
    have hc := hcopies e he
    unfold Session.GrantsCopied
    split
    · next g hl =>
      obtain ⟨hpm, hpos⟩ := hc g hl
      exact ⟨hpm, by rw [hpos]; decide⟩
    · trivial
  exact ⟨h, s, st, hr, hg, hst, htokens, (committed_closed_form hr hg).1 1 st hst⟩

/-- At the last token count the next commit takes the count back to zero, away from the state. -/
theorem last_count_wraps :
    ∃ (h : SessionHistory counter) (s : Session counter) (st : SeqState counter) (m : DecodeMemberSpec),
      Run Session.Next {} h s ∧
      (∀ e ∈ h, ∀ g, e.label = .commit g → ∃ pm ∈ e.pre.returned, Session.Copies g pm) ∧
      (∃ e ∈ h, e.pre.executor.committedTokens 1 = lastCount ∧ e.post.executor.committedTokens 1 = 0) ∧
      s.executor.states.find? 1 = some st ∧ firstAsked s.asked 1 = some m ∧
      st.state ≠ counter.stepState^[st.tokens.toNat] (counter.initialState 1 m.attempt) := by
  obtain ⟨h, s, st, hr, hcopies, hwrap, hst, hfirst, htokens, hstate⟩ :=
    Session.single_run (N := counter) executeRequest (memberSpec lastCount)
  refine ⟨h, s, st, _, hr, fun e he g hl => (hcopies e he g hl).1, hwrap, hst, hfirst, ?_⟩
  rw [hstate, htokens]
  change Nat.succ^[lastCount.toNat + 1] 0 ≠ Nat.succ^[(lastCount + 1).toNat] 0
  rw [Nat.succ_iterate, Nat.succ_iterate]
  decide

end DecodeFabric
