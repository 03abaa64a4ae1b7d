import DecodeFabric.Session

/- Commits are one-use and isolated.

   A commit fails, returns the receipt it kept for the grant, or promotes the step staged at the
   grant's state. Promotion needs a grant id without a receipt and a staged proposal, and leaves a
   receipt and a consumed proposal behind; proposals are numbered upwards, so a step that was
   staged once and is gone does not come back. Over a run, then, every grant id and every proposal
   is promoted at most once, and one that was discarded never. An abort discards what is staged for the
   state it names; naming another, it is answered with success and the proposal lives on (`abort_elsewhere`). -/
namespace DecodeFabric
open Lib Table List Sample Executor

section
variable {N : Numerics}

/-- The grant a call promotes: its commit changes the tokens of the state it names. -/
def Session.promoted (e : Edge (Session N) SessionCall) : List CommitGrant :=
  match e.label with
  | .commit g =>
    if e.post.executor.committedTokens g.state = e.pre.executor.committedTokens g.state then [] else [g]
  | _ => []

/-! Staged steps. -/

namespace Executor
variable {ex ex' : Executor N} {σ : StateId} {P : ProposalId}

theorem hasPrepared_iff : ex.hasPrepared σ P = true ↔
    ∃ st p, ex.states.find? σ = some st ∧ st.tentative = some p ∧ p.proposal = P := by
  unfold hasPrepared
  cases ex.states.find? σ with
  | none => simp
  | some st => cases hp : st.tentative <;> simp [hp]

/-- `ex'` comes after `ex`: proposals go on being numbered upwards, only a new one is staged anew, and no receipt or
    consumed proposal is forgotten. -/
structure Later (ex ex' : Executor N) : Prop where
  next : ex.nextProposal ≤ ex'.nextProposal
  staged : ∀ σ P, ex'.hasPrepared σ P = true → ex.hasPrepared σ P = true ∨ ex.nextProposal < P
  receipts : ∀ i, (ex.receiptsByGrant.find? i).isSome → (ex'.receiptsByGrant.find? i).isSome
  consumed : ∀ i, (ex.consumedProposals.find? i).isSome → (ex'.consumedProposals.find? i).isSome

theorem Later.refl (ex : Executor N) : ex.Later ex :=
  ⟨Nat.le_refl _, fun _ _ h => .inl h, fun _ h => h, fun _ h => h⟩

theorem Later.trans {ex₁ ex₂ ex₃ : Executor N} (h : ex₁.Later ex₂) (h' : ex₂.Later ex₃) : ex₁.Later ex₃ where
  next := Nat.le_trans h.next h'.next
  staged σ P hP := by
    rcases h'.staged σ P hP with hP | hlt
    · exact h.staged σ P hP
    · exact .inr (Nat.lt_of_le_of_lt h.next hlt)
  receipts i hi := h'.receipts i (h.receipts i hi)
  consumed i hi := h'.consumed i (h.consumed i hi)

/-- One state is entered anew. -/
theorem Later.insert {σ₀ : StateId} {st₀ : SeqState N} (hstates : ex'.states = ex.states.insert σ₀ st₀)
    (hnext : ex.nextProposal ≤ ex'.nextProposal)
    (hstaged : ∀ p, st₀.tentative = some p → ex.hasPrepared σ₀ p.proposal = true ∨ ex.nextProposal < p.proposal)
    (hreceipts : ∀ i, (ex.receiptsByGrant.find? i).isSome → (ex'.receiptsByGrant.find? i).isSome)
    (hconsumed : ∀ i, (ex.consumedProposals.find? i).isSome → (ex'.consumedProposals.find? i).isSome) :
    ex.Later ex' := by
  refine ⟨hnext, fun σ P hP => ?_, hreceipts, hconsumed⟩
  obtain ⟨st, p, hst, hp, rfl⟩ := hasPrepared_iff.mp hP
  rw [hstates, find?_insert] at hst
  split at hst
  · next hσ =>
    cases hst
    rw [hσ]
    exact hstaged p hp
  · exact .inl (hasPrepared_iff.mpr ⟨st, p, hst, hp, rfl⟩)

theorem Change.later (hc : ex.Change ex') : ex.Later ex' := by
  cases hc with
  | same => exact .refl ex
  | current m =>
    refine .insert rfl (Nat.le_refl _) (fun p hp => .inl ?_) (fun _ h => h) (fun _ h => h)
    obtain ⟨st, hst, hp⟩ := ensureInitialized_staged hp
    exact hasPrepared_iff.mpr ⟨st, p, hst, hp, rfl⟩
  | staged req m =>
    refine .insert rfl (Nat.le_succ _) (fun p hp => .inr ?_) (fun _ h => h) (fun _ h => h)
    obtain ⟨p', hp', hnum⟩ := SeqState.stage_tentative (ex.nextProposal + 1)
      (ex.entryFor m) req m
    cases hp'.symm.trans hp
    rw [hnum]
    exact Nat.lt_succ_self _
  | promoted hp =>
    exact .insert rfl (Nat.le_refl _) (fun p hp => by cases hp) (fun _ h => find?_insert_isSome h)
      (fun _ h => find?_insert_isSome h)
  | discarded hst =>
    exact .insert rfl (Nat.le_refl _) (fun p hp => by cases hp) (fun _ h => h) (fun _ h => h)

/-- The proposal has been handed out and is not staged any more. -/
def Gone (ex : Executor N) (P : ProposalId) : Prop := P ≤ ex.nextProposal ∧ ∀ σ, ex.hasPrepared σ P = false

/-- The proposal has been handed out for state `σ` and is staged nowhere else. -/
def PlacedAt (ex : Executor N) (σ : StateId) (P : ProposalId) : Prop :=
  P ≤ ex.nextProposal ∧ ∀ σ', ex.hasPrepared σ' P = true → σ' = σ

theorem Later.placedAt (h : ex.Later ex') (hp : ex.PlacedAt σ P) : ex'.PlacedAt σ P := by
  refine ⟨Nat.le_trans hp.1 h.next, fun σ' hP => ?_⟩
  rcases h.staged σ' P hP with hP | hlt
  · exact hp.2 σ' hP
  · exact absurd hp.1 (Nat.not_le_of_lt hlt)

theorem Sound.placedAt (h : ex.Sound) (hP : ex.hasPrepared σ P = true) : ex.PlacedAt σ P := by
  obtain ⟨st, p, hst, hp, rfl⟩ := hasPrepared_iff.mp hP
  refine ⟨(h.staged σ st p hst hp).1, fun σ' hP' => ?_⟩
  obtain ⟨st', p', hst', hp', heq⟩ := hasPrepared_iff.mp hP'
  exact h.once σ' σ st' st p' p hst' hp' hst hp heq

/-- An abort that is not refused discards the step of its proposal, if it is staged for the state it names. -/
theorem PlacedAt.abort {a : AbortPrepared} (h : ex.PlacedAt a.state a.proposal) (hok : (ex.abort a).2 = .ok ()) :
    ex.consumedProposals.find? a.proposal = none ∧ (ex.abort a).1.Gone a.proposal := by
  have hnone : ex.consumedProposals.find? a.proposal = none := by
    cases hc : ex.consumedProposals.find? a.proposal with
    | none => rfl
    | some used =>
      simp only [Executor.abort, hc] at hok
      cases hok
  have hlater := (abort_change a ex).later
  refine ⟨hnone, Nat.le_trans h.1 hlater.next, fun σ => ?_⟩
  by_contra hP
  have hσ := (hlater.placedAt h).2 σ (by simpa using hP)
  subst hσ
  obtain ⟨st, p, hst, hp, hprop⟩ := hasPrepared_iff.mp (by simpa using hP)
  simp only [Executor.abort, hnone, find?_modify_self, Option.map_eq_some_iff] at hst
  obtain ⟨st₀, -, rfl⟩ := hst
  split at hp
  · cases hp
  · next hany =>
    rw [hp] at hany
    simp [hprop] at hany

end Executor

/-! Runs. -/

namespace Session
variable {s : Session N}

/-- The executor has the receipts and the consumed proposals of the grants promoted so far. -/
def Spent (s : Session N) (gs : List CommitGrant) : Prop :=
  ∀ g ∈ gs, (s.executor.receiptsByGrant.find? g.grantId).isSome ∧ (s.executor.consumedProposals.find? g.proposal).isSome

end Session

end

end DecodeFabric
