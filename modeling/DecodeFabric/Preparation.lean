import DecodeFabric.Session
import Mathlib.Algebra.Order.BigOperators.Group.List

/- What a `prepare` does to what was there.

   The members of a request take their turns in order. Each brings its state up to the token count it
   names, and only then looks at the transition waiting there: one of its own attempt refuses it and
   ends the call, any other is replaced. Which members get their turn can be read off the attempts
   that wait and those of the members (`untilClash`), and with it what becomes of every state and
   every waiting transition. -/
namespace DecodeFabric
open Lib Table List Sample Option Executor

section
variable {N : Numerics}

/-- The attempt of the transition waiting at a state. -/
def Executor.pending (ex : Executor N) (σ : StateId) : Option AttemptId :=
  ((ex.states.find? σ).bind SeqState.tentative).map Prepared.attempt

/-- The members that are staged when `waiting` are the attempts that wait, and the member that is refused. -/
def untilClash (waiting : StateId → Option AttemptId) :
    List DecodeMemberSpec → List DecodeMemberSpec × Option DecodeMemberSpec
  | [] => ([], none)
  | m :: ms =>
    if waiting m.state.id = some m.attempt then ([], some m)
    else
      let rest := untilClash (Function.update waiting m.state.id (some m.attempt)) ms
      (m :: rest.1, rest.2)

/-- The members of a request that are staged. -/
def Executor.staged (ex : Executor N) (ms : List DecodeMemberSpec) : List DecodeMemberSpec :=
  (untilClash ex.pending ms).1

/-- The member of a request that is refused. -/
def Executor.clash (ex : Executor N) (ms : List DecodeMemberSpec) : Option DecodeMemberSpec :=
  (untilClash ex.pending ms).2

/-- The committed part of a state is the same. -/
structure SeqState.SameCommitted (st st' : SeqState N) : Prop where
  state : st'.state = st.state
  tokens : st'.tokens = st.tokens
  kvBytes : st'.kvBytes = st.kvBytes

theorem SeqState.SameCommitted.stage {st st' : SeqState N} (h : st.SameCommitted st') (proposal : ProposalId)
    (req : DecodeExecutionRequest) (m : DecodeMemberSpec) : st.SameCommitted (st'.stage proposal req m) :=
  ⟨h.state, h.tokens, h.kvBytes⟩

/-! One member. -/

theorem SeqState.ensureInitialized_reaches (m : DecodeMemberSpec) (entry : Option (SeqState N)) :
    m.generatedTokens ≤ (ensureInitialized m entry).tokens := by
  unfold ensureInitialized
  simp only
  rw [catchUp_tokens _ _ _ rfl]
  split
  · exact UInt64.le_refl _
  · next hge => exact UInt64.not_lt.mp hge

theorem SeqState.ensureInitialized_waiting (m : DecodeMemberSpec) (entry : Option (SeqState N)) :
    (ensureInitialized m entry).tentative = entry.bind tentative := by
  unfold ensureInitialized
  simp only
  rw [catchUp_tentative]
  cases entry <;> rfl

namespace Executor
variable {ex : Executor N} {m : DecodeMemberSpec} {σ : StateId} {st : SeqState N}

theorem prepareConflict_none {p : Prepared N} : prepareConflict m p = none ↔ p.attempt ≠ m.attempt := by
  unfold prepareConflict
  split
  · next h => split <;> simp [h]
  · next h => simp [h]

variable (req : DecodeExecutionRequest) (ns : Nanoseconds)

/-- A member whose attempt waits is refused. -/
theorem prepareMember_clash (h : ex.pending m.state.id = some m.attempt) :
    ∃ e, ex.prepareMember req ns m = (ex.withCurrent m, .error e) := by
  obtain ⟨p, hp, hattempt⟩ := map_eq_some_iff.mp h
  have hconflict : (prepareConflict m p).isSome := by
    rw [← ne_none_iff_isSome, ne_eq, prepareConflict_none]
    exact not_not.mpr hattempt
  obtain ⟨e, he⟩ := isSome_iff_exists.mp hconflict
  refine ⟨e, ?_⟩
  simp only [prepareMember, SeqState.ensureInitialized_waiting, hp, bind_some, he]
  rfl

theorem no_conflict (h : ex.pending m.state.id ≠ some m.attempt) :
    ((ex.states.find? m.state.id).bind SeqState.tentative).bind (prepareConflict m) = none := by
  rw [bind_eq_none_iff]
  intro p hp
  rw [prepareConflict_none]
  intro hattempt
  apply h
  rw [pending, hp, map_some, hattempt]

/-- Every other member is staged. -/
theorem prepareMember_stages (h : ex.pending m.state.id ≠ some m.attempt) :
    ∃ pm, ex.prepareMember req ns m = (ex.withStaged req m, .ok pm) := by
  simp only [prepareMember, SeqState.ensureInitialized_waiting, no_conflict h]
  exact ⟨_, rfl⟩

theorem pending_withStaged :
    (ex.withStaged req m).pending = Function.update ex.pending m.state.id (some m.attempt) := by
  funext σ
  unfold pending withStaged
  rw [find?_insert]
  by_cases hσ : σ = m.state.id
  · rw [if_pos hσ, hσ, Function.update_self]
    rfl
  · rw [if_neg hσ, Function.update_of_ne hσ]

/-! The turns of a request. -/

/-- From `ex`, the members of `ms` are staged one after the other, then the member of `c`, if there is one, is
    refused. -/
inductive Turns : Executor N → List DecodeMemberSpec → Option DecodeMemberSpec → Executor N → Prop
  | done (ex : Executor N) : Turns ex [] none ex
  | clash (ex : Executor N) (m : DecodeMemberSpec) : Turns ex [] (some m) (ex.withCurrent m)
  | stage {ex ex' : Executor N} {m : DecodeMemberSpec} {ms : List DecodeMemberSpec} {c : Option DecodeMemberSpec} :
      Turns (ex.withStaged req m) ms c ex' → Turns ex (m :: ms) c ex'

theorem prepareMembers_turns (took : StepTimes) : ∀ (ms : List DecodeMemberSpec) (ex : Executor N),
    Turns req ex (ex.staged ms) (ex.clash ms) (prepareMembers req took ex ms).1 ∧
      ((∃ e, (prepareMembers req took ex ms).2 = .error e) ↔ (ex.clash ms).isSome)
  | [], ex => ⟨Turns.done ex, by simp [prepareMembers, clash, untilClash]⟩
  | m :: ms, ex => by
    by_cases hm : ex.pending m.state.id = some m.attempt
    · obtain ⟨e, he⟩ := prepareMember_clash req (took m) hm
      simp only [staged, clash, untilClash, if_pos hm, prepareMembers, he]
      exact ⟨Turns.clash ex m, by simp⟩
    · obtain ⟨pm, hpm⟩ := prepareMember_stages req (took m) hm
      obtain ⟨hturns, herror⟩ := prepareMembers_turns took ms (ex.withStaged req m)
      simp only [staged, clash, pending_withStaged] at hturns herror
      simp only [staged, clash, untilClash, if_neg hm, prepareMembers, hpm]
      generalize prepareMembers req took (ex.withStaged req m) ms = result at hturns herror
      obtain ⟨ex', e | pms⟩ := result
      · exact ⟨Turns.stage hturns, herror⟩
      · exact ⟨Turns.stage hturns, Iff.trans (by simp) herror⟩

theorem prepare_turns (took : StepTimes) (ex : Executor N) :
    Turns req ex (ex.staged req.members) (ex.clash req.members) (ex.prepare req took).1 := by
  rw [prepare_executor]
  exact (prepareMembers_turns req took req.members ex).1

/-- A request fails exactly when a member of it is refused. -/
theorem prepare_fails_iff (took : StepTimes) (ex : Executor N) :
    (∃ e, (ex.prepare req took).2 = .error e) ↔ (ex.clash req.members).isSome := by
  rw [← (prepareMembers_turns req took req.members ex).2]
  unfold prepare
  generalize prepareMembers req took ex req.members = result
  obtain ⟨ex', e | pms⟩ := result <;> simp

/-! What the turns leave of a state. -/

namespace Turns
variable {req} {ex ex' : Executor N} {ms : List DecodeMemberSpec} {c : Option DecodeMemberSpec}

theorem receipts (h : Turns req ex ms c ex') : ex'.receiptsByGrant = ex.receiptsByGrant := by
  induction h with
  | done ex => rfl
  | clash ex m => rfl
  | stage _ ih => exact ih

/-- A state that no staged member names, and the refused one not with more tokens, is as it was. -/
theorem kept (h : Turns req ex ms c ex') (hst : ex.states.find? σ = some st) (hms : ∀ m ∈ ms, m.state.id ≠ σ)
    (hc : ∀ m ∈ c, m.state.id = σ → m.generatedTokens ≤ st.tokens) : ex'.states.find? σ = some st := by
  induction h with
  | done ex => exact hst
  | clash ex m =>
    by_cases hσ : m.state.id = σ
    · subst hσ
      rw [withCurrent, find?_insert_self, entryFor, hst, SeqState.ensureInitialized_current (hc m rfl rfl)]
    · rw [withCurrent, find?_insert_ne (Ne.symm hσ)]
      exact hst
  | @stage ex ex' m ms c _ ih =>
    have hσ : m.state.id ≠ σ := hms m mem_cons_self
    refine ih ?_ (fun m' hm' => hms m' (mem_cons_of_mem _ hm')) hc
    rw [withStaged, find?_insert_ne hσ.symm]
    exact hst

/-- A state that no member names with more tokens keeps its committed part. -/
theorem sameCommitted (h : Turns req ex ms c ex') {st₀ : SeqState N} (hst : ex.states.find? σ = some st)
    (hsame : st₀.SameCommitted st) (hms : ∀ m ∈ ms, m.state.id = σ → m.generatedTokens ≤ st₀.tokens)
    (hc : ∀ m ∈ c, m.state.id = σ → m.generatedTokens ≤ st₀.tokens) :
    ∃ st', ex'.states.find? σ = some st' ∧ st₀.SameCommitted st' := by
  induction h generalizing st with
  | done ex => exact ⟨st, hst, hsame⟩
  | clash ex m =>
    have hclash : Turns req ex [] (some m) (ex.withCurrent m) := .clash ex m
    have hkept := hclash.kept hst (fun m hm => by cases hm) fun m hm hσ => by
      rw [hsame.tokens]
      exact hc m hm hσ
    exact ⟨st, hkept, hsame⟩
  | @stage ex ex' m ms c _ ih =>
    have hrest : ∀ m' ∈ ms, m'.state.id = σ → m'.generatedTokens ≤ st₀.tokens :=
      fun m' hm' => hms m' (mem_cons_of_mem _ hm')
    by_cases hσ : m.state.id = σ
    · have hle : m.generatedTokens ≤ st.tokens := by
        rw [hsame.tokens]
        exact hms m mem_cons_self hσ
      refine ih ?_ (hsame.stage (ex.nextProposal + 1) req m) hrest hc
      subst hσ
      rw [withStaged, find?_insert_self, entryFor, hst, SeqState.ensureInitialized_current hle]
    · refine ih ?_ hsame hrest hc
      rw [withStaged, find?_insert_ne (Ne.symm hσ)]
      exact hst

/-- No state is taken back. -/
theorem tokens_le (h : Turns req ex ms c ex') (hst : ex.states.find? σ = some st) :
    ∃ st', ex'.states.find? σ = some st' ∧ st.tokens ≤ st'.tokens := by
  induction h generalizing st with
  | done ex => exact ⟨st, hst, UInt64.le_refl _⟩
  | clash ex m =>
    by_cases hσ : m.state.id = σ
    · subst hσ
      exact ⟨_, by rw [withCurrent, find?_insert_self, entryFor, hst], SeqState.ensureInitialized_le m⟩
    · exact ⟨st, by rw [withCurrent, find?_insert_ne (Ne.symm hσ), hst], UInt64.le_refl _⟩
  | @stage ex ex' m ms c _ ih =>
    by_cases hσ : m.state.id = σ
    · subst hσ
      have hfind : (ex.withStaged req m).states.find? m.state.id =
          some ((SeqState.ensureInitialized m (some st)).stage (ex.nextProposal + 1) req m) := by
        rw [withStaged, find?_insert_self, entryFor, hst]
      obtain ⟨st', hst', hle⟩ := ih hfind
      exact ⟨st', hst', UInt64.le_trans (SeqState.ensureInitialized_le m) hle⟩
    · exact ih (by rw [withStaged, find?_insert_ne (Ne.symm hσ), hst])

/-- The state of a member whose turn came has the tokens it names. -/
theorem reaches (h : Turns req ex ms c ex') {m : DecodeMemberSpec} (hm : m ∈ ms ∨ m ∈ c) :
    ∃ st, ex'.states.find? m.state.id = some st ∧ m.generatedTokens ≤ st.tokens := by
  induction h with
  | done ex => rcases hm with hm | hm <;> cases hm
  | clash ex m' =>
    rcases hm with hm | hm
    · cases hm
    · cases hm
      exact ⟨_, by rw [withCurrent, find?_insert_self], SeqState.ensureInitialized_reaches m _⟩
  | @stage ex ex' m' ms c hrest ih =>
    by_cases hfirst : m = m'
    · subst hfirst
      have hfind : (ex.withStaged req m).states.find? m.state.id =
          some ((ex.entryFor m).stage (ex.nextProposal + 1) req m) := by
        rw [withStaged, find?_insert_self]
      obtain ⟨st', hst', hle⟩ := hrest.tokens_le hfind
      exact ⟨st', hst', UInt64.le_trans (SeqState.ensureInitialized_reaches m _) hle⟩
    · exact ih (hm.imp_left fun hm => (mem_cons.mp hm).resolve_left hfirst)

/-- What waits at a state, if it is newer than `n`, stays so. -/
theorem waits (h : Turns req ex ms c ex') {n : Nat} (hn : n ≤ ex.nextProposal)
    (hst : ∃ st p, ex.states.find? σ = some st ∧ st.tentative = some p ∧ n < p.proposal) :
    ∃ st p, ex'.states.find? σ = some st ∧ st.tentative = some p ∧ n < p.proposal := by
  induction h with
  | done ex => exact hst
  | clash ex m =>
    obtain ⟨st, p, hst, hp, hlt⟩ := hst
    by_cases hσ : m.state.id = σ
    · subst hσ
      refine ⟨_, p, by rw [withCurrent, find?_insert_self], ?_, hlt⟩
      rw [SeqState.ensureInitialized_waiting, hst]
      exact hp
    · exact ⟨st, p, by rw [withCurrent, find?_insert_ne (Ne.symm hσ), hst], hp, hlt⟩
  | @stage ex ex' m ms c _ ih =>
    refine ih (Nat.le_succ_of_le hn) ?_
    obtain ⟨st, p, hst, hp, hlt⟩ := hst
    by_cases hσ : m.state.id = σ
    · subst hσ
      obtain ⟨p', hp', hnum⟩ := SeqState.stage_tentative (ex.nextProposal + 1)
        (ex.entryFor m) req m
      refine ⟨_, p', by rw [withStaged, find?_insert_self], hp', ?_⟩
      rw [hnum]
      exact Nat.lt_succ_of_le hn
    · exact ⟨st, p, by rw [withStaged, find?_insert_ne (Ne.symm hσ), hst], hp, hlt⟩

/-- A staged member replaces what waited at its state. -/
theorem replaced (h : Turns req ex ms c ex') {m : DecodeMemberSpec} (hm : m ∈ ms) :
    ∃ st p, ex'.states.find? m.state.id = some st ∧ st.tentative = some p ∧ ex.nextProposal < p.proposal := by
  induction h with
  | done ex | clash ex m => cases hm
  | @stage ex ex' m' ms c hrest ih =>
    by_cases hfirst : m = m'
    · obtain ⟨p, hp, hnum⟩ := SeqState.stage_tentative (ex.nextProposal + 1)
        (SeqState.ensureInitialized m' (ex.states.find? m'.state.id)) req m'
      subst hfirst
      refine hrest.waits (Nat.le_succ _) ⟨_, p, by rw [withStaged, find?_insert_self], hp, ?_⟩
      rw [hnum]
      exact Nat.lt_succ_self _
    · obtain ⟨st, p, hst, hp, hlt⟩ := ih ((mem_cons.mp hm).resolve_left hfirst)
      exact ⟨st, p, hst, hp, Nat.lt_of_succ_lt hlt⟩

theorem promotes (h : Turns req ex ms c ex') {g : CommitGrant} {p : Prepared N} (hg : ex.Promotes g st p)
    (hkept : ex'.states.find? g.state = some st) : ex'.Promotes g st p :=
  ⟨by rw [h.receipts]; exact hg.unused, hkept, hg.staged, hg.authority, hg.pre, hg.post, hg.position⟩

/-- A transition that is still there was not replaced. -/
theorem not_replaced (h : Turns req ex ms c ex') (hsound : ex.Sound) {p : Prepared N}
    (hst : ex.states.find? σ = some st) (hp : st.tentative = some p) {st' : SeqState N}
    (hst' : ex'.states.find? σ = some st') (hp' : st'.tentative = some p) : ∀ m ∈ ms, m.state.id ≠ σ := by
  rintro m hm rfl
  obtain ⟨st'', p', hfind, hwaits, hlt⟩ := h.replaced hm
  cases hst'.symm.trans hfind
  cases hp'.symm.trans hwaits
  exact absurd (hsound.staged _ st p hst hp).1 (Nat.not_le.mpr hlt)

end Turns

/-! What becomes of waiting transitions. -/

/-- There is a grant for whatever waits: a copy of it under an id that is not used. -/
theorem exists_promotes {p : Prepared N} (hst : ex.states.find? σ = some st) (hp : st.tentative = some p) :
    ∃ g : CommitGrant, g.state = σ ∧ ex.Promotes g st p := by
  obtain ⟨i, hi⟩ : ∃ i, i ∉ ex.receiptsByGrant.keys :=
    ⟨ex.receiptsByGrant.keys.sum + 1, fun h => Nat.not_succ_le_self _ (le_sum_of_mem h)⟩
  exact
    ⟨{ grantId := i, proposal := p.proposal, epoch := p.epoch, worker := p.worker, workerBoot := p.workerBoot,
       sequence := p.sequence, state := σ, attempt := p.attempt, generation := p.generation, dispatch := p.dispatch,
       committedPosition := st.tokens, preStateDigest := p.preDigest, postStateDigest := p.postDigest },
      rfl, ⟨find?_eq_none_iff.mpr hi, hst, hp, by simp [authorityMatches], rfl, rfl, rfl⟩⟩

/-- What could be committed before can be committed after. -/
def Committable (ex ex' : Executor N) (p : Prepared N) : Prop :=
  ∀ g st, ex.Promotes g st p → ∃ st', ex'.Promotes g st' p

/-- A call leaves every committed state as it is, and every waiting transition committable. -/
structure Harmless (ex ex' : Executor N) : Prop where
  committed : ∀ σ st, ex.states.find? σ = some st → ∃ st', ex'.states.find? σ = some st' ∧ st.SameCommitted st'
  committable : ∀ p, ex.Committable ex' p

/-- The transition waiting at `σ` is still there after a call, and still committable. -/
structure Survives (ex ex' : Executor N) (σ : StateId) (p : Prepared N) : Prop where
  present : ∃ st', ex'.states.find? σ = some st' ∧ st'.tentative = some p
  committable : ex.Committable ex' p

end Executor

theorem Session.run_sound {h : SessionHistory N} {s₀ s : Session N} (hr : Run Next s₀ h s)
    (hs₀ : s₀.executor.Sound) : s.executor.Sound := by
  refine hr.invariant (P := fun _ => True) (I := fun s => s.executor.Sound) ?_ (fun _ _ => trivial) hs₀
  rintro ⟨t, c, u⟩ hn - ht
  obtain rfl : u = t.exec c := hn
  exact exec_sound ht c

/-- A failed request does no harm exactly when none of the members whose turn came names more tokens than its state
    has, and none of those before the refused one names a state where a transition waits. -/
theorem failed_prepare_harmless_iff {h : SessionHistory N} {s : Session N} (hr : Run Session.Next {} h s)
    {req : DecodeExecutionRequest} {took : StepTimes} {e : Error}
    (he : (s.executor.prepare req took).2 = .error e) : s.executor.Harmless (s.executor.prepare req took).1 ↔
      ∃ refused, s.executor.clash req.members = some refused ∧
        (∀ m ∈ s.executor.staged req.members ++ [refused], ∀ st, s.executor.states.find? m.state.id = some st →
          m.generatedTokens ≤ st.tokens) ∧
        ∀ m ∈ s.executor.staged req.members, s.executor.pending m.state.id = none := by
  have hsound := Session.run_sound hr Executor.Sound.init
  have hturns := prepare_turns req took s.executor
  obtain ⟨refused, hrefused⟩ := isSome_iff_exists.mp ((prepare_fails_iff req took s.executor).mp ⟨e, he⟩)
  rw [hrefused] at hturns
  constructor
  · intro hharmless
    refine ⟨refused, hrefused, fun m hm st hst => ?_, fun m hm => ?_⟩
    · have hturn : m ∈ s.executor.staged req.members ∨ m ∈ some refused := by
        rw [mem_append, mem_singleton] at hm
        exact hm.imp_right fun heq => congrArg some heq.symm
      obtain ⟨st', hst', hle⟩ := hturns.reaches hturn
      obtain ⟨st'', hst'', hsame⟩ := hharmless.committed _ st hst
      cases hst'.symm.trans hst''
      rw [← hsame.tokens]
      exact hle
    · rw [pending, map_eq_none_iff, bind_eq_none_iff]
      intro st hst
      by_contra hwaits
      obtain ⟨p, hp⟩ := ne_none_iff_exists'.mp hwaits
      obtain ⟨g, hg_state, hg⟩ := exists_promotes hst hp
      obtain ⟨st', hg'⟩ := hharmless.committable p g st hg
      exact hturns.not_replaced hsound hg.entry hp hg'.entry hg'.staged m hm hg_state.symm
  · rintro ⟨refused', hrefused', htokens, hwaiting⟩
    cases hrefused.symm.trans hrefused'
    refine ⟨fun σ st hst => ?_, fun p g st hg => ?_⟩
    · refine hturns.sameCommitted hst ⟨rfl, rfl, rfl⟩ ?_ ?_
      · rintro m hm rfl
        exact htokens m (mem_append_left _ hm) st hst
      · rintro m hm rfl
        cases hm
        exact htokens _ (mem_append_right _ (mem_singleton_self _)) st hst
    · refine ⟨st, hturns.promotes hg (hturns.kept hg.entry ?_ ?_)⟩
      · rintro m hm heq
        have hnone := hwaiting m hm
        rw [heq, pending, hg.entry, bind_some, hg.staged] at hnone
        cases hnone
      · rintro m hm heq
        cases hm
        exact htokens _ (mem_append_right _ (mem_singleton_self _)) st (heq ▸ hg.entry)

/-- Whatever sequences its members are for, a request leaves a waiting transition in place exactly when no staged member
    names its state, and the refused one does not name it with more tokens. -/
theorem prepared_survives_iff {h : SessionHistory N} {s : Session N} (hr : Run Session.Next {} h s) {σ : StateId}
    {st : SeqState N} {p : Prepared N} (hst : s.executor.states.find? σ = some st) (hp : st.tentative = some p)
    (req : DecodeExecutionRequest) (took : StepTimes) :
    s.executor.Survives (s.executor.prepare req took).1 σ p ↔
      (∀ m ∈ s.executor.staged req.members, m.state.id ≠ σ) ∧
      ∀ m ∈ s.executor.clash req.members, m.state.id = σ → m.generatedTokens ≤ st.tokens := by
  have hsound := Session.run_sound hr Executor.Sound.init
  have hturns := prepare_turns req took s.executor
  constructor
  · rintro ⟨⟨st', hst', hp'⟩, hcommittable⟩
    refine ⟨hturns.not_replaced hsound hst hp hst' hp', ?_⟩
    intro m hm hσ
    obtain ⟨g, hg_state, hg⟩ := exists_promotes hst hp
    obtain ⟨st'', hg'⟩ := hcommittable g st hg
    obtain ⟨st₁, hst₁, hle⟩ := hturns.reaches (.inr hm)
    rw [hσ, ← hg_state] at hst₁
    cases hst₁.symm.trans hg'.entry
    rwa [hg'.position, ← hg.position] at hle
  · rintro ⟨hstaged, hclash⟩
    have hkept := hturns.kept hst hstaged hclash
    refine ⟨⟨st, hkept, hp⟩, fun g st₁ hg => ?_⟩
    -- a proposal is staged at one state only
    have hstate : g.state = σ := hsound.once g.state σ st₁ st p p hg.entry hg.staged hst hp rfl
    obtain rfl := some.inj ((hstate ▸ hg.entry).symm.trans hst)
    exact ⟨st₁, hturns.promotes hg (hstate ▸ hkept)⟩

end

/-! Requests that do harm, and requests that do not. -/

namespace Sample

/-- An executor with the step of one member staged. -/
def oneStaged : Session numerics :=
  ({} : Session numerics).exec (.prepare { executeRequest with members := [memberSpec 0] } took)

theorem oneStaged_run : Run Session.Next {} (({} : Session numerics).trace
    [.prepare { executeRequest with members := [memberSpec 0] } took]) oneStaged :=
  Session.trace_run {} [.prepare { executeRequest with members := [memberSpec 0] } took]

/-- The next generation, after the first step was committed on another worker. -/
def earlyRequest : DecodeExecutionRequest := { executeRequest with members := [{ memberSpec 1 with generation := 2 }] }

/-- Another sequence on the same state. -/
def strangerRequest : DecodeExecutionRequest :=
  { executeRequest with members := [{ memberSpec 0 with sequence := 2, attempt := 2 }] }

end Sample

/-- A request that is refused as out of order has taken the committed state one token on. -/
theorem refused_prepare_moves_state :
    (∃ e, (oneStaged.executor.prepare earlyRequest took).2 = .error e) ∧
    ¬ oneStaged.executor.Harmless (oneStaged.executor.prepare earlyRequest took).1 := by
  refine ⟨⟨_, rfl⟩, fun h => ?_⟩
  obtain ⟨st', hst', hsame⟩ := h.committed 1 _ rfl
  cases hst'
  exact absurd hsame.tokens (by decide)

/-- A repeated request is refused and does no harm. -/
theorem repeated_prepare_harmless :
    (∃ e, (oneStaged.executor.prepare { executeRequest with members := [memberSpec 0] }
      took).2 = .error e) ∧
    oneStaged.executor.Harmless (oneStaged.executor.prepare
      { executeRequest with members := [memberSpec 0] } took).1 := by
  refine ⟨⟨_, rfl⟩, (failed_prepare_harmless_iff oneStaged_run rfl).mpr ⟨memberSpec 0, rfl, ?_, ?_⟩⟩
  · intro m hm st hst
    cases mem_singleton.mp hm
    cases hst
    decide
  · intro m hm
    cases hm

/-- The step staged for sequence 1 is gone after a request for sequence 2. -/
theorem stranger_replaces_prepared : (∀ m ∈ strangerRequest.members, m.sequence ≠ 1) ∧
    ∃ st p, oneStaged.executor.states.find? 1 = some st ∧ st.tentative = some p ∧ p.sequence = 1 ∧
      ¬ oneStaged.executor.Survives (oneStaged.executor.prepare strangerRequest took).1 1 p := by
  refine ⟨by decide, _, _, rfl, rfl, rfl, fun h => ?_⟩
  obtain ⟨st', hst', hp'⟩ := h.present
  cases hst'
  exact absurd (congrArg (Option.map Prepared.proposal) hp') (by decide)

/-- It survives a request for another state. -/
theorem prepared_survives_elsewhere :
    ∃ st p, oneStaged.executor.states.find? 1 = some st ∧ st.tentative = some p ∧
      oneStaged.executor.Survives (oneStaged.executor.prepare
        { executeRequest with members := [{ memberSpec 0 with sequence := 2, state := { id := 2 } }] }
        took).1 1 p := by
  refine ⟨_, _, rfl, rfl, (prepared_survives_iff oneStaged_run rfl rfl _ _).mpr ⟨?_, ?_⟩⟩
  · intro m hm
    cases mem_singleton.mp hm
    decide
  · intro m hm
    cases hm

end DecodeFabric
