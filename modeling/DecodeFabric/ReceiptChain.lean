import DecodeFabric.Grants
import DecodeFabric.Lifetime
import DecodeFabric.Recovered
import Mathlib.Data.List.Chain

/- Receipt-chain continuity.

   The receipts finalized for a sequence are the grants of its chain, one for one, as far as
   digests and positions go (`run_transitions`). In the chain every grant starts in the state
   the previous one led to, because it was issued after the previous one was spent; so do the
   receipts, and the digest the sequence remembers is the last receipt's. No assumption is made
   on the messages. A recovery takes a sequence back to where a snapshot has it, and the chain with it
   (`receipt_chain_forked`). -/
namespace DecodeFabric
open Lib List Sample

/-- A step of an executor's state: digest before, digest after, position before. -/
structure Transition where
  pre : UInt64
  post : UInt64
  position : UInt64
  deriving DecidableEq

def MemberReceipt.transition (r : MemberReceipt) : Transition :=
  ⟨r.preStateDigest, r.postStateDigest, r.committedPositionBefore⟩

def CommitGrant.transition (g : CommitGrant) : Transition :=
  ⟨g.preStateDigest, g.postStateDigest, g.committedPosition⟩

/-- `b` starts where `a` ended. -/
def Transition.Continues (a b : Transition) : Prop := b.pre = a.post ∧ b.position = a.position + 1

theorem transition_of_fits {r : MemberReceipt} {g : CommitGrant} (h : receiptFitsGrant r g = true) :
    r.transition = g.transition := by
  obtain ⟨-, -, -, -, -, -, hpos, hpre, hpost⟩ := receiptFitsGrant_spec h
  simp only [MemberReceipt.transition, CommitGrant.transition, hpos, hpre, hpost]

/-- The receipts for `q` among the finalizations `l`. -/
def receiptsFor (q : SequenceId) (l : List (Fabric × MemberReceipt)) : List MemberReceipt :=
  (l.map Prod.snd).filter fun r => r.sequence = q

theorem receiptsFor_append (q : SequenceId) (l₁ l₂ : List (Fabric × MemberReceipt)) :
    receiptsFor q (l₁ ++ l₂) = receiptsFor q l₁ ++ receiptsFor q l₂ := by
  simp only [receiptsFor, map_append, filter_append]

/-- Along a run the chains grow by the transitions of the receipts finalized. -/
theorem run_transitions {s t : Fabric} {m : List (Edge Fabric Act)} (hr : Run Micro s m t) {c : Chains}
    (h : Linked False s c) : ∃ c', Linked False t c' ∧ ∀ q, (c' q).map CommitGrant.transition =
      (c q).map CommitGrant.transition ++ (receiptsFor q (m.flatMap finalizedAt)).map MemberReceipt.transition := by
  induction hr with
  | nil => exact ⟨c, h, fun q => by simp [receiptsFor]⟩
  | @snoc t u m a hr hm ih =>
    obtain ⟨c₁, h₁, htr⟩ := ih
    by_cases hfin : ∃ r, a = .finalize r
    · obtain ⟨r, rfl⟩ := hfin
      cases hm with
      | finalize _ hv hs hb =>
        obtain ⟨g, hfit, -, h₂⟩ := h₁.finalize hv hs (congrArg Books.grantLedger hb) (congrArg Books.nextGrant hb)
        refine ⟨_, h₂, fun q => ?_⟩
        rw [flatMap_append, flatMap_singleton, receiptsFor_append, map_append, ← append_assoc,
          ← htr q]
        -- only the receipt's own sequence gains a transition
        by_cases hq : q = r.sequence
        · subst hq
          rw [Function.update_self, map_append]
          simp [receiptsFor, finalizedAt, transition_of_fits hfit]
        · rw [Function.update_of_ne hq]
          simp [receiptsFor, finalizedAt, Ne.symm hq]
    · have hno : ∀ r, a ≠ .finalize r := fun r hr => hfin ⟨r, hr⟩
      refine ⟨c₁, micro_linked hm h₁ False.elim hno, fun q => ?_⟩
      have hnil : finalizedAt ⟨t, a, u⟩ = [] := finalizedAt_eq_nil hno
      rw [flatMap_append, flatMap_singleton, hnil, append_nil]
      exact htr q

theorem Linked.chain_continues {exact : Prop} {s : Fabric} {c : Chains} (h : Linked exact s c) (q : SequenceId) :
    ((c q).map CommitGrant.transition).IsChain Transition.Continues := by
  rw [isChain_map, isChain_iff_forall_rel_of_append_cons_cons]
  intro g₁ g₂ l₁ l₂ hcut
  have hcut' : c q = (l₁ ++ [g₁]) ++ g₂ :: l₂ := by rw [hcut, append_assoc]; rfl
  exact (h.sound.admitted q _ _ _ hcut').1 g₁ (by simp)

theorem receipt_chain {h : History} {s : Fabric} (hr : RunsTo h s) (q : SequenceId) :
    (finalizedFor q h).IsChain (fun r₁ r₂ =>
      r₂.preStateDigest = r₁.postStateDigest ∧
      r₂.committedPositionBefore = r₁.committedPositionBefore + 1) ∧
    ∀ r ∈ (finalizedFor q h).getLast?,
      ∃ x, s.seqs.find? q = some x ∧ x.committedStateDigest = r.postStateDigest := by
  obtain ⟨cfg, clock, m, hm, -, -, hfinal⟩ := hr.traced
  obtain ⟨c, hc, htr⟩ := run_transitions hm (Linked.init False cfg clock)
  have hsteps : (c q).map CommitGrant.transition = (finalizedFor q h).map MemberReceipt.transition := by
    rw [htr q, hfinal]
    rfl
  refine ⟨?_, ?_⟩
  · have hchain := hc.chain_continues q
    rw [hsteps, isChain_map] at hchain
    exact hchain
  · intro r hlast
    -- the last grant of the chain made the same transition
    have hlast' : ((c q).map CommitGrant.transition).getLast? = some r.transition := by
      rw [hsteps, getLast?_map, hlast]
      rfl
    rw [getLast?_map, Option.map_eq_some_iff] at hlast'
    obtain ⟨g, hg, hgr⟩ := hlast'
    cases hq : s.seqs.find? q with
    | none =>
      rw [hc.absent q hq] at hg
      cases hg
    | some x =>
      refine ⟨x, rfl, ((hc.seq q x hq).last g hg).2.1.trans ?_⟩
      exact congrArg Transition.post hgr

/-- Two steps of one sequence, the second prepared on the state the first one led to. -/
def Sample.twoSteps : List Op :=
  committed ++
    [.schedule 2,
     .authorizePrepared
      { epoch := 1, worker := 1, workerBoot := 1
        members := [{ member with
          dispatch := 2, generation := 2, proposal := 2, preStateDigest := 11, postStateDigest := 12
          committedPositionBefore := 1 }] },
     .applyCommitReceipt
      { receipts := [{ receipt with
          receiptId := 2, grantId := 2, proposal := 2, generation := 2, dispatch := 2, preStateDigest := 11
          postStateDigest := 12, committedPositionBefore := 1 }] }]

theorem receipt_chain_twoSteps :
    (finalizedFor 1 (trace start twoSteps)).map MemberReceipt.generation = [1, 2] ∧
    (finalizedFor 1 (trace start twoSteps)).IsChain (fun r₁ r₂ =>
      r₂.preStateDigest = r₁.postStateDigest ∧
      r₂.committedPositionBefore = r₁.committedPositionBefore + 1) :=
  ⟨by decide, (receipt_chain (runsTo twoSteps) 1).1⟩

namespace Sample

theorem waiting_representable : waiting.Representable where
  counters := by decide
  sizes := by decide
  seqs := by decide
  terminals := by decide
  grants := by decide

/-- The fabric after its first token, taken back to the snapshot it made before. -/
def forked : Fabric := afterToken.recoveredFrom waiting

/-- A fabric commits a token, recovers its earlier snapshot, and goes on with `os`. -/
def forkedLife (os : List Op) : Lifetime :=
  lifetime (trace start committed) ++
    ⟨afterToken, .recover waiting.serializeState, forked⟩ :: lifetime (trace forked os)

theorem forkedLife_livesTo (os : List Op) : LivesTo (forkedLife os) (forked.execAll os) := by
  have hrecover : (afterToken.recoverState waiting.serializeState).1 = forked := by
    rw [reachable_recoverState waiting_reachable waiting_representable (by decide)]
    rfl
  have hstep : Run LifeNext afterToken [⟨afterToken, .recover waiting.serializeState, forked⟩] forked :=
    Run.single (hrecover ▸ LifeNext.recover afterToken _)
  exact ⟨{}, 0, (run_lifetime (trace_run start committed)).append (hstep.append (run_lifetime (trace_run forked os)))⟩

/-- The first step over again, under the next grant. -/
def secondTry : List Op :=
  [.schedule 2, .authorizePrepared prepared, .applyCommitReceipt { receipts := [{ receipt with grantId := 2 }] }]

end Sample

/-- Taken back to its own snapshot, a fabric finalizes the same step twice. -/
theorem receipt_chain_forked : ∃ h s, LivesTo h s ∧
    (finalizedFor 1 (callsOf h)).map MemberReceipt.transition = [⟨10, 11, 0⟩, ⟨10, 11, 0⟩] ∧
    ¬ (finalizedFor 1 (callsOf h)).IsChain (fun r₁ r₂ =>
      r₂.preStateDigest = r₁.postStateDigest ∧
      r₂.committedPositionBefore = r₁.committedPositionBefore + 1) :=
  ⟨_, _, forkedLife_livesTo secondTry, by decide, by decide⟩

end DecodeFabric
