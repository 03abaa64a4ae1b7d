import DecodeFabric.Redispatch
import DecodeFabric.Linkage

/- The attempt ids of retries.

   A retry takes the number of the next dispatch plus 1000000. The client chooses the first attempt from the same
   numbers, and two retries without a dispatch between them take the same one: a sequence then goes on under an id it
   has had, and completions of the earlier attempt are taken for completions of the new one (`retry_repeats`). These
   are the only two ways. The number of the next dispatch never falls, so an id that was minted before and is minted
   now has been the sequence's all the while (`Fabric.Follows`). -/
namespace DecodeFabric
open Lib Table List Sample
variable {s t u : Fabric} {a : Act} {e : Edge Fabric Call} {x x' y : Seq} {q : SequenceId}

/-- In a turn of the call of `e` that finds `u`, a retry of sequence `q` succeeds, by `retry` or by the outcome of a
    step: it was `x` and is `y`. -/
inductive Retried (e : Edge Fabric Call) (q : SequenceId) (x : Seq) : Fabric → Seq → Prop
  | asked {y : Seq} : e.label = .op (.retry q) → (e.pre.retry q).2.retried = true → e.pre.seqs.find? q = some x →
      (e.pre.retry q).1.seqs.find? q = some y → Retried e q x e.pre y
  | failed {o : Op} {mo : MemberOutcome} {u : Fabric} {y : Seq} : e.label = .op o → Resolves e.pre q x mo u o →
      mo.kind = .retryableFailure → ¬ x.attemptCount ≥ u.cfg.retryPolicy.maxAttempts →
      (u.resolveNoncommit q x mo).seqs.find? q = some y → Retried e q x u y

theorem Retried.found (h : Retried e q x u y) : u.seqs.find? q = some x := by
  cases h with
  | asked _ _ hx _ => exact hx
  | failed _ hres _ _ _ => exact hres.found

theorem Fabric.retry_attempt (hret : (s.retry q).2.retried = true) (hy : (s.retry q).1.seqs.find? q = some y) :
    y.currentAttempt = s.mintAttempt := by
  unfold retry at hret hy
  split at hret
  · cases hret
  · next x hx =>
    simp only [hx] at hret hy
    split at hret
    · next hst =>
      simp only [if_pos hst] at hy
      split at hret
      · cases hret
      · next hmore =>
        rw [if_neg hmore, startAttempt_seqs, find?_modify_self] at hy
        obtain ⟨z, -, rfl⟩ := Option.map_eq_some_iff.mp hy
        exact mintAttempt_of_books (s.preserveTokens_books q)
    · cases hret

/-- A successful retry has the attempt that is minted now. -/
theorem Retried.attempt (h : Retried e q x u y) : y.currentAttempt = u.mintAttempt := by
  cases h with
  | asked _ hret _ hy => exact Fabric.retry_attempt hret hy
  | @failed _ mo _ _ _ hres hk hmore hy =>
    rw [Fabric.resolveNoncommit_seqs hres.found, find?_modify_self, if_pos hk, find?_modify, hres.found] at hy
    have hmint : ∀ z : Seq, z.attemptCount = x.attemptCount →
        (z.resolve u.cfg u.mintAttempt u.clock mo).currentAttempt = u.mintAttempt := by
      intro z hz
      simp only [Seq.resolve, Seq.noncommit, hk]
      rw [if_neg (by rw [← hz] at hmore; exact hmore)]
      rfl
    split at hy
    · cases hy
      exact hmint _ rfl
    · cases hy
      exact hmint _ rfl

/-! Earlier attempts. -/

/-- `t` comes after `s`, where sequence `q` was `x`. As long as the attempt to be minted is the same, the sequence has
    its attempt of then, or that one. -/
structure Fabric.Follows (s : Fabric) (q : SequenceId) (x : Seq) (t : Fabric) : Prop where
  mint : s.mintAttempt ≤ t.mintAttempt
  seq : ∃ y, t.seqs.find? q = some y ∧ y.req = x.req ∧
    (t.mintAttempt = s.mintAttempt → y.currentAttempt = x.currentAttempt ∨ y.currentAttempt = s.mintAttempt)

theorem micro_follows (hm : Micro t a u) (h : s.Follows q x t) : s.Follows q x u := by
  have hmono := micro_mintAttempt hm
  have hback : u.mintAttempt = s.mintAttempt → t.mintAttempt = s.mintAttempt :=
    fun heq => Nat.le_antisymm (Nat.le_trans hmono (Nat.le_of_eq heq)) h.mint
  obtain ⟨y, hy, hreq, hattempt⟩ := h.seq
  obtain ⟨z, hz, rfl | hc⟩ := hm.seq_after hy
  · exact ⟨Nat.le_trans h.mint hmono, z, hz, hreq, fun heq => hattempt (hback heq)⟩
  · obtain ⟨hreq', hsame⟩ := hc.attempt
    refine ⟨Nat.le_trans h.mint hmono, z, hz, hreq'.trans hreq, fun heq => ?_⟩
    rcases hsame with hsame | hnew
    · rw [hsame]
      exact hattempt (hback heq)
    · exact .inr (hnew.trans (hback heq))

theorem steps_follows {A : Act → Prop} (hst : Steps A t u) (h : s.Follows q x t) : s.Follows q x u :=
  hst.invariant (I := s.Follows q x) (fun hm _ => micro_follows hm) h

theorem run_follows {k : History} (hr : Run Next t k u) (ht : Reachable t) (h : s.Follows q x t) : s.Follows q x u := by
  refine (hr.invariant (P := fun _ => True) (I := fun t => Reachable t ∧ s.Follows q x t) ?_ (fun _ _ => trivial)
    ⟨ht, h⟩).2
  rintro e hn - ⟨hreach, hfollows⟩
  exact ⟨hreach.next hn, steps_follows (next_steps hn (Nat.ne_of_gt (reachable_nextDispatch hreach))) hfollows⟩

theorem Fabric.Follows.refl (hx : s.seqs.find? q = some x) : s.Follows q x s :=
  ⟨Nat.le_refl _, x, hx, rfl, fun _ => .inl rfl⟩

/-- A retry happens on the way of a call that admits nothing. -/
theorem Retried.steps (h : Retried e q x u y) :
    ∃ c : Call, (∀ inp, c ≠ .op (.submit inp)) ∧ Steps c.MayPerform e.pre u := by
  cases h with
  | asked => exact ⟨.op (.retry q), nofun, .refl _ _⟩
  | failed _ hres =>
    cases hres with
    | @completion result hturn =>
      refine ⟨.op (.applyCompletion result), nofun, ?_⟩
      exact invariant_at_turn (I := Steps _ e.pre) (fun t mo _ hst => hst.trans (t.applyOutcome_mayPerform result mo))
        (.refl _ _) _ hturn
    | @prepared prepared _ hturn =>
      refine ⟨.op (.authorizePrepared prepared), nofun, ?_⟩
      exact invariant_at_turn (I := Steps _ e.pre) (fun t pm hpm hst => hst.trans (t.authorizeMember_mayPerform hpm))
        (.refl _ _) _ hturn

/-- An attempt that a sequence had before, other than its first and its last, is not minted again. -/
theorem Fabric.Follows.not_minted (h : s.Follows q x' u) (hminted : s.AttemptsMinted)
    (hx' : s.seqs.find? q = some x') (hx : u.seqs.find? q = some x) (hfirst : u.mintAttempt ≠ x.req.firstAttempt)
    (hcurrent : u.mintAttempt ≠ x.currentAttempt) : u.mintAttempt ≠ x'.currentAttempt := by
  intro heq
  obtain ⟨z, hz, hreq, hattempt⟩ := h.seq
  cases hx.symm.trans hz
  rcases hminted q x' hx' with hstart | hle
  · rw [← hreq] at hstart
    exact hfirst (heq.trans hstart)
  · have hsame : u.mintAttempt = s.mintAttempt := Nat.le_antisymm (Nat.le_trans (Nat.le_of_eq heq) hle) h.mint
    rcases hattempt hsame with hold | hnew
    · exact hcurrent (heq.trans hold.symm)
    · exact hcurrent (hsame.trans hnew.symm)

/-- A completion under another attempt is stale. -/
theorem Fabric.completionVerdict_stale {result : DecodeExecutionResult} {mo : MemberOutcome}
    (h : mo.attempt ≠ x.currentAttempt) : s.completionVerdict result x mo ∈
      [.disown "stale_epoch", .ignore "stale_worker_boot", .ignore "stale_attempt"] := by
  unfold completionVerdict
  simp only [if_pos h]
  split
  · simp
  · split
    · simp
    · simp

/-- A sequence was admitted with its first attempt. -/
theorem admitted_first {h : History} (hr : RunsTo h s) (hx : s.seqs.find? q = some x) :
    ∃ e ∈ h, ∃ x', e.post.seqs.find? q = some x' ∧ x.req.firstAttempt = x'.currentAttempt := by
  obtain ⟨cfg, clock, hr⟩ := hr
  induction hr generalizing x with
  | nil => cases hx
  | @snoc t u h c hr hn ih =>
    have h0 : t.nextDispatch ≠ 0 := Nat.ne_of_gt (reachable_nextDispatch ⟨_, cfg, clock, hr⟩)
    cases ht : t.seqs.find? q with
    | some x₀ =>
      obtain ⟨y, hy, hreq, -⟩ := (steps_follows (next_steps hn h0) (.refl ht)).seq
      cases hx.symm.trans hy
      obtain ⟨e, he, x', hx', hfirst⟩ := ih ht
      exact ⟨e, mem_append_left _ he, x', hx', hreq ▸ hfirst⟩
    | none =>
      refine ⟨_, mem_append_right _ (mem_singleton_self _), x, hx, ?_⟩
      by_cases hsub : ∃ inp, c = .op (.submit inp)
      · obtain ⟨inp, rfl⟩ := hsub
        cases hn
        change (t.submit inp).1.seqs.find? q = some x at hx
        rcases submit_cases t inp with ⟨hs, -⟩ | ⟨-, -, hnone, heq⟩
        · rw [hs, ht] at hx
          cases hx
        · rw [heq, Fabric.enrol_new hnone, find?_insert, ht] at hx
          split at hx
          · cases hx
            rfl
          · cases hx
      · have hsame := congrFun (next_requestOf hn h0 fun inp heq => hsub ⟨inp, heq⟩).1 q
        rw [Fabric.requestOf, Fabric.requestOf, hx, ht] at hsame
        cases hsame

/-- Sequence `q`, being `x` now, has carried attempt `b` along `h`. -/
def Carries (h : History) (q : SequenceId) (x : Seq) (b : AttemptId) : Prop :=
  b = x.currentAttempt ∨ ∃ e ∈ h, ∃ x', e.post.seqs.find? q = some x' ∧ b = x'.currentAttempt

/-- A retry mints an attempt the sequence has not carried before in the run, and completions of all the earlier ones
    are stale from then on, if and only if the number to be minted is neither its first attempt nor its last. -/
theorem retry_attempt_new_iff {h₁ h₂ : History} (hr : RunsTo (h₁ ++ e :: h₂) s) (ht : Retried e q x u y) :
    (∀ b, Carries h₁ q x b → y.currentAttempt ≠ b ∧
      ∀ (v : Fabric) (z : Seq) (result : DecodeExecutionResult) (mo : MemberOutcome),
        z.currentAttempt = y.currentAttempt → mo.attempt = b → v.completionVerdict result z mo ∈
          [.disown "stale_epoch", .ignore "stale_worker_boot", .ignore "stale_attempt"]) ↔
    u.mintAttempt ≠ x.req.firstAttempt ∧ u.mintAttempt ≠ x.currentAttempt := by
  obtain ⟨cfg, clock, hr⟩ := hr
  obtain ⟨hpre, -, -⟩ := hr.split
  obtain ⟨c, hc, hsteps⟩ := ht.steps
  rw [ht.attempt]
  constructor
  · intro hnew
    refine ⟨fun hmint => ?_, (hnew _ (.inl rfl)).1⟩
    obtain ⟨x₀, hx₀⟩ : ∃ x₀, e.pre.seqs.find? q = some x₀ := by
      have hsame := congrFun (steps_requestOf hsteps hc) q
      rw [Fabric.requestOf, Fabric.requestOf, ht.found] at hsame
      obtain ⟨x₀, hx₀, -⟩ := Option.map_eq_some_iff.mp hsame.symm
      exact ⟨x₀, hx₀⟩
    obtain ⟨z, hz, hreq, -⟩ := (steps_follows hsteps (.refl hx₀)).seq
    cases ht.found.symm.trans hz
    obtain ⟨e', he', x', hx', hfirst⟩ := admitted_first ⟨cfg, clock, hpre⟩ hx₀
    exact (hnew _ (.inr ⟨e', he', x', hx', rfl⟩)).1 (hmint.trans (hreq ▸ hfirst))
  · rintro ⟨hfirst, hcurrent⟩ b hb
    have hnew : u.mintAttempt ≠ b := by
      rcases hb with rfl | ⟨e', he', x', hx', rfl⟩
      · exact hcurrent
      · obtain ⟨k₁, k₂, rfl⟩ := append_of_mem he'
        obtain ⟨hbefore, hn, hrest⟩ := hpre.split
        have hreach : Reachable e'.post := ⟨_, cfg, clock, hbefore.snoc hn⟩
        have hfollows := steps_follows hsteps (run_follows hrest hreach (.refl hx'))
        exact hfollows.not_minted (reachable_attemptsMinted hreach) hx' ht.found hfirst hcurrent
    refine ⟨hnew, fun v z result mo hz hmo => Fabric.completionVerdict_stale ?_⟩
    rw [hmo, hz]
    exact hnew.symm

theorem retry_attempt_new_sample : ∃ y, ((start.execAll dispatched).retry 1).1.seqs.find? 1 = some y ∧
    y.currentAttempt = 1000002 ∧ ∀ result : DecodeExecutionResult, ∀ mo : MemberOutcome, mo.attempt = 1 →
      ((start.execAll dispatched).retry 1).1.completionVerdict result y mo ∈
        [.disown "stale_epoch", .ignore "stale_worker_boot", .ignore "stale_attempt"] := by
  have ht : Retried ⟨start.execAll dispatched, .op (.retry 1),
      (start.execAll dispatched).exec (.retry 1)⟩ 1 _ _ _ := .asked rfl rfl rfl rfl
  have hr := runsTo (dispatched ++ [.retry 1])
  rw [trace_append] at hr
  refine ⟨_, rfl, rfl, fun result mo hmo => ?_⟩
  exact ((retry_attempt_new_iff hr ht).mpr ⟨by decide, by decide⟩ 1 (.inl rfl)).2 _ _ result mo rfl hmo

namespace Sample

/-- The client has chosen the attempt its first retry will mint. -/
def preempted : List Op := foreseen ++ [.schedule 1]

/-- A failure of the first step under `attempt`. -/
def failure (attempt : AttemptId) : DecodeExecutionResult :=
  { dispatchId := 1, epoch := 1, worker := 1, workerBoot := 1
    outcomes := [{ sequence := 1, kind := .retryableFailure, attempt, generation := 1 }] }

end Sample

/-- The attempt chosen by the client is minted again, and a completion of the attempt that was given up is applied.
    So is the attempt of a retry, if the next retry comes before the next dispatch. -/
theorem retry_repeats :
    (∃ x y, (start.execAll preempted).seqs.find? 1 = some x ∧
      ((start.execAll preempted).retry 1).2.retried = true ∧
      ((start.execAll preempted).retry 1).1.seqs.find? 1 = some y ∧ y.currentAttempt = x.currentAttempt ∧
      ∀ mo ∈ (failure x.currentAttempt).outcomes, ((start.execAll preempted).retry 1).1.completionVerdict
        (failure x.currentAttempt) y mo = .apply) ∧
    ∃ x y, (start.execAll (dispatched ++ [.retry 1])).seqs.find? 1 = some x ∧
      (start.execAll (dispatched ++ [.retry 1, .applyCompletion (failure 1000002)])).seqs.find? 1 =
        some y ∧ y.attemptCount = x.attemptCount + 1 ∧ y.currentAttempt = x.currentAttempt := by
  refine ⟨⟨_, _, rfl, rfl, rfl, rfl, fun mo hmo => ?_⟩, _, _, rfl, rfl, rfl, rfl⟩
  obtain rfl := mem_singleton.mp hmo
  rfl

end DecodeFabric
