import DecodeFabric.Livelock
import DecodeFabric.Service
import DecodeFabric.Slots

/- End-to-end completion of `pump_until_idle`.

   Workers that turn nothing away are registered, then requests submitted, and a pump without a limit on its cycles
   runs over an executor that knows nothing of them. The executor is then where every sequence says it is, so the pump
   returns (`Host.Fitting`); `Host.Serving` is what holds between two of its cycles besides. A pump that finds a
   sequence to send sends one: when it returns every sequence has completed. -/
namespace DecodeFabric
open Lib Table Fabric Sample UInt64 DecodeFabric.Seq
variable {c : Call} {req : DecodeRequest} {s : Fabric} {d : Dispatch} {m : DecodeMemberSpec} {q : SequenceId} {x : Seq}
  {wd : WorkerDescriptor}

/-! Fabrics that only admit and pump. -/

/-- A sequence that was never cancelled, expired or failed: it is dispatched while anything is in flight. -/
structure Seq.Steady (x : Seq) : Prop where
  machine : x.Prompt ∨ x.machine = .grouped ∨ x.machine = .dispatched ∨ x.machine = .completed
  busy : x.hasInflight = true ∨ x.inFlightDispatch ≠ 0 ∨ x.hasInflightGrant = true → x.machine = .dispatched

/-- Between two ticks: nothing is in flight, no deadline has passed, and a sequence that has not completed has tokens
    left. -/
structure Seq.Rests (tn : TimePoint) (x : Seq) : Prop where
  machine : x.Prompt ∨ x.machine = .completed
  idle : x.hasInflight = false ∧ x.inFlightDispatch = 0 ∧ x.hasInflightGrant = false
  inTime : x.deadlineReached tn = false
  unspent : x.machine ≠ .completed → x.budget.exhausted = false

namespace Seq

theorem Steady.of_idle (hm : x.Prompt ∨ x.machine = .grouped ∨ x.machine = .dispatched ∨ x.machine = .completed)
    (h : x.hasInflight = false ∧ x.inFlightDispatch = 0 ∧ x.hasInflightGrant = false) : x.Steady :=
  ⟨hm, fun hbusy => by simp [h] at hbusy⟩

/-- The lifecycle of a steady sequence whose dispatch is given up. -/
theorem Steady.reconciled (h : x.Steady) (now : TimePoint) : (SeqOp.apply (.reconcile now) x).machine =
    if x.machine = .dispatched then .readyForNextToken else x.machine := by
  show (if x.release.executing then _ else x.machine) = _
  have hrunning : x.machine ≠ .running := by
    rcases h.machine with (hm | hm) | hm | hm | hm <;> rw [hm] <;> decide
  by_cases hd : x.machine = .dispatched
  · have hexec : x.release.executing = true := decide_eq_true (.inl hd)
    rw [if_pos hexec, if_pos hd]
    show (x.machine.move .stepCompleted).move .readyForNextToken = _
    rw [hd]
    rfl
  · have hexec : ¬ x.release.executing = true := fun he => (of_decide_eq_true he).elim hd hrunning
    rw [if_neg hexec, if_neg hd]

namespace Rests
variable {tn : TimePoint}

theorem notCancelling (h : x.Rests tn) : x.machine ≠ .cancelRequested := by
  rcases h.machine with (hm | hm) | hm <;> rw [hm] <;> decide

theorem prompt (h : x.Rests tn) (hc : x.machine.isCandidate = true) : x.Prompt := by
  refine h.machine.resolve_right fun hm => ?_
  rw [hm] at hc
  cases hc

theorem candidate_unspent (h : x.Rests tn) (hc : x.machine.isCandidate = true) : x.budget.exhausted = false := by
  refine h.unspent fun hm => ?_
  rw [hm] at hc
  cases hc

theorem boundary (h : x.Rests tn) : x.boundary tn = x := by
  unfold Seq.boundary
  simp [h.inTime, h.notCancelling]

theorem polled (h : x.Rests tn) : x.polled tn = x := by
  unfold Seq.polled collected
  rw [h.boundary, if_neg]
  rintro ⟨hc, he⟩
  rw [h.candidate_unspent hc] at he
  cases he

end Rests
end Seq

theorem Fabric.round_rests {tn : TimePoint} (h : s.AllSeqs (Seq.Rests tn)) : s.round tn = s.schedule tn := by
  refine congrArg (·.schedule tn) (foldl_invariant (I := fun t : Fabric => t = s) ?_ rfl)
  rintro ⟨t, q⟩ - rfl
  unfold advanceSeq
  split
  · rfl
  · next x hx =>
    simp [(h q x hx).inTime, (h q x hx).notCancelling]

/-- Admission, and what a pump calls when every member it prepared may commit. -/
def Call.Steadies (s : Fabric) : Call → Prop
  | .op (.submit _) | .op (.registerWorker _) | .op (.applyCommitReceipt _) | .tick _ | .rehash => True
  | .op (.schedule tn) => s.AllSeqs (Seq.Rests tn)
  | .op (.authorizePrepared prepared) => ∀ pm ∈ prepared.members, pm.isCommitEligible = true ∧ pm.dispatch ≠ 0
  | _ => False

/-- A change of a steady sequence leaves it steady, and gives the slot back with its end and not otherwise. -/
theorem Performs.steady {o : Op} {u : Fabric} {f : Seq → Seq} {free slot : Bool}
    {entry : TerminalEntry} (ho : (Call.op o).Steadies s)
    (hp : Performs s o u (.change q f free slot entry)) (hx : u.seqs.find? q = some x) (h : x.Steady) :
    (f x).Steady ∧ if slot then x.machine.isTerminal = false ∧ (f x).machine.isTerminal = true
      else (f x).machine.isTerminal = x.machine.isTerminal := by
  have hsame : ∀ {y : Seq}, u.seqs.find? q = some y → x = y := fun hy => Option.some.inj (hx.symm.trans hy)
  have hrests : ∀ {tn}, o.boundaryAt = some tn → s.AllSeqs (Seq.Rests tn) := by
    intro tn hat
    cases o with
    | schedule tn' =>
      cases hat
      exact ho
    | advance => exact ho.elim
    | _ => cases hat
  -- the members of a preparation may all commit
  have hunresolved : ∀ {q x mo u}, ¬ Resolves s q x mo u o := by
    intro q x mo u hres
    cases hres with
    | completion => exact ho.elim
    | prepared hturn _ _ _ hv =>
      have helig := (ho _ (mem_of_mem_turns hturn)).1
      rw [(prepareVerdict_noncommit hv).2] at helig
      cases helig
  cases hp with
  | cancelLater hcancel | cancelNow hcancel => cases hcancel <;> exact ho.elim
  | exhaust | attempt | workerDown | disown | abort => exact ho.elim
  | resolve hres | foreign hres => exact absurd hres hunresolved
  | expire hat hfound _ _ hd =>
    rw [(hrests hat _ _ hfound).inTime] at hd
    cases hd
  | cancelDue hat hfound _ hm => exact absurd hm (hrests hat _ _ hfound).notCancelling
  | exhausted hfound _ hc he =>
    rw [(ho _ _ hfound).candidate_unspent hc] at he
    cases he
  | @group tn _ _ _ hdue hx' =>
    obtain rfl := hsame hx'
    have hrests := ho q x hdue.found
    have hgrouped : (x.enterGroup tn).machine = .grouped := by
      rcases hrests.prompt hdue.candidate with hm | hm <;> exact congrArg (·.move .grouped) hm
    refine ⟨.of_idle (.inr (.inl hgrouped)) hrests.idle, ?_⟩
    simp only [Bool.false_eq_true, if_false, hgrouped, SequenceState.live_of_isCandidate hdue.candidate]
    rfl
  | @putBack tn _ _ _ hdue hx' =>
    obtain rfl := hsame hx'
    have hready := Seq.putBack_machine hdue.candidate tn
    refine ⟨.of_idle (.inl (.inl hready)) (ho q _ hdue.found).idle, ?_⟩
    simp only [Bool.false_eq_true, if_false, hready]
    exact (SequenceState.candidate_moves hdue.candidate).1.symm
  | reject _ _ _ =>
    refine ⟨.of_idle ?_ ⟨rfl, rfl, rfl⟩, ?_⟩
    · unfold Prompt
      rw [h.reconciled]
      split
      · exact .inl (.inr rfl)
      · exact h.machine
    · simp only [Bool.false_eq_true, if_false, h.reconciled]
      split
      · next hd => rw [hd]; rfl
      · rfl
  | grant hturn hx' hv =>
    obtain rfl := hsame hx'
    have hdispatch := (ho _ (mem_of_mem_turns hturn)).2
    rw [(prepareVerdict_grant hv).dispatch] at hdispatch
    have hd : x.machine = .dispatched := h.busy (.inr (.inl hdispatch))
    exact ⟨⟨h.machine, fun _ => hd⟩, rfl⟩
  | @finish _ _ r _ _ _ hv hends =>
    obtain rfl := hsame (receiptVerdict_finalize hv).seq
    have hd : x.machine = .dispatched := h.busy (.inr (.inr (receiptVerdict_finalize hv).holds))
    have hmachine := finish_machine hd (u.finishTime r) r
    rw [← hends] at hmachine
    refine ⟨.of_idle ?_ ⟨rfl, rfl, rfl⟩, ?_⟩
    · unfold Prompt
      rw [hmachine]
      cases slot
      · exact .inl (.inr rfl)
      · exact .inr (.inr (.inr rfl))
    · rw [hmachine, hd]
      cases slot
      · rfl
      · exact ⟨rfl, rfl⟩

theorem Seq.ofRequest_steady (req : DecodeRequest) : (ofRequest req).Steady :=
  .of_idle (.inl (.inl rfl)) ⟨rfl, rfl, rfl⟩

namespace Fabric

/-- Every sequence is steady, what is reserved is held, and a tenant's count is the number of its live sequences. -/
structure Steady (s : Fabric) : Prop where
  seqs : s.AllSeqs Seq.Steady
  held : s.Held
  slots : s.SlotsKept

theorem deed_steady {u v : Fabric} {δ : Deed} (hc : c.Steadies s) (hd : Does u δ v) (hp : c.Performs s u δ)
    (h : u.Steady) : v.Steady := by
  have hlossless : Lossless ⟨s, .call c, s⟩ := by
    unfold Lossless
    split
    · next heq =>
      cases heq
      exact fun q x hdue => (hc q x hdue.found).idle.1
    · next heq =>
      cases heq
      exact hc.elim
    · next heq => cases heq
    · trivial
  have hheld := deed_held hlossless hd hp h.held
  have hslots : ∀ {g : Holdings}, v.holdings = g → v.tenantActive = g.accounts.tenantActive :=
    fun heq => congrArg (fun g => g.accounts.tenantActive) heq
  -- the tables are enumerated differently at most
  have same : v.seqs.Reorder u.seqs → v.tenantActive = u.tenantActive → v.Steady := fun hs ht =>
    ⟨fun q x hx => h.seqs q x ((find?_reorder hs q).symm.trans hx), hheld, h.slots.same ht fun u => total_reorder hs _⟩
  cases hd with
  | note hs hh | register hs hh | lose hs hh => exact same (hs ▸ .refl _) (hslots hh)
  | shuffle hs _ hh => exact same hs (hslots hh)
  | enrol hq hs hh =>
    refine ⟨fun j y hy => ?_, hheld, h.slots.enrol hq hs (hslots hh)⟩
    rw [hs, find?_insert] at hy
    split at hy
    · cases hy
      exact Seq.ofRequest_steady _
    · exact h.seqs j y hy
  | change hx hs hh =>
    cases c with
    | op o =>
      obtain ⟨hsteady, hlive⟩ := Performs.steady hc hp hx (h.seqs _ _ hx)
      have hactive := hslots hh
      rw [Holdings.pay_tenantActive] at hactive
      refine ⟨h.seqs.modify hx hs hsteady, hheld, ?_⟩
      split at hlive
      · next hslot =>
        rw [if_pos hslot] at hactive
        exact h.slots.ends hx hs (hp.req _) hlive.1 hlive.2 hactive
      · next hslot =>
        rw [if_neg hslot] at hactive
        refine h.slots.same hactive (activeOf_modify_same hs fun y hy => ?_)
        cases hx.symm.trans hy
        exact ⟨hp.req _, hlive⟩
    | tick | rehash => cases hp
  | @send _ members d _ _ hs hh =>
    cases c with
    | op o =>
      cases hp with
      | @send tn _ _ _ _ _ hsend =>
        -- a member goes from Grouped to Dispatched
        have hmember : ∀ m ∈ members, ∃ x : Seq, u.seqs.find? m = some (x.enterGroup tn) ∧
            (x.enterGroup tn).machine.isTerminal = false ∧
            (x.sent tn d).machine = .dispatched := by
          intro m hm
          obtain ⟨x, hdue, -, hfind⟩ := hsend.member m hm
          exact ⟨x, hfind, (SequenceState.candidate_moves hdue.candidate).1,
            ((hc m x hdue.found).prompt hdue.candidate).sent tn d⟩
        have hfind : ∀ j, v.seqs.find? j =
            if j ∈ members then (u.seqs.find? j).map (dispatchUnder d) else u.seqs.find? j := by
          intro j
          rw [hs, find?_foldl_modify _ hsend.nodup]
        refine ⟨fun j y hy => ?_, hheld, h.slots.same (hslots hh) fun t => total_congr fun j => ?_⟩
        · rw [hfind] at hy
          split at hy
          · next hj =>
            obtain ⟨x, hx, -, hsent⟩ := hmember j hj
            rw [hx] at hy
            cases hy
            exact ⟨.inr (.inr (.inl hsent)), fun _ => hsent⟩
          · exact h.seqs j y hy
        · rw [hfind]
          split
          · next hj =>
            obtain ⟨x, hx, hlive, hsent⟩ := hmember j hj
            rw [hx, Option.map_some, Option.map_some, Option.map_some, hsent, hlive]
            rfl
          · rfl
    | tick | rehash => cases hp

theorem Steady.next (h : s.Steady) {t : Fabric} (hn : Next s c t) (hc : c.Steadies s) : t.Steady :=
  (next_deeds hn).invariant (fun hd hp hu => deed_steady hc hd hp hu) h

theorem Steady.init (cfg : Config) (clock : TimePoint) : (init cfg clock).Steady :=
  ⟨fun q x hx => (by cases hx), init_held cfg clock, fun u => rfl⟩

end Fabric

/-! The last token. -/

/-- A count below a maximum is at most one step away from it. -/
theorem succ_ge_iff {n m : UInt64} (h : n < m) : n + 1 ≥ m ↔ n + 1 = m := by
  have hlt := UInt64.lt_iff_toNat_lt.mp h
  have hsucc : (n + 1).toNat = n.toNat + 1 := by
    rw [UInt64.toNat_add]
    exact Nat.mod_eq_of_lt (Nat.lt_of_le_of_lt hlt m.toNat_lt_size)
  rw [ge_iff_le, UInt64.le_iff_toNat_le, ← UInt64.toNat_inj, hsucc]
  omega

/-- A step of `x` ends it when it produces the last token, if the executor watches for no token of its own. -/
theorem Seq.Counted.endsWith (h : x.Counted) (hunspent : x.budget.exhausted = false) {r : MemberReceipt}
    (fin : TimePoint) (hr : r.terminal = decide (x.generated + 1 ≥ x.generated + x.budget.remaining)) :
    (x.commitToken fin r).endsWith r = decide (x.generated + 1 = x.req.maxGenerationLength) := by
  have hlt : x.generated < x.req.maxGenerationLength := by
    have hmore : ¬ x.budget.generated ≥ x.budget.max := of_decide_eq_false hunspent
    rw [h.max, h.budget] at hmore
    exact UInt64.not_le.mp hmore
  have hremaining : x.generated + x.budget.remaining = x.req.maxGenerationLength := by
    unfold TokenBudget.remaining
    rw [h.max, h.budget, if_neg (UInt64.not_le.mpr hlt), UInt64.add_comm, UInt64.sub_add_cancel]
  have hbudget : (x.commitToken fin r).budget.exhausted = decide (x.generated + 1 ≥ x.req.maxGenerationLength) := by
    show (x.budget.advanced 1).exhausted = _
    rw [TokenBudget.advanced_eq]
    · unfold TokenBudget.exhausted
      rw [h.max, h.budget]
    · rw [h.max, h.budget]
      exact lt_iff_toNat_lt.mp hlt
  unfold Seq.endsWith
  rw [hr, hbudget, hremaining, Bool.or_self]
  exact decide_eq_decide.mpr (succ_ge_iff hlt)

/-- A sequence between two cycles: it has completed with all its tokens, or it can be sent. -/
def Seq.Landed (x : Seq) : Prop :=
  x.machine = .completed ∧ x.generated = x.req.maxGenerationLength ∨ x.Prompt ∧ x.Sendable

theorem Seq.committed_landed {tn fin : TimePoint} {gid : GrantId} {pm : PreparedMember} {r : MemberReceipt}
    (hprompt : x.Prompt) (hx : x.Sendable) (hcounted : x.Counted)
    (hr : r.terminal = decide (x.generated + 1 ≥ x.generated + x.budget.remaining)) :
    (((x.sent tn d).holdGrant gid pm).finish fin r).Landed := by
  generalize hy : (x.sent tn d).holdGrant gid pm = y
  have hmachine : y.machine = .dispatched := by
    rw [← hy]
    exact hprompt.sent tn d
  have hends : (y.commitToken fin r).endsWith r = decide (x.generated + 1 = x.req.maxGenerationLength) := by
    rw [← hy]
    exact hcounted.endsWith hx.2 fin hr
  have hfinish := finish_machine hmachine fin r
  obtain ⟨st, ready, hshape⟩ := finish_shape fin r y
  rw [hends] at hfinish
  by_cases hlast : x.generated + 1 = x.req.maxGenerationLength
  · rw [decide_eq_true hlast, if_pos rfl] at hfinish
    refine .inl ⟨hfinish, ?_⟩
    rw [hshape, ← hy]
    exact hlast
  · rw [decide_eq_false hlast, if_neg Bool.false_ne_true] at hfinish
    refine .inr ⟨.inr hfinish, ?_, ?_⟩
    · rw [hfinish]
      rfl
    · rw [decide_eq_false hlast] at hends
      rw [hshape]
      exact (Bool.or_eq_false_iff.mp hends).2

section
variable {N : Numerics}

/-- A sequence without sampling metadata watches for no token. -/
theorem Host.entryFor_eosEnabled {H : Host N} (hm : m.payload = [])
    (h : ∀ st, H.executor.states.find? m.state.id = some st → st.eosEnabled = false) :
    (H.entryFor m).eosEnabled = false :=
  SeqState.ensureInitialized_eosEnabled hm h

/-! Between two cycles. -/

/-- What a pump needs of the fabric it starts from. -/
structure Fabric.Workload (s : Fabric) : Prop where
  workers : ∀ e ∈ s.standing.workers.entries, e.2.Unlimited
  impartial : s.Impartial
  served : s.AllSeqs fun x => x.req.model ≠ 0 ∧ s.standing.Serves x.req
  patient : s.AllSeqs fun x => x.req.deadline = 0 ∧ x.req.samplingMetadata = []

namespace Host

/-- The host is between two cycles of a pump that started with the fabric `s`. -/
structure Serving (s : Fabric) (H : Host N) : Prop where
  orderly : H.fabric.Orderly
  steady : H.fabric.Steady
  roomy : H.fabric.Roomy
  standing : H.fabric.standing = s.standing
  kept : ∀ q, (H.fabric.seqs.find? q).map Seq.req = (s.seqs.find? q).map Seq.req
  landed : H.fabric.AllSeqs Seq.Landed
  watchless : ∀ σ st, H.executor.states.find? σ = some st → st.eosEnabled = false
  receipts : ∀ i r, H.executor.receiptsByGrant.find? i = some r → i < H.fabric.nextGrant

namespace Serving
variable {s : Fabric} {H : Host N} (h : H.Serving s)
include h

/-- A sequence is one of those the pump started with. -/
theorem origin (hx : H.fabric.seqs.find? q = some x) : ∃ x₀, s.seqs.find? q = some x₀ ∧ x.req = x₀.req := by
  have hkept := h.kept q
  rw [hx, Option.map_some] at hkept
  obtain ⟨x₀, hx₀, hreq⟩ := Option.map_eq_some_iff.mp hkept.symm
  exact ⟨x₀, hx₀, hreq.symm⟩

/-- The clock may move. -/
theorem tick (now : TimePoint) : (H.timed now).Serving s :=
  ⟨h.orderly.next (Next.tick H.fabric now) trivial, h.steady.next (Next.tick H.fabric now) trivial, h.roomy, h.standing,
    h.kept, h.landed, h.watchless, h.receipts⟩

variable (hw : s.Workload) (tn : TimePoint)
include hw

theorem rests : H.fabric.AllSeqs (Seq.Rests tn) := by
  intro q x hx
  obtain ⟨x₀, hx₀, hreq⟩ := h.origin hx
  have hmachine : x.Prompt ∨ x.machine = .completed := (h.landed q x hx).symm.imp And.left And.left
  have hbusy := (h.steady.seqs q x hx).busy
  have hlanded : x.machine ≠ .dispatched := by
    rcases hmachine with (hm | hm) | hm <;> rw [hm] <;> decide
  refine ⟨hmachine, ⟨?_, ?_, ?_⟩, ?_, fun hmore => ?_⟩
  · exact Bool.eq_false_iff.mpr fun hb => hlanded (hbusy (.inl hb))
  · exact not_not.mp fun hb => hlanded (hbusy (.inr (.inl hb)))
  · exact Bool.eq_false_iff.mpr fun hb => hlanded (hbusy (.inr (.inr hb)))
  · simp [Seq.deadlineReached, hreq, (hw.patient q x₀ hx₀).1]
  · exact ((h.landed q x hx).resolve_left fun hdone => hmore hdone.1).2.2

/-- A sequence that can be sent is due. -/
theorem due (hx : H.fabric.seqs.find? q = some x) (hsendable : x.Sendable) : H.fabric.Due tn q x := by
  obtain ⟨x₀, hx₀, hreq⟩ := h.origin hx
  obtain ⟨hmodel, hserves⟩ := hw.served q x₀ hx₀
  exact ⟨hx, hsendable.1, hsendable.2, (h.rests hw tn q x hx).inTime,
    valid_of_standing hw.workers h.standing (hreq ▸ hmodel) (hreq ▸ hserves)⟩

section Pump
variable {took : Dispatch → StepTimes} {ds : List Dispatch} {H' : Host N}
  (hdelivered : DeliveredAll took (H.scheduled tn) (H.fabric.round tn).2 H')
include hdelivered

/-- What becomes of a member, and of the executor's state of it. -/
theorem member (hd : d ∈ (H.fabric.round tn).2) (hm : m ∈ d.members) :
    (∃ x y, H.fabric.seqs.find? m.sequence = some x ∧ H'.fabric.seqs.find? m.sequence = some y ∧ y.req = x.req ∧
      y.Landed) ∧ ∃ st, H'.executor.states.find? m.state.id = some st ∧ st.eosEnabled = false := by
  obtain ⟨x, hx, ⟨hsendable, -⟩, hspec, hafter⟩ := dispatched_sendable tn hd hm
  have hprompt : x.Prompt := by
    refine ((h.landed _ x hx).resolve_left fun hdone => ?_).1
    have hc := hsendable.1
    rw [hdone.1] at hc
    cases hc
  have heos : ((H.scheduled tn).entryFor m).eosEnabled = false := by
    obtain ⟨x₀, hx₀, hreq⟩ := h.origin hx
    refine entryFor_eosEnabled ?_ fun st hst => h.watchless _ st (H.scheduled_executor tn ▸ hst)
    rw [hspec]
    exact (congrArg DecodeRequest.samplingMetadata hreq).trans (hw.patient _ x₀ hx₀).2
  cases hdelivered.served d hd m hm _ hafter with
  | committed proposal gid fin r hv hconf hy hst =>
    have hterminal : r.terminal = decide (x.generated + 1 ≥ x.generated + x.budget.remaining) := by
      rw [hconf.terminal]
      show (((H.scheduled tn).entryFor m).eosEnabled && _ ||
        decide (m.generatedTokens + 1 ≥ m.generatedTokens + m.remainingBudget)) = _
      rw [heos, Bool.false_and, Bool.false_or, hspec]
      rfl
    refine ⟨⟨x, _, hx, hy, ?_, Seq.committed_landed hprompt hsendable (h.orderly.counted _ x hx) hterminal⟩, _,
      hst, heos⟩
    exact Seq.finish_same Seq.req (fun _ _ _ => rfl) ..
  | refused proposal rej now hv hy hst =>
    have hmachine := Seq.refused_machine hsendable.1 tn now d
    exact ⟨⟨x, _, hx, hy, rfl, .inr ⟨hmachine.2 hprompt, hmachine.1, hsendable.2⟩⟩, _, hst, heos⟩
  | hung proposal gid r hv hlow hr hy =>
    rw [scheduled_nextGrant] at hlow
    rw [scheduled_executor] at hr
    exact absurd (h.receipts gid r hr) (Nat.not_lt.mpr hlow)

/-- What becomes of any sequence. -/
theorem after (hx : H.fabric.seqs.find? q = some x) :
    ∃ y, H'.fabric.seqs.find? q = some y ∧ y.req = x.req ∧ y.Landed := by
  by_cases hq : ∃ d ∈ (H.fabric.round tn).2, ∃ m ∈ d.members, m.sequence = q
  · obtain ⟨d, hd, m, hm, rfl⟩ := hq
    obtain ⟨⟨x', y, hx', hy, hreq, hlanded⟩, -⟩ := h.member hw tn hdelivered hd hm
    cases hx.symm.trans hx'
    exact ⟨y, hy, hreq, hlanded⟩
  · have hunsent : ∀ d ∈ (H.fabric.round tn).2, ∀ m ∈ d.members, m.sequence ≠ q :=
      fun d hd m hm heq => hq ⟨d, hd, m, hm, heq⟩
    rw [hdelivered.seqs q hunsent]
    rcases unsent_stayed tn hx hunsent with hy | ⟨hsendable, hy⟩
    · have hrests := h.rests hw tn q x hx
      rw [hrests.boundary, hrests.polled] at hy
      exact ⟨x, hy, rfl, h.landed q x hx⟩
    · have hready := Seq.putBack_machine hsendable.1 tn
      refine ⟨_, hy, rfl, .inr ⟨.inl hready, ?_, hsendable.2⟩⟩
      rw [hready]
      rfl

end Pump

theorem pumpOnce (hl : H.Lawful) (hu : H.Unhindered) (took : Dispatch → StepTimes) :
    (H.pumpOnce took tn).1.Serving s := by
  have hdelivered := hl.deliver tn hu took
  have hround := hl.round hu took tn
  have hrests := h.rests hw tn
  refine ⟨(pumpOnce_extends h.orderly took tn).1, ?_, hround.roomy h.roomy, hround.standing.trans h.standing,
    fun q => ?_, fun q y hy => ?_, fun σ st hst => ?_, fun i r hr => ?_⟩
  · refine hdelivered.kept (fun s prepared hall hs => hs.next (Next.op s (.authorizePrepared prepared)) hall)
      (fun s receipts hs => hs.next (Next.op s (.applyCommitReceipt receipts)) trivial) ?_
    rw [scheduled_fabric, round_rests hrests]
    exact h.steady.next (Next.op _ (.schedule tn)) hrests
  · rw [← h.kept q]
    cases hx : H.fabric.seqs.find? q with
    | none => rw [hround.absent q hx]
    | some x =>
      obtain ⟨y, hy, hreq, -⟩ := h.after hw tn hdelivered hx
      rw [hy, Option.map_some, Option.map_some, hreq]
  · obtain ⟨x, hx⟩ := hround.before hy
    obtain ⟨y', hy', -, hlanded⟩ := h.after hw tn hdelivered hx
    cases hy.symm.trans hy'
    exact hlanded
  · by_cases hσ : ∃ d ∈ (H.fabric.round tn).2, ∃ m ∈ d.members, m.state.id = σ
    · obtain ⟨d, hd, m, hm, rfl⟩ := hσ
      obtain ⟨-, st', hst', heos⟩ := h.member hw tn hdelivered hd hm
      cases hst.symm.trans hst'
      exact heos
    · rw [hdelivered.states σ fun d hd m hm heq => hσ ⟨d, hd, m, hm, heq⟩, scheduled_executor] at hst
      exact h.watchless σ st hst
  · rcases hround.receipts i r hr with hr | hi
    · exact Nat.lt_of_lt_of_le (h.receipts i r hr) hround.grants
    · exact hi

/-- A tick that sends nothing leaves every sequence completed. -/
theorem finished {H' : Host N} (hu : H.Unhindered) (hround : Round tn H (H.fabric.round tn).2 H')
    (h' : H'.Serving s) (hnone : (H.fabric.round tn).2 = []) :
    H'.fabric.AllSeqs fun x => x.machine = .completed ∧ x.generated = x.req.maxGenerationLength := by
  intro q y hy
  refine (h'.landed q y hy).resolve_right fun hopen => ?_
  obtain ⟨x, hx, hc⟩ := hround.carried hu hy ⟨hopen.2, (h'.due hw tn hy hopen.2).served⟩
  rw [round_rests (h.rests hw tn)] at hnone
  exact schedule_progress h.roomy (willing_of_standing hw.workers h.standing)
    (hw.impartial.same h.standing) (h.due hw tn hx hc.sendable.1) hnone

end Serving

/-- The pump comes to an end, with every sequence completed. -/
theorem Serving.terminates {H : Host N} (h : H.Serving s) (hw : s.Workload) (hu : H.Unhindered) (hfit : H.AllFit)
    (hsize : H.fabric.seqs.keys.length * H.fabric.workerIds.length < 2 ^ 64)
    (took : Nat → Dispatch → StepTimes) (now : Nat → TimePoint) (hreg : H.executor.Regular) :
    ∃ fuel H', pumpUntilIdle took now (-1) fuel 0 H = some H' ∧ H'.Serving s ∧
      H'.fabric.AllSeqs fun x => x.machine = .completed ∧ x.generated = x.req.maxGenerationLength := by
  have hnames : ∀ q x, H.fabric.seqs.find? q = some x → q ∈ H.fabric.seqs.keys :=
    fun q x hx => mem_keys_iff.mpr ⟨x, hx⟩
  obtain ⟨j, hj⟩ := exists_offset _ hnames hsize H.fabric.nextDispatch
  refine pumpUntilIdle_returns (WellFounded.prod_lex Nat.lt_wfRel.wf Nat.lt_wfRel.wf)
    (R := fun a G => Fitting H.fabric.seqs.keys a G ∧ G.Serving s) (fun a G took tn ⟨hG, hs⟩ hnone => ?_)
    (fun a G took tn ⟨hG, hs⟩ hsome => ?_) took now (_, j)
    ⟨⟨⟨h.orderly.reachable, hreg⟩, hu, hfit, hnames, hsize, rfl, hj⟩, h⟩ 0
  · have htick := hG.tick tn
    have hnext := (hs.tick tn).pumpOnce hw tn htick.lawful htick.unhindered took
    refine ⟨hnext, (hs.tick tn).finished hw tn htick.unhindered (htick.lawful.round htick.unhindered took tn) hnext ?_⟩
    rw [← hnone]
    exact (pumpOnce_snd took tn _).symm
  · obtain ⟨b, hlt, hb⟩ := (hG.tick tn).round (hG.lawful.roundAt hG.unhindered took tn) hsome
    exact ⟨b, hlt, hb, (hs.tick tn).pumpOnce hw tn (hG.tick tn).lawful (hG.tick tn).unhindered took⟩

end Host
end

/-! The opening: workers, then requests. -/

def Call.Registers : Call → Prop
  | .op (.registerWorker wd) => wd.valid = true → wd.Unlimited
  | .op _ => False
  | .tick _ | .rehash => True

def Call.Submits : Call → Prop
  | .op (.submit _) => True
  | .op _ => False
  | .tick _ | .rehash => True

theorem Call.Registers.namesDispatch (h : c.Registers) : c.NamesDispatch := by
  cases c with
  | op o =>
    cases o with
    | authorizePrepared prepared => exact h.elim
    | _ => trivial
  | _ => trivial

theorem Call.Submits.namesDispatch (h : c.Submits) : c.NamesDispatch := by
  cases c with
  | op o =>
    cases o with
    | authorizePrepared prepared => exact h.elim
    | _ => trivial
  | _ => trivial

namespace Fabric
variable {s t : Fabric}

/-- The workers turn nothing away, and every sequence is as it was admitted, for a model some worker serves. -/
structure Opened (s : Fabric) : Prop where
  workers : ∀ e ∈ s.standing.workers.entries, e.2.Unlimited
  admitted : s.AllSeqs fun x => x = ofRequest x.req
  served : s.AllSeqs fun x => x.req.model ≠ 0 ∧ s.standing.Serves x.req
  roomy : s.Roomy

theorem Opened.init (cfg : Config) (clock : TimePoint) : (init cfg clock).Opened := by
  refine ⟨fun e he => ?_, fun q x hx => ?_, fun q x hx => ?_, fun d v hv => ?_⟩
  · cases he
  · cases hx
  · cases hx
  · cases hv

/-- A change that is only noted. -/
theorem Opened.note (h : s.Opened) (hst : t.standing = s.standing) (hs : t.seqs = s.seqs) (hmem : t.devMem = s.devMem) :
    t.Opened := by
  refine ⟨hst ▸ h.workers, fun q x hx => h.admitted q x (hs ▸ hx), fun q x hx => ?_, ?_⟩
  · rw [hst]
    exact h.served q x (hs ▸ hx)
  · unfold Roomy
    rw [hmem]
    exact h.roomy

/-- Enumeration orders do not matter. -/
theorem Opened.rehash (h : s.Opened) {seqs : Table SequenceId Seq} {workers : Table WorkerId WorkerDescriptor}
    (hseqs : seqs.Reorder s.seqs) (hworkers : workers.Reorder s.workers) :
    ({ s with seqs, workers } : Fabric).Opened := by
  have hfind := find?_reorder hseqs
  have hmem : ∀ e, e ∈ ({ s with seqs, workers } : Fabric).standing.workers.entries ↔ e ∈ s.standing.workers.entries :=
    fun e => (List.Perm.map (fun e => (e.1, e.2.profile)) hworkers).mem_iff
  refine ⟨fun e he => h.workers e ((hmem e).mp he), fun q x hx => h.admitted q x (hfind q ▸ hx), fun q x hx => ?_,
    h.roomy⟩
  obtain ⟨hmodel, e, he, hserves⟩ := h.served q x (hfind q ▸ hx)
  exact ⟨hmodel, e, (hmem e).mpr he, hserves⟩

/-! Registration. -/

theorem Roomy.registerWorker (h : s.Roomy) (hwd : wd.device.memoryBytes = 0) : (s.registerWorker wd).1.Roomy := by
  unfold Fabric.registerWorker
  split
  · exact h
  · intro d v hv
    change (s.devMem.insert _ _).find? d = some v at hv
    rw [find?_insert] at hv
    split at hv
    · cases hv
      show max (s.devMem.getD wd.device.id {}).capacity wd.device.memoryBytes = 0
      rw [h.capacity, hwd]
      rfl
    · exact h d v hv

theorem Opened.registerWorker (h : s.Opened) (hempty : s.seqs.entries = [])
    (hwd : wd.valid = true → wd.Unlimited) : (s.registerWorker wd).1.Opened := by
  have hnone : ∀ {q x}, s.seqs.find? q ≠ some x := by
    intro q x hx
    rw [find?_eq_some_iff, hempty] at hx
    cases hx
  by_cases hvalid : wd.valid = true
  · have hunlimited := hwd hvalid
    have hroomy := h.roomy.registerWorker hunlimited.memory
    simp only [Fabric.registerWorker, hvalid, Bool.not_true, Bool.false_eq_true, if_false] at hroomy ⊢
    refine ⟨fun e he => ?_, fun q x hx => absurd hx hnone, fun q x hx => absurd hx hnone, hroomy⟩
    obtain ⟨w, hw, rfl⟩ := List.mem_map.mp he
    have hfind := find?_eq_some_iff.mpr hw
    change (s.workers.insert wd.id wd).find? w.1 = some w.2 at hfind
    rw [find?_insert] at hfind
    split at hfind
    · cases hfind
      exact ⟨hunlimited.healthy, hunlimited.capacity, hunlimited.memory, hunlimited.devices⟩
    · exact h.workers _ (mem_standing (find?_eq_some_iff.mp hfind))
  · simp only [Fabric.registerWorker, hvalid, Bool.not_false, if_true]
    exact h

theorem Opened.registers (h : s.Opened) (hempty : s.seqs.entries = []) (hn : Next s c t) (hc : c.Registers) :
    t.Opened ∧ t.seqs.entries = [] := by
  cases hn with
  | op o =>
    cases o with
    | registerWorker wd =>
      refine ⟨h.registerWorker hempty hc, ?_⟩
      show (s.registerWorker wd).1.seqs.entries = []
      unfold Fabric.registerWorker
      split
      · exact hempty
      · exact hempty
    | _ => exact hc.elim
  | tick now => exact ⟨h.note rfl rfl rfl, hempty⟩
  | rehash seqs workers hseqs hworkers =>
    refine ⟨h.rehash hseqs hworkers, ?_⟩
    unfold Table.Reorder at hseqs
    rw [hempty] at hseqs
    exact hseqs.eq_nil

/-! Admission. -/

/-- A request that finds its model finds a worker for it. -/
theorem keyForModel_serves (h : (s.keyForModel req).model ≠ 0) : s.standing.Serves req := by
  by_contra hnot
  refine h ?_
  have hnone : s.keyForModel req = {} := by
    unfold keyForModel
    simp only
    rw [List.findSome?_eq_none_iff.mpr fun e he => ?_]
    · rfl
    · split
      · rfl
      · next hdevice =>
        refine List.find?_eq_none.mpr fun k hk hsame => hnot ?_
        refine ⟨_, mem_standing he, ?_, k, hk, of_decide_eq_true hsame⟩
        exact (Classical.em _).imp_right fun h0 => not_not.mp fun hne => hdevice ⟨h0, hne⟩
  rw [hnone]

theorem buildKey_serves (h : (s.buildKey req).model ≠ 0) : s.standing.Serves (s.buildKey req) := by
  unfold buildKey at h ⊢
  generalize (if req.arrival = 0 then { req with arrival := s.clock } else req) = stamped at h ⊢
  simp only at h ⊢
  rcases keyForModel_cases (s := s) stamped with ⟨e, hfound⟩ | ⟨hnull, -⟩
  · obtain ⟨w, hw, hdevice, k, hk, hmodel, hrevision, hadapter⟩ := keyForModel_serves h
    obtain ⟨hmodel', hrevision', hadapter'⟩ := hfound.same
    exact ⟨w, hw, hdevice, k, hk, hmodel.trans hmodel'.symm, hrevision.trans hrevision'.symm,
      hadapter.trans hadapter'.symm⟩
  · rw [hnull] at h
    exact absurd rfl h

theorem Opened.enrol (h : s.Opened) (hq : s.seqs.find? q = none)
    (hmodel : req.model ≠ 0) (hserves : s.standing.Serves req) : (s.enrol req q).1.Opened := by
  have hseqs : (s.enrol req q).1.seqs = s.seqs.insert q (ofRequest req) := by simp [Fabric.enrol, recordEvent, hq]
  have hall : ∀ {P : Seq → Prop}, s.AllSeqs P → P (ofRequest req) → (s.enrol req q).1.AllSeqs P := by
    intro P hP hnew j y hy
    rw [hseqs, find?_insert] at hy
    split at hy
    · cases hy
      exact hnew
    · exact hP j y hy
  exact ⟨h.workers, hall h.admitted rfl, hall h.served ⟨hmodel, hserves⟩, h.roomy⟩

theorem Opened.submit (h : s.Opened) (inp : DecodeRequest) : (s.submit inp).1.Opened := by
  unfold Fabric.submit
  split
  · exact h.note rfl rfl rfl
  · next hv =>
    simp only
    split
    · exact h.note rfl rfl rfl
    · next hmodel =>
      split
      · exact h.note rfl rfl rfl
      · split
        · split
          · exact h.note rfl rfl rfl
          · next hnew => exact h.enrol (Option.not_isSome_iff_eq_none.mp hnew) hmodel (buildKey_serves hmodel)
        · next hzero =>
          rw [buildKey_sequence] at hzero
          exact absurd (validate_sequence hv) hzero

theorem Opened.submits (h : s.Opened) (hn : Next s c t) (hc : c.Submits) : t.Opened := by
  cases hn with
  | op o =>
    cases o with
    | submit req => exact h.submit req
    | _ => exact hc.elim
  | tick now => exact h.note rfl rfl rfl
  | rehash seqs workers hseqs hworkers => exact h.rehash hseqs hworkers

theorem steadies_of_opening (hc : c.Registers ∨ c.Submits) : c.Steadies s := by
  cases c with
  | op o =>
    cases o with
    | submit | registerWorker => trivial
    | _ => exact (hc.elim id id : False).elim
  | _ => trivial

/-- A fabric that has registered workers and then admitted requests. -/
theorem opened_of_run {h₁ h₂ : History} {s₀ : Fabric} (hr : RunsTo h₁ s₀) (hreg : ∀ e ∈ h₁, e.label.Registers)
    (hr' : Run Next s₀ h₂ s) (hsub : ∀ e ∈ h₂, e.label.Submits) : s.Opened ∧ s.Steady ∧ s.Orderly := by
  obtain ⟨cfg, clock, hr⟩ := hr
  have hfirst : s₀.Opened ∧ s₀.seqs.entries = [] :=
    hr.invariant (I := fun s => s.Opened ∧ s.seqs.entries = []) (fun e hn he hi => hi.1.registers hi.2 hn he) hreg
      ⟨Opened.init cfg clock, rfl⟩
  have hall : s.Opened := hr'.invariant (I := Opened) (fun e hn he hi => hi.submits hn he) hsub hfirst.1
  have hopening : ∀ e ∈ h₁ ++ h₂, e.label.Registers ∨ e.label.Submits :=
    fun e he => (List.mem_append.mp he).imp (hreg e) (hsub e)
  refine ⟨hall, ?_, h₁ ++ h₂, ⟨cfg, clock, hr.append hr'⟩, fun e he => ?_⟩
  · exact (hr.append hr').invariant (fun e hn he hi => hi.next hn (steadies_of_opening he)) hopening (.init cfg clock)
  · exact (hopening e he).elim Call.Registers.namesDispatch Call.Submits.namesDispatch

end Fabric

/-! End to end. -/

section
variable {N : Numerics}

namespace Host

section Start
variable (h : s.Opened)
include h

/-- A fabric that only admitted requests and an executor that knows nothing of them. -/
theorem serving_of_opened (hs : s.Steady) (ho : s.Orderly)
    (hmore : s.AllSeqs fun x => x.req.pregenerated < x.req.maxGenerationLength) :
    ({ fabric := s, executor := {} } : Host N).Serving s := by
  refine ⟨ho, hs, h.roomy, rfl, fun q => rfl, fun q x hx => ?_, fun σ st hst => ?_, fun i r hr => ?_⟩
  rotate_left
  · cases hst
  · cases hr
  have hnew := h.admitted q x hx
  have hready : x.machine = .ready := by rw [hnew]; rfl
  have hcounted := ho.counted q x hx
  have hgeneration : x.generation = 1 := by rw [hnew]; rfl
  refine .inr ⟨.inl hready, ?_, decide_eq_false fun hge => ?_⟩
  · rw [hready]
    rfl
  · rw [hcounted.max, hcounted.budget, ge_iff_le, le_iff_toNat_le] at hge
    have hlt := lt_iff_toNat_lt.mp (hmore q x hx)
    have hcount := hcounted.count
    rw [hgeneration] at hcount
    omega

theorem fit_of_opened : ({ fabric := s, executor := {} } : Host N).AllFit := by
  intro q x hx _
  refine ⟨rfl, SeqState.first_tokens _, fun hest => ?_⟩
  rw [h.admitted q x hx] at hest
  cases hest

end Start

theorem unhindered_of_distinct (hdist : s.DistinctStates) : ({ fabric := s, executor := {} } : Host N).Unhindered where
  apart q q' x x' hx _ hx' _ heq := hdist q q' x x' hx hx' heq
  clear q x _ _ := fun hpending => by cases hpending
  receipts := .inl fun i r hr => by cases hr

/-- What was generated, once every sequence has all its tokens. -/
theorem Serving.generatedTokens {H : Host N} (h : H.Serving s)
    (hall : H.fabric.AllSeqs fun x => x.generated = x.req.maxGenerationLength)
    (hle : s.AllSeqs fun x => x.req.pregenerated ≤ x.req.maxGenerationLength) : H.fabric.stats.generatedTokens =
      s.seqs.total fun _ x => (x.req.maxGenerationLength - x.req.pregenerated).toNat := by
  rw [(reachable_conserved h.orderly.reachable).tokens]
  refine total_congr fun q => ?_
  cases hy : H.fabric.seqs.find? q with
  | none =>
    have hkept := h.kept q
    rw [hy] at hkept
    rw [Option.map_eq_none_iff.mp hkept.symm]
    rfl
  | some y =>
    obtain ⟨x, hx, hreq⟩ := h.origin hy
    rw [hx, Option.map_some, Option.map_some, UInt64.toNat_sub_of_le _ _ (hle q x hx), ← hreq]
    have hcount := (h.orderly.counted q y hy).count
    rw [hall q y hy] at hcount
    have hdiff : ∀ m p g : Nat, m + 1 = p + g → g - 1 = m - p := by omega
    exact congrArg some (hdiff _ _ _ hcount)

end Host

/-- Workers that turn nothing away are registered, then requests submitted. A pump without a limit on its cycles
    comes to an end, whatever the clock shows and however long a step takes, and then every sequence has completed
    with all its tokens, they are all counted, nothing is reserved and no tenant holds a slot. -/
theorem pump_completes {h₁ h₂ : History} {s₀ s : Fabric} (hr : RunsTo h₁ s₀) (hreg : ∀ e ∈ h₁, e.label.Registers)
    (hr' : Run Next s₀ h₂ s) (hsub : ∀ e ∈ h₂, e.label.Submits) (hfair : s.Impartial)
    (hreqs : s.AllSeqs fun x => x.req.deadline = 0 ∧ x.req.samplingMetadata = [] ∧
      x.req.pregenerated < x.req.maxGenerationLength)
    (hdist : s.DistinctStates) (hsize : s.seqs.entries.length * s.workers.entries.length < 2 ^ 64)
    (took : Nat → Dispatch → StepTimes) (now : Nat → TimePoint) :
    ∃ fuel, ∃ H : Host N, Host.pumpUntilIdle took now (-1) fuel 0 { fabric := s, executor := {} } = some H ∧
      (∀ q, (H.fabric.seqs.find? q).map Seq.req = (s.seqs.find? q).map Seq.req) ∧
      (H.fabric.AllSeqs fun x => x.machine = .completed ∧ x.generated = x.req.maxGenerationLength) ∧
      H.fabric.stats.generatedTokens =
        (s.seqs.total fun _ x => (x.req.maxGenerationLength - x.req.pregenerated).toNat) ∧
      H.fabric.reservations.entries = [] ∧ ∀ u, H.fabric.tenantActive.getD u 0 = 0 := by
  obtain ⟨hopened, hsteady, horderly⟩ := opened_of_run hr hreg hr' hsub
  have hw : s.Workload := by
    refine ⟨hopened.workers, hfair, hopened.served, fun q x hx => ?_⟩
    obtain ⟨hdeadline, hmetadata, -⟩ := hreqs q x hx
    exact ⟨hdeadline, hmetadata⟩
  have hserving : ({ fabric := s, executor := {} } : Host N).Serving s :=
    Host.serving_of_opened hopened hsteady horderly fun q x hx => (hreqs q x hx).2.2
  obtain ⟨fuel, H, hrun, hH, hdone⟩ := hserving.terminates hw (Host.unhindered_of_distinct hdist)
    (Host.fit_of_opened hopened) (by simpa [keys, workerIds, standing, map] using hsize)
    took now Executor.Regular.init
  refine ⟨fuel, H, hrun, hH.kept, hdone, hH.generatedTokens (fun q x hx => (hdone q x hx).2)
    fun q x hx => UInt64.le_of_lt (hreqs q x hx).2.2, ?_, fun u => ?_⟩
  · exact hH.steady.held.charged.empty fun q x hx => (hH.rests hw 0 q x hx).idle.1
  · have hended : H.fabric.AllSeqs fun x => x.machine.isTerminal = true :=
      fun q x hx => congrArg SequenceState.isTerminal (hdone q x hx).1
    rw [hH.steady.slots u, activeOf_ended hended]
    rfl

end

theorem pump_completes_sample :
    ∃ fuel, ∃ H : Host numerics, Host.pumpUntilIdle (fun _ _ => took) Int.ofNat (-1) fuel 0
        { fabric := start.execAll [.registerWorker (worker 1 1), .submit request], executor := {} } =
          some H ∧
      (∃ x, H.fabric.seqs.find? 1 = some x ∧ x.machine = .completed ∧ x.generated = 4) ∧
      H.fabric.stats.generatedTokens = 4 := by
  have hkeys : (start.execAll [.registerWorker (worker 1 1), .submit request]).seqs.keys = [1] := by
    decide
  have hone : ∀ q x, (start.execAll [.registerWorker (worker 1 1), .submit request]).seqs.find? q =
      some x → q = 1 := by
    intro q x hx
    have hq := mem_keys_iff.mpr ⟨x, hx⟩
    rw [hkeys] at hq
    exact List.mem_singleton.mp hq
  obtain ⟨fuel, H, hrun, hkept, hdone, htokens, -, -⟩ := pump_completes (N := numerics)
    (runsTo [.registerWorker (worker 1 1)])
    (by
      intro e he
      obtain rfl := List.mem_singleton.mp he
      exact fun _ => ⟨rfl, rfl, rfl, by decide⟩)
    (trace_run (start.execAll [.registerWorker (worker 1 1)]) [.submit request])
    (by
      intro e he
      obtain rfl := List.mem_singleton.mp he
      trivial)
    ⟨rfl, rfl⟩
    (by
      intro q x hx
      obtain rfl := hone q x hx
      cases hx
      exact ⟨rfl, rfl, by decide⟩)
    (fun q q' x x' hx hx' _ => (hone q x hx).trans (hone q' x' hx').symm) (by decide)
    (fun _ _ => took) Int.ofNat
  refine ⟨fuel, H, hrun, ?_, htokens⟩
  obtain ⟨x, hx, hreq⟩ := Option.map_eq_some_iff.mp ((hkept 1).trans (show _ = some _ from rfl))
  obtain ⟨hmachine, hgenerated⟩ := hdone 1 x hx
  refine ⟨x, hx, hmachine, hgenerated.trans ?_⟩
  rw [hreq]
  rfl

end DecodeFabric
