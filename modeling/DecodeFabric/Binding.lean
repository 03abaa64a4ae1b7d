import DecodeFabric.Ledger

/- What binds a grant to the dispatch in flight.

   `authorize_prepared` checks the epoch, boot, attempt, generation and dispatch id a member
   carries, but it neither asks whether the sequence is in flight nor compares the message
   header with anything, and the grant is made out in the header's name. A sequence that was
   never dispatched has null ids, which a member can simply repeat. `grants_bound_iff` says which
   checks are missing: with them, and only with them, every grant is bound. -/
namespace DecodeFabric
open Lib Fabric
variable {s : Fabric} {prepared : PreparedDecode} {pm : PreparedMember} {x : Seq}

/-- `g` is a grant for what `x` has in flight in the fabric `s`. -/
structure CommitGrant.BoundTo (g : CommitGrant) (s : Fabric) (x : Seq) : Prop where
  inflight : x.hasInflight = true
  named : x.inFlightDispatch ≠ 0
  dispatch : g.dispatch = x.inFlightDispatch
  generation : g.generation = x.inFlightGeneration
  attempt : g.attempt = x.currentAttempt
  epoch : g.epoch = x.inFlightEpoch
  current : x.inFlightEpoch = s.epoch
  worker : g.worker = x.inFlightWorker
  boot : g.workerBoot = x.inFlightWorkerBoot

/-- The checks `authorize_prepared` does not make: the sequence is in flight since the current epoch,
    and the header names the worker it is in flight on. -/
structure PreparedDecode.Speaks (prepared : PreparedDecode) (s : Fabric) (x : Seq) : Prop where
  inflight : x.hasInflight = true
  current : x.inFlightEpoch = s.epoch
  epoch : prepared.epoch = x.inFlightEpoch
  worker : prepared.worker = x.inFlightWorker
  boot : prepared.workerBoot = x.inFlightWorkerBoot

/-! A sequence in flight has a dispatch id. -/

def Seq.Armed (x : Seq) : Prop := x.hasInflight = true → x.inFlightDispatch ≠ 0

theorem SeqOp.armed {o : SeqOp} (hg : o.Guard s x) (h : x.Armed) : (o.apply x).Armed := by
  cases o with
  | release | moveTo st | retire st | rollBackTokens | beginAttempt a now | enterGroup tn => exact h
  | workerDown now | disown | reconcile now => exact fun hh => (Bool.false_ne_true hh).elim
  | dispatchUnder d => exact fun _ => hg.2.1
  | resolve cfg a now mo =>
    have hdown := Seq.resolve_same Seq.hasInflight (fun _ _ _ _ _ _ _ => rfl) cfg a now mo x
    exact fun hh => (Bool.false_ne_true (hdown.symm.trans hh)).elim

theorem armed_kept : Kept (fun _ => True) Seq.Armed where
  seq _ hg h := SeqOp.armed hg h
  enrol _ := fun hh => (Bool.false_ne_true hh).elim
  issue _ _ h := h
  finalize _ _ := fun hh => (Bool.false_ne_true hh).elim
  abort _ _ := fun hh => (Bool.false_ne_true hh).elim

theorem reachable_armed (hs : Reachable s) : s.AllSeqs Seq.Armed := armed_kept.reachable hs

/-- The sequences stay armed from turn to turn of `authorize_prepared`. -/
theorem armed_at_turn (hs : s.AllSeqs Seq.Armed) (prepared : PreparedDecode) :
    ∀ p ∈ turns (fun t pm => (authorizeMember prepared t pm).1) s prepared.members,
      p.1.AllSeqs Seq.Armed := by
  refine invariant_at_turn (I := fun s : Fabric => s.AllSeqs Seq.Armed) (fun t pm hpm ht => ?_) hs
  exact (t.authorizeMember_mayPerform hpm).invariant (I := fun s => s.AllSeqs Seq.Armed)
    (fun hm _ h => micro_allSeqs armed_kept hm (.inr trivial) h) ht

/-! The grants of one message. -/

/-- A granted member passed the checks, and its grant is the one made out for it. -/
theorem authorizeMember_hasGrant (hq : s.seqs.find? pm.sequence = some x) :
    (authorizeMember prepared s pm).2.hasGrant = true ↔ s.prepareVerdict x pm = .grant := by
  unfold authorizeMember
  rw [hq]
  cases hv : s.prepareVerdict x pm <;> simp [hv, abortReply]

theorem authorizeMember_grant (hq : s.seqs.find? pm.sequence = some x) (hv : s.prepareVerdict x pm = .grant) :
    (authorizeMember prepared s pm).2.grant = makeGrant s.nextGrant prepared pm := by
  simp [authorizeMember, hq, hv]

/-- Every grant issued for the message is bound to what its sequence has in flight at that turn. -/
def Fabric.BindsGrants (s : Fabric) (prepared : PreparedDecode) : Prop :=
  ∀ p ∈ turns (fun t pm => (authorizeMember prepared t pm).1) s prepared.members,
    ∀ x, p.1.seqs.find? p.2.sequence = some x → (authorizeMember prepared p.1 p.2).2.hasGrant = true →
      (authorizeMember prepared p.1 p.2).2.grant.BoundTo p.1 x

theorem grants_bound_iff {s : Fabric} (hs : Reachable s) (prepared : PreparedDecode) : s.BindsGrants prepared ↔
      ∀ p ∈ turns (fun t pm => (authorizeMember prepared t pm).1) s prepared.members,
        ∀ x, p.1.seqs.find? p.2.sequence = some x → p.1.prepareVerdict x p.2 = .grant → prepared.Speaks p.1 x := by
  constructor
  · intro h p hp x hx hv
    have hb := h p hp x hx ((authorizeMember_hasGrant hx).mpr hv)
    rw [authorizeMember_grant hx hv] at hb
    exact ⟨hb.inflight, hb.current, hb.epoch, hb.worker, hb.boot⟩
  · intro h p hp x hx hg
    have hv := (authorizeMember_hasGrant hx).mp hg
    have hgr := prepareVerdict_grant hv
    have hsp := h p hp x hx hv
    have harmed := armed_at_turn (reachable_armed hs) prepared p hp _ x hx
    rw [authorizeMember_grant hx hv]
    exact
      { inflight := hsp.inflight
        named := harmed hsp.inflight
        dispatch := hgr.dispatch
        generation := hgr.generation
        attempt := hgr.attempt
        epoch := hsp.epoch
        current := hsp.current
        worker := hsp.worker
        boot := hsp.boot }

theorem grants_bound_iff_dispatched : (Sample.start.execAll Sample.dispatched).BindsGrants Sample.prepared := by
  refine (grants_bound_iff ⟨_, Sample.runsTo Sample.dispatched⟩ Sample.prepared).mpr ?_
  intro p hp x hx _
  simp only [Sample.prepared, turns, List.mem_singleton] at hp
  subst hp
  have hx' : x = _ := (Option.some.inj hx).symm
  subst hx'
  exact ⟨by decide, by decide, by decide, by decide, by decide⟩

/-- A member of a sequence that was never dispatched, repeating its null ids, under a header naming no worker. -/
def Sample.nullMember : PreparedDecode :=
  { epoch := 7, members := [{ Sample.member with dispatch := 0, generation := 0, worker := 0, workerBoot := 0 }] }

/-- A member of the live dispatch under the header of another worker. -/
def Sample.foreignHeader : PreparedDecode := { Sample.prepared with worker := 2, workerBoot := 5 }

def Sample.submitted : List Op := [.registerWorker (Sample.worker 1 1), .submit Sample.request]

theorem unbound_grants_issued : (Reachable (Sample.start.execAll Sample.submitted) ∧
      ¬ (Sample.start.execAll Sample.submitted).BindsGrants Sample.nullMember) ∧
    (Reachable (Sample.start.execAll Sample.dispatched) ∧
      ¬ (Sample.start.execAll Sample.dispatched).BindsGrants Sample.foreignHeader) := by
  refine ⟨⟨⟨_, Sample.runsTo _⟩, fun h => ?_⟩, ⟨⟨_, Sample.runsTo _⟩, fun h => ?_⟩⟩
  · have hb := h (Sample.start.execAll Sample.submitted, _) (List.mem_singleton.mpr rfl) _ rfl (by decide)
    exact absurd hb.inflight (by decide)
  · have hb := h (Sample.start.execAll Sample.dispatched, _) (List.mem_singleton.mpr rfl) _ rfl (by decide)
    exact absurd hb.worker (by decide)

end DecodeFabric
