import DecodeFabric.Reservations

/- What is in flight.

   A sequence goes in flight when a tick dispatches it, and comes out of flight in one of two ways: a message lands it
   (`Op.Lands`: an outcome, a refused or non-committing prepared member, a receipt, an abort), or its worker is marked
   dead. Between the two its dispatch, its worker and its state stay what they were (`Fares`, `Performs.fares`). A
   sequence landed anywhere in a call is out of flight at its end (`lands_down`), and so are all sequences of a dead
   worker (`markWorkerDead_down`).

   Dispatches are known by their ids, which a lifetime hands out in order (`dispatchesOf_numbered`). -/
namespace DecodeFabric
open Lib Table Fabric DecodeFabric.Seq
variable {s u v : Fabric} {o : Op} {x y : Seq} {f : Seq → Seq} {q : SequenceId}

/-! Trips. -/

/-- What stays of a sequence while it is in flight. -/
structure Seq.SameTrip (y x : Seq) : Prop where
  hasInflight : y.hasInflight = x.hasInflight
  inFlightDispatch : y.inFlightDispatch = x.inFlightDispatch
  inFlightWorker : y.inFlightWorker = x.inFlightWorker
  state : y.state = x.state

theorem Seq.SameTrip.refl (x : Seq) : x.SameTrip x := ⟨rfl, rfl, rfl, rfl⟩

theorem Seq.SameTrip.trans {z : Seq} (h₁ : y.SameTrip x) (h₂ : z.SameTrip y) : z.SameTrip x :=
  ⟨h₂.hasInflight.trans h₁.hasInflight, h₂.inFlightDispatch.trans h₁.inFlightDispatch,
    h₂.inFlightWorker.trans h₁.inFlightWorker, h₂.state.trans h₁.state⟩

theorem Seq.SameTrip.growth (h : y.SameTrip x) : y.growth = x.growth := by
  unfold Seq.growth
  rw [h.state]

theorem Seq.preserved_trip (cfg : Config) (x : Seq) :
    (x.preserved cfg).SameTrip x ∧ (x.preserved cfg).reservation = x.reservation := by
  obtain ⟨generated, hx⟩ := preserved_shape cfg x
  rw [hx]
  exact ⟨⟨rfl, rfl, rfl, rfl⟩, rfl⟩

/-- At some turn of the operation, with the fabric at `u`, a message takes sequence `q`, found as `x`, out of flight. -/
inductive Op.Lands (s u : Fabric) (q : SequenceId) (x : Seq) : Op → Prop
  | outcome {result : DecodeExecutionResult} {mo : MemberOutcome} :
      (u, mo) ∈ turns (applyOutcome result) s result.outcomes → mo.sequence = q → u.seqs.find? q = some x →
      (∀ why, u.completionVerdict result x mo ≠ .ignore why) → Lands s u q x (.applyCompletion result)
  | member {prepared : PreparedDecode} {pm : PreparedMember} :
      (u, pm) ∈ turns (fun t pm => (authorizeMember prepared t pm).1) s prepared.members → pm.sequence = q →
      u.seqs.find? q = some x → u.prepareVerdict x pm ≠ .grant → Lands s u q x (.authorizePrepared prepared)
  | receipt {receipts : ReceiptDecode} {r : MemberReceipt} :
      (u, r) ∈ turns applyReceipt s receipts.receipts → r.sequence = q → u.receiptVerdict r = .finalize x →
      Lands s u q x (.applyCommitReceipt receipts)
  | abort {a : AbortPrepared} : u = s → a.sequence = q → u.seqs.find? q = some x → x.hasInflightGrant = true →
      x.inFlightProposal = a.proposal → Lands s u q x (.abortPrepared a)

/-- The turns in which an operation takes sequence `q`, found as `x`, out of flight: a message lands it, or its
    worker is marked dead. -/
inductive Op.Takes (s u : Fabric) (q : SequenceId) (x : Seq) (o : Op) : Prop
  | landing : o.Lands s u q x → Takes s u q x o
  | death {id : WorkerId} : o = .markWorkerDead id → s.seqs.find? q = some x → x.hasInflight = true →
      x.inFlightWorker = id → Takes s u q x o

/-- The operation ends sequence `q`, found as `x`, on the spot: it is cancelled, expired or out of budget. -/
inductive Op.Retires (s : Fabric) (q : SequenceId) (x : Seq) : Op → Prop
  | cancel {o : Op} : o.Cancels s q → x.machine.isTerminal = false → x.machine ≠ .cancelRequested →
      ¬ x.machine.deferred → Retires s q x o
  | expire {o : Op} {tn : TimePoint} : o.boundaryAt = some tn → x.machine.isTerminal = false →
      x.deadlineReached tn = true → Retires s q x o
  | cancelDue {o : Op} {tn : TimePoint} : o.boundaryAt = some tn → x.machine = .cancelRequested → Retires s q x o
  | exhausted {tn : TimePoint} : x.machine.isCandidate = true → x.budget.exhausted = true →
      Retires s q x (.schedule tn)

/-- A retryable failure in a prepared member names `q`, which is another sequence than the member's. -/
inductive Op.Misnames (q : SequenceId) : Op → Prop
  | mk {prepared : PreparedDecode} {pm : PreparedMember} : pm ∈ prepared.members →
      pm.outcome.kind = .retryableFailure → pm.outcome.sequence = q → pm.sequence ≠ q →
      Misnames q (.authorizePrepared prepared)

/-- What a change makes of the flight of the sequence it finds: `x` becomes `y`. -/
inductive Fares (s : Fabric) (o : Op) (u : Fabric) (q : SequenceId) (x y : Seq) (free : Bool) : Prop
  | taken : y.hasInflight = false → y.reservation = 0 → o.Takes s u q x → Fares s o u q x y free
  | kept : y.SameTrip x → y.reservation = x.reservation → free = false → Fares s o u q x y free
  | retired : y.SameTrip x → y.reservation = 0 → s.seqs.find? q = some x → o.Retires s q x → Fares s o u q x y free
  | released : y.SameTrip x → y.reservation = 0 → o.Misnames q → Fares s o u q x y free

theorem Performs.fares {free slot : Bool}
    {entry : TerminalEntry} (hp : Performs s o u (.change q f free slot entry))
    (hx : u.seqs.find? q = some x) : Fares s o u q x (f x) free := by
  -- what is found in `u` is what the operation saw
  have hsame : ∀ {y : Seq}, u.seqs.find? q = some y → x = y := fun hy => Option.some.inj (hx.symm.trans hy)
  cases hp with
  | cancelLater | group | putBack | grant => exact .kept ⟨rfl, rfl, rfl, rfl⟩ rfl rfl
  | exhaust | attempt =>
    obtain ⟨⟨h1, h2, h3, h4⟩, h5⟩ := preserved_trip s.cfg x
    exact .kept ⟨h1, h2, h3, h4⟩ h5 rfl
  | cancelNow hcancel hfound hlive hnot hnow =>
    obtain rfl := hsame hfound
    exact .retired ⟨rfl, rfl, rfl, rfl⟩ rfl hfound (.cancel hcancel hlive hnot hnow)
  | expire hb hfound hx' hlive hdead =>
    obtain rfl := hsame hx'
    exact .retired ⟨rfl, rfl, rfl, rfl⟩ rfl hfound (.expire hb hlive hdead)
  | cancelDue hb hfound hx' hst =>
    obtain rfl := hsame hx'
    exact .retired ⟨rfl, rfl, rfl, rfl⟩ rfl hfound (.cancelDue hb hst)
  | exhausted hfound hx' hcand hspent =>
    obtain rfl := hsame hx'
    exact .retired ⟨rfl, rfl, rfl, rfl⟩ rfl hfound (.exhausted hcand hspent)
  | workerDown hfound hx' hup hwk =>
    obtain rfl := hsame hx'
    exact .taken rfl rfl (.death rfl hfound hup hwk)
  | disown hturn hx' hv =>
    obtain rfl := hsame hx'
    refine .taken rfl rfl (.landing (.outcome hturn rfl hx fun why heq => ?_))
    rw [hv] at heq
    cases heq
  | reject hturn hx' hv =>
    obtain rfl := hsame hx'
    refine .taken rfl rfl (.landing (.member hturn rfl hx fun heq => ?_))
    rw [hv] at heq
    cases heq
  | abort hx' hgrant hproposal =>
    obtain rfl := hsame hx'
    exact .taken rfl rfl (.landing (.abort rfl rfl hx hgrant hproposal))
  | @resolve _ _ _ _ mo hres =>
    have hdown := resolve_grounded u.cfg u.mintAttempt u.clock mo x
    refine .taken hdown.hasInflight hdown.reservation (.landing ?_)
    cases hres with
    | completion hturn hq hx' hv =>
      obtain rfl := hsame hx'
      refine .outcome hturn hq hx fun why heq => ?_
      rw [hv] at heq
      cases heq
    | prepared hturn hq hout hx' hv =>
      obtain rfl := hsame hx'
      refine .member hturn hq hx fun heq => ?_
      rw [hv] at heq
      cases heq
  | @finish _ _ r _ _ hturn hfin hends =>
    have hdown := finish_grounded (u.finishTime r) r x
    obtain rfl := hsame (receiptVerdict_finalize hfin).seq
    exact .taken hdown.hasInflight hdown.reservation (.landing (.receipt hturn rfl hfin))
  | foreign hres hne hkind =>
    refine .released ⟨rfl, rfl, rfl, rfl⟩ rfl ?_
    cases hres with
    | completion _ heq => exact absurd heq hne
    | prepared hturn heq hout =>
      subst hout
      exact .mk (mem_of_mem_turns hturn) hkind rfl fun hq => hne (hq.symm.trans heq)

/-- A change takes the sequence out of flight or leaves its trip alone. -/
theorem Fares.trip {free : Bool} (h : Fares s o u q x y free) : y.hasInflight = false ∨ y.SameTrip x := by
  cases h with
  | taken hdown _ _ => exact .inl hdown
  | kept htrip _ _ | retired htrip _ _ _ | released htrip _ _ => exact .inr htrip

namespace Fabric

/-- Whoever is in flight in `t` was so in `s`, on the same trip. -/
def TripsFrom (s t : Fabric) : Prop :=
  ∀ q y, t.seqs.find? q = some y → y.hasInflight = true → ∃ x, s.seqs.find? q = some x ∧ y.SameTrip x

/-- Sequence `q` is not in flight. -/
def Down (s : Fabric) (q : SequenceId) : Prop := ∀ x, s.seqs.find? q = some x → x.hasInflight = false

variable {s t u : Fabric} {q : SequenceId}

theorem TripsFrom.of_find? (h : ∀ q, t.seqs.find? q = s.seqs.find? q) : s.TripsFrom t :=
  fun q y hy _ => ⟨y, (h q).symm.trans hy, .refl y⟩

theorem TripsFrom.refl (s : Fabric) : s.TripsFrom s := .of_find? fun _ => rfl

theorem TripsFrom.trans (h₁ : s.TripsFrom t) (h₂ : t.TripsFrom u) : s.TripsFrom u := by
  intro q z hz hup
  obtain ⟨y, hy, hzy⟩ := h₂ q z hz hup
  obtain ⟨x, hx, hyx⟩ := h₁ q y hy (hzy.hasInflight ▸ hup)
  exact ⟨x, hx, hyx.trans hzy⟩

theorem TripsFrom.down (h : s.TripsFrom t) (hq : s.Down q) : t.Down q := by
  intro y hy
  by_contra hup
  obtain ⟨x, hx, hyx⟩ := h q y hy (Bool.eq_true_of_not_eq_false hup)
  exact hup (hyx.hasInflight.trans (hq x hx))

/-- A change that takes the sequence out of flight or leaves its trip alone. -/
theorem TripsFrom.modify (hx : s.seqs.find? q = some x) (hs : t.seqs = s.seqs.modify q f)
    (hf : (f x).hasInflight = false ∨ (f x).SameTrip x) : s.TripsFrom t := by
  intro j y hy hup
  rw [hs] at hy
  rcases find?_modify_of_some hx hy with ⟨rfl, rfl⟩ | ⟨-, hy⟩
  · rcases hf with hdown | hsame
    · rw [hdown] at hup
      cases hup
    · exact ⟨x, hx, hsame⟩
  · exact ⟨y, hy, .refl y⟩

theorem TripsFrom.insert {req : DecodeRequest} (hs : t.seqs = s.seqs.insert q (ofRequest req)) : s.TripsFrom t := by
  intro j y hy hup
  rw [hs, find?_insert] at hy
  split at hy
  · cases hy
    cases hup
  · exact ⟨y, hy, .refl y⟩

theorem Down.of_modify {w : Table SequenceId Seq} (hs : t.seqs = w.modify q f)
    (hf : ∀ x, (f x).hasInflight = false) : t.Down q := by
  intro y hy
  rw [hs, find?_modify_self] at hy
  obtain ⟨x, -, rfl⟩ := Option.map_eq_some_iff.mp hy
  exact hf x

end Fabric

/-- Only ticks put sequences in flight. -/
theorem deed_trips {d : Deed} (ho : ∀ tn, o ≠ .schedule tn) (hd : Does u d v)
    (hp : Performs s o u d) : u.TripsFrom v := by
  cases hd with
  | note hs _ | register hs _ | lose hs _ => exact .of_find? fun _ => by rw [hs]
  | shuffle hs _ _ => exact .of_find? (find?_reorder hs)
  | enrol _ hs _ => exact .insert hs
  | change hx hs _ => exact .modify hx hs (hp.fares hx).trip
  | send =>
    cases hp with
    | send => exact absurd rfl (ho _)

theorem Deeds.trips (h : Deeds (Performs s o) u v) (ho : ∀ tn, o ≠ .schedule tn) : u.TripsFrom v :=
  h.invariant (I := u.TripsFrom) (fun hd hp hu => hu.trans (deed_trips ho hd hp)) (.refl u)

/-! Landings. -/

theorem Op.Lands.not_schedule (h : o.Lands s u q x) (tn : TimePoint) : o ≠ .schedule tn := by
  rintro rfl
  cases h

theorem Fabric.resolveNoncommit_down (hx : u.seqs.find? q = some x)
    (mo : MemberOutcome) : (u.resolveNoncommit q x mo).Down q :=
  Down.of_modify (resolveNoncommit_seqs hx mo) fun y => (resolve_grounded _ _ _ _ y).hasInflight

/-- A sequence that is landed in a call is not in flight after it. -/
theorem lands_down (h : o.Lands s u q x) : (s.exec o).Down q := by
  cases h with
  | @outcome result mo hturn hq hx hv =>
    subst hq
    have hafter : (applyOutcome result u mo).Down mo.sequence := by
      unfold applyOutcome
      simp only [hx]
      split
      · next why hignore => exact absurd hignore (hv why)
      · exact Fabric.Down.of_modify ((rejectStale_seqs _ _ _ _).trans (modifySeq_seqs _ _ _)) fun _ => rfl
      · exact resolveNoncommit_down hx mo
    have hrest : Deeds (Performs s (.applyCompletion result)) (applyOutcome result u mo)
        (s.exec (.applyCompletion result)) := Path.rest (fun p hp => applyOutcome_deeds hp) hturn
    exact (hrest.trips fun _ htick => by cases htick).down hafter
  | @member prepared pm hturn hq hx hv =>
    subst hq
    have hafter : (authorizeMember prepared u pm).1.Down pm.sequence := by
      unfold authorizeMember
      simp only [hx]
      split
      · exact Fabric.Down.of_modify (rejectMember_seqs _ _ x _) fun _ => rfl
      · exact resolveNoncommit_down hx _
      · next hgrant => exact absurd hgrant hv
    have hrest : Deeds (Performs s (.authorizePrepared prepared)) (authorizeMember prepared u pm).1
        (s.exec (.authorizePrepared prepared)) := by
      simp only [exec, authorizePrepared_eq_foldl]
      exact Path.rest (fun p hp => authorizeMember_deeds hp) hturn
    exact (hrest.trips fun _ htick => by cases htick).down hafter
  | @receipt receipts r hturn hq hv =>
    subst hq
    have hafter : (applyReceipt u r).Down r.sequence := by
      unfold applyReceipt
      rw [hv]
      exact Fabric.Down.of_modify (finalize_seqs _ x r) fun y => (finish_grounded _ _ y).hasInflight
    have hrest : Deeds (Performs s (.applyCommitReceipt receipts)) (applyReceipt u r)
        (s.exec (.applyCommitReceipt receipts)) := Path.rest (fun p hp => applyReceipt_deeds hp) hturn
    exact (hrest.trips fun _ htick => by cases htick).down hafter
  | @abort a hu hq hx hgrant hproposal =>
    subst hq
    rw [hu] at hx
    exact Fabric.Down.of_modify (abortPrepared_seqs hx hgrant hproposal) fun _ => rfl

/-- Nothing is in flight on a worker that has been marked dead. -/
theorem markWorkerDead_down (s : Fabric) (id : WorkerId)
    (hy : (s.exec (.markWorkerDead id)).seqs.find? q = some y) (hup : y.hasInflight = true) :
    y.inFlightWorker ≠ id := by
  obtain ⟨x, hx, -⟩ := (exec_deeds s (.markWorkerDead id)).trips (fun _ => nofun) q y hy hup
  have hkey : q ∈ s.seqs.keys := by
    by_contra hnot
    rw [find?_eq_none_iff.mpr hnot] at hx
    cases hx
  -- the turn of `q`, and what is left of the loop after it
  obtain ⟨u, hturn⟩ := exists_turn (f := reconcileWorkerDown id) (s := s.withoutWorker id) hkey
  have hrest : Deeds (Performs s (.markWorkerDead id)) (reconcileWorkerDown id u q)
      (s.exec (.markWorkerDead id)) := Path.rest (fun p hp => reconcileWorkerDown_deeds hp) hturn
  obtain ⟨z, hz, hyz⟩ := hrest.trips (fun _ => nofun) q y hy hup
  rw [hyz.inFlightWorker]
  intro heq
  unfold reconcileWorkerDown at hz
  split at hz
  · next hnone =>
    rw [hnone] at hz
    cases hz
  · next x hx =>
    split at hz
    · have hdown : z.hasInflight = false :=
        Fabric.Down.of_modify (modifySeq_seqs _ _ _) (fun _ => rfl) z hz
      rw [hyz.hasInflight, hdown] at hup
      cases hup
    · next hnot =>
      cases hx.symm.trans hz
      exact hnot ⟨hyz.hasInflight ▸ hup, heq⟩

/-! Dispatches of a lifetime. -/

/-- The dispatches a call emits. -/
def dispatchesOf (e : Edge Fabric LifeCall) : List Dispatch :=
  match e.label with
  | .call (.op (.schedule tn)) => (e.pre.schedule tn).2
  | _ => []

theorem dispatchesOf_numbered (e : Edge Fabric LifeCall) :
    (dispatchesOf e).map Dispatch.id = List.range' e.pre.nextDispatch (dispatchesOf e).length := by
  unfold dispatchesOf
  split
  · exact schedule_numbered _
  · rfl

/-- New dispatches have new ids. -/
theorem dispatchesOf_fresh {e : Edge Fabric LifeCall} {d : Dispatch} (hd : d ∈ dispatchesOf e) :
    e.pre.nextDispatch ≤ d.id := by
  have hmem : d.id ∈ (dispatchesOf e).map Dispatch.id := List.mem_map_of_mem hd
  rw [dispatchesOf_numbered] at hmem
  exact (List.mem_range'_1.mp hmem).1

theorem dispatchesOf_nodup (e : Edge Fabric LifeCall) : ((dispatchesOf e).map Dispatch.id).Nodup := by
  rw [dispatchesOf_numbered]
  exact List.nodup_range'

end DecodeFabric
