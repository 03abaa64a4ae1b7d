import DecodeFabric.History

/- What a stale message does to live work.

   A member or outcome that fails one of the five authority checks is turned away, but not always
   without effect. Every rejection in `authorize_prepared` goes through `stale_reconcile`, which
   ends whatever the sequence has in flight, be it the dispatch the message is late for or a newer
   one. `apply_completion` leaves the sequence alone, except on a stale epoch. So the message is
   harmless exactly if it is an outcome carrying the current epoch. -/
namespace DecodeFabric
open Lib Fabric Sample
variable {result : DecodeExecutionResult} {s : Fabric} {mo : MemberOutcome} {x : Seq} {why : String}

/-- What reaches the fabric for one sequence: a prepared member or a completion outcome, each with the
    message that carries it. -/
inductive LateMessage where
  | prepared (m : PreparedDecode) (pm : PreparedMember)
  | outcome (result : DecodeExecutionResult) (mo : MemberOutcome)

namespace LateMessage

def sequence : LateMessage → SequenceId
  | prepared _ pm => pm.sequence
  | outcome _ mo => mo.sequence

/-- The turn of the message in `authorize_prepared` or `apply_completion`. -/
def deliver (s : Fabric) : LateMessage → Fabric
  | prepared m pm => (authorizeMember m s pm).1
  | outcome result mo => applyOutcome result s mo

/-- The reasons that say a message is not of the dispatch in flight. -/
def staleReasons : List String :=
  ["stale_epoch", "stale_worker_boot", "stale_attempt", "stale_generation", "stale_dispatch"]

/-- The message is turned away for one of those reasons. -/
def RejectedStale (s : Fabric) (x : Seq) : LateMessage → Prop
  | prepared _ pm => ∃ r, s.prepareVerdict x pm = .reject r ∧ r.reason ∈ staleReasons
  | outcome result mo => ∃ why ∈ staleReasons,
      s.completionVerdict result x mo = .ignore why ∨ s.completionVerdict result x mo = .disown why

/-- The message was not sent for the dispatch `x` has in flight. -/
def Foreign (x : Seq) : LateMessage → Prop
  | prepared _ pm =>
    pm.epoch ≠ x.inFlightEpoch ∨ pm.workerBoot ≠ x.inFlightWorkerBoot ∨ pm.attempt ≠ x.currentAttempt ∨
      pm.generation ≠ x.inFlightGeneration ∨ pm.dispatch ≠ x.inFlightDispatch
  | outcome result mo =>
    result.epoch ≠ x.inFlightEpoch ∨ result.workerBoot ≠ x.inFlightWorkerBoot ∨ mo.attempt ≠ x.currentAttempt ∨
      mo.generation ≠ x.inFlightGeneration ∨ result.dispatchId ≠ x.inFlightDispatch

end LateMessage

/-- Dispatch, pending grant, reservation and lifecycle are as they were. -/
def Seq.Undisturbed (x y : Seq) : Prop :=
  y.hasInflight = x.hasInflight ∧ y.inFlightDispatch = x.inFlightDispatch ∧
  y.hasInflightGrant = x.hasInflightGrant ∧ y.inFlightGrant = x.inFlightGrant ∧
  y.reservation = x.reservation ∧ y.machine = x.machine

/-! The two rejections. -/

theorem reject_ends_dispatch {m : PreparedDecode} {pm : PreparedMember} {r : Fabric.Rejection}
    (hq : s.seqs.find? pm.sequence = some x) (hv : s.prepareVerdict x pm = .reject r) :
    (authorizeMember m s pm).1.seqs.find? pm.sequence = some (x.release.reconcile s.clock) := by
  have hrej : (authorizeMember m s pm).1 = s.rejectMember pm.sequence x r := by
    simp only [authorizeMember, hq, hv]
  rw [hrej, rejectMember_seqs, Table.find?_modify_self, hq]
  rfl

theorem disown_ends_dispatch
    (hq : s.seqs.find? mo.sequence = some x) (hv : s.completionVerdict result x mo = .disown why) :
    (applyOutcome result s mo).seqs.find? mo.sequence = some { x.release with hasInflight := false } := by
  simp only [applyOutcome, hq, hv, rejectStale_seqs, modifySeq_seqs,
    releaseReservation_seqs, Table.find?_modify_self, Option.map_some]

theorem ignore_leaves_all
    (hq : s.seqs.find? mo.sequence = some x) (hv : s.completionVerdict result x mo = .ignore why) :
    (applyOutcome result s mo).seqs = s.seqs := by
  simp only [applyOutcome, hq, hv, rejectStale_seqs]

/-- A completion disowns for staleness on a stale epoch only. -/
theorem disown_stale (hwhy : why ∈ LateMessage.staleReasons) (hv : s.completionVerdict result x mo = .disown why) :
    result.epoch ≠ s.epoch := by
  rcases completionVerdict_disown hv with ⟨hep, -⟩ | ⟨-, rfl⟩ | ⟨-, rfl⟩
  · exact hep
  · simp [LateMessage.staleReasons] at hwhy
  · simp [LateMessage.staleReasons] at hwhy

theorem ignore_current (hv : s.completionVerdict result x mo = .ignore why) : result.epoch = s.epoch := by
  unfold completionVerdict at hv
  exact not_not.mp (check_passed hv (by simp)).1

theorem stale_undisturbed_iff {s : Fabric} {m : LateMessage} {x : Seq} (hq : s.seqs.find? m.sequence = some x)
    (hlive : x.hasInflight = true) (hstale : m.RejectedStale s x) :
    (∃ y, (m.deliver s).seqs.find? m.sequence = some y ∧ x.Undisturbed y) ↔
      ∃ result mo, m = .outcome result mo ∧ result.epoch = s.epoch := by
  cases m with
  | prepared msg pm =>
    obtain ⟨r, hv, -⟩ := hstale
    refine ⟨?_, by rintro ⟨_, _, h, -⟩; cases h⟩
    rintro ⟨y, hy, hsame, -⟩
    -- the sequence is no longer in flight
    have hy' := (reject_ends_dispatch (m := msg) hq hv).symm.trans hy
    cases hy'
    rw [hlive] at hsame
    cases hsame
  | outcome result mo =>
    obtain ⟨why, hwhy, hv | hv⟩ := hstale
    · refine ⟨fun _ => ⟨result, mo, rfl, ignore_current hv⟩, fun _ => ⟨x, ?_, rfl, rfl, rfl, rfl, rfl, rfl⟩⟩
      exact (congrArg (fun t => t.find? mo.sequence) (ignore_leaves_all hq hv)).trans hq
    · refine ⟨?_, ?_⟩
      · rintro ⟨y, hy, hsame, -⟩
        have hy' := (disown_ends_dispatch hq hv).symm.trans hy
        cases hy'
        rw [hlive] at hsame
        cases hsame
      · rintro ⟨_, _, h, hep⟩
        cases h
        exact absurd hep (disown_stale hwhy hv)

theorem stale_undisturbed_iff_outcome : let s := start.execAll dispatched
    let m := LateMessage.outcome { epoch := 1, dispatchId := 9 } { sequence := 1, attempt := 1, generation := 1 }
    ∃ x y, s.seqs.find? 1 = some x ∧ x.hasInflight = true ∧ m.RejectedStale s x ∧
      (m.deliver s).seqs.find? 1 = some y ∧ x.Undisturbed y := by
  intro s m
  obtain ⟨y, hy⟩ := (stale_undisturbed_iff (s := s) (m := m) rfl (by decide)
    ⟨"stale_dispatch", by decide, .inl (by decide)⟩).mpr ⟨_, _, rfl, rfl⟩
  exact ⟨_, y, rfl, by decide, ⟨"stale_dispatch", by decide, .inl (by decide)⟩, hy⟩

/-- The first dispatch is retried, the second one is granted. -/
def Sample.superseded : List Op :=
  dispatched ++
    [.retry 1, .schedule 2,
     .authorizePrepared { prepared with
      dispatchId := 2, members := [{ member with dispatch := 2, attempt := 1000002, proposal := 2 }] }]

/-- The late answer to the first dispatch. -/
def Sample.late : LateMessage := .prepared prepared member

theorem late_member_ends_live_dispatch : let s := start.execAll superseded
    Reachable s ∧ ∃ x y, s.seqs.find? 1 = some x ∧ x.hasInflight = true ∧ x.inFlightDispatch = 2 ∧
      x.hasInflightGrant = true ∧ late.RejectedStale s x ∧ late.Foreign x ∧
      (late.deliver s).seqs.find? 1 = some y ∧ y.hasInflight = false ∧ y.inFlightDispatch = 0 ∧
      y.hasInflightGrant = false ∧ ¬ x.Undisturbed y := by
  refine ⟨⟨_, runsTo _⟩, _, _, rfl, by decide, by decide, by decide, ⟨_, rfl, by decide⟩,
    .inr (.inr (.inl (by decide))), rfl, by decide, by decide, by decide, ?_⟩
  rintro ⟨h, -⟩
  exact absurd h (by decide)

end DecodeFabric
