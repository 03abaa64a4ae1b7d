import DecodeFabric.Reservations
import DecodeFabric.Settling

/- What stands while the fabric is pumped.

   A pump advances, schedules, and applies what comes back. No deed of these operations touches the capacity of a
   device, nor anything about a worker but its load, and the configuration, the epoch and the boots stay as they are
   (`exec_capacityAt`, `exec_standing`). So a worker that could take a group when the tick began can take it when
   its turn comes: with workers that turn nothing away, a tick with somebody to send sends somebody
   (`schedule_progress`), and with groups as large as the fabric everybody (`schedule_sends_all`). -/
namespace DecodeFabric
open Lib Table Fabric List
variable {s t u v : Fabric} {o : Op} {d : Deed} {q : SequenceId} {x : Seq} {tn : TimePoint}

namespace Fabric

/-- The memory of device `d`; 0 stands for no limit. -/
def capacityAt (s : Fabric) (d : DeviceId) : UInt64 := (s.devMem.getD d {}).capacity

/-- Roominess is a matter of capacities, which a tick does not change. -/
theorem Roomy.of_capacityAt (hcap : ∀ d, t.capacityAt d = s.capacityAt d) (h : s.Roomy) : t.Roomy := by
  intro d v hd
  have hv : t.capacityAt d = v.capacity := by
    unfold capacityAt Table.getD
    rw [hd]
    rfl
  rw [← hv, hcap]
  exact h.capacity d

/-- Configuration, epoch, boots, and the workers up to their load. -/
structure Standing where
  cfg : Config
  epoch : CoordinatorEpoch
  workers : Table WorkerId WorkerDescriptor
  boots : Table WorkerId WorkerBootId

def standing (s : Fabric) : Standing where
  cfg := s.cfg
  epoch := s.epoch
  workers := s.workers.map WorkerDescriptor.profile
  boots := s.workerCurrentBoot

end Fabric

/-! Deeds that spare the machines. -/

/-- An operation of a pump. -/
def Op.Pumps : Op → Prop
  | .advance _ | .schedule _ | .applyCompletion _ | .authorizePrepared _ | .applyCommitReceipt _ => True
  | _ => False

/-- Their load apart, the workers are the same, and the devices are as large. -/
structure Fabric.Spared (s t : Fabric) : Prop where
  profiles : t.workers.map WorkerDescriptor.profile = s.workers.map WorkerDescriptor.profile
  capacityAt : ∀ d, t.capacityAt d = s.capacityAt d

theorem Fabric.Spared.trans (h : s.Spared t) (h' : t.Spared u) : s.Spared u :=
  ⟨h'.profiles.trans h.profiles, fun d => (h'.capacityAt d).trans (h.capacityAt d)⟩

theorem Accounts.release_capacity (a : Accounts) (ρ : ReservationId) (d : DeviceId) :
    ((a.release ρ).devMem.getD d {}).capacity = (a.devMem.getD d {}).capacity := by
  rcases release_cases a ρ with hsame | ⟨r, -, -, hrel⟩
  · rw [hsame]
  · rw [hrel]
    exact (release_devMem r d).2

theorem Fabric.Spared.change {free slot : Bool} {entry : TerminalEntry}
    (hh : v.holdings = u.holdings.pay x free slot entry) : u.Spared v := by
  have hworkers : v.workers = u.workers := (congrArg (·.accounts.workers) hh).trans (Holdings.pay_workers ..)
  refine ⟨by rw [hworkers], fun d => ?_⟩
  refine (congrArg (fun h : Holdings => (h.accounts.devMem.getD d {}).capacity) hh).trans ?_
  obtain ⟨slots, hpay⟩ := u.holdings.pay_accounts x free slot entry
  rw [hpay]
  cases free with
  | false => rfl
  | true => exact Accounts.release_capacity _ _ d

theorem Does.spares (hd : Does u d v) (hp : Performs s o u d) (ho : o.Pumps) : u.Spared v := by
  -- a change of the accounts that touches neither
  have same : ∀ {h : Holdings}, v.holdings = h → h.accounts.workers = u.workers → h.accounts.devMem = u.devMem →
      u.Spared v := by
    rintro _ rfl hworkers hmem
    have hworkers : v.workers = u.workers := hworkers
    have hmem : v.devMem = u.devMem := hmem
    exact ⟨by rw [hworkers], fun d => by unfold Fabric.capacityAt; rw [hmem]⟩
  cases hd with
  | note _ hh | enrol _ _ hh => exact same hh rfl rfl
  | change _ _ hh => exact .change hh
  | send _ hh =>
    have hacc := congrArg Holdings.accounts hh
    constructor
    · refine (congrArg (fun a : Accounts => a.workers.map WorkerDescriptor.profile) hacc).trans ?_
      exact map_modify _ _ fun _ => rfl
    · intro d
      refine (congrArg (fun a : Accounts => (a.devMem.getD d {}).capacity) hacc).trans ?_
      rw [Accounts.charge_devMem]
      split
      · rfl
      · rfl
  | register | lose | shuffle =>
    cases hp <;> exact ho.elim

theorem Deeds.spares (h : Deeds (Performs s o) u v) (ho : o.Pumps) : u.Spared v :=
  h.invariant (I := u.Spared) (fun hd hp hu => hu.trans (hd.spares hp ho)) ⟨rfl, fun _ => rfl⟩

namespace Fabric

theorem exec_spared (ho : o.Pumps) : s.Spared (s.exec o) := (exec_deeds s o).spares ho

theorem Roomy.exec (h : s.Roomy) (ho : o.Pumps) : (s.exec o).Roomy := h.of_capacityAt (exec_spared ho).capacityAt

theorem advance_books (tn : TimePoint) : (s.advance tn).1.books = s.books := by
  refine (unscheduled_steps s (o := .advance tn) nofun).invariant (I := fun u => u.books = s.books)
    (fun hm ha hu => ?_) rfl
  cases hm with
  | note _ hb | seq _ _ _ _ hb => exact hb.trans hu
  | _ => rcases ha with ⟨⟨⟩⟩ | ⟨⟨⟩⟩

/-- Ticks apart, a pump acts on sequences only. -/
theorem exec_frame (ho : o.Pumps) (hs : ∀ tn, o ≠ .schedule tn) : (s.exec o).frame = s.frame := by
  refine ((unscheduled_steps s hs).mono fun a ha => ?_).frame (K := fun _ => True)
  cases o with
  | schedule tn => exact absurd rfl (hs tn)
  | advance | applyCompletion | authorizePrepared | applyCommitReceipt =>
    cases a with
    | seq | issue | finalize => trivial
    | _ => exact ha.elim
  | _ => exact ho.elim

theorem exec_standing (ho : o.Pumps) : (s.exec o).standing = s.standing := by
  have hprofiles := (exec_spared (s := s) ho).profiles
  have haddress : (s.exec o).cfg = s.cfg ∧ (s.exec o).epoch = s.epoch ∧
      (s.exec o).workerCurrentBoot = s.workerCurrentBoot := by
    by_cases hs : ∃ tn, o = .schedule tn
    · obtain ⟨tn, rfl⟩ := hs
      obtain ⟨sent, hticked⟩ := s.schedule_spec tn
      have hbooks := hticked.books
      exact ⟨congrArg Books.cfg hbooks, congrArg Books.epoch hbooks, congrArg Books.workerCurrentBoot hbooks⟩
    · have hframe := exec_frame (s := s) ho fun tn heq => hs ⟨tn, heq⟩
      simp only [frame, Prod.mk.injEq] at hframe
      exact ⟨hframe.1, hframe.2.2.1, hframe.2.2.2.1⟩
  unfold standing
  rw [hprofiles, haddress.1, haddress.2.1, haddress.2.2]

theorem advance_standing (tn : TimePoint) : (s.advance tn).1.standing = s.standing :=
  exec_standing (o := .advance tn) trivial

theorem schedule_standing (tn : TimePoint) : (s.schedule tn).1.standing = s.standing :=
  exec_standing (o := .schedule tn) trivial

theorem placements_capacityAt {out : List Dispatch} {g : Formed} (hp : ((u, out), g) ∈ s.placements tn) (d : DeviceId) :
    u.capacityAt d = s.capacityAt d := ((placements_deeds hp).spares trivial).capacityAt d

section Progress
variable {tn : TimePoint} (hroomy : s.Roomy) (hwilling : s.Willing) (himp : s.Impartial)
include hroomy hwilling

/-- Whoever is grouped goes out. -/
theorem schedule_takes (hq : q ∈ (s.formedAt tn).grouped) :
    ∃ d ∈ (s.schedule tn).2, ∃ m ∈ d.members, m.sequence = q := by
  obtain ⟨g, hg, hq⟩ := mem_flatMap.mp hq
  obtain ⟨⟨u, out⟩, hp⟩ := exists_turn (f := placeGroup tn) (s := ((s.formedAt tn).fabric, [])) hg
  have hturn := placements_turn hp
  have hroomy : u.Roomy := hroomy.of_capacityAt (placements_capacityAt hp)
  obtain ⟨j, y, hdue, hkey⟩ := (s.formedAt_formation tn).key g hg
  have hserves : u.Serves g.key := hkey ▸ (hwilling.serves hdue.served).of_profiles hturn.profiles
  obtain ⟨d, hd, m, hm, rfl⟩ := placeGroup_takes tn out hturn.nodup hroomy hserves hq
  obtain ⟨x, -, -, hx⟩ := hturn.member q hq
  refine ⟨d, hturn.kept d hd, _, hm, ?_⟩
  simp only [specOf, hx]
  rfl

include himp

/-- A tick with somebody to send sends somebody. -/
theorem schedule_progress (hx : s.Due tn q x) : (s.schedule tn).2 ≠ [] := by
  obtain ⟨c, hc, -⟩ := hx.collected
  obtain ⟨j, hj⟩ := exists_mem_of_ne_nil _ (formedAt_first himp (ne_nil_of_mem hc))
  obtain ⟨d, hd, -⟩ := schedule_takes hroomy hwilling hj
  exact ne_nil_of_mem hd

/-- With groups as large as the fabric, a tick sends everybody it can. -/
theorem schedule_sends_all (hsize : s.seqs.entries.length ≤ s.cfg.groupLimits.maxSequences.toNat)
    (hx : s.Due tn q x) : ∃ d ∈ (s.schedule tn).2, ∃ m ∈ d.members, m.sequence = q := by
  obtain ⟨c, hc, rfl⟩ := hx.collected
  have hpoll := s.poll_spec tn
  -- each candidate is a sequence of the fabric
  have hcount : (s.poll tn).2.length ≤ s.seqs.entries.length := by
    have hsub : ∀ j ∈ (s.poll tn).2.map Candidate.seq, j ∈ s.seqs.keys := by
      intro j hj
      obtain ⟨y, hy, -⟩ := hpoll.candidate j hj
      exact mem_keys_iff.mpr ⟨y, hy⟩
    simpa [Table.keys] using (subperm_of_subset hpoll.nodup hsub).length_le
  exact schedule_takes hroomy hwilling (formedAt_all himp (hcount.trans hsize) c hc)

end Progress
end Fabric

/-! The pump, call by call. -/

namespace DecodeExecutor
variable {E : Type} (B : DecodeExecutor E) {I : Fabric → Prop}

theorem pumpDispatch_calls (hI : ∀ {s : Fabric} {o : Op}, o.Pumps → (∀ tn, o ≠ .schedule tn) → I s → I (s.exec o))
    {p : Fabric × E} (h : I p.1) (took : StepTimes) (tn : TimePoint) (d : Dispatch) :
    I (B.pumpDispatch took tn p d).1 := by
  unfold pumpDispatch
  split
  · next e _ => exact hI (o := .applyCompletion (d.prepareFailure e)) trivial nofun h
  · next prepared _ =>
    have hauthorized := hI (o := .authorizePrepared prepared) trivial nofun h
    exact hI (o := .applyCommitReceipt _) trivial nofun hauthorized

/-- What every call of a pump keeps, the pump keeps. -/
theorem pumpOnce_calls (hI : ∀ {s : Fabric} {o : Op}, o.Pumps → I s → I (s.exec o)) {p : Fabric × E} (h : I p.1)
    (took : Dispatch → StepTimes) (tn : TimePoint) : I (B.pumpOnce took tn p).1.1 := by
  have hticked := hI (o := .schedule tn) trivial (hI (o := .advance tn) trivial h)
  exact foldl_invariant (I := fun p : Fabric × E => I p.1)
    (fun _ _ hu => B.pumpDispatch_calls (fun ho _ => hI ho) hu _ tn _) hticked

end DecodeExecutor
end DecodeFabric
