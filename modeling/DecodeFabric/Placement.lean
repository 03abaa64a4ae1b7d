import DecodeFabric.WorkerLoad

/- Group by group through the placement loop.

   `schedule` forms its groups first and then goes through them once, so each group meets a fabric
   that earlier groups have changed. A turn of that loop finds the members of its group as formation
   left them, and what it leaves of them is what the tick leaves: the groups are disjoint. A group is
   sent, with the worker and the device of its own turn, or rolled back, and then the turn takes
   nothing. -/
namespace DecodeFabric
open Lib Table Fabric List Sample
variable {d : Dispatch} {s t u : Fabric} {g : Formed} {out : List Dispatch} {w : WorkerDescriptor} {wk : WorkerId}
namespace Fabric
variable {s : Fabric} {tn : TimePoint}

/-! The turns. -/

/-- A group that placement has to put back: no worker is eligible, or the device of the chosen one has no room. -/
def Unplaceable (u : Fabric) (g : Formed) : Prop :=
  match u.chooseWorker g.key with
  | none => True
  | some (_, w) => memoryRefused (u.devMem.getD w.device.id {}) (u.groupGrowth g.members) = true

/-! A turn sends or rolls back. -/

theorem Unplaceable.result (h : u.Unplaceable g) (tn : TimePoint) (out : List Dispatch) (hn : g.members.Nodup) :
    (placeGroup tn (u, out) g).2 = out ∧ (placeGroup tn (u, out) g).1.accounts = u.accounts ∧
    (placeGroup tn (u, out) g).1.nextDispatch = u.nextDispatch ∧ (placeGroup tn (u, out) g).1.nextGroup = u.nextGroup ∧
    ∀ q ∈ g.members, (placeGroup tn (u, out) g).1.seqs.find? q = (u.seqs.find? q).map (Seq.moveTo .ready) := by
  have hback : ∀ q ∈ g.members, (u.ungroup g.members).seqs.find? q = (u.seqs.find? q).map (Seq.moveTo .ready) := by
    intro q hq
    rw [ungroup_find? u hn, if_pos hq]
  have hgroup : (u.ungroup g.members).nextGroup = u.nextGroup :=
    foldl_invariant (I := fun v : Fabric => v.nextGroup = u.nextGroup) (fun _ _ hv => hv) rfl
  have hnext : (u.ungroup g.members).nextDispatch = u.nextDispatch :=
    congrArg Books.nextDispatch (u.ungroup_books g.members)
  unfold placeGroup
  split
  · next hnil => exact ⟨rfl, rfl, rfl, rfl, by rw [hnil]; simp⟩
  · unfold Unplaceable at h
    split
    · exact ⟨rfl, ungroup_accounts _, hnext, hgroup, hback⟩
    · next wk w hw =>
      simp only [hw] at h
      simp only
      rw [if_pos h]
      exact ⟨rfl, ungroup_accounts _, hnext, hgroup, hback⟩

theorem Sent.listed (h : Sent tn u g wk w d) (out : List Dispatch) : d ∈ (placeGroup tn (u, out) g).2 := by
  rw [h.result]
  exact mem_append_right _ mem_cons_self

end Fabric

/-! Groups that are not placed. -/

theorem unplaced_group_rolled_back (s : Fabric) (tn : TimePoint) {u : Fabric} {out : List Dispatch} {g : Formed}
    (hturn : ((u, out), g) ∈ s.placements tn) (hun : u.Unplaceable g) :
    -- the members are Ready again, with all they had
    (∀ m ∈ g.members, ∃ x, s.seqs.find? m = some x ∧ x.machine.isCandidate = true ∧
      (s.schedule tn).1.seqs.find? m = some { x with machine := .ready, lastGroupedAt := tn, readyAt := tn }) ∧
    -- and the turn takes nothing
    (placeGroup tn (u, out) g).2 = out ∧
    (placeGroup tn (u, out) g).1.nextDispatch = u.nextDispatch ∧
    (placeGroup tn (u, out) g).1.nextGroup = u.nextGroup ∧
    (placeGroup tn (u, out) g).1.nextReservation = u.nextReservation ∧
    (placeGroup tn (u, out) g).1.reservations = u.reservations ∧
    (placeGroup tn (u, out) g).1.devMem = u.devMem ∧
    (placeGroup tn (u, out) g).1.workers = u.workers := by
  have ht := placements_turn hturn
  obtain ⟨hout, haccounts, hnext, hgroup, hback⟩ := hun.result tn out ht.nodup
  refine ⟨?_, hout, hnext, hgroup, congrArg Accounts.nextReservation haccounts,
    congrArg Accounts.reservations haccounts,
    congrArg Accounts.devMem haccounts, congrArg Accounts.workers haccounts⟩
  intro m hm
  obtain ⟨x, hdue, -, hfind⟩ := ht.member m hm
  refine ⟨x, hdue.found, hdue.candidate, ?_⟩
  have hready : (x.enterGroup tn).moveTo .ready = { x with machine := .ready, lastGroupedAt := tn, readyAt := tn } := by
    have hmachine : (x.machine.move .grouped).move .ready = .ready := by
      have hc := hdue.candidate
      cases hm : x.machine <;> rw [hm] at hc <;> first | decide | cases hc
    simp only [Seq.moveTo, Seq.enterGroup, hmachine]
  rw [ht.final m hm, hback m hm, hfind, Option.map_some, hready]

namespace Sample

def otherKey : CompatibilityKey := { key with model := 2 }

/-- Worker 1 serves one sequence; the worker of the other, which has yielded, is dead. -/
def halfDeserted : Fabric :=
  (start.execAll
    [.registerWorker (worker 1 1), .registerWorker { worker 2 2 with supportedModels := [otherKey] },
     .submit request, .submit { request with id := 2, sequence := 2, model := 2, state := { id := 2 } },
     .markWorkerDead 2]).modifySeq 2 fun x => { x with machine := .yielded }

end Sample

theorem unplaced_group_rolled_back_yielded : ∃ u out, ((u, out), ⟨otherKey, [2]⟩) ∈ halfDeserted.placements 1 ∧
    out.length = 1 ∧ u.Unplaceable ⟨otherKey, [2]⟩ ∧
    ∃ x y, halfDeserted.seqs.find? 2 = some x ∧ x.machine = .yielded ∧
      (halfDeserted.schedule 1).1.seqs.find? 2 = some y ∧ y.machine = .ready := by
  obtain ⟨p, hp⟩ : ∃ p, p = placeGroup 1 ((halfDeserted.formedAt 1).fabric, []) ⟨key, [1]⟩ := ⟨_, rfl⟩
  have hturn : (p, ⟨otherKey, [2]⟩) ∈ halfDeserted.placements 1 := by
    have hformed : (halfDeserted.formedAt 1).formed = [⟨key, [1]⟩, ⟨otherKey, [2]⟩] := rfl
    unfold placements
    rw [hformed, hp]
    exact mem_cons_of_mem _ mem_cons_self
  have hun : p.1.Unplaceable ⟨otherKey, [2]⟩ := by
    have hnone : p.1.chooseWorker otherKey = none := by
      rw [hp]
      rfl
    unfold Fabric.Unplaceable
    rw [hnone]
    trivial
  refine ⟨p.1, p.2, hturn, by rw [hp]; rfl, hun, ?_⟩
  obtain ⟨x, hx, -, hy⟩ := (unplaced_group_rolled_back halfDeserted 1 hturn hun).1 2 mem_cons_self
  refine ⟨x, _, hx, ?_, hy, rfl⟩
  cases hx
  rfl

/-! Whom a group goes to. -/

theorem WorkerDescriptor.same_of_profile {w' : WorkerDescriptor} (h : w.profile = w'.profile) :
    w.id = w'.id ∧ w.health = w'.health ∧ w.supportedModels = w'.supportedModels ∧ w.device = w'.device := by
  have hid : w.profile.id = w'.profile.id := by rw [h]
  have hhealth : w.profile.health = w'.profile.health := by rw [h]
  have hmodels : w.profile.supportedModels = w'.profile.supportedModels := by rw [h]
  have hdevice : w.profile.device = w'.profile.device := by rw [h]
  exact ⟨hid, hhealth, hmodels, hdevice⟩

/-- Two workers on one device differ in a model that nobody asks for. -/
def Sample.alike : Fabric :=
  start.execAll
    [.registerWorker { worker 1 1 with supportedModels := [key, { key with model := 9 }] },
     .registerWorker { worker 2 2 with supportedModels := [{ key with model := 9, dtype := .f16 }, key] },
     .submit request]

/-- Worker 2 shares the device of worker 1 and lists the same model with an adapter only; worker 1 is dead, and
    still decides the key. -/
def Sample.misfit : Fabric :=
  start.execAll
    [.registerWorker (worker 1 1),
     .registerWorker { worker 2 2 with supportedModels := [{ key with adapter := 7, dtype := .f16 }] },
     .submit request, .markWorkerDead 1]

end DecodeFabric
