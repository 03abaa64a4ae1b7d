import DecodeFabric.Coverage
import DecodeFabric.Placement

/- Memory admission.

   Placement compares the memory a group would take with what the device has left, in 64-bit arithmetic
   that wraps, and the headroom floor with what is left before the group is charged. So a group is sent if it and the
   floor each fit, and stays clear of the floor exactly if they fit together, without wrapping. -/
namespace DecodeFabric
open Lib Fabric List Sample

namespace Fabric
variable {s : Fabric} {tn : TimePoint}

/-- What the sequences `ms` are charged, as a number without wrapping. -/
def exactGrowth (s : Fabric) (ms : List SequenceId) : Nat := (ms.map s.growthOf).sum

/-- Every dispatch of a tick on a device with limited memory leaves the configured floor free there. -/
def AdmitsWithin (s : Fabric) (tn : TimePoint) : Prop :=
  ∀ u out g, ((u, out), g) ∈ s.placements tn → ∀ d, (placeGroup tn (u, out) g).2 = out ++ [d] →
    (u.devMem.getD d.device.id {}).capacity > 0 →
    (u.devMem.getD d.device.id {}).reserved.toNat + s.exactGrowth (d.members.map DecodeMemberSpec.sequence) +
      s.cfg.limits.memoryHeadroomBytes.toNat ≤ (u.devMem.getD d.device.id {}).capacity.toNat

/-- At its turn in the placement loop a group that grows by `growth` meets a device with limited memory. -/
def Meets (s : Fabric) (tn : TimePoint) (dm : DevMem) (growth : Nat) : Prop :=
  ∃ u out g wk w, ((u, out), g) ∈ s.placements tn ∧ g.members ≠ [] ∧ u.chooseWorker g.key = some (wk, w) ∧
    dm = u.devMem.getD w.device.id {} ∧ dm.capacity > 0 ∧ growth = s.exactGrowth g.members

section Turns
variable {u : Fabric} {out : List Dispatch} {g : Formed} {wk : WorkerId} {w : WorkerDescriptor} {d : Dispatch}
  (ht : Turn s tn u out g)
include ht

/-- The members are charged at their turn what they were worth before the tick, modulo 2^64. -/
theorem Turn.groupGrowth : (u.groupGrowth g.members).toNat = s.exactGrowth g.members % 2 ^ 64 := by
  rw [groupGrowth_mod]
  unfold exactGrowth
  congr 2
  refine map_congr_left fun m hm => ?_
  obtain ⟨x, hdue, -, hfind⟩ := ht.member m hm
  rw [growthOf_found hfind, growthOf_found hdue.found]
  rfl

/-- The dispatch describes the members of the group. -/
theorem Turn.specs (hsent : Sent tn u g wk w d) : d.members = g.members.map u.specOf := by
  rw [hsent.dispatch]
  exact (dispatchMember_scan (s := u) (d := (u.openDispatch tn g w (u.groupGrowth g.members)).2) ht.nodup
    (t := (u.openDispatch tn g w (u.groupGrowth g.members)).1) (fun m _ => rfl)).2.2

theorem Turn.names (hsent : Sent tn u g wk w d) : d.members.map DecodeMemberSpec.sequence = g.members := by
  rw [ht.specs hsent, map_map]
  refine (map_congr_left fun m hm => ?_).trans (map_id _)
  obtain ⟨x, -, -, hfind⟩ := ht.member m hm
  simp only [Function.comp, specOf, hfind]
  rfl

end Turns

/-- What `AdmitsWithin` says of a group that is sent. -/
theorem AdmitsWithin.bound {u : Fabric} {out : List Dispatch} {g : Formed} {wk : WorkerId} {w : WorkerDescriptor}
    {d : Dispatch} (h : s.AdmitsWithin tn) (hturn : ((u, out), g) ∈ s.placements tn) (hsent : Sent tn u g wk w d)
    (hcap : (u.devMem.getD w.device.id {}).capacity > 0) :
    (u.devMem.getD w.device.id {}).reserved.toNat + s.exactGrowth g.members + s.cfg.limits.memoryHeadroomBytes.toNat ≤
      (u.devMem.getD w.device.id {}).capacity.toNat := by
  have hdevice : d.device = w.device := by
    rw [hsent.dispatch]
    rfl
  have hbound := h u out g hturn d (by rw [hsent.result])
  rw [(placements_turn hturn).names hsent, hdevice] at hbound
  exact hbound hcap

end Fabric

/-- A tick leaves the floor free if and only if every group for which its device seems to have room, the 64-bit sum and
    the floor each being within what is left, fits there together with the floor. -/
theorem memory_admission_iff (s : Fabric) (tn : TimePoint) :
    s.AdmitsWithin tn ↔ ∀ dm growth, s.Meets tn dm growth → growth % 2 ^ 64 ≤ dm.room →
      dm.headroomFloor.toNat ≤ dm.room →
      dm.reserved.toNat + growth + s.cfg.limits.memoryHeadroomBytes.toNat ≤ dm.capacity.toNat := by
  constructor
  · rintro h dm growth ⟨u, out, g, wk, w, hturn, hne, hchosen, rfl, hcap, rfl⟩ hsum hfloor
    rw [← (placements_turn hturn).groupGrowth] at hsum
    exact h.bound hturn ⟨hne, hchosen, memoryRefused_iff.mpr fun _ => ⟨hsum, hfloor⟩, rfl⟩ hcap
  · intro h u out g hturn d hd hcap
    have ht := placements_turn hturn
    obtain ⟨wk, w, hsent⟩ : ∃ wk w, Sent tn u g wk w d := by
      rcases placeGroup_cases tn u out g with hsame | ⟨wk, w, d', hsent⟩
      · simpa using hsame.symm.trans hd
      · rw [hsent.result, append_cancel_left_eq, singleton_inj] at hd
        exact ⟨wk, w, hd ▸ hsent⟩
    have hdevice : d.device = w.device := by rw [hsent.dispatch]; rfl
    rw [hdevice] at hcap ⊢
    have hroom := memoryRefused_iff.mp hsent.room hcap
    rw [ht.groupGrowth] at hroom
    rw [ht.names hsent]
    exact h _ _ ⟨u, out, g, wk, w, hturn, hsent.nonempty, hsent.chosen, rfl, hcap, rfl⟩ hroom.1 hroom.2

namespace Sample

/-- A device of `memory` bytes, and sequences of one key with these estimates. -/
def sized (floor memory : UInt64) (growth : List UInt64) : Fabric :=
  (init { limits := { memoryHeadroomBytes := floor } } 0).execAll
    (.registerWorker { worker 1 1 with device := { id := 1, memoryBytes := memory } } ::
      growth.mapIdx fun i b =>
        .submit { request with id := i + 1, sequence := i + 1, state := { id := i + 1, estimatedGrowth := b } })

theorem sized_reachable (floor memory : UInt64) (growth : List UInt64) : Reachable (sized floor memory growth) :=
  ⟨_, trace_runsTo _ _ _⟩

end Sample

/-- A floor of ten bytes, and a thousand to take sixty-four from. -/
theorem memory_admission_roomy : (sized 10 1000 [64]).Meets 1 ⟨1000, 0, 10⟩ 64 ∧
    (sized 10 1000 [64]).AdmitsWithin 1 := by
  have hturns : (sized 10 1000 [64]).placements 1 = [((_, []), ⟨key, [1]⟩)] := rfl
  refine ⟨⟨_, [], ⟨key, [1]⟩, 1, _, mem_cons_self, by decide, rfl, rfl, by decide, rfl⟩, ?_⟩
  refine (memory_admission_iff _ 1).mpr ?_
  rintro dm growth ⟨u, out, g, wk, w, hturn, -, hchosen, rfl, -, rfl⟩ - -
  rw [hturns] at hturn
  obtain ⟨hu, rfl⟩ := Prod.mk.inj (mem_singleton.mp hturn)
  obtain ⟨rfl, -⟩ := Prod.mk.inj hu
  have hdevice : w.device.id = 1 := by
    cases (show some _ = some (wk, w) from hchosen)
    rfl
  rw [hdevice]
  decide

namespace Sample

/-- A group that is sent breaks the bound if it does not fit together with the floor. -/
theorem sized_breaks {s : Fabric} {g : Formed} {w : WorkerDescriptor} (hformed : (s.formedAt 1).formed = [g])
    (hsent : ∃ d, Sent 1 (s.formedAt 1).fabric g 1 w d)
    (hcap : ((s.formedAt 1).fabric.devMem.getD w.device.id {}).capacity > 0)
    (hover : ((s.formedAt 1).fabric.devMem.getD w.device.id {}).capacity.toNat <
      ((s.formedAt 1).fabric.devMem.getD w.device.id {}).reserved.toNat + s.exactGrowth g.members +
        s.cfg.limits.memoryHeadroomBytes.toNat) : ¬ s.AdmitsWithin 1 := by
  intro h
  obtain ⟨d, hsent⟩ := hsent
  have hturn : (((s.formedAt 1).fabric, []), g) ∈ s.placements 1 := by
    unfold placements
    rw [hformed]
    exact mem_cons_self
  exact absurd (h.bound hturn hsent hcap) (Nat.not_le.mpr hover)

end Sample

/-- A byte is admitted onto a device of one byte, all of which the floor reserves; and two sequences whose growth
    adds up to 2^64 onto the same device without a floor. -/
theorem memory_admission_breaks : (Reachable (sized 1 1 [1]) ∧ ¬(sized 1 1 [1]).AdmitsWithin 1) ∧
    Reachable (sized 0 1 [0x8000000000000000, 0x8000000000000000]) ∧
      ¬(sized 0 1 [0x8000000000000000, 0x8000000000000000]).AdmitsWithin 1 := by
  refine ⟨⟨sized_reachable 1 1 _, ?_⟩, sized_reachable 0 1 _, ?_⟩
  · exact sized_breaks (g := ⟨key, [1]⟩) rfl ⟨_, by decide, rfl, rfl, rfl⟩ (by decide) (by decide)
  · exact sized_breaks (g := ⟨key, [1, 2]⟩) rfl ⟨_, by decide, rfl, rfl, rfl⟩ (by decide) (by decide)

end DecodeFabric
