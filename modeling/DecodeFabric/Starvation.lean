import DecodeFabric.Batching
import DecodeFabric.Standing
import Mathlib.Algebra.Order.Field.Rat

/- Work that waits although it could be done, and what waiting is worth.

   The key of a sequence is found on the first worker in table order that lists its model, whatever the
   state of that worker; placement then looks for a worker of that key. So a sequence goes out if a
   healthy worker of the key that was found has a slot to spare and no device of the key is limited
   (`Placeable`), and stays behind if the key was found on a worker that has no healthy companion,
   even though another device would serve it. Whoever stays behind in a group that was not placed
   has lost the time it had waited. -/
namespace DecodeFabric
open Lib Table List Fabric Sample UInt64 DecodeFabric.Seq
variable {k k' : CompatibilityKey} {out : List Dispatch} {x : Seq} {q : SequenceId} {w : WorkerDescriptor}
  {wk : WorkerId}

theorem WorkerDescriptor.capacity_of_profile {w' : WorkerDescriptor} (h : w.profile = w'.profile) :
    w.advertisedCapacity = w'.advertisedCapacity := by
  have hcapacity : w.profile.advertisedCapacity = w'.profile.advertisedCapacity := by rw [h]
  exact hcapacity

namespace Fabric
variable {s : Fabric} {tn : TimePoint}

/-! Slots and memory at a turn. -/

/-- Sequence `x` can go out at this tick. -/
def ready (s : Fabric) (tn : TimePoint) (x : Seq) : Bool :=
  x.machine.isCandidate && !x.budget.exhausted && !x.deadlineReached tn && (s.keyForModel x.req).valid

/-- The number of sequences that can go out. -/
def candidateCount (s : Fabric) (tn : TimePoint) : Nat := s.seqs.total fun _ x => if s.ready tn x then 1 else 0

/-- The number of keys, other than `k`, of sequences that can go out. -/
def rivals (s : Fabric) (tn : TimePoint) (k : CompatibilityKey) : Nat :=
  (((s.seqs.entries.filter fun e => s.ready tn e.2).map fun e => (s.keyForModel e.2.req).toText).filter
    (· ≠ k.toText)).dedup.length

/-- A group of key `k` finds a worker and memory, whatever the other groups of the tick take. -/
structure Placeable (s : Fabric) (tn : TimePoint) (k : CompatibilityKey) : Prop where
  spare : ∃ e ∈ s.workers.entries, e.2.health = .healthy ∧ supportsGroup e.2 k = true ∧
    (e.2.advertisedCapacity = 0 ∨ e.2.activeReservations.toNat + s.rivals tn k < e.2.advertisedCapacity.toNat)
  unlimited : ∀ e ∈ s.workers.entries, eligible e.2 k = true → s.capacityAt e.2.device.id = 0

theorem Due.ready (h : s.Due tn q x) : s.ready tn x = true := by
  unfold Fabric.ready
  rw [h.candidate, h.unspent, h.inTime, h.served]
  rfl

theorem eligible_iff : eligible w k = true ↔ w.health = .healthy ∧ supportsGroup w k = true ∧
      (w.advertisedCapacity = 0 ∨ w.activeReservations.toNat < w.advertisedCapacity.toNat) := by
  have hslots : (!decide (w.advertisedCapacity > 0 ∧ w.activeReservations ≥ w.advertisedCapacity)) = true ↔
      w.advertisedCapacity = 0 ∨ w.activeReservations.toNat < w.advertisedCapacity.toNat := by
    have hzero : w.advertisedCapacity = 0 ↔ w.advertisedCapacity.toNat = 0 := UInt64.toNat_inj.symm
    rw [Bool.not_eq_true', decide_eq_false_iff_not, gt_iff_lt, ge_iff_le, lt_iff_toNat_lt, le_iff_toNat_le,
      hzero, show (0 : UInt64).toNat = 0 from rfl]
    omega
  unfold eligible
  rw [Bool.and_eq_true, Bool.and_eq_true, decide_eq_true_eq, hslots, and_assoc]

theorem placeGroup_counts (tn : TimePoint) (acc : Fabric × List Dispatch) (g : Formed) :
    (placeGroup tn acc g).1.workers = acc.1.workers ∧ (placeGroup tn acc g).2.length = acc.2.length ∨
      ∃ wk w, acc.1.chooseWorker g.key = some (wk, w) ∧
        (placeGroup tn acc g).1.workers = acc.1.workers.modify wk .charged ∧
        (placeGroup tn acc g).2.length = acc.2.length + 1 := by
  have hungroup : (acc.1.ungroup g.members).workers = acc.1.workers := congrArg Accounts.workers (ungroup_accounts _)
  unfold placeGroup
  split
  · exact .inl ⟨rfl, rfl⟩
  · split
    · exact .inl ⟨hungroup, rfl⟩
    · next wk w hw =>
      simp only
      split
      · exact .inl ⟨hungroup, rfl⟩
      · refine .inr ⟨wk, w, hw, congrArg Accounts.workers (dispatchGroup_accounts tn g wk w _), ?_⟩
        rw [length_append, length_singleton]

theorem placeGroup_foldl_length (tn : TimePoint) : ∀ (gs : List Formed) (acc : Fabric × List Dispatch),
    (gs.foldl (placeGroup tn) acc).2.length ≤ acc.2.length + gs.length
  | [], _ => Nat.le_refl _
  | g :: gs, acc => by
    have hrest := placeGroup_foldl_length tn gs (placeGroup tn acc g)
    rw [foldl_cons, length_cons]
    rcases placeGroup_counts tn acc g with ⟨-, hlength⟩ | ⟨_, _, -, -, hlength⟩
    · omega
    · omega

section Turns
variable {u : Fabric} {out : List Dispatch} {g : Formed} (hturn : ((u, out), g) ∈ s.placements tn)
include hturn

/-- The dispatches before a group are for other keys. -/
theorem placements_rivals : out.length ≤ s.rivals tn g.key := by
  have hf := s.formedAt_formation tn
  have htexts := (s.formedAt_batching tn).texts
  obtain ⟨gs₁, gs₂, hgs, hu, -⟩ := turns_split hturn
  rw [hgs, map_append, map_cons, nodup_append'] at htexts
  have hcount : out.length ≤ (gs₁.map fun g => g.key.toText).length := by
    have hlength := placeGroup_foldl_length tn gs₁ ((s.formedAt tn).fabric, [])
    rw [← hu] at hlength
    simpa using hlength
  refine hcount.trans ?_
  unfold rivals
  refine (subperm_of_subset htexts.1 fun k hk => ?_).length_le
  -- each of these groups has a key of its own, found for a sequence that can go out
  obtain ⟨g', hg', rfl⟩ := mem_map.mp hk
  obtain ⟨q, x, hdue, hkey⟩ := hf.key g' (hgs ▸ mem_append_left _ hg')
  have hready : (q, x) ∈ s.seqs.entries.filter fun e => s.ready tn e.2 :=
    mem_filter.mpr ⟨find?_eq_some_iff.mp hdue.found, hdue.ready⟩
  rw [mem_dedup, mem_filter, decide_eq_true_eq]
  refine ⟨mem_map.mpr ⟨(q, x), hready, congrArg CompatibilityKey.toText hkey.symm⟩, fun heq => ?_⟩
  rw [heq] at hk
  exact htexts.2.2 hk mem_cons_self

/-- A worker has taken no more groups than have been dispatched, and has given none up. -/
theorem placements_load {k : WorkerId} {w₀ : WorkerDescriptor} (hk : s.workers.find? k = some w₀) :
    ∃ w, u.workers.find? k = some w ∧ w.profile = w₀.profile ∧
      w.activeReservations.toNat ≤ w₀.activeReservations.toNat + out.length ∧
      (w₀.advertisedCapacity = 0 ∨ w₀.activeReservations.toNat ≤ w.activeReservations.toNat) := by
  refine invariant_at_turns (I := fun acc : Fabric × List Dispatch => ∃ w, acc.1.workers.find? k = some w ∧
    w.profile = w₀.profile ∧ w.activeReservations.toNat ≤ w₀.activeReservations.toNat + acc.2.length ∧
    (w₀.advertisedCapacity = 0 ∨ w₀.activeReservations.toNat ≤ w.activeReservations.toNat)) ?_ ?_ _ hturn
  · rintro ⟨acc, g⟩ - ⟨w, hw, hprofile, hmost, hleast⟩
    simp only at hw hmost
    rcases placeGroup_counts tn acc g with ⟨hworkers, hlength⟩ | ⟨wk, w', hchosen, hworkers, hlength⟩
    · rw [hworkers, hlength]
      exact ⟨w, hw, hprofile, hmost, hleast⟩
    · rw [hworkers, hlength, find?_modify]
      split
      · next heq =>
        obtain rfl : k = wk := heq
        rw [hw]
        have hsum := UInt64.toNat_add w.activeReservations 1
        refine ⟨_, rfl, hprofile, ?_, ?_⟩
        · change (w.activeReservations + 1).toNat ≤ _
          rw [hsum]
          exact Nat.le_trans (Nat.mod_le _ _) (Nat.add_le_add_right hmost 1)
        · -- a worker with a limit is chosen below it, so the count does not wrap
          obtain ⟨hmem, helig⟩ := chooseWorker_mem hchosen
          obtain rfl : w = w' := Option.some.inj (hw.symm.trans (find?_eq_some_iff.mpr hmem))
          have hcapacity : w.advertisedCapacity = w₀.advertisedCapacity := WorkerDescriptor.capacity_of_profile hprofile
          rcases (eligible_iff.mp helig).2.2 with hnone | hfree
          · exact .inl (hcapacity.symm.trans hnone)
          · refine hleast.imp_right fun hle => ?_
            change _ ≤ (w.activeReservations + 1).toNat
            change w.activeReservations.toNat < w.advertisedCapacity.toNat at hfree
            have hbound := w.advertisedCapacity.toNat_lt
            rw [hsum, show (1 : UInt64).toNat = 1 from rfl, Nat.mod_eq_of_lt (by omega)]
            omega
      · exact ⟨w, hw, hprofile, Nat.le_trans hmost (Nat.le_succ _), hleast⟩
  · refine ⟨w₀, ?_, rfl, Nat.le_refl _, .inr (Nat.le_refl _)⟩
    rw [(s.formedAt_formation tn).workers]
    exact hk

/-- The chosen worker, as the tick found it. -/
theorem placements_chosen (hw : u.chooseWorker k = some (wk, w)) :
    ∃ w₀, (wk, w₀) ∈ s.workers.entries ∧ eligible w₀ k = true ∧ w₀.device = w.device := by
  obtain ⟨hmem, helig⟩ := chooseWorker_mem hw
  obtain ⟨⟨k', w₀⟩, hmem₀, hkey, -⟩ := mem_of_map_eq (placements_turn hturn).profiles.symm hmem
  obtain rfl : k' = wk := hkey
  obtain ⟨w', hw', hprofile, -, hleast⟩ := placements_load hturn (find?_eq_some_iff.mpr hmem₀)
  obtain rfl : w = w' := Option.some.inj ((find?_eq_some_iff.mpr hmem).symm.trans hw')
  have hcapacity : w.advertisedCapacity = w₀.advertisedCapacity := WorkerDescriptor.capacity_of_profile hprofile
  obtain ⟨-, hhealth, hmodels, hdevice⟩ := WorkerDescriptor.same_of_profile hprofile
  refine ⟨w₀, hmem₀, eligible_iff.mpr ⟨?_, ?_, ?_⟩, hdevice.symm⟩
  · exact hhealth.symm.trans (eligible_iff.mp helig).1
  · have hsupports := (eligible_iff.mp helig).2.1
    unfold supportsGroup at hsupports ⊢
    rwa [hmodels] at hsupports
  · rcases (eligible_iff.mp helig).2.2 with hnone | hfree
    · exact .inl (hcapacity.symm.trans hnone)
    · refine hleast.imp_right fun hle => ?_
      rw [hcapacity] at hfree
      exact Nat.lt_of_le_of_lt hle hfree

/-- A group whose key is placeable is sent. -/
theorem Placeable.sent (h : s.Placeable tn g.key) (hne : g.members ≠ []) : ∃ wk w d, Sent tn u g wk w d := by
  obtain ⟨⟨k, w₀⟩, hmem₀, hhealth, hsupports, hslots⟩ := h.spare
  obtain ⟨w, hw, hprofile, hmost, -⟩ := placements_load hturn (find?_eq_some_iff.mpr hmem₀)
  obtain ⟨-, hhealth', hmodels, -⟩ := WorkerDescriptor.same_of_profile hprofile
  have helig : eligible w g.key = true := by
    refine eligible_iff.mpr ⟨hhealth'.trans hhealth, ?_, ?_⟩
    · unfold supportsGroup at hsupports ⊢
      rwa [hmodels]
    · rw [WorkerDescriptor.capacity_of_profile hprofile]
      refine hslots.imp_right fun hspare => ?_
      have hrivals := placements_rivals hturn
      change w₀.activeReservations.toNat + s.rivals tn g.key < w₀.advertisedCapacity.toNat at hspare
      omega
  obtain ⟨⟨wk, w'⟩, hchosen⟩ := chooseWorker_isSome ⟨(k, w), find?_eq_some_iff.mp hw, helig⟩
  obtain ⟨w₁, hmem₁, helig₁, hdevice₁⟩ := placements_chosen hturn hchosen
  have hroom : memoryRefused (u.devMem.getD w'.device.id {}) (u.groupGrowth g.members) = false := by
    have hcap : (u.devMem.getD w'.device.id {}).capacity = 0 := by
      have hlimit := h.unlimited (wk, w₁) hmem₁ helig₁
      rw [show w₁.device = w'.device from hdevice₁, ← placements_capacityAt hturn] at hlimit
      exact hlimit
    simp [memoryRefused, hcap]
  exact ⟨wk, w', _, hne, hchosen, hroom, rfl⟩

end Turns

theorem supportsGroup_of_text (h : k.toText = k'.toText) (w : WorkerDescriptor) :
    supportsGroup w k = supportsGroup w k' := by
  have hsame := CompatibilityKey.sameText h
  unfold supportsGroup
  rw [hsame.model, hsame.revision, hsame.device]

theorem eligible_of_text (h : k.toText = k'.toText) (w : WorkerDescriptor) : eligible w k = eligible w k' := by
  unfold eligible
  rw [supportsGroup_of_text h]

/-- Placement goes by the text of the key. -/
theorem Placeable.of_text (h : k.toText = k'.toText) (hk : s.Placeable tn k) : s.Placeable tn k' := by
  obtain ⟨e, he, hhealth, hsupports, hslots⟩ := hk.spare
  refine ⟨⟨e, he, hhealth, ?_, ?_⟩, ?_⟩
  · rw [← supportsGroup_of_text h]
    exact hsupports
  · unfold rivals at hslots ⊢
    rw [← h]
    exact hslots
  · intro e he helig
    exact hk.unlimited e he ((eligible_of_text h e.2).trans helig)

/-! Who goes out. -/

/-- Sequence `q` is in a dispatch of the tick. -/
def GoesOut (s : Fabric) (tn : TimePoint) (q : SequenceId) : Prop :=
  ∃ d ∈ (s.schedule tn).2, ∃ m ∈ d.members, m.sequence = q

/-- The group of a sequence has its turn. -/
theorem exists_placement (hq : q ∈ (s.formedAt tn).grouped) :
    ∃ u out g, ((u, out), g) ∈ s.placements tn ∧ q ∈ g.members := by
  obtain ⟨g, hg, hm⟩ := mem_flatMap.mp hq
  obtain ⟨⟨u, out⟩, hturn⟩ := exists_turn (f := placeGroup tn) (s := ((s.formedAt tn).fabric, [])) hg
  exact ⟨u, out, g, hturn, hm⟩

theorem GoesOut.turn (h : s.GoesOut tn q) :
    ∃ u out g wk w d, ((u, out), g) ∈ s.placements tn ∧ Sent tn u g wk w d ∧ q ∈ g.members := by
  obtain ⟨d, hd, m, hm, rfl⟩ := h
  obtain ⟨u, out, g, wk, w, hturn, hsent⟩ := dispatch_turn hd
  refine ⟨u, out, g, wk, w, d, hturn, hsent, ?_⟩
  rw [← (placements_turn hturn).names hsent]
  exact mem_map_of_mem hm

theorem Sent.goesOut {u : Fabric} {g : Formed} {d : Dispatch}
    (h : Sent tn u g wk w d) (hturn : ((u, out), g) ∈ s.placements tn) (hq : q ∈ g.members) : s.GoesOut tn q := by
  have ht := placements_turn hturn
  rw [← ht.names h] at hq
  obtain ⟨m, hm, rfl⟩ := mem_map.mp hq
  exact ⟨d, ht.kept d (h.listed out), m, hm, rfl⟩

/-- Whoever is grouped under a placeable key goes out. -/
theorem Placeable.goesOut (hx : s.seqs.find? q = some x) (hq : q ∈ (s.formedAt tn).grouped)
    (h : s.Placeable tn (s.keyForModel x.req)) : s.GoesOut tn q := by
  obtain ⟨u, out, g, hturn, hm⟩ := exists_placement hq
  obtain ⟨x', hdue, htext, -⟩ := (placements_turn hturn).member q hm
  cases hx.symm.trans hdue.found
  obtain ⟨wk, w, d, hsent⟩ := (h.of_text htext).sent hturn (ne_nil_of_mem hm)
  exact hsent.goesOut hturn hm

/-- Within limits that do not bind, a sequence that can go out is grouped. -/
theorem Due.grouped (hx : s.Due tn q x) (himp : s.Impartial)
    (hsize : s.candidateCount tn ≤ s.cfg.groupLimits.maxSequences.toNat) : q ∈ (s.formedAt tn).grouped := by
  obtain ⟨c, hc, rfl⟩ := hx.collected
  have hlist := poll_shortlist (s := s) tn
  have hcount : (s.poll tn).2.length ≤ s.candidateCount tn := by
    have hones : (s.poll tn).2.length = (((s.poll tn).2.map Candidate.seq).map fun _ => 1).sum := by
      rw [map_const', sum_replicate_nat, Nat.mul_one, length_map]
    rw [hones]
    refine keys_le_total hlist.nodup fun q hq => ?_
    obtain ⟨c, hc, rfl⟩ := mem_map.mp hq
    obtain ⟨x, hdue, -, -⟩ := hlist.due c hc
    exact ⟨x, hdue.found, by rw [if_pos hdue.ready]⟩
  exact formedAt_all himp (hcount.trans hsize) c hc

end Fabric

theorem compatible_worker_used (s : Fabric) (tn : TimePoint) {q : SequenceId} {x : Seq} (hx : s.seqs.find? q = some x)
    (hc : x.machine.isCandidate = true) (hbudget : x.budget.exhausted = false) (htime : x.deadlineReached tn = false)
    (himp : s.Impartial) (hsize : s.candidateCount tn ≤ s.cfg.groupLimits.maxSequences.toNat) :
    -- without a healthy worker of the key that was found, with a slot to spare, the sequence stays behind
    (s.GoesOut tn q → (s.keyForModel x.req).valid = true ∧
      ∃ e ∈ s.workers.entries, eligible e.2 (s.keyForModel x.req) = true) ∧
    -- with one that has room for it, the sequence goes out
    ((s.keyForModel x.req).valid = true → s.Placeable tn (s.keyForModel x.req) → s.GoesOut tn q) := by
  constructor
  · intro hout
    obtain ⟨u, out, g, wk, w, d, hturn, hsent, hm⟩ := hout.turn
    obtain ⟨x', hdue, htext, -⟩ := (placements_turn hturn).member q hm
    cases hx.symm.trans hdue.found
    obtain ⟨w₀, hmem, helig, -⟩ := placements_chosen hturn hsent.chosen
    exact ⟨hdue.served, (wk, w₀), hmem, (eligible_of_text htext w₀).trans helig⟩
  · intro hvalid hplace
    have hdue : s.Due tn q x := ⟨hx, hc, hbudget, htime, hvalid⟩
    exact hplace.goesOut hx (hdue.grouped himp hsize)

/-- The sample worker alone, without limits, takes the sample key. -/
theorem Sample.placeable {s : Fabric} (hworkers : s.workers.entries = [(1, worker 1 1)]) (hcap : s.capacityAt 1 = 0)
    (tn : TimePoint) : s.Placeable tn key := by
  constructor
  · rw [hworkers]
    exact ⟨_, mem_cons_self, rfl, rfl, .inl rfl⟩
  · intro e he _
    rw [hworkers] at he
    obtain rfl := mem_singleton.mp he
    exact hcap

theorem compatible_worker_used_idle : (start.execAll (dispatched.take 2)).Placeable 1 key ∧
    (start.execAll (dispatched.take 2)).GoesOut 1 1 := by
  have hplace : (start.execAll (dispatched.take 2)).Placeable 1 key := placeable rfl rfl 1
  have hx : (start.execAll (dispatched.take 2)).seqs.find? 1 = some (ofRequest request) := rfl
  exact ⟨hplace, (compatible_worker_used _ 1 hx rfl rfl rfl ⟨rfl, rfl⟩ (by decide)).2 rfl hplace⟩

/-- Worker 2, on a device of its own, could serve the request, but the key comes from worker 1, which is dead. -/
def Sample.eclipsed : Fabric :=
  start.execAll
    [.registerWorker (worker 1 1),
     .registerWorker { worker 2 2 with device := { id := 2 }, supportedModels := [{ key with device := 2 }] },
     .submit request, .markWorkerDead 1]

theorem compatible_worker_unused : Reachable eclipsed ∧
    -- worker 2 is healthy, without limits, and serves the request
    (∃ w, eclipsed.workers.find? 2 = some w ∧ w.health = .healthy ∧ w.advertisedCapacity = 0 ∧
      eclipsed.capacityAt w.device.id = 0 ∧ request.deviceConstraint = 0 ∧
      ∃ mk ∈ w.supportedModels, mk.model = request.model ∧ mk.revision = request.revision ∧
        mk.adapter = request.adapter ∧ mk.device ≠ 0) ∧
    -- the sequence is ready and the limits do not bind
    (∃ x, eclipsed.seqs.find? 1 = some x ∧ x.req = request ∧ x.machine = .ready ∧
      x.budget.exhausted = false ∧ x.deadlineReached 1 = false) ∧
    eclipsed.Impartial ∧
    eclipsed.candidateCount 1 ≤ eclipsed.cfg.groupLimits.maxSequences.toNat ∧
    ¬eclipsed.GoesOut 1 1 := by
  refine ⟨⟨_, runsTo _⟩, ⟨_, rfl, rfl, rfl, rfl, rfl, { key with device := 2 }, mem_cons_self, rfl, rfl,
    rfl, by decide⟩, ⟨_, rfl, rfl, rfl, rfl, rfl⟩, ⟨rfl, rfl⟩, by decide, ?_⟩
  rintro ⟨d, hd, -⟩
  have hnone : (eclipsed.schedule 1).2 = [] := rfl
  rw [hnone] at hd
  cases hd

/-! What waiting is worth. -/

/-- The nanoseconds since the last token, or since the sequence was ready if it has none. -/
def Seq.since (tn : TimePoint) (x : Seq) : Int :=
  max 0 (tn - if x.lastTokenAt ≠ 0 then x.lastTokenAt else x.readyAt)

/-- The starvation age in the score: the seconds waited, at most one. Rounding them to a `double` keeps their order
    and is left out. -/
def Seq.age (tn : TimePoint) (x : Seq) : ℚ := min 1 (x.since tn / 1000000000)

/-- The time a record has waited starts at the same moments. -/
structure Seq.WaitsOn (x y : Seq) : Prop where
  readyAt : y.readyAt = x.readyAt
  lastTokenAt : y.lastTokenAt = x.lastTokenAt

theorem Seq.WaitsOn.age_le {y : Seq} (h : x.WaitsOn y) {tn tn' : TimePoint} (hle : tn ≤ tn') :
    x.age tn ≤ y.age tn' := by
  have hsince : x.since tn ≤ y.since tn' := by
    unfold since
    rw [h.readyAt, h.lastTokenAt]
    exact max_le_max_left 0 (Int.sub_le_sub_right hle _)
  have hseconds : (x.since tn : ℚ) / 1000000000 ≤ y.since tn' / 1000000000 :=
    div_le_div_of_nonneg_right (by exact_mod_cast hsince) (by decide)
  exact min_le_min_left 1 hseconds

namespace Fabric
variable {s : Fabric} {tn : TimePoint}

/-- A sequence that can go out has a worker to go to, or starts waiting only now. -/
def Accommodates (s : Fabric) (tn : TimePoint) (q : SequenceId) : Prop :=
  ∀ x, s.Due tn q x → s.Placeable tn (s.keyForModel x.req) ∨ x.readyAt = tn

/-- The age of `q` at each of the ticks `ts`, as its score is computed there. -/
def ages (q : SequenceId) : Fabric → List TimePoint → List ℚ
  | _, [] => []
  | s, tn :: ts => ((s.seqs.find? q).map (age tn)).getD 0 :: ages q (s.schedule tn).1 ts

/-- At the ticks `ts`, in order of time, `q` could always be accommodated and goes out at the last one or not at all. -/
def Queues (q : SequenceId) : Fabric → List TimePoint → Prop
  | s, tn :: tn' :: ts => tn ≤ tn' ∧ ¬s.GoesOut tn q ∧ s.Accommodates tn q ∧ Queues q (s.schedule tn).1 (tn' :: ts)
  | _, _ => True

theorem formedAt_due (hx : s.seqs.find? q = some x) (hq : q ∈ (s.formedAt tn).grouped) : s.Due tn q x := by
  obtain ⟨u, out, g, hturn, hm⟩ := exists_placement hq
  obtain ⟨x', hdue, -, -⟩ := (placements_turn hturn).member q hm
  cases hx.symm.trans hdue.found
  exact hdue

theorem Unplaceable.of_stays {u : Fabric} {g : Formed} (hturn : ((u, out), g) ∈ s.placements tn)
    (hq : q ∈ g.members) (hstays : ¬s.GoesOut tn q) : u.Unplaceable g := by
  unfold Unplaceable
  cases hw : u.chooseWorker g.key with
  | none => trivial
  | some e =>
    by_contra hroom
    have hsent : Sent tn u g e.1 e.2 _ := ⟨ne_nil_of_mem hq, hw, Bool.eq_false_iff.mpr hroom, rfl⟩
    exact hstays (hsent.goesOut hturn hq)

/-- What a tick leaves of a sequence that stays: whoever was grouped in vain starts waiting again. -/
theorem schedule_stays (hx : s.seqs.find? q = some x) (hstays : ¬s.GoesOut tn q) :
    ∃ y, (s.schedule tn).1.seqs.find? q = some y ∧ y.lastTokenAt = x.lastTokenAt ∧
      y.readyAt = if q ∈ (s.formedAt tn).grouped then tn else x.readyAt := by
  by_cases hq : q ∈ (s.formedAt tn).grouped
  · obtain ⟨u, out, g, hturn, hm⟩ := exists_placement hq
    have ht := placements_turn hturn
    obtain ⟨x', hdue, -, hfind⟩ := ht.member q hm
    cases hx.symm.trans hdue.found
    obtain ⟨-, -, -, -, hback⟩ := (Unplaceable.of_stays hturn hm hstays).result tn out ht.nodup
    refine ⟨(x.enterGroup tn).moveTo .ready, ?_, rfl, (if_pos hq).symm⟩
    rw [ht.final q hm, hback q hm, hfind, Option.map_some]
  · obtain ⟨st, res, hpolled⟩ := x.polled_shape tn
    refine ⟨x.polled tn, by rw [s.schedule_ungrouped hq, hx]; rfl, ?_, ?_⟩
    · rw [hpolled]
    · rw [if_neg hq, hpolled]

theorem Accommodates.waitsOn (h : s.Accommodates tn q) (hx : s.seqs.find? q = some x)
    (hstays : ¬s.GoesOut tn q) : ∃ y, (s.schedule tn).1.seqs.find? q = some y ∧ x.WaitsOn y := by
  obtain ⟨y, hy, htoken, hready⟩ := schedule_stays hx hstays
  refine ⟨y, hy, ?_, htoken⟩
  rw [hready]
  split
  · next hq =>
    rcases h x (formedAt_due hx hq) with hplace | hnow
    · exact absurd (hplace.goesOut hx hq) hstays
    · exact hnow.symm
  · rfl

theorem Queues.ages_chain : ∀ {ts : List TimePoint} {s : Fabric}, Queues q s ts → (ages q s ts).IsChain (· ≤ ·)
  | [], _, _ => .nil
  | [_], _, _ => .singleton _
  | tn :: tn' :: ts, s, h => by
    obtain ⟨hle, hstays, hroom, hrest⟩ := h
    refine isChain_cons_cons.mpr ⟨?_, hrest.ages_chain⟩
    cases hx : s.seqs.find? q with
    | none =>
      have hq : q ∉ (s.formedAt tn).grouped := fun hq => by
        obtain ⟨x, hx', -⟩ := s.formedAt_grouped hq
        rw [hx] at hx'
        cases hx'
      rw [s.schedule_ungrouped hq, hx]
      rfl
    | some x =>
      obtain ⟨y, hy, hwaits⟩ := hroom.waitsOn hx hstays
      rw [hy]
      exact hwaits.age_le hle

end Fabric

theorem waiting_time_kept (s : Fabric) (tn : TimePoint) {q : SequenceId} {x : Seq} (hx : s.seqs.find? q = some x)
    (hstays : ¬s.GoesOut tn q) : (∃ y, (s.schedule tn).1.seqs.find? q = some y ∧
      -- who is not sent keeps its time exactly if it was not grouped in vain
      (y.readyAt = x.readyAt ↔ x.readyAt = tn ∨ q ∉ (s.formedAt tn).grouped) ∧
      -- under limits that do not bind, exactly if it could not have been sent
      (s.Impartial → s.candidateCount tn ≤ s.cfg.groupLimits.maxSequences.toNat →
        (y.readyAt = x.readyAt ↔ x.readyAt = tn ∨ ¬s.Due tn q x)) ∧
      (s.Accommodates tn q → y.readyAt = x.readyAt)) ∧
    ∀ ts, s.Queues q ts → (s.ages q ts).Pairwise (· ≤ ·) := by
  refine ⟨?_, fun ts h => isChain_iff_pairwise.mp h.ages_chain⟩
  obtain ⟨y, hy, htoken, hready⟩ := schedule_stays hx hstays
  have hexact : y.readyAt = x.readyAt ↔ x.readyAt = tn ∨ q ∉ (s.formedAt tn).grouped := by
    rw [hready]
    by_cases hq : q ∈ (s.formedAt tn).grouped
    · rw [if_pos hq, eq_comm]
      exact ⟨.inl, fun h => h.resolve_right (not_not_intro hq)⟩
    · rw [if_neg hq]
      exact ⟨fun _ => .inr hq, fun _ => rfl⟩
  refine ⟨y, hy, hexact, fun himp hsize => ?_, fun hroom => ?_⟩
  · have hdue : q ∈ (s.formedAt tn).grouped ↔ s.Due tn q x :=
      ⟨formedAt_due hx, fun hdue => hdue.grouped himp hsize⟩
    rw [hexact, hdue]
  · obtain ⟨y', hy', hwaits⟩ := hroom.waitsOn hx hstays
    cases hy.symm.trans hy'
    exact hwaits.readyAt

/-- Two sequences, and groups of one. -/
def Sample.crowded : Fabric :=
  (init { groupLimits := { maxSequences := 1 } } 0).execAll
    [.registerWorker (worker 1 1), .submit request, .submit { request with id := 2, sequence := 2 }]

theorem waiting_time_kept_crowded : ¬crowded.GoesOut 5 2 ∧ crowded.Accommodates 5 2 ∧
    (∃ y, (crowded.schedule 5).1.seqs.find? 2 = some y ∧ y.readyAt = 0) ∧
    (crowded.ages 2 [5, 6]).Pairwise (· ≤ ·) := by
  have hx : crowded.seqs.find? 2 = some (ofRequest { request with id := 2, sequence := 2 }) := rfl
  have hstays : ¬crowded.GoesOut 5 2 := by
    have hsent : (crowded.schedule 5).2.flatMap (fun d => d.members.map DecodeMemberSpec.sequence) = [1] := by decide
    rintro ⟨d, hd, m, hm, hq⟩
    have hmem : m.sequence ∈ (crowded.schedule 5).2.flatMap fun d => d.members.map DecodeMemberSpec.sequence :=
      mem_flatMap.mpr ⟨d, hd, mem_map_of_mem hm⟩
    rw [hsent, hq] at hmem
    exact absurd hmem (by decide)
  have hroom : crowded.Accommodates 5 2 := by
    intro x hdue
    cases hx.symm.trans hdue.found
    exact .inl (placeable rfl rfl 5)
  obtain ⟨⟨y, hy, -, -, hkept⟩, hages⟩ := waiting_time_kept crowded 5 hx hstays
  exact ⟨hstays, hroom, ⟨y, hy, hkept hroom⟩, hages [5, 6] ⟨by decide, hstays, hroom, trivial⟩⟩

/-- The worker that would serve the sample request is dead. -/
def Sample.deserted : Fabric :=
  start.execAll [.registerWorker (worker 1 1), .submit request, .markWorkerDead 1]

theorem waiting_time_lost : Reachable deserted ∧ ¬deserted.GoesOut 5 1 ∧
    ∃ x y, deserted.seqs.find? 1 = some x ∧ (deserted.schedule 5).1.seqs.find? 1 = some y ∧
      y.machine = .ready ∧ y.readyAt ≠ x.readyAt ∧ x.lastTokenAt = 0 ∧ y.age 6 < x.age 5 := by
  refine ⟨⟨_, runsTo _⟩, ?_, _, _, rfl, rfl, rfl, by decide, rfl, by decide +kernel⟩
  rintro ⟨d, hd, -⟩
  have hnone : (deserted.schedule 5).2 = [] := rfl
  rw [hnone] at hd
  cases hd

end DecodeFabric
