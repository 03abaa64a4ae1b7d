import DecodeFabric.Lifetime

/- Device memory.

   One reservation is charged per group and given back through whichever member is resolved first, from ten places.
   The accounts of a device are exact all the same: its reserved bytes are the sum of the reservations still on the
   books, within its capacity, as long as no device is registered without memory (`memory_exact`). The clamp in
   `release_reservation` is never needed, wherever it is called; `Op.releaseCalls` lists the places. -/
namespace DecodeFabric
open Lib Table Fabric List Sample UInt64 DecodeFabric.Seq
variable {s u v : Fabric} {h : Holdings} {res : Reservation} {wk : WorkerId}

/-! Exact accounts. -/

/-- The bytes of the reservations on device `d` that are on the books. -/
def Accounts.liveBytes (a : Accounts) (d : DeviceId) : Nat :=
  a.reservations.total fun _ r => if r.device = d ∧ r.released = false then r.bytes.toNat else 0

/-- What the device has left. -/
def DevMem.room (dm : DevMem) : Nat := dm.capacity.toNat - dm.reserved.toNat

/-- A device with memory accepts a group if the group and the floor each fit into what it has left. -/
theorem Fabric.memoryRefused_iff {dm : DevMem} {growth : UInt64} : memoryRefused dm growth = false ↔
    (0 < dm.capacity → growth.toNat ≤ dm.room ∧ dm.headroomFloor.toNat ≤ dm.room) := by
  have hroom : (if dm.capacity > dm.reserved then dm.capacity - dm.reserved else 0).toNat = dm.room := by
    unfold DevMem.room
    split
    · next hlt => exact UInt64.toNat_sub_of_le _ _ (UInt64.le_of_lt hlt)
    · next hle => exact (Nat.sub_eq_zero_of_le (UInt64.le_iff_toNat_le.mp (UInt64.not_lt.mp hle))).symm
  unfold memoryRefused
  generalize (if dm.capacity > dm.reserved then dm.capacity - dm.reserved else 0) = headroom at hroom ⊢
  simp only [decide_eq_false_iff_not, not_and, not_or, gt_iff_lt, lt_iff_toNat_lt, hroom, Nat.not_lt, UInt64.toNat_zero]
  omega

/-- A released reservation is taken off the books at once, and none is numbered ahead. -/
structure Accounts.Filed (a : Accounts) : Prop where
  live : ∀ ρ r, a.reservations.find? ρ = some r → r.released = false
  numbered : ∀ ρ r, a.reservations.find? ρ = some r → ρ < a.nextReservation

structure Accounts.Exact (a : Accounts) : Prop extends a.Filed where
  sum : ∀ d, (a.devMem.getD d {}).reserved.toNat = a.liveBytes d
  within : ∀ d, (a.devMem.getD d {}).reserved ≤ (a.devMem.getD d {}).capacity
  equipped : ∀ k w, a.workers.find? k = some w → 0 < (a.devMem.getD w.device.id {}).capacity

namespace Accounts
variable {a : Accounts}

/-- What a release does, if it does anything. -/
theorem release_cases (a : Accounts) (ρ : ReservationId) : a.release ρ = a ∨
    ∃ r, a.reservations.find? ρ = some r ∧ r.released = false ∧ a.release ρ =
      { a with devMem := a.devMem.modify r.device (·.release r.bytes), reservations := a.reservations.erase ρ } := by
  unfold release
  split
  · exact .inl rfl
  · split
    · exact .inl rfl
    · next r hr =>
      split
      · exact .inl rfl
      · next hlive => exact .inr ⟨r, hr, by simpa using hlive, rfl⟩

theorem Filed.release (h : a.Filed) (ρ : ReservationId) : (a.release ρ).Filed := by
  refine ⟨fun ρ' r hr => h.live ρ' r (release_find? _ _ hr), fun ρ' r hr => ?_⟩
  rw [release_nextReservation]
  exact h.numbered ρ' r (release_find? _ _ hr)

/-- A reservation that is given back was part of the sum. -/
theorem liveBytes_erase {ρ : ReservationId} {r : Reservation} (hr : a.reservations.find? ρ = some r)
    (hlive : r.released = false) (devMem : Table DeviceId DevMem) (d : DeviceId) :
    liveBytes { a with devMem, reservations := a.reservations.erase ρ } d +
      (if r.device = d then r.bytes.toNat else 0) = a.liveBytes d := by
  have hsum := total_erase hr fun _ (r : Reservation) => if r.device = d ∧ r.released = false then r.bytes.toNat else 0
  simpa [hlive, liveBytes] using hsum

/-- The clamp at zero is subtraction in the naturals. -/
theorem release_toNat (dm : DevMem) (bytes : UInt64) :
    (dm.release bytes).reserved.toNat = dm.reserved.toNat - bytes.toNat := by
  unfold DevMem.release
  simp only
  split
  · next hle => exact UInt64.toNat_sub_of_le _ _ hle
  · next hlt =>
    have hlt : dm.reserved.toNat < bytes.toNat := UInt64.lt_iff_toNat_lt.mp (UInt64.not_le.mp hlt)
    rw [Nat.sub_eq_zero_of_le (Nat.le_of_lt hlt)]
    rfl

theorem release_empty (bytes : UInt64) : (({} : DevMem).release bytes) = {} := by
  unfold DevMem.release
  simp only
  split
  · next hle =>
    have hzero : bytes = 0 := UInt64.le_antisymm hle UInt64.zero_le
    rw [hzero]
    rfl
  · rfl

/-- The device of a reservation that is given back, and the others. -/
theorem release_devMem (r : Reservation) (d : DeviceId) :
    ((a.devMem.modify r.device (·.release r.bytes)).getD d {}).reserved.toNat =
        (a.devMem.getD d {}).reserved.toNat - (if r.device = d then r.bytes.toNat else 0) ∧
      ((a.devMem.modify r.device (·.release r.bytes)).getD d {}).capacity = (a.devMem.getD d {}).capacity := by
  rw [getD_modify _ _ _ (release_empty _)]
  by_cases hd : d = r.device
  · rw [if_pos hd, if_pos hd.symm, release_toNat]
    exact ⟨rfl, rfl⟩
  · rw [if_neg hd, if_neg (Ne.symm hd)]
    exact ⟨rfl, rfl⟩

theorem Exact.release (h : a.Exact) (ρ : ReservationId) : (a.release ρ).Exact := by
  rcases release_cases a ρ with hsame | ⟨r, hr, hlive, hrel⟩
  · rw [hsame]
    exact h
  · refine { h.toFiled.release ρ with sum := ?_, within := ?_, equipped := ?_ }
    · intro d
      have herase := liveBytes_erase hr hlive (a.devMem.modify r.device (·.release r.bytes)) d
      have hmem := release_devMem (a := a) r d
      have hsum := h.sum d
      rw [hrel, hmem.1]
      omega
    · intro d
      have hmem := release_devMem (a := a) r d
      have hwithin := le_iff_toNat_le.mp (h.within d)
      rw [hrel, le_iff_toNat_le, hmem.1, hmem.2]
      omega
    · intro k w hw
      rw [hrel] at hw ⊢
      show 0 < ((a.devMem.modify r.device (·.release r.bytes)).getD w.device.id {}).capacity
      rw [(release_devMem r w.device.id).2]
      exact h.equipped k w hw

theorem Filed.fresh (h : a.Filed) : a.reservations.find? a.nextReservation = none := by
  cases hr : a.reservations.find? a.nextReservation with
  | none => rfl
  | some r => exact absurd (h.numbered _ r hr) (Nat.lt_irrefl _)

theorem charge_find? (h : Holdings) (res : Reservation) (wk : WorkerId) (ρ : ReservationId) :
    (h.charge res wk).accounts.reservations.find? ρ =
      if ρ = h.accounts.nextReservation then some res else h.accounts.reservations.find? ρ := find?_insert _ _ _ _

theorem Filed.charge (hf : h.accounts.Filed) (hlive : res.released = false)
    (wk : WorkerId) : (h.charge res wk).accounts.Filed := by
  constructor
  all_goals
    intro ρ r hr
    rw [charge_find?] at hr
    split at hr
  · cases hr
    exact hlive
  · exact hf.live ρ r hr
  · next heq => exact heq ▸ Nat.lt_succ_self _
  · exact Nat.lt_succ_of_lt (hf.numbered ρ r hr)

theorem liveBytes_charge (hf : h.accounts.Filed) (hlive : res.released = false)
    (wk : WorkerId) (d : DeviceId) : (h.charge res wk).accounts.liveBytes d =
      h.accounts.liveBytes d + if res.device = d then res.bytes.toNat else 0 := by
  have hsum := total_insert_new hf.fresh res
    fun _ (r : Reservation) => if r.device = d ∧ r.released = false then r.bytes.toNat else 0
  simpa [hlive, liveBytes, Holdings.charge] using hsum

theorem charge_devMem (h : Holdings) (res : Reservation) (wk : WorkerId) (d : DeviceId) :
    (h.charge res wk).accounts.devMem.getD d {} =
      if d = res.device then
        { h.accounts.devMem.getD d {} with reserved := (h.accounts.devMem.getD d {}).reserved + res.bytes }
      else h.accounts.devMem.getD d {} := by
  unfold Holdings.charge
  simp only [getD_insert]
  split
  · next hd => rw [hd]
  · rfl

theorem Exact.charge (hx : h.accounts.Exact) (hlive : res.released = false)
    {w : WorkerDescriptor} (hw : h.accounts.workers.find? wk = some w) (hdev : res.device = w.device.id)
    (hroom : memoryRefused (h.accounts.devMem.getD res.device {}) res.bytes = false) :
    (h.charge res wk).accounts.Exact := by
  have hfits := Nat.add_le_of_le_sub' (le_iff_toNat_le.mp (hx.within res.device))
    (Fabric.memoryRefused_iff.mp hroom (hdev ▸ hx.equipped wk w hw)).1
  have hbound := (h.accounts.devMem.getD res.device {}).capacity.toNat_lt
  have hadd : ((h.accounts.devMem.getD res.device {}).reserved + res.bytes).toNat =
      (h.accounts.devMem.getD res.device {}).reserved.toNat + res.bytes.toNat := by
    rw [UInt64.toNat_add, Nat.mod_eq_of_lt (by omega)]
  refine { hx.toFiled.charge hlive wk with sum := ?_, within := ?_, equipped := ?_ }
  · intro d
    rw [charge_devMem, liveBytes_charge hx.toFiled hlive]
    by_cases hd : d = res.device
    · subst hd
      rw [if_pos rfl, if_pos rfl, ← hx.sum]
      exact hadd
    · rw [if_neg hd, if_neg (Ne.symm hd)]
      exact hx.sum d
  · intro d
    rw [charge_devMem]
    split
    · next hd =>
      subst hd
      rw [le_iff_toNat_le, hadd]
      exact hfits
    · exact hx.within d
  · intro k v hv
    rw [charge_devMem]
    have hequipped : 0 < (h.accounts.devMem.getD v.device.id {}).capacity := by
      rcases find?_modify_cases hv with ⟨-, v', hv', rfl⟩ | ⟨-, hv'⟩
      · exact hx.equipped _ v' hv'
      · exact hx.equipped k v hv'
    split
    · exact hequipped
    · exact hequipped

/-- Exactness does not look at the tenants' slots. -/
theorem Exact.slots (h : a.Exact) (tenantActive : Table TenantId UInt32) : Exact { a with tenantActive } :=
  { live := h.live, numbered := h.numbered, sum := h.sum, within := h.within, equipped := h.equipped }

theorem Exact.pay (hx : h.accounts.Exact) (x : Seq) (free slot : Bool)
    (entry : TerminalEntry) : (h.pay x free slot entry).accounts.Exact := by
  have hslot : (if slot then h.accounts.releaseSlot x.req.tenant else h.accounts).Exact := by
    split
    · exact hx.slots _
    · exact hx
  unfold Holdings.pay
  simp only
  split
  · exact hslot.release _
  · exact hslot

theorem register_devMem (h : Holdings) (wd : WorkerDescriptor) (d : DeviceId) :
    ((h.register wd).accounts.devMem.getD d {}).reserved = (h.accounts.devMem.getD d {}).reserved ∧
      ((h.register wd).accounts.devMem.getD d {}).capacity =
        if d = wd.device.id then max (h.accounts.devMem.getD d {}).capacity wd.device.memoryBytes
        else (h.accounts.devMem.getD d {}).capacity := by
  unfold Holdings.register
  simp only [getD_insert]
  split
  · next hd =>
    subst hd
    exact ⟨rfl, rfl⟩
  · exact ⟨rfl, rfl⟩

theorem le_max_uint64 (m n : UInt64) : m ≤ max m n ∧ n ≤ max m n := by
  change m ≤ (if m ≤ n then n else m) ∧ n ≤ (if m ≤ n then n else m)
  split
  · next hle => exact ⟨hle, UInt64.le_refl _⟩
  · next hgt => exact ⟨UInt64.le_refl _, UInt64.le_of_lt (UInt64.not_le.mp hgt)⟩

/-- Registration only raises capacities. -/
theorem register_capacity (h : Holdings) (wd : WorkerDescriptor) (d : DeviceId) :
    (h.accounts.devMem.getD d {}).capacity ≤ ((h.register wd).accounts.devMem.getD d {}).capacity := by
  rw [(register_devMem h wd d).2]
  split
  · exact (le_max_uint64 _ _).1
  · exact UInt64.le_refl _

theorem Exact.register (hx : h.accounts.Exact) {wd : WorkerDescriptor} (hmem : 0 < wd.device.memoryBytes) :
    (h.register wd).accounts.Exact := by
  refine { live := hx.live, numbered := hx.numbered, sum := ?_, within := ?_, equipped := ?_ }
  · intro d
    rw [(register_devMem h wd d).1]
    exact hx.sum d
  · intro d
    rw [(register_devMem h wd d).1]
    exact UInt64.le_trans (hx.within d) (register_capacity h wd d)
  · intro k w hw
    change (h.accounts.workers.insert wd.id wd).find? k = some w at hw
    rw [find?_insert] at hw
    split at hw
    · cases hw
      rw [(register_devMem h wd _).2, if_pos rfl]
      exact UInt64.lt_of_lt_of_le hmem (le_max_uint64 _ _).2
    · exact UInt64.lt_of_lt_of_le (hx.equipped k w hw) (register_capacity h wd _)

end Accounts

/-- A group is sent to a worker of the fabric, on its device, if the device has room. -/
theorem Sending.fits {tn : TimePoint} {members : List SequenceId} {d : Dispatch}
    (h : Sending s tn u members d res wk) : ∃ w, u.workers.find? wk = some w ∧
      res.device = w.device.id ∧ memoryRefused (u.devMem.getD res.device {}) res.bytes = false := by
  obtain ⟨w, hw, -, hdev⟩ := h.worker
  refine ⟨w, find?_eq_some_iff.mpr (chooseWorker_mem hw).1, ?_, ?_⟩
  · rw [h.device, hdev]
  · rw [h.device]
    exact h.room

/-- A call registers no device without memory. -/
def LifeCall.Equips (c : LifeCall) : Prop :=
  ∀ wd, c = .call (.op (.registerWorker wd)) → 0 < wd.device.memoryBytes

theorem deed_exact {c : Call} {d : Deed} (hc : (LifeCall.call c).Equips) (hd : Does u d v)
    (hp : c.Performs s u d) (h : u.accounts.Exact) : v.accounts.Exact := by
  have hto : ∀ {g : Holdings}, v.holdings = g → g.accounts.Exact → v.accounts.Exact := by
    rintro _ rfl hg
    exact hg
  cases hd with
  | note _ hh => exact hto hh h
  | change _ _ hh => exact hto hh (Accounts.Exact.pay h _ _ _ _)
  | enrol _ _ hh => exact hto hh (h.slots _)
  | lose _ hh =>
    refine hto hh { live := h.live, numbered := h.numbered, sum := h.sum, within := h.within, equipped := ?_ }
    intro k w hw
    rcases find?_modify_cases hw with ⟨-, w', hw', rfl⟩ | ⟨-, hw'⟩
    · exact h.equipped _ w' hw'
    · exact h.equipped k w hw'
  | shuffle _ hw hh =>
    refine hto hh { live := h.live, numbered := h.numbered, sum := h.sum, within := h.within, equipped := ?_ }
    intro k w hk
    exact h.equipped k w ((find?_reorder hw k).symm.trans hk)
  | register hs hh =>
    rename_i wd
    refine hto hh (Accounts.Exact.register h (hc wd ?_))
    cases c with
    | op o => cases hp; rfl
    | tick | rehash => cases hp
  | send _ hh =>
    cases c with
    | op o =>
      cases hp with
      | send hsend =>
        obtain ⟨w, hw, hdev, hroom⟩ := hsend.fits
        exact hto hh (Accounts.Exact.charge h hsend.live hw hdev hroom)
    | tick | rehash => cases hp

theorem exact_maintained : Maintained (fun e => e.label.Equips) fun s => s.accounts.Exact where
  init cfg clock := by
    have hsum : ∀ d, ((init cfg clock).accounts.devMem.getD d {}).reserved.toNat =
        (init cfg clock).accounts.liveBytes d := fun _ => rfl
    exact { live := nofun, numbered := nofun, sum := hsum, within := fun _ => UInt64.le_refl _, equipped := nofun }
  deed hc _ _ _ _ hd hp hu := deed_exact hc hd hp hu
  restart _ hr hs := by
    rw [hr.accounts]
    exact hs.slots _

/-! The calls of `release_reservation`. -/

/-- `release_reservation` on `q` would find fewer bytes reserved on the device than it gives back, and clamp. -/
def Fabric.ReleaseClamps (s : Fabric) (q : SequenceId) : Prop :=
  ∃ x r, s.seqs.find? q = some x ∧ x.reservation ≠ 0 ∧ s.reservations.find? x.reservation = some r ∧
    r.released = false ∧ (s.devMem.getD r.device {}).reserved < r.bytes

/-- The fabric and the sequence at the two releases of a non-committing outcome. -/
def Fabric.resolveCalls (s : Fabric) (q : SequenceId) (mo : MemberOutcome) : List (Fabric × SequenceId) :=
  let ended := s.modifySeq q endDispatch
  [(ended, q), (ended.releaseReservation q, mo.sequence)]

/-- The fabric as `finalize` comes to its release. -/
def Fabric.finalizing (s : Fabric) (x : Seq) (r : MemberReceipt) : Fabric :=
  let fin := s.finishTime r
  let u := ((s.modifySeq r.sequence (commitToken fin r)).countToken x r).modifySeq r.sequence (settle fin r)
  let u := if (x.commitToken fin r).endsWith r then u.recordCompleted r.sequence x else u
  { u with grantLedger := u.grantLedger.modify r.grantId (GrantRecord.consume r) }.modifySeq r.sequence endDispatch

/-- Wherever an operation may call `release_reservation`: the fabric at that point, and the sequence. -/
def Op.releaseCalls (s : Fabric) : Op → List (Fabric × SequenceId)
  | .cancel q => [(s, q)]
  | .cancelRequest r => (s.reqToSeq.find? r).toList.map fun q => (s, q)
  | .markWorkerDead id => turns (reconcileWorkerDown id) (s.withoutWorker id) s.seqs.keys
  | .advance tn => turns (advanceSeq tn) s s.seqs.keys
  | .schedule tn =>
    -- both checks of the deadline pass, then the candidates without budget
    (turns (boundarySeq tn) s s.seqs.keys).flatMap (fun p =>
      p :: (p.1.seqs.find? p.2).toList.map fun x => (p.1.expireAt tn p.2 x, p.2)) ++
    (turns (collectSeq tn) (s.boundaryPass tn, []) (s.boundaryPass tn).seqs.keys).map fun p => (p.1.1, p.2)
  | .applyCompletion result =>
    (turns (applyOutcome result) s result.outcomes).flatMap fun p =>
      (p.1, p.2.sequence) :: p.1.resolveCalls p.2.sequence p.2
  | .authorizePrepared prepared =>
    (turns (fun t pm => (authorizeMember prepared t pm).1) s prepared.members).flatMap fun p =>
      (p.1, p.2.sequence) :: p.1.resolveCalls p.2.sequence p.2.outcome
  | .applyCommitReceipt receipts =>
    (turns applyReceipt s receipts.receipts).flatMap fun p =>
      (p.1.seqs.find? p.2.sequence).toList.map fun x => (p.1.finalizing x p.2, p.2.sequence)
  | .abortPrepared a =>
    (s.seqs.find? a.sequence).toList.map fun x =>
      ({ s with grantLedger := s.grantLedger.modify x.inFlightGrant GrantRecord.abort }, a.sequence)
  | .submit _ | .retry _ | .registerWorker _ | .rollEpoch => []

/-- With exact accounts what is given back was reserved. -/
theorem Accounts.Exact.not_clamps (h : s.accounts.Exact) (q : SequenceId) : ¬ s.ReleaseClamps q := by
  rintro ⟨x, r, -, -, hr, hlive, hlt⟩
  have hlt := lt_iff_toNat_lt.mp hlt
  have hsum : (s.devMem.getD r.device {}).reserved.toNat = s.accounts.liveBytes r.device := h.sum r.device
  have herase := liveBytes_erase (a := s.accounts) hr hlive s.devMem r.device
  rw [if_pos rfl] at herase
  omega

theorem Accounts.Exact.releaseReservation (h : s.accounts.Exact) (q : SequenceId) :
    (s.releaseReservation q).accounts.Exact := by
  cases hx : s.seqs.find? q with
  | none =>
    unfold Fabric.releaseReservation
    rw [hx]
    exact h
  | some x =>
    rw [releaseReservation_accounts hx]
    exact h.release _

theorem Accounts.Exact.finalizing (h : s.accounts.Exact) (x : Seq) (r : MemberReceipt) :
    (s.finalizing x r).accounts.Exact := by
  unfold Fabric.finalizing
  simp only
  split
  · exact h.slots _
  · exact h

section Calls
variable {s : Fabric}

/-- Accounts are exact at every call of `release_reservation`. -/
theorem releaseCalls_exact {o : Op} (hc : (LifeCall.call (.op o)).Equips) (h : s.accounts.Exact) :
    ∀ p ∈ o.releaseCalls s, p.1.accounts.Exact := by
  have hdeed : ∀ {u v : Fabric} {d : Deed}, Does u d v → Performs s o u d → u.accounts.Exact → v.accounts.Exact :=
    fun hd hp hu => deed_exact (c := .op o) hc hd hp hu
  -- the two releases of a non-committing outcome
  have hresolve : ∀ {u : Fabric} (q : SequenceId) (mo : MemberOutcome), u.accounts.Exact →
      ∀ p ∈ (u, q) :: u.resolveCalls q mo, p.1.accounts.Exact := by
    intro u q mo hu p hp
    simp only [resolveCalls, mem_cons, not_mem_nil, or_false] at hp
    rcases hp with rfl | rfl | rfl
    · exact hu
    · exact hu
    · exact Accounts.Exact.releaseReservation (s := u.modifySeq q endDispatch) hu q
  intro p hp
  cases o with
  | cancel q =>
    rw [mem_singleton.mp hp]
    exact h
  | cancelRequest r =>
    obtain ⟨q, -, rfl⟩ := mem_map.mp hp
    exact h
  | markWorkerDead id =>
    have hlost : (s.withoutWorker id).accounts.Exact := hdeed (u := s) (.lose rfl rfl) Performs.lose h
    exact Deeds.at_turns hdeed (fun _ hp => reconcileWorkerDown_deeds hp) hlost p hp
  | advance tn => exact Deeds.at_turns hdeed (fun _ hp => advanceSeq_deeds hp) h p hp
  | schedule tn =>
    rcases mem_append.mp hp with hp | hp
    · obtain ⟨p', hp', hmem⟩ := mem_flatMap.mp hp
      have hu := Deeds.at_turns hdeed (fun _ hp => boundarySeq_deeds hp) h p' hp'
      rcases mem_cons.mp hmem with rfl | hmem
      · exact hu
      · obtain ⟨x, -, rfl⟩ := mem_map.mp hmem
        show (p'.1.expireAt tn p'.2 x).accounts.Exact
        unfold expireAt
        split
        · exact (hu.releaseReservation p'.2).slots _
        · exact hu
    · obtain ⟨p', hp', rfl⟩ := mem_map.mp hp
      exact invariant_at_turns (I := fun acc : Fabric × List Candidate => acc.1.accounts.Exact)
        (fun p hp hu => (collectSeq_deeds hp).invariant hdeed hu) ((boundaryPass_deeds tn).invariant hdeed h) p' hp'
  | applyCompletion result =>
    obtain ⟨p', hp', hmem⟩ := mem_flatMap.mp hp
    exact hresolve _ _ (Deeds.at_turns hdeed (fun _ hp => applyOutcome_deeds hp) h p' hp') p hmem
  | authorizePrepared prepared =>
    obtain ⟨p', hp', hmem⟩ := mem_flatMap.mp hp
    exact hresolve _ _ (Deeds.at_turns hdeed (fun _ hp => authorizeMember_deeds hp) h p' hp') p hmem
  | applyCommitReceipt receipts =>
    obtain ⟨p', hp', hmem⟩ := mem_flatMap.mp hp
    obtain ⟨x, -, rfl⟩ := mem_map.mp hmem
    have hu := Deeds.at_turns hdeed (fun _ hp => applyReceipt_deeds hp) h p' hp'
    exact Accounts.Exact.finalizing hu x p'.2
  | abortPrepared a =>
    obtain ⟨x, -, rfl⟩ := mem_map.mp hp
    exact h
  | submit | retry | registerWorker | rollEpoch => simp [Op.releaseCalls] at hp

end Calls

/-- In a lifetime in which no device is registered without memory, the reserved bytes of every device are the sum of
    its live reservations and within its capacity, and no release clamps, at any call of any operation. -/
theorem memory_exact {h : Lifetime} {s : Fabric} (hr : LivesTo h s)
    (hmem : ∀ e ∈ h, ∀ wd, e.label = .call (.op (.registerWorker wd)) → 0 < wd.device.memoryBytes) :
    (∀ d, (s.devMem.getD d {}).reserved.toNat =
        s.reservations.total (fun _ r => if r.device = d ∧ r.released = false then r.bytes.toNat else 0) ∧
      (s.devMem.getD d {}).reserved ≤ (s.devMem.getD d {}).capacity) ∧
    ∀ e ∈ h, ∀ o, e.label = .call (.op o) → ∀ p ∈ o.releaseCalls e.pre, ¬ p.1.ReleaseClamps p.2 := by
  have hend := exact_maintained.holds hr hmem
  refine ⟨fun d => ⟨hend.sum d, hend.within d⟩, fun e he o ho p hp => ?_⟩
  have hequips : (LifeCall.call (.op o)).Equips := ho ▸ hmem e he
  exact (releaseCalls_exact hequips (exact_maintained.holds_before hr hmem he) p hp).not_clamps p.2

namespace Sample

/-- A worker whose device has memory for one step. -/
def smallWorker : WorkerDescriptor := { worker 1 1 with device := { id := 1, memoryBytes := 100 } }

/-- A group of one is charged and its step committed. -/
def charged : List Op := [.registerWorker smallWorker, .submit request, .schedule 1]

def discharged : List Op := charged ++ [.authorizePrepared prepared, .applyCommitReceipt { receipts := [receipt] }]

/-- The labels of the lifetime of a list of operations. -/
theorem lifetime_labels (s : Fabric) (os : List Op) :
    (lifetime (trace s os)).map Edge.label = os.map fun o => .call (.op o) := by
  induction os generalizing s with
  | nil => rfl
  | cons o os ih => exact congrArg _ (ih (s.exec o))

end Sample

theorem memory_exact_discharged : ((start.execAll charged).devMem.getD 1 {}).reserved = 64 ∧
      ((start.execAll discharged).devMem.getD 1 {}).reserved.toNat =
        (start.execAll discharged).reservations.total
          (fun _ r => if r.device = 1 ∧ r.released = false then r.bytes.toNat else 0) := by
  refine ⟨by decide, ((memory_exact (runsTo discharged).livesTo ?_).1 1).1⟩
  intro e he wd hwd
  have hmem := mem_map_of_mem (f := Edge.label) he
  rw [lifetime_labels, hwd] at hmem
  simp [discharged, charged] at hmem
  rw [hmem]
  decide

end DecodeFabric
