import DecodeFabric.Progress

/- Reservations and tenants' slots.

   The books do not cover device memory, reservations and the tenants' active counts. `Fabric.accounts` is
   that part of the state, and what the functions of the model do to it is said here. A reservation ought to be on the
   books as long as a sequence in flight holds it (`Fabric.Charged`), and a tenant's count to be the number of its
   sequences that have not ended (`Fabric.SlotsKept`). -/
namespace DecodeFabric
open Lib Table DecodeFabric.Seq
variable {d : Dispatch} {r : MemberReceipt} {pm : PreparedMember} {x : Seq} {f : Seq → Seq} {q : SequenceId}

structure Accounts where
  workers : Table WorkerId WorkerDescriptor
  devMem : Table DeviceId DevMem
  tenantActive : Table TenantId UInt32
  reservations : Table ReservationId Reservation
  nextReservation : Nat

namespace Accounts

/-- The reservation `ρ` is given back, if it is still there. -/
def release (a : Accounts) (ρ : ReservationId) : Accounts :=
  if ρ = 0 then a
  else
    match a.reservations.find? ρ with
    | none => a
    | some r =>
      if r.released then a
      else
        { a with
          devMem := a.devMem.modify r.device (·.release r.bytes)
          reservations := a.reservations.erase ρ }

/-- Tenant `t` has one sequence less. -/
def releaseSlot (a : Accounts) (t : TenantId) : Accounts :=
  { a with tenantActive := a.tenantActive.insert t (a.tenantActive.getD t 0 - 1) }

variable (a : Accounts) (ρ : ReservationId)

@[simp] theorem release_workers : (a.release ρ).workers = a.workers := by
  unfold release
  split
  · rfl
  · split
    · rfl
    · split <;> rfl

@[simp] theorem release_tenantActive : (a.release ρ).tenantActive = a.tenantActive := by
  unfold release
  split
  · rfl
  · split
    · rfl
    · split <;> rfl

theorem releaseSlot_release (t : TenantId) : (a.releaseSlot t).release ρ = (a.release ρ).releaseSlot t := by
  unfold release
  split
  · rfl
  · simp only [releaseSlot]
    cases a.reservations.find? ρ with
    | none => rfl
    | some r =>
      simp only
      split <;> rfl

@[simp] theorem release_nextReservation : (a.release ρ).nextReservation = a.nextReservation := by
  unfold release
  split
  · rfl
  · split
    · rfl
    · split <;> rfl

/-- Releasing enters nothing. -/
theorem release_find? {ρ' : ReservationId} {r : Reservation}
    (h : (a.release ρ).reservations.find? ρ' = some r) : a.reservations.find? ρ' = some r := by
  unfold release at h
  split at h
  · exact h
  · split at h
    · exact h
    · split at h
      · exact h
      · rw [find?_erase] at h
        split at h
        · cases h
        · exact h

/-- What was live is gone. -/
theorem release_gone (h0 : ρ ≠ 0) (hlive : ∀ r, a.reservations.find? ρ = some r → r.released = false) :
    (a.release ρ).reservations.find? ρ = none := by
  unfold release
  rw [if_neg h0]
  split
  · next hnone => exact hnone
  · next r hr =>
    rw [if_neg (by rw [hlive r hr]; exact Bool.false_ne_true)]
    show (a.reservations.erase ρ).find? ρ = none
    rw [find?_erase, if_pos rfl]

end Accounts

namespace Fabric

def accounts (s : Fabric) : Accounts where
  workers := s.workers
  devMem := s.devMem
  tenantActive := s.tenantActive
  reservations := s.reservations
  nextReservation := s.nextReservation

/-! The operations of a pump, on the accounts. -/

section Effects
variable {s : Fabric} {q : SequenceId} {x : Seq}

theorem releaseReservation_accounts (hx : s.seqs.find? q = some x) :
    (s.releaseReservation q).accounts = s.accounts.release x.reservation := by
  have hfree : (s.freeReservation q x).accounts = match s.reservations.find? x.reservation with
      | none => s.accounts
      | some r => if r.released then s.accounts
        else { s.accounts with
          devMem := s.devMem.modify r.device (·.release r.bytes)
          reservations := s.reservations.erase x.reservation } := by
    unfold freeReservation
    cases s.reservations.find? x.reservation with
    | none => rfl
    | some r =>
      simp only
      split <;> rfl
  unfold releaseReservation Accounts.release
  simp only [hx]
  split
  · rfl
  · exact hfree

/-- The maximum with zero is vacuous. -/
theorem releaseTenantSlot_accounts (t : TenantId) : (s.releaseTenantSlot t).accounts = s.accounts.releaseSlot t := by
  have hmax : ∀ v : UInt32, max 0 v = v := fun v => if_pos UInt32.zero_le
  unfold releaseTenantSlot Accounts.releaseSlot
  rw [hmax]
  rfl

theorem recordCompleted_accounts (q : SequenceId) (x : Seq) :
    (s.recordCompleted q x).accounts = s.accounts.releaseSlot x.req.tenant :=
  releaseTenantSlot_accounts (s := s) x.req.tenant

theorem closeTransaction_accounts (hx : s.seqs.find? r.sequence = some x) (y : Seq) :
    (s.closeTransaction y r).accounts = s.accounts.release x.reservation := by
  let u : Fabric := { s with grantLedger := s.grantLedger.modify r.grantId (GrantRecord.consume r) }
  have hu : (u.modifySeq r.sequence endDispatch).seqs.find? r.sequence = some x.endDispatch := by
    show (s.seqs.modify r.sequence endDispatch).find? r.sequence = _
    rw [find?_modify_self, hx]
    rfl
  exact releaseReservation_accounts (x := x.endDispatch) hu

theorem finalize_accounts (hx : s.seqs.find? r.sequence = some x) : (s.finalize x r).accounts =
      (if (x.commitToken (s.finishTime r) r).endsWith r then s.accounts.releaseSlot x.req.tenant
        else s.accounts).release x.reservation := by
  unfold finalize
  simp only
  generalize hfin : s.finishTime r = fin
  have hsettled : (((s.modifySeq r.sequence (commitToken fin r)).countToken x r).modifySeq r.sequence
      (settle fin r)).seqs.find? r.sequence = some ((x.commitToken fin r).settle fin r) := by
    show ((s.seqs.modify r.sequence (commitToken fin r)).modify r.sequence (settle fin r)).find? r.sequence = _
    rw [find?_modify_self, find?_modify_self, hx]
    rfl
  have hres : ((x.commitToken fin r).settle fin r).reservation = x.reservation := by
    unfold settle
    split <;> rfl
  rw [← hres]
  split
  · rw [← recordCompleted_seqs _ r.sequence x] at hsettled
    rw [closeTransaction_accounts hsettled]
    exact congrArg (Accounts.release · _) (recordCompleted_accounts r.sequence x)
  · exact closeTransaction_accounts hsettled x

theorem ungroup_accounts (members : List SequenceId) : (s.ungroup members).accounts = s.accounts :=
  foldl_invariant (I := fun u : Fabric => u.accounts = s.accounts) (fun _ _ hu => hu) rfl

theorem dispatchGroup_accounts (tn : TimePoint) (g : Formed) (wk : WorkerId) (w : WorkerDescriptor) (growth : UInt64) :
    (s.dispatchGroup tn g wk w growth).1.accounts =
      { (s.openDispatch tn g w growth).1.accounts with
        workers := s.workers.modify wk .charged } := by
  have hscan : (scan (dispatchMember (s.openDispatch tn g w growth).2)
    (s.openDispatch tn g w growth).1 g.members).1.accounts
      = (s.openDispatch tn g w growth).1.accounts := by
    rw [scan_fst]
    refine foldl_invariant (I := fun u : Fabric => u.accounts = (s.openDispatch tn g w growth).1.accounts) ?_ rfl
    rintro ⟨u, q⟩ - hu
    unfold dispatchMember
    split
    · exact hu
    · exact hu
  exact congrArg (fun a : Accounts => { a with
    workers := a.workers.modify wk .charged }) hscan

end Effects
/-! Reservations. -/

/-- Every reservation on the books is held by a sequence in flight. -/
def Charged (s : Fabric) : Prop :=
  ∀ ρ r, s.reservations.find? ρ = some r → r.released = false ∧ ρ ≠ 0 ∧
    ∃ q x, s.seqs.find? q = some x ∧ x.hasInflight = true ∧ x.reservation = ρ

section Reservations
variable {s t : Fabric}

/-- A sequence may change in any way once its reservation is given back. -/
theorem Charged.release (h : s.Charged) (hx : s.seqs.find? q = some x) (hs : t.seqs = s.seqs.modify q f)
    (hr : t.accounts.reservations = (s.accounts.release x.reservation).reservations) : t.Charged := by
  intro ρ r hρ
  change t.accounts.reservations.find? ρ = some r at hρ
  rw [hr] at hρ
  obtain ⟨hlive, h0, j, y, hy, hfly, hres⟩ := h ρ r (Accounts.release_find? _ _ hρ)
  refine ⟨hlive, h0, j, y, ?_, hfly, hres⟩
  have hne : j ≠ q := by
    rintro rfl
    cases hx.symm.trans hy
    rw [← hres, Accounts.release_gone _ _ (hres ▸ h0) fun r hr => (h _ r hr).1] at hρ
    cases hρ
  rw [hs, find?_modify_ne hne]
  exact hy

/-- A change that keeps who is in flight and what they hold. -/
theorem Charged.keep (h : s.Charged) (hs : t.seqs = s.seqs.modify q f)
    (hf : ∀ x, (f x).hasInflight = x.hasInflight ∧ (f x).reservation = x.reservation)
    (hr : t.accounts.reservations = s.accounts.reservations) : t.Charged := by
  intro ρ r hρ
  obtain ⟨hlive, h0, j, y, hy, hfly, hres⟩ := h ρ r (by rw [← hρ]; exact congrArg (find? · ρ) hr.symm)
  refine ⟨hlive, h0, j, ?_⟩
  rw [hs, find?_modify, hy]
  split
  · exact ⟨f y, rfl, (hf y).1.trans hfly, (hf y).2.trans hres⟩
  · exact ⟨y, rfl, hfly, hres⟩

/-- Nobody in flight, nothing reserved. -/
theorem Charged.empty (h : s.Charged) (hidle : s.AllSeqs fun x => x.hasInflight = false) :
    s.reservations.entries = [] := by
  rw [List.eq_nil_iff_forall_not_mem]
  rintro ⟨ρ, r⟩ hmem
  obtain ⟨-, -, q, x, hx, hfly, -⟩ := h ρ r (find?_eq_some_iff.mpr hmem)
  rw [hidle q x hx] at hfly
  cases hfly

end Reservations

/-! Slots. -/

/-- The sequences of tenant `u` that have not ended. -/
def activeOf (s : Fabric) (u : TenantId) : Nat :=
  s.seqs.total fun _ x => if x.req.tenant = u ∧ x.machine.isTerminal = false then 1 else 0

def SlotsKept (s : Fabric) : Prop := ∀ u, s.tenantActive.getD u 0 = UInt32.ofNat (s.activeOf u)

section Slots
variable {s t : Fabric}

theorem activeOf_modify_same (hs : t.seqs = s.seqs.modify q f)
    (hf : ∀ x, s.seqs.find? q = some x → (f x).req = x.req ∧ (f x).machine.isTerminal = x.machine.isTerminal)
    (u : TenantId) : t.activeOf u = s.activeOf u := by
  unfold activeOf
  rw [hs]
  refine total_modify_same fun x hx => ?_
  rw [(hf x hx).1, (hf x hx).2]

theorem SlotsKept.same (h : s.SlotsKept) (ht : t.tenantActive = s.tenantActive)
    (hactive : ∀ u, t.activeOf u = s.activeOf u) : t.SlotsKept := by
  intro u
  rw [ht, hactive]
  exact h u

/-- A sequence ends, and its tenant has one less. -/
theorem SlotsKept.ends (h : s.SlotsKept) (hx : s.seqs.find? q = some x)
    (hs : t.seqs = s.seqs.modify q f) (hreq : (f x).req = x.req) (hlive : x.machine.isTerminal = false)
    (hend : (f x).machine.isTerminal = true)
    (ht : t.tenantActive = (s.accounts.releaseSlot x.req.tenant).tenantActive) : t.SlotsKept := by
  intro u
  have hcount : t.activeOf u + (if x.req.tenant = u then 1 else 0) = s.activeOf u := by
    have htotal := total_modify hx f
      fun _ (x : Seq) => if x.req.tenant = u ∧ x.machine.isTerminal = false then 1 else 0
    simpa [← hs, hreq, hlive, hend, activeOf] using htotal
  have hslot : t.tenantActive.getD u 0 =
      if u = x.req.tenant then s.tenantActive.getD u 0 - 1 else s.tenantActive.getD u 0 := by
    rw [ht]
    unfold getD Accounts.releaseSlot
    simp only [find?_insert]
    split
    · next hu => rw [hu]; rfl
    · rfl
  rw [hslot, h u, ← hcount]
  by_cases hu : u = x.req.tenant
  · rw [if_pos hu, if_pos hu.symm, UInt32.ofNat_add]
    exact UInt32.add_sub_cancel _ _
  · rw [if_neg hu, if_neg (Ne.symm hu), Nat.add_zero]

theorem activeOf_ended (h : s.AllSeqs fun x => x.machine.isTerminal = true) (u : TenantId) : s.activeOf u = 0 := by
  unfold activeOf total
  refine List.sum_eq_zero fun n hn => ?_
  obtain ⟨e, he, rfl⟩ := List.mem_map.mp hn
  have hend := h e.1 e.2 (find?_eq_some_iff.mpr he)
  simp [hend]

end Slots
end Fabric
end DecodeFabric
