import DecodeFabric.Flight

/- Work in flight and the memory charged for it.

   One reservation stands for a whole group. It is given back through whichever member is resolved first, though the
   others may still be in flight; a sequence that is cancelled, expires or runs out of budget gives it back while its
   dispatch is in flight; a retryable failure gives back the reservation of the sequence it names, which in a prepared
   member need not be the member's own; and the growth of a group is added up in 64 bits
   (`group_released_early`).

   In lifetimes without these, the sequences that hold a reservation grow by no more than its bytes, on the device of
   their dispatch, so the reserved bytes of a device cover what is in flight there (`in_flight_charged_when`). Within
   a call a group may lose its reservation before all its members are landed: the invariant leaves out the
   reservations the call gives back (`Op.Dooms`), and at its end nobody holds those. -/
namespace DecodeFabric
open Lib Table List Sample Option DecodeFabric.Seq
variable {req : DecodeRequest} {d : Dispatch} {place : DispatchId → Option DeviceId} {e : Edge Fabric LifeCall}
  {s t : Fabric} {h : Lifetime} {members : List SequenceId} {res : Reservation} {ρ : ReservationId} {x y : Seq}
  {q : SequenceId} {wk : WorkerId}

/-- The device that dispatch `id` was placed on. After a recovery ids may be used again; the last one counts. -/
def placedOn (h : Lifetime) (id : DispatchId) : Option DeviceId :=
  ((h.flatMap dispatchesOf).reverse.find? fun d => d.id = id).map fun d => d.device.id

theorem placedOn_old {id : DispatchId} (hid : id < e.pre.nextDispatch) : placedOn (h ++ [e]) id = placedOn h id := by
  have hnone : (dispatchesOf e).reverse.find? (fun d => decide (d.id = id)) = none := by
    rw [find?_eq_none]
    intro d hd heq
    have hfresh := dispatchesOf_fresh (mem_reverse.mp hd)
    rw [of_decide_eq_true heq] at hfresh
    exact absurd hid (Nat.not_lt.mpr hfresh)
  unfold placedOn
  rw [flatMap_append, flatMap_singleton, reverse_append, find?_append, hnone, none_or]

theorem placedOn_new (h : Lifetime) (hd : d ∈ dispatchesOf e) : placedOn (h ++ [e]) d.id = some d.device.id := by
  have hfind : (dispatchesOf e).reverse.find? (fun d' => decide (d'.id = d.id)) = some d := by
    cases hf : (dispatchesOf e).reverse.find? (fun d' => decide (d'.id = d.id)) with
    | none => exact absurd (decide_eq_true rfl) (find?_eq_none.mp hf d (mem_reverse.mpr hd))
    | some d' =>
      have hmem := mem_reverse.mp (mem_of_find?_eq_some hf)
      have hid : d'.id = d.id := by
        have hdec := find?_some hf
        exact of_decide_eq_true hdec
      rw [inj_on_of_nodup_map (dispatchesOf_nodup e) hmem hd hid]
  unfold placedOn
  rw [flatMap_append, flatMap_singleton, reverse_append, find?_append, hfind, some_or]
  rfl

/-! Growth. -/

namespace Fabric

/-- What is charged for `m`. -/
def growthOf (s : Fabric) (m : SequenceId) : Nat := (((s.seqs.find? m).map growth).getD 64).toNat

/-- What the holders of reservation `ρ` were charged. -/
def heldBytes (s : Fabric) (ρ : ReservationId) : Nat :=
  s.seqs.total fun _ x => if x.hasInflight = true ∧ x.reservation = ρ then x.growth.toNat else 0

theorem growthOf_found {m : SequenceId} (hx : s.seqs.find? m = some x) : s.growthOf m = x.growth.toNat := by
  unfold growthOf
  rw [hx]
  rfl

theorem groupGrowth_mod (s : Fabric) (members : List SequenceId) :
    (s.groupGrowth members).toNat = (members.map s.growthOf).sum % 2 ^ 64 := by
  have hfold : ∀ (l : List SequenceId) (g : UInt64),
      (l.foldl (fun g m => g + ((s.seqs.find? m).map growth).getD 64) g).toNat =
        (g.toNat + (l.map s.growthOf).sum) % 2 ^ 64 := by
    intro l
    induction l with
    | nil => exact fun g => (Nat.mod_eq_of_lt g.toNat_lt).symm
    | cons m l ih =>
      intro g
      rw [foldl_cons, ih, UInt64.toNat_add, map_cons, sum_cons, Nat.mod_add_mod, Nat.add_assoc]
      rfl
  unfold groupGrowth
  rw [hfold]
  simp

/-- Weights of a holder. -/
theorem held_weight (h : (if x.hasInflight = true ∧ x.reservation = ρ then x.growth.toNat else 0) ≠ 0) :
    x.hasInflight = true ∧ x.reservation = ρ := by
  by_contra hnot
  exact h (if_neg hnot)

theorem heldBytes_none
    (h : ∀ q x, s.seqs.find? q = some x → x.hasInflight = true → x.reservation ≠ ρ) : s.heldBytes ρ = 0 := by
  refine Nat.le_zero.mp (total_le_keys (g := s.growthOf) nodup_nil fun q x hx hne => ?_)
  obtain ⟨hup, hρ⟩ := held_weight hne
  exact absurd hρ (h q x hx hup)

end Fabric

theorem Accounts.release_find?_ne (a : Accounts) {ρ' : ReservationId} (h : ρ' ≠ ρ) :
    (a.release ρ).reservations.find? ρ' = a.reservations.find? ρ' := by
  rcases release_cases a ρ with hsame | ⟨r, -, -, hrel⟩
  · rw [hsame]
  · rw [hrel]
    exact (find?_erase _ _ _).trans (if_neg h)

/-! Coverage. -/

structure Seq.SameFlight (y x : Seq) : Prop extends y.SameTrip x where
  reservation : y.reservation = x.reservation

theorem Seq.SameFlight.refl (x : Seq) : x.SameFlight x := ⟨.refl x, rfl⟩

theorem Seq.SameFlight.trans {z : Seq} (h₁ : y.SameFlight x) (h₂ : z.SameFlight y) : z.SameFlight x :=
  ⟨h₁.toSameTrip.trans h₂.toSameTrip, h₂.reservation.trans h₁.reservation⟩

/-- Whoever is in flight in `t` was so in `s`, under the same reservation. -/
def Fabric.FlightFrom (s t : Fabric) : Prop :=
  ∀ q y, t.seqs.find? q = some y → y.hasInflight = true → ∃ x, s.seqs.find? q = some x ∧ y.SameFlight x

/-- The reservations cover what is in flight, those that are `doomed` left out. -/
structure Fabric.CoveredBut (doomed : ReservationId → Prop) (place : DispatchId → Option DeviceId) (s : Fabric) :
    Prop where
  known : ∀ q x, s.seqs.find? q = some x → x.hasInflight = true →
    x.reservation ≠ 0 ∧ x.reservation < s.nextReservation ∧ x.inFlightDispatch < s.nextDispatch
  charged : ∀ q x, s.seqs.find? q = some x → x.hasInflight = true → ¬ doomed x.reservation →
    ∃ r, s.reservations.find? x.reservation = some r ∧ place x.inFlightDispatch = some r.device
  enough : ∀ ρ r, ρ ≠ 0 → s.reservations.find? ρ = some r → ¬ doomed ρ → s.heldBytes ρ ≤ r.bytes.toNat
  together : ∀ q x q' x', s.seqs.find? q = some x → s.seqs.find? q' = some x' → x.hasInflight = true →
    x'.hasInflight = true → x.reservation = x'.reservation → x.inFlightWorker = x'.inFlightWorker
  idle : s.AllSeqs fun x => x.hasInflight = false → x.reservation = 0
  numbered : s.nextReservation ≠ 0

/-- The reservations cover all that is in flight. -/
abbrev Fabric.Covered (place : DispatchId → Option DeviceId) (s : Fabric) : Prop :=
  s.CoveredBut (fun _ => False) place

namespace Fabric
variable {doomed : ReservationId → Prop} {place : DispatchId → Option DeviceId} {s t u : Fabric} {q : SequenceId}
  {x : Seq} {f : Seq → Seq} {free slot : Bool} {entry : TerminalEntry}

theorem FlightFrom.of_find? (h : ∀ q, t.seqs.find? q = s.seqs.find? q) : s.FlightFrom t :=
  fun q y hy _ => ⟨y, (h q).symm.trans hy, .refl y⟩

theorem FlightFrom.trans (h₁ : s.FlightFrom t) (h₂ : t.FlightFrom u) : s.FlightFrom u := by
  intro q z hz hup
  obtain ⟨y, hy, hzy⟩ := h₂ q z hz hup
  obtain ⟨x, hx, hyx⟩ := h₁ q y hy (hzy.hasInflight ▸ hup)
  exact ⟨x, hx, hyx.trans hzy⟩

/-- A change that grounds the sequence or leaves it in flight as it was. -/
theorem FlightFrom.modify (hx : s.seqs.find? q = some x) (hs : t.seqs = s.seqs.modify q f)
    (hf : (f x).hasInflight = false ∨ (f x).SameFlight x) : s.FlightFrom t := by
  intro j y hy hup
  rw [hs] at hy
  rcases find?_modify_of_some hx hy with ⟨rfl, rfl⟩ | ⟨-, hy⟩
  · rcases hf with hdown | hsame
    · rw [hdown] at hup
      cases hup
    · exact ⟨x, hx, hsame⟩
  · exact ⟨y, hy, .refl y⟩

theorem FlightFrom.insert (hs : t.seqs = s.seqs.insert q (ofRequest req)) : s.FlightFrom t := by
  intro j y hy hup
  rw [hs, find?_insert] at hy
  split at hy
  · cases hy
    cases hup
  · exact ⟨y, hy, .refl y⟩

theorem FlightFrom.heldBytes_le (h : s.FlightFrom t) (ρ : ReservationId) : t.heldBytes ρ ≤ s.heldBytes ρ := by
  refine total_le_total fun j y hy hne => ?_
  obtain ⟨hup, hρ⟩ := held_weight hne
  obtain ⟨x, hx, hyx⟩ := h j y hy hup
  refine ⟨x, hx, ?_⟩
  rw [hyx.hasInflight, hyx.reservation, hyx.growth]

namespace CoveredBut

theorem carry (h : s.CoveredBut doomed place) (hfly : s.FlightFrom t)
    (hidle : t.AllSeqs fun y => y.hasInflight = false → y.reservation = 0)
    (hbook : ∀ ρ, ρ ≠ 0 → ¬ doomed ρ → t.reservations.find? ρ = s.reservations.find? ρ)
    (hnext : t.nextDispatch = s.nextDispatch ∧ t.nextReservation = s.nextReservation) : t.CoveredBut doomed place where
  known j y hy hup := by
    obtain ⟨x, hx, hyx⟩ := hfly j y hy hup
    rw [hyx.reservation, hyx.inFlightDispatch, hnext.1, hnext.2]
    exact h.known j x hx (hyx.hasInflight ▸ hup)
  charged j y hy hup hsafe := by
    obtain ⟨x, hx, hyx⟩ := hfly j y hy hup
    rw [hyx.reservation] at hsafe ⊢
    rw [hyx.inFlightDispatch, hbook _ (h.known j x hx (hyx.hasInflight ▸ hup)).1 hsafe]
    exact h.charged j x hx (hyx.hasInflight ▸ hup) hsafe
  enough ρ r h0 hr hsafe := by
    rw [hbook ρ h0 hsafe] at hr
    exact Nat.le_trans (hfly.heldBytes_le ρ) (h.enough ρ r h0 hr hsafe)
  together j y j' y' hy hy' hup hup' heq := by
    obtain ⟨x, hx, hyx⟩ := hfly j y hy hup
    obtain ⟨x', hx', hyx'⟩ := hfly j' y' hy' hup'
    rw [hyx.inFlightWorker, hyx'.inFlightWorker]
    rw [hyx.reservation, hyx'.reservation] at heq
    exact h.together j x j' x' hx hx' (hyx.hasInflight ▸ hup) (hyx'.hasInflight ▸ hup') heq
  idle := hidle
  numbered := hnext.2 ▸ h.numbered

theorem same (h : s.CoveredBut doomed place) (hseqs : ∀ q, t.seqs.find? q = s.seqs.find? q)
    (hres : t.reservations = s.reservations)
    (hnext : t.nextDispatch = s.nextDispatch ∧ t.nextReservation = s.nextReservation) : t.CoveredBut doomed place :=
  h.carry (.of_find? hseqs) (fun j y hy => h.idle j y ((hseqs j).symm.trans hy)) (fun ρ _ _ => by rw [hres]) hnext

/-- A change of one sequence; what it gives back while in flight is doomed. -/
theorem change (h : s.CoveredBut doomed place) (hx : s.seqs.find? q = some x) (hs : t.seqs = s.seqs.modify q f)
    (hh : t.holdings = s.holdings.pay x free slot entry)
    (hf : ((f x).hasInflight = false ∧ (f x).reservation = 0) ∨ (f x).SameFlight x)
    (hdoom : free = true → x.hasInflight = true → doomed x.reservation) : t.CoveredBut doomed place := by
  have hfly : s.FlightFrom t := .modify hx hs (hf.imp And.left id)
  refine h.carry hfly (fun j y hy hidle => ?_) (fun ρ h0 hsafe => ?_)
    ⟨congrArg Holdings.nextDispatch hh, (congrArg (·.accounts.nextReservation) hh).trans
    (Holdings.pay_nextReservation ..)⟩
  · rw [hs] at hy
    rcases find?_modify_of_some hx hy with ⟨-, rfl⟩ | ⟨-, hy⟩
    · rcases hf with hdown | hsame
      · exact hdown.2
      · rw [hsame.reservation]
        exact h.idle q x hx (hsame.hasInflight ▸ hidle)
    · exact h.idle j y hy hidle
  · change t.holdings.accounts.reservations.find? ρ = _
    obtain ⟨slots, hpay⟩ := s.holdings.pay_accounts x free slot entry
    rw [hh, hpay]
    cases free with
    | false => rfl
    | true =>
      have hother : ρ ≠ x.reservation := by
        rintro rfl
        cases hup : x.hasInflight with
        | true => exact hsafe (hdoom rfl hup)
        | false => exact h0 (h.idle q x hx hup)
      exact Accounts.release_find?_ne _ hother

theorem enrol (h : s.CoveredBut doomed place) (hs : t.seqs = s.seqs.insert q (ofRequest req))
    (hh : t.holdings = s.holdings.takeSlot req.tenant) : t.CoveredBut doomed place := by
  have hacc : t.accounts = (s.holdings.takeSlot req.tenant).accounts := congrArg Holdings.accounts hh
  refine h.carry (.insert hs) (fun j y hy hidle => ?_) (fun ρ _ _ => ?_)
    ⟨congrArg Holdings.nextDispatch hh, congrArg Accounts.nextReservation hacc⟩
  · rw [hs, find?_insert] at hy
    split at hy
    · cases hy
      rfl
    · exact h.idle j y hy hidle
  · exact congrArg (fun a : Accounts => a.reservations.find? ρ) hacc

/-- A group leaves under a reservation nobody has yet. -/
theorem send (h : s.CoveredBut doomed place) (hn : members.Nodup) (hid : d.id = s.nextDispatch)
    (hres : d.reservation = s.nextReservation) (hplace : place d.id = some res.device)
    (hbytes : (members.map s.growthOf).sum ≤ res.bytes.toNat)
    (hs : t.seqs = members.foldl (fun u m => u.modify m (dispatchUnder d)) s.seqs)
    (hh : t.holdings = s.holdings.charge res wk) : t.CoveredBut doomed place := by
  have hacc : t.accounts = (s.holdings.charge res wk).accounts := congrArg Holdings.accounts hh
  have hbook : ∀ ρ, t.reservations.find? ρ = if ρ = s.nextReservation then some res else s.reservations.find? ρ := by
    intro ρ
    change t.accounts.reservations.find? ρ = _
    rw [hacc, Accounts.charge_find?]
    rfl
  have hnextRes : t.nextReservation = s.nextReservation + 1 := congrArg Accounts.nextReservation hacc
  have hnextDisp : t.nextDispatch = s.nextDispatch + 1 := congrArg Holdings.nextDispatch hh
  have hback := fun j y (hy : t.seqs.find? j = some y) => find?_foldl_modify_cases hn (hs ▸ hy)
  -- nobody else holds the new reservation
  have hother : ∀ {j y}, s.seqs.find? j = some y → y.hasInflight = true → y.reservation ≠ s.nextReservation :=
    fun hy hup => Nat.ne_of_lt (h.known _ _ hy hup).2.1
  refine ⟨fun j y hy hup => ?_, fun j y hy hup hsafe => ?_, fun ρ r h0 hr hsafe => ?_,
    fun j y j' y' hy hy' hup hup' heq => ?_, fun j y hy hidle => ?_, ?_⟩
  · rw [hnextRes, hnextDisp]
    rcases hback j y hy with ⟨-, z, -, rfl⟩ | ⟨-, hy⟩
    · change d.reservation ≠ 0 ∧ d.reservation < s.nextReservation + 1 ∧ d.id < s.nextDispatch + 1
      rw [hres, hid]
      exact ⟨h.numbered, Nat.lt_succ_self _, Nat.lt_succ_self _⟩
    · obtain ⟨h0, hlt, hlt'⟩ := h.known j y hy hup
      exact ⟨h0, Nat.lt_succ_of_lt hlt, Nat.lt_succ_of_lt hlt'⟩
  · rcases hback j y hy with ⟨-, z, -, rfl⟩ | ⟨-, hy⟩
    · exact ⟨res, (hbook _).trans (if_pos hres), hplace⟩
    · rw [hbook, if_neg (hother hy hup)]
      exact h.charged j y hy hup hsafe
  · rw [hbook] at hr
    split at hr
    · next hnew =>
      cases hr
      refine Nat.le_trans (total_le_keys hn fun j y hy hne => ?_) hbytes
      obtain ⟨hup, hρ⟩ := held_weight hne
      rcases hback j y hy with ⟨hj, z, hz, rfl⟩ | ⟨-, hy⟩
      · rw [if_pos ⟨hup, hρ⟩, growthOf_found hz]
        exact ⟨hj, Nat.le_refl _⟩
      · exact absurd (hρ.trans hnew) (hother hy hup)
    · next hold =>
      refine Nat.le_trans (total_le_total fun j y hy hne => ?_) (h.enough ρ r h0 hr hsafe)
      obtain ⟨hup, hρ⟩ := held_weight hne
      rcases hback j y hy with ⟨-, z, -, rfl⟩ | ⟨-, hy⟩
      · exact absurd (hρ.symm.trans hres) hold
      · exact ⟨y, hy, Nat.le_refl _⟩
  · rcases hback j y hy with ⟨-, z, -, rfl⟩ | ⟨-, hy⟩ <;> rcases hback j' y' hy' with ⟨-, z', -, rfl⟩ | ⟨-, hy'⟩
    · rfl
    · exact absurd (heq.symm.trans hres) (hother hy' hup')
    · exact absurd (heq.trans hres) (hother hy hup)
    · exact h.together j y j' y' hy hy' hup hup' heq
  · rcases hback j y hy with ⟨-, z, -, rfl⟩ | ⟨-, hy⟩
    · cases hidle
    · exact h.idle j y hy hidle
  · rw [hnextRes]
    exact Nat.succ_ne_zero _

/-- Once nobody holds a doomed reservation, everything in flight is covered. -/
theorem settle (h : s.CoveredBut doomed place)
    (hno : ∀ q x, s.seqs.find? q = some x → x.hasInflight = true → ¬ doomed x.reservation) : s.Covered place := by
  refine { h with
    charged := fun q x hx hup _ => h.charged q x hx hup (hno q x hx hup)
    enough := fun ρ r h0 hr _ => ?_ }
  by_cases hdoomed : doomed ρ
  · rw [heldBytes_none fun q x hx hup hρ => hno q x hx hup (hρ ▸ hdoomed)]
    exact Nat.zero_le _
  · exact h.enough ρ r h0 hr hdoomed

theorem mono {doomed' : ReservationId → Prop} (h : s.CoveredBut doomed place) (hd : ∀ ρ, doomed ρ → doomed' ρ) :
    s.CoveredBut doomed' place :=
  { h with
    charged := fun q x hx hup hsafe => h.charged q x hx hup fun hρ => hsafe (hd _ hρ)
    enough := fun ρ r h0 hr hsafe => h.enough ρ r h0 hr fun hρ => hsafe (hd _ hρ) }

end CoveredBut
end Fabric

/-! Lifetimes that keep work charged. -/

/-- A call takes no reservation from work in flight: it lands a group as a whole, ends no sequence in flight on the
    spot, and its retryable failures name their own sequences or such as are not in flight; the growths of the
    candidates of a tick add up in 64 bits, and devices have memory. -/
structure Covering (e : Edge Fabric LifeCall) : Prop where
  whole : ∀ o, e.label = .call (.op o) → ∀ u q x, o.Lands e.pre u q x → x.hasInflight = true →
    ∀ q' x', e.pre.seqs.find? q' = some x' → x'.hasInflight = true → x'.reservation = x.reservation →
    ∃ u' y, o.Lands e.pre u' q' y
  spared : ∀ o, e.label = .call (.op o) → ∀ q x, e.pre.seqs.find? q = some x → o.Retires e.pre q x →
    x.hasInflight = false
  named : ∀ prepared, e.label = .call (.op (.authorizePrepared prepared)) → ∀ pm ∈ prepared.members,
    pm.outcome.kind = .retryableFailure → pm.outcome.sequence ≠ pm.sequence → e.pre.Down pm.outcome.sequence
  fits : ∀ tn, e.label = .call (.op (.schedule tn)) →
    e.pre.seqs.total (fun _ x => if x.machine.isCandidate = true then x.growth.toNat else 0) < 2 ^ 64
  equips : e.label.Equips

/-- The reservations an operation gives back while they are held in flight. -/
inductive Op.Dooms (s : Fabric) (o : Op) : ReservationId → Prop
  | mk {u : Fabric} {q : SequenceId} {x : Seq} : o.Takes s u q x → x.hasInflight = true → Dooms s o x.reservation

section Deed
variable {place : DispatchId → Option DeviceId} {s t u v : Fabric} {o : Op}

/-- A change either leaves the sequence in flight as it was, or leaves nothing of it in flight, and gives back no
    reservation in flight but a doomed one. -/
theorem change_flight {f : Seq → Seq} {free slot : Bool}
    {entry : TerminalEntry} (hc : Covering ⟨s, .call (.op o), t⟩)
    (hp : Performs s o u (.change q f free slot entry)) (hx : u.seqs.find? q = some x)
    (hfrom : (∀ tn, o ≠ .schedule tn) → s.FlightFrom u) :
    (((f x).hasInflight = false ∧ (f x).reservation = 0) ∨ (f x).SameFlight x) ∧
      (free = true → x.hasInflight = true → o.Dooms s x.reservation) := by
  -- nothing in flight, nothing doomed
  have idle : x.hasInflight = false → (free = true → x.hasInflight = true → o.Dooms s x.reservation) := by
    intro hdown _ hup
    rw [hdown] at hup
    cases hup
  cases hp.fares hx with
  | taken hdown hzero htake => exact ⟨.inl ⟨hdown, hzero⟩, fun _ hup => .mk htake hup⟩
  | kept htrip hres hfree => exact ⟨.inr ⟨htrip, hres⟩, fun hf => nomatch hfree.symm.trans hf⟩
  | retired htrip hzero hfound hret =>
    have hdown := hc.spared o rfl q x hfound hret
    exact ⟨.inl ⟨htrip.hasInflight.trans hdown, hzero⟩, idle hdown⟩
  | released htrip hzero hmis =>
    -- the sequence named is not in flight when the call begins, so it is not now
    have hdown : x.hasInflight = false := by
      by_contra hup
      cases hmis with
      | mk hmem hkind hq hne =>
        obtain ⟨y, hy, hxy⟩ := hfrom (fun _ => nofun) q x hx (Bool.eq_true_of_not_eq_false hup)
        subst hq
        exact hup (hxy.hasInflight.trans (hc.named _ rfl _ hmem hkind (Ne.symm hne) y hy))
    exact ⟨.inl ⟨htrip.hasInflight.trans hdown, hzero⟩, idle hdown⟩

/-- A group is charged for all its members. -/
theorem Sending.charge {tn : TimePoint}
    (hc : Covering ⟨s, .call (.op (.schedule tn)), t⟩) (hsend : Sending s tn u members d res wk) :
    (members.map u.growthOf).sum ≤ res.bytes.toNat := by
  have hgrowth : ∀ m ∈ members, ∃ x, s.seqs.find? m = some x ∧
      u.growthOf m ≤ if x.machine.isCandidate = true then x.growth.toNat else 0 := by
    intro m hm
    obtain ⟨x, hdue, -, hfind⟩ := hsend.member m hm
    refine ⟨x, hdue.found, ?_⟩
    rw [if_pos hdue.candidate, Fabric.growthOf_found hfind]
    exact Nat.le_refl _
  have hsum := keys_le_total (w := fun _ (x : Seq) => if x.machine.isCandidate = true then x.growth.toNat else 0)
    hsend.nodup hgrowth
  rw [hsend.bytes, Fabric.groupGrowth_mod, Nat.mod_eq_of_lt (Nat.lt_of_le_of_lt hsum (hc.fits tn rfl))]

theorem deed_covered {d : Deed} (hc : Covering ⟨s, .call (.op o), t⟩)
    (hplace : ∀ d ∈ dispatchesOf ⟨s, .call (.op o), t⟩, place d.id = some d.device.id) (hd : Does u d v)
    (hp : Performs s o u d) (h : u.CoveredBut (o.Dooms s) place ∧ ((∀ tn, o ≠ .schedule tn) → s.FlightFrom u)) :
    v.CoveredBut (o.Dooms s) place ∧ ((∀ tn, o ≠ .schedule tn) → s.FlightFrom v) := by
  obtain ⟨hcov, hfrom⟩ := h
  cases hd with
  | note hs hh | register hs hh | lose hs hh =>
    exact ⟨hcov.same (fun _ => by rw [hs]) (congrArg (fun g => g.accounts.reservations) hh)
      ⟨congrArg Holdings.nextDispatch hh, congrArg (fun g => g.accounts.nextReservation) hh⟩,
      fun ho => (hfrom ho).trans (.of_find? fun _ => by rw [hs])⟩
  | shuffle hs _ hh => cases hp
  | enrol _ hs hh => exact ⟨hcov.enrol hs hh, fun ho => (hfrom ho).trans (.insert hs)⟩
  | change hx hs hh =>
    obtain ⟨hf, hdoom⟩ := change_flight hc hp hx hfrom
    exact ⟨hcov.change hx hs hh hf hdoom, fun ho => (hfrom ho).trans (.modify hx hs (hf.imp And.left id))⟩
  | send hs hh =>
    cases hp with
    | send hsend =>
      refine ⟨hcov.send hsend.nodup hsend.id hsend.reservation ?_ (hsend.charge hc) hs hh, fun ho => absurd rfl (ho _)⟩
      rw [hsend.device]
      exact hplace _ hsend.listed.1

/-- At the end of a call nobody in flight holds a reservation the call has given back. -/
theorem dooms_nobody (hc : Covering ⟨s, .call (.op o), s.exec o⟩) (h : s.Covered place)
    (hfrom : (∀ tn, o ≠ .schedule tn) → s.FlightFrom (s.exec o))
    (hy : (s.exec o).seqs.find? q = some y) (hup : y.hasInflight = true) : ¬ o.Dooms s y.reservation := by
  intro hdoomed
  generalize hρ : y.reservation = ρ at hdoomed
  obtain ⟨htake, hup'⟩ := hdoomed
  cases htake with
  | landing hland =>
    obtain ⟨x, hx, hyx⟩ := hfrom hland.not_schedule q y hy hup
    obtain ⟨u', z, hlands⟩ := hc.whole o rfl _ _ _ hland hup' q x hx (hyx.hasInflight ▸ hup)
      (hyx.reservation.symm.trans hρ)
    rw [lands_down hlands y hy] at hup
    cases hup
  | death ho hx' hup' hwk =>
    subst ho
    obtain ⟨x, hx, hyx⟩ := hfrom (fun _ => nofun) q y hy hup
    have hsame := h.together q x _ _ hx hx' (hyx.hasInflight ▸ hup) hup' (hyx.reservation.symm.trans hρ)
    exact markWorkerDead_down s _ hy hup (hyx.inFlightWorker.trans (hsame.trans hwk))

end Deed

theorem exec_covered {o : Op} (hc : Covering ⟨s, .call (.op o), s.exec o⟩)
    (hplace : ∀ d ∈ dispatchesOf ⟨s, .call (.op o), s.exec o⟩, place d.id = some d.device.id) (h : s.Covered place) :
    (s.exec o).Covered place := by
  obtain ⟨hcov, hfrom⟩ := (exec_deeds s o).invariant (fun hd hp hu => deed_covered hc hplace hd hp hu)
    ⟨h.mono fun _ => False.elim, fun _ => .of_find? fun _ => rfl⟩
  exact hcov.settle fun q y hy hup => dooms_nobody hc h hfrom hy hup

theorem init_covered (place : DispatchId → Option DeviceId) (cfg : Config) (clock : TimePoint) :
    (Fabric.init cfg clock).Covered place := by
  refine ⟨?_, ?_, ?_, ?_, ?_, Nat.one_ne_zero⟩
  · intro q x hx
    cases hx
  · intro q x hx
    cases hx
  · intro ρ r _ hr
    cases hr
  · intro q x q' x' hx
    cases hx
  · intro q x hx
    cases hx

theorem Restarted.covered (hr : Restarted s t) (h : s.Covered place) : t.Covered place := by
  have hdown : ∀ {q x}, t.seqs.find? q = some x → x.hasInflight ≠ true := by
    intro q x hx hup
    rw [(hr.seqs q x hx).hasInflight] at hup
    cases hup
  refine ⟨fun q x hx hup => absurd hup (hdown hx), fun q x hx hup => absurd hup (hdown hx), fun ρ r _ _ _ => ?_,
    fun q x q' x' hx _ hup => absurd hup (hdown hx), fun q x hx _ => (hr.seqs q x hx).reservation,
    hr.nextReservation ▸ h.numbered⟩
  rw [Fabric.heldBytes_none fun q x hx hup => absurd hup (hdown hx)]
  exact Nat.zero_le _

theorem next_covered (hn : LifeNext e.pre e.label e.post) (hc : Covering e)
    (hplace : ∀ d ∈ dispatchesOf e, place d.id = some d.device.id) (h : e.pre.Covered place) :
    e.post.Covered place := by
  obtain ⟨s, c, t⟩ := e
  change LifeNext s c t at hn
  change s.Covered place at h
  cases hn with
  | call hn =>
    cases hn with
    | op o => exact exec_covered hc hplace h
    | tick now => exact h.same (fun _ => rfl) rfl ⟨rfl, rfl⟩
    | rehash seqs workers hs hw => exact h.same (find?_reorder hs) rfl ⟨rfl, rfl⟩
  | recover bytes =>
    rcases recoverState_restarted s bytes with hsame | hrestarted
    · show (s.recoverState bytes).1.Covered place
      rw [hsame]
      exact h
    · exact hrestarted.covered h

/-- The devices of new dispatches do not matter to what is in flight. -/
theorem Fabric.CoveredBut.extend (hcov : e.pre.Covered (placedOn h)) : e.pre.Covered (placedOn (h ++ [e])) := by
  refine { hcov with charged := fun q x hx hup hsafe => ?_ }
  rw [placedOn_old (hcov.known q x hx hup).2.2]
  exact hcov.charged q x hx hup hsafe

theorem covered_run {s₀ : Fabric} (hr : Run LifeNext s₀ h s) (h₀ : s₀.Covered (placedOn []))
    (hc : ∀ e ∈ h, Covering e) : s.Covered (placedOn h) :=
  hr.history (I := fun h s => s.Covered (placedOn h))
    (fun h _ _ hn hlast hcov => next_covered hn hlast (fun _ hd => placedOn_new h hd) hcov.extend) hc h₀

/-- The bytes charged for the sequences in flight on device `d`. -/
def inFlightBytes (h : Lifetime) (s : Fabric) (d : DeviceId) : Nat :=
  s.seqs.total fun _ x =>
    if x.hasInflight = true ∧ placedOn h x.inFlightDispatch = some d then x.growth.toNat else 0

theorem Fabric.CoveredBut.heldBytes_le (h : s.Covered place)
    {r : Reservation} (hr : s.reservations.find? ρ = some r) : s.heldBytes ρ ≤ r.bytes.toNat := by
  by_cases h0 : ρ = 0
  · rw [heldBytes_none fun q x hx hup hρ => (h.known q x hx hup).1 (hρ.trans h0)]
    exact Nat.zero_le _
  · exact h.enough ρ r h0 hr id

theorem Fabric.CoveredBut.inFlightBytes_le (hcov : s.Covered (placedOn h))
    (hexact : s.accounts.Exact) (d : DeviceId) : inFlightBytes h s d ≤ s.accounts.liveBytes d := by
  have hweight : ∀ {x : Seq}, (if x.hasInflight = true ∧ placedOn h x.inFlightDispatch = some d then x.growth.toNat
      else 0) ≠ 0 → x.hasInflight = true ∧ placedOn h x.inFlightDispatch = some d := by
    intro x hne
    by_contra hnot
    exact hne (if_neg hnot)
  refine total_le_fibers (fun _ x => x.reservation) (fun q x hx hne => ?_) fun ρ r hr => ?_
  · obtain ⟨r, hr, -⟩ := hcov.charged q x hx (hweight hne).1 id
    exact ⟨r, hr⟩
  · -- the sequences that hold `ρ` are all on its device
    have hon : ∀ q x, s.seqs.find? q = some x → x.hasInflight = true → placedOn h x.inFlightDispatch = some d →
        x.reservation = ρ → r.device = d := by
      intro q x hx hup hd hρ
      obtain ⟨r', hr', hplace⟩ := hcov.charged q x hx hup id
      obtain rfl : r = r' := some.inj (hr.symm.trans (hρ ▸ hr'))
      exact some.inj (hplace.symm.trans hd)
    by_cases hdev : r.device = d
    · rw [if_pos ⟨hdev, hexact.live ρ r hr⟩]
      refine Nat.le_trans (total_le_total fun q x hx hne => ⟨x, hx, ?_⟩) (hcov.heldBytes_le hr)
      split at hne
      · next hρ =>
        rw [if_pos hρ, if_pos (hweight hne), if_pos ⟨(hweight hne).1, hρ⟩]
      · exact absurd rfl hne
    · rw [if_neg fun hboth => hdev hboth.1]
      refine total_le_keys (g := s.growthOf) nodup_nil fun q x hx hne => ?_
      split at hne
      · next hρ =>
        exact absurd (hon q x hx (hweight hne).1 (hweight hne).2 hρ) hdev
      · exact absurd rfl hne

/-- In a lifetime that takes no reservation from work in flight, every sequence in flight holds a reservation on the
    device of its dispatch that is large enough for all who hold it, and every device has reserved at least what is in
    flight on it. -/
theorem in_flight_charged_when {h : Lifetime} {s : Fabric} (hr : LivesTo h s) (hc : ∀ e ∈ h, Covering e) :
    (∀ d, inFlightBytes h s d ≤ (s.devMem.getD d {}).reserved.toNat) ∧
    ∀ q x, s.seqs.find? q = some x → x.hasInflight = true →
      ∃ r, s.reservations.find? x.reservation = some r ∧ placedOn h x.inFlightDispatch = some r.device ∧
        s.heldBytes x.reservation ≤ r.bytes.toNat := by
  have hexact : s.accounts.Exact := exact_maintained.holds hr fun e he => (hc e he).equips
  obtain ⟨cfg, clock, hr⟩ := hr
  have hcov := covered_run hr (init_covered _ cfg clock) hc
  refine ⟨fun d => ?_, fun q x hx hup => ?_⟩
  · calc inFlightBytes h s d ≤ s.accounts.liveBytes d := hcov.inFlightBytes_le hexact d
      _ = (s.devMem.getD d {}).reserved.toNat := (hexact.sum d).symm
  · obtain ⟨r, hr, hplace⟩ := hcov.charged q x hx hup id
    exact ⟨r, hr, hplace, hcov.heldBytes_le hr⟩

/-- A worker, a request or a tick takes no reservation from work in flight while nothing is in flight. -/
theorem covering_of_idle {o : Op} (hidle : ∀ e ∈ s.seqs.entries, e.2.hasInflight = false)
    (ho : (∃ wd, o = .registerWorker wd) ∨ (∃ req, o = .submit req) ∨ ∃ tn, o = .schedule tn)
    (hfits : s.seqs.total (fun _ x => if x.machine.isCandidate = true then x.growth.toNat else 0) < 2 ^ 64)
    (hequips : (LifeCall.call (.op o)).Equips) : Covering ⟨s, .call (.op o), t⟩ where
  whole _ heq u q x hland := by
    cases heq
    rcases ho with ⟨wd, rfl⟩ | ⟨req, rfl⟩ | ⟨tn, rfl⟩ <;> cases hland
  spared _ _ q x hx _ := hidle (q, x) (find?_eq_some_iff.mp hx)
  named p heq := by
    cases heq
    rcases ho with ⟨wd, ho⟩ | ⟨req, ho⟩ | ⟨tn, ho⟩ <;> cases ho
  fits _ _ := hfits
  equips := hequips

namespace Sample

/-- Two sequences leave in one group. -/
def paired : List Op :=
  [.registerWorker { worker 1 1 with device := { id := 1, memoryBytes := 1000 } }, .submit request,
    .submit { request with id := 2, sequence := 2, state := { id := 2 } }, .schedule 1]

/-- The step of the first is committed. -/
def halfCommitted : List Op := paired ++ [.authorizePrepared prepared, .applyCommitReceipt { receipts := [receipt] }]

end Sample

theorem in_flight_charged_pair :
    inFlightBytes (lifetime (trace start paired)) (start.execAll paired) 1 = 128 ∧
      inFlightBytes (lifetime (trace start paired)) (start.execAll paired) 1 ≤
        ((start.execAll paired).devMem.getD 1 {}).reserved.toNat := by
  refine ⟨by decide, (in_flight_charged_when (runsTo paired).livesTo ?_).1 1⟩
  intro e he
  simp only [lifetime, paired, trace, map_cons, map_nil, mem_cons, not_mem_nil,
    or_false] at he
  rcases he with rfl | rfl | rfl | rfl
  · exact covering_of_idle (by decide) (.inl ⟨_, rfl⟩) (by decide) (by rintro wd hwd; cases hwd; decide)
  · exact covering_of_idle (by decide) (.inr (.inl ⟨_, rfl⟩)) (by decide) (by rintro wd hwd; cases hwd)
  · exact covering_of_idle (by decide) (.inr (.inl ⟨_, rfl⟩)) (by decide) (by rintro wd hwd; cases hwd)
  · exact covering_of_idle (by decide) (.inr (.inr ⟨_, rfl⟩)) (by decide) (by rintro wd hwd; cases hwd)

/-- With the first member's step the memory of both is given back. -/
theorem group_released_early :
    LivesTo (lifetime (trace start halfCommitted)) (start.execAll halfCommitted) ∧
      inFlightBytes (lifetime (trace start halfCommitted)) (start.execAll halfCommitted) 1 = 64 ∧
      ((start.execAll halfCommitted).devMem.getD 1 {}).capacity = 1000 ∧
      ((start.execAll halfCommitted).devMem.getD 1 {}).reserved = 0 :=
  ⟨(runsTo halfCommitted).livesTo, by decide, by decide, by decide⟩

end DecodeFabric
