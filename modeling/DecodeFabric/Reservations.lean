import DecodeFabric.Memory

/- Reservations and the work they stand for.

   A reservation ought to be on the books exactly as long as a member of its group is in flight. Neither half holds of
   every run. A reservation is lost when a sequence that is still in flight is dispatched again, since the new
   reservation replaces the old one in the sequence, or when the fabric recovers while something is reserved; and a
   retry that finds the attempts used up ends a sequence without giving anything back
   (`reservations_held_when`, `retried_reservation_lost`). The other half is the subject of
   `Coverage`. -/
namespace DecodeFabric
open Lib Table Sample SequenceState DecodeFabric.Seq
variable {h : Holdings} {entry : TerminalEntry} {res : Reservation} {st : SequenceState}

/-! Bounded accounts. -/

/-- Without a condition on the devices the reserved bytes are at most the sum of the live reservations. -/
structure Accounts.Bounded (a : Accounts) : Prop extends a.Filed where
  bound : ∀ d, (a.devMem.getD d {}).reserved.toNat ≤ a.liveBytes d

namespace Accounts
variable {a : Accounts}

theorem Bounded.slots (h : a.Bounded) (tenantActive : Table TenantId UInt32) :
    Accounts.Bounded { a with tenantActive } :=
  { live := h.live, numbered := h.numbered, bound := h.bound }

theorem Bounded.workers (h : a.Bounded) (workers : Table WorkerId WorkerDescriptor) :
    Accounts.Bounded { a with workers } :=
  { live := h.live, numbered := h.numbered, bound := h.bound }

theorem Bounded.release (h : a.Bounded) (ρ : ReservationId) : (a.release ρ).Bounded := by
  rcases release_cases a ρ with hsame | ⟨r, hr, hlive, hrel⟩
  · rw [hsame]
    exact h
  · refine { h.toFiled.release ρ with bound := fun d => ?_ }
    have herase := liveBytes_erase hr hlive (a.devMem.modify r.device (·.release r.bytes)) d
    have hmem := release_devMem (a := a) r d
    have hbound := h.bound d
    rw [hrel, hmem.1]
    omega

/-- A sum that wraps is smaller. -/
theorem Bounded.charge (hb : h.accounts.Bounded) (hlive : res.released = false)
    (wk : WorkerId) : (h.charge res wk).accounts.Bounded := by
  refine { hb.toFiled.charge hlive wk with bound := fun d => ?_ }
  have hbound := hb.bound d
  rw [charge_devMem, liveBytes_charge hb.toFiled hlive]
  by_cases hd : d = res.device
  · rw [if_pos hd, if_pos hd.symm]
    have hwrap : ((h.accounts.devMem.getD d {}).reserved + res.bytes).toNat ≤
        (h.accounts.devMem.getD d {}).reserved.toNat + res.bytes.toNat := by
      rw [UInt64.toNat_add]
      exact Nat.mod_le _ _
    exact Nat.le_trans hwrap (Nat.add_le_add_right hbound _)
  · rw [if_neg hd, if_neg (Ne.symm hd)]
    exact hbound

theorem Bounded.register (hb : h.accounts.Bounded) (wd : WorkerDescriptor) : (h.register wd).accounts.Bounded := by
  refine { live := hb.live, numbered := hb.numbered, bound := fun d => ?_ }
  rw [(register_devMem h wd d).1]
  exact hb.bound d

end Accounts

namespace Holdings
variable (h : Holdings) (x : Seq) (free slot : Bool) (entry : TerminalEntry)

/-- The slot apart, what is paid for a change is the release. -/
theorem pay_accounts : ∃ tenantActive, (h.pay x free slot entry).accounts =
    { bif free then h.accounts.release x.reservation else h.accounts with tenantActive } := by
  unfold pay
  cases free <;> cases slot
  case true.true =>
    simp only [if_true, Accounts.releaseSlot_release]
    exact ⟨_, rfl⟩
  all_goals exact ⟨_, rfl⟩

theorem pay_workers : (h.pay x free slot entry).accounts.workers = h.accounts.workers := by
  obtain ⟨slots, hpay⟩ := h.pay_accounts x free slot entry
  rw [hpay]
  cases free with
  | false => rfl
  | true => exact Accounts.release_workers _ _

theorem pay_nextReservation : (h.pay x free slot entry).accounts.nextReservation = h.accounts.nextReservation := by
  obtain ⟨slots, hpay⟩ := h.pay_accounts x free slot entry
  rw [hpay]
  cases free with
  | false => rfl
  | true => exact Accounts.release_nextReservation _ _

end Holdings

/-! Reservations held. -/

/-- Only work in flight holds a reservation. -/
def Seq.Holding (x : Seq) : Prop := x.reservation ≠ 0 → x.hasInflight = true ∧ x.machine.isTerminal = false

structure Fabric.Held (s : Fabric) : Prop where
  charged : s.Charged
  holding : s.AllSeqs Seq.Holding
  bounded : s.accounts.Bounded
  numbered : s.nextReservation ≠ 0

namespace Fabric.Held
variable {s t : Fabric} {q : SequenceId} {x : Seq} {f : Seq → Seq}

theorem same (h : s.Held) (hseqs : ∀ q, t.seqs.find? q = s.seqs.find? q) (hres : t.reservations = s.reservations)
    (hnext : t.nextReservation = s.nextReservation) (hbounded : t.accounts.Bounded) : t.Held := by
  refine ⟨fun ρ r hr => ?_, fun q x hx => h.holding q x ((hseqs q).symm.trans hx), hbounded, hnext ▸ h.numbered⟩
  rw [hres] at hr
  obtain ⟨hlive, h0, q, x, hx, hheld⟩ := h.charged ρ r hr
  exact ⟨hlive, h0, q, x, (hseqs q).trans hx, hheld⟩

theorem freed {slot : Bool} (h : s.Held) (hx : s.seqs.find? q = some x)
    (hs : t.seqs = s.seqs.modify q f) (hh : t.holdings = s.holdings.pay x true slot entry)
    (hf : (f x).reservation = 0) : t.Held := by
  obtain ⟨slots, hpay⟩ := s.holdings.pay_accounts x true slot entry
  have hacc : t.accounts = { s.accounts.release x.reservation with tenantActive := slots } :=
    (congrArg Holdings.accounts hh).trans hpay
  refine ⟨h.charged.release hx hs (by rw [hacc]), ?_, ?_, ?_⟩
  · exact h.holding.modify hx hs fun hne => absurd hf hne
  · rw [hacc]
    exact (h.bounded.release _).slots _
  · have hnext : t.nextReservation = s.nextReservation :=
      (congrArg (·.accounts.nextReservation) hh).trans (Holdings.pay_nextReservation ..)
    exact hnext ▸ h.numbered

theorem kept {slot : Bool} (h : s.Held) (hx : s.seqs.find? q = some x)
    (hs : t.seqs = s.seqs.modify q f) (hh : t.holdings = s.holdings.pay x false slot entry)
    (hf : ∀ y, (f y).hasInflight = y.hasInflight ∧ (f y).reservation = y.reservation)
    (hlive : x.reservation ≠ 0 → (f x).machine.isTerminal = false) : t.Held := by
  obtain ⟨slots, hpay⟩ := s.holdings.pay_accounts x false slot entry
  have hacc : t.accounts = { s.accounts with tenantActive := slots } := (congrArg Holdings.accounts hh).trans hpay
  refine ⟨h.charged.keep hs hf (by rw [hacc]), ?_, ?_, ?_⟩
  · refine h.holding.modify hx hs fun hne => ?_
    rw [(hf x).2] at hne
    rw [(hf x).1]
    exact ⟨(h.holding q x hx hne).1, hlive hne⟩
  · rw [hacc]
    exact h.bounded.slots _
  · have hnext : t.nextReservation = s.nextReservation := congrArg Accounts.nextReservation hacc
    exact hnext ▸ h.numbered

theorem enrol {req : DecodeRequest} (h : s.Held) (hq : s.seqs.find? q = none)
    (hs : t.seqs = s.seqs.insert q (ofRequest req)) (hh : t.holdings = s.holdings.takeSlot req.tenant) : t.Held := by
  have hacc : t.accounts = (s.holdings.takeSlot req.tenant).accounts := congrArg Holdings.accounts hh
  have hres : t.reservations = s.reservations := congrArg Accounts.reservations hacc
  have hnext : t.nextReservation = s.nextReservation := congrArg Accounts.nextReservation hacc
  refine ⟨fun ρ r hr => ?_, fun j y hy => ?_, ?_, hnext ▸ h.numbered⟩
  · rw [hres] at hr
    obtain ⟨hlive, h0, j, y, hy, hheld⟩ := h.charged ρ r hr
    refine ⟨hlive, h0, j, y, ?_, hheld⟩
    rw [hs, find?_insert_ne (fun heq => ?_)]
    · exact hy
    · rw [← heq, hy] at hq
      cases hq
  · rw [hs, find?_insert] at hy
    split at hy
    · cases hy
      exact fun hne => absurd rfl hne
    · exact h.holding j y hy
  · rw [hacc]
    exact h.bounded.slots _

/-- A group whose members hold nothing yet is charged. -/
theorem send {members : List SequenceId} {d : Dispatch} {wk : WorkerId} (h : s.Held)
    (hne : members ≠ []) (hnodup : members.Nodup) (hlive : res.released = false)
    (hdres : d.reservation = s.nextReservation)
    (hmember : ∀ m ∈ members, ∃ y, s.seqs.find? m = some y ∧ y.hasInflight = false ∧
      (y.dispatchUnder d).machine.isTerminal = false)
    (hs : t.seqs = members.foldl (fun u m => u.modify m (dispatchUnder d)) s.seqs)
    (hh : t.holdings = s.holdings.charge res wk) : t.Held := by
  have hfind : ∀ j, t.seqs.find? j =
      if j ∈ members then (s.seqs.find? j).map (dispatchUnder d) else s.seqs.find? j := by
    intro j
    rw [hs, find?_foldl_modify _ hnodup]
  have hacc : t.accounts = (s.holdings.charge res wk).accounts := congrArg Holdings.accounts hh
  refine ⟨fun ρ r hr => ?_, fun j y hy => ?_, ?_, ?_⟩
  · change t.accounts.reservations.find? ρ = some r at hr
    rw [hacc, Accounts.charge_find?] at hr
    split at hr
    · next hnew =>
      -- the new reservation, held by every member
      cases hr
      obtain ⟨m, hm⟩ := List.exists_mem_of_ne_nil _ hne
      obtain ⟨y, hy, -, -⟩ := hmember m hm
      refine ⟨hlive, hnew ▸ h.numbered, m, y.dispatchUnder d, ?_, rfl, hdres.trans hnew.symm⟩
      rw [hfind, if_pos hm, hy]
      rfl
    · obtain ⟨hlive, h0, j, y, hy, hfly, hheld⟩ := h.charged ρ r hr
      have hj : j ∉ members := by
        intro hj
        obtain ⟨y', hy', hidle, -⟩ := hmember j hj
        cases hy.symm.trans hy'
        rw [hfly] at hidle
        cases hidle
      exact ⟨hlive, h0, j, y, by rw [hfind, if_neg hj]; exact hy, hfly, hheld⟩
  · rw [hfind] at hy
    split at hy
    · next hj =>
      obtain ⟨z, hz, -, hgoes⟩ := hmember j hj
      rw [hz] at hy
      cases hy
      exact fun _ => ⟨rfl, hgoes⟩
    · exact h.holding j y hy
  · rw [hacc]
    exact Accounts.Bounded.charge h.bounded hlive wk
  · show t.accounts.nextReservation ≠ 0
    rw [hacc]
    exact Nat.succ_ne_zero _

end Fabric.Held

/-! Changes of one sequence. -/

/-- A non-committing outcome leaves nothing in flight. -/
theorem Seq.resolve_grounded (cfg : Config) (a : AttemptId) (now : TimePoint) (mo : MemberOutcome) (x : Seq) :
    (x.resolve cfg a now mo).Grounded := by
  obtain ⟨st, ready, attempt, count, generated, budget, hshape, -⟩ := noncommit_shape cfg a now mo x.endDispatch.release
  unfold resolve
  rw [hshape]
  exact ⟨rfl, rfl, rfl⟩

theorem Seq.finish_grounded (fin : TimePoint) (r : MemberReceipt) (x : Seq) : (x.finish fin r).Grounded :=
  ⟨rfl, rfl, rfl⟩

/-- A retry leads back to Ready, and touches nothing in flight. -/
theorem Seq.preserved_shape (cfg : Config) (x : Seq) : ∃ generated, x.preserved cfg = { x with generated } := by
  unfold preserved
  split
  · exact ⟨x.generated, rfl⟩
  · exact ⟨x.committed, rfl⟩

theorem SequenceState.retryable_moves (h : st.retryable) :
    st.isTerminal = false ∧ ((st.move .retrying).move .ready).isTerminal = false := by
  rcases h with rfl | rfl | rfl <;> decide

theorem SequenceState.deferred_moves (h : st.deferred) : (st.move .cancelRequested).isTerminal = false := by
  rcases h with rfl | rfl | rfl | rfl <;> decide

/-! Lifetimes that lose nothing. -/

/-- No reservation is written over: a tick finds no sequence due that is still in flight, no retry ends one, and the
    fabric recovers only while nothing is reserved. -/
def Lossless (e : Edge Fabric LifeCall) : Prop :=
  match e.label with
  | .call (.op (.schedule tn)) => ∀ q x, e.pre.Due tn q x → x.hasInflight = false
  | .call (.op (.retry q)) => ∀ x, e.pre.seqs.find? q = some x → x.machine.retryable →
      x.attemptCount ≥ e.pre.cfg.retryPolicy.maxAttempts → x.hasInflight = false
  | .recover _ => e.pre.reservations.entries = []
  | _ => True

theorem change_held {s t u v : Fabric} {o : Op} {q : SequenceId} {x : Seq} {f : Seq → Seq} {free slot : Bool}
    (hc : Lossless ⟨s, .call (.op o), t⟩)
    (hp : Performs s o u (.change q f free slot entry)) (hx : u.seqs.find? q = some x)
    (hs : v.seqs = u.seqs.modify q f) (hh : v.holdings = u.holdings.pay x free slot entry) (h : u.Held) : v.Held := by
  -- what is found in `u` is what the operation saw
  have hsame : ∀ {y : Seq}, u.seqs.find? q = some y → x = y := fun hy => Option.some.inj (hx.symm.trans hy)
  cases hp with
  | cancelLater _ hx' hst =>
    obtain rfl := hsame hx'
    exact h.kept hx hs hh (fun _ => ⟨rfl, rfl⟩) fun _ => deferred_moves hst
  | exhaust hx' hst hmax =>
    obtain rfl := hsame hx'
    have hidle : x.hasInflight = false := hc x hx hst hmax
    refine h.kept hx hs hh (fun y => ?_) fun hne => ?_
    · obtain ⟨generated, hy⟩ := preserved_shape s.cfg y
      rw [hy]
      exact ⟨rfl, rfl⟩
    · rw [(h.holding q x hx hne).1] at hidle
      cases hidle
  | attempt hx' hst _ =>
    obtain rfl := hsame hx'
    refine h.kept hx hs hh (fun y => ?_) fun _ => ?_
    · obtain ⟨generated, hy⟩ := preserved_shape s.cfg y
      rw [hy]
      exact ⟨rfl, rfl⟩
    · obtain ⟨generated, hy⟩ := preserved_shape s.cfg x
      rw [hy]
      exact (retryable_moves hst).2
  | group hdue hx' =>
    obtain rfl := hsame hx'
    exact h.kept hx hs hh (fun _ => ⟨rfl, rfl⟩) fun _ => (candidate_moves hdue.candidate).1
  | putBack hdue hx' =>
    obtain rfl := hsame hx'
    exact h.kept hx hs hh (fun _ => ⟨rfl, rfl⟩) fun _ => (candidate_moves hdue.candidate).2.1
  | grant _ hx' _ =>
    obtain rfl := hsame hx'
    exact h.kept hx hs hh (fun _ => ⟨rfl, rfl⟩) fun hne => (h.holding _ x hx hne).2
  | resolve _ => exact h.freed hx hs hh (resolve_grounded _ _ _ _ x).reservation
  | finish _ _ _ => exact h.freed hx hs hh (finish_grounded _ _ x).reservation
  | cancelNow | workerDown | expire | cancelDue | exhausted | disown | foreign | reject | abort =>
    exact h.freed hx hs hh rfl

theorem deed_held {s t u v : Fabric} {c : Call} {d : Deed} (hc : Lossless ⟨s, .call c, t⟩) (hd : Does u d v)
    (hp : c.Performs s u d) (h : u.Held) : v.Held := by
  have hto : ∀ {g : Holdings}, v.holdings = g → g.accounts.Bounded → v.accounts.Bounded := by
    rintro _ rfl hg
    exact hg
  cases hd with
  | note hs hh =>
    exact h.same (fun _ => by rw [hs]) (congrArg (fun g => g.accounts.reservations) hh)
      (congrArg (fun g => g.accounts.nextReservation) hh) (hto hh h.bounded)
  | register hs hh =>
    exact h.same (fun _ => by rw [hs]) (congrArg (fun g => g.accounts.reservations) hh)
      (congrArg (fun g => g.accounts.nextReservation) hh) (hto hh (Accounts.Bounded.register h.bounded _))
  | lose hs hh =>
    exact h.same (fun _ => by rw [hs]) (congrArg (fun g => g.accounts.reservations) hh)
      (congrArg (fun g => g.accounts.nextReservation) hh) (hto hh (h.bounded.workers _))
  | shuffle hs _ hh =>
    exact h.same (find?_reorder hs) (congrArg (fun g => g.accounts.reservations) hh)
      (congrArg (fun g => g.accounts.nextReservation) hh) (hto hh (h.bounded.workers _))
  | enrol hq hs hh => exact h.enrol hq hs hh
  | change hx hs hh =>
    cases c with
    | op o => exact change_held hc hp hx hs hh h
    | tick | rehash => cases hp
  | send hs hh =>
    cases c with
    | op o =>
      cases hp with
      | send hsend =>
        refine h.send hsend.nonempty hsend.nodup hsend.live hsend.reservation (fun m hm => ?_) hs hh
        obtain ⟨x, hdue, -, hfind⟩ := hsend.member m hm
        exact ⟨_, hfind, hc m x hdue, (candidate_moves hdue.candidate).2.2⟩
    | tick | rehash => cases hp

theorem init_held (cfg : Config) (clock : TimePoint) : (Fabric.init cfg clock).Held := by
  refine ⟨?_, ?_, { live := ?_, numbered := ?_, bound := fun _ => Nat.le_refl _ }, Nat.one_ne_zero⟩
  · intro ρ r hr
    cases hr
  · intro q x hx
    cases hx
  · intro ρ r hr
    cases hr
  · intro ρ r hr
    cases hr

/-- A recovery with nothing reserved leaves nothing held. -/
theorem Restarted.held {s t : Fabric} (hr : Restarted s t) (hempty : s.reservations.entries = []) (h : s.Held) :
    t.Held := by
  refine ⟨fun ρ r hρ => ?_, fun q x hx hne => absurd (hr.seqs q x hx).reservation hne, ?_, ?_⟩
  · rw [hr.reservations, find?_eq_some_iff, hempty] at hρ
    cases hρ
  · rw [hr.accounts]
    exact h.bounded.slots _
  · rw [hr.nextReservation]
    exact h.numbered

theorem held_maintained : Maintained Lossless Fabric.Held where
  init := init_held
  deed hc _ _ _ _ hd hp hu := deed_held hc hd hp hu
  restart hc hr hs := hr.held hc hs

/-- In a lifetime that writes over no reservation, every reservation on the books is held by a sequence in flight, and
    once every sequence has ended nothing is reserved. -/
theorem reservations_held_when {h : Lifetime} {s : Fabric} (hr : LivesTo h s) (hc : ∀ e ∈ h, Lossless e) :
    (∀ ρ r, s.reservations.find? ρ = some r →
      ∃ q x, s.seqs.find? q = some x ∧ x.hasInflight = true ∧ x.reservation = ρ) ∧
    ((∀ q x, s.seqs.find? q = some x → x.machine.isTerminal = true) →
      s.reservations.entries = [] ∧ ∀ d, (s.devMem.getD d {}).reserved = 0) := by
  have hheld := held_maintained.holds hr hc
  refine ⟨fun ρ r hρ => (hheld.charged ρ r hρ).2.2, fun hended => ?_⟩
  have hempty : s.reservations.entries = [] := by
    rw [List.eq_nil_iff_forall_not_mem]
    rintro ⟨ρ, r⟩ hmem
    obtain ⟨-, h0, q, x, hx, -, hres⟩ := hheld.charged ρ r (find?_eq_some_iff.mpr hmem)
    have hlive := (hheld.holding q x hx (hres ▸ h0)).2
    rw [hended q x hx] at hlive
    cases hlive
  refine ⟨hempty, fun d => ?_⟩
  have hbound := hheld.bounded.bound d
  have hsum : s.accounts.liveBytes d = 0 := by
    unfold Accounts.liveBytes total
    change (s.reservations.entries.map _).sum = 0
    rw [hempty]
    rfl
  rw [hsum] at hbound
  exact UInt64.toNat_inj.mp (Nat.le_zero.mp hbound)

namespace Sample

/-- The same dispatch twice: the sequence is retried while its first dispatch is in flight, then it is cancelled. -/
def redispatched : List Op := dispatched ++ [.retry 1, .schedule 2, .cancel 1, .advance 3]

end Sample

theorem reservations_held_charged : ((start.execAll charged).reservations.find? 1).isSome = true ∧
    ∃ q x, (start.execAll charged).seqs.find? q = some x ∧ x.hasInflight = true ∧ x.reservation = 1 := by
  obtain ⟨r, hr⟩ : ∃ r, (start.execAll charged).reservations.find? 1 = some r := ⟨_, rfl⟩
  refine ⟨by rw [hr]; rfl, (reservations_held_when (runsTo charged).livesTo ?_).1 1 r hr⟩
  intro e he
  simp only [lifetime, charged, trace, List.map_cons, List.map_nil, List.mem_cons, List.not_mem_nil,
    or_false] at he
  rcases he with rfl | rfl | rfl
  · trivial
  · trivial
  · -- nothing has been dispatched before the tick
    have hidle : ∀ e ∈ ((start.exec (.registerWorker smallWorker)).exec (.submit request)).seqs.entries,
        e.2.hasInflight = false := by decide
    exact fun q x hdue => hidle (q, x) (find?_eq_some_iff.mp hdue.found)

/-- The reservation of the first dispatch is held by nobody, and still there when the sequence has ended. -/
theorem retried_reservation_lost :
    LivesTo (lifetime (trace start redispatched)) (start.execAll redispatched) ∧
      ((start.execAll redispatched).reservations.find? 1).isSome = true ∧
      (∀ e ∈ (start.execAll redispatched).seqs.entries,
        e.2.reservation ≠ 1 ∧ e.2.machine.isTerminal = true) ∧
      ((start.execAll redispatched).devMem.getD 1 {}).reserved = 64 :=
  ⟨(runsTo redispatched).livesTo, by decide, by decide, by decide⟩

end DecodeFabric
