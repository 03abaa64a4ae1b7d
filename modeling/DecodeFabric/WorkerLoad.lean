import DecodeFabric.Flight

/- The load of a worker.

   `schedule` adds one to a worker's `active_reservations` for each dispatch, and nothing takes it away again: only a
   registration and `mark_worker_dead` set the number anew. It counts the dispatches in flight as long as none is
   ever done (`load_exact_when`); with the first dispatch whose last member is landed it is too high by one for good,
   and a worker of capacity one is never chosen again (`worker_worn_out`).

   `issuedTo` reads the dispatches issued to a worker since its registration off a lifetime. Ids handed out in
   one tick are new, so the list of a whole tick can be fixed before its first dispatch leaves. -/
namespace DecodeFabric
open Lib Table List Fabric Sample UInt64
variable {d : Dispatch} {id : DispatchId} {e : Edge Fabric LifeCall} {s t : Fabric} {ids : List DispatchId}
  {w : WorkerId} {issued : WorkerId → Option (List DispatchId)}

/-! Dispatches in flight. -/

namespace Fabric

/-- Dispatch `id` has a member in flight. -/
def flies (s : Fabric) (id : DispatchId) : Bool :=
  s.seqs.entries.any fun e => e.2.hasInflight && decide (e.2.inFlightDispatch = id)

variable {s t : Fabric} {id : DispatchId}

theorem flies_iff : s.flies id = true ↔
    ∃ q x, s.seqs.find? q = some x ∧ x.hasInflight = true ∧ x.inFlightDispatch = id := by
  unfold flies
  rw [any_eq_true]
  constructor
  · rintro ⟨⟨q, x⟩, hmem, h⟩
    simp only [Bool.and_eq_true, decide_eq_true_eq] at h
    exact ⟨q, x, find?_eq_some_iff.mpr hmem, h⟩
  · rintro ⟨q, x, hx, h⟩
    refine ⟨(q, x), find?_eq_some_iff.mp hx, ?_⟩
    simp only [Bool.and_eq_true, decide_eq_true_eq]
    exact h

theorem flies_congr (h : ∀ {q x}, t.seqs.find? q = some x → x.hasInflight = true → x.inFlightDispatch = id →
    s.flies id = true)
    (h' : ∀ {q x}, s.seqs.find? q = some x → x.hasInflight = true → x.inFlightDispatch = id → t.flies id = true) :
    t.flies id = s.flies id := by
  rw [Bool.eq_iff_iff]
  constructor
  · intro ht
    obtain ⟨q, x, hx, hup, hid⟩ := flies_iff.mp ht
    exact h hx hup hid
  · intro hs
    obtain ⟨q, x, hx, hup, hid⟩ := flies_iff.mp hs
    exact h' hx hup hid

theorem TripsFrom.flies_eq (h : s.TripsFrom t)
    (h' : ∀ {q x}, s.seqs.find? q = some x → x.hasInflight = true → x.inFlightDispatch = id → t.flies id = true) :
    t.flies id = s.flies id := by
  refine flies_congr (fun hy hup hid => ?_) h'
  obtain ⟨x, hx, hyx⟩ := h _ _ hy hup
  exact flies_iff.mpr ⟨_, x, hx, hyx.hasInflight ▸ hup, hyx.inFlightDispatch ▸ hid⟩

theorem flies_of_find? (h : ∀ q, t.seqs.find? q = s.seqs.find? q) : t.flies id = s.flies id :=
  (TripsFrom.of_find? h).flies_eq fun hx hup hid => flies_iff.mpr ⟨_, _, (h _).trans hx, hup, hid⟩

theorem filter_flies_nil {ids : List DispatchId}
    (h : ∀ q x, s.seqs.find? q = some x → x.hasInflight = true → x.inFlightDispatch ∉ ids) :
    ids.filter s.flies = [] := by
  rw [filter_eq_nil_iff]
  intro id hmem hfly
  obtain ⟨q, x, hx, hup, rfl⟩ := flies_iff.mp hfly
  exact h q x hx hup hmem

end Fabric

/-- The dispatches a call issues to worker `w`. -/
def newTo (e : Edge Fabric LifeCall) (w : WorkerId) : List DispatchId :=
  ((dispatchesOf e).filter fun d => d.worker = w).map Dispatch.id

/-- The dispatches issued to worker `w` since it was registered with nothing reserved, after one more call. A recovery
    replaces the sequences: what is left are the dispatches with a member in flight. -/
def issueTo (w : WorkerId) (issued : Option (List DispatchId)) (e : Edge Fabric LifeCall) : Option (List DispatchId) :=
  match e.label with
  | .call (.op (.registerWorker wd)) =>
    if wd.valid = true ∧ wd.id = w then if wd.activeReservations = 0 then some [] else none else issued
  | .recover _ => issued.map (filter e.post.flies)
  | _ => issued.map (· ++ newTo e w)

/-- The dispatches issued to worker `w` since its last registration, if that was with nothing reserved. -/
def issuedTo (h : Lifetime) (w : WorkerId) : Option (List DispatchId) := h.foldl (issueTo w) none

/-! Loads. -/

theorem length_filter_gain {α : Type} [DecidableEq α] {a : α} {p p' : α → Bool} {l : List α} (hn : l.Nodup) (ha : a ∈ l)
    (hp : p a = false) (hp' : p' a = true) (h : ∀ b ∈ l, b ≠ a → p' b = p b) :
    (l.filter p').length = (l.filter p).length + 1 := by
  have hl := perm_cons_erase ha
  have hsame : (l.erase a).filter p' = (l.erase a).filter p :=
    filter_congr fun b hb => h b (mem_of_mem_erase hb) (hn.mem_erase_iff.mp hb).1
  rw [(hl.filter p').length_eq, (hl.filter p).length_eq, filter_cons_of_pos hp',
    filter_cons_of_neg (by simp [hp]), hsame,
    length_cons]

/-- Every worker is entered under its own id. -/
def Fabric.Keyed (s : Fabric) : Prop := ∀ k w, s.workers.find? k = some w → w.id = k

theorem Fabric.Keyed.modify (h : s.Keyed) {id : WorkerId} {f : WorkerDescriptor → WorkerDescriptor}
    (ht : t.workers = s.workers.modify id f) (hf : ∀ w, (f w).id = w.id) : t.Keyed := by
  intro k w hw
  rw [ht, find?_modify] at hw
  split at hw
  · next hk =>
    obtain ⟨v, hv, rfl⟩ := Option.map_eq_some_iff.mp hw
    exact (hf v).trans (h k v hv)
  · exact h k w hw

theorem Does.keyed {d : Deed} (hd : Does s d t) (h : s.Keyed) : t.Keyed := by
  have hsame : t.workers = s.workers → t.Keyed := fun hw k w hk => h k w (hw ▸ hk)
  have hworkers : t.workers = t.holdings.accounts.workers := rfl
  cases hd with
  | note _ hh | enrol _ _ hh => exact hsame (by rw [hworkers, hh]; rfl)
  | change _ _ hh => exact hsame (by rw [hworkers, hh, Holdings.pay_workers]; rfl)
  | @send _ _ _ _ wk _ hh =>
    have hcharged : t.workers = s.workers.modify wk .charged := by
      rw [hworkers, hh]
      rfl
    exact h.modify hcharged fun _ => rfl
  | register _ hh =>
    intro k w hw
    rw [hworkers, hh] at hw
    change (insert _ _ _).find? k = some w at hw
    rw [find?_insert] at hw
    split at hw
    · next hk =>
      cases hw
      exact hk.symm
    · exact h k w hw
  | @lose _ id _ hh =>
    have hlost : t.workers = s.workers.modify id .down := by
      rw [hworkers, hh]
      rfl
    exact h.modify hlost fun _ => rfl
  | shuffle _ hw hh =>
    intro k w hk
    rw [hworkers, hh] at hk
    exact h k w ((find?_reorder hw k).symm.trans hk)

/-- The load of the workers in `W` is the number of their dispatches in flight, `issued` being the dispatches issued to
    them. -/
structure Fabric.Loaded (issued : WorkerId → Option (List DispatchId)) (W : WorkerId → Prop) (s : Fabric) : Prop where
  recent : s.AllSeqs fun x => x.hasInflight = true → x.inFlightDispatch < s.nextDispatch
  homed : ∀ w ids, issued w = some ids →
    s.AllSeqs fun x => x.hasInflight = true → x.inFlightDispatch ∈ ids → x.inFlightWorker = w
  active : ∀ w ids, W w → issued w = some ids → ∀ wd, s.workers.find? w = some wd →
    wd.activeReservations = ofNat (ids.filter s.flies).length

namespace Fabric.Loaded
variable {issued : WorkerId → Option (List DispatchId)} {W : WorkerId → Prop} {s t : Fabric} {q : SequenceId} {x : Seq}
  {f : Seq → Seq}

/-- Nobody else is in flight, and the workers that count have the dispatches and the load they had. -/
theorem carry (h : s.Loaded issued W) (htrips : s.TripsFrom t)
    (hflies : ∀ w ids, W w → issued w = some ids → ∀ id ∈ ids, t.flies id = s.flies id)
    (hnext : s.nextDispatch ≤ t.nextDispatch)
    (hworkers : ∀ w, W w → t.workers.find? w = s.workers.find? w) : t.Loaded issued W where
  recent j y hy hup := by
    obtain ⟨x, hx, hyx⟩ := htrips j y hy hup
    rw [hyx.inFlightDispatch]
    exact Nat.lt_of_lt_of_le (h.recent j x hx (hyx.hasInflight ▸ hup)) hnext
  homed w ids hids j y hy hup hmem := by
    obtain ⟨x, hx, hyx⟩ := htrips j y hy hup
    rw [hyx.inFlightWorker]
    exact h.homed w ids hids j x hx (hyx.hasInflight ▸ hup) (hyx.inFlightDispatch ▸ hmem)
  active w ids hw hids wd hwd := by
    rw [hworkers w hw] at hwd
    rw [h.active w ids hw hids wd hwd, filter_congr (hflies w ids hw hids)]

theorem same (h : s.Loaded issued W) (hseqs : ∀ q, t.seqs.find? q = s.seqs.find? q)
    (hnext : t.nextDispatch = s.nextDispatch) (hworkers : ∀ w, t.workers.find? w = s.workers.find? w) :
    t.Loaded issued W :=
  h.carry (.of_find? hseqs) (fun _ _ _ _ _ _ => flies_of_find? hseqs) (Nat.le_of_eq hnext.symm) fun w _ => hworkers w

/-- A change of one sequence. If it comes out of flight, its dispatch has another member in flight or does not count. -/
theorem change {free slot : Bool} {entry : TerminalEntry} (h : s.Loaded issued W)
    (hx : s.seqs.find? q = some x) (hs : t.seqs = s.seqs.modify q f)
    (hh : t.holdings = s.holdings.pay x free slot entry) (hf : (f x).hasInflight = false ∨ (f x).SameTrip x)
    (hstay : (f x).hasInflight = false → x.hasInflight = true →
      (∀ w ids, W w → issued w = some ids → x.inFlightDispatch ∉ ids) ∨
      ∃ q' x', q' ≠ q ∧ s.seqs.find? q' = some x' ∧ x'.hasInflight = true ∧ x'.inFlightDispatch = x.inFlightDispatch) :
    t.Loaded issued W := by
  have hworkers : t.workers = s.workers := (congrArg (·.accounts.workers) hh).trans (Holdings.pay_workers ..)
  have hnext : t.nextDispatch = s.nextDispatch := congrArg Holdings.nextDispatch hh
  have hothers : ∀ {j y}, j ≠ q → s.seqs.find? j = some y → t.seqs.find? j = some y := by
    intro j y hj hy
    rw [hs, find?_modify_ne hj]
    exact hy
  have hself : t.seqs.find? q = some (f x) := by
    rw [hs, find?_modify_self, hx]
    rfl
  have htrips : s.TripsFrom t := .modify hx hs hf
  refine h.carry htrips (fun w ids hw hids id hid => ?_) (Nat.le_of_eq hnext.symm) fun w _ => by rw [hworkers]
  refine htrips.flies_eq fun {j z} hz hup hto => ?_
  by_cases hj : j = q
  · subst hj
    cases hx.symm.trans hz
    rcases hf with hdown | hsame
    · rcases hstay hdown hup with hout | ⟨q', x', hq', hx', hup', hto'⟩
      · exact absurd (hto ▸ hid) (hout w ids hw hids)
      · exact flies_iff.mpr ⟨q', x', hothers hq' hx', hup', hto'.trans hto⟩
    · exact flies_iff.mpr ⟨j, f x, hself, hsame.hasInflight.trans hup, hsame.inFlightDispatch.trans hto⟩
  · exact flies_iff.mpr ⟨j, z, hothers hj hz, hup, hto⟩

theorem enrol {req : DecodeRequest} (h : s.Loaded issued W) (hq : s.seqs.find? q = none)
    (hs : t.seqs = s.seqs.insert q (Seq.ofRequest req)) (hh : t.holdings = s.holdings.takeSlot req.tenant) :
    t.Loaded issued W := by
  have hworkers : t.workers = s.workers := congrArg (fun g => g.accounts.workers) hh
  have hnext : t.nextDispatch = s.nextDispatch := congrArg Holdings.nextDispatch hh
  refine h.carry (.insert hs) (fun _ _ _ _ id _ => ?_) (Nat.le_of_eq hnext.symm) fun w _ => by rw [hworkers]
  refine (TripsFrom.insert hs).flies_eq fun {j z} hz hup hto => ?_
  have hj : j ≠ q := by
    rintro rfl
    rw [hq] at hz
    cases hz
  refine flies_iff.mpr ⟨j, z, ?_, hup, hto⟩
  rw [hs, find?_insert_ne hj]
  exact hz

/-- A group that was not in flight leaves: its worker has one dispatch more. -/
theorem send {members : List SequenceId} {res : Reservation} {wk : WorkerId}
    (h : s.Loaded issued W) (hn : members.Nodup) (hne : members ≠ [])
    (hidle : ∀ m ∈ members, ∃ y, s.seqs.find? m = some y ∧ y.hasInflight = false) (hid : d.id = s.nextDispatch)
    (hdw : d.worker = wk) (hissue : ∀ w ids, issued w = some ids → ids.Nodup ∧ (d.id ∈ ids ↔ d.worker = w))
    (hs : t.seqs = members.foldl (fun u m => u.modify m (Seq.dispatchUnder d)) s.seqs)
    (hh : t.holdings = s.holdings.charge res wk) : t.Loaded issued W := by
  have hworkers : t.workers = s.workers.modify wk .charged := congrArg (fun g => g.accounts.workers) hh
  have hnext : t.nextDispatch = s.nextDispatch + 1 := congrArg Holdings.nextDispatch hh
  have hfind : ∀ j, t.seqs.find? j =
      if j ∈ members then (s.seqs.find? j).map (Seq.dispatchUnder d) else s.seqs.find? j := by
    intro j
    rw [hs, find?_foldl_modify _ hn]
  have hback := fun j y (hy : t.seqs.find? j = some y) => find?_foldl_modify_cases hn (hs ▸ hy)
  -- the new dispatch is in flight now and was not before, the others are as they were
  have hnew : s.flies d.id = false ∧ t.flies d.id = true := by
    constructor
    · by_contra hfly
      obtain ⟨q, x, hx, hup, hto⟩ := flies_iff.mp (Bool.eq_true_of_not_eq_false hfly)
      have hlt := h.recent q x hx hup
      rw [hto, hid] at hlt
      exact Nat.lt_irrefl _ hlt
    · obtain ⟨m, hm⟩ := exists_mem_of_ne_nil _ hne
      obtain ⟨y, hy, -⟩ := hidle m hm
      refine flies_iff.mpr ⟨m, y.dispatchUnder d, ?_, rfl, rfl⟩
      rw [hfind, if_pos hm, hy]
      rfl
  have hold : ∀ id, id ≠ d.id → t.flies id = s.flies id := by
    intro id hne
    refine flies_congr (fun {j y} hy hup hto => ?_) fun {j z} hz hup hto => ?_
    · rcases hback j y hy with ⟨-, z, -, rfl⟩ | ⟨-, hy⟩
      · exact absurd hto.symm hne
      · exact flies_iff.mpr ⟨j, y, hy, hup, hto⟩
    · have hj : j ∉ members := by
        intro hj
        obtain ⟨y, hy, hdown⟩ := hidle j hj
        cases hz.symm.trans hy
        rw [hup] at hdown
        cases hdown
      refine flies_iff.mpr ⟨j, z, ?_, hup, hto⟩
      rw [hfind, if_neg hj]
      exact hz
  refine ⟨fun j y hy hup => ?_, fun w ids hids j y hy hup hmem => ?_, fun w ids hW hids wd hwd => ?_⟩
  · rw [hnext]
    rcases hback j y hy with ⟨-, z, -, rfl⟩ | ⟨-, hy⟩
    · exact Nat.lt_succ_of_le (Nat.le_of_eq hid)
    · exact Nat.lt_succ_of_lt (h.recent j y hy hup)
  · rcases hback j y hy with ⟨-, z, -, rfl⟩ | ⟨-, hy⟩
    · exact (hissue w ids hids).2.mp hmem
    · exact h.homed w ids hids j y hy hup hmem
  · rw [hworkers] at hwd
    obtain ⟨hnodup, hmine⟩ := hissue w ids hids
    rcases find?_modify_cases hwd with ⟨rfl, v, hv, rfl⟩ | ⟨hother, hwd⟩
    · have hcount := length_filter_gain hnodup (hmine.mpr hdw) hnew.1 hnew.2 fun id _ hne => hold id hne
      rw [hcount, ofNat_add, ← h.active w ids hW hids v hv]
      rfl
    · have hnot : d.id ∉ ids := fun hmem => hother ((hmine.mp hmem).symm.trans hdw)
      have hsame : ids.filter t.flies = ids.filter s.flies :=
        filter_congr fun id hmem => hold id fun heq => hnot (heq ▸ hmem)
      rw [hsame, h.active w ids hW hids wd hwd]

end Fabric.Loaded
/-! Calls. -/

/-- A call completes no dispatch: if a message lands a sequence in flight, another member of its dispatch is still in
    flight; no tick sends a sequence that is in flight, and the fabric recovers only while nothing is. -/
structure Lasting (e : Edge Fabric LifeCall) : Prop where
  shared : ∀ o, e.label = .call (.op o) → ∀ u q x, o.Lands e.pre u q x → x.hasInflight = true →
    ∃ q' x', q' ≠ q ∧ u.seqs.find? q' = some x' ∧ x'.hasInflight = true ∧ x'.inFlightDispatch = x.inFlightDispatch
  rested : ∀ tn, e.label = .call (.op (.schedule tn)) → ∀ q x, e.pre.Due tn q x → x.hasInflight = false
  quiet : ∀ bytes, e.label = .recover bytes → ∀ q, e.pre.Down q

section Deed
variable {issued : WorkerId → Option (List DispatchId)} {W : WorkerId → Prop} {s t u v : Fabric} {o : Op}

/-- Every deed but a registration and a loss keeps the loads; the death of a worker keeps those of the others. -/
theorem deed_loaded {d : Deed} (hc : Lasting ⟨s, .call (.op o), t⟩)
    (hissue : ∀ d ∈ dispatchesOf ⟨s, .call (.op o), t⟩, ∀ w ids, issued w = some ids →
      ids.Nodup ∧ (d.id ∈ ids ↔ d.worker = w))
    (hreg : ∀ wd, o ≠ .registerWorker wd) (hdead : ∀ id, o = .markWorkerDead id → ¬ W id) (hd : Does u d v)
    (hp : Performs s o u d) (hk : u.Keyed) (h : u.Loaded issued W) : v.Loaded issued W := by
  cases hd with
  | note hs hh =>
    exact h.same (fun _ => by rw [hs]) (congrArg Holdings.nextDispatch hh) fun w =>
      congrArg (fun g => g.accounts.workers.find? w) hh
  | shuffle => cases hp
  | register =>
    cases hp with
    | register => exact absurd rfl (hreg _)
  | enrol hq hs hh => exact h.enrol hq hs hh
  | lose hs hh =>
    cases hp with
    | lose =>
      refine h.carry (.of_find? fun _ => by rw [hs]) (fun _ _ _ _ _ _ => flies_of_find? fun _ => by rw [hs])
        (Nat.le_of_eq (congrArg Holdings.nextDispatch hh).symm) fun w hw => ?_
      change v.holdings.accounts.workers.find? w = _
      rw [hh]
      refine find?_modify_ne (fun heq => ?_) _
      rw [heq] at hw
      exact hdead _ rfl hw
  | change hx hs hh =>
    have hfares := hp.fares hx
    refine h.change hx hs hh hfares.trip fun hdown hup => ?_
    -- who comes out of flight is landed, or on a worker that does not count
    have hnot : ∀ {y : Seq}, y.SameTrip _ → y.hasInflight = false → False := fun hsame hfalse => by
      rw [hsame.hasInflight, hup] at hfalse
      cases hfalse
    cases hfares with
    | taken _ _ htake =>
      cases htake with
      | landing hland => exact .inr (hc.shared o rfl _ _ _ hland hup)
      | death ho hfound _ hwk =>
        refine .inl fun w ids hw hids hmem => ?_
        have hhome := h.homed w ids hids _ _ hx hup hmem
        exact hdead _ ho (hwk ▸ hhome ▸ hw)
    | kept htrip _ _ | retired htrip _ _ _ | released htrip _ _ => exact (hnot htrip hdown).elim
  | send hs hh =>
    cases hp with
    | send hsend =>
      obtain ⟨w, hchosen, hdw, -⟩ := hsend.worker
      have hw := (chooseWorker_mem hchosen).1
      refine h.send hsend.nodup hsend.nonempty (fun m hm => ?_) hsend.id ?_ (hissue _ hsend.listed.1) hs hh
      · obtain ⟨x, hdue, -, hfind⟩ := hsend.member m hm
        exact ⟨_, hfind, hc.rested _ rfl m x hdue⟩
      · exact hdw.trans (hk _ w (find?_eq_some_iff.mpr hw))

end Deed

/-- Between calls every issued dispatch is behind the next id. -/
structure Fabric.LoadedAt (issued : WorkerId → Option (List DispatchId)) (s : Fabric) : Prop
    extends s.Loaded issued (fun _ => True) where
  keyed : s.Keyed
  behind : ∀ w ids, issued w = some ids → ids.Nodup ∧ ∀ id ∈ ids, id < s.nextDispatch

theorem mem_newTo : id ∈ newTo e w ↔ ∃ d ∈ dispatchesOf e, d.worker = w ∧ d.id = id := by
  simp [newTo, and_assoc]

theorem newTo_nodup (e : Edge Fabric LifeCall) (w : WorkerId) : (newTo e w).Nodup :=
  (dispatchesOf_nodup e).sublist (filter_sublist.map _)

/-- A dispatch goes to the list of its worker. -/
theorem mem_newTo_iff (hd : d ∈ dispatchesOf e) : d.id ∈ newTo e w ↔ d.worker = w := by
  rw [mem_newTo]
  constructor
  · rintro ⟨d', hd', hw, hid⟩
    rw [← inj_on_of_nodup_map (dispatchesOf_nodup e) hd' hd hid]
    exact hw
  · intro hw
    exact ⟨d, hd, hw, rfl⟩

section Extend
variable {issued issued' : WorkerId → Option (List DispatchId)} {e : Edge Fabric LifeCall}

theorem newTo_fresh (h : id ∈ newTo e w) : e.pre.nextDispatch ≤ id := by
  obtain ⟨d, hd, -, rfl⟩ := mem_newTo.mp h
  exact dispatchesOf_fresh hd

variable (h : e.pre.LoadedAt issued) (hext : ∀ w, issued' w = (issued w).map (· ++ newTo e w))
include h hext

/-- The new dispatches are issued before the first one leaves. -/
theorem Fabric.LoadedAt.extend : e.pre.Loaded issued' fun _ => True := by
  refine { h.toLoaded with homed := fun w ids hids q x hx hup hmem => ?_, active := fun w ids _ hids wd hwd => ?_ }
  · rw [hext] at hids
    obtain ⟨old, hold, rfl⟩ := Option.map_eq_some_iff.mp hids
    rcases mem_append.mp hmem with hmem | hmem
    · exact h.homed w old hold q x hx hup hmem
    · exact absurd (h.recent q x hx hup) (Nat.not_lt.mpr (newTo_fresh hmem))
  · rw [hext] at hids
    obtain ⟨old, hold, rfl⟩ := Option.map_eq_some_iff.mp hids
    have hnone : (newTo e w).filter e.pre.flies = [] := filter_flies_nil fun q x hx hup hmem =>
      absurd (h.recent q x hx hup) (Nat.not_lt.mpr (newTo_fresh hmem))
    rw [filter_append, hnone, append_nil]
    exact h.active w old trivial hold wd hwd

theorem Fabric.LoadedAt.issue (hids : issued' w = some ids) :
    ids.Nodup ∧ ∀ d ∈ dispatchesOf e, (d.id ∈ ids ↔ d.worker = w) := by
  rw [hext] at hids
  obtain ⟨old, hold, rfl⟩ := Option.map_eq_some_iff.mp hids
  obtain ⟨hnodup, hbehind⟩ := h.behind w old hold
  constructor
  · refine nodup_append.mpr ⟨hnodup, newTo_nodup e w, fun id hid id' hid' heq => ?_⟩
    exact absurd (hbehind id hid) (Nat.not_lt.mpr (heq ▸ newTo_fresh hid'))
  · intro d hd
    rw [mem_append, mem_newTo_iff hd]
    refine ⟨fun hmem => hmem.resolve_left fun hmem => ?_, .inr⟩
    exact absurd (hbehind d.id hmem) (Nat.not_lt.mpr (dispatchesOf_fresh hd))

theorem Fabric.LoadedAt.passed (hnext : e.pre.nextDispatch ≤ e.post.nextDispatch)
    (hsent : ∀ d ∈ dispatchesOf e, d.id < e.post.nextDispatch)
    (hids : issued' w = some ids) : ids.Nodup ∧ ∀ id ∈ ids, id < e.post.nextDispatch := by
  refine ⟨(h.issue hext hids).1, fun id hid => ?_⟩
  rw [hext] at hids
  obtain ⟨old, hold, rfl⟩ := Option.map_eq_some_iff.mp hids
  rcases mem_append.mp hid with hid | hid
  · exact Nat.lt_of_lt_of_le ((h.behind w old hold).2 id hid) hnext
  · obtain ⟨d, hd, -, rfl⟩ := mem_newTo.mp hid
    exact hsent d hd

end Extend

theorem deed_nextDispatch {u v : Fabric} {d : Deed} (hd : Does u d v) : u.nextDispatch ≤ v.nextDispatch := by
  have hle : ∀ {g : Holdings}, v.holdings = g → u.nextDispatch ≤ g.nextDispatch → u.nextDispatch ≤ v.nextDispatch := by
    rintro _ rfl hg
    exact hg
  cases hd with
  | note _ hh | change _ _ hh | enrol _ _ hh | register _ hh | lose _ hh | shuffle _ _ hh =>
    exact hle hh (Nat.le_refl _)
  | send _ hh => exact hle hh (Nat.le_succ _)

theorem exec_nextDispatch (s : Fabric) (o : Op) : s.nextDispatch ≤ (s.exec o).nextDispatch :=
  (exec_deeds s o).invariant (I := fun u => s.nextDispatch ≤ u.nextDispatch)
    (fun hd _ hu => Nat.le_trans hu (deed_nextDispatch hd)) (Nat.le_refl _)

theorem dispatchesOf_sent (s : Fabric) (o : Op) :
    ∀ d ∈ dispatchesOf ⟨s, .call (.op o), s.exec o⟩, d.id < (s.exec o).nextDispatch := by
  intro d hd
  cases o with
  | schedule tn =>
    obtain ⟨sent, hticked⟩ := s.schedule_spec tn
    exact (hticked.ids d hd).2
  | _ => cases hd

/-- An operation that neither registers nor loses a worker. -/
theorem exec_loaded {issued' : WorkerId → Option (List DispatchId)} {o : Op} (hc : Lasting ⟨s, .call (.op o), s.exec o⟩)
    (hext : ∀ w, issued' w = (issued w).map (· ++ newTo ⟨s, .call (.op o), s.exec o⟩ w))
    (hreg : ∀ wd, o ≠ .registerWorker wd) (hdead : ∀ id, o ≠ .markWorkerDead id) (h : s.LoadedAt issued) :
    (s.exec o).LoadedAt issued' := by
  obtain ⟨hkeyed, hload⟩ := (exec_deeds s o).invariant (I := fun u => u.Keyed ∧ u.Loaded issued' fun _ => True)
    (fun hd hp hu => ⟨hd.keyed hu.1, deed_loaded hc
      (fun d hd _ _ hids => ⟨(h.issue hext hids).1, (h.issue hext hids).2 d hd⟩) hreg
      (fun id ho => absurd ho (hdead id)) hd hp hu.1 hu.2⟩) ⟨h.keyed, h.extend hext⟩
  exact ⟨hload, hkeyed, fun _ _ hids => h.passed hext (exec_nextDispatch s o) (dispatchesOf_sent s o) hids⟩

theorem markWorkerDead_zero {id : WorkerId} {wd : WorkerDescriptor}
    (hwd : (s.exec (.markWorkerDead id)).workers.find? id = some wd) : wd.activeReservations = 0 := by
  have hrest : Deeds (Performs s (.markWorkerDead id)) (s.withoutWorker id) (s.exec (.markWorkerDead id)) :=
    Path.foldl fun _ hp => reconcileWorkerDown_deeds hp
  have hlost : ∀ {ws : Table WorkerId WorkerDescriptor} {w : WorkerDescriptor},
      (ws.modify id .down).find? id = some w →
        w.activeReservations = 0 := by
    intro ws w hw
    rw [find?_modify_self] at hw
    obtain ⟨w', -, rfl⟩ := Option.map_eq_some_iff.mp hw
    rfl
  refine hrest.invariant (I := fun u => ∀ w, u.workers.find? id = some w → w.activeReservations = 0)
    (fun {u v d} hd hp hu w hw => ?_) (fun w hw => hlost hw) wd hwd
  change v.holdings.accounts.workers.find? id = some w at hw
  cases hd with
  | note _ hh =>
    rw [hh] at hw
    exact hu w hw
  | change _ _ hh =>
    rw [hh, Holdings.pay_workers] at hw
    exact hu w hw
  | lose _ hh =>
    cases hp with
    | lose =>
      rw [hh] at hw
      exact hlost hw
  | enrol | send | register | shuffle => cases hp

/-- A worker that is marked dead has nothing reserved, and nothing in flight. -/
theorem markWorkerDead_loaded {id : WorkerId}
    (hc : Lasting ⟨s, .call (.op (.markWorkerDead id)), s.exec (.markWorkerDead id)⟩) (h : s.LoadedAt issued) :
    (s.exec (.markWorkerDead id)).LoadedAt issued := by
  obtain ⟨hkeyed, hothers⟩ := (exec_deeds s (.markWorkerDead id)).invariant
    (I := fun u => u.Keyed ∧ u.Loaded issued (· ≠ id))
    (fun hd hp hu => ⟨hd.keyed hu.1, deed_loaded hc (fun _ hd => absurd hd not_mem_nil) (fun _ => nofun)
      (fun _ heq hne => by cases heq; exact hne rfl) hd hp hu.1 hu.2⟩)
    ⟨h.keyed, { h.toLoaded with active := fun w ids _ => h.active w ids trivial }⟩
  refine { hothers with active := fun w ids _ hids wd hwd => ?_, keyed := hkeyed, behind := fun w ids hids => ?_ }
  · by_cases hw : w = id
    · subst hw
      have hnone : ids.filter (s.exec (.markWorkerDead w)).flies = [] := filter_flies_nil fun q y hy hup hmem =>
        markWorkerDead_down s w hy hup (hothers.homed w ids hids q y hy hup hmem)
      rw [hnone, markWorkerDead_zero hwd]
      rfl
    · exact hothers.active w ids hw hids wd hwd
  · obtain ⟨hnodup, hbehind⟩ := h.behind w ids hids
    exact ⟨hnodup, fun i hi => Nat.lt_of_lt_of_le (hbehind i hi) (exec_nextDispatch s _)⟩

theorem registerWorker_loaded (wd : WorkerDescriptor) (h : s.LoadedAt issued) : (s.exec (.registerWorker wd)).LoadedAt
      fun w => issueTo w (issued w) ⟨s, .call (.op (.registerWorker wd)), s.exec (.registerWorker wd)⟩ := by
  have hkeyed : (s.exec (.registerWorker wd)).Keyed := (exec_deeds s _).invariant (fun hd _ hu => hd.keyed hu) h.keyed
  simp only [issueTo, exec, registerWorker] at hkeyed ⊢
  cases hv : wd.valid with
  | false =>
    simp only [Bool.not_false, if_true, Bool.false_eq_true, false_and, if_false]
    exact h
  | true =>
    simp only [hv, Bool.not_true, Bool.false_eq_true, if_false, true_and] at hkeyed ⊢
    -- the sequences are as they were, and so is every other worker
    have hback : ∀ {w ids},
        (if wd.id = w then if wd.activeReservations = 0 then some [] else none else issued w) = some ids →
        (wd.id = w ∧ wd.activeReservations = 0 ∧ ids = []) ∨ (wd.id ≠ w ∧ issued w = some ids) := by
      intro w ids hids
      split at hids
      · next hw =>
        split at hids
        · next hzero => exact .inl ⟨hw, hzero, (Option.some.inj hids).symm⟩
        · cases hids
      · next hw => exact .inr ⟨hw, hids⟩
    refine ⟨⟨h.recent, fun w ids hids => ?_, fun w ids _ hids w' hw' => ?_⟩, hkeyed, fun w ids hids => ?_⟩
    · rcases hback hids with ⟨-, -, rfl⟩ | ⟨-, hids⟩
      · intro q x _ _ hmem
        cases hmem
      · exact h.homed w ids hids
    · change (s.workers.insert wd.id wd).find? w = some w' at hw'
      rcases hback hids with ⟨rfl, hzero, rfl⟩ | ⟨hne, hids⟩
      · rw [find?_insert_self] at hw'
        cases hw'
        exact hzero
      · rw [find?_insert_ne (Ne.symm hne)] at hw'
        exact h.active w ids trivial hids w' hw'
    · rcases hback hids with ⟨-, -, rfl⟩ | ⟨-, hids⟩
      · exact ⟨nodup_nil, fun _ hmem => absurd hmem not_mem_nil⟩
      · exact h.behind w ids hids

/-- A call that issues nothing. -/
theorem issueTo_quiet {issued : Option (List DispatchId)}
    (h : newTo e w = []) : issued.map (· ++ newTo e w) = issued := by
  rw [h]
  cases issued with
  | none => rfl
  | some ids => exact congrArg some (append_nil ids)

/-- A recovery while nothing is in flight. -/
theorem recover_loaded (h : s.LoadedAt issued) (hquiet : ∀ q, s.Down q) (hr : t = s ∨ Restarted s t) :
    t.LoadedAt fun w => (issued w).map (filter t.flies) := by
  have hdown : ∀ q, t.Down q := by
    rcases hr with rfl | hr
    · exact hquiet
    · exact fun q x hx => (hr.seqs q x hx).hasInflight
  have hworkers : t.workers = s.workers := by
    rcases hr with rfl | hr
    · rfl
    · exact hr.workers
  have hidle : ∀ {u : Fabric} {P : Prop} {q x}, (∀ q, u.Down q) → u.seqs.find? q = some x →
    x.hasInflight = true → P := by
    intro u P q x hu hx hup
    rw [hu q x hx] at hup
    cases hup
  have hnone : ∀ {u : Fabric} (ids : List DispatchId), (∀ q, u.Down q) → ids.filter u.flies = [] := fun ids hu =>
    filter_flies_nil fun _ _ hx hup => hidle hu hx hup
  have hempty : ∀ {w ids}, (issued w).map (filter t.flies) = some ids → ids = [] ∧ ∃ old, issued w = some old := by
    intro w ids hids
    obtain ⟨old, hold, rfl⟩ := Option.map_eq_some_iff.mp hids
    exact ⟨hnone old hdown, old, hold⟩
  refine ⟨⟨fun q x hx hup => hidle hdown hx hup, fun w ids _ q x hx hup => hidle hdown hx hup,
    fun w ids _ hids wd hwd => ?_⟩, fun k w hw => h.keyed k w (hworkers ▸ hw), fun w ids hids => ?_⟩
  · obtain ⟨rfl, old, hold⟩ := hempty hids
    rw [h.active w old trivial hold wd (hworkers ▸ hwd), hnone old hquiet]
    rfl
  · obtain ⟨rfl, -⟩ := hempty hids
    exact ⟨nodup_nil, fun _ hmem => absurd hmem not_mem_nil⟩

theorem next_loaded (hn : LifeNext e.pre e.label e.post) (hc : Lasting e) (h : e.pre.LoadedAt issued) :
    e.post.LoadedAt fun w => issueTo w (issued w) e := by
  obtain ⟨s, c, t⟩ := e
  change LifeNext s c t at hn
  change s.LoadedAt issued at h
  have silent : ∀ {c : LifeCall} {t : Fabric}, (∀ w, issueTo w (issued w) ⟨s, c, t⟩ = issued w) → t.LoadedAt issued →
      t.LoadedAt fun w => issueTo w (issued w) ⟨s, c, t⟩ := by
    intro c t hsame ht
    rw [funext hsame]
    exact ht
  cases hn with
  | recover bytes => exact recover_loaded h (hc.quiet bytes rfl) (recoverState_restarted s bytes)
  | call hn =>
    cases hn with
    | tick now =>
      exact silent (fun _ => issueTo_quiet rfl) ⟨h.toLoaded.same (fun _ => rfl) rfl fun _ => rfl, h.keyed, h.behind⟩
    | rehash seqs workers hs hw =>
      exact silent (fun _ => issueTo_quiet rfl)
        ⟨h.toLoaded.same (find?_reorder hs) rfl (find?_reorder hw),
          fun k w hk => h.keyed k w ((find?_reorder hw k).symm.trans hk), h.behind⟩
    | op o =>
      cases o with
      | registerWorker wd => exact registerWorker_loaded wd h
      | markWorkerDead id => exact silent (fun _ => issueTo_quiet rfl) (markWorkerDead_loaded hc h)
      | _ => exact exec_loaded hc (fun _ => rfl) (fun _ => nofun) (fun _ => nofun) h

theorem init_loaded (cfg : Config) (clock : TimePoint) : (init cfg clock).LoadedAt (issuedTo []) := by
  refine ⟨⟨?_, ?_, ?_⟩, ?_, ?_⟩
  · intro q x hx
    cases hx
  · intro w ids hids
    cases hids
  · intro w ids _ hids
    cases hids
  · intro k w hw
    cases hw
  · intro w ids hids
    cases hids

theorem loaded_run {s₀ : Fabric} {h : Lifetime} (hr : Run LifeNext s₀ h s) (h₀ : s₀.LoadedAt (issuedTo []))
    (hc : ∀ e ∈ h, Lasting e) : s.LoadedAt (issuedTo h) := by
  refine hr.history (I := fun h s => s.LoadedAt (issuedTo h)) (fun h e _ hn hlast hload => ?_) hc h₀
  have hissued : issuedTo (h ++ [e]) = fun w => issueTo w (issuedTo h w) e := by
    funext w
    unfold issuedTo
    rw [foldl_append]
    rfl
  rw [hissued]
  exact next_loaded hn hlast hload

/-- In a lifetime that completes no dispatch, the load of a worker that was registered with nothing reserved is the
    number of dispatches issued to it since that have a member in flight; with nothing in flight a healthy worker
    with a capacity is eligible for every key it supports. -/
theorem load_exact_when {h : Lifetime} {s : Fabric} (hr : LivesTo h s) (hc : ∀ e ∈ h, Lasting e) {w : WorkerId}
    {ids : List DispatchId} (hids : issuedTo h w = some ids) {wd : WorkerDescriptor}
    (hwd : s.workers.find? w = some wd) :
    wd.activeReservations = ofNat (ids.filter s.flies).length ∧
    (wd.health = .healthy → 1 ≤ wd.advertisedCapacity →
      (∀ q x, s.seqs.find? q = some x → x.hasInflight = true → x.inFlightWorker ≠ w) →
      ∀ key, supportsGroup wd key = true → eligible wd key = true) := by
  obtain ⟨cfg, clock, hr⟩ := hr
  have hload := loaded_run hr (init_loaded cfg clock) hc
  have hactive := hload.active w ids trivial hids wd hwd
  refine ⟨hactive, fun hhealthy hcap hidle key hsupports => ?_⟩
  have hnone : ids.filter s.flies = [] := filter_flies_nil fun q x hx hup hmem =>
    hidle q x hx hup (hload.homed w ids hids q x hx hup hmem)
  have hzero : wd.activeReservations = 0 := by
    rw [hactive, hnone]
    rfl
  unfold eligible
  have hroom : ¬ (wd.advertisedCapacity > 0 ∧ wd.activeReservations ≥ wd.advertisedCapacity) := by
    rintro ⟨hpos, hfull⟩
    rw [hzero] at hfull
    exact absurd hpos (UInt64.not_lt.mpr hfull)
  simp only [hhealthy, hsupports, hroom, decide_true, decide_false, Bool.not_false, Bool.and_self]

/-- A worker, a request or a tick completes no dispatch while nothing is in flight. -/
theorem lasting_of_idle {o : Op} (hidle : ∀ e ∈ s.seqs.entries, e.2.hasInflight = false)
    (ho : (∃ wd, o = .registerWorker wd) ∨ (∃ req, o = .submit req) ∨ ∃ tn, o = .schedule tn) :
    Lasting ⟨s, .call (.op o), t⟩ where
  shared _ heq u q x hland := by
    cases heq
    rcases ho with ⟨wd, rfl⟩ | ⟨req, rfl⟩ | ⟨tn, rfl⟩ <;> cases hland
  rested _ _ q x hdue := hidle (q, x) (find?_eq_some_iff.mp hdue.found)
  quiet _ heq := nomatch heq

namespace Sample

/-- A worker that takes one dispatch at a time. -/
def singleWorker : WorkerDescriptor := { worker 1 1 with advertisedCapacity := 1 }

def loaded : List Op := [.registerWorker singleWorker, .submit request, .schedule 1]

/-- Its dispatch is done. -/
def unloaded : List Op := loaded ++ [.authorizePrepared prepared, .applyCommitReceipt { receipts := [receipt] }]

end Sample

theorem load_exact_loaded : ((start.execAll loaded).workers.find? 1).map WorkerDescriptor.activeReservations =
    some (ofNat ([1].filter (start.execAll loaded).flies).length) := by
  obtain ⟨wd, hwd⟩ : ∃ wd, (start.execAll loaded).workers.find? 1 = some wd := ⟨_, rfl⟩
  have hids : issuedTo (lifetime (trace start loaded)) 1 = some [1] := by decide
  rw [hwd]
  refine congrArg some (load_exact_when (runsTo loaded).livesTo ?_ hids hwd).1
  intro e he
  simp only [lifetime, loaded, trace, map_cons, map_nil, mem_cons, not_mem_nil,
    or_false] at he
  rcases he with rfl | rfl | rfl
  · exact lasting_of_idle (by decide) (.inl ⟨_, rfl⟩)
  · exact lasting_of_idle (by decide) (.inr (.inl ⟨_, rfl⟩))
  · exact lasting_of_idle (by decide) (.inr (.inr ⟨_, rfl⟩))

/-- The dispatch is done and nothing is in flight, but the worker stays full. -/
theorem worker_worn_out :
    LivesTo (lifetime (trace start unloaded)) (start.execAll unloaded) ∧
      issuedTo (lifetime (trace start unloaded)) 1 = some [1] ∧
      (∀ e ∈ (start.execAll unloaded).seqs.entries, e.2.hasInflight = false) ∧
      ((start.execAll unloaded).workers.find? 1).map (fun w =>
        (w.health, w.advertisedCapacity, w.activeReservations, supportsGroup w key,
          eligible w key)) = some (.healthy, 1, 1, true, false) :=
  ⟨(runsTo unloaded).livesTo, by decide, by decide, by decide⟩

end DecodeFabric
