import DecodeFabric.Recount

/- Requests and their sequences.

   `req_to_seq` leads from a request to its sequence, and `cancel_request` goes through it. A client chooses both ids.
   `submit` refuses a request whose sequence id is taken; its request id is not looked up, and a second request under
   the same id takes the entry over.

   So the index is always sound: it has an entry for the request of every sequence, and the entry leads to a sequence of
   that request (`Indexed`), over operations, rejections and recoveries from snapshots. It is complete exactly while
   every admitted request brings an id of its own (`requests_linked_iff`); a sequence that has lost its entry cannot be
   cancelled by its request any more. -/
namespace DecodeFabric
open Lib Table Fabric Sample Option DecodeFabric.Seq

/-- The request a sequence was admitted under. -/
def Fabric.requestOf (s : Fabric) (q : SequenceId) : Option RequestId := (s.seqs.find? q).map fun x => x.req.id

/-- The index leads from the request of every sequence back to the sequence. -/
def Fabric.Linked (s : Fabric) : Prop :=
  ∀ q x, s.seqs.find? q = some x → s.reqToSeq.find? x.req.id = some q

/-- No two sequences were admitted under one request. -/
def Fabric.Unshared (s : Fabric) : Prop :=
  ∀ q q' x x', s.seqs.find? q = some x → s.seqs.find? q' = some x' → x.req.id = x'.req.id → q = q'

/-- Whatever the call admits has a request id that no sequence has. -/
def Call.BringsNew (s : Fabric) (c : Call) : Prop :=
  ∀ inp, c = .op (.submit inp) → (s.submit inp).2.admitted = true → ∀ q, s.requestOf q ≠ some inp.id

/-- Fabrics after calls meeting `P` and recoveries from snapshots that such fabrics have written. -/
inductive Continued (P : Fabric → Call → Prop) : Fabric → Prop
  | init (cfg : Config) (clock : TimePoint) : Continued P (init cfg clock)
  | next {s t : Fabric} {c : Call} : Continued P s → P s c → Next s c t → Continued P t
  | recover {s F : Fabric} : Continued P s → Continued P F → F.Representable →
      Continued P (s.recoverState F.serializeState).1

section Requests
variable {s t F : Fabric} {q : SequenceId} {x y : Seq} {r : RequestId}

theorem Fabric.requestOf_eq_some : s.requestOf q = some r ↔ ∃ x, s.seqs.find? q = some x ∧ x.req.id = r :=
  map_eq_some_iff

/-! Operations. -/

theorem Act.Changes.req {a : Act} (hc : a.Changes s q x y) : y.req = x.req := by
  cases hc with
  | seq o hg => exact (SeqOp.touched hg).req
  | issue prepared pm _ _ => rfl
  | finalize r _ _ => exact finish_same req (fun _ _ _ => rfl) ..
  | abort _ => rfl

theorem Micro.requestOf {a : Act} (hm : Micro s a t) (ha : ∀ q req, a ≠ .enrol q req) : t.requestOf = s.requestOf := by
  funext q
  unfold Fabric.requestOf
  cases hx : s.seqs.find? q with
  | none =>
    cases hy : t.seqs.find? q with
    | none => rfl
    | some y =>
      obtain ⟨req, rfl, -⟩ := hm.seq_new hx hy
      exact absurd rfl (ha q req)
  | some x =>
    obtain ⟨y, hy, rfl | hc⟩ := hm.seq_after hx
    · rw [hy]
    · rw [hy, map_some, map_some, hc.req]

theorem steps_requestOf {c : Call} (hst : Steps c.MayPerform s t) (hc : ∀ inp, c ≠ .op (.submit inp)) :
    t.requestOf = s.requestOf := by
  refine hst.invariant (I := fun u => u.requestOf = s.requestOf) ?_ rfl
  intro u v a hm ha hu
  refine (hm.requestOf fun q req heq => ?_).trans hu
  subst heq
  rcases ha with ha | ha
  · cases ha
  · obtain ⟨inp, rfl⟩ := ha.submits
    exact hc inp rfl

/-- Other calls leave requests and index alone. -/
theorem next_requestOf {c : Call} (hn : Next s c t) (h0 : s.nextDispatch ≠ 0) (hc : ∀ inp, c ≠ .op (.submit inp)) :
    t.requestOf = s.requestOf ∧ t.reqToSeq = s.reqToSeq := by
  constructor
  · exact steps_requestOf (next_steps hn h0) hc
  · cases hn with
    | op o => exact exec_reqToSeq s fun inp heq => hc inp (congrArg Call.op heq)
    | tick now => rfl
    | rehash _ _ _ _ => rfl

theorem Fabric.buildKey_id (s : Fabric) (inp : DecodeRequest) : (s.buildKey inp).id = inp.id := by
  unfold buildKey
  split <;> rfl

/-- An admitted request stands in both tables. -/
theorem enrol_requestOf {inp : DecodeRequest} (hnone : s.seqs.find? inp.sequence = none)
    (heq : s.submit inp = s.enrol (s.buildKey inp) inp.sequence) :
    (∀ q, (s.submit inp).1.requestOf q = if q = inp.sequence then some inp.id else s.requestOf q) ∧
      (s.submit inp).1.reqToSeq = s.reqToSeq.insert inp.id inp.sequence := by
  rw [heq]
  constructor
  · intro q
    unfold requestOf
    rw [enrol_new hnone, find?_insert]
    split
    · exact congrArg some (s.buildKey_id inp)
    · rfl
  · show s.reqToSeq.insert (s.buildKey inp).id inp.sequence = _
    rw [s.buildKey_id inp]

/-! The index. -/

/-- There is an entry for the request of every sequence, and it leads to a sequence of that request. -/
structure Indexed (s : Fabric) : Prop where
  covers : ∀ q r, s.requestOf q = some r → ∃ q', s.reqToSeq.find? r = some q'
  sound : ∀ r q, s.reqToSeq.find? r = some q → s.requestOf q = some r

/-- While no request is shared, the entry can only lead back. -/
theorem Indexed.linked (h : Indexed s) (hu : s.Unshared) : s.Linked := by
  intro q x hx
  obtain ⟨q', hq'⟩ := h.covers q x.req.id (by rw [requestOf, hx]; rfl)
  obtain ⟨x', hx', hid⟩ := requestOf_eq_some.mp (h.sound _ _ hq')
  rw [hq', hu q q' x x' hx hx' hid.symm]

theorem Fabric.Linked.unshared (h : s.Linked) : s.Unshared := by
  intro q q' x x' hx hx' hid
  have hq := h q x hx
  rw [hid, h q' x' hx'] at hq
  exact (some.inj hq).symm

theorem unshared_of_requestOf (h : t.requestOf = s.requestOf) (hs : s.Unshared) : t.Unshared := by
  intro q q' x x' hx hx' hid
  have hfrom : ∀ {q x}, t.seqs.find? q = some x → ∃ x₀, s.seqs.find? q = some x₀ ∧ x₀.req.id = x.req.id :=
    fun {q x} hx => requestOf_eq_some.mp (by rw [← h, requestOf, hx]; rfl)
  obtain ⟨y, hy, hyx⟩ := hfrom hx
  obtain ⟨y', hy', hyx'⟩ := hfrom hx'
  exact hs q q' y y' hy hy' (by rw [hyx, hyx', hid])

theorem Indexed.next {c : Call} (h : Indexed s) (hn : Next s c t) (h0 : s.nextDispatch ≠ 0) : Indexed t := by
  by_cases hc : ∃ inp, c = .op (.submit inp)
  · obtain ⟨inp, rfl⟩ := hc
    cases hn
    show Indexed (s.submit inp).1
    rcases submit_cases s inp with ⟨hseqs, hreg, -⟩ | ⟨-, -, hnone, heq⟩
    · have hreq : (s.submit inp).1.requestOf = s.requestOf := by
        unfold requestOf
        rw [hseqs]
      have hidx : (s.submit inp).1.reqToSeq = s.reqToSeq := congrArg Prod.fst hreg
      exact ⟨by rw [hreq, hidx]; exact h.covers, by rw [hreq, hidx]; exact h.sound⟩
    · obtain ⟨hreq, hidx⟩ := enrol_requestOf hnone heq
      constructor
      · intro q r hq
        rw [hidx, find?_insert]
        split
        · exact ⟨_, rfl⟩
        · next hr =>
          rw [hreq] at hq
          split at hq
          · exact absurd (some.inj hq).symm hr
          · exact h.covers q r hq
      · intro r q hq
        rw [hidx, find?_insert] at hq
        rw [hreq]
        split at hq
        · next hr => rw [if_pos (some.inj hq).symm, hr]
        · have hold := h.sound r q hq
          rw [if_neg fun heq => ?_]
          · exact hold
          · -- the new sequence has no entry yet
            rw [heq, requestOf, hnone] at hold
            cases hold
  · obtain ⟨hreq, hidx⟩ := next_requestOf hn h0 (not_exists.mp hc)
    exact ⟨by rw [hreq, hidx]; exact h.covers, by rw [hreq, hidx]; exact h.sound⟩

/-! Recovery. -/

/-- A snapshot brings its sequences back and the index is filled from them, whether or not the ledger is accepted. -/
theorem recoverState_registry (h : F.Representable) (s : Fabric) :
    (s.recoverState F.serializeState).1.seqs = F.seqs.map recovered ∧
    (s.recoverState F.serializeState).1.reqToSeq =
      F.seqs.entries.foldl (fun t e => t.insert e.2.req.id e.1) .empty ∧
    (s.recoverState F.serializeState).1.nextDispatch = F.nextDispatch := by
  -- the grants and the receipt count leave all this alone
  have hkept := recoverLedger_upholds (I := fun u => (u.seqs, u.reqToSeq, u.nextDispatch) = _) (fun _ h => h)
    (fun _ _ h => h) (fun _ _ h => h)
    (F.writeGrants ++ (putId F.receiptCount ++ putU32 (checksum F.snapshotBody)))
    (F.restoreTerminals (F.restoreSeqs (s.restart ⟨F.epoch, F.nextSeq, F.nextDispatch⟩))) rfl
  generalize hr : (recoverGrants >>= fun _ => recoverReceiptCount).exec
    (F.writeGrants ++ (putId F.receiptCount ++ putU32 (checksum F.snapshotBody)))
    (F.restoreTerminals (F.restoreSeqs (s.restart ⟨F.epoch, F.nextSeq, F.nextDispatch⟩))) = r at hkept
  rw [recoverState_upTo_grants h s hr]
  rw [restoreTerminals_eq, restoreSeqs_eq] at hkept
  simp only [Prod.mk.injEq] at hkept
  obtain ⟨h₁, h₂, h₃⟩ := hkept
  exact ⟨h₁.trans F.restoredSeqs_eq, h₂, h₃⟩

theorem recoverState_requestOf (h : F.Representable) (s : Fabric) :
    (s.recoverState F.serializeState).1.requestOf = F.requestOf := by
  funext q
  unfold requestOf
  rw [(recoverState_registry h s).1, find?_map]
  cases F.seqs.find? q <;> rfl

theorem recoverState_indexed (h : F.Representable) (s : Fabric) : Indexed (s.recoverState F.serializeState).1 := by
  have hreq := recoverState_requestOf h s
  obtain ⟨-, hidx, -⟩ := recoverState_registry h s
  constructor
  · intro q r hq
    rw [hreq] at hq
    obtain ⟨x, hx, hid⟩ := requestOf_eq_some.mp hq
    rw [hidx, ← mem_keys_iff, mem_keys_foldl_insert (fun e : SequenceId × Seq => e.2.req.id) fun _ e => e.1]
    exact .inr (List.mem_map.mpr ⟨(q, x), find?_eq_some_iff.mp hx, hid⟩)
  · intro r q hq
    rw [hidx] at hq
    rcases find?_foldl_insert _ _ hq with hnone | ⟨e, he, hid, rfl⟩
    · cases hnone
    · rw [hreq]
      exact requestOf_eq_some.mpr ⟨e.2, find?_eq_some_iff.mpr he, hid⟩

/-! Runs. -/

theorem Continued.indexed {P : Fabric → Call → Prop} (hs : Continued P s) : s.nextDispatch ≠ 0 ∧ Indexed s := by
  induction hs with
  | init cfg clock =>
    refine ⟨Nat.one_ne_zero, ?_, ?_⟩
    · intro q r hq
      cases hq
    · intro r q hq
      cases hq
  | next _ _ hn ih =>
    exact ⟨steps_nextDispatch (next_steps hn ih.1) ih.1, ih.2.next hn ih.1⟩
  | @recover s F _ _ hfit _ ihF =>
    refine ⟨?_, recoverState_indexed hfit s⟩
    rw [(recoverState_registry hfit s).2.2]
    exact ihF.1

/-- A call that admits nothing under a request id in use keeps requests apart. -/
theorem Fabric.Unshared.next {c : Call} (hu : s.Unshared) (hn : Next s c t) (h0 : s.nextDispatch ≠ 0)
    (hnew : c.BringsNew s) : t.Unshared := by
  by_cases hc : ∃ inp, c = .op (.submit inp)
  · obtain ⟨inp, rfl⟩ := hc
    cases hn
    show (s.submit inp).1.Unshared
    rcases submit_cases s inp with ⟨hseqs, -, -⟩ | ⟨-, -, hnone, heq⟩
    · refine unshared_of_requestOf ?_ hu
      unfold requestOf
      rw [hseqs]
    · have hadmitted : (s.submit inp).2.admitted = true := by rw [heq]; rfl
      have hseqs : (s.submit inp).1.seqs = s.seqs.insert inp.sequence (ofRequest (s.buildKey inp)) := by
        rw [heq, enrol_new hnone]
      -- no sequence from before has the request of the new one
      have hother : ∀ q x, s.seqs.find? q = some x → x.req.id ≠ (ofRequest (s.buildKey inp)).req.id := by
        intro q x hx hid
        refine hnew inp rfl hadmitted q (requestOf_eq_some.mpr ⟨x, hx, ?_⟩)
        rw [hid]
        exact s.buildKey_id inp
      intro q q' x x' hx hx' hid
      rw [hseqs, find?_insert] at hx hx'
      split at hx <;> split at hx'
      · next hq hq' => rw [hq, hq']
      · cases hx
        exact absurd hid.symm (hother q' x' hx')
      · cases hx'
        exact absurd hid (hother q x hx)
      · exact hu q q' x x' hx hx' hid
  · exact unshared_of_requestOf (next_requestOf hn h0 (not_exists.mp hc)).1 hu

/-- Two sequences under one request cannot both be found through it. -/
theorem Fabric.Linked.bringsNew {c : Call} (hn : Next s c t) (ht : t.Linked) : c.BringsNew s := by
  rintro inp rfl hadmitted q hq
  cases hn
  rcases submit_cases s inp with ⟨-, -, hrefused⟩ | ⟨-, -, hnone, heq⟩
  · rw [hadmitted] at hrefused
    cases hrefused
  · obtain ⟨hreq, hidx⟩ := enrol_requestOf hnone heq
    have hne : q ≠ inp.sequence := by
      rintro rfl
      rw [requestOf, hnone] at hq
      cases hq
    have hold : (s.submit inp).1.requestOf q = some inp.id := by rw [hreq, if_neg hne, hq]
    obtain ⟨x, hx, hid⟩ := requestOf_eq_some.mp hold
    have hentry := ht q x hx
    rw [hid, show (s.exec (.submit inp)).reqToSeq = _ from hidx, find?_insert_self] at hentry
    exact hne (some.inj hentry).symm

/-- While every admitted request brings an id of its own, requests and sequences stay linked: a request is cancelled by
    cancelling its sequence, and no two sequences share one. The first call that does not breaks the link. -/
theorem requests_linked_iff (hs : Continued (fun u c => c.BringsNew u) s) :
    s.Linked ∧ s.Unshared ∧ (∀ q x, s.seqs.find? q = some x → s.cancelRequest x.req.id = s.cancel q) ∧
      ∀ c t, Next s c t → (t.Linked ↔ c.BringsNew s) := by
  have hunshared : s.Unshared := by
    induction hs with
    | init cfg clock =>
      intro q q' x x' hx
      cases hx
    | next hs hnew hn ih => exact ih.next hn hs.indexed.1 hnew
    | recover _ _ hfit _ ihF => exact unshared_of_requestOf (recoverState_requestOf hfit _) ihF
  obtain ⟨h0, hindexed⟩ := hs.indexed
  have hlinked := hindexed.linked hunshared
  refine ⟨hlinked, hunshared, ?_, ?_⟩
  · intro q x hx
    unfold cancelRequest
    rw [hlinked q x hx]
  · intro c t hn
    refine ⟨fun ht => ht.bringsNew hn, fun hnew => ?_⟩
    exact (hindexed.next hn h0).linked (hunshared.next hn h0 hnew)

end Requests

namespace Sample

/-- Two sequences, each under a request of its own. -/
def pair : List Op := [.registerWorker (worker 1 1), .submit request, .submit { request with id := 2, sequence := 2 }]

/-- Two sequences under request 1. -/
def oneRequest : Fabric :=
  start.execAll [.registerWorker (worker 1 1), .submit request, .submit { request with sequence := 2 }]

theorem pair_continued : Continued (fun u c => c.BringsNew u) (start.execAll pair) := by
  have hfirst : Continued (fun u c => c.BringsNew u) (start.exec (.registerWorker (worker 1 1))) :=
    Continued.next (Continued.init {} 0) (by rintro inp ⟨⟩) (Next.op _ _)
  have hsecond : Continued (fun u c => c.BringsNew u)
      ((start.exec (.registerWorker (worker 1 1))).exec (.submit request)) := by
    refine Continued.next hfirst ?_ (Next.op _ _)
    rintro inp ⟨⟩ - q hq
    cases hq
  refine Continued.next hsecond ?_ (Next.op _ (.submit { request with id := 2, sequence := 2 }))
  rintro inp ⟨⟩ - q hq
  obtain ⟨x, hx, hid⟩ := requestOf_eq_some.mp hq
  have hmem := find?_eq_some_iff.mp hx
  obtain ⟨rfl, rfl⟩ := Prod.mk.inj (List.mem_singleton.mp hmem)
  exact absurd hid (by decide)

end Sample

theorem requests_linked_pair : (start.execAll pair).reqToSeq.find? 2 = some 2 ∧
      (start.execAll pair).cancelRequest 1 = (start.execAll pair).cancel 1 := by
  have hlinked := requests_linked_iff pair_continued
  exact ⟨hlinked.1 2 _ rfl, hlinked.2.2.1 1 _ rfl⟩

/-- A second request under id 1 takes the entry over; cancelling request 1 then leaves its first sequence running. -/
theorem shared_request_unlinked :
    Reachable oneRequest ∧ ¬ oneRequest.Linked ∧ ¬ oneRequest.Unshared ∧
      oneRequest.requestOf 1 = some 1 ∧ oneRequest.requestOf 2 = some 1 ∧
      oneRequest.reqToSeq.find? 1 = some 2 ∧
      ((oneRequest.cancelRequest 1).1.seqs.find? 1).map machine = some .ready ∧
      ((oneRequest.cancelRequest 1).1.seqs.find? 2).map machine = some .cancelled := by
  have hunshared : ¬ oneRequest.Unshared := fun h => absurd (h 1 2 _ _ rfl rfl rfl) (by decide)
  exact ⟨⟨_, runsTo _⟩, fun h => hunshared h.unshared, hunshared, rfl, rfl, rfl, rfl, rfl⟩

end DecodeFabric
