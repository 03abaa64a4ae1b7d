import DecodeFabric.History
import DecodeFabric.Progress

/- When a sequence is dispatched again.

   `schedule` takes candidates from Waiting, Ready, ReadyForNextToken and Yielded, but only Ready and
   ReadyForNextToken have an edge to Grouped, and the tick does not look whether its transitions
   succeed. A sequence that waits, after its worker died or its step was aborted, is sent out
   without becoming Dispatched and is a candidate again at the next tick (`waiting_sent_twice`).

   The property holds for runs that tick on such a sequence only while no worker is healthy; that
   tick makes it Ready again. The argument follows one emitted member until its sequence is seen
   out of flight: meanwhile the sequence stays in a state the scheduler does not take from, or a
   retry has given it an attempt id that no earlier dispatch carried (`DispatchKept`). -/
namespace DecodeFabric
open Lib List Fabric Sample
variable {a : Act} {m : DecodeMemberSpec} {e : Edge Fabric Call} {s t : Fabric} {out : List Dispatch}
  {sent : List SequenceId} {x y : Seq} {tn : TimePoint}

/-- The attempt a sequence starts with. -/
def DecodeRequest.firstAttempt (r : DecodeRequest) : AttemptId :=
  if r.initialAttempt ≠ 0 then r.initialAttempt else r.id

/-! Attempt ids. -/

/-- Every attempt is the first one or was minted with a dispatch id already passed or still next. -/
def Fabric.AttemptsMinted (s : Fabric) : Prop :=
  s.AllSeqs fun x => x.currentAttempt = x.req.firstAttempt ∨ s.mintAttempt ≥ x.currentAttempt

theorem micro_mintAttempt (hm : Micro s a t) : t.mintAttempt ≥ s.mintAttempt :=
  Nat.add_le_add_right hm.nextDispatch_le _

/-- No change of a sequence touches its request, and its attempt changes to the one minted then only. -/
theorem Act.Changes.attempt {q : SequenceId} (h : a.Changes s q x y) :
    y.req = x.req ∧ (y.currentAttempt = x.currentAttempt ∨ y.currentAttempt = s.mintAttempt) := by
  cases h with
  | seq o hg =>
    cases o with
    | beginAttempt attempt now => exact ⟨rfl, .inr hg⟩
    | resolve cfg attempt now mo =>
      obtain ⟨-, hmint, -⟩ := hg
      obtain ⟨st, ready, attempt', count, generated, budget, heq, -, hattempt⟩ :=
        Seq.noncommit_shape cfg attempt now mo x.endDispatch.release
      rw [show (SeqOp.resolve cfg attempt now mo).apply x = x.endDispatch.release.noncommit cfg attempt now mo from rfl,
        heq]
      exact ⟨rfl, hattempt.imp And.left fun hnew => hnew.1.trans hmint⟩
    | _ => exact ⟨rfl, .inl rfl⟩
  | issue prepared pm _ _ | abort _ => exact ⟨rfl, .inl rfl⟩
  | finalize r _ _ =>
    obtain ⟨st, ready, hshape⟩ := Seq.finish_shape (s.finishTime r) r x
    rw [hshape]
    exact ⟨rfl, .inl rfl⟩

theorem micro_attemptsMinted (hm : Micro s a t) (h : s.AttemptsMinted) : t.AttemptsMinted := by
  have hmono := micro_mintAttempt hm
  intro q y hy
  rcases hm.seq_before hy with hsame | ⟨x, hx, hc⟩ | ⟨req, -, -, rfl⟩
  · exact (h q y hsame).imp_right fun hle => Nat.le_trans hle hmono
  · obtain ⟨hreq, hsame | hnew⟩ := hc.attempt
    · rw [hsame, hreq]
      exact (h q x hx).imp_right fun hle => Nat.le_trans hle hmono
    · exact .inr (hnew ▸ hmono)
  · exact .inl rfl

/-! A sequence in flight, call by call. -/

/-- `y` is what became of `x`: out of flight, or under the same attempt and no closer to the scheduler. -/
def Seq.Settled (x y : Seq) : Prop :=
  y.hasInflight = false ∨
  (y.req = x.req ∧ y.currentAttempt = x.currentAttempt ∧
    (x.machine.isCandidate = false → y.machine.isCandidate = false))

theorem Seq.Settled.refl (x : Seq) : x.Settled x := .inr ⟨rfl, rfl, id⟩

/-- The change neither dispatches, nor starts an attempt, nor makes a candidate. -/
def SeqOp.Settles : SeqOp → Prop
  | .dispatchUnder _ => False
  | .beginAttempt _ _ => False
  | .enterGroup _ => False
  | .moveTo st => st.isCandidate = false
  | .retire st => st.isCandidate = false
  | _ => True

theorem move_not_candidate {st st' : SequenceState} (h : st.isCandidate = false) (h' : st'.isCandidate = false) :
    (st.move st').isCandidate = false := by
  rw [SequenceState.move_eq]
  split
  · exact h'
  · exact h

theorem Seq.Settled.seqOp {o : SeqOp} (ho : o.Settles) (h : x.Settled y) : x.Settled (o.apply y) := by
  cases o with
  | workerDown now | disown | reconcile now => exact .inl rfl
  | resolve cfg attempt now mo => exact .inl (resolve_same Seq.hasInflight (fun _ _ _ _ _ _ _ => rfl) ..)
  | release | rollBackTokens => exact h
  | moveTo st | retire st => exact h.imp_right fun ⟨h1, h2, h3⟩ => ⟨h1, h2, fun hc => move_not_candidate (h3 hc) ho⟩
  | dispatchUnder d | beginAttempt attempt now | enterGroup tn => exact False.elim ho

def Act.Settles : Act → Prop
  | .seq _ o => o.Settles
  | _ => True

section Follow
variable {s t : Fabric} {q : SequenceId}

theorem micro_settled (hm : Micro s a t) (ha : a.Settles) (hy : s.seqs.find? q = some y)
    (h : x.Settled y) : ∃ z, t.seqs.find? q = some z ∧ x.Settled z := by
  obtain ⟨z, hz, rfl | hc⟩ := hm.seq_after hy
  · exact ⟨z, hz, h⟩
  · refine ⟨z, hz, ?_⟩
    cases hc with
    | seq o _ => exact h.seqOp ha
    | issue prepared pm _ _ => exact h
    | abort _ | finalize r _ _ => exact .inl rfl

theorem steps_settled {A : Act → Prop} (hst : Steps A s t) (hA : ∀ a, A a → a.Settles)
    (hx : s.seqs.find? q = some x) : ∃ y, t.seqs.find? q = some y ∧ x.Settled y := by
  refine hst.invariant (I := fun u => ∃ y, u.seqs.find? q = some y ∧ x.Settled y) ?_ ⟨x, hx, Seq.Settled.refl x⟩
  rintro u v a hm ha ⟨y, hy, h⟩
  refine micro_settled hm ?_ hy h
  rcases ha with rfl | ha
  · trivial
  · exact hA a ha

/-- A retry gives its sequence the attempt minted now, and touches no other. -/
theorem retry_settled (r : SequenceId) (hx : s.seqs.find? q = some x) : ∃ y, (s.retry r).1.seqs.find? q = some y ∧
      (x.Settled y ∨ (r = q ∧ y.req = x.req ∧ y.currentAttempt = s.mintAttempt)) := by
  have hsteps := s.retry_steps r
    (A := fun a => ∃ o, a = .seq r o ∧
      (o = .rollBackTokens ∨ o = .moveTo .nonRetryableFailure ∨ o = .beginAttempt s.mintAttempt s.clock))
    ⟨_, rfl, .inl rfl⟩ ⟨_, rfl, .inr (.inl rfl)⟩ (fun _ => ⟨_, rfl, .inr (.inr rfl)⟩)
  refine hsteps.invariant (I := fun u => ∃ y, u.seqs.find? q = some y ∧
    (x.Settled y ∨ (r = q ∧ y.req = x.req ∧ y.currentAttempt = s.mintAttempt))) ?_
    ⟨x, hx, .inl (Seq.Settled.refl x)⟩
  rintro u v a hm ha ⟨y, hy, h⟩
  rcases ha with rfl | ⟨o, rfl, ho⟩
  · cases hm with
    | note hs _ => exact ⟨y, hs ▸ hy, h⟩
  · cases hm with
    | seq _ _ _ hs _ =>
      rw [hs, Table.find?_modify]
      split
      · next hqr =>
        refine ⟨o.apply y, by rw [hy]; rfl, ?_⟩
        rcases ho with rfl | rfl | rfl
        · exact h
        · exact h.imp (fun hset => hset.seqOp rfl) id
        · rcases h with (hno | ⟨hreq, -, -⟩) | ⟨-, hreq, -⟩
          · exact .inl (.inl hno)
          · exact .inr ⟨hqr.symm, hreq, rfl⟩
          · exact .inr ⟨hqr.symm, hreq, rfl⟩
      · exact ⟨y, hy, h⟩

/-! Ticks. -/

/-- Polling makes no candidate. -/
theorem polled_settled (tn : TimePoint) (x : Seq) : x.Settled (x.polled tn) :=
  Seq.polled_kept (fun _ h => h.seqOp rfl) (fun _ h => h.seqOp rfl) (fun _ _ h => h.seqOp rfl) tn (Seq.Settled.refl x)

/-- What a tick does to a sequence that is no candidate. -/
theorem ticked_settled
    (htick : Fabric.Ticked s tn t out sent) (hx : s.seqs.find? q = some x) (hc : x.machine.isCandidate = false) :
    ∃ y, t.seqs.find? q = some y ∧ x.Settled y := by
  obtain ⟨y, hy, hxy⟩ := htick.seq_after hx
  refine ⟨y, hy, ?_⟩
  cases hxy with
  | polled => exact polled_settled tn x
  | putBack hcand _ | sent d _ hcand _ => exact absurd hcand (Bool.eq_false_iff.mp hc)

/-- A tick keeps every sequence, its request and its attempt. -/
theorem ticked_attempt (htick : Fabric.Ticked s tn t out sent) (hx : s.seqs.find? q = some x) :
    ∃ y, t.seqs.find? q = some y ∧ y.req = x.req ∧ y.currentAttempt = x.currentAttempt := by
  obtain ⟨y, hy, hxy⟩ := htick.seq_after hx
  refine ⟨y, hy, ?_⟩
  cases hxy with
  | polled =>
    obtain ⟨st, res, hp⟩ := x.polled_shape tn
    rw [hp]
    exact ⟨rfl, rfl⟩
  | putBack _ _ | sent d _ _ _ => exact ⟨rfl, rfl⟩

/-- What an emitted member says of its sequence, and where the tick leaves the sequence. -/
theorem emitted_spec (hm : m ∈ emittedBy ⟨s, .op (.schedule tn), (s.schedule tn).1⟩) :
    ∃ x d, s.seqs.find? m.sequence = some x ∧ m.attempt = x.currentAttempt ∧ x.machine.isCandidate = true ∧
      x.budget.exhausted = false ∧ x.deadlineReached tn = false ∧
      (s.schedule tn).1.seqs.find? m.sequence = some (x.sent tn d) ∧
      (s.schedule tn).1.nextDispatch > s.nextDispatch := by
  obtain ⟨sent, htick⟩ := s.schedule_spec tn
  change m ∈ (s.schedule tn).2.flatMap Dispatch.members at hm
  rw [htick.emitted] at hm
  obtain ⟨q, hq, rfl⟩ := mem_map.mp hm
  obtain ⟨x, hx, hc, hb, hd, d, hout, hres⟩ := htick.dispatched q hq
  have hspec : s.specOf q = x.memberSpec q := by simp only [specOf, hx]
  rw [hspec]
  have hid := htick.ids d hout
  exact ⟨x, d, hx, rfl, hc, hb, hd, hres, Nat.lt_of_le_of_lt hid.1 hid.2⟩

end Follow

/-! A tick that finds no healthy worker. -/

/-- No worker is registered as healthy. -/
def Fabric.NoHealthyWorker (s : Fabric) : Prop := ∀ w ∈ s.workers.entries, w.2.health ≠ .healthy

theorem schedule_idle (h : s.NoHealthyWorker) (tn : TimePoint) : (s.schedule tn).2 = [] := by
  refine eq_nil_iff_forall_not_mem.mpr fun d hd => ?_
  obtain ⟨u, out, g, wk, w, hp, hsent⟩ := dispatch_turn hd
  obtain ⟨hw, helig⟩ := chooseWorker_mem hsent.chosen
  obtain ⟨e, he, -, hprofile⟩ := Table.mem_of_map_eq (placements_turn hp).profiles.symm hw
  have hhealth := congrArg WorkerDescriptor.health hprofile
  have hchosen : w.health = .healthy := by
    simp only [eligible, Bool.and_eq_true, decide_eq_true_eq] at helig
    exact helig.1.1
  exact h e he (hhealth.trans hchosen)

/-! Calls. -/

/-- A tick finds a healthy worker only if no sequence that could be sent is Waiting or Yielded, and a retry does
    not mint the attempt id its sequence started with. -/
def OrderlyDispatch (e : Edge Fabric Call) : Prop :=
  match e.label with
  | .op (.schedule tn) => e.pre.NoHealthyWorker ∨
      ∀ q x, e.pre.seqs.find? q = some x → x.machine = .waiting ∨ x.machine = .yielded →
        x.budget.exhausted = true ∨ x.deadlineReached tn = true
  | .op (.retry q) => ∀ x, e.pre.seqs.find? q = some x → e.pre.mintAttempt ≠ x.req.firstAttempt
  | _ => True

theorem mayPerform_settles {o : Op} (hs : ∀ tn, o ≠ .schedule tn) (hr : ∀ q, o ≠ .retry q)
    (ha : o.MayPerform a) : a.Settles := by
  cases a with
  | seq q so =>
    cases o with
    | schedule tn => exact absurd rfl (hs tn)
    | retry r => exact absurd rfl (hr r)
    | cancel r => rcases ha with ⟨-, rfl | rfl⟩ <;> rfl
    | cancelRequest r => rcases ha with rfl | rfl <;> rfl
    | markWorkerDead id => obtain ⟨now, rfl⟩ := ha; trivial
    | advance tn => rcases ha with rfl | rfl <;> rfl
    | applyCompletion result => rcases ha with rfl | rfl | ⟨cfg, at', now, mo, rfl⟩ <;> trivial
    | authorizePrepared prepared => rcases ha with ⟨now, rfl⟩ | rfl | ⟨cfg, at', now, mo, rfl⟩ <;> trivial
    | _ => exact False.elim ha
  | _ => trivial

/-- A member sent under attempt `a` is not sent again from `x`: the scheduler does not take `x`, or would send
    it under another attempt. -/
def Seq.SafeFrom (x : Seq) (a : AttemptId) : Prop := a ≠ x.currentAttempt ∨ x.machine.isCandidate = false

theorem Seq.Settled.safeFrom (h : x.Settled y) (hy : y.hasInflight = true) {a : AttemptId}
    (hx : x.SafeFrom a) : y.req = x.req ∧ y.SafeFrom a := by
  rcases h with hno | ⟨hreq, hatt, hcand⟩
  · rw [hno] at hy
    cases hy
  · refine ⟨hreq, ?_⟩
    rcases hx with hne | hc
    · exact .inl (hatt ▸ hne)
    · exact .inr (hcand hc)

/-- Whatever is called, a sequence that is safe from an old attempt stays so or is seen out of flight. -/
theorem next_safeFrom {c : Call} {q : SequenceId} {a : AttemptId} (hn : Next s c t)
    (ho : OrderlyDispatch ⟨s, c, t⟩) (h0 : s.nextDispatch ≠ 0) (hx : s.seqs.find? q = some x)
    (hold : a = x.req.firstAttempt ∨ s.mintAttempt > a) (hsafe : x.SafeFrom a) :
    ∃ y, t.seqs.find? q = some y ∧ (y.hasInflight = false ∨ (y.req = x.req ∧ y.SafeFrom a)) := by
  have settled : (∃ y, t.seqs.find? q = some y ∧ x.Settled y) →
      ∃ y, t.seqs.find? q = some y ∧ (y.hasInflight = false ∨ (y.req = x.req ∧ y.SafeFrom a)) := by
    rintro ⟨y, hy, hset⟩
    refine ⟨y, hy, ?_⟩
    cases hin : y.hasInflight with
    | false => exact .inl rfl
    | true => exact .inr (hset.safeFrom hin hsafe)
  have hsteps := next_steps hn h0
  cases hn with
  | tick now | rehash seqs workers hs _ => exact settled (steps_settled hsteps (by rintro _ rfl; trivial) hx)
  | op o =>
    by_cases hsched : ∃ tn, o = .schedule tn
    · obtain ⟨tn, rfl⟩ := hsched
      obtain ⟨sent, htick⟩ := s.schedule_spec tn
      rcases hsafe with hne | hc
      · obtain ⟨y, hy, hreq, hatt⟩ := ticked_attempt htick hx
        exact ⟨y, hy, .inr ⟨hreq, .inl (hatt ▸ hne)⟩⟩
      · exact settled (ticked_settled htick hx hc)
    · by_cases hretry : ∃ r, o = .retry r
      · obtain ⟨r, rfl⟩ := hretry
        obtain ⟨y, hy, hset | ⟨rfl, hreq, hatt⟩⟩ := retry_settled r hx
        · exact settled ⟨y, hy, hset⟩
        · -- the new attempt id is neither the first one nor one minted before
          refine ⟨y, hy, .inr ⟨hreq, .inl ?_⟩⟩
          rw [hatt]
          rcases hold with hfirst | hlt
          · rw [hfirst]
            exact (ho x hx).symm
          · exact Nat.ne_of_lt hlt
      · exact settled (steps_settled hsteps (fun a ha => mayPerform_settles (fun tn h => hsched ⟨tn, h⟩)
          (fun r h => hretry ⟨r, h⟩) ha) hx)

/-- Only Ready and ReadyForNextToken lead to Grouped. -/
theorem dispatched_of_candidate (hc : x.machine.isCandidate = true) (hw : x.machine ≠ .waiting)
    (hy : x.machine ≠ .yielded) (tn : TimePoint) (d : Dispatch) : (x.sent tn d).machine = .dispatched := by
  change ((x.machine.move .grouped).move .reserved).move .dispatched = .dispatched
  revert hc hw hy
  cases x.machine with
  | undeclared n => exact fun hc => by cases hc
  | _ => decide

/-- Members come out of ticks only. -/
theorem emitted_edge (hn : Next e.pre e.label e.post)
    (hm : m ∈ emittedBy e) : ∃ tn, e = ⟨e.pre, .op (.schedule tn), (e.pre.schedule tn).1⟩ := by
  obtain ⟨s, l, t⟩ := e
  change Next s l t at hn
  cases hn with
  | op o =>
    cases o with
    | schedule tn => exact ⟨tn, rfl⟩
    | _ => cases hm
  | tick now | rehash _ _ _ _ => cases hm

/-- An orderly tick leaves what it sends Dispatched. -/
theorem emitted_dispatched (hn : Next e.pre e.label e.post) (ho : OrderlyDispatch e) (hm : m ∈ emittedBy e) :
    ∃ x, e.post.seqs.find? m.sequence = some x ∧ x.machine = .dispatched := by
  obtain ⟨tn, he⟩ := emitted_edge hn hm
  rw [he] at hm ho ⊢
  obtain ⟨x, d, hx, -, hc, hb, hd, hres, -⟩ := emitted_spec hm
  rcases ho with hnone | hfree
  · change m ∈ (e.pre.schedule tn).2.flatMap Dispatch.members at hm
    rw [schedule_idle hnone tn] at hm
    cases hm
  · -- what is sent has budget and time left
    have hstate : ¬ (x.machine = .waiting ∨ x.machine = .yielded) := by
      intro hst
      rcases hfree _ x hx hst with hex | hdl
      · rw [hb] at hex
        cases hex
      · rw [hd] at hdl
        cases hdl
    rw [not_or] at hstate
    exact ⟨_, hres, dispatched_of_candidate hc hstate.1 hstate.2 tn d⟩

/-- No tick sends a sequence in two members. -/
theorem emitted_nodup (hn : Next e.pre e.label e.post) : ((emittedBy e).map DecodeMemberSpec.sequence).Nodup := by
  cases hem : emittedBy e with
  | nil => exact nodup_nil
  | cons m rest =>
    obtain ⟨tn, he⟩ := emitted_edge hn (hem ▸ mem_cons_self : m ∈ emittedBy e)
    obtain ⟨sent, htick⟩ := e.pre.schedule_spec tn
    have hsent : emittedBy e = sent.map e.pre.specOf := by
      rw [he]
      exact htick.emitted
    -- the member of a sequence that was sent names that sequence
    have hname : ∀ q ∈ sent, (e.pre.specOf q).sequence = q := by
      intro q hq
      obtain ⟨x, hx, -⟩ := htick.dispatched q hq
      simp only [specOf, hx]
      rfl
    rw [← hem, hsent, map_map,
      map_congr_left (f := DecodeMemberSpec.sequence ∘ e.pre.specOf) (g := id) hname, map_id]
    exact htick.nodup

/-! Runs. -/

/-- Some call of `h` left sequence `q` out of flight. -/
def SeenIdle (q : SequenceId) (h : History) : Prop :=
  ∃ e ∈ h, ∃ x, e.post.seqs.find? q = some x ∧ x.hasInflight = false

/-- The member `m`, sent earlier, is not sent again from here. -/
def Fabric.DispatchKept (s : Fabric) (m : DecodeMemberSpec) : Prop :=
  ∃ x, s.seqs.find? m.sequence = some x ∧
    (m.attempt = x.req.firstAttempt ∨ s.mintAttempt > m.attempt) ∧ x.SafeFrom m.attempt

theorem next_mintAttempt {c : Call} (hn : Next s c t) (h0 : s.nextDispatch ≠ 0) : t.mintAttempt ≥ s.mintAttempt :=
  (next_steps hn h0).invariant (I := fun u => u.mintAttempt ≥ s.mintAttempt)
    (fun hm _ h => Nat.le_trans h (micro_mintAttempt hm)) (Nat.le_refl _)

theorem reachable_attemptsMinted (hr : Reachable s) : s.AttemptsMinted := by
  refine reachable_invariant (I := Fabric.AttemptsMinted) ?_ (fun hm h => micro_attemptsMinted hm h) hr
  intro cfg clock q x hx
  simp [init] at hx

/-- From one emission to the end of a run, the member is kept or its sequence was seen out of flight. -/
theorem run_dispatchKept {h : History} (hr : Run Next s h t)
    (ho : ∀ e ∈ h, OrderlyDispatch e) (h0 : s.nextDispatch ≠ 0) (hs : s.DispatchKept m) :
    SeenIdle m.sequence h ∨ t.DispatchKept m := by
  refine hr.history (I := fun h t => SeenIdle m.sequence h ∨ t.DispatchKept m) (fun h e hr hn ho hkept => ?_) ho
    (.inr hs)
  rcases hkept with ⟨e', he', hidle⟩ | ⟨x, hx, hold, hsafe⟩
  · exact .inl ⟨e', mem_append_left _ he', hidle⟩
  · have hpos := (run_traced hr h0).2
    obtain ⟨y, hy, hidle | ⟨hreq, hsafe'⟩⟩ := next_safeFrom hn ho hpos hx hold hsafe
    · exact .inl ⟨e, by simp, y, hy, hidle⟩
    · refine .inr ⟨y, hy, ?_, hsafe'⟩
      rw [hreq]
      exact hold.imp_right fun hlt => Nat.lt_of_lt_of_le hlt (next_mintAttempt hn hpos)

/-- The tick that sends a member keeps it. -/
theorem emitted_dispatchKept (hn : Next e.pre e.label e.post)
    (hr : Reachable e.pre) (ho : OrderlyDispatch e) (hm : m ∈ emittedBy e) : e.post.DispatchKept m := by
  obtain ⟨y, hy, hmachine⟩ := emitted_dispatched hn ho hm
  obtain ⟨tn, he⟩ := emitted_edge hn hm
  rw [he] at hm hy ⊢
  obtain ⟨x, d, hx, hatt, -, -, -, hres, hmore⟩ := emitted_spec hm
  obtain rfl : y = x.sent tn d := Option.some.inj (hy.symm.trans hres)
  refine ⟨_, hres, ?_, .inr (by rw [hmachine]; rfl)⟩
  rw [hatt]
  refine (reachable_attemptsMinted hr _ x hx).imp_right fun hle => ?_
  exact Nat.lt_of_le_of_lt hle (Nat.add_lt_add_right hmore 1000000)

/-- A kept member is not what an orderly tick sends. -/
theorem Fabric.DispatchKept.not_emitted {m' : DecodeMemberSpec}
    (h : e.pre.DispatchKept m) (hn : Next e.pre e.label e.post) (hm' : m' ∈ emittedBy e)
    (hseq : m'.sequence = m.sequence) : m'.attempt ≠ m.attempt := by
  obtain ⟨tn, he⟩ := emitted_edge hn hm'
  rw [he] at hm'
  obtain ⟨x, d, hx, hatt, hc, -⟩ := emitted_spec hm'
  obtain ⟨y, hy, -, hsafe⟩ := h
  obtain rfl : x = y := Option.some.inj (hx.symm.trans (hseq ▸ hy))
  intro heq
  rcases hsafe with hne | hno
  · exact hne (heq ▸ hatt)
  · rw [hc] at hno
    cases hno

theorem no_double_dispatch {h : History} {s : Fabric} (hr : RunsTo h s) (ho : ∀ e ∈ h, OrderlyDispatch e) :
    (∀ e ∈ h, ((emittedBy e).map DecodeMemberSpec.sequence).Nodup ∧
      ∀ m ∈ emittedBy e, ∃ x, e.post.seqs.find? m.sequence = some x ∧ x.machine = .dispatched) ∧
    (∀ before e₁ between e₂ after, h = before ++ e₁ :: (between ++ e₂ :: after) →
      ∀ m₁ ∈ emittedBy e₁, ∀ m₂ ∈ emittedBy e₂, m₂.sequence = m₁.sequence → m₂.attempt = m₁.attempt →
        SeenIdle m₁.sequence between) := by
  obtain ⟨cfg, clock, hr⟩ := hr
  refine ⟨?_, ?_⟩
  · intro e he
    obtain ⟨h₁, h₂, rfl⟩ := append_of_mem he
    obtain ⟨-, hn, -⟩ := hr.split
    exact ⟨emitted_nodup hn, fun m hm => emitted_dispatched hn (ho e he) hm⟩
  · rintro before e₁ between e₂ after rfl m₁ hm₁ m₂ hm₂ hseq hatt
    obtain ⟨hbefore, hn₁, hrest⟩ := hr.split
    obtain ⟨hbetween, hn₂, -⟩ := hrest.split
    have hkept := emitted_dispatchKept hn₁ ⟨before, cfg, clock, hbefore⟩ (ho e₁ (by simp)) hm₁
    have hpos := (run_traced (hbefore.append (Run.single hn₁)) Nat.one_ne_zero).2
    rcases run_dispatchKept hbetween (fun e he => ho e (by simp [he])) hpos hkept with hidle | hkept'
    · exact hidle
    · exact absurd hatt (hkept'.not_emitted hn₂ hm₂ hseq)

/-- The sample's first step, committed, and the tick that sends the second. -/
def Sample.secondSent : List Op := committed ++ [.schedule 2]

theorem Sample.secondSent_orderly : ∀ e ∈ trace start secondSent, OrderlyDispatch e := by
  -- the one sequence is Ready or ReadyForNextToken at both ticks
  have hone : ∀ {t : Table SequenceId Seq} {y : Seq}, t.entries = [(1, y)] → y.machine ≠ .waiting →
    y.machine ≠ .yielded →
      ∀ tn q x, t.find? q = some x → x.machine = .waiting ∨ x.machine = .yielded →
        x.budget.exhausted = true ∨ x.deadlineReached tn = true := by
    intro t y ht hw hy tn q x hx hst
    have hmem := Table.find?_eq_some_iff.mp hx
    rw [ht] at hmem
    cases mem_singleton.mp hmem
    exact absurd hst (not_or.mpr ⟨hw, hy⟩)
  intro e he
  simp only [secondSent, committed, granted, dispatched, cons_append,
    nil_append, trace, mem_cons, not_mem_nil, or_false] at he
  rcases he with rfl | rfl | rfl | rfl | rfl | rfl
  · trivial
  · trivial
  · exact .inr (hone rfl (by decide) (by decide) 1)
  · trivial
  · trivial
  · exact .inr (hone rfl (by decide) (by decide) 2)

/-- Both steps are sent under attempt 1; in between the sequence was out of flight. -/
theorem no_double_dispatch_secondSent : SeenIdle 1 (trace (start.execAll dispatched)
      [.authorizePrepared prepared, .applyCommitReceipt { receipts := [receipt] }]) := by
  have hidle := (no_double_dispatch (runsTo secondSent) secondSent_orderly).2
    (trace start [.registerWorker (worker 1 1), .submit request]) _
    (trace (start.execAll dispatched)
      [.authorizePrepared prepared, .applyCommitReceipt { receipts := [receipt] }]) _ [] rfl
  exact hidle _ (mem_singleton.mpr rfl) _ (mem_singleton.mpr rfl) rfl rfl

/-- The sample's worker dies with the step in flight and comes back under another boot. -/
def Sample.revived : List Op := dispatched ++ [.markWorkerDead 1, .registerWorker (worker 1 2)]

/-- The sample's request, starting with the id that a retry mints after the first dispatch. -/
def Sample.foreseen : List Op :=
  [.registerWorker (worker 1 1), .submit { request with initialAttempt := 1000002 }]

/-- A waiting sequence is sent by two ticks in a row and stays Waiting; and a retry that mints the attempt its
    sequence started with lets the next tick send the step in flight once more. -/
theorem waiting_sent_twice : (∃ h s e₁ e₂, RunsTo (h ++ [e₁, e₂]) s ∧ ∃ m₁ ∈ emittedBy e₁, ∃ m₂ ∈ emittedBy e₂,
      m₂.sequence = m₁.sequence ∧ m₂.attempt = m₁.attempt ∧ m₂.generation = m₁.generation ∧
      (e₁.post.seqs.find? m₁.sequence).map (fun x => (x.machine, x.hasInflight)) = some (.waiting, true)) ∧
    (∃ h s e₁ e e₂, RunsTo (h ++ [e₁, e, e₂]) s ∧ ∃ m₁ ∈ emittedBy e₁, ∃ m₂ ∈ emittedBy e₂,
      m₂.sequence = m₁.sequence ∧ m₂.attempt = m₁.attempt ∧ m₂.generation = m₁.generation ∧
      e.label = .op (.retry m₁.sequence) ∧
      (e.post.seqs.find? m₁.sequence).map (fun x => (x.machine, x.hasInflight)) = some (.ready, true)) := by
  refine ⟨⟨_, _, _, _, runsTo_append revived [.schedule 2, .schedule 3], ?_⟩,
    ⟨_, _, _, _, _, runsTo_append foreseen [.schedule 1, .retry 1, .schedule 2], ?_⟩⟩
  · decide
  · refine ⟨_, mem_singleton.mpr rfl, _, mem_singleton.mpr rfl, rfl, rfl, rfl, rfl, rfl⟩

end DecodeFabric
