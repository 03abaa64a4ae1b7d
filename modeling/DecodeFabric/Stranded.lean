import DecodeFabric.Tick

/- Sequences that nothing will move again.

   A sequence is alive while it is terminal, a candidate, about to be cancelled, or in flight. The
   operations drop the results of their transitions, and several of the edges they ask for are
   not in the table: StepCompleted has none to Yielded, RetryableFailure none to
   NonRetryableFailure, and an outcome kind that asks for no transition still ends the dispatch.
   Such an outcome, met by a Dispatched sequence, leaves it where no operation takes it from
   (`outcome_strands_sequence`); so does a completion of an old epoch, which disowns the dispatch.

   `Seq.strandedBy` says exactly which outcomes these are (`noncommit_dispatched_rests`). In runs
   where they, and completions of an old epoch, do not meet a Dispatched sequence, no sequence is
   stranded. -/
namespace DecodeFabric
open Lib Table Fabric Sample DecodeFabric.Seq
variable {mo : MemberOutcome} {x : Seq} {st st' : SequenceState}

/-! Where a sequence can rest. -/

/-- Terminal, a candidate, or about to be cancelled. -/
def SequenceState.rests (st : SequenceState) : Bool := st.isTerminal || st.isCandidate || decide (st = .cancelRequested)

namespace SequenceState

theorem rests_move (h : st.rests = true) (h' : st'.rests = true) : (st.move st').rests = true := by
  rw [move_eq]
  split
  · exact h'
  · exact h

/-- A resting sequence has no edge into the states of a step under way. -/
theorem move_of_rests (h : st.rests = true)
    (h' : st' = .stepCompleted ∨ st' = .retrying ∨ st' = .reserved ∨ st' = .dispatched) : st.move st' = st := by
  have hno : canTransition st st' = false := by
    rcases h' with rfl | rfl | rfl | rfl
    all_goals
      cases st with
      | undeclared n => cases h
      | _ => first | rfl | cases h
  rw [move_eq, hno]
  rfl

end SequenceState

/-- The outcomes that leave a dispatched sequence at a dead end. -/
def Seq.strandedBy (cfg : Config) (mo : MemberOutcome) (x : Seq) : Bool :=
  match mo.kind with
  | .retryableFailure => decide (x.attemptCount ≥ cfg.retryPolicy.maxAttempts)
  | .nonRetryableFailure | .cancelled | .expired => false
  | _ => true

/-- Resting, or in flight as Dispatched. -/
def Seq.Placed (x : Seq) : Prop :=
  x.machine.rests = true ∨ (x.machine = .dispatched ∧ x.hasInflight = true ∧ x.inFlightDispatch ≠ 0)

namespace Seq
variable {x : Seq}

theorem Placed.machine (h : x.Placed) : x.machine.rests = true ∨ x.machine = .dispatched := h.imp_right And.left

/-! Outcomes. -/

theorem noncommit_rests (h : x.machine.rests = true) (cfg : Config) (a : AttemptId) (now : TimePoint)
    (mo : MemberOutcome) : (x.noncommit cfg a now mo).machine.rests = true := by
  have hd : x.machine ≠ .dispatched := by
    intro hd
    rw [hd] at h
    cases h
  unfold noncommit
  cases mo.kind with
  | yielded =>
    change ((x.machine.move .stepCompleted).move .yielded).rests = true
    rw [SequenceState.move_of_rests h (.inl rfl)]
    exact SequenceState.rests_move h rfl
  | retryableFailure =>
    simp only [if_neg hd]
    split
    · exact SequenceState.rests_move h rfl
    · -- rolling back tokens leaves the lifecycle alone
      have hmachine : (if cfg.retryPolicy.preserveCommittedTokens = true then x else x.rollBack).machine =
        x.machine := by
        split <;> rfl
      change ((SequenceState.move _ .retrying).move .ready).rests = true
      rw [hmachine, SequenceState.move_of_rests h (.inr (.inl rfl))]
      exact SequenceState.rests_move h rfl
  | nonRetryableFailure =>
    simp only [if_neg hd]
    exact h
  | cancelled | expired =>
    simp only
    split
    · exact h
    · exact SequenceState.rests_move h rfl
  | _ => exact h

/-- A dispatched sequence comes to rest exactly with the outcomes that do not strand it. -/
theorem noncommit_dispatched_rests (h : x.machine = .dispatched) (cfg : Config) (a : AttemptId) (now : TimePoint)
    (mo : MemberOutcome) : (x.noncommit cfg a now mo).machine.rests = !x.strandedBy cfg mo := by
  unfold noncommit strandedBy
  cases mo.kind with
  | yielded =>
    change ((x.machine.move .stepCompleted).move .yielded).rests = _
    rw [h]
    rfl
  | retryableFailure =>
    simp only [if_pos h]
    split
    · next hmax =>
      change ((x.machine.move .retryableFailure).move .nonRetryableFailure).rests = _
      rw [h, decide_eq_true hmax]
      rfl
    · next hmax =>
      have hmachine : (if cfg.retryPolicy.preserveCommittedTokens = true then x.moveTo .retryableFailure
          else (x.moveTo .retryableFailure).rollBack).machine = x.machine.move .retryableFailure := by
        split <;> rfl
      change ((SequenceState.move _ .retrying).move .ready).rests = _
      rw [hmachine, h, decide_eq_false hmax]
      rfl
  | nonRetryableFailure =>
    simp only [if_pos h]
    change (x.machine.move .nonRetryableFailure).rests = _
    rw [h]
    rfl
  | cancelled =>
    simp only [h]
    change (x.machine.move .cancelled).rests = _
    rw [h]
    rfl
  | expired =>
    simp only [h]
    change (x.machine.move .deadlineExpired).rests = _
    rw [h]
    rfl
  | _ =>
    simp only [h]
    rfl

theorem Placed.resolve (h : x.Placed) {cfg : Config}
    (hs : x.machine = .dispatched → x.strandedBy cfg mo = false) (a : AttemptId) (now : TimePoint) :
    (x.resolve cfg a now mo).Placed := by
  left
  rcases h.machine with hrest | hd
  · exact noncommit_rests (x := x.endDispatch.release) hrest cfg a now mo
  · have hrest := noncommit_dispatched_rests (x := x.endDispatch.release) hd cfg a now mo
    rw [show (x.endDispatch.release.strandedBy cfg mo) = x.strandedBy cfg mo from rfl, hs hd] at hrest
    exact hrest

/-! The other changes. -/

/-- Ending a step: from Dispatched through StepCompleted, from a resting state nowhere. -/
theorem Placed.stepEnd (h : x.Placed) (hst : SequenceState.move .stepCompleted st = st)
    (hr : st.rests = true) : ((x.machine.move .stepCompleted).move st).rests = true := by
  rcases h.machine with hrest | hd
  · rw [SequenceState.move_of_rests hrest (.inl rfl)]
    exact SequenceState.rests_move hrest hr
  · rw [hd, show SequenceState.move .dispatched .stepCompleted = .stepCompleted from rfl, hst]
    exact hr

/-- Re-queueing a sequence whose step is executing. -/
theorem Placed.requeue (h : x.Placed) (hst : SequenceState.move .stepCompleted st = st) (hr : st.rests = true) :
    (if x.executing then (x.machine.move .stepCompleted).move st else x.machine).rests = true := by
  by_cases hex : x.executing = true
  · rw [if_pos hex]
    exact h.stepEnd hst hr
  · rw [if_neg hex]
    refine h.machine.resolve_right fun hd => hex ?_
    simp [executing, hd]

theorem Placed.moveTo (h : x.Placed) (hr : st.rests = true) : (x.moveTo st).Placed := by
  by_cases hc : SequenceState.canTransition x.machine st = true
  · left
    change (x.machine.move st).rests = true
    rw [SequenceState.move_eq, if_pos hc]
    exact hr
  · have hsame : x.moveTo st = x := by
      unfold Seq.moveTo
      rw [SequenceState.move_eq, if_neg hc]
    rw [hsame]
    exact h

theorem Placed.beginAttempt (h : x.Placed) (a : AttemptId) (now : TimePoint) : (x.beginAttempt a now).Placed := by
  left
  change ((x.machine.move .retrying).move .ready).rests = true
  rcases h.machine with hrest | hd
  · rw [SequenceState.move_of_rests hrest (.inr (.inl rfl))]
    exact SequenceState.rests_move hrest rfl
  · rw [hd]
    rfl

theorem Placed.finish (h : x.Placed) (fin : TimePoint) (r : MemberReceipt) : (x.finish fin r).Placed := by
  left
  have hmachine : (x.finish fin r).machine = (x.machine.move .stepCompleted).move .completed ∨
      (x.finish fin r).machine = (x.machine.move .stepCompleted).move .readyForNextToken := by
    unfold Seq.finish Seq.settle
    split
    · exact .inl rfl
    · exact .inr rfl
  rcases hmachine with hm | hm <;> rw [hm] <;> exact h.stepEnd rfl rfl

/-! Ticks. -/

theorem Placed.retire (h : x.Placed) (hr : st.rests = true) :
    (SeqOp.apply (.retire st) x).Placed := moveTo (x := x.release) h hr

theorem Placed.polled (h : x.Placed) (tn : TimePoint) : (x.polled tn).Placed :=
  polled_kept (fun _ hy => hy.retire rfl) (fun _ hy => hy.retire rfl) (fun _ _ hy => hy.retire rfl) tn h

/-- What is sent is in flight as Dispatched, or is still a candidate. -/
theorem placed_dispatchUnder (hc : x.machine.isCandidate = true) {d : Dispatch} (hd : d.id ≠ 0) (tn : TimePoint) :
    (x.sent tn d).Placed := by
  have hmachine : (x.sent tn d).machine = ((x.machine.move .grouped).move .reserved).move .dispatched := rfl
  unfold Placed
  rw [hmachine]
  revert hc
  cases x.machine with
  | ready | readyForNextToken => exact fun _ => .inr ⟨rfl, rfl, hd⟩
  | waiting | yielded => exact fun _ => .inl rfl
  | _ => exact fun hc => by cases hc

/-- What was grouped and not sent is Ready again. -/
theorem placed_ungrouped (hc : x.machine.isCandidate = true) (tn : TimePoint) :
    ((x.enterGroup tn).moveTo .ready).Placed := by
  left
  change ((x.machine.move .grouped).move .ready).rests = true
  revert hc
  cases x.machine with
  | undeclared n => exact fun hc => by cases hc
  | _ => decide

end Seq

theorem schedule_placed {s : Fabric} (h : s.AllSeqs Seq.Placed) (h0 : s.nextDispatch ≠ 0) (tn : TimePoint) :
    (s.schedule tn).1.AllSeqs Seq.Placed := by
  obtain ⟨sent, htick⟩ := s.schedule_spec tn
  intro q y hy
  obtain ⟨x, hx, hxy⟩ := htick.seq_before hy
  cases hxy with
  | polled => exact (h q x hx).polled tn
  | putBack hc _ => exact placed_ungrouped hc tn
  | sent d hd hc _ =>
    refine placed_dispatchUnder hc (fun hid => h0 ?_) tn
    have hle := (htick.ids d hd).1
    rw [hid] at hle
    exact Nat.le_zero.mp hle

/-! Calls. -/

/-- The acts of the operations that place every sequence whatever it meets. -/
def Act.Places : Act → Prop
  | .seq _ (.moveTo st) => st.rests = true
  | .seq _ (.retire st) => st.rests = true
  | .seq _ (.enterGroup _) => False
  | .seq _ (.dispatchUnder _) => False
  | .seq _ .disown => False
  | .seq _ (.resolve _ _ _ _) => False
  | _ => True

theorem placed_kept : Kept Act.Places Seq.Placed where
  seq := by
    intro s q x o ha _ h
    cases o with
    | release | rollBackTokens => exact h
    | moveTo st => exact h.moveTo ha
    | retire st => exact h.retire ha
    | beginAttempt attempt now => exact h.beginAttempt attempt now
    | workerDown now | reconcile now => exact .inl (Seq.Placed.requeue (x := x.release) h rfl rfl)
    | enterGroup tn | dispatchUnder d | disown | resolve cfg attempt now mo => exact False.elim ha
  enrol := fun _ => .inl rfl
  issue := fun _ _ h => h
  finalize := fun _ h => h.finish _ _
  abort := fun {x _} _ h => .inl (Seq.Placed.requeue (x := x.release) h rfl rfl)

theorem mayPerform_places {o : Op} (hs : ∀ tn, o ≠ .schedule tn) (hc : ∀ result, o ≠ .applyCompletion result)
    (hp : ∀ prepared, o ≠ .authorizePrepared prepared) {a : Act} (ha : o.MayPerform a) : a.Places := by
  cases a with
  | seq q so =>
    cases o with
    | schedule tn => exact absurd rfl (hs tn)
    | applyCompletion result => exact absurd rfl (hc result)
    | authorizePrepared prepared => exact absurd rfl (hp prepared)
    | cancel r => rcases ha with ⟨-, rfl | rfl⟩ <;> rfl
    | cancelRequest r => rcases ha with rfl | rfl <;> rfl
    | retry r => rcases ha with ⟨-, rfl | rfl | ⟨_, _, rfl⟩⟩ <;> trivial
    | markWorkerDead id => obtain ⟨now, rfl⟩ := ha; trivial
    | advance tn => rcases ha with rfl | rfl <;> rfl
    | _ => exact False.elim ha
  | _ => trivial

/-- No outcome strands the dispatched sequence it meets, and no completion comes from an old epoch. -/
def KeepsPlaced (e : Edge Fabric Call) : Prop :=
  match e.label with
  | .op (.applyCompletion result) => ∀ p ∈ turns (applyOutcome result) e.pre result.outcomes,
      ∀ x, p.1.seqs.find? p.2.sequence = some x → x.machine = .dispatched →
        result.epoch = p.1.epoch ∧
        (p.1.completionVerdict result x p.2 = .apply → x.strandedBy p.1.cfg p.2 = false)
  | .op (.authorizePrepared prepared) =>
    ∀ p ∈ turns (fun s pm => (authorizeMember prepared s pm).1) e.pre prepared.members,
      ∀ x, p.1.seqs.find? p.2.sequence = some x → x.machine = .dispatched →
        p.1.prepareVerdict x p.2 = .noncommit → x.strandedBy p.1.cfg p.2.outcome = false
  | _ => True

section Turns
variable {s : Fabric}

theorem resolveNoncommit_placed (h : s.AllSeqs Seq.Placed) {q : SequenceId}
    (hq : s.seqs.find? q = some x) (hs : x.machine = .dispatched → x.strandedBy s.cfg mo = false) :
    (s.resolveNoncommit q x mo).AllSeqs Seq.Placed := by
  intro j y hy
  rw [resolveNoncommit_seqs hq mo] at hy
  -- the reservation that a retryable failure releases first may be another sequence's
  have hrel : ∀ {k z}, (s.seqs.modify mo.sequence (if mo.kind = .retryableFailure then release else id)).find? k =
      some z → ∃ z', s.seqs.find? k = some z' ∧ (z = z' ∨ z = z'.release) := by
    intro k z hz
    rcases find?_modify_cases hz with ⟨rfl, v, hv, rfl⟩ | ⟨-, hz⟩
    · refine ⟨v, hv, ?_⟩
      split
      · exact .inr rfl
      · exact .inl rfl
    · exact ⟨z, hz, .inl rfl⟩
  rcases find?_modify_cases hy with ⟨rfl, v, hv, rfl⟩ | ⟨-, hy⟩
  · obtain ⟨z, hz, hvz⟩ := hrel hv
    cases hq.symm.trans hz
    have hx := h _ _ hq
    rcases hvz with rfl | rfl
    · exact hx.resolve hs _ _
    · exact Seq.Placed.resolve (x := x.release) hx hs _ _
  · obtain ⟨z, hz, rfl | rfl⟩ := hrel hy
    · exact h _ _ hz
    · exact h _ z hz

/-- A dispatched sequence is disowned by completions of another epoch only. -/
theorem disown_dispatched {result : DecodeExecutionResult} {why : String}
    (hv : s.completionVerdict result x mo = .disown why) (hd : x.machine = .dispatched) : result.epoch ≠ s.epoch := by
  rcases completionVerdict_disown hv with ⟨hep, -⟩ | ⟨hc, -⟩ | ⟨hx, -⟩
  · exact hep
  · rw [hd] at hc
    rcases hc with hc | hc <;> cases hc
  · rw [hd] at hx
    cases hx

theorem applyOutcome_placed (h : s.AllSeqs Seq.Placed) (result : DecodeExecutionResult) (mo : MemberOutcome)
    (hk : ∀ x, s.seqs.find? mo.sequence = some x → x.machine = .dispatched →
      result.epoch = s.epoch ∧ (s.completionVerdict result x mo = .apply → x.strandedBy s.cfg mo = false)) :
    (applyOutcome result s mo).AllSeqs Seq.Placed := by
  unfold applyOutcome
  cases hx : s.seqs.find? mo.sequence with
  | none => exact h
  | some x =>
    simp only
    cases hv : s.completionVerdict result x mo with
    | ignore why => exact h
    | apply => exact resolveNoncommit_placed h hx fun hd => (hk x hx hd).2 hv
    | disown why =>
      refine h.modify (f := SeqOp.apply .disown) hx ?_ (.inl ?_)
      · simp only [rejectStale_seqs, modifySeq_seqs, releaseReservation_seqs,
          modify_modify]
        rfl
      · exact (h _ x hx).machine.resolve_right fun hd => disown_dispatched hv hd (hk x hx hd).1

theorem authorizeMember_placed (h : s.AllSeqs Seq.Placed) (prepared : PreparedDecode) (pm : PreparedMember)
    (hk : ∀ x, s.seqs.find? pm.sequence = some x → x.machine = .dispatched →
      s.prepareVerdict x pm = .noncommit → x.strandedBy s.cfg pm.outcome = false) :
    (authorizeMember prepared s pm).1.AllSeqs Seq.Placed := by
  by_cases hnon : ∃ x, s.seqs.find? pm.sequence = some x ∧ s.prepareVerdict x pm = .noncommit
  · obtain ⟨x, hx, hv⟩ := hnon
    simp only [authorizeMember, hx, hv]
    exact resolveNoncommit_placed h hx fun hd => hk x hx hd hv
  · have hsteps := s.authorizeMember_steps (A := Act.Places) prepared pm (fun _ _ _ _ => trivial)
      (fun x hx hv => absurd ⟨x, hx, hv⟩ hnon) (fun _ _ _ => trivial)
    exact hsteps.invariant (I := fun u => u.AllSeqs Seq.Placed) (fun hm ha => micro_allSeqs placed_kept hm ha) h

end Turns

theorem next_placed {s t : Fabric} {c : Call} (hn : Next s c t) (hk : KeepsPlaced ⟨s, c, t⟩)
    (h0 : s.nextDispatch ≠ 0) (h : s.AllSeqs Seq.Placed) : t.AllSeqs Seq.Placed := by
  have hsteps := next_steps hn h0
  cases hn with
  | tick now => exact h
  | rehash seqs workers hs _ => exact fun q x hq => h q x ((find?_reorder hs q).symm.trans hq)
  | op o =>
    have hplain : (∀ a, o.MayPerform a → a.Places) → (s.exec o).AllSeqs Seq.Placed := fun hA =>
      (hsteps.mono hA).invariant (I := fun u => u.AllSeqs Seq.Placed) (fun hm ha => micro_allSeqs placed_kept hm ha) h
    cases o with
    | schedule tn => exact schedule_placed h h0 tn
    | applyCompletion result =>
      exact foldl_invariant (I := fun u : Fabric => u.AllSeqs Seq.Placed)
        (fun p hp hu => applyOutcome_placed hu result p.2 (hk p hp)) h
    | authorizePrepared prepared =>
      simp only [exec, authorizePrepared_eq_foldl]
      exact foldl_invariant (I := fun u : Fabric => u.AllSeqs Seq.Placed)
        (fun p hp hu => authorizeMember_placed hu prepared p.2 (hk p hp)) h
    | _ => exact hplain fun a ha => mayPerform_places (by simp) (by simp) (by simp) ha

/-! Runs. -/

/-- Terminal, a candidate, about to be cancelled, or with a live dispatch. -/
def Seq.Unstranded (x : Seq) : Prop :=
  x.machine.isTerminal = true ∨ x.machine.isCandidate = true ∨ x.machine = .cancelRequested ∨
    (x.hasInflight = true ∧ x.inFlightDispatch ≠ 0)

instance (x : Seq) : Decidable x.Unstranded := by unfold Seq.Unstranded; infer_instance

theorem Seq.Placed.unstranded (h : x.Placed) : x.Unstranded := by
  unfold Placed SequenceState.rests at h
  simp only [Bool.or_eq_true, decide_eq_true_eq, or_assoc] at h
  unfold Unstranded
  tauto

theorem no_stranded_sequence {h : History} {s : Fabric} (hr : RunsTo h s) (hk : ∀ e ∈ h, KeepsPlaced e) :
    ∀ q x, s.seqs.find? q = some x → x.Unstranded := by
  have hplaced : s.AllSeqs Seq.Placed := (transition_invariant (I := fun s => s.AllSeqs Seq.Placed) init_allSeqs
    (fun e hn h0 hke hpl => next_placed hn hke h0 hpl) hr hk).1
  exact fun q x hx => (hplaced q x hx).unstranded

/-- The sample's worker reports an outcome of `kind` for dispatch `d`, sent under attempt `a`. -/
def Sample.completion (d : DispatchId) (a : AttemptId) (kind : MemberOutcomeKind) : Op :=
  .applyCompletion
    { dispatchId := d, epoch := 1, worker := 1, workerBoot := 1
      outcomes := [{ sequence := 1, attempt := a, generation := 1, kind }] }

theorem Sample.cancelled_keepsPlaced :
    ∀ e ∈ trace start (dispatched ++ [completion 1 1 .cancelled]), KeepsPlaced e := by
  intro e he
  simp only [dispatched, List.cons_append, List.nil_append, trace, List.mem_cons, List.not_mem_nil,
    or_false] at he
  rcases he with rfl | rfl | rfl | rfl
  · trivial
  · trivial
  · trivial
  · intro p hp x hx _
    obtain rfl := List.mem_singleton.mp hp
    exact ⟨by decide, fun _ => rfl⟩

theorem no_stranded_sequence_cancelled :
    ∃ x, (start.execAll (dispatched ++ [completion 1 1 .cancelled])).seqs.find? 1 = some x ∧
      x.Unstranded :=
  ⟨_, rfl, no_stranded_sequence (runsTo _) cancelled_keepsPlaced 1 _ rfl⟩

/-- A step that yields, one that fails when no attempt is left, one prepared with a stale authority, and one
    whose completion comes in after a roll of the epoch, each leave the sequence stranded. -/
theorem outcome_strands_sequence :
    (∃ h s, RunsTo h s ∧ ∃ x, s.seqs.find? 1 = some x ∧ x.machine = .stepCompleted ∧ ¬ x.Unstranded) ∧
    (∃ h s, RunsTo h s ∧ ∃ x, s.seqs.find? 1 = some x ∧ x.machine = .retryableFailure ∧ ¬ x.Unstranded) ∧
    (∃ h s, RunsTo h s ∧ s.epoch = 1 ∧ ∃ x, s.seqs.find? 1 = some x ∧ x.machine = .dispatched ∧ ¬ x.Unstranded) ∧
    (∃ h s, RunsTo h s ∧ s.epoch = 2 ∧ ∃ x, s.seqs.find? 1 = some x ∧ x.machine = .dispatched ∧ ¬ x.Unstranded) :=
  ⟨⟨_, _, runsTo (dispatched ++ [completion 1 1 .yielded]), _, rfl, rfl, by decide⟩,
   ⟨_, _, runsTo (dispatched ++
      [.retry 1, .schedule 2, .retry 1, .schedule 3, completion 3 1000003 .retryableFailure]),
    _, rfl, by decide, by decide⟩,
   ⟨_, _, runsTo (dispatched ++ [.authorizePrepared { prepared with
      members := [{ member with outcome := { kind := .staleAuthorityRejected } }] }]),
    rfl, _, rfl, rfl, by decide⟩,
   ⟨_, _, runsTo (dispatched ++ [.rollEpoch, completion 1 1 .yielded]),
    rfl, _, rfl, rfl, by decide⟩⟩

end DecodeFabric
