import DecodeFabric.Flight

/- How sequences end.

   The fabric keeps three books of the ends of sequences: the lifecycle itself, the terminal records with their
   counters, and the slots of the tenants. A sequence is ended at ten places, each of which asks the lifecycle
   for a transition, does not look whether it was granted, and writes the other books as if it had been; some
   places leave the slot alone. `Lives` says for each change of a sequence what it does to the three, and the two main
   results follow from it by cases: the records agree with the lifecycle (`records_exact_when`), and a tenant's slots
   with its live sequences (`slots_exact_when`), in the runs in which the lifecycle grants what is asked. -/
namespace DecodeFabric
open Lib Table Sample DecodeFabric.Seq
variable {mo : MemberOutcome} {entry : TerminalEntry} {f : Seq → Seq}
  {a b next st : SequenceState}

/-! Lifecycle moves. -/

namespace SequenceState

/-- The states that an end can be reached from, and the ends that are recorded. -/
def regular : SequenceState → Bool
  | retryableFailure | staleSuperseded | undeclared _ => false
  | _ => true

/-- A state `can_transition` knows. -/
def declared : SequenceState → Bool
  | undeclared _ => false
  | _ => true

theorem move_cases (st next : SequenceState) : st.move next = st ∨ (st.isTerminal = false ∧ st.move next = next) := by
  rw [move_eq]
  by_cases hmove : canTransition st next = true
  · refine .inr ⟨?_, if_pos hmove⟩
    by_contra hterm
    unfold canTransition at hmove
    rw [if_pos (Bool.eq_true_of_not_eq_false hterm)] at hmove
    split at hmove <;> cases hmove
  · exact .inl (if_neg hmove)

/-- A live sequence goes on, or nothing happens. -/
def Goes (a b : SequenceState) : Prop := b = a ∨ (a.isTerminal = false ∧ b.isTerminal = false ∧ b.regular = true)

theorem Goes.refl (a : SequenceState) : a.Goes a := .inl rfl

theorem Goes.move (h : a.Goes b) (hlive : next.isTerminal = false)
    (hreg : next.regular = true) : a.Goes (b.move next) := by
  rcases move_cases b next with hsame | ⟨hb, hmove⟩
  · rw [hsame]
    exact h
  · rw [hmove]
    refine .inr ⟨?_, hlive, hreg⟩
    rcases h with rfl | h
    · exact hb
    · exact h.1

theorem Goes.isTerminal (h : a.Goes b) : b.isTerminal = a.isTerminal := by
  rcases h with rfl | ⟨ha, hb, -⟩
  · rfl
  · rw [ha, hb]

theorem Goes.declared (h : a.Goes b) (ha : a.declared = true) : b.declared = true := by
  rcases h with rfl | ⟨-, -, hreg⟩
  · exact ha
  · cases b <;> first | rfl | exact absurd hreg Bool.false_ne_true

theorem Goes.terminal_iff (h : a.Goes b) (hst : st.isTerminal = true) : b = st ↔ a = st := by
  rcases h with rfl | ⟨ha, hb, -⟩
  · rfl
  · constructor
    · rintro rfl
      rw [hst] at hb
      cases hb
    · rintro rfl
      rw [hst] at ha
      cases ha

/-- From a regular state that is live both ends asked for from outside are granted. -/
theorem regular_ends (h : st.regular = true) (hlive : st.isTerminal = false) :
    st.move .cancelled = .cancelled ∧ st.move .deadlineExpired = .deadlineExpired := by
  cases st <;> first | decide | exact absurd hlive (by decide) | exact absurd h Bool.false_ne_true

/-- From within a step a completion is granted. -/
theorem step_completes (h : st = .dispatched ∨ st = .running ∨ st = .stepCompleted) :
    (st.move .stepCompleted).move .completed = .completed := by
  rcases h with rfl | rfl | rfl <;> decide

/-- A live state that is declared is regular, or a failure that waits to be retried. -/
theorem declared_live (h : st.declared = true) (hlive : st.isTerminal = false)
    (hst : st ≠ .retryableFailure) : st.regular = true := by
  cases st <;> first | rfl | exact absurd rfl hst | exact absurd hlive (by decide) | exact absurd h Bool.false_ne_true

end SequenceState

/-- What a change makes of the lifecycle of the sequence it finds, `x` becoming `y`, and what it does to the slot of the
    tenant and to the records. -/
inductive Lives (s : Fabric) (o : Op) (u : Fabric) (q : SequenceId) (x y : Seq) :
    (slot : Bool) → (entry : TerminalEntry) → Prop
  | goes : x.machine.Goes y.machine → Lives s o u q x y false none
  /-- cancelled or expired, by a call or at a boundary -/
  | retired {st : SequenceState} : s.seqs.find? q = some x → o.Retires s q x → st = .cancelled ∨ st = .deadlineExpired →
      x.machine.isTerminal = false → y.machine = x.machine.move st → Lives s o u q x y true (some (q, st))
  /-- a candidate without budget -/
  | spent {tn : TimePoint} : o = .schedule tn → s.seqs.find? q = some x → x.machine.isCandidate = true →
      x.budget.exhausted = true → y.machine = x.machine.move .completed → Lives s o u q x y false (some (q, .completed))
  /-- a retry that finds the attempts used up -/
  | givenUp : o = .retry q → s.seqs.find? q = some x → x.machine.retryable →
      x.attemptCount ≥ s.cfg.retryPolicy.maxAttempts → y.machine = x.machine.move .nonRetryableFailure →
      Lives s o u q x y false (some (q, .nonRetryableFailure))
  /-- a retryable failure that finds the attempts used up -/
  | failed {mo : MemberOutcome} : Resolves s q x mo u o → mo.kind = .retryableFailure →
      x.attemptCount ≥ u.cfg.retryPolicy.maxAttempts →
      y.machine =
        (if x.machine = .dispatched then x.machine.move .retryableFailure else x.machine).move .nonRetryableFailure →
      Lives s o u q x y false (some (mo.sequence, .nonRetryableFailure))
  | broken {mo : MemberOutcome} : Resolves s q x mo u o → mo.kind = .nonRetryableFailure →
      y.machine = (if x.machine = .dispatched then x.machine.move .nonRetryableFailure else x.machine) →
      Lives s o u q x y true (some (mo.sequence, .nonRetryableFailure))
  /-- an outcome that says the backend has cancelled or dropped the sequence -/
  | closed {mo : MemberOutcome} {st : SequenceState} : Resolves s q x mo u o →
      (mo.kind = .cancelled ∧ st = .cancelled) ∨ (mo.kind = .expired ∧ st = .deadlineExpired) →
      y.machine = x.machine.move st → Lives s o u q x y true (some (mo.sequence, st))
  | finished {receipts : ReceiptDecode} {r : MemberReceipt} : o = .applyCommitReceipt receipts →
      (u, r) ∈ turns Fabric.applyReceipt s receipts.receipts → r.sequence = q → u.receiptVerdict r = .finalize x →
      (x.commitToken (u.finishTime r) r).endsWith r = true →
      y.machine = (x.machine.move .stepCompleted).move .completed → Lives s o u q x y true (some (q, .completed))

section Inversion
variable {s u : Fabric} {o : Op} {q : SequenceId} {x : Seq}

/-- A sequence an outcome is applied to is live. -/
theorem Resolves.live (h : Resolves s q x mo u o) : x.machine.isTerminal = false := by
  cases h with
  | completion _ _ _ hv => exact (Fabric.completionVerdict_apply hv).live
  | prepared _ _ _ _ hv => exact (Fabric.prepareVerdict_noncommit hv).1.live

theorem Resolves.lives (h : Resolves s q x mo u o) :
    Lives s o u q x (x.resolve u.cfg u.mintAttempt u.clock mo) (slotReturned mo) (endRecorded u.cfg x mo) := by
  have hlive := h.live
  have hend : x.endDispatch.release.machine = x.machine := rfl
  unfold slotReturned endRecorded
  cases hk : mo.kind with
  | retryableFailure =>
    by_cases hmax : x.attemptCount ≥ u.cfg.retryPolicy.maxAttempts
    · simp only [hmax, if_true]
      refine .failed h hk hmax ?_
      have hmax' : x.endDispatch.release.attemptCount ≥ u.cfg.retryPolicy.maxAttempts := hmax
      unfold resolve noncommit
      simp only [hk, hmax', if_true, hend]
      split <;> rfl
    · simp only [hmax, if_false]
      refine .goes ?_
      have hmax' : ¬ x.endDispatch.release.attemptCount ≥ u.cfg.retryPolicy.maxAttempts := hmax
      have hmachine : (x.resolve u.cfg u.mintAttempt u.clock mo).machine =
          ((if x.machine = .dispatched then x.machine.move .retryableFailure else x.machine).move .retrying).move
          .ready := by
        unfold resolve noncommit
        simp only [hk, hmax', if_false, hend]
        split <;> split <;> rfl
      rw [hmachine]
      by_cases hd : x.machine = .dispatched
      · rw [if_pos hd, hd]
        exact .inr ⟨rfl, rfl, rfl⟩
      · rw [if_neg hd]
        exact ((SequenceState.Goes.refl _).move rfl rfl).move rfl rfl
  | nonRetryableFailure =>
    refine .broken h hk ?_
    unfold resolve noncommit
    simp only [hk, hend]
    split <;> rfl
  | cancelled =>
    refine .closed h (.inl ⟨hk, rfl⟩) ?_
    unfold resolve noncommit
    simp only [hk, hend, hlive, Bool.false_eq_true, if_false]
    rfl
  | expired =>
    refine .closed h (.inr ⟨hk, rfl⟩) ?_
    unfold resolve noncommit
    simp only [hk, hend, hlive, Bool.false_eq_true, if_false]
    rfl
  | yielded =>
    refine .goes ?_
    unfold resolve noncommit
    simp only [hk]
    exact ((SequenceState.Goes.refl _).move rfl rfl).move rfl rfl
  | stepSuccessContinue | stepSuccessTerminal | staleAuthorityRejected | undeclared =>
    refine .goes ?_
    unfold resolve noncommit
    simp only [hk]
    exact .refl _

theorem Seq.preserved_machine (cfg : Config) (x : Seq) : (x.preserved cfg).machine = x.machine := by
  obtain ⟨generated, hx⟩ := preserved_shape cfg x
  rw [hx]

theorem Seq.finish_lifecycle (fin : TimePoint) (r : MemberReceipt) (x : Seq) : (x.finish fin r).machine =
    (x.machine.move .stepCompleted).move
      (if (x.commitToken fin r).endsWith r then .completed else .readyForNextToken) := by
  show ((x.commitToken fin r).settle fin r).machine = _
  unfold settle
  split <;> rfl

/-- Where a dispatch is broken off the sequence goes back to the queue. -/
theorem requeue_goes (hlive : next.isTerminal = false) (hreg : next.regular = true) :
    x.machine.Goes (if x.executing then (x.machine.move .stepCompleted).move next else x.machine) := by
  split
  · exact ((SequenceState.Goes.refl _).move rfl rfl).move hlive hreg
  · exact .refl _

theorem Performs.lives {free slot : Bool}
    (hp : Performs s o u (.change q f free slot entry)) (hx : u.seqs.find? q = some x) :
    Lives s o u q x (f x) slot entry := by
  -- what is found in `u` is what the operation saw
  have hsame : ∀ {y : Seq}, u.seqs.find? q = some y → x = y := fun hy => Option.some.inj (hx.symm.trans hy)
  cases hp with
  | cancelLater | group | putBack => exact .goes ((SequenceState.Goes.refl _).move rfl rfl)
  | disown | grant | foreign => exact .goes (.refl _)
  | attempt =>
    refine .goes ?_
    show x.machine.Goes (((x.preserved s.cfg).machine.move .retrying).move .ready)
    rw [preserved_machine]
    exact ((SequenceState.Goes.refl _).move rfl rfl).move rfl rfl
  | workerDown | reject | abort => exact .goes (requeue_goes (x := x.release) rfl rfl)
  | cancelNow hcancel hfound hlive hnot hnow =>
    obtain rfl := hsame hfound
    exact .retired hfound (.cancel hcancel hlive hnot hnow) (.inl rfl) hlive rfl
  | expire hb hfound hx' hlive hdead =>
    obtain rfl := hsame hx'
    exact .retired hfound (.expire hb hlive hdead) (.inr rfl) hlive rfl
  | cancelDue hb hfound hx' hst =>
    obtain rfl := hsame hx'
    exact .retired hfound (.cancelDue hb hst) (.inl rfl) (by rw [hst]; rfl) rfl
  | exhausted hfound hx' hcand hspent =>
    obtain rfl := hsame hx'
    exact .spent rfl hfound hcand hspent rfl
  | exhaust hfound hst hmax =>
    obtain rfl := hsame hfound
    refine .givenUp rfl hfound hst hmax ?_
    show (x.preserved s.cfg).machine.move .nonRetryableFailure = _
    rw [preserved_machine]
  | resolve hres =>
    obtain rfl : x = _ := hsame hres.found
    exact hres.lives
  | @finish receipts _ r _ _ hturn hfin hends =>
    obtain rfl := hsame (Fabric.receiptVerdict_finalize hfin).seq
    have hmachine := finish_lifecycle (u.finishTime r) r x
    rw [← hends] at hmachine
    cases slot with
    | true => exact .finished rfl hturn rfl hfin hends.symm hmachine
    | false =>
      refine .goes ?_
      rw [hmachine]
      exact ((SequenceState.Goes.refl _).move rfl rfl).move rfl rfl

theorem Performs.req {free slot : Bool}
    (hp : Performs s o u (.change q f free slot entry)) (x : Seq) : (f x).req = x.req := by
  cases hp with
  | exhaust | attempt =>
    obtain ⟨generated, hx⟩ := preserved_shape s.cfg x
    simp only [hx]
    rfl
  | resolve => exact resolve_same req (fun _ _ _ _ _ _ _ => rfl) ..
  | finish => exact finish_same req (fun _ _ _ => rfl) ..
  | _ => rfl

end Inversion

/-! Records. -/

/-- The counter of the ends in state `st`. -/
def Records.count (r : Records) : SequenceState → Nat
  | .completed => r.completed
  | .cancelled => r.cancelled
  | .deadlineExpired => r.expired
  | .nonRetryableFailure => r.failed
  | _ => 0

/-- The number of sequences whose lifecycle is in state `st`. -/
def Fabric.endedIn (s : Fabric) (st : SequenceState) : Nat :=
  s.seqs.total fun _ x => if x.machine = st then 1 else 0

/-- The records are those of the lifecycle. -/
structure Fabric.Recorded (s : Fabric) : Prop where
  regular : s.AllSeqs fun x => x.machine.regular = true
  filed : ∀ q st, s.terminalRecords.find? q = some st ↔
    st.isTerminal = true ∧ ∃ x, s.seqs.find? q = some x ∧ x.machine = st
  counted : ∀ st, st.isTerminal = true → s.records.count st = s.endedIn st

theorem Records.count_enter (r : Records) (q : SequenceId) (st' : SequenceState)
    (hst : st.isTerminal = true) (hreg : st.regular = true) :
    (r.enter q st).count st' = r.count st' + if st = st' then 1 else 0 := by
  have hcases : st = .completed ∨ st = .cancelled ∨ st = .deadlineExpired ∨ st = .nonRetryableFailure := by
    cases st <;> first | decide | exact absurd hst (by decide) | exact absurd hreg Bool.false_ne_true
  rcases hcases with rfl | rfl | rfl | rfl <;> cases st' <;> rfl

namespace Fabric.Recorded
variable {s t : Fabric} {q : SequenceId} {x : Seq} {f : Seq → Seq}

theorem same (h : s.Recorded) (hseqs : t.seqs.Reorder s.seqs) (hrecords : t.records = s.records) : t.Recorded where
  regular q x hx := h.regular q x ((find?_reorder hseqs q).symm.trans hx)
  filed q st := by
    have hterminal : t.terminalRecords = s.terminalRecords := congrArg Records.terminalRecords hrecords
    rw [hterminal, find?_reorder hseqs q]
    exact h.filed q st
  counted st hst := by
    rw [hrecords, h.counted st hst]
    exact (total_reorder hseqs _).symm

/-- A sequence goes on. -/
theorem goes (h : s.Recorded) (hs : t.seqs = s.seqs.modify q f) (hrecords : t.records = s.records)
    (hf : ∀ x, s.seqs.find? q = some x → x.machine.Goes (f x).machine) : t.Recorded where
  regular j y hy := by
    rw [hs] at hy
    rcases find?_modify_cases hy with ⟨rfl, x, hx, rfl⟩ | ⟨-, hy⟩
    · rcases hf x hx with hsame | ⟨-, -, hreg⟩
      · rw [hsame]
        exact h.regular j x hx
      · exact hreg
    · exact h.regular j y hy
  filed j st := by
    have hterminal : t.terminalRecords = s.terminalRecords := congrArg Records.terminalRecords hrecords
    rw [hterminal, h.filed j st, hs, find?_modify]
    refine and_congr_right fun hst => ?_
    split
    · next hj =>
      subst hj
      constructor
      · rintro ⟨x, hx, hmachine⟩
        refine ⟨f x, ?_, ((hf x hx).terminal_iff hst).mpr hmachine⟩
        rw [hx]
        rfl
      · rintro ⟨y, hy, hmachine⟩
        obtain ⟨x, hx, rfl⟩ := Option.map_eq_some_iff.mp hy
        exact ⟨x, hx, ((hf x hx).terminal_iff hst).mp hmachine⟩
    · rfl
  counted st hst := by
    rw [hrecords, h.counted st hst]
    unfold endedIn
    rw [hs, total_modify_same]
    intro x hx
    simp only [(hf x hx).terminal_iff hst]

/-- A live sequence ends, and its end is entered. -/
theorem ends (h : s.Recorded) (hx : s.seqs.find? q = some x) (hs : t.seqs = s.seqs.modify q f)
    (hrecords : t.records = s.records.enter q st) (hlive : x.machine.isTerminal = false) (hf : (f x).machine = st)
    (hst : st.isTerminal = true) (hreg : st.regular = true) : t.Recorded where
  regular j y hy := by
    rw [hs] at hy
    rcases find?_modify_of_some hx hy with ⟨-, rfl⟩ | ⟨-, hy⟩
    · rw [hf]
      exact hreg
    · exact h.regular j y hy
  filed j st' := by
    have hterminal : t.terminalRecords = s.terminalRecords.insert q st := congrArg Records.terminalRecords hrecords
    rw [hterminal, find?_insert, hs, find?_modify]
    split
    · next hj =>
      subst hj
      rw [hx]
      constructor
      · rintro ⟨rfl⟩
        exact ⟨hst, f x, rfl, hf⟩
      · rintro ⟨-, y, hy, hmachine⟩
        cases hy
        rw [← hf, hmachine]
    · exact h.filed j st'
  counted st' hst' := by
    have htotal := total_modify hx f fun _ y => if y.machine = st' then 1 else 0
    have hbefore : (if x.machine = st' then 1 else 0) = 0 := by
      refine if_neg fun heq => ?_
      rw [heq, hst'] at hlive
      cases hlive
    have hcount := h.counted st' hst'
    unfold endedIn at hcount ⊢
    rw [hrecords, Records.count_enter _ _ _ hst hreg, hs, hcount]
    simp only [hf] at htotal
    omega

theorem enrol {req : DecodeRequest} (h : s.Recorded) (hq : s.seqs.find? q = none)
    (hs : t.seqs = s.seqs.insert q (ofRequest req)) (hrecords : t.records = s.records) : t.Recorded where
  regular j y hy := by
    rw [hs, find?_insert] at hy
    split at hy
    · cases hy
      rfl
    · exact h.regular j y hy
  filed j st := by
    have hterminal : t.terminalRecords = s.terminalRecords := congrArg Records.terminalRecords hrecords
    rw [hterminal, h.filed j st, hs, find?_insert]
    refine and_congr_right fun hst => ?_
    split
    · next hj =>
      subst hj
      rw [hq]
      constructor
      · rintro ⟨x, hx, -⟩
        cases hx
      · rintro ⟨y, hy, hmachine⟩
        cases hy
        rw [← hmachine] at hst
        cases hst
    · rfl
  counted st hst := by
    rw [hrecords, h.counted st hst]
    unfold endedIn
    rw [hs, total_insert_new hq]
    have hnew : (ofRequest req).machine ≠ st := by
      rintro rfl
      cases hst
    rw [if_neg hnew, Nat.add_zero]

/-- A group goes out. -/
theorem send {d : Dispatch} : ∀ {members : List SequenceId} {s t : Fabric}, s.Recorded →
    t.seqs = members.foldl (fun u m => u.modify m (dispatchUnder d)) s.seqs → t.records = s.records → t.Recorded
  | [], s, t, h, hs, hrecords => h.same (hs ▸ .refl _) hrecords
  | m :: members, s, t, h, hs, hrecords => by
    have hfirst : ({ s with seqs := s.seqs.modify m (dispatchUnder d) } : Fabric).Recorded :=
      h.goes rfl rfl fun x _ => ((SequenceState.Goes.refl _).move rfl rfl).move rfl rfl
    exact hfirst.send hs hrecords

end Fabric.Recorded

/-- The lifecycle grants every end that a call asks for: no candidate is without budget at a tick; a retryable failure
    after the last attempt finds its sequence between steps, a non-retryable one finds it dispatched; an outcome that
    ends a sequence names it; and a receipt that ends one finds it in a step. -/
structure Recording (e : Edge Fabric Call) : Prop where
  unspent : ∀ tn, e.label = .op (.schedule tn) → ∀ q x, e.pre.seqs.find? q = some x → x.machine.isCandidate = true →
    x.budget.exhausted = false
  exhausted : ∀ o, e.label = .op o → ∀ u q x mo, Resolves e.pre q x mo u o → mo.kind = .retryableFailure →
    x.attemptCount ≥ u.cfg.retryPolicy.maxAttempts → x.machine = .running ∨ x.machine = .stepCompleted
  failed : ∀ o, e.label = .op o → ∀ u q x mo, Resolves e.pre q x mo u o → mo.kind = .nonRetryableFailure →
    x.machine = .dispatched
  named : ∀ o, e.label = .op o → ∀ u q x mo, Resolves e.pre q x mo u o → (endRecorded u.cfg x mo).isSome = true →
    mo.sequence = q
  received : ∀ receipts, e.label = .op (.applyCommitReceipt receipts) → ∀ u r x,
    (u, r) ∈ turns Fabric.applyReceipt e.pre receipts.receipts → u.receiptVerdict r = .finalize x →
    (x.commitToken (u.finishTime r) r).endsWith r = true →
    x.machine = .dispatched ∨ x.machine = .running ∨ x.machine = .stepCompleted

theorem change_recorded {s t u v : Fabric} {o : Op} {q : SequenceId} {x : Seq} {free slot : Bool}
    (hc : Recording ⟨s, .op o, t⟩) (hp : Performs s o u (.change q f free slot entry)) (hx : u.seqs.find? q = some x)
    (hs : v.seqs = u.seqs.modify q f) (hh : v.holdings = u.holdings.pay x free slot entry) (h : u.Recorded) :
    v.Recorded := by
  have hreg : x.machine.regular = true := h.regular q x hx
  have hrecords : v.records = (u.holdings.pay x free slot entry).records := congrArg Holdings.records hh
  cases hp.lives hx with
  | goes hgoes =>
    refine h.goes hs hrecords fun y hy => ?_
    cases hx.symm.trans hy
    exact hgoes
  | retired _ _ hst hlive hmachine =>
    obtain ⟨hcancel, hexpire⟩ := SequenceState.regular_ends hreg hlive
    rcases hst with rfl | rfl
    · exact h.ends hx hs hrecords hlive (hmachine.trans hcancel) rfl rfl
    · exact h.ends hx hs hrecords hlive (hmachine.trans hexpire) rfl rfl
  | spent ho hfound hcand hspent _ =>
    subst ho
    rw [hc.unspent _ rfl q x hfound hcand] at hspent
    cases hspent
  | givenUp _ _ hretry _ hmachine =>
    rcases hretry with hst | hst | hst
    · rw [hst] at hreg
      cases hreg
    · rw [hst] at hmachine
      exact h.ends hx hs hrecords (by rw [hst]; rfl) hmachine rfl rfl
    · rw [hst] at hmachine
      exact h.ends hx hs hrecords (by rw [hst]; rfl) hmachine rfl rfl
  | @failed mo hres hk hmax hmachine =>
    obtain rfl : mo.sequence = q := hc.named o rfl u q x mo hres (by simp [endRecorded, hk, hmax])
    rcases hc.exhausted o rfl u _ x mo hres hk hmax with hst | hst
    · rw [hst] at hmachine
      exact h.ends hx hs hrecords hres.live hmachine rfl rfl
    · rw [hst] at hmachine
      exact h.ends hx hs hrecords hres.live hmachine rfl rfl
  | @broken mo hres hk hmachine =>
    obtain rfl : mo.sequence = q := hc.named o rfl u q x mo hres (by simp [endRecorded, hk])
    have hst := hc.failed o rfl u _ x mo hres hk
    rw [hst] at hmachine
    exact h.ends hx hs hrecords hres.live hmachine rfl rfl
  | @closed mo st hres hk hmachine =>
    obtain ⟨hcancel, hexpire⟩ := SequenceState.regular_ends hreg hres.live
    rcases hk with ⟨hk, rfl⟩ | ⟨hk, rfl⟩
    · obtain rfl : mo.sequence = q := hc.named o rfl u q x mo hres (by simp [endRecorded, hk])
      exact h.ends hx hs hrecords hres.live (hmachine.trans hcancel) rfl rfl
    · obtain rfl : mo.sequence = q := hc.named o rfl u q x mo hres (by simp [endRecorded, hk])
      exact h.ends hx hs hrecords hres.live (hmachine.trans hexpire) rfl rfl
  | finished ho hturn hq hv hends hmachine =>
    subst ho
    have hdone := SequenceState.step_completes (hc.received _ rfl u _ x hturn hv hends)
    exact h.ends hx hs hrecords (Fabric.receiptVerdict_finalize hv).live (hmachine.trans hdone) rfl rfl

theorem deed_recorded {s t u v : Fabric} {c : Call} {d : Deed} (hc : Recording ⟨s, c, t⟩) (hd : Does u d v)
    (hp : c.Performs s u d) (h : u.Recorded) : v.Recorded := by
  cases hd with
  | note hs hh | register hs hh | lose hs hh => exact h.same (hs ▸ .refl _) (congrArg Holdings.records hh)
  | shuffle hs _ hh => exact h.same hs (congrArg Holdings.records hh)
  | enrol hq hs hh => exact h.enrol hq hs (congrArg Holdings.records hh)
  | send hs hh => exact h.send hs (congrArg Holdings.records hh)
  | change hx hs hh =>
    cases c with
    | op o => exact change_recorded hc hp hx hs hh h
    | tick | rehash => cases hp

theorem init_recorded (cfg : Config) (clock : TimePoint) : (Fabric.init cfg clock).Recorded := by
  refine ⟨?_, ?_, ?_⟩
  · intro q x hx
    cases hx
  · intro q st
    constructor
    · intro hst
      cases hst
    · rintro ⟨-, x, hx, -⟩
      cases hx
  · intro st _
    cases st <;> rfl

/-- In a run in which the lifecycle grants every end, the terminal records are the ends of the lifecycle, and the four
    counters count them. -/
theorem records_exact_when {h : History} {s : Fabric} (hr : RunsTo h s) (hc : ∀ e ∈ h, Recording e) :
    (∀ q st, s.terminalRecords.find? q = some st ↔
      st.isTerminal = true ∧ ∃ x, s.seqs.find? q = some x ∧ x.machine = st) ∧
    s.stats.sequencesCompleted = s.endedIn .completed ∧ s.stats.sequencesCancelled = s.endedIn .cancelled ∧
    s.stats.sequencesExpired = s.endedIn .deadlineExpired ∧
    s.stats.sequencesFailed = s.endedIn .nonRetryableFailure := by
  have hrec : s.Recorded := (transition_invariant init_recorded
    (fun _ hn _ hp hs => (next_deeds hn).invariant (fun hd ha hu => deed_recorded hp hd ha hu) hs) hr hc).1
  exact ⟨hrec.filed, hrec.counted .completed rfl, hrec.counted .cancelled rfl, hrec.counted .deadlineExpired rfl,
    hrec.counted .nonRetryableFailure rfl⟩

/-- A worker, a request or a cancellation asks for no end that is not granted. -/
theorem recording_plain {s t : Fabric} {o : Op}
    (ho : (∃ wd, o = .registerWorker wd) ∨ (∃ req, o = .submit req) ∨ ∃ q, o = .cancel q) :
    Recording ⟨s, .op o, t⟩ := by
  have hres : ∀ {u q x mo}, ¬ Resolves s q x mo u o := by
    rcases ho with ⟨wd, rfl⟩ | ⟨req, rfl⟩ | ⟨q, rfl⟩ <;> exact nofun
  refine ⟨fun tn heq => ?_, fun _ heq u q x mo h => ?_, fun _ heq u q x mo h => ?_, fun _ heq u q x mo h => ?_,
    fun receipts heq => ?_⟩
  · cases heq
    rcases ho with ⟨wd, ho⟩ | ⟨req, ho⟩ | ⟨q, ho⟩ <;> cases ho
  · cases heq
    exact absurd h hres
  · cases heq
    exact absurd h hres
  · cases heq
    exact absurd h hres
  · cases heq
    rcases ho with ⟨wd, ho⟩ | ⟨req, ho⟩ | ⟨q, ho⟩ <;> cases ho

namespace Sample

/-- A sequence that is cancelled before it goes out. -/
def cancelled : List Op := [.registerWorker (worker 1 1), .submit request, .cancel 1]

/-- A sequence that comes with all its tokens, and two ticks. -/
def pregenerated : List Op :=
  [.registerWorker (worker 1 1), .submit { request with pregenerated := 4 }, .schedule 1, .schedule 2]

end Sample

theorem records_exact_cancelled : (start.execAll cancelled).terminalRecords.find? 1 = some .cancelled ∧
    (∃ x, (start.execAll cancelled).seqs.find? 1 = some x ∧ x.machine = .cancelled) ∧
    (start.execAll cancelled).stats.sequencesCancelled =
      (start.execAll cancelled).endedIn .cancelled := by
  have hc : ∀ e ∈ trace start cancelled, Recording e := by
    intro e he
    simp only [cancelled, trace, List.mem_cons, List.not_mem_nil, or_false] at he
    rcases he with rfl | rfl | rfl
    · exact recording_plain (.inl ⟨_, rfl⟩)
    · exact recording_plain (.inr (.inl ⟨_, rfl⟩))
    · exact recording_plain (.inr (.inr ⟨_, rfl⟩))
  obtain ⟨hfiled, -, hcancelled, -⟩ := records_exact_when (runsTo cancelled) hc
  have hentry : (start.execAll cancelled).terminalRecords.find? 1 = some .cancelled := by decide
  exact ⟨hentry, ((hfiled 1 .cancelled).mp hentry).2, hcancelled⟩

/-- Both ticks record and count a completion that the lifecycle does not grant. -/
theorem completed_while_ready : RunsTo (trace start pregenerated) (start.execAll pregenerated) ∧
    (start.execAll pregenerated).terminalRecords.find? 1 = some .completed ∧
    ((start.execAll pregenerated).seqs.find? 1).map machine = some .ready ∧
    (start.execAll pregenerated).stats.sequencesCompleted = 2 ∧
    (start.execAll pregenerated).endedIn .completed = 0 :=
  ⟨runsTo pregenerated, by decide, by decide, by decide, by decide⟩

end DecodeFabric
