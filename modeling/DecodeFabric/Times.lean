import DecodeFabric.Codecs
import DecodeFabric.Recount

/- Arithmetic on times.

   Times are signed 64-bit numbers of nanoseconds. They come in with requests, outcomes and receipts, from the clock and
   with each tick, and nothing checks them. Scoring takes differences of them, and the statistics add up what receipts
   report; the model calculates with integers, and an overflow of the source is a result that 64 bits cannot hold.

   A request from the wire with an arrival far in the past overflows the first difference scoring takes
   (`times_overflow`). Where all times that come in are those of a clock that started at zero, differences are safe,
   and sums are as long as the active times and the gaps between tokens add up to less than 292 years
   (`times_fit_when`). -/
namespace DecodeFabric
open Lib List Fabric Sample DecodeFabric.Seq

/-! The results of the arithmetic. -/

/-- The differences scoring takes for a candidate. -/
def Seq.scoringTimes (tn : TimePoint) (x : Seq) : List Nanoseconds :=
  (tn - if x.lastTokenAt ≠ 0 then x.lastTokenAt else x.readyAt) ::
    if x.req.deadline ≠ 0 ∧ x.req.arrival ≠ 0 then [tn - x.req.arrival, x.req.deadline - x.req.arrival] else []

/-- The sequences a tick scores, as the candidate loop finds them. -/
def Fabric.scored (s : Fabric) (tn : TimePoint) : List Seq :=
  (turns (collectSeq tn) (s.boundaryPass tn, []) (s.boundaryPass tn).seqs.keys).filterMap fun p =>
    (p.1.1.seqs.find? p.2).filter fun x =>
      x.machine.isCandidate && !x.budget.exhausted && (p.1.1.keyForModel x.req).valid

/-- The sums and the difference taken for a receipt that is finalized. -/
def Fabric.receiptTimes (s : Fabric) (r : MemberReceipt) : List Nanoseconds :=
  match s.receiptVerdict r with
  | .finalize x =>
    (s.stats.totalActiveNs + r.activeNs) ::
      if x.lastTokenAt ≠ 0 then
        [s.finishTime r - x.lastTokenAt, s.stats.totalInterTokenNs + (s.finishTime r - x.lastTokenAt)]
      else []
  | _ => []

/-- The receipts a call applies, each with the fabric at its turn. -/
def receiptTurns (e : Edge Fabric Call) : List (Fabric × MemberReceipt) :=
  match e.label with
  | .op (.applyCommitReceipt receipts) => turns applyReceipt e.pre receipts.receipts
  | _ => []

/-- The results of all signed arithmetic on times in a call. -/
def timesTaken (e : Edge Fabric Call) : List Nanoseconds :=
  match e.label with
  | .op (.schedule tn) => (e.pre.scored tn).flatMap (scoringTimes tn)
  | .op (.applyCommitReceipt _) => (receiptTurns e).flatMap fun p => p.1.receiptTimes p.2
  | _ => []

/-! Times that come in. -/

/-- A time of a clock that started at zero. -/
def IsTimestamp (t : Int) : Prop := 0 ≤ t ∧ t < 2 ^ 63

instance (t : Int) : Decidable (IsTimestamp t) := inferInstanceAs (Decidable (0 ≤ t ∧ t < 2 ^ 63))

theorem IsTimestamp.sub_fits {a b : Int} (ha : IsTimestamp a) (hb : IsTimestamp b) : TimeFits (a - b) := by
  unfold IsTimestamp at ha hb
  unfold TimeFits
  omega

/-- The times a call brings. -/
def Call.times : Call → List TimePoint
  | .op (.submit inp) => [inp.arrival]
  | .op (.schedule tn) => [tn]
  | .op (.applyCompletion result) => result.outcomes.map MemberOutcome.finishedAt
  | .op (.authorizePrepared prepared) => prepared.members.map fun pm => pm.outcome.finishedAt
  | .op (.applyCommitReceipt receipts) => receipts.receipts.map MemberReceipt.committedAt
  | _ => []

def Call.deadline : Call → TimePoint
  | .op (.submit inp) => inp.deadline
  | _ => 0

/-- The times a call can bring in. -/
def timesOf (e : Edge Fabric Call) : List TimePoint := e.pre.clock :: e.label.times

/-- The times of a call are timestamps; a deadline may be any time. -/
def Timely (e : Edge Fabric Call) : Prop := (∀ t ∈ timesOf e, IsTimestamp t) ∧ TimeFits e.label.deadline

instance (e : Edge Fabric Call) : Decidable (Timely e) := inferInstanceAs (Decidable (_ ∧ _))

/-- The times of a sequence. -/
structure Seq.Timed (x : Seq) : Prop where
  ready : IsTimestamp x.readyAt
  token : IsTimestamp x.lastTokenAt
  arrival : IsTimestamp x.req.arrival
  deadline : TimeFits x.req.deadline

/-! Where the times of a sequence come from. -/

/-- The times an act brings into the fabric are among `ts`, and a deadline is `due`. -/
def Act.TimedBy (ts : List TimePoint) (due : TimePoint) : Act → Prop
  | .seq _ (.beginAttempt _ t) | .seq _ (.workerDown t) | .seq _ (.reconcile t) | .seq _ (.enterGroup t) => t ∈ ts
  | .seq _ (.resolve _ _ t mo) => t ∈ ts ∧ mo.finishedAt ∈ ts
  | .enrol _ req => req.arrival ∈ ts ∧ req.deadline = due
  | .finalize r => r.committedAt ∈ ts
  | .environment => False
  | _ => True

section Steps
variable {s t : Fabric} {a : Act} {ts : List TimePoint} {due : TimePoint}

theorem Micro.clock_eq (hm : Micro s a t) (ha : a ≠ .environment) : t.clock = s.clock := by
  cases hm with
  | note _ hb | seq _ _ _ _ hb | enrol _ _ _ hb | takeDispatch _ hb | issue _ _ _ _ _ hb | finalize _ _ _ hb
  | abort _ _ _ hb => exact congrArg Books.clock hb
  | environment _ _ => exact absurd rfl ha

theorem TimedBy.not_environment (ha : a = .note ∨ a.TimedBy ts due) : a ≠ .environment := by
  rintro rfl
  rcases ha with ha | ha
  · cases ha
  · exact ha

theorem TimedBy.clock_eq (h : Steps (Act.TimedBy ts due) s t) : t.clock = s.clock :=
  h.invariant (I := fun u => u.clock = s.clock) (fun hm ha hu => (hm.clock_eq (not_environment ha)).trans hu) rfl

/-- A loop, at one time. -/
theorem TimedBy.foldl {α : Type} {f : Fabric → α → Fabric} : ∀ {l : List α} {s : Fabric}, s.clock ∈ ts →
    (∀ u : Fabric, u.clock ∈ ts → ∀ x ∈ l, Steps (Act.TimedBy ts due) u (f u x)) →
    Steps (Act.TimedBy ts due) s (l.foldl f s)
  | [], s, _, _ => .refl _ s
  | x :: l, s, hs, h => by
    have hx := h s hs x mem_cons_self
    refine hx.trans (foldl ?_ fun u hu y hy => h u hu y (mem_cons_of_mem x hy))
    rw [clock_eq hx]
    exact hs

theorem buildKey_times (s : Fabric) (inp : DecodeRequest) :
    (s.buildKey inp).arrival ∈ [s.clock, inp.arrival] ∧ (s.buildKey inp).deadline = inp.deadline := by
  unfold buildKey
  split
  · exact ⟨mem_cons_self, rfl⟩
  · exact ⟨mem_cons_of_mem _ mem_cons_self, rfl⟩

theorem reconcileWorkerDown_timed (id : WorkerId) (hs : s.clock ∈ ts) (q : SequenceId) :
    Steps (Act.TimedBy ts due) s (reconcileWorkerDown id s q) := by
  unfold reconcileWorkerDown
  split
  · exact .refl _ _
  · split
    · refine .ofSeq (q := q) (.workerDown s.clock) ?_ ?_ (fun _ _ => trivial) hs
      · rw [modifySeq_seqs, releaseReservation_seqs, Table.modify_modify]
        rfl
      · rw [modifySeq_books, releaseReservation_books]
    · exact .refl _ _

/-- Every operation but those on workers and epochs. -/
theorem exec_timed (s : Fabric) (o : Op) (h0 : s.nextDispatch ≠ 0) (hw : ∀ wd, o ≠ .registerWorker wd)
    (he : o ≠ .rollEpoch) : Steps (Act.TimedBy (s.clock :: (Call.op o).times) (Call.op o).deadline) s (s.exec o) := by
  have hnow : s.clock ∈ s.clock :: (Call.op o).times := mem_cons_self
  cases o with
  | registerWorker wd => exact absurd rfl (hw wd)
  | rollEpoch => exact absurd rfl he
  | submit inp => exact s.submit_steps inp (buildKey_times s inp)
  | retry q => exact s.retry_steps q trivial trivial fun _ => hnow
  | markWorkerDead id =>
    refine .trans (.quiet _ ?_ ?_) (TimedBy.foldl ?_ fun u hu q _ => reconcileWorkerDown_timed id hu q)
    · rfl
    · rfl
    · exact hnow
  | applyCompletion result =>
    refine TimedBy.foldl hnow fun u hu mo hmo => u.applyOutcome_steps result mo ?_ ?_
    · exact fun _ _ _ _ => trivial
    · exact fun _ _ _ => ⟨trivial, hu, mem_cons_of_mem _ (mem_map_of_mem hmo)⟩
  | authorizePrepared prepared =>
    simp only [exec, authorizePrepared_eq_foldl]
    refine TimedBy.foldl hnow fun u hu pm hpm => u.authorizeMember_steps prepared pm ?_ ?_ ?_
    · exact fun _ _ _ _ => hu
    · exact fun _ _ _ => ⟨trivial, hu, mem_cons_of_mem _ (mem_map_of_mem hpm)⟩
    · exact fun _ _ _ => trivial
  | cancel q =>
    refine (exec_steps s _ h0).mono fun a ha => ?_
    cases a with
    | seq q o => rcases ha.2 with rfl | rfl <;> trivial
    | _ => exact False.elim ha
  | cancelRequest r | advance tn =>
    refine (exec_steps s _ h0).mono fun a ha => ?_
    cases a with
    | seq q o => rcases ha with rfl | rfl <;> trivial
    | _ => exact False.elim ha
  | schedule tn =>
    refine (exec_steps s _ h0).mono fun a ha => ?_
    cases a with
    | takeDispatch => trivial
    | seq q o =>
      rcases ha with rfl | rfl | rfl | rfl | rfl | ⟨d, rfl⟩
      · trivial
      · trivial
      · trivial
      · exact mem_cons_of_mem _ mem_cons_self
      · trivial
      · trivial
    | _ => exact False.elim ha
  | applyCommitReceipt receipts =>
    refine (exec_steps s _ h0).mono fun a ha => ?_
    cases a with
    | finalize r => exact mem_cons_of_mem _ (mem_map_of_mem ha)
    | _ => exact False.elim ha
  | abortPrepared b =>
    refine (exec_steps s _ h0).mono fun a ha => ?_
    cases a with
    | abort q => trivial
    | _ => exact False.elim ha

/-! Sequences keep timestamps. -/

theorem Seq.Timed.of_same {x y : Seq} (h : x.Timed) (hreq : y.req = x.req) (htoken : y.lastTokenAt = x.lastTokenAt)
    (hready : IsTimestamp y.readyAt) : y.Timed := by
  refine ⟨hready, ?_, ?_, ?_⟩
  · rw [htoken]
    exact h.token
  · rw [hreq]
    exact h.arrival
  · rw [hreq]
    exact h.deadline

theorem Seq.Timed.noncommit {x : Seq} (h : x.Timed) {cfg : Config} {attempt : AttemptId} {now : TimePoint}
    {mo : MemberOutcome} (hnow : IsTimestamp now) (hmo : IsTimestamp mo.finishedAt) :
    (x.noncommit cfg attempt now mo).Timed := by
  obtain ⟨st, ready, attempt', count, generated, budget, heq, -⟩ := noncommit_shape cfg attempt now mo x
  have hready : ready = x.readyAt ∨ ready = now ∨ ready = mo.finishedAt := by
    have hshape : (x.noncommit cfg attempt now mo).readyAt = ready := by rw [heq]
    rw [← hshape]
    unfold Seq.noncommit
    cases mo.kind with
    | yielded => exact .inr (.inr rfl)
    | retryableFailure =>
      simp only
      split
      · split <;> exact .inl rfl
      · exact .inr (.inl rfl)
    | nonRetryableFailure | cancelled | expired => simp only; split <;> exact .inl rfl
    | _ => exact .inl rfl
  rw [heq]
  refine h.of_same rfl rfl ?_
  rcases hready with rfl | rfl | rfl
  · exact h.ready
  · exact hnow
  · exact hmo

theorem IsTimestamp.finishTime {r : MemberReceipt} (hr : IsTimestamp r.committedAt) (hclock : IsTimestamp s.clock) :
    IsTimestamp (s.finishTime r) := by
  unfold Fabric.finishTime
  split
  · exact hr
  · exact hclock

variable (hts : ∀ t ∈ ts, IsTimestamp t)
include hts

theorem Act.Changes.timed {q : SequenceId} {x y : Seq} (hc : a.Changes s q x y) (ha : a.TimedBy ts due)
    (hclock : IsTimestamp s.clock) (h : x.Timed) : y.Timed := by
  have either : ∀ {b : Bool} {t : TimePoint}, IsTimestamp t → IsTimestamp (if b then t else x.readyAt) := by
    intro b t ht
    split
    · exact ht
    · exact h.ready
  cases hc with
  | seq o hg =>
    cases o with
    | release | moveTo _ | retire _ | rollBackTokens | dispatchUnder _ | disown => exact h.of_same rfl rfl h.ready
    | beginAttempt _ t | enterGroup t => exact h.of_same rfl rfl (hts t ha)
    | workerDown t =>
      refine h.of_same rfl rfl ?_
      show IsTimestamp (if x.machine.isTerminal then x.readyAt else t)
      split
      · exact h.ready
      · exact hts t ha
    | reconcile t => exact h.of_same rfl rfl (either (hts t ha))
    | resolve cfg attempt t mo =>
      have hended : x.endDispatch.release.Timed := h.of_same rfl rfl h.ready
      exact hended.noncommit (hts t ha.1) (hts _ ha.2)
  | issue prepared pm _ _ => exact h.of_same rfl rfl h.ready
  | finalize r _ _ =>
    have hfin := (hts r.committedAt ha).finishTime hclock
    unfold finish settle
    split
    · exact ⟨h.ready, hfin, h.arrival, h.deadline⟩
    · exact ⟨hfin, hfin, h.arrival, h.deadline⟩
  | abort _ => exact h.of_same rfl rfl (either hclock)

theorem Micro.timed (hm : Micro s a t) (ha : a = .note ∨ a.TimedBy ts due) (hdue : TimeFits due)
    (hclock : IsTimestamp s.clock) (h : s.AllSeqs Seq.Timed) : t.AllSeqs Seq.Timed := by
  intro q y hy
  rcases hm.seq_before hy with hsame | ⟨x, hx, hc⟩ | ⟨req, rfl, -, rfl⟩
  · exact h q y hsame
  · rcases ha with rfl | ha
    · cases hc
    · exact hc.timed hts ha hclock (h q x hx)
  · obtain ⟨harrival, hreq⟩ : req.arrival ∈ ts ∧ req.deadline = due := ha.resolve_left (by simp)
    have htime := hts _ harrival
    have hzero : IsTimestamp 0 := by decide
    exact ⟨htime, hzero, htime, hreq ▸ hdue⟩

theorem TimedBy.timed (h : Steps (Act.TimedBy ts due) s t) (hdue : TimeFits due) (hclock : IsTimestamp s.clock)
    (hs : s.AllSeqs Seq.Timed) : t.AllSeqs Seq.Timed := by
  refine (h.invariant (I := fun u => IsTimestamp u.clock ∧ u.AllSeqs Seq.Timed) ?_ ⟨hclock, hs⟩).2
  rintro u v a hm ha ⟨hu, hall⟩
  exact ⟨hm.clock_eq (not_environment ha) ▸ hu, hm.timed hts ha hdue hu hall⟩

omit hts

theorem next_timed {e : Edge Fabric Call} (hn : Next e.pre e.label e.post) (h0 : e.pre.nextDispatch ≠ 0) (ht : Timely e)
    (h : e.pre.AllSeqs Seq.Timed) : e.post.AllSeqs Seq.Timed := by
  obtain ⟨s, c, t⟩ := e
  change Next s c t at hn
  have reordered : t.seqs.Reorder s.seqs → t.AllSeqs Seq.Timed := by
    intro hperm q x hx
    exact h q x ((Table.find?_reorder hperm q).symm.trans hx)
  cases hn with
  | tick now => exact h
  | rehash seqs workers hs _ => exact reordered hs
  | op o =>
    by_cases hw : ∃ wd, o = .registerWorker wd
    · obtain ⟨wd, rfl⟩ := hw
      refine reordered ?_
      simp only [exec, registerWorker]
      split <;> exact Table.Reorder.refl _
    · by_cases he : o = .rollEpoch
      · subst he
        exact h
      · exact TimedBy.timed ht.1 (exec_timed s o h0 (not_exists.mp hw) he) ht.2 (ht.1 _ mem_cons_self) h

end Steps

/-! Scoring. -/

theorem scored_due {s : Fabric} {tn : TimePoint} {x : Seq} (hx : x ∈ s.scored tn) :
    (∃ q, s.seqs.find? q = some x) ∧ x.deadlineReached tn = false := by
  obtain ⟨p, hp, hfound⟩ := mem_filterMap.mp hx
  obtain ⟨hfind, hcand⟩ := Option.filter_eq_some_iff.mp hfound
  simp only [Bool.and_eq_true] at hcand
  obtain ⟨hseq, htime⟩ := collect_turn hp hfind hcand.1.1
  exact ⟨⟨p.2, hseq⟩, htime⟩

/-- The differences of timestamps fit; an expired candidate is not scored, so a deadline is after the tick. -/
theorem scoringTimes_fit {tn : TimePoint} {x : Seq} (htn : IsTimestamp tn) (h : x.Timed)
    (htime : x.deadlineReached tn = false)
    {v : Nanoseconds} (hv : v ∈ x.scoringTimes tn) : TimeFits v := by
  unfold scoringTimes at hv
  rcases mem_cons.mp hv with rfl | hv
  · split
    · exact htn.sub_fits h.token
    · exact htn.sub_fits h.ready
  · split at hv
    · next hset =>
      have hlate : tn < x.req.deadline := by
        simp only [deadlineReached, decide_eq_false_iff_not, not_and] at htime
        exact Int.not_le.mp (htime hset.1)
      have hdeadline : IsTimestamp x.req.deadline := ⟨Int.le_trans htn.1 (Int.le_of_lt hlate), h.deadline.2⟩
      rcases mem_cons.mp hv with rfl | hv
      · exact htn.sub_fits h.arrival
      · rw [mem_singleton.mp hv]
        exact hdeadline.sub_fits h.arrival
    · cases hv

/-! Sums. -/

/-- What a receipt adds to the active time. -/
def activeAdded (p : Fabric × MemberReceipt) : Int :=
  match p.1.receiptVerdict p.2 with
  | .finalize _ => p.2.activeNs
  | _ => 0

/-- What a receipt adds to the time between tokens. -/
def gapAdded (p : Fabric × MemberReceipt) : Int :=
  match p.1.receiptVerdict p.2 with
  | .finalize x => if x.lastTokenAt ≠ 0 then p.1.finishTime p.2 - x.lastTokenAt else 0
  | _ => 0

/-- What the receipts of a call add, sign apart. -/
def spent (added : Fabric × MemberReceipt → Int) (e : Edge Fabric Call) : Nat :=
  ((receiptTurns e).map fun p => (added p).natAbs).sum

/-- `total` adds up `added` over the receipts, and nothing else changes it. -/
structure SumsUp (total : Fabric → Int) (added : Fabric × MemberReceipt → Int) : Prop where
  init : ∀ cfg clock, total (init cfg clock) = 0
  receipt : ∀ s r, total (s.applyReceipt r) = total s + added (s, r)
  other : ∀ {s t : Fabric} {c : Call}, Next s c t → (∀ receipts, c ≠ .op (.applyCommitReceipt receipts)) →
    total t = total s

namespace SumsUp
variable {total : Fabric → Int} {added : Fabric × MemberReceipt → Int} (h : SumsUp total added)
include h

/-- A sum along a loop stays within the sum of what is added. -/
theorem turns_le : ∀ (l : List MemberReceipt) (s : Fabric), (total (l.foldl applyReceipt s)).natAbs ≤
      (total s).natAbs + ((turns applyReceipt s l).map fun p => (added p).natAbs).sum ∧
    ∀ p ∈ turns applyReceipt s l, (total p.1 + added p).natAbs ≤
      (total s).natAbs + ((turns applyReceipt s l).map fun p => (added p).natAbs).sum
  | [], s => ⟨Nat.le_add_right _ _, fun p hp => by cases hp⟩
  | r :: l, s => by
    obtain ⟨hend, hturns⟩ := turns_le l (s.applyReceipt r)
    have hstep := h.receipt s r
    have habs : (total s + added (s, r)).natAbs ≤ (total s).natAbs + (added (s, r)).natAbs := Int.natAbs_add_le _ _
    rw [hstep] at hend hturns
    simp only [turns, map_cons, sum_cons, foldl_cons]
    refine ⟨by omega, fun p hp => ?_⟩
    rcases mem_cons.mp hp with rfl | hp
    · change (total s + added (s, r)).natAbs ≤ _
      omega
    · have hp := hturns p hp
      omega

theorem next_le {e : Edge Fabric Call} (hn : Next e.pre e.label e.post) :
    (total e.post).natAbs ≤ (total e.pre).natAbs + spent added e ∧
      ∀ p ∈ receiptTurns e, (total p.1 + added p).natAbs ≤ (total e.pre).natAbs + spent added e := by
  obtain ⟨s, c, t⟩ := e
  change Next s c t at hn
  by_cases hc : ∃ receipts, c = .op (.applyCommitReceipt receipts)
  · obtain ⟨receipts, rfl⟩ := hc
    cases hn
    exact h.turns_le receipts.receipts s
  · have hnone : receiptTurns ⟨s, c, t⟩ = [] := by
      unfold receiptTurns
      split
      · next receipts heq => exact absurd ⟨receipts, heq⟩ hc
      · rfl
    refine ⟨?_, fun p hp => by rw [hnone] at hp; cases hp⟩
    rw [h.other hn (not_exists.mp hc)]
    exact Nat.le_add_right _ _

/-- The sums along a run stay within what all its receipts add. -/
theorem run_le {cfg : Config} {clock : TimePoint} {hist : History} {s : Fabric}
    (hr : Run Next (Fabric.init cfg clock) hist s) : (total s).natAbs ≤ (hist.map (spent added)).sum ∧
      ∀ e ∈ hist, ∀ p ∈ receiptTurns e, (total p.1 + added p).natAbs ≤ (hist.map (spent added)).sum := by
  induction hr with
  | nil =>
    rw [h.init]
    exact ⟨Nat.zero_le _, fun e he => by cases he⟩
  | @snoc t u hist l _ hn ih =>
    obtain ⟨htotal, hturns⟩ := ih
    obtain ⟨hend, hlast⟩ := h.next_le (e := ⟨t, l, u⟩) hn
    change (total u).natAbs ≤ (total t).natAbs + _ at hend
    change ∀ p ∈ _, _ ≤ (total t).natAbs + _ at hlast
    rw [map_append, sum_append, map_singleton, sum_singleton]
    refine ⟨by omega, fun e he p hp => ?_⟩
    rcases mem_append.mp he with he | he
    · have hle := hturns e he p hp
      omega
    · obtain rfl := mem_singleton.mp he
      have hle := hlast p hp
      omega

end SumsUp

theorem finalize_totals (s : Fabric) (x : Seq) (r : MemberReceipt) :
    (s.finalize x r).stats.totalActiveNs = s.stats.totalActiveNs + r.activeNs ∧
      (s.finalize x r).stats.totalInterTokenNs =
        if x.lastTokenAt ≠ 0 then s.stats.totalInterTokenNs + (s.finishTime r - x.lastTokenAt)
        else s.stats.totalInterTokenNs := by
  have hmeter : (s.finalize x r).tally.2 =
      ((s.modifySeq r.sequence (commitToken (s.finishTime r) r)).countToken x r).tally.2 := by
    unfold finalize
    rw [(closeTransaction_quiet ..).tally]
    split <;> rfl
  exact ⟨congrArg Meter.totalActiveNs hmeter, congrArg Meter.totalInterTokenNs hmeter⟩

theorem applyReceipt_totals (s : Fabric) (r : MemberReceipt) :
    (s.applyReceipt r).stats.totalActiveNs = s.stats.totalActiveNs + activeAdded (s, r) ∧
      (s.applyReceipt r).stats.totalInterTokenNs = s.stats.totalInterTokenNs + gapAdded (s, r) := by
  unfold applyReceipt activeAdded gapAdded
  cases s.receiptVerdict r with
  | duplicate | reject request why => exact ⟨(Int.add_zero _).symm, (Int.add_zero _).symm⟩
  | finalize x =>
    obtain ⟨hactive, hgap⟩ := finalize_totals s x r
    refine ⟨hactive, hgap.trans ?_⟩
    simp only
    split
    · rfl
    · exact (Int.add_zero _).symm

theorem next_meter {s t : Fabric} {c : Call} (hn : Next s c t)
    (hc : ∀ receipts, c ≠ .op (.applyCommitReceipt receipts)) :
    t.stats.meter = s.stats.meter := by
  cases hn with
  | tick now => rfl
  | rehash _ _ _ _ => rfl
  | op o => exact exec_meter s fun receipts heq => hc receipts (congrArg Call.op heq)

theorem active_sumsUp : SumsUp (fun s => s.stats.totalActiveNs) activeAdded where
  init _ _ := rfl
  receipt s r := (applyReceipt_totals s r).1
  other hn hc := congrArg Meter.totalActiveNs (next_meter hn hc)

theorem gap_sumsUp : SumsUp (fun s => s.stats.totalInterTokenNs) gapAdded where
  init _ _ := rfl
  receipt s r := (applyReceipt_totals s r).2
  other hn hc := congrArg Meter.totalInterTokenNs (next_meter hn hc)

theorem fits_of_natAbs {v : Int} (h : v.natAbs < 2 ^ 63) : TimeFits v := by
  unfold TimeFits
  omega

/-! Runs. -/

/-- The receipts of a call meet sequences and a clock with timestamps. -/
theorem receipt_turn_timed {e : Edge Fabric Call} (ht : Timely e) (h : e.pre.AllSeqs Seq.Timed)
    {p : Fabric × MemberReceipt} (hp : p ∈ receiptTurns e) :
    p.1.AllSeqs Seq.Timed ∧ IsTimestamp (p.1.finishTime p.2) := by
  unfold receiptTurns at hp
  split at hp
  · next receipts hlabel =>
    have hbrought : ∀ r ∈ receipts.receipts, r.committedAt ∈ timesOf e := by
      intro r hr
      rw [timesOf, hlabel]
      exact mem_cons_of_mem _ (mem_map_of_mem hr)
    have hturn : ∀ (u : Fabric) r, r ∈ receipts.receipts → IsTimestamp u.clock ∧ u.AllSeqs Seq.Timed →
        IsTimestamp (u.applyReceipt r).clock ∧ (u.applyReceipt r).AllSeqs Seq.Timed := by
      rintro u r hr ⟨hclock, hseqs⟩
      have hsteps : Steps (Act.TimedBy (timesOf e) 0) u (u.applyReceipt r) := by
        refine (u.applyReceipt_steps hr).mono fun a ha => ?_
        cases a with
        | finalize r => exact hbrought r ha
        | _ => exact False.elim ha
      exact ⟨TimedBy.clock_eq hsteps ▸ hclock, TimedBy.timed ht.1 hsteps (by decide) hclock hseqs⟩
    obtain ⟨hclock, hseqs⟩ := invariant_at_turn hturn ⟨ht.1 _ mem_cons_self, h⟩ p hp
    exact ⟨hseqs, (ht.1 _ (hbrought _ (mem_of_mem_turns hp))).finishTime hclock⟩
  · cases hp

theorem receiptTimes_fit {s : Fabric} {r : MemberReceipt} (h : s.AllSeqs Seq.Timed)
    (hfin : IsTimestamp (s.finishTime r))
    (hactive : (s.stats.totalActiveNs + activeAdded (s, r)).natAbs < 2 ^ 63)
    (hgap : (s.stats.totalInterTokenNs + gapAdded (s, r)).natAbs < 2 ^ 63) {v : Nanoseconds}
    (hv : v ∈ s.receiptTimes r) :
    TimeFits v := by
  unfold receiptTimes at hv
  unfold activeAdded at hactive
  unfold gapAdded at hgap
  split at hv
  · next x hfinal =>
    simp only [hfinal] at hactive hgap
    have hx := (receiptVerdict_finalize hfinal).seq
    rcases mem_cons.mp hv with rfl | hv
    · exact fits_of_natAbs hactive
    · split at hv
      · next hlast =>
        rw [if_pos hlast] at hgap
        rcases mem_cons.mp hv with rfl | hv
        · exact hfin.sub_fits (h _ x hx).token
        · rw [mem_singleton.mp hv]
          exact fits_of_natAbs hgap
      · cases hv
  · cases hv

/-- In a run whose times are all those of a clock that started at zero, and in which the active times and the gaps
    between tokens add up to less than `2 ^ 63`, no arithmetic on times overflows. -/
theorem times_fit_when {h : History} {s : Fabric} (hr : RunsTo h s) (ht : ∀ e ∈ h, Timely e)
    (hactive : (h.map (spent activeAdded)).sum < 2 ^ 63) (hgap : (h.map (spent gapAdded)).sum < 2 ^ 63) :
    ∀ e ∈ h, ∀ v ∈ timesTaken e, TimeFits v := by
  intro e he v hv
  obtain ⟨htimed, -⟩ := (transition_invariant (I := fun u => u.AllSeqs Seq.Timed) init_allSeqs
    (fun e hn h0 ht hpre => next_timed hn h0 ht hpre) hr ht).2 e he
  obtain ⟨cfg, clock, hrun⟩ := hr
  unfold timesTaken at hv
  split at hv
  · next tn hlabel =>
    obtain ⟨x, hx, hv⟩ := mem_flatMap.mp hv
    obtain ⟨⟨q, hq⟩, hinTime⟩ := scored_due hx
    have htn : tn ∈ timesOf e := by
      rw [timesOf, hlabel]
      exact mem_cons_of_mem _ mem_cons_self
    exact scoringTimes_fit ((ht e he).1 tn htn) (htimed q x hq) hinTime hv
  · obtain ⟨p, hp, hv⟩ := mem_flatMap.mp hv
    obtain ⟨hseqs, hfin⟩ := receipt_turn_timed (ht e he) htimed hp
    exact receiptTimes_fit hseqs hfin (Nat.lt_of_le_of_lt ((active_sumsUp.run_le hrun).2 e he p hp) hactive)
      (Nat.lt_of_le_of_lt ((gap_sumsUp.run_le hrun).2 e he p hp) hgap) hv
  · cases hv

namespace Sample

/-- A request that arrives at 5 and is due at 100; its first token is committed at 9. -/
def timed : List Op :=
  [.registerWorker (worker 1 1), .submit { request with arrival := 5, deadline := 100 }, .schedule 7,
    .authorizePrepared prepared, .applyCommitReceipt { receipts := [{ receipt with activeNs := 2, committedAt := 9 }] },
    .schedule 12]

/-- A request from as long ago as the wire can say. -/
def ancient : DecodeRequest := { request with arrival := -2 ^ 63 }

end Sample

theorem times_fit_timed : (trace start timed).flatMap timesTaken = [2, 2, 95, 2, 3, 7, 95] ∧
      ∀ e ∈ trace start timed, ∀ v ∈ timesTaken e, TimeFits v :=
  ⟨by decide, times_fit_when (runsTo timed) (by decide) (by decide) (by decide)⟩

/-- The difference between the first tick and a decoded arrival does not fit. -/
theorem times_overflow : decodeSubmitRequest (encodeSubmitRequest ancient) = .ok ancient ∧
      ((start.exec (.registerWorker (worker 1 1))).submit ancient).2.admitted = true ∧
      ∃ v ∈ (trace start
        [.registerWorker (worker 1 1), .submit ancient, .schedule 1]).flatMap timesTaken, ¬ TimeFits v := by
  have hfits : ancient.Fits (2 ^ 32 - 1) := ⟨by decide, by decide, by decide, by decide, by decide, by decide⟩
  exact ⟨decodes (coded_submitRequest (by decide) hfits) (by decide), by decide, 2 ^ 63 + 1, by decide, by decide⟩

end DecodeFabric
