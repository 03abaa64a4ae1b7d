import DecodeFabric.System
import DecodeFabric.Verdicts

/- What an operation can do, in small steps.

   Every operation of the fabric is a sequence of `Micro` steps: one change of one sequence
   (`SeqOp`), the admission of a sequence, a dispatch id taken, a grant issued, spent or
   aborted, a change of epoch, boot table, clock or enumeration order, or a mere note in
   the statistics and the event log. `Fabric.books` is
   the part of the state the protocol results are about besides the sequences; a step says
   what becomes of the sequence table and of the books, everything else being bookkeeping.

   What a micro step makes of one sequence and of one ledger entry is said once, forwards and
   backwards (`Micro.seq_after`, `Micro.seq_before`, `Micro.entry_after`, `Micro.entry_before`).

   `Steps A s t`: `t` is reached from `s` by micro steps labelled in `A`. Invariants are proved
   once per micro step and carried to the operations by `Steps.invariant`. -/
namespace DecodeFabric
open Lib Table DecodeFabric.Seq
variable {i : GrantId} {rec rec' : GrantRecord} {x y : Seq} {P : Seq → Prop} {q : SequenceId}

/-! The changes of one sequence. -/

namespace Seq

def release (x : Seq) : Seq := { x with reservation := 0 }

/-- `apply_noncommit_outcome` on the member's own sequence. -/
def noncommit (cfg : Config) (attempt : AttemptId) (now : TimePoint) (mo : MemberOutcome) (x : Seq) : Seq :=
  match mo.kind with
  | .yielded => { (x.moveTo .stepCompleted).moveTo .yielded with readyAt := mo.finishedAt }
  | .retryableFailure =>
    let y := if x.machine = .dispatched then x.moveTo .retryableFailure else x
    if x.attemptCount ≥ cfg.retryPolicy.maxAttempts then y.moveTo .nonRetryableFailure
    else (if cfg.retryPolicy.preserveCommittedTokens then y else y.rollBack).beginAttempt attempt now
  | .nonRetryableFailure => if x.machine = .dispatched then x.moveTo .nonRetryableFailure else x
  | .cancelled => if x.machine.isTerminal then x else x.moveTo .cancelled
  | .expired => if x.machine.isTerminal then x else x.moveTo .deadlineExpired
  | .stepSuccessContinue | .stepSuccessTerminal | .staleAuthorityRejected | .undeclared _ => x

/-- Everything a non-committing outcome does to the member's own sequence. -/
def resolve (cfg : Config) (attempt : AttemptId) (now : TimePoint) (mo : MemberOutcome) (x : Seq) : Seq :=
  x.endDispatch.release.noncommit cfg attempt now mo

/-- Everything a finalized receipt does to its sequence. -/
def finish (fin : TimePoint) (r : MemberReceipt) (x : Seq) : Seq :=
  ((x.commitToken fin r).settle fin r).endDispatch.release.clearGrant

end Seq

/-- A non-committing outcome changes lifecycle, times and attempt, and may roll tokens and budget back; the
    attempt is minted anew only after a retryable failure. -/
theorem Seq.noncommit_shape (cfg : Config) (a : AttemptId) (now : TimePoint) (mo : MemberOutcome) (x : Seq) :
    ∃ st ready attempt count generated budget,
      x.noncommit cfg a now mo =
        { x with
          machine := st, readyAt := ready, currentAttempt := attempt, attemptCount := count
          generated := generated, budget := budget } ∧
      ((generated = x.generated ∧ budget = x.budget) ∨ (generated = x.committed ∧ budget = x.rebuildBudget)) ∧
      ((attempt = x.currentAttempt ∧ count = x.attemptCount ∧ budget = x.budget) ∨
        (attempt = a ∧ mo.kind = .retryableFailure ∧ ¬ x.attemptCount ≥ cfg.retryPolicy.maxAttempts ∧
          count = x.attemptCount + 1)) := by
  have same : ∀ (p : Prop) st ready, ∃ st' ready' attempt' count' generated budget,
      ({ x with machine := st, readyAt := ready } : Seq) =
        { x with
          machine := st', readyAt := ready', currentAttempt := attempt', attemptCount := count'
          generated := generated, budget := budget } ∧
      ((generated = x.generated ∧ budget = x.budget) ∨ (generated = x.committed ∧ budget = x.rebuildBudget)) ∧
      ((attempt' = x.currentAttempt ∧ count' = x.attemptCount ∧ budget = x.budget) ∨
        (attempt' = a ∧ p ∧ ¬ x.attemptCount ≥ cfg.retryPolicy.maxAttempts ∧ count' = x.attemptCount + 1)) :=
    fun _ st ready => ⟨st, ready, x.currentAttempt, x.attemptCount, _, _, rfl, .inl ⟨rfl, rfl⟩, .inl ⟨rfl, rfl, rfl⟩⟩
  unfold noncommit
  cases mo.kind with
  | yielded => exact same _ _ _
  | retryableFailure =>
    simp only
    by_cases hd : x.machine = .dispatched
    all_goals
      simp only [hd, if_true, if_false]
      split
      · exact same _ _ _
      · next hmax =>
        cases cfg.retryPolicy.preserveCommittedTokens with
        | true => exact ⟨_, _, a, _, _, _, rfl, .inl ⟨rfl, rfl⟩, .inr ⟨rfl, trivial, hmax, rfl⟩⟩
        | false => exact ⟨_, _, a, _, _, _, rfl, .inr ⟨rfl, rfl⟩, .inr ⟨rfl, trivial, hmax, rfl⟩⟩
  | nonRetryableFailure | cancelled | expired => simp only; split <;> exact same _ _ _
  | _ => exact same _ _ _

/-- A finalized receipt counts one token and clears everything in flight. -/
theorem Seq.finish_shape (fin : TimePoint) (r : MemberReceipt) (x : Seq) : ∃ st ready, x.finish fin r =
      { x.commitToken fin r with
        machine := st, readyAt := ready, hasInflight := false, inFlightDispatch := 0, reservation := 0
        hasInflightGrant := false, inFlightGrant := 0, inFlightProposal := 0 } := by
  unfold finish settle
  split
  · exact ⟨(x.machine.move .stepCompleted).move .completed, x.readyAt, rfl⟩
  · exact ⟨(x.machine.move .stepCompleted).move .readyForNextToken, fin, rfl⟩

/-- What a non-committing outcome leaves alone. -/
theorem Seq.resolve_same {α : Type} (f : Seq → α) (hf : ∀ (y : Seq) st ready attempt count generated budget,
      f { y with
        machine := st, readyAt := ready, currentAttempt := attempt, attemptCount := count
        generated := generated, budget := budget } = f y)
    (cfg : Config) (a : AttemptId) (now : TimePoint) (mo : MemberOutcome) (x : Seq) :
    f (x.resolve cfg a now mo) = f x.endDispatch.release := by
  obtain ⟨st, ready, attempt, count, generated, budget, heq, -⟩ := noncommit_shape cfg a now mo x.endDispatch.release
  unfold resolve
  rw [heq, hf]

/-- A non-committing outcome mints an attempt, if there is one left, or leaves attempts and budget. -/
theorem Seq.resolve_counted (cfg : Config) (a : AttemptId) (now : TimePoint) (mo : MemberOutcome) (x : Seq) :
    ((x.resolve cfg a now mo).currentAttempt = x.currentAttempt ∧
    (x.resolve cfg a now mo).attemptCount = x.attemptCount ∧
        (x.resolve cfg a now mo).budget = x.budget) ∨
      ¬ x.attemptCount ≥ cfg.retryPolicy.maxAttempts ∧ (x.resolve cfg a now mo).attemptCount = x.attemptCount + 1 := by
  obtain ⟨st, ready, attempt, count, generated, budget, heq, -, hcount⟩ :=
    noncommit_shape cfg a now mo x.endDispatch.release
  unfold resolve
  rw [heq]
  exact hcount.imp_right fun h => h.2.2

/-- What a finalized receipt leaves as the commit of its token makes it. -/
theorem Seq.finish_same {α : Type} (f : Seq → α) (hf : ∀ (y : Seq) st ready,
    f { y with machine := st, readyAt := ready } = f y)
    (fin : TimePoint) (r : MemberReceipt) (x : Seq) :
    f (x.finish fin r) = f (x.commitToken fin r).endDispatch.release.clearGrant := by
  obtain ⟨st, ready, heq⟩ := finish_shape fin r x
  rw [heq]
  exact hf (x.commitToken fin r).endDispatch.release.clearGrant st ready

inductive SeqOp where
  | release
  | moveTo (st : SequenceState)
  | retire (st : SequenceState)
  | rollBackTokens
  | beginAttempt (attempt : AttemptId) (now : TimePoint)
  | workerDown (now : TimePoint)
  | enterGroup (tn : TimePoint)
  | dispatchUnder (d : Dispatch)
  | disown
  | reconcile (now : TimePoint)
  | resolve (cfg : Config) (attempt : AttemptId) (now : TimePoint) (mo : MemberOutcome)

def SeqOp.apply : SeqOp → Seq → Seq
  | .release, x => x.release
  | .moveTo st, x => x.moveTo st
  | .retire st, x => x.release.moveTo st
  | .rollBackTokens, x => { x with generated := x.committed }
  | .beginAttempt attempt now, x => x.beginAttempt attempt now
  | .workerDown now, x => x.release.workerDown now
  | .enterGroup tn, x => x.enterGroup tn
  | .dispatchUnder d, x => x.dispatchUnder d
  | .disown, x => { x.release with hasInflight := false }
  | .reconcile now, x => x.release.reconcile now
  | .resolve cfg attempt now mo, x => x.resolve cfg attempt now mo

/-! The books. -/

structure Books where
  cfg : Config
  clock : TimePoint
  epoch : CoordinatorEpoch
  workerCurrentBoot : Table WorkerId WorkerBootId
  nextDispatch : Nat
  nextGrant : Nat
  grantLedger : Table GrantId GrantRecord
  receiptCount : Nat
  tenantTokens : Table TenantId UInt64
  decodeSteps : Nat
  generatedTokens : Nat

def Fabric.books (s : Fabric) : Books where
  cfg := s.cfg
  clock := s.clock
  epoch := s.epoch
  workerCurrentBoot := s.workerCurrentBoot
  nextDispatch := s.nextDispatch
  nextGrant := s.nextGrant
  grantLedger := s.grantLedger
  receiptCount := s.receiptCount
  tenantTokens := s.tenantTokens
  decodeSteps := s.stats.decodeSteps
  generatedTokens := s.stats.generatedTokens

/-! Micro steps. -/

inductive Act where
  | note
  | seq (q : SequenceId) (o : SeqOp)
  | enrol (q : SequenceId) (req : DecodeRequest)
  | takeDispatch
  | issue (prepared : PreparedDecode) (pm : PreparedMember)
  | finalize (r : MemberReceipt)
  | abort (q : SequenceId)
  | environment

/-- What is known of sequence `x` when the fabric applies `o` to it. -/
def SeqOp.Guard (s : Fabric) (x : Seq) : SeqOp → Prop
  | .dispatchUnder d => x.budget.exhausted = false ∧ d.id ≠ 0 ∧ s.nextDispatch > d.id
  | .beginAttempt attempt _ => attempt = s.mintAttempt
  | .resolve cfg attempt _ _ =>
    cfg = s.cfg ∧ attempt = s.mintAttempt ∧ x.machine.isTerminal = false ∧ x.machine ≠ .cancelRequested
  | _ => True

inductive Micro : Fabric → Act → Fabric → Prop
  | note {s t : Fabric} : t.seqs = s.seqs → t.books = s.books → Micro s .note t
  | seq {s t : Fabric} {q : SequenceId} {x : Seq} (o : SeqOp) :
      s.seqs.find? q = some x → o.Guard s x →
      t.seqs = s.seqs.modify q o.apply → t.books = s.books → Micro s (.seq q o) t
  | enrol {s t : Fabric} {q : SequenceId} {req : DecodeRequest} :
      s.seqs.find? q = none → req.pregenerated ≤ req.maxGenerationLength →
      t.seqs = s.seqs.insert q (ofRequest req) → t.books = s.books → Micro s (.enrol q req) t
  | takeDispatch {s t : Fabric} :
      t.seqs = s.seqs → t.books = { s.books with nextDispatch := s.nextDispatch + 1 } → Micro s .takeDispatch t
  | issue {s t : Fabric} {x : Seq} (prepared : PreparedDecode) (pm : PreparedMember) :
      s.seqs.find? pm.sequence = some x → s.prepareVerdict x pm = .grant →
      t.seqs = s.seqs.modify pm.sequence (holdGrant s.nextGrant pm) →
      t.books = { s.books with
        nextGrant := s.nextGrant + 1
        grantLedger := s.grantLedger.insert s.nextGrant
          { grant := Fabric.makeGrant s.nextGrant prepared pm } } →
      Micro s (.issue prepared pm) t
  | finalize {s t : Fabric} {x : Seq} (r : MemberReceipt) :
      s.receiptVerdict r = .finalize x →
      t.seqs = s.seqs.modify r.sequence (finish (s.finishTime r) r) →
      t.books = { s.books with
        grantLedger := s.grantLedger.modify r.grantId (GrantRecord.consume r)
        receiptCount := s.receiptCount + 1
        tenantTokens := (s.updateTenantTokens x.req.tenant 1).tenantTokens
        decodeSteps := s.stats.decodeSteps + 1
        generatedTokens := s.stats.generatedTokens + 1 } →
      Micro s (.finalize r) t
  | abort {s t : Fabric} {q : SequenceId} {x : Seq} :
      s.seqs.find? q = some x → x.hasInflightGrant = true →
      t.seqs = s.seqs.modify q (fun y => y.release.abort s.clock) →
      t.books = { s.books with grantLedger := s.grantLedger.modify x.inFlightGrant GrantRecord.abort } →
      Micro s (.abort q) t
  | environment {s t : Fabric} {clock : TimePoint} {epoch : CoordinatorEpoch}
      {boots : Table WorkerId WorkerBootId} :
      t.seqs.Reorder s.seqs →
      t.books = { s.books with clock, epoch, workerCurrentBoot := boots } → Micro s .environment t

/-! What a micro step changes. -/

/-- What the act makes of sequence `q`, found as `x` in `s`. -/
inductive Act.Changes (s : Fabric) (q : SequenceId) (x : Seq) : Act → Seq → Prop
  | seq (o : SeqOp) : o.Guard s x → Changes s q x (.seq q o) (o.apply x)
  | issue (prepared : PreparedDecode) (pm : PreparedMember) :
      pm.sequence = q → s.prepareVerdict x pm = .grant →
      Changes s q x (.issue prepared pm) (x.holdGrant s.nextGrant pm)
  | finalize (r : MemberReceipt) : r.sequence = q → s.receiptVerdict r = .finalize x →
      Changes s q x (.finalize r) (x.finish (s.finishTime r) r)
  | abort : x.hasInflightGrant = true → Changes s q x (.abort q) (x.release.abort s.clock)

/-- What the act makes of an entry of the ledger. -/
inductive Act.Updates (a : Act) (rec : GrantRecord) : GrantRecord → Prop
  | kept : Updates a rec rec
  | consume (r : MemberReceipt) : a = .finalize r → rec.status = .pending → Updates a rec (rec.consume r)
  | abort : Updates a rec rec.abort

theorem GrantRecord.abort_grant (rec : GrantRecord) : rec.abort.grant = rec.grant := by
  unfold abort
  split <;> rfl

theorem Act.Updates.grant {a : Act} (h : a.Updates rec rec') : rec'.grant = rec.grant := by
  cases h with
  | kept => rfl
  | consume r _ _ => rfl
  | abort => exact rec.abort_grant

/-- An entry that is pending was so before. -/
theorem Act.Updates.pending {a : Act} (h : a.Updates rec rec')
    (hp : rec'.status = .pending) : rec.status = .pending := by
  cases h with
  | kept => exact hp
  | consume r _ hpend => exact hpend
  | abort =>
    unfold GrantRecord.abort at hp
    split at hp
    · cases hp
    · exact hp

namespace Micro
variable {s t : Fabric} {a : Act}

theorem nextDispatch_le (hm : Micro s a t) : s.nextDispatch ≤ t.nextDispatch := by
  have same : ∀ b : Books, t.books = b → s.nextDispatch ≤ b.nextDispatch → s.nextDispatch ≤ t.nextDispatch := by
    rintro b rfl hle
    exact hle
  cases hm with
  | takeDispatch _ hb => exact same _ hb (Nat.le_succ _)
  | note _ hb | seq _ _ _ _ hb | enrol _ _ _ hb | issue _ _ _ _ _ hb | finalize _ _ _ hb | abort _ _ _ hb
  | environment _ hb => exact same _ hb (Nat.le_refl _)

theorem nextGrant_le (hm : Micro s a t) : s.nextGrant ≤ t.nextGrant := by
  have same : ∀ b : Books, t.books = b → s.nextGrant ≤ b.nextGrant → s.nextGrant ≤ t.nextGrant := by
    rintro b rfl hle
    exact hle
  cases hm with
  | issue _ _ _ _ _ hb => exact same _ hb (Nat.le_succ _)
  | note _ hb | seq _ _ _ _ hb | enrol _ _ _ hb | takeDispatch _ hb | finalize _ _ _ hb | abort _ _ _ hb
  | environment _ hb => exact same _ hb (Nat.le_refl _)

theorem cfg (hm : Micro s a t) : t.cfg = s.cfg := by
  cases hm with
  | note _ hb | seq _ _ _ _ hb | enrol _ _ _ hb | takeDispatch _ hb | issue _ _ _ _ _ hb | finalize _ _ _ hb
  | abort _ _ _ hb | environment _ hb => exact congrArg Books.cfg hb

/-- A sequence is left as it is or changed by the act. -/
theorem seq_after (hm : Micro s a t) (hx : s.seqs.find? q = some x) :
    ∃ y, t.seqs.find? q = some y ∧ (y = x ∨ a.Changes s q x y) := by
  -- the act changes sequence `j`, which may be this one
  have changed : ∀ {j : SequenceId} {z : Seq} {f : Seq → Seq}, s.seqs.find? j = some z →
      t.seqs = s.seqs.modify j f → a.Changes s j z (f z) →
      ∃ y, t.seqs.find? q = some y ∧ (y = x ∨ a.Changes s q x y) := by
    intro j z f hj hs hc
    rw [hs, find?_modify]
    split
    · next hqj =>
      subst hqj
      cases hx.symm.trans hj
      exact ⟨f x, by rw [hx]; rfl, .inr hc⟩
    · exact ⟨x, hx, .inl rfl⟩
  cases hm with
  | note hs _ | takeDispatch hs _ => exact ⟨x, hs ▸ hx, .inl rfl⟩
  | environment hs _ => exact ⟨x, (find?_reorder hs q).trans hx, .inl rfl⟩
  | enrol hj _ hs _ =>
    refine ⟨x, ?_, .inl rfl⟩
    rw [hs, find?_insert_ne (fun heq => ?_)]
    · exact hx
    · rw [← heq, hx] at hj
      cases hj
  | seq o hj hg hs _ => exact changed hj hs (.seq o hg)
  | issue prepared pm hj hv hs _ => exact changed hj hs (.issue prepared pm rfl hv)
  | finalize r hv hs _ => exact changed (Fabric.receiptVerdict_finalize hv).seq hs (.finalize r rfl hv)
  | abort hj hh hs _ => exact changed hj hs (.abort hh)

/-- A sequence that was not there has been admitted. -/
theorem seq_new (hm : Micro s a t) (hx : s.seqs.find? q = none) (hy : t.seqs.find? q = some y) :
    ∃ req, a = .enrol q req ∧ req.pregenerated ≤ req.maxGenerationLength ∧ y = ofRequest req := by
  have absent : t.seqs.find? q = none →
      ∃ req, a = .enrol q req ∧ req.pregenerated ≤ req.maxGenerationLength ∧ y = ofRequest req := by
    intro hnone
    rw [hnone] at hy
    cases hy
  cases hm with
  | note hs _ | takeDispatch hs _ => exact absent (hs ▸ hx)
  | environment hs _ => exact absent ((find?_reorder hs q).trans hx)
  | seq o _ _ hs _ | issue prepared pm _ _ hs _ | finalize r _ hs _ | abort _ _ hs _ =>
    exact absent (hs ▸ find?_modify_eq_none_iff.mpr hx)
  | enrol _ hreq hs _ =>
    rw [hs, find?_insert] at hy
    split at hy
    · next hq =>
      subst hq
      cases hy
      exact ⟨_, rfl, hreq, rfl⟩
    · rw [hx] at hy
      cases hy

/-- Where a sequence comes from. -/
theorem seq_before (hm : Micro s a t) (hy : t.seqs.find? q = some y) :
    s.seqs.find? q = some y ∨ (∃ x, s.seqs.find? q = some x ∧ a.Changes s q x y) ∨
      ∃ req, a = .enrol q req ∧ req.pregenerated ≤ req.maxGenerationLength ∧ y = ofRequest req := by
  cases hx : s.seqs.find? q with
  | none => exact .inr (.inr (hm.seq_new hx hy))
  | some x =>
    obtain ⟨y', hy', hc⟩ := hm.seq_after hx
    cases hy.symm.trans hy'
    rcases hc with rfl | hc
    · exact .inl rfl
    · exact .inr (.inl ⟨x, rfl, hc⟩)

/-- The ledger gains the grant just issued, or one of its entries is updated. -/
theorem ledger (hm : Micro s a t) :
    (∃ prepared pm, a = .issue prepared pm ∧ t.grantLedger = s.grantLedger.insert s.nextGrant
      { grant := Fabric.makeGrant s.nextGrant prepared pm }) ∨
    ∃ i f, t.grantLedger = s.grantLedger.modify i f ∧
      ∀ rec, s.grantLedger.find? i = some rec → a.Updates rec (f rec) := by
  have same : ∀ b : Books, t.books = b → b.grantLedger = s.grantLedger →
      ∃ i f, t.grantLedger = s.grantLedger.modify i f ∧
        ∀ rec, s.grantLedger.find? i = some rec → a.Updates rec (f rec) := by
    intro b hb hled
    exact ⟨0, id, by rw [modify_id]; exact (congrArg Books.grantLedger hb).trans hled, fun _ _ => .kept⟩
  cases hm with
  | note _ hb | seq _ _ _ _ hb | enrol _ _ _ hb | takeDispatch _ hb | environment _ hb => exact .inr (same _ hb rfl)
  | issue prepared pm _ _ _ hb => exact .inl ⟨prepared, pm, rfl, congrArg Books.grantLedger hb⟩
  | finalize r hv _ hb =>
    refine .inr ⟨r.grantId, _, congrArg Books.grantLedger hb, fun rec hrec => .consume r rfl ?_⟩
    obtain ⟨rec', hrec', hpend, -⟩ := (Fabric.receiptVerdict_finalize hv).grant
    cases hrec.symm.trans hrec'
    exact hpend
  | abort _ _ _ hb => exact .inr ⟨_, _, congrArg Books.grantLedger hb, fun _ _ => .abort⟩

theorem entry_after (hm : Micro s a t) (hi : s.grantLedger.find? i = some rec)
    (hne : i ≠ s.nextGrant) : ∃ rec', t.grantLedger.find? i = some rec' ∧ a.Updates rec rec' := by
  rcases hm.ledger with ⟨prepared, pm, -, hled⟩ | ⟨j, f, hled, hf⟩
  · rw [hled, find?_insert_ne hne]
    exact ⟨rec, hi, .kept⟩
  · rw [hled, find?_modify]
    split
    · next hij => exact ⟨f rec, by rw [hi]; rfl, hf rec (hij ▸ hi)⟩
    · exact ⟨rec, hi, .kept⟩

theorem entry_before (hm : Micro s a t) (hi : t.grantLedger.find? i = some rec') :
    (∃ rec, s.grantLedger.find? i = some rec ∧ a.Updates rec rec') ∨
      ∃ prepared pm, a = .issue prepared pm ∧ i = s.nextGrant ∧
        rec' = { grant := Fabric.makeGrant s.nextGrant prepared pm } := by
  rcases hm.ledger with ⟨prepared, pm, ha, hled⟩ | ⟨j, f, hled, hf⟩
  · rw [hled, find?_insert] at hi
    split at hi
    · next hnew => exact .inr ⟨prepared, pm, ha, hnew, (Option.some.inj hi).symm⟩
    · exact .inl ⟨rec', hi, .kept⟩
  · rw [hled] at hi
    rcases find?_modify_cases hi with ⟨rfl, rec, hrec, rfl⟩ | ⟨-, hi⟩
    · exact .inl ⟨rec, hrec, hf rec hrec⟩
    · exact .inl ⟨rec', hi, .kept⟩

end Micro

/-! Properties of every sequence. -/

def Fabric.AllSeqs (s : Fabric) (P : Seq → Prop) : Prop := ∀ q x, s.seqs.find? q = some x → P x

/-- `P` is kept by every change of a sequence that a micro step labelled in `A` can make. -/
structure Kept (A : Act → Prop) (P : Seq → Prop) : Prop where
  seq : ∀ {s : Fabric} {q : SequenceId} {x : Seq} {o : SeqOp}, A (.seq q o) → o.Guard s x → P x → P (o.apply x)
  enrol : ∀ {req : DecodeRequest}, req.pregenerated ≤ req.maxGenerationLength → P (ofRequest req)
  issue : ∀ {s : Fabric} {x : Seq} {prepared : PreparedDecode} {pm : PreparedMember}, A (.issue prepared pm) →
    s.prepareVerdict x pm = .grant → P x → P (x.holdGrant s.nextGrant pm)
  finalize : ∀ {s : Fabric} {x : Seq} {r : MemberReceipt}, s.receiptVerdict r = .finalize x → P x →
    P (x.finish (s.finishTime r) r)
  abort : ∀ {x : Seq} {now : TimePoint}, x.hasInflightGrant = true → P x → P (x.release.abort now)

theorem Fabric.AllSeqs.modify {s t : Fabric} {f : Seq → Seq}
    (h : s.AllSeqs P) (hq : s.seqs.find? q = some x) (hs : t.seqs = s.seqs.modify q f) (hf : P (f x)) :
    t.AllSeqs P := by
  intro j y hy
  rw [hs] at hy
  rcases find?_modify_of_some hq hy with ⟨rfl, rfl⟩ | ⟨-, hy⟩
  · exact hf
  · exact h j y hy

theorem micro_allSeqs {A : Act → Prop} (hP : Kept A P) {s t : Fabric} {a : Act}
    (hm : Micro s a t) (ha : a = .note ∨ A a) (h : s.AllSeqs P) : t.AllSeqs P := by
  have hA : a ≠ .note → A a := ha.resolve_left
  intro q y hy
  rcases hm.seq_before hy with hsame | ⟨x, hx, hc⟩ | ⟨req, -, hreq, rfl⟩
  · exact h q y hsame
  · have hpx := h q x hx
    cases hc with
    | seq o hg => exact hP.seq (hA (by simp)) hg hpx
    | issue prepared pm _ hv => exact hP.issue (hA (by simp)) hv hpx
    | finalize r _ hv => exact hP.finalize hv hpx
    | abort hh => exact hP.abort hh hpx
  · exact hP.enrol hreq

/-! Sequences of micro steps. -/

/-- `t` is reached from `s` by notes and micro steps whose labels are in `A`. -/
def Steps (A : Act → Prop) (s t : Fabric) : Prop :=
  ∃ m : List (Edge Fabric Act), Run Micro s m t ∧ ∀ a ∈ m, a.label = .note ∨ A a.label

namespace Steps
variable {A B : Act → Prop} {s t u : Fabric}

theorem refl (A : Act → Prop) (s : Fabric) : Steps A s s := Lib.Path.refl _ s

theorem single {a : Act} (h : Micro s a t) (ha : A a) : Steps A s t := Path.single h (.inr ha)

/-- Nothing the micro steps speak about has changed. -/
theorem quiet (A : Act → Prop) (hs : t.seqs = s.seqs) (hb : t.books = s.books) : Steps A s t :=
  Path.single (.note hs hb) (.inl rfl)

/-- One change of one sequence, if the sequence is there. -/
theorem ofSeq (o : SeqOp) (hs : t.seqs = s.seqs.modify q o.apply) (hb : t.books = s.books)
    (hg : ∀ x, s.seqs.find? q = some x → o.Guard s x) (ha : A (.seq q o)) : Steps A s t := by
  cases hq : s.seqs.find? q with
  | none => exact quiet A (hs.trans (modify_of_none hq _)) hb
  | some x => exact single (.seq o hq (hg x hq) hs hb) ha

theorem trans (h₁ : Steps A s t) (h₂ : Steps A t u) : Steps A s u := Lib.Path.trans h₁ h₂

theorem mono (hAB : ∀ a, A a → B a) (h : Steps A s t) : Steps B s t :=
  Path.mono (fun e he => he.imp_right (hAB e.label)) h

/-- A loop whose turns are micro steps. -/
theorem foldl {α : Type} {f : Fabric → α → Fabric} {l : List α} (h : ∀ s, ∀ x ∈ l, Steps A s (f s x))
    (s : Fabric) : Steps A s (l.foldl f s) :=
  Path.foldl fun p hp => h p.1 p.2 (mem_of_mem_turns hp)

/-- What notes and micro steps labelled in `A` keep, `Steps A` keeps. -/
theorem invariant {I : Fabric → Prop} (hI : ∀ {s t : Fabric} {a : Act}, Micro s a t → a = .note ∨ A a → I s → I t)
    (h : Steps A s t) (hs : I s) : I t :=
  Path.invariant (fun _ hm he hi => hI hm he hi) h hs

end Steps
end DecodeFabric
