import DecodeFabric.Accounts

/- What the operations do to memory, slots and records.

   Micro steps say what becomes of the sequences and of the protocol's books. The rest of the state is what the
   fabric has to account for: device memory and reservations, the load of the workers, the tenants' slots, and the
   records and counts of ended sequences. `Fabric.holdings` is that part.

   A `Deed` is the smallest thing an operation does to it: a change of one sequence together with what is paid for it
   at once (its reservation freed, its tenant's slot freed, an end recorded), the admission of a sequence, a group
   sent out, a worker registered or lost. `Performs` lists what each operation may do and what is known when it
   does it, in the words of the operation's checks, and `exec_deeds` shows that every operation is a sequence of
   such deeds. The results on memory, slots and records argue about deeds, so they also hold in the middle of an
   operation. -/
namespace DecodeFabric
open Lib Table Fabric DecodeFabric.Seq
variable {u v : Fabric} {p : Fabric × SequenceId} {I : Fabric → Prop} {g : Formed} {f : Forming}
  {cands : List Candidate} {mo : MemberOutcome} {o : Op} {st : SequenceState}

/-! Holdings. -/

/-- What the fabric records of ended sequences. -/
structure Records where
  terminalRecords : Table SequenceId SequenceState
  completed : Nat
  cancelled : Nat
  expired : Nat
  failed : Nat

/-- State `st` is entered as the end of `q`, and counted. -/
def Records.enter (r : Records) (q : SequenceId) (st : SequenceState) : Records where
  terminalRecords := r.terminalRecords.insert q st
  completed := r.completed + if st = .completed then 1 else 0
  cancelled := r.cancelled + if st = .cancelled then 1 else 0
  expired := r.expired + if st = .deadlineExpired then 1 else 0
  failed := r.failed + if st = .nonRetryableFailure then 1 else 0

structure Holdings where
  cfg : Config
  nextDispatch : Nat
  accounts : Accounts
  records : Records

/-- The end that is entered for a sequence, if one is. -/
abbrev TerminalEntry := Option (SequenceId × SequenceState)

namespace Holdings

/-- What is paid for a change of sequence `x`: its reservation is given back (`free`), its tenant's slot is
    given back (`slot`), the end of a sequence is entered. -/
def pay (h : Holdings) (x : Seq) (free slot : Bool) (entry : TerminalEntry) : Holdings :=
  let a := if slot then h.accounts.releaseSlot x.req.tenant else h.accounts
  { h with
    accounts := if free then a.release x.reservation else a
    records := match entry with
      | none => h.records
      | some (q, st) => h.records.enter q st }

/-- A group is charged: reservation `res` is entered and worker `wk` has one more. -/
def charge (h : Holdings) (res : Reservation) (wk : WorkerId) : Holdings :=
  let a := h.accounts
  let dm := a.devMem.getD res.device {}
  { h with
    nextDispatch := h.nextDispatch + 1
    accounts :=
      { workers := a.workers.modify wk .charged
        devMem := a.devMem.insert res.device { dm with reserved := dm.reserved + res.bytes }
        tenantActive := a.tenantActive
        reservations := a.reservations.insert a.nextReservation res
        nextReservation := a.nextReservation + 1 } }

/-- Tenant `t` has one sequence more. -/
def takeSlot (h : Holdings) (t : TenantId) : Holdings :=
  { h with
    accounts :=
      { h.accounts with tenantActive := h.accounts.tenantActive.insert t (h.accounts.tenantActive.getD t 0 + 1) } }

/-- A worker comes up, with its device. -/
def register (h : Holdings) (wd : WorkerDescriptor) : Holdings :=
  let dm := h.accounts.devMem.getD wd.device.id {}
  { h with
    accounts :=
      { h.accounts with
        workers := h.accounts.workers.insert wd.id wd
        devMem := h.accounts.devMem.insert wd.device.id
          { dm with
            capacity := max dm.capacity wd.device.memoryBytes
            headroomFloor := h.cfg.limits.memoryHeadroomBytes } } }

/-- A worker goes down. -/
def lose (h : Holdings) (id : WorkerId) : Holdings :=
  { h with
    accounts :=
      { h.accounts with
        workers := h.accounts.workers.modify id .down } }

end Holdings

namespace Fabric

def records (s : Fabric) : Records where
  terminalRecords := s.terminalRecords
  completed := s.stats.sequencesCompleted
  cancelled := s.stats.sequencesCancelled
  expired := s.stats.sequencesExpired
  failed := s.stats.sequencesFailed

def holdings (s : Fabric) : Holdings where
  cfg := s.cfg
  nextDispatch := s.nextDispatch
  accounts := s.accounts
  records := s.records

end Fabric

/-! Deeds. -/

inductive Deed where
  | note
  | change (q : SequenceId) (f : Seq → Seq) (free slot : Bool) (entry : TerminalEntry)
  | enrol (q : SequenceId) (req : DecodeRequest)
  | send (members : List SequenceId) (d : Dispatch) (res : Reservation) (wk : WorkerId)
  | register (wd : WorkerDescriptor)
  | lose (id : WorkerId)
  | shuffle

inductive Does : Fabric → Deed → Fabric → Prop
  | note {s t : Fabric} : t.seqs = s.seqs → t.holdings = s.holdings → Does s .note t
  | change {s t : Fabric} {q : SequenceId} {x : Seq} {f : Seq → Seq} {free slot : Bool}
      {entry : TerminalEntry} :
      s.seqs.find? q = some x → t.seqs = s.seqs.modify q f → t.holdings = s.holdings.pay x free slot entry →
      Does s (.change q f free slot entry) t
  | enrol {s t : Fabric} {q : SequenceId} {req : DecodeRequest} :
      s.seqs.find? q = none → t.seqs = s.seqs.insert q (ofRequest req) →
      t.holdings = s.holdings.takeSlot req.tenant → Does s (.enrol q req) t
  | send {s t : Fabric} {members : List SequenceId} {d : Dispatch} {res : Reservation} {wk : WorkerId} :
      t.seqs = members.foldl (fun u m => u.modify m (dispatchUnder d)) s.seqs →
      t.holdings = s.holdings.charge res wk → Does s (.send members d res wk) t
  | register {s t : Fabric} {wd : WorkerDescriptor} :
      t.seqs = s.seqs → t.holdings = s.holdings.register wd → Does s (.register wd) t
  | lose {s t : Fabric} {id : WorkerId} :
      t.seqs = s.seqs → t.holdings = s.holdings.lose id → Does s (.lose id) t
  | shuffle {s t : Fabric} {workers : Table WorkerId WorkerDescriptor} :
      t.seqs.Reorder s.seqs → workers.Reorder s.workers →
      t.holdings = { s.holdings with accounts := { s.accounts with workers } } → Does s .shuffle t

/-! What an operation may do. -/

/-- The committed tokens a retry goes on from. -/
def Seq.preserved (cfg : Config) (x : Seq) : Seq :=
  if cfg.retryPolicy.preserveCommittedTokens then x else { x with generated := x.committed }

/-- A retry is possible from here. -/
def SequenceState.retryable (st : SequenceState) : Prop := st = .retryableFailure ∨ st = .running ∨ st = .dispatched

/-- A cancellation waits for the next boundary. -/
def SequenceState.deferred (st : SequenceState) : Prop :=
  st = .dispatched ∨ st = .running ∨ st = .reserved ∨ st = .grouped

/-- The time at which an operation processes deadlines and requested cancellations. -/
def Op.boundaryAt : Op → Option TimePoint
  | .advance tn => some tn
  | .schedule tn => some tn
  | _ => none

/-- The operation cancels `q`. -/
inductive Op.Cancels (s : Fabric) (q : SequenceId) : Op → Prop
  | cancel : Cancels s q (.cancel q)
  | cancelRequest {r : RequestId} : s.reqToSeq.find? r = some q → Cancels s q (.cancelRequest r)

/-- The end a non-committing outcome records. -/
def endRecorded (cfg : Config) (x : Seq) (mo : MemberOutcome) : TerminalEntry :=
  match mo.kind with
  | .retryableFailure =>
    if x.attemptCount ≥ cfg.retryPolicy.maxAttempts then some (mo.sequence, .nonRetryableFailure) else none
  | .nonRetryableFailure => some (mo.sequence, .nonRetryableFailure)
  | .cancelled => some (mo.sequence, .cancelled)
  | .expired => some (mo.sequence, .deadlineExpired)
  | _ => none

/-- A non-committing outcome that gives the tenant's slot back. -/
def slotReturned (mo : MemberOutcome) : Bool :=
  decide (mo.kind = .nonRetryableFailure ∨ mo.kind = .cancelled ∨ mo.kind = .expired)

/-- The turns of an operation in which outcome `mo` is applied to sequence `q`, found as `x` in `u`. -/
inductive Resolves (s : Fabric) (q : SequenceId) (x : Seq) (mo : MemberOutcome) (u : Fabric) : Op → Prop
  | completion {result : DecodeExecutionResult} :
      (u, mo) ∈ turns (applyOutcome result) s result.outcomes → mo.sequence = q →
      u.seqs.find? q = some x → u.completionVerdict result x mo = .apply →
      Resolves s q x mo u (.applyCompletion result)
  | prepared {prepared : PreparedDecode} {pm : PreparedMember} :
      (u, pm) ∈ turns (fun t pm => (authorizeMember prepared t pm).1) s prepared.members → pm.sequence = q →
      pm.outcome = mo → u.seqs.find? q = some x → u.prepareVerdict x pm = .noncommit →
      Resolves s q x mo u (.authorizePrepared prepared)

theorem Resolves.found {s u : Fabric} {q : SequenceId} {x : Seq} {mo : MemberOutcome} {o : Op}
    (h : Resolves s q x mo u o) :
    u.seqs.find? q = some x := by
  cases h with
  | completion _ _ hx _ | prepared _ _ _ hx _ => exact hx

/-- A group leaves: its members are candidates of the tick, the worker is eligible, the device has room. -/
structure Sending (s : Fabric) (tn : TimePoint) (u : Fabric) (members : List SequenceId) (d : Dispatch)
    (res : Reservation) (wk : WorkerId) : Prop where
  nonempty : members ≠ []
  nodup : members.Nodup
  limit : members.length ≤ max 1 s.cfg.groupLimits.maxSequences.toNat
  member : ∀ m ∈ members, ∃ x, s.Due tn m x ∧ (s.keyForModel x.req).toText = d.key.toText ∧
    u.seqs.find? m = some (x.enterGroup tn)
  worker : ∃ w, u.chooseWorker d.key = some (wk, w) ∧ d.worker = w.id ∧ d.device = w.device
  room : memoryRefused (u.devMem.getD d.device.id {}) res.bytes = false
  bytes : res.bytes = u.groupGrowth members
  device : res.device = d.device.id
  live : res.released = false
  id : d.id = u.nextDispatch
  reservation : d.reservation = u.nextReservation
  listed : d ∈ (s.schedule tn).2 ∧ d.members = members.map u.specOf

/-- What an operation called on `s` may do when the fabric has come to `u`. -/
inductive Performs (s : Fabric) : Op → Fabric → Deed → Prop
  | note {o : Op} {u : Fabric} : Performs s o u .note
  | enrol {inp : DecodeRequest} {u : Fabric} {q : SequenceId} :
      inp.validate = .ok () → (s.buildKey inp).model ≠ 0 → s.backpressure (s.buildKey inp) = none → u.seqs = s.seqs →
      Performs s (.submit inp) u (.enrol q (s.buildKey inp))
  | cancelLater {o : Op} {q : SequenceId} {x : Seq} : o.Cancels s q → s.seqs.find? q = some x → x.machine.deferred →
      Performs s o s (.change q (moveTo .cancelRequested) false false none)
  | cancelNow {o : Op} {q : SequenceId} {x : Seq} : o.Cancels s q → s.seqs.find? q = some x →
      x.machine.isTerminal = false → x.machine ≠ .cancelRequested → ¬ x.machine.deferred →
      Performs s o s (.change q (SeqOp.apply (.retire .cancelled)) true true (some (q, .cancelled)))
  | exhaust {q : SequenceId} {x : Seq} : s.seqs.find? q = some x → x.machine.retryable →
      x.attemptCount ≥ s.cfg.retryPolicy.maxAttempts →
      Performs s (.retry q) s (.change q (fun y => (y.preserved s.cfg).moveTo .nonRetryableFailure) false false
        (some (q, .nonRetryableFailure)))
  | attempt {q : SequenceId} {x : Seq} : s.seqs.find? q = some x → x.machine.retryable →
      ¬ x.attemptCount ≥ s.cfg.retryPolicy.maxAttempts →
      Performs s (.retry q) s
        (.change q (fun y => (y.preserved s.cfg).beginAttempt s.mintAttempt s.clock) false false none)
  | register {wd : WorkerDescriptor} : wd.valid = true → Performs s (.registerWorker wd) s (.register wd)
  | lose {id : WorkerId} : Performs s (.markWorkerDead id) s (.lose id)
  | workerDown {id : WorkerId} {u : Fabric} {q : SequenceId} {x : Seq} : s.seqs.find? q = some x →
      u.seqs.find? q = some x → x.hasInflight = true → x.inFlightWorker = id →
      Performs s (.markWorkerDead id) u (.change q (SeqOp.apply (.workerDown u.clock)) true false none)
  | expire {o : Op} {tn : TimePoint} {u : Fabric} {q : SequenceId} {x : Seq} : o.boundaryAt = some tn →
      s.seqs.find? q = some x → u.seqs.find? q = some x → x.machine.isTerminal = false → x.deadlineReached tn = true →
      Performs s o u (.change q (SeqOp.apply (.retire .deadlineExpired)) true true (some (q, .deadlineExpired)))
  | cancelDue {o : Op} {tn : TimePoint} {u : Fabric} {q : SequenceId} {x : Seq} : o.boundaryAt = some tn →
      s.seqs.find? q = some x → u.seqs.find? q = some x → x.machine = .cancelRequested →
      Performs s o u (.change q (SeqOp.apply (.retire .cancelled)) true true (some (q, .cancelled)))
  | exhausted {tn : TimePoint} {u : Fabric} {q : SequenceId} {x : Seq} : s.seqs.find? q = some x →
      u.seqs.find? q = some x → x.machine.isCandidate = true → x.budget.exhausted = true →
      Performs s (.schedule tn) u (.change q (SeqOp.apply (.retire .completed)) true false (some (q, .completed)))
  | group {tn : TimePoint} {u : Fabric} {q : SequenceId} {x : Seq} : s.Due tn q x → u.seqs.find? q = some x →
      Performs s (.schedule tn) u (.change q (enterGroup tn) false false none)
  | putBack {tn : TimePoint} {u : Fabric} {q : SequenceId} {x : Seq} : s.Due tn q x →
      u.seqs.find? q = some (x.enterGroup tn) →
      Performs s (.schedule tn) u (.change q (moveTo .ready) false false none)
  | send {tn : TimePoint} {u : Fabric} {members : List SequenceId} {d : Dispatch} {res : Reservation} {wk : WorkerId} :
      Sending s tn u members d res wk → Performs s (.schedule tn) u (.send members d res wk)
  | disown {result : DecodeExecutionResult} {u : Fabric} {mo : MemberOutcome} {x : Seq} {why : String} :
      (u, mo) ∈ turns (applyOutcome result) s result.outcomes → u.seqs.find? mo.sequence = some x →
      u.completionVerdict result x mo = .disown why →
      Performs s (.applyCompletion result) u (.change mo.sequence (SeqOp.apply .disown) true false none)
  | resolve {o : Op} {u : Fabric} {q : SequenceId} {x : Seq} {mo : MemberOutcome} : Resolves s q x mo u o →
      Performs s o u (.change q (resolve u.cfg u.mintAttempt u.clock mo) true (slotReturned mo)
        (endRecorded u.cfg x mo))
  | foreign {o : Op} {u v : Fabric} {q : SequenceId} {x : Seq} {mo : MemberOutcome} : Resolves s q x mo u o →
      mo.sequence ≠ q → mo.kind = .retryableFailure →
      Performs s o v (.change mo.sequence release true false none)
  | reject {prepared : PreparedDecode} {u : Fabric} {pm : PreparedMember} {x : Seq} {r : Fabric.Rejection} :
      (u, pm) ∈ turns (fun t pm => (authorizeMember prepared t pm).1) s prepared.members →
      u.seqs.find? pm.sequence = some x → u.prepareVerdict x pm = .reject r →
      Performs s (.authorizePrepared prepared) u
        (.change pm.sequence (SeqOp.apply (.reconcile u.clock)) true false none)
  | grant {prepared : PreparedDecode} {u : Fabric} {pm : PreparedMember} {x : Seq} :
      (u, pm) ∈ turns (fun t pm => (authorizeMember prepared t pm).1) s prepared.members →
      u.seqs.find? pm.sequence = some x → u.prepareVerdict x pm = .grant →
      Performs s (.authorizePrepared prepared) u (.change pm.sequence (holdGrant u.nextGrant pm) false false none)
  | finish {receipts : ReceiptDecode} {u : Fabric} {r : MemberReceipt} {x : Seq} {ends : Bool} :
      (u, r) ∈ turns applyReceipt s receipts.receipts → u.receiptVerdict r = .finalize x →
      ends = (x.commitToken (u.finishTime r) r).endsWith r →
      Performs s (.applyCommitReceipt receipts) u (.change r.sequence (finish (u.finishTime r) r) true ends
        (if ends then some (r.sequence, .completed) else none))
  | abort {a : AbortPrepared} {x : Seq} : s.seqs.find? a.sequence = some x → x.hasInflightGrant = true →
      x.inFlightProposal = a.proposal →
      Performs s (.abortPrepared a) s (.change a.sequence (fun y => y.release.abort s.clock) true false none)

/-! Sequences of deeds. -/

/-- `t` is reached from `s` by deeds that satisfy `A` where they are done. -/
def Deeds (A : Fabric → Deed → Prop) (s t : Fabric) : Prop := Path Does (fun e => A e.pre e.label) s t

namespace Deeds
variable {A : Fabric → Deed → Prop} {s t : Fabric}

theorem refl (A : Fabric → Deed → Prop) (s : Fabric) : Deeds A s s := Lib.Path.refl _ s

theorem single {d : Deed} (h : Does s d t) (ha : A s d) : Deeds A s t := Path.single h ha

theorem trans (h₁ : Deeds A s t) (h₂ : Deeds A t u) : Deeds A s u := Lib.Path.trans h₁ h₂

/-- What the deeds keep, an operation made of them keeps. -/
theorem invariant (hI : ∀ {s t : Fabric} {d : Deed}, Does s d t → A s d → I s → I t)
    (h : Deeds A s t) (hs : I s) : I t := Path.invariant (fun _ hd ha hi => hI hd ha hi) h hs

/-- What the deeds keep holds at every turn of a loop whose turns are made of them. -/
theorem at_turns {α : Type} {f : Fabric → α → Fabric} {l : List α}
    (hI : ∀ {s t : Fabric} {d : Deed}, Does s d t → A s d → I s → I t)
    (h : ∀ p ∈ turns f s l, Deeds A p.1 (f p.1 p.2)) (hs : I s) : ∀ p ∈ turns f s l, I p.1 :=
  invariant_at_turns (fun p hp hu => (h p hp).invariant hI hu) hs

end Deeds

namespace Fabric
variable {s t : Fabric} {q : SequenceId} {x : Seq}

/-- In a loop whose turns change their own sequence only, a turn finds its sequence as it was. -/
theorem own_turn {f : Fabric → SequenceId → Fabric} (hf : ∀ t q j, j ≠ q → (f t q).seqs.find? j = t.seqs.find? j)
    {l : List SequenceId} (hn : l.Nodup) {p : Fabric × SequenceId} (hp : p ∈ turns f s l) :
    p.1.seqs.find? p.2 = s.seqs.find? p.2 :=
  turns_own (fun q : SequenceId => q) (fun t q => t.seqs.find? q) hf (by simpa using hn) p hp

/-! Holdings after the functions of the model. -/

theorem freeReservation_records (q : SequenceId) (x : Seq) : (s.freeReservation q x).records = s.records := by
  unfold freeReservation
  split
  · rfl
  · split <;> rfl

theorem releaseReservation_records (q : SequenceId) : (s.releaseReservation q).records = s.records := by
  unfold releaseReservation
  split
  · rfl
  · split
    · rfl
    · exact freeReservation_records _ _

theorem releaseReservation_holdings (hx : s.seqs.find? q = some x) :
    (s.releaseReservation q).holdings = s.holdings.pay x true false none := by
  have hbooks := s.releaseReservation_books q
  have hcfg := cfg_of_books hbooks
  have hnext : (s.releaseReservation q).nextDispatch = s.nextDispatch := congrArg Books.nextDispatch hbooks
  unfold holdings
  rw [hcfg, hnext, releaseReservation_accounts hx, releaseReservation_records]
  rfl

/-- Release, then retire. -/
theorem release_retire_holdings (hx : s.seqs.find? q = some x) {count : Stats → Stats}
    (hcount : ∀ u : Fabric, ({ u with stats := count u.stats, terminalRecords := u.terminalRecords.insert q st }
      : Fabric).holdings = { u.holdings with records := u.records.enter q st }) :
    ((s.releaseReservation q).retire q x st count).holdings = s.holdings.pay x true true (some (q, st)) := by
  unfold retire
  rw [hcount]
  have hslot : (((s.releaseReservation q).modifySeq q (moveTo st)).releaseTenantSlot x.req.tenant).holdings =
      { (s.releaseReservation q).holdings with
        accounts := (s.releaseReservation q).accounts.releaseSlot x.req.tenant } :=
    congrArg (fun a => ({ (s.releaseReservation q).holdings with accounts := a } : Holdings))
      (releaseTenantSlot_accounts (s := (s.releaseReservation q).modifySeq q (moveTo st)) x.req.tenant)
  have hrecords : (((s.releaseReservation q).modifySeq q (moveTo st)).releaseTenantSlot x.req.tenant).records =
      s.records := releaseReservation_records q
  rw [hslot, hrecords, releaseReservation_holdings hx, releaseReservation_accounts hx]
  show _ = Holdings.mk _ _ ((s.accounts.releaseSlot x.req.tenant).release x.reservation) _
  rw [Accounts.releaseSlot_release]
  rfl

theorem retire_deed (hx : s.seqs.find? q = some x) (count : Stats → Stats)
    (hcount : ∀ u : Fabric, ({ u with stats := count u.stats, terminalRecords := u.terminalRecords.insert q st }
      : Fabric).holdings = { u.holdings with records := u.records.enter q st })
    (ha : Performs v o s (.change q (SeqOp.apply (.retire st)) true true (some (q, st)))) :
    Deeds (Performs v o) s ((s.releaseReservation q).retire q x st count) :=
  .single (.change hx (s.release_retire_seqs q x st count) (release_retire_holdings hx hcount)) ha

/-! Admission, cancellation, retry. -/

theorem submit_deeds (inp : DecodeRequest) : Deeds (Performs s (.submit inp)) s (s.submit inp).1 := by
  have refused : ∀ k rq q why fact, Deeds (Performs s (.submit inp)) s (s.refuse k rq q why fact).1 :=
    fun _ _ _ _ _ => .single (.note rfl rfl) .note
  unfold submit
  split
  · exact refused _ _ _ _ _
  · next hv =>
    simp only
    split
    · exact refused _ _ _ _ _
    · next hm =>
      split
      · exact refused _ _ _ _ _
      · next hb =>
        split
        · split
          · exact refused _ _ _ _ _
          · next hid =>
            have hnone : s.seqs.find? (s.buildKey inp).sequence = none := by simpa using hid
            refine .single (.enrol hnone ?_ rfl) (.enrol hv hm hb rfl)
            simp [enrol, hnone]
        · next h0 =>
          rw [buildKey_sequence, not_not] at h0
          exact absurd h0 (validate_sequence hv)

theorem cancel_deeds (ho : o.Cancels s q) : Deeds (Performs s o) s (s.cancel q).1 := by
  unfold cancel
  split
  · exact .refl _ _
  · next x hx =>
    split
    · exact .refl _ _
    · next hlive =>
      split
      · exact .refl _ _
      · next hreq =>
        split
        · next hdefer => exact .single (.change hx rfl rfl) (.cancelLater ho hx hdefer)
        · next hnow =>
          have hretire := retire_deed hx Stats.countCancelled (fun _ => rfl)
            (.cancelNow ho hx (by simpa using hlive) hreq hnow)
          exact hretire.trans (.single (.note rfl rfl) .note)

theorem retry_deeds (q : SequenceId) : Deeds (Performs s (.retry q)) s (s.retry q).1 := by
  unfold retry
  split
  · exact .refl _ _
  · next x hx =>
    split
    · next hst =>
      -- the roll back and what follows it are one change of the sequence
      have hmodify : ∀ f : Seq → Seq, (s.preserveTokens q).seqs.modify q f =
          s.seqs.modify q fun y => f (y.preserved s.cfg) := by
        intro f
        unfold preserveTokens preserved
        split
        · rfl
        · rw [modifySeq_seqs, modify_modify]
          rfl
      have hbooks := s.preserveTokens_books q
      have hholdings : (s.preserveTokens q).holdings = s.holdings := by
        unfold preserveTokens
        split <;> rfl
      simp only
      rw [cfg_of_books hbooks]
      split
      · next hmax =>
        refine .single (.change hx (hmodify _) ?_) (.exhaust hx hst hmax)
        exact congrArg (fun h : Holdings => { h with records := h.records.enter q .nonRetryableFailure }) hholdings
      · next hmax =>
        refine .single (.change hx ?_ ?_) (.attempt hx hst hmax)
        · rw [startAttempt_seqs, hmodify, mintAttempt_of_books hbooks, clock_of_books hbooks]
        · exact hholdings
    · exact .refl _ _

/-! Workers and boundaries. -/

theorem registerWorker_deeds (wd : WorkerDescriptor) :
    Deeds (Performs s (.registerWorker wd)) s (s.registerWorker wd).1 := by
  unfold registerWorker
  split
  · exact .refl _ _
  · next hv => exact .single (.register rfl rfl) (.register (by simpa using hv))

theorem reconcileWorkerDown_find? (id : WorkerId) (s : Fabric) (q j : SequenceId) (hj : j ≠ q) :
    (reconcileWorkerDown id s q).seqs.find? j = s.seqs.find? j := by
  unfold reconcileWorkerDown
  split
  · rfl
  · split
    · rw [modifySeq_seqs, releaseReservation_seqs, find?_modify_ne hj, find?_modify_ne hj]
    · rfl

/-- `mark_worker_dead` before its loop. -/
def withoutWorker (s : Fabric) (id : WorkerId) : Fabric :=
  { s with workers := s.workers.modify id .down }.recordEvent
    .workerDown 0 0 (text ("worker " ++ toString id))

theorem reconcileWorkerDown_deeds {id : WorkerId}
    (hp : p ∈ turns (reconcileWorkerDown id) (s.withoutWorker id) s.seqs.keys) :
    Deeds (Performs s (.markWorkerDead id)) p.1 (reconcileWorkerDown id p.1 p.2) := by
  have hown := own_turn (reconcileWorkerDown_find? id) s.seqs.keys_nodup hp
  obtain ⟨v, q⟩ := p
  change v.seqs.find? q = s.seqs.find? q at hown
  unfold reconcileWorkerDown
  simp only
  split
  · exact .refl _ _
  · next x hx =>
    split
    · next hdown =>
      refine .single (.change hx ?_ (releaseReservation_holdings hx))
        (.workerDown (hown ▸ hx) hx hdown.1 hdown.2)
      rw [modifySeq_seqs, releaseReservation_seqs, modify_modify]
      rfl
    · exact .refl _ _

theorem markWorkerDead_deeds (id : WorkerId) : Deeds (Performs s (.markWorkerDead id)) s (s.markWorkerDead id).1 := by
  have hlose : Deeds (Performs s (.markWorkerDead id)) s (s.withoutWorker id) := .single (.lose rfl rfl) .lose
  exact hlose.trans (Path.foldl fun _ hp => reconcileWorkerDown_deeds hp)

theorem advanceSeq_deeds {tn : TimePoint} (hp : p ∈ turns (advanceSeq tn) s s.seqs.keys) :
    Deeds (Performs s (.advance tn)) p.1 (advanceSeq tn p.1 p.2) := by
  have hown := own_turn (fun t q j hj => by rw [advanceSeq_seqs, find?_modify_ne hj]) s.seqs.keys_nodup hp
  obtain ⟨u, q⟩ := p
  change u.seqs.find? q = s.seqs.find? q at hown
  unfold advanceSeq
  simp only
  split
  · exact .refl _ _
  · next x hx =>
    have hnote : ∀ v : Fabric, ∀ k rq d, Deeds (Performs s (.advance tn)) v (v.recordEvent k rq q d) :=
      fun _ _ _ _ => .single (.note rfl rfl) .note
    split
    · exact .refl _ _
    · next hlive =>
      split
      · next hd =>
        exact (retire_deed hx _ (fun _ => rfl) (.expire rfl (hown ▸ hx) hx (by simpa using hlive) hd)).trans
          (hnote _ _ _ _)
      · split
        · next hreq =>
          exact (retire_deed hx _ (fun _ => rfl) (.cancelDue rfl (hown ▸ hx) hx hreq)).trans (hnote _ _ _ _)
        · exact .refl _ _

theorem advance_deeds (tn : TimePoint) : Deeds (Performs s (.advance tn)) s (s.advance tn).1 :=
  Path.foldl fun _ hp => advanceSeq_deeds hp

/-! The passes of a tick. -/

section Tick
variable {tn : TimePoint}

/-- Every sequence is as it was when its turn of the deadline pass comes. -/
theorem boundarySeq_own (hp : p ∈ turns (boundarySeq tn) s s.seqs.keys) : p.1.seqs.find? p.2 = s.seqs.find? p.2 :=
  own_turn (fun t q j hj => by rw [boundarySeq_seqs, find?_modify_ne hj]) s.seqs.keys_nodup hp

theorem expireAt_deeds (hp : (u, q) ∈ turns (boundarySeq tn) s s.seqs.keys) (hx : u.seqs.find? q = some x)
    (hlive : x.machine.isTerminal = false) : Deeds (Performs s (.schedule tn)) u (u.expireAt tn q x) := by
  unfold expireAt
  split
  · next hd =>
    exact retire_deed hx _ (fun _ => rfl) (.expire rfl ((boundarySeq_own hp).symm.trans hx) hx hlive hd)
  · exact .refl _ _

theorem boundarySeq_deeds (hp : p ∈ turns (boundarySeq tn) s s.seqs.keys) :
    Deeds (Performs s (.schedule tn)) p.1 (boundarySeq tn p.1 p.2) := by
  have hown := boundarySeq_own hp
  obtain ⟨u, q⟩ := p
  change u.seqs.find? q = s.seqs.find? q at hown
  unfold boundarySeq
  simp only
  split
  · exact .refl _ _
  · next x hx =>
    split
    · exact .refl _ _
    · next hlive =>
      have hlive : x.machine.isTerminal = false := by simpa using hlive
      have hexpire := expireAt_deeds hp hx hlive
      by_cases hd : x.deadlineReached tn = true
      · -- after an expiry there is nothing left to cancel
        have hexp : u.expireAt tn q x = (u.releaseReservation q).retire q x .deadlineExpired Stats.countExpired :=
          if_pos hd
        have hfind : (u.expireAt tn q x).seqs.find? q = some (SeqOp.apply (.retire .deadlineExpired) x) := by
          rw [hexp, release_retire_seqs, find?_modify_self, hx]
          rfl
        rw [hfind]
        have hstay : (u.expireAt tn q x).cancelIfRequested q (SeqOp.apply (.retire .deadlineExpired) x) =
            u.expireAt tn q x := if_neg (expired_not_cancelling x)
        simp only [hstay]
        exact hexpire
      · have hexp : u.expireAt tn q x = u := if_neg hd
        rw [hexp, hx]
        simp only
        unfold cancelIfRequested
        split
        · next hreq => exact retire_deed hx _ (fun _ => rfl) (.cancelDue rfl (hown ▸ hx) hx hreq)
        · exact .refl _ _

theorem boundaryPass_deeds (tn : TimePoint) : Deeds (Performs s (.schedule tn)) s (s.boundaryPass tn) :=
  Path.foldl fun _ hp => boundarySeq_deeds hp

theorem completeExhausted_holdings (hx : s.seqs.find? q = some x) (y : Seq) :
    (s.completeExhausted q y).holdings = s.holdings.pay x true false (some (q, .completed)) :=
  congrArg (fun h : Holdings => { h with records := h.records.enter q .completed }) (releaseReservation_holdings hx)

/-- A candidate that the second pass comes to is as it was before the tick, and in time. -/
theorem collect_turn {p : (Fabric × List Candidate) × SequenceId}
    (hp : p ∈ turns (collectSeq tn) (s.boundaryPass tn, []) (s.boundaryPass tn).seqs.keys) {y : Seq}
    (hy : p.1.1.seqs.find? p.2 = some y) (hcand : y.machine.isCandidate = true) :
    s.seqs.find? p.2 = some y ∧ y.deadlineReached tn = false := by
  have hown := turns_own (fun q : SequenceId => q)
    (fun (acc : Fabric × List Candidate) q => acc.1.seqs.find? q)
    (fun acc q j hj => by rw [(collectSeq_spec acc.1 tn acc.2 q).1, find?_modify_ne hj])
    (by simpa using (s.boundaryPass tn).seqs.keys_nodup) p hp
  change p.1.1.seqs.find? p.2 = (s.boundaryPass tn).seqs.find? p.2 at hown
  rw [boundaryPass_find?, hy] at hown
  obtain ⟨x, hx, hxy⟩ := Option.map_eq_some_iff.mp hown.symm
  rw [← hxy] at hcand
  -- the first pass left a candidate alone
  obtain ⟨hsame, htime⟩ := boundary_candidate hcand
  obtain rfl : x = y := hsame.symm.trans hxy
  exact ⟨hx, htime⟩

theorem collectSeq_deeds {p : (Fabric × List Candidate) × SequenceId}
    (hp : p ∈ turns (collectSeq tn) (s.boundaryPass tn, []) (s.boundaryPass tn).seqs.keys) :
    Deeds (Performs s (.schedule tn)) p.1.1 (collectSeq tn p.1 p.2).1 := by
  have hturn := fun y => collect_turn (y := y) hp
  obtain ⟨acc, q⟩ := p
  unfold collectSeq
  simp only
  split
  · exact .refl _ _
  · next y hy =>
    split
    · exact .refl _ _
    · next hcand =>
      split
      · next hspent =>
        have hcand : y.machine.isCandidate = true := by simpa using hcand
        exact .single (.change hy (completeExhausted_seqs _ _ _) (completeExhausted_holdings hy _))
          (.exhausted (hturn y hy hcand).1 hy hcand hspent)
      · split <;> exact .refl _ _

theorem collectPass_deeds : Deeds (Performs s (.schedule tn)) (s.boundaryPass tn) (s.poll tn).1 :=
  foldl_invariant (I := fun acc : Fabric × List Candidate =>
    Deeds (Performs s (.schedule tn)) (s.boundaryPass tn) acc.1) (fun _ hp ht => ht.trans (collectSeq_deeds hp))
    (.refl _ _)

theorem formStep_find? (f : Forming) (c : Candidate) {j : SequenceId} (hj : j ≠ c.seq) :
    (formStep tn f c).fabric.seqs.find? j = f.fabric.seqs.find? j := by
  rw [← (f.open_spec c.key).1]
  unfold formStep
  simp only
  split
  · split
    · rfl
    · exact find?_modify_ne hj _
  · rfl

theorem formStep_deeds {c : Candidate} (hdue : s.Due tn c.seq x)
    (hown : f.fabric.seqs.find? c.seq = some x) :
    Deeds (Performs s (.schedule tn)) f.fabric (formStep tn f c).fabric := by
  rw [← (f.open_spec c.key).1] at hown ⊢
  unfold formStep
  simp only
  split
  · split
    · exact .refl _ _
    · exact .single (.change hown rfl rfl) (.group hdue hown)
  · exact .refl _ _

theorem formPass_deeds (hlist : Shortlist s tn u cands) :
    Deeds (Performs s (.schedule tn)) u (u.formPass tn cands).fabric := by
  have hperm := List.perm_insertionSort Candidate.before cands
  refine foldl_invariant (I := fun f : Forming => Deeds (Performs s (.schedule tn)) u f.fabric)
    (fun p hp ht => ht.trans ?_) (.refl _ _)
  obtain ⟨x, hdue, -, hfind⟩ := hlist.due p.2 (hperm.mem_iff.mp (mem_of_mem_turns hp))
  have hown := turns_own Candidate.seq (fun (f : Forming) (c : Candidate) => f.fabric.seqs.find? c.seq)
    (fun f c j hj => formStep_find? f c hj) ((hperm.map Candidate.seq).nodup_iff.mpr hlist.nodup) p hp
  exact formStep_deeds hdue (hown.trans hfind)

theorem ungroup_deeds {out : List Dispatch} (ht : Turn s tn u out g) :
    Deeds (Performs s (.schedule tn)) u (u.ungroup g.members) := by
  refine Path.foldl fun p hp => ?_
  obtain ⟨x, hdue, -, hfind⟩ := ht.member _ (mem_of_mem_turns hp)
  have hown := own_turn (fun t q j hj => find?_modify_ne hj _) ht.nodup hp
  rw [hfind] at hown
  exact .single (.change hown rfl rfl) (.putBack hdue hown)

theorem scan_dispatchMember_records (d : Dispatch) (l : List SequenceId) (u : Fabric) :
    (scan (dispatchMember d) u l).1.records = u.records := by
  rw [scan_fst]
  refine foldl_invariant (I := fun v : Fabric => v.records = u.records) ?_ rfl
  rintro ⟨v, q⟩ - hv
  unfold dispatchMember
  split
  · exact hv
  · exact hv

/-- The reservation a group gets. -/
def groupReservation (u : Fabric) (tn : TimePoint) (w : WorkerDescriptor) (growth : UInt64) : Reservation :=
  { id := u.nextReservation, group := u.nextGroup, device := w.device.id, bytes := growth, madeAt := tn }

theorem dispatchGroup_holdings {wk : WorkerId} {w : WorkerDescriptor} {growth : UInt64} (hn : g.members.Nodup) :
    (u.dispatchGroup tn g wk w growth).1.holdings = u.holdings.charge
      (u.groupReservation tn w growth) wk := by
  obtain ⟨-, hbooks, -⟩ := dispatchMember_scan (s := u) (d := (u.openDispatch tn g w growth).2) hn
    (t := (u.openDispatch tn g w growth).1) (fun m _ => rfl)
  have hbooks : (u.dispatchGroup tn g wk w growth).1.books = { u.books with nextDispatch := u.nextDispatch + 1 } :=
    hbooks
  have hcfg : (u.dispatchGroup tn g wk w growth).1.cfg = u.cfg := congrArg Books.cfg hbooks
  have hnext : (u.dispatchGroup tn g wk w growth).1.nextDispatch = u.nextDispatch + 1 :=
    congrArg Books.nextDispatch hbooks
  have hrecords : (u.dispatchGroup tn g wk w growth).1.records = u.records :=
    scan_dispatchMember_records (u.openDispatch tn g w growth).2 g.members (u.openDispatch tn g w growth).1
  unfold holdings
  rw [hcfg, hnext, dispatchGroup_accounts, hrecords]
  rfl

theorem placeGroup_deeds {out : List Dispatch} (ht : Turn s tn u out g) :
    Deeds (Performs s (.schedule tn)) u (placeGroup tn (u, out) g).1 := by
  have hout := ht.kept
  unfold placeGroup at hout ⊢
  split
  · exact .refl _ _
  · next hne =>
    rw [if_neg hne] at hout
    simp only at hout ⊢
    split
    · exact ungroup_deeds ht
    · next wk w hw =>
      simp only [hw] at hout
      split
      · exact (ungroup_deeds ht).trans (.single (.note rfl rfl) .note)
      · next hroom =>
        rw [if_neg hroom] at hout
        obtain ⟨hseqs, -, hspecs⟩ := dispatchMember_scan (s := u)
          (d := (u.openDispatch tn g w (u.groupGrowth g.members)).2) ht.nodup
          (t := (u.openDispatch tn g w (u.groupGrowth g.members)).1) (fun m _ => rfl)
        have hdoes : Does u (.send g.members (u.dispatchGroup tn g wk w (u.groupGrowth g.members)).2
            (u.groupReservation tn w (u.groupGrowth g.members)) wk)
            (u.dispatchGroup tn g wk w (u.groupGrowth g.members)).1 := .send hseqs (dispatchGroup_holdings ht.nodup)
        have hsending : Sending s tn u g.members (u.dispatchGroup tn g wk w (u.groupGrowth g.members)).2
            (u.groupReservation tn w (u.groupGrowth g.members)) wk :=
          { nonempty := hne
            nodup := ht.nodup
            limit := (s.formedAt_formation tn).limit g ht.formed
            member := ht.member
            worker := ⟨w, hw, rfl, rfl⟩
            room := Bool.eq_false_iff.mpr hroom
            bytes := rfl
            device := rfl
            live := rfl
            id := rfl
            reservation := rfl
            listed := ⟨hout _ (List.mem_append_right _ List.mem_cons_self), hspecs⟩ }
        exact .single hdoes (.send hsending)

theorem formedAt_deeds (s : Fabric) (tn : TimePoint) : Deeds (Performs s (.schedule tn)) s (s.formedAt tn).fabric :=
  ((boundaryPass_deeds tn).trans collectPass_deeds).trans (formPass_deeds (s.poll_shortlist tn))

/-- A turn of placement is reached by deeds of the tick. -/
theorem placements_deeds {out : List Dispatch} (hp : ((u, out), g) ∈ s.placements tn) :
    Deeds (Performs s (.schedule tn)) s u :=
  invariant_at_turns (I := fun acc : Fabric × List Dispatch => Deeds (Performs s (.schedule tn)) s acc.1)
    (fun _ hp hd => hd.trans (placeGroup_deeds (placements_turn hp))) (s.formedAt_deeds tn) _ hp

theorem schedule_deeds (tn : TimePoint) : Deeds (Performs s (.schedule tn)) s (s.schedule tn).1 :=
  foldl_invariant (I := fun acc : Fabric × List Dispatch => Deeds (Performs s (.schedule tn)) s acc.1)
    (fun _ hp hd => hd.trans (placeGroup_deeds (placements_turn hp))) (s.formedAt_deeds tn)

end Tick
/-! Messages. -/

theorem pay_pay (h : Holdings) (x : Seq) (slot : Bool) (entry : TerminalEntry) :
    (h.pay x true false none).pay x false slot entry = h.pay x true slot entry := by
  unfold Holdings.pay
  cases slot with
  | false => cases entry <;> rfl
  | true =>
    simp only [if_true, Accounts.releaseSlot_release]
    cases entry <;> rfl

/-- An outcome that is no retryable failure, on a live sequence: at most the slot and the record. -/
theorem applyNoncommitOutcome_holdings (hlive : x.machine.isTerminal = false) (hk : mo.kind ≠ .retryableFailure) :
    (s.applyNoncommitOutcome q x mo).holdings = s.holdings.pay x false (slotReturned mo) (endRecorded s.cfg x mo) := by
  have hslot : ∀ u : Fabric, u.holdings = s.holdings → ∀ stats terminalRecords,
      ({ u.releaseTenantSlot x.req.tenant with stats, terminalRecords } : Fabric).holdings =
      { s.holdings with
        accounts := s.accounts.releaseSlot x.req.tenant
        records := ({ u with stats, terminalRecords } : Fabric).records } := by
    intro u hu stats terminalRecords
    have hacc : u.accounts = s.accounts := congrArg Holdings.accounts hu
    have hrel := releaseTenantSlot_accounts (s := u) x.req.tenant
    rw [hacc] at hrel
    have hcfg : u.cfg = s.cfg := congrArg Holdings.cfg hu
    have hnext : u.nextDispatch = s.nextDispatch := congrArg Holdings.nextDispatch hu
    show Holdings.mk u.cfg u.nextDispatch (u.releaseTenantSlot x.req.tenant).accounts _ = _
    rw [hcfg, hnext, hrel]
    rfl
  unfold applyNoncommitOutcome Holdings.pay slotReturned endRecorded
  cases hkind : mo.kind with
  | retryableFailure => exact absurd hkind hk
  | nonRetryableFailure => exact hslot _ rfl _ _
  | cancelled | expired =>
    simp only [hlive, Bool.false_eq_true, if_false]
    exact hslot _ rfl _ _
  | _ => rfl

/-- A retryable failure: the release of the sequence it names, and perhaps the record. -/
theorem applyNoncommitOutcome_retryable (hk : mo.kind = .retryableFailure) : (s.applyNoncommitOutcome q x mo).holdings =
      (s.releaseReservation mo.sequence).holdings.pay x false false (endRecorded s.cfg x mo) := by
  have hcfg := cfg_of_books (s.releaseReservation_books mo.sequence)
  unfold applyNoncommitOutcome Holdings.pay endRecorded
  simp only [hk]
  rw [← hcfg]
  split
  · next hmax =>
    have hmax' : x.attemptCount ≥ (s.releaseReservation mo.sequence).cfg.retryPolicy.maxAttempts := hmax
    simp only [hmax', if_true]
    rfl
  · next hmax =>
    have hmax' : ¬ x.attemptCount ≥ (s.releaseReservation mo.sequence).cfg.retryPolicy.maxAttempts := hmax
    simp only [hmax', if_false]
    split <;> rfl

/-- The dispatch of `q` is ended and its reservation given back. -/
structure Ended (s : Fabric) (q : SequenceId) (x : Seq) (v : Fabric) : Prop where
  seq : v.seqs.find? q = some x.endDispatch.release
  others : ∀ j, j ≠ q → v.seqs.find? j = s.seqs.find? j
  holdings : v.holdings = s.holdings.pay x true false none

theorem endDispatch_release (hx : s.seqs.find? q = some x) :
    Ended s q x ((s.modifySeq q endDispatch).releaseReservation q) := by
  have hended : (s.modifySeq q endDispatch).seqs.find? q = some x.endDispatch := by
    rw [modifySeq_seqs, find?_modify_self, hx]
    rfl
  refine ⟨?_, ?_, releaseReservation_holdings (x := x.endDispatch) hended⟩
  · rw [releaseReservation_seqs, find?_modify_self, hended]
    rfl
  · intro j hj
    rw [releaseReservation_seqs, find?_modify_ne hj, modifySeq_seqs, find?_modify_ne hj]

/-- A retryable failure that names another sequence: `q` is resolved, then the other one is released. -/
theorem foreign_deeds {y : Seq} (hres : Resolves s q x mo u o)
    (hx : u.seqs.find? q = some x) (hk : mo.kind = .retryableFailure) (hq : mo.sequence ≠ q)
    (hy : u.seqs.find? mo.sequence = some y) (hended : Ended u q x v)
    (hseqs : t.seqs = (u.seqs.modify mo.sequence release).modify q (resolve u.cfg u.mintAttempt u.clock mo))
    (hafter : t.holdings = (v.releaseReservation mo.sequence).holdings.pay x false false (endRecorded u.cfg x mo)) :
    Deeds (Performs s o) u t := by
  have hslot : slotReturned mo = false := by simp [slotReturned, hk]
  have hresolve : Performs s o u _ := .resolve hres
  rw [hslot] at hresolve
  have hvy : v.seqs.find? mo.sequence = some y := (hended.others _ hq).trans hy
  rw [releaseReservation_holdings hvy, hended.holdings] at hafter
  have hcfg : t.cfg = u.cfg := congrArg Holdings.cfg hafter
  have hnext : t.nextDispatch = u.nextDispatch := congrArg Holdings.nextDispatch hafter
  -- the fabric between the two deeds
  let a := u.accounts.release x.reservation
  let w : Fabric := { t with
    seqs := u.seqs.modify q (resolve u.cfg u.mintAttempt u.clock mo)
    workers := a.workers
    devMem := a.devMem
    tenantActive := a.tenantActive
    reservations := a.reservations
    nextReservation := a.nextReservation }
  have hrecords : t.records = (u.holdings.pay x true false (endRecorded u.cfg x mo)).records :=
    congrArg Holdings.records hafter
  have hw : w.holdings = u.holdings.pay x true false (endRecorded u.cfg x mo) := by
    show Holdings.mk t.cfg t.nextDispatch a t.records = _
    rw [hcfg, hnext, hrecords]
    rfl
  have hwy : w.seqs.find? mo.sequence = some y := (find?_modify_ne hq _).trans hy
  refine (Deeds.single (Does.change hx rfl hw) hresolve).trans
    (Deeds.single (Does.change hwy ?_ ?_) (.foreign hres hq hk))
  · rw [hseqs]
    exact modify_comm fun heq => absurd heq hq
  · rw [hafter, hw]
    cases endRecorded u.cfg x mo <;> rfl

theorem resolveNoncommit_deeds (hres : Resolves s q x mo u o)
    (hx : u.seqs.find? q = some x) (hlive : x.machine.isTerminal = false) :
    Deeds (Performs s o) u (u.resolveNoncommit q x mo) := by
  have hended := endDispatch_release hx
  have hseqs := resolveNoncommit_seqs hx mo
  have hresolve : Performs s o u _ := .resolve hres
  unfold resolveNoncommit at hseqs ⊢
  generalize (u.modifySeq q endDispatch).releaseReservation q = v at hended hseqs
  have hcfg : v.cfg = u.cfg := congrArg Holdings.cfg hended.holdings
  by_cases hk : mo.kind = .retryableFailure
  · have hafter := applyNoncommitOutcome_retryable (s := v) (q := q) (x := x) hk
    rw [hcfg] at hafter
    rw [if_pos hk] at hseqs
    generalize v.applyNoncommitOutcome q x mo = t at hseqs hafter
    -- the change of `q`, if no other sequence is released
    have own : t.seqs = u.seqs.modify q (resolve u.cfg u.mintAttempt u.clock mo) →
        (v.releaseReservation mo.sequence).holdings = v.holdings → Deeds (Performs s o) u t := by
      intro hs hh
      refine .single (.change hx hs ?_) hresolve
      rw [hafter, hh, hended.holdings, pay_pay, show slotReturned mo = false by simp [slotReturned, hk]]
    by_cases hq : mo.sequence = q
    · refine own ?_ ?_
      · rw [hseqs, hq, modify_modify]
        rfl
      · rw [hq, releaseReservation_holdings hended.seq]
        rfl
    · cases hy : u.seqs.find? mo.sequence with
      | none =>
        refine own ?_ ?_
        · rw [hseqs, modify_of_none hy]
        · unfold releaseReservation
          rw [(hended.others _ hq).trans hy]
      | some y => exact foreign_deeds hres hx hk hq hy hended hseqs hafter
  · have hafter := applyNoncommitOutcome_holdings (s := v) (q := q) hlive hk
    rw [if_neg hk, modify_id] at hseqs
    refine .single (.change hx hseqs ?_) hresolve
    rw [hafter, hcfg, hended.holdings, pay_pay]

theorem applyOutcome_deeds {result : DecodeExecutionResult} {p : Fabric × MemberOutcome}
    (hp : p ∈ turns (applyOutcome result) s result.outcomes) :
    Deeds (Performs s (.applyCompletion result)) p.1 (applyOutcome result p.1 p.2) := by
  unfold applyOutcome
  split
  · exact .single (.note rfl rfl) .note
  · next x hx =>
    split
    · exact .single (.note rfl rfl) .note
    · next why hv =>
      refine .single (.change hx ?_ ?_) (.disown hp hx hv)
      · rw [rejectStale_seqs, modifySeq_seqs, releaseReservation_seqs, modify_modify]
        rfl
      · exact releaseReservation_holdings hx
    · next hv => exact resolveNoncommit_deeds (.completion hp rfl hx hv) hx (completionVerdict_apply hv).live

theorem rejectMember_holdings (hx : s.seqs.find? q = some x) (y : Seq) (r : Rejection) :
    (s.rejectMember q y r).holdings = s.holdings.pay x true false none := by
  rw [← releaseReservation_holdings hx]
  unfold rejectMember
  cases r.counted <;> cases r.event <;> rfl

theorem authorizeMember_deeds {prepared : PreparedDecode} {p : Fabric × PreparedMember}
    (hp : p ∈ turns (fun t pm => (authorizeMember prepared t pm).1) s prepared.members) :
    Deeds (Performs s (.authorizePrepared prepared)) p.1 (authorizeMember prepared p.1 p.2).1 := by
  unfold authorizeMember
  split
  · exact .single (.note rfl rfl) .note
  · next x hx =>
    split
    · next r hv =>
      exact .single (.change hx (rejectMember_seqs _ _ x r) (rejectMember_holdings hx x r)) (.reject hp hx hv)
    · next hv => exact resolveNoncommit_deeds (.prepared hp rfl rfl hx hv) hx (prepareVerdict_noncommit hv).1.live
    · next hv => exact .single (.change hx rfl rfl) (.grant hp hx hv)

theorem closeTransaction_records (y : Seq) (r : MemberReceipt) : (s.closeTransaction y r).records = s.records :=
  releaseReservation_records (s := ({ s with grantLedger := s.grantLedger.modify r.grantId (GrantRecord.consume r) }
    : Fabric).modifySeq r.sequence endDispatch) r.sequence

theorem finalize_holdings {r : MemberReceipt} (hx : s.seqs.find? r.sequence = some x) {ends : Bool}
    (hends : ends = (x.commitToken (s.finishTime r) r).endsWith r) : (s.finalize x r).holdings =
      s.holdings.pay x true ends (if ends then some (r.sequence, .completed) else none) := by
  have hbooks := s.finalize_books x r
  have hcfg : (s.finalize x r).cfg = s.cfg := congrArg Books.cfg hbooks
  have hnext : (s.finalize x r).nextDispatch = s.nextDispatch := congrArg Books.nextDispatch hbooks
  have hrecords : (s.finalize x r).records = if ends then s.records.enter r.sequence .completed else s.records := by
    unfold finalize
    simp only
    rw [closeTransaction_records, ← hends]
    cases ends <;> rfl
  unfold holdings
  rw [hcfg, hnext, finalize_accounts hx, hrecords, ← hends]
  cases ends <;> rfl

theorem applyReceipt_deeds {receipts : ReceiptDecode} {p : Fabric × MemberReceipt}
    (hp : p ∈ turns applyReceipt s receipts.receipts) :
    Deeds (Performs s (.applyCommitReceipt receipts)) p.1 (applyReceipt p.1 p.2) := by
  unfold applyReceipt
  split
  · exact .refl _ _
  · exact .single (.note rfl rfl) .note
  · next x hv =>
    have hx := (receiptVerdict_finalize hv).seq
    exact .single (.change hx (finalize_seqs _ x _) (finalize_holdings hx rfl)) (.finish hp hv rfl)

theorem abortPrepared_deeds (a : AbortPrepared) : Deeds (Performs s (.abortPrepared a)) s (s.abortPrepared a).1 := by
  cases hx : s.seqs.find? a.sequence with
  | none =>
    unfold abortPrepared
    rw [hx]
    exact .refl _ _
  | some x =>
    by_cases hg : x.hasInflightGrant = true ∧ x.inFlightProposal = a.proposal
    · refine .single (.change hx (abortPrepared_seqs hx hg.1 hg.2) ?_) (.abort hx hg.1 hg.2)
      have hrel := releaseReservation_holdings
        (s := { s with grantLedger := s.grantLedger.modify x.inFlightGrant GrantRecord.abort }) hx
      unfold abortPrepared
      simp only [hx, hg, and_self, if_true]
      exact hrel
    · unfold abortPrepared
      rw [hx]
      simp only [hg, if_false]
      exact .refl _ _

end Fabric

/-! All operations. -/

theorem exec_deeds (s : Fabric) (o : Op) : Deeds (Performs s o) s (s.exec o) := by
  cases o with
  | submit req => exact submit_deeds req
  | cancel q => exact cancel_deeds .cancel
  | cancelRequest r =>
    simp only [exec, cancelRequest]
    split
    · exact .refl _ _
    · next q hq => exact cancel_deeds (.cancelRequest hq)
  | retry q => exact retry_deeds q
  | registerWorker wd => exact registerWorker_deeds wd
  | markWorkerDead id => exact markWorkerDead_deeds id
  | rollEpoch => exact .single (.note rfl rfl) .note
  | advance tn => exact advance_deeds tn
  | schedule tn => exact schedule_deeds tn
  | applyCompletion result => exact Path.foldl fun p hp => applyOutcome_deeds hp
  | authorizePrepared prepared =>
    simp only [exec, authorizePrepared_eq_foldl]
    exact Path.foldl fun p hp => authorizeMember_deeds hp
  | applyCommitReceipt receipts => exact Path.foldl fun p hp => applyReceipt_deeds hp
  | abortPrepared a => exact abortPrepared_deeds a

end DecodeFabric
