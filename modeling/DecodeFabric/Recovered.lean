import DecodeFabric.RoundTrip
import DecodeFabric.Generations

/- What a snapshot of a reachable fabric recovers to.

   The snapshot carries less than the fabric: a budget as one number, a grant without the key it
   is filed under, an accepted generation or a receipt only if its flag is set. In a reachable fabric
   nothing is lost by that (`Seq.Restorable`, `GrantRecord.Restorable`), so every field written comes back.
   What is not written comes back as a default: the adapter, the device constraint, the sampling
   metadata and two fields of the state descriptor. -/
namespace DecodeFabric
open Lib Table Fabric Sample SequenceState DecodeFabric.Seq
variable {F s t : Fabric} {i : GrantId} {gr : GrantRecord} {x : Seq} {q : SequenceId} {st : SequenceState}
  {ledger : Table GrantId GrantRecord} {b : TokenBudget}

/-! Budgets stay within their maximum. -/

namespace TokenBudget

theorem advanced_bounded (h : b.generated ≤ b.max) (n : UInt64) :
    (b.advanced n).max = b.max ∧ (b.advanced n).generated ≤ b.max := by
  unfold advanced advance
  cases checkedAdd b.generated n with
  | error e => exact ⟨rfl, h⟩
  | ok next =>
    by_cases hover : next > b.max
    · simp only [bind, Except.bind, if_pos hover]
      exact ⟨trivial, h⟩
    · simp only [bind, Except.bind, if_neg hover]
      exact ⟨trivial, UInt64.not_lt.mp hover⟩

theorem iterate_bounded (m : UInt64) : ∀ n : Nat, ((fun b : TokenBudget => b.advanced 1)^[n] { max := m }).max = m ∧
      ((fun b : TokenBudget => b.advanced 1)^[n] { max := m }).generated ≤ m
  | 0 => ⟨rfl, UInt64.zero_le⟩
  | n + 1 => by
    obtain ⟨hmax, hle⟩ := iterate_bounded m n
    rw [Function.iterate_succ_apply']
    obtain ⟨hmax', hle'⟩ := advanced_bounded (hle.trans_eq hmax.symm) 1
    exact ⟨hmax'.trans hmax, hle'.trans_eq hmax⟩

/-- Replaying a budget that is within its maximum gives it back. -/
theorem replayed_eq (h : b.generated ≤ b.max) : replayed b.max b.generated = b := by
  unfold replayed
  rw [iterate_advanced _ (UInt64.le_iff_toNat_le.mp h), UInt64.ofNat_toNat]

end TokenBudget

/-! Sequences. -/

/-- What the snapshot leaves out of a sequence can be told from what it carries. -/
structure Seq.Restorable (x : Seq) : Prop where
  max : x.budget.max = x.req.maxGenerationLength
  within : x.budget.generated ≤ x.budget.max
  accepted : x.hasAccepted = false → x.accepted = {}

namespace Seq.Restorable
variable {x y : Seq}

theorem touched (h : x.Restorable) (hxy : Touched x y) (hacc : y.accepted = x.accepted)
    (hflag : y.hasAccepted = x.hasAccepted) : y.Restorable := by
  have hbudget : y.budget.max = x.req.maxGenerationLength ∧ y.budget.generated ≤ x.req.maxGenerationLength := by
    rcases hxy.budget with hb | hb
    · rw [hb]
      exact ⟨h.max, h.within.trans_eq h.max⟩
    · rw [hb]
      exact TokenBudget.iterate_bounded _ _
  refine ⟨hbudget.1.trans (by rw [hxy.req]), hbudget.2.trans_eq hbudget.1.symm, ?_⟩
  rw [hacc, hflag]
  exact h.accepted

theorem ofRequest {req : DecodeRequest} (h : req.pregenerated ≤ req.maxGenerationLength) :
    (ofRequest req).Restorable := by
  have hc := Seq.Counted.ofRequest h
  refine ⟨hc.max, ?_, fun _ => rfl⟩
  rw [UInt64.le_iff_toNat_le, hc.budget, hc.max]
  exact hc.bound

theorem finish (h : x.Restorable) (fin : TimePoint) (r : MemberReceipt) : (x.finish fin r).Restorable := by
  obtain ⟨hmax, hle⟩ := TokenBudget.advanced_bounded h.within 1
  obtain ⟨st, ready, hshape⟩ := finish_shape fin r x
  rw [hshape]
  exact ⟨hmax.trans h.max, hle.trans_eq hmax.symm, fun hflag => by cases hflag⟩

end Seq.Restorable

/-- Only a finalized receipt changes the accepted generation. -/
theorem SeqOp.accepted (o : SeqOp) (x : Seq) :
    (o.apply x).accepted = x.accepted ∧ (o.apply x).hasAccepted = x.hasAccepted := by
  cases o with
  | resolve cfg a now mo =>
    exact Prod.mk.inj (resolve_same (fun y => (y.accepted, y.hasAccepted)) (fun _ _ _ _ _ _ _ => rfl) cfg a now mo x)
  | _ => exact ⟨rfl, rfl⟩

theorem restorable_kept : Kept (fun _ => True) Seq.Restorable where
  seq {_ _ x o} _ hg h := h.touched (SeqOp.touched hg) (o.accepted x).1 (o.accepted x).2
  enrol h := Seq.Restorable.ofRequest h
  issue _ _ h := ⟨h.max, h.within, h.accepted⟩
  finalize _ h := h.finish _ _
  abort _ h := ⟨h.max, h.within, h.accepted⟩

theorem reachable_restorable (hs : Reachable s) : s.AllSeqs Seq.Restorable := restorable_kept.reachable hs

/-! Grants. -/

/-- The entry filed under `i` can be told from what the snapshot carries. -/
structure GrantRecord.Restorable (i : GrantId) (gr : GrantRecord) : Prop where
  filed : gr.grant.grantId = i
  receipt : gr.hasReceipt = false → gr.receipt = {}

theorem reachable_filed (hs : Reachable s) : ∀ i gr, s.grantLedger.find? i = some gr → gr.Restorable i := by
  refine reachable_invariant (I := fun s => ∀ i gr, s.grantLedger.find? i = some gr → gr.Restorable i) ?_ ?_ hs
  · intro cfg clock i gr hi
    cases hi
  · intro s t a hm h i gr hi
    rcases hm.entry_before hi with ⟨gr₀, hi₀, hup⟩ | ⟨prepared, pm, -, rfl, rfl⟩
    · have h₀ := h i gr₀ hi₀
      refine ⟨hup.grant ▸ h₀.filed, ?_⟩
      cases hup with
      | kept => exact h₀.receipt
      | consume r _ _ => exact fun hflag => by cases hflag
      | abort =>
        unfold GrantRecord.abort
        split <;> exact h₀.receipt
    · exact ⟨rfl, fun _ => rfl⟩

theorem GrantRecord.Restorable.recovered (h : gr.Restorable i) :
    gr.recovered = { gr with status := if gr.status = .pending then .aborted else gr.status } := by
  unfold GrantRecord.recovered
  cases hflag : gr.hasReceipt with
  | true => rfl
  | false => rw [h.receipt hflag]; rfl

/-! The whole fabric. -/

theorem SequenceState.reconciled_terminal (h : st.isTerminal = true) : st.reconciled = st := by
  cases st <;> first | rfl | cases h

theorem SequenceState.reconciled_active (h : st.isTerminal = false) : st.reconciled.isTerminal = false := by
  cases st <;> first | rfl | cases h

/-- `y` is `x` as far as a snapshot goes: every persisted field is the same, the lifecycle is at the same end or
    still at none, and nothing is in flight. -/
structure Seq.SurvivesAs (x y : Seq) : Prop where
  request : y.req.id = x.req.id ∧ y.req.tenant = x.req.tenant ∧ y.req.model = x.req.model ∧
    y.req.revision = x.req.revision
  lengths : y.req.promptLength = x.req.promptLength ∧ y.req.maxGenerationLength = x.req.maxGenerationLength
  attempt : y.currentAttempt = x.currentAttempt ∧ y.attemptCount = x.attemptCount
  tokens : y.generation = x.generation ∧ y.generated = x.generated ∧ y.committed = x.committed ∧
    y.currentLength = x.currentLength
  budget : y.budget = x.budget
  urgency : y.req.deadline = x.req.deadline ∧ y.req.priority = x.req.priority ∧ y.req.latencyClass = x.req.latencyClass
  state : y.state.id = x.state.id ∧ y.state.generation = x.state.generation ∧ y.state.bytesHeld = x.state.bytesHeld ∧
    y.state.estimatedGrowth = x.state.estimatedGrowth ∧ y.state.ownerTag = x.state.ownerTag
  digest : y.committedStateDigest = x.committedStateDigest ∧ y.stateDigestEstablished = x.stateDigestEstablished
  accepted : y.hasAccepted = x.hasAccepted ∧ y.accepted = x.accepted
  terminal : x.machine.isTerminal = true → y.machine = x.machine
  active : x.machine.isTerminal = false → y.machine.isTerminal = false
  idle : y.hasInflight = false ∧ y.inFlightDispatch = 0 ∧ y.hasInflightGrant = false ∧ y.inFlightGrant = 0

theorem Seq.Restorable.recovered_budget (h : x.Restorable) : x.recovered.budget = x.budget := by
  show TokenBudget.replayed x.req.maxGenerationLength x.budget.generated = x.budget
  rw [← h.max, TokenBudget.replayed_eq h.within]

theorem Seq.Restorable.recovered_accepted (h : x.Restorable) : x.recovered.accepted = x.accepted := by
  show (if x.hasAccepted then x.accepted else {}) = x.accepted
  cases hflag : x.hasAccepted with
  | true => rfl
  | false => exact (h.accepted hflag).symm

theorem Seq.Restorable.survives (h : x.Restorable) : x.SurvivesAs x.recovered where
  request := ⟨rfl, rfl, rfl, rfl⟩
  lengths := ⟨rfl, rfl⟩
  attempt := ⟨rfl, rfl⟩
  tokens := ⟨rfl, rfl, rfl, rfl⟩
  budget := h.recovered_budget
  urgency := ⟨rfl, rfl, rfl⟩
  state := ⟨rfl, rfl, rfl, rfl, rfl⟩
  digest := ⟨rfl, rfl⟩
  accepted := ⟨rfl, h.recovered_accepted⟩
  terminal := reconciled_terminal
  active := reconciled_active
  idle := ⟨rfl, rfl, rfl, rfl⟩

theorem reachable_recoverState (hF : Reachable F) (hfit : F.Representable)
    (hmax : F.grantLedger.entries.length ≤ 2 ^ 22) (s : Fabric) :
    s.recoverState F.serializeState = (s.recoveredFrom F, .ok ()) :=
  recoverState_serializeState hfit (fun i gr hi => (reachable_filed hF i gr hi).filed) hmax s

/-- A snapshot of a reachable fabric, recovered into a new one, brings back every field it carries. -/
theorem snapshot_round_trip {F : Fabric} (hF : Reachable F) (hfit : F.Representable)
    (hmax : F.grantLedger.entries.length ≤ 2 ^ 22) (cfg : Config) (clock : TimePoint) :
    ∃ G, (init cfg clock).recoverState F.serializeState = (G, .ok ()) ∧
      G.epoch = F.epoch ∧ G.nextSeq = F.nextSeq ∧ G.nextDispatch = F.nextDispatch ∧
      (∀ q, G.seqs.find? q = none ↔ F.seqs.find? q = none) ∧
      (∀ q x, F.seqs.find? q = some x → ∃ y, G.seqs.find? q = some y ∧ x.SurvivesAs y) ∧
      G.terminalRecords = F.terminalRecords ∧
      G.receiptCount = F.receiptCount ∧
      ∀ i, G.grantLedger.find? i = (F.grantLedger.find? i).map fun gr =>
        { gr with status := if gr.status = .pending then .aborted else gr.status } := by
  refine ⟨(init cfg clock).recoveredFrom F, reachable_recoverState hF hfit hmax _, rfl, rfl, rfl, ?_, ?_, rfl, rfl,
    ?_⟩
  · intro q
    show (F.seqs.map recovered).find? q = none ↔ _
    rw [find?_map, Option.map_eq_none_iff]
  · intro q x hx
    refine ⟨x.recovered, ?_, (reachable_restorable hF q x hx).survives⟩
    show (F.seqs.map recovered).find? q = _
    rw [find?_map, hx]
    rfl
  · intro i
    show (F.grantLedger.map GrantRecord.recovered).find? i = _
    rw [find?_map]
    cases hi : F.grantLedger.find? i with
    | none => rfl
    | some gr => exact congrArg some (reachable_filed hF i gr hi).recovered

namespace Sample

/-- The fabric after the first token. -/
def afterToken : Fabric := start.execAll committed

theorem afterToken_reachable : Reachable afterToken := ⟨_, runsTo committed⟩

theorem afterToken_representable : afterToken.Representable where
  counters := by decide
  sizes := by decide
  seqs := by decide
  terminals := by decide
  grants := by decide

end Sample

theorem snapshot_round_trip_afterToken :
    ∃ G y, (init {} 0).recoverState afterToken.serializeState = (G, .ok ()) ∧
      G.seqs.find? 1 = some y ∧ y.generated = 1 ∧ y.accepted.dispatch = 1 ∧ y.hasInflight = false := by
  obtain ⟨G, hG, -, -, -, -, hseqs, -⟩ := snapshot_round_trip afterToken_reachable
    afterToken_representable (by decide) {} 0
  obtain ⟨x, hx, hgen, hacc⟩ : ∃ x, afterToken.seqs.find? 1 = some x ∧ x.generated = 1 ∧ x.accepted.dispatch = 1 :=
    ⟨_, rfl, rfl, rfl⟩
  obtain ⟨y, hy, hsurvives⟩ := hseqs 1 x hx
  exact ⟨G, y, hG, hy, hsurvives.tokens.2.1.trans hgen, by rw [hsurvives.accepted.2, hacc], hsurvives.idle.1⟩

theorem recoverState_ok_iff (hF : Reachable F) (hfit : F.Representable) (s : Fabric) :
    (s.recoverState F.serializeState).2 = .ok () ↔ F.grantLedger.entries.length ≤ 2 ^ 22 := by
  constructor
  · intro hok
    by_contra hmax
    rw [recoverState_refuses hfit (Nat.not_le.mp hmax)] at hok
    cases hok
  · intro hmax
    rw [reachable_recoverState hF hfit hmax]

/-- What a successful recovery leaves. -/
theorem recovered_eq {G : Fabric} (hF : Reachable F) (hfit : F.Representable)
    (hG : s.recoverState F.serializeState = (G, .ok ())) : G = s.recoveredFrom F := by
  have hmax := (recoverState_ok_iff hF hfit s).mp (by rw [hG])
  rw [reachable_recoverState hF hfit hmax] at hG
  exact (congrArg Prod.fst hG).symm

/-- A snapshot is recovered if and only if its ledger is within the bound of the reader. -/
theorem recovery_succeeds_iff {F : Fabric} (hF : Reachable F) (hfit : F.Representable) (cfg : Config)
    (clock : TimePoint) :
    ((init cfg clock).recoverState F.serializeState).2 = .ok () ↔ F.grantLedger.entries.length ≤ 2 ^ 22 :=
  recoverState_ok_iff hF hfit (init cfg clock)

theorem recovery_succeeds_afterToken : ((init {} 0).recoverState afterToken.serializeState).2 = .ok () :=
  (recovery_succeeds_iff afterToken_reachable afterToken_representable {} 0).mpr (by decide)

namespace Sample

/-- Worker 1 prepares dispatch 1 and gives it up: the sequence is as before, the ledger longer by an aborted grant. -/
def givenUp : List Op := [.authorizePrepared prepared, .abortPrepared { sequence := 1, proposal := 1 }]

def idle : Fabric := start.execAll (dispatched ++ givenUp)

/-- The fabric after more rounds of that kind. -/
def idleWith (next : Nat) (ledger : Table GrantId GrantRecord) (events : List Event) (head : Nat) : Fabric :=
  { idle with nextGrant := next, grantLedger := ledger, events := events, eventHead := head }

theorem idleWith_givenUp (next : Nat) (ledger : Table GrantId GrantRecord) (events : List Event) (head : Nat) :
    ∃ events' head', (idleWith next ledger events head).execAll givenUp =
      idleWith (next + 1)
        ((ledger.insert next { grant := makeGrant next prepared member }).modify next GrantRecord.abort)
        events' head' :=
  ⟨_, _, rfl⟩

/-- A ledger of `n` grants, numbered from 1, that a snapshot can write. -/
structure Ledger (n : Nat) (ledger : Table GrantId GrantRecord) : Prop where
  size : ledger.entries.length = n
  numbered : ∀ e ∈ ledger.entries, e.1 ≤ n
  fits : ∀ e ∈ ledger.entries, e.2.Representable

theorem abort_representable (h : gr.Representable) : gr.abort.Representable := by
  unfold GrantRecord.abort
  split
  · exact ⟨h.grant, h.receipt, h.active, h.receiptActive, h.committedAt⟩
  · exact h

theorem makeGrant_representable (hi : i < 2 ^ 64) :
    ({ grant := makeGrant i prepared member } : GrantRecord).Representable := by
  have hzero : ({ grant := makeGrant 0 prepared member } : GrantRecord).Representable := by decide
  refine ⟨fun n hn => ?_, hzero.receipt, hzero.active, hzero.receiptActive, hzero.committedAt⟩
  rcases List.mem_cons.mp hn with rfl | hn
  · exact hi
  · exact hzero.grant n (List.mem_cons_of_mem _ hn)

theorem Ledger.givenUp {n : Nat} (h : Ledger n ledger) (hn : n + 1 < 2 ^ 64) : Ledger (n + 1)
      ((ledger.insert (n + 1) { grant := makeGrant (n + 1) prepared member }).modify (n + 1) GrantRecord.abort) := by
  have hnew : ledger.find? (n + 1) = none := by
    refine find?_eq_none_iff.mpr fun hmem => ?_
    obtain ⟨e, he, hid⟩ := List.mem_map.mp hmem
    exact absurd (h.numbered e he) (hid ▸ Nat.not_succ_le_self n)
  have hentries := insert_new hnew { grant := makeGrant (n + 1) prepared member }
  have hmem : ∀ e ∈ ((ledger.insert (n + 1) { grant := makeGrant (n + 1) prepared member }).modify (n + 1)
      GrantRecord.abort).entries, e.1 ≤ n + 1 ∧ e.2.Representable := by
    intro e he
    obtain ⟨e', he', rfl⟩ := List.mem_map.mp he
    rw [hentries, List.mem_append] at he'
    have hold : e'.1 ≤ n + 1 ∧ e'.2.Representable := by
      rcases he' with he' | he'
      · exact ⟨Nat.le_succ_of_le (h.numbered e' he'), h.fits e' he'⟩
      · rw [List.mem_singleton.mp he']
        exact ⟨Nat.le_refl _, makeGrant_representable hn⟩
    split
    · exact ⟨hold.1, abort_representable hold.2⟩
    · exact hold
  refine ⟨?_, fun e he => (hmem e he).1, fun e he => (hmem e he).2⟩
  show (List.map _ _).length = _
  rw [List.length_map, hentries, List.length_append, h.size]
  rfl

/-- The ledger can get as long as one likes. -/
theorem reachable_ledger : ∀ n, n + 2 ≤ 2 ^ 64 → ∃ ledger events head,
    Reachable (idleWith (n + 2) ledger events head) ∧ Ledger (n + 1) ledger
  | 0, _ => ⟨idle.grantLedger, idle.events, idle.eventHead, ⟨_, runsTo (dispatched ++ givenUp)⟩,
      ⟨by decide, by decide, by decide⟩⟩
  | n + 1, hn => by
    obtain ⟨ledger, events, head, ⟨h, cfg, clock, hr⟩, hledger⟩ := reachable_ledger n (by omega)
    obtain ⟨events', head', hround⟩ := idleWith_givenUp (n + 2) ledger events head
    refine ⟨_, events', head', ⟨_, cfg, clock, hr.append (hround ▸ trace_run _ givenUp)⟩, hledger.givenUp (by omega)⟩

theorem idle_representable : idle.Representable where
  counters := by decide
  sizes := by decide
  seqs := by decide
  terminals := by decide
  grants := by decide

theorem idleWith_representable {n : Nat} (h : Ledger n ledger) (hn : n < 2 ^ 64)
    (next : Nat) (events : List Event) (head : Nat) : (idleWith next ledger events head).Representable := by
  refine ⟨idle_representable.counters, fun i hi => ?_, idle_representable.seqs, idle_representable.terminals, h.fits⟩
  change i ∈ [idle.seqs.entries.length, idle.terminalRecords.entries.length, ledger.entries.length] at hi
  rw [h.size] at hi
  simp only [List.mem_cons, List.not_mem_nil, or_false] at hi
  rcases hi with rfl | rfl | rfl
  · decide
  · decide
  · exact hn

end Sample

/-- After 2^22 + 1 grants, all of them given up, the fabric writes a snapshot that no fabric accepts. -/
theorem long_ledger_unrecoverable : ∃ F, Reachable F ∧ F.Representable ∧ F.grantLedger.entries.length = 2 ^ 22 + 1 ∧
      ((init {} 0).recoverState F.serializeState).2 =
        .error ⟨.persistenceInvalidField, "grant count too large"⟩ := by
  obtain ⟨ledger, events, head, hreachable, hledger⟩ := reachable_ledger (2 ^ 22) (by decide)
  have hfits := idleWith_representable hledger (by decide) (2 ^ 22 + 2) events head
  refine ⟨_, hreachable, hfits, hledger.size, recoverState_refuses hfits ?_ _⟩
  show 2 ^ 22 < ledger.entries.length
  rw [hledger.size]
  omega

/-! What a recovered sequence is dispatched with. -/

theorem Fabric.recoveredFrom_seq (hx : F.seqs.find? q = some x) :
    (s.recoveredFrom F).seqs.find? q = some x.recovered := by
  show (F.seqs.map recovered).find? q = _
  rw [find?_map, hx]
  rfl

theorem Fabric.recoveredFrom_before {y : Seq}
    (hy : (s.recoveredFrom F).seqs.find? q = some y) : ∃ x, F.seqs.find? q = some x ∧ x.recovered = y := by
  change (F.seqs.map recovered).find? q = some y at hy
  rw [find?_map] at hy
  exact Option.map_eq_some_iff.mp hy

/-- A table with one worker, who serves one key. -/
def oneWorker (device : DeviceId) (key : CompatibilityKey) : Table WorkerId WorkerDescriptor :=
  ⟨[(1, { id := 1, bootId := 1, device := { id := device }, supportedModels := [key] })], List.nodup_singleton 1⟩

/-- The key a request resolves to where one worker serves one key. -/
theorem keyForModel_oneWorker (s : Fabric) (device : DeviceId) (key : CompatibilityKey) (req : DecodeRequest) :
    ({ s with workers := oneWorker device key } : Fabric).keyForModel req =
      if (req.deviceConstraint = 0 ∨ device = req.deviceConstraint) ∧
        key.model = req.model ∧ key.revision = req.revision ∧ key.adapter = req.adapter then key else {} := by
  by_cases hdev : req.deviceConstraint ≠ 0 ∧ device ≠ req.deviceConstraint
  · simp [keyForModel, oneWorker, hdev]
  · have hfree : req.deviceConstraint = 0 ∨ device = req.deviceConstraint := by
      by_contra hnot
      exact hdev (not_or.mp hnot)
    by_cases hkey : key.model = req.model ∧ key.revision = req.revision ∧ key.adapter = req.adapter
    · simp [keyForModel, oneWorker, hdev, hfree, hkey]
    · simp [keyForModel, oneWorker, hdev, hfree, hkey]

/-- The fields of a sequence that a dispatch depends on and a snapshot drops are unset. -/
def Seq.Plain (x : Seq) : Prop :=
  x.req.adapter = 0 ∧ x.req.deviceConstraint = 0 ∧ x.req.samplingMetadata = [] ∧
    x.state.device = 0 ∧ x.state.accessVersion = 0

namespace Seq
variable {x : Seq}

theorem Plain.keyForModel (h : x.Plain) (hw : s.workers = t.workers) :
    s.keyForModel x.recovered.req = t.keyForModel x.req := by
  obtain ⟨hadapter, hdevice, -⟩ := h
  unfold Fabric.keyForModel
  rw [hw, hadapter, hdevice]
  rfl

theorem Plain.memberSpec (h : x.Plain) (hr : x.Restorable) (q : SequenceId) :
    x.recovered.memberSpec q = x.memberSpec q := by
  obtain ⟨-, -, hsampling, hdevice, hversion⟩ := h
  have hstate : x.recovered.state = x.state := by
    show ({ id := x.state.id, generation := x.state.generation, bytesHeld := x.state.bytesHeld,
            estimatedGrowth := x.state.estimatedGrowth, ownerTag := x.state.ownerTag } : StateDescriptor) = x.state
    rw [← hdevice, ← hversion]
  unfold Seq.memberSpec
  rw [hstate, hr.recovered_budget, hsampling]
  rfl

/-- A dropped adapter or device constraint is noticed by some worker. -/
theorem plain_of_keys (hkeys : ∀ workers,
    ({ s with workers } : Fabric).keyForModel x.recovered.req = ({ t with workers } : Fabric).keyForModel x.req) :
    x.req.adapter = 0 ∧ x.req.deviceConstraint = 0 := by
  have hadapter : x.req.adapter = 0 := by
    by_contra hne
    have hkey := hkeys (oneWorker x.req.deviceConstraint
      { model := x.req.model, revision := x.req.revision, adapter := x.req.adapter })
    rw [keyForModel_oneWorker, keyForModel_oneWorker, if_neg (fun h => hne h.2.2.2), if_pos (by simp)] at hkey
    exact hne (congrArg CompatibilityKey.adapter hkey).symm
  refine ⟨hadapter, ?_⟩
  by_contra hne
  have hkey := hkeys (oneWorker (x.req.deviceConstraint + 1)
    { model := x.req.model, revision := x.req.revision, dtype := .f16 })
  rw [keyForModel_oneWorker, keyForModel_oneWorker, if_pos ⟨.inl rfl, rfl, rfl, rfl⟩,
    if_neg (fun h => by simp [hne] at h)] at hkey
  have hdtype : DType.f16 = DType.f32 := congrArg CompatibilityKey.dtype hkey
  cases hdtype

end Seq

/-- After a recovery a sequence resolves to the same key among any workers, and is described to a worker the same
    way, if and only if the request attributes the snapshot drops were unset. -/
theorem recovery_keeps_dispatch_iff {F G : Fabric} (hF : Reachable F) (hfit : F.Representable) {cfg : Config}
    {clock : TimePoint} (hG : (init cfg clock).recoverState F.serializeState = (G, .ok ())) {q : SequenceId}
    {x : Seq} (hx : F.seqs.find? q = some x) : (∀ workers, ∃ y, G.seqs.find? q = some y ∧
      ({ G with workers } : Fabric).keyForModel y.req = ({ F with workers } : Fabric).keyForModel x.req ∧
      y.memberSpec q = x.memberSpec q) ↔
    x.req.adapter = 0 ∧ x.req.deviceConstraint = 0 ∧ x.req.samplingMetadata = [] ∧
      x.state.device = 0 ∧ x.state.accessVersion = 0 := by
  obtain rfl := recovered_eq hF hfit hG
  have hy := recoveredFrom_seq (s := init cfg clock) hx
  constructor
  · intro hsame
    have hrecovered : ∀ workers, ({ (init cfg clock).recoveredFrom F with workers } : Fabric).keyForModel
        x.recovered.req = ({ F with workers } : Fabric).keyForModel x.req ∧
        x.recovered.memberSpec q = x.memberSpec q := by
      intro workers
      obtain ⟨y, hy', hboth⟩ := hsame workers
      cases hy.symm.trans hy'
      exact hboth
    obtain ⟨hadapter, hdevice⟩ := plain_of_keys fun workers => (hrecovered workers).1
    have hspec := (hrecovered .empty).2
    have hstate : x.recovered.state = x.state := congrArg DecodeMemberSpec.state hspec
    exact ⟨hadapter, hdevice, (congrArg DecodeMemberSpec.payload hspec).symm,
      (congrArg StateDescriptor.device hstate).symm, (congrArg StateDescriptor.accessVersion hstate).symm⟩
  · intro hplain workers
    exact ⟨x.recovered, hy, Seq.Plain.keyForModel hplain rfl,
      Seq.Plain.memberSpec hplain (reachable_restorable hF q x hx) q⟩

theorem recovery_keeps_dispatch_afterToken :
    ∃ G x, (init {} 0).recoverState afterToken.serializeState = (G, .ok ()) ∧
      afterToken.seqs.find? 1 = some x ∧
      ∀ workers, ∃ y, G.seqs.find? 1 = some y ∧
        ({ G with workers } : Fabric).keyForModel y.req = ({ afterToken with workers } : Fabric).keyForModel x.req ∧
        y.memberSpec 1 = x.memberSpec 1 := by
  have hG := reachable_recoverState afterToken_reachable afterToken_representable (by decide)
    (init {} 0)
  exact ⟨_, _, hG, rfl, (recovery_keeps_dispatch_iff afterToken_reachable afterToken_representable hG
    (q := 1) rfl).mpr ⟨rfl, rfl, rfl, rfl, rfl⟩⟩

namespace Sample

/-- A request for an adapter, with a stop token in its sampling metadata. -/
def adapted : List Op :=
  [.registerWorker { worker 1 1 with supportedModels := [{ key with adapter := 7 }] },
   .submit { request with adapter := 7, samplingMetadata := [1, 42] }]

end Sample

/-- A sequence submitted for adapter 7 with a stop token comes back without either: no key serves it any more, and
    its next step would run without the stop condition. -/
theorem recovery_drops_adapter :
    ∃ F G x y, Reachable F ∧ (init {} 0).recoverState F.serializeState = (G, .ok ()) ∧
      F.seqs.find? 1 = some x ∧ x.machine.isTerminal = false ∧ G.seqs.find? 1 = some y ∧
      F.keyForModel x.req = { key with adapter := 7 } ∧
      ({ G with workers := F.workers } : Fabric).keyForModel y.req = {} ∧
      (x.memberSpec 1).payload = [1, 42] ∧ (y.memberSpec 1).payload = [] := by
  have hF : Reachable (start.execAll adapted) := ⟨_, runsTo adapted⟩
  have hfit : (start.execAll adapted).Representable :=
    ⟨by decide, by decide, by decide, by decide, by decide⟩
  refine ⟨_, _, _, _, hF, reachable_recoverState hF hfit (by decide) _, rfl, rfl, rfl, ?_, ?_, ?_, ?_⟩ <;> rfl

end DecodeFabric
