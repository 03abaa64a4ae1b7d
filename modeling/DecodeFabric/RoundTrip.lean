import DecodeFabric.Snapshot

/- Round trips of snapshots.

   A field read back is the field written, as far as the source's types reach: identifiers and counts
   are 64-bit there and naturals here, times are 64-bit and integers here, so the results ask
   for values of that size (`Fabric.Representable`). Records, counted tables and the whole snapshot
   follow field by field. `Fabric.recoveredFrom` is what recovery then leaves, and every result about
   a recovered fabric is about that. -/
namespace DecodeFabric
open Lib Table List DecodeFabric.Seq

/-! The enumerations survive. -/

theorem castByte_undeclared {α : Type} {declared : List α} {k : Nat} (hk : declared.length + k = 256)
    (undeclared : Fin k → α) (i : Fin k) :
    castByte declared hk undeclared (.ofNat (declared.length + i)) = undeclared i := by
  have hi := i.isLt
  have hb : (UInt8.ofNat (declared.length + i)).toNat = declared.length + i :=
    UInt8.toNat_ofNat_of_lt' (by show declared.length + i.val < 256; omega)
  unfold castByte
  rw [dif_neg (by omega)]
  congr 1
  apply Fin.ext
  show (UInt8.ofNat (declared.length + i)).toNat - declared.length = i
  omega

@[simp] theorem SequenceState.ofByte_byte (st : SequenceState) : .ofByte st.byte = st := by
  cases st with
  | undeclared i => exact castByte_undeclared _ _ i
  | _ => rfl

@[simp] theorem LatencyClass.ofByte_byte (c : LatencyClass) : .ofByte (.ofNat c.byte) = c := by
  cases c with
  | undeclared i => exact castByte_undeclared _ _ i
  | _ => rfl

@[simp] theorem MemberOutcomeKind.ofByte_byte (k : MemberOutcomeKind) : .ofByte k.byte = k := by
  cases k with
  | undeclared i => exact castByte_undeclared _ _ i
  | _ => rfl

/-! One field. -/

section Fields
variable {P : Prop} (what : String)

theorem coded_u8 (v : UInt8) : Coded P (u8 what) (putU8 v) v := by
  have h := (Coded.word (P := P) 1 v.toNat (truncated what)).map UInt8.ofNat
  have hv : v.toNat % 256 = v.toNat := Nat.mod_eq_of_lt v.toNat_lt
  simp only [putLE, Nat.pow_one, hv, UInt8.ofNat_toNat] at h
  exact h

theorem coded_u32 (v : UInt32) : Coded P (u32 what) (putU32 v) v := by
  have h := (Coded.word (P := P) 4 v.toNat (truncated what)).map UInt32.ofNat
  rw [Nat.mod_eq_of_lt (show v.toNat < 256 ^ 4 from v.toNat_lt), UInt32.ofNat_toNat] at h
  exact h

theorem coded_u64 (v : UInt64) : Coded P (u64 what) (putU64 v) v := by
  have h := (Coded.word (P := P) 8 v.toNat (truncated what)).map UInt64.ofNat
  rw [Nat.mod_eq_of_lt (show v.toNat < 256 ^ 8 from v.toNat_lt), UInt64.ofNat_toNat] at h
  exact h

theorem coded_flag (b : Bool) : Coded P (flag what) (putFlag b) b := by
  have h := (coded_u8 (P := P) what (if b then 1 else 0)).map (· != 0)
  cases b <;> exact h

theorem coded_id {n : Nat} (hn : n < 2 ^ 64) : Coded P (id64 what) (putId n) n := by
  have h := Coded.word (P := P) 8 n (truncated what)
  rw [Nat.mod_eq_of_lt (show n < 256 ^ 8 from hn)] at h
  exact h

theorem coded_ns {t : Nanoseconds} (h₁ : -2 ^ 63 ≤ t) (h₂ : t < 2 ^ 63) : Coded P (ns what) (putNs t) t := by
  have h := (coded_u64 (P := P) what (Int64.ofInt t).toUInt64).map (fun v => v.toInt64.toInt)
  have ht : (Int64.ofInt t).toUInt64.toInt64.toInt = t := Int64.toInt_ofInt_of_le h₁ h₂
  rwa [ht] at h

theorem reads_id {n : Nat} (hn : n < 2 ^ 64) : Reads (id64 what) (putId n) n := (coded_id what hn).reads trivial

end Fields

/-! What the source's types can hold. -/

/-- A signed 64-bit time. -/
def TimeFits (t : Int) : Prop := -2 ^ 63 ≤ t ∧ t < 2 ^ 63

instance : DecidablePred TimeFits := fun t => inferInstanceAs (Decidable (-2 ^ 63 ≤ t ∧ t < 2 ^ 63))

/-- Unsigned 64-bit identifiers or counts. -/
def IdsFit (ids : List Nat) : Prop := ∀ n ∈ ids, n < 2 ^ 64

instance : DecidablePred IdsFit := fun ids => inferInstanceAs (Decidable (∀ n ∈ ids, n < 2 ^ 64))

def AcceptedGeneration.ids (a : AcceptedGeneration) : List Nat :=
  [a.epoch, a.worker, a.workerBoot, a.sequence, a.state, a.attempt, a.generation, a.dispatch]

def Seq.ids (x : Seq) : List Nat :=
  [x.req.id, x.currentAttempt, x.req.tenant, x.req.model, x.req.revision, x.generation, x.state.id]

def CommitGrant.ids (g : CommitGrant) : List Nat :=
  [g.grantId, g.proposal, g.epoch, g.worker, g.workerBoot, g.sequence, g.state, g.attempt, g.generation, g.dispatch]

def MemberReceipt.ids (r : MemberReceipt) : List Nat :=
  [r.receiptId, r.grantId, r.proposal, r.epoch, r.worker, r.workerBoot, r.sequence, r.state, r.attempt, r.generation,
    r.dispatch]

structure Seq.Representable (x : Seq) : Prop where
  ids : IdsFit x.ids
  accepted : IdsFit x.accepted.ids
  deadline : TimeFits x.req.deadline

structure GrantRecord.Representable (gr : GrantRecord) : Prop where
  grant : IdsFit gr.grant.ids
  receipt : IdsFit gr.receipt.ids
  active : TimeFits gr.grant.activeNs
  receiptActive : TimeFits gr.receipt.activeNs
  committedAt : TimeFits gr.receipt.committedAt

/-- Everything a snapshot writes is a value its source type holds, the sizes of the tables included. -/
structure Fabric.Representable (s : Fabric) : Prop where
  counters : IdsFit [s.epoch, s.nextSeq, s.nextDispatch, s.receiptCount]
  sizes : IdsFit [s.seqs.entries.length, s.terminalRecords.entries.length, s.grantLedger.entries.length]
  seqs : ∀ e ∈ s.seqs.entries, e.1 < 2 ^ 64 ∧ e.2.Representable
  terminals : ∀ e ∈ s.terminalRecords.entries, e.1 < 2 ^ 64
  grants : ∀ e ∈ s.grantLedger.entries, e.2.Representable

instance (x : Seq) : Decidable x.Representable :=
  decidable_of_iff (IdsFit x.ids ∧ IdsFit x.accepted.ids ∧ TimeFits x.req.deadline)
    ⟨fun h => ⟨h.1, h.2.1, h.2.2⟩, fun h => ⟨h.ids, h.accepted, h.deadline⟩⟩

instance (gr : GrantRecord) : Decidable gr.Representable :=
  decidable_of_iff (IdsFit gr.grant.ids ∧ IdsFit gr.receipt.ids ∧ TimeFits gr.grant.activeNs ∧
      TimeFits gr.receipt.activeNs ∧ TimeFits gr.receipt.committedAt)
    ⟨fun h => ⟨h.1, h.2.1, h.2.2.1, h.2.2.2.1, h.2.2.2.2⟩,
     fun h => ⟨h.grant, h.receipt, h.active, h.receiptActive, h.committedAt⟩⟩

/-! What recovery makes of a record. -/

/-- The sequence that comes back for `x`. -/
def Seq.recovered (x : Seq) : Seq where
  req :=
    { id := x.req.id
      tenant := x.req.tenant
      model := x.req.model
      revision := x.req.revision
      promptLength := x.req.promptLength
      maxGenerationLength := x.req.maxGenerationLength
      deadline := x.req.deadline
      priority := x.req.priority
      latencyClass := x.req.latencyClass }
  machine := x.machine.reconciled
  currentAttempt := x.currentAttempt
  budget := .replayed x.req.maxGenerationLength x.budget.generated
  generation := x.generation
  generated := x.generated
  committed := x.committed
  currentLength := x.currentLength
  state :=
    { id := x.state.id
      generation := x.state.generation
      bytesHeld := x.state.bytesHeld
      estimatedGrowth := x.state.estimatedGrowth
      ownerTag := x.state.ownerTag }
  attemptCount := x.attemptCount
  committedStateDigest := x.committedStateDigest
  stateDigestEstablished := x.stateDigestEstablished
  hasAccepted := x.hasAccepted
  accepted := if x.hasAccepted then x.accepted else {}

/-- The ledger entry that comes back for `gr`. -/
def GrantRecord.recovered (gr : GrantRecord) : GrantRecord :=
  { gr with
    status := if gr.status = .pending then .aborted else gr.status
    receipt := if gr.hasReceipt then gr.receipt else {} }

/-! Reading past a field. -/

section Run
variable {α : Type} (what : String) (rest : Bytes)

theorem run_u8 (v : UInt8) (k : UInt8 → Reader Error α) : (u8 what >>= k).run (putU8 v ++ rest) = (k v).run rest :=
  ((coded_u8 what v).reads trivial).run_bind k rest

theorem run_u32 (v : UInt32) (k : UInt32 → Reader Error α) :
    (u32 what >>= k).run (putU32 v ++ rest) = (k v).run rest := ((coded_u32 what v).reads trivial).run_bind k rest

theorem run_u64 (v : UInt64) (k : UInt64 → Reader Error α) :
    (u64 what >>= k).run (putU64 v ++ rest) = (k v).run rest := ((coded_u64 what v).reads trivial).run_bind k rest

theorem run_flag (b : Bool) (k : Bool → Reader Error α) :
    (flag what >>= k).run (putFlag b ++ rest) = (k b).run rest := ((coded_flag what b).reads trivial).run_bind k rest

theorem run_id {n : Nat} (hn : n < 2 ^ 64) (k : Nat → Reader Error α) :
    (id64 what >>= k).run (putId n ++ rest) = (k n).run rest := (reads_id what hn).run_bind k rest

theorem run_ns {t : Nanoseconds} (ht : TimeFits t) (k : Nanoseconds → Reader Error α) :
    (ns what >>= k).run (putNs t ++ rest) = (k t).run rest := ((coded_ns what ht.1 ht.2).reads trivial).run_bind k rest

end Run

/-! One record. -/

theorem reads_accepted {a : AcceptedGeneration} (h : IdsFit a.ids) : Reads readAccepted (writeAccepted a) a := by
  intro rest
  simp only [IdsFit, AcceptedGeneration.ids, forall_mem_cons] at h
  simp only [readAccepted, writeAccepted, flatten_cons, append_assoc, ↓run_u64, ↓run_flag, ↓run_id, h]
  rfl

theorem reads_seq {q : SequenceId} {x : Seq} (hq : q < 2 ^ 64) (h : x.Representable) :
    Reads readSeq (writeSeq q x) (q, x.recovered) := by
  intro rest
  have hids := h.ids
  simp only [IdsFit, ids, forall_mem_cons] at hids
  simp only [readSeq, writeSeq, flatten_cons, append_assoc, ↓run_u8, ↓run_u32, ↓run_u64, ↓run_flag, ↓run_id,
    ↓run_ns, hq, hids, h.deadline]
  rw [((reads_accepted h.accepted).optional x.hasAccepted {}).run_bind, SequenceState.ofByte_byte,
    LatencyClass.ofByte_byte]
  rfl

theorem reads_terminal {q : SequenceId} (hq : q < 2 ^ 64) (st : SequenceState) :
    Reads readTerminal (writeTerminal q st) (q, st) := by
  intro rest
  simp only [readTerminal, writeTerminal, append_assoc, run_id, run_u8, hq, SequenceState.ofByte_byte]
  rfl

theorem reads_receipt {r : MemberReceipt} (h : IdsFit r.ids) (ha : TimeFits r.activeNs) (hc : TimeFits r.committedAt) :
    Reads readReceipt (writeReceipt r) r := by
  intro rest
  simp only [IdsFit, MemberReceipt.ids, forall_mem_cons] at h
  simp only [readReceipt, writeReceipt, flatten_cons, append_assoc, ↓run_u8, ↓run_u32, ↓run_u64, ↓run_flag,
    ↓run_id, ↓run_ns, h, ha, hc, MemberOutcomeKind.ofByte_byte]
  rfl

theorem GrantStatus.recover_word (st : GrantStatus) : .recover st.word = if st = .pending then .aborted else st := by
  cases st <;> rfl

theorem reads_grant {gr : GrantRecord} (h : gr.Representable) : Reads readGrant (writeGrant gr) gr.recovered := by
  intro rest
  have hids := h.grant
  simp only [IdsFit, CommitGrant.ids, forall_mem_cons] at hids
  simp only [readGrant, writeGrant, flatten_cons, append_assoc, ↓run_u8, ↓run_u32, ↓run_u64, ↓run_flag,
    ↓run_id, ↓run_ns, hids, h.active]
  rw [((reads_receipt h.receipt h.receiptActive h.committedAt).optional gr.hasReceipt {}).run_bind,
    MemberOutcomeKind.ofByte_byte, GrantStatus.recover_word]
  rfl

theorem reads_header {s : Fabric} (h : IdsFit [s.epoch, s.nextSeq, s.nextDispatch, s.receiptCount]) :
    Reads readHeader s.writeHeader ⟨s.epoch, s.nextSeq, s.nextDispatch⟩ := by
  intro rest
  simp only [IdsFit, forall_mem_cons] at h
  have hversion := Reads.word 4 kPersistenceVersion.toNat
    (⟨.persistenceUnknownVersion, "bad persistence version"⟩ : Error)
  simp only [readHeader, Fabric.writeHeader, append_assoc, run_u8]
  rw [Reader.run_failIf (by decide), putU32, hversion.run_bind, Reader.run_failIf (by decide)]
  simp only [run_id, h]
  rfl

/-! Tables. -/

/-- A count, then as many records. -/
theorem loads_counted {ι : Type} (what : String) {body : Recovery Unit} {write : ι → Bytes} {step : Fabric → ι → Fabric}
    {items : List ι} (hlen : items.length < 2 ^ 64) (h : ∀ i ∈ items, ∀ s, Loads body s (write i) () (step s i))
    (s : Fabric) :
    Loads (Load.read (id64 what) >>= fun n => Load.times n body) s (putId items.length ++ items.flatMap write) ()
      (items.foldl step s) :=
  (Loads.read (reads_id what hlen) s).bind (Loads.times items s h)

namespace Fabric
variable {F : Fabric}

/-- The sequences of `F` entered one after the other. -/
def restoreSeqs (F s : Fabric) : Fabric := F.seqs.entries.foldl (fun s e => s.restoreSeq (e.1, e.2.recovered)) s

def restoreTerminals (F s : Fabric) : Fabric := F.terminalRecords.entries.foldl restoreTerminal s

def restoreGrants (F s : Fabric) : Fabric := F.grantLedger.entries.foldl (fun s e => s.restoreGrant e.2.recovered) s

def clearGrants (s : Fabric) : Fabric := { s with grantLedger := .empty, receiptCount := 0 }

theorem loads_seqs (h : F.Representable) (s : Fabric) : Loads recoverSeqs s F.writeSeqs () (F.restoreSeqs s) := by
  have hlen : F.seqs.entries.length < 2 ^ 64 := h.sizes _ (by simp)
  have hbody : ∀ e ∈ F.seqs.entries, ∀ s : Fabric,
      Loads recoverSeq s (writeSeq e.1 e.2) () (s.restoreSeq (e.1, e.2.recovered)) := by
    intro e he s
    obtain ⟨hq, hx⟩ := h.seqs e he
    unfold recoverSeq
    exact Loads.enter (reads_seq hq hx) (fun e s => restoreSeq s e) s
  exact loads_counted "seq count" hlen hbody s

theorem loads_terminals (h : F.Representable) (s : Fabric) :
    Loads recoverTerminals s F.writeTerminals () (F.restoreTerminals s) := by
  have hlen : F.terminalRecords.entries.length < 2 ^ 64 := h.sizes _ (by simp)
  have hbody : ∀ e ∈ F.terminalRecords.entries, ∀ s : Fabric,
      Loads recoverTerminal s (writeTerminal e.1 e.2) () (s.restoreTerminal e) := by
    intro e he s
    unfold recoverTerminal
    exact Loads.enter (reads_terminal (h.terminals e he) e.2) (fun e s => restoreTerminal s e) s
  exact loads_counted "terminal count" hlen hbody s

theorem reads_grant_count (h : F.Representable) :
    Reads (id64 "grant count") (putId F.grantLedger.entries.length) F.grantLedger.entries.length :=
  reads_id "grant count" (h.sizes F.grantLedger.entries.length (by simp))

theorem loads_grants (h : F.Representable) (hmax : F.grantLedger.entries.length ≤ maxRecoveredGrants) (s : Fabric) :
    Loads recoverGrants s F.writeGrants () (F.restoreGrants s.clearGrants) := by
  have hbody : ∀ e ∈ F.grantLedger.entries, ∀ s : Fabric,
      Loads recoverGrant s (writeGrant e.2) () (s.restoreGrant e.2.recovered) := by
    intro e he s
    unfold recoverGrant
    exact Loads.enter (reads_grant (h.grants e he)) (fun gr s => restoreGrant s gr) s
  intro rest
  unfold recoverGrants writeGrants
  rw [Load.exec_change_bind, append_assoc, (Loads.read (reads_grant_count h) _).exec_bind,
    if_neg (Nat.not_lt.mpr hmax), Loads.times _ _ hbody]
  rfl

/-- Too many grants are refused, what was restored before them staying restored. -/
theorem refuses_grants (h : F.Representable) (hmax : maxRecoveredGrants < F.grantLedger.entries.length) (s : Fabric)
    (rest : Bytes) : recoverGrants.exec (F.writeGrants ++ rest) s =
      (.error ⟨.persistenceInvalidField, "grant count too large"⟩, s.clearGrants) := by
  unfold recoverGrants writeGrants
  rw [Load.exec_change_bind, append_assoc, (Loads.read (reads_grant_count h) _).exec_bind, if_pos hmax,
    Load.exec_fail]
  rfl

/-! The whole snapshot. -/

theorem checkTrailer_serialize {body : Bytes} (h : 0 < body.length) :
    checkTrailer (body ++ putU32 (checksum body)) = .ok () := by
  have hlen : (putU32 (checksum body)).length = 4 := length_putLE 4 _
  have hcrc : UInt32.ofNat (getLE (putU32 (checksum body))) = checksum body := by
    rw [putU32, getLE_putLE, Nat.mod_eq_of_lt (show (checksum body).toNat < 256 ^ 4 from UInt32.toNat_lt _),
      UInt32.ofNat_toNat]
  unfold checkTrailer
  rw [if_neg (by rw [length_append, hlen]; omega), length_append, hlen, Nat.add_sub_cancel,
    take_left, drop_left, hcrc]
  simp

/-- What recovery from a snapshot of `F` makes of `s`. -/
def recoveredFrom (s F : Fabric) : Fabric :=
  recount
    { s with
      epoch := F.epoch
      nextSeq := F.nextSeq
      nextDispatch := F.nextDispatch
      seqs := F.seqs.map recovered
      reqToSeq := F.seqs.entries.foldl (fun t e => t.insert e.2.req.id e.1) .empty
      terminalRecords := F.terminalRecords
      tenantActive := F.seqs.entries.foldl (fun t e => t.insert e.2.req.tenant (t.getD e.2.req.tenant 0 + 1)) .empty
      grantLedger := F.grantLedger.map GrantRecord.recovered }
    F.receiptCount

theorem restoreSeqs_eq (F s : Fabric) : F.restoreSeqs s = { s with
      seqs := F.seqs.entries.foldl
        (fun t e => if (t.find? e.1).isSome then t else t.insert e.1 e.2.recovered) s.seqs
      reqToSeq := F.seqs.entries.foldl (fun t e => t.insert e.2.req.id e.1) s.reqToSeq
      tenantActive := F.seqs.entries.foldl
        (fun t e => t.insert e.2.req.tenant (t.getD e.2.req.tenant 0 + 1)) s.tenantActive } := by
  unfold restoreSeqs
  induction F.seqs.entries generalizing s with
  | nil => rfl
  | cons e l ih => exact ih _

theorem restoreTerminals_eq (F s : Fabric) : F.restoreTerminals s = { s with
      terminalRecords := F.terminalRecords.entries.foldl (fun t e => t.insert e.1 e.2) s.terminalRecords } := by
  unfold restoreTerminals
  induction F.terminalRecords.entries generalizing s with
  | nil => rfl
  | cons e l ih => exact ih _

theorem restoreGrants_eq (F s : Fabric) : F.restoreGrants s = { s with
      grantLedger := F.grantLedger.entries.foldl
        (fun t e => t.insert e.2.recovered.grant.grantId e.2.recovered) s.grantLedger } := by
  unfold restoreGrants
  induction F.grantLedger.entries generalizing s with
  | nil => rfl
  | cons e l ih => exact ih _

/-- Every grant is filed under its own id. -/
def GrantsFiled (s : Fabric) : Prop := ∀ i gr, s.grantLedger.find? i = some gr → gr.grant.grantId = i

/-- No entry of the table is there twice. -/
theorem restoredSeqs_eq (F : Fabric) : F.seqs.entries.foldl
    (fun t e => if (t.find? e.1).isSome then t else t.insert e.1 e.2.recovered) .empty = F.seqs.map recovered := by
  refine foldl_fresh fun e _ u hu => ?_
  rw [hu]
  exact insert_new hu _

theorem restored_eq (hfiled : F.GrantsFiled) (s : Fabric) : (F.restoreGrants (F.restoreTerminals (F.restoreSeqs
      (s.restart ⟨F.epoch, F.nextSeq, F.nextDispatch⟩))).clearGrants).recount F.receiptCount = s.recoveredFrom F := by
  have hterms : F.terminalRecords.entries.foldl (fun t e => t.insert e.1 e.2) .empty = F.terminalRecords := by
    rw [foldl_fresh (f := id) fun e _ u hu => insert_new hu e.2]
    exact ext_entries (map_id _)
  have hgrants : F.grantLedger.entries.foldl
      (fun t e => t.insert e.2.recovered.grant.grantId e.2.recovered) .empty =
        F.grantLedger.map GrantRecord.recovered := by
    refine foldl_fresh fun e he u hu => ?_
    show (u.insert e.2.grant.grantId e.2.recovered).entries = _
    rw [hfiled e.1 e.2 (find?_eq_some_iff.mpr he)]
    exact insert_new hu _
  rw [restoreGrants_eq, restoreTerminals_eq, restoreSeqs_eq]
  unfold clearGrants restart recoveredFrom
  simp only [restoredSeqs_eq, hterms, hgrants]
  rfl

/-- On a snapshot of `F`, recovery comes as far as the grants. -/
theorem recoverState_upTo_grants (h : F.Representable) (s : Fabric) {r : Except Error (Unit × Bytes) × Fabric}
    (hr : (recoverGrants >>= fun _ => recoverReceiptCount).exec
      (F.writeGrants ++ (putId F.receiptCount ++ putU32 (checksum F.snapshotBody)))
      (F.restoreTerminals (F.restoreSeqs (s.restart ⟨F.epoch, F.nextSeq, F.nextDispatch⟩))) = r) :
    s.recoverState F.serializeState = (r.2, r.1.map fun _ => ()) := by
  have hheader : 0 < F.snapshotBody.length := by simp [snapshotBody, writeHeader, putU8]
  have hbody : F.serializeState = F.writeHeader ++ (F.writeSeqs ++ (F.writeTerminals ++
      (F.writeGrants ++ (putId F.receiptCount ++ putU32 (checksum F.snapshotBody))))) := by
    simp only [serializeState, snapshotBody, append_assoc]
  have htables : recoverTables.exec (F.writeSeqs ++ (F.writeTerminals ++
      (F.writeGrants ++ (putId F.receiptCount ++ putU32 (checksum F.snapshotBody)))))
      (s.restart ⟨F.epoch, F.nextSeq, F.nextDispatch⟩) = r := by
    rw [recoverTables, (loads_seqs h _).exec_bind, (loads_terminals h _).exec_bind]
    exact hr
  unfold recoverState
  rw [show checkTrailer F.serializeState = .ok () from checkTrailer_serialize hheader, hbody, reads_header h.counters]
  simp only [htables]

/-- Recovery from a snapshot that it accepts. -/
theorem recoverState_serializeState (h : F.Representable) (hfiled : F.GrantsFiled)
    (hmax : F.grantLedger.entries.length ≤ maxRecoveredGrants) (s : Fabric) :
    s.recoverState F.serializeState = (s.recoveredFrom F, .ok ()) := by
  have hcount : Reads (id64 "receipt count") (putId F.receiptCount) F.receiptCount :=
    reads_id _ (h.counters _ (by simp))
  rw [recoverState_upTo_grants h s ((loads_grants h hmax _).exec_bind _ _), recoverReceiptCount,
    (Loads.read hcount _).exec_bind, Load.exec_change]
  simp only [restored_eq hfiled]
  rfl

/-- The bound on the ledger is the only thing that can keep a snapshot from being recovered. -/
theorem recoverState_refuses (h : F.Representable) (hmax : maxRecoveredGrants < F.grantLedger.entries.length)
    (s : Fabric) :
    (s.recoverState F.serializeState).2 = .error ⟨.persistenceInvalidField, "grant count too large"⟩ := by
  rw [recoverState_upTo_grants h s (Load.exec_bind _ _ _ _), refuses_grants h hmax]
  rfl

end Fabric
end DecodeFabric
