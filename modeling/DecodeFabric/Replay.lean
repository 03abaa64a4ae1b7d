import DecodeFabric.Grants
import DecodeFabric.Recount

/- Replayed receipts.

   A receipt that has been finalized stays in the ledger as the one that consumed its grant, and a
   receipt the ledger has is passed over: no sequence, grant, reservation or counter moves, and
   nothing is logged. The figures the statistics derive from the counters live beside the fabric
   here, since `refresh_derived_stats` runs at the end of three operations whether or not there was
   anything to refresh: a replay on its own recomputes them, and gets what was there. -/
namespace DecodeFabric
open Lib Sample

/-! Derived statistics. -/

/-- The derived figures of the statistics. -/
structure Derived where
  tokensPerSecond : Float := 0
  avgQueueDelayNs : Float := 0
  avgInterTokenNs : Float := 0

def Derived.refreshDerivedStats (m : Meter) (d : Derived) : Derived where
  tokensPerSecond :=
    if m.decodeSteps > 0 ∧ m.totalActiveNs > 0 then
      Float.ofNat m.generatedTokens / (Float.ofInt m.totalActiveNs / 1e9)
    else d.tokensPerSecond
  avgQueueDelayNs := if m.decodeSteps > 0 then Float.ofInt 0 / Float.ofNat m.decodeSteps else d.avgQueueDelayNs
  avgInterTokenNs :=
    if m.decodeSteps > 0 then Float.ofInt m.totalInterTokenNs / Float.ofNat m.decodeSteps
    else d.avgInterTokenNs

theorem Derived.refresh_refresh (m : Meter) (d : Derived) :
    (d.refreshDerivedStats m).refreshDerivedStats m = d.refreshDerivedStats m := by
  unfold refreshDerivedStats
  congr 1
  · split <;> rfl
  · split <;> rfl
  · split <;> rfl

/-- The fabric with its derived figures. -/
structure Metered where
  fabric : Fabric
  derived : Derived := {}

/-- The operations that end with `refresh_derived_stats`. -/
def Op.refreshes : Op → Bool
  | .schedule _ | .applyCompletion _ | .applyCommitReceipt _ => true
  | _ => false

def Metered.exec (m : Metered) (o : Op) : Metered where
  fabric := m.fabric.exec o
  derived := if o.refreshes then m.derived.refreshDerivedStats (m.fabric.exec o).stats.meter else m.derived

/-- A call on the fabric; between operations the figures stand. -/
inductive Metered.Next : Metered → Call → Metered → Prop
  | op (m : Metered) (o : Op) : Next m (.op o) (m.exec o)
  | environment (m : Metered) {c : Call} {t : Fabric} : (∀ o, c ≠ .op o) → DecodeFabric.Next m.fabric c t →
      Next m c { m with fabric := t }

/-- `h` is a run of a newly constructed fabric, figures included, that ends in `m`. -/
def Metered.RunsTo (h : List (Edge Metered Call)) (m : Metered) : Prop :=
  ∃ (cfg : Config) (clock : TimePoint), Run Next { fabric := Fabric.init cfg clock } h m

/-- The calls of a run, as calls on the fabric. -/
def unmetered (h : List (Edge Metered Call)) : History := h.map fun e => ⟨e.pre.fabric, e.label, e.post.fabric⟩

theorem Metered.Next.fabric {m m' : Metered} {c : Call} (h : Next m c m') :
    DecodeFabric.Next m.fabric c m'.fabric := by
  cases h with
  | op o => exact .op m.fabric o
  | environment _ hn => exact hn

theorem Metered.RunsTo.fabric {h : List (Edge Metered Call)} {m : Metered} (hr : RunsTo h m) :
    DecodeFabric.RunsTo (unmetered h) m.fabric := by
  obtain ⟨cfg, clock, hr⟩ := hr
  refine ⟨cfg, clock, ?_⟩
  induction hr with
  | nil => exact Run.nil _
  | @snoc t u h l _ hn ih =>
    have hpath := ih.snoc hn.fabric
    simpa [unmetered] using hpath

/-! The figures are always up to date. -/

/-- A refresh would change nothing. -/
def Metered.Fresh (m : Metered) : Prop := m.derived.refreshDerivedStats m.fabric.stats.meter = m.derived

theorem Metered.Next.fresh {m m' : Metered} {c : Call} (hn : Next m c m') (hm : m.Fresh) : m'.Fresh := by
  cases hn with
  | op o =>
    unfold Fresh exec
    cases ho : o.refreshes with
    | true =>
      rw [if_pos rfl]
      exact Derived.refresh_refresh _ _
    | false =>
      have hr : ∀ receipts, o ≠ .applyCommitReceipt receipts := by
        rintro receipts rfl
        cases ho
      rw [if_neg Bool.false_ne_true, exec_meter _ hr]
      exact hm
  | environment hc hn =>
    cases hn with
    | op o => exact absurd rfl (hc o)
    | tick | rehash => exact hm

theorem Metered.RunsTo.fresh {h : List (Edge Metered Call)} {m : Metered} (hr : RunsTo h m) : m.Fresh := by
  obtain ⟨cfg, clock, hr⟩ := hr
  exact hr.invariant (I := Fresh) (P := fun _ => True) (fun _ hn _ hm => hn.fresh hm) (fun _ _ => trivial) rfl

/-! A receipt the ledger has. -/

theorem receiptsMatch_refl (r : MemberReceipt) : receiptsMatch r r = true := by simp [receiptsMatch]

/-- A recorded receipt is passed over. -/
theorem Fabric.HasReceipt.passed {s : Fabric} {r : MemberReceipt} (h : s.HasReceipt r) : s.applyReceipt r = s := by
  obtain ⟨rec, hrec, hst, hhas, rfl⟩ := h
  have hv : s.receiptVerdict rec.receipt = .duplicate := by
    unfold receiptVerdict
    rw [hrec]
    dsimp only
    rw [hst]
    exact if_pos ⟨hhas, receiptsMatch_refl _⟩
  unfold applyReceipt
  rw [hv]

/-- What a run has finalized is recorded at its end. -/
theorem RunsTo.hasReceipt {h : History} {s : Fabric} (hr : RunsTo h s) {u : Fabric} {r : MemberReceipt}
    (hu : (u, r) ∈ h.flatMap finalizations) : s.HasReceipt r := by
  obtain ⟨cfg, clock, m, hm, -, -, hfinal⟩ := hr.traced
  rw [← hfinal] at hu
  exact run_finalized_hasReceipt hm ⟨_, Linked.init False cfg clock⟩ _ hu

/-- A batch of receipts, with the header a worker sends. -/
def batch (header : ReceiptDecode) (l : List MemberReceipt) : Op := .applyCommitReceipt { header with receipts := l }

/-- The call of an operation. -/
def Fabric.called (s : Fabric) (o : Op) : Edge Fabric Call := ⟨s, .op o, s.exec o⟩

theorem Metered.exec_eq {m : Metered} {o o' : Op} (hr : o.refreshes = o'.refreshes)
    (h : m.fabric.exec o = m.fabric.exec o') : m.exec o = m.exec o' := by
  unfold exec
  rw [hr, h]

theorem receipt_replay_no_op {h : List (Edge Metered Call)} {m : Metered} (hr : Metered.RunsTo h m)
    (r : MemberReceipt) :
    -- on its own
    ((∃ u, (u, r) ∈ (unmetered h).flatMap finalizations) →
      ∀ header, m.exec (batch header [r]) = m) ∧
    -- in a batch, finalized in the run or by the receipts before it
    (∀ (header : ReceiptDecode) (l₁ l₂ : List MemberReceipt),
      (∃ u, (u, r) ∈ (unmetered h ++ [m.fabric.called (batch header l₁)]).flatMap finalizations) →
      m.exec (batch header (l₁ ++ r :: l₂)) = m.exec (batch header (l₁ ++ l₂))) := by
  refine ⟨?_, ?_⟩
  · rintro ⟨u, hu⟩ header
    have hsame : m.fabric.exec (batch header [r]) = m.fabric := (hr.fabric.hasReceipt hu).passed
    calc m.exec (batch header [r])
        = ⟨m.fabric.exec (batch header [r]),
            m.derived.refreshDerivedStats (m.fabric.exec (batch header [r])).stats.meter⟩ := rfl
      _ = ⟨m.fabric, m.derived.refreshDerivedStats m.fabric.stats.meter⟩ := by rw [hsame]
      _ = m := by rw [hr.fresh]
  · rintro header l₁ l₂ ⟨u, hu⟩
    refine Metered.exec_eq rfl ?_
    obtain ⟨cfg, clock, hrun⟩ := hr.fabric
    have hafter : RunsTo _ (m.fabric.exec (batch header l₁)) := ⟨cfg, clock, hrun.snoc (.op m.fabric (batch header l₁))⟩
    have hpassed : (l₁.foldl Fabric.applyReceipt m.fabric).applyReceipt r = l₁.foldl Fabric.applyReceipt m.fabric :=
      (hafter.hasReceipt hu).passed
    show (l₁ ++ r :: l₂).foldl Fabric.applyReceipt m.fabric = (l₁ ++ l₂).foldl Fabric.applyReceipt m.fabric
    rw [List.foldl_append, List.foldl_cons, hpassed, List.foldl_append]

/-- The run of a list of operations. -/
def Metered.trace (m : Metered) : List Op → List (Edge Metered Call)
  | [] => []
  | o :: os => ⟨m, .op o, m.exec o⟩ :: (m.exec o).trace os

theorem Metered.trace_run : ∀ (m : Metered) (os : List Op), Run Next m (m.trace os) (os.foldl exec m)
  | m, [] => Run.nil m
  | m, o :: os => (Run.single (Next.op m o)).append (trace_run (m.exec o) os)

theorem unmetered_trace : ∀ (m : Metered) (os : List Op), unmetered (m.trace os) = trace m.fabric os
  | _, [] => rfl
  | m, o :: os => congrArg _ (unmetered_trace (m.exec o) os)

theorem receipt_replay_no_op_committed : let m := committed.foldl Metered.exec { fabric := start }
    m.exec (batch {} [receipt]) = m := by
  have hfinal : ((trace start committed).flatMap finalizations).map Prod.snd = [receipt] := rfl
  have hmem : receipt ∈ ((trace start committed).flatMap finalizations).map Prod.snd := by
    rw [hfinal]
    exact List.mem_singleton_self _
  obtain ⟨⟨u, _⟩, hu, rfl⟩ := List.mem_map.mp hmem
  rw [← unmetered_trace { fabric := start }] at hu
  exact (receipt_replay_no_op ⟨{}, 0, Metered.trace_run _ _⟩ receipt).1 ⟨u, hu⟩ {}

end DecodeFabric
