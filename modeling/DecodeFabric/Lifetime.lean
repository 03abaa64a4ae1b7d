import DecodeFabric.Deeds
import DecodeFabric.Snapshot

/- Runs with recoveries.

   Over its lifetime a fabric is also asked to recover: `recover_state` takes a string of bytes, at any time and
   whatever the fabric holds. A `Lifetime` is a run of operations, of the environment, and of recoveries from
   arbitrary strings, refused ones included.

   A recovery replaces the sequences and leaves workers, device memory and reservations alone
   (`recoverState_restarted`). With the deeds of the operations this gives one induction rule for everything that
   concerns memory and load (`Maintained.holds`). -/
namespace DecodeFabric
open Lib

inductive LifeCall where
  | call (c : Call)
  | recover (bytes : Bytes)

inductive LifeNext : Fabric → LifeCall → Fabric → Prop
  | call {s t : Fabric} {c : Call} : Next s c t → LifeNext s (.call c) t
  | recover (s : Fabric) (bytes : Bytes) : LifeNext s (.recover bytes) (s.recoverState bytes).1

abbrev Lifetime := List (Edge Fabric LifeCall)

/-- `h` is the lifetime of a fabric, from its construction to `s`. -/
def LivesTo (h : Lifetime) (s : Fabric) : Prop :=
  ∃ (cfg : Config) (clock : TimePoint), Run LifeNext (Fabric.init cfg clock) h s

/-- The calls of a lifetime, its recoveries left out. -/
def callsOf (h : Lifetime) : History :=
  h.filterMap fun e =>
    match e.label with
    | .call c => some ⟨e.pre, c, e.post⟩
    | .recover _ => none

/-- A run without recoveries as a lifetime. -/
def lifetime (h : History) : Lifetime := h.map fun e => ⟨e.pre, .call e.label, e.post⟩

theorem run_lifetime {s t : Fabric} {h : History} (hr : Run Next s h t) : Run LifeNext s (lifetime h) t := by
  induction hr with
  | nil => exact Run.nil _
  | snoc _ hn ih =>
    unfold lifetime at ih ⊢
    rw [List.map_append]
    exact Run.snoc ih (LifeNext.call hn)

theorem RunsTo.livesTo {h : History} {s : Fabric} (hr : RunsTo h s) : LivesTo (lifetime h) s := by
  obtain ⟨cfg, clock, hr⟩ := hr
  exact ⟨cfg, clock, run_lifetime hr⟩

/-! Recovery. -/

/-- Nothing of the sequence is in flight. -/
structure Seq.Grounded (x : Seq) : Prop where
  hasInflight : x.hasInflight = false
  reservation : x.reservation = 0
  inFlightDispatch : x.inFlightDispatch = 0

/-- `t` is `s` after a recovery: other sequences, none of them in flight, on the same machines. -/
structure Restarted (s t : Fabric) : Prop where
  seqs : t.AllSeqs Seq.Grounded
  cfg : t.cfg = s.cfg
  workers : t.workers = s.workers
  devMem : t.devMem = s.devMem
  reservations : t.reservations = s.reservations
  nextReservation : t.nextReservation = s.nextReservation

theorem Restarted.accounts {s t : Fabric} (h : Restarted s t) :
    t.accounts = { s.accounts with tenantActive := t.tenantActive } := by
  unfold Fabric.accounts
  rw [h.workers, h.devMem, h.reservations, h.nextReservation]

theorem readSeq_grounded : Yields (fun e : SequenceId × Seq => e.2.Grounded) readSeq := by
  unfold readSeq
  repeat refine Yields.bind _ fun _ => ?_
  exact Yields.pure ⟨rfl, rfl, rfl⟩

theorem Restarted.restoreSeq {s t : Fabric} (h : Restarted s t) {e : SequenceId × Seq} (he : e.2.Grounded) :
    Restarted s (t.restoreSeq e) := by
  refine { h with seqs := ?_ }
  intro q x hx
  unfold Fabric.restoreSeq at hx
  simp only at hx
  split at hx
  · exact h.seqs q x hx
  · rw [Table.find?_insert] at hx
    split at hx
    · cases hx
      exact he
    · exact h.seqs q x hx

theorem recoverTables_restarted (s : Fabric) : Upholds (Restarted s) recoverTables :=
  recoverTables_upholds readSeq_grounded (fun _ _ he h => h.restoreSeq he) (fun _ _ h => { h with })
    (recoverLedger_upholds (fun _ h => { h with }) (fun _ _ h => { h with }) fun _ _ h => { h with })

/-- A string is refused by its trailer or header, or the fabric restarts, whether or not the rest is accepted. -/
theorem recoverState_restarted (s : Fabric) (bytes : Bytes) :
    (s.recoverState bytes).1 = s ∨ Restarted s (s.recoverState bytes).1 := by
  unfold Fabric.recoverState
  split
  · exact .inl rfl
  · split
    · exact .inl rfl
    · next hd rest _ =>
      refine .inr (recoverTables_restarted s rest (s.restart hd) ⟨?_, rfl, rfl, rfl, rfl, rfl⟩)
      intro q x hx
      cases hx

/-! The induction. -/

/-- What a call on `s` may do when the fabric has come to `u`. -/
def Call.Performs (s : Fabric) : Call → Fabric → Deed → Prop
  | .op o, u, d => DecodeFabric.Performs s o u d
  | .tick _, _, d => d = .note
  | .rehash, _, d => d = .shuffle

theorem next_deeds {s t : Fabric} {c : Call} (hn : Next s c t) : Deeds (c.Performs s) s t := by
  cases hn with
  | op o => exact exec_deeds s o
  | tick now => exact .single (.note rfl rfl) rfl
  | rehash seqs workers hs hw => exact .single (.shuffle hs hw rfl) rfl

/-- What every deed and every restart of the calls meeting `P` keeps. -/
structure Maintained (P : Edge Fabric LifeCall → Prop) (I : Fabric → Prop) : Prop where
  init : ∀ cfg clock, I (Fabric.init cfg clock)
  deed : ∀ {s t : Fabric} {c : Call}, P ⟨s, .call c, t⟩ → I s →
    ∀ {u v : Fabric} {d : Deed}, Does u d v → c.Performs s u d → I u → I v
  restart : ∀ {s t : Fabric} {bytes : Bytes}, P ⟨s, .recover bytes, t⟩ → Restarted s t → I s → I t

namespace Maintained
variable {P : Edge Fabric LifeCall → Prop} {I : Fabric → Prop}

theorem next (hI : Maintained P I) {e : Edge Fabric LifeCall} (hn : LifeNext e.pre e.label e.post) (hp : P e)
    (hs : I e.pre) : I e.post := by
  obtain ⟨s, c, t⟩ := e
  change LifeNext s c t at hn
  change I s at hs
  cases hn with
  | call hn => exact (next_deeds hn).invariant (fun hd ha hu => hI.deed hp hs hd ha hu) hs
  | recover bytes =>
    rcases recoverState_restarted s bytes with hsame | hrestarted
    · show I (s.recoverState bytes).1
      rw [hsame]
      exact hs
    · exact hI.restart hp hrestarted hs

/-- It holds throughout a lifetime of such calls. -/
theorem holds (hI : Maintained P I) {h : Lifetime} {s : Fabric} (hr : LivesTo h s) (hP : ∀ e ∈ h, P e) : I s := by
  obtain ⟨cfg, clock, hr⟩ := hr
  exact hr.invariant (fun _ hn hp hs => hI.next hn hp hs) hP (hI.init cfg clock)

theorem holds_before (hI : Maintained P I) {h : Lifetime} {s : Fabric} (hr : LivesTo h s) (hP : ∀ e ∈ h, P e)
    {e : Edge Fabric LifeCall} (he : e ∈ h) : I e.pre := by
  obtain ⟨cfg, clock, hr⟩ := hr
  exact (hr.invariant_at (fun _ hn hp hs => hI.next hn hp hs) hP (hI.init cfg clock) he).1

end Maintained
end DecodeFabric
