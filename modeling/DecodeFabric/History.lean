import DecodeFabric.Tick

/- Histories of calls read as histories of micro steps.

   Every call of a run is a sequence of micro steps; this module keeps, besides the ends, what the
   call did visibly: the grants `authorize_prepared` hands out and the receipts
   `apply_commit_receipt` finalizes, in order and with the fabric each one met. A statement about
   those along a run of calls then is one about a run of micro steps, where each step issues or
   finalizes at most one. -/
namespace DecodeFabric
open Lib List Fabric

/-- The grant a micro step issues. -/
def issuedAt (e : Edge Fabric Act) : List CommitGrant :=
  match e.label with
  | .issue prepared pm => [makeGrant e.pre.nextGrant prepared pm]
  | _ => []

/-- The receipt a micro step finalizes, with the fabric it met. -/
def finalizedAt (e : Edge Fabric Act) : List (Fabric × MemberReceipt) :=
  match e.label with
  | .finalize r => [(e.pre, r)]
  | _ => []

/-- `t` is reached from `s` by micro steps labelled in `A` that issue `gs` and finalize `rs`. -/
def Traced (A : Act → Prop) (s t : Fabric) (gs : List CommitGrant) (rs : List (Fabric × MemberReceipt)) : Prop :=
  ∃ m : List (Edge Fabric Act), Run Micro s m t ∧ (∀ a ∈ m, a.label = .note ∨ A a.label) ∧
    m.flatMap issuedAt = gs ∧ m.flatMap finalizedAt = rs

/-- Neither an issue nor a finalization. -/
def Act.isQuiet : Act → Prop
  | .issue _ _ => False
  | .finalize _ => False
  | _ => True

theorem Act.isQuiet.issuedAt {e : Edge Fabric Act} (h : e.label.isQuiet) : issuedAt e = [] := by
  unfold DecodeFabric.issuedAt
  cases hl : e.label <;> simp_all [isQuiet]

theorem finalizedAt_eq_nil {e : Edge Fabric Act} (h : ∀ r, e.label ≠ .finalize r) : finalizedAt e = [] := by
  unfold finalizedAt
  cases hl : e.label with
  | finalize r => exact absurd hl (h r)
  | _ => rfl

theorem Act.isQuiet.finalizedAt {e : Edge Fabric Act} (h : e.label.isQuiet) : finalizedAt e = [] :=
  finalizedAt_eq_nil fun r hr => by rw [hr] at h; exact h

namespace Traced
variable {A B : Act → Prop} {s t u : Fabric} {gs gs' : List CommitGrant} {rs rs' : List (Fabric × MemberReceipt)}

theorem ofSteps (h : Steps A s t) (hA : ∀ a, A a → a.isQuiet) : Traced A s t [] [] := by
  obtain ⟨m, hr, ha⟩ := h
  have hq : ∀ e ∈ m, e.label.isQuiet := by
    intro e he
    rcases ha e he with hn | hAe
    · rw [hn]; trivial
    · exact hA _ hAe
  refine ⟨m, hr, ha, ?_, ?_⟩
  · rw [flatMap_eq_nil_iff]
    exact fun e he => (hq e he).issuedAt
  · rw [flatMap_eq_nil_iff]
    exact fun e he => (hq e he).finalizedAt

theorem single {a : Act} (h : Micro s a t) (ha : A a) : Traced A s t (issuedAt ⟨s, a, t⟩) (finalizedAt ⟨s, a, t⟩) := by
  refine ⟨[⟨s, a, t⟩], Run.single h, ?_, by simp, by simp⟩
  intro e he
  rw [mem_singleton.mp he]
  exact .inr ha

/-- Nothing the micro steps speak about has changed. -/
theorem quiet (A : Act → Prop) (hs : t.seqs = s.seqs) (hb : t.books = s.books) : Traced A s t [] [] := by
  refine ⟨[⟨s, .note, t⟩], Run.single (.note hs hb), ?_, rfl, rfl⟩
  intro e he
  rw [mem_singleton.mp he]
  exact .inl rfl

theorem refl (A : Act → Prop) (s : Fabric) : Traced A s s [] [] := ⟨[], Run.nil s, by simp, rfl, rfl⟩

theorem trans (h₁ : Traced A s t gs rs) (h₂ : Traced A t u gs' rs') : Traced A s u (gs ++ gs') (rs ++ rs') := by
  obtain ⟨m₁, r₁, a₁, i₁, f₁⟩ := h₁
  obtain ⟨m₂, r₂, a₂, i₂, f₂⟩ := h₂
  refine ⟨m₁ ++ m₂, r₁.append r₂, ?_, ?_, ?_⟩
  · intro e he
    rcases mem_append.mp he with he | he
    · exact a₁ e he
    · exact a₂ e he
  · rw [flatMap_append, i₁, i₂]
  · rw [flatMap_append, f₁, f₂]

theorem mono (hAB : ∀ a, A a → B a) (h : Traced A s t gs rs) : Traced B s t gs rs := by
  obtain ⟨m, r, ha, hi, hf⟩ := h
  exact ⟨m, r, fun e he => (ha e he).imp_right (hAB _), hi, hf⟩

/-- A loop whose turns are traced. -/
theorem foldl {α : Type} {f : Fabric → α → Fabric} {g : Fabric × α → List CommitGrant}
    {r : Fabric × α → List (Fabric × MemberReceipt)} : ∀ {l : List α} {s : Fabric},
    (∀ t, ∀ x ∈ l, Traced A t (f t x) (g (t, x)) (r (t, x))) →
    Traced A s (l.foldl f s) ((turns f s l).flatMap g) ((turns f s l).flatMap r)
  | [], s, _ => refl A s
  | x :: _, s, h => (h s x mem_cons_self).trans (foldl fun t y hy => h t y (mem_cons_of_mem _ hy))

end Traced

/-! The two calls with visible effects. -/

/-- What one turn of `authorize_prepared` issues. -/
def issuedTurn (prepared : PreparedDecode) (p : Fabric × PreparedMember) : List CommitGrant :=
  let reply := (authorizeMember prepared p.1 p.2).2
  if reply.hasGrant then [reply.grant] else []

/-- What one turn of `apply_commit_receipt` finalizes. -/
def finalizedTurn (p : Fabric × MemberReceipt) : List (Fabric × MemberReceipt) :=
  match p.1.receiptVerdict p.2 with
  | .finalize _ => [p]
  | _ => []

theorem authorizeMember_traced {prepared : PreparedDecode} (s : Fabric) {pm : PreparedMember}
    (hpm : pm ∈ prepared.members) :
    Traced (Op.MayPerform (.authorizePrepared prepared)) s (authorizeMember prepared s pm).1
      (issuedTurn prepared (s, pm)) [] := by
  -- a turn that does not grant changes one sequence, and issues nothing
  have quiet : (∀ x, s.seqs.find? pm.sequence = some x → s.prepareVerdict x pm ≠ .grant) →
      Traced (Op.MayPerform (.authorizePrepared prepared)) s (authorizeMember prepared s pm).1 [] [] := by
    intro hno
    have hsteps : Steps (fun a => a.isQuiet ∧ Op.MayPerform (.authorizePrepared prepared) a) s
        (authorizeMember prepared s pm).1 :=
      s.authorizeMember_steps prepared pm (fun _ _ _ _ => ⟨trivial, .inl ⟨_, rfl⟩⟩)
        (fun _ _ _ => ⟨⟨trivial, .inr (.inl rfl)⟩, trivial, .inr (.inr ⟨_, _, _, _, rfl⟩)⟩)
        (fun x hq hv => absurd hv (hno x hq))
    exact (Traced.ofSteps hsteps fun a ha => ha.1).mono fun a ha => ha.2
  cases hq : s.seqs.find? pm.sequence with
  | none =>
    simp only [issuedTurn, authorizeMember, hq, abortReply, Bool.false_eq_true, if_false]
    exact Traced.quiet _ rfl rfl
  | some x =>
    cases hv : s.prepareVerdict x pm with
    | grant =>
      simp only [issuedTurn, authorizeMember, hq, hv, if_true]
      exact Traced.single (a := .issue prepared pm)
        (.issue prepared pm hq hv (s.issueGrant_seqs x prepared pm) (s.issueGrant_books x prepared pm)) ⟨rfl, hpm⟩
    | reject r =>
      have hnil : issuedTurn prepared (s, pm) = [] := by
        simp [issuedTurn, authorizeMember, hq, hv, abortReply]
      rw [hnil]
      exact quiet (fun y hy => by rw [hq] at hy; cases hy; simp [hv])
    | noncommit =>
      have hnil : issuedTurn prepared (s, pm) = [] := by
        simp [issuedTurn, authorizeMember, hq, hv, abortReply]
      rw [hnil]
      exact quiet (fun y hy => by rw [hq] at hy; cases hy; simp [hv])

theorem applyReceipt_traced (receipts : ReceiptDecode) (s : Fabric) {r : MemberReceipt} (hr : r ∈ receipts.receipts) :
    Traced (Op.MayPerform (.applyCommitReceipt receipts)) s (s.applyReceipt r) [] (finalizedTurn (s, r)) := by
  cases hv : s.receiptVerdict r with
  | duplicate =>
    simp only [finalizedTurn, applyReceipt, hv]
    exact Traced.refl _ s
  | reject request why =>
    simp only [finalizedTurn, applyReceipt, hv]
    exact Traced.quiet _ rfl rfl
  | finalize x =>
    simp only [finalizedTurn, applyReceipt, hv]
    exact Traced.single (a := .finalize r) (.finalize r hv (s.finalize_seqs x r) (s.finalize_books x r)) hr

theorem authorizePrepared_issued (s : Fabric) (prepared : PreparedDecode) :
    issuedBy ⟨s, .op (.authorizePrepared prepared), (s.authorizePrepared prepared).1⟩ =
      (turns (fun t pm => (authorizeMember prepared t pm).1) s prepared.members).flatMap
        (issuedTurn prepared) := by
  simp only [issuedBy, authorizePrepared, scan_snd, filterMap_map]
  generalize turns _ s prepared.members = l
  induction l with
  | nil => rfl
  | cons p l ih =>
    rw [filterMap_cons, flatMap_cons, ← ih]
    simp only [Function.comp, issuedTurn]
    cases (authorizeMember prepared p.1 p.2).2.hasGrant <;> simp

theorem applyCommitReceipt_finalized (s t : Fabric) (receipts : ReceiptDecode) :
    finalizations ⟨s, .op (.applyCommitReceipt receipts), t⟩ =
      (turns applyReceipt s receipts.receipts).flatMap finalizedTurn := by
  simp only [finalizations]
  generalize turns _ s receipts.receipts = l
  induction l with
  | nil => rfl
  | cons p l ih =>
    rw [filter_cons, flatMap_cons, ← ih]
    unfold finalizedTurn
    cases p.1.receiptVerdict p.2 <;> rfl

/-- Every call is traced by micro steps that issue and finalize what the call does. -/
theorem next_traced {s t : Fabric} {c : Call} (h : Next s c t) (h0 : s.nextDispatch ≠ 0) :
    Traced c.MayPerform s t (issuedBy ⟨s, c, t⟩) (finalizations ⟨s, c, t⟩) := by
  have hsteps := next_steps h h0
  cases h with
  | tick now | rehash seqs workers hs hw => exact Traced.ofSteps hsteps (by rintro a rfl; trivial)
  | op o =>
    cases o with
    | authorizePrepared prepared =>
      have hturns := Traced.foldl (s := s) (f := fun t pm => (authorizeMember prepared t pm).1)
        (r := fun _ => []) (fun t pm hpm => authorizeMember_traced t hpm)
      rw [← authorizePrepared_issued, ← s.authorizePrepared_eq_foldl,
        flatMap_eq_nil_iff.mpr (fun _ _ => rfl)] at hturns
      exact hturns
    | applyCommitReceipt receipts =>
      have hturns := Traced.foldl (s := s) (f := applyReceipt) (g := fun _ => [])
        (l := receipts.receipts) (fun t r hr => applyReceipt_traced receipts t hr)
      rw [← applyCommitReceipt_finalized s (s.exec (.applyCommitReceipt receipts)),
        flatMap_eq_nil_iff.mpr (fun _ _ => rfl)] at hturns
      exact hturns
    | _ =>
      refine Traced.ofSteps hsteps ?_
      intro a ha
      cases a <;> trivial

/-- Every run of calls is a run of micro steps with the same grants issued and receipts finalized. -/
theorem run_traced {s₀ s : Fabric} {h : History} (hr : Run Next s₀ h s) (h0 : s₀.nextDispatch ≠ 0) :
    Traced (fun a => ∃ e ∈ h, e.label.MayPerform a) s₀ s (h.flatMap issuedBy) (h.flatMap finalizations) ∧
      s.nextDispatch ≠ 0 := by
  induction hr with
  | nil => exact ⟨Traced.refl _ s₀, h0⟩
  | @snoc t u h l hr hn ih =>
    obtain ⟨htr, ht0⟩ := ih
    have hlast := next_traced hn ht0
    refine ⟨?_, (next_steps hn ht0).invariant (I := fun t => t.nextDispatch ≠ 0)
      (fun hm _ hi => micro_nextDispatch hm hi) ht0⟩
    rw [flatMap_append, flatMap_append, flatMap_singleton, flatMap_singleton]
    refine (htr.mono ?_).trans (hlast.mono ?_)
    · rintro a ⟨e, he, ha⟩
      exact ⟨e, mem_append_left _ he, ha⟩
    · intro a ha
      exact ⟨⟨t, l, u⟩, by simp, ha⟩

/-! Calls of a run. -/

theorem RunsTo.traced {h : History} {s : Fabric} (hr : RunsTo h s) :
    ∃ cfg clock, Traced (fun a => ∃ e ∈ h, e.label.MayPerform a) (init cfg clock) s (h.flatMap issuedBy)
      (h.flatMap finalizations) := by
  obtain ⟨cfg, clock, hr⟩ := hr
  exact ⟨cfg, clock, (run_traced hr Nat.one_ne_zero).1⟩

theorem reachable_nextDispatch {F : Fabric} (hF : Reachable F) : 0 < F.nextDispatch := by
  obtain ⟨h, cfg, clock, hr⟩ := hF
  exact Nat.pos_of_ne_zero (run_traced hr Nat.one_ne_zero).2

/-- Every call of a run starts in a reachable fabric and is traced from there. -/
theorem RunsTo.edge {h : History} {s : Fabric} (hr : RunsTo h s) {e : Edge Fabric Call} (he : e ∈ h) :
    Reachable e.pre ∧ Traced e.label.MayPerform e.pre e.post (issuedBy e) (finalizations e) := by
  obtain ⟨cfg, clock, hr⟩ := hr
  obtain ⟨h₁, h₂, rfl⟩ := append_of_mem he
  obtain ⟨hpre, hnext, -⟩ := hr.split
  exact ⟨⟨h₁, cfg, clock, hpre⟩, next_traced hnext (run_traced hpre Nat.one_ne_zero).2⟩

end DecodeFabric
