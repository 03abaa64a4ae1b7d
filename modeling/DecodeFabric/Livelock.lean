import DecodeFabric.Resolution

/- When `pump_until_idle` returns.

   The tokens and attempts left bound the cycles that commit a token, close a sequence or count an attempt. A pump
   that does not return therefore comes to send, cycle after cycle, only members that come back as they were: nothing
   counts a refusal (`Host.returns_iff`).

   Refused is a member whose key is repeated, who holds an old grant, or whose executor state is somewhere else.
   Keys run out of repetitions and a refusal takes the grant, so where nothing else gets into the way a pump returns
   if the executor is where every sequence the fabric sends says it is. A sequence that has gone astray is refused
   in every cycle to come, and the pump spins as long as a worker takes it. -/
namespace DecodeFabric
open Lib Table Fabric Sample DecodeFabric.Seq
variable {ds : List Dispatch} {names : List SequenceId} {a : Nat × Nat} {x y : Seq} {q : SequenceId} {tn : TimePoint}
  {cfg : Config} {w : Seq → Nat}

/-! The work left in a sequence. -/

namespace Seq
variable {x y : Seq}

instance (x : Seq) : Decidable x.Sendable := inferInstanceAs (Decidable (_ ∧ _))

/-- What `w` says of a sequence that can be sent. -/
def work (w : Seq → Nat) (x : Seq) : Nat := if x.Sendable then w x else 0

theorem work_closed (h : ¬ x.Sendable) : x.work w = 0 := if_neg h

theorem work_le (hx : x.Sendable) (h : y.Sendable → w y ≤ w x) : y.work w ≤ x.work w := by
  by_cases hy : y.Sendable
  · rw [work, work, if_pos hx, if_pos hy]
    exact h hy
  · rw [work_closed hy]
    exact Nat.zero_le _

theorem work_lt (hx : x.Sendable) (hpos : 0 < w x) (h : y.Sendable → w y < w x) : y.work w < x.work w := by
  by_cases hy : y.Sendable
  · rw [work, work, if_pos hx, if_pos hy]
    exact h hy
  · rw [work_closed hy, work, if_pos hx]
    exact hpos

/-- The tokens a sequence may still get. -/
def tokensLeft (x : Seq) : Nat := x.budget.max.toNat - x.budget.generated.toNat

theorem Sendable.tokensLeft_pos (h : x.Sendable) : 0 < x.tokensLeft := by
  have hspent := of_decide_eq_false h.2
  rw [ge_iff_le, UInt64.le_iff_toNat_le] at hspent
  exact Nat.sub_pos_of_lt (Nat.lt_of_not_le hspent)

theorem tokensLeft_advanced (hx : x.Sendable) (hbudget : y.budget = x.budget.advanced 1) :
    y.tokensLeft < x.tokensLeft := by
  have hlt := Nat.lt_of_sub_pos hx.tokensLeft_pos
  have hadvanced := TokenBudget.advanced_eq (b := x.budget) (n := 1) hlt
  have hgenerated : (x.budget.generated + 1).toNat = x.budget.generated.toNat + 1 := by
    rw [UInt64.toNat_add]
    exact Nat.mod_eq_of_lt (Nat.lt_of_le_of_lt hlt x.budget.max.toNat_lt_size)
  unfold tokensLeft
  rw [hbudget, hadvanced]
  change x.budget.max.toNat - (x.budget.generated + 1).toNat < _
  rw [hgenerated]
  omega

/-- The tokens left, and the grant the sequence may have to lose first. -/
def toGo (x : Seq) : Nat := x.tokensLeft + x.hasInflightGrant.toNat

/-- The attempts left, each with all its tokens, and the tokens left in this one. -/
def counts (cfg : Config) (x : Seq) : Nat :=
  (cfg.retryPolicy.maxAttempts.toNat - x.attemptCount.toNat) * 2 ^ 64 + x.tokensLeft

/-- `y` can be sent as `x` could: no token and no attempt was counted. -/
structure Recurs (x y : Seq) : Prop where
  sendable : y.Sendable
  budget : y.budget = x.budget
  attempts : y.attemptCount = x.attemptCount

theorem Recurs.counts (h : x.Recurs y) (cfg : Config) : y.counts cfg = x.counts cfg := by
  rw [Seq.counts, Seq.counts, tokensLeft, tokensLeft, h.budget, h.attempts]

/-- A new attempt may start over, but there is one less. -/
theorem counts_attempt (hx : x.Sendable) (hleft : ¬ x.attemptCount ≥ cfg.retryPolicy.maxAttempts)
    (hnext : y.attemptCount = x.attemptCount + 1) : y.counts cfg < x.counts cfg := by
  have hlt : x.attemptCount.toNat < cfg.retryPolicy.maxAttempts.toNat :=
    UInt32.lt_iff_toNat_lt.mp (UInt32.not_le.mp hleft)
  have hcount : y.attemptCount.toNat = x.attemptCount.toNat + 1 := by
    rw [hnext, UInt32.toNat_add]
    exact Nat.mod_eq_of_lt (Nat.lt_of_le_of_lt hlt cfg.retryPolicy.maxAttempts.toNat_lt_size)
  have htokens : y.tokensLeft < 2 ^ 64 := Nat.lt_of_le_of_lt (Nat.sub_le _ _) y.budget.max.toNat_lt_size
  have hpos := hx.tokensLeft_pos
  unfold counts
  rw [hcount]
  omega

/-- A sequence that was sent has less to go, or comes back as it was. -/
theorem Pumped.recurs {d : Dispatch} (hx : x.Sendable) (h : (x.sent tn d).Pumped cfg y) :
    y.work (counts cfg) < x.work (counts cfg) ∨ x.Recurs y := by
  have hpos : 0 < x.counts cfg := Nat.lt_of_lt_of_le hx.tokensLeft_pos (Nat.le_add_left _ _)
  have hsame : y.budget = x.budget → y.attemptCount = x.attemptCount →
      y.work (counts cfg) < x.work (counts cfg) ∨ x.Recurs y := by
    intro hbudget hattempts
    by_cases hy : y.Sendable
    · exact .inr ⟨hy, hbudget, hattempts⟩
    · exact .inl (work_lt hx hpos fun hy' => absurd hy' hy)
  cases h with
  | finished gid pm fin r =>
    obtain ⟨st, ready, hshape⟩ := finish_shape fin r ((x.sent tn d).holdGrant gid pm)
    rw [hshape]
    exact .inl (work_lt hx hpos fun _ => Nat.add_lt_add_left (tokensLeft_advanced hx rfl) _)
  | left gid pm => exact hsame rfl rfl
  | refused now => exact hsame rfl rfl
  | ended a now mo =>
    rcases resolve_counted cfg a now mo (x.sent tn d) with ⟨-, hattempts, hbudget⟩ |
      ⟨hleft, hnext⟩
    · exact hsame hbudget hattempts
    · exact .inl (work_lt hx hpos fun _ => counts_attempt hx hleft hnext)

end Seq

/-! Any cycle, with any executor. -/

namespace Fabric
variable {s t : Fabric}

/-- The work left in sequence `q`. -/
def workBy (w : Seq → Nat) (s : Fabric) (q : SequenceId) : Nat := ((s.seqs.find? q).map (Seq.work w)).getD 0

/-- The work left in the sequences `names`. -/
def work (w : Seq → Nat) (names : List SequenceId) (s : Fabric) : Nat := ∑ q ∈ names.toFinset, s.workBy w q

theorem workBy_eq (hx : s.seqs.find? q = some x) : s.workBy w q = x.work w := by
  rw [workBy, hx]
  rfl

theorem work_le (hle : ∀ q, t.workBy w q ≤ s.workBy w q) : t.work w names ≤ s.work w names :=
  Finset.sum_le_sum fun q _ => hle q

theorem work_lt (hle : ∀ q, t.workBy w q ≤ s.workBy w q) (hq : q ∈ names) (hlt : t.workBy w q < s.workBy w q) :
    t.work w names < s.work w names :=
  Finset.sum_lt_sum (fun q _ => hle q) ⟨q, List.mem_toFinset.mpr hq, hlt⟩

/-- The sequence comes back as it was. -/
def Recurs (s t : Fabric) (q : SequenceId) : Prop :=
  ∃ x y, s.seqs.find? q = some x ∧ t.seqs.find? q = some y ∧ x.Recurs y

/-- One cycle, as far as tokens and attempts are counted. -/
structure Counted (cfg : Config) (s : Fabric) (ds : List Dispatch) (t : Fabric) : Prop where
  config : t.cfg = cfg
  absent : ∀ q, s.seqs.find? q = none → t.seqs.find? q = none
  work : ∀ q, t.workBy (counts cfg) q ≤ s.workBy (counts cfg) q
  member : ∀ d ∈ ds, ∀ m ∈ d.members, (∃ x, s.seqs.find? m.sequence = some x) ∧
    (t.workBy (counts cfg) m.sequence < s.workBy (counts cfg) m.sequence ∨ s.Recurs t m.sequence)

end Fabric

theorem Host.Rested.counts (h : Rested tn x y) : y.work (counts cfg) ≤ x.work (counts cfg) := by
  cases h with
  | closed hclosed =>
    rw [work_closed hclosed]
    exact Nat.zero_le _
  | waits hsendable hstays =>
    exact Seq.work_le hsendable fun hy => Nat.le_of_eq (Recurs.counts ⟨hy, hstays.budget, hstays.attempts⟩ cfg)

theorem DecodeExecutor.Honest.counted {E : Type} {B : DecodeExecutor E} {s : Fabric} (hB : B.Honest) (hs : Reachable s)
    (ex : E) (took : Dispatch → StepTimes) (tn : TimePoint) :
    Counted s.cfg s (s.round tn).2 (B.pumpOnce took tn (s, ex)).1.1 := by
  have hpumped := hB.pumped hs ex took tn
  obtain ⟨hsteps, -⟩ := hB.pumpTurns_spec hs ex took tn
  have hcfg : (s.round tn).1.cfg = s.cfg :=
    congrArg Standing.cfg (((s.advance tn).1.schedule_standing tn).trans (s.advance_standing tn))
  generalize (B.pumpOnce took tn (s, ex)).1.1 = t at hpumped hsteps ⊢
  have hmember : ∀ d ∈ (s.round tn).2, ∀ m ∈ d.members, ∃ x y, s.seqs.find? m.sequence = some x ∧
      t.seqs.find? m.sequence = some y ∧ y.work (counts s.cfg) ≤ x.work (counts s.cfg) ∧
      (y.work (counts s.cfg) < x.work (counts s.cfg) ∨ x.Recurs y) := by
    intro d hd m hm
    obtain ⟨x', y, hx', hy, hpumped⟩ := hpumped d hd m hm
    obtain ⟨x, hx, hsends, -, hafter⟩ := Host.dispatched_sendable tn hd hm
    cases hafter.symm.trans hx'
    have hcases := hpumped.recurs hsends.1
    refine ⟨x, y, hx, hy, hcases.elim Nat.le_of_lt fun hrecurs => ?_, hcases⟩
    exact Seq.work_le hsends.1 fun _ => Nat.le_of_eq (hrecurs.counts s.cfg)
  have hother : ∀ q, (∀ d ∈ (s.round tn).2, ∀ m ∈ d.members, m.sequence ≠ q) →
      t.seqs.find? q = (s.round tn).1.seqs.find? q := by
    intro q hq
    refine (hsteps.beside ?_).seq
    rintro ⟨m, hm, rfl⟩
    obtain ⟨d, hd, hm⟩ := List.mem_flatMap.mp hm
    exact hq d hd m hm rfl
  have habsent : ∀ q, s.seqs.find? q = none → t.seqs.find? q = none := by
    intro q hq
    rw [hother q, Host.absent_stays tn hq]
    rintro d hd m hm rfl
    obtain ⟨x, -, hx, -⟩ := hmember d hd m hm
    rw [hq] at hx
    cases hx
  refine ⟨(congrArg Prod.fst hsteps.frame).trans hcfg, habsent, fun q => ?_, fun d hd m hm => ?_⟩
  · cases hx : s.seqs.find? q with
    | none => rw [workBy, habsent q hx, workBy, hx]
    | some x =>
      by_cases hsent : ∃ d ∈ (s.round tn).2, ∃ m ∈ d.members, m.sequence = q
      · obtain ⟨d, hd, m, hm, rfl⟩ := hsent
        obtain ⟨x', y, hx', hy, hle, -⟩ := hmember d hd m hm
        cases hx.symm.trans hx'
        rw [workBy_eq hx, workBy_eq hy]
        exact hle
      · have hq : ∀ d ∈ (s.round tn).2, ∀ m ∈ d.members, m.sequence ≠ q :=
          fun d hd m hm heq => hsent ⟨d, hd, m, hm, heq⟩
        obtain ⟨y, hy, hrested⟩ := Host.unsent_rested tn hx hq
        rw [workBy_eq hx, workBy_eq ((hother q hq).trans hy)]
        exact hrested.counts
  · obtain ⟨x, y, hx, hy, -, hcases⟩ := hmember d hd m hm
    rw [workBy_eq hx, workBy_eq hy]
    exact ⟨⟨x, hx⟩, hcases.imp_right fun hrecurs => ⟨x, y, hx, hy, hrecurs⟩⟩

section
variable {N : Numerics}
variable {H H' : Host N}

namespace Host

theorem Lawful.tick (h : H.Lawful) (tn : TimePoint) :
    (H.timed tn).Lawful :=
  ⟨h.reachable.next (Next.tick H.fabric tn), h.regular⟩

theorem Lawful.counted (h : H.Lawful) (took : Dispatch → StepTimes) (tn : TimePoint) :
    Counted H.fabric.cfg H.fabric (H.pumpOnce took tn).2 (H.pumpOnce took tn).1.fabric := by
  rw [pumpOnce_snd, pumpOnce_fabric]
  exact (cpu_honest N).counted h.reachable H.executor took tn

/-- The executor is where every sequence the fabric sends says it is. -/
def AllFit (H : Host N) : Prop := ∀ q x, H.fabric.seqs.find? q = some x → H.fabric.Sends x → H.Fits q x

section Cycle
variable {tn : TimePoint} {H H' : Host N} {ds : List Dispatch}

theorem toGo_le (hbudget : y.budget = x.budget) (hgrant : y.hasInflightGrant.toNat ≤ x.hasInflightGrant.toNat) :
    y.toGo ≤ x.toGo := by
  rw [toGo, toGo, tokensLeft, tokensLeft, hbudget]
  exact Nat.add_le_add_left hgrant _

theorem toGo_pos (h : x.Sendable) : 0 < x.toGo := Nat.lt_of_lt_of_le h.tokensLeft_pos (Nat.le_add_right _ _)

/-- A member that fits has less to go, or its key was repeated. -/
theorem Went.toGo {d : Dispatch} (h : Went H d H' q x y) (hu : H.Unhindered)
    (hx : H.fabric.seqs.find? q = some x) (hsends : H.fabric.Sends x) (hfits : H.Fits q x) :
    y.work toGo < x.work toGo ∨
      H.fabric.Collides q x d.worker (.ofNat d.id) ∧ y.work toGo ≤ x.work toGo ∧ y.identity = x.identity := by
  have hpos := toGo_pos hsends.1
  cases h with
  | advanced _ hfree hbudget hgrant =>
    refine .inl (Seq.work_lt hsends.1 hpos fun _ => ?_)
    rw [Seq.toGo, Seq.toGo, hfree, hgrant]
    exact tokensLeft_advanced hsends.1 hbudget
  | refused hreason hstays hgrant =>
    rcases hreason with hcollides | hheld | hmisfit
    · refine .inr ⟨hcollides, Seq.work_le hsends.1 fun _ => toGo_le hstays.budget ?_, hstays.identity⟩
      rw [hgrant]
      exact Nat.zero_le _
    · refine .inl (Seq.work_lt hsends.1 hpos fun _ => ?_)
      rw [Seq.toGo, Seq.toGo, tokensLeft, tokensLeft, hstays.budget, hheld, hgrant]
      exact Nat.lt_succ_self _
    · exact absurd hfits hmisfit
  | hung gid r _ hlow hr hprompt =>
    rcases hu.receipts with hbound | hall
    · exact absurd (hbound gid r hr) (Nat.not_lt.mpr hlow)
    · refine .inl (Seq.work_lt hsends.1 hpos fun hy => ?_)
      have hc := hy.1
      rw [hprompt (hall q x hx hsends)] at hc
      cases hc

theorem Rested.toGo (h : Rested tn x y) : y.work toGo ≤ x.work toGo ∧ y.identity = x.identity := by
  cases h with
  | closed hclosed hident =>
    rw [work_closed hclosed]
    exact ⟨Nat.zero_le _, hident⟩
  | waits hsendable hstays hgrant =>
    exact ⟨Seq.work_le hsendable fun _ => toGo_le hstays.budget (hgrant ▸ Nat.le_refl _), hstays.identity⟩

variable (r : Round tn H ds H') (hu : H.Unhindered)
include r hu

theorem Round.allFit (hfit : H.AllFit) : H'.AllFit := by
  intro q y hy hsends
  obtain ⟨x, hx, hc⟩ := r.carried hu hy hsends
  exact hc.fits.mpr (hfit q x hx hc.sendable)

/-- A sequence has less to go after a cycle, or it keeps its key, and so does its dispatch if there was one. -/
theorem Round.toGo_cases (hfit : H.AllFit) (hx : H.fabric.seqs.find? q = some x) :
    ∃ y, H'.fabric.seqs.find? q = some y ∧
      (y.work toGo < x.work toGo ∨ y.work toGo ≤ x.work toGo ∧ y.identity = x.identity) := by
  obtain ⟨y, hy, ⟨d, -, hsends, hwent⟩ | ⟨hrested, -⟩⟩ := r.after hx
  · refine ⟨y, hy, (hwent.toGo hu hx hsends (hfit q x hx hsends)).imp_right fun h => ?_⟩
    exact ⟨h.2.1, h.2.2⟩
  · exact ⟨y, hy, .inr hrested.toGo⟩

theorem Round.toGoBy_le (hfit : H.AllFit) (q : SequenceId) : H'.fabric.workBy toGo q ≤ H.fabric.workBy toGo q := by
  cases hx : H.fabric.seqs.find? q with
  | none =>
    rw [workBy, workBy, hx, r.absent q hx]
  | some x =>
    obtain ⟨y, hy, hcases⟩ := r.toGo_cases hu hfit hx
    rw [workBy_eq hx, workBy_eq hy]
    exact hcases.elim Nat.le_of_lt And.left

/-- A cycle leaves less to do, or every id it used was barred and every key stays as it was. -/
theorem Round.cases (hfit : H.AllFit)
    (hnames : ∀ q x, H.fabric.seqs.find? q = some x → q ∈ names) :
    H'.fabric.work toGo names < H.fabric.work toGo names ∨
      (∀ d ∈ ds, H.fabric.Barred (.ofNat d.id)) ∧
        ∀ q y, H'.fabric.seqs.find? q = some y → ∃ x, H.fabric.seqs.find? q = some x ∧ y.identity = x.identity := by
  by_cases hless : ∃ q x y, H.fabric.seqs.find? q = some x ∧ H'.fabric.seqs.find? q = some y ∧ y.work toGo < x.work toGo
  · left
    obtain ⟨q, x, y, hx, hy, hlt⟩ := hless
    refine Fabric.work_lt (r.toGoBy_le hu hfit) (hnames q x hx) ?_
    rw [workBy_eq hx, workBy_eq hy]
    exact hlt
  · right
    constructor
    · intro d hd
      obtain ⟨hne, hworker⟩ := r.manned d hd
      obtain ⟨m, hm⟩ := List.exists_mem_of_ne_nil _ hne
      obtain ⟨x, y, hx, hsends, hy, hwent⟩ := r.member d hd m hm
      rcases hwent.toGo hu hx hsends (hfit _ x hx hsends) with hlt | ⟨hcollides, -⟩
      · exact absurd ⟨_, x, y, hx, hy, hlt⟩ hless
      · exact ⟨m.sequence, x, hx, d.worker, hworker, hcollides⟩
    · intro q y hy
      obtain ⟨x, hx⟩ := r.before hy
      obtain ⟨y', hy', hcases⟩ := r.toGo_cases hu hfit hx
      cases hy.symm.trans hy'
      rcases hcases with hlt | ⟨-, hident⟩
      · exact absurd ⟨q, x, y, hx, hy, hlt⟩ hless
      · exact ⟨x, hx, hident⟩

end Cycle

/-- The cycle at `tn`. -/
theorem Lawful.roundAt (hl : H.Lawful) (hu : H.Unhindered) (took : Dispatch → StepTimes)
    (tn : TimePoint) : Round tn (H.timed tn) (H.pumpAt took tn).2
      (H.pumpAt took tn).1 := by
  have hround := (hl.tick tn).round ⟨hu.apart, hu.clear, hu.receipts⟩ took tn
  unfold pumpAt
  rw [pumpOnce_snd]
  exact hround

/-- A host with rank `a` among those that know the sequences `names`. -/
structure Fitting (names : List SequenceId) (a : Nat × Nat) (H : Host N) : Prop where
  lawful : H.Lawful
  unhindered : H.Unhindered
  allFit : H.AllFit
  known : ∀ q x, H.fabric.seqs.find? q = some x → q ∈ names
  size : names.length * H.fabric.workerIds.length < 2 ^ 64
  toGo : H.fabric.work toGo names = a.1
  distance : ¬ H.fabric.Barred (.ofNat (H.fabric.nextDispatch + a.2))

theorem Fitting.tick (h : Fitting names a H) (tn : TimePoint) :
    Fitting names a (H.timed tn) :=
  ⟨h.lawful.tick tn, ⟨h.unhindered.apart, h.unhindered.clear, h.unhindered.receipts⟩, h.allFit, h.known, h.size, h.toGo,
    h.distance⟩

theorem Fitting.round (h : Fitting names a H) (r : Round tn H ds H') (hsome : ds ≠ []) :
    ∃ b, Prod.Lex (· < ·) (· < ·) b a ∧ Fitting names b H' := by
  have hu := r.unhindered h.unhindered
  have hfit := r.allFit h.unhindered h.allFit
  have hnames : ∀ q y, H'.fabric.seqs.find? q = some y → q ∈ names := fun q y hy =>
    (r.before hy).elim fun x hx => h.known q x hx
  have hsize : names.length * H'.fabric.workerIds.length < 2 ^ 64 := by
    unfold workerIds
    rw [r.standing]
    exact h.size
  obtain ⟨n, j⟩ := a
  obtain rfl : H.fabric.work Seq.toGo names = n := h.toGo
  rcases r.cases h.unhindered h.allFit h.known with hless | ⟨hbarred, hkeys⟩
  · obtain ⟨j', hj'⟩ := exists_offset names hnames hsize H'.fabric.nextDispatch
    exact ⟨(_, j'), .left _ _ hless, r.lawful, hu, hfit, hnames, hsize, rfl, hj'⟩
  · obtain ⟨hlong, hj'⟩ := nearer r.standing r.numbered r.next hbarred hkeys h.distance
    have hpos := List.length_pos_of_ne_nil hsome
    rcases Nat.lt_or_eq_of_le (Fabric.work_le (r.toGoBy_le h.unhindered h.allFit)) with hless | heq
    · exact ⟨(_, _), .left _ _ hless, r.lawful, hu, hfit, hnames, hsize, rfl, hj'⟩
    · refine ⟨(_, _), .right _ (Nat.sub_lt (Nat.lt_of_lt_of_le hpos hlong) hpos), ?_⟩
      exact ⟨r.lawful, hu, hfit, hnames, hsize, heq, hj'⟩

/-- The fabric sends sequence `q`, and the executor is not where the sequence is. -/
structure Astray (H : Host N) (q : SequenceId) (x : Seq) : Prop where
  found : H.fabric.seqs.find? q = some x
  sends : H.fabric.Sends x
  misfit : ¬ H.Fits q x

/-- Nothing keeps the fabric from sending what can be sent: its workers, devices and group limits turn nothing away. -/
structure Open (s : Fabric) : Prop where
  workers : ∀ e ∈ s.standing.workers.entries, e.2.Unlimited
  impartial : s.Impartial
  roomy : s.Roomy

/-- A host that has a sequence to refuse in every cycle at one of the times `T`. -/
structure Spinning (T : TimePoint → Prop) (H : Host N) : Prop where
  lawful : H.Lawful
  unhindered : H.Unhindered
  turnsNothingAway : Open H.fabric
  astray : ∃ q x, H.Astray q x ∧ ∀ tn, T tn → x.deadlineReached tn = false

/-- A sequence that has gone astray stays so, and comes back as it was. -/
theorem Astray.round (h : H.Astray q x) (r : Round tn H ds H') (hu : H.Unhindered)
    (htime : x.deadlineReached tn = false) :
    ∃ y, H'.Astray q y ∧ x.Recurs y ∧ y.req = x.req := by
  have hstays : ∃ y, H'.fabric.seqs.find? q = some y ∧ y.machine.isCandidate = true ∧ x.Stays y := by
    obtain ⟨y, hy, ⟨d, -, -, hwent⟩ | ⟨hrested, -⟩⟩ := r.after h.found
    · refine ⟨y, hy, ?_⟩
      cases hwent with
      | advanced hfits | hung _ _ hfits => exact absurd hfits h.misfit
      | refused _ hstays _ hc _ _ => exact ⟨hc, hstays⟩
    · refine ⟨y, hy, ?_⟩
      cases hrested with
      | closed _ _ hlate =>
        rw [hlate h.sends.1] at htime
        cases htime
      | waits _ hstays _ hmachine =>
        refine ⟨?_, hstays⟩
        rcases hmachine with hm | hm
        · rw [hm]
          exact h.sends.1.1
        · rw [hm]
          rfl
  obtain ⟨y, hy, hc, hstays⟩ := hstays
  have hsendable : y.Sendable := ⟨hc, hstays.budget ▸ h.sends.1.2⟩
  have hsends := h.sends.same r.standing.symm hstays.identity.symm hsendable
  obtain ⟨x', hx', hcarried⟩ := r.carried hu hy hsends
  cases h.found.symm.trans hx'
  exact ⟨y, ⟨hy, hsends, fun hfits => h.misfit (hcarried.fits.mp hfits)⟩, ⟨hsendable, hstays.budget, hstays.attempts⟩,
    congrArg Seq.Identity.req hstays.identity⟩

/-- A tick sends something as long as a sequence has gone astray. -/
theorem Astray.sent (h : H.Astray q x) (ho : Open H.fabric) (htime : x.deadlineReached tn = false) :
    (H.fabric.round tn).2 ≠ [] := by
  have hroomy := ho.roomy.exec (o := .advance tn) trivial
  have hst := H.fabric.advance_standing tn
  have hdue : (H.fabric.advance tn).1.Due tn q x := by
    refine ⟨?_, h.sends.1.1, h.sends.1.2, htime, ?_⟩
    · rw [advance_find?, h.found, Option.map_some, h.sends.1.boundary htime]
    · rw [keyForModel_standing hst]
      exact h.sends.2
  exact schedule_progress hroomy (willing_of_standing ho.workers hst) (ho.impartial.same hst) hdue

/-- The same at `tn`. -/
theorem Astray.roundAt (h : H.Astray q x) (hl : H.Lawful) (hu : H.Unhindered)
    (took : Dispatch → StepTimes) (htime : x.deadlineReached tn = false) :
    ∃ y, (H.pumpAt took tn).1.Astray q y ∧ x.Recurs y ∧ y.req = x.req :=
  Astray.round (H := H.timed tn) ⟨h.found, h.sends, h.misfit⟩
    (hl.roundAt hu took tn) ⟨hu.apart, hu.clear, hu.receipts⟩ htime

theorem Spinning.pumpAt {T : TimePoint → Prop} (h : H.Spinning T) (took : Dispatch → StepTimes)
    (ht : T tn) : (H.pumpAt took tn).2 ≠ [] ∧ (H.pumpAt took tn).1.Spinning T := by
  obtain ⟨hl, hu, ho, q, x, hx, htime⟩ := h
  have hround := hl.roundAt hu took tn
  have hsent := Astray.sent (H := H.timed tn) ⟨hx.found, hx.sends, hx.misfit⟩
    ⟨ho.workers, ho.impartial, ho.roomy⟩ (htime tn ht)
  rw [← pumpOnce_snd took] at hsent
  obtain ⟨y, hy, -, hreq⟩ := hx.roundAt hl hu took (htime tn ht)
  refine ⟨hsent, hround.lawful, hround.unhindered ⟨hu.apart, hu.clear, hu.receipts⟩, ⟨?_,
    ho.impartial.same hround.standing, hround.roomy ho.roomy⟩, q, y, hy, fun tn ht => ?_⟩
  · rw [hround.standing]
    exact ho.workers
  · unfold deadlineReached
    rw [hreq]
    exact htime tn ht

theorem Spinning.sends {T : TimePoint → Prop} (h : H.Spinning T)
    (took : Nat → Dispatch → StepTimes)
    {now : Nat → TimePoint} (ht : ∀ n, T (now n)) (n : Nat) : H.sends took now n ≠ [] := by
  have hspins : (H.after took now n).Spinning T :=
    after_invariant (I := Spinning T) (fun n G hG => (Spinning.pumpAt hG (took n) (ht n)).2) h n
  rw [Host.sends]
  exact (hspins.pumpAt (took n) (ht n)).1

end Host

end

namespace Sample

end Sample

end DecodeFabric
