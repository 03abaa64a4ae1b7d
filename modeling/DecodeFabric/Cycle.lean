import DecodeFabric.Standing
import DecodeFabric.Lockstep
import Mathlib.Data.Finset.Prod
import Mathlib.Algebra.Order.BigOperators.Group.Finset

/- Repeated keys, and the loop of `pump_until_idle`.

   A member that is sent is committed, unless its acceptance key happens to be the key of the generation accepted
   before (`Fabric.Collides`). Such a member is refused, keeps everything that enters its key, and is sent again at
   the next tick under another dispatch id. For one sequence on one worker at most one dispatch id gives that key:
   with fewer pairs of a sequence and a worker than there are ids some id is free of it, and the pump reaches that id,
   since every dispatch takes the next one. -/
namespace DecodeFabric
open Lib UInt64
variable {m : DecodeMemberSpec} {d : Dispatch} {ds : List Dispatch} {s t : Fabric} {x y : Seq} {q : SequenceId}
  {wk : WorkerId} {e : WorkerId × WorkerDescriptor}

/-! Repeated keys. -/

namespace Fabric

/-- The ids of the registered workers. -/
def workerIds (s : Fabric) : List WorkerId := s.standing.workers.entries.map fun e => e.2.id

/-- Sent to worker `wk` under the dispatch word `w`, sequence `q` has the key it accepted last. -/
def Collides (s : Fabric) (q : SequenceId) (x : Seq) (wk : WorkerId) (w : UInt64) : Prop :=
  x.hasAccepted = true ∧ x.accepted.idempotencyKey = acceptanceKeyFields (.ofNat s.epoch) (.ofNat wk)
    (.ofNat (s.workerCurrentBoot.getD wk 0)) (.ofNat q) (.ofNat x.state.id) (.ofNat x.currentAttempt)
    (.ofNat x.generation) w x.generated

/-- Some sequence would be refused under the dispatch word `w`. -/
def Barred (s : Fabric) (w : UInt64) : Prop :=
  ∃ q x, s.seqs.find? q = some x ∧ ∃ wk ∈ s.workerIds, s.Collides q x wk w

theorem Collides.word {w w' : UInt64} (h : s.Collides q x wk w) (h' : s.Collides q x wk w') : w = w' :=
  acceptanceKeyFields_dispatch (h.2.symm.trans h'.2)

end Fabric

/-- What decides whether a sequence's key repeats. -/
structure Seq.Identity where
  req : DecodeRequest
  state : StateDescriptor
  attempt : AttemptId
  generation : DecodeGeneration
  generated : UInt64
  accepted : AcceptedGeneration
  hasAccepted : Bool

def Seq.identity (x : Seq) : Identity where
  req := x.req
  state := x.state
  attempt := x.currentAttempt
  generation := x.generation
  generated := x.generated
  accepted := x.accepted
  hasAccepted := x.hasAccepted

theorem Fabric.Collides.same {w : UInt64}
    (h : s.Collides q x wk w) (hst : t.standing = s.standing) (hxy : y.identity = x.identity) :
    t.Collides q y wk w := by
  have hepoch : t.epoch = s.epoch := congrArg Standing.epoch hst
  have hboots : t.workerCurrentBoot = s.workerCurrentBoot := congrArg Standing.boots hst
  unfold Collides at h ⊢
  rw [hepoch, hboots, show y.hasAccepted = x.hasAccepted from congrArg Seq.Identity.hasAccepted hxy,
    show y.accepted = x.accepted from congrArg Seq.Identity.accepted hxy,
    show y.state = x.state from congrArg Seq.Identity.state hxy,
    show y.currentAttempt = x.currentAttempt from congrArg Seq.Identity.attempt hxy,
    show y.generation = x.generation from congrArg Seq.Identity.generation hxy,
    show y.generated = x.generated from congrArg Seq.Identity.generated hxy]
  exact h

/-! Free ids. -/

namespace Fabric

/-- Each pair of a sequence and a worker bars one word at most. -/
theorem exists_not_barred (names : List SequenceId) (hnames : ∀ q x, s.seqs.find? q = some x → q ∈ names)
    (hsize : names.length * s.workerIds.length < 2 ^ 64) : ∃ w, ¬ s.Barred w := by
  by_contra hall
  have hbarred : ∀ w, s.Barred w := fun w => not_not.mp fun h => hall ⟨w, h⟩
  choose pair x hx worker hworker hcollides using hbarred
  let name : Nat → SequenceId × WorkerId := fun i => (pair (.ofNat i), worker (.ofNat i))
  have hmaps : ∀ i ∈ Finset.range (2 ^ 64), name i ∈ names.toFinset ×ˢ s.workerIds.toFinset := by
    intro i _
    rw [Finset.mem_product, List.mem_toFinset, List.mem_toFinset]
    exact ⟨hnames _ _ (hx _), hworker _⟩
  have hinj : Set.InjOn name (Finset.range (2 ^ 64)) := by
    intro i hi j hj heq
    obtain ⟨hq, hw⟩ := Prod.mk.inj heq
    have hcollides' := hcollides (.ofNat j)
    have hxj := hx (.ofNat j)
    rw [← hq] at hcollides' hxj
    rw [← hw] at hcollides'
    obtain hsame := Option.some.inj ((hx (.ofNat i)).symm.trans hxj)
    rw [← hsame] at hcollides'
    have hword := congrArg toNat ((hcollides (.ofNat i)).word hcollides')
    rwa [toNat_ofNat_of_lt' (Finset.mem_range.mp hi), toNat_ofNat_of_lt' (Finset.mem_range.mp hj)] at hword
  have hcard := Finset.card_le_card_of_injOn name hmaps hinj
  rw [Finset.card_range, Finset.card_product] at hcard
  exact absurd (hcard.trans (Nat.mul_le_mul names.toFinset_card_le s.workerIds.toFinset_card_le))
    (Nat.not_le.mpr hsize)

/-- Counting up from any id reaches a word that is not barred. -/
theorem exists_offset (names : List SequenceId) (hnames : ∀ q x, s.seqs.find? q = some x → q ∈ names)
    (hsize : names.length * s.workerIds.length < 2 ^ 64) (n : Nat) : ∃ j, ¬ s.Barred (.ofNat (n + j)) := by
  obtain ⟨w, hw⟩ := exists_not_barred names hnames hsize
  refine ⟨(w - .ofNat n).toNat, ?_⟩
  rw [UInt64.ofNat_add, UInt64.ofNat_toNat, UInt64.add_comm, UInt64.sub_add_cancel]
  exact hw

/-- Dispatches that were all barred, and changed no key, come closer to a word that is not. -/
theorem nearer {t : Fabric} (hst : t.standing = s.standing)
    (hnumbered : ds.map Dispatch.id = List.range' s.nextDispatch ds.length)
    (hnext : t.nextDispatch = s.nextDispatch + ds.length) (hbarred : ∀ d ∈ ds, s.Barred (.ofNat d.id))
    (hkeys : ∀ q y, t.seqs.find? q = some y → ∃ x, s.seqs.find? q = some x ∧ y.identity = x.identity)
    {j : Nat} (hj : ¬ s.Barred (.ofNat (s.nextDispatch + j))) :
    ds.length ≤ j ∧ ¬ t.Barred (.ofNat (t.nextDispatch + (j - ds.length))) := by
  have hlong : ds.length ≤ j := by
    by_contra hlt
    have hmem : s.nextDispatch + j ∈ ds.map Dispatch.id := by
      rw [hnumbered, List.mem_range'_1]
      omega
    obtain ⟨d, hd, hid⟩ := List.mem_map.mp hmem
    rw [← hid] at hj
    exact hj (hbarred d hd)
  refine ⟨hlong, ?_⟩
  rw [hnext, Nat.add_assoc, Nat.add_sub_cancel' hlong]
  rintro ⟨q, y, hy, wk, hwk, hcollides⟩
  obtain ⟨x, hx, hident⟩ := hkeys q y hy
  refine hj ⟨q, x, hx, wk, ?_, hcollides.same hst.symm hident.symm⟩
  unfold workerIds at hwk ⊢
  rw [← hst]
  exact hwk

end Fabric

/-! A member's report. -/

theorem Seq.sent_live (hc : x.machine.isCandidate = true) (tn : TimePoint) (d : Dispatch) :
    (x.sent tn d).machine.isTerminal = false ∧ (x.sent tn d).machine ≠ .cancelRequested := by
  change (((x.machine.move .grouped).move .reserved).move .dispatched).isTerminal = false ∧
    ((x.machine.move .grouped).move .reserved).move .dispatched ≠ .cancelRequested
  cases hm : x.machine <;> rw [hm] at hc <;> first | decide | cases hc

section
variable {N : Numerics}

namespace Fabric
variable {s : Fabric} {tn : TimePoint} {d : Dispatch} {m : DecodeMemberSpec} {x : Seq} {st : SeqState N}
  (hepoch : d.epoch = s.epoch) (hboot : d.workerBoot = s.workerCurrentBoot.getD d.worker 0)
  (hc : x.machine.isCandidate = true) (hspec : m = x.memberSpec m.sequence)
include hepoch hboot hc hspec

/-- A member that was just sent is reported under current authority. -/
theorem sent_current (proposal : ProposalId) (ns : Nanoseconds) :
    Current s (x.sent tn d) (st.preparedMember proposal d.toRequest m ns) := by
  have hlive := Seq.sent_live hc tn d
  refine ⟨hepoch, ?_, ?_, ?_, rfl, hlive.1, hlive.2⟩
  · show s.bootMoved d.worker d.workerBoot = false
    rw [hboot]
    unfold bootMoved Table.getD
    cases s.workerCurrentBoot.find? d.worker with
    | none => rfl
    | some b => simp
  · show m.attempt = x.currentAttempt
    rw [hspec]
    rfl
  · show m.generation = x.generation
    rw [hspec]
    rfl

/-- It is granted if its key is new, it holds no grant, and tokens and digest agree. -/
theorem prepareVerdict_sent (hfree : ¬ s.Collides m.sequence x d.worker (.ofNat d.id))
    (hgrant : x.hasInflightGrant = false)
    (htokens : st.tokens = x.generated)
    (hdigest : x.stateDigestEstablished = true → digestState st.state st.tokens st.kvBytes = x.committedStateDigest)
    {proposal : ProposalId} {ns : Nanoseconds} :
    s.prepareVerdict (x.sent tn d) (st.preparedMember proposal d.toRequest m ns) = .grant := by
  refine prepareVerdict_grant_iff.mpr
    { toCurrent := sent_current hepoch hboot hc hspec proposal ns
      eligible := SeqState.preparedMember_eligible _ _ _ _ _
      fresh := fun hkey => hfree ⟨hkey.1, hkey.2.trans ?_⟩
      noGrant := hgrant
      position := htokens
      digest := hdigest }
  show acceptanceKeyFields (.ofNat d.epoch) (.ofNat d.worker) (.ofNat d.workerBoot) (.ofNat m.sequence)
    (.ofNat m.state.id) (.ofNat m.attempt) (.ofNat m.generation) (.ofNat d.id) st.tokens = _
  rw [hepoch, hboot, htokens, hspec]
  rfl

end Fabric

end

/-! The setting. -/

/-- A worker that turns nothing away. -/
structure WorkerDescriptor.Unlimited (w : WorkerDescriptor) : Prop where
  healthy : w.health = .healthy
  capacity : w.advertisedCapacity = 0
  memory : w.device.memoryBytes = 0
  devices : ∀ k ∈ w.supportedModels, k.device ≠ 0

namespace Fabric

/-- Some worker serves the model of the request, on the device it asks for. -/
def Standing.Serves (c : Standing) (req : DecodeRequest) : Prop :=
  ∃ e ∈ c.workers.entries, (req.deviceConstraint = 0 ∨ e.2.device.id = req.deviceConstraint) ∧
    ∃ k ∈ e.2.supportedModels, k.model = req.model ∧ k.revision = req.revision ∧ k.adapter = req.adapter

theorem mem_standing (he : e ∈ s.workers.entries) :
    (e.1, e.2.profile) ∈ s.standing.workers.entries := List.mem_map_of_mem (f := fun e => (e.1, e.2.profile)) he

/-- The key of a request depends on the workers' profiles only. -/
theorem keyForModel_standing (hst : t.standing = s.standing) (req : DecodeRequest) :
    t.keyForModel req = s.keyForModel req := by
  have hprofiles : ∀ u : Fabric, u.keyForModel req = (u.standing.workers.entries.findSome? fun w =>
      if req.deviceConstraint ≠ 0 ∧ w.2.device.id ≠ req.deviceConstraint then none
      else w.2.supportedModels.find? fun mk =>
        decide (mk.model = req.model ∧ mk.revision = req.revision ∧ mk.adapter = req.adapter)).getD {} := by
    intro u
    simp only [standing, Table.map, List.findSome?_map]
    rfl
  rw [hprofiles, hprofiles, hst]

section Unlimited
variable {s t : Fabric} (hworkers : ∀ e ∈ s.standing.workers.entries, e.2.Unlimited) (hst : t.standing = s.standing)
include hworkers hst

theorem unlimited_of_standing (he : e ∈ t.workers.entries) : e.2.Unlimited := by
  have hmem := mem_standing he
  rw [hst] at hmem
  obtain ⟨hhealthy, hcapacity, hmemory, hdevices⟩ := hworkers _ hmem
  exact ⟨hhealthy, hcapacity, hmemory, hdevices⟩

theorem willing_of_standing : t.Willing := fun _ he =>
  ⟨(unlimited_of_standing hworkers hst he).healthy, (unlimited_of_standing hworkers hst he).capacity⟩

theorem valid_of_standing {req : DecodeRequest} (hmodel : req.model ≠ 0) (hserves : s.standing.Serves req) :
    (t.keyForModel req).valid = true := by
  rcases keyForModel_cases (s := t) req with ⟨e, hfound⟩ | ⟨-, hnone⟩
  · have hdevice := (unlimited_of_standing hworkers hst hfound.worker).devices _ hfound.supported
    exact decide_eq_true ⟨hfound.same.1 ▸ hmodel, hdevice⟩
  · rw [← hst] at hserves
    obtain ⟨e, he, hdevice, k, hk, hsame⟩ := hserves
    obtain ⟨w, hw, rfl⟩ := List.mem_map.mp he
    exact absurd hsame (hnone w hw k hk hdevice)

end Unlimited

theorem Impartial.same (h : s.Impartial) (hst : t.standing = s.standing) : t.Impartial :=
  h.of_cfg (congrArg Standing.cfg hst)

end Fabric

/-! The loop. -/

section
variable {N : Numerics}

namespace Host

/-- One cycle of `pump_until_idle`: the clock reads `tn`, and the pump runs once. -/
def pumpAt (took : Dispatch → StepTimes) (tn : TimePoint) (H : Host N) : Host N × List Dispatch :=
  (H.timed tn).pumpOnce took tn

/-- Without a limit on its cycles the pump stops when a tick sends nothing. -/
theorem pumpUntilIdle_succ (took : Nat → Dispatch → StepTimes) (now : Nat → TimePoint)
    (fuel cycles : Nat) (H : Host N) : pumpUntilIdle took now (-1) (fuel + 1) cycles H =
      if (H.pumpAt (took cycles) (now cycles)).2 = [] then some (H.pumpAt (took cycles) (now cycles)).1
      else pumpUntilIdle took now (-1) fuel (cycles + 1) (H.pumpAt (took cycles) (now cycles)).1 := by
  unfold pumpAt
  rw [pumpUntilIdle]
  simp only
  generalize (H.timed (now cycles)).pumpOnce
    (took cycles) (now cycles) = result
  obtain ⟨H', ds⟩ := result
  simp only
  rw [if_neg (by simp)]
  by_cases hds : ds = []
  · cases hcand : H'.hasCandidate <;> simp [hds]
  · simp [hds]

/-- The loop ends if every cycle that sends something makes the rank of the host smaller. -/
theorem pumpUntilIdle_returns {α : Type} {r : α → α → Prop} (hwf : WellFounded r) {R : α → Host N → Prop}
    {Q : Host N → Prop} (hlast : ∀ a H took tn, R a H → (H.pumpAt took tn).2 = [] → Q (H.pumpAt took tn).1)
    (hnext : ∀ a H took tn, R a H → (H.pumpAt took tn).2 ≠ [] → ∃ b, r b a ∧ R b (H.pumpAt took tn).1)
    (took : Nat → Dispatch → StepTimes) (now : Nat → TimePoint) (a : α) :
    ∀ {H : Host N}, R a H → ∀ cycles, ∃ fuel H', pumpUntilIdle took now (-1) fuel cycles H = some H' ∧ Q H' := by
  induction a using hwf.induction with
  | _ a ih =>
    intro H h cycles
    by_cases hnone : (H.pumpAt (took cycles) (now cycles)).2 = []
    · refine ⟨1, _, ?_, hlast a H _ _ h hnone⟩
      rw [pumpUntilIdle_succ, if_pos hnone]
    · obtain ⟨b, hlt, hb⟩ := hnext a H _ _ h hnone
      obtain ⟨fuel, H', hrun, hQ⟩ := ih b hlt hb (cycles + 1)
      refine ⟨fuel + 1, H', ?_, hQ⟩
      rw [pumpUntilIdle_succ, if_neg hnone]
      exact hrun

section Cycles
variable (took : Nat → Dispatch → StepTimes) (now : Nat → TimePoint) (H : Host N)

/-- The host before cycle `n`, if no cycle before has ended the loop. -/
def after : Nat → Host N
  | 0 => H
  | n + 1 => ((after n).pumpAt (took n) (now n)).1

/-- The dispatches of cycle `n`. -/
def sends (n : Nat) : List Dispatch := ((H.after took now n).pumpAt (took n) (now n)).2

variable {took now H}

/-- What every cycle keeps holds before each. -/
theorem after_invariant {I : Host N → Prop} (hstep : ∀ n H, I H → I (H.pumpAt (took n) (now n)).1) (h : I H) :
    ∀ n, I (H.after took now n)
  | 0 => h
  | n + 1 => hstep n _ (after_invariant hstep h n)

end Cycles

end Host
end
end DecodeFabric
