import DecodeFabric.Rounds
import DecodeFabric.Stranded

/- What a pump leaves of the dispatches it sends.

   `pump_once` over any executor whose calls may fail. A preparation that fails is reported as a retryable failure of
   every member, and a member the fabric refuses is aborted. A commit that fails comes with a grant, and the fabric
   sends no abort with a grant, so the pump calls nothing: the sequence stays Dispatched and keeps the grant, and no
   later pump takes it up (`failed_commit_left`).

   A pump resolves every member it sends exactly if no commit of a grant fails and no outcome, reported or made up for a
   failed preparation, strands its sequence or finds it with an old grant (`pump_resolves_iff`). -/
namespace DecodeFabric
open Lib Table Fabric List Sample
variable {s t : Fabric} {d : Dispatch} {m : DecodeMemberSpec} {pm : PreparedMember} {ga : GrantOrAbort} {x y : Seq}
  {o : Option MemberReceipt} {prepared : PreparedDecode} {mo : MemberOutcome} {tn : TimePoint}

/-! The record of a sequence. -/

namespace Seq

/-- Out of flight, without a grant, and where it can rest. -/
structure Resolved (x : Seq) : Prop where
  idle : x.hasInflight = false
  free : x.hasInflightGrant = false
  rests : x.machine.isTerminal = true ∨ x.machine.isCandidate = true ∨ x.machine = .cancelRequested

/-- The outcome `mo` resolves `x`: it holds no grant and is not stranded. -/
def EndedBy (cfg : Config) (mo : MemberOutcome) (x : Seq) : Prop :=
  x.hasInflightGrant = false ∧ (x.machine = .dispatched → x.strandedBy cfg mo = false)

instance (cfg : Config) (mo : MemberOutcome) (x : Seq) : Decidable (x.EndedBy cfg mo) :=
  inferInstanceAs (Decidable (_ ∧ _))

theorem resolved_iff : x.Resolved ↔ x.hasInflight = false ∧ x.hasInflightGrant = false ∧ x.machine.rests = true := by
  rw [SequenceState.rests, Bool.or_eq_true, Bool.or_eq_true, decide_eq_true_eq, or_assoc]
  exact ⟨fun h => ⟨h.idle, h.free, h.rests⟩, fun h => ⟨h.1, h.2.1, h.2.2⟩⟩

/-- Placed and out of flight, a sequence rests. -/
theorem Placed.rests (h : x.Placed) (hidle : x.hasInflight = false) : x.machine.rests = true := by
  refine h.resolve_right fun hd => ?_
  rw [hidle] at hd
  cases hd.2.1

theorem resolve_resolved_iff (h : x.Placed) (cfg : Config) (a : AttemptId) (now : TimePoint) (mo : MemberOutcome) :
    (x.resolve cfg a now mo).Resolved ↔ x.EndedBy cfg mo := by
  have hidle : (x.resolve cfg a now mo).hasInflight = false :=
    resolve_same Seq.hasInflight (fun _ _ _ _ _ _ _ => rfl) ..
  have hgrant : (x.resolve cfg a now mo).hasInflightGrant = x.hasInflightGrant :=
    resolve_same Seq.hasInflightGrant (fun _ _ _ _ _ _ _ => rfl) ..
  rw [resolved_iff, hgrant, EndedBy, and_iff_right hidle, and_congr_right_iff]
  intro _
  rcases h.machine with hrests | hd
  · have hother : x.machine ≠ .dispatched := by
      intro hd
      rw [hd] at hrests
      cases hrests
    exact iff_of_true (noncommit_rests (x := x.endDispatch.release) hrests cfg a now mo) fun hd => absurd hd hother
  · have hrests := noncommit_dispatched_rests (x := x.endDispatch.release) hd cfg a now mo
    change (x.resolve cfg a now mo).machine.rests = !x.strandedBy cfg mo at hrests
    rw [hrests, Bool.not_eq_true', forall_prop_of_true hd]

end Seq

/-- A report resolves its sequence unless its outcome strands it, or it is granted and no receipt comes of that. -/
theorem Fabric.Fate.resolved_iff (h : Fate s prepared pm x ga o y) (hp : x.Placed) : y.Resolved ↔
    (s.prepareVerdict x pm = .noncommit → x.EndedBy s.cfg pm.outcome) ∧ (ga.hasGrant = true → o.isSome = true) := by
  cases h with
  | finished gid r hv =>
    have hrests := (Seq.Placed.finish (x := x.holdGrant gid pm) hp (s.finishTime r) r).rests rfl
    refine iff_of_true (Seq.resolved_iff.mpr ⟨rfl, rfl, hrests⟩) ⟨fun hn => ?_, fun _ => rfl⟩
    rw [hv] at hn
    cases hn
  | left gid hv => exact iff_of_false (fun hy => by cases hy.free) fun hall => by cases hall.2 rfl
  | refused rej hv =>
    have hrests := @Seq.Placed.requeue .readyForNextToken x.release hp rfl rfl
    refine iff_of_true (Seq.resolved_iff.mpr ⟨rfl, rfl, hrests⟩) ⟨fun hn => ?_, nofun⟩
    rw [hv] at hn
    cases hn
  | ended hv =>
    rw [Seq.resolve_resolved_iff hp]
    exact ⟨fun hends => ⟨fun _ => hends, nofun⟩, fun hall => hall.1 hv⟩

/-- What a pump makes of a sequence it sends: a token is committed, the grant is left, the member is refused, or an
    outcome ends the dispatch. -/
inductive Seq.Pumped (cfg : Config) (x : Seq) : Seq → Prop
  | finished (gid : GrantId) (pm : PreparedMember) (fin : TimePoint) (r : MemberReceipt) :
      Pumped cfg x ((x.holdGrant gid pm).finish fin r)
  | left (gid : GrantId) (pm : PreparedMember) : Pumped cfg x (x.holdGrant gid pm)
  | refused (now : TimePoint) : Pumped cfg x (SeqOp.apply (.reconcile now) x)
  | ended (a : AttemptId) (now : TimePoint) (mo : MemberOutcome) : Pumped cfg x (x.resolve cfg a now mo)

theorem Fabric.Fate.pumped (h : Fate s prepared pm x ga o y) : x.Pumped s.cfg y := by
  cases h with
  | finished => exact .finished ..
  | left => exact .left ..
  | refused => exact .refused _
  | ended => exact .ended ..

/-! Members in flight. -/

namespace Fabric

theorem bootMoved_getD (s : Fabric) (w : WorkerId) : s.bootMoved w (s.workerCurrentBoot.getD w 0) = false := by
  unfold bootMoved Table.getD
  cases s.workerCurrentBoot.find? w <;> simp

theorem completionVerdict_of_applied {result : DecodeExecutionResult} (h : Applied s result x mo) :
    s.completionVerdict result x mo = .apply := by
  have hlive := h.live
  have hended : x.machine ≠ .cancelled ∧ x.machine ≠ .deadlineExpired := by
    constructor <;> intro hc <;> rw [hc] at hlive <;> cases hlive
  simp [completionVerdict, h.epoch, h.boot, h.attempt, h.generation, h.dispatch, hlive, h.notCancelling, hended,
    h.notStale, of_decide_eq_false h.notSuccess]

/-- Member `m` of `d` is as the tick left it, and a failure of the preparation would be applied to it. -/
def InFlight (d : Dispatch) (s : Fabric) (m : DecodeMemberSpec) : Prop :=
  ∃ x, s.seqs.find? m.sequence = some x ∧ x.Placed ∧
    ∀ e, s.completionVerdict (d.prepareFailure e) x (m.prepareFailure e) = .apply

theorem InFlight.beside (h : InFlight d s m) (hst : Beside m.sequence s t) : InFlight d t m := by
  obtain ⟨x, hx, hplaced, hfails⟩ := h
  refine ⟨x, hst.seq.trans hx, hplaced, fun e => ?_⟩
  have hframe := hst.frame
  simp only [frame, Prod.mk.injEq] at hframe
  rw [← hfails e]
  unfold completionVerdict bootMoved
  rw [hframe.2.2.1, hframe.2.2.2.1]

theorem inFlight_of_sent (hs : Reachable s) (hd : d ∈ (s.round tn).2) (hm : m ∈ d.members) :
    InFlight d (s.round tn).1 m := by
  have hadvanced : Reachable (s.advance tn).1 := hs.next (Next.op _ (.advance tn))
  have hid := schedule_ids tn (Nat.ne_of_gt (reachable_nextDispatch hadvanced)) d hd
  obtain ⟨x, -, ⟨hsendable, -⟩, hspec, hafter⟩ := Host.dispatched_sendable tn hd hm
  obtain ⟨hlive, hcancel⟩ := Seq.sent_live hsendable.1 tn d
  have hemitted := schedule_emitted tn d hd
  have hstanding := (s.advance tn).1.schedule_standing tn
  have hboots : (s.round tn).1.workerCurrentBoot = (s.advance tn).1.workerCurrentBoot :=
    congrArg Standing.boots hstanding
  have hattempt : m.attempt = x.currentAttempt := by rw [hspec]; rfl
  have hgeneration : m.generation = x.generation := by rw [hspec]; rfl
  refine ⟨_, hafter, Seq.placed_dispatchUnder hsendable.1 hid tn, fun e => completionVerdict_of_applied
    ⟨hemitted.epoch.trans (congrArg Standing.epoch hstanding).symm, ?_, hattempt, hgeneration, rfl, hlive, hcancel,
      nofun, rfl⟩⟩
  change bootMoved _ d.worker d.workerBoot = false
  rw [hemitted.boot, ← hboots]
  exact bootMoved_getD _ _

end Fabric

/-! One dispatch. -/

namespace DecodeExecutor
variable {E : Type} {B : DecodeExecutor E} {took : StepTimes} {p : Fabric × E}

/-- What has to go right in the pump of `d` from `p`: no outcome, of a failed preparation or reported, strands its
    sequence, and no commit of a grant fails. -/
def Completes (B : DecodeExecutor E) (took : StepTimes) (tn : TimePoint) (p : Fabric × E)
    (d : Dispatch) : Prop :=
  match B.prepare d.toRequest took p.2 with
  | (_, .error e) => ∀ m ∈ d.members, ∀ x ∈ p.1.seqs.find? m.sequence, x.EndedBy p.1.cfg (m.prepareFailure e)
  | (ex, .ok prepared) =>
    (∀ pm ∈ prepared.members, ∀ x ∈ p.1.seqs.find? pm.sequence, p.1.prepareVerdict x pm = .noncommit →
      x.EndedBy p.1.cfg pm.outcome) ∧
    ∀ turn ∈ turns (fun ex ga => (B.resolveMember tn ex ga).1) ex (p.1.authorizePrepared prepared).2.members,
      turn.2.hasGrant = true → ∃ r, (B.commit turn.2.grant turn.1).2 = .ok r

/-- A failed preparation ends the dispatch of every member. -/
theorem pumpDispatch_failed {e : Error} {ex : E} (tn : TimePoint)
    (hfail : B.prepare d.toRequest took p.2 = (ex, .error e))
    (hn : d.members.Pairwise fun m m' => m.sequence ≠ m'.sequence) (h : ∀ m ∈ d.members, InFlight d p.1 m) :
    ∀ m ∈ d.members, ∃ x, p.1.seqs.find? m.sequence = some x ∧ x.Placed ∧
      (B.pumpDispatch took tn p d).1.seqs.find? m.sequence =
        some (x.resolve p.1.cfg p.1.mintAttempt p.1.clock (m.prepareFailure e)) := by
  have hall := run_beside (s := p.1) (l := d.members)
    (f := fun u m => (applyOutcome (d.prepareFailure e) u (m.prepareFailure e), ()))
    (N := DecodeMemberSpec.sequence) (T := fun u m => InFlight d p.1 m ∧ Beside m.sequence p.1 u)
    (D := fun u m _ => ∃ x, p.1.seqs.find? m.sequence = some x ∧ x.Placed ∧
      u.seqs.find? m.sequence = some (x.resolve p.1.cfg p.1.mintAttempt p.1.clock (m.prepareFailure e)))
    ?_ ?_
    (fun _ _ _ hst h => ⟨h.1, h.2.trans hst⟩) (fun _ _ _ _ hst ⟨x, hx, hp, hy⟩ => ⟨x, hx, hp, hst.seq.trans hy⟩)
    hn fun m hm => ⟨h m hm, .refl _ _⟩
  · intro m hm
    obtain ⟨-, -, hy⟩ := forall₂_answer hall m hm
    rw [scan_fst] at hy
    unfold pumpDispatch
    rw [hfail, show (p.1.applyCompletion (d.prepareFailure e)).1 = _ from foldl_map]
    exact hy
  · exact fun u m _ => u.applyOutcome_steps _ (m.prepareFailure e) (fun _ _ _ _ => rfl) fun _ _ _ => ⟨rfl, rfl⟩
  · rintro u m ⟨⟨x, hx, hplaced, hfails⟩, hbeside⟩
    obtain ⟨x', hx', -, hfails'⟩ := InFlight.beside ⟨x, hx, hplaced, hfails⟩ hbeside
    cases (hbeside.seq.trans hx).symm.trans hx'
    have hframe := hbeside.frame
    simp only [frame, Prod.mk.injEq] at hframe
    refine ⟨x, hx, hplaced, ?_⟩
    change (applyOutcome _ u (m.prepareFailure e)).seqs.find? m.sequence = _
    unfold applyOutcome
    rw [show u.seqs.find? (m.prepareFailure e).sequence = some x from hx']
    simp only [hfails' e]
    have hended := resolveNoncommit_find? hx' (rfl : (m.prepareFailure e).sequence = m.sequence)
    rw [hframe.1, hframe.2.1, mintAttempt, hframe.2.2.2.2] at hended
    exact hended

/-- A commit that gives no receipt has failed. -/
theorem resolveMember_granted (tn : TimePoint) (ex : E) (gid : GrantId) (prepared : PreparedDecode)
    (pm : PreparedMember) : (B.resolveMember tn ex (grantReply gid prepared pm)).2.isSome = true ↔
      ∃ r, (B.commit (makeGrant gid prepared pm) ex).2 = .ok r := by
  unfold resolveMember
  rw [if_neg (by simp [grantReply, abortReply])]
  rw [show (grantReply gid prepared pm).grant = makeGrant gid prepared pm from rfl]
  rcases B.commit (makeGrant gid prepared pm) ex with ⟨ex', e | r⟩
  · simp
  · simp

/-- Every member comes to an end of some kind. -/
theorem Honest.pumpDispatch_member (hB : B.Honest) (tn : TimePoint)
    (hn : d.members.Pairwise fun m m' => m.sequence ≠ m'.sequence) (h : ∀ m ∈ d.members, InFlight d p.1 m) :
    ∀ m ∈ d.members, ∃ x y, p.1.seqs.find? m.sequence = some x ∧
      (B.pumpDispatch took tn p d).1.seqs.find? m.sequence = some y ∧ x.Pumped p.1.cfg y := by
  intro m hm
  rcases hprepare : B.prepare d.toRequest took p.2 with ⟨ex, e | prepared⟩
  · obtain ⟨x, hx, -, hy⟩ := pumpDispatch_failed tn hprepare hn h m hm
    exact ⟨x, _, hx, hy, .ended ..⟩
  · obtain ⟨hapart, hself, hknown⟩ := hB.reports hprepare hn fun m hm => (h m hm).imp fun _ => And.left
    obtain ⟨pm, hpm, hseq, -⟩ := forall₂_answer (hB.prepare hprepare) m hm
    obtain ⟨go, -, x, y, hx, hy, hfate⟩ :=
      forall₂_answer (settled_all hapart hself hknown (hB.honoured tn ex _)) pm hpm
    rw [← pumpDispatch_prepared hprepare] at hy
    rw [hseq] at hx hy
    exact ⟨x, y, hx, hy, hfate.pumped⟩

/-- A dispatch resolves its members exactly if all goes right in it. -/
theorem Honest.pumpDispatch_iff (hB : B.Honest) (hn : d.members.Pairwise fun m m' => m.sequence ≠ m'.sequence)
    (h : ∀ m ∈ d.members, InFlight d p.1 m) :
    (∀ m ∈ d.members, ∃ y, (B.pumpDispatch took tn p d).1.seqs.find? m.sequence = some y ∧ y.Resolved) ↔
      B.Completes took tn p d := by
  unfold Completes
  rcases hprepare : B.prepare d.toRequest took p.2 with ⟨ex, e | prepared⟩
  · refine forall₂_congr fun m hm => ?_
    obtain ⟨x, hx, hplaced, hy⟩ := pumpDispatch_failed tn hprepare hn h m hm
    simp only [hy, hx, Option.some.injEq, exists_eq_left', Option.mem_def, forall_eq']
    exact Seq.resolve_resolved_iff hplaced ..
  · obtain ⟨hapart, hself, hknown⟩ := hB.reports hprepare hn fun m hm => (h m hm).imp fun _ => And.left
    have hreports := hB.prepare hprepare
    have hsettled := settled_all hapart hself hknown (hB.honoured tn ex _)
    rw [← pumpDispatch_prepared hprepare, scan_zip] at hsettled
    -- the fate of a report, and what it takes to resolve its sequence
    have hfate : ∀ m ∈ d.members, ∀ pm, pm.sequence = m.sequence → ∀ turn : E × GrantOrAbort,
        Settled p.1 prepared (B.pumpDispatch took tn p d).1 pm turn.2 (B.resolveMember tn turn.1 turn.2).2 →
        ((∃ y, (B.pumpDispatch took tn p d).1.seqs.find? m.sequence = some y ∧ y.Resolved) ↔
          (∀ x ∈ p.1.seqs.find? pm.sequence, p.1.prepareVerdict x pm = .noncommit → x.EndedBy p.1.cfg pm.outcome) ∧
          (turn.2.hasGrant = true → ∃ r, (B.commit turn.2.grant turn.1).2 = .ok r)) := by
      intro m hm pm hseq turn hs
      have hgranted := hs.granted
      obtain ⟨x, y, hx, hy, hfate⟩ := hs
      obtain ⟨x', hx', hplaced, -⟩ := h m hm
      rw [← hseq] at hx' ⊢
      cases hx.symm.trans hx'
      simp only [hy, hx, Option.some.injEq, exists_eq_left', Option.mem_def, forall_eq']
      rw [hfate.resolved_iff hplaced]
      refine and_congr_right fun _ => forall_congr' fun hgrant => ?_
      obtain ⟨gid, heq⟩ := hgranted hgrant
      rw [heq]
      exact resolveMember_granted ..
    constructor
    · intro hall
      refine ⟨fun pm hpm => ?_, fun turn hturn => ?_⟩
      · obtain ⟨m, hm, hseq, -⟩ := forall₂_item hreports pm hpm
        obtain ⟨go, hgo, hs⟩ := forall₂_answer hsettled pm hpm
        obtain ⟨turn, -, rfl⟩ := mem_map.mp hgo
        exact ((hfate m hm pm hseq turn hs).mp (hall m hm)).1
      · obtain ⟨pm, hpm, hs⟩ := forall₂_item hsettled _ (mem_map_of_mem hturn)
        obtain ⟨m, hm, hseq, -⟩ := forall₂_item hreports pm hpm
        exact ((hfate m hm pm hseq turn hs).mp (hall m hm)).2
    · rintro ⟨houtcomes, hcommits⟩ m hm
      obtain ⟨pm, hpm, hseq, -⟩ := forall₂_answer hreports m hm
      obtain ⟨go, hgo, hs⟩ := forall₂_answer hsettled pm hpm
      obtain ⟨turn, hturn, rfl⟩ := mem_map.mp hgo
      exact (hfate m hm pm hseq turn hs).mpr ⟨houtcomes pm hpm, hcommits turn hturn⟩

/-! The whole pump. -/

/-- The turns of a pump: its dispatches, with what each of them finds. -/
def pumpTurns (B : DecodeExecutor E) (took : Dispatch → StepTimes) (tn : TimePoint)
    (p : Fabric × E) : List ((Fabric × E) × Dispatch) :=
  turns (fun p d => B.pumpDispatch (took d) tn p d) ((p.1.round tn).1, p.2)
    (p.1.round tn).2

/-- A dispatch finds the sequences of its members as the tick left them, and no later one touches them. -/
theorem turns_beside {f : Fabric × E → Dispatch → Fabric × E} (hf : ∀ p d,
      d.members.Pairwise (fun m m' => m.sequence ≠ m'.sequence) →
      (∀ m ∈ d.members, ∃ x, p.1.seqs.find? m.sequence = some x) →
      Steps (Act.On fun q => ∃ m ∈ d.members, q = m.sequence) p.1 (f p d).1) {ds : List Dispatch}
    (hn : (ds.flatMap Dispatch.members).Pairwise fun m m' => m.sequence ≠ m'.sequence)
    (h : ∀ d ∈ ds, ∀ m ∈ d.members, ∃ x, p.1.seqs.find? m.sequence = some x) :
    Steps (Act.On fun q => ∃ m ∈ ds.flatMap Dispatch.members, q = m.sequence) p.1 (ds.foldl f p).1 ∧
      ∀ turn ∈ turns f p ds, ∀ m ∈ turn.2.members, Beside m.sequence p.1 turn.1.1 ∧
        (ds.foldl f p).1.seqs.find? m.sequence = (f turn.1 turn.2).1.seqs.find? m.sequence := by
  induction ds generalizing p with
  | nil => exact ⟨.refl _ _, fun _ hturn => by cases hturn⟩
  | cons d ds ih =>
    rw [flatMap_cons, pairwise_append] at hn
    obtain ⟨hown, hrest, hapart⟩ := hn
    have hsteps := hf p d hown (h d mem_cons_self)
    have hbeside : ∀ m' ∈ ds.flatMap Dispatch.members, Beside m'.sequence p.1 (f p d).1 := by
      intro m' hm'
      refine hsteps.beside ?_
      rintro ⟨m, hm, heq⟩
      exact hapart m hm m' hm' heq.symm
    obtain ⟨hsteps', hturns⟩ := ih (p := f p d) hrest fun d' hd' m hm => by
      rw [(hbeside m (mem_flatMap.mpr ⟨d', hd', hm⟩)).seq]
      exact h d' (mem_cons_of_mem _ hd') m hm
    refine ⟨(hsteps.mono fun _ => Act.On.mono ?_).trans (hsteps'.mono fun _ => Act.On.mono ?_),
      fun turn hturn m hm => ?_⟩
    · exact fun q ⟨m, hm, hq⟩ => ⟨m, mem_append_left _ hm, hq⟩
    · exact fun q ⟨m, hm, hq⟩ => ⟨m, mem_append_right _ hm, hq⟩
    · rcases mem_cons.mp hturn with rfl | hturn
      · refine ⟨.refl _ _, (hsteps'.beside ?_).seq⟩
        rintro ⟨m', hm', heq⟩
        exact hapart m hm m' hm' heq
      · obtain ⟨hst, hsame⟩ := hturns turn hturn m hm
        exact ⟨(hbeside m (mem_flatMap.mpr ⟨_, mem_of_mem_turns hturn, hm⟩)).trans hst, hsame⟩

/-- The same of the turns of a pump, whose members are all in flight when their turn comes. -/
theorem Honest.pumpTurns_spec (hB : B.Honest) (hs : Reachable s) (ex : E)
    (took : Dispatch → StepTimes) (tn : TimePoint) :
    Steps (Act.On fun q => ∃ m ∈ (s.round tn).2.flatMap Dispatch.members, q = m.sequence)
        (s.round tn).1 (B.pumpOnce took tn (s, ex)).1.1 ∧
      ∀ turn ∈ B.pumpTurns took tn (s, ex), turn.2.members.Pairwise (fun m m' => m.sequence ≠ m'.sequence) ∧
        ∀ m ∈ turn.2.members, InFlight turn.2 turn.1.1 m ∧ Beside m.sequence (s.round tn).1 turn.1.1 ∧
          (B.pumpOnce took tn (s, ex)).1.1.seqs.find? m.sequence =
            (B.pumpDispatch (took turn.2) tn turn.1 turn.2).1.seqs.find? m.sequence := by
  have hnames := pairwise_map.mp (schedule_nodup (s.advance tn).1 tn)
  have hflight : ∀ d ∈ (s.round tn).2, ∀ m ∈ d.members,
      InFlight d (s.round tn).1 m := fun d hd m hm => inFlight_of_sent hs hd hm
  obtain ⟨hsteps, hturns⟩ := turns_beside (p := ((s.round tn).1, ex))
    (fun p d => hB.pumpDispatch_on (p := p) (took d) tn) hnames
    fun d hd m hm => (hflight d hd m hm).imp fun _ => And.left
  refine ⟨hsteps, fun turn hturn => ?_⟩
  have hd := mem_of_mem_turns hturn
  refine ⟨(pairwise_flatMap.mp hnames).1 _ hd, fun m hm => ?_⟩
  obtain ⟨hbeside, hsame⟩ := hturns turn hturn m hm
  exact ⟨(hflight _ hd m hm).beside hbeside, hbeside, hsame⟩

theorem Honest.pumped (hB : B.Honest) (hs : Reachable s) (ex : E) (took : Dispatch → StepTimes)
    (tn : TimePoint) : ∀ d ∈ (s.round tn).2, ∀ m ∈ d.members, ∃ x y,
      (s.round tn).1.seqs.find? m.sequence = some x ∧
        (B.pumpOnce took tn (s, ex)).1.1.seqs.find? m.sequence = some y ∧ x.Pumped s.cfg y := by
  intro d hd m hm
  obtain ⟨p, hturn⟩ := exists_turn (s := ((s.round tn).1, ex)) hd
  obtain ⟨hn, hmembers⟩ := (hB.pumpTurns_spec hs ex took tn).2 (p, d) hturn
  obtain ⟨-, hbeside, hsame⟩ := hmembers m hm
  obtain ⟨x, y, hx, hy, hpumped⟩ := hB.pumpDispatch_member tn hn (fun m hm => (hmembers m hm).1) m hm
  have hcfg : p.1.cfg = s.cfg := (congrArg Prod.fst hbeside.frame).trans
    (congrArg Standing.cfg (((s.advance tn).1.schedule_standing tn).trans (s.advance_standing tn)))
  exact ⟨x, y, hbeside.seq.symm.trans hx, hsame.trans hy, hcfg ▸ hpumped⟩

end DecodeExecutor

/-- A pump over any executor leaves every member it sends out of flight, without a grant and where it can rest, exactly
    if all goes right in each of its dispatches. -/
theorem pump_resolves_iff {E : Type} {B : DecodeExecutor E} (hB : B.Honest) (hs : Reachable s) (ex : E)
    (took : Dispatch → StepTimes) (tn : TimePoint) :
    (∀ d ∈ (B.pumpOnce took tn (s, ex)).2, ∀ m ∈ d.members, ∃ y,
        (B.pumpOnce took tn (s, ex)).1.1.seqs.find? m.sequence = some y ∧ y.Resolved) ↔
      ∀ turn ∈ B.pumpTurns took tn (s, ex), B.Completes (took turn.2) tn turn.1 turn.2 := by
  obtain ⟨-, hturns⟩ := hB.pumpTurns_spec hs ex took tn
  have hturn : ∀ turn ∈ B.pumpTurns took tn (s, ex), (∀ m ∈ turn.2.members, ∃ y,
      (B.pumpOnce took tn (s, ex)).1.1.seqs.find? m.sequence = some y ∧ y.Resolved) ↔
        B.Completes (took turn.2) tn turn.1 turn.2 := by
    intro turn hmem
    obtain ⟨hn, hmembers⟩ := hturns turn hmem
    rw [← hB.pumpDispatch_iff hn fun m hm => (hmembers m hm).1]
    refine forall₂_congr fun m hm => ?_
    rw [(hmembers m hm).2.2]
  constructor
  · intro hall turn hmem
    exact (hturn turn hmem).mp (hall turn.2 (mem_of_mem_turns hmem))
  · intro hall d hd
    obtain ⟨p, hmem⟩ := exists_turn (s := ((s.round tn).1, ex)) hd
    exact (hturn (p, d) hmem).mpr (hall (p, d) hmem)

/-- An executor that prepares nothing. -/
def Sample.failing : DecodeExecutor Unit where
  backend := .cpu
  fresh := ()
  prepare _ _ _ := ((), .error { code := .unknownState, message := "refused" })
  commit _ _ := ((), .error { code := .unknownState, message := "refused" })
  abort _ _ := ((), .ok ())
  committedTokens _ _ := 0
  hasPrepared _ _ _ := false

theorem pump_resolves_failing : ∃ d m y, d ∈ (failing.pumpOnce (fun _ _ => 0) 1 (waiting, ())).2 ∧ m ∈ d.members ∧
    (failing.pumpOnce (fun _ _ => 0) 1 (waiting, ())).1.1.seqs.find? m.sequence = some y ∧ y.Resolved := by
  have hsome : ∃ d ∈ (failing.pumpOnce (fun _ _ => 0) 1 (waiting, ())).2, d.members ≠ [] := by decide
  obtain ⟨d, hd, hne⟩ := hsome
  obtain ⟨m, hm⟩ := exists_mem_of_ne_nil _ hne
  have hends : ∀ turn ∈ failing.pumpTurns (fun _ _ => 0) 1 (waiting, ()), ∀ m ∈ turn.2.members,
      ∀ x ∈ turn.1.1.seqs.find? m.sequence, x.EndedBy turn.1.1.cfg
        (m.prepareFailure { code := .unknownState, message := "refused" }) := by decide
  obtain ⟨y, hy, hres⟩ := (pump_resolves_iff (B := failing) ⟨nofun, nofun⟩ waiting_reachable () (fun _ _ => 0) 1).mpr
    hends d hd m hm
  exact ⟨d, m, y, hd, hm, hy, hres⟩

/-- The executor after another fabric has committed a token over state 2, under its grant 1. -/
def Sample.servedSession : Session counter :=
  (Session.single counter executeRequest
    { memberSpec 0 with sequence := 2, state := { id := 2 } }).foldl Session.exec {}

/-- The grant has the id of a receipt the executor keeps. Its commit fails, and nothing ends the dispatch. -/
theorem failed_commit_left : ∃ H : Host counter, Reachable H.fabric ∧ H.executor.Reached ∧
    ∃ d ∈ (H.pumpOnce (fun _ _ => 0) 1).2, ∃ m ∈ d.members, ∃ x,
      (H.pumpOnce (fun _ _ => 0) 1).1.fabric.seqs.find? m.sequence = some x ∧ x.hasInflight = true ∧
        x.hasInflightGrant = true ∧ x.machine = .dispatched := by
  refine ⟨{ fabric := waiting, executor := servedSession.executor }, waiting_reachable,
    ⟨_, _, Session.trace_run {} _, rfl⟩, ?_⟩
  have hleft : ∃ d ∈ (Host.pumpOnce (fun _ _ => 0) 1 ⟨waiting, servedSession.executor⟩).2, ∃ m ∈ d.members,
      ((Host.pumpOnce (fun _ _ => 0) 1 ⟨waiting, servedSession.executor⟩).1.fabric.seqs.find? m.sequence).any (fun x =>
        x.hasInflight ∧ x.hasInflightGrant ∧ x.machine = .dispatched) = true := by decide
  obtain ⟨d, hd, m, hm, hx⟩ := hleft
  obtain ⟨x, hfind, hx⟩ := Option.any_eq_true _ _ |>.mp hx
  exact ⟨d, hd, m, hm, x, hfind, of_decide_eq_true hx⟩

end DecodeFabric
