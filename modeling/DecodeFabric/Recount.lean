import DecodeFabric.EventLog
import DecodeFabric.Recovered
import DecodeFabric.Service

/- The counters a recovered fabric starts with.

   A snapshot carries no statistics. `recover_state` computes four of them, and the slots of the tenants, from the
   sequences it restores: the tokens from `generated`, the steps from the generations, the sequences and the requests
   from the sizes of two tables, the slots by counting. The fabric that was saved counted events, and the two agree
   only as far as each event leaves its trace in a sequence of its own. `generated` also counts the tokens a
   request came with, two sequences of one request leave one entry, and an ended sequence is counted as if it still held
   its slot. `recount_agrees_iff` says that there is nothing else. -/
namespace DecodeFabric
open Lib Table Fabric Sample UInt64

/-- Only receipts count for the derived figures. -/
theorem exec_meter (s : Fabric) {o : Op} (hr : ∀ receipts, o ≠ .applyCommitReceipt receipts) :
    (s.exec o).stats.meter = s.stats.meter := by
  by_cases ho : ∃ inp, o = .submit inp
  · obtain ⟨inp, rfl⟩ := ho
    exact (s.submit_logs inp).1
  · exact congrArg Prod.snd (exec_quiet s (not_exists.mp ho) hr).tally

theorem exec_registry (s : Fabric) {o : Op} (ho : ∀ inp, o ≠ .submit inp) : (s.exec o).registry = s.registry := by
  by_cases hr : ∃ receipts, o = .applyCommitReceipt receipts
  · obtain ⟨receipts, rfl⟩ := hr
    exact (applyCommitReceipt_logs s receipts).1
  · exact congrArg Prod.fst (exec_quiet s ho (not_exists.mp hr)).tally

theorem exec_admissions (s : Fabric) {o : Op} (ho : ∀ inp, o ≠ .submit inp) : (s.exec o).admissions = s.admissions :=
  congrArg Prod.snd (exec_registry s ho)

theorem exec_reqToSeq (s : Fabric) {o : Op} (ho : ∀ inp, o ≠ .submit inp) : (s.exec o).reqToSeq = s.reqToSeq :=
  congrArg Prod.fst (exec_registry s ho)

/-! The sequences and what was counted for them. -/

/-- Each sequence was counted once, in both counters. -/
def Fabric.Admitted (s : Fabric) : Prop := s.admissions = (s.seqs.entries.length, s.seqs.entries.length)

theorem Fabric.enrol_new {s : Fabric} {q : SequenceId} (h : s.seqs.find? q = none) (req : DecodeRequest) :
    (s.enrol req q).1.seqs = s.seqs.insert q (Seq.ofRequest req) := by
  simp [enrol, h]

/-- A request is refused, or enters as a new sequence under the id it names. -/
theorem submit_cases (s : Fabric) (inp : DecodeRequest) :
    ((s.submit inp).1.seqs = s.seqs ∧ (s.submit inp).1.registry = s.registry ∧ (s.submit inp).2.admitted = false) ∨
    (inp.validate = .ok () ∧ s.backpressure (s.buildKey inp) = none ∧ s.seqs.find? inp.sequence = none ∧
      s.submit inp = s.enrol (s.buildKey inp) inp.sequence) := by
  unfold submit
  split
  · exact .inl ⟨rfl, rfl, rfl⟩
  · next hv =>
    simp only
    split
    · exact .inl ⟨rfl, rfl, rfl⟩
    · split
      · exact .inl ⟨rfl, rfl, rfl⟩
      · next hb =>
        rw [buildKey_sequence, if_pos (validate_sequence hv)]
        split
        · exact .inl ⟨rfl, rfl, rfl⟩
        · next hid => exact .inr ⟨hv, hb, by simpa using hid, rfl⟩

theorem submit_admitted {s : Fabric} (h : s.Admitted) (inp : DecodeRequest) : (s.submit inp).1.Admitted := by
  rcases submit_cases s inp with ⟨hs, hreg, -⟩ | ⟨-, -, hnone, heq⟩
  · unfold Fabric.Admitted
    rw [hs, show (s.submit inp).1.admissions = s.admissions from congrArg Prod.snd hreg]
    exact h
  · unfold Fabric.Admitted
    rw [heq, enrol_new hnone, insert_new hnone, List.length_append]
    exact congrArg (fun p : Nat × Nat => (p.1 + 1, p.2 + 1)) h

/-- Only a submission may admit. -/
theorem Call.MayPerform.submits {c : Call} {q : SequenceId} {req : DecodeRequest} (h : c.MayPerform (.enrol q req)) :
    ∃ inp, c = .op (.submit inp) := by
  cases c with
  | op o =>
    cases o with
    | submit inp => exact ⟨inp, rfl⟩
    | _ => exact absurd h id
  | tick now | rehash => cases h

/-- No deed but an admission changes how many sequences there are. -/
theorem Does.length {s t : Fabric} {d : Deed} (h : Does s d t) (hd : ∀ q req, d ≠ .enrol q req) :
    t.seqs.entries.length = s.seqs.entries.length := by
  have hkeys : ∀ {u v : Table SequenceId Seq}, u.keys = v.keys → u.entries.length = v.entries.length := by
    intro u v huv
    simpa [keys] using congrArg List.length huv
  cases h with
  | note hs _ | register hs _ | lose hs _ => rw [hs]
  | change _ hs _ =>
    rw [hs]
    exact hkeys (keys_modify ..)
  | enrol _ _ _ => exact absurd rfl (hd _ _)
  | send hs _ =>
    rw [hs]
    exact foldl_invariant (I := fun u : Table SequenceId Seq => u.entries.length = s.seqs.entries.length)
      (fun p _ hp => (hkeys (keys_modify ..)).trans hp) rfl
  | shuffle hs _ _ => exact hs.length_eq

theorem exec_length (s : Fabric) {o : Op} (ho : ∀ inp, o ≠ .submit inp) :
    (s.exec o).seqs.entries.length = s.seqs.entries.length := by
  refine Deeds.invariant (I := fun t : Fabric => t.seqs.entries.length = s.seqs.entries.length) ?_ (exec_deeds s o) rfl
  intro u v d hd hp hu
  refine (hd.length fun q req heq => ?_).trans hu
  subst heq
  cases hp
  exact ho _ rfl

theorem reachable_admitted {s : Fabric} (hs : Reachable s) : s.Admitted := by
  obtain ⟨h, cfg, clock, hr⟩ := hs
  refine hr.invariant (I := Fabric.Admitted) (P := fun _ => True) ?_ (fun _ _ => trivial) rfl
  rintro ⟨s, c, t⟩ hn - hs
  change Next s c t at hn
  cases hn with
  | op o =>
    by_cases ho : ∃ inp, o = .submit inp
    · obtain ⟨inp, rfl⟩ := ho
      exact submit_admitted hs inp
    · unfold Fabric.Admitted
      rw [exec_admissions s (not_exists.mp ho), exec_length s (not_exists.mp ho)]
      exact hs
  | tick now => exact hs
  | rehash seqs workers hperm _ =>
    unfold Fabric.Admitted
    rw [hperm.length_eq]
    exact hs

/-! The tokens of a sequence. -/

/-- The tokens a sequence has are those its request came with and one for each generation, as 64-bit counters. -/
structure Seq.Metered (x : Seq) : Prop where
  committed : x.committed = x.generated
  generated : x.generated + 1 = x.req.pregenerated + .ofNat x.generation
  pos : 1 ≤ x.generation

theorem Seq.Metered.ofRequest (req : DecodeRequest) : (ofRequest req).Metered := by
  refine ⟨rfl, ?_, Nat.le_refl 1⟩
  show (if req.pregenerated > 0 then req.pregenerated else 0) + 1 = req.pregenerated + 1
  split
  · rfl
  · next h =>
    have hzero : req.pregenerated = 0 := by simpa using h
    rw [hzero]

theorem Seq.Metered.touched {x y : Seq} (h : x.Metered) (hxy : Touched x y) : y.Metered := by
  have hgen : y.generated = x.generated := by
    rcases hxy.generated with hg | hg
    · exact hg
    · exact hg.trans h.committed
  refine ⟨?_, ?_, ?_⟩
  · rw [hxy.committed, hgen]
    exact h.committed
  · rw [hgen, hxy.req, hxy.generation]
    exact h.generated
  · rw [hxy.generation]
    exact h.pos

theorem metered_kept : Kept (fun _ => True) Seq.Metered where
  seq _ hg h := h.touched (SeqOp.touched hg)
  enrol _ := Seq.Metered.ofRequest _
  issue _ _ h := ⟨h.committed, h.generated, h.pos⟩
  finalize {s x r} _ h := by
    obtain ⟨st, ready, hshape⟩ := Seq.finish_shape (s.finishTime r) r x
    rw [hshape]
    refine ⟨congrArg (· + 1) h.committed, ?_, Nat.le_succ_of_le h.pos⟩
    show x.generated + 1 + 1 = x.req.pregenerated + .ofNat (x.generation + 1)
    rw [h.generated, UInt64.ofNat_add, UInt64.add_assoc]
    rfl
  abort _ h := ⟨h.committed, h.generated, h.pos⟩

theorem reachable_metered {s : Fabric} (hs : Reachable s) : s.AllSeqs Seq.Metered :=
  metered_kept.reachable hs

theorem Seq.Metered.tokens {x : Seq} (h : x.Metered) :
    x.generated.toNat % 2 ^ 64 = (x.req.pregenerated.toNat + (x.generation - 1)) % 2 ^ 64 := by
  have hwords := congrArg UInt64.toNat h.generated
  rw [UInt64.toNat_add, UInt64.toNat_add, UInt64.toNat_ofNat'] at hwords
  change (x.generated.toNat + 1) % 2 ^ 64 = (x.req.pregenerated.toNat + x.generation % 2 ^ 64) % 2 ^ 64 at hwords
  have hnat : ∀ a b n : Nat, 1 ≤ n → (a + 1) % 2 ^ 64 = (b + n % 2 ^ 64) % 2 ^ 64 →
      a % 2 ^ 64 = (b + (n - 1)) % 2 ^ 64 := by omega
  exact hnat _ _ _ h.pos hwords

/-! What recovery counts. -/

namespace Fabric

/-- The tokens the requests of the sequences came with. -/
def pregenerated (s : Fabric) : Nat := s.seqs.total fun _ x => x.req.pregenerated.toNat

/-- The ended sequences of tenant `u`. -/
def endedOf (s : Fabric) (u : TenantId) : Nat :=
  s.seqs.total fun _ x => if x.req.tenant = u ∧ x.machine.isTerminal = true then 1 else 0

/-- The requests of the sequences. -/
def requestIds (s : Fabric) : List RequestId := s.seqs.entries.map fun e => e.2.req.id

/-- The counters of `t` are those of `s`, 64 bits wide, and its slots are those of its live sequences. -/
structure SameCounters (s t : Fabric) : Prop where
  tokens : ofNat t.stats.generatedTokens = .ofNat s.stats.generatedTokens
  steps : ofNat t.stats.decodeSteps = .ofNat s.stats.decodeSteps
  started : ofNat t.stats.sequencesStarted = .ofNat s.stats.sequencesStarted
  requests : ofNat t.stats.requestsAdmitted = .ofNat s.stats.requestsAdmitted
  slots : ∀ u, t.tenantActive.getD u 0 = .ofNat (t.activeOf u)

section Recovered
variable {F : Fabric} (s : Fabric)

theorem recovered_total (w : Seq → Nat) (hw : ∀ x : Seq, w x.recovered = w x) :
    ((s.recoveredFrom F).seqs.total fun _ x => w x) = F.seqs.total fun _ x => w x := by
  refine total_congr fun q => ?_
  show ((F.seqs.map Seq.recovered).find? q).map w = _
  rw [find?_map, Option.map_map]
  exact congrArg (Option.map · _) (funext hw)

theorem recovered_steps (hF : Reachable F) : (s.recoveredFrom F).stats.decodeSteps = F.stats.decodeSteps := by
  rw [(reachable_conserved hF).steps]
  exact recovered_total s (fun x => x.generation - 1) (fun _ => rfl)

theorem recovered_tokens (hF : Reachable F) :
    (s.recoveredFrom F).stats.generatedTokens % 2 ^ 64 = (F.pregenerated + F.stats.generatedTokens) % 2 ^ 64 := by
  rw [(reachable_conserved hF).tokens]
  calc (s.recoveredFrom F).stats.generatedTokens % 2 ^ 64
      = (F.seqs.total fun _ x => x.generated.toNat) % 2 ^ 64 :=
        congrArg (· % 2 ^ 64) (recovered_total s (fun x => x.generated.toNat) (fun _ => rfl))
    _ = (F.seqs.total fun _ x => x.req.pregenerated.toNat + (x.generation - 1)) % 2 ^ 64 :=
        total_mod fun e he => (reachable_metered hF e.1 e.2 (find?_eq_some_iff.mpr he)).tokens
    _ = (F.pregenerated + F.served fun _ => true) % 2 ^ 64 := by
        rw [total_add]
        rfl

theorem recovered_started : (s.recoveredFrom F).stats.sequencesStarted = F.seqs.entries.length :=
  List.length_map _

theorem recovered_requests : (s.recoveredFrom F).stats.requestsAdmitted = F.requestIds.dedup.length :=
  length_foldl_insert (fun e : SequenceId × Seq => e.2.req.id) (fun _ e => e.1) F.seqs.entries

/-- Counting slots in a loop. -/
theorem getD_foldl_count (u : TenantId) : ∀ (l : List (SequenceId × Seq)) (t : Table TenantId UInt32),
    (l.foldl (fun t e => t.insert e.2.req.tenant (t.getD e.2.req.tenant 0 + 1)) t).getD u 0 =
      t.getD u 0 + .ofNat (l.map fun e => if e.2.req.tenant = u then 1 else 0).sum
  | [], t => (UInt32.add_zero _).symm
  | e :: l, t => by
    rw [List.foldl_cons, getD_foldl_count u l, getD_insert, List.map_cons, List.sum_cons, UInt32.ofNat_add,
      ← UInt32.add_assoc]
    by_cases hu : e.2.req.tenant = u
    · rw [if_pos hu.symm, if_pos hu, hu]
      rfl
    · rw [if_neg (Ne.symm hu), if_neg hu]
      exact congrArg (· + _) (UInt32.add_zero _).symm

/-- Recovery gives a slot to the ended sequences as well. -/
theorem recovered_slots (u : TenantId) :
    (s.recoveredFrom F).tenantActive.getD u 0 = .ofNat ((s.recoveredFrom F).activeOf u + F.endedOf u) := by
  have hactive : (s.recoveredFrom F).activeOf u = F.activeOf u := by
    refine recovered_total s (fun x => if x.req.tenant = u ∧ x.machine.isTerminal = false then 1 else 0) fun x => ?_
    have hend : x.recovered.machine.isTerminal = x.machine.isTerminal := by
      show x.machine.reconciled.isTerminal = x.machine.isTerminal
      cases hx : x.machine.isTerminal with
      | true => rw [SequenceState.reconciled_terminal hx, hx]
      | false => exact SequenceState.reconciled_active hx
    rw [hend]
    rfl
  have hsplit : F.activeOf u + F.endedOf u = F.seqs.total fun _ x => if x.req.tenant = u then 1 else 0 := by
    unfold activeOf endedOf
    rw [← total_add]
    refine total_congr fun q => congrArg (Option.map · _) (funext fun x => ?_)
    by_cases hu : x.req.tenant = u <;> cases x.machine.isTerminal <;> simp [hu]
  rw [hactive, hsplit]
  exact (getD_foldl_count u F.seqs.entries .empty).trans (UInt32.zero_add _)

end Recovered
end Fabric

/-- The recovered counters agree if and only if no token was there before the first step, no request has two sequences
    and no tenant has an ended one, all up to the width of the counters. -/
theorem recount_agrees_iff {F G : Fabric} (hF : Reachable F) (hfit : F.Representable) {cfg : Config} {clock : TimePoint}
    (hG : (init cfg clock).recoverState F.serializeState = (G, .ok ())) :
    F.SameCounters G ↔ 2 ^ 64 ∣ F.pregenerated ∧ F.requestIds.Nodup ∧ ∀ u, 2 ^ 32 ∣ F.endedOf u := by
  obtain rfl := recovered_eq hF hfit hG
  have hadmitted := reachable_admitted hF
  have hstarted : F.stats.sequencesStarted = F.seqs.entries.length := congrArg Prod.snd hadmitted
  have hrequests : F.stats.requestsAdmitted = F.seqs.entries.length := congrArg Prod.fst hadmitted
  have hsize : F.seqs.entries.length < 2 ^ 64 := hfit.sizes _ (by simp)
  have htokens := recovered_tokens (init cfg clock) hF
  have hle : F.requestIds.dedup.length ≤ F.seqs.entries.length := by
    simpa [requestIds] using (List.dedup_sublist F.requestIds).length_le
  constructor
  · intro h
    refine ⟨?_, ?_, fun u => ?_⟩
    · have hwords := congrArg toNat h.tokens
      rw [toNat_ofNat', toNat_ofNat', htokens] at hwords
      omega
    · have hwords := congrArg toNat h.requests
      rw [toNat_ofNat', toNat_ofNat', recovered_requests, hrequests,
        Nat.mod_eq_of_lt (Nat.lt_of_le_of_lt hle hsize), Nat.mod_eq_of_lt hsize] at hwords
      have hall : F.requestIds.dedup = F.requestIds :=
        (List.dedup_sublist F.requestIds).eq_of_length (hwords.trans (List.length_map _).symm)
      exact List.dedup_eq_self.mp hall
    · have hwords := congrArg UInt32.toNat ((recovered_slots _ u).symm.trans (h.slots u))
      rw [UInt32.toNat_ofNat', UInt32.toNat_ofNat'] at hwords
      omega
  · rintro ⟨hpre, hids, hended⟩
    refine ⟨?_, ?_, ?_, ?_, fun u => ?_⟩
    · apply UInt64.toNat_inj.mp
      rw [UInt64.toNat_ofNat', UInt64.toNat_ofNat', htokens]
      omega
    · rw [recovered_steps _ hF]
    · rw [recovered_started, hstarted]
    · rw [recovered_requests, hrequests, List.dedup_eq_self.mpr hids]
      exact congrArg ofNat (List.length_map _)
    · rw [recovered_slots]
      apply UInt32.toNat_inj.mp
      rw [UInt32.toNat_ofNat', UInt32.toNat_ofNat']
      have hu := hended u
      omega

namespace Sample

/-- Two requests under one id, each with two tokens generated before; the second is cancelled. -/
def resumed : List Op :=
  [.registerWorker (worker 1 1), .submit { request with pregenerated := 2 },
    .submit { request with sequence := 2, pregenerated := 2 }, .cancel 2]

def afterCancel : Fabric := start.execAll resumed

theorem afterCancel_reachable : Reachable afterCancel := ⟨_, runsTo resumed⟩

theorem afterCancel_representable : afterCancel.Representable where
  counters := by decide
  sizes := by decide
  seqs := by decide
  terminals := by decide
  grants := by decide

end Sample

theorem recount_agrees_afterToken :
    ∃ G, (init {} 0).recoverState afterToken.serializeState = (G, .ok ()) ∧
      afterToken.SameCounters G := by
  have hG := reachable_recoverState afterToken_reachable afterToken_representable (by decide)
    (init {} 0)
  refine ⟨_, hG, (recount_agrees_iff afterToken_reachable afterToken_representable hG).mpr
    ⟨by decide, by decide, fun u => ?_⟩⟩
  have hlive : afterToken.endedOf u = 0 :=
    if_neg (by rintro ⟨-, hend⟩; cases hend)
  rw [hlive]
  exact Nat.dvd_zero _

/-- Recovered, the fabric counts four tokens where none was generated, one request where two were admitted, and two
    slots where one sequence is live. -/
theorem recount_counts_others : ∃ G, Reachable afterCancel ∧ afterCancel.Representable ∧
      (init {} 0).recoverState afterCancel.serializeState = (G, .ok ()) ∧
      (G.stats.generatedTokens, afterCancel.stats.generatedTokens) = (4, 0) ∧
      (G.stats.requestsAdmitted, afterCancel.stats.requestsAdmitted) = (1, 2) ∧
      G.tenantActive.getD 1 0 = 2 ∧ G.activeOf 1 = 1 ∧ ¬ afterCancel.SameCounters G := by
  have hG := reachable_recoverState afterCancel_reachable afterCancel_representable (by decide)
    (init {} 0)
  have htokens : ((init {} 0).recoveredFrom afterCancel).stats.generatedTokens = 4 := by decide
  refine ⟨_, afterCancel_reachable, afterCancel_representable, hG, by rw [htokens]; rfl, by decide, by decide,
    by decide, fun h => ?_⟩
  have hwords := h.tokens
  rw [htokens] at hwords
  exact absurd hwords (by decide)

end DecodeFabric
