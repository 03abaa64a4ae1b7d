import DecodeFabric.Fleet
import DecodeFabric.Authority
import DecodeFabric.Binding
import DecodeFabric.Lockstep

/- Reconstruction on another worker.

   A process that has never seen a sequence starts it from `initial_state` of its state id and attempt and steps it
   forward to the token count it is given; the fabric then compares the digest with the one it has from the last
   receipt. This works as long as every process started the sequence under the attempt it has now. A retry mints a new
   attempt and leaves tokens and digest alone, so after it a new process rebuilds another state, and its steps are
   refused (`retried_start_differs`). The same happens if a process started the sequence before a retry and commits a
   step of it after: the digest then belongs to the old attempt.

   In runs in which no attempt is minted for a sequence that a process holds, that a request is on its way for, that
   holds a grant or has a digest, and in which sequences do not share a state, the digest of every sequence is the one
   its attempt and its tokens give, so any new process rebuilds it (`fresh_worker_rebuilds_when`). `Fabric.Anchored` is
   what the fabric keeps, `Fleet.Sound` adds the processes and what is on its way. -/
namespace DecodeFabric
open Lib Table List Fabric Sample DecodeFabric.Seq
variable {A : Act → Prop} {m : DecodeMemberSpec} {s t u : Fabric} {o : Op} {prepared : PreparedDecode}
  {pm : PreparedMember} {x : Seq} {q : SequenceId} {free : SequenceId → Prop}

/-! The fabric. -/

/-- Nothing of the sequence has been committed to. -/
def Seq.Pristine (x : Seq) : Prop := x.stateDigestEstablished = false ∧ x.hasInflightGrant = false

/-- No attempt of the sequence is left. -/
def Seq.Spent (cfg : Config) (x : Seq) : Prop := x.attemptCount ≥ cfg.retryPolicy.maxAttempts

namespace Fabric

def PristineAt (s : Fabric) (q : SequenceId) : Prop := ∃ x, s.seqs.find? q = some x ∧ x.Pristine

def SpentAt (s : Fabric) (q : SequenceId) : Prop := ∃ x, s.seqs.find? q = some x ∧ x.Spent s.cfg

/-- A prepared member reports the step of its sequence under the attempt it names. -/
def Charts (N : Numerics) (s : Fabric) (pm : PreparedMember) : Prop :=
  pm.dispatch ≠ 0 ∧ pm.outcome.succeeded = true ∧
    ∃ x, s.seqs.find? pm.sequence = some x ∧ pm.OnPath N x.state pm.attempt

/-- The member names the state and the attempt its sequence has. -/
def UpToDate (s : Fabric) (m : DecodeMemberSpec) : Prop :=
  ∃ x, s.seqs.find? m.sequence = some x ∧ m.state = x.state ∧ m.attempt = x.currentAttempt

/-- The digest of every sequence is the one its attempt and its tokens give, and the grant it holds leads to the next
    one. -/
structure Anchored (N : Numerics) (s : Fabric) : Prop where
  counted : s.AllSeqs Seq.Counted
  distinct : s.DistinctStates
  digest : s.AllSeqs fun x => x.stateDigestEstablished = true →
    x.committedStateDigest = pathDigest N x.state x.currentAttempt x.generated
  held : s.AllSeqs fun x => x.hasInflightGrant = true → x.inFlightGrant < s.nextGrant ∧
    ∃ rec, s.grantLedger.find? x.inFlightGrant = some rec ∧
      rec.grant.postStateDigest = pathDigest N x.state x.currentAttempt (x.generated + 1)

/-- Every sequence of `s` is in `t`, with its state, and with its attempt unless it is `free`. -/
def Steers (free : SequenceId → Prop) (s t : Fabric) : Prop :=
  ∀ q x, s.seqs.find? q = some x →
    ∃ y, t.seqs.find? q = some y ∧ y.state = x.state ∧ (y.currentAttempt = x.currentAttempt ∨ free q)

theorem Steers.refl (free : SequenceId → Prop) (s : Fabric) : s.Steers free s := fun _ x hx => ⟨x, hx, rfl, .inl rfl⟩

theorem Steers.trans (h₁ : s.Steers free t) (h₂ : t.Steers free u) : s.Steers free u := by
  intro q x hx
  obtain ⟨y, hy, hstate, hattempt⟩ := h₁ q x hx
  obtain ⟨z, hz, hstate', hattempt'⟩ := h₂ q y hy
  refine ⟨z, hz, hstate'.trans hstate, ?_⟩
  rcases hattempt with hattempt | hfree
  · exact hattempt'.imp_left fun heq => heq.trans hattempt
  · exact .inr hfree

theorem Steers.charts {N : Numerics} (h : s.Steers free t) (hpm : s.Charts N pm) : t.Charts N pm := by
  obtain ⟨hd, hok, x, hx, hpath⟩ := hpm
  obtain ⟨y, hy, hstate, -⟩ := h _ x hx
  exact ⟨hd, hok, y, hy, hstate ▸ hpath⟩

theorem Steers.upToDate (h : s.Steers free t) (hm : s.UpToDate m) (hfree : ¬ free m.sequence) : t.UpToDate m := by
  obtain ⟨x, hx, hstate, hattempt⟩ := hm
  obtain ⟨y, hy, hstate', hattempt'⟩ := h _ x hx
  exact ⟨y, hy, hstate.trans hstate'.symm, hattempt.trans (hattempt'.resolve_right hfree).symm⟩

end Fabric

/-! Micro steps. -/

/-- The act keeps the fabric anchored: a grant goes to what is on its path, a new sequence has its own state, and a
    new attempt is minted for a sequence that is pristine and `free`. -/
def Act.Apt (N : Numerics) (free : SequenceId → Prop) (s : Fabric) : Act → Prop
  | .issue _ pm => s.Charts N pm
  | .enrol _ req => ∀ q x, s.seqs.find? q = some x → x.state.id ≠ req.state.id
  | .seq q (.beginAttempt _ _) => s.PristineAt q ∧ free q
  | .seq q (.resolve _ _ _ mo) => mo.kind = .retryableFailure → s.SpentAt q ∨ (s.PristineAt q ∧ free q)
  | _ => True

/-- After the last attempt a failure mints no attempt. -/
theorem Seq.resolve_spent {cfg : Config} (h : x.Spent cfg) (a : AttemptId) (now : TimePoint)
    (mo : MemberOutcome) : (x.resolve cfg a now mo).currentAttempt = x.currentAttempt ∧
      (x.resolve cfg a now mo).attemptCount = x.attemptCount := by
  rcases resolve_counted cfg a now mo x with ⟨hattempt, hcount, -⟩ | ⟨hleft, -⟩
  · exact ⟨hattempt, hcount⟩
  · exact absurd h hleft

section Micro
variable {N : Numerics} {free : SequenceId → Prop} {s t : Fabric} {a : Act}

/-- What an apt act makes of the attempt of a sequence. -/
theorem Act.Apt.attempt (ha : a.Apt N free s) {q : SequenceId} {x y : Seq} (hx : s.seqs.find? q = some x)
    (hc : a.Changes s q x y) : y.currentAttempt = x.currentAttempt ∨ (x.Pristine ∧ free q) := by
  have pristine : s.PristineAt q → x.Pristine := by
    rintro ⟨x', hx', hp⟩
    cases hx.symm.trans hx'
    exact hp
  cases hc with
  | seq o hg =>
    cases o with
    | beginAttempt attempt now => exact .inr ⟨pristine ha.1, ha.2⟩
    | resolve cfg attempt now mo =>
      rcases SeqOp.attempt q (.resolve cfg attempt now mo) x with ⟨-, hk⟩ | hsame
      · rcases ha hk with ⟨x', hx', hspent⟩ | ⟨hp, hfree⟩
        · cases hx.symm.trans hx'
          obtain rfl : cfg = s.cfg := hg.1
          exact .inl (resolve_spent hspent attempt now mo).1
        · exact .inr ⟨pristine hp, hfree⟩
      · exact .inl hsame
    | _ => exact .inl rfl
  | issue prepared pm _ _ | abort _ => exact .inl rfl
  | finalize r _ _ => exact .inl (finish_same currentAttempt (fun _ _ _ => rfl) ..)

theorem micro_steers (hm : Micro s a t) (ha : a.Apt N free s) : s.Steers free t := by
  intro q x hx
  obtain ⟨y, hy, rfl | hc⟩ := hm.seq_after hx
  · exact ⟨y, hy, rfl, .inl rfl⟩
  · exact ⟨y, hy, hc.state, (ha.attempt hx hc).imp_right And.right⟩

/-- A change that neither finalizes nor issues keeps what the digest and the held grant speak of, unless the sequence
    is pristine. -/
theorem Act.Apt.standing (ha : a.Apt N free s) {o : SeqOp} (hx : s.seqs.find? q = some x)
    (hcounted : x.Counted) (hg : o.Guard s x) (heq : a = .seq q o) :
    x.Pristine ∨ ((o.apply x).state = x.state ∧ (o.apply x).currentAttempt = x.currentAttempt ∧
      (o.apply x).generated = x.generated) := by
  have hc : a.Changes s q x (o.apply x) := heq ▸ .seq o hg
  rcases ha.attempt hx hc with hattempt | ⟨hp, -⟩
  · exact .inr ⟨hc.state, hattempt, ((SeqOp.touched hg).sameCount hcounted.committed hcounted.rebuildBudget).1⟩
  · exact .inl hp

theorem Fabric.Anchored.micro_distinct (h : s.Anchored N) (hm : Micro s a t) (ha : a.Apt N free s) :
    t.DistinctStates := by
  -- a sequence of `t` was there with its state, or has just been admitted
  have before : ∀ {q y}, t.seqs.find? q = some y → (∃ x, s.seqs.find? q = some x ∧ y.state = x.state) ∨
      ∃ req, a = .enrol q req ∧ y.state = req.state := by
    intro q y hy
    rcases hm.seq_before hy with hsame | ⟨x, hx, hc⟩ | ⟨req, heq, -, rfl⟩
    · exact .inl ⟨y, hsame, rfl⟩
    · exact .inl ⟨x, hx, hc.state⟩
    · exact .inr ⟨req, heq, rfl⟩
  intro q q' y y' hy hy' heq
  rcases before hy with ⟨x, hx, hstate⟩ | ⟨req, hreq, hstate⟩ <;>
    rcases before hy' with ⟨x', hx', hstate'⟩ | ⟨req', hreq', hstate'⟩ <;> rw [hstate, hstate'] at heq
  · exact h.distinct q q' x x' hx hx' heq
  · rw [hreq'] at ha
    exact absurd heq (ha q x hx)
  · rw [hreq] at ha
    exact absurd heq.symm (ha q' x' hx')
  · rw [hreq] at hreq'
    cases hreq'
    rfl

theorem Fabric.Anchored.micro_digest (h : s.Anchored N) (hm : Micro s a t) (ha : a.Apt N free s) :
    t.AllSeqs fun x => x.stateDigestEstablished = true →
      x.committedStateDigest = pathDigest N x.state x.currentAttempt x.generated := by
  intro q y hy hest
  rcases hm.seq_before hy with hsame | ⟨x, hx, hc⟩ | ⟨req, -, -, rfl⟩
  · exact h.digest q y hsame hest
  · have hdigest := h.digest q x hx
    cases hc with
    | seq o hg =>
      have htouched := SeqOp.touched hg
      rw [htouched.established] at hest
      rcases ha.standing hx (h.counted q x hx) hg rfl with ⟨hp, -⟩ | ⟨hstate, hattempt, hgen⟩
      · rw [hp] at hest
        cases hest
      · rw [htouched.digest, hstate, hattempt, hgen]
        exact hdigest hest
    | issue prepared pm _ _ | abort _ => exact hdigest hest
    | finalize r _ hv =>
      -- the receipt fits the grant that was held
      have hfin := receiptVerdict_finalize hv
      obtain ⟨rec, hrec, -, hfit⟩ := hfin.grant
      obtain ⟨-, rec', hrec', hpost⟩ := h.held q x hx hfin.holds
      rw [hfin.held, hrec] at hrec'
      cases hrec'
      obtain ⟨-, -, -, -, -, -, -, -, hr⟩ := receiptFitsGrant_spec hfit
      obtain ⟨st, ready, hshape⟩ := finish_shape (s.finishTime r) r x
      rw [hshape]
      exact hr.trans hpost
  · cases hest

/-- A sequence that is granted a step has a next token count. -/
theorem Fabric.Anchored.granted_succ (h : s.Anchored N)
    (hx : s.seqs.find? pm.sequence = some x) (hv : s.prepareVerdict x pm = .grant) (hd : pm.dispatch ≠ 0) :
    (x.generated + 1).toNat = x.generated.toNat + 1 := by
  have hnamed : x.inFlightDispatch ≠ 0 := (prepareVerdict_grant hv).dispatch ▸ hd
  exact ((h.counted _ x hx).holdGrant hnamed s.nextGrant pm).generated_succ rfl

theorem Fabric.Anchored.micro_held (h : s.Anchored N) (hm : Micro s a t) (ha : a.Apt N free s) :
    t.AllSeqs fun x => x.hasInflightGrant = true → x.inFlightGrant < t.nextGrant ∧
      ∃ rec, t.grantLedger.find? x.inFlightGrant = some rec ∧
        rec.grant.postStateDigest = pathDigest N x.state x.currentAttempt (x.generated + 1) := by
  have kept : ∀ {i : GrantId} {d : UInt64}, (i < s.nextGrant ∧ ∃ rec, s.grantLedger.find? i = some rec ∧
      rec.grant.postStateDigest = d) → i < t.nextGrant ∧ ∃ rec, t.grantLedger.find? i = some rec ∧
      rec.grant.postStateDigest = d := by
    rintro i d ⟨hlt, rec, hrec, hd⟩
    obtain ⟨rec', hrec', hup⟩ := hm.entry_after hrec (Nat.ne_of_lt hlt)
    exact ⟨Nat.lt_of_lt_of_le hlt hm.nextGrant_le, rec', hrec', by rw [hup.grant, hd]⟩
  intro q y hy hheld
  rcases hm.seq_before hy with hsame | ⟨x, hx, hc⟩ | ⟨req, -, -, rfl⟩
  · exact kept (h.held q y hsame hheld)
  · cases hc with
    | seq o hg =>
      rcases (SeqOp.touched hg).grant with ⟨hflag, hgrant⟩ | hnone
      · rw [hflag] at hheld
        rcases ha.standing hx (h.counted q x hx) hg rfl with ⟨-, hp⟩ | ⟨hstate, hattempt, hgen⟩
        · rw [hp] at hheld
          cases hheld
        · rw [hgrant, hstate, hattempt, hgen]
          exact kept (h.held q x hx hheld)
      · rw [hnone] at hheld
        cases hheld
    | issue prepared pm hpm hv =>
      subst hpm
      obtain ⟨hd, -, x', hx', hpath⟩ := ha
      rw [hx] at hx'
      cases hx'
      have hgranted := prepareVerdict_grant hv
      have hpost := hpath.post
      rw [hgranted.position, hgranted.attempt, ← h.granted_succ hx hv hd] at hpost
      cases hm with
      | issue _ _ _ _ _ hb =>
        have hled : t.grantLedger = _ := congrArg Books.grantLedger hb
        have hnext : t.nextGrant = s.nextGrant + 1 := congrArg Books.nextGrant hb
        refine ⟨hnext ▸ Nat.lt_succ_self _, { grant := makeGrant s.nextGrant prepared pm }, ?_, hpost⟩
        rw [hled]
        exact find?_insert_self _ _ _
    | finalize r _ _ | abort _ => cases hheld
  · cases hheld

theorem micro_anchored (hm : Micro s a t) (ha : a.Apt N free s) (h : s.Anchored N) : t.Anchored N := by
  have hnames : a.NamesDispatch := by
    cases a with
    | issue prepared pm => exact ha.1
    | _ => trivial
  exact ⟨micro_allSeqs counted_kept hm (.inr hnames) h.counted, h.micro_distinct hm ha, h.micro_digest hm ha,
    h.micro_held hm ha⟩

end Micro

/-! Calls. -/

/-- The act is apt in every state. -/
def Act.isPlain : Act → Prop
  | .issue _ _ | .enrol _ _ => False
  | .seq _ (.beginAttempt _ _) => False
  | .seq _ (.resolve _ _ _ mo) => mo.kind ≠ .retryableFailure
  | _ => True

/-- From an anchored fabric `s` the fabric `t` is anchored, and every sequence still there. -/
def Fabric.Stays (N : Numerics) (free : SequenceId → Prop) (s t : Fabric) : Prop :=
  s.Anchored N → t.Anchored N ∧ s.Steers free t

section Calls
variable {N : Numerics} {free : SequenceId → Prop} {s t : Fabric}

theorem Act.isPlain.apt {a : Act} (ha : a.isPlain) (N : Numerics) (free : SequenceId → Prop) (s : Fabric) :
    a.Apt N free s := by
  cases a with
  | issue _ _ | enrol _ _ => exact ha.elim
  | seq q o =>
    cases o with
    | beginAttempt _ _ => exact False.elim ha
    | resolve _ _ _ mo => exact fun hk => absurd hk ha
    | _ => trivial
  | _ => trivial

/-- Acts that are apt where they are performed. `J` is what they keep that makes them so. -/
theorem steps_stays {J : Fabric → Prop} (hst : Steps A s t)
    (hJ : ∀ {u v : Fabric} {a : Act}, Micro u a v → a = .note ∨ A a → J u → a.Apt N free u ∧ J v) (h0 : J s) :
    s.Stays N free t := by
  intro h
  have hkeep := hst.invariant (I := fun u => J u ∧ u.Anchored N ∧ s.Steers free u) ?_ ⟨h0, h, .refl free s⟩
  · exact hkeep.2
  · rintro u v a hm ha ⟨hu, hanch, hsteer⟩
    obtain ⟨hapt, hv⟩ := hJ hm ha hu
    exact ⟨hv, micro_anchored hm hapt hanch, hsteer.trans (micro_steers hm hapt)⟩

theorem plain_stays (hst : Steps A s t) (hA : ∀ a, A a → a.isPlain) : s.Stays N free t := by
  refine steps_stays (J := fun _ => True) hst ?_ trivial
  rintro u v a - (rfl | ha) -
  · exact ⟨trivial, trivial⟩
  · exact ⟨(hA a ha).apt N free u, trivial⟩

/-- Admitting a request whose state no other sequence has. -/
theorem submit_stays (req : DecodeRequest)
    (hnew : ∀ q x, s.seqs.find? q = some x → q ≠ req.sequence → x.state.id ≠ req.state.id) :
    s.Stays N free (s.submit req).1 := by
  refine steps_stays (s.submit_steps (A := fun a => a = .enrol req.sequence (s.buildKey req)) req rfl)
    (J := fun u => ∀ q x, u.seqs.find? q = some x → q ≠ req.sequence → x.state.id ≠ req.state.id) ?_ hnew
  rintro u v a hm (rfl | rfl) hu
  · cases hm with
    | note hs _ => exact ⟨trivial, hs ▸ hu⟩
  · cases hm with
    | enrol hnone _ hs _ =>
      refine ⟨fun q x hx => ?_, fun q x hx hne => ?_⟩
      · rw [buildKey_state]
        refine hu q x hx fun heq => ?_
        rw [heq, hnone] at hx
        cases hx
      · rw [hs, find?_insert_ne hne] at hx
        exact hu q x hx hne

/-- A pristine sequence stays so under changes of its own. -/
theorem micro_pristine {v : Fabric} {o : SeqOp} (hm : Micro u (.seq q o) v) (h : u.PristineAt q) : v.PristineAt q := by
  obtain ⟨x, hx, hest, hfree⟩ := h
  obtain ⟨y, hy, rfl | hc⟩ := hm.seq_after hx
  · exact ⟨y, hy, hest, hfree⟩
  · cases hc with
    | seq _ hg =>
      have htouched := SeqOp.touched hg
      refine ⟨_, hy, htouched.established.trans hest, ?_⟩
      rcases htouched.grant with ⟨hsame, -⟩ | hnone
      · exact hsame.trans hfree
      · exact hnone

/-- What happens to one sequence that is pristine and `free`. -/
theorem pristine_stays (hst : Steps A s t) (hA : ∀ a, A a → ∃ o, a = .seq q o)
    (hp : s.PristineAt q) (hfree : free q) : s.Stays N free t := by
  refine steps_stays hst (J := fun u => u.PristineAt q) ?_ hp
  rintro u v a hm ha hu
  rcases ha with rfl | ha
  · cases hm with
    | note hs _ =>
      obtain ⟨x, hx, hx'⟩ := hu
      exact ⟨trivial, x, hs ▸ hx, hx'⟩
  · obtain ⟨o, rfl⟩ := hA a ha
    refine ⟨?_, micro_pristine hm hu⟩
    cases o with
    | beginAttempt _ _ => exact ⟨hu, hfree⟩
    | resolve _ _ _ _ => exact fun _ => .inr ⟨hu, hfree⟩
    | _ => trivial

/-- A retry goes through for the sequence. -/
structure Seq.Retries (cfg : Config) (x : Seq) : Prop where
  machine : x.machine = .retryableFailure ∨ x.machine = .running ∨ x.machine = .dispatched
  unspent : ¬ x.Spent cfg

theorem Fabric.retry_retried (h : (s.retry q).2.retried = true) : ∃ x, s.seqs.find? q = some x ∧ x.Retries s.cfg := by
  unfold retry at h
  split at h
  · cases h
  · next x hx =>
    split at h
    · next hst =>
      -- the roll back, done or not, leaves the configuration alone
      simp only [cfg_of_books (s.preserveTokens_books q)] at h
      split at h
      · cases h
      · next hmax => exact ⟨x, hx, hst, hmax⟩
    · cases h

theorem retry_stays (q : SequenceId)
    (hk : ∀ x, s.seqs.find? q = some x → x.Retries s.cfg → x.Pristine ∧ free q) : s.Stays N free (s.retry q).1 := by
  by_cases hre : (s.retry q).2.retried = true
  · obtain ⟨x, hx, hretries⟩ := retry_retried hre
    obtain ⟨hp, hfree⟩ := hk x hx hretries
    exact pristine_stays (s.retry_steps (A := fun a => ∃ o, a = .seq q o) q ⟨_, rfl⟩ ⟨_, rfl⟩ fun _ => ⟨_, rfl⟩)
      (fun _ ha => ha) ⟨x, hx, hp⟩ hfree
  · exact plain_stays (s.retry_steps (A := Act.isPlain) q trivial trivial fun h => absurd h hre) fun _ ha => ha

/-- The last attempt of a sequence fails. -/
theorem spent_stays {a : AttemptId} {now : TimePoint} {mo : MemberOutcome}
    (hst : Steps (fun act => act = .seq q .release ∨ act = .seq q (.resolve s.cfg a now mo)) s t) (hs : s.SpentAt q) :
    s.Stays N free t := by
  refine steps_stays hst (J := fun u => u.SpentAt q) ?_ hs
  rintro u v act hm hact ⟨x, hx, hspent⟩
  have hcfg := hm.cfg
  obtain ⟨y, hy, hafter⟩ := hm.seq_after hx
  have hspentAt : x.attemptCount = y.attemptCount → v.SpentAt q := by
    intro heq
    refine ⟨y, hy, ?_⟩
    unfold Seq.Spent
    rw [hcfg, ← heq]
    exact hspent
  rcases hact with rfl | rfl | rfl
  · refine ⟨trivial, hspentAt ?_⟩
    rcases hafter with rfl | hc
    · rfl
    · cases hc
  · refine ⟨trivial, hspentAt ?_⟩
    rcases hafter with rfl | hc
    · rfl
    · cases hc with
      | seq _ _ => rfl
  · refine ⟨fun _ => .inl ⟨x, hx, hspent⟩, hspentAt ?_⟩
    rcases hafter with rfl | hc
    · rfl
    · cases hc with
      | seq _ hg =>
        obtain ⟨hcfg', -⟩ := hg
        rw [hcfg']
        exact (resolve_spent hspent a now mo).2.symm

/-- One turn of `apply_completion`. -/
theorem applyOutcome_stays (result : DecodeExecutionResult) (mo : MemberOutcome)
    (hk : ∀ x, s.seqs.find? mo.sequence = some x → s.completionVerdict result x mo = .apply →
      mo.kind = .retryableFailure → ¬ x.Spent s.cfg → x.Pristine ∧ free mo.sequence) :
    s.Stays N free (applyOutcome result s mo) := by
  by_cases hre : mo.kind = .retryableFailure ∧
      ∃ x, s.seqs.find? mo.sequence = some x ∧ s.completionVerdict result x mo = .apply
  · obtain ⟨hkind, x, hx, hv⟩ := hre
    have hown : ∀ y why, s.seqs.find? mo.sequence = some y → s.completionVerdict result y mo ≠ .disown why := by
      intro y why hy
      cases hx.symm.trans hy
      rw [hv]
      exact fun h => by cases h
    by_cases hspent : x.Spent s.cfg
    · exact spent_stays (s.applyOutcome_steps result mo (fun y why hy h => absurd h (hown y why hy))
        fun _ _ _ => ⟨.inl rfl, .inr rfl⟩) ⟨x, hx, hspent⟩
    · obtain ⟨hp, hfree⟩ := hk x hx hv hkind hspent
      exact pristine_stays (s.applyOutcome_steps (A := fun a => ∃ o, a = .seq mo.sequence o) result mo
        (fun _ _ _ _ => ⟨_, rfl⟩) fun _ _ _ => ⟨⟨_, rfl⟩, _, rfl⟩) (fun _ ha => ha) ⟨x, hx, hp⟩ hfree
  · refine plain_stays (s.applyOutcome_steps (A := Act.isPlain) result mo (fun _ _ _ _ => trivial) ?_) fun _ ha => ha
    exact fun x hx hv => ⟨trivial, fun hkind => hre ⟨hkind, x, hx, hv⟩⟩

/-- One turn of `authorize_prepared`. -/
theorem authorizeMember_stays (prepared : PreparedDecode) (hpm : s.Charts N pm) :
    s.Stays N free (authorizeMember prepared s pm).1 := by
  refine steps_stays (J := fun u => u.Charts N pm)
    (s.authorizeMember_steps (A := fun a => a = .issue prepared pm ∨ a = .seq pm.sequence (.reconcile s.clock))
      prepared pm (fun _ _ _ _ => .inr rfl) ?_ fun _ _ _ => .inl rfl) ?_ hpm
  · intro x hx hv
    exact absurd hpm.2.1 (Bool.eq_false_iff.mp (prepareVerdict_noncommit hv).2)
  · intro u v a hm ha hu
    have hapt : a.Apt N free u := by
      rcases ha with rfl | rfl | rfl
      · trivial
      · exact hu
      · trivial
    exact ⟨hapt, (micro_steers hm hapt).charts hu⟩

theorem authorizePrepared_turn (hp : ∀ pm ∈ prepared.members, s.Charts N pm) :
    ∀ p ∈ turns (fun t pm => (authorizeMember prepared t pm).1) s prepared.members,
      p.1.Anchored N ∧ s.Steers free p.1 → (authorizeMember prepared p.1 p.2).1.Anchored N ∧
        s.Steers free (authorizeMember prepared p.1 p.2).1 := by
  rintro p hturn ⟨hanch, hsteer⟩
  have hpm : p.1.Charts N p.2 := hsteer.charts (hp _ (mem_of_mem_turns hturn))
  obtain ⟨hanch', hsteer'⟩ : _ ∧ Fabric.Steers free p.1 _ := authorizeMember_stays prepared hpm hanch
  exact ⟨hanch', hsteer.trans hsteer'⟩

theorem authorizePrepared_stays (hp : ∀ pm ∈ prepared.members, s.Charts N pm) :
    s.Stays N free (s.authorizePrepared prepared).1 := by
  intro h
  rw [authorizePrepared_eq_foldl]
  exact foldl_invariant (I := fun u => u.Anchored N ∧ s.Steers free u) (authorizePrepared_turn hp) ⟨h, .refl free s⟩

/-- What is granted copies proposal and position from what was prepared, and there is a next token count. -/
theorem authorizePrepared_grants (hp : ∀ pm ∈ prepared.members, s.Charts N pm)
    (h : s.Anchored N) : ∀ g ∈ (s.authorizePrepared prepared).2.grants, ∃ pm ∈ prepared.members,
      g.proposal = pm.proposal ∧ g.committedPosition = pm.committedPositionBefore ∧
      g.committedPosition ≠ lastCount := by
  intro g hg
  simp only [Fabric.AuthorizeResult.grants, authorizePrepared, scan_snd, filterMap_map] at hg
  obtain ⟨p, hturn, hp'⟩ := mem_filterMap.mp hg
  have hmem := mem_of_mem_turns hturn
  obtain ⟨hanch, hsteer⟩ := invariant_at_turns (I := fun u => u.Anchored N ∧ s.Steers (fun _ => False) u)
    (authorizePrepared_turn hp) ⟨h, .refl _ s⟩ p hturn
  obtain ⟨hd, -, x, hx, -⟩ := hsteer.charts (hp _ hmem)
  simp only [Function.comp, Option.ite_none_right_eq_some, Option.some.injEq] at hp'
  obtain ⟨hhas, rfl⟩ := hp'
  have hv := (authorizeMember_hasGrant hx).mp hhas
  rw [authorizeMember_grant hx hv]
  refine ⟨p.2, hmem, rfl, rfl, ?_⟩
  change p.2.committedPositionBefore ≠ lastCount
  rw [(prepareVerdict_grant hv).position]
  intro hlast
  have hsucc := hanch.granted_succ hx hv hd
  rw [hlast] at hsucc
  exact absurd hsucc (by decide)

/-- The operation mints no attempt for a sequence that is committed to or not `free`, and admits no sequence with the
    state of another. -/
def Op.KeepsStart (free : SequenceId → Prop) (s : Fabric) : Op → Prop
  | .submit req => ∀ q x, s.seqs.find? q = some x → q ≠ req.sequence → x.state.id ≠ req.state.id
  | .retry q => ∀ x, s.seqs.find? q = some x → x.Retries s.cfg → x.Pristine ∧ free q
  | .applyCompletion result =>
    ∀ p ∈ turns (applyOutcome result) s result.outcomes, ∀ x, p.1.seqs.find? p.2.sequence = some x →
      p.1.completionVerdict result x p.2 = .apply → p.2.kind = .retryableFailure → ¬ x.Spent p.1.cfg →
      x.Pristine ∧ free p.2.sequence
  | _ => True

/-- Operations whose acts are all plain. -/
def Op.isRoutine : Op → Bool
  | .submit _ | .retry _ | .applyCompletion _ | .authorizePrepared _ => false
  | _ => true

theorem Op.isRoutine.plain (ho : o.isRoutine = true) {a : Act} (ha : o.MayPerform a) : a.isPlain := by
  cases a with
  | issue _ _ | enrol _ _ => cases o <;> first | exact ha | cases ho
  | seq q so =>
    cases so with
    | beginAttempt _ _ | resolve _ _ _ _ => cases o <;> simp_all [MayPerform, isRoutine]
    | _ => trivial
  | _ => trivial

theorem applyCompletion_stays {result : DecodeExecutionResult} (hk : (Op.applyCompletion result).KeepsStart free s) :
    s.Stays N free (s.applyCompletion result).1 := by
  intro h
  refine foldl_invariant (I := fun u => u.Anchored N ∧ s.Steers free u) ?_ ⟨h, .refl free s⟩
  rintro p hturn ⟨hanch, hsteer⟩
  obtain ⟨hanch', hsteer'⟩ := applyOutcome_stays result p.2 (hk p hturn) hanch
  exact ⟨hanch', hsteer.trans hsteer'⟩

theorem exec_stays (h0 : s.nextDispatch ≠ 0) (ho : (FleetCall.op o).fromWorkers = true)
    (hk : o.KeepsStart free s) : s.Stays N free (s.exec o) := by
  by_cases hroutine : o.isRoutine = true
  · exact plain_stays (exec_steps s o h0) fun _ => Op.isRoutine.plain hroutine
  · cases o with
    | submit req => exact submit_stays req hk
    | retry q => exact retry_stays q hk
    | applyCompletion result => exact applyCompletion_stays hk
    | authorizePrepared prepared => cases ho
    | _ => exact absurd rfl hroutine

end Calls

/-! The fleet. -/

section
variable {N : Numerics}
variable {S : Session N}

namespace Fleet

/-- No request for sequence `q` is on its way, and no process has its state. -/
def Unasked (F : Fleet N) (q : SequenceId) : Prop :=
  (∀ req ∈ F.requests, ∀ m ∈ req.members, m.sequence ≠ q) ∧
    ∀ x, F.fabric.seqs.find? q = some x → ∀ i S, F.workers.find? i = some S → S.executor.states.find? x.state.id = none

/-- The process knows the sequences it was asked about under their present attempts. -/
def Informed (s : Fabric) (S : Session N) : Prop := S.Sound ∧ S.Reports ∧ ∀ m ∈ S.asked, s.UpToDate m

/-- The fabric is anchored; the processes, and what is on its way, know the sequences under their present attempts. -/
structure Sound (F : Fleet N) : Prop where
  anchored : F.fabric.Anchored N
  dispatches : F.fabric.nextDispatch ≠ 0
  worker : ∀ i S, F.workers.find? i = some S → i < F.nextWorker ∧ Informed F.fabric S
  request : ∀ req ∈ F.requests, req.dispatchId ≠ 0 ∧ ∀ m ∈ req.members, F.fabric.UpToDate m
  prepared : ∀ i p, (i, p) ∈ F.prepared → i < F.nextWorker ∧
    ∀ pm ∈ p.members, F.fabric.Charts N pm ∧ ∀ S, F.workers.find? i = some S → pm ∈ S.returned
  grant : ∀ i g, (i, g) ∈ F.grants → i < F.nextWorker ∧ g.committedPosition ≠ lastCount ∧
    ∀ S, F.workers.find? i = some S →
      ∃ pm ∈ S.returned, g.proposal = pm.proposal ∧ g.committedPosition = pm.committedPositionBefore

variable {F : Fleet N}

theorem Sound.init (cfg : Config) (clock : TimePoint) : (init (N := N) cfg clock).Sound where
  anchored := by
    refine ⟨fun q x hx => ?_, fun q _ x _ hx => ?_, fun q x hx => ?_, fun q x hx => ?_⟩ <;>
      simp [Fleet.init, Fabric.init] at hx
  dispatches := Nat.one_ne_zero
  worker i S hS := by cases hS
  request req hreq := by cases hreq
  prepared i p hp := by cases hp
  grant i g hg := by cases hg

/-- A process that has been asked about a sequence has its state. -/
theorem Sound.not_unasked (h : F.Sound) {i : Nat} (hS : F.workers.find? i = some S)
    (hm : m ∈ S.asked) : ¬ F.Unasked m.sequence := by
  rintro ⟨-, hheld⟩
  obtain ⟨-, hsound, -, hcurrent⟩ := h.worker i S hS
  obtain ⟨x, hx, hstate, -⟩ := hcurrent m hm
  have hnone := hsound.absent _ (hheld x hx i S hS)
  exact find?_eq_none.mp hnone m hm (by simp [hstate])

theorem Sound.move (h : F.Sound) (hstays : F.fabric.Stays N F.Unasked t) (hd : t.nextDispatch ≠ 0) :
    ({ F with fabric := t } : Fleet N).Sound := by
  obtain ⟨hanch, hsteer⟩ := hstays h.anchored
  refine ⟨hanch, hd, ?_, ?_, ?_, h.grant⟩
  · intro i S hS
    obtain ⟨hlt, hsound, hreports, hcurrent⟩ := h.worker i S hS
    exact ⟨hlt, hsound, hreports, fun m hm => hsteer.upToDate (hcurrent m hm) (h.not_unasked hS hm)⟩
  · intro req hreq
    obtain ⟨hid, hcurrent⟩ := h.request req hreq
    exact ⟨hid, fun m hm => hsteer.upToDate (hcurrent m hm) fun hun => hun.1 req hreq m hm rfl⟩
  · intro i p hp
    obtain ⟨hlt, hmembers⟩ := h.prepared i p hp
    exact ⟨hlt, fun pm hpm => ⟨hsteer.charts (hmembers pm hpm).1, (hmembers pm hpm).2⟩⟩

theorem Sound.send (h : F.Sound) {reqs : List DecodeExecutionRequest}
    (hreqs : ∀ req ∈ reqs, req.dispatchId ≠ 0 ∧ ∀ m ∈ req.members, F.fabric.UpToDate m) :
    ({ F with requests := F.requests ++ reqs } : Fleet N).Sound :=
  { h with request := fun req hreq => (mem_append.mp hreq).elim (h.request req) (hreqs req) }

/-- The requests of a tick name the sequences as they are. -/
theorem requests_upToDate (h0 : s.nextDispatch ≠ 0) (o : Op) :
    ∀ req ∈ o.requests s, req.dispatchId ≠ 0 ∧ ∀ m ∈ req.members, (s.exec o).UpToDate m := by
  intro req hreq
  cases o with
  | schedule tn =>
    obtain ⟨d, hd, rfl⟩ := mem_map.mp hreq
    refine ⟨s.schedule_ids tn h0 d hd, fun m hm => ?_⟩
    obtain ⟨x, -, hspec, hafter⟩ := (schedule_emitted tn d hd).member m hm
    refine ⟨_, hafter, ?_, ?_⟩
    · rw [hspec]
      rfl
    · rw [hspec]
      rfl
  | _ => cases hreq

theorem Sound.op (h : F.Sound) (ho : (FleetCall.op o).fromWorkers = true)
    (hk : o.KeepsStart F.Unasked F.fabric) : (F.exec (.op o)).Sound := by
  have h0 := h.dispatches
  exact (h.move (exec_stays h0 ho hk) (steps_nextDispatch (exec_steps F.fabric o h0) h0)).send (requests_upToDate h0 o)

theorem Sound.authorize (h : F.Sound) (k : Nat) : (F.exec (.authorize k)).Sound := by
  simp only [exec]
  split
  · exact h
  · next i p hk =>
    obtain ⟨hlt, hmembers⟩ := h.prepared i p (mem_of_getElem? hk)
    have hcharts : ∀ pm ∈ p.members, F.fabric.Charts N pm := fun pm hpm => (hmembers pm hpm).1
    have hmoved := h.move (authorizePrepared_stays hcharts)
      (steps_nextDispatch (exec_steps F.fabric (.authorizePrepared p) h.dispatches) h.dispatches)
    refine { hmoved with grant := fun j g hg => ?_ }
    rcases mem_append.mp hg with hg | hg
    · exact h.grant j g hg
    · obtain ⟨g', hg', heq⟩ := mem_map.mp hg
      cases heq
      obtain ⟨pm, hpm, hprop, hpos, hlast⟩ := authorizePrepared_grants hcharts h.anchored g hg'
      exact ⟨hlt, hlast, fun S hS => ⟨pm, (hmembers pm hpm).2 S hS, hprop, hpos⟩⟩

/-- Processes come and go; one that was there before has handed back at least what it had. -/
theorem Sound.staff (h : F.Sound) {workers : Table Nat (Session N)} {n : Nat} (hn : F.nextWorker ≤ n)
    (hworker : ∀ i S, workers.find? i = some S → i < n ∧ Informed F.fabric S)
    (hbefore : ∀ {i S'}, i < F.nextWorker → workers.find? i = some S' →
      ∃ S, F.workers.find? i = some S ∧ S.returned ⊆ S'.returned) :
    ({ F with workers, nextWorker := n } : Fleet N).Sound := by
  refine { h with worker := hworker, prepared := fun i p hp => ?_, grant := fun i g hg => ?_ }
  · obtain ⟨hlt, hmembers⟩ := h.prepared i p hp
    refine ⟨Nat.lt_of_lt_of_le hlt hn, fun pm hpm => ⟨(hmembers pm hpm).1, fun S' hS' => ?_⟩⟩
    obtain ⟨S, hS, hsub⟩ := hbefore hlt hS'
    exact hsub ((hmembers pm hpm).2 S hS)
  · obtain ⟨hlt, hlast, hsource⟩ := h.grant i g hg
    refine ⟨Nat.lt_of_lt_of_le hlt hn, hlast, fun S' hS' => ?_⟩
    obtain ⟨S, hS, hsub⟩ := hbefore hlt hS'
    obtain ⟨pm, hpm, hcopy⟩ := hsource S hS
    exact ⟨pm, hsub hpm, hcopy⟩

theorem Sound.start (h : F.Sound) : (F.exec .start).Sound := by
  refine h.staff (Nat.le_succ _) (fun i S hS => ?_) fun {i S} hlt hS => ⟨S, ?_, List.Subset.refl _⟩
  · rw [find?_insert] at hS
    split at hS
    · next heq =>
      cases hS
      exact ⟨heq ▸ Nat.lt_succ_self _, Session.Sound.init, fun pm hpm => (by cases hpm), fun m hm => (by cases hm)⟩
    · exact (h.worker i S hS).imp_left Nat.lt_succ_of_lt
  · rwa [find?_insert_ne (Nat.ne_of_lt hlt)] at hS

theorem Sound.stop (h : F.Sound) (i : Nat) : (F.exec (.stop i)).Sound := by
  have hleft : ∀ {j S}, (F.workers.erase i).find? j = some S → F.workers.find? j = some S := by
    intro j S hS
    rw [find?_erase] at hS
    split at hS
    · cases hS
    · exact hS
  exact h.staff (Nat.le_refl _) (fun j S hS => h.worker j S (hleft hS)) fun _ hS => ⟨_, hleft hS, List.Subset.refl _⟩

/-- A call of a process. -/
theorem Sound.call (h : F.Sound) (i : Nat) {c : SessionCall}
    (hc : ∀ S, F.workers.find? i = some S → Informed F.fabric (S.exec c)) : (F.call i c).Sound := by
  refine h.staff (Nat.le_refl _) (fun j S' hS' => ?_) fun {j S'} _ hS' => ?_
  · rcases find?_modify_cases hS' with ⟨rfl, S, hS, rfl⟩ | ⟨-, hS⟩
    · exact ⟨(h.worker _ S hS).1, hc S hS⟩
    · exact h.worker j S' hS
  · rcases find?_modify_cases hS' with ⟨rfl, S, hS, rfl⟩ | ⟨-, hS⟩
    · exact ⟨S, hS, S.exec_returned c⟩
    · exact ⟨S', hS, List.Subset.refl _⟩

/-- What a process has handed back is on the path of the sequence it names. -/
theorem Sound.reported (h : F.Sound) {i : Nat} (hS : F.workers.find? i = some S)
    (hpm : pm ∈ S.returned) : ∃ x, F.fabric.seqs.find? pm.sequence = some x ∧ pm.OnPath N x.state pm.attempt := by
  obtain ⟨-, -, hreports, hcurrent⟩ := h.worker i S hS
  obtain ⟨m, hm, m₀, hm₀, hseq, hattempt, hpath⟩ := hreports pm hpm
  obtain ⟨x, hx, hstate, hcur⟩ := hcurrent m hm
  obtain ⟨x₀, hx₀, hstate₀, hcur₀⟩ := hcurrent m₀ (mem_of_find?_eq_some hm₀)
  -- the first member asked for the state named the same sequence
  have hid : x₀.state.id = x.state.id := by rw [← hstate₀, ← hstate, firstAsked_id hm₀]
  have hsame := h.anchored.distinct _ _ x₀ x hx₀ hx hid
  rw [hsame, hx] at hx₀
  cases hx₀
  refine ⟨x, hseq ▸ hx, ?_⟩
  rw [hattempt, hcur, ← hcur₀, ← hstate₀]
  exact hpath

theorem answer_spec {i j : Nat} {req : DecodeExecutionRequest} {took : StepTimes}
    {p : PreparedDecode} (h : (j, p) ∈ F.answer i req took) :
    j = i ∧ ∃ S, F.workers.find? i = some S ∧ (S.executor.prepare req took).2 = .ok p := by
  unfold answer at h
  split at h
  · cases h
  · next S hS =>
    split at h
    · next prepared hprep =>
      cases mem_singleton.mp h
      exact ⟨rfl, S, hS, hprep⟩
    · cases h

theorem Sound.prepare (h : F.Sound) (i k : Nat) (took : StepTimes) :
    (F.exec (.prepare i k took)).Sound := by
  simp only [exec]
  split
  · exact h
  · next req hk =>
    obtain ⟨hid, hcurrent⟩ := h.request req (mem_of_getElem? hk)
    have hcall : (F.call i (.prepare req took)).Sound := by
      refine h.call i fun S hS => ?_
      obtain ⟨-, hsound, hreports, hasked⟩ := h.worker i S hS
      refine ⟨hsound.prepare req took, hreports.prepare hsound req took, fun m hm => ?_⟩
      rcases Session.exec_asked _ hm with hm | ⟨req', took', heq, hm⟩
      · exact hasked m hm
      · cases heq
        exact hcurrent m hm
    refine { hcall with prepared := fun j p hp => ?_ }
    rcases mem_append.mp hp with hp | hp
    · exact hcall.prepared j p hp
    · obtain ⟨rfl, S, hS, hprep⟩ := answer_spec hp
      have hS' : (F.call j (.prepare req took)).workers.find? j = some (S.exec (.prepare req took)) := by
        change (F.workers.modify j _).find? j = _
        rw [find?_modify_self, hS]
        rfl
      refine ⟨(h.worker j S hS).1, fun pm hpm => ?_⟩
      have hreturned : pm ∈ (S.exec (.prepare req took)).returned := by
        refine mem_append_right _ ?_
        rw [hprep]
        exact hpm
      obtain ⟨m, -, hans⟩ := forall₂_item (Executor.prepare_answers hprep) pm hpm
      refine ⟨⟨hans.dispatch ▸ hid, hans.succeeded, hcall.reported hS' hreturned⟩, fun S'' hS'' => ?_⟩
      cases hS'.symm.trans hS''
      exact hreturned

theorem Sound.commit (h : F.Sound) (k : Nat) : (F.exec (.commit k)).Sound := by
  simp only [exec]
  split
  · exact h
  · next i g hk =>
    obtain ⟨-, hlast, hsource⟩ := h.grant i g (mem_of_getElem? hk)
    refine h.call i fun S hS => ?_
    obtain ⟨-, hsound, hreports, hasked⟩ := h.worker i S hS
    obtain ⟨pm, hpm, hprop, hpos⟩ := hsource S hS
    exact ⟨hsound.commit hpm hprop hpos hlast, hreports, hasked⟩

theorem Sound.abort (h : F.Sound) (i : Nat) (a : AbortPrepared) : (F.exec (.abort i a)).Sound := by
  refine h.call i fun S hS => ?_
  obtain ⟨-, hsound, hreports, hasked⟩ := h.worker i S hS
  exact ⟨hsound.abort a, hreports, hasked⟩

theorem Sound.lose (h : F.Sound) (k : Nat) : (F.exec (.lose k)).Sound :=
  { h with request := fun req hreq => h.request req (mem_of_mem_eraseIdx hreq) }

end Fleet

/-- No attempt is minted for a sequence that is committed to or asked about, no sequence admitted with the state of
    another, and nothing recovered. -/
def KeepsStart (e : Edge (Fleet N) FleetCall) : Prop :=
  match e.label with
  | .op o => o.KeepsStart e.pre.Unasked e.pre.fabric
  | .recover _ => False
  | _ => True

theorem fleetNext_sound {F G : Fleet N} {c : FleetCall} (hn : FleetNext F c G) (hk : KeepsStart ⟨F, c, G⟩)
    (h : F.Sound) :
    G.Sound := by
  have environment : ∀ {t : Fabric}, Micro F.fabric .environment t → ({ F with fabric := t } : Fleet N).Sound := by
    intro t hm
    exact h.move (plain_stays (.single (A := Act.isPlain) hm trivial) fun _ ha => ha)
      (micro_nextDispatch hm h.dispatches)
  cases hn with
  | call hfrom =>
    cases c with
    | op o => exact h.op hfrom hk
    | authorize k => exact h.authorize k
    | start => exact h.start
    | stop i => exact h.stop i
    | prepare i k took => exact h.prepare i k took
    | commit k => exact h.commit k
    | abort i a => exact h.abort i a
    | lose k => exact h.lose k
    | recover bytes => exact False.elim hk
    | environment => exact h
  | tick now => exact environment (.environment (Table.Reorder.refl _) rfl)
  | rehash seqs workers hs _ => exact environment (.environment hs rfl)

theorem run_fleetSound {h : FleetHistory N} {F : Fleet N} (hr : FleetRunsTo h F) (hk : ∀ e ∈ h, KeepsStart e) :
    F.Sound := by
  obtain ⟨cfg, clock, hr⟩ := hr
  exact hr.invariant (fun _ hn hkeeps hF => fleetNext_sound hn hkeeps hF) hk (Fleet.Sound.init cfg clock)

/-! A process that has never seen the sequence. -/

/-- The report is of the sequence as the fabric has it: its position, and its digest once there is one. -/
def Fabric.Rebuilt (s : Fabric) (m : DecodeMemberSpec) (pm : PreparedMember) : Prop :=
  ∃ x, s.seqs.find? m.sequence = some x ∧ pm.sequence = m.sequence ∧ pm.committedPositionBefore = x.generated ∧
    (x.stateDigestEstablished = true → pm.preStateDigest = x.committedStateDigest)

/-- The members of a dispatch belong to sequences with states of their own. -/
theorem Fabric.DistinctStates.members (h : s.DistinctStates) (tn : TimePoint) {d : Dispatch}
    (hd : d ∈ (s.schedule tn).2) : (d.members.map fun m => m.state.id).Nodup := by
  have hseqs : d.members.Pairwise fun m m' => m.sequence ≠ m'.sequence :=
    (pairwise_flatMap.mp (pairwise_map.mp (s.schedule_nodup tn))).1 d hd
  refine pairwise_map.mpr (hseqs.imp_of_mem ?_)
  intro m m' hm hm' hne hid
  obtain ⟨x, hdue, hspec, -⟩ := (schedule_emitted tn d hd).member m hm
  obtain ⟨x', hdue', hspec', -⟩ := (schedule_emitted tn d hd).member m' hm'
  rw [hspec, hspec'] at hid
  exact hne (h _ _ x x' hdue.found hdue'.found hid)

/-- What a new executor prepares, if the members have states of their own. -/
theorem Executor.fresh_prepare (req : DecodeExecutionRequest) (took : StepTimes)
    (hn : (req.members.map fun m => m.state.id).Nodup) :
    ∃ prepared, (({} : Executor N).prepare req took).2 = .ok prepared ∧
      List.Forall₂ (fun m pm => ∃ proposal,
        pm = (SeqState.ensureInitialized (N := N) m none).preparedMember proposal req m (took m))
        req.members prepared.members := by
  have hloop := @prepareMembers_clear N req took req.members {} hn nofun
  have hstaged := ((stage_batch (N := N) req took fun _ => none).run (pairwise_map.mp hn)
    Sound.init fun m _ => rfl).2
  refine ⟨_, by rw [prepare, hloop], hstaged.imp ?_⟩
  rintro m pm ⟨proposal, hpm, -⟩
  exact ⟨proposal, hpm⟩

theorem fresh_worker_rebuilds_when {h : FleetHistory N} {F : Fleet N} (hr : FleetRunsTo h F)
    (hk : ∀ e ∈ h, KeepsStart e) (tn : TimePoint) {d : Dispatch} (hd : d ∈ (F.fabric.schedule tn).2)
    {req : DecodeExecutionRequest} (hreq : req.members.Sublist d.members) (took : StepTimes) :
    ∃ prepared, (({} : Executor N).prepare req took).2 = .ok prepared ∧
      List.Forall₂ F.fabric.Rebuilt req.members prepared.members := by
  have hanch := (run_fleetSound hr hk).anchored
  obtain ⟨prepared, hok, hall⟩ := Executor.fresh_prepare (N := N) req took
    ((hanch.distinct.members tn hd).sublist (hreq.map _))
  refine ⟨prepared, hok, ?_⟩
  have hemitted := (forall₂_and_left _ _).mpr ⟨fun m hm => (schedule_emitted tn d hd).member m (hreq.subset hm), hall⟩
  refine hemitted.imp ?_
  rintro m pm ⟨⟨x, hdue, hspec, -⟩, proposal, rfl⟩
  have htokens : (SeqState.ensureInitialized (N := N) m none).tokens = x.generated := by
    rw [SeqState.first_tokens, hspec]
    rfl
  refine ⟨x, hdue.found, rfl, htokens, fun hest => ?_⟩
  calc ((SeqState.ensureInitialized (N := N) m none).preparedMember proposal req m (took m)).preStateDigest
      = pathDigest N m.state m.attempt (SeqState.ensureInitialized (N := N) m none).tokens :=
        ((SeqState.OnPath.first m).reported proposal req m (took m)).pre
    _ = pathDigest N x.state x.currentAttempt x.generated := by rw [htokens, hspec]; rfl
    _ = x.committedStateDigest := (hanch.digest _ x hdue.found hest).symm

end

namespace Sample

def fleet : Fleet numerics := Fleet.init {} 0

/-- The first step of a sequence, up to its grant. -/
def stepped : List FleetCall :=
  [.start, .op (.registerWorker (worker 1 1)), .op (.submit request), .op (.schedule 1), .prepare 0 0 took,
  .authorize 0]

/-- What the processes answer to the grants on their way. -/
def grantReceipts (F : Fleet numerics) : List MemberReceipt :=
  F.grants.filterMap fun e => (F.workers.find? e.1).bind fun S => (S.executor.commit e.2).2.toOption

/-- The first step of a sequence, committed. -/
def settled : List FleetCall :=
  stepped ++ [.commit 0, .op (.applyCommitReceipt { receipts := grantReceipts (fleet.execAll stepped) })]

/-- The second step goes out and is retried. -/
def restarted : List FleetCall := settled ++ [.op (.schedule 2), .op (.retry 1)]

theorem fleetRunsTo {cs : List FleetCall} (h : ∀ c ∈ cs, c.fromWorkers = true) :
    FleetRunsTo (fleet.trace cs) (fleet.execAll cs) := ⟨{}, 0, fleet.trace_run h⟩

theorem settled_keepsStart : ∀ e ∈ fleet.trace settled, KeepsStart e := by
  intro e he
  simp only [settled, stepped, cons_append, nil_append, Fleet.trace, mem_cons, not_mem_nil,
    or_false] at he
  rcases he with rfl | rfl | rfl | rfl | rfl | rfl | rfl | rfl
  · trivial
  · trivial
  · -- there is no sequence yet
    intro q x hx
    cases hx
  all_goals trivial

end Sample

theorem fresh_worker_rebuilds_committed :
    ∃ d ∈ ((fleet.execAll settled).fabric.schedule 2).2, d.members ≠ [] ∧ ∃ prepared,
      (({} : Executor numerics).prepare d.toRequest took).2 = .ok prepared ∧
      List.Forall₂ (fleet.execAll settled).fabric.Rebuilt d.members prepared.members := by
  refine ⟨_, mem_of_mem_head? rfl, by decide, ?_⟩
  exact fresh_worker_rebuilds_when (fleetRunsTo (by decide)) settled_keepsStart 2
    (mem_of_mem_head? rfl) (List.Sublist.refl _) took

/-- A retry between two steps: the new process starts from the state of the new attempt, and what it prepares is
    refused. -/
theorem retried_start_differs :
    FleetRunsTo (fleet.trace restarted) (fleet.execAll restarted) ∧
    ∃ d ∈ ((fleet.execAll restarted).fabric.schedule 3).2, ∃ prepared,
      (({} : Executor numerics).prepare d.toRequest took).2 = .ok prepared ∧
      (∃ pm ∈ prepared.members, ∃ x,
        (fleet.execAll restarted).fabric.seqs.find? pm.sequence = some x ∧
        pm.committedPositionBefore = x.generated ∧ x.stateDigestEstablished = true ∧
        pm.preStateDigest ≠ x.committedStateDigest) ∧
      ((((fleet.execAll restarted).fabric.schedule 3).1.authorizePrepared prepared).2.members.map
        fun ga => ga.errorCode) = [.stateDigestMismatch] := by
  refine ⟨fleetRunsTo (by decide), _, mem_of_mem_head? rfl, _, rfl,
    ⟨_, mem_of_mem_head? rfl, _, rfl, ?_, ?_, ?_⟩, ?_⟩
  · decide
  · decide
  · decide
  · decide

end DecodeFabric
