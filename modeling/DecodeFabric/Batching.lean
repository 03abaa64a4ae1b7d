import DecodeFabric.Headroom
import DecodeFabric.ReceiptChain
import DecodeFabric.Lib.Codec

/- The groups of a tick.

   Groups are found by the text of their key. The text of a declared key determines the key, so a group
   holds sequences of one key; one group is opened for a text, so there is one group for a key. The
   limits are checked as each member joins, against the members already there: `Batching` carries what
   the checks leave behind from one candidate to the next. -/
namespace DecodeFabric
open Lib Table List Fabric Sample

/-! Keys and their texts. -/

/-- Backend and dtype are declared enumerators. -/
def CompatibilityKey.Declared (k : CompatibilityKey) : Prop :=
  (∀ i, k.backend ≠ .undeclared i) ∧ ∀ i, k.dtype ≠ .undeclared i

theorem BackendKind.colon_not_mem (b : BackendKind) : ':' ∉ b.name.toList := by
  cases b with
  | cpu | cuda => decide
  | undeclared => exact (by decide : ':' ∉ "unknown_backend".toList)

theorem DType.colon_not_mem (d : DType) : ':' ∉ d.name.toList := by
  cases d with
  | undeclared => exact (by decide : ':' ∉ "unknown_dtype".toList)
  | _ => decide

theorem BackendKind.name_inj {a b : BackendKind} (ha : ∀ i, a ≠ .undeclared i) (hb : ∀ i, b ≠ .undeclared i)
    (h : a.name = b.name) : a = b := by
  cases a <;> cases b <;> first | rfl | exact absurd h (by decide) | exact absurd rfl (ha _) | exact absurd rfl (hb _)

theorem DType.name_inj {a b : DType} (ha : ∀ i, a ≠ .undeclared i) (hb : ∀ i, b ≠ .undeclared i)
    (h : a.name = b.name) : a = b := by
  cases a <;> cases b <;> first | rfl | exact absurd h (by decide) | exact absurd rfl (ha _) | exact absurd rfl (hb _)

/-- Keys with the same text have the same numbers, and the same names of backend and dtype. -/
structure CompatibilityKey.SameText (k k' : CompatibilityKey) : Prop where
  model : k.model = k'.model
  revision : k.revision = k'.revision
  adapter : k.adapter = k'.adapter
  backend : k.backend.name = k'.backend.name
  device : k.device = k'.device
  dtype : k.dtype.name = k'.dtype.name
  tensorLayout : k.tensorLayout = k'.tensorLayout
  kvRepresentation : k.kvRepresentation = k'.kvRepresentation
  sequenceRequirements : k.sequenceRequirements = k'.sequenceRequirements
  operatorPolicy : k.operatorPolicy = k'.operatorPolicy

theorem CompatibilityKey.sameText {k k' : CompatibilityKey} (h : k.toText = k'.toText) : k.SameText k' := by
  have hdigits : ∀ n : Nat, ':' ∉ (toString n).toList := not_mem_toString (by decide)
  have hlists : k.toText.toList = k'.toText.toList := congrArg String.toList h
  unfold toText at hlists
  simp only [String.toList_append, append_assoc] at hlists
  -- each field ends at the colon of the next label
  have h := append_cancel_left hlists
  obtain ⟨hmodel, h⟩ := cut_label (c := ':') (by decide) (hdigits _) (hdigits _) h
  obtain ⟨hrevision, h⟩ := cut_label (c := ':') (by decide) (hdigits _) (hdigits _) h
  obtain ⟨hadapter, h⟩ := cut_label (c := ':') (by decide) (hdigits _) (hdigits _) h
  obtain ⟨hbackend, h⟩ := cut_label (c := ':') (by decide) (BackendKind.colon_not_mem _) (BackendKind.colon_not_mem _) h
  obtain ⟨hdevice, h⟩ := cut_label (c := ':') (by decide) (hdigits _) (hdigits _) h
  obtain ⟨hdtype, h⟩ := cut_label (c := ':') (by decide) (DType.colon_not_mem _) (DType.colon_not_mem _) h
  obtain ⟨hlayout, h⟩ := cut_label (c := ':') (by decide) (hdigits _) (hdigits _) h
  obtain ⟨hkv, h⟩ := cut_label (c := ':') (by decide) (hdigits _) (hdigits _) h
  obtain ⟨hseq, hop⟩ := cut_label (c := ':') (by decide) (hdigits _) (hdigits _) h
  exact
    { model := toString_inj hmodel
      revision := toString_inj hrevision
      adapter := toString_inj hadapter
      backend := String.toList_inj.mp hbackend
      device := toString_inj hdevice
      dtype := String.toList_inj.mp hdtype
      tensorLayout := UInt32.toNat_inj.mp (toString_inj hlayout)
      kvRepresentation := UInt32.toNat_inj.mp (toString_inj hkv)
      sequenceRequirements := UInt32.toNat_inj.mp (toString_inj hseq)
      operatorPolicy := UInt32.toNat_inj.mp (toString_inj hop) }

/-- The text of a key tells declared keys apart. -/
theorem CompatibilityKey.toText_inj {k k' : CompatibilityKey} (hk : k.Declared) (hk' : k'.Declared)
    (h : k.toText = k'.toText) : k = k' := by
  have hsame := sameText h
  have hbackend := BackendKind.name_inj hk.1 hk'.1 hsame.backend
  have hdtype := DType.name_inj hk.2 hk'.2 hsame.dtype
  obtain ⟨hmodel, hrevision, hadapter, -, hdevice, -, hlayout, hkv, hseq, hop⟩ := hsame
  cases k
  cases k'
  simp only [CompatibilityKey.mk.injEq]
  exact ⟨hmodel, hrevision, hadapter, hbackend, hdevice, hdtype, hlayout, hkv, hseq, hop⟩

/-! Limits. -/

namespace Fabric
variable {s v : Fabric} {tn : TimePoint}

/-- The tenant of sequence `q`. -/
def tenantOf (s : Fabric) (q : SequenceId) : Option TenantId := (s.seqs.find? q).map fun x => x.req.tenant

/-- Groups under construction, from the fabric `v`: one for each text, within the limits on tenants and latency
    classes. -/
structure Batching (v : Fabric) (f : Forming) : Prop where
  cfg : f.fabric.cfg = v.cfg
  reqs : ∀ q, (f.fabric.seqs.find? q).map Seq.req = (v.seqs.find? q).map Seq.req
  listed : ∀ g ∈ f.formed, (f.groupIndex.find? g.key.toText).isSome
  texts : (f.formed.map fun g => g.key.toText).Nodup
  share : 0 < v.cfg.groupLimits.maxTenantShare → ∀ g ∈ f.formed, ∀ t,
    g.members.countP (fun m => decide (v.tenantOf m = some t)) ≤ v.cfg.groupLimits.maxTenantShare.toNat
  latency : v.cfg.groupLimits.maxLatencyClass ≠ .bulk → ∀ g ∈ f.formed, ∀ m ∈ g.members, ∀ x, v.seqs.find? m = some x →
    x.req.latencyClass.byte ≤ v.cfg.groupLimits.maxLatencyClass.byte

theorem Batching.new (v : Fabric) : Batching v { fabric := v } := by
  refine ⟨rfl, fun _ => rfl, ?_, nodup_nil, ?_, ?_⟩
  · exact forall_mem_nil _
  · exact fun _ => forall_mem_nil _
  · exact fun _ => forall_mem_nil _

theorem Batching.open {f : Forming} (h : Batching v f) (key : CompatibilityKey) : Batching v (f.open key).1 := by
  unfold Forming.open
  split
  · exact h
  · next hnone =>
    refine ⟨h.cfg, h.reqs, ?_, ?_, ?_, ?_⟩
    · intro g hg
      rcases mem_append.mp hg with hg | hg
      · exact find?_insert_isSome (h.listed g hg)
      · rw [mem_singleton.mp hg, find?_insert_self]
        rfl
    · -- the text is new: every group is listed under its own
      rw [map_append, map_singleton, nodup_append']
      refine ⟨h.texts, nodup_singleton _, ?_⟩
      intro text htext hnew
      obtain ⟨g, hg, rfl⟩ := mem_map.mp htext
      have hsome := h.listed g hg
      rw [mem_singleton.mp hnew, hnone] at hsome
      cases hsome
    · intro hshare g hg t
      rcases mem_append.mp hg with hg | hg
      · exact h.share hshare g hg t
      · rw [mem_singleton.mp hg]
        exact Nat.zero_le _
    · intro hclass g hg
      rcases mem_append.mp hg with hg | hg
      · exact h.latency hclass g hg
      · rw [mem_singleton.mp hg]
        exact forall_mem_nil _

/-- What the limits say of a candidate that is not refused. -/
theorem admitted_of_not_refused {members : List SequenceId} {x : Seq} (h : s.refusedByLimits members x = false) :
    (0 < s.cfg.groupLimits.maxTenantShare →
      members.countP (fun m => decide (s.tenantOf m = some x.req.tenant)) < s.cfg.groupLimits.maxTenantShare.toNat) ∧
    (s.cfg.groupLimits.maxLatencyClass ≠ .bulk →
      x.req.latencyClass.byte ≤ s.cfg.groupLimits.maxLatencyClass.byte) := by
  unfold refusedByLimits at h
  simp only [Bool.or_eq_false_iff, decide_eq_false_iff_not, not_and, Nat.not_le, Nat.not_lt, ge_iff_le, gt_iff_lt] at h
  refine ⟨fun hshare => ?_, h.2⟩
  have hcount := h.1.2 hshare
  refine Nat.lt_of_le_of_lt (Nat.le_of_eq ?_) hcount
  refine countP_congr fun m _ => ?_
  unfold tenantOf
  cases s.seqs.find? m <;> simp

theorem Batching.tenantOf {f : Forming} (h : Batching v f) (q : SequenceId) : f.fabric.tenantOf q = v.tenantOf q := by
  have hreq := congrArg (Option.map DecodeRequest.tenant) (h.reqs q)
  rw [Option.map_map, Option.map_map] at hreq
  exact hreq

/-- A candidate joins its group. -/
theorem Batching.join {f : Forming} (h : Batching v f) {i : Nat} {g : Formed} (hg : f.formed[i]? = some g)
    {q : SequenceId} {x : Seq} (hx : f.fabric.seqs.find? q = some x)
    (hjoins : f.fabric.refusedByLimits g.members x = false) : Batching v { f with
      fabric := f.fabric.modifySeq q (Seq.enterGroup tn)
      formed := f.formed.set i { g with members := g.members ++ [q] } } := by
  obtain ⟨hshare, hclass⟩ := admitted_of_not_refused hjoins
  have hreq : (v.seqs.find? q).map Seq.req = some x.req := by
    rw [← h.reqs, hx]
    rfl
  have htenant : v.tenantOf q = some x.req.tenant := by
    have := congrArg (Option.map DecodeRequest.tenant) hreq
    rw [Option.map_map] at this
    exact this
  rw [h.cfg] at hshare hclass
  refine ⟨h.cfg, ?_, ?_, ?_, ?_, ?_⟩
  · intro j
    rw [← h.reqs j, modifySeq_seqs, find?_modify]
    split
    · rw [Option.map_map]
      rfl
    · rfl
  · intro g' hg'
    rcases mem_or_eq_of_mem_set hg' with hg' | rfl
    · exact h.listed g' hg'
    · exact h.listed g (mem_of_getElem? hg)
  · -- the group keeps its key
    have hsame : (f.formed.set i { g with members := g.members ++ [q] }).map (fun g => g.key.toText) =
        f.formed.map fun g => g.key.toText := by
      refine ext_getElem? fun j => ?_
      rw [getElem?_map, getElem?_set, getElem?_map]
      split
      · next hij =>
        subst hij
        rw [if_pos (List.getElem?_eq_some_iff.mp hg).1, hg]
        rfl
      · rfl
    rw [hsame]
    exact h.texts
  · intro hlimit g' hg' t
    rcases mem_or_eq_of_mem_set hg' with hg' | rfl
    · exact h.share hlimit g' hg' t
    · have hold := h.share hlimit g (mem_of_getElem? hg) t
      rw [countP_append, countP_singleton]
      by_cases ht : x.req.tenant = t
      · have hroom := hshare hlimit
        simp only [h.tenantOf, ht] at hroom
        split <;> omega
      · rw [htenant, if_neg (by simpa using ht)]
        exact hold
  · intro hlimit g' hg' m hm y hy
    rcases mem_or_eq_of_mem_set hg' with hg' | rfl
    · exact h.latency hlimit g' hg' m hm y hy
    · rcases mem_append.mp hm with hm | hm
      · exact h.latency hlimit g (mem_of_getElem? hg) m hm y hy
      · rw [mem_singleton.mp hm] at hy
        rw [hy, Option.map_some, Option.some.injEq] at hreq
        rw [hreq]
        exact hclass hlimit

theorem Batching.formStep {f : Forming} (h : Batching v f) (c : Candidate) : Batching v (formStep tn f c) := by
  have hopen := h.open c.key
  unfold Fabric.formStep
  simp only
  split
  · next x g hx hg =>
    split
    · exact hopen
    · next hjoins => exact hopen.join hg hx (Bool.eq_false_iff.mpr hjoins)
  · exact hopen

theorem formPass_batching (v : Fabric) (tn : TimePoint) (cands : List Candidate) : Batching v (v.formPass tn cands) :=
  foldl_invariant (fun p _ hp => hp.formStep p.2) (Batching.new v)

theorem formedAt_batching (s : Fabric) (tn : TimePoint) : Batching (s.poll tn).1 (s.formedAt tn) :=
  formPass_batching _ tn _

/-! Keys of dispatches. -/

/-- A key found for a sequence that can go out is a key of some worker. -/
theorem Due.declared {q : SequenceId} {x : Seq} (h : s.Due tn q x)
    (hdecl : ∀ e ∈ s.workers.entries, ∀ k ∈ e.2.supportedModels, k.Declared) : (s.keyForModel x.req).Declared := by
  rcases keyForModel_cases (s := s) x.req with ⟨e, he⟩ | ⟨hnull, -⟩
  · exact hdecl e he.worker _ he.supported
  · have hvalid := h.served
    rw [hnull] at hvalid
    cases hvalid

/-! Members. -/

theorem Turn.limits {u : Fabric} {out : List Dispatch} {g : Formed} (ht : Turn s tn u out g) :
    (0 < s.cfg.groupLimits.maxTenantShare → ∀ t,
      g.members.countP (fun m => decide (s.tenantOf m = some t)) ≤ s.cfg.groupLimits.maxTenantShare.toNat) ∧
    (s.cfg.groupLimits.maxLatencyClass ≠ .bulk → ∀ m ∈ g.members, ∀ x, s.seqs.find? m = some x →
      x.req.latencyClass.byte ≤ s.cfg.groupLimits.maxLatencyClass.byte) := by
  have hlist := s.poll_shortlist tn
  have hb := s.formedAt_batching tn
  -- the first two passes leave the members alone
  have hsame : ∀ m ∈ g.members, (s.poll tn).1.seqs.find? m = s.seqs.find? m := by
    intro m hm
    obtain ⟨x, hdue, -, -⟩ := ht.member m hm
    obtain ⟨c, hc, rfl⟩ := hdue.collected
    obtain ⟨y, hdue, -, hfind⟩ := hlist.due c hc
    rw [hfind, hdue.found]
  have hshare := hb.share
  have hlatency := hb.latency
  rw [hlist.cfg] at hshare hlatency
  refine ⟨fun hlimit t => ?_, fun hlimit m hm x hx => ?_⟩
  · refine Nat.le_trans (Nat.le_of_eq ?_) (hshare hlimit g ht.formed t)
    refine countP_congr fun m hm => ?_
    unfold tenantOf
    rw [hsame m hm]
  · exact hlatency hlimit g ht.formed m hm x ((hsame m hm).trans hx)

end Fabric

/-! Ids along a run. -/

/-- The dispatches a call returns. -/
def dispatchedBy (e : Edge Fabric Call) : List Dispatch :=
  match e.label with
  | .op (.schedule tn) => (e.pre.schedule tn).2
  | _ => []

namespace Sample

end Sample

end DecodeFabric
