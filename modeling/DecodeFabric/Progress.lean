import DecodeFabric.Tick

/- What a tick sends.

   `Ticked` says what becomes of every sequence. This module adds what is in the dispatches (`Emitted`) and when
   there are any: with workers that turn nothing away and limits that do not bind, every candidate is
   grouped, every group finds a worker, and every candidate goes out. -/
namespace DecodeFabric
open Lib Table List Option
variable {c : Candidate} {key : CompatibilityKey} {d : Dispatch} {f : Forming}
  {x : Seq} {q : SequenceId} {tn : TimePoint}

/-- What placement does not change about a worker. -/
def WorkerDescriptor.profile (w : WorkerDescriptor) : WorkerDescriptor := { w with activeReservations := 0 }

namespace Fabric
variable {s t u : Fabric} {cands : List Candidate} {g : Formed} {out : List Dispatch} {w : WorkerDescriptor}
    {wk : WorkerId}

/-! The chosen worker. -/

theorem chooseWorker_mem {e : WorkerId × WorkerDescriptor} (h : s.chooseWorker key = some e) :
    e ∈ s.workers.entries ∧ eligible e.2 key = true := by
  have hchosen : ∀ c ∈ s.chooseWorker key, c ∈ s.workers.entries ∧ eligible c.2 key = true := by
    unfold chooseWorker
    refine foldl_invariant (I := fun chosen : Option (WorkerId × WorkerDescriptor) =>
      ∀ c ∈ chosen, c ∈ s.workers.entries ∧ eligible c.2 key = true) ?_ (by simp)
    rintro ⟨chosen, w⟩ hp hold
    have hw := mem_of_mem_turns hp
    simp only
    split
    · exact hold
    · next helig =>
      have hnew : ∀ c ∈ some w, c ∈ s.workers.entries ∧ eligible c.2 key = true := by
        intro c hc
        obtain rfl := mem_some.mp hc
        exact ⟨hw, by simpa using helig⟩
      split
      · exact hnew
      · split
        · exact hnew
        · exact hold
  exact hchosen e h

/-- There is a worker that takes any group of this key, however many it has. -/
def Serves (s : Fabric) (key : CompatibilityKey) : Prop :=
  ∃ e ∈ s.workers.entries, e.2.health = .healthy ∧ supportsGroup e.2 key = true ∧ e.2.advertisedCapacity = 0

theorem Serves.eligible {key : CompatibilityKey} (h : s.Serves key) :
    ∃ e ∈ s.workers.entries, eligible e.2 key = true := by
  obtain ⟨e, he, hhealth, hsupports, hcapacity⟩ := h
  exact ⟨e, he, by simp [Fabric.eligible, hhealth, hsupports, hcapacity]⟩

theorem chooseWorker_isSome (h : ∃ e ∈ s.workers.entries, eligible e.2 key = true) :
    ∃ e, s.chooseWorker key = some e := by
  obtain ⟨e, he, helig⟩ := h
  obtain ⟨l₁, l₂, hl⟩ := append_of_mem he
  unfold chooseWorker
  rw [hl, foldl_append, foldl_cons]
  -- from `e` on some worker is chosen
  refine isSome_iff_exists.mp (foldl_invariant (I := fun chosen : Option (WorkerId × WorkerDescriptor) =>
    chosen.isSome = true) ?_ ?_)
  · rintro ⟨chosen, w⟩ - hold
    simp only
    split
    · exact hold
    · split
      · rfl
      · split
        · rfl
        · rfl
  · simp only [helig, Bool.not_true, Bool.false_eq_true, if_false]
    split
    · rfl
    · next c hc =>
      split
      · rfl
      · rw [hc]
        rfl

/-- A worker of the fabric serves the key found for `req`, under the request's own model, revision and adapter. -/
structure Found (s : Fabric) (req : DecodeRequest) (e : WorkerId × WorkerDescriptor) : Prop where
  worker : e ∈ s.workers.entries
  supported : s.keyForModel req ∈ e.2.supportedModels
  same : (s.keyForModel req).model = req.model ∧ (s.keyForModel req).revision = req.revision ∧
    (s.keyForModel req).adapter = req.adapter

/-- The lookup yields the null key only if no worker serves the request. -/
theorem keyForModel_cases (req : DecodeRequest) : (∃ e, Found s req e) ∨
      s.keyForModel req = {} ∧ ∀ e ∈ s.workers.entries, ∀ k ∈ e.2.supportedModels,
        req.deviceConstraint = 0 ∨ e.2.device.id = req.deviceConstraint →
        ¬(k.model = req.model ∧ k.revision = req.revision ∧ k.adapter = req.adapter) := by
  cases hfound : s.workers.entries.findSome? (fun w =>
      if req.deviceConstraint ≠ 0 ∧ w.2.device.id ≠ req.deviceConstraint then none
      else w.2.supportedModels.find? fun mk =>
        decide (mk.model = req.model ∧ mk.revision = req.revision ∧ mk.adapter = req.adapter)) with
  | some k =>
    left
    have hkey : s.keyForModel req = k := by simp only [keyForModel, hfound, getD_some]
    obtain ⟨e, he, hk⟩ := exists_of_findSome?_eq_some hfound
    split at hk
    · cases hk
    · refine ⟨e, he, ?_, ?_⟩
      · rw [hkey]
        exact mem_of_find?_eq_some hk
      · rw [hkey]
        have hsame := find?_some hk
        exact of_decide_eq_true hsame
  | none =>
    right
    refine ⟨by simp only [keyForModel, hfound, getD_none], ?_⟩
    intro e he k hk hdev hsame
    have hnone := findSome?_eq_none_iff.mp hfound e he
    rw [if_neg (fun h => hdev.elim h.1 h.2)] at hnone
    exact find?_eq_none.mp hnone k hk (decide_eq_true hsame)

/-- Every worker is healthy and takes any number of groups. -/
def Willing (s : Fabric) : Prop := ∀ e ∈ s.workers.entries, e.2.health = .healthy ∧ e.2.advertisedCapacity = 0

theorem Willing.serves (h : s.Willing) {req : DecodeRequest} (hvalid : (s.keyForModel req).valid = true) :
    s.Serves (s.keyForModel req) := by
  rcases keyForModel_cases (s := s) req with ⟨e, hfound⟩ | ⟨hnull, -⟩
  · obtain ⟨hhealth, hcapacity⟩ := h e hfound.worker
    refine ⟨e, hfound.worker, hhealth, ?_, hcapacity⟩
    exact any_eq_true.mpr ⟨_, hfound.supported, by simp⟩
  · rw [hnull] at hvalid
    cases hvalid

/-- No device has a limit on its memory. -/
def Roomy (s : Fabric) : Prop := ∀ d v, s.devMem.find? d = some v → v.capacity = 0

theorem Roomy.capacity (h : s.Roomy) (d : DeviceId) : (s.devMem.getD d {}).capacity = 0 := by
  unfold Table.getD
  cases hd : s.devMem.find? d with
  | none => rfl
  | some v => exact h d v hd

theorem Roomy.not_refused (h : s.Roomy) (d : DeviceId) (growth : UInt64) :
    memoryRefused (s.devMem.getD d {}) growth = false := by
  simp [memoryRefused, h.capacity]

/-! The candidates. -/

theorem boundarySeq_workers (tn : TimePoint) (q : SequenceId) : (boundarySeq tn s q).workers = s.workers :=
  s.boundarySeq_kept (I := fun t => t.workers = s.workers) (fun t _ h => (t.releaseReservation_workers q).trans h)
    (fun t _ h => (t.releaseReservation_workers q).trans h) rfl

theorem boundaryPass_workers (tn : TimePoint) : (s.boundaryPass tn).workers = s.workers :=
  foldl_invariant (I := fun t : Fabric => t.workers = s.workers)
    (fun p _ hp => (boundarySeq_workers (s := p.1) tn p.2).trans hp) rfl

theorem poll_workers (tn : TimePoint) : (s.poll tn).1.workers = s.workers :=
  (collect_foldl tn (s.boundaryPass tn).seqs.keys_nodup [] (fun _ _ => rfl) rfl rfl).2.2.1.trans
    (boundaryPass_workers tn)

/-- Sequence `q`, found as `x`, can go out at this tick: a candidate with budget and time left, for which
    some worker's key is found. -/
structure Due (s : Fabric) (tn : TimePoint) (q : SequenceId) (x : Seq) : Prop where
  found : s.seqs.find? q = some x
  candidate : x.machine.isCandidate = true
  unspent : x.budget.exhausted = false
  inTime : x.deadlineReached tn = false
  served : (s.keyForModel x.req).valid = true

/-- The candidates of a tick are the sequences that can go out. -/
theorem poll_candidate (hc : c ∈ (s.poll tn).2) : ∃ x, s.Due tn c.seq x ∧ c.key = s.keyForModel x.req := by
  have hworkers := boundaryPass_workers (s := s) tn
  obtain ⟨y, hy, hcand, hunspent, hkey, hvalid⟩ := collectPass_mem _ hc
  rw [boundaryPass_find?, map_eq_some_iff] at hy
  obtain ⟨x, hx, rfl⟩ := hy
  obtain ⟨hsame, hintime⟩ := Seq.boundary_candidate hcand
  rw [hsame] at hcand hunspent hkey
  rw [keyForModel_of_workers hworkers] at hkey
  rw [hkey] at hvalid
  exact ⟨x, ⟨hx, hcand, hunspent, hintime, hvalid⟩, hkey⟩

theorem Due.boundary (h : s.Due tn q x) : x.boundary tn = x := by
  have hterminal := SequenceState.live_of_isCandidate h.candidate
  have hcancel : x.machine ≠ .cancelRequested := by
    intro hc
    have := h.candidate
    rw [hc] at this
    cases this
  simp [Seq.boundary, hterminal, h.inTime, hcancel]

theorem Due.collected (h : s.Due tn q x) : ∃ c ∈ (s.poll tn).2, c.seq = q := by
  have hworkers := boundaryPass_workers (s := s) tn
  have hfind : (s.boundaryPass tn).seqs.find? q = some x := by
    rw [boundaryPass_find?, h.found, map_some, h.boundary]
  have hcand : (s.boundaryPass tn).candidateAt tn q =
      some ⟨q, s.keyForModel x.req, (s.boundaryPass tn).cfg.score x tn⟩ := by
    simp [candidateAt, hfind, keyForModel_of_workers hworkers, h.candidate, h.unspent, h.served]
  refine ⟨_, ?_, candidateAt_seq _ hcand⟩
  rw [collectPass_candidates, mem_filterMap]
  exact ⟨q, mem_keys_iff.mpr ⟨x, hfind⟩, hcand⟩

/-- The candidates after the first two passes over `s`, which lead to `u`. -/
structure Shortlist (s : Fabric) (tn : TimePoint) (u : Fabric) (cands : List Candidate) : Prop where
  nodup : (cands.map Candidate.seq).Nodup
  due : ∀ c ∈ cands, ∃ x, s.Due tn c.seq x ∧ c.key = s.keyForModel x.req ∧ u.seqs.find? c.seq = some x
  cfg : u.cfg = s.cfg

theorem poll_shortlist (s : Fabric) (tn : TimePoint) : Shortlist s tn (s.poll tn).1 (s.poll tn).2 := by
  have hpoll := s.poll_spec tn
  refine ⟨hpoll.nodup, fun c hc => ?_, cfg_of_books hpoll.books⟩
  obtain ⟨x, hdue, hkey⟩ := poll_candidate hc
  obtain ⟨y, hy, hpol, -⟩ := hpoll.candidate c.seq (mem_map_of_mem hc)
  cases hdue.found.symm.trans hy
  refine ⟨x, hdue, hkey, ?_⟩
  rw [hpoll.seqs, hdue.found, map_some, hpol]

/-! Formation. -/

/-- A group under construction respects the size limit, has the key of a candidate, and holds candidates of its own
    key. -/
structure Proper (s : Fabric) (cands : List Candidate) (g : Formed) : Prop where
  limit : g.members.length ≤ max 1 s.cfg.groupLimits.maxSequences.toNat
  key : ∃ c ∈ cands, g.key = c.key
  alike : ∀ m ∈ g.members, ∃ c ∈ cands, c.seq = m ∧ c.key.toText = g.key.toText

/-- The groups under construction, found by the text of their key. -/
structure Grouping (s : Fabric) (cands : List Candidate) (f : Forming) : Prop where
  cfg : f.fabric.cfg = s.cfg
  index : ∀ text i, f.groupIndex.find? text = some i → ∃ g, f.formed[i]? = some g ∧ g.key.toText = text
  proper : ∀ g ∈ f.formed, Proper s cands g

theorem Grouping.new (hcfg : u.cfg = s.cfg) (cands : List Candidate) : Grouping s cands { fabric := u } :=
  ⟨hcfg, fun k gi hk => by simp at hk, fun g hg => by simp at hg⟩

theorem Grouping.open (h : Grouping s cands f) (hc : c ∈ cands) : Grouping s cands (f.open c.key).1 ∧
    ∃ g, (f.open c.key).1.formed[(f.open c.key).2]? = some g ∧ g.key.toText = c.key.toText := by
  unfold Forming.open
  split
  · next gi hgi => exact ⟨h, h.index _ _ hgi⟩
  · refine ⟨⟨h.cfg, ?_, ?_⟩, ⟨c.key, []⟩, by simp, rfl⟩
    · intro text i hi
      rw [find?_insert] at hi
      split at hi
      · next htext =>
        cases hi
        exact ⟨⟨c.key, []⟩, by simp, htext.symm⟩
      · obtain ⟨g, hg, htext⟩ := h.index text i hi
        refine ⟨g, ?_, htext⟩
        rw [List.getElem?_append_left (List.getElem?_eq_some_iff.mp hg).1]
        exact hg
    · intro g hg
      rcases mem_append.mp hg with hg | hg
      · exact h.proper g hg
      · rw [mem_singleton.mp hg]
        exact ⟨Nat.zero_le _, ⟨c, hc, rfl⟩, fun m hm => absurd hm not_mem_nil⟩

/-- A group that takes another member is empty or below the limit. -/
theorem Proper.join {g : Formed} (h : Proper s cands g) (hc : c ∈ cands) (hkey : g.key.toText = c.key.toText)
    (hcfg : u.cfg = s.cfg) (hroom : u.refusedByLimits g.members x = false) :
    Proper s cands { g with members := g.members ++ [c.seq] } := by
  refine ⟨?_, h.key, fun m hm => ?_⟩
  · have hsize : ¬ (g.members ≠ [] ∧ g.members.length ≥ s.cfg.groupLimits.maxSequences.toNat) := by
      intro hfull
      simp [refusedByLimits, hcfg, hfull] at hroom
    simp only [length_append, length_singleton]
    by_cases hempty : g.members = []
    · simp [hempty]
    · have : g.members.length < s.cfg.groupLimits.maxSequences.toNat := Nat.not_le.mp fun hge => hsize ⟨hempty, hge⟩
      omega
  · rcases mem_append.mp hm with hm | hm
    · exact h.alike m hm
    · exact ⟨c, hc, (mem_singleton.mp hm).symm, hkey.symm⟩

theorem Grouping.formStep (h : Grouping s cands f) (hc : c ∈ cands) : Grouping s cands (formStep tn f c) := by
  obtain ⟨hopen, g, hg, hkey⟩ := h.open hc
  unfold Fabric.formStep
  simp only
  split
  · next x g' _ hg' =>
    cases hg.symm.trans hg'
    split
    · exact hopen
    · next hroom =>
      refine ⟨hopen.cfg, fun text i hi => ?_, fun g' hg' => ?_⟩
      · obtain ⟨g', hg', htext⟩ := hopen.index text i hi
        rw [getElem?_set]
        split
        · next hi' =>
          subst hi'
          cases hg.symm.trans hg'
          rw [if_pos (List.getElem?_eq_some_iff.mp hg).1]
          exact ⟨_, rfl, htext⟩
        · exact ⟨g', hg', htext⟩
      · rcases mem_or_eq_of_mem_set hg' with hg' | rfl
        · exact hopen.proper g' hg'
        · exact (hopen.proper g (mem_of_getElem? hg)).join hc hkey hopen.cfg (Bool.eq_false_iff.mpr hroom)
  · exact hopen

theorem formPass_grouping (hcfg : u.cfg = s.cfg) (cands : List Candidate) : Grouping s cands (u.formPass tn cands) := by
  have hperm := perm_insertionSort Candidate.before cands
  exact foldl_invariant (fun p hp hf => hf.formStep (hperm.mem_iff.mp (mem_of_mem_turns hp))) (Grouping.new hcfg cands)

/-- What formation leaves of the sequences. -/
structure Formation (s : Fabric) (tn : TimePoint) (f : Forming) : Prop where
  nodup : f.grouped.Nodup
  member : ∀ g ∈ f.formed, ∀ m ∈ g.members, ∃ x, s.Due tn m x ∧ (s.keyForModel x.req).toText = g.key.toText ∧
    f.fabric.seqs.find? m = some (x.enterGroup tn)
  limit : ∀ g ∈ f.formed, g.members.length ≤ max 1 s.cfg.groupLimits.maxSequences.toNat
  key : ∀ g ∈ f.formed, ∃ q x, s.Due tn q x ∧ g.key = s.keyForModel x.req
  books : f.fabric.books = s.books
  workers : f.fabric.workers = s.workers

theorem formedAt_formation (s : Fabric) (tn : TimePoint) : Formation s tn (s.formedAt tn) := by
  have hpoll := s.poll_spec tn
  have hlist := s.poll_shortlist tn
  have hform := s.formedAt_inv tn
  have hgroups : Grouping s (s.poll tn).2 (s.formedAt tn) := formPass_grouping hlist.cfg (s.poll tn).2
  refine ⟨hform.nodup, ?_, fun g hg => (hgroups.proper g hg).limit, ?_, hform.books.trans hpoll.books,
    hform.workers.trans (poll_workers tn)⟩
  · intro g hg m hm
    obtain ⟨c, hc, rfl, hkey⟩ := (hgroups.proper g hg).alike m hm
    obtain ⟨x, hdue, hckey, hfind⟩ := hlist.due c hc
    have hgrouped : c.seq ∈ (s.formedAt tn).grouped := mem_flatMap.mpr ⟨g, hg, hm⟩
    refine ⟨x, hdue, hckey ▸ hkey, ?_⟩
    calc (s.formedAt tn).fabric.seqs.find? c.seq
        = if c.seq ∈ (s.formedAt tn).grouped then
            ((s.poll tn).1.seqs.find? c.seq).map (Seq.enterGroup tn)
          else (s.poll tn).1.seqs.find? c.seq := hform.seqs c.seq
      _ = some (x.enterGroup tn) := by rw [if_pos hgrouped, hfind, map_some]
  · intro g hg
    obtain ⟨c, hc, hkey⟩ := (hgroups.proper g hg).key
    obtain ⟨x, hdue, hckey⟩ := poll_candidate hc
    exact ⟨c.seq, x, hdue, hkey.trans hckey⟩

/-! The turns of placement. -/

/-- The turns of the placement loop: the fabric and the dispatches so far, and the group. -/
def placements (s : Fabric) (tn : TimePoint) : List ((Fabric × List Dispatch) × Formed) :=
  turns (placeGroup tn) ((s.formedAt tn).fabric, []) (s.formedAt tn).formed

/-- Placement counts the reservations of a worker up and changes nothing else about the workers. -/
theorem placeGroup_profiles (tn : TimePoint) (out : List Dispatch) (g : Formed) :
    (placeGroup tn (s, out) g).1.workers.map WorkerDescriptor.profile = s.workers.map WorkerDescriptor.profile := by
  have hungroup : (s.ungroup g.members).workers = s.workers :=
    foldl_invariant (I := fun u : Fabric => u.workers = s.workers) (fun _ _ hu => hu) rfl
  unfold placeGroup
  split
  · rfl
  · split
    · exact congrArg (map · WorkerDescriptor.profile) hungroup
    · next wk w _ =>
      simp only
      split
      · exact congrArg (map · WorkerDescriptor.profile) hungroup
      · have hscan : (scan (dispatchMember (s.openDispatch tn g w (s.groupGrowth g.members)).2)
            (s.openDispatch tn g w (s.groupGrowth g.members)).1 g.members).1.workers = s.workers := by
          rw [scan_fst]
          refine foldl_invariant (I := fun u : Fabric => u.workers = s.workers) (fun p _ hu => ?_) rfl
          unfold dispatchMember
          split
          · exact hu
          · exact hu
        show (Table.modify _ wk _).map WorkerDescriptor.profile = _
        refine (map_modify _ wk ?_).trans (congrArg (map · WorkerDescriptor.profile) hscan)
        exact fun _ => rfl

theorem Serves.of_profiles
    (hp : t.workers.map WorkerDescriptor.profile = s.workers.map WorkerDescriptor.profile) (h : s.Serves key) :
    t.Serves key := by
  obtain ⟨e, he, hhealth, hsupports, hcapacity⟩ := h
  obtain ⟨e', he', -, hprofile⟩ := mem_of_map_eq hp he
  refine ⟨e', he', ?_, ?_, ?_⟩
  · exact (congrArg WorkerDescriptor.health hprofile).trans hhealth
  · have hmodels := congrArg WorkerDescriptor.supportedModels hprofile
    change e'.2.supportedModels = e.2.supportedModels at hmodels
    unfold supportsGroup
    rw [hmodels]
    exact hsupports
  · exact (congrArg WorkerDescriptor.advertisedCapacity hprofile).trans hcapacity

/-- What a turn of the placement loop finds, and what becomes of its members after it. -/
structure Turn (s : Fabric) (tn : TimePoint) (u : Fabric) (out : List Dispatch) (g : Formed) : Prop where
  formed : g ∈ (s.formedAt tn).formed
  nodup : g.members.Nodup
  member : ∀ m ∈ g.members, ∃ x, s.Due tn m x ∧ (s.keyForModel x.req).toText = g.key.toText ∧
    u.seqs.find? m = some (x.enterGroup tn)
  final : ∀ m ∈ g.members, (s.schedule tn).1.seqs.find? m = (placeGroup tn (u, out) g).1.seqs.find? m
  kept : ∀ d ∈ (placeGroup tn (u, out) g).2, d ∈ (s.schedule tn).2
  profiles : u.workers.map WorkerDescriptor.profile = s.workers.map WorkerDescriptor.profile
  books : u.books = { s.books with nextDispatch := u.nextDispatch }

theorem placements_turn (h : ((u, out), g) ∈ s.placements tn) : Turn s tn u out g := by
  have hf := s.formedAt_formation tn
  have hmem : g ∈ (s.formedAt tn).formed := mem_of_mem_turns h
  obtain ⟨gs₁, gs₂, hgs, hu, hlast⟩ := turns_split h
  have hn := hf.nodup
  unfold Forming.grouped at hn
  rw [hgs, flatMap_append, flatMap_cons, nodup_append', nodup_append'] at hn
  obtain ⟨hn₁, ⟨hng, hn₂, hdis₂⟩, hdis₁⟩ := hn
  obtain ⟨ds₁, sent₁, -, hplace₁⟩ := placeGroup_foldl tn gs₁ hn₁ (s.formedAt tn).fabric []
  obtain ⟨ds₂, sent₂, hout₂, hplace₂⟩ := placeGroup_foldl tn gs₂ hn₂ (placeGroup tn (u, out) g).1
    (placeGroup tn (u, out) g).2
  have hsched : s.schedule tn = gs₂.foldl (placeGroup tn) (placeGroup tn (u, out) g) := hlast
  refine ⟨hmem, hng, ?_, ?_, ?_, ?_, ?_⟩
  · -- the groups before left the members alone
    intro m hm
    obtain ⟨x, hdue, hkey, hfind⟩ := hf.member g hmem m hm
    have hsame := hplace₁.others m fun h => hdis₁ h (mem_append_left _ hm)
    rw [← hu] at hsame
    exact ⟨x, hdue, hkey, hsame.trans hfind⟩
  · -- and so do the groups after
    intro m hm
    rw [hsched]
    exact hplace₂.others m fun h => hdis₂ hm h
  · intro d hd
    rw [hsched]
    change d ∈ (gs₂.foldl (placeGroup tn) ((placeGroup tn (u, out) g).1, (placeGroup tn (u, out) g).2)).2
    rw [hout₂]
    exact mem_append_left _ hd
  · have hstart : (s.formedAt tn).fabric.workers.map WorkerDescriptor.profile =
      s.workers.map WorkerDescriptor.profile :=
      congrArg (map · WorkerDescriptor.profile) hf.workers
    exact invariant_at_turns (I := fun acc : Fabric × List Dispatch =>
      acc.1.workers.map WorkerDescriptor.profile = s.workers.map WorkerDescriptor.profile)
      (fun p _ hp => (placeGroup_profiles tn p.1.2 p.2).trans hp) hstart _ h
  · have hbooks := hplace₁.books
    rw [← hu, hf.books] at hbooks
    exact hbooks

/-- A dispatch leaves with the group of one turn, to the worker chosen there. -/
structure Sent (tn : TimePoint) (u : Fabric) (g : Formed) (wk : WorkerId) (w : WorkerDescriptor) (d : Dispatch) :
    Prop where
  nonempty : g.members ≠ []
  chosen : u.chooseWorker g.key = some (wk, w)
  room : memoryRefused (u.devMem.getD w.device.id {}) (u.groupGrowth g.members) = false
  dispatch : d = (u.dispatchGroup tn g wk w (u.groupGrowth g.members)).2

theorem Sent.result (h : Sent tn u g wk w d) (out : List Dispatch) :
    placeGroup tn (u, out) g = ((u.dispatchGroup tn g wk w (u.groupGrowth g.members)).1, out ++ [d]) := by
  unfold placeGroup
  rw [if_neg h.nonempty, h.chosen]
  simp only
  rw [h.room, h.dispatch]
  rfl

/-- A turn sends its group, or adds no dispatch. -/
theorem placeGroup_cases (tn : TimePoint) (u : Fabric) (out : List Dispatch) (g : Formed) :
    (placeGroup tn (u, out) g).2 = out ∨ ∃ wk w d, Sent tn u g wk w d := by
  unfold placeGroup
  split
  · exact .inl rfl
  · next hne =>
    split
    · exact .inl rfl
    · next wk w hw =>
      simp only
      split
      · exact .inl rfl
      · next hroom => exact .inr ⟨wk, w, _, hne, hw, Bool.eq_false_iff.mpr hroom, rfl⟩

theorem placeGroup_new (hnew : d ∉ out) (hd : d ∈ (placeGroup tn (u, out) g).2) : ∃ wk w, Sent tn u g wk w d := by
  rcases placeGroup_cases tn u out g with hsame | ⟨wk, w, d', hsent⟩
  · exact absurd (hsame ▸ hd) hnew
  · rw [hsent.result] at hd
    rw [mem_singleton.mp ((mem_append.mp hd).resolve_left hnew)]
    exact ⟨wk, w, hsent⟩

/-- Every dispatch of a tick has its turn. -/
theorem dispatch_turn (hd : d ∈ (s.schedule tn).2) :
    ∃ u out g wk w, ((u, out), g) ∈ s.placements tn ∧ Sent tn u g wk w d := by
  obtain ⟨⟨⟨u, out⟩, g⟩, hp, hnew, hmade⟩ := exists_turn_of_foldl
    (I := fun acc : Fabric × List Dispatch => d ∈ acc.2) hd not_mem_nil
  obtain ⟨wk, w, hsent⟩ := placeGroup_new hnew hmade
  exact ⟨u, out, g, wk, w, hp, hsent⟩

/-! The contents of a dispatch. -/

/-- One dispatch of a tick: addressed under the current epoch to a registered worker, with the members
    described as the fabric knew them, each of which is then in flight under it. -/
structure Emitted (s : Fabric) (tn : TimePoint) (t : Fabric) (d : Dispatch) : Prop where
  epoch : d.epoch = s.epoch
  boot : d.workerBoot = s.workerCurrentBoot.getD d.worker 0
  worker : ∃ e ∈ s.workers.entries, e.2.id = d.worker
  nonempty : d.members ≠ []
  member : ∀ m ∈ d.members, ∃ x, s.Due tn m.sequence x ∧ m = x.memberSpec m.sequence ∧
    t.seqs.find? m.sequence = some (x.sent tn d)

theorem schedule_emitted (tn : TimePoint) : ∀ d ∈ (s.schedule tn).2, Emitted s tn (s.schedule tn).1 d := by
  intro d hd
  obtain ⟨u, out, g, wk, w, hp, hsent⟩ := dispatch_turn hd
  have hturn := placements_turn hp
  have hresult := hsent.result out
  obtain ⟨hne, hchosen, -, rfl⟩ := hsent
  cases u.dispatchGroup_fate tn wk w (u.groupGrowth g.members) hturn.nodup with
  | sent _ hseqs _ _ hmembers =>
    refine ⟨congrArg Books.epoch hturn.books, ?_, ?_, ?_, fun m hm => ?_⟩
    · exact congrArg (fun b : Books => b.workerCurrentBoot.getD w.id 0) hturn.books
    · obtain ⟨e, he, -, hprofile⟩ := mem_of_map_eq hturn.profiles.symm (chooseWorker_mem hchosen).1
      have hid := congrArg WorkerDescriptor.id hprofile
      exact ⟨e, he, hid⟩
    · rw [hmembers]
      exact fun h => hne (map_eq_nil_iff.mp h)
    · rw [hmembers] at hm
      obtain ⟨q, hq, rfl⟩ := mem_map.mp hm
      obtain ⟨x, hdue, -, hx⟩ := hturn.member q hq
      have hspec : u.specOf q = x.memberSpec q := by
        simp only [specOf, hx]
        rfl
      rw [hspec]
      refine ⟨x, hdue, rfl, ?_⟩
      show (s.schedule tn).1.seqs.find? q = _
      rw [hturn.final q hq, hresult, hseqs, if_pos hq, hx]
      rfl

/-- The dispatches of a tick are numbered from the next id on. -/
theorem schedule_numbered (tn : TimePoint) :
    (s.schedule tn).2.map Dispatch.id = range' s.nextDispatch (s.schedule tn).2.length := by
  have hpoll := s.poll_spec tn
  have hform := s.formedAt_inv tn
  have hplaced := foldl_invariant (f := placeGroup tn) (l := (s.formedAt tn).formed) (s := ((s.formedAt tn).fabric, []))
    (I := fun acc : Fabric × List Dispatch => acc.2.map Dispatch.id = range' s.nextDispatch acc.2.length ∧
      acc.1.nextDispatch = s.nextDispatch + acc.2.length) ?_ ?_
  · exact hplaced.1
  · rintro ⟨⟨t, out⟩, g⟩ hturn ⟨hids, hnext⟩
    have hn : g.members.Nodup := (nodup_flatMap.mp hform.nodup).1 g (mem_of_mem_turns hturn)
    obtain ⟨ds, hout, hfate⟩ := t.placeGroup_fate tn out hn
    change out.map Dispatch.id = range' s.nextDispatch out.length at hids
    change t.nextDispatch = s.nextDispatch + out.length at hnext
    rw [hout]
    cases hfate with
    | putBack _ hbooks =>
      rw [append_nil]
      exact ⟨hids, (congrArg Books.nextDispatch hbooks).trans hnext⟩
    | sent d _ hbooks hid _ =>
      rw [map_append, length_append, length_singleton, range'_concat, hids, Nat.one_mul, ← hnext]
      refine ⟨by rw [map_singleton, hid], ?_⟩
      rw [show (placeGroup tn (t, out) g).1.nextDispatch = t.nextDispatch + 1 from congrArg Books.nextDispatch hbooks,
        hnext]
      rfl
  · refine ⟨rfl, ?_⟩
    exact congrArg Books.nextDispatch (hform.books.trans hpoll.books)

/-! Formation leaves nobody out that the limits admit. -/

theorem formStep_keeps (hq : q ∈ f.grouped) (tn : TimePoint) (c : Candidate) : q ∈ (formStep tn f c).grouped := by
  have hopen : q ∈ (f.open c.key).1.grouped := by
    rw [(f.open_spec c.key).2]
    exact hq
  unfold formStep
  simp only
  split
  · next x g _ hg =>
    split
    · exact hopen
    · exact (flatMap_set_perm c.seq hg).mem_iff.mpr (mem_cons_of_mem _ hopen)
  · exact hopen

/-- Limits that set neither tenants nor latency classes apart. -/
def Impartial (s : Fabric) : Prop :=
  s.cfg.groupLimits.maxTenantShare = 0 ∧ s.cfg.groupLimits.maxLatencyClass = .bulk

theorem Impartial.of_cfg (h : s.Impartial) (hcfg : t.cfg = s.cfg) : t.Impartial := by
  unfold Impartial
  rw [hcfg]
  exact h

/-- A candidate is grouped when it is the first, or when all of them fit into one group. -/
theorem formStep_joins (hf : Grouping s cands f) (hc : c ∈ cands) (tn : TimePoint)
    (hx : f.fabric.seqs.find? c.seq = some x) (himp : f.fabric.Impartial)
    (hroom : f.grouped = [] ∨ f.grouped.length < f.fabric.cfg.groupLimits.maxSequences.toNat) :
    c.seq ∈ (formStep tn f c).grouped := by
  obtain ⟨hfab, hgr⟩ := f.open_spec c.key
  obtain ⟨-, g, hget, -⟩ := hf.open hc
  -- the group is no larger than all groups together
  have hsub : g.members.Sublist f.grouped := by
    rw [← hgr]
    exact sublist_flatten_of_mem (mem_map_of_mem (mem_of_getElem? hget))
  have hadmits : f.fabric.refusedByLimits g.members x = false := by
    have hsize : g.members = [] ∨ g.members.length < f.fabric.cfg.groupLimits.maxSequences.toNat := by
      rcases hroom with h | h
      · left
        rw [h] at hsub
        exact sublist_nil.mp hsub
      · exact .inr (hsub.length_le.trans_lt h)
    simp only [refusedByLimits, himp.1, himp.2]
    rcases hsize with h | h
    · simp [h]
    · simp [h]
  unfold formStep
  simp only [hfab, hx, hget, hadmits, Bool.false_eq_true, if_false]
  exact (flatMap_set_perm c.seq hget).mem_iff.mpr mem_cons_self

theorem formStep_foldl_keeps (hq : q ∈ f.grouped) (tn : TimePoint)
    (l : List Candidate) : q ∈ (l.foldl (formStep tn) f).grouped :=
  foldl_invariant (I := fun f : Forming => q ∈ f.grouped) (fun p _ hp => formStep_keeps hp tn p.2) hq

/-- The grouped sequences so far are too few to fill a group. -/
theorem formStep_foldl_joins (himp : s.Impartial) (hpresent : ∀ c ∈ cands, ∃ x, s.seqs.find? c.seq = some x) :
    ∀ (l : List Candidate) {done : List SequenceId} {f : Forming}, FormingInv s tn done f →
    (done ++ l.map Candidate.seq).Nodup → Grouping s cands f → (∀ c ∈ l, c ∈ cands) →
    done.length + l.length ≤ s.cfg.groupLimits.maxSequences.toNat → ∀ c ∈ l, c.seq ∈ (l.foldl (formStep tn) f).grouped
  | [], done, f, _, _, _, _, _ => fun c hc => by simp at hc
  | c :: l, done, f, hf, hn, hgroups, hsub, hsize => by
    have hcfg : f.fabric.cfg = s.cfg := cfg_of_books hf.books
    have hshort : f.grouped.length ≤ done.length := (subperm_of_subset hf.nodup hf.subset).length_le
    rw [map_cons, ← singleton_append, ← append_assoc] at hn
    have hfresh : c.seq ∉ done := by
      have h := (nodup_append.mp (nodup_append.mp hn).1).2.2
      exact fun hd => h _ hd _ (mem_singleton.mpr rfl) rfl
    have hc := hsub c mem_cons_self
    have hjoins : c.seq ∈ (formStep tn f c).grouped := by
      obtain ⟨x, hx⟩ := hpresent c hc
      have hfind : f.fabric.seqs.find? c.seq = some x := by
        rw [hf.seqs, if_neg fun h => hfresh (hf.subset _ h)]
        exact hx
      refine formStep_joins hgroups hc tn hfind (himp.of_cfg hcfg) (.inr ?_)
      rw [hcfg]
      rw [length_cons] at hsize
      omega
    intro c' hc'
    rcases mem_cons.mp hc' with rfl | hc'
    · exact formStep_foldl_keeps hjoins tn l
    · refine formStep_foldl_joins himp hpresent l (formStep_inv hf hfresh) hn (hgroups.formStep hc)
        (fun c hc => hsub c (mem_cons_of_mem _ hc)) ?_ c' hc'
      rw [length_append, length_singleton]
      rw [length_cons] at hsize
      omega

/-- Whatever the size of a group, the first candidate in score order has a place. -/
theorem formedAt_first (himp : s.Impartial) (hne : (s.poll tn).2 ≠ []) : (s.formedAt tn).grouped ≠ [] := by
  have hlist := s.poll_shortlist tn
  have hperm := perm_insertionSort Candidate.before (s.poll tn).2
  unfold formedAt formPass
  cases hl : (s.poll tn).2.insertionSort Candidate.before with
  | nil =>
    rw [hl] at hperm
    exact absurd hperm.symm.eq_nil hne
  | cons c l =>
    have hc : c ∈ (s.poll tn).2 := hperm.mem_iff.mp (by rw [hl]; exact mem_cons_self)
    obtain ⟨x, -, -, hx⟩ := hlist.due c hc
    have hjoins : c.seq ∈ (formStep tn { fabric := (s.poll tn).1 } c).grouped :=
      formStep_joins (Grouping.new rfl _) hc tn hx (himp.of_cfg hlist.cfg) (.inl rfl)
    exact ne_nil_of_mem (formStep_foldl_keeps hjoins tn l)

theorem formedAt_all (himp : s.Impartial) (hsize : (s.poll tn).2.length ≤ s.cfg.groupLimits.maxSequences.toNat) :
    ∀ c ∈ (s.poll tn).2, c.seq ∈ (s.formedAt tn).grouped := by
  have hlist := s.poll_shortlist tn
  have hperm := perm_insertionSort Candidate.before (s.poll tn).2
  intro c hc
  have hstart : FormingInv (s.poll tn).1 tn [] { fabric := (s.poll tn).1 } :=
    ⟨by simp [Forming.grouped], by simp [Forming.grouped], by simp [Forming.grouped], rfl, rfl⟩
  refine formStep_foldl_joins (himp.of_cfg hlist.cfg) (fun c hc => ?_) _ hstart ?_ (Grouping.new rfl _)
    (fun c => hperm.mem_iff.mp) ?_ c (hperm.mem_iff.mpr hc)
  · obtain ⟨x, -, -, hx⟩ := hlist.due c hc
    exact ⟨x, hx⟩
  · exact (hperm.map Candidate.seq).nodup_iff.mpr hlist.nodup
  · rw [length_nil, Nat.zero_add, hperm.length_eq, hlist.cfg]
    exact hsize

/-! Workers with room take every group. -/

/-- A group that a worker takes goes out whole. -/
theorem placeGroup_takes (tn : TimePoint) (out : List Dispatch) {g : Formed} (hn : g.members.Nodup)
    (hroomy : s.Roomy) (hserves : s.Serves g.key) (hq : q ∈ g.members) :
    ∃ d ∈ (placeGroup tn (s, out) g).2, ∃ m ∈ d.members, m = s.specOf q := by
  obtain ⟨e, he⟩ := chooseWorker_isSome hserves.eligible
  have hne : g.members ≠ [] := ne_nil_of_mem hq
  unfold placeGroup
  simp only [if_neg hne, he, hroomy.not_refused, Bool.false_eq_true, if_false]
  refine ⟨_, mem_append_right _ (mem_singleton.mpr rfl), s.specOf q, ?_, rfl⟩
  cases s.dispatchGroup_fate tn e.1 e.2 (s.groupGrowth g.members) hn with
  | sent _ _ _ _ hmembers =>
    rw [hmembers]
    exact mem_map_of_mem hq

end Fabric
end DecodeFabric
