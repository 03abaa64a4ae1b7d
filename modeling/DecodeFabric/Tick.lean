import DecodeFabric.Effects

/- What one call of `schedule` does.

   The first two passes change every sequence by a fixed function (`Seq.boundary`,
   `Seq.collected`). Grouping and placement then touch candidates only, each at most once, and
   leave a candidate in one of three ways: not grouped, put back, or sent out under a dispatch
   (`Placement`). `schedule_spec` puts the passes together; `schedule_steps` reads the tick as
   micro steps. -/
namespace DecodeFabric
open Lib Table List SequenceState DecodeFabric.Seq
variable {c : Candidate} {s t : Fabric} {I : Fabric → Prop} {g : Formed} {x : Seq} {q : SequenceId} {tn : TimePoint}

/-! The first two passes. -/

namespace Seq

def boundary (tn : TimePoint) (x : Seq) : Seq :=
  if x.machine.isTerminal then x
  else
    let y := if x.deadlineReached tn then SeqOp.apply (.retire .deadlineExpired) x else x
    if y.machine = .cancelRequested then SeqOp.apply (.retire .cancelled) y else y

/-- A candidate whose budget is used up takes the road to Completed. -/
def collected (x : Seq) : Seq :=
  if x.machine.isCandidate ∧ x.budget.exhausted then SeqOp.apply (.retire .completed) x else x

/-- The sequence as grouping finds it. -/
def polled (tn : TimePoint) (x : Seq) : Seq := (x.boundary tn).collected

/-- Polling keeps what its three retirements keep; only a candidate is retired as completed. -/
theorem polled_kept {P : Seq → Prop} (hexpire : ∀ y, P y → P (SeqOp.apply (.retire .deadlineExpired) y))
    (hcancel : ∀ y, P y → P (SeqOp.apply (.retire .cancelled) y))
    (hcomplete : ∀ y, y.machine.isCandidate = true → P y → P (SeqOp.apply (.retire .completed) y))
    (tn : TimePoint) (h : P x) : P (x.polled tn) := by
  have hboundary : P (x.boundary tn) := by
    unfold boundary
    split
    · exact h
    · simp only
      generalize hy : (if x.deadlineReached tn = true then SeqOp.apply (.retire .deadlineExpired) x else x) = y
      have hexpired : P y := by
        rw [← hy]
        split
        · exact hexpire x h
        · exact h
      split
      · exact hcancel y hexpired
      · exact hexpired
  unfold polled collected
  split
  · next hc => exact hcomplete _ hc.1 hboundary
  · exact hboundary

/-- Polling changes lifecycle and reservation only. -/
theorem polled_shape (x : Seq) (tn : TimePoint) :
    ∃ st res, x.polled tn = { x with machine := st, reservation := res } := by
  have hretire : ∀ st y, (∃ st' res, y = { x with machine := st', reservation := res }) →
      ∃ st' res, SeqOp.apply (.retire st) y = { x with machine := st', reservation := res } := by
    rintro st _ ⟨st', res, rfl⟩
    exact ⟨_, _, rfl⟩
  exact polled_kept (P := fun y => ∃ st res, y = { x with machine := st, reservation := res })
    (hretire _) (hretire _) (fun y _ => hretire _ y) tn ⟨_, _, rfl⟩

end Seq

namespace Fabric
variable (s : Fabric)

theorem expireAt_seqs (tn : TimePoint) (q : SequenceId) (x : Seq) : (s.expireAt tn q x).seqs =
      s.seqs.modify q (if x.deadlineReached tn then SeqOp.apply (.retire .deadlineExpired) else id) := by
  unfold expireAt
  split
  · exact s.release_retire_seqs q x _ _
  · rw [Table.modify_id]

theorem cancelIfRequested_seqs (q : SequenceId) (x : Seq) : (s.cancelIfRequested q x).seqs =
      s.seqs.modify q (if x.machine = .cancelRequested then SeqOp.apply (.retire .cancelled) else id) := by
  unfold cancelIfRequested
  split
  · exact s.release_retire_seqs q x _ _
  · rw [Table.modify_id]

theorem boundarySeq_seqs (tn : TimePoint) (q : SequenceId) :
    (boundarySeq tn s q).seqs = s.seqs.modify q (boundary tn) := by
  unfold boundarySeq
  cases hq : s.seqs.find? q with
  | none => exact (modify_of_none hq _).symm
  | some x =>
    have hfind : (s.expireAt tn q x).seqs.find? q =
        some (if x.deadlineReached tn then SeqOp.apply (.retire .deadlineExpired) x else x) := by
      rw [expireAt_seqs, find?_modify_self, hq]
      split <;> rfl
    simp only [hfind]
    split
    · next ht =>
      refine (modify_eq_self hq ?_).symm
      simp only [boundary, ht, if_true]
    · next ht =>
      rw [cancelIfRequested_seqs, expireAt_seqs, modify_modify]
      refine modify_congr_at hq ?_
      simp only [boundary, ht, Bool.false_eq_true, if_false, Function.comp]
      cases x.deadlineReached tn with
      | true =>
        simp only [if_true]
        split <;> rfl
      | false =>
        simp only [Bool.false_eq_true, if_false, id]
        split <;> rfl

/-- After the first pass every sequence is as `Seq.boundary` leaves it. -/
theorem boundaryPass_find? (tn : TimePoint) (q : SequenceId) :
    (s.boundaryPass tn).seqs.find? q = (s.seqs.find? q).map (boundary tn) := by
  rw [← find?_modify_all]
  congr 1
  unfold boundaryPass
  generalize s.seqs.keys = l
  induction l generalizing s with
  | nil => rfl
  | cons j l ih => rw [foldl_cons, foldl_cons, ih, boundarySeq_seqs]

/-- A sequence past its deadline does not stay in CancelRequested. -/
theorem expired_not_cancelling (x : Seq) : (SeqOp.apply (.retire .deadlineExpired) x).machine ≠ .cancelRequested := by
  change x.machine.move .deadlineExpired ≠ .cancelRequested
  rw [move_eq]
  split
  · exact nofun
  · next hno => exact fun hreq => hno (by rw [hreq]; rfl)

/-- `advance` leaves a sequence as the first pass of `schedule` does: an expired sequence asks for no cancellation. -/
theorem advanceSeq_seqs (tn : TimePoint) (q : SequenceId) :
    (advanceSeq tn s q).seqs = s.seqs.modify q (boundary tn) := by
  unfold advanceSeq
  cases hq : s.seqs.find? q with
  | none => exact (modify_of_none hq _).symm
  | some x =>
    simp only
    split
    · next ht => exact (modify_eq_self hq (by simp [boundary, ht])).symm
    · next ht =>
      split
      · next hd =>
        rw [recordEvent_seqs, release_retire_seqs]
        refine modify_congr_at hq ?_
        simp only [boundary, ht, hd, if_true, expired_not_cancelling x, if_false, Bool.false_eq_true]
      · next hd =>
        split
        · next hcan =>
          rw [recordEvent_seqs, release_retire_seqs]
          refine modify_congr_at hq ?_
          unfold boundary
          simp only [ht, hd, Bool.false_eq_true, if_false]
          rw [if_pos hcan]
        · next hcan => exact (modify_eq_self hq (by simp [boundary, ht, hd, hcan])).symm

theorem advance_find? (tn : TimePoint) (q : SequenceId) :
    (s.advance tn).1.seqs.find? q = (s.seqs.find? q).map (boundary tn) := by
  rw [← find?_modify_all]
  congr 1
  unfold advance
  generalize s.seqs.keys = l
  induction l generalizing s with
  | nil => rfl
  | cons j l ih => rw [foldl_cons, foldl_cons, ih, advanceSeq_seqs]

theorem completeExhausted_seqs (q : SequenceId) (x : Seq) :
    (s.completeExhausted q x).seqs = s.seqs.modify q (SeqOp.apply (.retire .completed)) := by
  unfold completeExhausted
  simp only [recordEvent_seqs, modifySeq_seqs, releaseReservation_seqs, modify_modify]
  rfl

theorem completeExhausted_books (q : SequenceId) (x : Seq) : (s.completeExhausted q x).books = s.books :=
  s.releaseReservation_books q

/-! Candidates. -/

/-- What the candidate loop makes of sequence `q`. -/
def candidateAt (tn : TimePoint) (q : SequenceId) : Option Candidate :=
  match s.seqs.find? q with
  | none => none
  | some x =>
    if x.machine.isCandidate && !x.budget.exhausted && (s.keyForModel x.req).valid then
      some ⟨q, s.keyForModel x.req, s.cfg.score x tn⟩
    else none

theorem releaseReservation_workers (q : SequenceId) : (s.releaseReservation q).workers = s.workers := by
  unfold releaseReservation freeReservation
  split
  · rfl
  · split
    · rfl
    · split
      · rfl
      · split <;> rfl

theorem completeExhausted_workers (q : SequenceId) (x : Seq) : (s.completeExhausted q x).workers = s.workers :=
  s.releaseReservation_workers q

theorem keyForModel_of_workers {s : Fabric} (h : t.workers = s.workers) (req : DecodeRequest) :
    t.keyForModel req = s.keyForModel req := by
  unfold keyForModel
  rw [h]

/-- One turn of the candidate loop: the sequence changes by `Seq.collected`, a candidate is appended,
    workers and books stay. -/
theorem collectSeq_spec (tn : TimePoint) (cands : List Candidate) (q : SequenceId) :
    (collectSeq tn (s, cands) q).1.seqs = s.seqs.modify q collected ∧
    (collectSeq tn (s, cands) q).2 = cands ++ (s.candidateAt tn q).toList ∧
    (collectSeq tn (s, cands) q).1.workers = s.workers ∧
    (collectSeq tn (s, cands) q).1.books = s.books := by
  unfold collectSeq candidateAt
  cases hq : s.seqs.find? q with
  | none => exact ⟨(modify_of_none hq _).symm, by simp, rfl, rfl⟩
  | some x =>
    have same : x.collected = x → s.seqs = s.seqs.modify q collected :=
      fun hx => (modify_eq_self hq hx).symm
    simp only
    split
    · next hc =>
      simp only [Bool.not_eq_eq_eq_not, Bool.not_true] at hc
      exact ⟨same (by simp [collected, hc]), by simp [hc], rfl, rfl⟩
    · next hc =>
      simp only [Bool.not_eq_eq_eq_not, Bool.not_true, Bool.not_eq_false] at hc
      split
      · next he =>
        refine ⟨?_, by simp [he], s.completeExhausted_workers q x, s.completeExhausted_books q x⟩
        rw [completeExhausted_seqs]
        refine modify_congr_at hq ?_
        simp only [collected, hc, he, and_self, if_true]
      · next he =>
        have hx : x.collected = x := by simp [collected, he]
        split
        · next hv =>
          simp only [Bool.not_eq_eq_eq_not, Bool.not_true] at hv
          exact ⟨same hx, by simp [hv], rfl, rfl⟩
        · next hv =>
          simp only [Bool.not_eq_eq_eq_not, Bool.not_true, Bool.not_eq_false] at hv
          exact ⟨same hx, by simp [hc, he, hv], rfl, rfl⟩

theorem candidateAt_congr {s : Fabric} (hq : t.seqs.find? q = s.seqs.find? q)
    (hw : t.workers = s.workers) (hb : t.books = s.books) (tn : TimePoint) :
    t.candidateAt tn q = s.candidateAt tn q := by
  unfold candidateAt
  rw [hq, cfg_of_books hb]
  simp only [keyForModel_of_workers hw]

/-- The candidate loop over distinct keys, from a state that agrees with `s` on them. -/
theorem collect_foldl {s : Fabric} (tn : TimePoint) : ∀ {l : List SequenceId}, l.Nodup →
    ∀ {t : Fabric} (cands : List Candidate), (∀ q ∈ l, t.seqs.find? q = s.seqs.find? q) →
      t.workers = s.workers → t.books = s.books →
    (l.foldl (collectSeq tn) (t, cands)).1.seqs = l.foldl (fun u j => u.modify j collected) t.seqs ∧
    (l.foldl (collectSeq tn) (t, cands)).2 = cands ++ l.filterMap (s.candidateAt tn) ∧
    (l.foldl (collectSeq tn) (t, cands)).1.workers = s.workers ∧
    (l.foldl (collectSeq tn) (t, cands)).1.books = s.books
  | [], _, t, cands, _, hw, hb => by simp [hw, hb]
  | q :: l, hl, t, cands, hag, hw, hb => by
    obtain ⟨hql, hl⟩ := nodup_cons.mp hl
    obtain ⟨hseqs, hc, hw', hb'⟩ := t.collectSeq_spec tn cands q
    have hcand : t.candidateAt tn q = s.candidateAt tn q :=
      candidateAt_congr (hag q mem_cons_self) hw hb tn
    -- the keys still to come are other keys
    have hrest : ∀ j ∈ l, (collectSeq tn (t, cands) q).1.seqs.find? j = s.seqs.find? j := by
      intro j hj
      have hne : j ≠ q := fun h => hql (h ▸ hj)
      rw [hseqs, find?_modify_ne hne]
      exact hag j (mem_cons_of_mem _ hj)
    have ih := collect_foldl tn hl (t := (collectSeq tn (t, cands) q).1) (collectSeq tn (t, cands) q).2 hrest
      (hw'.trans hw) (hb'.trans hb)
    rw [foldl_cons, foldl_cons, ← hseqs]
    refine ⟨ih.1, ?_, ih.2.2.1, ih.2.2.2⟩
    rw [ih.2.1, hc, hcand, append_assoc]
    congr 1
    cases hs : s.candidateAt tn q <;> simp [hs]

theorem collectPass_find? (tn : TimePoint) (q : SequenceId) :
    (s.collectPass tn).1.seqs.find? q = (s.seqs.find? q).map collected := by
  unfold collectPass
  rw [(collect_foldl tn s.seqs.keys_nodup [] (fun _ _ => rfl) rfl rfl).1, find?_modify_all]

theorem collectPass_candidates (tn : TimePoint) : (s.collectPass tn).2 = s.seqs.keys.filterMap (s.candidateAt tn) := by
  unfold collectPass
  rw [(collect_foldl tn s.seqs.keys_nodup [] (fun _ _ => rfl) rfl rfl).2.1, nil_append]

/-- The sequence of a candidate is one the loop passed over unchanged: a candidate with budget left. -/
theorem collectPass_mem (hc : c ∈ (s.collectPass tn).2) :
    ∃ x, s.seqs.find? c.seq = some x ∧ x.machine.isCandidate = true ∧ x.budget.exhausted = false ∧
      c.key = s.keyForModel x.req ∧ c.key.valid = true := by
  rw [collectPass_candidates, mem_filterMap] at hc
  obtain ⟨q, -, hc⟩ := hc
  unfold candidateAt at hc
  split at hc
  · cases hc
  · next x hq =>
    split at hc
    · next h =>
      cases hc
      simp only [Bool.and_eq_true, Bool.not_eq_true'] at h
      exact ⟨x, hq, h.1.1, h.1.2, rfl, h.2⟩
    · cases hc

theorem candidateAt_seq (h : s.candidateAt tn q = some c) : c.seq = q := by
  unfold candidateAt at h
  split at h
  · cases h
  · split at h
    · cases h; rfl
    · cases h

/-- No sequence is a candidate twice. -/
theorem collectPass_nodup (tn : TimePoint) : ((s.collectPass tn).2.map Candidate.seq).Nodup := by
  rw [collectPass_candidates, map_filterMap]
  refine s.seqs.keys_nodup.filterMap ?_
  intro a a' b hb hb'
  simp only [Option.mem_def, Option.map_eq_some_iff] at hb hb'
  obtain ⟨c, hc, rfl⟩ := hb
  obtain ⟨c', hc', hcc⟩ := hb'
  rw [← s.candidateAt_seq hc, ← s.candidateAt_seq hc', hcc]

/-! Group formation. -/

/-- The sequences grouped so far. -/
def Forming.grouped (f : Forming) : List SequenceId := f.formed.flatMap Formed.members

theorem flatMap_set_perm (q : SequenceId) : ∀ {l : List Formed} {i : Nat} {g : Formed}, l[i]? = some g →
    ((l.set i { g with members := g.members ++ [q] }).flatMap Formed.members).Perm
      (q :: l.flatMap Formed.members)
  | [], i, g, h => by simp at h
  | a :: l, 0, g, h => by
    simp only [getElem?_cons_zero, Option.some.injEq] at h
    subst h
    simp only [set_cons_zero, flatMap_cons, append_assoc]
    exact perm_middle
  | a :: l, i + 1, g, h => by
    simp only [getElem?_cons_succ] at h
    simp only [set_cons_succ, flatMap_cons]
    exact ((flatMap_set_perm q h).append_left _).trans perm_middle

/-- Opening a group adds no member and touches no sequence. -/
theorem Forming.open_spec (f : Forming) (key : CompatibilityKey) :
    (f.open key).1.fabric = f.fabric ∧ (f.open key).1.grouped = f.grouped := by
  unfold Forming.open
  split
  · exact ⟨rfl, rfl⟩
  · exact ⟨rfl, by simp [grouped]⟩

/-- Where formation stands after the candidates `done`, from the fabric `s`: what has been grouped was
    among them, once each, and the grouped sequences alone have changed. -/
structure FormingInv (tn : TimePoint) (done : List SequenceId) (f : Forming) : Prop where
  subset : ∀ q ∈ f.grouped, q ∈ done
  nodup : f.grouped.Nodup
  seqs : ∀ q, f.fabric.seqs.find? q =
    if q ∈ f.grouped then (s.seqs.find? q).map (enterGroup tn) else s.seqs.find? q
  books : f.fabric.books = s.books
  workers : f.fabric.workers = s.workers

theorem formStep_inv {s : Fabric} {done : List SequenceId} {f : Forming}
    (hf : FormingInv s tn done f) (hc : c.seq ∉ done) : FormingInv s tn (done ++ [c.seq]) (formStep tn f c) := by
  obtain ⟨hfab, hgr⟩ := f.open_spec c.key
  have hopen : FormingInv s tn (done ++ [c.seq]) (f.open c.key).1 := by
    refine ⟨?_, ?_, ?_, ?_, ?_⟩
    · intro q hq
      rw [hgr] at hq
      exact mem_append_left _ (hf.subset q hq)
    · rw [hgr]; exact hf.nodup
    · rw [hgr, hfab]; exact hf.seqs
    · rw [hfab]; exact hf.books
    · rw [hfab]; exact hf.workers
  unfold formStep
  simp only
  split
  · next x g hx hg =>
    split
    · exact hopen
    · -- the candidate joins the group
      have hperm := flatMap_set_perm c.seq hg
      have hnew : c.seq ∉ (f.open c.key).1.grouped := by
        rw [hgr]
        exact fun h => hc (hf.subset _ h)
      refine ⟨?_, ?_, ?_, hopen.books, hopen.workers⟩
      · intro q hq
        rcases mem_cons.mp (hperm.mem_iff.mp hq) with rfl | hq
        · simp
        · exact hopen.subset q hq
      · exact hperm.nodup_iff.mpr (nodup_cons.mpr ⟨hnew, hopen.nodup⟩)
      · intro q
        have hmem : q ∈ Forming.grouped
            { (f.open c.key).1 with
              fabric := (f.open c.key).1.fabric.modifySeq c.seq (enterGroup tn)
              formed := (f.open c.key).1.formed.set (f.open c.key).2
                { g with members := g.members ++ [c.seq] } } ↔ q = c.seq ∨ q ∈ (f.open c.key).1.grouped := by
          rw [← mem_cons]
          exact hperm.mem_iff
        rw [modifySeq_seqs, find?_modify, hopen.seqs]
        by_cases hqc : q = c.seq
        · subst hqc
          rw [if_pos rfl, if_neg hnew, if_pos (hmem.mpr (.inl rfl))]
        · rw [if_neg hqc]
          simp only [hmem, hqc, false_or]
  · exact hopen

theorem formStep_foldl_inv {s : Fabric} {tn : TimePoint} : ∀ {l : List Candidate} {done : List SequenceId}
    {f : Forming}, FormingInv s tn done f → (done ++ l.map Candidate.seq).Nodup →
    FormingInv s tn (done ++ l.map Candidate.seq) (l.foldl (formStep tn) f)
  | [], done, f, hf, _ => by simpa using hf
  | c :: l, done, f, hf, hn => by
    rw [map_cons, ← singleton_append, ← append_assoc] at hn ⊢
    have hc : c.seq ∉ done := by
      have h := (nodup_append.mp (nodup_append.mp hn).1).2.2
      exact fun hd => h _ hd _ (mem_singleton.mpr rfl) rfl
    exact formStep_foldl_inv (formStep_inv hf hc) hn

/-- Formation groups candidates only, each at most once. -/
theorem formPass_inv (tn : TimePoint) {cands : List Candidate} (hn : (cands.map Candidate.seq).Nodup) :
    FormingInv s tn (cands.map Candidate.seq) (s.formPass tn cands) := by
  have hperm : ((cands.insertionSort Candidate.before).map Candidate.seq).Perm (cands.map Candidate.seq) :=
    (perm_insertionSort Candidate.before cands).map Candidate.seq
  have h0 : FormingInv s tn [] { fabric := s } :=
    ⟨by simp [Forming.grouped], by simp [Forming.grouped], by simp [Forming.grouped], rfl, rfl⟩
  have hf := formStep_foldl_inv h0 (l := cands.insertionSort Candidate.before)
    (by rw [nil_append]; exact hperm.nodup_iff.mpr hn)
  rw [nil_append] at hf
  exact ⟨fun q hq => hperm.mem_iff.mp (hf.subset q hq), hf.nodup, hf.seqs, hf.books, hf.workers⟩

/-! Placement. -/

theorem ungroup_seqs (members : List SequenceId) :
    (s.ungroup members).seqs = members.foldl (fun u j => u.modify j (moveTo .ready)) s.seqs := by
  unfold ungroup
  induction members generalizing s with
  | nil => rfl
  | cons m l ih => rw [foldl_cons, foldl_cons, ih]; rfl

theorem ungroup_books (members : List SequenceId) : (s.ungroup members).books = s.books := by
  unfold ungroup
  induction members generalizing s with
  | nil => rfl
  | cons m l ih => rw [foldl_cons, ih]; rfl

/-- The description of member `m` sent to the worker. -/
def specOf (m : SequenceId) : DecodeMemberSpec :=
  match s.seqs.find? m with
  | none => {}
  | some x => x.memberSpec m

theorem dispatchMember_seqs (d : Dispatch) (m : SequenceId) :
    (dispatchMember d s m).1.seqs = s.seqs.modify m (dispatchUnder d) := by
  unfold dispatchMember
  split
  · next hm => exact (modify_of_none hm _).symm
  · rfl

theorem dispatchMember_books (d : Dispatch) (m : SequenceId) : (dispatchMember d s m).1.books = s.books := by
  unfold dispatchMember
  split <;> rfl

theorem dispatchMember_spec (d : Dispatch) (m : SequenceId) : (dispatchMember d s m).2 = s.specOf m := by
  unfold dispatchMember specOf
  cases s.seqs.find? m <;> rfl

/-- The members of a group are dispatched independently of each other. -/
theorem dispatchMember_scan {s : Fabric} {d : Dispatch} : ∀ {l : List SequenceId}, l.Nodup → ∀ {t : Fabric},
    (∀ m ∈ l, t.seqs.find? m = s.seqs.find? m) →
    (scan (dispatchMember d) t l).1.seqs = l.foldl (fun u j => u.modify j (dispatchUnder d)) t.seqs ∧
    (scan (dispatchMember d) t l).1.books = t.books ∧
    (scan (dispatchMember d) t l).2 = l.map s.specOf
  | [], _, t, _ => ⟨rfl, rfl, rfl⟩
  | m :: l, hl, t, hag => by
    obtain ⟨hml, hl⟩ := nodup_cons.mp hl
    have hrest : ∀ j ∈ l, (dispatchMember d t m).1.seqs.find? j = s.seqs.find? j := by
      intro j hj
      have hne : j ≠ m := fun h => hml (h ▸ hj)
      rw [dispatchMember_seqs, find?_modify_ne hne]
      exact hag j (mem_cons_of_mem _ hj)
    obtain ⟨hseqs, hbooks, hspecs⟩ := dispatchMember_scan hl hrest
    have hspec : t.specOf m = s.specOf m := by
      unfold specOf
      rw [hag m mem_cons_self]
    refine ⟨?_, hbooks.trans (t.dispatchMember_books d m), ?_⟩
    · rw [foldl_cons, ← dispatchMember_seqs]
      exact hseqs
    · rw [map_cons, ← hspecs, ← hspec, ← dispatchMember_spec]
      rfl

/-- What became of group `g`, from `s` to `t`, and the dispatches it added. -/
inductive GroupFate (s : Fabric) (g : Formed) (t : Fabric) : List Dispatch → Prop
  | putBack :
      (∀ q, t.seqs.find? q =
        if q ∈ g.members then (s.seqs.find? q).map (moveTo .ready) else s.seqs.find? q) →
      t.books = s.books → GroupFate s g t []
  | sent (d : Dispatch) :
      (∀ q, t.seqs.find? q =
        if q ∈ g.members then (s.seqs.find? q).map (dispatchUnder d) else s.seqs.find? q) →
      t.books = { s.books with nextDispatch := s.nextDispatch + 1 } →
      d.id = s.nextDispatch → d.members = g.members.map s.specOf → GroupFate s g t [d]

theorem ungroup_find? {members : List SequenceId} (hn : members.Nodup) (q : SequenceId) :
    (s.ungroup members).seqs.find? q =
      if q ∈ members then (s.seqs.find? q).map (moveTo .ready) else s.seqs.find? q := by
  rw [ungroup_seqs, find?_foldl_modify _ hn]

theorem dispatchGroup_fate (tn : TimePoint) (wk : WorkerId) (w : WorkerDescriptor)
    (growth : UInt64) (hn : g.members.Nodup) :
    GroupFate s g (s.dispatchGroup tn g wk w growth).1 [(s.dispatchGroup tn g wk w growth).2] := by
  -- the reservation and the counters leave the sequences alone
  have hopen : (s.openDispatch tn g w growth).1.seqs = s.seqs := rfl
  obtain ⟨hseqs, hbooks, hspecs⟩ := dispatchMember_scan (s := s) (d := (s.openDispatch tn g w growth).2) hn
    (t := (s.openDispatch tn g w growth).1) (fun m _ => by rw [hopen])
  refine GroupFate.sent _ ?_ ?_ rfl hspecs
  · intro q
    have hfind := congrArg (fun u => u.find? q) hseqs
    simp only [find?_foldl_modify _ hn, hopen] at hfind
    exact hfind
  · exact hbooks

theorem placeGroup_fate (tn : TimePoint) (out : List Dispatch) (hn : g.members.Nodup) :
    ∃ ds, (placeGroup tn (s, out) g).2 = out ++ ds ∧ GroupFate s g (placeGroup tn (s, out) g).1 ds := by
  unfold placeGroup
  split
  · next he => exact ⟨[], by simp, GroupFate.putBack (by simp [he]) rfl⟩
  · split
    · exact ⟨[], by simp, GroupFate.putBack (s.ungroup_find? hn) (s.ungroup_books _)⟩
    · next wk w _ =>
      simp only
      split
      · exact ⟨[], by simp, GroupFate.putBack (s.ungroup_find? hn) (s.ungroup_books _)⟩
      · exact ⟨_, rfl, s.dispatchGroup_fate tn wk w _ hn⟩

/-- From `s` to `t` the grouped sequences `members` were placed: those in `sent` went out with the
    dispatches `ds`, the others were put back. -/
structure Placement (s : Fabric) (members : List SequenceId) (t : Fabric) (ds : List Dispatch)
    (sent : List SequenceId) : Prop where
  sub : sent.Sublist members
  emitted : ds.flatMap Dispatch.members = sent.map s.specOf
  others : ∀ q, q ∉ members → t.seqs.find? q = s.seqs.find? q
  putBack : ∀ q ∈ members, q ∉ sent → t.seqs.find? q = (s.seqs.find? q).map (moveTo .ready)
  dispatched : ∀ q ∈ sent, ∃ d ∈ ds, t.seqs.find? q = (s.seqs.find? q).map (dispatchUnder d)
  ids : ∀ d ∈ ds, s.nextDispatch ≤ d.id ∧ t.nextDispatch > d.id
  books : t.books = { s.books with nextDispatch := t.nextDispatch }
  count : t.nextDispatch = s.nextDispatch + ds.length

theorem Placement.ofFate {s : Fabric} {ds : List Dispatch} (h : GroupFate s g t ds) :
    ∃ sent, Placement s g.members t ds sent := by
  cases h with
  | putBack hseqs hbooks =>
    have hnext : t.nextDispatch = s.nextDispatch := congrArg Books.nextDispatch hbooks
    refine ⟨[], nil_sublist _, rfl, ?_, ?_, by simp, by simp, ?_, by simp [hnext]⟩
    · intro q hq
      rw [hseqs, if_neg hq]
    · intro q hq _
      rw [hseqs, if_pos hq]
    · rw [hbooks, hnext]
      rfl
  | sent d hseqs hbooks hid hmem =>
    have hnext : t.nextDispatch = s.nextDispatch + 1 := congrArg Books.nextDispatch hbooks
    refine ⟨g.members, List.Sublist.refl _, by simp [hmem], ?_, ?_, ?_, ?_, ?_, by simp [hnext]⟩
    · intro q hq
      rw [hseqs, if_neg hq]
    · intro q hq hq'
      exact absurd hq hq'
    · intro q hq
      exact ⟨d, mem_singleton.mpr rfl, by rw [hseqs, if_pos hq]⟩
    · intro d' hd'
      rw [mem_singleton.mp hd', hid, hnext]
      omega
    · rw [hbooks, hnext]

/-- Placements of disjoint groups add up. -/
theorem Placement.append {s u : Fabric} {ms₁ ms₂ sent₁ sent₂ : List SequenceId} {ds₁ ds₂ : List Dispatch}
    (h₁ : Placement s ms₁ t ds₁ sent₁) (h₂ : Placement t ms₂ u ds₂ sent₂) (hdis : ms₁.Disjoint ms₂) :
    Placement s (ms₁ ++ ms₂) u (ds₁ ++ ds₂) (sent₁ ++ sent₂) := by
  have hst : ∀ q ∈ ms₂, t.seqs.find? q = s.seqs.find? q := fun q hq => h₁.others q (fun h => hdis h hq)
  have htu : ∀ q ∈ ms₁, u.seqs.find? q = t.seqs.find? q := fun q hq => h₂.others q (fun h => hdis hq h)
  refine
    { sub := h₁.sub.append h₂.sub, emitted := ?_, others := ?_, putBack := ?_, dispatched := ?_, ids := ?_
      books := ?_, count := ?_ }
  · rw [flatMap_append, map_append, h₁.emitted, h₂.emitted]
    congr 1
    apply map_congr_left
    intro q hq
    unfold specOf
    rw [hst q (h₂.sub.subset hq)]
  · intro q hq
    rw [mem_append, not_or] at hq
    rw [h₂.others q hq.2, h₁.others q hq.1]
  · intro q hq hsent
    rw [mem_append, not_or] at hsent
    rcases mem_append.mp hq with hq | hq
    · rw [htu q hq, h₁.putBack q hq hsent.1]
    · rw [h₂.putBack q hq hsent.2, hst q hq]
  · intro q hq
    rcases mem_append.mp hq with hq | hq
    · obtain ⟨d, hd, hfind⟩ := h₁.dispatched q hq
      exact ⟨d, mem_append_left _ hd, by rw [htu q (h₁.sub.subset hq), hfind]⟩
    · obtain ⟨d, hd, hfind⟩ := h₂.dispatched q hq
      exact ⟨d, mem_append_right _ hd, by rw [hfind, hst q (h₂.sub.subset hq)]⟩
  · intro d hd
    have hc₁ := h₁.count
    have hc₂ := h₂.count
    rcases mem_append.mp hd with hd | hd
    · have := h₁.ids d hd
      omega
    · have := h₂.ids d hd
      omega
  · rw [h₂.books, h₁.books]
  · rw [h₂.count, h₁.count, length_append]
    omega

theorem placeGroup_foldl (tn : TimePoint) : ∀ (gs : List Formed), (gs.flatMap Formed.members).Nodup →
    ∀ (s : Fabric) (out : List Dispatch), ∃ ds sent, (gs.foldl (placeGroup tn) (s, out)).2 = out ++ ds ∧
      Placement s (gs.flatMap Formed.members) (gs.foldl (placeGroup tn) (s, out)).1 ds sent
  | [], _, s, out =>
    ⟨[], [], by simp, List.Sublist.refl _, rfl, fun _ _ => rfl, by simp, by simp, by simp, rfl, rfl⟩
  | g :: gs, hn, s, out => by
    rw [flatMap_cons, nodup_append'] at hn
    obtain ⟨hg, hgs, hdis⟩ := hn
    obtain ⟨ds₁, hout, hfate⟩ := s.placeGroup_fate tn out hg
    obtain ⟨sent₁, h₁⟩ := Placement.ofFate hfate
    obtain ⟨ds₂, sent₂, hout₂, h₂⟩ := placeGroup_foldl tn gs hgs (placeGroup tn (s, out) g).1
      (placeGroup tn (s, out) g).2
    refine ⟨ds₁ ++ ds₂, sent₁ ++ sent₂, ?_, h₁.append h₂ hdis⟩
    rw [foldl_cons, hout₂, hout, append_assoc]

end Fabric

/-! A sequence that is still a candidate with budget after the first two passes was not touched by them. -/

namespace Seq

/-- Every candidate state has an edge to DeadlineExpired. -/
theorem move_deadlineExpired_isCandidate (st : SequenceState) : (st.move .deadlineExpired).isCandidate = false := by
  cases st <;> rfl

theorem boundary_candidate (h : (x.boundary tn).machine.isCandidate = true) :
    x.boundary tn = x ∧ x.deadlineReached tn = false := by
  unfold boundary at h ⊢
  cases ht : x.machine.isTerminal with
  | true =>
    simp only [ht, if_true] at h
    rw [live_of_isCandidate h] at ht
    cases ht
  | false =>
    simp only [ht, Bool.false_eq_true, if_false] at h ⊢
    cases hd : x.deadlineReached tn with
    | true =>
      simp only [hd, if_true] at h
      split at h
      · next hc =>
        have hst : ((SeqOp.retire .cancelled).apply ((SeqOp.retire .deadlineExpired).apply x)).machine =
            cancelRequested.move .cancelled := congrArg (fun st => st.move .cancelled) hc
        rw [hst] at h
        cases h
      · rw [show ((SeqOp.retire .deadlineExpired).apply x).machine = x.machine.move .deadlineExpired from rfl,
          move_deadlineExpired_isCandidate] at h
        cases h
    | false =>
      simp only [hd, Bool.false_eq_true, if_false] at h ⊢
      split at h
      · next hc =>
        have hst : ((SeqOp.retire .cancelled).apply x).machine = cancelRequested.move .cancelled :=
          congrArg (fun st => st.move .cancelled) hc
        rw [hst] at h
        cases h
      · next hc => exact ⟨if_neg hc, trivial⟩

theorem polled_candidate (hc : (x.boundary tn).machine.isCandidate = true)
    (he : (x.boundary tn).budget.exhausted = false) : x.polled tn = x ∧ x.deadlineReached tn = false := by
  obtain ⟨hx, hd⟩ := boundary_candidate hc
  refine ⟨?_, hd⟩
  rw [hx] at he
  unfold polled
  rw [hx]
  simp [collected, he]

end Seq

namespace Fabric
variable (s : Fabric)

/-- What a scheduling tick does: the sequences in `sent` go out, once each, in the dispatches `out`. -/
structure Ticked (s : Fabric) (tn : TimePoint) (t : Fabric) (out : List Dispatch) (sent : List SequenceId) :
    Prop where
  nodup : sent.Nodup
  emitted : out.flatMap Dispatch.members = sent.map s.specOf
  absent : ∀ q, s.seqs.find? q = none → t.seqs.find? q = none
  dispatched : ∀ q ∈ sent, ∃ x, s.seqs.find? q = some x ∧ x.machine.isCandidate = true ∧
    x.budget.exhausted = false ∧ x.deadlineReached tn = false ∧
    ∃ d ∈ out, t.seqs.find? q = some (x.sent tn d)
  stayed : ∀ q x, s.seqs.find? q = some x → q ∉ sent →
    t.seqs.find? q = some (x.polled tn) ∨
    (x.machine.isCandidate = true ∧ x.budget.exhausted = false ∧
      t.seqs.find? q = some ((x.enterGroup tn).moveTo .ready))
  ids : ∀ d ∈ out, s.nextDispatch ≤ d.id ∧ t.nextDispatch > d.id
  books : t.books = { s.books with nextDispatch := t.nextDispatch }
  count : t.nextDispatch = s.nextDispatch + out.length

theorem Ticked.nextGrant {s : Fabric} {out : List Dispatch} {sent : List SequenceId}
    (h : Ticked s tn t out sent) : t.nextGrant = s.nextGrant := congrArg Books.nextGrant h.books

/-- What the two retirements of the deadline pass keep, a turn of it keeps. -/
theorem boundarySeq_kept
    (hexpire : ∀ t x, I t → I ((t.releaseReservation q).retire q x .deadlineExpired Stats.countExpired))
    (hcancel : ∀ t x, I t → I ((t.releaseReservation q).retire q x .cancelled Stats.countCancelled)) (h : I s) :
    I (boundarySeq tn s q) := by
  have hexp : ∀ x, I (s.expireAt tn q x) := by
    intro x
    unfold expireAt
    split
    · exact hexpire s x h
    · exact h
  unfold boundarySeq
  split
  · exact h
  · split
    · exact h
    · simp only
      split
      · exact hexp _
      · unfold cancelIfRequested
        split
        · exact hcancel _ _ (hexp _)
        · exact hexp _

theorem boundarySeq_books (tn : TimePoint) (q : SequenceId) : (boundarySeq tn s q).books = s.books := by
  refine s.boundarySeq_kept (I := fun t => t.books = s.books) (fun t x h => ?_) (fun t x h => ?_) rfl
  · exact ((retire_books _ q x _ fun _ => ⟨rfl, rfl⟩).trans (t.releaseReservation_books q)).trans h
  · exact ((retire_books _ q x _ fun _ => ⟨rfl, rfl⟩).trans (t.releaseReservation_books q)).trans h

theorem boundaryPass_books (tn : TimePoint) : (s.boundaryPass tn).books = s.books :=
  foldl_invariant (I := fun t : Fabric => t.books = s.books)
    (fun p _ h => (p.1.boundarySeq_books tn p.2).trans h) rfl

theorem collectPass_books (tn : TimePoint) : (s.collectPass tn).1.books = s.books := by
  unfold collectPass
  exact (collect_foldl tn s.seqs.keys_nodup [] (fun _ _ => rfl) rfl rfl).2.2.2

/-- The first two passes. -/
abbrev poll (tn : TimePoint) : Fabric × List Candidate := (s.boundaryPass tn).collectPass tn

/-- The fabric `u` and the candidates after the first two passes over `s`. -/
structure Polled (s : Fabric) (tn : TimePoint) (u : Fabric) (cands : List Candidate) : Prop where
  seqs : ∀ q, u.seqs.find? q = (s.seqs.find? q).map (polled tn)
  books : u.books = s.books
  nodup : (cands.map Candidate.seq).Nodup
  candidate : ∀ q ∈ cands.map Candidate.seq, ∃ x, s.seqs.find? q = some x ∧ x.polled tn = x ∧
    x.machine.isCandidate = true ∧ x.budget.exhausted = false ∧ x.deadlineReached tn = false

theorem poll_spec (tn : TimePoint) : Polled s tn (s.poll tn).1 (s.poll tn).2 := by
  refine ⟨?_, ?_, collectPass_nodup _ tn, ?_⟩
  · intro q
    rw [collectPass_find?, boundaryPass_find?, Option.map_map]
    rfl
  · exact (collectPass_books _ tn).trans (s.boundaryPass_books tn)
  · intro q hq
    obtain ⟨c, hc, rfl⟩ := mem_map.mp hq
    obtain ⟨y, hy, hyc, hye, -⟩ := collectPass_mem _ hc
    rw [boundaryPass_find?, Option.map_eq_some_iff] at hy
    obtain ⟨x, hx, rfl⟩ := hy
    obtain ⟨hpol, hdl⟩ := polled_candidate hyc hye
    have hsame := (boundary_candidate hyc).1
    rw [hsame] at hyc hye
    exact ⟨x, hx, hpol, hyc, hye, hdl⟩

/-- The groups a tick forms, with the fabric as formation leaves it. -/
def formedAt (tn : TimePoint) : Forming := (s.poll tn).1.formPass tn (s.poll tn).2

theorem formedAt_inv (tn : TimePoint) : FormingInv (s.poll tn).1 tn ((s.poll tn).2.map Candidate.seq) (s.formedAt tn) :=
  formPass_inv _ tn (s.poll_spec tn).nodup

theorem formedAt_nodup (tn : TimePoint) : (s.formedAt tn).grouped.Nodup := (s.formedAt_inv tn).nodup

theorem formedAt_books (tn : TimePoint) : (s.formedAt tn).fabric.books = s.books :=
  (s.formedAt_inv tn).books.trans (s.poll_spec tn).books

/-- A grouped sequence was a candidate with budget and time left, and is `x.enterGroup tn` when placement finds it. -/
theorem formedAt_grouped (hq : q ∈ (s.formedAt tn).grouped) :
    ∃ x, s.seqs.find? q = some x ∧ x.machine.isCandidate = true ∧ x.budget.exhausted = false ∧
      x.deadlineReached tn = false ∧ (s.formedAt tn).fabric.seqs.find? q = some (x.enterGroup tn) := by
  have hpoll := s.poll_spec tn
  have hform := s.formedAt_inv tn
  obtain ⟨x, hx, hpol, hc, he, hd⟩ := hpoll.candidate q (hform.subset q hq)
  refine ⟨x, hx, hc, he, hd, ?_⟩
  rw [hform.seqs, if_pos hq, hpoll.seqs, hx, Option.map_some, Option.map_some, hpol]

theorem formedAt_others (hq : q ∉ (s.formedAt tn).grouped) :
    (s.formedAt tn).fabric.seqs.find? q = (s.seqs.find? q).map (polled tn) := by
  rw [(s.formedAt_inv tn).seqs, if_neg hq, (s.poll_spec tn).seqs]

/-- A tick places the groups it has formed. -/
theorem schedule_placement (tn : TimePoint) :
    ∃ sent, Placement (s.formedAt tn).fabric (s.formedAt tn).grouped (s.schedule tn).1 (s.schedule tn).2 sent := by
  obtain ⟨ds, sent, hout, hplace⟩ := placeGroup_foldl tn (s.formedAt tn).formed (s.formedAt_nodup tn)
    (s.formedAt tn).fabric []
  have hds : (s.schedule tn).2 = ds := hout
  rw [hds]
  exact ⟨sent, hplace⟩

/-- A sequence that is not grouped stays as the first two passes leave it. -/
theorem schedule_ungrouped (hq : q ∉ (s.formedAt tn).grouped) :
    (s.schedule tn).1.seqs.find? q = (s.seqs.find? q).map (polled tn) := by
  obtain ⟨sent, hplace⟩ := s.schedule_placement tn
  rw [hplace.others q hq, s.formedAt_others hq]

theorem schedule_spec (tn : TimePoint) : ∃ sent, Ticked s tn (s.schedule tn).1 (s.schedule tn).2 sent := by
  obtain ⟨sent, hplace⟩ := s.schedule_placement tn
  have hbooks := s.formedAt_books tn
  have hnext : (s.formedAt tn).fabric.nextDispatch = s.nextDispatch := congrArg Books.nextDispatch hbooks
  refine ⟨sent, hplace.sub.nodup (s.formedAt_nodup tn), ?_, ?_, ?_, ?_, ?_, ?_, ?_⟩
  · rw [hplace.emitted]
    apply map_congr_left
    intro q hq
    obtain ⟨x, hx, -, -, -, hfind⟩ := s.formedAt_grouped (hplace.sub.subset hq)
    -- grouping changes nothing a member is described by
    simp only [specOf, hfind, hx]
    rfl
  · intro q hq
    have hnot : q ∉ (s.formedAt tn).grouped := by
      intro hmem
      obtain ⟨x, hx, -⟩ := s.formedAt_grouped hmem
      rw [hq] at hx
      cases hx
    rw [s.schedule_ungrouped hnot, hq]
    rfl
  · intro q hq
    obtain ⟨x, hx, hc, he, hd, hfind⟩ := s.formedAt_grouped (hplace.sub.subset hq)
    obtain ⟨d, hmem, hres⟩ := hplace.dispatched q hq
    exact ⟨x, hx, hc, he, hd, d, hmem, by rw [hres, hfind]; rfl⟩
  · intro q x hx hsent
    by_cases hmem : q ∈ (s.formedAt tn).grouped
    · obtain ⟨y, hy, hc, he, -, hfind⟩ := s.formedAt_grouped hmem
      rw [hx] at hy
      cases hy
      exact .inr ⟨hc, he, by rw [hplace.putBack q hmem hsent, hfind]; rfl⟩
    · left
      rw [s.schedule_ungrouped hmem, hx]
      rfl
  · intro d hd
    have := hplace.ids d hd
    rw [hnext] at this
    exact this
  · rw [hplace.books, hbooks]
  · rw [hplace.count, hnext]

/-- No sequence is sent twice in a tick. -/
theorem schedule_nodup (tn : TimePoint) :
    (((s.schedule tn).2.flatMap Dispatch.members).map fun m => m.sequence).Nodup := by
  obtain ⟨sent, hticked⟩ := s.schedule_spec tn
  have hnames : (sent.map s.specOf).map (fun m => m.sequence) = sent := by
    rw [map_map]
    refine (map_congr_left fun q hq => ?_).trans (map_id sent)
    obtain ⟨x, hx, -⟩ := hticked.dispatched q hq
    simp only [Function.comp, specOf, hx]
    rfl
  rw [hticked.emitted, hnames]
  exact hticked.nodup

/-- A sequence whose deadline is reached is not grouped: the tick leaves it as the first two passes do. -/
theorem schedule_late (hx : s.seqs.find? q = some x)
    (hlate : x.deadlineReached tn = true) : (s.schedule tn).1.seqs.find? q = some (x.polled tn) := by
  have hnot : q ∉ (s.formedAt tn).grouped := by
    intro hmem
    obtain ⟨y, hy, -, -, hintime, -⟩ := s.formedAt_grouped hmem
    cases hx.symm.trans hy
    rw [hlate] at hintime
    cases hintime
  rw [s.schedule_ungrouped hnot, hx]
  rfl

/-! One sequence over a tick. -/

/-- What a tick that emits `out` makes of sequence `x`. -/
inductive TickedSeq (tn : TimePoint) (out : List Dispatch) (x : Seq) : Seq → Prop
  | polled : TickedSeq tn out x (x.polled tn)
  | putBack : x.machine.isCandidate = true → x.budget.exhausted = false →
      TickedSeq tn out x ((x.enterGroup tn).moveTo .ready)
  | sent (d : Dispatch) : d ∈ out → x.machine.isCandidate = true → x.budget.exhausted = false →
      TickedSeq tn out x (x.sent tn d)

namespace Ticked
variable {s t : Fabric} {tn : TimePoint} {out : List Dispatch} {sent : List SequenceId} {q : SequenceId}

theorem seq_after (h : Ticked s tn t out sent) (hx : s.seqs.find? q = some x) :
    ∃ y, t.seqs.find? q = some y ∧ TickedSeq tn out x y := by
  by_cases hsent : q ∈ sent
  · obtain ⟨x', hx', hc, he, -, d, hd, hres⟩ := h.dispatched q hsent
    cases hx.symm.trans hx'
    exact ⟨_, hres, .sent d hd hc he⟩
  · rcases h.stayed q x hx hsent with hres | ⟨hc, he, hres⟩
    · exact ⟨_, hres, .polled⟩
    · exact ⟨_, hres, .putBack hc he⟩

theorem seq_before {y : Seq} (h : Ticked s tn t out sent) (hy : t.seqs.find? q = some y) :
    ∃ x, s.seqs.find? q = some x ∧ TickedSeq tn out x y := by
  cases hx : s.seqs.find? q with
  | none =>
    rw [h.absent q hx] at hy
    cases hy
  | some x =>
    obtain ⟨y', hy', hxy⟩ := h.seq_after hx
    cases hy.symm.trans hy'
    exact ⟨x, rfl, hxy⟩

end Ticked

/-! The tick as micro steps. -/

theorem boundarySeq_steps (tn : TimePoint) (q : SequenceId) :
    Steps (Op.MayPerform (.schedule tn)) s (boundarySeq tn s q) := by
  refine s.boundarySeq_kept (I := Steps _ s) (fun t x h => ?_) (fun t x h => ?_) (.refl _ s)
  · exact h.trans (t.release_retire_steps q x .deadlineExpired (fun _ => ⟨rfl, rfl⟩) (.inl rfl))
  · exact h.trans (t.release_retire_steps q x .cancelled (fun _ => ⟨rfl, rfl⟩) (.inr (.inl rfl)))

theorem collectSeq_steps (tn : TimePoint) (cands : List Candidate) (q : SequenceId) :
    Steps (Op.MayPerform (.schedule tn)) s (collectSeq tn (s, cands) q).1 := by
  unfold collectSeq
  simp only
  split
  · exact .refl _ _
  · next x _ =>
    split
    · exact .refl _ _
    · split
      · exact .ofSeq (.retire .completed) (s.completeExhausted_seqs q x) (s.completeExhausted_books q x)
          (fun _ _ => trivial) (.inr (.inr (.inl rfl)))
      · split <;> exact .refl _ _

theorem formStep_steps (tn : TimePoint) (f : Forming) (c : Candidate) :
    Steps (Op.MayPerform (.schedule tn)) f.fabric (formStep tn f c).fabric := by
  obtain ⟨hfab, -⟩ := f.open_spec c.key
  rw [← hfab]
  unfold formStep
  simp only
  split
  · split
    · exact .refl _ _
    · exact .ofSeq (.enterGroup tn) rfl rfl (fun _ _ => trivial) (.inr (.inr (.inr (.inl rfl))))
  · exact .refl _ _

/-- The members of a list that are there have budget left. -/
def Unspent (members : List SequenceId) : Prop :=
  ∀ m ∈ members, ∀ x, s.seqs.find? m = some x → x.budget.exhausted = false

theorem ungroup_steps (tn : TimePoint) (members : List SequenceId) :
    Steps (Op.MayPerform (.schedule tn)) s (s.ungroup members) := by
  unfold ungroup
  refine .foldl (fun t m _ => ?_) s
  exact .ofSeq (q := m) (.moveTo .ready) rfl rfl (fun _ _ => trivial)
    (.inr (.inr (.inr (.inr (.inl rfl)))))

theorem dispatchMember_scan_steps {tn : TimePoint} {d : Dispatch} (hd : d.id ≠ 0) :
    ∀ {l : List SequenceId}, l.Nodup → ∀ {t : Fabric}, t.nextDispatch > d.id → t.Unspent l →
    Steps (Op.MayPerform (.schedule tn)) t (scan (dispatchMember d) t l).1
  | [], _, t, _, _ => .refl _ _
  | m :: l, hl, t, hlt, hun => by
    obtain ⟨hml, hl⟩ := nodup_cons.mp hl
    have hseqs := t.dispatchMember_seqs d m
    have hbooks := t.dispatchMember_books d m
    have hfirst : Steps (Op.MayPerform (.schedule tn)) t (dispatchMember d t m).1 :=
      .ofSeq (.dispatchUnder d) hseqs hbooks (fun x hx => ⟨hun m mem_cons_self x hx, hd, hlt⟩)
        (.inr (.inr (.inr (.inr (.inr ⟨d, rfl⟩)))))
    refine hfirst.trans (dispatchMember_scan_steps hd hl ?_ ?_)
    · rw [show (dispatchMember d t m).1.nextDispatch = t.nextDispatch from congrArg Books.nextDispatch hbooks]
      exact hlt
    · intro j hj x hx
      have hne : j ≠ m := fun h => hml (h ▸ hj)
      rw [hseqs, find?_modify_ne hne] at hx
      exact hun j (mem_cons_of_mem _ hj) x hx

theorem dispatchGroup_steps {wk : WorkerId} {w : WorkerDescriptor}
    {growth : UInt64} (hn : g.members.Nodup) (hun : s.Unspent g.members) (h0 : s.nextDispatch ≠ 0) :
    Steps (Op.MayPerform (.schedule tn)) s (s.dispatchGroup tn g wk w growth).1 := by
  have hopen : Steps (Op.MayPerform (.schedule tn)) s (s.openDispatch tn g w growth).1 :=
    .single (a := .takeDispatch) (.takeDispatch rfl rfl) trivial
  refine hopen.trans (.trans (dispatchMember_scan_steps (d := (s.openDispatch tn g w growth).2) h0 hn
    (Nat.lt_succ_self _) hun) (.quiet _ rfl rfl))

theorem placeGroup_steps (tn : TimePoint) (out : List Dispatch) (hn : g.members.Nodup)
    (hun : s.Unspent g.members) (h0 : s.nextDispatch ≠ 0) :
    Steps (Op.MayPerform (.schedule tn)) s (placeGroup tn (s, out) g).1 := by
  unfold placeGroup
  split
  · exact .refl _ _
  · split
    · exact s.ungroup_steps tn _
    · simp only
      split
      · exact (s.ungroup_steps tn _).trans (.quiet _ rfl rfl)
      · exact s.dispatchGroup_steps hn hun h0

theorem placeGroup_foldl_steps {tn : TimePoint} : ∀ {gs : List Formed}, (gs.flatMap Formed.members).Nodup →
    ∀ {s : Fabric} (out : List Dispatch), s.Unspent (gs.flatMap Formed.members) → s.nextDispatch ≠ 0 →
    Steps (Op.MayPerform (.schedule tn)) s (gs.foldl (placeGroup tn) (s, out)).1
  | [], _, s, out, _, _ => .refl _ _
  | g :: gs, hn, s, out, hun, h0 => by
    rw [flatMap_cons, nodup_append'] at hn
    obtain ⟨hg, hgs, hdis⟩ := hn
    obtain ⟨ds, -, hfate⟩ := s.placeGroup_fate tn out hg
    obtain ⟨sent, hplace⟩ := Placement.ofFate hfate
    have hfirst := s.placeGroup_steps tn out hg
      (fun m hm => hun m (by simp [hm])) h0
    refine hfirst.trans (placeGroup_foldl_steps hgs _ ?_ ?_)
    · intro m hm x hx
      rw [hplace.others m (fun h => hdis h hm)] at hx
      exact hun m (by rw [flatMap_cons]; exact mem_append_right _ hm) x hx
    · have := hplace.count
      omega

theorem formedAt_steps (tn : TimePoint) : Steps (Op.MayPerform (.schedule tn)) s (s.formedAt tn).fabric := by
  have hpoll : Steps (Op.MayPerform (.schedule tn)) s (s.poll tn).1 :=
    foldl_invariant (I := fun acc : Fabric × List Candidate => Steps (Op.MayPerform (.schedule tn)) s acc.1)
      (fun p _ hp => hp.trans (p.1.1.collectSeq_steps tn p.1.2 p.2)) (.foldl (fun t q _ => t.boundarySeq_steps tn q) s)
  exact foldl_invariant (I := fun f : Forming => Steps (Op.MayPerform (.schedule tn)) s f.fabric)
    (fun p _ hp => hp.trans (formStep_steps tn p.1 p.2)) hpoll

theorem schedule_steps (tn : TimePoint) (h0 : s.nextDispatch ≠ 0) :
    Steps (Op.MayPerform (.schedule tn)) s (s.schedule tn).1 := by
  have hpoll := s.poll_spec tn
  have hform := s.formedAt_inv tn
  refine (s.formedAt_steps tn).trans (placeGroup_foldl_steps hform.nodup [] ?_ ?_)
  · -- what was grouped is a candidate, and candidates have budget left
    intro q hq x hx
    obtain ⟨y, hy, hpol, -, he, -⟩ := hpoll.candidate q (hform.subset q hq)
    have hgrouped : q ∈ (s.formedAt tn).grouped := hq
    rw [hform.seqs, if_pos hgrouped, hpoll.seqs, hy, Option.map_some, hpol] at hx
    cases hx
    exact he
  · rw [show (s.formedAt tn).fabric.nextDispatch = s.nextDispatch from
      congrArg Books.nextDispatch (hform.books.trans hpoll.books)]
    exact h0

end Fabric

/-! All operations. -/

theorem unscheduled_steps (s : Fabric) {o : Op} (hs : ∀ tn, o ≠ .schedule tn) : Steps o.MayPerform s (s.exec o) := by
  cases o with
  | submit req => exact s.submit_steps req trivial
  | cancel q => exact s.cancel_steps q ⟨rfl, .inl rfl⟩ ⟨rfl, .inr rfl⟩
  | cancelRequest r =>
    simp only [Fabric.exec, Fabric.cancelRequest]
    split
    · exact .refl _ _
    · exact s.cancel_steps _ (.inl rfl) (.inr rfl)
  | retry q =>
    exact s.retry_steps q ⟨rfl, .inl rfl⟩ ⟨rfl, .inr (.inl rfl)⟩
      (fun _ => ⟨rfl, .inr (.inr ⟨_, _, rfl⟩)⟩)
  | registerWorker wd => exact s.registerWorker_steps wd
  | markWorkerDead id => exact s.markWorkerDead_steps id
  | rollEpoch => exact .single (a := .environment) (.environment (Table.Reorder.refl _) rfl) trivial
  | advance tn => exact .foldl (fun t q _ => t.advanceSeq_steps tn q) s
  | schedule tn => exact absurd rfl (hs tn)
  | applyCompletion result => exact .foldl (fun t mo _ => t.applyOutcome_mayPerform result mo) s
  | authorizePrepared prepared =>
    simp only [Fabric.exec, Fabric.authorizePrepared_eq_foldl]
    exact .foldl (fun t pm hpm => t.authorizeMember_mayPerform hpm) s
  | applyCommitReceipt receipts => exact .foldl (fun t r hr => t.applyReceipt_steps hr) s
  | abortPrepared a => exact s.abortPrepared_steps a

theorem exec_steps (s : Fabric) (o : Op) (h0 : s.nextDispatch ≠ 0) : Steps o.MayPerform s (s.exec o) := by
  cases o with
  | schedule tn => exact s.schedule_steps tn h0
  | _ => exact unscheduled_steps s nofun

/-- The acts a call may perform; between operations the environment alone acts. -/
def Call.MayPerform : Call → Act → Prop
  | .op o, a => o.MayPerform a
  | .tick _, a => a = .environment
  | .rehash, a => a = .environment

theorem next_steps {c : Call} (h : Next s c t) (h0 : s.nextDispatch ≠ 0) : Steps c.MayPerform s t := by
  cases h with
  | op o => exact exec_steps s o h0
  | tick now => exact .single (a := .environment) (.environment (Table.Reorder.refl _) rfl) rfl
  | rehash seqs workers hs _ => exact .single (a := .environment) (.environment hs rfl) rfl

theorem micro_nextDispatch {a : Act} (h : Micro s a t) (h0 : s.nextDispatch ≠ 0) : t.nextDispatch ≠ 0 :=
  Nat.pos_iff_ne_zero.mp (Nat.lt_of_lt_of_le (Nat.pos_of_ne_zero h0) h.nextDispatch_le)

theorem steps_nextDispatch {A : Act → Prop} (h : Steps A s t) (h0 : s.nextDispatch ≠ 0) : t.nextDispatch ≠ 0 :=
  h.invariant (I := fun u => u.nextDispatch ≠ 0) (fun hm _ => micro_nextDispatch hm) h0

/-- What holds of a new fabric and is kept by every transition that meets `P`, dispatches being numbered from 1, holds
    throughout a run of such transitions. -/
theorem transition_invariant {P : Edge Fabric Call → Prop} (h0 : ∀ cfg clock, I (Fabric.init cfg clock))
    (hI : ∀ e : Edge Fabric Call, Next e.pre e.label e.post → e.pre.nextDispatch ≠ 0 → P e → I e.pre → I e.post)
    {h : History} (hr : RunsTo h s) (hP : ∀ e ∈ h, P e) : I s ∧ ∀ e ∈ h, I e.pre ∧ I e.post := by
  obtain ⟨cfg, clock, hr⟩ := hr
  let J (t : Fabric) : Prop := t.nextDispatch ≠ 0 ∧ I t
  have hstep : ∀ e : Edge Fabric Call, Next e.pre e.label e.post → P e → J e.pre → J e.post :=
    fun e hn hp hi => ⟨steps_nextDispatch (next_steps hn hi.1) hi.1, hI e hn hi.1 hp hi.2⟩
  have hinit : J (Fabric.init cfg clock) := ⟨Nat.one_ne_zero, h0 cfg clock⟩
  refine ⟨(hr.invariant hstep hP hinit).2, fun e he => ?_⟩
  obtain ⟨hpre, hn⟩ := hr.invariant_at hstep hP hinit he
  exact ⟨hpre.2, (hstep e hn (hP e he) hpre).2⟩

/-- The induction every invariant of the fabric goes through: what holds of a new fabric and is kept by
    the micro steps labelled in `P` holds after every run whose calls perform such acts only. -/
theorem run_invariant {P : Act → Prop} (h0 : ∀ cfg clock, I (Fabric.init cfg clock))
    (hI : ∀ {s t : Fabric} {a : Act}, Micro s a t → a = .note ∨ P a → I s → I t)
    {h : History} (hr : RunsTo h s) (hP : ∀ e ∈ h, ∀ a, e.label.MayPerform a → P a) : I s := by
  refine (transition_invariant (P := fun e => ∀ a, e.label.MayPerform a → P a) h0 (fun e hn hd he hi => ?_) hr hP).1
  exact (next_steps hn hd).invariant (fun hm ha hu => hI hm (ha.imp_right (he _)) hu) hi

/-- The same without a condition on the calls. -/
theorem reachable_invariant (h0 : ∀ cfg clock, I (Fabric.init cfg clock))
    (hI : ∀ {s t : Fabric} {a : Act}, Micro s a t → I s → I t) (hs : Reachable s) : I s := by
  obtain ⟨h, hr⟩ := hs
  exact run_invariant (P := fun _ => True) h0 (fun hm _ => hI hm) hr (fun _ _ _ _ => trivial)

theorem init_allSeqs {P : Seq → Prop} (cfg : Config) (clock : TimePoint) : (Fabric.init cfg clock).AllSeqs P := by
  intro q x hx
  cases hx

theorem Kept.reachable {P : Seq → Prop} (hP : Kept (fun _ => True) P) (hs : Reachable s) : s.AllSeqs P :=
  reachable_invariant (I := fun s => s.AllSeqs P) init_allSeqs (fun hm h => micro_allSeqs hP hm (.inr trivial) h) hs

end DecodeFabric
