import DecodeFabric.Backends

/- Both executors refine the protocol.

   What they have in common is said once, in `Reading`: proposals are numbered upwards, so a transition that waits and a
   receipt that was kept belong to the one returned member that bears their number. What is left for each executor
   is how its entries are read (`SeqState.reading`, `DevState.reading`), and that its calls move its counters as the
   protocol does. -/
namespace DecodeFabric
open Lib Table Sample
variable {g : CommitGrant} {m : DecodeMemberSpec} {gid : GrantId} {hd : Holding} {out more : List PreparedMember}
  {r : MemberReceipt} {pm : PreparedMember} {σ : StateId} {P : Transactions} {w : Waiting}

/-! Proposals and what was returned under them. -/

/-- The tables of an executor with entries `S`. -/
structure Store (S : Type) where
  states : Table StateId S
  receiptsByGrant : Table GrantId MemberReceipt
  consumedProposals : Table ProposalId Bool
  nextProposal : Nat

/-- How an entry is read: its counters and what waits in it, whether that is the transition a returned member reports,
    and what is true of every entry. -/
structure Reading (S : Type) where
  holding : S → Holding
  describes : S → PreparedMember → Prop
  sound : S → Prop

namespace Reading
variable {S : Type} {ρ : Reading S} {K : Store S} {st : S}

def transactions (ρ : Reading S) (K : Store S) : Transactions where
  states := K.states.view ρ.holding
  receipts := K.receiptsByGrant.view MemberReceipt.landing
  consumed i := (K.consumedProposals.find? i).isSome
  nextProposal := K.nextProposal

/-- The executor has come to state `P` of the protocol. Whatever waits, or has left a receipt, under the number of a
    returned member is that member's. -/
structure Tracks (ρ : Reading S) (K : Store S) (P : Transactions) (out : List PreparedMember) : Prop where
  view : ρ.transactions K = P
  sound : ∀ σ st, K.states.find? σ = some st → ρ.sound st
  numbered : ∀ pm ∈ out, pm.proposal ≤ K.nextProposal
  once : ∀ pm ∈ out, ∀ pm' ∈ out, pm.proposal = pm'.proposal → pm = pm'
  staged : ∀ σ st w, K.states.find? σ = some st → (ρ.holding st).waiting = some w →
    w.proposal ≤ K.nextProposal ∧ ∀ pm ∈ out, pm.proposal = w.proposal → ρ.describes st pm
  receipt : ∀ gid r, K.receiptsByGrant.find? gid = some r → r.proposal ≤ K.nextProposal ∧
    ∀ pm ∈ out, r.proposal = pm.proposal → receiptFitsGrant r (Session.grantOf gid pm) = true

namespace Tracks

theorem fresh (ρ : Reading S) : ρ.Tracks ⟨.empty, .empty, .empty, 0⟩ {} [] where
  view := rfl
  sound _ _ hst := nomatch hst
  numbered _ hpm := absurd hpm List.not_mem_nil
  once _ hpm := absurd hpm List.not_mem_nil
  staged _ _ _ hst := nomatch hst
  receipt _ _ hr := nomatch hr

theorem forget (h : ρ.Tracks K P (out ++ more)) : ρ.Tracks K P out where
  view := h.view
  sound := h.sound
  numbered pm hpm := h.numbered pm (List.mem_append_left _ hpm)
  once pm hpm pm' hpm' := h.once pm (List.mem_append_left _ hpm) pm' (List.mem_append_left _ hpm')
  staged σ st w hst hw :=
    ⟨(h.staged σ st w hst hw).1, fun pm hpm => (h.staged σ st w hst hw).2 pm (List.mem_append_left _ hpm)⟩
  receipt gid r hr := ⟨(h.receipt gid r hr).1, fun pm hpm => (h.receipt gid r hr).2 pm (List.mem_append_left _ hpm)⟩

/-- An entry is written. -/
theorem insert (h : ρ.Tracks K P out) (hsound : ρ.sound st) (hstaged : ∀ w, (ρ.holding st).waiting = some w →
      w.proposal ≤ K.nextProposal ∧ ∀ pm ∈ out, pm.proposal = w.proposal → ρ.describes st pm) :
    ρ.Tracks { K with states := K.states.insert σ st }
      { P with states := Function.update P.states σ (some (ρ.holding st)) } out := by
  obtain rfl := h.view
  refine { h with view := ?_, sound := fun σ' st' hst' => ?_, staged := fun σ' st' w hst' hw => ?_ }
  · unfold transactions
    simp only [view_insert]
  · rw [find?_insert] at hst'
    split at hst'
    · cases hst'
      exact hsound
    · exact h.sound σ' st' hst'
  · rw [find?_insert] at hst'
    split at hst'
    · cases hst'
      exact hstaged w hw
    · exact h.staged σ' st' w hst' hw

/-- An entry is brought up to date; what waits in it waited there before. -/
theorem refresh (h : ρ.Tracks K P out) (hsound : ρ.sound st)
    (hkept : ∀ w, (ρ.holding st).waiting = some w → ∃ st₀, K.states.find? σ = some st₀ ∧
      (ρ.holding st₀).waiting = some w ∧ ∀ pm, ρ.describes st₀ pm → ρ.describes st pm) :
    ρ.Tracks { K with states := K.states.insert σ st }
      { P with states := Function.update P.states σ (some (ρ.holding st)) } out := by
  refine h.insert hsound fun w hw => ?_
  obtain ⟨st₀, hst₀, hw₀, hdesc⟩ := hkept w hw
  obtain ⟨hle, hold⟩ := h.staged σ st₀ w hst₀ hw₀
  exact ⟨hle, fun pm hpm hp => hdesc pm (hold pm hpm hp)⟩

/-- A transition is staged under the next number, and returned. -/
theorem stage (h : ρ.Tracks K P out) (hpm : pm.proposal = K.nextProposal + 1) (hsound : ρ.sound st)
    (hnum : ∀ w, (ρ.holding st).waiting = some w → w.proposal = K.nextProposal + 1) (hdesc : ρ.describes st pm) :
    ρ.Tracks { K with states := K.states.insert σ st, nextProposal := K.nextProposal + 1 }
      { P with
        states := Function.update P.states σ (some (ρ.holding st))
        nextProposal := P.nextProposal + 1 } (out ++ [pm]) := by
  obtain rfl := h.view
  -- the new number is above all that were handed out
  have habove : ∀ {n : Nat}, n ≤ K.nextProposal → n ≠ K.nextProposal + 1 := fun hle =>
    Nat.ne_of_lt (Nat.lt_succ_of_le hle)
  have hnew : ∀ pm' ∈ out, pm'.proposal ≠ K.nextProposal + 1 := fun pm' hpm' => habove (h.numbered pm' hpm')
  have hcase : ∀ pm' ∈ out ++ [pm], pm' ∈ out ∨ pm' = pm := fun pm' hpm' =>
    (List.mem_append.mp hpm').imp_right List.mem_singleton.mp
  refine insert (K := { K with nextProposal := K.nextProposal + 1 })
    (P := { ρ.transactions K with nextProposal := K.nextProposal + 1 })
    ⟨rfl, h.sound, fun pm' hpm' => ?_, fun pm₁ hpm₁ pm₂ hpm₂ heq => ?_, fun σ st w hst hw => ?_, fun gid r hr => ?_⟩
    hsound fun w hw => ⟨Nat.le_of_eq (hnum w hw), fun pm' hpm' hp => ?_⟩
  · rcases hcase pm' hpm' with hpm' | rfl
    · exact Nat.le_succ_of_le (h.numbered pm' hpm')
    · exact Nat.le_of_eq hpm
  · rcases hcase pm₁ hpm₁ with hold₁ | hnew₁ <;> rcases hcase pm₂ hpm₂ with hold₂ | hnew₂
    · exact h.once pm₁ hold₁ pm₂ hold₂ heq
    · exact absurd (heq.trans (hnew₂ ▸ hpm)) (hnew pm₁ hold₁)
    · exact absurd (heq.symm.trans (hnew₁ ▸ hpm)) (hnew pm₂ hold₂)
    · exact hnew₁.trans hnew₂.symm
  · obtain ⟨hle, hold⟩ := h.staged σ st w hst hw
    refine ⟨Nat.le_succ_of_le hle, fun pm' hpm' hp => ?_⟩
    rcases hcase pm' hpm' with hpm' | rfl
    · exact hold pm' hpm' hp
    · exact absurd (hp.symm.trans hpm) (habove hle)
  · obtain ⟨hle, hold⟩ := h.receipt gid r hr
    refine ⟨Nat.le_succ_of_le hle, fun pm' hpm' hp => ?_⟩
    rcases hcase pm' hpm' with hpm' | rfl
    · exact hold pm' hpm' hp
    · exact absurd (hp.trans hpm) (habove hle)
  · rcases hcase pm' hpm' with hpm' | rfl
    · exact absurd (hp.trans (hnum w hw)) (hnew pm' hpm')
    · exact hdesc

/-- A returned member lands and leaves a receipt. -/
theorem land (h : ρ.Tracks K P out) (hpm : pm ∈ out)
    (hst : ρ.holding st = { tokens := hd.tokens + 1, kvBytes := w.kvBytes }) (hsound : ρ.sound st)
    (hr : receiptFitsGrant r (Session.grantOf gid pm) = true) (hlanding : r.landing = Transactions.landing pm.step hd) :
    ρ.Tracks
      { K with
        states := K.states.insert pm.state st
        consumedProposals := K.consumedProposals.insert pm.proposal true
        receiptsByGrant := K.receiptsByGrant.insert gid r } (P.land gid pm.step hd w) out := by
  obtain rfl := h.view
  have hput := h.insert (σ := pm.state) hsound fun w' hw' => by
    rw [hst] at hw'
    cases hw'
  refine { hput with view := ?_, receipt := fun gid' r' hr' => ?_ }
  · unfold transactions Transactions.land
    simp only [view_insert, isSome_find?_insert, hst, hlanding]
    rfl
  · rw [find?_insert] at hr'
    split at hr'
    · next hgid =>
      cases hr'
      have hprop : r.proposal = pm.proposal := by
        simp only [receiptFitsGrant, decide_eq_true_eq] at hr
        exact hr.2.1
      refine ⟨hprop ▸ h.numbered pm hpm, fun pm' hpm' hp => ?_⟩
      rw [hgid, ← h.once pm hpm pm' hpm' (hprop.symm.trans hp)]
      exact hr
    · exact h.receipt gid' r' hr'

/-- A change that discards a proposal and touches nothing else that waits. -/
theorem discard (h : ρ.Tracks K P out) {f : S → S} {proposal : ProposalId}
    (hf : ∀ st, ρ.holding (f st) = (ρ.holding st).discard proposal) (hsound : ∀ st, ρ.sound st → ρ.sound (f st))
    (hsame : ∀ st, f st = st ∨ (ρ.holding (f st)).waiting = none) :
    ρ.Tracks { K with states := K.states.modify σ f }
      { P with states := Function.update P.states σ ((P.states σ).map (Holding.discard proposal)) } out := by
  obtain rfl := h.view
  refine { h with view := ?_, sound := fun σ' st' hst' => ?_, staged := fun σ' st' w hst' hw => ?_ }
  · unfold transactions
    simp only
    rw [view_modify _ _ _ hf]
  · rcases find?_modify_cases hst' with ⟨rfl, st, hst, rfl⟩ | ⟨-, hst⟩
    · exact hsound st (h.sound _ st hst)
    · exact h.sound _ _ hst
  · rcases find?_modify_cases hst' with ⟨rfl, st, hst, rfl⟩ | ⟨-, hst⟩
    · rcases hsame st with hst₀ | hnone
      · rw [hst₀] at hw ⊢
        exact h.staged _ st w hst hw
      · cases hnone.symm.trans hw
    · exact h.staged _ _ w hst hw

/-- The entry where a returned step lands. -/
theorem entry_of_lands (h : ρ.Tracks K P out) (hpm : pm ∈ out) (hl : P.Lands gid pm.step hd w) :
    ∃ st, K.receiptsByGrant.find? gid = none ∧ K.states.find? pm.state = some st ∧ ρ.sound st ∧ ρ.holding st = hd ∧
      ρ.describes st pm := by
  obtain rfl := h.view
  obtain ⟨st, hst, rfl⟩ := Option.map_eq_some_iff.mp hl.entry
  exact ⟨st, Option.map_eq_none_iff.mp hl.unused, hst, h.sound _ st hst, rfl,
    (h.staged _ st w hst hl.waiting).2 pm hpm hl.proposal.symm⟩

/-- And the other way: a step that waits in an entry, at the count it was staged at, lands. -/
theorem lands (h : ρ.Tracks K P out) (hr : K.receiptsByGrant.find? gid = none) (hst : K.states.find? pm.state = some st)
    (hw : (ρ.holding st).waiting = some w) (hprop : w.proposal = pm.proposal)
    (hpos : (ρ.holding st).tokens = pm.committedPositionBefore) : P.Lands gid pm.step (ρ.holding st) w := by
  obtain rfl := h.view
  exact ⟨Option.map_eq_none_iff.mpr hr, Option.map_eq_some_iff.mpr ⟨st, hst, rfl⟩, hw, hprop, hpos⟩

/-- A receipt that was kept answers a copied grant exactly if it is for the same proposal. -/
theorem fits_iff (h : ρ.Tracks K P out) (hr : K.receiptsByGrant.find? gid = some r) (hpm : pm ∈ out) :
    receiptFitsGrant r (Session.grantOf gid pm) = true ↔ r.proposal = pm.proposal := by
  refine ⟨fun hfits => ?_, (h.receipt gid r hr).2 pm hpm⟩
  simp only [receiptFitsGrant, decide_eq_true_eq] at hfits
  exact hfits.2.1

/-- A commit: the receipt that was kept answers, or the step lands exactly if it lands in the protocol. -/
theorem commit {E : Type} {store : E → Store S} {ex : E} {result : E × Except Error MemberReceipt}
    (h : ρ.Tracks (store ex) P out) (hpm : pm ∈ out)
    (hknown : ∀ r, (store ex).receiptsByGrant.find? gid = some r →
      ∃ e, result = if receiptFitsGrant r (Session.grantOf gid pm) then (ex, .ok r) else (ex, .error e))
    (hnew : (store ex).receiptsByGrant.find? gid = none →
      ((∃ e, result = (ex, .error e)) ∧ ¬ ∃ hd w, P.Lands gid pm.step hd w) ∨
      ∃ hd w ex' r, P.Lands gid pm.step hd w ∧ result = (ex', .ok r) ∧ r.landing = Transactions.landing pm.step hd ∧
        ρ.Tracks (store ex') (P.land gid pm.step hd w) out) :
    Paired (fun ex => ρ.Tracks (store ex)) (fun r landing => r.landing = landing) (fun _ => []) out result
      (P.commit gid pm.step) := by
  have hreceipts : P.receipts gid = ((store ex).receiptsByGrant.find? gid).map MemberReceipt.landing :=
    congrFun (congrArg Transactions.receipts h.view).symm gid
  cases hr : (store ex).receiptsByGrant.find? gid with
  | some r =>
    rw [hr] at hreceipts
    obtain ⟨e, rfl⟩ := hknown r hr
    rw [Transactions.commit_known hreceipts]
    by_cases hprop : r.proposal = pm.proposal
    · rw [if_pos ((h.fits_iff hr hpm).mpr hprop), if_pos (show r.landing.proposal = pm.step.proposal from hprop)]
      exact .ok rfl (by simpa using h)
    · rw [if_neg (fun hfits => hprop ((h.fits_iff hr hpm).mp hfits)),
        if_neg (show ¬ r.landing.proposal = pm.step.proposal from hprop)]
      exact .error h
  | none =>
    rw [hr] at hreceipts
    obtain ⟨⟨e, rfl⟩, hnone⟩ | ⟨hd, w, ex', r, hl, rfl, hlanding, h'⟩ := hnew hr
    · rw [Transactions.commit_fails hreceipts hnone]
      exact .error h
    · rw [Transactions.commit_lands hl]
      exact .ok hlanding (by simpa using h')

end Tracks
end Reading

/-- The loop of `prepare` is in step if its turns are. -/
theorem Paired.members {E : Type} {R : E → Transactions → List PreparedMember → Prop} {ex : E}
    {req : DecodeExecutionRequest} {f : E → DecodeMemberSpec → E × Except Error PreparedMember}
    {result : E × Except Error PreparedDecode}
    (herror : ∀ {ex' e}, Lib.scanE f ex req.members = (ex', .error e) → result = (ex', .error e))
    (hok : ∀ {ex' pms}, Lib.scanE f ex req.members = (ex', .ok pms) → ∃ p, result = (ex', .ok p) ∧ p.members = pms)
    (hforget : ∀ {ex P out more}, R ex P (out ++ more) → R ex P out)
    (hstep : ∀ m ∈ req.members, ∀ ex P out, R ex P out →
      Paired R (fun pm step => pm.step = step) (fun pm => [pm]) out (f ex m) (P.prepareMember m)) (h : R ex P out) :
    Paired R (fun p steps => p.members.map PreparedMember.step = steps) PreparedDecode.members out result
      (P.prepare req) := by
  have hloop := Paired.scanE hforget hstep h
  unfold Transactions.prepare
  generalize Lib.scanE f ex req.members = a at hloop herror hok
  generalize Lib.scanE Transactions.prepareMember P req.members = b at hloop
  cases hloop with
  | error hR =>
    rw [herror rfl]
    exact .error hR
  | ok hall hR =>
    obtain ⟨p, hp, rfl⟩ := hok rfl
    rw [hp]
    refine .ok ?_ (by simpa using hR)
    rw [← List.forall₂_eq_eq_eq, List.forall₂_map_left_iff]
    exact hall

/-! The CPU executor. -/

section Cpu
variable {N : Numerics} {ex : Executor N} {p : Prepared N} {st : SeqState N}

namespace SeqState

def holding (st : SeqState N) : Holding where
  tokens := st.tokens
  kvBytes := st.kvBytes
  waiting := st.tentative.map fun p => { proposal := p.proposal, attempt := p.attempt, kvBytes := p.kvBytes }

theorem catchUp_holding (target : UInt64) : ∀ (fuel : Nat) (st : SeqState N),
    (st.catchUp target fuel).holding = st.holding.catchUp target fuel
  | 0, _ => rfl
  | fuel + 1, st => by
    unfold catchUp Holding.catchUp
    by_cases hlt : st.tokens < target
    · rw [if_pos hlt, if_pos (show st.holding.tokens < target from hlt)]
      exact catchUp_holding target fuel st.replay
    · rw [if_neg hlt, if_neg (show ¬ st.holding.tokens < target from hlt)]

theorem ensureInitialized_holding (m : DecodeMemberSpec) (entry : Option (SeqState N)) :
    (ensureInitialized m entry).holding = Holding.current m (entry.map holding) := by
  cases entry with
  | none => exact catchUp_holding _ _ (fresh m)
  | some st => exact catchUp_holding _ _ st

theorem discard_holding (proposal : ProposalId) (st : SeqState N) :
    (if st.tentative.any (fun p => p.proposal = proposal) then { st with tentative := none }
      else st : SeqState N).holding =
      st.holding.discard proposal := by
  unfold Holding.discard
  have hany : st.holding.waiting.any (fun w => w.proposal = proposal) =
      st.tentative.any fun p => p.proposal = proposal := by
    unfold SeqState.holding
    rw [Option.any_map]
  rw [hany]
  split
  · rfl
  · rfl

theorem conflict_isSome (m : DecodeMemberSpec) (st : SeqState N) :
    (st.tentative.bind (Executor.prepareConflict m)).isSome =
      st.holding.waiting.any fun w => w.attempt = m.attempt := by
  unfold SeqState.holding
  cases st.tentative with
  | none => rfl
  | some p =>
    simp only [Option.bind_some, Option.map_some, Option.any_some, Executor.prepareConflict]
    by_cases hattempt : p.attempt = m.attempt
    · simp only [hattempt, if_true, decide_true]
      split <;> rfl
    · simp [hattempt]

end SeqState

/-- The transition waiting as `p` is the one `pm` reports. -/
structure Prepared.Describes (p : Prepared N) (pm : PreparedMember) : Prop where
  authority : ∀ gid, Executor.authorityMatches p (Session.grantOf gid pm) = true
  pre : p.preDigest = pm.preStateDigest
  post : p.postDigest = pm.postStateDigest

def SeqState.reading : Reading (SeqState N) where
  holding := holding
  describes st pm := ∀ p, st.tentative = some p → p.Describes pm
  sound st := st.eosEnabled = false

namespace Executor

def store (ex : Executor N) : Store (SeqState N) :=
  ⟨ex.states, ex.receiptsByGrant, ex.consumedProposals, ex.nextProposal⟩

abbrev Tracks (ex : Executor N) : Transactions → List PreparedMember → Prop := SeqState.reading.Tracks ex.store

theorem prepareMembers_eq_scanE (req : DecodeExecutionRequest) (took : StepTimes) :
    ∀ (ms : List DecodeMemberSpec) (ex : Executor N),
      prepareMembers req took ex ms = scanE (fun ex m => ex.prepareMember req (took m) m) ex ms
  | [], _ => rfl
  | m :: ms, ex => by
    unfold prepareMembers scanE
    generalize ex.prepareMember req (took m) m = first
    obtain ⟨ex', e | pm⟩ := first
    · rfl
    · simp only [prepareMembers_eq_scanE req took ms ex']
      generalize scanE (fun ex m => prepareMember req (took m) ex m) ex' ms = rest
      obtain ⟨ex'', e | pms⟩ := rest
      · rfl
      · rfl

theorem commit_known (hr : ex.receiptsByGrant.find? g.grantId = some r) :
    ex.commit g = if receiptFitsGrant r g then (ex, .ok r)
      else (ex, .error ⟨.duplicateCompletion, "conflicting reuse of an already-consumed commit grant"⟩) := by
  unfold commit
  rw [hr]

namespace Tracks

theorem prepareMember (h : ex.Tracks P out) (req : DecodeExecutionRequest) (ns : Nanoseconds) (hm : m.payload = []) :
    Paired Tracks (fun pm step => pm.step = step) (fun pm => [pm]) out (ex.prepareMember req ns m)
    (P.prepareMember m) := by
  obtain rfl := h.view
  have heos := SeqState.ensureInitialized_eosEnabled hm (h.sound m.state.id)
  have hholding : Holding.current m ((SeqState.reading.transactions ex.store).states m.state.id) =
      (ex.entryFor m).holding :=
    (SeqState.ensureInitialized_holding m _).symm
  have hkept : ∀ p, (ex.entryFor m).tentative = some p →
      ∃ st, ex.states.find? m.state.id = some st ∧ st.tentative = some p := fun p hp => ensureInitialized_staged hp
  have hconflict := SeqState.conflict_isSome m (ex.entryFor m)
  unfold Executor.prepareMember Transactions.prepareMember
  simp only [hholding, ← hconflict]
  change (ex.entryFor m).eosEnabled = false at heos
  generalize ex.entryFor m = st at heos hkept
  cases hc : st.tentative.bind (prepareConflict m) with
  | some e =>
    simp only [Option.isSome_some, if_true]
    refine .error (h.refresh heos fun w hw => ?_)
    obtain ⟨p, hp, rfl⟩ := Option.map_eq_some_iff.mp hw
    obtain ⟨st₀, hst₀, hp₀⟩ := hkept p hp
    exact ⟨st₀, hst₀, congrArg (Option.map _) hp₀, fun pm hdesc p' hp' => hdesc p' (hp₀.trans (hp.symm.trans hp'))⟩
  | none =>
    simp only [Option.isSome_none, Bool.false_eq_true, if_false]
    refine .ok ?_ (h.stage rfl heos (fun w hw => ?_) fun p hp => ?_)
    · simp [SeqState.preparedMember, PreparedMember.step, heos, SeqState.holding, Reading.transactions, store]
    · cases hw
      rfl
    · cases hp
      refine ⟨fun gid => ?_, rfl, rfl⟩
      simp [authorityMatches, Session.grantOf, Fabric.makeGrant, SeqState.preparedMember]

/-- A grant copied from a returned member is promoted if its step lands. -/
theorem promotes (h : ex.Tracks P out) (hpm : pm ∈ out)
    (hl : P.Lands gid pm.step hd w) : ∃ st p, ex.Promotes (Session.grantOf gid pm) st p := by
  obtain ⟨st, hunused, hst, -, rfl, hdesc⟩ := h.entry_of_lands hpm hl
  obtain ⟨p, hp, -⟩ := Option.map_eq_some_iff.mp hl.waiting
  exact ⟨st, p, hunused, hst, hp, (hdesc p hp).authority gid, (hdesc p hp).pre, (hdesc p hp).post, hl.position⟩

theorem commit (h : ex.Tracks P out) (gid : GrantId) (hpm : pm ∈ out) :
    Paired Tracks (fun r landing => r.landing = landing) (fun _ => []) out (ex.commit (Session.grantOf gid pm))
      (P.commit gid pm.step) := by
  refine Reading.Tracks.commit h hpm (fun r hr => ⟨_, commit_known hr⟩) fun hr => ?_
  obtain ⟨e, he⟩ | ⟨r, hr', -⟩ | ⟨st, p, hp, he⟩ := ex.commit_inv (Session.grantOf gid pm)
  · refine .inl ⟨⟨e, he⟩, ?_⟩
    rintro ⟨hd, w, hl⟩
    obtain ⟨st, p, hp⟩ := h.promotes hpm hl
    rw [commit_promotes hp] at he
    cases (Prod.mk.inj he).2
  · cases hr.symm.trans hr'
  · exact .inr ⟨_, _, _, _, h.lands hr hp.entry (congrArg (Option.map _) hp.staged) hp.proposal hp.position, he, rfl,
      h.land hpm rfl (h.sound _ st hp.entry) hp.fits rfl⟩

end Tracks
end Executor

theorem cpu_refines (N : Numerics) : (cpuDecodeExecutor N).Refines Executor.Tracks where
  fresh := .fresh _
  prepare h req took hreq := by
    have hturn := fun m hm (ex : Executor N) P out (h : ex.Tracks P out) => h.prepareMember req (took m) (hreq m hm)
    refine Paired.members (fun hs => ?_) (fun hs => ?_) Reading.Tracks.forget hturn h
    · simp only [cpuDecodeExecutor, Executor.prepare, Executor.prepareMembers_eq_scanE, hs]
    · simp only [cpuDecodeExecutor, Executor.prepare, Executor.prepareMembers_eq_scanE, hs]
      exact ⟨_, rfl, rfl⟩
  commit h gid _ hpm := h.commit gid hpm
  abort {ex _ _} h a := by
    obtain rfl := h.view
    show Paired _ _ _ _ (ex.abort a) (if (ex.consumedProposals.find? a.proposal).isSome = true then _ else _)
    unfold Executor.abort
    cases hc : ex.consumedProposals.find? a.proposal with
    | some b => exact .error h
    | none =>
      refine .ok trivial ?_
      rw [List.append_nil]
      refine h.discard (SeqState.discard_holding a.proposal) (fun st hst => ?_) fun st => ?_
      · split <;> exact hst
      · split
        · exact .inr rfl
        · exact .inl rfl
  tokens {ex _ _} h := by
    obtain rfl := h.view
    funext σ
    show ex.committedTokens σ = (((ex.states.find? σ).map SeqState.holding).map Holding.tokens).getD 0
    unfold Executor.committedTokens
    cases ex.states.find? σ <;> rfl
  prepared {ex _ _} h := by
    obtain rfl := h.view
    funext σ proposal
    show ex.hasPrepared σ proposal = ((ex.states.find? σ).map SeqState.holding).any _
    unfold Executor.hasPrepared
    cases ex.states.find? σ with
    | none => rfl
    | some st => simp [SeqState.holding, Option.any_map]

end Cpu

/-! The CUDA executor. -/

section Cuda
variable {C : CudaNumerics} {ex : CudaExecutor C} {st st' : DevState C}

namespace DevState

def holding (st : DevState C) : Holding where
  tokens := st.tokens
  kvBytes := st.kvBytes
  waiting :=
    if st.hasTentative then
      some { proposal := st.preparedProposal, attempt := st.preparedAttempt, kvBytes := st.tentativeKvBytes }
    else none

theorem hasTentative_of_waiting (hw : st.holding.waiting = some w) : st.hasTentative = true ∧
    w = { proposal := st.preparedProposal, attempt := st.preparedAttempt, kvBytes := st.tentativeKvBytes } := by
  unfold holding at hw
  cases ht : st.hasTentative with
  | false =>
    rw [ht] at hw
    cases hw
  | true =>
    rw [ht] at hw
    exact ⟨rfl, (Option.some.inj hw).symm⟩

/-- The flags are true to the buffers. -/
structure Allocated (st : DevState C) : Prop where
  inited : st.inited = true
  device : ∃ host, st.device = some host
  tentative : st.hasTentative = true → ∃ next, st.tentative = some next

/-- The transition waiting in `st` is the one `pm` reports. It was staged at a token count no higher than the one now,
    and if no higher one was reached, from the state as it is. -/
structure Describes (st : DevState C) (pm : PreparedMember) : Prop where
  authority : ∀ gid, st.authorityMatches (Session.grantOf gid pm) = true
  pre : st.preparedPreDigest = pm.preStateDigest
  post : st.preparedPostDigest = pm.postStateDigest
  position : pm.committedPositionBefore ≤ st.tokens
  base : st.tokens = pm.committedPositionBefore → ∀ host, st.device = some host →
    C.digestDev host st.tokens st.kvBytes = pm.preStateDigest

def reading : Reading (DevState C) where
  holding := holding
  describes := Describes
  sound := Allocated

/-- The counters the loop ends with. -/
theorem reconstruct_holding (target : UInt64) (waiting : Option Waiting) : ∀ (fuel : Nat) (host : C.Vec)
    (tokens kvBytes : UInt64), Holding.catchUp target fuel { tokens, kvBytes, waiting } =
      { tokens := (reconstruct target fuel host tokens kvBytes).2.1
        kvBytes := (reconstruct target fuel host tokens kvBytes).2.2
        waiting }
  | 0, _, _, _ => rfl
  | fuel + 1, host, tokens, kvBytes => by
    unfold Holding.catchUp reconstruct
    by_cases hlt : tokens < target
    · simp only [if_pos hlt]
      exact reconstruct_holding target waiting fuel (C.stepStateFloat host) (tokens + 1) (kvBytes + kvDelta)
    · simp only [if_neg hlt]

theorem lt_succ_of_lt {n m : UInt64} (h : n < m) : n < n + 1 := by
  rw [UInt64.lt_iff_toNat_lt, toNat_succ (ne_lastCount_of_lt h)]
  exact Nat.lt_succ_self _

theorem reconstruct_le (target : UInt64) : ∀ (fuel : Nat) (host : C.Vec) (tokens kvBytes : UInt64),
    tokens ≤ (reconstruct target fuel host tokens kvBytes).2.1
  | 0, _, _, _ => UInt64.le_refl _
  | fuel + 1, host, tokens, kvBytes => by
    unfold reconstruct
    split
    · next hlt =>
      exact UInt64.le_trans (UInt64.le_of_lt (lt_succ_of_lt hlt)) (reconstruct_le target fuel _ (tokens + 1) _)
    · exact UInt64.le_refl _

/-- A loop that has something to do moves the token count on. -/
theorem reconstruct_lt {target tokens : UInt64} (hlt : tokens < target) (host : C.Vec) (kvBytes : UInt64) :
    tokens < (reconstruct target (target.toNat - tokens.toNat) host tokens kvBytes).2.1 := by
  obtain ⟨fuel, hfuel⟩ : ∃ fuel, target.toNat - tokens.toNat = fuel + 1 :=
    Nat.exists_eq_succ_of_ne_zero (Nat.sub_ne_zero_of_lt (UInt64.lt_iff_toNat_lt.mp hlt))
  rw [hfuel]
  unfold reconstruct
  rw [if_pos hlt]
  exact UInt64.lt_of_lt_of_le (lt_succ_of_lt hlt) (reconstruct_le target fuel _ (tokens + 1) _)

/-- A state that is brought up to date is as it was, or has a higher token count; what waits is untouched. -/
inductive Updated (st : DevState C) : DevState C → Prop
  | same : Updated st st
  | moved {host : C.Vec} {tokens : UInt64} (kvBytes : UInt64) :
      st.tokens < tokens → Updated st { st with device := some host, tokens, kvBytes }

theorem ensureInitialized_allocated (h : st.Allocated) (m : DecodeMemberSpec) :
    ∃ st', st.ensureInitialized m = (st', .ok ()) ∧ st.Updated st' ∧
    st'.holding = Holding.current m (some st.holding) := by
  obtain ⟨host, hhost⟩ := h.device
  have hsame : st.allocate m = st := if_pos h.inited
  unfold ensureInitialized
  simp only [hsame, hhost]
  by_cases hlt : st.tokens < m.generatedTokens
  · simp only [if_pos hlt]
    refine ⟨_, rfl, .moved _ (reconstruct_lt hlt host st.kvBytes), ?_⟩
    exact (reconstruct_holding _ st.holding.waiting _ host st.tokens st.kvBytes).symm
  · simp only [if_neg hlt]
    refine ⟨st, rfl, .same, ?_⟩
    have hfuel : m.generatedTokens.toNat - st.tokens.toNat = 0 :=
      Nat.sub_eq_zero_of_le (UInt64.le_iff_toNat_le.mp (UInt64.not_lt.mp hlt))
    show st.holding = Holding.catchUp m.generatedTokens (m.generatedTokens.toNat - st.tokens.toNat) st.holding
    rw [hfuel]
    rfl

theorem Updated.allocated (hu : st.Updated st') (h : st.Allocated) : st'.Allocated := by
  cases hu with
  | same => exact h
  | moved => exact ⟨h.inited, ⟨_, rfl⟩, h.tentative⟩

theorem Updated.describes (hu : st.Updated st') (h : st.Describes pm) : st'.Describes pm := by
  cases hu with
  | same => exact h
  | moved kvBytes hlt =>
    refine ⟨h.authority, h.pre, h.post, UInt64.le_trans h.position (UInt64.le_of_lt hlt), fun heq => ?_⟩
    -- the count the step was staged at has been passed
    exact absurd (UInt64.lt_of_lt_of_le hlt (UInt64.le_of_eq heq)) (UInt64.not_lt.mpr h.position)

theorem Updated.waiting (hu : st.Updated st') : st'.holding.waiting = st.holding.waiting := by
  cases hu with
  | same => rfl
  | moved => rfl

/-- `ensure_initialized` on an entry that may be new. -/
theorem ensureInitialized_spec (m : DecodeMemberSpec) {entry : Option (DevState C)}
    (h : ∀ st, entry = some st → st.Allocated) :
    ∃ st', (entry.getD {}).ensureInitialized m = (st', .ok ()) ∧ st'.Allocated ∧
      st'.holding = Holding.current m (entry.map holding) ∧
      ∀ w, st'.holding.waiting = some w → ∃ st, entry = some st ∧ st.holding.waiting = some w ∧ st.Updated st' := by
  cases entry with
  | some st =>
    obtain ⟨st', heq, hu, hholding⟩ := ensureInitialized_allocated (h st rfl) m
    exact ⟨st', heq, hu.allocated (h st rfl), hholding, fun w hw => ⟨st, rfl, hu.waiting ▸ hw, hu⟩⟩
  | none =>
    -- a new entry is filled first, and then as any other
    have hnew : (allocate m ({} : DevState C)).Allocated := ⟨rfl, ⟨_, rfl⟩, nofun⟩
    obtain ⟨st', heq, hu, hholding⟩ := ensureInitialized_allocated hnew m
    exact ⟨st', heq, hu.allocated hnew, hholding, fun w hw => by rw [hu.waiting] at hw; cases hw⟩

theorem conflict_isSome (m : DecodeMemberSpec) (st : DevState C) :
    (st.prepareConflict m).isSome = st.holding.waiting.any fun w => w.attempt = m.attempt := by
  unfold prepareConflict holding
  cases st.hasTentative with
  | false => rfl
  | true =>
    by_cases hattempt : st.preparedAttempt = m.attempt
    · simp only [if_true, hattempt, true_and, ne_eq, not_true_eq_false, if_false, Option.any_some, decide_true]
      split <;> rfl
    · simp [hattempt]

theorem holding_waits (proposal : ProposalId) (st : DevState C) :
    st.holding.waiting.any (fun w => w.proposal = proposal) = (st.hasTentative && st.preparedProposal == proposal) := by
  unfold holding
  cases st.hasTentative with
  | false => rfl
  | true => simp [beq_eq_decide]

theorem discard_holding (proposal : ProposalId) (st : DevState C) :
    (if st.hasTentative && st.preparedProposal == proposal then st.clearTentative else st).holding =
      st.holding.discard proposal := by
  unfold Holding.discard
  rw [holding_waits]
  split
  · rfl
  · rfl

theorem clearStale_device (st : DevState C) : st.clearStale.device = st.device := by
  unfold clearStale
  split <;> rfl

/-- What is staged does not depend on what it replaces. -/
theorem stage_holding (proposal : ProposalId) (req : DecodeExecutionRequest) (m : DecodeMemberSpec) (host : C.Vec)
    (st : DevState C) : (st.clearStale.stage proposal req m host).holding =
      { st.holding with
        waiting := some { proposal, attempt := m.attempt, kvBytes := st.holding.kvBytes + kvDelta } } := by
  unfold clearStale
  split <;> rfl

theorem preparedMember_clearStale (proposal : ProposalId) (req : DecodeExecutionRequest) (m : DecodeMemberSpec)
    (ns : Nanoseconds) (host : C.Vec) (st : DevState C) :
    st.clearStale.preparedMember proposal req m ns host = st.preparedMember proposal req m ns host := by
  unfold clearStale
  split <;> rfl

theorem Allocated.clearStale (h : st.Allocated) : st.clearStale.Allocated := by
  unfold DevState.clearStale
  split
  · exact ⟨h.inited, h.device, nofun⟩
  · exact h

theorem Allocated.stage (h : st.Allocated) (proposal : ProposalId) (req : DecodeExecutionRequest)
    (m : DecodeMemberSpec) (host : C.Vec) : (st.stage proposal req m host).Allocated :=
  ⟨h.inited, h.device, fun _ => ⟨_, rfl⟩⟩

theorem stage_describes (proposal : ProposalId) (req : DecodeExecutionRequest) (m : DecodeMemberSpec) (ns : Nanoseconds)
    {host : C.Vec} (hhost : st.device = some host) :
    (st.stage proposal req m host).Describes (st.preparedMember proposal req m ns host) := by
  refine ⟨fun gid => ?_, rfl, rfl, UInt64.le_refl _, fun _ host' hhost' => ?_⟩
  · simp [authorityMatches, Session.grantOf, Fabric.makeGrant, preparedMember, stage]
  · cases hhost.symm.trans hhost'
    rfl

end DevState

namespace CudaExecutor

def store (ex : CudaExecutor C) : Store (DevState C) :=
  ⟨ex.states, ex.receiptsByGrant, ex.consumedProposals, ex.nextProposal⟩

abbrev Tracks (ex : CudaExecutor C) : Transactions → List PreparedMember → Prop := DevState.reading.Tracks ex.store

/-- Grant `g` fits the step staged in `st`, and is not used yet. -/
structure Promotes (ex : CudaExecutor C) (g : CommitGrant) (st : DevState C) : Prop where
  unused : ex.receiptsByGrant.find? g.grantId = none
  entry : ex.states.find? g.state = some st
  staged : st.hasTentative = true
  buffer : st.tentative.isNone = false
  authority : st.authorityMatches g = true
  position : st.tokens = g.committedPosition
  base : ∃ host, st.device = some host ∧ C.digestDev host st.tokens st.kvBytes = g.preStateDigest
  pre : st.preparedPreDigest = g.preStateDigest
  post : st.preparedPostDigest = g.postStateDigest

theorem commit_promotes (h : ex.Promotes g st) : ex.commit g = (ex.promote g st, .ok (receiptFor g st.tokens)) := by
  obtain ⟨host, hhost, hbase⟩ := h.base
  rw [h.position] at hbase
  simp only [commit, h.unused, h.entry, h.staged, h.buffer, h.authority, h.position, hhost, hbase, h.pre, h.post,
    Bool.not_true, Bool.or_self, Bool.false_eq_true, ne_eq, not_true_eq_false, or_self, if_false]

theorem commit_known (hr : ex.receiptsByGrant.find? g.grantId = some r) :
    ex.commit g = if receiptFitsGrant r g then (ex, .ok r)
      else (ex, .error ⟨.duplicateCompletion, "conflicting reuse of an already-consumed commit grant"⟩) := by
  unfold commit
  rw [hr]

/-- A commit on a grant that is not used promotes the staged step, or fails and changes nothing. -/
theorem commit_inv (hr : ex.receiptsByGrant.find? g.grantId = none) :
    (∃ e, ex.commit g = (ex, .error e)) ∨ ∃ st, ex.Promotes g st := by
  unfold commit
  simp only [hr]
  split
  · exact .inl ⟨_, rfl⟩
  · next st hst =>
    split
    · exact .inl ⟨_, rfl⟩
    · next hwaits =>
      rw [Bool.or_eq_true, not_or, Bool.not_eq_true', Bool.not_eq_false, Bool.not_eq_true] at hwaits
      split
      · exact .inl ⟨_, rfl⟩
      · next hauth =>
        split
        · exact .inl ⟨_, rfl⟩
        · next htok =>
          split
          · exact .inl ⟨_, rfl⟩
          · next host hhost =>
            split
            · exact .inl ⟨_, rfl⟩
            · next hpre =>
              rw [not_or, not_not, not_not] at hpre
              split
              · exact .inl ⟨_, rfl⟩
              · next hpost =>
                exact .inr ⟨st, hr, hst, hwaits.1, hwaits.2, by simpa using hauth, not_not.mp htok,
                  ⟨host, hhost, hpre.1⟩,
                  hpre.2, not_not.mp hpost⟩

namespace Tracks

theorem prepareMember (h : ex.Tracks P out) (req : DecodeExecutionRequest) (ns : Nanoseconds) (hm : m.payload = []) :
    Paired Tracks (fun pm step => pm.step = step) (fun pm => [pm]) out (ex.prepareMember req ns m)
    (P.prepareMember m) := by
  obtain rfl := h.view
  obtain ⟨st, hensure, halloc, hholding, hkept⟩ :=
    DevState.ensureInitialized_spec m fun st hst => h.sound m.state.id st hst
  change ((ex.states.find? m.state.id).getD {}).ensureInitialized m = (st, .ok ()) at hensure
  have hcurrent : Holding.current m ((DevState.reading.transactions ex.store).states m.state.id) = st.holding :=
    hholding.symm
  unfold CudaExecutor.prepareMember Transactions.prepareMember
  simp only [hensure, hcurrent, ← st.conflict_isSome m]
  cases hc : st.prepareConflict m with
  | some e =>
    simp only [Option.isSome_some, if_true]
    refine .error (h.refresh halloc fun w hw => ?_)
    obtain ⟨st₀, hst₀, hw₀, hu⟩ := hkept w hw
    exact ⟨st₀, hst₀, hw₀, fun _ => hu.describes⟩
  | none =>
    obtain ⟨host, hhost⟩ := halloc.device
    simp only [Option.isSome_none, Bool.false_eq_true, if_false, DevState.clearStale_device, hhost]
    have hstage := h.stage (σ := m.state.id) rfl (halloc.clearStale.stage (ex.nextProposal + 1) req m host)
      (fun w hw => by cases hw; rfl) (DevState.stage_describes _ req m ns (st.clearStale_device.trans hhost))
    rw [show DevState.reading.holding _ = _ from DevState.stage_holding _ req m host st] at hstage
    refine .ok ?_ hstage
    rw [st.preparedMember_clearStale]
    simp [DevState.preparedMember, PreparedMember.step, hm, DevState.holding, Reading.transactions, store]

theorem promotes (h : ex.Tracks P out) (hpm : pm ∈ out)
    (hl : P.Lands gid pm.step hd w) : ∃ st, ex.Promotes (Session.grantOf gid pm) st := by
  obtain ⟨st, hunused, hst, halloc, rfl, hdesc⟩ := h.entry_of_lands hpm hl
  obtain ⟨hw, -⟩ := DevState.hasTentative_of_waiting hl.waiting
  obtain ⟨host, hhost⟩ := halloc.device
  obtain ⟨next, hnext⟩ := halloc.tentative hw
  exact ⟨st, hunused, hst, hw, by rw [hnext]; rfl, hdesc.authority gid, hl.position,
    ⟨host, hhost, hdesc.base hl.position host hhost⟩, hdesc.pre, hdesc.post⟩

theorem commit (h : ex.Tracks P out) (gid : GrantId) (hpm : pm ∈ out) :
    Paired Tracks (fun r landing => r.landing = landing) (fun _ => []) out (ex.commit (Session.grantOf gid pm))
      (P.commit gid pm.step) := by
  refine Reading.Tracks.commit h hpm (fun r hr => ⟨_, commit_known hr⟩) fun hr => ?_
  by_cases hp : ∃ st, ex.Promotes (Session.grantOf gid pm) st
  · obtain ⟨st, hp⟩ := hp
    have hauth := hp.authority
    simp only [DevState.authorityMatches, decide_eq_true_eq] at hauth
    have hfits : receiptFitsGrant (receiptFor (Session.grantOf gid pm) st.tokens) (Session.grantOf gid pm) = true := by
      simp [receiptFitsGrant, receiptFor, hp.position]
    have halloc : st.Allocated := h.sound _ st hp.entry
    exact .inr ⟨_, _, _, _, h.lands hr hp.entry (if_pos hp.staged) hauth.1 hp.position, commit_promotes hp, rfl,
      h.land hpm rfl ⟨halloc.inited, halloc.tentative hp.staged, fun hw => by cases hw⟩ hfits rfl⟩
  · refine .inl ⟨(commit_inv hr).resolve_right hp, ?_⟩
    rintro ⟨hd, w, hl⟩
    exact hp (h.promotes hpm hl)

end Tracks
end CudaExecutor

theorem cuda_refines (C : CudaNumerics) : (cudaDecodeExecutor C).Refines CudaExecutor.Tracks where
  fresh := .fresh _
  prepare h req took hreq := by
    have hturn := fun m hm (ex : CudaExecutor C) P out (h : ex.Tracks P out) =>
      h.prepareMember req (took m) (hreq m hm)
    refine Paired.members (fun hs => ?_) (fun hs => ?_) Reading.Tracks.forget hturn h
    · simp only [cudaDecodeExecutor, CudaExecutor.prepare, hs]
    · simp only [cudaDecodeExecutor, CudaExecutor.prepare, hs]
      exact ⟨_, rfl, rfl⟩
  commit h gid _ hpm := h.commit gid hpm
  abort {ex _ _} h a := by
    obtain rfl := h.view
    show Paired _ _ _ _ (ex.abort a) (if (ex.consumedProposals.find? a.proposal).isSome = true then _ else _)
    unfold CudaExecutor.abort
    cases hc : ex.consumedProposals.find? a.proposal with
    | some b => exact .error h
    | none =>
      refine .ok trivial ?_
      rw [List.append_nil]
      refine h.discard (DevState.discard_holding a.proposal) (fun st halloc => ?_) fun st => ?_
      · split
        · exact ⟨halloc.inited, halloc.device, nofun⟩
        · exact halloc
      · split
        · exact .inr rfl
        · exact .inl rfl
  tokens {ex _ _} h := by
    obtain rfl := h.view
    funext σ
    show ex.committedTokens σ = (((ex.states.find? σ).map DevState.holding).map Holding.tokens).getD 0
    unfold CudaExecutor.committedTokens
    cases ex.states.find? σ <;> rfl
  prepared {ex _ _} h := by
    obtain rfl := h.view
    funext σ proposal
    show ex.hasPrepared σ proposal = ((ex.states.find? σ).map DevState.holding).any _
    unfold CudaExecutor.hasPrepared
    cases ex.states.find? σ with
    | none => rfl
    | some st => exact (st.holding_waits proposal).symm

end Cuda

/-! The two. -/

/-- On every list of calls with empty payloads, from new executors, each commit on a grant copied from what that
    executor returned: the CPU and the CUDA executor succeed on the same calls, with the same proposals, positions,
    terminal flags and bytes, and have the same token counts and the same transitions waiting after every call. -/
theorem backends_agree (N : Numerics) (C : CudaNumerics) {cs : List BackendCall} (hcs : ∀ c ∈ cs, c.EmptyPayloads) :
    List.Forall₂ Observed.Agrees
      ((cpuDecodeExecutor N).observe { executor := (cpuDecodeExecutor N).fresh } cs)
      ((cudaDecodeExecutor C).observe { executor := (cudaDecodeExecutor C).fresh } cs) :=
  InProtocol.observe (cpu_refines N) (cuda_refines C) cs hcs
    ⟨⟨{}, (cpu_refines N).fresh, (cuda_refines C).fresh⟩, rfl⟩

/-! A conversation. -/

namespace Sample

/-- A kernel that does not compute what its host mirror does. -/
def cudaNumerics : CudaNumerics where
  Vec := UInt32
  initialState := fun σ a => UInt32.ofNat (3 * σ + a)
  stepStateFloat := fun v => v + 2
  kernelStep := fun v => v + 5
  kernelToken := fun v => v
  kernelChecksum := fun v => v.toUInt64
  digestDev := fun v tokens kvBytes => v.toUInt64 + tokens + kvBytes

def stepRequest (n : UInt64) : DecodeExecutionRequest := { executeRequest with members := [memberSpec n] }

/-- A step is prepared and committed, the grant is used again, the next step is prepared twice, and the proposal of the
    first is aborted too late. -/
def calls : List BackendCall :=
  [.prepare (stepRequest 0) fun _ => took, .commit 1 0, .commit 1 0, .prepare (stepRequest 1) fun _ => took,
    .prepare (stepRequest 1) fun _ => took, .abort { proposal := 1, state := 1 }]

end Sample

theorem backends_agree_calls : (∀ c ∈ calls, c.EmptyPayloads) ∧
    (∃ p p' r r', ((cpuDecodeExecutor numerics).observe { executor := (cpuDecodeExecutor numerics).fresh }
      calls).map Observed.reply = [.prepared (.ok p), .receipt (.ok r), .receipt (.ok r'), .prepared (.ok p'),
        .prepared (.error ⟨.duplicateCompletion, "duplicate prepare for the same authoritative generation"⟩),
        .aborted (.error ⟨.alreadyTerminal, "abort after commit"⟩)]) ∧
    List.Forall₂ Observed.Agrees
      ((cpuDecodeExecutor numerics).observe { executor := (cpuDecodeExecutor numerics).fresh } calls)
      ((cudaDecodeExecutor cudaNumerics).observe { executor := (cudaDecodeExecutor cudaNumerics).fresh }
        calls) := by
  have hempty : ∀ c ∈ calls, c.EmptyPayloads := by
    simp [calls, BackendCall.EmptyPayloads, stepRequest, memberSpec]
  exact ⟨hempty, ⟨_, _, _, _, rfl⟩, backends_agree numerics cudaNumerics hempty⟩

end DecodeFabric
