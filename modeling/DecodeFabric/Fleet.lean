import DecodeFabric.Session
import DecodeFabric.Snapshot

/- The fabric with worker processes that come and go.

   A `Fleet` is a fabric, any number of worker processes, and what is on its way between them. It allows more than
   the two drivers of the fabric do, the coordinator of `Cluster` and the pump of `Host`: every operation may be
   called at any time, with any completion and any receipt; a request may reach any process, any number of times or
   never; processes start, stop and lose what they hold. Two things are as in both drivers. A prepared result comes
   from a process that was asked for it, and the grants issued for it go back to that process, if it is still there.

   A process is a `Session`: an executor, with a log of its calls that no step of the fleet reads. -/
namespace DecodeFabric
open Lib List

structure Fleet (N : Numerics) where
  fabric : Fabric
  /-- The running processes; a process that starts gets a new number. -/
  workers : Table Nat (Session N) := .empty
  nextWorker : Nat := 0
  requests : List DecodeExecutionRequest := []
  prepared : List (Nat × PreparedDecode) := []
  grants : List (Nat × CommitGrant) := []

inductive FleetCall where
  /-- An operation of the fabric, other than the ones below. -/
  | op (o : Op)
  /-- Prepared result `k` reaches the fabric. -/
  | authorize (k : Nat)
  | start
  | stop (i : Nat)
  /-- Request `k` reaches process `i`. -/
  | prepare (i k : Nat) (took : StepTimes)
  /-- Grant `k` reaches the process it was issued for. -/
  | commit (k : Nat)
  | abort (i : Nat) (a : AbortPrepared)
  /-- Request `k` is lost. -/
  | lose (k : Nat)
  | recover (bytes : Bytes)
  | environment

section
variable {N : Numerics}

/-- The requests an operation sends out. -/
def Op.requests (s : Fabric) : Op → List DecodeExecutionRequest
  | .schedule tn => (s.schedule tn).2.map Dispatch.toRequest
  | _ => []

/-- The grants issued for a prepared result. -/
def Fabric.AuthorizeResult.grants (a : AuthorizeResult) : List CommitGrant :=
  a.members.filterMap fun ga => if ga.hasGrant then some ga.grant else none

namespace Fleet

def init (cfg : Config) (clock : TimePoint) : Fleet N := { fabric := Fabric.init cfg clock }

/-- Process `i`, if it runs, is called. -/
def call (F : Fleet N) (i : Nat) (c : SessionCall) : Fleet N :=
  { F with workers := F.workers.modify i fun S => S.exec c }

/-- What process `i` answers to a request. -/
def answer (F : Fleet N) (i : Nat) (req : DecodeExecutionRequest) (took : StepTimes) :
    List (Nat × PreparedDecode) :=
  match F.workers.find? i with
  | none => []
  | some S =>
    match (S.executor.prepare req took).2 with
    | .ok prepared => [(i, prepared)]
    | .error _ => []

/-- The fleet after a call; what has nothing to act on changes nothing. -/
def exec (F : Fleet N) : FleetCall → Fleet N
  | .op o => { F with fabric := F.fabric.exec o, requests := F.requests ++ o.requests F.fabric }
  | .authorize k =>
    match F.prepared[k]? with
    | none => F
    | some (i, p) =>
      { F with
        fabric := (F.fabric.authorizePrepared p).1
        grants := F.grants ++ (F.fabric.authorizePrepared p).2.grants.map fun g => (i, g) }
  | .start => { F with workers := F.workers.insert F.nextWorker {}, nextWorker := F.nextWorker + 1 }
  | .stop i => { F with workers := F.workers.erase i }
  | .prepare i k took =>
    match F.requests[k]? with
    | none => F
    | some req => { F.call i (.prepare req took) with prepared := F.prepared ++ F.answer i req took }
  | .commit k =>
    match F.grants[k]? with
    | none => F
    | some (i, g) => F.call i (.commit g)
  | .abort i a => F.call i (.abort a)
  | .lose k => { F with requests := F.requests.eraseIdx k }
  | .recover bytes => { F with fabric := (F.fabric.recoverState bytes).1 }
  | .environment => F

end Fleet

/-- A prepared result only comes from a process. -/
def FleetCall.fromWorkers : FleetCall → Bool
  | .op (.authorizePrepared _) => false
  | _ => true

inductive FleetNext : Fleet N → FleetCall → Fleet N → Prop
  | call (F : Fleet N) {c : FleetCall} : c.fromWorkers = true → FleetNext F c (F.exec c)
  | tick (F : Fleet N) (now : TimePoint) :
      FleetNext F .environment { F with fabric := { F.fabric with clock := now } }
  | rehash (F : Fleet N) (seqs : Table SequenceId Seq) (workers : Table WorkerId WorkerDescriptor) :
      seqs.Reorder F.fabric.seqs → workers.Reorder F.fabric.workers →
      FleetNext F .environment { F with fabric := { F.fabric with seqs, workers } }

abbrev FleetHistory (N : Numerics) := List (Edge (Fleet N) FleetCall)

/-- `h` is a run of a new fabric without processes that ends in `F`. -/
def FleetRunsTo (h : FleetHistory N) (F : Fleet N) : Prop :=
  ∃ (cfg : Config) (clock : TimePoint), Run FleetNext (Fleet.init cfg clock) h F

/-- The history of a list of calls. -/
def Fleet.trace (F : Fleet N) : List FleetCall → FleetHistory N
  | [] => []
  | c :: cs => ⟨F, c, F.exec c⟩ :: (F.exec c).trace cs

/-- The fleet after a list of calls. -/
def Fleet.execAll (F : Fleet N) (cs : List FleetCall) : Fleet N := cs.foldl exec F

theorem Fleet.trace_run : ∀ (F : Fleet N) {cs : List FleetCall}, (∀ c ∈ cs, c.fromWorkers = true) →
    Run FleetNext F (F.trace cs) (F.execAll cs)
  | F, [], _ => Run.nil F
  | F, c :: _, h => (Run.single (FleetNext.call F (h c mem_cons_self))).append
      ((F.exec c).trace_run fun c' hc' => h c' (mem_cons_of_mem _ hc'))

/-! What a process reports. -/

/-- The digests reported for a step are those of the path `d` and `a` start, before and after it. -/
structure PreparedMember.OnPath (N : Numerics) (d : StateDescriptor) (a : AttemptId) (pm : PreparedMember) : Prop where
  pre : pm.preStateDigest = pathDigest N d a pm.committedPositionBefore
  post : pm.postStateDigest = digestState (pathState N d a (pm.committedPositionBefore.toNat + 1))
    (pm.committedPositionBefore + 1) (pathBytes d (pm.committedPositionBefore + 1))

theorem SeqState.OnPath.reported {d : StateDescriptor} {a : AttemptId} {st : SeqState N} (h : st.OnPath d a)
    (proposal : ProposalId) (req : DecodeExecutionRequest) (m : DecodeMemberSpec) (ns : Nanoseconds) :
    (st.preparedMember proposal req m ns).OnPath N d a := by
  obtain ⟨p, hp, -, hstep⟩ := h.stage proposal req m
  cases hp
  exact ⟨hstep.pre, hstep.post⟩

/-- What was handed back answers a member that was asked, and is on the path the first member of its state started. -/
def Session.Reports (s : Session N) : Prop :=
  ∀ pm ∈ s.returned, ∃ m ∈ s.asked, ∃ m₀, firstAsked s.asked m.state.id = some m₀ ∧ pm.sequence = m.sequence ∧
    pm.attempt = m.attempt ∧ pm.OnPath N m₀.state m₀.attempt

theorem Session.Reports.prepareMember {s : Session N} (h : s.Sound) (hr : s.Reports) (req : DecodeExecutionRequest)
    (ns : Nanoseconds) (m : DecodeMemberSpec) : (s.prepareMember req ns m).Reports := by
  have hold : ∀ pm ∈ s.returned, ∃ m' ∈ s.asked ++ [m], ∃ m₀, firstAsked (s.asked ++ [m]) m'.state.id = some m₀ ∧
      pm.sequence = m'.sequence ∧ pm.attempt = m'.attempt ∧ pm.OnPath N m₀.state m₀.attempt := by
    intro pm hpm
    obtain ⟨m', hm', m₀, hm₀, hrest⟩ := hr pm hpm
    exact ⟨m', mem_append_left _ hm', m₀, firstAsked_append_some hm₀ [m], hrest⟩
  obtain ⟨m₀, hm₀, hpath, -⟩ := h.current m
  unfold Reports
  obtain ⟨e, heq⟩ | heq := Executor.prepareMember_inv req ns s.executor m
  · simp only [Session.prepareMember, heq, Except.toOption, Option.toList_none, append_nil]
    exact hold
  · simp only [Session.prepareMember, heq, Except.toOption, Option.toList_some]
    intro pm hpm
    rcases mem_append.mp hpm with hpm | hpm
    · exact hold pm hpm
    · rw [mem_singleton.mp hpm]
      exact ⟨m, mem_append_right _ (mem_singleton_self m), m₀, hm₀, rfl, rfl, hpath.reported _ req m ns⟩

theorem Session.Reports.prepare {s : Session N} (h : s.Sound) (hr : s.Reports) (req : DecodeExecutionRequest)
    (took : StepTimes) : (s.exec (.prepare req took)).Reports :=
  (prepare_invariant (I := fun s => s.Sound ∧ s.Reports)
    (fun m hs => ⟨hs.1.prepareMember req (took m) m, hs.2.prepareMember hs.1 req (took m) m⟩)
    (fun hsub hs => ⟨hs.1.forget hsub, fun pm hpm => hs.2 pm (hsub pm hpm)⟩) ⟨h, hr⟩).2

theorem Executor.reached_subset (req : DecodeExecutionRequest) (took : StepTimes) :
    ∀ (ms : List DecodeMemberSpec) (ex : Executor N), ex.reached req took ms ⊆ ms
  | [], _ => List.Subset.refl _
  | m :: ms, ex => by
    unfold reached
    split
    · exact cons_subset_cons m (nil_subset ms)
    · next ex' _ _ => exact cons_subset_cons m (reached_subset req took ms ex')

/-- What a process has been asked after a call. -/
theorem Session.exec_asked {s : Session N} (c : SessionCall) {m : DecodeMemberSpec} (hm : m ∈ (s.exec c).asked) :
    m ∈ s.asked ∨ ∃ req took, c = .prepare req took ∧ m ∈ req.members := by
  cases c with
  | prepare req took =>
    rcases mem_append.mp hm with hm | hm
    · exact .inl hm
    · exact .inr ⟨req, took, rfl, Executor.reached_subset req took _ _ hm⟩
  | commit g | abort a => exact .inl hm

theorem Session.exec_returned (s : Session N) (c : SessionCall) : s.returned ⊆ (s.exec c).returned := by
  cases c with
  | prepare req took => exact subset_append_left _ _
  | commit g | abort a => exact List.Subset.refl _

end
end DecodeFabric
