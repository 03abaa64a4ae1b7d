import DecodeFabric.Batching
import Mathlib.Data.Fin.VecNotation
import Mathlib.Data.List.Lex

/- The keys that stand for what they are made of.

   Groups are looked up by the text of a compatibility key, sets of keys are ordered by it, and a generation that was
   accepted is recognised by a hash of its authority. The text loses nothing of a declared key, so that working with
   texts is working with keys (`key_text_faithful`). The hash loses something, being 64 bits long, but every round
   of it is invertible, so that one change alone always shows (`acceptanceKey_separates`). -/
namespace DecodeFabric
open Lib List Sample

/-! The canonical text. -/

/-- The loop of `append_u64`. It fills `tmp` from the lowest digit on and reads it back from its end; here `tmp`
    grows at its head. -/
def digitLoop (v : Nat) (tmp : List Char) : List Char :=
  if v = 0 then tmp else digitLoop (v / 10) (Char.ofNat (48 + v % 10) :: tmp)

def appendU64 (s : String) (v : Nat) : String :=
  if v = 0 then s ++ "0" else s ++ String.ofList (digitLoop v [])

/-- `CompatibilityKey::to_string`, statement by statement. -/
def CompatibilityKey.written (k : CompatibilityKey) : String :=
  let s := appendU64 "model=" k.model
  let s := appendU64 (s ++ ":rev=") k.revision
  let s := appendU64 (s ++ ":adapter=") k.adapter
  let s := s ++ ":backend=" ++ k.backend.name
  let s := appendU64 (s ++ ":device=") k.device
  let s := s ++ ":dtype=" ++ k.dtype.name
  let s := appendU64 (s ++ ":layout=") k.tensorLayout.toNat
  let s := appendU64 (s ++ ":kv=") k.kvRepresentation.toNat
  let s := appendU64 (s ++ ":seq=") k.sequenceRequirements.toNat
  appendU64 (s ++ ":op=") k.operatorPolicy.toNat

theorem digitChar_eq : ∀ d < 10, Nat.digitChar d = Char.ofNat (48 + d) := by decide

/-- The loop writes the decimal digits, highest first. -/
theorem digitLoop_eq {v : Nat} (h : v ≠ 0) (tmp : List Char) : digitLoop v tmp = Nat.toDigits 10 v ++ tmp := by
  induction v using Nat.strongRecOn generalizing tmp with
  | ind v ih =>
    rw [digitLoop, if_neg h, ← digitChar_eq _ (Nat.mod_lt v (by decide)), Nat.toDigits_eq_if (by decide)]
    by_cases hlast : v < 10
    · rw [if_pos hlast, Nat.div_eq_of_lt hlast, digitLoop, if_pos rfl, Nat.mod_eq_of_lt hlast]
      rfl
    · rw [if_neg hlast, ih (v / 10) (by omega) (by omega), append_assoc]
      rfl

theorem appendU64_eq (s : String) (v : Nat) : appendU64 s v = s ++ toString v := by
  unfold appendU64
  split
  · next hzero => rw [hzero]; rfl
  · next hpos => rw [digitLoop_eq hpos, append_nil, Nat.toString_eq_repr]; rfl

theorem CompatibilityKey.written_eq (k : CompatibilityKey) : k.written = k.toText := by
  unfold written toText
  simp only [appendU64_eq]

/-! Compatibility. -/

structure CompatibilityDecision where
  compatible : Bool := false
  key : CompatibilityKey := {}
  reason : String := ""
  matched : List String := []
  mismatched : List String := []

def CompatibilityDecision.addIf (d : CompatibilityDecision) (eq : Bool) (name : String) : CompatibilityDecision :=
  if eq then { d with matched := d.matched ++ [name] } else { d with mismatched := d.mismatched ++ [name] }

def evaluateCompatibility (a b : CompatibilityKey) : CompatibilityDecision :=
  let d : CompatibilityDecision := { key := a }
  let d := d.addIf (a.model = b.model) "model"
  let d := d.addIf (a.revision = b.revision) "revision"
  let d := d.addIf (a.adapter = b.adapter) "adapter"
  let d := d.addIf (a.backend = b.backend) "backend"
  let d := d.addIf (a.device = b.device) "device"
  let d := d.addIf (a.dtype = b.dtype) "dtype"
  let d := d.addIf (a.tensorLayout = b.tensorLayout) "tensor_layout"
  let d := d.addIf (a.kvRepresentation = b.kvRepresentation) "kv_representation"
  let d := d.addIf (a.sequenceRequirements = b.sequenceRequirements) "sequence_requirements"
  let d := d.addIf (a.operatorPolicy = b.operatorPolicy) "operator_policy"
  let d := { d with compatible := d.mismatched.isEmpty }
  { d with
    reason := if d.compatible then "identical compatibility key" else "differ in: " ++ ", ".intercalate d.mismatched }

theorem CompatibilityDecision.addIf_mismatched (d : CompatibilityDecision) (eq : Bool) (name : String) :
    (d.addIf eq name).mismatched.isEmpty = (d.mismatched.isEmpty && eq) := by
  cases eq <;> simp [addIf]

/-- Keys are compatible if they are equal. -/
theorem evaluateCompatibility_iff (a b : CompatibilityKey) : (evaluateCompatibility a b).compatible = true ↔ a = b := by
  cases a
  cases b
  simp only [evaluateCompatibility, CompatibilityDecision.addIf_mismatched, CompatibilityKey.mk.injEq, Bool.and_eq_true,
    isEmpty_nil, decide_eq_true_eq, true_and, and_assoc]

/-! Order. -/

/-- What `std::string` compares: bytes, as unsigned numbers. -/
def CompatibilityKey.bytes (k : CompatibilityKey) : List Nat := k.toText.toUTF8.data.toList.map UInt8.toNat

/-- `operator<` -/
def CompatibilityKey.less (a b : CompatibilityKey) : Bool := decide (a.bytes < b.bytes)

theorem CompatibilityKey.bytes_inj {a b : CompatibilityKey} (h : a.bytes = b.bytes) : a.toText = b.toText := by
  have hdata : a.toText.toUTF8.data.toList = b.toText.toUTF8.data.toList :=
    map_injective_iff.mpr (fun _ _ => UInt8.toNat_inj.mp) h
  exact String.toByteArray_inj.mp (ByteArray.ext (Array.toList_inj.mp hdata))

theorem CompatibilityKey.less_iff {a b : CompatibilityKey} : a.less b = true ↔ a.bytes < b.bytes := decide_eq_true_iff

/-! Lookup. -/

/-- The group of a key is found under its text. -/
theorem formPass_index (s : Fabric) (tn : TimePoint) {cands : List Candidate} (hcands : ∀ c ∈ cands, c.key.Declared)
    {k : CompatibilityKey} (hk : k.Declared) :
    (s.formPass tn cands).groupIndex.find? k.toText =
      (s.formPass tn cands).formed.findIdx? fun g => decide (g.key = k) := by
  have hgroups : Fabric.Grouping s cands (s.formPass tn cands) := Fabric.formPass_grouping rfl cands
  have hbatch := Fabric.formPass_batching s tn cands
  generalize s.formPass tn cands = f at hgroups hbatch ⊢
  have hdeclared : ∀ g ∈ f.formed, g.key.Declared := by
    intro g hg
    obtain ⟨c, hc, hkey⟩ := (hgroups.proper g hg).key
    exact hkey ▸ hcands c hc
  symm
  cases hfind : f.groupIndex.find? k.toText with
  | none =>
    rw [findIdx?_eq_none_iff]
    intro g hg
    refine decide_eq_false fun hkey => ?_
    have hlisted := hbatch.listed g hg
    rw [hkey, hfind] at hlisted
    cases hlisted
  | some i =>
    obtain ⟨g, hg, htext⟩ := hgroups.index _ i hfind
    obtain ⟨hi, rfl⟩ := List.getElem?_eq_some_iff.mp hg
    rw [findIdx?_eq_some_iff_getElem]
    refine ⟨hi, decide_eq_true (CompatibilityKey.toText_inj (hdeclared _ (getElem_mem hi)) hk htext), ?_⟩
    intro j hj hkey
    -- two groups of one text
    have hsame : (f.formed.map fun g => g.key.toText)[j]? = (f.formed.map fun g => g.key.toText)[i]? := by
      rw [getElem?_map, getElem?_map, getElem?_eq_getElem (hj.trans hi), hg, Option.map_some, Option.map_some,
        of_decide_eq_true hkey, htext]
    exact Nat.ne_of_lt hj ((getElem?_inj (by simpa using hj.trans hi) hbatch.texts).mp hsame)

/-- Texts, keys and decisions agree on declared keys; so do lookups by text and by key, and the order of the texts is an
    order of the keys. -/
theorem key_text_faithful :
    (∀ a b : CompatibilityKey, a.Declared → b.Declared →
      (a.written = b.written ↔ a = b) ∧ (a = b ↔ (evaluateCompatibility a b).compatible = true)) ∧
    (∀ (s : Fabric) (tn : TimePoint) (cands : List Candidate), (∀ c ∈ cands, c.key.Declared) →
      ∀ k : CompatibilityKey, k.Declared →
        (s.formPass tn cands).groupIndex.find? k.written =
          (s.formPass tn cands).formed.findIdx? fun g => decide (g.key = k)) ∧
    (∀ a : CompatibilityKey, a.less a = false) ∧
    (∀ a b c : CompatibilityKey, a.less b = true → b.less c = true → a.less c = true) ∧
    ∀ a b : CompatibilityKey, a.Declared → b.Declared → a.less b = true ∨ a = b ∨ b.less a = true := by
  refine ⟨?_, ?_, ?_, ?_, ?_⟩
  · intro a b ha hb
    rw [a.written_eq, b.written_eq]
    refine ⟨⟨CompatibilityKey.toText_inj ha hb, congrArg _⟩, (evaluateCompatibility_iff a b).symm⟩
  · intro s tn cands hcands k hk
    rw [k.written_eq]
    exact formPass_index s tn hcands hk
  · intro a
    exact Bool.eq_false_iff.mpr fun h => lt_irrefl _ (CompatibilityKey.less_iff.mp h)
  · intro a b c hab hbc
    rw [CompatibilityKey.less_iff] at hab hbc ⊢
    exact lt_trans hab hbc
  · intro a b ha hb
    rw [CompatibilityKey.less_iff, CompatibilityKey.less_iff]
    refine (lt_trichotomy a.bytes b.bytes).imp_right (Or.imp_left fun h => ?_)
    exact CompatibilityKey.toText_inj ha hb (CompatibilityKey.bytes_inj h)

/-- Two keys of the sample's model: their texts differ, one comes first, and each has its group. -/
theorem key_text_faithful_adapters :
    key.written ≠ ({ key with adapter := 7 } : CompatibilityKey).written ∧
    (evaluateCompatibility key { key with adapter := 7 }).compatible = false ∧
    (key.less { key with adapter := 7 } = true ∨ ({ key with adapter := 7 } : CompatibilityKey).less key = true) ∧
    ((start.formPass 1 [⟨1, key, 0⟩, ⟨2, { key with adapter := 7 }, 0⟩]).groupIndex.find?
      ({ key with adapter := 7 } : CompatibilityKey).written).isSome = true := by
  have hkey : key.Declared := ⟨nofun, nofun⟩
  have hother : ({ key with adapter := 7 } : CompatibilityKey).Declared := ⟨nofun, nofun⟩
  have hne : key ≠ { key with adapter := 7 } := by decide
  obtain ⟨htexts, hlookup, -, -, horder⟩ := key_text_faithful
  obtain ⟨hwritten, hcompatible⟩ := htexts _ _ hkey hother
  refine ⟨fun h => hne (hwritten.mp h), Bool.eq_false_iff.mpr fun h => hne (hcompatible.mpr h), ?_, ?_⟩
  · exact (horder _ _ hkey hother).imp_right fun h => h.resolve_left hne
  · rw [hlookup _ _ _ (fun c hc => ?_) _ hother]
    · decide
    · rcases mem_pair.mp hc with rfl | rfl
      · exact hkey
      · exact hother

/-! The acceptance key. -/

/-- The key of nine words: epoch, worker, boot, sequence, state, attempt, generation, dispatch, position. -/
def identityKey (w : Fin 9 → UInt64) : UInt64 :=
  acceptanceKeyFields (w 0) (w 1) (w 2) (w 3) (w 4) (w 5) (w 6) (w 7) (w 8)

def MemberReceipt.identity (r : MemberReceipt) : Fin 9 → UInt64 :=
  ![.ofNat r.epoch, .ofNat r.worker, .ofNat r.workerBoot, .ofNat r.sequence, .ofNat r.state, .ofNat r.attempt,
    .ofNat r.generation, .ofNat r.dispatch, r.committedPositionBefore]

def PreparedMember.identity (pm : PreparedMember) : Fin 9 → UInt64 :=
  ![.ofNat pm.epoch, .ofNat pm.worker, .ofNat pm.workerBoot, .ofNat pm.sequence, .ofNat pm.state, .ofNat pm.attempt,
    .ofNat pm.generation, .ofNat pm.dispatch, pm.committedPositionBefore]

/-- What follows a difference keeps it. -/
theorem foldl_fnvMix_inj (l : List UInt64) {h h' : UInt64} : l.foldl fnvMix h = l.foldl fnvMix h' ↔ h = h' := by
  induction l generalizing h h' with
  | nil => exact Iff.rfl
  | cons v l ih => exact ih.trans fnvMix_left_inj

/-- One word differs: it makes the difference, and the rest carries it on. -/
theorem foldl_fnvMix_ne {n : Nat} {x y : Fin n → UInt64} (i : Fin n) (hi : x i ≠ y i) (hrest : ∀ j, j ≠ i → x j = y j)
    (h : UInt64) : (ofFn x).foldl fnvMix h ≠ (ofFn y).foldl fnvMix h := by
  induction n generalizing h with
  | zero => exact i.elim0
  | succ n ih =>
    rw [ofFn_succ, ofFn_succ, foldl_cons, foldl_cons]
    cases i using Fin.cases with
    | zero =>
      have htail : (fun j : Fin n => x j.succ) = fun j => y j.succ := funext fun j => hrest j.succ (Fin.succ_ne_zero j)
      rw [htail]
      intro heq
      exact hi (fnvMix_right_inj.mp ((foldl_fnvMix_inj _).mp heq))
    | succ i =>
      rw [hrest 0 (Fin.succ_ne_zero i).symm]
      exact ih i hi (fun j hj => hrest j.succ fun heq => hj (Fin.succ_inj.mp heq)) _

theorem identityKey_eq (w : Fin 9 → UInt64) : identityKey w = (ofFn w).foldl fnvMix 1469598103934665603 := by
  simp only [ofFn_succ, ofFn_zero]
  rfl

theorem identityKey_ne {x y : Fin 9 → UInt64} (h : ∃! i, x i ≠ y i) : identityKey x ≠ identityKey y := by
  obtain ⟨i, hi, honly⟩ := h
  have hrest : ∀ j, j ≠ i → x j = y j := fun j hj => by_contra fun hne => hj (honly j hne)
  rw [identityKey_eq, identityKey_eq]
  exact foldl_fnvMix_ne i hi hrest _

/-- Identities that differ in one component have different keys; a receipt and a prepared member have one key
    if their components agree, and different ones if they differ in one. -/
theorem acceptanceKey_separates :
    (∀ x y : Fin 9 → UInt64, (∃! i, x i ≠ y i) → identityKey x ≠ identityKey y) ∧
    ∀ (r : MemberReceipt) (pm : PreparedMember), (r.identity = pm.identity → r.acceptanceKey = pm.acceptanceKey) ∧
      ((∃! i, r.identity i ≠ pm.identity i) → r.acceptanceKey ≠ pm.acceptanceKey) := by
  refine ⟨fun _ _ => identityKey_ne, ?_⟩
  intro r pm
  have hreceipt : r.acceptanceKey = identityKey r.identity := rfl
  have hmember : pm.acceptanceKey = identityKey pm.identity := rfl
  rw [hreceipt, hmember]
  exact ⟨congrArg identityKey, identityKey_ne⟩

/-- The sample's receipt has the key of its member, and not that of the member of the next generation. -/
theorem acceptanceKey_separates_sample : receipt.acceptanceKey = member.acceptanceKey ∧
    receipt.acceptanceKey ≠ ({ member with generation := 2 } : PreparedMember).acceptanceKey :=
  ⟨(acceptanceKey_separates.2 receipt member).1 rfl,
    (acceptanceKey_separates.2 receipt { member with generation := 2 }).2 ⟨6, by decide, by decide⟩⟩

end DecodeFabric
