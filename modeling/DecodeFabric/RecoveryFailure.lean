import DecodeFabric.Recovered

/- What a failed recovery leaves behind.

   Up to and including the three counters a recovery only reads; the trailer, the magic and the version
   are all checked by then. From there on it writes: the epoch and the counters are replaced and four
   tables emptied before the first count is read, and every later error returns from
   the middle. So a refused string leaves the fabric alone exactly if it is refused by its header
   (`recovery_failure_atomic_iff`). -/
namespace DecodeFabric
open Lib Fabric List Sample

/-! The header. -/

/-- The bytes the header checks come to: magic, version, and enough bytes for the counters. -/
structure HeaderFits (bytes : Bytes) : Prop where
  length : 32 ≤ bytes.length
  magic : bytes.take 4 = [68, 70, 83, 84]
  version : getLE ((bytes.drop 4).take 4) = 3

theorem u8_eq_ok {what : String} {v : UInt8} {bs rest : Bytes} : (u8 what).run bs = .ok (v, rest) ↔ bs = v :: rest := by
  unfold u8
  rw [Reader.map_eq_ok]
  constructor
  · rintro ⟨n, hword, hv⟩
    obtain ⟨hlen, hn, hrest⟩ := Reader.word_eq_ok.mp hword
    cases bs with
    | nil => simp at hlen
    | cons b bs =>
      simp [getLE] at hn hrest
      rw [← hrest, ← hv, ← hn, UInt8.ofNat_toNat]
  · rintro rfl
    exact ⟨v.toNat, Reader.word_eq_ok.mpr ⟨by simp, by simp [getLE], by simp⟩, UInt8.ofNat_toNat⟩

/-- The header is read if and only if the bytes fit it. -/
theorem readHeader_ok_iff {bytes : Bytes} : (∃ p, readHeader.run bytes = .ok p) ↔ HeaderFits bytes := by
  constructor
  · rintro ⟨⟨h, rest⟩, hread⟩
    simp only [readHeader, id64, Reader.bind_eq_ok, u8_eq_ok, Reader.failIf_eq_ok, Reader.word_eq_ok,
      Reader.pure_eq_ok] at hread
    obtain ⟨m0, _, rfl, m1, _, rfl, m2, _, rfl, m3, bs, rfl, _, _, ⟨hmagic, rfl⟩, ver, _, ⟨hlen, hver, rfl⟩, _, _,
      ⟨hversion, rfl⟩, _, _, ⟨hepoch, -, rfl⟩, _, _, ⟨hnextSeq, -, rfl⟩, _, _, ⟨hnextDispatch, -, rfl⟩, -⟩ := hread
    simp only [not_or, not_not] at hmagic hversion
    obtain ⟨rfl, rfl, rfl, rfl⟩ := hmagic
    simp only [length_drop] at hepoch hnextSeq hnextDispatch
    exact ⟨by simp only [length_cons]; omega, rfl, hver.trans hversion⟩
  · intro h
    have hlen := h.length
    have hbytes : bytes = 68 :: 70 :: 83 :: 84 :: bytes.drop 4 := by
      conv => lhs; rw [← take_append_drop 4 bytes, h.magic]
      rfl
    rw [hbytes]
    simp only [Prod.exists, readHeader, id64, Reader.bind_eq_ok, u8_eq_ok, Reader.failIf_eq_ok, Reader.word_eq_ok,
      Reader.pure_eq_ok]
    exact ⟨_, _, 68, _, rfl, 70, _, rfl, 83, _, rfl, 84, _, rfl, (), _, ⟨by decide, rfl⟩, _, _,
      ⟨by rw [length_drop]; omega, rfl, rfl⟩, (), _, ⟨by rw [h.version]; decide, rfl⟩,
      _, _, ⟨by simp only [length_drop]; omega, rfl, rfl⟩,
      _, _, ⟨by simp only [length_drop]; omega, rfl, rfl⟩,
      _, _, ⟨by simp only [length_drop]; omega, rfl, rfl⟩, rfl, rfl⟩

/-! What the rest of a recovery can and cannot do. -/

/-- Whether the tables are read depends on the bytes only. -/
theorem recoverTables_blind : Blind recoverTables := by
  have hseq : Blind recoverSeq := (Blind.read _).bind fun _ => Blind.change _
  have hterminal : Blind recoverTerminal := (Blind.read _).bind fun _ => Blind.change _
  have hgrant : Blind recoverGrant := (Blind.read _).bind fun _ => Blind.change _
  have hseqs : Blind recoverSeqs := (Blind.read _).bind fun n => Blind.times hseq n
  have hterminals : Blind recoverTerminals := (Blind.read _).bind fun n => Blind.times hterminal n
  have hgrants : Blind recoverGrants := by
    refine (Blind.change _).bind fun _ => (Blind.read _).bind fun n => ?_
    split
    · exact Blind.fail _
    · exact Blind.times hgrant n
  exact hseqs.bind fun _ => hterminals.bind fun _ => hgrants.bind fun _ => (Blind.read _).bind fun _ => Blind.change _

/-- The epoch is that of the header by then, whatever comes of the rest. -/
theorem recoverTables_epoch (epoch : CoordinatorEpoch) : Upholds (fun s : Fabric => s.epoch = epoch) recoverTables :=
  recoverTables_upholds (Q := fun _ => True) (fun _ _ _ _ => trivial) (fun _ _ _ h => h) (fun _ _ h => h)
    (recoverLedger_upholds (fun _ h => h) (fun _ _ h => h) fun _ _ h => h)

/-! Before the first write and after. -/

theorem checkTrailer_ok {bytes : Bytes} (h : checkTrailer bytes = .ok ()) :
    checksum (bytes.take (bytes.length - 4)) = UInt32.ofNat (getLE (bytes.drop (bytes.length - 4))) := by
  unfold checkTrailer at h
  split at h
  · cases h
  · split at h
    · cases h
    · next hcrc => exact not_not.mp hcrc

/-- A string refused by its trailer or by its header changes nothing. -/
theorem recoverState_refused {bytes : Bytes}
    (h : checksum (bytes.take (bytes.length - 4)) = UInt32.ofNat (getLE (bytes.drop (bytes.length - 4))) →
      ¬ HeaderFits bytes) (s : Fabric) : (s.recoverState bytes).1 = s := by
  unfold recoverState
  split
  · rfl
  · next htrailer =>
    split
    · rfl
    · next hread => exact absurd (readHeader_ok_iff.mp ⟨_, hread⟩) (h (checkTrailer_ok htrailer))

/-- A string whose header is accepted is written into the fabric from the counters on. -/
theorem recoverState_written {bytes : Bytes}
    (hcrc : checksum (bytes.take (bytes.length - 4)) = UInt32.ofNat (getLE (bytes.drop (bytes.length - 4))))
    (hheader : HeaderFits bytes) : ∃ hd rest, ∀ s : Fabric, s.recoverState bytes =
      ((recoverTables.exec rest (s.restart hd)).2, (recoverTables.exec rest (s.restart hd)).1.map fun _ => ()) := by
  obtain ⟨⟨hd, rest⟩, hread⟩ := readHeader_ok_iff.mpr hheader
  have hlen := hheader.length
  have htrailer : checkTrailer bytes = .ok () := by
    unfold checkTrailer
    rw [if_neg (by omega), if_neg (not_not.mpr hcrc)]
  refine ⟨hd, rest, fun s => ?_⟩
  unfold recoverState
  rw [htrailer, hread]

/-- A string that is refused leaves every fabric as it was if and only if its header is at fault: it is too short for
    one, or has another magic or version, or its checksum is wrong. -/
theorem recovery_failure_atomic_iff {bytes : Bytes} {s₀ : Fabric} {e : Error}
    (hfail : (s₀.recoverState bytes).2 = .error e) :
    (∀ s : Fabric, (s.recoverState bytes).2 = .error e → (s.recoverState bytes).1 = s) ↔
      bytes.length < 32 ∨
      checksum (bytes.take (bytes.length - 4)) ≠ UInt32.ofNat (getLE (bytes.drop (bytes.length - 4))) ∨
      bytes.take 4 ≠ [68, 70, 83, 84] ∨ getLE ((bytes.drop 4).take 4) ≠ 3 := by
  constructor
  · intro hsame
    by_contra hnot
    simp only [not_or, not_not, Nat.not_lt] at hnot
    obtain ⟨hlen, hcrc, hmagic, hversion⟩ := hnot
    obtain ⟨hd, rest, hrec⟩ := recoverState_written hcrc ⟨hlen, hmagic, hversion⟩
    -- a fabric of another epoch than the string's fails likewise and has that epoch afterwards
    let s : Fabric := { s₀ with epoch := hd.epoch + 1 }
    have hs : (s.recoverState bytes).2 = .error e := by
      rw [← hfail, hrec, hrec]
      exact congrArg (Except.map fun _ => ()) (recoverTables_blind rest (s.restart hd) (s₀.restart hd))
    have hepoch : (s.recoverState bytes).1.epoch = hd.epoch := by
      rw [hrec]
      exact recoverTables_epoch hd.epoch rest (s.restart hd) rfl
    rw [hsame s hs] at hepoch
    exact Nat.succ_ne_self hd.epoch hepoch
  · intro hrefused s _
    refine recoverState_refused (fun hcrc hheader => ?_) s
    rcases hrefused with h | h | h | h
    · exact absurd hheader.length (Nat.not_le.mpr h)
    · exact h hcrc
    · exact h hheader.magic
    · exact h hheader.version

namespace Sample

/-- A snapshot that ends after its header, with a correct checksum. -/
def headerOnly : Bytes :=
  let body := [68, 70, 83, 84, 3, 0, 0, 0] ++ replicate 20 0
  body ++ putU32 (checksum body)

/-- The same with a version this code does not know. -/
def laterVersion : Bytes :=
  let body := [68, 70, 83, 84, 4, 0, 0, 0] ++ replicate 20 0
  body ++ putU32 (checksum body)

end Sample

theorem recovery_failure_atomic_laterVersion :
    (∃ e, ((init {} 0).recoverState laterVersion).2 = .error e) ∧
      (afterToken.recoverState laterVersion).1 = afterToken := by
  have hfail : ((init {} 0).recoverState laterVersion).2 =
      .error ⟨.persistenceUnknownVersion, "bad persistence version"⟩ := by decide +kernel
  have hfail' : (afterToken.recoverState laterVersion).2 =
      .error ⟨.persistenceUnknownVersion, "bad persistence version"⟩ := by decide +kernel
  exact ⟨⟨_, hfail⟩, (recovery_failure_atomic_iff hfail).mpr (by decide +kernel) _ hfail'⟩

/-- A string with a correct checksum is refused for the sequence count it lacks, and by then the epoch, the counters
    and the sequences of the fabric are gone. -/
theorem failed_recovery_empties_fabric :
    (afterToken.recoverState headerOnly).2 = .error ⟨.persistenceTruncated, "seq count"⟩ ∧
      afterToken.epoch = 1 ∧ (afterToken.recoverState headerOnly).1.epoch = 0 ∧
      afterToken.nextSeq = 1 ∧ (afterToken.recoverState headerOnly).1.nextSeq = 0 ∧
      (afterToken.seqs.find? 1).isSome = true ∧
      (afterToken.recoverState headerOnly).1.seqs.find? 1 = none := by
  decide +kernel

end DecodeFabric
