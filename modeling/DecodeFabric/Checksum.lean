import DecodeFabric.Lib.Crc
import DecodeFabric.Snapshot

/- What the checksum of a snapshot catches.

   `Crc32::update` is a bitwise check over a register of 32 bits, so a string whose body was changed within
   four consecutive bytes has another checksum, wherever they stand and however long the body is. The
   trailer is compared as a whole, so a change within its four bytes is seen as well. Both are refused
   before anything is read. -/
namespace DecodeFabric
open Lib List Sample

/-! The loop of the source as a register. -/

namespace Crc32

def polynomial : BitVec 32 := 0xEDB88320#32

/-- The mask of the source is all ones if the low bit is set, and zero otherwise. -/
theorem mask_toBitVec (c : UInt32) :
    (0 - (c &&& 1)).toBitVec = if c.toBitVec.getLsbD 0 then 0xFFFFFFFF#32 else 0#32 := by
  have hlow : (c &&& 1).toBitVec = BitVec.setWidth 32 (BitVec.ofBool (c.toBitVec.getLsbD 0)) :=
    BitVec.and_one_eq_setWidth_ofBool_getLsbD
  rw [UInt32.toBitVec_sub, hlow]
  cases c.toBitVec.getLsbD 0 <;> rfl

theorem bit_toBitVec (c : UInt32) : (bit c).toBitVec = Crc.step polynomial c.toBitVec := by
  unfold bit Crc.step
  rw [UInt32.toBitVec_xor, UInt32.toBitVec_and, mask_toBitVec, UInt32.toBitVec_shiftRight]
  split
  · rfl
  · exact BitVec.xor_zero

theorem bits_toBitVec : ∀ (n : Nat) (c : UInt32), (bit^[n] c).toBitVec = (Crc.step polynomial)^[n] c.toBitVec
  | 0, _ => rfl
  | n + 1, c => by rw [Function.iterate_succ_apply, Function.iterate_succ_apply, bits_toBitVec n, bit_toBitVec]

theorem update_toBitVec : ∀ (bytes : Bytes) (c : UInt32),
    (update c bytes).toBitVec = Crc.feed polynomial c.toBitVec bytes
  | [], _ => rfl
  | b :: bytes, c => by
    have hbyte : b.toUInt32.toBitVec = BitVec.ofNat 32 b.toNat := by
      apply BitVec.eq_of_toNat_eq
      have hb : b.toNat < 256 := b.toNat_lt
      rw [BitVec.toNat_ofNat, Nat.mod_eq_of_lt (by omega)]
      exact b.toNat_toUInt32
    rw [Crc.feed_cons, ← hbyte, ← UInt32.toBitVec_xor, ← bits_toBitVec]
    exact update_toBitVec bytes _

end Crc32

/-- Two bodies with one checksum that differ within four bytes do not differ. -/
theorem checksum_window {before after u v : Bytes} (hlen : u.length = v.length) (hfour : u.length ≤ 4)
    (h : checksum (before ++ u ++ after) = checksum (before ++ v ++ after)) : u = v := by
  have hupdate := congrArg UInt32.toBitVec (UInt32.not_inj.mp h)
  rw [Crc32.update_toBitVec, Crc32.update_toBitVec] at hupdate
  exact Crc.feed_window (by decide) _ before after hlen (by omega) hupdate

/-! Corrupted strings. -/

/-- `b'` is `b` with something changed at places from `lo` on and before `hi`, and nowhere else. -/
structure CorruptedWithin (lo hi : Nat) (b b' : Bytes) : Prop where
  length : b'.length = b.length
  changed : b' ≠ b
  outside : ∀ j, j < lo ∨ hi ≤ j → b'[j]? = b[j]?

namespace CorruptedWithin
variable {lo hi : Nat} {b b' : Bytes}

theorem take (h : CorruptedWithin lo hi b b') : b'.take lo = b.take lo := by
  apply ext_getElem?
  intro j
  rw [getElem?_take, getElem?_take]
  split
  · next hj => exact h.outside j (.inl hj)
  · rfl

theorem drop (h : CorruptedWithin lo hi b b') {n : Nat} (hn : hi ≤ n) : b'.drop n = b.drop n := by
  apply ext_getElem?
  intro j
  rw [getElem?_drop, getElem?_drop]
  exact h.outside _ (.inr (by omega))

theorem cut_ne (h : CorruptedWithin lo hi b b') {n : Nat} (htake : b'.take n = b.take n)
    (hdrop : b'.drop n = b.drop n) :
    False := by
  apply h.changed
  calc b' = b'.take n ++ b'.drop n := (take_append_drop n b').symm
    _ = b.take n ++ b.drop n := by rw [htake, hdrop]
    _ = b := take_append_drop n b

/-- A change of at most four bytes before place `n` changes the checksum of what stands before it. -/
theorem checksum_ne (h : CorruptedWithin lo hi b b') {n : Nat} (hn : hi ≤ n) (hfour : hi ≤ lo + 4) :
    checksum (b'.take n) ≠ checksum (b.take n) := by
  intro heq
  have hcut : ∀ x : Bytes,
      x.take n = (x.take n).take lo ++ ((x.take n).drop lo).take 4 ++ (x.take n).drop (lo + 4) := by
    intro x
    rw [append_assoc, ← drop_drop, take_append_drop, take_append_drop]
  have hbefore : (b'.take n).take lo = (b.take n).take lo := by
    rw [take_take, take_take, Nat.min_comm, ← take_take, ← take_take, h.take]
  have hafter : (b'.take n).drop (lo + 4) = (b.take n).drop (lo + 4) := by
    rw [drop_take, drop_take, h.drop hfour]
  have hwindow : ((b'.take n).drop lo).take 4 = ((b.take n).drop lo).take 4 := by
    rw [hcut b', hcut b, hbefore, hafter] at heq
    refine checksum_window ?_ (length_take_le _ _) heq
    simp only [length_take, length_drop, h.length]
  have hbody : b'.take n = b.take n := by rw [hcut b', hcut b, hbefore, hafter, hwindow]
  exact h.cut_ne hbody (h.drop hn)

end CorruptedWithin

/-- The four bytes of a trailer are told apart. -/
theorem trailer_inj {u v : Bytes} (hu : u.length = 4) (hv : v.length = 4)
    (h : UInt32.ofNat (getLE u) = UInt32.ofNat (getLE v)) : u = v := by
  have hlt : ∀ x : Bytes, x.length = 4 → getLE x < UInt32.size := by
    intro x hx
    have hx' := getLE_lt x
    rw [hx] at hx'
    exact hx'
  refine getLE_inj (hu.trans hv.symm) ?_
  have hnat := congrArg UInt32.toNat h
  rwa [UInt32.toNat_ofNat_of_lt' (hlt u hu), UInt32.toNat_ofNat_of_lt' (hlt v hv)] at hnat

theorem recoverState_mismatch {b : Bytes} (hlen : 5 ≤ b.length)
    (h : checksum (b.take (b.length - 4)) ≠ UInt32.ofNat (getLE (b.drop (b.length - 4)))) (s : Fabric) :
    s.recoverState b = (s, .error ⟨.persistenceChecksumMismatch, "state checksum mismatch"⟩) := by
  unfold Fabric.recoverState checkTrailer
  rw [if_neg (Nat.not_lt.mpr hlen), if_pos h]

/-- A string with a correct trailer that is changed within four consecutive bytes of its body, or within the four bytes
    of its trailer, is refused for its checksum and changes nothing. -/
theorem checksum_catches_corruption {b b' : Bytes} (hlen : 5 ≤ b.length)
    (hcrc : checksum (b.take (b.length - 4)) = UInt32.ofNat (getLE (b.drop (b.length - 4))))
    (hcorrupt : (∃ lo hi, hi ≤ lo + 4 ∧ hi ≤ b.length - 4 ∧ CorruptedWithin lo hi b b') ∨
      CorruptedWithin (b.length - 4) b.length b b') (s : Fabric) :
    s.recoverState b' = (s, .error ⟨.persistenceChecksumMismatch, "state checksum mismatch"⟩) := by
  rcases hcorrupt with ⟨lo, hi, hfour, hbody, h⟩ | h
  · refine recoverState_mismatch (h.length ▸ hlen) ?_ s
    rw [h.length, h.drop hbody, ← hcrc]
    exact h.checksum_ne hbody hfour
  · refine recoverState_mismatch (h.length ▸ hlen) ?_ s
    rw [h.length, h.take, hcrc]
    intro heq
    have htrailer : ∀ {x : Bytes}, x.length = b.length → (x.drop (b.length - 4)).length = 4 := by
      intro x hx
      rw [length_drop, hx]
      omega
    have hsame := trailer_inj (htrailer rfl) (htrailer h.length) heq
    exact h.cut_ne h.take hsame.symm

namespace Sample

/-- A string of five bytes with its checksum. -/
def guarded : Bytes := [1, 2, 3, 4, 5] ++ putU32 (checksum [1, 2, 3, 4, 5])

/-- The same with its second byte changed. -/
def corrupted : Bytes := [1, 7, 3, 4, 5] ++ putU32 (checksum [1, 2, 3, 4, 5])

end Sample

theorem checksum_catches_corrupted :
    start.recoverState corrupted = (start, .error ⟨.persistenceChecksumMismatch, "state checksum mismatch"⟩) := by
  have hcorrupt : CorruptedWithin 1 2 guarded corrupted := by
    refine ⟨rfl, by decide, fun j hj => ?_⟩
    match j with
    | 0 => rfl
    | 1 => omega
    | j + 2 => rfl
  exact checksum_catches_corruption (by decide) (by decide) (.inl ⟨1, 2, by decide, by decide, hcorrupt⟩) _

end DecodeFabric
