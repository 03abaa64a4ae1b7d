import DecodeFabric.Lib.Codec
import Mathlib.Logic.Function.Iterate

/- Cyclic redundancy checks, bit by bit.

   A register of `w` bits is shifted down one bit at a time, and the polynomial is added whenever a one
   falls out. Shifting is linear for exclusive or (`step_xor`) and, as the top bit of the polynomial is
   set, loses nothing (`step_injective`). A string no longer than the register therefore enters it as one
   word (`feed_short`), and two strings that differ in such a window only leave different registers,
   whatever stands before and after it (`feed_window`). -/
namespace Lib
namespace Crc
variable {w : Nat} {p : BitVec w}

/-- One bit out of the register. -/
def step (p c : BitVec w) : BitVec w := if c.getLsbD 0 then (c >>> 1) ^^^ p else c >>> 1

/-- A string through the register, each byte added at the low end. -/
def feed (p c : BitVec w) (bytes : List UInt8) : BitVec w :=
  bytes.foldl (fun c b => (step p)^[8] (c ^^^ BitVec.ofNat w b.toNat)) c

theorem feed_cons (p c : BitVec w) (b : UInt8) (bytes : List UInt8) :
    feed p c (b :: bytes) = feed p ((step p)^[8] (c ^^^ BitVec.ofNat w b.toNat)) bytes := rfl

theorem feed_append (p c : BitVec w) (u v : List UInt8) : feed p c (u ++ v) = feed p (feed p c u) v :=
  List.foldl_append

/-! One bit. -/

theorem step_xor (p a b : BitVec w) : step p (a ^^^ b) = step p a ^^^ step p b := by
  unfold step
  simp only [BitVec.getLsbD_xor, BitVec.ushiftRight_xor_distrib]
  cases a.getLsbD 0 <;> cases b.getLsbD 0
  · rfl
  · exact BitVec.xor_assoc _ _ _
  · change _ = (a >>> 1 ^^^ p) ^^^ b >>> 1
    ac_rfl
  · change a >>> 1 ^^^ b >>> 1 = (a >>> 1 ^^^ p) ^^^ (b >>> 1 ^^^ p)
    have hcancel : p ^^^ (b >>> 1 ^^^ p) = b >>> 1 := by
      rw [BitVec.xor_comm (b >>> 1), ← BitVec.xor_assoc, BitVec.xor_self, BitVec.zero_xor]
    rw [BitVec.xor_assoc, hcancel]

/-- The bit that falls out comes back in at the top. -/
theorem msb_step (hp : p.msb = true) (c : BitVec w) : (step p c).msb = c.getLsbD 0 := by
  unfold step
  cases hc : c.getLsbD 0 with
  | true => simp [BitVec.msb_xor, BitVec.msb_ushiftRight, hp]
  | false => simp [BitVec.msb_ushiftRight]

theorem step_injective (hp : p.msb = true) : Function.Injective (step p) := by
  intro a b h
  have hlow : a.getLsbD 0 = b.getLsbD 0 := by rw [← msb_step hp, ← msb_step hp, h]
  have hrest : a >>> 1 = b >>> 1 := by
    unfold step at h
    rw [hlow] at h
    split at h
    · exact (BitVec.xor_left_inj p).mp h
    · exact h
  apply BitVec.eq_of_getLsbD_eq
  intro i _
  cases i with
  | zero => exact hlow
  | succ i =>
    have hbit := congrArg (fun c : BitVec w => c.getLsbD i) hrest
    simpa only [BitVec.getLsbD_ushiftRight, Nat.add_comm] using hbit

/-! Several bits. -/

theorem steps_xor (p : BitVec w) : ∀ (n : Nat) (a b : BitVec w),
    (step p)^[n] (a ^^^ b) = (step p)^[n] a ^^^ (step p)^[n] b
  | 0, _, _ => rfl
  | n + 1, a, b => by
    rw [Function.iterate_succ_apply, Function.iterate_succ_apply, Function.iterate_succ_apply, step_xor]
    exact steps_xor p n _ _

/-- Bits that only move down, none of them a one that falls out. -/
theorem steps_shift (p : BitVec w) (x : Nat) : ∀ n : Nat, x * 2 ^ n < 2 ^ w →
    (step p)^[n] (BitVec.ofNat w (x * 2 ^ n)) = BitVec.ofNat w x
  | 0, _ => by rw [Nat.pow_zero, Nat.mul_one]; rfl
  | n + 1, hfits => by
    have hdouble : x * 2 ^ (n + 1) = 2 * (x * 2 ^ n) := by rw [Nat.pow_succ]; ac_rfl
    have hlow : (BitVec.ofNat w (x * 2 ^ (n + 1))).getLsbD 0 = false := by
      rw [hdouble, BitVec.getLsbD_ofNat, Nat.testBit_zero]
      simp
    have hstep : step p (BitVec.ofNat w (x * 2 ^ (n + 1))) = BitVec.ofNat w (x * 2 ^ n) := by
      unfold step
      rw [hlow]
      apply BitVec.eq_of_toNat_eq
      rw [hdouble] at hfits ⊢
      simp only [Bool.false_eq_true, if_false, BitVec.toNat_ushiftRight, BitVec.toNat_ofNat, Nat.mod_eq_of_lt hfits,
        Nat.shiftRight_eq_div_pow]
      rw [Nat.mod_eq_of_lt (by omega)]
      omega
    rw [Function.iterate_succ_apply, hstep]
    exact steps_shift p x n (by omega)

/-! Strings. -/

/-- The low byte of a word and the rest of it do not meet. -/
theorem ofNat_getLE_cons (w : Nat) (b : UInt8) (bytes : List UInt8) :
    BitVec.ofNat w (getLE (b :: bytes)) = BitVec.ofNat w b.toNat ^^^ BitVec.ofNat w (getLE bytes * 2 ^ 8) := by
  have hb : b.toNat < 2 ^ 8 := b.toNat_lt
  have hword : getLE (b :: bytes) = 2 ^ 8 * getLE bytes + b.toNat := Nat.add_comm _ _
  apply BitVec.eq_of_getLsbD_eq
  intro i hi
  rw [hword, Nat.mul_comm (getLE bytes)]
  simp only [BitVec.getLsbD_xor, BitVec.getLsbD_ofNat, hi, decide_true, Bool.true_and, Nat.testBit_two_pow_mul_add _ hb,
    Nat.testBit_two_pow_mul]
  by_cases hlow : i < 8
  · simp [hlow, Nat.not_le.mpr hlow]
  · have hhigh : b.toNat.testBit i = false :=
      Nat.testBit_lt_two_pow (Nat.lt_of_lt_of_le hb (Nat.pow_le_pow_right (by decide) (Nat.le_of_not_lt hlow)))
    simp [hlow, Nat.le_of_not_lt hlow, hhigh]

/-- A string no longer than the register enters it as one little-endian word. -/
theorem feed_short (p : BitVec w) : ∀ (bytes : List UInt8) (c : BitVec w), 8 * bytes.length ≤ w →
    feed p c bytes = (step p)^[8 * bytes.length] (c ^^^ BitVec.ofNat w (getLE bytes))
  | [], c, _ => by simp [feed, getLE]
  | b :: bytes, c, hlen => by
    have hroom : 8 * bytes.length + 8 ≤ w := hlen
    have hfits : getLE bytes * 2 ^ 8 < 2 ^ w :=
      calc getLE bytes * 2 ^ 8 < 256 ^ bytes.length * 2 ^ 8 := Nat.mul_lt_mul_of_pos_right (getLE_lt bytes) (by decide)
        _ = 2 ^ (8 * bytes.length + 8) := by rw [Nat.pow_add, Nat.pow_mul]
        _ ≤ 2 ^ w := Nat.pow_le_pow_right (by decide) hroom
    calc feed p c (b :: bytes)
        = (step p)^[8 * bytes.length]
            ((step p)^[8] (c ^^^ BitVec.ofNat w b.toNat) ^^^ BitVec.ofNat w (getLE bytes)) := by
          rw [feed_cons, feed_short p bytes _ (by omega)]
      _ = (step p)^[8 * bytes.length] ((step p)^[8] (c ^^^ BitVec.ofNat w (getLE (b :: bytes)))) := by
          rw [ofNat_getLE_cons, ← BitVec.xor_assoc, steps_xor p 8 (c ^^^ _), steps_shift p _ 8 hfits]
      _ = (step p)^[8 * (b :: bytes).length] (c ^^^ BitVec.ofNat w (getLE (b :: bytes))) := by
          rw [← Function.iterate_add_apply]
          rfl

theorem feed_injective (hp : p.msb = true) : ∀ (bytes : List UInt8) {c d : BitVec w},
    feed p c bytes = feed p d bytes → c = d
  | [], _, _, h => h
  | b :: bytes, c, d, h => by
    rw [feed_cons, feed_cons] at h
    have hfirst := (step_injective hp).iterate 8 (feed_injective hp bytes h)
    exact (BitVec.xor_left_inj _).mp hfirst

/-- Strings that differ in a window of the register's size only, and leave the same register, do not differ. -/
theorem feed_window (hp : p.msb = true) (c : BitVec w) {u v : List UInt8} (before after : List UInt8)
    (hlen : u.length = v.length) (hroom : 8 * u.length ≤ w)
    (h : feed p c (before ++ u ++ after) = feed p c (before ++ v ++ after)) : u = v := by
  rw [feed_append, feed_append, feed_append p c _ after, feed_append p c _ v] at h
  have hwindow := feed_injective hp after h
  rw [feed_short p u _ hroom, feed_short p v _ (hlen ▸ hroom), ← hlen] at hwindow
  have hword := (BitVec.xor_right_inj _).mp ((step_injective hp).iterate _ hwindow)
  refine getLE_inj hlen ?_
  have hfits : ∀ x : List UInt8, 8 * x.length ≤ w → getLE x < 2 ^ w := fun x hx =>
    calc getLE x < 256 ^ x.length := getLE_lt x
      _ = 2 ^ (8 * x.length) := by rw [Nat.pow_mul]
      _ ≤ 2 ^ w := Nat.pow_le_pow_right (by decide) hx
  have hnat := congrArg BitVec.toNat hword
  rwa [BitVec.toNat_ofNat, BitVec.toNat_ofNat, Nat.mod_eq_of_lt (hfits u hroom),
    Nat.mod_eq_of_lt (hfits v (hlen ▸ hroom))]
    at hnat

end Crc
end Lib
