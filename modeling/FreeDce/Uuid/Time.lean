/-
Times and UUIDs as numbers.

The two-word operations of uuid_i.h add, multiply and compare the numbers that the
words stand for, the clock stays far below the 60 bits that a UUID keeps of a time,
and a UUID determines the time and the clock sequence number it was made from.
-/
import FreeDce.Uuid.Create

namespace Uuid

/-! ### Two-word operations -/

theorem timeCmp_lt_iff {t u : UuidTime} : timeCmp t u = .lt ↔ t.val < u.val := by
  have h1 := t.lo.isLt
  have h2 := u.lo.isLt
  unfold timeCmp UuidTime.val
  simp only [BitVec.lt_def]
  split_ifs <;> simp <;> omega

theorem timeCmp_gt_iff {t u : UuidTime} : timeCmp t u = .gt ↔ u.val < t.val := by
  have h1 := t.lo.isLt
  have h2 := u.lo.isLt
  unfold timeCmp UuidTime.val
  simp only [BitVec.lt_def]
  split_ifs <;> simp <;> omega

theorem timeCmp_eq_iff {t u : UuidTime} : timeCmp t u = .eq ↔ t.val = u.val := by
  have h1 := t.lo.isLt
  have h2 := u.lo.isLt
  unfold timeCmp UuidTime.val
  simp only [BitVec.lt_def]
  split_ifs <;> simp <;> omega

theorem uaddUw2Uvlw_val {a : BitVec 16} {t : UuidTime}
    (h : t.val + a.toNat < 2 ^ 64) : (uaddUw2Uvlw a t).val = t.val + a.toNat := by
  have h1 := t.lo.isLt
  have h2 := t.hi.isLt
  have h3 := a.isLt
  have hone : (1 : BitVec 32).toNat = 1 := rfl
  unfold UuidTime.val at h
  unfold uaddUw2Uvlw UuidTime.val
  simp only [BitVec.msb_eq_decide, decide_eq_true_eq, BitVec.toNat_add, BitVec.toNat_setWidth]
  split_ifs <;> simp only [BitVec.toNat_add, BitVec.toNat_setWidth, hone] <;> omega

theorem uaddUvlw2Uvlw_val {t u : UuidTime} (h : t.val + u.val < 2 ^ 64) :
    (uaddUvlw2Uvlw t u).val = t.val + u.val := by
  have h1 := t.lo.isLt
  have h2 := t.hi.isLt
  have h3 := u.lo.isLt
  have h4 := u.hi.isLt
  have hone : (1 : BitVec 32).toNat = 1 := rfl
  unfold UuidTime.val at h
  unfold uaddUvlw2Uvlw UuidTime.val
  simp only [BitVec.msb_eq_decide, decide_eq_true_eq, BitVec.toNat_add, decide_eq_decide]
  split_ifs <;> simp only [BitVec.toNat_add, hone] <;> omega

theorem toNat_lowWord (x : BitVec 32) : (x &&& 0xffff).toNat = x.toNat % 2 ^ 16 := by
  rw [BitVec.toNat_and]
  exact Nat.and_two_pow_sub_one_eq_mod x.toNat 16

theorem toNat_highWord (x : BitVec 32) : (x >>> 16).toNat = x.toNat / 2 ^ 16 := by
  rw [BitVec.toNat_ushiftRight, Nat.shiftRight_eq_div_pow]

theorem word_mul_le {a b : ℕ} (ha : a < 2 ^ 16) (hb : b < 2 ^ 16) :
    a * b ≤ (2 ^ 16 - 1) * (2 ^ 16 - 1) :=
  Nat.mul_le_mul (by omega) (by omega)

theorem uemul_val (u v : BitVec 32) : (uemul u v).val = u.toNat * v.toNat := by
  have hu := u.isLt
  have hv := v.isLt
  set u1 := u.toNat / 2 ^ 16 with hu1
  set u2 := u.toNat % 2 ^ 16 with hu2
  set v1 := v.toNat / 2 ^ 16 with hv1
  set v2 := v.toNat % 2 ^ 16 with hv2
  have hsplit : u.toNat * v.toNat
      = u1 * v1 * 2 ^ 32 + (u1 * v2 + u2 * v1) * 2 ^ 16 + u2 * v2 := by
    have hu' : u.toNat = u1 * 2 ^ 16 + u2 := by omega
    have hv' : v.toNat = v1 * 2 ^ 16 + v2 := by omega
    rw [hu', hv']
    ring
  -- each product of two halves fits, and the rest is linear in them
  have h22 : u2 * v2 ≤ _ := word_mul_le (by omega) (by omega)
  have h12 : u1 * v2 ≤ _ := word_mul_le (by omega) (by omega)
  have h21 : u2 * v1 ≤ _ := word_mul_le (by omega) (by omega)
  have h11 : u1 * v1 ≤ _ := word_mul_le (by omega) (by omega)
  rw [hsplit]
  unfold uemul UuidTime.val
  simp only [BitVec.toNat_add, BitVec.toNat_mul, BitVec.toNat_shiftLeft, toNat_lowWord,
    toNat_highWord, Nat.shiftLeft_eq, ← hu1, ← hu2, ← hv1, ← hv2]
  generalize u2 * v2 = p at *
  generalize u1 * v2 = q at *
  generalize u2 * v1 = r at *
  generalize u1 * v1 = s at *
  omega

/-! ### The clock -/

/-- The clock counts from 15 October 1582 and has room for the adjustment in 60 bits. -/
theorem getOsTime_val (tp : Timeval) :
    (getOsTime tp).val = tp.usec.toNat * 10 + tp.sec.toNat * 10000000 + 0x01B21DD213814000 := by
  have hsec := tp.sec.isLt
  have husec := tp.usec_lt
  have hten : (10 : BitVec 32).toNat = 10 := rfl
  have hten7 : (10000000 : BitVec 32).toNat = 10000000 := rfl
  have hbase : UuidTime.val { lo := 0x13814000, hi := 0x01B21DD2 } = 0x01B21DD213814000 := by
    decide
  have hsum : (uaddUvlw2Uvlw (uemul tp.usec 10) (uemul tp.sec 10000000)).val
      = tp.usec.toNat * 10 + tp.sec.toNat * 10000000 := by
    rw [uaddUvlw2Uvlw_val, uemul_val, uemul_val, hten, hten7]
    rw [uemul_val, uemul_val, hten, hten7]
    omega
  rw [getOsTime, uaddUvlw2Uvlw_val, hsum, hbase]
  rw [hsum, hbase]
  omega

theorem getOsTime_lt (tp : Timeval) : (getOsTime tp).val < 2 ^ 58 := by
  have hsec := tp.sec.isLt
  have husec := tp.usec_lt
  rw [getOsTime_val]
  omega

/-! ### UUIDs -/

/-- The time of a UUID. -/
def UuidT.time (u : UuidT) : ℕ :=
  u.timeLow.toNat + u.timeMid.toNat * 2 ^ 32 + u.timeHiAndVersion.toNat % 2 ^ 12 * 2 ^ 48

/-- The clock sequence number of a UUID. -/
def UuidT.clockSeq (u : UuidT) : ℕ :=
  u.clockSeqLow.toNat + u.clockSeqHiAndReserved.toNat % 2 ^ 6 * 2 ^ 8

theorem timeHi_bits (hi : BitVec 32) :
    (((hi &&& 0x0fff0000) >>> 16).setWidth 16 ||| 0x1000 : BitVec 16).toNat % 2 ^ 12
      = hi.toNat / 2 ^ 16 % 2 ^ 12 := by
  have hmask : (hi &&& 0x0fff0000) >>> 16 = hi >>> 16 &&& (0x0fff : BitVec 32) := by
    rw [BitVec.ushiftRight_and_distrib]
    rfl
  have hlow : (hi >>> 16 &&& (0x0fff : BitVec 32)).toNat = hi.toNat / 2 ^ 16 % 2 ^ 12 := by
    rw [BitVec.toNat_and, toNat_highWord]
    exact Nat.and_two_pow_sub_one_eq_mod _ 12
  rw [hmask, BitVec.toNat_or, Nat.or_mod_two_pow, BitVec.toNat_setWidth, hlow]
  have hversion : (0x1000 : BitVec 16).toNat % 2 ^ 12 = 0 := rfl
  rw [hversion, Nat.or_zero]
  omega

theorem clockSeqHi_bits (c : BitVec 16) :
    (((c &&& 0x3f00) >>> 8).setWidth 8 ||| 0x80 : BitVec 8).toNat % 2 ^ 6
      = c.toNat / 2 ^ 8 % 2 ^ 6 := by
  have hmask : (c &&& 0x3f00) >>> 8 = c >>> 8 &&& (0x3f : BitVec 16) := by
    rw [BitVec.ushiftRight_and_distrib]
    rfl
  have hlow : (c >>> 8 &&& (0x3f : BitVec 16)).toNat = c.toNat / 2 ^ 8 % 2 ^ 6 := by
    rw [BitVec.toNat_and, BitVec.toNat_ushiftRight, Nat.shiftRight_eq_div_pow]
    exact Nat.and_two_pow_sub_one_eq_mod _ 6
  rw [hmask, BitVec.toNat_or, Nat.or_mod_two_pow, BitVec.toNat_setWidth, hlow]
  have hreserved : (0x80 : BitVec 8).toNat % 2 ^ 6 = 0 := rfl
  rw [hreserved, Nat.or_zero]
  omega

theorem construct_time {t : UuidTime} (h : t.val < 2 ^ 60) (c : BitVec 16) (eaddr : BitVec 48) :
    (construct t c eaddr).time = t.val := by
  have hlo := t.lo.isLt
  have hmid : ((t.hi &&& 0x0000ffff).setWidth 16 : BitVec 16).toNat = t.hi.toNat % 2 ^ 16 := by
    rw [BitVec.toNat_setWidth]
    have hand := toNat_lowWord t.hi
    omega
  unfold UuidTime.val at h ⊢
  rw [UuidT.time, construct]
  dsimp only
  rw [timeHi_bits, hmid]
  omega

theorem construct_clockSeq (t : UuidTime) (c : BitVec 16) (eaddr : BitVec 48) :
    (construct t c eaddr).clockSeq = c.toNat % 2 ^ 14 := by
  have hlow : ((c &&& 0xff).setWidth 8 : BitVec 8).toNat = c.toNat % 2 ^ 8 := by
    rw [BitVec.toNat_setWidth, BitVec.toNat_and]
    have hand : c.toNat &&& 255 = c.toNat % 2 ^ 8 := Nat.and_two_pow_sub_one_eq_mod c.toNat 8
    change (c.toNat &&& 255) % 2 ^ 8 = _
    rw [hand]
    omega
  rw [UuidT.clockSeq, construct]
  dsimp only
  rw [clockSeqHi_bits, hlow]
  omega

end Uuid
