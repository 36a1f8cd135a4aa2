/-
Serial numbers: comparison of counters that wrap.

A counter of `w` bits that is incremented forever cannot be compared by `<`.
The usual remedy reads the unsigned difference `a - b` as a signed number and
calls `a` smaller when that number is negative (`Serial.Lt`).  The relation is
not transitive; it is an order only on numbers that lie close together.

* `lt_ofNat_iff`, `le_ofNat_iff` — on the images of two unbounded counters that
  differ by less than half the number space, it is the order of the counters;
* `exists_index` — every `w`-bit number is the image of exactly one counter in
  a full turn starting anywhere, so a received number can be lifted to an
  unbounded index relative to what the receiver expects next.
-/
import Mathlib

namespace Serial

variable {w : ℕ}

/-- `a` precedes `b`: the difference, read as a signed number, is negative. -/
def Lt (a b : BitVec w) : Prop := (a - b).toInt < 0

/-- `a` precedes or equals `b`. -/
def Le (a b : BitVec w) : Prop := (a - b).toInt ≤ 0

instance (a b : BitVec w) : Decidable (Lt a b) := inferInstanceAs (Decidable (_ < _))
instance (a b : BitVec w) : Decidable (Le a b) := inferInstanceAs (Decidable (_ ≤ _))

theorem toInt_sub_ofNat (i j : ℕ) :
    (BitVec.ofNat w i - BitVec.ofNat w j).toInt = ((i : ℤ) - j).bmod (2 ^ w) := by
  rw [BitVec.toInt_sub, BitVec.toInt_ofNat', BitVec.toInt_ofNat', Int.bmod_sub_bmod,
    Int.sub_bmod_bmod]

/-- A difference inside the signed range survives the wrap unchanged. -/
theorem bmod_of_near {d : ℤ} (hlo : -2 ^ w ≤ d) (hhi : d < 2 ^ w) :
    d.bmod (2 ^ (w + 1)) = d := by
  have hpow : (2 : ℤ) ^ (w + 1) = 2 * 2 ^ w := by ring
  apply Int.bmod_eq_of_le
  · push_cast; rw [hpow]; omega
  · push_cast; rw [hpow]; omega

/-- Counters less than half the number space apart compare as they should. -/
theorem lt_ofNat_iff {i j : ℕ} (hij : i < j + 2 ^ w) (hji : j ≤ i + 2 ^ w) :
    Lt (BitVec.ofNat (w + 1) i) (BitVec.ofNat (w + 1) j) ↔ i < j := by
  have hi : (i : ℤ) < j + 2 ^ w := by exact_mod_cast hij
  have hj : (j : ℤ) ≤ i + 2 ^ w := by exact_mod_cast hji
  rw [Lt, toInt_sub_ofNat, bmod_of_near (by omega) (by omega)]
  omega

theorem le_ofNat_iff {i j : ℕ} (hij : i < j + 2 ^ w) (hji : j ≤ i + 2 ^ w) :
    Le (BitVec.ofNat (w + 1) i) (BitVec.ofNat (w + 1) j) ↔ i ≤ j := by
  have hi : (i : ℤ) < j + 2 ^ w := by exact_mod_cast hij
  have hj : (j : ℤ) ≤ i + 2 ^ w := by exact_mod_cast hji
  rw [Le, toInt_sub_ofNat, bmod_of_near (by omega) (by omega)]
  omega

/-- Ahead by half the number space or more reads as behind. -/
theorem lt_ofNat_of_far {i j : ℕ} (hlo : j + 2 ^ w ≤ i) (hhi : i < j + 2 ^ (w + 1)) :
    Lt (BitVec.ofNat (w + 1) i) (BitVec.ofNat (w + 1) j) := by
  have hi : (i : ℤ) ≥ j + 2 ^ w := by exact_mod_cast hlo
  have hi' : (i : ℤ) < j + 2 ^ (w + 1) := by exact_mod_cast hhi
  have hpow' : (2 : ℤ) ^ (w + 1) = 2 * 2 ^ w := by ring
  have hmod : ((i : ℤ) - j).bmod (2 ^ (w + 1)) = i - j - 2 ^ (w + 1) := by
    rw [← bmod_of_near (w := w) (d := (i : ℤ) - j - 2 ^ (w + 1)) (by omega) (by omega)]
    have h := Int.add_mul_bmod_self_right ((i : ℤ) - j) (-1) (2 ^ (w + 1))
    push_cast at h
    rw [← h]
    congr 1
    ring
  rw [Lt, toInt_sub_ofNat, hmod]
  omega

/-- Every number is the image of exactly one index in the turn that starts at `n`. -/
theorem exists_index (n : ℕ) (a : BitVec w) :
    ∃ i, n ≤ i ∧ i < n + 2 ^ w ∧ BitVec.ofNat w i = a := by
  refine ⟨n + (a - BitVec.ofNat w n).toNat, by omega, ?_, ?_⟩
  · have := (a - BitVec.ofNat w n).isLt
    omega
  · rw [BitVec.ofNat_add, BitVec.ofNat_toNat, BitVec.setWidth_eq, BitVec.add_comm,
      BitVec.sub_add_cancel]

/-- Two indices in one turn with the same image are equal. -/
theorem ofNat_inj_near {i j : ℕ} (h : BitVec.ofNat w i = BitVec.ofNat w j)
    (hij : i < j + 2 ^ w) (hji : j < i + 2 ^ w) : i = j := by
  have hmod : i % 2 ^ w = j % 2 ^ w := by
    simpa using congrArg BitVec.toNat h
  rcases le_total i j with hle | hle
  · have hd : 2 ^ w ∣ j - i := (Nat.modEq_iff_dvd' hle).mp hmod
    have := Nat.eq_zero_of_dvd_of_lt hd (by omega)
    omega
  · have hd : 2 ^ w ∣ i - j := (Nat.modEq_iff_dvd' hle).mp hmod.symm
    have := Nat.eq_zero_of_dvd_of_lt hd (by omega)
    omega

/-! ### Distances from a base -/

/-- How far `a` is ahead of `b`. -/
def dist (b a : BitVec w) : ℕ := (a - b).toNat

theorem ofNat_dist (b a : BitVec w) : BitVec.ofNat w (b.toNat + dist b a) = a := by
  rw [dist, BitVec.ofNat_add, BitVec.ofNat_toNat, BitVec.ofNat_toNat, BitVec.setWidth_eq,
    BitVec.setWidth_eq, BitVec.add_comm, BitVec.sub_add_cancel]

theorem dist_inj {b x y : BitVec w} : dist b x = dist b y ↔ x = y := by
  refine ⟨fun h => ?_, fun h => by rw [h]⟩
  rw [← ofNat_dist b x, h, ofNat_dist]

/-- Numbers at most half the number space apart compare as their distances do. -/
theorem lt_iff_dist {b x y : BitVec (w + 1)} (hxy : dist b x < dist b y + 2 ^ w)
    (hyx : dist b y ≤ dist b x + 2 ^ w) : Lt x y ↔ dist b x < dist b y := by
  have h := lt_ofNat_iff (w := w) (i := b.toNat + dist b x) (j := b.toNat + dist b y)
    (by omega) (by omega)
  rw [ofNat_dist, ofNat_dist] at h
  rw [h]
  omega

/-- Numbers that are ahead by half the number space or more compare the other way. -/
theorem lt_of_dist_far {b x y : BitVec (w + 1)} (h : dist b y + 2 ^ w ≤ dist b x) : Lt x y := by
  have hlt : dist b x < 2 ^ (w + 1) := (x - b).isLt
  have hfar := lt_ofNat_of_far (w := w) (i := b.toNat + dist b x) (j := b.toNat + dist b y)
    (by omega) (by omega)
  rwa [ofNat_dist, ofNat_dist] at hfar

theorem dist_sub_one {b a : BitVec (w + 1)} (h : 0 < dist b a) :
    dist b (a - 1) = dist b a - 1 := by
  have hone : (1 : BitVec (w + 1)).toNat = 1 := by simp
  have hle : (1 : BitVec (w + 1)) ≤ a - b := by
    rw [BitVec.le_def, hone]
    exact h
  rw [dist, sub_right_comm, BitVec.toNat_sub_of_le hle, hone]
  rfl

theorem dist_self_sub_one (a : BitVec (w + 1)) : dist (a - 1) a = 1 := by
  rw [dist, sub_sub_cancel]
  simp

end Serial
