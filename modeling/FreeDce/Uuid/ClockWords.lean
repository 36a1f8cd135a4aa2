/-
The two-word arithmetic of the clock, in memory (uuid_i.h, uuidsys.c).

The macros read the addends through pointers and write the sum one word after the other; the sum may
be one of the addends.

* `Adds` — the sum is there modulo `2 ^ 64`, and nothing else has changed;
* `uaddUvlw2UvlwAt_eq`, `uaddUlw2UvlwAt_eq`, `uaddUw2UvlwAt_eq` — in memory the macros do what they
  do on values, whichever pointers are the same;
* `uaddUlw2Uvlw_val_iff` — the variant for a longword carries where it should not;
* `clock_words_exact_iff` — products, sums and the clock.
-/
import FreeDce.Uuid.Time

namespace Uuid

/-! ### The macros on values -/

/-- `UADD_ULW_2_UVLW`. -/
def uaddUlw2Uvlw (add1 : BitVec 32) (add2 : UuidTime) : UuidTime :=
  let lo := add1 + add2.lo
  if add1.msb && add2.lo.msb then { lo := lo, hi := add2.hi + 1 }
  else { lo := lo, hi := if lo.msb then add2.hi else add2.hi + 1 }

/-! ### The macros in memory -/

variable {ι : Type*} [DecidableEq ι]

/-- The objects that the pointers lead to. -/
abbrev Objects (ι : Type*) := ι → UuidTime

def Objects.setLo (m : Objects ι) (p : ι) (lo : BitVec 32) : Objects ι :=
  Function.update m p { m p with lo := lo }

def Objects.setHi (m : Objects ι) (p : ι) (hi : BitVec 32) : Objects ι :=
  Function.update m p { m p with hi := hi }

/-- `UADD_UVLW_2_UVLW`. -/
def uaddUvlw2UvlwAt (m : Objects ι) (add1 add2 sum : ι) : Objects ι :=
  if (m add1).lo.msb = (m add2).lo.msb then
    if (m add1).lo.msb then
      let m := m.setLo sum ((m add1).lo + (m add2).lo)
      m.setHi sum ((m add1).hi + (m add2).hi + 1)
    else
      let m := m.setLo sum ((m add1).lo + (m add2).lo)
      m.setHi sum ((m add1).hi + (m add2).hi)
  else
    let m := m.setLo sum ((m add1).lo + (m add2).lo)
    let m := m.setHi sum ((m add1).hi + (m add2).hi)
    if (m sum).lo.msb then m else m.setHi sum ((m sum).hi + 1)

/-- `UADD_ULW_2_UVLW`.  The longword is in no object of 64 bits. -/
def uaddUlw2UvlwAt (m : Objects ι) (add1 : BitVec 32) (add2 sum : ι) : Objects ι :=
  let m := m.setHi sum (m add2).hi
  if add1.msb && (m add2).lo.msb then
    let m := m.setLo sum (add1 + (m add2).lo)
    m.setHi sum ((m sum).hi + 1)
  else
    let m := m.setLo sum (add1 + (m add2).lo)
    if (m sum).lo.msb then m else m.setHi sum ((m sum).hi + 1)

/-- `UADD_UW_2_UVLW`. -/
def uaddUw2UvlwAt (m : Objects ι) (add1 : BitVec 16) (add2 sum : ι) : Objects ι :=
  let m := m.setHi sum (m add2).hi
  if (m add2).lo.msb then
    let m := m.setLo sum (add1.setWidth 32 + (m add2).lo)
    if (m sum).lo.msb then m else m.setHi sum ((m sum).hi + 1)
  else m.setLo sum (add1.setWidth 32 + (m add2).lo)

/-- The variables of `uuid__get_os_time` and the time it is to store. -/
inductive ClockObject
  | utc
  | usecs
  | osBasetimeDiff
  | uuidTime
deriving DecidableEq

/-- `uuid__get_os_time`. -/
def getOsTimeAt (m : Objects ClockObject) (tp : Timeval) : Objects ClockObject :=
  let m := Function.update m .utc (uemul tp.sec 10000000)
  let m := Function.update m .usecs (uemul tp.usec 10)
  let m := uaddUvlw2UvlwAt m .usecs .utc .utc
  let m := m.setLo .osBasetimeDiff 0x13814000
  let m := m.setHi .osBasetimeDiff 0x01B21DD2
  uaddUvlw2UvlwAt m .utc .osBasetimeDiff .uuidTime

/-! ### The memory does not matter -/

variable {m : Objects ι} {p q : ι}

theorem Objects.hi_setLo (lo : BitVec 32) : (m.setLo p lo q).hi = (m q).hi := by
  rw [Objects.setLo]
  by_cases h : q = p
  · rw [h, Function.update_self]
  · rw [Function.update_of_ne h]

theorem Objects.lo_setHi (hi : BitVec 32) : (m.setHi p hi q).lo = (m q).lo := by
  rw [Objects.setHi]
  by_cases h : q = p
  · rw [h, Function.update_self]
  · rw [Function.update_of_ne h]

theorem Objects.setHi_setLo (lo hi : BitVec 32) :
    (m.setLo p lo).setHi p hi = Function.update m p ⟨lo, hi⟩ := by
  simp only [Objects.setHi, Objects.setLo, Function.update_idem, Function.update_self]

theorem Objects.setLo_setHi (lo hi : BitVec 32) :
    (m.setHi p hi).setLo p lo = Function.update m p ⟨lo, hi⟩ := by
  simp only [Objects.setHi, Objects.setLo, Function.update_idem, Function.update_self]

theorem Objects.setHi_update (t : UuidTime) (hi : BitVec 32) :
    Objects.setHi (Function.update m p t) p hi = Function.update m p { t with hi := hi } := by
  simp only [Objects.setHi, Function.update_idem, Function.update_self]

theorem uaddUvlw2UvlwAt_eq (m : Objects ι) (add1 add2 sum : ι) :
    uaddUvlw2UvlwAt m add1 add2 sum =
      Function.update m sum (uaddUvlw2Uvlw (m add1) (m add2)) := by
  rw [uaddUvlw2UvlwAt, uaddUvlw2Uvlw]
  simp only [Objects.hi_setLo, Objects.setHi_setLo]
  split
  · -- the signs are read before anything is written
    split
    · rfl
    · rfl
  · simp only [Function.update_self]
    split
    · rfl
    · rw [Objects.setHi_update]

theorem uaddUlw2UvlwAt_eq (m : Objects ι) (add1 : BitVec 32) (add2 sum : ι) :
    uaddUlw2UvlwAt m add1 add2 sum = Function.update m sum (uaddUlw2Uvlw add1 (m add2)) := by
  rw [uaddUlw2UvlwAt, uaddUlw2Uvlw]
  simp only [Objects.lo_setHi, Objects.setLo_setHi, Function.update_self, Objects.setHi_update]
  split
  · rfl
  · split
    · rfl
    · rfl

theorem uaddUw2UvlwAt_eq (m : Objects ι) (add1 : BitVec 16) (add2 sum : ι) :
    uaddUw2UvlwAt m add1 add2 sum = Function.update m sum (uaddUw2Uvlw add1 (m add2)) := by
  rw [uaddUw2UvlwAt, uaddUw2Uvlw]
  simp only [Objects.lo_setHi, Objects.setLo_setHi, Function.update_self, Objects.setHi_update]
  split
  · split
    · rfl
    · rfl
  · rfl

/-- The clock in memory is the clock on values, also where the sum is an addend. -/
theorem getOsTimeAt_uuidTime (m : Objects ClockObject) (tp : Timeval) :
    getOsTimeAt m tp .uuidTime = getOsTime tp := by
  simp only [getOsTimeAt, uaddUvlw2UvlwAt_eq, Function.update_self, Objects.setHi_setLo, getOsTime]
  simp

/-! ### The sums -/

/-- The sum is there modulo `2 ^ 64`, and the other objects are as they were. -/
def Adds (m m' : Objects ι) (sum : ι) (n : ℕ) : Prop :=
  (m' sum).val = n % 2 ^ 64 ∧ ∀ q, q ≠ sum → m' q = m q

theorem adds_update_iff {sum : ι} {t : UuidTime} {n : ℕ} :
    Adds m (Function.update m sum t) sum n ↔ t.val = n % 2 ^ 64 := by
  rw [Adds, Function.update_self]
  refine and_iff_left fun q hq => ?_
  exact Function.update_of_ne hq t m

theorem uaddUvlw2Uvlw_mod (t u : UuidTime) :
    (uaddUvlw2Uvlw t u).val = (t.val + u.val) % 2 ^ 64 := by
  have h1 := t.lo.isLt
  have h2 := t.hi.isLt
  have h3 := u.lo.isLt
  have h4 := u.hi.isLt
  have hone : (1 : BitVec 32).toNat = 1 := rfl
  simp only [uaddUvlw2Uvlw, UuidTime.val, BitVec.msb_eq_decide, decide_eq_true_eq,
    BitVec.toNat_add, decide_eq_decide]
  split_ifs <;> simp only [BitVec.toNat_add, hone] <;> omega

theorem uaddUw2Uvlw_mod (a : BitVec 16) (t : UuidTime) :
    (uaddUw2Uvlw a t).val = (a.toNat + t.val) % 2 ^ 64 := by
  have h1 := t.lo.isLt
  have h2 := t.hi.isLt
  have h3 := a.isLt
  have hone : (1 : BitVec 32).toNat = 1 := rfl
  simp only [uaddUw2Uvlw, UuidTime.val, BitVec.msb_eq_decide, decide_eq_true_eq,
    BitVec.toNat_add, BitVec.toNat_setWidth]
  split_ifs <;> simp only [BitVec.toNat_add, BitVec.toNat_setWidth, hone] <;> omega

/-- With both signs clear the variant for a longword takes a clear sign of the sum for a carry. -/
theorem uaddUlw2Uvlw_val_iff (a : BitVec 32) (t : UuidTime) :
    (uaddUlw2Uvlw a t).val = (a.toNat + t.val) % 2 ^ 64 ↔
      2 ^ 31 ≤ a.toNat + t.lo.toNat := by
  have h1 := t.lo.isLt
  have h2 := t.hi.isLt
  have h3 := a.isLt
  have hone : (1 : BitVec 32).toNat = 1 := rfl
  simp only [uaddUlw2Uvlw, UuidTime.val, BitVec.msb_eq_decide, decide_eq_true_eq,
    BitVec.toNat_add, Bool.and_eq_true]
  split_ifs <;> simp only [BitVec.toNat_add, hone] <;> omega

/-- The readings in their order. -/
def Timeval.Before (tp tp' : Timeval) : Prop :=
  tp.sec < tp'.sec ∨ tp.sec = tp'.sec ∧ tp.usec < tp'.usec

theorem getOsTime_strict (tp tp' : Timeval) (h : tp.Before tp') :
    (getOsTime tp).val < (getOsTime tp').val := by
  have h1 := tp.usec_lt
  have h2 := tp'.usec_lt
  rw [getOsTime_val, getOsTime_val]
  rcases h with h | ⟨h, h'⟩
  · rw [BitVec.lt_def] at h
    omega
  · rw [BitVec.lt_def] at h'
    rw [h]
    omega

/-- **Products, sums and the clock are exact**, the sum of a longword if and only if it or the low
words together reach `2 ^ 31`. -/
theorem clock_words_exact_iff (m : Objects ι) (add1 add2 sum : ι) (u v ulw : BitVec 32)
    (uw : BitVec 16) :
    (uemul u v).val = u.toNat * v.toNat ∧
    Adds m (uaddUvlw2UvlwAt m add1 add2 sum) sum ((m add1).val + (m add2).val) ∧
    Adds m (uaddUw2UvlwAt m uw add2 sum) sum (uw.toNat + (m add2).val) ∧
    (Adds m (uaddUlw2UvlwAt m ulw add2 sum) sum (ulw.toNat + (m add2).val) ↔
      2 ^ 31 ≤ ulw.toNat + (m add2).lo.toNat) ∧
    ∀ (clock : Objects ClockObject) (tp : Timeval),
      (getOsTimeAt clock tp .uuidTime).val =
        tp.sec.toNat * 10 ^ 7 + tp.usec.toNat * 10 + 0x01B21DD213814000 ∧
      ∀ (clock' : Objects ClockObject) (tp' : Timeval), tp.Before tp' →
        (getOsTimeAt clock tp .uuidTime).val < (getOsTimeAt clock' tp' .uuidTime).val := by
  refine ⟨uemul_val u v, ?_, ?_, ?_, fun clock tp => ⟨?_, fun clock' tp' h => ?_⟩⟩
  · rw [uaddUvlw2UvlwAt_eq, adds_update_iff]
    exact uaddUvlw2Uvlw_mod _ _
  · rw [uaddUw2UvlwAt_eq, adds_update_iff]
    exact uaddUw2Uvlw_mod _ _
  · rw [uaddUlw2UvlwAt_eq, adds_update_iff]
    exact uaddUlw2Uvlw_val_iff _ _
  · rw [getOsTimeAt_uuidTime, getOsTime_val]
    omega
  · rw [getOsTimeAt_uuidTime, getOsTimeAt_uuidTime]
    exact getOsTime_strict tp tp' h

/-- Zero and zero are `2 ^ 32`. -/
theorem zero_and_zero_carry :
    (uaddUlw2UvlwAt (fun _ : Unit => ⟨0, 0⟩) 0 () ()) () = ⟨0, 1⟩ ∧
    ¬ Adds (fun _ : Unit => ⟨0, 0⟩) (uaddUlw2UvlwAt (fun _ : Unit => ⟨0, 0⟩) 0 () ()) ()
      ((0 : BitVec 32).toNat + (⟨0, 0⟩ : UuidTime).val) := by
  have hsum : (uaddUlw2UvlwAt (fun _ : Unit => ⟨0, 0⟩) 0 () ()) () = ⟨0, 1⟩ := by decide
  refine ⟨hsum, fun h => ?_⟩
  have hval := h.1
  rw [hsum] at hval
  exact absurd hval (by decide)

end Uuid
