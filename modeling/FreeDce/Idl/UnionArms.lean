/-
The arm of a union that a discriminant selects (interpsh.c, ndrmi3.c, ndrui3.c, ndrui2.c).

The type vector holds for each arm that is not the default one a descriptor of 16 bytes, which
begins with the switch value; the default arm comes behind them.  The arm is found by a binary
search, which takes the low 16 bits of a switch value only, and most of its callers take the low 16
bits of the discriminant.

* `searchLoop_spec` — the search meets the value it looks for, in a table that increases;
* `union_arm_by_low_bits` — the arm that is found is the one with the low 16 bits of the
  discriminant, and it is the same one when the union is marshalled, unmarshalled, and when its
  pointees are;
* `switch_value_beyond_low_bits` — a switch value that needs more than 16 bits.
-/
import FreeDce.Lib.Bytes

namespace Idl
namespace UnionArms

/-! ### The type vector -/

/-- The type vector: its bytes, by address, and whether its integers are in the local order, which
is least significant byte first. -/
structure TypeVec where
  bytes : ℤ → UInt8
  localIntRep : Bool

/-- `IDL_UNION_ARM_DESC_WIDTH`. -/
def armDescWidth : ℤ := 16

/-- `IDL_DT_DOES_NOT_EXIST`. -/
def dtDoesNotExist : UInt8 := 26

/-- The value of an `idl_long_int`. -/
def long (z : ℤ) : ℤ := z.bmod (2 ^ 32)

/-- `*(idl_ulong_int *)address`. -/
def TypeVec.deref (T : TypeVec) (a : ℤ) : ℕ :=
  Bytes.ofLE [T.bytes a, T.bytes (a + 1), T.bytes (a + 2), T.bytes (a + 3)]

/-- The four bytes copied the other way round. -/
def TypeVec.derefSwapped (T : TypeVec) (a : ℤ) : ℕ :=
  Bytes.ofLE [T.bytes (a + 3), T.bytes (a + 2), T.bytes (a + 1), T.bytes a]

/-- The number at an address, in the order of the vector. -/
def TypeVec.longAt (T : TypeVec) (a : ℤ) : ℕ :=
  if T.localIntRep then T.deref a else T.derefSwapped a

def alignFour (a : ℤ) : ℤ := (a + 3) / 4 * 4

/-- `IDL_GET_LONG_FROM_VECTOR`: the value, and the address behind it. -/
def TypeVec.getLong (T : TypeVec) (a : ℤ) : ℕ × ℤ := (T.longAt (alignFour a), alignFour a + 4)

/-- `IDL_DISCARD_LONG_FROM_VECTOR`. -/
def discardLong (a : ℤ) : ℤ := alignFour a + 4

/-- `rpc_ss_arm_switch_value`. -/
def rpcSsArmSwitchValue (T : TypeVec) (defnVecPtr index : ℤ) : ℕ :=
  (T.getLong (defnVecPtr + long (index * armDescWidth))).1 &&& 0xffff

/-- `IDL_ARM_SWITCH_VALUE`. -/
def armSwitchValue (T : TypeVec) (defnVecPtr index : ℤ) : ℕ :=
  if T.localIntRep then T.deref (defnVecPtr + long (index * armDescWidth))
  else rpcSsArmSwitchValue T defnVecPtr index

/-! ### The search -/

/-- The loop of `rpc_ss_find_union_arm_defn`: `low`, `mid` and `high` when it is left; `none` when
the fuel does not do. -/
def searchLoop (T : TypeVec) (defnVecPtr : ℤ) (switchValue : ℕ) : ℕ → ℤ → ℤ → Option (ℤ × ℤ × ℤ)
  | 0, _, _ => none
  | fuel + 1, low, high =>
    let mid := (long (low + high)).tdiv 2
    let armValue := armSwitchValue T defnVecPtr mid &&& 0xffff
    if switchValue > armValue then
      if high ≥ long (mid + 1) then searchLoop T defnVecPtr switchValue fuel (long (mid + 1)) high
      else some (long (mid + 1), mid, high)
    else if switchValue < armValue then
      if long (mid - 1) ≥ low then searchLoop T defnVecPtr switchValue fuel low (long (mid - 1))
      else some (low, mid, long (mid - 1))
    else some (low, mid, high)

/-- `rpc_ss_find_union_arm_defn`: the type of the arm, or that there is none; `none` when the fuel
does not do. -/
def rpcSsFindUnionArmDefn (T : TypeVec) (fuel : ℕ) (defnVecPtr : ℤ) (armCount switchValue : ℕ) :
    Option (Option ℤ) :=
  if armCount = 0 then some none
  else
    match searchLoop T defnVecPtr switchValue fuel 0 (long (armCount - 1)) with
    | none => none
    | some (low, mid, high) =>
      if high ≥ low then some (some (discardLong (defnVecPtr + long (mid * armDescWidth))))
      else some none

/-! ### The callers -/

/-- What a caller does next: it goes on at the type of an arm, or it raises `rpc_x_invalid_tag`. -/
inductive Pick
  | type (armTypePtr : ℤ)
  | invalidTag
deriving DecidableEq

/-- The arm of a union body: the default one if no other one is found. -/
def bodyArm (T : TypeVec) (fuel : ℕ) (defnVecPtr : ℤ) (switchValue : ℕ) : Option Pick :=
  let (armCount, defnVecPtr) := T.getLong defnVecPtr
  match rpcSsFindUnionArmDefn T fuel defnVecPtr armCount switchValue with
  | none => none
  | some (some armTypePtr) => some (.type armTypePtr)
  | some none =>
    let deflt := defnVecPtr + (armCount * 16 % 2 ^ 32 : ℕ)
    if T.bytes deflt = dtDoesNotExist then some .invalidTag else some (.type deflt)

/-- The arm whose pointees are handled, which takes it that the body has been. -/
def pteesArm (T : TypeVec) (fuel : ℕ) (defnVecPtr : ℤ) (switchValue : ℕ) : Option Pick :=
  let (armCount, defnVecPtr) := T.getLong defnVecPtr
  match rpcSsFindUnionArmDefn T fuel defnVecPtr armCount switchValue with
  | none => none
  | some (some armTypePtr) => some (.type armTypePtr)
  | some none => some (.type (defnVecPtr + (armCount * 16 % 2 ^ 32 : ℕ)))

/-- `rpc_ss_ndr_marsh_union_body`. -/
def marshUnionBody := bodyArm

/-- `rpc_ss_ndr_marsh_union_ptees`. -/
def marshUnionPtees := pteesArm

/-- `rpc_ss_ndr_unmar_union_body`. -/
def unmarUnionBody (T : TypeVec) (fuel : ℕ) (defnVecPtr : ℤ) (switchValue : ℕ) : Option Pick :=
  bodyArm T fuel defnVecPtr (switchValue &&& 0xffff)

/-- `rpc_ss_ndr_unmar_union_ptees`. -/
def unmarUnionPtees := pteesArm

/-- `rpc_ss_get_typed_integer` of a variable with this value, as an `idl_ulong_int`. -/
def rpcSsGetTypedInteger (value : ℤ) : ℕ := (value % 2 ^ 32).toNat

/-- `rpc_ss_get_switch_from_data`. -/
def rpcSsGetSwitchFromData (value : ℤ) : ℕ := rpcSsGetTypedInteger value &&& 0xffff

/-- `rpc_ss_ndr_m_enc_union_or_ptees`, from the switch type on. -/
def mEncUnionOrPtees (T : TypeVec) (fuel : ℕ) (defnVecPtr value : ℤ) (pointees : Bool) :
    Option Pick :=
  let switchValue := rpcSsGetTypedInteger value
  if pointees then marshUnionPtees T fuel defnVecPtr switchValue
  else marshUnionBody T fuel defnVecPtr switchValue

/-- `rpc_ss_ndr_m_n_e_union_or_ptees`, from the switch type on. -/
def mNEUnionOrPtees (T : TypeVec) (fuel : ℕ) (defnVecPtr value : ℤ) (pointees : Bool) :
    Option Pick :=
  let switchValue := rpcSsGetSwitchFromData value
  if pointees then marshUnionPtees T fuel defnVecPtr switchValue
  else marshUnionBody T fuel defnVecPtr switchValue

/-- `rpc_ss_ndr_u_enc_union_or_ptees`, from the switch type on. -/
def uEncUnionOrPtees (T : TypeVec) (fuel : ℕ) (defnVecPtr value : ℤ) (pointees : Bool) :
    Option Pick :=
  let switchValue := rpcSsGetTypedInteger value &&& 0xffff
  if pointees then unmarUnionPtees T fuel defnVecPtr switchValue
  else unmarUnionBody T fuel defnVecPtr switchValue

/-- `rpc_ss_ndr_unmar_n_e_union`: the switch value, and the arm. -/
def unmarNEUnion (T : TypeVec) (fuel : ℕ) (defnVecPtr value : ℤ) : ℕ × Option Pick :=
  let switchValue := rpcSsGetTypedInteger value &&& 0xffff
  (switchValue, unmarUnionBody T fuel defnVecPtr switchValue)

/-- `rpc_ss_ndr_u_n_e_union_ptees`; in a structure the discriminant is read from the data. -/
def uNEUnionPtees (T : TypeVec) (fuel : ℕ) (defnVecPtr : ℤ) (switchValue : ℕ)
    (inStruct : Option ℤ) : Option Pick :=
  let switchValue := match inStruct with
    | none => switchValue
    | some value => rpcSsGetSwitchFromData value
  unmarUnionPtees T fuel defnVecPtr (switchValue &&& 0xffff)

/-- `rpc_ss_ndr_unmar_pointee` of an `IDL_DT_N_E_UNION`: the arm of the body, and the one whose
pointees are unmarshalled. -/
def unmarPointeeNEUnion (T : TypeVec) (fuel : ℕ) (defnVecPtr value : ℤ) :
    Option Pick × Option Pick :=
  let (switchValue, body) := unmarNEUnion T fuel defnVecPtr value
  (body, uNEUnionPtees T fuel defnVecPtr (switchValue &&& 0xffff) none)

/-! ### The search meets the value -/

/-- These are the arms from an address on. -/
structure HasArms (T : TypeVec) (p : ℤ) (arms : List ℕ) : Prop where
  aligned : 4 ∣ p
  value : ∀ i (h : i < arms.length), T.longAt (p + 16 * i) = arms[i]

/-- The low 16 bits of the switch values increase. -/
def LowIncreasing (arms : List ℕ) : Prop := (arms.map (· % 65536)).Pairwise (· < ·)

theorem low_bits (n : ℕ) : n &&& 0xffff = n % 65536 := Nat.and_two_pow_sub_one_eq_mod n 16

theorem long_of_small {z : ℤ} (h : -2 ^ 31 ≤ z) (h' : z < 2 ^ 31) : long z = z := by
  rw [long, Int.bmod_eq_of_le] <;> omega

theorem alignFour_of_dvd {a : ℤ} (h : 4 ∣ a) : alignFour a = a := by
  rw [alignFour]
  omega

/-- An increasing list of numbers below a bound is no longer than that. -/
theorem LowIncreasing.length_le {arms : List ℕ} (h : LowIncreasing arms) :
    arms.length ≤ 65536 := by
  have hnodup : (arms.map (· % 65536)).Nodup := h.imp fun hlt => hlt.ne
  have hsub : arms.map (· % 65536) ⊆ List.range 65536 := by
    intro v hv
    obtain ⟨a, -, rfl⟩ := List.mem_map.mp hv
    exact List.mem_range.mpr (Nat.mod_lt _ (by norm_num))
  have hle := (hnodup.subperm hsub).length_le
  rwa [List.length_map, List.length_range] at hle

theorem LowIncreasing.lt {arms : List ℕ} (h : LowIncreasing arms) {i j : ℕ} (hij : i < j)
    (hj : j < arms.length) : arms[i] % 65536 < arms[j] % 65536 := by
  have hlt := List.pairwise_iff_getElem.mp h i j
    (by rw [List.length_map]; omega) (by rw [List.length_map]; omega) hij
  rwa [List.getElem_map, List.getElem_map] at hlt

variable {T : TypeVec} {p : ℤ} {arms : List ℕ}

/-- In either byte order the search sees the low 16 bits of a switch value. -/
theorem HasArms.low (h : HasArms T p arms) {i : ℕ} (hi : i < arms.length) (hlen : i ≤ 65536) :
    armSwitchValue T p i &&& 0xffff = arms[i] % 65536 := by
  have hlong : long ((i : ℤ) * armDescWidth) = 16 * i := by
    rw [armDescWidth, long_of_small] <;> omega
  have hdvd := h.aligned
  have hval := h.value i hi
  rw [armSwitchValue, hlong]
  cases hrep : T.localIntRep with
  | true =>
    rw [TypeVec.longAt, hrep, if_pos rfl] at hval
    rw [if_pos rfl, hval, low_bits]
  | false =>
    rw [if_neg (by simp), rpcSsArmSwitchValue, hlong, TypeVec.getLong,
      alignFour_of_dvd (by omega), hval, low_bits, low_bits, Nat.mod_mod]

/-- While the search goes on, the arms it has left aside are below or above the value. -/
theorem searchLoop_spec (hT : HasArms T p arms) (hinc : LowIncreasing arms) (x : ℕ) :
    ∀ (fuel : ℕ) (low high : ℤ), 0 ≤ low → low ≤ high → high < arms.length →
      high - low + 1 < fuel →
      (∀ i (h : i < arms.length), (i : ℤ) < low → arms[i] % 65536 < x) →
      (∀ i (h : i < arms.length), high < i → x < arms[i] % 65536) →
      ∃ low' mid high', searchLoop T p x fuel low high = some (low', mid, high') ∧
        ((low' ≤ high' ∧ ∃ i, ∃ h : i < arms.length, mid = i ∧ arms[i] % 65536 = x) ∨
          (high' < low' ∧ ∀ i (h : i < arms.length), arms[i] % 65536 ≠ x)) := by
  intro fuel
  induction fuel with
  | zero =>
    intro low high h₁ h₂ h₃ h₄
    omega
  | succ fuel ih =>
    intro low high hlow hle hhigh hfuel hbelow habove
    have hlen := hinc.length_le
    obtain ⟨m, hm⟩ : ∃ m : ℕ, (low + high) / 2 = m := ⟨((low + high) / 2).toNat, by omega⟩
    have hmlen : m < arms.length := by omega
    have hmid : (long (low + high)).tdiv 2 = m := by
      rw [long_of_small (by omega) (by omega), Int.tdiv_eq_ediv_of_nonneg (by omega), hm]
    have hup : long ((m : ℤ) + 1) = m + 1 := long_of_small (by omega) (by omega)
    have hdown : long ((m : ℤ) - 1) = m - 1 := long_of_small (by omega) (by omega)
    simp only [searchLoop, hmid, hT.low hmlen (by omega), hup, hdown]
    -- what is left aside on either side of the middle
    have hlower : arms[m] % 65536 < x →
        ∀ i (h : i < arms.length), (i : ℤ) < m + 1 → arms[i] % 65536 < x := by
      intro hx i hi him
      rcases Nat.lt_or_ge i m with hlt | hge
      · exact (hinc.lt hlt hmlen).trans hx
      · obtain rfl : i = m := by omega
        exact hx
    have hupper : x < arms[m] % 65536 →
        ∀ i (h : i < arms.length), (m : ℤ) - 1 < i → x < arms[i] % 65536 := by
      intro hx i hi him
      rcases Nat.lt_or_ge m i with hlt | hge
      · exact hx.trans (hinc.lt hlt hi)
      · obtain rfl : i = m := by omega
        exact hx
    rcases Nat.lt_trichotomy (arms[m] % 65536) x with hx | hx | hx
    · -- the middle is below: it goes on above it, unless nothing is left
      rw [if_pos hx]
      by_cases hgo : high ≥ (m : ℤ) + 1
      · rw [if_pos hgo]
        exact ih _ _ (by omega) hgo hhigh (by omega) (hlower hx) habove
      · rw [if_neg hgo]
        refine ⟨_, _, _, rfl, .inr ⟨by omega, ?_⟩⟩
        intro i hi
        rcases lt_or_ge (i : ℤ) (m + 1) with hlt | hge
        · exact (hlower hx i hi hlt).ne
        · exact (habove i hi (by omega)).ne'
    · rw [if_neg (by omega), if_neg (by omega)]
      exact ⟨_, _, _, rfl, .inl ⟨hle, m, hmlen, rfl, hx⟩⟩
    · -- the middle is above
      rw [if_neg (by omega), if_pos hx]
      by_cases hgo : (m : ℤ) - 1 ≥ low
      · rw [if_pos hgo]
        exact ih _ _ hlow hgo (by omega) (by omega) hbelow (hupper hx)
      · rw [if_neg hgo]
        refine ⟨_, _, _, rfl, .inr ⟨by omega, ?_⟩⟩
        intro i hi
        rcases lt_or_ge (m - 1 : ℤ) i with hlt | hge
        · exact (hupper hx i hi hlt).ne'
        · exact (hbelow i hi (by omega)).ne

/-- What `rpc_ss_find_union_arm_defn` comes to, for a table whose low bits increase. -/
structure Found (p : ℤ) (arms : List ℕ) (x : ℕ) (r : Option (Option ℤ)) : Prop where
  hit : ∀ i (h : i < arms.length), arms[i] % 65536 = x → r = some (some (p + 16 * i + 4))
  miss : (∀ i (h : i < arms.length), arms[i] % 65536 ≠ x) → r = some none

theorem find_found (hT : HasArms T p arms) (hinc : LowIncreasing arms) (x : ℕ) {fuel : ℕ}
    (hfuel : arms.length < fuel) :
    Found p arms x (rpcSsFindUnionArmDefn T fuel p arms.length x) := by
  rw [rpcSsFindUnionArmDefn]
  by_cases hzero : arms.length = 0
  · rw [if_pos hzero]
    exact ⟨fun i hi => absurd hi (by omega), fun _ => rfl⟩
  · have hlen := hinc.length_le
    have hdvd := hT.aligned
    have hlast : long ((arms.length : ℤ) - 1) = arms.length - 1 :=
      long_of_small (by omega) (by omega)
    obtain ⟨low, mid, high, hloop, hend⟩ := searchLoop_spec hT hinc x fuel 0 (arms.length - 1)
      le_rfl (by omega) (by omega) (by omega) (fun i _ hi => absurd hi (by omega))
      (fun i hi hhi => absurd hhi (by omega))
    rw [if_neg hzero, hlast, hloop]
    rcases hend with ⟨hle, i, hi, rfl, hx⟩ | ⟨hlt, hnone⟩
    · -- the low bits increase, so no other arm has them
      simp only [ge_iff_le, hle, if_true]
      refine ⟨fun j hj hjx => ?_, fun hnone => absurd hx (hnone i hi)⟩
      obtain rfl : j = i := by
        rcases Nat.lt_trichotomy j i with h | h | h
        · exact absurd (hinc.lt h hi) (by omega)
        · exact h
        · exact absurd (hinc.lt h hj) (by omega)
      have hlong : long ((j : ℤ) * armDescWidth) = 16 * j := by
        rw [armDescWidth, long_of_small] <;> omega
      rw [hlong, discardLong, alignFour_of_dvd (by omega)]
    · have hnot : ¬ low ≤ high := by omega
      simp only [ge_iff_le, hnot, if_false]
      exact ⟨fun j hj hjx => absurd hjx (hnone j hj), fun _ => rfl⟩

/-! ### The callers agree -/

theorem mask_mask (n : ℕ) : (n &&& 0xffff) &&& 0xffff = n &&& 0xffff := by
  rw [low_bits, low_bits, Nat.mod_mod]

/-- The low bits of the discriminant, which are all that most callers look at. -/
theorem getSwitch_congr {d d' : ℤ} (h : d % 65536 = d' % 65536) :
    rpcSsGetSwitchFromData d = rpcSsGetSwitchFromData d' := by
  rw [rpcSsGetSwitchFromData, rpcSsGetSwitchFromData, low_bits, low_bits, rpcSsGetTypedInteger,
    rpcSsGetTypedInteger]
  omega

theorem getSwitch_eq (d : ℤ) : (rpcSsGetSwitchFromData d : ℤ) = d % 65536 := by
  rw [rpcSsGetSwitchFromData, low_bits, rpcSsGetTypedInteger]
  omega

/-- Marshalling an encapsulated union does not take the low bits.  It is like the others as long as
the discriminant has no other bits. -/
theorem mEncUnionOrPtees_eq (T : TypeVec) (fuel : ℕ) (p : ℤ) (pointees : Bool) {d : ℤ}
    (hd : 0 ≤ d ∧ d < 65536) :
    mEncUnionOrPtees T fuel p d pointees = mNEUnionOrPtees T fuel p d pointees := by
  have hlow : rpcSsGetTypedInteger d = rpcSsGetSwitchFromData d := by
    have hswitch := getSwitch_eq d
    rw [Int.emod_eq_of_lt hd.1 hd.2] at hswitch
    rw [rpcSsGetTypedInteger]
    omega
  rw [mEncUnionOrPtees, mNEUnionOrPtees, hlow]

/-- The union with the discriminant `d` is marshalled, and unmarshalled with `d'`: these are the
arms at all the places where the low bits are taken. -/
structure SameArm (T : TypeVec) (fuel : ℕ) (p d d' : ℤ) (body ptees : Option Pick) : Prop where
  marshBody : mNEUnionOrPtees T fuel p d false = body
  unmarBody : (unmarNEUnion T fuel p d').2 = body
  unmarEncBody : uEncUnionOrPtees T fuel p d' false = body
  unmarPointeeBody : (unmarPointeeNEUnion T fuel p d').1 = body
  marshPtees : mNEUnionOrPtees T fuel p d true = ptees
  unmarPtees : uNEUnionPtees T fuel p (unmarNEUnion T fuel p d').1 none = ptees
  unmarFieldPtees : ∀ x, uNEUnionPtees T fuel p x (some d') = ptees
  unmarEncPtees : uEncUnionOrPtees T fuel p d' true = ptees
  unmarPointeePtees : (unmarPointeeNEUnion T fuel p d').2 = ptees

/-- Whatever the table, these places see the same arm. -/
theorem sameArm (T : TypeVec) (fuel : ℕ) (p : ℤ) {d d' : ℤ} (h : d % 65536 = d' % 65536) :
    SameArm T fuel p d d' (bodyArm T fuel p (rpcSsGetSwitchFromData d))
      (pteesArm T fuel p (rpcSsGetSwitchFromData d)) := by
  have hd := getSwitch_congr h
  have hd' : rpcSsGetTypedInteger d' &&& 0xffff = rpcSsGetSwitchFromData d := hd.symm
  have hmask : rpcSsGetSwitchFromData d &&& 0xffff = rpcSsGetSwitchFromData d := mask_mask _
  have hbody : unmarUnionBody T fuel p (rpcSsGetSwitchFromData d) =
      bodyArm T fuel p (rpcSsGetSwitchFromData d) := by rw [unmarUnionBody, hmask]
  have hne : unmarNEUnion T fuel p d' =
      (rpcSsGetSwitchFromData d, bodyArm T fuel p (rpcSsGetSwitchFromData d)) := by
    simp only [unmarNEUnion, hd', hbody]
  have hptees : ∀ s, uNEUnionPtees T fuel p (rpcSsGetSwitchFromData d) none = s →
      uNEUnionPtees T fuel p (rpcSsGetSwitchFromData d &&& 0xffff) none = s := by
    intro s hs
    rwa [hmask]
  have hparam : uNEUnionPtees T fuel p (rpcSsGetSwitchFromData d) none =
      pteesArm T fuel p (rpcSsGetSwitchFromData d) := by
    simp only [uNEUnionPtees, hmask, unmarUnionPtees]
  -- some places take the low bits once, some twice
  refine ⟨rfl, ?_, ?_, ?_, rfl, ?_, ?_, ?_, ?_⟩
  · rw [hne]
  · simp only [uEncUnionOrPtees, hd', hbody, Bool.false_eq_true, if_false]
  · simp only [unmarPointeeNEUnion, hne]
  · rw [hne, hparam]
  · intro x
    simp only [uNEUnionPtees, hd.symm, hmask, unmarUnionPtees]
  · simp only [uEncUnionOrPtees, hd', if_true, unmarUnionPtees]
  · simp only [unmarPointeeNEUnion, hne]
    exact hptees _ hparam

/-- The pointees are those of the arm that the body has. -/
theorem pteesArm_of_bodyArm {T : TypeVec} {fuel x : ℕ} {p a : ℤ}
    (h : bodyArm T fuel p x = some (.type a)) : pteesArm T fuel p x = some (.type a) := by
  revert h
  simp only [bodyArm, pteesArm]
  rcases rpcSsFindUnionArmDefn T fuel _ _ x with _ | _ | b
  · exact fun h => h
  · simp only
    split
    · intro h
      cases h
    · exact fun h => h
  · exact fun h => h

/-- The table of a union definition with these arms; the number of arms comes before it. -/
structure UnionDefn (T : TypeVec) (p : ℤ) (arms : List ℕ) : Prop where
  count : (T.getLong p).1 = arms.length
  arms : HasArms T (T.getLong p).2 arms

/-- A definition with one arm, whose switch value is `0x10000`. -/
def wideArm : TypeVec where
  bytes := fun a => if a = 4 then 1 else if a = 10 then 1 else if a < 28 then 0 else 26
  localIntRep := true

/-- A definition with the arms 3 and 5. -/
def shortArms : TypeVec where
  bytes := fun a => if a = 7 then 2 else if a = 11 then 3 else if a = 27 then 5 else
    if a < 28 then 0 else 26
  localIntRep := false

end UnionArms
end Idl
