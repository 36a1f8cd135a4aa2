/-
Array bounds and data limits (interpsh.c).

The bounds of a dimension are constants, or come from attribute variables, and so do the limits of
the data in it.  All of them are worked on as signed numbers of 32 bits.  From the bounds come the
numbers of elements (the Z values), and from the limits the ranges, which begin at 0.

* `zValues_exact` — without overflow the Z values are the numbers of elements;
* `ranges_exact_iff` — and the ranges are those that the attributes denote exactly when no range
  begins behind the end of its dimension, or a limit is refused;
* `large_size_and_first_behind_end` — the two ways it goes wrong.
-/
import FreeDce.Idl.UnionArms

namespace Idl
namespace ArrayBounds

open UnionArms (long long_of_small)

/-! ### Attribute variables -/

/-- The types of integers that `rpc_ss_get_typed_integer` reads. -/
inductive IntType
  | boolean | char | enum | v1Enum | small | short | long | usmall | ushort | ulong | errorStatus
deriving DecidableEq

def IntType.min : IntType → ℤ
  | .enum | .v1Enum | .long => -2 ^ 31
  | .small => -2 ^ 7
  | .short => -2 ^ 15
  | .boolean | .char | .usmall | .ushort | .ulong | .errorStatus => 0

def IntType.max : IntType → ℤ
  | .enum | .v1Enum | .long => 2 ^ 31 - 1
  | .small => 2 ^ 7 - 1
  | .short => 2 ^ 15 - 1
  | .boolean | .char | .usmall => 2 ^ 8 - 1
  | .ushort => 2 ^ 16 - 1
  | .ulong | .errorStatus => 2 ^ 32 - 1

/-- An attribute variable with its value. -/
structure Attr where
  type : IntType
  value : ℤ
  min_le : type.min ≤ value
  le_max : value ≤ type.max

/-- `rpc_ss_get_typed_integer`. -/
def rpcSsGetTypedInteger (a : Attr) : ℤ := long a.value

/-- `IDL_FC_...`. -/
inductive FuncCode
  | none | div2 | mul2 | add1 | sub1 | align2 | align4 | align8 | callback
deriving DecidableEq

/-- `x & ~(n - 1)` for a power of two. -/
def maskDown (x n : ℤ) : ℤ := x - x % n

/-- `interpsh_apply_func_code`. -/
def interpshApplyFuncCode (funcCode : FuncCode) (size : ℤ) : ℤ :=
  match funcCode with
  | .div2 => size.tdiv 2
  | .mul2 => long (size * 2)
  | .sub1 => long (size - 1)
  | .add1 => long (size + 1)
  | .align2 => maskDown (long (size + 1)) 2
  | .align4 => maskDown (long (size + 3)) 4
  | .align8 => maskDown (long (size + 7)) 8
  | .none | .callback => size

/-! ### Bounds and limits of a dimension -/

inductive LowerBound
  | fixed (value : ℤ)
  | minIs (a : Attr)

/-- A string has as many characters as `length` says. -/
inductive UpperBound
  | fixed (value : ℤ)
  | maxIs (a : Attr)
  | sizeIs (funcCode : FuncCode) (a : Attr)
  | string (length : ℕ)

inductive LowerLimit
  | fixed (value : ℤ)
  | firstIs (a : Attr)

inductive UpperLimit
  | fixed (value : ℤ)
  | lastIs (a : Attr)
  | lengthIs (funcCode : FuncCode) (a : Attr)
  | string (length : ℕ)
  | upperConf

/-- A dimension: its bounds, and the limits of the data in it. -/
structure Dim where
  lowerBound : LowerBound
  upperBound : UpperBound
  lowerLimit : LowerLimit
  upperLimit : UpperLimit

/-- `IDL_bound_pair_t`. -/
structure BoundPair where
  lower : ℤ
  upper : ℤ
deriving DecidableEq, Repr

def LowerBound.get : LowerBound → ℤ
  | .fixed value => long value
  | .minIs a => rpcSsGetTypedInteger a

def UpperBound.get (lower : ℤ) : UpperBound → ℤ
  | .fixed value => long value
  | .maxIs a => rpcSsGetTypedInteger a
  | .sizeIs funcCode a => long (lower + interpshApplyFuncCode funcCode (rpcSsGetTypedInteger a) - 1)
  | .string length => long (lower + length)

/-- One turn of the loop of `rpc_ss_build_bounds_list`. -/
def Dim.bounds (d : Dim) : BoundPair :=
  let lower := d.lowerBound.get
  let upper := d.upperBound.get lower
  if upper < lower then ⟨lower, long (lower - 1)⟩ else ⟨lower, upper⟩

/-- `rpc_ss_build_bounds_list`. -/
def buildBoundsList (dims : List Dim) : List BoundPair := dims.map Dim.bounds

/-- `rpc_ss_Z_values_from_bounds`. -/
def zValuesFromBounds (bounds : List BoundPair) : List ℤ :=
  bounds.map fun b => if b.upper ≥ b.lower then (b.upper - b.lower + 1) % 2 ^ 32 else 0

def LowerLimit.get : LowerLimit → ℤ
  | .fixed value => long value
  | .firstIs a => rpcSsGetTypedInteger a

/-- The upper limit of a range, and whether it is compared with the bounds. -/
def UpperLimit.get (b : BoundPair) (lower : ℤ) : UpperLimit → ℤ × Bool
  | .fixed value => (long (long value + 1 - b.lower), false)
  | .string length => (long (lower + (length + 1)), true)
  | .upperConf => (long (b.upper - b.lower + 1), false)
  | .lengthIs funcCode a =>
    (long (lower + interpshApplyFuncCode funcCode (rpcSsGetTypedInteger a)), true)
  | .lastIs a => (long (rpcSsGetTypedInteger a - b.lower + 1), true)

/-- One turn of the loop of `rpc_ss_build_range_list`; `none` is `rpc_x_invalid_bound`. -/
def Dim.range (d : Dim) (b : BoundPair) : Option BoundPair :=
  let lower := long (d.lowerLimit.get - b.lower)
  if lower < 0 then none
  else
    let (upper, checked) := d.upperLimit.get b lower
    if checked ∧ upper > long (b.upper - b.lower + 1) then none
    else if upper < lower then some ⟨lower, lower⟩
    else some ⟨lower, upper⟩

/-- `rpc_ss_build_range_list`. -/
def buildRangeList : List Dim → List BoundPair → Option (List BoundPair)
  | d :: dims, b :: bounds =>
    match d.range b with
    | none => none
    | some r => (buildRangeList dims bounds).map (r :: ·)
  | _, _ => some []

/-! ### What the attributes denote -/

def FuncCode.denote (funcCode : FuncCode) (size : ℤ) : ℤ :=
  match funcCode with
  | .div2 => size.tdiv 2
  | .mul2 => size * 2
  | .sub1 => size - 1
  | .add1 => size + 1
  | .align2 => maskDown (size + 1) 2
  | .align4 => maskDown (size + 3) 4
  | .align8 => maskDown (size + 7) 8
  | .none | .callback => size

def LowerBound.denote : LowerBound → ℤ
  | .fixed value => value
  | .minIs a => a.value

/-- The number of elements that the bounds denote, which is negative where they are inside out. -/
def Dim.extent (d : Dim) : ℤ :=
  match d.upperBound with
  | .fixed value => value - d.lowerBound.denote + 1
  | .maxIs a => a.value - d.lowerBound.denote + 1
  | .sizeIs funcCode a => funcCode.denote a.value
  | .string length => length + 1

/-- The number of elements. -/
def Dim.size (d : Dim) : ℤ := Max.max 0 d.extent

/-- How far the data begin behind the lower bound. -/
def Dim.first (d : Dim) : ℤ :=
  (match d.lowerLimit with
    | .fixed value => value
    | .firstIs a => a.value) - d.lowerBound.denote

/-- How far the data end behind the lower bound. -/
def Dim.last (d : Dim) : ℤ :=
  match d.upperLimit with
  | .fixed value => value + 1 - d.lowerBound.denote
  | .lastIs a => a.value - d.lowerBound.denote + 1
  | .lengthIs funcCode a => d.first + funcCode.denote a.value
  | .string length => d.first + (length + 1)
  | .upperConf => d.size

/-- The range that the limits denote. -/
def Dim.denoted (d : Dim) : BoundPair := ⟨d.first, Max.max d.first d.last⟩

/-- The range is the one that is denoted, and within the dimension. -/
def Dim.RangeRight (d : Dim) (r : BoundPair) : Prop :=
  r = d.denoted ∧ 0 ≤ r.lower ∧ r.lower ≤ r.upper ∧ r.upper ≤ d.size

/-- A limit is refused, or all Z values and ranges are right. -/
def Right (dims : List Dim) : Prop :=
  let bounds := buildBoundsList dims
  match buildRangeList dims bounds with
  | none => True
  | some ranges =>
    zValuesFromBounds bounds = dims.map Dim.size ∧ List.Forall₂ Dim.RangeRight dims ranges

/-! ### Without overflow -/

/-- A value of an `idl_long_int`. -/
def InLong (z : ℤ) : Prop := -2 ^ 31 ≤ z ∧ z < 2 ^ 31

instance (z : ℤ) : Decidable (InLong z) := inferInstanceAs (Decidable (_ ∧ _))

/-- The numbers that a function code goes through. -/
def FuncCode.Fits (funcCode : FuncCode) (size : ℤ) : Prop :=
  InLong size ∧
  match funcCode with
  | .mul2 => InLong (size * 2)
  | .sub1 => InLong (size - 1)
  | .add1 | .align2 => InLong (size + 1)
  | .align4 => InLong (size + 3)
  | .align8 => InLong (size + 7)
  | .div2 | .none | .callback => True

/-- No bound overflows. -/
def Dim.BoundsFit (d : Dim) : Prop :=
  InLong d.lowerBound.denote ∧
  InLong (d.lowerBound.denote + d.extent - 1) ∧
  d.extent < 2 ^ 32 ∧
  match d.upperBound with
  | .sizeIs funcCode a => funcCode.Fits a.value
  | .fixed _ | .maxIs _ | .string _ => True

/-- No limit overflows. -/
def Dim.LimitsFit (d : Dim) : Prop :=
  d.extent < 2 ^ 31 ∧
  InLong (d.first + d.lowerBound.denote) ∧
  InLong d.first ∧
  InLong d.last ∧
  match d.upperLimit with
  | .fixed value => InLong value
  | .lastIs a => InLong a.value
  | .lengthIs funcCode a => funcCode.Fits a.value
  | .string _ | .upperConf => True

/-- The upper limit is compared with the bounds. -/
def UpperLimit.checked : UpperLimit → Bool
  | .fixed _ | .upperConf => false
  | .lastIs _ | .lengthIs _ _ | .string _ => true

/-- The limits are refused. -/
def Dim.Refused (d : Dim) : Prop :=
  d.first < 0 ∨ (d.upperLimit.checked = true ∧ d.size < d.last)

/-- The data begin and end within the dimension. -/
def Dim.LimitsWithin (d : Dim) : Prop := d.first ≤ d.size ∧ d.last ≤ d.size

theorem InLong.long {z : ℤ} (h : InLong z) : long z = z := long_of_small h.1 h.2

theorem FuncCode.Fits.apply {fc : FuncCode} {size : ℤ} (h : fc.Fits size) :
    interpshApplyFuncCode fc (long size) = fc.denote size := by
  obtain ⟨hsize, hfc⟩ := h
  rw [hsize.long]
  cases fc with
  | none => rfl
  | callback => rfl
  | div2 => rfl
  | mul2 => exact hfc.long
  | sub1 => exact hfc.long
  | add1 => exact hfc.long
  | align2 => exact congrArg (maskDown · 2) hfc.long
  | align4 => exact congrArg (maskDown · 4) hfc.long
  | align8 => exact congrArg (maskDown · 8) hfc.long

variable {d : Dim} {dims : List Dim}

theorem Dim.BoundsFit.lower (h : d.BoundsFit) : d.lowerBound.get = d.lowerBound.denote := by
  have hl := h.1.long
  cases hd : d.lowerBound with
  | fixed v =>
    rw [hd] at hl
    exact hl
  | minIs a =>
    rw [hd] at hl
    exact hl

theorem Dim.BoundsFit.upper (h : d.BoundsFit) :
    d.upperBound.get d.lowerBound.denote = d.lowerBound.denote + d.extent - 1 := by
  obtain ⟨-, hu, -, hfc⟩ := h
  cases hd : d.upperBound with
  | fixed v =>
    have hsum : d.lowerBound.denote + d.extent - 1 = v := by
      rw [Dim.extent, hd]
      ring
    rw [hsum] at hu ⊢
    exact hu.long
  | maxIs a =>
    have hsum : d.lowerBound.denote + d.extent - 1 = a.value := by
      rw [Dim.extent, hd]
      ring
    rw [hsum] at hu ⊢
    exact hu.long
  | sizeIs fc a =>
    rw [hd] at hfc
    have hext : d.extent = fc.denote a.value := by rw [Dim.extent, hd]
    rw [UpperBound.get, rpcSsGetTypedInteger, hfc.apply, ← hext]
    exact hu.long
  | string n =>
    have hext : d.extent = n + 1 := by rw [Dim.extent, hd]
    have hsum : d.lowerBound.denote + d.extent - 1 = d.lowerBound.denote + n := by
      rw [hext]
      ring
    rw [hsum] at hu ⊢
    exact hu.long

/-- The bounds are those that are denoted, or such as have no elements. -/
theorem Dim.BoundsFit.bounds (h : d.BoundsFit) :
    d.bounds = ⟨d.lowerBound.denote, d.lowerBound.denote + d.size - 1⟩ := by
  have hl := h.1
  have hu := h.2.1
  rw [InLong] at hl hu
  rw [Dim.bounds, h.lower, h.upper]
  split
  · -- bounds that are inside out are moved together
    have hsize : d.size = 0 := max_eq_left (by omega)
    have hlow : InLong (d.lowerBound.denote - 1) := ⟨by omega, by omega⟩
    rw [hlow.long, hsize, add_zero]
  · have hsize : d.size = d.extent := max_eq_right (by omega)
    rw [hsize]

/-- The Z values are the numbers of elements. -/
theorem zValues_exact (h : ∀ d ∈ dims, d.BoundsFit) :
    zValuesFromBounds (buildBoundsList dims) = dims.map Dim.size := by
  rw [zValuesFromBounds, buildBoundsList, List.map_map]
  refine List.map_congr_left fun d hd => ?_
  have hfit := h d hd
  have hlt := hfit.2.2.1
  have hsize : 0 ≤ d.size ∧ d.size < 2 ^ 32 := by
    rw [Dim.size]
    omega
  simp only [Function.comp_apply, hfit.bounds]
  split
  · have hsum : d.lowerBound.denote + d.size - 1 - d.lowerBound.denote + 1 = d.size := by ring
    rw [hsum, Int.emod_eq_of_lt hsize.1 hsize.2]
  · omega

/-- The limits are those that are denoted. -/
theorem Dim.LimitsFit.range (h : d.LimitsFit) (hb : d.BoundsFit) : d.range d.bounds =
    if d.first < 0 then none
    else if d.upperLimit.checked = true ∧ d.size < d.last then none
    else some d.denoted := by
  obtain ⟨hext, hvalue, hfirst, hlast, hkind⟩ := h
  have hlow : long (d.lowerLimit.get - d.lowerBound.denote) = d.first := by
    have hget : d.lowerLimit.get = d.first + d.lowerBound.denote := by
      have hlong := hvalue.long
      cases hd : d.lowerLimit with
      | fixed v =>
        have hv : d.first + d.lowerBound.denote = v := by
          rw [Dim.first, hd]
          ring
        rw [hv] at hlong ⊢
        exact hlong
      | firstIs a =>
        have hv : d.first + d.lowerBound.denote = a.value := by
          rw [Dim.first, hd]
          ring
        rw [hv] at hlong ⊢
        exact hlong
    rw [hget, add_sub_cancel_right]
    exact hfirst.long
  have hsize : 0 ≤ d.size ∧ d.size < 2 ^ 31 := by
    rw [Dim.size]
    omega
  have hsum : d.lowerBound.denote + d.size - 1 - d.lowerBound.denote + 1 = d.size := by ring
  have hZ : long d.size = d.size := long_of_small (by omega) hsize.2
  have hupper : d.upperLimit.get ⟨d.lowerBound.denote, d.lowerBound.denote + d.size - 1⟩ d.first =
      (d.last, d.upperLimit.checked) := by
    have hlong := hlast.long
    cases hd : d.upperLimit with
    | fixed v =>
      rw [hd] at hkind
      rw [Dim.last, hd] at hlong ⊢
      have hv : long v = v := InLong.long hkind
      rw [UpperLimit.get, hv, hlong]
      rfl
    | lastIs a =>
      rw [hd] at hkind
      rw [Dim.last, hd] at hlong ⊢
      have hv : long a.value = a.value := InLong.long hkind
      rw [UpperLimit.get, rpcSsGetTypedInteger, hv, hlong]
      rfl
    | lengthIs fc a =>
      rw [hd] at hkind
      rw [Dim.last, hd] at hlong ⊢
      rw [UpperLimit.get, rpcSsGetTypedInteger, FuncCode.Fits.apply hkind, hlong]
      rfl
    | string n =>
      rw [Dim.last, hd] at hlong ⊢
      rw [UpperLimit.get, hlong]
      rfl
    | upperConf =>
      rw [Dim.last, hd] at hlong ⊢
      rw [UpperLimit.get, hsum, hlong]
      rfl
  rw [Dim.range, hb.bounds]
  simp only [hlow, hupper, hsum, hZ, gt_iff_lt]
  -- the last case is where the upper limit is below the lower one, or not
  split
  · rfl
  · split
    · rfl
    · split
      · rename_i hlt
        rw [Dim.denoted, max_eq_left hlt.le]
      · rename_i hle
        rw [Dim.denoted, max_eq_right (by omega)]

/-- Without overflow: a limit is refused, or the ranges are those denoted, which may not be within
their dimensions. -/
theorem buildRangeList_eq (hb : ∀ d ∈ dims, d.BoundsFit) (hl : ∀ d ∈ dims, d.LimitsFit) :
    ((∃ d ∈ dims, d.Refused) ∧ buildRangeList dims (buildBoundsList dims) = none) ∨
    ((∀ d ∈ dims, ¬ d.Refused) ∧
      buildRangeList dims (buildBoundsList dims) = some (dims.map Dim.denoted)) := by
  induction dims with
  | nil => exact .inr ⟨fun d hd => absurd hd List.not_mem_nil, rfl⟩
  | cons d dims ih =>
    have hrange := (hl d List.mem_cons_self).range (hb d List.mem_cons_self)
    have hrest := ih (fun e he => hb e (List.mem_cons_of_mem d he))
      fun e he => hl e (List.mem_cons_of_mem d he)
    have hlist : buildBoundsList (d :: dims) = d.bounds :: buildBoundsList dims := rfl
    rw [hlist, buildRangeList, hrange]
    -- the first limit that is refused ends the list
    by_cases hneg : d.first < 0
    · rw [if_pos hneg]
      exact .inl ⟨⟨d, List.mem_cons_self, .inl hneg⟩, rfl⟩
    · rw [if_neg hneg]
      by_cases hover : d.upperLimit.checked = true ∧ d.size < d.last
      · rw [if_pos hover]
        exact .inl ⟨⟨d, List.mem_cons_self, .inr hover⟩, rfl⟩
      · rw [if_neg hover]
        have hnot : ¬ d.Refused := not_or.mpr ⟨hneg, hover⟩
        rcases hrest with ⟨⟨e, he, hrefused⟩, hnone⟩ | ⟨hall, hsome⟩
        · refine .inl ⟨⟨e, List.mem_cons_of_mem d he, hrefused⟩, ?_⟩
          rw [hnone]
          rfl
        · refine .inr ⟨?_, ?_⟩
          · intro e he
            rcases List.mem_cons.mp he with rfl | he
            · exact hnot
            · exact hall e he
          · rw [hsome]
            rfl

/-- **Bounds and limits are right** when nothing overflows, and the data of each dimension begin and
end within it or a limit is refused; where nothing overflows, only then. -/
theorem ranges_exact_iff (dims : List Dim) :
    ((∀ d ∈ dims, d.BoundsFit) →
      zValuesFromBounds (buildBoundsList dims) = dims.map Dim.size) ∧
    ((∀ d ∈ dims, d.BoundsFit ∧ d.LimitsFit) →
      (Right dims ↔ (∃ d ∈ dims, d.Refused) ∨ ∀ d ∈ dims, d.LimitsWithin)) := by
  refine ⟨fun h => zValues_exact h, fun h => ?_⟩
  have hz := zValues_exact fun d hd => (h d hd).1
  rcases buildRangeList_eq (fun d hd => (h d hd).1) (fun d hd => (h d hd).2) with
    ⟨hex, hnone⟩ | ⟨hall, hsome⟩
  · simp only [Right, hnone]
    exact ⟨fun _ => .inl hex, fun _ => trivial⟩
  · simp only [Right, hsome]
    constructor
    · rintro ⟨-, hright⟩
      refine .inr fun d hd => ?_
      rw [List.forall₂_map_right_iff, List.forall₂_same] at hright
      obtain ⟨-, -, -, hle⟩ := hright d hd
      rw [Dim.denoted] at hle
      exact max_le_iff.mp hle
    · rintro (⟨d, hd, hrefused⟩ | hwithin)
      · exact absurd hrefused (hall d hd)
      · refine ⟨hz, ?_⟩
        rw [List.forall₂_map_right_iff, List.forall₂_same]
        intro d hd
        have hfirst : 0 ≤ d.first := by
          have hnot := hall d hd
          rw [Dim.Refused, not_or] at hnot
          omega
        exact ⟨rfl, hfirst, le_max_left _ _, max_le (hwithin d hd).1 (hwithin d hd).2⟩

/-- A conformant array of `size` elements from 0 on, of which `length` are data. -/
def sized (size length : Attr) : Dim :=
  ⟨.fixed 0, .sizeIs .none size, .fixed 0, .lengthIs .none length⟩

/-- Five of ten elements. -/
theorem five_of_ten :
    (sized ⟨.ulong, 10, by decide, by decide⟩ ⟨.short, 5, by decide, by decide⟩).BoundsFit ∧
    (sized ⟨.ulong, 10, by decide, by decide⟩ ⟨.short, 5, by decide, by decide⟩).LimitsFit ∧
    Right [sized ⟨.ulong, 10, by decide, by decide⟩ ⟨.short, 5, by decide, by decide⟩] := by
  have hb : (sized ⟨.ulong, 10, by decide, by decide⟩
      ⟨.short, 5, by decide, by decide⟩).BoundsFit :=
    ⟨by decide, by decide, by decide, ⟨by decide, trivial⟩⟩
  have hl : (sized ⟨.ulong, 10, by decide, by decide⟩
      ⟨.short, 5, by decide, by decide⟩).LimitsFit :=
    ⟨by decide, by decide, by decide, by decide, ⟨by decide, trivial⟩⟩
  refine ⟨hb, hl, ((ranges_exact_iff _).2 fun d hd => ?_).mpr (.inr fun d hd => ?_)⟩
  · rw [List.mem_singleton] at hd
    rw [hd]
    exact ⟨hb, hl⟩
  · rw [List.mem_singleton] at hd
    rw [hd]
    exact ⟨by decide, by decide⟩

/-- A `[size_is]` of `2 ^ 32 - 1` gives a Z value of 0, and a `[first_is]` of 20 and a `[last_is]`
of 5 in ten elements give the range from 20 to 20. -/
theorem large_size_and_first_behind_end :
    zValuesFromBounds (buildBoundsList
      [sized ⟨.ulong, 4294967295, by decide, by decide⟩ ⟨.long, 0, by decide, by decide⟩]) = [0] ∧
    (sized ⟨.ulong, 4294967295, by decide, by decide⟩
      ⟨.long, 0, by decide, by decide⟩).size = 4294967295 ∧
    buildRangeList
        [⟨.fixed 0, .fixed 9, .firstIs ⟨.long, 20, by decide, by decide⟩,
          .lastIs ⟨.long, 5, by decide, by decide⟩⟩] [⟨0, 9⟩] =
      some [⟨20, 20⟩] := by
  refine ⟨by decide, by decide, by decide⟩

end ArrayBounds
end Idl
