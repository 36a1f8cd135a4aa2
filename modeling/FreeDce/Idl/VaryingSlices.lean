/-
The elements of a varying or open array (interpsh.c, ndrui.c, ndrmi.c).

The interpreter goes through the ranges of the dimensions with an odometer, whose last dimension is
a slice of elements that follow one another.  Where all elements follow one another it takes them as
one block instead.  The walk is the same for marshalling and unmarshalling.

* `loopSlices_elements` — the odometer takes the index vectors within the ranges, each once, in
  row-major order;
* `contiguousElt_elements` — the block has the same elements in the same order;
* `block_equals_loop` — so that it does not matter which way is taken.
-/
import FreeDce.Lib.RowMajor

namespace Idl
namespace VaryingSlices

open RowMajor

/-- The value of an `idl_ulong_int`. -/
def u32 (n : ℕ) : ℕ := n % 2 ^ 32

/-! ### The block -/

/-- The loop of `rpc_ss_ndr_contiguous_elt` over the dimensions behind the first: the number of
elements in them, if all of each is taken. -/
def innerCount : List ℕ → List Range → ℕ → Option ℕ
  | z :: zValues, r :: ranges, elementCount =>
    if u32 (r.upper - r.lower) ≠ z then none
    else innerCount zValues ranges (u32 (elementCount * z))
  | _, _, elementCount => some elementCount

/-- `rpc_ss_ndr_contiguous_elt`: the address and the number of the elements, if they are
contiguous. -/
def contiguousElt (zValues : List ℕ) (ranges : List Range) (elementSize arrayAddr : ℕ) :
    Option (ℕ × ℕ) :=
  match ranges with
  | [] => none
  | r :: rest =>
    match innerCount zValues.tail rest 1 with
    | none => none
    | some elementCount =>
      some (arrayAddr + u32 (u32 (r.lower * elementCount) * elementSize),
        u32 (elementCount * (r.upper - r.lower)))

/-! ### The loop -/

/-- `subslice_size` of the dimensions, which is set from the last one on. -/
def subsliceSizes (elementSize : ℕ) : List ℕ → List ℕ
  | [] => []
  | [_] => [elementSize]
  | _ :: z :: zValues =>
    match subsliceSizes elementSize (z :: zValues) with
    | [] => []
    | size :: sizes => u32 (size * z) :: size :: sizes

/-- `inner_slice_address`. -/
def innerSliceAddress (arrayAddr : ℕ) (indexValues sizes : List ℕ) : ℕ :=
  arrayAddr + (List.zipWith (fun i size => u32 (i * size)) indexValues sizes).sum

/-- The odometer: the slices, each with its address and the number of its elements; `none` when the
fuel does not do.  All dimensions but the last are stepped. -/
def loopSlices (fuel : ℕ) (zValues : List ℕ) (ranges : List Range) (elementSize arrayAddr : ℕ) :
    Option (List (ℕ × ℕ)) :=
  match ranges.getLast? with
  | none => none
  | some last =>
    (run (advance ranges.dropLast) fuel (ranges.dropLast.map Range.lower)).map fun visited =>
      visited.map fun indexValues =>
        (innerSliceAddress arrayAddr (indexValues ++ [last.lower])
          (subsliceSizes elementSize zValues), last.upper - last.lower)

/-- The slices that a block is taken in; the last one of an array of structures goes by itself. -/
def blockSlices (fixedStruct : Bool) (elementSize addr elementCount : ℕ) : List (ℕ × ℕ) :=
  if fixedStruct then
    (if elementCount - 1 ≠ 0 then [(addr, elementCount - 1)] else []) ++
      [(addr + u32 ((elementCount - 1) * elementSize), 1)]
  else [(addr, elementCount)]

/-- `rpc_ss_ndr_u_var_or_open_arr` and `rpc_ss_ndr_m_var_or_open_arr`, from the choice between the
block and the loop on. -/
def varOrOpenArr (fuel : ℕ) (byBlock fixedStruct : Bool) (zValues : List ℕ) (ranges : List Range)
    (elementSize arrayAddr : ℕ) : Option (List (ℕ × ℕ)) :=
  match if byBlock then contiguousElt zValues ranges elementSize arrayAddr else none with
  | some (addr, elementCount) => some (blockSlices fixedStruct elementSize addr elementCount)
  | none => loopSlices fuel zValues ranges elementSize arrayAddr

/-- The addresses of the elements of slices. -/
def elements (elementSize : ℕ) (slices : List (ℕ × ℕ)) : List ℕ :=
  slices.flatMap fun s => (List.range s.2).map fun k => s.1 + k * elementSize

/-! ### Arrays without overflow -/

/-- The ranges are within the dimensions and not empty, and the number of elements and of bytes is
below `2 ^ 32`. -/
structure Fits (zValues : List ℕ) (ranges : List Range) (elementSize : ℕ) : Prop where
  within : List.Forall₂ (fun z r => r.lower < r.upper ∧ r.upper ≤ z) zValues ranges
  count : zValues.prod < 2 ^ 32
  bytes : zValues.prod * elementSize < 2 ^ 32

variable {zs : List ℕ} {rs : List Range} {r : Range} {es z : ℕ}

theorem u32_of_lt {n : ℕ} (h : n < 2 ^ 32) : u32 n = n := Nat.mod_eq_of_lt h

theorem within_pos (h : List.Forall₂ (fun z r => r.lower < r.upper ∧ r.upper ≤ z) zs rs) :
    ∀ z ∈ zs, 0 < z := by
  induction h with
  | nil =>
    intro z hz
    cases hz
  | cons hr _ ih =>
    intro z hz
    rcases List.mem_cons.mp hz with rfl | hz
    · omega
    · exact ih z hz

theorem within_nonEmpty (h : List.Forall₂ (fun z r => r.lower < r.upper ∧ r.upper ≤ z) zs rs) :
    NonEmpty rs := by
  induction h with
  | nil =>
    intro r hr
    cases hr
  | cons hr _ ih =>
    intro r hr'
    rcases List.mem_cons.mp hr' with rfl | hr'
    · exact hr.1
    · exact ih r hr'

/-- The rest of the dimensions is no larger. -/
theorem tail_le (zs : List ℕ) (hz : 0 < z) (n : ℕ) : zs.prod * n ≤ (z :: zs).prod * n := by
  rw [List.prod_cons]
  exact Nat.mul_le_mul_right n (Nat.le_mul_of_pos_left _ hz)

/-- The sizes of the subslices, without overflow. -/
def exactSizes (es : ℕ) : List ℕ → List ℕ
  | [] => []
  | _ :: zs => zs.prod * es :: exactSizes es zs

theorem subsliceSizes_eq (hpos : ∀ z ∈ zs, 0 < z) (h : zs.prod * es < 2 ^ 32) :
    subsliceSizes es zs = exactSizes es zs := by
  induction zs with
  | nil => rfl
  | cons a zs ih =>
    have ha := hpos a List.mem_cons_self
    have hle := tail_le zs ha es
    have htail := ih (fun z hz => hpos z (List.mem_cons_of_mem a hz)) (by omega)
    cases zs with
    | nil =>
      rw [subsliceSizes, exactSizes, exactSizes, List.prod_nil, Nat.one_mul]
    | cons z zs =>
      have hmul : zs.prod * es * z = (z :: zs).prod * es := by
        rw [List.prod_cons]
        ring
      rw [subsliceSizes, htail]
      simp only [exactSizes]
      rw [hmul, u32_of_lt (by omega)]

theorem sum_exactSizes (h : zs.prod * es < 2 ^ 32) {v : List ℕ}
    (hv : List.Forall₂ (fun i z => i < z) v zs) :
    (List.zipWith (fun i size => u32 (i * size)) v (exactSizes es zs)).sum = flat zs v * es := by
  induction hv with
  | nil =>
    have hflat : flat [] [] = 0 := rfl
    rw [exactSizes, hflat, List.zipWith_nil_left, List.sum_nil, Nat.zero_mul]
  | cons hi hv ih =>
    rename_i i z v zs
    have hle := tail_le zs (z := z) (by omega) es
    have hmul : i * (zs.prod * es) ≤ (z :: zs).prod * es := by
      rw [List.prod_cons, Nat.mul_assoc]
      exact Nat.mul_le_mul_right _ hi.le
    rw [exactSizes, List.zipWith_cons_cons, List.sum_cons, ih (by omega), u32_of_lt (by omega), flat]
    ring

/-! ### The odometer takes the elements in row-major order -/

theorem rowMajor_concat (rs : List Range) (r : Range) : rowMajor (rs ++ [r]) =
    (rowMajor rs).flatMap fun v => r.indices.map fun i => v ++ [i] := by
  induction rs with
  | nil =>
    have hone : rowMajor [r] = r.indices.flatMap fun i => [[i]] := rfl
    have hnil : rowMajor [] = [[]] := rfl
    rw [List.nil_append, hone, hnil]
    simp [List.map_eq_flatMap]
  | cons s rs ih =>
    rw [List.cons_append, rowMajor, ih, rowMajor, List.flatMap_assoc]
    refine List.flatMap_congr fun i _ => ?_
    rw [List.map_flatMap, List.flatMap_map]
    refine List.flatMap_congr fun v _ => ?_
    rw [List.map_map]
    rfl

/-- The place of an element by its index vector. -/
theorem innerSliceAddress_eq (hF : Fits zs rs es) (addr : ℕ) {v : List ℕ} (hv : v ∈ rowMajor rs) :
    innerSliceAddress addr v (subsliceSizes es zs) = addr + flat zs v * es := by
  have hlt : List.Forall₂ (fun i z => i < z) v zs := by
    have hin := mem_rowMajor.mp hv
    have hwithin := hF.within.flip
    clear hv hF
    induction hin generalizing zs with
    | nil =>
      cases hwithin
      exact .nil
    | cons hi _ ih =>
      cases hwithin with
      | cons hr hrest => exact .cons (by omega) (ih hrest)
  rw [innerSliceAddress, subsliceSizes_eq (within_pos hF.within) hF.bytes,
    sum_exactSizes hF.bytes hlt]

/-- The elements of a slice stand one element size apart. -/
theorem flat_concat {v : List ℕ} : ∀ {zs : List ℕ}, zs.length = v.length + 1 → ∀ i k,
    flat zs (v ++ [i + k]) = flat zs (v ++ [i]) + k := by
  induction v with
  | nil =>
    intro zs h i k
    obtain ⟨z, rfl⟩ := List.length_eq_one_iff.mp h
    simp [flat]
  | cons a v ih =>
    intro zs h i k
    cases zs with
    | nil => simp at h
    | cons z zs =>
      rw [List.cons_append, List.cons_append, flat, flat,
        ih (by rw [List.length_cons, List.length_cons] at h; omega)]
      omega

/-- The loop comes to its end, and takes the elements of the index vectors in order. -/
theorem loopSlices_elements (hF : Fits zs rs es) (hne : rs ≠ []) (addr : ℕ) {fuel : ℕ}
    (hfuel : (rowMajor rs.dropLast).length ≤ fuel) :
    ∃ slices, loopSlices fuel zs rs es addr = some slices ∧
      elements es slices = (rowMajor rs).map fun v => addr + flat zs v * es := by
  obtain ⟨outer, last, rfl⟩ := (List.eq_nil_or_concat' rs).resolve_left hne
  rw [List.dropLast_concat] at hfuel
  have hnon := within_nonEmpty hF.within
  have houter : NonEmpty outer := fun r hr => hnon r (List.mem_append_left _ hr)
  have hlast := hnon last (List.mem_append_right _ List.mem_cons_self)
  obtain ⟨l, hl⟩ := rowMajor_eq_cons houter
  have htrace := traces_rowMajor houter
  rw [hl] at htrace hfuel
  rw [List.length_cons] at hfuel
  have hrun : run (advance outer) fuel (outer.map Range.lower) =
      some (outer.map Range.lower :: l) := run_of_traces htrace (by omega)
  rw [← hl] at hrun
  refine ⟨(rowMajor outer).map fun v => (innerSliceAddress addr (v ++ [last.lower])
    (subsliceSizes es zs), last.upper - last.lower), ?_, ?_⟩
  · rw [loopSlices, List.getLast?_concat, List.dropLast_concat]
    simp only [hrun, Option.map_some]
  · rw [elements, List.flatMap_map, rowMajor_concat, List.map_flatMap]
    refine List.flatMap_congr fun v hv => ?_
    have hlen : zs.length = v.length + 1 := by
      have hz := hF.within.length_eq
      have hv' := (mem_rowMajor.mp hv).length_eq
      rw [List.length_append, List.length_singleton] at hz
      omega
    -- a slice begins at the element with the lowest last index
    have hmem : v ++ [last.lower] ∈ rowMajor (outer ++ [last]) := by
      rw [rowMajor_concat, List.mem_flatMap]
      refine ⟨v, hv, List.mem_map.mpr ⟨last.lower, ?_, rfl⟩⟩
      rw [Range.indices, List.mem_range'_1]
      omega
    have haddr := innerSliceAddress_eq hF addr hmem
    simp only [haddr]
    rw [Range.indices, List.range'_eq_map_range, List.map_map, List.map_map]
    refine List.map_congr_left fun k _ => ?_
    simp only [Function.comp_apply, flat_concat hlen]
    ring

/-! ### The block has the same elements -/

/-- The inner dimensions are taken whole. -/
theorem innerCount_some {c n : ℕ}
    (h : List.Forall₂ (fun z r => r.lower < r.upper ∧ r.upper ≤ z) zs rs)
    (hc : c * zs.prod < 2 ^ 32) (hn : innerCount zs rs c = some n) :
    rs = full zs ∧ n = c * zs.prod := by
  induction h generalizing c with
  | nil =>
    rw [innerCount] at hn
    · obtain rfl := Option.some.inj hn
      exact ⟨rfl, by rw [List.prod_nil, Nat.mul_one]⟩
    · intro z zs r rs h
      cases h
  | cons hr hrest ih =>
    rename_i z r zs rs
    rw [innerCount] at hn
    split at hn
    · cases hn
    · -- the range is the whole dimension
      rename_i hz
      rw [not_not] at hz
      have hle : u32 (r.upper - r.lower) ≤ r.upper - r.lower := Nat.mod_le _ _
      have hmul : c * z * zs.prod = c * (z :: zs).prod := by
        rw [List.prod_cons]
        ring
      have hpos : 0 < zs.prod := List.prod_pos fun z hz => within_pos hrest z hz
      have hcz : c * z < 2 ^ 32 := by
        have := Nat.le_mul_of_pos_right (c * z) hpos
        omega
      rw [u32_of_lt hcz] at hn
      obtain ⟨hfull, hcount⟩ := ih (by omega) hn
      refine ⟨?_, by rw [hcount, hmul]⟩
      have hwhole : r = ⟨0, z⟩ := by
        have h0 : r.lower = 0 := by omega
        have h1 : r.upper = z := by omega
        cases r
        simp only at h0 h1
        rw [h0, h1]
      rw [hwhole, hfull]
      rfl

/-- Where the elements are contiguous, they are those of the index vectors, in order. -/
theorem contiguousElt_elements (hF : Fits zs rs es) {addr a n : ℕ}
    (h : contiguousElt zs rs es addr = some (a, n)) :
    ((List.range n).map fun k => a + k * es) =
      (rowMajor rs).map fun v => addr + flat zs v * es := by
  have hwithin := hF.within
  cases hwithin with
  | nil =>
    rw [contiguousElt] at h
    cases h
  | cons hr hrest =>
    rename_i z r zs rs
    rw [contiguousElt, List.tail_cons] at h
    have hz : 0 < z := by omega
    have hle := tail_le zs hz 1
    have hcount := hF.count
    have hbytes := hF.bytes
    cases hin : innerCount zs rs 1 with
    | none =>
      rw [hin] at h
      cases h
    | some c =>
      obtain ⟨rfl, hc⟩ := innerCount_some hrest (by omega) hin
      rw [Nat.one_mul] at hc
      subst hc
      rw [hin] at h
      -- nothing overflows: the block is part of the array
      have hlow : r.lower * zs.prod ≤ (z :: zs).prod := by
        rw [List.prod_cons]
        exact Nat.mul_le_mul_right _ (by omega)
      have hlowb : r.lower * zs.prod * es ≤ (z :: zs).prod * es := Nat.mul_le_mul_right _ hlow
      have hnum : zs.prod * (r.upper - r.lower) ≤ (z :: zs).prod := by
        rw [List.prod_cons, Nat.mul_comm z]
        exact Nat.mul_le_mul_left _ (by omega)
      simp only [Option.some.injEq, Prod.mk.injEq] at h
      obtain ⟨ha, hn⟩ := h
      rw [u32_of_lt (n := r.lower * zs.prod) (by omega), u32_of_lt (by omega)] at ha
      rw [u32_of_lt (by omega)] at hn
      subst ha hn
      have hrange : r = ⟨r.lower, r.lower + (r.upper - r.lower)⟩ := by
        cases r
        simp only [Range.mk.injEq, true_and]
        simp only at hr
        omega
      have hmap := map_flat_first z r.lower (r.upper - r.lower) zs
      rw [← hrange] at hmap
      have hcomp : ((rowMajor (r :: full zs)).map fun v => addr + flat (z :: zs) v * es) =
          (((rowMajor (r :: full zs)).map (flat (z :: zs))).map fun k => addr + k * es) := by
        rw [List.map_map]
        rfl
      rw [hcomp, hmap, List.range'_eq_map_range, List.map_map, Nat.mul_comm zs.prod]
      refine List.map_congr_left fun k _ => ?_
      simp only [Function.comp_apply]
      ring

/-- A block in one piece, or with the last element by itself. -/
theorem elements_blockSlices (fixedStruct : Bool) {a n : ℕ} (hn : 0 < n) (hlt : n * es < 2 ^ 32) :
    elements es (blockSlices fixedStruct es a n) = (List.range n).map fun k => a + k * es := by
  cases fixedStruct with
  | false => simp [blockSlices, elements]
  | true =>
    obtain ⟨m, rfl⟩ : ∃ m, n = m + 1 := ⟨n - 1, by omega⟩
    have hle : m * es ≤ (m + 1) * es := Nat.mul_le_mul_right _ (Nat.le_succ m)
    have hlast : u32 (m * es) = m * es := u32_of_lt (by omega)
    rw [blockSlices, if_pos rfl, Nat.add_sub_cancel, hlast, List.range_succ, List.map_append]
    by_cases hm : m = 0
    · subst hm
      simp [elements]
    · simp [elements, hm]

/-- **Block and loop take the same elements**, which are those of the index vectors within the
ranges, each once and in row-major order. -/
theorem block_equals_loop (zValues : List ℕ) (ranges : List Range) (elementSize arrayAddr : ℕ)
    (hF : Fits zValues ranges elementSize) (hne : ranges ≠ []) (fuel : ℕ)
    (hfuel : (rowMajor ranges.dropLast).length ≤ fuel) :
    (∃ slices, loopSlices fuel zValues ranges elementSize arrayAddr = some slices ∧
      elements elementSize slices =
        (rowMajor ranges).map (fun v => arrayAddr + flat zValues v * elementSize) ∧
      (∀ a n, contiguousElt zValues ranges elementSize arrayAddr = some (a, n) →
        (List.range n).map (fun k => a + k * elementSize) = elements elementSize slices) ∧
      ∀ byBlock fixedStruct, ∃ slices',
        varOrOpenArr fuel byBlock fixedStruct zValues ranges elementSize arrayAddr = some slices' ∧
        elements elementSize slices' = elements elementSize slices) ∧
    (rowMajor ranges).Nodup ∧ (rowMajor ranges).Pairwise Before ∧
    ∀ v, v ∈ rowMajor ranges ↔ List.Forall₂ (fun i r => r.lower ≤ i ∧ i < r.upper) v ranges := by
  obtain ⟨slices, hloop, helts⟩ := loopSlices_elements hF hne arrayAddr hfuel
  refine ⟨⟨slices, hloop, helts, ?_, ?_⟩, nodup_rowMajor _, sorted_rowMajor _,
    fun v => mem_rowMajor⟩
  · intro a n h
    rw [contiguousElt_elements hF h, helts]
  · intro byBlock fixedStruct
    rw [varOrOpenArr]
    cases hblock : (if byBlock then contiguousElt zValues ranges elementSize arrayAddr else none) with
    | none => exact ⟨slices, hloop, rfl⟩
    | some p =>
      obtain ⟨a, n⟩ := p
      have hcont : contiguousElt zValues ranges elementSize arrayAddr = some (a, n) := by
        split at hblock
        · exact hblock
        · cases hblock
      have heq := contiguousElt_elements hF hcont
      -- the block has as many elements as there are index vectors
      have hlen := congrArg List.length heq
      rw [List.length_map, List.length_range, List.length_map] at hlen
      obtain ⟨l, hl⟩ := rowMajor_eq_cons (within_nonEmpty hF.within)
      have hpos : 0 < n := by
        rw [hlen, hl, List.length_cons]
        omega
      have hle : n ≤ zValues.prod := by
        cases ranges with
        | nil => exact absurd rfl hne
        | cons r rs =>
          obtain ⟨z, zs, rfl⟩ : ∃ z zs, zValues = z :: zs := by
            cases hF.within
            exact ⟨_, _, rfl⟩
          have hr := (List.forall₂_cons.mp hF.within).1
          rw [contiguousElt, List.tail_cons] at hcont
          cases hin : innerCount zs rs 1 with
          | none =>
            rw [hin] at hcont
            cases hcont
          | some c =>
            have hz := tail_le zs (z := z) (by omega) 1
            have hcount := hF.count
            obtain ⟨-, hc⟩ := innerCount_some (List.forall₂_cons.mp hF.within).2 (by omega) hin
            rw [hin] at hcont
            simp only [Option.some.injEq, Prod.mk.injEq] at hcont
            rw [← hcont.2, hc, Nat.one_mul, List.prod_cons, Nat.mul_comm z]
            exact (Nat.mod_le _ _).trans (Nat.mul_le_mul_left _ (by omega))
      refine ⟨_, rfl, ?_⟩
      have hbytes := Nat.mul_le_mul_right elementSize hle
      rw [elements_blockSlices fixedStruct hpos (hbytes.trans_lt hF.bytes), heq, helts]

/-- Two of four rows, whole. -/
theorem two_rows_equal_loop :
    Fits [4, 3] [⟨1, 3⟩, ⟨0, 3⟩] 8 ∧ ([⟨1, 3⟩, ⟨0, 3⟩] : List Range) ≠ [] ∧
    (∃ slices, loopSlices 2 [4, 3] [⟨1, 3⟩, ⟨0, 3⟩] 8 100 = some slices ∧
      (List.range 6).map (fun k => 124 + k * 8) = elements 8 slices) := by
  have hF : Fits [4, 3] [⟨1, 3⟩, ⟨0, 3⟩] 8 :=
    ⟨.cons (by decide) (.cons (by decide) .nil), by decide, by decide⟩
  obtain ⟨⟨slices, hloop, -, hblock, -⟩, -⟩ :=
    block_equals_loop [4, 3] [⟨1, 3⟩, ⟨0, 3⟩] 8 100 hF (by decide) 2 (by decide)
  exact ⟨hF, by decide, slices, hloop, hblock 124 6 (by decide)⟩

end VaryingSlices
end Idl
