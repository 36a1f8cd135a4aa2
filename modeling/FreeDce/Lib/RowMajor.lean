/-
Index vectors in row-major order, and the odometer that goes through them.

* `traces_rowMajor` — the odometer goes from each index vector to the next one, and stops at the
  last;
* `run_of_traces` — a run of it visits them all;
* `nodup_rowMajor`, `mem_rowMajor`, `sorted_rowMajor` — these are the vectors within the ranges,
  once each, in lexicographic order;
* `map_flat_full` — the places of the vectors in a block without gaps.
-/
import Mathlib

namespace RowMajor

/-- Indices from `lower` on, below `upper`. -/
structure Range where
  lower : ℕ
  upper : ℕ
deriving DecidableEq, Repr

def Range.indices (r : Range) : List ℕ := List.range' r.lower (r.upper - r.lower)

/-- The index vectors within the ranges, the last index running fastest. -/
def rowMajor : List Range → List (List ℕ)
  | [] => [[]]
  | r :: rs => r.indices.flatMap fun i => (rowMajor rs).map (i :: ·)

/-- The last index that can goes on by one, and those behind it go back; `none` if none can. -/
def advance : List Range → List ℕ → Option (List ℕ)
  | r :: rs, i :: is =>
    match advance rs is with
    | some is' => some (i :: is')
    | none => if i + 1 < r.upper then some ((i + 1) :: rs.map Range.lower) else none
  | _, _ => none

/-! ### Traces of a step -/

variable {α β : Type} {step : α → Option α} {step' : β → Option β}

/-- The step leads through the list, and from its last element to this. -/
def Traces (step : α → Option α) : List α → Option α → Prop
  | [], _ => False
  | [a], o => step a = o
  | a :: b :: l, o => step a = some b ∧ Traces step (b :: l) o

theorem Traces.append {a : α} {l l' : List α} {o : Option α} (h : Traces step l (some a))
    (h' : Traces step (a :: l') o) : Traces step (l ++ a :: l') o := by
  induction l with
  | nil => exact h.elim
  | cons b l ih =>
    cases l with
    | nil => exact ⟨h, h'⟩
    | cons c l => exact ⟨h.1, ih h.2⟩

theorem Traces.map {f : α → β} {l : List α} {o : Option β} (h : Traces step l none)
    (hsome : ∀ a b, step a = some b → step' (f a) = some (f b))
    (hnone : ∀ a, step a = none → step' (f a) = o) : Traces step' (l.map f) o := by
  induction l with
  | nil => exact h.elim
  | cons a l ih =>
    cases l with
    | nil => exact hnone a h
    | cons b l => exact ⟨hsome a b h.1, ih h.2⟩

/-- The elements that are visited until there is no next one; `none` when the fuel does not do. -/
def run (step : α → Option α) : ℕ → α → Option (List α)
  | 0, _ => none
  | fuel + 1, a =>
    match step a with
    | none => some [a]
    | some b => (run step fuel b).map (a :: ·)

theorem run_of_traces {l : List α} {a : α} {fuel : ℕ} (h : Traces step (a :: l) none)
    (hfuel : l.length < fuel) : run step fuel a = some (a :: l) := by
  induction l generalizing a fuel with
  | nil =>
    obtain ⟨n, rfl⟩ : ∃ n, fuel = n + 1 := ⟨fuel - 1, by omega⟩
    have hstep : step a = none := h
    rw [run, hstep]
  | cons b l ih =>
    obtain ⟨n, rfl⟩ : ∃ n, fuel = n + 1 := ⟨fuel - 1, by omega⟩
    rw [List.length_cons] at hfuel
    have hrest : run step n b = some (b :: l) := ih h.2 (by omega)
    rw [run, h.1]
    simp only [hrest, Option.map_some]

/-! ### The odometer -/

/-- No range is empty. -/
def NonEmpty (rs : List Range) : Prop := ∀ r ∈ rs, r.lower < r.upper

theorem rowMajor_eq_cons {rs : List Range} (h : NonEmpty rs) :
    ∃ l, rowMajor rs = rs.map Range.lower :: l := by
  induction rs with
  | nil => exact ⟨[], rfl⟩
  | cons r rs ih =>
    obtain ⟨l, hl⟩ := ih fun s hs => h s (List.mem_cons_of_mem r hs)
    obtain ⟨n, hn⟩ : ∃ n, r.upper - r.lower = n + 1 :=
      ⟨r.upper - r.lower - 1, by have := h r List.mem_cons_self; omega⟩
    rw [rowMajor, Range.indices, hn, List.range'_succ, List.flatMap_cons, hl, List.map_cons]
    exact ⟨_, rfl⟩

/-- Within the slice of one index the odometer goes as it goes in the rest. -/
theorem traces_slice {r : Range} {rs : List Range} (i : ℕ)
    (h : Traces (advance rs) (rowMajor rs) none) :
    Traces (advance (r :: rs)) ((rowMajor rs).map (i :: ·))
      (if i + 1 < r.upper then some ((i + 1) :: rs.map Range.lower) else none) := by
  refine h.map (fun a b hab => ?_) (fun a ha => ?_)
  · rw [advance, hab]
  · rw [advance, ha]

theorem traces_rowMajor {rs : List Range} (h : NonEmpty rs) :
    Traces (advance rs) (rowMajor rs) none := by
  induction rs with
  | nil => exact (rfl : advance [] [] = none)
  | cons r rs ih =>
    have hrest : NonEmpty rs := fun s hs => h s (List.mem_cons_of_mem r hs)
    have htail := ih hrest
    obtain ⟨l, hl⟩ := rowMajor_eq_cons hrest
    have hr := h r List.mem_cons_self
    -- the slices from the index `i` on
    have hslices : ∀ n i, i + (n + 1) = r.upper →
        Traces (advance (r :: rs))
          ((List.range' i (n + 1)).flatMap fun i => (rowMajor rs).map (i :: ·)) none := by
      intro n
      -- by induction on how many slices follow
      induction n with
      | zero =>
        intro i hi
        have hslice := traces_slice (r := r) i htail
        rw [if_neg (by omega)] at hslice
        simpa using hslice
      | succ n ihn =>
        intro i hi
        have hslice := traces_slice (r := r) i htail
        rw [if_pos (by omega)] at hslice
        have hnext := ihn (i + 1) (by omega)
        have hfirst : (List.range' (i + 1) (n + 1)).flatMap (fun i => (rowMajor rs).map (i :: ·)) =
            ((i + 1) :: rs.map Range.lower) :: (l.map ((i + 1) :: ·) ++
              (List.range' (i + 1 + 1) n).flatMap fun i => (rowMajor rs).map (i :: ·)) := by
          rw [List.range'_succ, List.flatMap_cons, hl, List.map_cons, List.cons_append]
        rw [List.range'_succ, List.flatMap_cons, hfirst]
        rw [hfirst] at hnext
        exact hslice.append hnext
    rw [rowMajor, Range.indices]
    obtain ⟨n, hn⟩ : ∃ n, r.upper - r.lower = n + 1 := ⟨r.upper - r.lower - 1, by omega⟩
    rw [hn]
    exact hslices n r.lower (by omega)

/-! ### What the vectors are -/

theorem mem_rowMajor {rs : List Range} {v : List ℕ} :
    v ∈ rowMajor rs ↔ List.Forall₂ (fun i r => r.lower ≤ i ∧ i < r.upper) v rs := by
  induction rs generalizing v with
  | nil => rw [rowMajor, List.mem_singleton, List.forall₂_nil_right_iff]
  | cons r rs ih =>
    rw [rowMajor, List.mem_flatMap]
    constructor
    · rintro ⟨i, hi, hv⟩
      obtain ⟨w, hw, rfl⟩ := List.mem_map.mp hv
      rw [Range.indices, List.mem_range'_1] at hi
      exact .cons ⟨hi.1, by omega⟩ (ih.mp hw)
    · intro h
      cases h with
      | cons hi hw =>
        rename_i i w
        refine ⟨i, ?_, List.mem_map.mpr ⟨w, ih.mpr hw, rfl⟩⟩
        rw [Range.indices, List.mem_range'_1]
        omega

/-- The order of index vectors: the first index that differs decides. -/
inductive Before : List ℕ → List ℕ → Prop
  | here {i j : ℕ} {v w : List ℕ} : i < j → Before (i :: v) (j :: w)
  | there {i : ℕ} {v w : List ℕ} : Before v w → Before (i :: v) (i :: w)

theorem Before.ne {v w : List ℕ} (h : Before v w) : v ≠ w := by
  induction h with
  | here hij =>
    intro heq
    rw [List.cons.injEq] at heq
    exact hij.ne heq.1
  | there _ ih =>
    intro heq
    rw [List.cons.injEq] at heq
    exact ih heq.2

theorem sorted_rowMajor (rs : List Range) : (rowMajor rs).Pairwise Before := by
  induction rs with
  | nil => exact List.pairwise_singleton _ _
  | cons r rs ih =>
    rw [rowMajor, List.pairwise_flatMap]
    refine ⟨fun i _ => ?_, ?_⟩
    · rw [List.pairwise_map]
      exact ih.imp fun h => .there h
    · have hlt : r.indices.Pairwise (· < ·) := List.pairwise_lt_range'
      refine List.Pairwise.imp ?_ hlt
      intro i j hij v hv w hw
      obtain ⟨v', -, rfl⟩ := List.mem_map.mp hv
      obtain ⟨w', -, rfl⟩ := List.mem_map.mp hw
      exact .here hij

theorem nodup_rowMajor (rs : List Range) : (rowMajor rs).Nodup :=
  (sorted_rowMajor rs).imp fun h => h.ne

/-! ### Places -/

/-- The place of an index vector when the dimensions have these sizes. -/
def flat : List ℕ → List ℕ → ℕ
  | _ :: zs, i :: v => i * zs.prod + flat zs v
  | _, _ => 0

/-- The whole of each dimension. -/
def full (zs : List ℕ) : List Range := zs.map fun z => ⟨0, z⟩

theorem flatMap_range' (p l n : ℕ) :
    ((List.range' l n).flatMap fun i => (List.range p).map fun k => i * p + k) =
      List.range' (l * p) (n * p) := by
  induction n generalizing l with
  | zero => simp
  | succ n ih =>
    have hslice : ((List.range p).map fun k => l * p + k) = List.range' (l * p) p := by
      rw [List.range'_eq_map_range]
    have hnext : l * p + 1 * p = (l + 1) * p := by ring
    have hlen : p + n * p = (n + 1) * p := by ring
    rw [List.range'_succ, List.flatMap_cons, ih, hslice, ← hnext, List.range'_append, hlen]

/-- In whole dimensions the places have no gaps. -/
theorem map_flat_full (zs : List ℕ) :
    (rowMajor (full zs)).map (flat zs) = List.range zs.prod := by
  induction zs with
  | nil => rfl
  | cons z zs ih =>
    have hslice : ∀ i, ((rowMajor (full zs)).map (i :: ·)).map (flat (z :: zs)) =
        (List.range zs.prod).map fun k => i * zs.prod + k := by
      intro i
      rw [← ih, List.map_map, List.map_map]
      rfl
    have hfull : full (z :: zs) = ⟨0, z⟩ :: full zs := rfl
    rw [hfull, rowMajor, List.map_flatMap]
    simp only [hslice]
    rw [Range.indices, flatMap_range', Nat.zero_mul, Nat.sub_zero, List.prod_cons,
      ← List.range_eq_range']

/-- Nor do they when only the first dimension is cut. -/
theorem map_flat_first (z l n : ℕ) (zs : List ℕ) :
    (rowMajor (⟨l, l + n⟩ :: full zs)).map (flat (z :: zs)) =
      List.range' (l * zs.prod) (n * zs.prod) := by
  have hslice : ∀ i, ((rowMajor (full zs)).map (i :: ·)).map (flat (z :: zs)) =
      (List.range zs.prod).map fun k => i * zs.prod + k := by
    intro i
    rw [← map_flat_full, List.map_map, List.map_map]
    rfl
  rw [rowMajor, List.map_flatMap]
  simp only [hslice]
  rw [Range.indices, Nat.add_sub_cancel_left, flatMap_range']

end RowMajor
