/-
Radix trees of arrays.

A tree of level `n` has `n` levels of arrays of pointers above the arrays that hold the values.
Each array has `b` elements, so the tree has a place for each key below `b ^ (n + 1)`; an array
below the top one is made when it is first needed.

* `get_set` — a stored value is found under its key, and under no other;
* `get_grow` — a new top array leaves all values in their places.
-/
import Mathlib

namespace Radix

variable {b : ℕ} {α : Type}

@[reducible] def Tree (b : ℕ) (α : Type) : ℕ → Type
  | 0 => Fin b → α
  | n + 1 => Fin b → Option (Tree b α n)

/-! ### Arrays with checked indices -/

section Arrays

variable {β : Type}

/-- The element with a number; `none` if the array has no such element. -/
def sub (a : Fin b → β) (i : ℕ) : Option β :=
  if h : i < b then some (a ⟨i, h⟩) else none

/-- The element with a number is replaced. -/
def put (a : Fin b → β) (i : ℕ) (x : β) : Option (Fin b → β) :=
  if h : i < b then some (Function.update a ⟨i, h⟩ x) else none

theorem sub_eq [NeZero b] {a : Fin b → β} {i : ℕ} (h : i < b) : sub a i = some (a (Fin.ofNat b i)) := by
  rw [sub, dif_pos h]
  congr 2
  exact Fin.ext (Nat.mod_eq_of_lt h).symm

theorem put_eq [NeZero b] {a : Fin b → β} {i : ℕ} {x : β} (h : i < b) :
    put a i x = some (Function.update a (Fin.ofNat b i) x) := by
  rw [put, dif_pos h]
  congr 2
  exact Fin.ext (Nat.mod_eq_of_lt h).symm

end Arrays

/-! ### Trees as maps -/

def empty (z : α) : (n : ℕ) → Tree b α n
  | 0 => fun _ => z
  | _ + 1 => fun _ => none

variable [NeZero b]

/-- The value under a key, `z` where there is no array. -/
def get (z : α) : (n : ℕ) → Tree b α n → ℕ → α
  | 0, t, key => t (Fin.ofNat b key)
  | n + 1, t, key =>
    match t (Fin.ofNat b (key / b ^ (n + 1))) with
    | none => z
    | some t' => get z n t' (key % b ^ (n + 1))

/-- A value is stored under a key. -/
def set (z : α) : (n : ℕ) → Tree b α n → ℕ → α → Tree b α n
  | 0, t, key, x => Function.update t (Fin.ofNat b key) x
  | n + 1, t, key, x =>
    Function.update t (Fin.ofNat b (key / b ^ (n + 1)))
      (some (set z n ((t (Fin.ofNat b (key / b ^ (n + 1)))).getD (empty z n))
        (key % b ^ (n + 1)) x))

/-- A new top array, with the old one as its first element. -/
def grow (n : ℕ) (t : Tree b α n) : Tree b α (n + 1) :=
  Function.update (fun _ => none) (Fin.ofNat b 0) (some t)

theorem get_empty (z : α) (n key : ℕ) : get z n (empty z n : Tree b α n) key = z := by
  cases n with
  | zero => rfl
  | succ n => rfl

theorem ofNat_ne {i j : ℕ} (hi : i < b) (hj : j < b) (h : i ≠ j) : Fin.ofNat b i ≠ Fin.ofNat b j := by
  intro heq
  refine h ?_
  have hval : i % b = j % b := congrArg Fin.val heq
  rwa [Nat.mod_eq_of_lt hi, Nat.mod_eq_of_lt hj] at hval

theorem div_lt {n key : ℕ} (h : key < b ^ (n + 2)) : key / b ^ (n + 1) < b := by
  rw [Nat.div_lt_iff_lt_mul (Nat.pow_pos (NeZero.pos b)), mul_comm]
  exact h

theorem mod_lt (n key : ℕ) : key % b ^ (n + 1) < b ^ (n + 1) :=
  Nat.mod_lt _ (Nat.pow_pos (NeZero.pos b))

/-- A stored value is found under its key; all others stay. -/
theorem get_set (z x : α) {n : ℕ} (t : Tree b α n) {key key' : ℕ} (hk : key < b ^ (n + 1))
    (hk' : key' < b ^ (n + 1)) :
    get z n (set z n t key x) key' = if key' = key then x else get z n t key' := by
  induction n generalizing key key' with
  | zero =>
    rw [zero_add, pow_one] at hk hk'
    show Function.update t (Fin.ofNat b key) x (Fin.ofNat b key') = _
    by_cases h : key' = key
    · rw [if_pos h, h, Function.update_self]
    · rw [if_neg h, Function.update_of_ne (ofNat_ne hk' hk h)]
      rfl
  | succ n ih =>
    rw [set, get]
    by_cases hdiv : key' / b ^ (n + 1) = key / b ^ (n + 1)
    · rw [hdiv, Function.update_self]
      show get z n _ _ = _
      rw [ih _ (mod_lt n key) (mod_lt n key')]
      -- in one array the keys are told apart by what is left of them
      have hiff : key' % b ^ (n + 1) = key % b ^ (n + 1) ↔ key' = key := by
        constructor
        · intro hmod
          rw [← Nat.div_add_mod key' (b ^ (n + 1)), hdiv, hmod, Nat.div_add_mod]
        · intro h
          rw [h]
      rw [if_congr hiff rfl rfl, get, hdiv]
      cases t (Fin.ofNat b (key / b ^ (n + 1))) with
      | none => rw [Option.getD_none, get_empty]
      | some t' => rfl
    · have hne := ofNat_ne (div_lt hk') (div_lt hk) hdiv
      have hkey : key' ≠ key := by
        rintro rfl
        exact hdiv rfl
      rw [Function.update_of_ne hne, if_neg hkey, get]

/-- A new top array leaves all values in their places. -/
theorem get_grow (z : α) {n : ℕ} (t : Tree b α n) {key : ℕ} (hk : key < b ^ (n + 2)) :
    get z (n + 1) (grow n t) key = if key < b ^ (n + 1) then get z n t key else z := by
  have hb : 0 < b := NeZero.pos b
  rw [get, grow]
  by_cases h : key < b ^ (n + 1)
  · rw [Nat.div_eq_of_lt h, Function.update_self, if_pos h]
    show get z n t _ = _
    rw [Nat.mod_eq_of_lt h]
  · have hpos : key / b ^ (n + 1) ≠ 0 := by
      rw [Ne, Nat.div_eq_zero_iff, not_or]
      exact ⟨(Nat.pow_pos hb).ne', h⟩
    rw [Function.update_of_ne (ofNat_ne (div_lt hk) hb hpos), if_neg h]

end Radix
