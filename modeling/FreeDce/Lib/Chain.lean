/-
Chains of pointers.

`Chain next p l` says that the elements of `l` are those that are met from `p` on along
`next`, up to a null pointer.

* `findFrom_eq` — a search along a chain comes to an end;
* `Chain.cut`, `Chain.snoc` — a chain that ends earlier, and one that goes on.
-/
import Mathlib

namespace Pointers

variable {ι : Type*} {next next' : ι → Option ι} {p : Option ι} {l l' : List ι} {x : ι}

def Chain (next : ι → Option ι) : Option ι → List ι → Prop
  | p, [] => p = none
  | p, x :: l => p = some x ∧ Chain next (next x) l

theorem chain_nil : Chain next p [] ↔ p = none := Iff.rfl

theorem chain_cons : Chain next p (x :: l) ↔ p = some x ∧ Chain next (next x) l := Iff.rfl

/-- A pointer has one chain. -/
theorem Chain.unique (h : Chain next p l) (h' : Chain next p l') : l = l' := by
  induction l generalizing p l' with
  | nil =>
    cases l' with
    | nil => rfl
    | cons x' l' => exact absurd (h.symm.trans h'.1) (Option.some_ne_none x').symm
  | cons x l ih =>
    cases l' with
    | nil => exact absurd (h.1.symm.trans h') (Option.some_ne_none x)
    | cons x' l' =>
      have hx : x = x' := Option.some_inj.mp (h.1.symm.trans h'.1)
      subst hx
      rw [ih h.2 h'.2]

theorem Chain.congr (h : Chain next p l) (hnext : ∀ y ∈ l, next' y = next y) : Chain next' p l := by
  induction l generalizing p with
  | nil => exact h
  | cons y l ih =>
    refine ⟨h.1, ?_⟩
    rw [hnext y List.mem_cons_self]
    exact ih h.2 fun z hz => hnext z (List.mem_cons_of_mem _ hz)

/-- A chain ends behind an element that is made the last one. -/
theorem Chain.cut (h : Chain next p (l ++ x :: l')) (hnext : ∀ y ∈ l, next' y = next y)
    (hx : next' x = none) : Chain next' p (l ++ [x]) := by
  induction l generalizing p with
  | nil => exact ⟨h.1, hx⟩
  | cons y l ih =>
    refine ⟨h.1, ?_⟩
    rw [hnext y List.mem_cons_self]
    exact ih h.2 fun z hz => hnext z (List.mem_cons_of_mem _ hz)

/-- A chain goes on with a new element behind its last one. -/
theorem Chain.snoc {t : ι} (h : Chain next p (l ++ [t])) (hnext : ∀ y ∈ l, next' y = next y)
    (ht : next' t = some x) (hx : next' x = none) : Chain next' p (l ++ [t, x]) := by
  induction l generalizing p with
  | nil => exact ⟨h.1, ht, hx⟩
  | cons y l ih =>
    refine ⟨h.1, ?_⟩
    rw [hnext y List.mem_cons_self]
    exact ih h.2 fun z hz => hnext z (List.mem_cons_of_mem _ hz)

/-- The search for the first element with `q`; `none` if it needs more than `n` steps. -/
def findFrom (next : ι → Option ι) (q : ι → Bool) : ℕ → Option ι → Option (Option ι)
  | _, none => some none
  | 0, some _ => none
  | n + 1, some x => if q x then some (some x) else findFrom next q n (next x)

theorem findFrom_eq {q : ι → Bool} {n : ℕ} (h : Chain next p l) (hn : l.length ≤ n) :
    findFrom next q n p = some (l.find? q) := by
  induction l generalizing n p with
  | nil =>
    rw [chain_nil.mp h]
    cases n <;> rfl
  | cons x l ih =>
    obtain ⟨rfl, hl⟩ := h
    obtain ⟨m, rfl⟩ := Nat.exists_eq_add_of_le' ((Nat.succ_le_succ (Nat.zero_le _)).trans hn)
    rw [findFrom, List.find?_cons, ih hl (Nat.le_of_succ_le_succ hn)]
    cases q x <;> rfl

end Pointers
