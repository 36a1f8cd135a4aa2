/-
A counter that walks along a list.

The items of a list carry numbers, and a counter passes over an interval of numbers.  When it meets
the number of the item at hand, the item is handled and the next one is at hand.  Items that come
after one the counter has missed are never met.

* `walk_eq` — the items that are handled are the longest prefix that climbs within the interval;
* `mem_upTo_iff` — in a list that climbs modulo a turn of the numbers, these are the items in the
  interval that come before the turn.
-/
import Mathlib

namespace Climb

variable {α σ : Type} (num : α → ℕ)

/-- The longest prefix whose numbers climb from `lo` or above, and stay below `hi`. -/
def upTo (lo hi : ℕ) : List α → List α
  | [] => []
  | a :: as => if lo ≤ num a ∧ num a < hi then a :: upTo (num a + 1) hi as else []

/-- The counter passes over `n` numbers from `c` on. -/
def walk (step : ℕ → σ → α → σ) : ℕ → ℕ → List α → σ → List α × σ
  | 0, _, as, s => (as, s)
  | _ + 1, _, [], s => ([], s)
  | n + 1, c, a :: as, s =>
    if num a = c then walk step n (c + 1) as (step c s a) else walk step n (c + 1) (a :: as) s

variable {num} {step : ℕ → σ → α → σ} {lo hi c : ℕ} {a : α} {as : List α} {s : σ}

@[simp] theorem upTo_nil : upTo num lo hi [] = [] := rfl

theorem upTo_of_le (h : hi ≤ lo) : upTo num lo hi as = [] := by
  cases as with
  | nil => rfl
  | cons a as => exact if_neg (by omega)

/-- The number that no item has can be left out. -/
theorem upTo_succ (h : num a ≠ lo) : upTo num (lo + 1) hi (a :: as) = upTo num lo hi (a :: as) := by
  rw [upTo, upTo]
  exact if_congr (by omega) rfl rfl

theorem upTo_cons_self (h : num a < hi) :
    upTo num (num a) hi (a :: as) = a :: upTo num (num a + 1) hi as := if_pos ⟨le_rfl, h⟩

@[simp] theorem walk_nil (n : ℕ) : walk num step n c [] s = ([], s) := by
  cases n <;> rfl

/-- The counter handles the climbing prefix and nothing else. -/
theorem walk_eq (n : ℕ) : walk num step n c as s =
    (as.drop (upTo num c (c + n) as).length,
      (upTo num c (c + n) as).foldl (fun s a => step (num a) s a) s) := by
  induction n generalizing c as s with
  | zero =>
    rw [walk, upTo_of_le (by omega)]
    rfl
  | succ n ih =>
    cases as with
    | nil => rw [walk_nil, upTo_nil]; rfl
    | cons a as =>
      have hto : c + (n + 1) = c + 1 + n := by omega
      rw [walk, hto]
      by_cases ha : num a = c
      · rw [if_pos ha, ih, ← ha, upTo_cons_self (by omega)]
        rfl
      · rw [if_neg ha, ih, upTo_succ ha]

/-- One interval after the other. -/
theorem walk_add (n m : ℕ) : walk num step (n + m) c as s =
    walk num step m (c + n) (walk num step n c as s).1 (walk num step n c as s).2 := by
  induction n generalizing c as s with
  | zero => rw [Nat.zero_add]; rfl
  | succ n ih =>
    cases as with
    | nil => simp
    | cons a as =>
      have hn : n + 1 + m = n + m + 1 := by omega
      have hc : c + (n + 1) = c + 1 + n := by omega
      rw [hn, walk, walk, hc]
      split
      · exact ih
      · exact ih

theorem walk_congr {step' : ℕ → σ → α → σ} (n : ℕ)
    (h : ∀ k s a, c ≤ k → k < c + n → step k s a = step' k s a) :
    walk num step n c as s = walk num step' n c as s := by
  induction n generalizing c as s with
  | zero => rfl
  | succ n ih =>
    have hrest : ∀ k s a, c + 1 ≤ k → k < c + 1 + n → step k s a = step' k s a :=
      fun k s a hlo hhi => h k s a (by omega) (by omega)
    cases as with
    | nil => rfl
    | cons a as =>
      rw [walk, walk, h c s a le_rfl (by omega), ih hrest, ih hrest]

theorem upTo_append_drop : upTo num lo hi as ++ as.drop (upTo num lo hi as).length = as := by
  induction as generalizing lo with
  | nil => rfl
  | cons a as ih =>
    rw [upTo]
    split
    · rw [List.cons_append, List.length_cons, List.drop_succ_cons, ih]
    · rfl

/-- The numbers of a list are `base + d a`, as long as that stays below `turn`, and from there on they
start again below `base`: the prefix is what comes before the turn. -/
theorem mem_upTo_iff {d : α → ℕ} {base turn : ℕ} (hclimb : as.Pairwise (d · < d ·))
    (hnum : ∀ a ∈ as, (base + d a < turn → num a = base + d a) ∧ (turn ≤ base + d a → num a < base))
    (hbase : base ≤ lo) (hlo : ∀ a ∈ as, lo ≤ base + d a) (hmem : a ∈ as) :
    a ∈ upTo num lo hi as ↔ base + d a < turn ∧ base + d a < hi := by
  induction as generalizing lo with
  | nil => cases hmem
  | cons b as ih =>
    obtain ⟨hb, hrest⟩ := List.pairwise_cons.mp hclimb
    obtain ⟨hbefore, hafter⟩ := hnum b List.mem_cons_self
    have hle : d b ≤ d a := by
      rcases List.mem_cons.mp hmem with rfl | hmem
      · exact le_rfl
      · exact (hb a hmem).le
    rw [upTo]
    by_cases hturn : base + d b < turn
    · rw [hbefore hturn]
      by_cases hlt : base + d b < hi
      · rw [if_pos ⟨hlo b List.mem_cons_self, hlt⟩]
        rcases List.mem_cons.mp hmem with rfl | hmem
        · exact iff_of_true List.mem_cons_self ⟨hturn, hlt⟩
        · have hdlt : d b < d a := hb a hmem
          have hne : a ≠ b := by
            intro heq
            rw [heq] at hdlt
            exact lt_irrefl _ hdlt
          rw [List.mem_cons, or_iff_right hne]
          refine ih hrest (fun x hx => hnum x (List.mem_cons_of_mem _ hx)) (by omega) ?_ hmem
          intro x hx
          have := hb x hx
          omega
      · rw [if_neg (fun h => hlt h.2)]
        exact iff_of_false List.not_mem_nil (by omega)
    · have := hafter (by omega)
      rw [if_neg (by omega)]
      exact iff_of_false List.not_mem_nil (by omega)

end Climb
