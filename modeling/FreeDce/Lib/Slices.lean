/-
Stretches of a list given by where they start and how many entries they have.

A table is laid out as one list, and a reader is told a start and a count.  The start is where
the first entry of interest was put, the count is how many such entries there are.

* `stretch_at` — entries put one after the other are the stretch from the first of them;
* `stretch_run`, `Contiguous.run_eq_filter` — where the entries of interest stand together, the
  reader finds them;
* `not_forall_run` — where another entry lies between two of them, the reader finds it.
-/
import Mathlib.Data.List.Basic
import Mathlib.Tactic.Common

namespace Slices

variable {α β : Type*}

/-- The stretch of `n` entries from `start` on. -/
def stretch (start : Option ℕ) (n : ℕ) (l : List α) : List α :=
  (l.drop (start.getD 0)).take n

/-- Where the first of the entries put at `b` and after it is, if there is one. -/
def startAt (b : ℕ) : List α → Option ℕ
  | [] => none
  | _ :: _ => some b

@[simp] theorem startAt_nil (b : ℕ) : startAt b ([] : List α) = none := rfl

@[simp] theorem startAt_cons (b : ℕ) (x : α) (l : List α) : startAt b (x :: l) = some b := rfl

theorem startAt_append (b : ℕ) (l₁ l₂ : List α) :
    startAt b (l₁ ++ l₂) = (startAt b l₁ <|> startAt (b + l₁.length) l₂) := by
  cases l₁ <;> simp

theorem startAt_map (b : ℕ) (f : α → β) (l : List α) : startAt b (l.map f) = startAt b l := by
  cases l <;> rfl

theorem stretch_at (l₁ l l₂ : List α) {n : ℕ} (hn : n ≤ l.length) :
    stretch (startAt l₁.length l) n (l₁ ++ l ++ l₂) = l.take n := by
  cases l with
  | nil =>
    have : n = 0 := by simpa using hn
    simp [stretch, this]
  | cons x l =>
    have hdrop : (l₁ ++ (x :: l) ++ l₂).drop l₁.length = x :: l ++ l₂ := by simp
    simp only [stretch, startAt_cons, Option.getD_some, hdrop]
    rw [List.take_append_of_le_length hn]

/-- The stretch of as many entries as satisfy `q`, from the first that does. -/
def run (q : α → Bool) (l : List α) : List α :=
  (l.drop (l.findIdx q)).take (l.countP q)

theorem stretch_run (q : α → Bool) (l₁ l l₂ : List α) :
    stretch ((l.findIdx? q).map (l₁.length + ·)) (l.countP q) (l₁ ++ l ++ l₂) = run q l := by
  rcases h : l.findIdx? q with _ | i
  · have hnone : l.countP q = 0 := by
      rw [List.countP_eq_zero]
      simpa using List.findIdx?_eq_none_iff.mp h
    simp [stretch, run, hnone]
  · have hi := List.findIdx?_eq_some_iff_findIdx_eq.mp h
    have hcount : l.countP q ≤ (l.drop i).length := by
      have hpre : (l.take i).countP q = 0 := by
        rw [List.countP_eq_zero]
        intro x hx
        obtain ⟨j, hj, rfl⟩ := List.getElem_of_mem hx
        have hji : j < l.findIdx q := by
          rw [hi.2]
          simp only [List.length_take] at hj
          omega
        rw [List.getElem_take]
        simpa using List.not_of_lt_findIdx hji
      calc l.countP q = (l.take i ++ l.drop i).countP q := by rw [List.take_append_drop]
        _ = (l.drop i).countP q := by rw [List.countP_append, hpre, Nat.zero_add]
        _ ≤ (l.drop i).length := List.countP_le_length
    have hdrop : (l₁ ++ l ++ l₂).drop (l₁.length + i) = l.drop i ++ l₂ := by
      rw [List.append_assoc, List.drop_append, List.drop_eq_nil_of_le (by omega), List.nil_append,
        Nat.add_sub_cancel_left, List.drop_append_of_le_length (by omega)]
    simp only [stretch, run, Option.map_some, Option.getD_some, hdrop, hi.2]
    rw [List.take_append_of_le_length hcount]

theorem run_eq {q : α → Bool} {l₁ l l₂ : List α} (h₁ : ∀ x ∈ l₁, q x = false)
    (h : ∀ x ∈ l, q x = true) (h₂ : ∀ x ∈ l₂, q x = false) :
    run q (l₁ ++ l ++ l₂) = l := by
  have hc₁ : l₁.countP q = 0 := List.countP_eq_zero.mpr (by simpa using h₁)
  have hc₂ : l₂.countP q = 0 := List.countP_eq_zero.mpr (by simpa using h₂)
  have hc : l.countP q = l.length := List.countP_eq_length.mpr h
  cases l with
  | nil => simp [run, hc₁, hc₂]
  | cons x l =>
    have hlen : l₁.findIdx q = l₁.length := List.findIdx_eq_length_of_false (by simpa using h₁)
    have hx : q x = true := h x (by simp)
    have hidx : (l₁ ++ (x :: l) ++ l₂).findIdx q = l₁.length := by
      rw [List.append_assoc, List.findIdx_append, if_neg (by omega)]
      simp [List.findIdx_cons, hx]
    simp only [run, hidx, List.countP_append, hc₁, hc₂, hc, Nat.zero_add, Nat.add_zero]
    simp

/-- The entries that satisfy `q` stand together. -/
def Contiguous (q : α → Bool) (l : List α) : Prop :=
  ∃ l₁ l₀ l₂, l = l₁ ++ l₀ ++ l₂ ∧ (∀ x ∈ l₁, q x = false) ∧ (∀ x ∈ l₀, q x = true) ∧
    ∀ x ∈ l₂, q x = false

theorem Contiguous.run_eq_filter {q : α → Bool} {l : List α} (h : Contiguous q l) :
    run q l = l.filter q := by
  obtain ⟨l₁, l₀, l₂, rfl, h₁, h₀, h₂⟩ := h
  rw [run_eq h₁ h₀ h₂, List.filter_append, List.filter_append, List.filter_eq_self.mpr h₀,
    List.filter_eq_nil_iff.mpr (by simpa using h₁), List.filter_eq_nil_iff.mpr (by simpa using h₂)]
  simp

/-- An entry between two of interest is in the stretch. -/
theorem not_forall_run {q : α → Bool} {l₁ l₂ : List α} {x y z : α} (hx : x ∈ l₁) (hqx : q x = true)
    (hqy : q y = false) (hz : z ∈ l₂) (hqz : q z = true) :
    ¬ ∀ a ∈ run q (l₁ ++ y :: l₂), q a = true := by
  intro hall
  have hlt : (l₁ ++ y :: l₂).findIdx q < l₁.length := by
    rw [List.findIdx_append, if_pos (List.findIdx_lt_length_of_exists ⟨x, hx, hqx⟩)]
    exact List.findIdx_lt_length_of_exists ⟨x, hx, hqx⟩
  generalize hi : (l₁ ++ y :: l₂).findIdx q = i at hlt
  have hrun : run q (l₁ ++ y :: l₂) =
      (l₁.drop i ++ y :: l₂).take ((l₁ ++ y :: l₂).countP q) := by
    rw [run, hi, List.drop_append_of_le_length (by omega)]
  rw [hrun] at hall
  generalize hc : (l₁ ++ y :: l₂).countP q = c at hall
  -- the stretch ends before `y`
  have hshort : c ≤ (l₁.drop i).length := by
    by_contra hlong
    have hy : y ∈ (l₁.drop i ++ y :: l₂).take c := by
      rw [List.take_append, List.take_of_length_le (by omega)]
      obtain ⟨k, hk⟩ : ∃ k, c - (l₁.drop i).length = k + 1 := ⟨c - (l₁.drop i).length - 1, by omega⟩
      rw [hk]
      simp
    rw [hall y hy] at hqy
    cases hqy
  rw [List.take_append_of_le_length hshort] at hall
  have hfirst : ((l₁.drop i).take c).countP q = c := by
    rw [List.countP_eq_length.mpr hall, List.length_take]
    omega
  have hle : c ≤ l₁.countP q := by
    have hsub : ((l₁.drop i).take c).Sublist l₁ :=
      (List.take_sublist _ _).trans (List.drop_sublist _ _)
    calc c = ((l₁.drop i).take c).countP q := hfirst.symm
      _ ≤ l₁.countP q := hsub.countP_le
  have hpos : 0 < l₂.countP q := List.countP_pos_iff.mpr ⟨z, hz, hqz⟩
  rw [List.countP_append, List.countP_cons] at hc
  omega

end Slices
