/-
Numbers in memory whose bytes are put the other way round.

* `revAll_of_not_mem`, `revAll_congr` — the other bytes stay, and do not matter;
* `revAll_revAll` — numbers that are swapped twice are as they were;
* `revAll_peel` — they can be swapped back one after the other.
-/
import Mathlib

namespace ByteSwap

abbrev Mem := ℕ → UInt8

/-- The place of a number. -/
structure Field where
  off : ℕ
  len : ℕ
deriving DecidableEq, Repr

/-- The bytes of a number the other way round. -/
def rev (f : Field) (m : Mem) : Mem := fun i =>
  if f.off ≤ i ∧ i < f.off + f.len then m (f.off + (f.off + f.len - 1 - i)) else m i

def revAll (fs : List Field) (m : Mem) : Mem := fs.foldl (fun m f => rev f m) m

/-- The numbers lie behind each other, between these places. -/
def Ordered : ℕ → List Field → ℕ → Prop
  | a, [], b => a ≤ b
  | a, f :: fs, b => a ≤ f.off ∧ Ordered (f.off + f.len) fs b

variable {a b c i : ℕ} {f : Field} {fs gs : List Field} {m m' : Mem}

theorem revAll_cons : revAll (f :: fs) m = revAll fs (rev f m) := rfl

theorem revAll_append : revAll (fs ++ gs) m = revAll gs (revAll fs m) := List.foldl_append

theorem Ordered.le (h : Ordered a fs b) : a ≤ b := by
  induction fs generalizing a with
  | nil => exact h
  | cons f fs ih => exact h.1.trans ((Nat.le_add_right _ _).trans (ih h.2))

theorem Ordered.append (h : Ordered a fs b) (h' : Ordered b gs c) : Ordered a (fs ++ gs) c := by
  induction fs generalizing a with
  | nil =>
    cases gs with
    | nil => exact le_trans h h'
    | cons g gs => exact ⟨le_trans h h'.1, h'.2⟩
  | cons f fs ih => exact ⟨h.1, ih h.2⟩

theorem Ordered.mono (h : Ordered a fs b) (hbc : b ≤ c) : Ordered a fs c := by
  induction fs generalizing a with
  | nil => exact le_trans h hbc
  | cons f fs ih => exact ⟨h.1, ih h.2⟩

theorem rev_of_not_mem (h : i < f.off ∨ f.off + f.len ≤ i) : rev f m i = m i :=
  if_neg (by omega)

theorem rev_rev (f : Field) (m : Mem) : rev f (rev f m) = m := by
  funext i
  by_cases hi : f.off ≤ i ∧ i < f.off + f.len
  · have hback : f.off ≤ f.off + (f.off + f.len - 1 - i) ∧
        f.off + (f.off + f.len - 1 - i) < f.off + f.len := by omega
    have hi' : f.off + (f.off + f.len - 1 - (f.off + (f.off + f.len - 1 - i))) = i := by omega
    rw [rev, if_pos hi, rev, if_pos hback, hi']
  · rw [rev, if_neg hi, rev, if_neg hi]

/-- What is not between the places stays. -/
theorem revAll_of_not_mem (h : Ordered a fs b) (hi : i < a ∨ b ≤ i) : revAll fs m i = m i := by
  induction fs generalizing a m with
  | nil => rfl
  | cons f fs ih =>
    have hle := h.2.le
    have hoff := h.1
    rw [revAll_cons, ih h.2 (by omega), rev_of_not_mem (by omega)]

/-- What comes of the bytes between the places depends on no other ones. -/
theorem revAll_congr (h : Ordered a fs b) (hm : ∀ j, a ≤ j → j < b → m j = m' j) :
    ∀ j, a ≤ j → j < b → revAll fs m j = revAll fs m' j := by
  induction fs generalizing a m m' with
  | nil => exact hm
  | cons f fs ih =>
    have hle := h.2.le
    have hoff := h.1
    have hrev : ∀ j, a ≤ j → j < b → rev f m j = rev f m' j := by
      intro j hj hjb
      by_cases hin : f.off ≤ j ∧ j < f.off + f.len
      · rw [rev, if_pos hin, rev, if_pos hin]
        exact hm _ (by omega) (by omega)
      · rw [rev, if_neg hin, rev, if_neg hin]
        exact hm j hj hjb
    intro j hj hjb
    rcases Nat.lt_or_ge j (f.off + f.len) with hlow | hhigh
    · rw [revAll_cons, revAll_cons, revAll_of_not_mem h.2 (.inl hlow),
        revAll_of_not_mem h.2 (.inl hlow)]
      exact hrev j hj hjb
    · exact ih h.2 (fun k hk hkb => hrev k (by omega) hkb) j hhigh hjb

/-- Numbers before others can be swapped before or after them. -/
theorem revAll_comm (h : Ordered a fs b) (h' : Ordered b gs c) :
    revAll fs (revAll gs m) = revAll gs (revAll fs m) := by
  funext i
  rcases Nat.lt_or_ge i b with hlow | hhigh
  · rw [revAll_of_not_mem h' (.inl hlow)]
    rcases Nat.lt_or_ge i a with hout | hin
    · rw [revAll_of_not_mem h (.inl hout), revAll_of_not_mem h (.inl hout),
        revAll_of_not_mem h' (.inl hlow)]
    · exact revAll_congr h (fun j _ hj => revAll_of_not_mem h' (.inl hj)) i hin hlow
  · rw [revAll_of_not_mem h (.inr hhigh)]
    rcases Nat.lt_or_ge i c with hin | hout
    · exact (revAll_congr h' (fun j hj _ => revAll_of_not_mem h (.inr hj)) i hhigh hin).symm
    · rw [revAll_of_not_mem h' (.inr hout), revAll_of_not_mem h' (.inr hout),
        revAll_of_not_mem h (.inr hhigh)]

/-- **Numbers that are swapped twice.** -/
theorem revAll_revAll (h : Ordered a fs b) : revAll fs (revAll fs m) = m := by
  induction fs generalizing a m with
  | nil => rfl
  | cons f fs ih =>
    have hone : Ordered f.off [f] (f.off + f.len) := ⟨Nat.le_refl _, Nat.le_refl _⟩
    have hcomm : revAll [f] (revAll fs (rev f m)) = revAll fs (revAll [f] (rev f m)) :=
      revAll_comm hone h.2
    have hback : revAll [f] (rev f m) = m := rev_rev f m
    rw [revAll_cons, revAll_cons]
    show revAll fs (revAll [f] (revAll fs (rev f m))) = m
    rw [hcomm, hback]
    exact ih h.2

/-- The first ones are swapped back, the others are still to come. -/
theorem revAll_peel (h : Ordered a fs b) (h' : Ordered b gs c) :
    revAll fs (revAll (fs ++ gs) m) = revAll gs m := by
  rw [revAll_append, revAll_comm h h', revAll_revAll h]

end ByteSwap
