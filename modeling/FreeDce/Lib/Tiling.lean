/-
Tilings of an interval by blocks.

A block at `o` has a header of `gap` bytes and `sz o` bytes behind it.  `Tiles gap sz a n os`
says that the blocks at the offsets `os` lie one behind the other from `a` up to `n`.

* `Tiles.split`, `Tiles.merge` — a block cut in two, and two blocks joined;
* `Tiles.cover`, `Tiles.not_mem` — every place is in a block, and in the middle of one none begins;
* `Tiles.next_nil`, `Tiles.next_cons` — where the next block is.
-/
import Mathlib

namespace Tiling

variable {gap : ℕ} {sz sz' : ℕ → ℕ} {a n o o' : ℕ} {os before after : List ℕ}

def Tiles (gap : ℕ) (sz : ℕ → ℕ) : ℕ → ℕ → List ℕ → Prop
  | a, n, [] => a = n
  | a, n, o :: os => o = a ∧ Tiles gap sz (o + sz o + gap) n os

theorem Tiles.le (h : Tiles gap sz a n os) : a ≤ n := by
  induction os generalizing a with
  | nil => exact h.le
  | cons o os ih =>
    obtain ⟨rfl, hos⟩ := h
    have hle := ih hos
    omega

theorem Tiles.congr (h : Tiles gap sz a n os) (hsz : ∀ o ∈ os, sz' o = sz o) :
    Tiles gap sz' a n os := by
  induction os generalizing a with
  | nil => exact h
  | cons o os ih =>
    obtain ⟨rfl, hos⟩ := h
    refine ⟨rfl, ?_⟩
    rw [hsz o List.mem_cons_self]
    exact ih hos fun x hx => hsz x (List.mem_cons_of_mem _ hx)

/-- A block lies in the interval. -/
theorem Tiles.mem_le (h : Tiles gap sz a n os) (ho : o ∈ os) : a ≤ o ∧ o + sz o + gap ≤ n := by
  induction os generalizing a with
  | nil => cases ho
  | cons x os ih =>
    obtain ⟨rfl, hos⟩ := h
    rcases List.mem_cons.mp ho with rfl | ho
    · exact ⟨le_rfl, hos.le⟩
    · obtain ⟨hle, hn⟩ := ih hos ho
      exact ⟨by omega, hn⟩

/-- The blocks before an offset and those from it on. -/
theorem Tiles.append : Tiles gap sz a n (before ++ after) ↔
    ∃ b, Tiles gap sz a b before ∧ Tiles gap sz b n after := by
  induction before generalizing a with
  | nil =>
    constructor
    · exact fun h => ⟨a, rfl, h⟩
    · rintro ⟨b, rfl, h⟩
      exact h
  | cons x before ih =>
    rw [List.cons_append]
    constructor
    · rintro ⟨rfl, h⟩
      obtain ⟨b, hbefore, hafter⟩ := ih.mp h
      exact ⟨b, ⟨rfl, hbefore⟩, hafter⟩
    · rintro ⟨b, ⟨rfl, hbefore⟩, hafter⟩
      exact ⟨rfl, ih.mpr ⟨b, hbefore, hafter⟩⟩

/-- With a block in the middle. -/
theorem Tiles.middle : Tiles gap sz a n (before ++ o :: after) ↔
    Tiles gap sz a o before ∧ Tiles gap sz (o + sz o + gap) n after := by
  rw [Tiles.append]
  constructor
  · rintro ⟨b, hbefore, rfl, hafter⟩
    exact ⟨hbefore, hafter⟩
  · rintro ⟨hbefore, hafter⟩
    exact ⟨o, hbefore, rfl, hafter⟩

/-- Blocks further on lie behind. -/
theorem Tiles.pairwise (h : Tiles gap sz a n os) : os.Pairwise fun o o' => o + sz o + gap ≤ o' := by
  induction os generalizing a with
  | nil => exact List.Pairwise.nil
  | cons o os ih =>
    obtain ⟨rfl, hos⟩ := h
    exact List.Pairwise.cons (fun o' ho' => (hos.mem_le ho').1) (ih hos)

theorem Tiles.nodup (hgap : 0 < gap) (h : Tiles gap sz a n os) : os.Nodup :=
  h.pairwise.imp fun hle heq => by omega

theorem Tiles.length_le (hgap : 0 < gap) (h : Tiles gap sz a n os) : a + os.length ≤ n := by
  induction os generalizing a with
  | nil => exact h.le
  | cons o os ih =>
    obtain ⟨rfl, hos⟩ := h
    have hle := ih hos
    rw [List.length_cons]
    omega

/-- Inside a block none begins. -/
theorem Tiles.not_mem {x : ℕ} (h : Tiles gap sz a n os) (ho : o ∈ os) (hlt : o < x)
    (hx : x < o + sz o + gap) : x ∉ os := by
  intro hmem
  obtain ⟨before, after, rfl⟩ := List.append_of_mem ho
  obtain ⟨hbefore, hafter⟩ := Tiles.middle.mp h
  rcases List.mem_append.mp hmem with hmem | hmem
  · have hend := (hbefore.mem_le hmem).2
    omega
  · rcases List.mem_cons.mp hmem with rfl | hmem
    · exact absurd hlt (lt_irrefl _)
    · have hstart := (hafter.mem_le hmem).1
      omega

/-- Every place of the interval is in a block. -/
theorem Tiles.cover {x : ℕ} (h : Tiles gap sz a n os) (hax : a ≤ x) (hxn : x < n) :
    ∃ o ∈ os, o ≤ x ∧ x < o + sz o + gap := by
  induction os generalizing a with
  | nil =>
    obtain rfl : a = n := h
    exact absurd hxn (not_lt.mpr hax)
  | cons o os ih =>
    obtain ⟨rfl, hos⟩ := h
    by_cases hlt : x < o + sz o + gap
    · exact ⟨o, List.mem_cons_self, hax, hlt⟩
    · obtain ⟨o', ho', hin⟩ := ih hos (not_lt.mp hlt)
      exact ⟨o', List.mem_cons_of_mem _ ho', hin⟩

/-- Behind the last block is the end. -/
theorem Tiles.next_nil (h : Tiles gap sz a n (before ++ [o])) : o + sz o + gap = n :=
  (Tiles.middle.mp h).2

/-- Behind another block is the next one. -/
theorem Tiles.next_cons (h : Tiles gap sz a n (before ++ o :: o' :: after)) :
    o' = o + sz o + gap :=
  (Tiles.middle.mp h).2.1

/-- A block is cut in two. -/
theorem Tiles.split (hgap : 0 < gap) (h : Tiles gap sz a n (before ++ o :: after))
    (ho' : o' = o + sz' o + gap) (hsum : sz' o + gap + sz' o' = sz o)
    (hsz : ∀ x, x ≠ o → x ≠ o' → sz' x = sz x) :
    Tiles gap sz' a n (before ++ o :: o' :: after) := by
  obtain ⟨hbefore, hafter⟩ := Tiles.middle.mp h
  rw [Tiles.middle]
  refine ⟨hbefore.congr fun x hx => ?_, ho', ?_⟩
  · have hx' := (hbefore.mem_le hx).2
    exact hsz x (by omega) (by omega)
  · have hend : o' + sz' o' + gap = o + sz o + gap := by omega
    rw [hend]
    refine hafter.congr fun x hx => ?_
    have hx' := (hafter.mem_le hx).1
    exact hsz x (by omega) (by omega)

/-- Two blocks are joined. -/
theorem Tiles.merge (hgap : 0 < gap) (h : Tiles gap sz a n (before ++ o :: o' :: after))
    (hsum : sz' o = sz o + sz o' + gap) (hsz : ∀ x, x ≠ o → sz' x = sz x) :
    Tiles gap sz' a n (before ++ o :: after) := by
  obtain ⟨hbefore, rfl, hafter⟩ := Tiles.middle.mp h
  rw [Tiles.middle]
  refine ⟨hbefore.congr fun x hx => ?_, ?_⟩
  · have hx' := (hbefore.mem_le hx).2
    exact hsz x (by omega)
  · have hend : o + sz' o + gap = o + sz o + gap + sz (o + sz o + gap) + gap := by omega
    rw [hend]
    refine hafter.congr fun x hx => ?_
    have hx' := (hafter.mem_le hx).1
    exact hsz x (by omega)

end Tiling
