/-
Memory as blocks.

A pointer is a block and an offset into it, and memory gives a value for each
block and offset.  Blocks do not overlap, and nothing is said about their order.

* `read_write` — what was written is read back;
* `read_write_of_above` — a write leaves alone what lies below it, or in another
  block;
* `read_add` — a read can be split.
-/
import Mathlib

namespace Memory

variable {β α : Type*}

structure Ptr (β : Type*) where
  block : β
  off : ℕ
deriving DecidableEq, Repr

def Ptr.move (p : Ptr β) (n : ℕ) : Ptr β := { p with off := p.off + n }

abbrev Mem (β α : Type*) := β → ℕ → α

/-- The `n` values from `p` on. -/
def read (mem : Mem β α) (p : Ptr β) (n : ℕ) : List α :=
  (List.range n).map fun i => mem p.block (p.off + i)

/-- Values are written from `p` on. -/
def write [DecidableEq β] (mem : Mem β α) (p : Ptr β) (data : List α) : Mem β α := fun b i =>
  if b = p.block ∧ p.off ≤ i then (data[i - p.off]?).getD (mem b i) else mem b i

variable {mem : Mem β α} {p q : Ptr β} {data : List α}

@[simp] theorem length_read (mem : Mem β α) (p : Ptr β) (n : ℕ) : (read mem p n).length = n := by
  rw [read, List.length_map, List.length_range]

@[simp] theorem read_zero (mem : Mem β α) (p : Ptr β) : read mem p 0 = [] := rfl

theorem read_add (mem : Mem β α) (p : Ptr β) (m n : ℕ) :
    read mem p (m + n) = read mem p m ++ read mem (p.move m) n := by
  rw [read, List.range_add, List.map_append, List.map_map, read, read]
  congr 1
  refine List.map_congr_left fun i _ => ?_
  rw [Function.comp_apply, Ptr.move, Nat.add_assoc]

variable [DecidableEq β]

theorem read_write (mem : Mem β α) (p : Ptr β) (data : List α) :
    read (write mem p data) p data.length = data := by
  refine List.ext_getElem (length_read _ _ _) fun i hi hi' => ?_
  have hget : (read (write mem p data) p data.length)[i] = write mem p data p.block (p.off + i) := by
    simp only [read, List.getElem_map, List.getElem_range]
  rw [hget, write, if_pos ⟨rfl, Nat.le_add_right _ _⟩, Nat.add_sub_cancel_left,
    List.getElem?_eq_getElem hi', Option.getD_some]

theorem read_write_of_above {n : ℕ} (h : q.block = p.block → q.off + n ≤ p.off) :
    read (write mem p data) q n = read mem q n := by
  refine List.map_congr_left fun i hi => ?_
  rw [List.mem_range] at hi
  rw [write, if_neg]
  rintro ⟨hblock, hoff⟩
  have hle := h hblock
  omega

end Memory
