/-
Numbers as bytes, least significant byte first, and reads from memory.

* `ofLE_toLE` — a number that fits is read back;
* `readAt_append` — a read of what stands behind a known part.
-/
import Mathlib

namespace Bytes

/-- The `n` low bytes of `v`. -/
def toLE : ℕ → ℕ → List UInt8
  | 0, _ => []
  | n + 1, v => UInt8.ofNat v :: toLE n (v / 256)

def ofLE : List UInt8 → ℕ
  | [] => 0
  | b :: bs => b.toNat + 256 * ofLE bs

@[simp] theorem length_toLE (n v : ℕ) : (toLE n v).length = n := by
  induction n generalizing v with
  | zero => rfl
  | succ n ih => rw [toLE, List.length_cons, ih]

theorem ofLE_toLE_mod (n v : ℕ) : ofLE (toLE n v) = v % 256 ^ n := by
  induction n generalizing v with
  | zero => rw [toLE, ofLE, pow_zero, Nat.mod_one]
  | succ n ih =>
    have hbyte : (UInt8.ofNat v).toNat = v % 256 := UInt8.toNat_ofNat'
    rw [toLE, ofLE, ih, hbyte, pow_succ', Nat.mod_mul]

theorem ofLE_toLE {n v : ℕ} (h : v < 256 ^ n) : ofLE (toLE n v) = v := by
  rw [ofLE_toLE_mod, Nat.mod_eq_of_lt h]

/-- The `n` bytes at `off`, if there are as many. -/
def readAt (mem : List UInt8) (off n : ℕ) : Option (List UInt8) :=
  if off + n ≤ mem.length then some ((mem.drop off).take n) else none

theorem readAt_append (before bytes after : List UInt8) {off n : ℕ} (hoff : off = before.length)
    (hn : n = bytes.length) : readAt (before ++ (bytes ++ after)) off n = some bytes := by
  subst hoff hn
  rw [readAt, if_pos, List.drop_left, List.take_left]
  rw [List.length_append, List.length_append]
  omega

/-- Bytes that are read there are those of the memory. -/
theorem readAt_zero (bytes after : List UInt8) {n : ℕ} (hn : n = bytes.length) :
    readAt (bytes ++ after) 0 n = some bytes :=
  readAt_append [] bytes after rfl hn

/-! ### Byte order -/

/-- `SWAB_INPLACE_16`. -/
def swab16 (n : BitVec 16) : BitVec 16 := n.extractLsb' 0 8 ++ n.extractLsb' 8 8

/-- `SWAB_INPLACE_32`. -/
def swab32 (n : BitVec 32) : BitVec 32 :=
  n.extractLsb' 0 8 ++ n.extractLsb' 8 8 ++ n.extractLsb' 16 8 ++ n.extractLsb' 24 8

end Bytes
