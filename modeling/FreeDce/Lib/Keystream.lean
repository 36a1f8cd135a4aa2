/-
Stream ciphers.

A generator gives a byte at each step, which is added to the next byte of the text.  What becomes
of the generator depends on the length of the text only, so that two generators in the same state
undo one another and stay together.

* `crypt_crypt` — what is encrypted comes back, and both ends have the same state after it.
-/
import Mathlib

namespace Keystream

variable {σ : Type} (next : σ → UInt8 × σ)

/-- The text with the stream added to it, and the generator after that. -/
def crypt : σ → List UInt8 → σ × List UInt8
  | s, [] => (s, [])
  | s, b :: bs =>
    let (k, s') := next s
    let (s'', out) := crypt s' bs
    (s'', (b ^^^ k) :: out)

@[simp] theorem length_crypt (s : σ) (bs : List UInt8) : (crypt next s bs).2.length = bs.length := by
  induction bs generalizing s with
  | nil => rfl
  | cons b bs ih => rw [crypt, List.length_cons, List.length_cons, ih]

theorem xor_xor (b k : UInt8) : (b ^^^ k) ^^^ k = b := by
  rw [UInt8.xor_assoc, UInt8.xor_self, UInt8.xor_zero]

/-- A generator in the same state gives the text back. -/
theorem crypt_crypt (s : σ) (bs : List UInt8) :
    crypt next s (crypt next s bs).2 = ((crypt next s bs).1, bs) := by
  induction bs generalizing s with
  | nil => rfl
  | cons b bs ih =>
    simp only [crypt]
    rw [ih, xor_xor]

end Keystream
