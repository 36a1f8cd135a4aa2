/-
Sending a fragment (`rpc__cn_assoc_send_frag` in cnassoc.c, with the macros of cnnet.h).

The elements of an I/O vector are put into the array that the socket wants.  A `sendmsg` may send a
part of the bytes, or be cancelled; the array is then advanced in place, by a loop that only ends at
an element that is longer than what is left to skip.

* `sent_along` — the bytes go out in order and once each, however they are split;
* `exact_iff` — the vectors that are sent: those of at most 255 elements, as the elements are
  counted in eight bits; `not_exact` is one that is not.
-/
import FreeDce.Lib.Runs

namespace Cn

namespace SendFrag

open Runs

/-- `rpc_iovector_t`: the data of the elements.  The lengths are `int`s. -/
structure Iovector where
  elt : List (List UInt8)
  small : elt.flatten.length < 2 ^ 31

/-- Where the loop over the elements has got to: the array, the counter, the number of bytes. -/
structure Filling where
  iov : List (List UInt8) := []
  numElts : BitVec 8 := 0
  bytesToSend : ℕ := 0

/-- `RPC_CN_NETWORK_IOVECTOR_TO_IOV`, for so many turns: `none` where it has not ended, or has
written past the array of `maxIovecLen` elements. -/
def iovectorToIov (maxIovecLen : ℕ) (elt : List (List UInt8)) : ℕ → Filling → Option Filling
  | 0, _ => none
  | turns + 1, f =>
    match elt[f.numElts.toNat]? with
    | none => some f
    | some data =>
      if f.numElts.toNat < maxIovecLen then
        iovectorToIov maxIovecLen elt turns
          { iov := f.iov.take f.numElts.toNat ++ data :: f.iov.drop (f.numElts.toNat + 1)
            numElts := f.numElts + 1
            bytesToSend := f.bytesToSend + data.length }
      else none

/-- The loop of `RPC_CN_NETWORK_IOV_ADJUST`: the array from `iovp` on, and the elements that were
passed over.  `none` is a read past the last element. -/
def iovAdjustLoop : List (List UInt8) → ℕ → BitVec 8 → Option (List (List UInt8) × BitVec 8)
  | [], _, _ => none
  | data :: iov, bytesToAdjust, numElts =>
    if bytesToAdjust < data.length then some (data.drop bytesToAdjust :: iov, numElts)
    else iovAdjustLoop iov (bytesToAdjust - data.length) (numElts + 1)

structure Sending where
  iov : List (List UInt8)
  iovcnt : ℕ
  bytesToSend : ℕ
  /-- What the socket has taken. -/
  written : List UInt8 := []

/-- How `sendmsg` ends: so many bytes are sent, or a cancel is caught and the operation is to be
tried again. -/
inductive Sendmsg
  | sent (cc : ℕ)
  | cancelled

/-- `cc`: nothing was sent before a cancel. -/
def Sendmsg.cc : Sendmsg → ℕ
  | .sent cc => cc
  | .cancelled => 0

/-- One turn of the loop. -/
def sendStep (s : Sending) (a : Sendmsg) : Option Sending :=
  if s.bytesToSend = 0 then none
  else
    let bytesToSend := s.bytesToSend - a.cc
    let written := s.written ++ (s.iov.take s.iovcnt).flatten.take a.cc
    if bytesToSend = 0 then some { s with bytesToSend := 0, written := written }
    else
      (iovAdjustLoop s.iov a.cc 0).map fun r =>
        ⟨r.1, s.iovcnt - r.2.toNat, bytesToSend, written⟩

def start (f : Filling) : Sending := ⟨f.iov, f.numElts.toNat, f.bytesToSend, []⟩

/-- The socket reports at most what is left, and is asked as long as something is left. -/
def Reported (s : Sending) (a : Sendmsg) : Prop := 0 < s.bytesToSend ∧ a.cc ≤ s.bytesToSend

/-- The fragment is sent exactly: the array is made, and however the socket splits the bytes, what it
has taken is the beginning of the elements' data, of the length that is no longer to be sent; so the
loop ends when all has been sent. -/
def Exact (maxIovecLen : ℕ) (v : Iovector) : Prop :=
  ∃ turns f, iovectorToIov maxIovecLen v.elt turns {} = some f ∧
    ∀ as, Along sendStep Reported (start f) as → ∃ s, exec sendStep (start f) as = some s ∧
      s.written <+: v.elt.flatten ∧ s.written.length + s.bytesToSend = v.elt.flatten.length

/-! ### Advancing the array -/

theorem iovAdjustLoop_spec {iov : List (List UInt8)} {n : ℕ} (k : BitVec 8)
    (h : n < iov.flatten.length) (hlen : k.toNat + iov.length < 2 ^ 8) :
    ∃ iov' k', iovAdjustLoop iov n k = some (iov', k') ∧ iov'.flatten = iov.flatten.drop n ∧
      k'.toNat + iov'.length = k.toNat + iov.length := by
  induction iov generalizing n k with
  | nil => exact absurd h (Nat.not_lt_zero n)
  | cons data iov ih =>
    rw [List.flatten_cons, List.length_append] at h
    rw [List.length_cons] at hlen
    rw [iovAdjustLoop]
    by_cases hin : n < data.length
    · refine ⟨_, _, if_pos hin, ?_, rfl⟩
      rw [List.flatten_cons, List.flatten_cons, List.drop_append_of_le_length hin.le]
    · -- an element that is used up is passed over, an empty one too
      have hk : (k + 1).toNat = k.toNat + 1 := by
        rw [BitVec.toNat_add]
        exact Nat.mod_eq_of_lt (by simp; omega)
      obtain ⟨iov', k', heq, hflat, hcnt⟩ :=
        @ih (n - data.length) (k + 1) (by omega) (by omega)
      refine ⟨iov', k', (if_neg hin).trans heq, ?_, ?_⟩
      · rw [hflat, List.flatten_cons, List.drop_append, List.drop_eq_nil_of_le (not_lt.mp hin),
          List.nil_append]
      · rw [hcnt, hk, List.length_cons]
        omega

/-- Where a send has got to: what is written and what is left make up the data. -/
structure Progress (data : List UInt8) (s : Sending) : Prop where
  whole : 0 < s.bytesToSend → s.written ++ s.iov.flatten = data
  left : 0 < s.bytesToSend → s.iov.flatten.length = s.bytesToSend
  done : s.bytesToSend = 0 → s.written = data
  count : s.iovcnt = s.iov.length
  few : s.iov.length < 2 ^ 8

theorem progress_step {data : List UInt8} {s : Sending} {a : Sendmsg} (hs : Progress data s)
    (ha : Reported s a) : ∃ s', sendStep s a = some s' ∧ Progress data s' := by
  obtain ⟨hpos, hle⟩ := ha
  have hwhole := hs.whole hpos
  have hleft := hs.left hpos
  have htake : s.iov.take s.iovcnt = s.iov := List.take_of_length_le hs.count.ge
  rw [sendStep, if_neg hpos.ne', htake]
  dsimp only
  by_cases hend : s.bytesToSend - a.cc = 0
  · refine ⟨_, if_pos hend, fun h => absurd h (lt_irrefl 0), fun h => absurd h (lt_irrefl 0),
      fun _ => ?_, hs.count, hs.few⟩
    show s.written ++ s.iov.flatten.take a.cc = data
    rw [List.take_of_length_le (by omega), hwhole]
  · have hzero : (0 : BitVec 8).toNat = 0 := rfl
    have hfew := hs.few
    obtain ⟨iov', k', heq, hflat, hcnt⟩ :=
      @iovAdjustLoop_spec s.iov a.cc 0 (by omega) (by omega)
    rw [hzero, zero_add] at hcnt
    rw [if_neg hend, heq, Option.map_some]
    refine ⟨_, rfl, fun _ => ?_, fun _ => ?_, fun h => absurd h hend, ?_, ?_⟩
    · show s.written ++ s.iov.flatten.take a.cc ++ iov'.flatten = data
      rw [hflat, List.append_assoc, List.take_append_drop, hwhole]
    · show iov'.flatten.length = s.bytesToSend - a.cc
      rw [hflat, List.length_drop, hleft]
    · show s.iovcnt - k'.toNat = iov'.length
      rw [hs.count]
      omega
    · show iov'.length < 2 ^ 8
      omega

/-- However the socket splits the bytes, they go out in order and once each. -/
theorem sent_along {data : List UInt8} {s : Sending} (hs : Progress data s) {as : List Sendmsg}
    (has : Along sendStep Reported s as) :
    ∃ t, exec sendStep s as = some t ∧ t.written <+: data ∧
      t.written.length + t.bytesToSend = data.length := by
  obtain ⟨t, ht, hprog⟩ := exec_of_along (fun _ _ hs ha => progress_step hs ha) hs has
  refine ⟨t, ht, ?_⟩
  rcases Nat.eq_zero_or_pos t.bytesToSend with hzero | hpos
  · rw [hprog.done hzero, hzero]
    exact ⟨List.prefix_refl data, rfl⟩
  · have hwhole := hprog.whole hpos
    refine ⟨⟨_, hwhole⟩, ?_⟩
    rw [← hwhole, List.length_append, hprog.left hpos]

/-! ### Making the array -/

theorem iovectorToIov_spec {maxIovecLen : ℕ} {elt : List (List UInt8)} (hlen : elt.length ≤ 255)
    (hmax : elt.length ≤ maxIovecLen) (done rest : List (List UInt8)) (helt : elt = done ++ rest) :
    iovectorToIov maxIovecLen elt (rest.length + 1)
        ⟨done, BitVec.ofNat 8 done.length, done.flatten.length⟩ =
      some ⟨elt, BitVec.ofNat 8 elt.length, elt.flatten.length⟩ := by
  induction rest generalizing done with
  | nil =>
    rw [List.append_nil] at helt
    subst helt
    have hcnt : (BitVec.ofNat 8 elt.length).toNat = elt.length := by
      rw [BitVec.toNat_ofNat]
      exact Nat.mod_eq_of_lt (by omega)
    rw [iovectorToIov, hcnt, List.getElem?_eq_none le_rfl]
  | cons data rest ih =>
    have hsize : elt.length = done.length + (rest.length + 1) := by
      rw [helt, List.length_append, List.length_cons]
    have hcnt : (BitVec.ofNat 8 done.length).toNat = done.length := by
      rw [BitVec.toNat_ofNat]
      exact Nat.mod_eq_of_lt (by omega)
    have hget : elt[done.length]? = some data := by
      rw [helt, List.getElem?_append_right le_rfl, Nat.sub_self, List.getElem?_cons_zero]
    rw [iovectorToIov, hcnt, hget]
    dsimp only
    rw [if_pos (by omega), List.take_of_length_le le_rfl, List.drop_eq_nil_of_le (Nat.le_succ _)]
    have hnext := ih (done ++ [data]) (by rw [helt, List.append_assoc, List.singleton_append])
    rw [List.length_append, List.length_singleton, List.flatten_append, List.flatten_singleton,
      List.length_append, BitVec.ofNat_add] at hnext
    exact hnext

/-- The counter starts again from 0 before it gets to the end of more than 255 elements. -/
theorem iovectorToIov_of_many {maxIovecLen : ℕ} {elt : List (List UInt8)}
    (hlen : 255 < elt.length) (turns : ℕ) (f : Filling) :
    iovectorToIov maxIovecLen elt turns f = none := by
  induction turns generalizing f with
  | zero => rfl
  | succ turns ih =>
    have hlt : f.numElts.toNat < elt.length := by
      have := f.numElts.isLt
      omega
    rw [iovectorToIov, List.getElem?_eq_getElem hlt]
    dsimp only
    split
    · exact ih _
    · rfl

/-- A vector that is too long for the array is written past its end. -/
theorem iovectorToIov_of_long {maxIovecLen : ℕ} {elt : List (List UInt8)}
    (hmax : maxIovecLen < elt.length) (turns : ℕ) {f : Filling}
    (hf : f.numElts.toNat ≤ maxIovecLen) : iovectorToIov maxIovecLen elt turns f = none := by
  induction turns generalizing f with
  | zero => rfl
  | succ turns ih =>
    rw [iovectorToIov, List.getElem?_eq_getElem (by omega)]
    dsimp only
    split
    · rename_i hlt
      refine ih ?_
      show (f.numElts + 1).toNat ≤ maxIovecLen
      rw [BitVec.toNat_add]
      exact (Nat.mod_le _ _).trans (by simp; omega)
    · rfl

/-- **A fragment is sent exactly** if and only if its elements fit the array and can be counted in
eight bits. -/
theorem exact_iff (maxIovecLen : ℕ) (v : Iovector) :
    Exact maxIovecLen v ↔ v.elt.length ≤ maxIovecLen ∧ v.elt.length ≤ 255 := by
  constructor
  · rintro ⟨turns, f, hf, -⟩
    constructor
    · by_contra hmax
      rw [iovectorToIov_of_long (not_le.mp hmax) turns (Nat.zero_le _)] at hf
      cases hf
    · by_contra hlen
      rw [iovectorToIov_of_many (not_le.mp hlen)] at hf
      cases hf
  · rintro ⟨hmax, hlen⟩
    refine ⟨v.elt.length + 1, _, iovectorToIov_spec hlen hmax [] v.elt rfl, fun as has => ?_⟩
    have hcnt : (BitVec.ofNat 8 v.elt.length).toNat = v.elt.length := by
      rw [BitVec.toNat_ofNat]
      exact Nat.mod_eq_of_lt (by omega)
    refine sent_along ⟨fun _ => rfl, fun _ => rfl, fun h => ?_, hcnt, ?_⟩ has
    · exact (List.length_eq_zero_iff.mp h).symm
    · show v.elt.length < 2 ^ 8
      omega

/-- A vector of so many empty elements. -/
def empties (n : ℕ) : Iovector where
  elt := List.replicate n []
  small := by
    rw [List.flatten_replicate_nil]
    decide

/-- 256 elements, on a system with an array of 1023. -/
theorem not_exact : ¬ Exact 1023 (empties 256) := by
  rintro ⟨turns, f, hf, -⟩
  have hlen : 255 < (empties 256).elt.length := by
    rw [empties, List.length_replicate]
    omega
  rw [iovectorToIov_of_many hlen] at hf
  cases hf

end SendFrag

end Cn
