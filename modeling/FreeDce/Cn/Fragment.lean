/-
One fragment.

`Holds` says what the buffered output of a call holds: the header element with
`k` stub bytes behind the header, and the elements of the stub data.  The
fragment that is sent from there consists of the header, those bytes, the padding
and the trailer, and its length field says so (`nextFragment_spec`).
-/
import FreeDce.Cn.Transmit

namespace Cn

variable {L : SendLayout} {rep : CallRep} {h e : IovElt} {stubs elts : List IovElt} {k : ℕ}

/-! ### Elements -/

/-- The data of the element has been written. -/
def IovElt.Written (e : IovElt) : Prop := e.dataLen ≤ e.bytes.length

theorem IovElt.Written.shown_eq (he : e.Written) : e.shown = e.bytes.take e.dataLen :=
  List.take_append_of_le_length he

theorem IovElt.length_shown (e : IovElt) : e.shown.length = e.dataLen := by
  rw [IovElt.shown, List.length_take, List.length_append, List.length_replicate]
  omega

theorem length_flatten_shown (elts : List IovElt) :
    (elts.map IovElt.shown).flatten.length = (elts.map IovElt.dataLen).sum := by
  rw [List.length_flatten, List.map_map]
  congr 1
  exact List.map_congr_left fun e _ => e.length_shown

/-- Padding adds to what an element shows. -/
theorem shown_pad (he : e.Written) (pad : ℕ) : ∃ padding : List UInt8, padding.length = pad ∧
    ({ e with dataLen := e.dataLen + pad } : IovElt).shown = e.shown ++ padding := by
  refine ⟨((e.bytes ++ List.replicate (e.dataLen + pad) 0).drop e.dataLen).take pad, ?_, ?_⟩
  · rw [List.length_take, List.length_drop, List.length_append, List.length_replicate]
    omega
  · rw [he.shown_eq, IovElt.shown]
    dsimp only
    rw [List.take_add, List.take_append_of_le_length he]

theorem modify_concat {α : Type*} (l : List α) (a : α) (f : α → α) :
    (l ++ [a]).modify l.length f = l ++ [f a] := by
  induction l with
  | nil => rfl
  | cons b l ih =>
    rw [List.cons_append, List.length_cons, List.modify_succ_cons, ih]
    rfl

/-- Padding the last element of a vector adds to what the vector shows. -/
theorem flatten_pad (hne : elts ≠ []) (hw : ∀ e ∈ elts, e.Written) (pad : ℕ) :
    ∃ padding : List UInt8, padding.length = pad ∧
      ((elts.modify (elts.length - 1) fun e => { e with dataLen := e.dataLen + pad }).map
        IovElt.shown).flatten = (elts.map IovElt.shown).flatten ++ padding := by
  obtain ⟨init, l, rfl⟩ := List.eq_nil_or_concat elts |>.resolve_left hne
  rw [List.concat_eq_append] at hw ⊢
  obtain ⟨padding, hlen, hshown⟩ := shown_pad (hw l (by simp)) pad
  refine ⟨padding, hlen, ?_⟩
  rw [List.length_append, List.length_singleton, Nat.add_sub_cancel, modify_concat]
  rw [List.map_append, List.map_append, List.flatten_append, List.flatten_append,
    List.map_singleton, List.map_singleton, List.flatten_singleton, List.flatten_singleton, hshown,
    List.append_assoc]

/-! ### What is buffered -/

/-- The trailer as it is sent. -/
def SendLayout.trailer (L : SendLayout) : List UInt8 := L.protTlr.getD []

/-- The buffered output holds `k` stub bytes behind the header, and `stubs`. -/
structure Holds (L : SendLayout) (rep : CallRep) (h : IovElt) (stubs : List IovElt) (k : ℕ) :
    Prop where
  elt : rep.elt = h :: stubs
  buff : h.buff = none
  buffLen : h.buffLen = smallFragSize
  header : h.bytes.take L.protHeader.length = L.protHeader
  written : L.protHeader.length + k ≤ h.bytes.length
  dataLen : h.dataLen = L.sizeofHdr + k
  stubsWritten : ∀ e ∈ stubs, e.Written
  numElt : rep.numElt = stubs.length + 1 + L.tlrSlots
  accBytcnt : rep.accBytcnt = L.sizeofHdr + k + (stubs.map IovElt.dataLen).sum
  accBytcnt_le : rep.accBytcnt ≤ L.maxSegSize

/-- The stub bytes behind the header. -/
def headStub (L : SendLayout) (h : IovElt) (k : ℕ) : List UInt8 :=
  (h.bytes.drop L.protHeader.length).take k

/-- The stub bytes that are buffered. -/
def pending (L : SendLayout) (h : IovElt) (stubs : List IovElt) (k : ℕ) : List UInt8 :=
  headStub L h k ++ (stubs.map IovElt.shown).flatten

theorem Holds.length_headStub (H : Holds L rep h stubs k) : (headStub L h k).length = k := by
  have hw := H.written
  rw [headStub, List.length_take, List.length_drop]
  omega

theorem Holds.length_pending (H : Holds L rep h stubs k) :
    (pending L h stubs k).length + L.sizeofHdr = rep.accBytcnt := by
  rw [pending, List.length_append, H.length_headStub, length_flatten_shown, H.accBytcnt]
  omega

theorem SendLayout.tlrSize_spec (L : SendLayout) :
    L.tlrSize = L.trailer.length + L.tlrPad ∧ 8 ∣ L.tlrSize ∧ (L.protTlr = none → L.tlrSize = 0) := by
  unfold SendLayout.tlrPad SendLayout.tlrSize SendLayout.trailer
  cases htlr : L.protTlr with
  | none => simp
  | some tlr =>
    simp only [Option.elim_some, Option.getD_some, reduceCtorEq, false_imp_iff, and_true]
    omega

/-- The header element without the trailer's share shows the header and the bytes behind it. -/
theorem Holds.shown_head (H : Holds L rep h stubs k) :
    ({ h with dataLen := h.dataLen - L.tlrSize } : IovElt).Written ∧
      ({ h with dataLen := h.dataLen - L.tlrSize } : IovElt).shown
        = L.protHeader ++ headStub L h k := by
  have hlen : h.dataLen - L.tlrSize = L.protHeader.length + k := by
    rw [H.dataLen, SendLayout.sizeofHdr]
    omega
  have hw : ({ h with dataLen := h.dataLen - L.tlrSize } : IovElt).Written := by
    rw [IovElt.Written]
    dsimp only
    rw [hlen]
    exact H.written
  refine ⟨hw, ?_⟩
  rw [hw.shown_eq]
  dsimp only
  rw [hlen, List.take_add, H.header, headStub]

/-! ### The fragment -/

/-- The vector shows the header, the buffered bytes and the padding. -/
theorem attachTlr_shown (H : Holds L rep h stubs k) :
    ∃ padding : List UInt8, padding.length = stubPadLength L rep ∧
      ((attachTlr L rep).map IovElt.shown).flatten
        = L.protHeader ++ pending L h stubs k ++ padding := by
  obtain ⟨hw, hhead⟩ := H.shown_head
  set h' : IovElt := { h with dataLen := h.dataLen - L.tlrSize } with hh'
  have hall : ∀ e ∈ h' :: stubs, e.Written := by
    intro e he
    rcases List.mem_cons.mp he with rfl | hmem
    · exact hw
    · exact H.stubsWritten e hmem
  have hflat : ((h' :: stubs).map IovElt.shown).flatten = L.protHeader ++ pending L h stubs k := by
    rw [List.map_cons, List.flatten_cons, hhead, pending, List.append_assoc]
  unfold attachTlr
  split
  · next hsec =>
    have hslots : L.tlrSlots = 1 := by rw [SendLayout.tlrSlots, if_pos hsec]
    have hidx : rep.numElt - 2 = (h' :: stubs).length - 1 := by
      rw [H.numElt, hslots, List.length_cons]
      omega
    obtain ⟨padding, hlen, hpad⟩ := flatten_pad (List.cons_ne_nil h' stubs) hall
      (stubPadLength L rep)
    refine ⟨padding, hlen, ?_⟩
    rw [H.elt, List.modify_zero_cons, hidx, hpad, hflat]
  · next hsec =>
    have hnone : L.protTlr = none := by simpa using hsec
    refine ⟨[], ?_, ?_⟩
    · rw [stubPadLength, if_neg hsec]
      rfl
    · have hsame : h' = h := by rw [hh', L.tlrSize_spec.2.2 hnone, Nat.sub_zero]
      rw [hsame] at hflat
      rw [H.elt, List.append_nil, hflat]

theorem length_attachTlr : (attachTlr L rep).length = rep.elt.length := by
  unfold attachTlr
  split
  · rw [List.length_modify, List.length_modify]
  · rfl

/-- The padding brings the trailer to a multiple of four, and leaves room for it. -/
theorem Holds.stubPadLength_spec (H : Holds L rep h stubs k) :
    (L.protTlr.isSome → 4 ∣ L.protHeader.length + (pending L h stubs k).length +
        stubPadLength L rep) ∧
      L.protHeader.length + (pending L h stubs k).length + stubPadLength L rep + L.tlrSize
        ≤ L.maxSegSize := by
  have hlen := H.length_pending
  have hle := H.accBytcnt_le
  obtain ⟨-, hdvd, -⟩ := L.tlrSize_spec
  have hseg := L.eight_dvd
  rw [SendLayout.sizeofHdr] at hlen
  unfold stubPadLength
  split
  · refine ⟨fun _ => ?_, ?_⟩ <;> omega
  · next hsec =>
    refine ⟨fun hsec' => absurd hsec' hsec, ?_⟩
    omega

/-- What a fragment must be. -/
structure FragOk (L : SendLayout) (frag : Fragment) (stub : List UInt8) : Prop where
  bytes : ∃ padding : List UInt8, padding.length = frag.stubPadLength ∧
    frag.iov.flatten = L.protHeader ++ stub ++ padding ++ L.trailer
  fragLen : frag.fragLen.toNat = frag.iov.flatten.length
  le : frag.iov.flatten.length ≤ L.maxSegSize
  aligned : L.protTlr.isSome → 4 ∣ L.protHeader.length + stub.length + frag.stubPadLength
  numElt : frag.iov.length ≤ L.maxIovecLen

theorem flatten_toList_protTlr (L : SendLayout) : L.protTlr.toList.flatten = L.trailer := by
  unfold SendLayout.trailer
  cases L.protTlr with
  | none => rfl
  | some tlr => simp

theorem nextFragment_spec (H : Holds L rep h stubs k) (hnum : rep.numElt ≤ L.maxIovecLen) :
    FragOk L (nextFragment L rep) (pending L h stubs k) := by
  obtain ⟨padding, hpadlen, hshown⟩ := attachTlr_shown H
  obtain ⟨haligned, hroom⟩ := H.stubPadLength_spec
  obtain ⟨htlr, -, -⟩ := L.tlrSize_spec
  have hpending := H.length_pending
  have hseg := L.maxSegSize_lt
  have htake : (attachTlr L rep).take (rep.numElt - L.tlrSlots) = attachTlr L rep := by
    refine List.take_of_length_le ?_
    rw [length_attachTlr, H.elt, H.numElt, List.length_cons]
    omega
  have hiov : (nextFragment L rep).iov.flatten
      = L.protHeader ++ pending L h stubs k ++ padding ++ L.trailer := by
    rw [nextFragment]
    dsimp only
    rw [htake, List.flatten_append, hshown, flatten_toList_protTlr]
  have hiovlen : (nextFragment L rep).iov.flatten.length = L.protHeader.length +
      (pending L h stubs k).length + stubPadLength L rep + L.trailer.length := by
    rw [hiov, List.length_append, List.length_append, List.length_append, hpadlen]
  refine ⟨⟨padding, hpadlen, hiov⟩, ?_, by omega, haligned, ?_⟩
  · -- the field is computed modulo its width, but every value on the way is in range
    have hfield : (nextFragment L rep).fragLen = BitVec.ofNat 16 (L.protHeader.length +
        (pending L h stubs k).length + stubPadLength L rep + L.trailer.length) := by
      rw [nextFragment]
      dsimp only
      have hsum : rep.accBytcnt + stubPadLength L rep = (L.protHeader.length +
          (pending L h stubs k).length + stubPadLength L rep + L.trailer.length) + L.tlrPad := by
        rw [← hpending, SendLayout.sizeofHdr]
        omega
      rw [← add_sub_assoc, ← BitVec.ofNat_add, hsum, BitVec.ofNat_add,
        BitVec.add_sub_cancel]
    rw [hfield, hiovlen, BitVec.toNat_ofNat, Nat.mod_eq_of_lt (by omega)]
  · rw [nextFragment]
    dsimp only
    rw [htake, List.length_append, List.length_map, length_attachTlr, H.elt, List.length_cons]
    have hslots : L.protTlr.toList.length = L.tlrSlots := by
      unfold SendLayout.tlrSlots
      cases L.protTlr <;> rfl
    rw [H.numElt] at hnum
    omega

end Cn
