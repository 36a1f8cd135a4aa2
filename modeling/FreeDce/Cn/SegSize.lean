/-
The fragment size of an association and the loops that send a response (cnsassm.c, cnsclsm.c,
cnxfer.c).

A client's BIND says how large a fragment it can receive.  The response is copied into the buffer of
the protocol header and into fragment buffers, or attached as it is, up to that size; the space for
header and trailer is counted from the start.

* `copyLoop_spec`, `addLoop_spec` — the loops end and keep to the size if it leaves room;
* `safe_iff` — the sizes that every response is sent with; `not_safe` is one that has no end.
-/
import FreeDce.Cn.Receive

namespace Cn

namespace SegSize

/-! ### Sizes -/

/-- `RPC_C_ASSOC_MUST_RECV_FRAG_SIZE`. -/
def mustRecvFragSize : ℕ := 1432

/-- `RPC_CN_PKT_SIZEOF_RESP_HDR`. -/
def sizeofRespHdr : ℕ := 24

/-- `RPC_CN_PKT_SIZEOF_COM_AUTH_TLR`. -/
def sizeofComAuthTlr : ℕ := 8

/-- `RPC_C_MAX_IOVEC_LEN`. -/
def maxIovecLen : ℕ := 1023

/-- The differences and sums of two `unsigned32`. -/
def sub32 (a b : ℕ) : ℕ := (a + 2 ^ 32 - b) % 2 ^ 32

def add32 (a b : ℕ) : ℕ := (a + b) % 2 ^ 32

/-- `assoc_max_xmit_frag`, which becomes the `max_seg_size` of the call. -/
def maxXmitFrag (maxRecvFrag : BitVec 16) : ℕ :=
  let maxRecvFrag := if maxRecvFrag = 0 then mustRecvFragSize else maxRecvFrag.toNat
  min largeFragSize maxRecvFrag

/-- The size of the trailer for an `auth_len`, a multiple of eight. -/
def tlrSize : Option (BitVec 16) → ℕ
  | none => 0
  | some authLen => (authLen.toNat + sizeofComAuthTlr + 7) / 8 * 8

/-- `RPC_CN_CREP_SIZEOF_HDR` counts the trailer. -/
def sizeofHdr (tlr : Option (BitVec 16)) : ℕ := sizeofRespHdr + tlrSize tlr

/-- The element of the vector that the trailer takes. -/
def tlrSlots (tlr : Option (BitVec 16)) : ℕ := if tlr.isSome then 1 else 0

/-! ### The buffered output -/

/-- What was copied or attached: `acc` bytes were accumulated before.  A copy goes to an offset of
a buffer. -/
inductive Xfer
  | copy (acc size off buffLen : ℕ)
  | attach (acc size : ℕ)
deriving DecidableEq, Repr

/-- The amount is at most the room left, and a copy stays in its buffer. -/
def Xfer.Fits (maxSegSize : ℕ) : Xfer → Prop
  | .copy acc size off buffLen => acc + size ≤ maxSegSize ∧ off + size ≤ buffLen
  | .attach acc size => acc + size ≤ maxSegSize

/-- `free_byte_ptr` is an offset into a buffer of `buffLen` bytes.  `sent` counts the fragments. -/
structure Rep where
  numElt : ℕ := 0
  accBytcnt : ℕ := 0
  freeBytes : ℕ := 0
  freeOff : ℕ := 0
  buffLen : ℕ := 0
  sent : ℕ := 0
  xfers : List Xfer := []

variable (maxSegSize : ℕ) (tlr : Option (BitVec 16)) (ok : ℕ → Bool)

/-- `RPC_CN_FREE_ALL_EXCEPT_PROT_HDR`. -/
def freeAllExceptProtHdr (rep : Rep) : Rep :=
  { rep with
    numElt := 1 + tlrSlots tlr
    accBytcnt := sizeofHdr tlr
    freeBytes := sub32 smallFragSize (sizeofHdr tlr)
    freeOff := sizeofRespHdr
    buffLen := smallFragSize }

/-- The call rep when the response begins, with `RPC_CN_CREP_ADJ_IOV_FOR_TLR` done. -/
def Rep.start : Rep := freeAllExceptProtHdr tlr {}

/-- `rpc__cn_transmit_buffers`, then only the header is kept. -/
def flush (rep : Rep) : Rep × Bool :=
  (freeAllExceptProtHdr tlr { rep with sent := rep.sent + 1 }, ok rep.sent)

/-- `rpc__cn_prep_next_iovector_elmt`. -/
def prepNextIovectorElmt (rep : Rep) : Rep :=
  { rep with
    numElt := rep.numElt + 1
    freeBytes := largeFragSize
    freeOff := 0
    buffLen := largeFragSize }

/-- Before bytes are copied: send if the segment size is reached, or take a new element if the
current one is full. -/
def makeRoom (rep : Rep) (bytesToSegmentSize : ℕ) : Rep × Bool :=
  if bytesToSegmentSize = 0 then flush tlr ok rep
  else if rep.freeBytes = 0 then
    if maxIovecLen ≤ rep.numElt then flush tlr ok rep
    else (prepNextIovectorElmt rep, true)
  else (rep, true)

/-- How many of `left` bytes are copied at once. -/
def xferSize (rep : Rep) (left : ℕ) : ℕ :=
  min (min rep.freeBytes (sub32 maxSegSize rep.accBytcnt)) left

/-- The copy, and what it moves on. -/
def memcpyFree (rep : Rep) (size : ℕ) : Rep :=
  { rep with
    accBytcnt := add32 rep.accBytcnt size
    freeBytes := rep.freeBytes - size
    freeOff := rep.freeOff + size
    xfers := rep.xfers ++ [.copy rep.accBytcnt size rep.freeOff rep.buffLen] }

/-- The loop of `rpc__cn_copy_buffer`; `none` where it has not ended after so many turns. -/
def copyLoop : ℕ → Rep → ℕ → ℕ → Option Rep
  | 0, _, _, _ => none
  | turns + 1, rep, bytesToSegmentSize, left =>
    if left = 0 then some rep
    else
      match makeRoom tlr ok rep bytesToSegmentSize with
      | (rep, false) => some rep
      | (rep, true) =>
        let size := xferSize maxSegSize rep left
        copyLoop turns (memcpyFree rep size) (sub32 maxSegSize rep.accBytcnt) (left - size)

/-- The elements of the vector after a send: the header, the current one and the trailer. -/
def keepCurrent (numElt : ℕ) : ℕ := min (numElt - tlrSlots tlr) 2 + tlrSlots tlr

/-- The loop of `rpc__cn_add_new_iovector_elmt` and what follows it, for an element of `dataLen`
bytes. -/
def addLoop : ℕ → Rep → ℕ → Option Rep
  | 0, _, _ => none
  | turns + 1, rep, dataLen =>
    let bytesToSegmentSize := sub32 maxSegSize rep.accBytcnt
    if dataLen ≤ bytesToSegmentSize then
      if dataLen = 0 then some { rep with numElt := rep.numElt - 1 }
      else some { rep with
        accBytcnt := add32 rep.accBytcnt dataLen
        xfers := rep.xfers ++ [.attach rep.accBytcnt dataLen] }
    else
      let rep' : Rep := { rep with
        sent := rep.sent + 1
        xfers := rep.xfers ++ [.attach rep.accBytcnt bytesToSegmentSize] }
      if ok rep.sent then
        addLoop turns { rep' with
          numElt := keepCurrent tlr rep.numElt, accBytcnt := sizeofHdr tlr }
          (dataLen - bytesToSegmentSize)
      else some (freeAllExceptProtHdr tlr rep')

/-- `rpc__cn_add_new_iovector_elmt` from the free slot in the vector on: nothing is copied behind
the new element. -/
def newElmt (rep : Rep) : Rep :=
  { rep with numElt := rep.numElt + 1, freeBytes := 0, freeOff := 0, buffLen := 0 }

/-- How an element of the response goes out. -/
inductive Elt
  | copied (dataLen : ℕ)
  | added (dataLen : ℕ)
deriving DecidableEq, Repr

/-- One element, with so many turns for a loop. -/
def transmitElt (turns : ℕ) (rep : Rep) : Elt → Option Rep
  | .copied dataLen => copyLoop maxSegSize tlr ok turns rep 1 dataLen
  | .added dataLen =>
    if maxIovecLen ≤ rep.numElt then
      match flush tlr ok rep with
      | (rep, false) => some rep
      | (rep, true) => addLoop maxSegSize tlr ok turns (newElmt rep) dataLen
    else addLoop maxSegSize tlr ok turns (newElmt rep) dataLen

/-- A response.  One that ends at an error is a shorter list of elements. -/
def respond (turns : ℕ) (elts : List Elt) : Option Rep :=
  elts.foldlM (transmitElt maxSegSize tlr ok turns) (Rep.start tlr)

/-! ### What is wanted -/

/-- The loops end, whichever fragments can be sent, and what they copy and attach fits. -/
def Safe (maxRecvFrag : BitVec 16) (tlr : Option (BitVec 16)) : Prop :=
  ∀ (ok : ℕ → Bool) (elts : List Elt), ∃ turns rep,
    respond (maxXmitFrag maxRecvFrag) tlr ok turns elts = some rep ∧
      ∀ x ∈ rep.xfers, x.Fits (maxXmitFrag maxRecvFrag)

/-- The header and the trailer leave room in a fragment, and the buffer of the header has room for
what is copied behind it. -/
def Room (maxSegSize : ℕ) (tlr : Option (BitVec 16)) : Prop :=
  sizeofHdr tlr < maxSegSize ∧
    (sizeofHdr tlr ≤ smallFragSize ∨ maxSegSize ≤ smallFragSize + tlrSize tlr)

variable {maxSegSize : ℕ} {tlr : Option (BitVec 16)} {ok : ℕ → Bool} {rep : Rep}

/-! ### Sizes -/

theorem sub32_eq {a b : ℕ} (hb : b ≤ a) (ha : a < 2 ^ 32) : sub32 a b = a - b := by
  rw [sub32]
  omega

theorem sub32_of_lt {a b : ℕ} (hab : a < b) (hb : b < 2 ^ 32) : sub32 a b = 2 ^ 32 - (b - a) := by
  rw [sub32]
  omega

theorem add32_eq {a b : ℕ} (h : a + b < 2 ^ 32) : add32 a b = a + b := Nat.mod_eq_of_lt h

theorem maxXmitFrag_le (maxRecvFrag : BitVec 16) : maxXmitFrag maxRecvFrag ≤ largeFragSize :=
  Nat.min_le_left _ _

theorem sizeofRespHdr_le (tlr : Option (BitVec 16)) : sizeofRespHdr ≤ sizeofHdr tlr :=
  Nat.le_add_right _ _

theorem sizeofHdr_lt (tlr : Option (BitVec 16)) : sizeofHdr tlr < 2 ^ 17 := by
  rw [sizeofHdr, sizeofRespHdr]
  cases tlr with
  | none => decide
  | some authLen =>
    have hlen := authLen.isLt
    rw [tlrSize, sizeofComAuthTlr]
    omega

/-! ### Where there is room -/

/-- What holds between the elements of a response. -/
structure Ok (maxSegSize : ℕ) (tlr : Option (BitVec 16)) (rep : Rep) : Prop where
  hdr : sizeofHdr tlr ≤ rep.accBytcnt
  acc : rep.accBytcnt ≤ maxSegSize
  buff : rep.freeOff + min rep.freeBytes (maxSegSize - rep.accBytcnt) ≤ rep.buffLen
  fits : ∀ x ∈ rep.xfers, x.Fits maxSegSize

/-- Behind the header there is as much room as can be used. -/
theorem Room.buff (h : Room maxSegSize tlr) :
    sizeofRespHdr + min (sub32 smallFragSize (sizeofHdr tlr)) (maxSegSize - sizeofHdr tlr) ≤
      smallFragSize := by
  obtain ⟨hlt, hle | hle⟩ := h
  · rw [sub32_eq hle (by decide)]
    have hhdr := sizeofRespHdr_le tlr
    omega
  · have hhdr : sizeofHdr tlr = sizeofRespHdr + tlrSize tlr := rfl
    have hmin := Nat.min_le_right (sub32 smallFragSize (sizeofHdr tlr)) (maxSegSize - sizeofHdr tlr)
    omega

theorem ok_freeAllExceptProtHdr (h : Room maxSegSize tlr)
    (hfits : ∀ x ∈ rep.xfers, x.Fits maxSegSize) :
    Ok maxSegSize tlr (freeAllExceptProtHdr tlr rep) :=
  ⟨Nat.le_refl _, h.1.le, h.buff, hfits⟩

theorem Ok.prepNextIovectorElmt (h : Ok maxSegSize tlr rep) :
    Ok maxSegSize tlr (prepNextIovectorElmt rep) := by
  refine ⟨h.hdr, h.acc, ?_, h.fits⟩
  show 0 + min largeFragSize _ ≤ largeFragSize
  rw [Nat.zero_add]
  exact Nat.min_le_left _ _

theorem Ok.xferSize_eq (h : Ok maxSegSize tlr rep) (hmax : maxSegSize < 2 ^ 32) (left : ℕ) :
    xferSize maxSegSize rep left = min (min rep.freeBytes (maxSegSize - rep.accBytcnt)) left := by
  rw [xferSize, sub32_eq h.acc hmax]

/-- What is copied fits. -/
theorem Ok.memcpyFree (h : Ok maxSegSize tlr rep) (hmax : maxSegSize < 2 ^ 32) {size : ℕ}
    (hsize : size ≤ min rep.freeBytes (maxSegSize - rep.accBytcnt)) :
    Ok maxSegSize tlr (memcpyFree rep size) := by
  obtain ⟨hhdr, hacc, hbuff, hfits⟩ := h
  have hadd : (SegSize.memcpyFree rep size).accBytcnt = rep.accBytcnt + size := by
    refine add32_eq ?_
    omega
  refine ⟨?_, ?_, ?_, fun x hx => ?_⟩
  · rw [hadd]
    omega
  · rw [hadd]
    omega
  · rw [hadd]
    show rep.freeOff + size + min (rep.freeBytes - size) _ ≤ rep.buffLen
    omega
  · rcases List.mem_append.mp hx with hx | hx
    · exact hfits x hx
    · obtain rfl := List.mem_singleton.mp hx
      show rep.accBytcnt + size ≤ maxSegSize ∧ rep.freeOff + size ≤ rep.buffLen
      omega

/-- How many turns can pass before a byte is copied. -/
def rank (maxSegSize : ℕ) (rep : Rep) (bytesToSegmentSize : ℕ) : ℕ :=
  if bytesToSegmentSize = 0 ∨ rep.freeBytes = 0 ∧ maxIovecLen ≤ rep.numElt then 1
  else if rep.accBytcnt = maxSegSize then 2
  else 0

theorem rank_le (maxSegSize : ℕ) (rep : Rep) (bytesToSegmentSize : ℕ) :
    rank maxSegSize rep bytesToSegmentSize ≤ 2 := by
  unfold rank
  split <;> [decide; split <;> decide]

theorem rank_of_reached {bytesToSegmentSize : ℕ} (h : bytesToSegmentSize = 0) :
    rank maxSegSize rep bytesToSegmentSize = 1 := if_pos (.inl h)

/-- After a send there is room at once, or with the next turn. -/
theorem flush_spec (ok : ℕ → Bool) (h : Room maxSegSize tlr) (hok : Ok maxSegSize tlr rep) :
    Ok maxSegSize tlr (flush tlr ok rep).1 ∧
      (0 < min (flush tlr ok rep).1.freeBytes (maxSegSize - (flush tlr ok rep).1.accBytcnt) ∨
        rank maxSegSize (flush tlr ok rep).1 (maxSegSize - (flush tlr ok rep).1.accBytcnt) = 0) := by
  refine ⟨ok_freeAllExceptProtHdr h hok.fits, ?_⟩
  have hacc : (flush tlr ok rep).1.accBytcnt = sizeofHdr tlr := rfl
  have hnumElt : (flush tlr ok rep).1.numElt = 1 + tlrSlots tlr := rfl
  have hslots : 1 + tlrSlots tlr < maxIovecLen := by
    unfold tlrSlots
    split <;> decide
  have hroom := h.1
  rw [hacc]
  rcases Nat.eq_zero_or_pos (flush tlr ok rep).1.freeBytes with hfree | hfree
  · right
    rw [rank, hacc, hnumElt, if_neg, if_neg hroom.ne]
    rintro (hzero | ⟨-, hfull⟩)
    · omega
    · exact Nat.not_lt.mpr hfull hslots
  · left
    omega

/-- Before a copy: there is room, or less to wait for it. -/
theorem makeRoom_spec (ok : ℕ → Bool) (h : Room maxSegSize tlr) (hok : Ok maxSegSize tlr rep)
    (bytesToSegmentSize : ℕ) :
    ∃ rep' b, makeRoom tlr ok rep bytesToSegmentSize = (rep', b) ∧ Ok maxSegSize tlr rep' ∧
      (0 < min rep'.freeBytes (maxSegSize - rep'.accBytcnt) ∨
        rank maxSegSize rep' (maxSegSize - rep'.accBytcnt) <
          rank maxSegSize rep bytesToSegmentSize) := by
  obtain ⟨hflush, hroom⟩ := flush_spec ok h hok
  rw [makeRoom]
  by_cases hreached : bytesToSegmentSize = 0
  · rw [if_pos hreached, rank_of_reached hreached]
    exact ⟨_, _, rfl, hflush, hroom.imp_right fun hrank => hrank.trans_lt Nat.one_pos⟩
  · rw [if_neg hreached]
    by_cases hfree : rep.freeBytes = 0
    · rw [if_pos hfree]
      by_cases hfull : maxIovecLen ≤ rep.numElt
      · have hrank : rank maxSegSize rep bytesToSegmentSize = 1 := if_pos (.inr ⟨hfree, hfull⟩)
        rw [if_pos hfull, hrank]
        exact ⟨_, _, rfl, hflush, hroom.imp_right fun hrank => hrank.trans_lt Nat.one_pos⟩
      · -- a new element, unless the segment size was reached by the last copy
        rw [if_neg hfull]
        refine ⟨_, _, rfl, hok.prepNextIovectorElmt, ?_⟩
        show 0 < min largeFragSize (maxSegSize - rep.accBytcnt) ∨ _
        rcases hok.acc.eq_or_lt with hacc | hacc
        · right
          have hnew : maxSegSize - (prepNextIovectorElmt rep).accBytcnt = 0 :=
            Nat.sub_eq_zero_of_le hacc.ge
          have hrank : rank maxSegSize rep bytesToSegmentSize = 2 := by
            rw [rank, if_neg, if_pos hacc]
            rintro (hzero | ⟨-, hle⟩)
            · exact hreached hzero
            · exact hfull hle
          rw [rank_of_reached hnew, hrank]
          exact Nat.one_lt_two
        · left
          exact Nat.lt_min.mpr ⟨by decide, Nat.sub_pos_of_lt hacc⟩
    · rw [if_neg hfree]
      refine ⟨_, _, rfl, hok, ?_⟩
      rcases hok.acc.eq_or_lt with hacc | hacc
      · right
        have hrank : rank maxSegSize rep bytesToSegmentSize = 2 := by
          rw [rank, if_neg, if_pos hacc]
          rintro (hzero | ⟨hzero, -⟩)
          · exact hreached hzero
          · exact hfree hzero
        rw [rank_of_reached (Nat.sub_eq_zero_of_le hacc.ge), hrank]
        exact Nat.one_lt_two
      · left
        exact Nat.lt_min.mpr ⟨Nat.pos_of_ne_zero hfree, Nat.sub_pos_of_lt hacc⟩

/-- **Copying** ends: three turns of the loop copy at least one byte. -/
theorem copyLoop_spec (h : Room maxSegSize tlr) (hmax : maxSegSize < 2 ^ 32) {turns : ℕ}
    {bytesToSegmentSize left : ℕ} (hok : Ok maxSegSize tlr rep)
    (hturns : 3 * left + rank maxSegSize rep bytesToSegmentSize < turns) :
    ∃ rep', copyLoop maxSegSize tlr ok turns rep bytesToSegmentSize left = some rep' ∧
      Ok maxSegSize tlr rep' := by
  induction turns generalizing rep bytesToSegmentSize left with
  | zero => exact absurd hturns (Nat.not_lt_zero _)
  | succ turns ih =>
    rw [copyLoop]
    by_cases hleft : left = 0
    · rw [if_pos hleft]
      exact ⟨rep, rfl, hok⟩
    · rw [if_neg hleft]
      obtain ⟨rep', b, hmake, hok', hroom⟩ :=
        makeRoom_spec ok h hok bytesToSegmentSize
      rw [hmake]
      cases b with
      | false => exact ⟨rep', rfl, hok'⟩
      | true =>
        dsimp only
        have hsize := hok'.xferSize_eq hmax left
        have hle : xferSize maxSegSize rep' left ≤
            min rep'.freeBytes (maxSegSize - rep'.accBytcnt) := by
          rw [hsize]
          exact Nat.min_le_left _ _
        refine ih (hok'.memcpyFree hmax hle) ?_
        rw [sub32_eq hok'.acc hmax]
        rcases Nat.eq_zero_or_pos (min rep'.freeBytes (maxSegSize - rep'.accBytcnt)) with hno | hyes
        · -- nothing is copied
          have hzero : xferSize maxSegSize rep' left = 0 := Nat.eq_zero_of_le_zero (hno ▸ hle)
          have hacc := hok'.acc
          have hadd : add32 rep'.accBytcnt 0 = rep'.accBytcnt := add32_eq (by omega)
          have hrank : rank maxSegSize (memcpyFree rep' 0) (maxSegSize - rep'.accBytcnt) =
              rank maxSegSize rep' (maxSegSize - rep'.accBytcnt) := by
            rw [rank, rank]
            show ite _ _ (ite (add32 rep'.accBytcnt 0 = maxSegSize) _ _) = _
            rw [hadd]
            rfl
          have hless := hroom.resolve_left (by omega)
          rw [hzero, hrank]
          omega
        · have hrank := rank_le maxSegSize (memcpyFree rep' (xferSize maxSegSize rep' left))
            (maxSegSize - rep'.accBytcnt)
          omega

/-- **Attaching** ends: every turn but the first sends at least one byte. -/
theorem addLoop_spec (h : Room maxSegSize tlr) (hmax : maxSegSize < 2 ^ 32) {turns dataLen : ℕ}
    (hok : Ok maxSegSize tlr rep) (hfree : rep.freeBytes = 0) (hoff : rep.freeOff ≤ rep.buffLen)
    (hturns : dataLen + (if rep.accBytcnt = maxSegSize then 1 else 0) < turns) :
    ∃ rep', addLoop maxSegSize tlr ok turns rep dataLen = some rep' ∧ Ok maxSegSize tlr rep' := by
  have hbuff : ∀ room, rep.freeOff + min rep.freeBytes room ≤ rep.buffLen := by
    intro room
    rw [hfree, Nat.zero_min]
    exact hoff
  induction turns generalizing rep dataLen with
  | zero => exact absurd hturns (Nat.not_lt_zero _)
  | succ turns ih =>
    have hacc := hok.acc
    have hhdr := hok.hdr
    have hroom := h.1
    have hfits : ∀ size, rep.accBytcnt + size ≤ maxSegSize →
        ∀ x ∈ rep.xfers ++ [.attach rep.accBytcnt size], x.Fits maxSegSize := by
      intro size hsize x hx
      rcases List.mem_append.mp hx with hx | hx
      · exact hok.fits x hx
      · obtain rfl := List.mem_singleton.mp hx
        exact hsize
    rw [addLoop, sub32_eq hacc hmax]
    by_cases hlast : dataLen ≤ maxSegSize - rep.accBytcnt
    · rw [if_pos hlast]
      by_cases hzero : dataLen = 0
      · rw [if_pos hzero]
        exact ⟨_, rfl, ⟨hhdr, hacc, hok.buff, hok.fits⟩⟩
      · have hadd : add32 rep.accBytcnt dataLen = rep.accBytcnt + dataLen := add32_eq (by omega)
        rw [if_neg hzero, hadd]
        refine ⟨_, rfl, ⟨?_, ?_, hbuff _, hfits dataLen (by omega)⟩⟩
        · show _ ≤ rep.accBytcnt + dataLen
          omega
        · show rep.accBytcnt + dataLen ≤ _
          omega
    · rw [if_neg hlast]
      have hsent := hfits (maxSegSize - rep.accBytcnt) (by omega)
      by_cases hsend : ok rep.sent = true
      · rw [if_pos hsend]
        refine ih ⟨Nat.le_refl _, hroom.le, hbuff _, hsent⟩ hfree hoff ?_ hbuff
        show _ + (if sizeofHdr tlr = maxSegSize then 1 else 0) < turns
        rw [if_neg hroom.ne]
        split at hturns <;> omega
      · rw [if_neg hsend]
        exact ⟨_, rfl, ok_freeAllExceptProtHdr h hsent⟩

def Elt.dataLen : Elt → ℕ
  | .copied dataLen => dataLen
  | .added dataLen => dataLen

theorem transmitElt_spec (ok : ℕ → Bool) (h : Room maxSegSize tlr) (hmax : maxSegSize < 2 ^ 32) {turns : ℕ}
    (hok : Ok maxSegSize tlr rep) {e : Elt} (hturns : 3 * e.dataLen + 2 < turns) :
    ∃ rep', transmitElt maxSegSize tlr ok turns rep e = some rep' ∧ Ok maxSegSize tlr rep' := by
  cases e with
  | copied dataLen =>
    have hrank := rank_le maxSegSize rep 1
    have hlen : 3 * dataLen + 2 < turns := hturns
    exact copyLoop_spec h hmax hok (by omega)
  | added dataLen =>
    have hlen : 3 * dataLen + 2 < turns := hturns
    have hadd : ∀ {rep : Rep}, Ok maxSegSize tlr rep →
        ∃ rep', addLoop maxSegSize tlr ok turns (newElmt rep) dataLen = some rep' ∧
          Ok maxSegSize tlr rep' := by
      intro rep hok
      have hnew : Ok maxSegSize tlr (newElmt rep) :=
        ⟨hok.hdr, hok.acc, (Nat.zero_add _).trans_le (Nat.min_le_left _ _), hok.fits⟩
      refine addLoop_spec h hmax hnew rfl (Nat.le_refl _) ?_
      split <;> omega
    rw [transmitElt]
    by_cases hfull : maxIovecLen ≤ rep.numElt
    · rw [if_pos hfull]
      have hflush := (flush_spec ok h hok).1
      split
      next rep' hrep' =>
        rw [hrep'] at hflush
        exact ⟨rep', rfl, hflush⟩
      next rep' hrep' =>
        rw [hrep'] at hflush
        exact hadd hflush
    · rw [if_neg hfull]
      exact hadd hok

theorem foldlM_spec (ok : ℕ → Bool) (h : Room maxSegSize tlr) (hmax : maxSegSize < 2 ^ 32) {turns : ℕ}
    {elts : List Elt} (hok : Ok maxSegSize tlr rep)
    (hturns : ∀ e ∈ elts, 3 * e.dataLen + 2 < turns) :
    ∃ rep', elts.foldlM (transmitElt maxSegSize tlr ok turns) rep = some rep' ∧
      Ok maxSegSize tlr rep' := by
  induction elts generalizing rep with
  | nil => exact ⟨rep, rfl, hok⟩
  | cons e elts ih =>
    obtain ⟨rep₁, hrep₁, hok₁⟩ :=
      transmitElt_spec ok h hmax hok (hturns e List.mem_cons_self)
    obtain ⟨rep₂, hrep₂, hok₂⟩ := ih hok₁ fun e he => hturns e (List.mem_cons_of_mem _ he)
    refine ⟨rep₂, ?_, hok₂⟩
    rw [List.foldlM_cons, hrep₁]
    exact hrep₂

/-- A size that leaves room is safe. -/
theorem Room.safe {maxRecvFrag : BitVec 16} (h : Room (maxXmitFrag maxRecvFrag) tlr) :
    Safe maxRecvFrag tlr := by
  intro ok elts
  have hmax : maxXmitFrag maxRecvFrag < 2 ^ 32 :=
    (maxXmitFrag_le maxRecvFrag).trans_lt (by decide)
  have hturns : ∀ e ∈ elts, 3 * e.dataLen + 2 < 3 * (elts.map Elt.dataLen).sum + 3 := by
    intro e he
    have hle : e.dataLen ≤ (elts.map Elt.dataLen).sum :=
      List.single_le_sum (fun _ _ => Nat.zero_le _) _ (List.mem_map_of_mem he)
    omega
  have hstart : Ok (maxXmitFrag maxRecvFrag) tlr (Rep.start tlr) :=
    ok_freeAllExceptProtHdr h fun x hx => absurd hx List.not_mem_nil
  obtain ⟨rep, hrep, hok⟩ := foldlM_spec ok h hmax hstart hturns
  exact ⟨_, rep, hrep, hok.fits⟩

/-! ### Where there is none -/

theorem respond_singleton (turns : ℕ) (e : Elt) :
    respond maxSegSize tlr ok turns [e] = transmitElt maxSegSize tlr ok turns (Rep.start tlr) e :=
  List.foldlM_cons.trans (bind_pure _)

/-- The header fills a fragment: the loop sends fragments without data for ever. -/
theorem addLoop_of_eq {turns dataLen : ℕ} (hdata : dataLen ≠ 0)
    (hacc : rep.accBytcnt = sizeofHdr tlr) :
    addLoop (sizeofHdr tlr) tlr (fun _ => true) turns rep dataLen = none := by
  have hhdr := sizeofHdr_lt tlr
  induction turns generalizing rep with
  | zero => rfl
  | succ turns ih =>
    have hzero : sub32 (sizeofHdr tlr) rep.accBytcnt = 0 := by
      rw [hacc, sub32_eq (Nat.le_refl _) (by omega), Nat.sub_self]
    have hmore : ¬ dataLen ≤ 0 := fun hle => hdata (Nat.le_zero.mp hle)
    rw [addLoop, hzero, if_neg hmore, if_pos rfl, Nat.sub_zero]
    exact ih rfl

theorem not_maxIovecLen_le_start (tlr : Option (BitVec 16)) :
    ¬ maxIovecLen ≤ (Rep.start tlr).numElt := by
  show ¬ maxIovecLen ≤ 1 + tlrSlots tlr
  unfold tlrSlots
  split <;> decide

/-- A size that leaves no room for data is not safe: the loop does not end, or more is attached than
fits. -/
theorem sizeofHdr_lt_of_safe {maxRecvFrag : BitVec 16} (h : Safe maxRecvFrag tlr) :
    sizeofHdr tlr < maxXmitFrag maxRecvFrag := by
  have hhdr := sizeofHdr_lt tlr
  have hslots := not_maxIovecLen_le_start tlr
  obtain ⟨turns, rep, hrep, hfits⟩ := h (fun _ => true) [.added 1]
  rw [respond_singleton, transmitElt, if_neg hslots] at hrep
  rcases Nat.lt_trichotomy (sizeofHdr tlr) (maxXmitFrag maxRecvFrag) with hlt | heq | hgt
  · exact hlt
  · rw [← heq, addLoop_of_eq one_ne_zero rfl] at hrep
    cases hrep
  · -- the difference wraps around, and the element is attached as a whole
    cases turns with
    | zero => cases hrep
    | succ turns =>
      have hacc : (newElmt (Rep.start tlr)).accBytcnt = sizeofHdr tlr := rfl
      have hone : 1 ≤ sub32 (maxXmitFrag maxRecvFrag) (sizeofHdr tlr) := by
        rw [sub32_of_lt hgt (by omega)]
        omega
      rw [addLoop, hacc, if_pos hone, if_neg one_ne_zero] at hrep
      obtain rfl := Option.some_inj.mp hrep
      have hattach : sizeofHdr tlr + 1 ≤ maxXmitFrag maxRecvFrag :=
        hfits (.attach (sizeofHdr tlr) 1) (List.mem_append_right _ (List.mem_singleton.mpr rfl))
      omega

/-- Nor is one that leaves no room in the buffer of the header: more is copied than fits there. -/
theorem room_of_safe {maxRecvFrag : BitVec 16} (h : Safe maxRecvFrag tlr) :
    Room (maxXmitFrag maxRecvFrag) tlr := by
  have hhdr := sizeofHdr_lt tlr
  have hmax : maxXmitFrag maxRecvFrag ≤ 4096 := maxXmitFrag_le maxRecvFrag
  have hlt := sizeofHdr_lt_of_safe h
  refine ⟨hlt, or_iff_not_imp_left.mpr fun hbig => ?_⟩
  obtain ⟨turns, rep, hrep, hfits⟩ :=
    h (fun _ => true) [.copied (maxXmitFrag maxRecvFrag - sizeofHdr tlr)]
  rw [respond_singleton, transmitElt] at hrep
  have hsmall : smallFragSize = 256 := rfl
  have hfree : (Rep.start tlr).freeBytes = 2 ^ 32 - (sizeofHdr tlr - smallFragSize) :=
    sub32_of_lt (Nat.lt_of_not_le hbig) (by omega)
  have hsize : xferSize (maxXmitFrag maxRecvFrag) (Rep.start tlr)
      (maxXmitFrag maxRecvFrag - sizeofHdr tlr) = maxXmitFrag maxRecvFrag - sizeofHdr tlr := by
    have hacc : (Rep.start tlr).accBytcnt = sizeofHdr tlr := rfl
    rw [xferSize, hfree, hacc, sub32_eq hlt.le (by omega)]
    omega
  have hmake : makeRoom tlr (fun _ => true) (Rep.start tlr) 1 = (Rep.start tlr, true) := by
    rw [makeRoom, if_neg one_ne_zero, if_neg]
    rw [hfree]
    omega
  -- one turn copies all of it
  cases turns with
  | zero => cases hrep
  | succ turns =>
    rw [copyLoop, if_neg (by omega), hmake] at hrep
    dsimp only at hrep
    rw [hsize, Nat.sub_self] at hrep
    cases turns with
    | zero => cases hrep
    | succ turns =>
      rw [copyLoop, if_pos rfl] at hrep
      obtain rfl := Option.some_inj.mp hrep
      have hcopy := hfits (.copy (sizeofHdr tlr) (maxXmitFrag maxRecvFrag - sizeofHdr tlr)
        sizeofRespHdr smallFragSize) (List.mem_append_right _ (List.mem_singleton.mpr rfl))
      have hbuff : sizeofRespHdr + (maxXmitFrag maxRecvFrag - sizeofHdr tlr) ≤ smallFragSize :=
        hcopy.2
      have hdef : sizeofHdr tlr = sizeofRespHdr + tlrSize tlr := rfl
      omega

end SegSize

end Cn
