/-
Fragmentation loses and reorders nothing (cnxfer.c).

`Sending` relates the buffered output of a call to the stub bytes handed over so
far: those sent and those buffered make them up, every fragment sent is as it must
be, and the buffers handed over are deallocated or still in the vector.

* `flush_spec`, `copyBuffer_spec`, `addNewIovectorElmt_spec` — a send, a copy and a
  chained buffer keep `Sending`, a copy as long as it does not run past the header's
  buffer (`CopyFits`), a chained buffer as long as no buffer is forgotten when it is
  cut at the segment size (`Unforgotten`);
* `delivered_of_along` — a call all of whose steps meet these conditions delivers its
  input.
-/
import FreeDce.Cn.Fragment
import FreeDce.Lib.Runs

namespace Cn

open Runs

variable {L : SendLayout} {send : Send} {rep : CallRep} {h e : IovElt} {stubs : List IovElt}
  {k : ℕ} {data src : List UInt8} {bufs : List ℕ}

/-! ### What has been sent -/

/-- The stub bytes of a fragment: what lies between the header and the padding. -/
def Fragment.stub (L : SendLayout) (frag : Fragment) : List UInt8 :=
  (frag.iov.flatten.drop L.protHeader.length).take
    (frag.fragLen.toNat - L.protHeader.length - frag.stubPadLength - L.trailer.length)

theorem FragOk.stub_eq {frag : Fragment} {stub : List UInt8} (hf : FragOk L frag stub) :
    frag.stub L = stub := by
  obtain ⟨padding, hlen, hbytes⟩ := hf.bytes
  have hsum : frag.fragLen.toNat = L.protHeader.length + stub.length + frag.stubPadLength +
      L.trailer.length := by
    rw [hf.fragLen, hbytes, List.length_append, List.length_append, List.length_append, hlen]
  have htake : frag.fragLen.toNat - L.protHeader.length - frag.stubPadLength - L.trailer.length
      = stub.length := by omega
  rw [Fragment.stub, htake, hbytes, List.append_assoc, List.append_assoc, List.drop_left,
    List.take_left]

/-- The stub bytes of all fragments sent. -/
def sentStub (L : SendLayout) (rep : CallRep) : List UInt8 :=
  (rep.sent.map (Fragment.stub L)).flatten

/-- The buffers of the stub that were deallocated or are still in the vector. -/
def inputBufs (rep : CallRep) : List ℕ :=
  (rep.dealloced ++ rep.elt.filterMap IovElt.buff).filterMap Buff.input?

/-- The fragments sent are as they must be, and only the first one says that it is. -/
structure SentOk (L : SendLayout) (rep : CallRep) : Prop where
  fragOk : ∀ frag ∈ rep.sent, FragOk L frag (frag.stub L)
  first : ∀ i frag, rep.sent[i]? = some frag → (frag.flags.getLsbD 0 = true ↔ i = 0)
  flags : rep.flags.getLsbD 0 = true ↔ rep.sent = []

/-! ### The buffered output -/

/-- Where the next byte is copied to: behind the header, or into a fragment buffer that
is the last element. -/
inductive Cursor (L : SendLayout) (rep : CallRep) (stubs : List IovElt) (k : ℕ) : Prop
  | header (hstubs : stubs = []) (hoff : rep.freeOff = L.protHeader.length + k)
      (hfree : rep.freeBytes = BitVec.ofNat 32 smallFragSize - BitVec.ofNat 32 (L.sizeofHdr + k))
  | fragbuf (init : List IovElt) (l : IovElt) (hstubs : stubs = init ++ [l])
      (hlen : l.buffLen = largeFragSize) (hoff : rep.freeOff = l.dataLen)
      (hfree : l.dataLen + rep.freeBytes.toNat = largeFragSize)

/-- The buffered output between two operations. -/
structure Buffered (L : SendLayout) (rep : CallRep) (h : IovElt) (stubs : List IovElt) (k : ℕ) :
    Prop extends Holds L rep h stubs k where
  numElt_le : rep.numElt ≤ L.maxIovecLen
  cursor : rep.freeBytes ≠ 0 → Cursor L rep stubs k
  inHeader : L.protHeader.length + k ≤ smallFragSize
  small : L.sizeofHdr ≤ smallFragSize → L.sizeofHdr + k ≤ smallFragSize

/-- The bytes and the buffers handed over are sent or buffered. -/
def Sending (L : SendLayout) (rep : CallRep) (data : List UInt8) (bufs : List ℕ) : Prop :=
  ∃ h stubs k, Buffered L rep h stubs k ∧ SentOk L rep ∧
    sentStub L rep ++ pending L h stubs k = data ∧ (inputBufs rep).Perm bufs

/-- The same, with the cursor in place. -/
def Positioned (L : SendLayout) (rep : CallRep) (data : List UInt8) (bufs : List ℕ) : Prop :=
  ∃ h stubs k, Buffered L rep h stubs k ∧ Cursor L rep stubs k ∧ SentOk L rep ∧
    sentStub L rep ++ pending L h stubs k = data ∧ (inputBufs rep).Perm bufs

theorem Positioned.sending (hP : Positioned L rep data bufs) : Sending L rep data bufs := by
  obtain ⟨h, stubs, k, hB, -, hS⟩ := hP
  exact ⟨h, stubs, k, hB, hS⟩

/-! ### Sending a fragment -/

theorem getLsbD_clearFirst (flags : BitVec 8) : (flags &&& ~~~flagsFirstFrag).getLsbD 0 = false := by
  simp [flagsFirstFrag]

/-- A fragment that can be sent is added to those sent. -/
theorem transmitBuffers_spec (hsend : ∀ sent frag, send sent frag = true) :
    transmitBuffers L send rep = ({ rep with
      elt := attachTlr L rep
      flags := rep.flags &&& ~~~flagsFirstFrag
      sent := rep.sent ++ [nextFragment L rep] }, true) := by
  rw [transmitBuffers, hsend, if_pos rfl]

theorem SentOk.snoc (S : SentOk L rep) (hf : FragOk L (nextFragment L rep) src) (rep' : CallRep)
    (hsent : rep'.sent = rep.sent ++ [nextFragment L rep])
    (hflags : rep'.flags = rep.flags &&& ~~~flagsFirstFrag) :
    SentOk L rep' ∧ sentStub L rep' = sentStub L rep ++ src := by
  refine ⟨⟨?_, ?_, ?_⟩, ?_⟩
  · intro frag hmem
    rw [hsent, List.mem_append, List.mem_singleton] at hmem
    rcases hmem with hmem | rfl
    · exact S.fragOk frag hmem
    · rw [hf.stub_eq]
      exact hf
  · intro i frag hi
    rw [hsent, List.getElem?_append] at hi
    split at hi
    · exact S.first i frag hi
    · next hle =>
      -- the new fragment carries the flags of the call rep, which are set until the first send
      obtain ⟨hzero, rfl⟩ : i - rep.sent.length = 0 ∧ nextFragment L rep = frag := by
        rw [List.getElem?_singleton] at hi
        split at hi
        · next hzero => exact ⟨hzero, Option.some.inj hi⟩
        · cases hi
      have hnext : (nextFragment L rep).flags = rep.flags := rfl
      rw [hnext, S.flags, ← List.length_eq_zero_iff]
      omega
  · rw [hsent, hflags, getLsbD_clearFirst]
    simp
  · rw [sentStub, sentStub, hsent, List.map_append, List.map_singleton, List.flatten_append,
      List.flatten_singleton, hf.stub_eq]

theorem map_buff_modify (l : List IovElt) (i : ℕ) (f : IovElt → IovElt)
    (hf : ∀ e, (f e).buff = e.buff) : (l.modify i f).map IovElt.buff = l.map IovElt.buff := by
  induction l generalizing i with
  | nil => cases i <;> rfl
  | cons e l ih =>
    cases i with
    | zero => rw [List.modify_zero_cons, List.map_cons, List.map_cons, hf]
    | succ i => rw [List.modify_succ_cons, List.map_cons, List.map_cons, ih]

/-- Attaching the trailer changes lengths only. -/
theorem attachTlr_cons (helt : rep.elt = h :: stubs) : ∃ n stubs',
    attachTlr L rep = { h with dataLen := n } :: stubs' ∧
      stubs'.map IovElt.buff = stubs.map IovElt.buff := by
  unfold attachTlr
  split
  · rw [helt, List.modify_zero_cons]
    cases rep.numElt - 2 with
    | zero => exact ⟨_, stubs, by rw [List.modify_zero_cons], rfl⟩
    | succ i =>
      refine ⟨_, _, by rw [List.modify_succ_cons], ?_⟩
      exact map_buff_modify _ _ _ fun _ => rfl
  · exact ⟨h.dataLen, stubs, helt, rfl⟩

theorem filterMap_buff_eq (l : List IovElt) :
    l.filterMap IovElt.buff = (l.map IovElt.buff).filterMap id := by
  rw [List.filterMap_map]
  rfl

/-- What is deallocated are the first `n - 1` buffers of the stub elements. -/
theorem deallocBufferedData_spec (L : SendLayout) (rep : CallRep) (helt : rep.elt = h :: stubs) :
    (deallocBufferedData L rep).elt.take 1 = [h] ∧
      (deallocBufferedData L rep).dealloced = rep.dealloced ++
        ((stubs.map IovElt.buff).take (rep.numElt - L.tlrSlots - 1)).filterMap id := by
  constructor
  · rw [deallocBufferedData, helt]
    simp
  · rw [deallocBufferedData, helt]
    dsimp only
    rw [filterMap_buff_eq, List.map_drop, List.map_take, List.map_cons, List.drop_take,
      List.drop_one, List.tail_cons]

theorem Holds.inputBufs_eq (H : Holds L rep h stubs k) :
    inputBufs rep = (rep.dealloced ++ stubs.filterMap IovElt.buff).filterMap Buff.input? := by
  rw [inputBufs, H.elt, List.filterMap_cons_none H.buff]

theorem SendLayout.sizeofHdr_lt (L : SendLayout) : L.sizeofHdr < L.maxSegSize := L.hdr_lt

theorem SendLayout.tlrSlots_le (L : SendLayout) : L.tlrSlots ≤ 1 := by
  unfold SendLayout.tlrSlots
  split <;> omega

/-- An element for the header, with its length still to be set. -/
structure IsHeader (L : SendLayout) (h : IovElt) : Prop where
  buff : h.buff = none
  buffLen : h.buffLen = smallFragSize
  header : h.bytes.take L.protHeader.length = L.protHeader
  written : L.protHeader.length ≤ h.bytes.length

theorem Holds.isHeader (H : Holds L rep h stubs k) : IsHeader L h :=
  ⟨H.buff, H.buffLen, H.header, (Nat.le_add_right _ _).trans H.written⟩

/-- The header by itself. -/
theorem IsHeader.buffered (hh : IsHeader L h) (helt : rep.elt = [{ h with dataLen := L.sizeofHdr }])
    (hnum : rep.numElt = 1 + L.tlrSlots) (hacc : rep.accBytcnt = L.sizeofHdr)
    (hcur : rep.freeBytes ≠ 0 → Cursor L rep [] 0) :
    Buffered L rep { h with dataLen := L.sizeofHdr } [] 0 where
  elt := helt
  buff := hh.buff
  buffLen := hh.buffLen
  header := hh.header
  written := hh.written
  dataLen := rfl
  stubsWritten := by simp
  numElt := by rw [hnum, List.length_nil, Nat.zero_add]
  accBytcnt := hacc
  accBytcnt_le := hacc ▸ L.sizeofHdr_lt.le
  numElt_le := by
    have hslots := L.tlrSlots_le
    have hthree := L.three_le
    omega
  cursor := hcur
  inHeader := L.protHeader_le
  small := id

theorem IsHeader.buffered_freeAll (hh : IsHeader L h) (rep : CallRep) {n : ℕ}
    (hhead : rep.elt.take 1 = [{ h with dataLen := n }]) :
    Buffered L (freeAllExceptProtHdr L rep) { h with dataLen := L.sizeofHdr } [] 0 ∧
      Cursor L (freeAllExceptProtHdr L rep) [] 0 := by
  have hcur : Cursor L (freeAllExceptProtHdr L rep) [] 0 := .header rfl rfl rfl
  refine ⟨hh.buffered ?_ rfl rfl fun _ => hcur, hcur⟩
  rw [freeAllExceptProtHdr, hhead]
  rfl

theorem pending_nil (h : IovElt) : pending L h [] 0 = [] := by
  simp [pending, headStub]

/-- After a send only the header is left. -/
theorem flush_spec (hsend : ∀ sent frag, send sent frag = true) (B : Buffered L rep h stubs k)
    (S : SentOk L rep) : ∃ rep' h', flush L send rep = (rep', true) ∧
      Buffered L rep' h' [] 0 ∧ SentOk L rep' ∧ Cursor L rep' [] 0 ∧
      sentStub L rep' = sentStub L rep ++ pending L h stubs k ∧
      inputBufs rep' = inputBufs rep ∧ rep'.accBytcnt = L.sizeofHdr ∧
      rep'.numElt = 1 + L.tlrSlots := by
  obtain ⟨n, stubs', hattach, hbuffs⟩ := attachTlr_cons (L := L) B.elt
  set rep₁ : CallRep := { rep with
    elt := attachTlr L rep
    flags := rep.flags &&& ~~~flagsFirstFrag
    sent := rep.sent ++ [nextFragment L rep] } with hrep₁
  have hnum : rep₁.numElt - L.tlrSlots - 1 = stubs.length := by
    have hnum : rep₁.numElt = stubs.length + 1 + L.tlrSlots := B.numElt
    omega
  obtain ⟨hhead, hdealloc⟩ : (deallocBufferedData L rep₁).elt.take 1 = [{ h with dataLen := n }] ∧
      (deallocBufferedData L rep₁).dealloced = rep.dealloced ++ stubs.filterMap IovElt.buff := by
    have hspec := deallocBufferedData_spec L rep₁ hattach
    rw [hnum, hbuffs, List.take_of_length_le (List.length_map _).le, ← filterMap_buff_eq] at hspec
    exact hspec
  have hflush : flush L send rep = (freeAllExceptProtHdr L (deallocBufferedData L rep₁), true) := by
    rw [flush, transmitBuffers_spec hsend]
  obtain ⟨hB, hcur⟩ := B.isHeader.buffered_freeAll _ hhead
  obtain ⟨hS, hsent⟩ := S.snoc (nextFragment_spec B.toHolds B.numElt_le)
    (freeAllExceptProtHdr L (deallocBufferedData L rep₁)) rfl rfl
  refine ⟨_, _, hflush, hB, hS, hcur, hsent, ?_, rfl, rfl⟩
  rw [hB.inputBufs_eq, B.inputBufs_eq]
  have hall : (freeAllExceptProtHdr L (deallocBufferedData L rep₁)).dealloced
      = rep.dealloced ++ stubs.filterMap IovElt.buff := hdealloc
  rw [hall, List.filterMap_nil, List.append_nil]

/-! ### Copying a buffer -/

/-- The bytes that can be copied before the copy runs past the header's buffer, when
neither that buffer nor the segment size stops it before. -/
def headRoom (L : SendLayout) (rep : CallRep) : ℕ :=
  if rep.elt.length = 1 ∧ rep.freeBytes ≠ 0 then smallFragSize - rep.freeOff
  else min (L.maxSegSize - rep.accBytcnt)
      (rep.freeBytes.toNat + (L.maxIovecLen - rep.numElt) * largeFragSize) +
    (smallFragSize - L.protHeader.length)

/-- The copy of `n` bytes stays within the header's buffer: header and trailer fit into
it, so that its free bytes are counted right, or the segment size ends the copy in time,
or there are few enough bytes. -/
def CopyFits (L : SendLayout) (rep : CallRep) (n : ℕ) : Prop :=
  L.sizeofHdr ≤ smallFragSize ∨ L.maxSegSize - L.tlrSize ≤ smallFragSize ∨ n ≤ headRoom L rep

instance (n : ℕ) : Decidable (CopyFits L rep n) := instDecidableOr

/-- A new fragment buffer. -/
theorem prepNextIovectorElmt_spec (B : Buffered L rep h stubs k) (hnum : rep.numElt < L.maxIovecLen) :
    Buffered L (prepNextIovectorElmt rep) h
        (stubs ++ [{ buff := some .fragbuf, buffLen := largeFragSize, bytes := [], dataLen := 0 }]) k ∧
      Cursor L (prepNextIovectorElmt rep)
        (stubs ++ [{ buff := some .fragbuf, buffLen := largeFragSize, bytes := [], dataLen := 0 }]) k ∧
      inputBufs (prepNextIovectorElmt rep) = inputBufs rep := by
  set l : IovElt := { buff := some .fragbuf, buffLen := largeFragSize, bytes := [], dataLen := 0 }
    with hl
  have hcur : Cursor L (prepNextIovectorElmt rep) (stubs ++ [l]) k :=
    .fragbuf stubs l rfl rfl rfl rfl
  have hH : Holds L (prepNextIovectorElmt rep) h (stubs ++ [l]) k := {
    elt := by rw [prepNextIovectorElmt, B.elt]; rfl
    buff := B.buff
    buffLen := B.buffLen
    header := B.header
    written := B.written
    dataLen := B.dataLen
    stubsWritten := by
      intro e he
      rw [List.mem_append, List.mem_singleton] at he
      rcases he with he | rfl
      · exact B.stubsWritten e he
      · exact Nat.zero_le _
    numElt := by
      rw [prepNextIovectorElmt, List.length_append, List.length_singleton]
      dsimp only
      rw [B.numElt]
      omega
    accBytcnt := by
      rw [List.map_append, List.sum_append, List.map_singleton, List.sum_singleton, Nat.add_zero]
      exact B.accBytcnt
    accBytcnt_le := B.accBytcnt_le }
  refine ⟨{ hH with
    numElt_le := hnum
    cursor := fun _ => hcur
    inHeader := B.inHeader
    small := B.small }, hcur, ?_⟩
  rw [hH.inputBufs_eq, B.inputBufs_eq]
  simp [hl, Buff.input?, prepNextIovectorElmt]

theorem pending_prepNextIovectorElmt :
    pending L h (stubs ++
      [{ buff := some .fragbuf, buffLen := largeFragSize, bytes := [], dataLen := 0 }]) k
      = pending L h stubs k := by
  simp [pending, IovElt.shown]

/-- The passes of the loop that copy nothing before one that does. -/
def idlePasses (L : SendLayout) (rep : CallRep) (bytesToSegmentSize : ℕ) : ℕ :=
  if bytesToSegmentSize = 0 then 1
  else if rep.freeBytes = 0 ∧ L.maxIovecLen ≤ rep.numElt then 1
  else if rep.accBytcnt = L.maxSegSize then 2
  else 0

theorem idlePasses_le (L : SendLayout) (rep : CallRep) (n : ℕ) : idlePasses L rep n ≤ 2 := by
  unfold idlePasses
  split_ifs <;> omega

theorem Cursor.headRoom_header (hcur : Cursor L rep [] 0) :
    smallFragSize - L.protHeader.length ≤ headRoom L rep := by
  unfold headRoom
  split
  · rcases hcur with ⟨-, hoff, -⟩ | ⟨init, l, hstubs, -⟩
    · rw [hoff, Nat.add_zero]
    · simp at hstubs
  · exact Nat.le_add_left _ _

/-- Before a send there is no room but that in the next header. -/
theorem Buffered.headRoom_le (B : Buffered L rep h stubs k)
    (hfull : rep.accBytcnt = L.maxSegSize ∨ rep.freeBytes = 0 ∧ L.maxIovecLen ≤ rep.numElt) :
    headRoom L rep ≤ smallFragSize - L.protHeader.length := by
  unfold headRoom
  split
  · next hhead =>
    rcases B.cursor hhead.2 with ⟨-, hoff, -⟩ | ⟨init, l, hstubs, -⟩
    · rw [hoff]
      omega
    · have hone := hhead.1
      rw [B.elt, hstubs] at hone
      simp at hone
  · rcases hfull with hacc | ⟨hfree, hnum⟩
    · rw [hacc, Nat.sub_self, Nat.zero_min, Nat.zero_add]
    · rw [hfree, Nat.sub_eq_zero_of_le hnum]
      simp

/-- A copy can go on: there is room for the next bytes, or one idle pass less to make. -/
structure RoomMade (L : SendLayout) (rep rep' : CallRep) (n : ℕ) (data : List UInt8)
    (bufs : List ℕ) : Prop where
  positioned : Positioned L rep' data bufs
  headRoom_le : headRoom L rep ≤ headRoom L rep'
  progress : rep'.accBytcnt < L.maxSegSize ∧ rep'.freeBytes ≠ 0 ∨
    idlePasses L rep' (L.maxSegSize - rep'.accBytcnt) < idlePasses L rep n

/-- A send leaves the header, whose buffer may be full from the start. -/
theorem flush_roomMade (hsend : ∀ sent frag, send sent frag = true) {n : ℕ}
    (hS : Sending L rep data bufs)
    (hfull : n = 0 ∧ rep.accBytcnt = L.maxSegSize ∨ rep.freeBytes = 0 ∧ L.maxIovecLen ≤ rep.numElt) :
    ∃ rep', flush L send rep = (rep', true) ∧ RoomMade L rep rep' n data bufs := by
  have hslots := L.tlrSlots_le
  have hthree := L.three_le
  have hhdr := L.sizeofHdr_lt
  obtain ⟨h, stubs, k, B, S, hdata, hperm⟩ := hS
  obtain ⟨rep', h', hrun, hB, hS, hcur, hsent, hbufs, hacc, hnum⟩ := flush_spec hsend B S
  have hone : idlePasses L rep n = 1 := by
    unfold idlePasses
    rcases hfull with ⟨hzero, -⟩ | hvec
    · rw [if_pos hzero]
    · rw [if_pos hvec, ite_self]
  refine ⟨rep', hrun, ⟨h', [], 0, hB, hcur, hS, ?_, hbufs ▸ hperm⟩, ?_, ?_⟩
  · rw [hsent, pending_nil, List.append_nil, hdata]
  · exact (B.headRoom_le (hfull.imp_left And.right)).trans hcur.headRoom_header
  · rw [hone, hacc]
    by_cases hfree : rep'.freeBytes = 0
    · right
      rw [idlePasses, if_neg (by omega), if_neg (by omega), if_neg (by omega)]
      exact Nat.one_pos
    · exact .inl ⟨hhdr, hfree⟩

theorem prepNextIovectorElmt_roomMade {n : ℕ} (hS : Sending L rep data bufs) (hn : n ≠ 0)
    (hfree : rep.freeBytes = 0) (hnum : rep.numElt < L.maxIovecLen) :
    RoomMade L rep (prepNextIovectorElmt rep) n data bufs := by
  obtain ⟨h, stubs, k, B, S, hdata, hperm⟩ := hS
  obtain ⟨hB, hcur, hbufs⟩ := prepNextIovectorElmt_spec B hnum
  have hnext : (prepNextIovectorElmt rep).freeBytes.toNat = largeFragSize := rfl
  have hacc : (prepNextIovectorElmt rep).accBytcnt = rep.accBytcnt := rfl
  refine ⟨⟨h, _, k, hB, hcur, ⟨S.fragOk, S.first, S.flags⟩, ?_, hbufs ▸ hperm⟩, ?_, ?_⟩
  · rw [pending_prepNextIovectorElmt, ← hdata]
    rfl
  · have hlen : (prepNextIovectorElmt rep).elt.length ≠ 1 := by
      rw [hB.elt]
      simp
    have hcnt : (prepNextIovectorElmt rep).numElt = rep.numElt + 1 := rfl
    have hsplit : (L.maxIovecLen - rep.numElt) * largeFragSize
        = largeFragSize + (L.maxIovecLen - (rep.numElt + 1)) * largeFragSize := by
      rw [show L.maxIovecLen - rep.numElt = 1 + (L.maxIovecLen - (rep.numElt + 1)) by omega,
        Nat.add_mul, Nat.one_mul]
    rw [headRoom, headRoom, if_neg (fun hand => hand.2 hfree), if_neg (fun hand => hlen hand.1),
      hnext, hfree, hacc, hcnt, hsplit]
    simp
  · have hidle : idlePasses L rep n = if rep.accBytcnt = L.maxSegSize then 2 else 0 := by
      rw [idlePasses, if_neg hn, if_neg (by omega)]
    by_cases hseg : rep.accBytcnt = L.maxSegSize
    · right
      rw [hidle, if_pos hseg, idlePasses, hacc, if_pos (by omega)]
      exact Nat.one_lt_two
    · refine .inl ⟨lt_of_le_of_ne B.accBytcnt_le hseg, ?_⟩
      intro hzero
      rw [hzero] at hnext
      cases hnext

theorem makeRoom_spec (hsend : ∀ sent frag, send sent frag = true) {n : ℕ}
    (hS : Sending L rep data bufs) (hn : n = 0 → rep.accBytcnt = L.maxSegSize) :
    ∃ rep', makeRoom L send rep n = (rep', true) ∧ RoomMade L rep rep' n data bufs := by
  unfold makeRoom
  split
  · next hzero => exact flush_roomMade hsend hS (.inl ⟨hzero, hn hzero⟩)
  · next hne =>
    split
    · next hfree =>
      split
      · next hnum => exact flush_roomMade hsend hS (.inr ⟨hfree, hnum⟩)
      · next hnum =>
        exact ⟨_, rfl, prepNextIovectorElmt_roomMade hS hne hfree (Nat.lt_of_not_le hnum)⟩
    · next hfree =>
      obtain ⟨h, stubs, k, B, S, hdata, hperm⟩ := hS
      refine ⟨rep, rfl, ⟨h, stubs, k, B, B.cursor hfree, S, hdata, hperm⟩, le_rfl, ?_⟩
      have hidle : idlePasses L rep n = if rep.accBytcnt = L.maxSegSize then 2 else 0 := by
        rw [idlePasses, if_neg hne, if_neg (fun hand => hfree hand.1)]
      by_cases hseg : rep.accBytcnt = L.maxSegSize
      · right
        rw [hidle, if_pos hseg, idlePasses, if_pos (by omega)]
        exact Nat.one_lt_two
      · exact .inl ⟨lt_of_le_of_ne B.accBytcnt_le hseg, hfree⟩

/-- The bytes of an element after a copy to offset `off`. -/
theorem take_copy (bytes src : List UInt8) {off : ℕ} (hoff : off ≤ bytes.length) :
    (bytes.take off ++ src ++ bytes.drop (off + src.length)).take (off + src.length)
      = bytes.take off ++ src := by
  refine List.take_left' ?_
  rw [List.length_append, List.length_take, Nat.min_eq_left hoff]

/-- `free_bytes` of the header counts the trailer, so it is right as long as it has not
passed zero. -/
theorem toNat_headerFree {n : ℕ} (hn : n ≤ smallFragSize) :
    (BitVec.ofNat 32 smallFragSize - BitVec.ofNat 32 n).toNat = smallFragSize - n := by
  have hsmall : smallFragSize < 2 ^ 32 := by decide
  rw [BitVec.ofNat_sub_ofNat_of_le _ _ (hn.trans_lt hsmall) hn, BitVec.toNat_ofNat,
    Nat.mod_eq_of_lt (by omega)]

theorem toNat_freeBytes_memcpyFree (rep : CallRep) (src : List UInt8) (hsize : src.length ≤ rep.freeBytes.toNat) :
    (memcpyFree rep src).freeBytes.toNat = rep.freeBytes.toNat - src.length := by
  have hsub : (BitVec.ofNat 32 src.length).toNat = src.length :=
    (BitVec.toNat_ofNat _ _).trans (Nat.mod_eq_of_lt (hsize.trans_lt rep.freeBytes.isLt))
  rw [memcpyFree]
  dsimp only
  rw [BitVec.toNat_sub_of_le (by rw [BitVec.le_def, hsub]; exact hsize), hsub]

/-- Bytes copied behind the header. -/
theorem memcpyFree_header (B : Buffered L rep h [] k) (S : SentOk L rep)
    (hoff : rep.freeOff = L.protHeader.length + k)
    (hfree : rep.freeBytes = BitVec.ofNat 32 smallFragSize - BitVec.ofNat 32 (L.sizeofHdr + k))
    (hsize : src.length ≤ rep.freeBytes.toNat) (hseg : src.length ≤ L.maxSegSize - rep.accBytcnt)
    (hfits : memcpyFits rep src.length) :
    Positioned L (memcpyFree rep src) (sentStub L rep ++ pending L h [] k ++ src) (inputBufs rep) := by
  have hacc := B.accBytcnt
  rw [List.map_nil, List.sum_nil, Nat.add_zero] at hacc
  have hroom : L.protHeader.length + k + src.length ≤ smallFragSize := by
    rw [memcpyFits, B.elt, List.getLast?_singleton, Option.any_some, decide_eq_true_iff, hoff,
      B.buffLen] at hfits
    exact hfits
  set h' : IovElt := { h with
    bytes := h.bytes.take rep.freeOff ++ src ++ h.bytes.drop (rep.freeOff + src.length)
    dataLen := h.dataLen + src.length } with hh'
  have hcopy := take_copy h.bytes src B.written
  have hfree' : (memcpyFree rep src).freeBytes
      = BitVec.ofNat 32 smallFragSize - BitVec.ofNat 32 (L.sizeofHdr + (k + src.length)) := by
    rw [memcpyFree, hfree, ← add_assoc, BitVec.ofNat_add _ src.length, ← sub_sub]
  have hoff' : (memcpyFree rep src).freeOff = L.protHeader.length + (k + src.length) := by
    rw [memcpyFree, hoff]
    dsimp only
    omega
  have helt : (memcpyFree rep src).elt = [h'] := by
    rw [memcpyFree, B.elt]
    rfl
  have hwritten : L.protHeader.length + (k + src.length) ≤ h'.bytes.length := by
    have hw := B.written
    rw [hh', hoff]
    dsimp only
    rw [List.length_append, List.length_append, List.length_take, List.length_drop]
    omega
  have hbytes : h'.bytes.take (L.protHeader.length + (k + src.length))
      = h.bytes.take (L.protHeader.length + k) ++ src := by
    rw [hh', hoff, ← add_assoc]
    exact hcopy
  have hheader : h'.bytes.take L.protHeader.length = L.protHeader := by
    have htake := congrArg (List.take L.protHeader.length) hbytes
    rw [List.take_take, Nat.min_eq_left (Nat.le_add_right _ _)] at htake
    rw [htake, List.take_append_of_le_length, List.take_take,
      Nat.min_eq_left (Nat.le_add_right _ _), B.header]
    rw [List.length_take]
    exact le_min (Nat.le_add_right _ _) ((Nat.le_add_right _ _).trans B.written)
  have hstub : headStub L h' (k + src.length) = headStub L h k ++ src := by
    have hdrop := congrArg (List.drop L.protHeader.length) hbytes
    rw [List.drop_take, Nat.add_sub_cancel_left] at hdrop
    rw [headStub, hdrop, headStub, List.drop_append_of_le_length, List.drop_take,
      Nat.add_sub_cancel_left]
    rw [List.length_take]
    exact le_min (Nat.le_add_right _ _) ((Nat.le_add_right _ _).trans B.written)
  have hcur : Cursor L (memcpyFree rep src) [] (k + src.length) := .header rfl hoff' hfree'
  refine ⟨h', [], k + src.length, ?_, hcur, ⟨S.fragOk, S.first, S.flags⟩, ?_, ?_⟩
  · exact {
      elt := helt
      buff := B.buff
      buffLen := B.buffLen
      header := hheader
      written := hwritten
      dataLen := by
        rw [hh']
        dsimp only
        rw [B.dataLen, add_assoc]
      stubsWritten := by simp
      numElt := B.numElt
      accBytcnt := by
        rw [memcpyFree, hacc]
        simp [add_assoc]
      accBytcnt_le := by
        have hle := B.accBytcnt_le
        rw [memcpyFree]
        dsimp only
        omega
      numElt_le := B.numElt_le
      cursor := fun _ => hcur
      inHeader := by omega
      small := by
        intro hsmall
        have hk := B.small hsmall
        rw [hfree, toNat_headerFree hk] at hsize
        omega }
  · rw [pending, hstub, pending]
    simp only [List.map_nil, List.flatten_nil, List.append_nil, List.append_assoc]
    rfl
  · rw [inputBufs, inputBufs, helt, B.elt, List.filterMap_cons_none B.buff,
      List.filterMap_cons_none (show h'.buff = none from B.buff)]
    exact List.Perm.refl _

/-- Bytes copied into a fragment buffer. -/
theorem memcpyFree_fragbuf {init : List IovElt} {l : IovElt} (B : Buffered L rep h (init ++ [l]) k)
    (S : SentOk L rep) (hlen : l.buffLen = largeFragSize) (hoff : rep.freeOff = l.dataLen)
    (hfree : l.dataLen + rep.freeBytes.toNat = largeFragSize)
    (hsize : src.length ≤ rep.freeBytes.toNat) (hseg : src.length ≤ L.maxSegSize - rep.accBytcnt) :
    Positioned L (memcpyFree rep src) (sentStub L rep ++ pending L h (init ++ [l]) k ++ src)
      (inputBufs rep) := by
  set l' : IovElt := { l with
    bytes := l.bytes.take rep.freeOff ++ src ++ l.bytes.drop (rep.freeOff + src.length)
    dataLen := l.dataLen + src.length } with hl'
  have hw : l.Written := B.stubsWritten l (by simp)
  have hcopy := take_copy l.bytes src hw
  have helt : (memcpyFree rep src).elt = h :: (init ++ [l']) := by
    have hidx : rep.elt.length - 1 = (h :: init).length := by
      rw [B.elt]
      simp
    rw [memcpyFree]
    dsimp only
    rw [hidx, B.elt, ← List.cons_append, modify_concat, List.cons_append]
  have hw' : l'.Written := by
    rw [IovElt.Written, hl', hoff]
    dsimp only
    rw [List.length_append, List.length_append, List.length_take, Nat.min_eq_left hw]
    omega
  have hshown : l'.shown = l.shown ++ src := by
    rw [hw'.shown_eq, hw.shown_eq, hl', hoff]
    exact hcopy
  have hfree' : l.dataLen + src.length + (memcpyFree rep src).freeBytes.toNat = largeFragSize := by
    rw [toNat_freeBytes_memcpyFree rep src hsize]
    omega
  have hcur : Cursor L (memcpyFree rep src) (init ++ [l']) k :=
    .fragbuf init l' rfl hlen (by rw [memcpyFree, hoff]) hfree'
  refine ⟨h, init ++ [l'], k, ?_, hcur, ⟨S.fragOk, S.first, S.flags⟩, ?_, ?_⟩
  · exact {
      elt := helt
      buff := B.buff
      buffLen := B.buffLen
      header := B.header
      written := B.written
      dataLen := B.dataLen
      stubsWritten := by
        intro e he
        rw [List.mem_append, List.mem_singleton] at he
        rcases he with he | rfl
        · exact B.stubsWritten e (List.mem_append_left _ he)
        · exact hw'
      numElt := by
        have hnum := B.numElt
        rw [List.length_append, List.length_singleton] at hnum ⊢
        exact hnum
      accBytcnt := by
        have hacc := B.accBytcnt
        rw [List.map_append, List.sum_append, List.map_singleton, List.sum_singleton] at hacc ⊢
        rw [memcpyFree, hacc, hl']
        dsimp only
        omega
      accBytcnt_le := by
        have hle := B.accBytcnt_le
        rw [memcpyFree]
        dsimp only
        omega
      numElt_le := B.numElt_le
      cursor := fun _ => hcur
      inHeader := B.inHeader
      small := B.small }
  · rw [pending, pending, List.map_append, List.map_append, List.flatten_append,
      List.flatten_append, List.map_singleton, List.map_singleton, List.flatten_singleton,
      List.flatten_singleton, hshown]
    simp only [List.append_assoc]
    rfl
  · have hbuffs : (h :: (init ++ [l'])).filterMap IovElt.buff
        = (h :: (init ++ [l])).filterMap IovElt.buff := by
      rw [← List.cons_append, ← List.cons_append, List.filterMap_append, List.filterMap_append]
      rfl
    rw [inputBufs, inputBufs, helt, B.elt, hbuffs]
    exact List.Perm.refl _

theorem memcpyFree_spec (hP : Positioned L rep data bufs) (hsize : src.length ≤ rep.freeBytes.toNat)
    (hseg : src.length ≤ L.maxSegSize - rep.accBytcnt) (hfits : memcpyFits rep src.length) :
    Positioned L (memcpyFree rep src) (data ++ src) bufs := by
  obtain ⟨h, stubs, k, B, hcur, S, rfl, hperm⟩ := hP
  have hmove : Positioned L (memcpyFree rep src) (sentStub L rep ++ pending L h stubs k ++ src)
      (inputBufs rep) := by
    rcases hcur with ⟨rfl, hoff, hfree⟩ | ⟨init, l, rfl, hlen, hoff, hfree⟩
    · exact memcpyFree_header B S hoff hfree hsize hseg hfits
    · exact memcpyFree_fragbuf B S hlen hoff hfree hsize hseg
  obtain ⟨h', stubs', k', B', hcur', S', hdata, hperm'⟩ := hmove
  exact ⟨h', stubs', k', B', hcur', S', hdata, hperm'.trans hperm⟩

/-- A header and trailer beyond the buffer of the header wrap its free bytes around. -/
theorem toNat_headerFree_wrap {n : ℕ} (hlt : smallFragSize < n) (hn : n < 2 ^ 32) :
    (BitVec.ofNat 32 smallFragSize - BitVec.ofNat 32 n).toNat = 2 ^ 32 - n + smallFragSize := by
  have hsmall : smallFragSize < 2 ^ 32 := by decide
  rw [BitVec.toNat_sub, BitVec.toNat_ofNat, BitVec.toNat_ofNat, Nat.mod_eq_of_lt hn,
    Nat.mod_eq_of_lt hsmall, Nat.mod_eq_of_lt (by omega)]

/-- When the free bytes of the header are counted wrong, the whole buffer is copied at once. -/
theorem xferSize_header (B : Buffered L rep h [] k)
    (hfree : rep.freeBytes = BitVec.ofNat 32 smallFragSize - BitVec.ofNat 32 (L.sizeofHdr + k))
    (hhdr : smallFragSize < L.sizeofHdr) (hseg : smallFragSize < L.maxSegSize - L.tlrSize) {n : ℕ}
    (hn : n ≤ smallFragSize - (L.protHeader.length + k)) :
    rep.freeBytes ≠ 0 ∧ xferSize L rep n = n := by
  have hacc := B.accBytcnt
  have hle := B.accBytcnt_le
  have hsum : L.sizeofHdr = L.protHeader.length + L.tlrSize := rfl
  rw [List.map_nil, List.sum_nil, Nat.add_zero] at hacc
  have hbuf : L.sizeofHdr + k < 2 ^ 32 := by
    have hmax := L.maxSegSize_lt
    omega
  have hwrap := toNat_headerFree_wrap (Nat.lt_add_right k hhdr) hbuf
  rw [← hfree] at hwrap
  refine ⟨?_, ?_⟩
  · intro hzero
    rw [hzero] at hwrap
    exact absurd hwrap.symm (Nat.add_pos_right _ (by decide)).ne'
  · have hbytes : n ≤ rep.freeBytes.toNat := by
      rw [hwrap]
      exact (hn.trans (Nat.sub_le _ _)).trans (Nat.le_add_left _ _)
    have hroom : n ≤ L.maxSegSize - rep.accBytcnt := by
      rw [hacc]
      omega
    exact Nat.min_eq_right (Nat.le_min.mpr ⟨hbytes, hroom⟩)

/-- A copy takes from the room as many bytes as from the bytes that are left. -/
theorem room_sub {avail free more slack n size : ℕ} (hfree : size ≤ free)
    (hroom : n ≤ min avail (free + more) + slack) :
    n - size ≤ min (avail - size) (free - size + more) + slack := by
  omega

/-- While the condition holds, the next copy stays within its buffer and the condition
holds for the bytes that are left. -/
theorem CopyFits.step (hP : Positioned L rep data bufs) (hfits : CopyFits L rep src.length) :
    memcpyFits rep (xferSize L rep src.length) ∧
      CopyFits L (memcpyFree rep (src.take (xferSize L rep src.length)))
        (src.drop (xferSize L rep src.length)).length := by
  set size := xferSize L rep src.length with hsize
  have hle : size ≤ rep.freeBytes.toNat ∧ size ≤ L.maxSegSize - rep.accBytcnt ∧
      size ≤ src.length := by
    rw [hsize, xferSize]
    exact ⟨by omega, by omega, by omega⟩
  have htake : (src.take size).length = size := List.length_take_of_le hle.2.2
  have hsum : L.sizeofHdr = L.protHeader.length + L.tlrSize := rfl
  obtain ⟨h, stubs, k, B, hcur, -⟩ := hP
  have hacc := B.accBytcnt
  have haccle := B.accBytcnt_le
  rcases hcur with ⟨rfl, hoff, hfree⟩ | ⟨init, l, rfl, hlen, hoff, hfree⟩
  · rw [List.map_nil, List.sum_nil, Nat.add_zero] at hacc
    have hhead := B.inHeader
    have hbuf : memcpyFits rep size ↔ L.protHeader.length + k + size ≤ smallFragSize := by
      rw [memcpyFits, B.elt, List.getLast?_singleton, Option.any_some, decide_eq_true_iff, hoff,
        B.buffLen]
    rw [hbuf]
    by_cases hhdr : L.sizeofHdr ≤ smallFragSize
    · have hk := B.small hhdr
      rw [hfree, toNat_headerFree hk] at hle
      exact ⟨by omega, .inl hhdr⟩
    by_cases hseg : L.maxSegSize - L.tlrSize ≤ smallFragSize
    · exact ⟨by omega, .inr (.inl hseg)⟩
    -- the free bytes are counted wrong, and all that is left is copied at once
    have hroom := (hfits.resolve_left hhdr).resolve_left hseg
    have hone : rep.elt.length = 1 := by
      rw [B.elt]
      rfl
    have hne := (xferSize_header B hfree (not_le.mp hhdr) (not_le.mp hseg) (Nat.zero_le _)).1
    rw [headRoom, if_pos ⟨hone, hne⟩, hoff] at hroom
    have hall := (xferSize_header B hfree (not_le.mp hhdr) (not_le.mp hseg) hroom).2
    rw [← hsize] at hall
    refine ⟨by omega, .inr (.inr ?_)⟩
    rw [List.length_drop, hall, Nat.sub_self]
    exact Nat.zero_le _
  · have hne : rep.elt.length ≠ 1 := by
      rw [B.elt]
      simp
    have hlast : rep.elt.getLast? = some l := by
      rw [B.elt, ← List.cons_append, List.getLast?_concat]
    refine ⟨?_, ?_⟩
    · rw [memcpyFits, hlast, Option.any_some, decide_eq_true_iff, hoff, hlen]
      omega
    · rcases hfits with hhdr | hseg | hroom
      · exact .inl hhdr
      · exact .inr (.inl hseg)
      · right
        right
        have hne' : (memcpyFree rep (src.take size)).elt.length ≠ 1 := by
          rw [memcpyFree]
          dsimp only
          rwa [List.length_modify]
        have hfree' := toNat_freeBytes_memcpyFree rep (src.take size) (by rw [htake]; exact hle.1)
        have hacc' : (memcpyFree rep (src.take size)).accBytcnt = rep.accBytcnt + size := by
          rw [memcpyFree, htake]
        have hnum' : (memcpyFree rep (src.take size)).numElt = rep.numElt := rfl
        rw [headRoom, if_neg (fun hand => hne hand.1)] at hroom
        rw [headRoom, if_neg (fun hand => hne' hand.1), hfree', htake, hacc', hnum',
          List.length_drop, ← Nat.sub_sub]
        exact room_sub hle.1 hroom

theorem memcpyFree_nil (rep : CallRep) : memcpyFree rep [] = rep := by
  have hmod : rep.elt.modify (rep.elt.length - 1) (fun e => { e with
      bytes := e.bytes.take rep.freeOff ++ [] ++ e.bytes.drop (rep.freeOff + 0)
      dataLen := e.dataLen + 0 }) = rep.elt := by
    have hid : (fun e : IovElt => { e with
        bytes := e.bytes.take rep.freeOff ++ [] ++ e.bytes.drop (rep.freeOff + 0)
        dataLen := e.dataLen + 0 }) = id := by
      funext e
      rw [List.append_nil, Nat.add_zero, List.take_append_drop]
      rfl
    rw [hid, List.modify_id]
  have hfree : rep.freeBytes - BitVec.ofNat 32 0 = rep.freeBytes := by simp
  rw [memcpyFree, List.length_nil, hmod, hfree]
  rfl

/-- The loop copies everything.  The induction is on the number of passes: each one copies
a byte at least, or is an idle one. -/
theorem copyLoop_spec (hsend : ∀ sent frag, send sent frag = true) (fuel : ℕ) {n : ℕ}
    (hS : Sending L rep data bufs) (hn : n = 0 → rep.accBytcnt = L.maxSegSize)
    (hfits : CopyFits L rep src.length) (hfuel : 3 * src.length + idlePasses L rep n ≤ fuel) :
    ∃ rep', copyLoop L send fuel rep n src = some (rep', true) ∧
      Sending L rep' (data ++ src) bufs := by
  induction fuel generalizing rep n src data with
  | zero =>
    have hnil : src = [] := List.length_eq_zero_iff.mp (by omega)
    refine ⟨rep, rfl, ?_⟩
    rw [hnil, List.append_nil]
    exact hS
  | succ fuel ih =>
    unfold copyLoop
    by_cases hnil : src = []
    · refine ⟨rep, if_pos hnil, ?_⟩
      rw [hnil, List.append_nil]
      exact hS
    rw [if_neg hnil]
    obtain ⟨rep₁, hroom, R⟩ := makeRoom_spec hsend hS hn
    have hfits₁ : CopyFits L rep₁ src.length :=
      hfits.imp_right (Or.imp_right fun hle => hle.trans R.headRoom_le)
    obtain ⟨hmem, hfits₂⟩ := hfits₁.step R.positioned
    set size := xferSize L rep₁ src.length with hsize
    have hle : size ≤ rep₁.freeBytes.toNat ∧ size ≤ L.maxSegSize - rep₁.accBytcnt ∧
        size ≤ src.length := by
      rw [hsize, xferSize]
      omega
    have htake : (src.take size).length = size := List.length_take_of_le hle.2.2
    have hpos : 0 < src.length := List.length_pos_iff.mpr hnil
    have hidle := idlePasses_le L (memcpyFree rep₁ (src.take size)) (L.maxSegSize - rep₁.accBytcnt)
    have hS₂ : Sending L (memcpyFree rep₁ (src.take size)) (data ++ src.take size) bufs := by
      refine (memcpyFree_spec R.positioned ?_ ?_ ?_).sending
      · rw [htake]
        exact hle.1
      · rw [htake]
        exact hle.2.1
      · rw [htake]
        exact hmem
    have hn₂ : L.maxSegSize - rep₁.accBytcnt = 0 →
        (memcpyFree rep₁ (src.take size)).accBytcnt = L.maxSegSize := by
      intro hzero
      have hnone : src.take size = [] := List.length_eq_zero_iff.mp (by omega)
      obtain ⟨h, stubs, k, B, -⟩ := R.positioned
      have := B.accBytcnt_le
      rw [hnone, memcpyFree_nil]
      omega
    have hfuel₂ : 3 * (src.drop size).length +
        idlePasses L (memcpyFree rep₁ (src.take size)) (L.maxSegSize - rep₁.accBytcnt) ≤ fuel := by
      rw [List.length_drop]
      rcases R.progress with ⟨hseg, hfree⟩ | hless
      · have hfree' : rep₁.freeBytes.toNat ≠ 0 := fun hzero =>
          hfree (BitVec.eq_of_toNat_eq hzero)
        have hsome : 0 < size := by
          rw [hsize, xferSize]
          omega
        omega
      · rcases Nat.eq_zero_or_pos size with hzero | hsome
        · rw [hzero, List.take_zero, memcpyFree_nil] at hidle ⊢
          omega
        · omega
    obtain ⟨rep₂, hloop, hS₃⟩ := ih hS₂ hn₂ hfits₂ hfuel₂
    refine ⟨rep₂, ?_, ?_⟩
    · rw [hroom]
      dsimp only
      rw [← hsize, if_pos hmem]
      exact hloop
    · rw [List.append_assoc, List.take_append_drop] at hS₃
      exact hS₃

theorem copyBuffer_spec (hsend : ∀ sent frag, send sent frag = true) (hS : Sending L rep data bufs)
    (hfits : CopyFits L rep src.length) :
    ∃ rep', copyBuffer L send rep src = some (rep', true) ∧ Sending L rep' (data ++ src) bufs := by
  have hidle := idlePasses_le L rep 1
  refine copyLoop_spec hsend _ hS (fun hone => absurd hone one_ne_zero) hfits ?_
  rw [copyFuel]
  omega

/-! ### Chaining a buffer -/

/-- The element of a chained buffer, with the data that is left. -/
def curElt (buff : Option ℕ) (data : List UInt8) : IovElt :=
  { buff := buff.map Buff.input, buffLen := data.length, bytes := data, dataLen := data.length }

/-- A call rep with a chained buffer added, before its bytes are counted. -/
def withCur (rep : CallRep) (buff : Option ℕ) (data : List UInt8) : CallRep :=
  { rep with
    elt := rep.elt ++ [curElt buff data]
    numElt := rep.numElt + 1
    freeBytes := 0 }

/-- The buffer that is forgotten when `n` bytes are chained: the buffer before them, if there
is a trailer and the segment size is reached within them. -/
def forgotten (L : SendLayout) (rep : CallRep) (n : ℕ) : Option ℕ :=
  if L.protTlr.isSome ∧ rep.numElt < L.maxIovecLen ∧ L.maxSegSize - rep.accBytcnt < n then
    ((rep.elt.drop 1).getLast?.bind IovElt.buff).bind Buff.input?
  else none

/-- The vector with the chained buffer cut at the segment size. -/
def fillSegment (L : SendLayout) (rep : CallRep) (buff : Option ℕ) (data : List UInt8) : CallRep :=
  { withCur rep buff data with
    elt := rep.elt ++ [{ curElt buff data with dataLen := L.maxSegSize - rep.accBytcnt }]
    accBytcnt := rep.accBytcnt + (L.maxSegSize - rep.accBytcnt) }

variable {buff : Option ℕ}

theorem fillSegment_holds (buff : Option ℕ) (B : Buffered L rep h stubs k)
    (hlt : L.maxSegSize - rep.accBytcnt < data.length) :
    Holds L (fillSegment L rep buff data) h
      (stubs ++ [{ curElt buff data with dataLen := L.maxSegSize - rep.accBytcnt }]) k where
  elt := by rw [fillSegment, B.elt, List.cons_append]
  buff := B.buff
  buffLen := B.buffLen
  header := B.header
  written := B.written
  dataLen := B.dataLen
  stubsWritten := by
    intro e he
    rw [List.mem_append, List.mem_singleton] at he
    rcases he with he | rfl
    · exact B.stubsWritten e he
    · exact hlt.le
  numElt := by
    have hnum := B.numElt
    rw [fillSegment, withCur, List.length_append, List.length_singleton]
    dsimp only
    omega
  accBytcnt := by
    rw [List.map_append, List.sum_append, List.map_singleton, List.sum_singleton, fillSegment]
    dsimp only
    rw [B.accBytcnt]
    omega
  accBytcnt_le := by
    have hle := B.accBytcnt_le
    rw [fillSegment]
    dsimp only
    omega

/-- Leaving out the last buffer for the slot of the trailer forgets none of the stub's. -/
theorem inputs_of_forgotten (H : Holds L rep h stubs k) {n : ℕ} (hnum : rep.numElt < L.maxIovecLen)
    (hlt : L.maxSegSize - rep.accBytcnt < n) (hforgotten : forgotten L rep n = none) :
    (((stubs.map IovElt.buff).take (stubs.length - L.tlrSlots)).filterMap id).filterMap Buff.input?
      = (stubs.filterMap IovElt.buff).filterMap Buff.input? := by
  by_cases hsec : L.protTlr.isSome
  · have hslots : L.tlrSlots = 1 := by rw [SendLayout.tlrSlots, if_pos hsec]
    rw [forgotten, if_pos ⟨hsec, hnum, hlt⟩, H.elt, List.drop_one, List.tail_cons] at hforgotten
    rw [hslots]
    rcases List.eq_nil_or_concat stubs with rfl | ⟨init, l, rfl⟩
    · rfl
    · rw [List.concat_eq_append] at hforgotten ⊢
      rw [List.getLast?_concat, Option.bind_some] at hforgotten
      have htake : ((init ++ [l]).map IovElt.buff).take ((init ++ [l]).length - 1)
          = init.map IovElt.buff := by
        rw [List.map_append]
        refine List.take_left' ?_
        rw [List.length_map, List.length_append, List.length_singleton, Nat.add_sub_cancel]
      rw [htake, ← filterMap_buff_eq, List.filterMap_append, List.filterMap_append]
      cases hl : l.buff with
      | none => simp [hl]
      | some b =>
        rw [hl, Option.bind_some] at hforgotten
        simp [hl, hforgotten]
  · have hslots : L.tlrSlots = 0 := by rw [SendLayout.tlrSlots, if_neg hsec]
    rw [hslots, Nat.sub_zero, List.take_of_length_le (List.length_map _).le, ← filterMap_buff_eq]

/-- What stays of a vector of `m` stub elements and the current one. -/
theorem keepCurrent_spec {elts : List IovElt} {m : ℕ} (helt : rep.elt = h :: elts)
    (hnum : rep.numElt = m + 2 + L.tlrSlots) :
    (keepCurrent L rep).elt.take 1 = [h] ∧ (keepCurrent L rep).numElt = 2 + L.tlrSlots ∧
      (keepCurrent L rep).freeBytes = rep.freeBytes ∧ (keepCurrent L rep).sent = rep.sent ∧
      (keepCurrent L rep).flags = rep.flags ∧
      (keepCurrent L rep).dealloced = rep.dealloced ++
        ((elts.map IovElt.buff).take (m - L.tlrSlots)).filterMap id := by
  have hsub : rep.numElt - L.tlrSlots = m + 2 := by omega
  unfold keepCurrent
  rw [hsub]
  dsimp only
  split
  · next hmany =>
    obtain ⟨hhead, hdealloc⟩ := deallocBufferedData_spec L
      { rep with numElt := m + 2 - 1 } helt
    refine ⟨hhead, rfl, rfl, rfl, rfl, ?_⟩
    rw [hdealloc]
    dsimp only
    rw [show m + 2 - 1 - L.tlrSlots - 1 = m - L.tlrSlots by omega]
  · next hfew =>
    have hzero : m = 0 := by omega
    refine ⟨by rw [helt]; rfl, by rw [hzero], rfl, rfl, rfl, ?_⟩
    rw [hzero, Nat.zero_sub, List.take_zero, List.filterMap_nil, List.append_nil]

/-- The header without stub bytes. -/
def onlyHeader (L : SendLayout) (rep : CallRep) (h : IovElt) : CallRep :=
  { rep with
    elt := [{ h with dataLen := L.sizeofHdr }]
    numElt := 1 + L.tlrSlots
    accBytcnt := L.sizeofHdr
    freeBytes := 0 }

theorem IsHeader.buffered_onlyHeader (hh : IsHeader L h) :
    Buffered L (onlyHeader L rep h) { h with dataLen := L.sizeofHdr } [] 0 :=
  hh.buffered rfl rfl rfl fun hfree => absurd rfl hfree

/-- After a fragment, the vector is the header and the current element. -/
theorem restart_eq {n : ℕ} (hhead : rep.elt.take 1 = [{ h with dataLen := n }])
    (hnum : rep.numElt = 2 + L.tlrSlots) (hfree : rep.freeBytes = 0) :
    restart L rep buff data = withCur (onlyHeader L rep h) buff data := by
  rw [restart, withCur, onlyHeader, hhead, hnum]
  dsimp only
  rw [List.map_singleton, curElt, ← hfree]
  congr 1
  omega

/-- One fragment of a chained buffer that reaches the segment size. -/
theorem addLoop_step (hsend : ∀ sent frag, send sent frag = true) (buff : Option ℕ) (fuel : ℕ)
    (hS : Sending L rep src bufs) (hnum : rep.numElt < L.maxIovecLen)
    (hlt : L.maxSegSize - rep.accBytcnt < data.length)
    (hforgotten : forgotten L rep data.length = none) :
    ∃ rep', Sending L rep' (src ++ data.take (L.maxSegSize - rep.accBytcnt)) bufs ∧
      rep'.numElt < L.maxIovecLen ∧ rep'.accBytcnt = L.sizeofHdr ∧ rep'.elt.drop 1 = [] ∧
      addLoop L send buff (fuel + 1) (withCur rep buff data) data
        = addLoop L send buff fuel
            (withCur rep' buff (data.drop (L.maxSegSize - rep.accBytcnt)))
            (data.drop (L.maxSegSize - rep.accBytcnt)) := by
  obtain ⟨h, stubs, k, B, S, hdata, hperm⟩ := hS
  have hslots := L.tlrSlots_le
  have hthree := L.three_le
  set cut := L.maxSegSize - rep.accBytcnt with hcut
  set cur : IovElt := { curElt buff data with dataLen := cut } with hcur
  have H : Holds L (fillSegment L rep buff data) h (stubs ++ [cur]) k := fillSegment_holds buff B hlt
  obtain ⟨n, stubs', hattach, hbuffs⟩ := attachTlr_cons (L := L) H.elt
  set rep₁ : CallRep := { fillSegment L rep buff data with
    elt := attachTlr L (fillSegment L rep buff data)
    flags := rep.flags &&& ~~~flagsFirstFrag
    sent := rep.sent ++ [nextFragment L (fillSegment L rep buff data)] } with hrep₁
  have hnum₁ : rep₁.numElt = stubs.length + 2 + L.tlrSlots := by
    have hcnt := B.numElt
    have hsucc : rep₁.numElt = rep.numElt + 1 := rfl
    omega
  obtain ⟨hhead, hnum₂, hfree, hsent, hflags, hdealloc⟩ := keepCurrent_spec (L := L) hattach hnum₁
  have hS₁ : SentOk L (fillSegment L rep buff data) := ⟨S.fragOk, S.first, S.flags⟩
  obtain ⟨hS₂, hstub⟩ := hS₁.snoc
    (nextFragment_spec H (show rep.numElt + 1 ≤ L.maxIovecLen from hnum))
    (onlyHeader L (keepCurrent L rep₁) h) hsent hflags
  refine ⟨onlyHeader L (keepCurrent L rep₁) h, ?_, ?_, rfl, rfl, ?_⟩
  · refine ⟨_, [], 0, B.isHeader.buffered_onlyHeader, hS₂, ?_, ?_⟩
    · have hshown : cur.shown = data.take cut := by
        have hw : cur.Written := hlt.le
        rw [hw.shown_eq]
        rfl
      rw [hstub, pending_nil, List.append_nil, ← hdata, pending, pending, List.map_append,
        List.flatten_append, List.map_singleton, List.flatten_singleton, hshown]
      simp only [List.append_assoc]
      rfl
    · have hheld : (onlyHeader L (keepCurrent L rep₁) h).dealloced = rep.dealloced ++
          ((stubs.map IovElt.buff).take (stubs.length - L.tlrSlots)).filterMap id := by
        have hle : stubs.length - L.tlrSlots ≤ (stubs.map IovElt.buff).length := by
          rw [List.length_map]
          omega
        rw [hbuffs, List.map_append, List.take_append_of_le_length hle] at hdealloc
        exact hdealloc
      have hbufs : inputBufs (onlyHeader L (keepCurrent L rep₁) h) = inputBufs rep := by
        rw [B.isHeader.buffered_onlyHeader.inputBufs_eq, B.inputBufs_eq, hheld, List.filterMap_nil,
          List.append_nil, List.filterMap_append, List.filterMap_append,
          inputs_of_forgotten B.toHolds hnum hlt hforgotten]
      rw [hbufs]
      exact hperm
  · have hone : (onlyHeader L (keepCurrent L rep₁) h).numElt = 1 + L.tlrSlots := rfl
    omega
  · have hfill : ({ withCur rep buff data with
        elt := (withCur rep buff data).elt.modify ((withCur rep buff data).elt.length - 1)
          fun e => { e with dataLen := cut }
        accBytcnt := rep.accBytcnt + cut } : CallRep) = fillSegment L rep buff data := by
      rw [fillSegment, withCur]
      dsimp only
      rw [List.length_append, List.length_singleton, Nat.add_sub_cancel, modify_concat]
    have hacc : (withCur rep buff data).accBytcnt = rep.accBytcnt := rfl
    rw [addLoop, hacc, ← hcut, if_neg (not_le.mpr hlt)]
    dsimp only
    rw [hfill, transmitBuffers_spec hsend]
    exact congrArg (fun next => addLoop L send buff fuel next (data.drop cut))
      (restart_eq hhead hnum₂ hfree)

/-- The loop cuts off fragments until the data fits.  After the first one the vector holds
the header and the chained buffer only, so nothing can be forgotten any more. -/
theorem addLoop_spec (hsend : ∀ sent frag, send sent frag = true) (buff : Option ℕ) (fuel : ℕ)
    (hS : Sending L rep src bufs) (hnum : rep.numElt < L.maxIovecLen)
    (hforgotten : forgotten L rep data.length = none)
    (hfuel : data.length + (if rep.accBytcnt = L.maxSegSize then 1 else 0) ≤ fuel) :
    ∃ rep' done left, addLoop L send buff fuel (withCur rep buff data) data
        = (withCur rep' buff left, true, left) ∧ data = done ++ left ∧
      Sending L rep' (src ++ done) bufs ∧ rep'.numElt < L.maxIovecLen ∧
      left.length ≤ L.maxSegSize - rep'.accBytcnt := by
  induction fuel generalizing rep src data with
  | zero =>
    refine ⟨rep, [], data, rfl, rfl, ?_, hnum, by omega⟩
    rw [List.append_nil]
    exact hS
  | succ fuel ih =>
    by_cases hle : data.length ≤ L.maxSegSize - rep.accBytcnt
    · refine ⟨rep, [], data, ?_, rfl, ?_, hnum, hle⟩
      · rw [addLoop]
        exact if_pos hle
      · rw [List.append_nil]
        exact hS
    · obtain ⟨rep₁, hS₁, hnum₁, hacc₁, hdrop, hrun⟩ := addLoop_step hsend buff fuel hS hnum (not_le.mp hle) hforgotten
      have hforgotten₁ : forgotten L rep₁ (data.drop (L.maxSegSize - rep.accBytcnt)).length = none := by
        rw [forgotten, hdrop]
        simp
      have hhdr := L.sizeofHdr_lt
      have haccle : rep.accBytcnt ≤ L.maxSegSize := by
        obtain ⟨h, stubs, k, B, -⟩ := hS
        exact B.accBytcnt_le
      obtain ⟨rep₂, done, left, hloop, hdata, hS₂, hnum₂, hleft⟩ := ih hS₁ hnum₁ hforgotten₁ (by
        rw [hacc₁, if_neg (by omega), List.length_drop]
        split at hfuel <;> omega)
      refine ⟨rep₂, data.take (L.maxSegSize - rep.accBytcnt) ++ done, left, ?_, ?_, ?_, hnum₂, hleft⟩
      · rw [hrun, hloop]
      · rw [List.append_assoc, ← hdata, List.take_append_drop]
      · rw [← List.append_assoc]
        exact hS₂

theorem filterMap_input? (buff : Option ℕ) :
    (buff.map Buff.input).toList.filterMap Buff.input? = buff.toList := by
  cases buff <;> rfl

/-- A buffer of the stub is deallocated at once. -/
theorem inputBufs_dealloced (rep rep' : CallRep)
    (helt : rep'.elt.filterMap IovElt.buff = rep.elt.filterMap IovElt.buff)
    (hdealloc : rep'.dealloced = rep.dealloced ++ (buff.map Buff.input).toList) :
    (inputBufs rep').Perm (inputBufs rep ++ buff.toList) := by
  rw [inputBufs, inputBufs, helt, hdealloc, List.filterMap_append, List.filterMap_append,
    List.filterMap_append, filterMap_input?, List.append_assoc, List.append_assoc]
  exact List.Perm.append_left _ List.perm_append_comm

/-- The buffer is counted, or deallocated if nothing is left of it. -/
theorem addElmt_spec (hsend : ∀ sent frag, send sent frag = true) {e : StubElt}
    (hS : Sending L rep src bufs) (hnum : rep.numElt < L.maxIovecLen)
    (hforgotten : forgotten L rep e.data.length = none) :
    ∃ rep', addElmt L send rep e = (rep', true) ∧
      Sending L rep' (src ++ e.data) (bufs ++ e.buff.toList) := by
  obtain ⟨rep₁, done, left, hloop, hdata, hS₁, hnum₁, hleft⟩ := addLoop_spec hsend e.buff
    (e.data.length + 1) hS hnum hforgotten (by split <;> omega)
  have hadd : addElmt L send rep e = if left = [] then
      ({ withCur rep₁ e.buff left with
          elt := (withCur rep₁ e.buff left).elt.dropLast
          numElt := (withCur rep₁ e.buff left).numElt - 1
          dealloced := rep₁.dealloced ++ (e.buff.map Buff.input).toList }, true)
      else ({ withCur rep₁ e.buff left with
          accBytcnt := rep₁.accBytcnt + left.length
          freeBytes := 0 }, true) := by
    rw [withCur, curElt] at hloop
    rw [addElmt]
    dsimp only
    rw [hloop]
    rfl
  obtain ⟨h, stubs, k, B, S, hsent, hperm⟩ := hS₁
  rw [hadd]
  split
  · next hnil =>
    have hsame : (withCur rep₁ e.buff left).elt.dropLast = rep₁.elt := by
      rw [withCur]
      exact List.dropLast_concat
    refine ⟨_, rfl, h, stubs, k, ?_, ⟨S.fragOk, S.first, S.flags⟩, ?_, ?_⟩
    · exact {
        elt := hsame.trans B.elt
        buff := B.buff
        buffLen := B.buffLen
        header := B.header
        written := B.written
        dataLen := B.dataLen
        stubsWritten := B.stubsWritten
        numElt := B.numElt
        accBytcnt := B.accBytcnt
        accBytcnt_le := B.accBytcnt_le
        numElt_le := B.numElt_le
        cursor := fun hfree => absurd rfl hfree
        inHeader := B.inHeader
        small := B.small }
    · rw [hdata, hnil, List.append_nil, ← hsent]
      rfl
    · exact (inputBufs_dealloced rep₁ _ (congrArg _ hsame) rfl).trans (hperm.append_right _)
  · have hlen : (curElt e.buff left).dataLen = left.length := rfl
    refine ⟨_, rfl, h, stubs ++ [curElt e.buff left], k, ?_, ⟨S.fragOk, S.first, S.flags⟩, ?_, ?_⟩
    · exact {
        elt := by rw [withCur, B.elt, List.cons_append]
        buff := B.buff
        buffLen := B.buffLen
        header := B.header
        written := B.written
        dataLen := B.dataLen
        stubsWritten := by
          intro e' he
          rw [List.mem_append, List.mem_singleton] at he
          rcases he with he | rfl
          · exact B.stubsWritten e' he
          · exact le_refl left.length
        numElt := by
          have hcnt := B.numElt
          rw [withCur, List.length_append, List.length_singleton]
          dsimp only
          omega
        accBytcnt := by
          rw [List.map_append, List.sum_append, List.map_singleton, List.sum_singleton, hlen]
          dsimp only
          rw [B.accBytcnt]
          omega
        accBytcnt_le := by
          have haccle := B.accBytcnt_le
          dsimp only
          omega
        numElt_le := hnum₁
        cursor := fun hfree => absurd rfl hfree
        inHeader := B.inHeader
        small := B.small }
    · have hw : (curElt e.buff left).Written := le_refl left.length
      have hshown : (curElt e.buff left).shown = left := by
        rw [hw.shown_eq, curElt]
        exact List.take_length
      rw [hdata, ← List.append_assoc, ← hsent, pending, pending, List.map_append,
        List.flatten_append, List.map_singleton, List.flatten_singleton, hshown]
      simp only [List.append_assoc]
      rfl
    · have hcur : [curElt e.buff left].filterMap IovElt.buff = (e.buff.map Buff.input).toList := by
        cases e.buff <;> rfl
      have hall : (rep₁.elt ++ [curElt e.buff left]).filterMap IovElt.buff
          = rep₁.elt.filterMap IovElt.buff ++ (e.buff.map Buff.input).toList := by
        rw [List.filterMap_append, hcur]
      rw [inputBufs, withCur]
      dsimp only
      rw [hall, ← List.append_assoc, List.filterMap_append, filterMap_input?]
      exact hperm.append_right _

theorem addNewIovectorElmt_spec (hsend : ∀ sent frag, send sent frag = true) {e : StubElt}
    (hS : Sending L rep src bufs) (hforgotten : forgotten L rep e.data.length = none) :
    ∃ rep', addNewIovectorElmt L send rep e = (rep', true) ∧
      Sending L rep' (src ++ e.data) (bufs ++ e.buff.toList) := by
  unfold addNewIovectorElmt
  split
  · obtain ⟨h, stubs, k, B, S, hdata, hperm⟩ := hS
    obtain ⟨rep₁, h₁, hrun, hB, hS₁, -, hsent, hbufs, hacc, hnum⟩ := flush_spec hsend B S
    have hslots := L.tlrSlots_le
    have hthree := L.three_le
    have hS₂ : Sending L rep₁ src bufs := by
      refine ⟨h₁, [], 0, hB, hS₁, ?_, hbufs ▸ hperm⟩
      rw [hsent, pending_nil, List.append_nil, hdata]
    rw [hrun]
    refine addElmt_spec hsend hS₂ (by omega) ?_
    rw [forgotten, hB.elt]
    simp
  · next hnum => exact addElmt_spec hsend hS (not_le.mp hnum) hforgotten

/-! ### A call -/

/-- The condition on a step: a copy that fits, and a chained buffer that makes the call
forget no other. -/
def OpOk (L : SendLayout) (rep : CallRep) : XferOp → Prop
  | .copy e => CopyFits L rep e.data.length
  | .add e => forgotten L rep e.data.length = none

instance : DecidablePred (OpOk L rep)
  | .copy e => inferInstanceAs (Decidable (CopyFits L rep e.data.length))
  | .add e => inferInstanceAs (Decidable (forgotten L rep e.data.length = none))

/-- The bytes and the buffers that operations hand over. -/
def inputBytes (ops : List XferOp) : List UInt8 := (ops.map fun op => op.elt.data).flatten

def inputs (ops : List XferOp) : List ℕ := ops.filterMap fun op => op.elt.buff

/-- The call delivers its input: it ends, its fragments carry the bytes in order, each as it
must be, and every buffer is deallocated once. -/
structure Delivered (L : SendLayout) (send : Send) (ops : List XferOp) (rep : CallRep) : Prop where
  finished : (exec (xferStep L send) (CallRep.start L) ops).bind (finish L send) = some rep
  stub : sentStub L rep = inputBytes ops
  fragOk : ∀ frag ∈ rep.sent, FragOk L frag (frag.stub L)
  first : ∀ i frag, rep.sent[i]? = some frag → (frag.flags.getLsbD 0 = true ↔ i = 0)
  dealloced : (rep.dealloced.filterMap Buff.input?).Perm (inputs ops)
  numElt_le : ∀ pre, pre <+: ops → ∀ rep, exec (xferStep L send) (CallRep.start L) pre = some rep →
    rep.elt.length + L.tlrSlots ≤ L.maxIovecLen

theorem sending_start (L : SendLayout) : Sending L (CallRep.start L) [] [] := by
  have hh : IsHeader L { buffLen := smallFragSize, bytes := L.protHeader, dataLen := 0 } :=
    ⟨rfl, rfl, List.take_length, le_refl _⟩
  obtain ⟨hB, -⟩ := hh.buffered_freeAll {
    elt := [{ buffLen := smallFragSize, bytes := L.protHeader, dataLen := 0 }]
    numElt := 0, accBytcnt := 0, freeBytes := 0, freeOff := 0 } rfl
  refine ⟨_, [], 0, hB, ⟨?_, ?_, ?_⟩, ?_, List.Perm.refl _⟩
  · intro frag hmem
    cases hmem
  · intro i frag hi
    cases hi
  · exact iff_of_true (show flagsFirstFrag.getLsbD 0 = true by decide) rfl
  · rw [pending_nil]
    rfl

/-- A step that meets the condition can be made. -/
theorem xferStep_spec (hsend : ∀ sent frag, send sent frag = true) {op : XferOp}
    (hS : Sending L rep data bufs) (hok : OpOk L rep op) :
    ∃ rep', xferStep L send rep op = some rep' ∧
      Sending L rep' (data ++ op.elt.data) (bufs ++ op.elt.buff.toList) := by
  cases op with
  | copy e =>
    obtain ⟨rep', hrun, h, stubs, k, B, S, hdata, hperm⟩ := copyBuffer_spec hsend hS hok
    refine ⟨{ rep' with dealloced := rep'.dealloced ++ (e.buff.map Buff.input).toList }, ?_, h,
      stubs, k, ?_, ⟨S.fragOk, S.first, S.flags⟩, hdata, ?_⟩
    · rw [xferStep, hrun]
      rfl
    · exact {
        elt := B.elt
        buff := B.buff
        buffLen := B.buffLen
        header := B.header
        written := B.written
        dataLen := B.dataLen
        stubsWritten := B.stubsWritten
        numElt := B.numElt
        accBytcnt := B.accBytcnt
        accBytcnt_le := B.accBytcnt_le
        numElt_le := B.numElt_le
        cursor := by
          intro hfree
          rcases B.cursor hfree with ⟨hstubs, hoff, hbytes⟩ | ⟨init, l, hstubs, hlen, hoff, hbytes⟩
          · exact .header hstubs hoff hbytes
          · exact .fragbuf init l hstubs hlen hoff hbytes
        inHeader := B.inHeader
        small := B.small }
    · have hdealloc := inputBufs_dealloced rep'
        { rep' with dealloced := rep'.dealloced ++ (e.buff.map Buff.input).toList } rfl rfl
      exact hdealloc.trans (hperm.append_right _)
  | add e =>
    obtain ⟨rep', hrun, hS'⟩ := addNewIovectorElmt_spec hsend hS hok
    refine ⟨rep', ?_, hS'⟩
    rw [xferStep, hrun]
    rfl

/-- A run all of whose steps meet the condition goes to its end. -/
theorem exec_sending (hsend : ∀ sent frag, send sent frag = true) {ops : List XferOp}
    (hS : Sending L rep data bufs) (hops : Along (xferStep L send) (OpOk L) rep ops) :
    ∃ rep', exec (xferStep L send) rep ops = some rep' ∧
      Sending L rep' (data ++ inputBytes ops) (bufs ++ inputs ops) := by
  induction ops generalizing rep data bufs with
  | nil =>
    refine ⟨rep, rfl, ?_⟩
    rw [inputBytes, inputs, List.map_nil, List.flatten_nil, List.filterMap_nil, List.append_nil,
      List.append_nil]
    exact hS
  | cons op ops ih =>
    obtain ⟨rep₁, hstep, hS₁⟩ := xferStep_spec hsend hS hops.1
    obtain ⟨rep₂, hrun, hS₂⟩ := ih hS₁ (hops.2 rep₁ hstep)
    refine ⟨rep₂, exec_cons_eq_some.mpr ⟨rep₁, hstep, hrun⟩, ?_⟩
    have hbufs : inputs (op :: ops) = op.elt.buff.toList ++ inputs ops := by
      rw [inputs, List.filterMap_cons]
      cases op.elt.buff <;> rfl
    rw [inputBytes, List.map_cons, List.flatten_cons, hbufs, ← List.append_assoc,
      ← List.append_assoc]
    exact hS₂

theorem getLsbD_lastFrag (flags : BitVec 8) :
    (flags ||| flagsLastFrag).getLsbD 0 = flags.getLsbD 0 := by
  simp [flagsLastFrag]

/-- The last fragment takes what is buffered. -/
theorem finish_spec (hsend : ∀ sent frag, send sent frag = true) (hS : Sending L rep data bufs) :
    ∃ rep', finish L send rep = some rep' ∧ SentOk L rep' ∧ sentStub L rep' = data ∧
      (rep'.dealloced.filterMap Buff.input?).Perm bufs := by
  obtain ⟨h, stubs, k, B, S, hdata, hperm⟩ := hS
  set rep₀ : CallRep := { rep with flags := rep.flags ||| flagsLastFrag } with hrep₀
  have H : Holds L rep₀ h stubs k := ⟨B.elt, B.buff, B.buffLen, B.header, B.written, B.dataLen,
    B.stubsWritten, B.numElt, B.accBytcnt, B.accBytcnt_le⟩
  have S₀ : SentOk L rep₀ := by
    refine ⟨S.fragOk, S.first, ?_⟩
    rw [hrep₀, getLsbD_lastFrag]
    exact S.flags
  obtain ⟨n, stubs', hattach, hbuffs⟩ := attachTlr_cons (L := L) H.elt
  set rep₁ : CallRep := { rep₀ with
    elt := attachTlr L rep₀
    flags := rep₀.flags &&& ~~~flagsFirstFrag
    sent := rep₀.sent ++ [nextFragment L rep₀] } with hrep₁
  obtain ⟨S₁, hstub⟩ := S₀.snoc (nextFragment_spec H B.numElt_le)
    (deallocBufferedData L rep₁) rfl rfl
  refine ⟨deallocBufferedData L rep₁, ?_, S₁, ?_, ?_⟩
  · rw [finish, transmitBuffers_spec hsend]
    rfl
  · rw [hstub, ← hdata]
    rfl
  · have hall := (deallocBufferedData_spec L rep₁ hattach).2
    have hnum : rep₁.numElt - L.tlrSlots - 1 = stubs.length := by
      have hcnt : rep₁.numElt = stubs.length + 1 + L.tlrSlots := B.numElt
      omega
    rw [hnum, hbuffs, List.take_of_length_le (List.length_map _).le, ← filterMap_buff_eq] at hall
    rw [B.inputBufs_eq] at hperm
    rw [hall]
    exact hperm

/-- If every fragment can be sent and every step meets the condition, the call delivers its
input. -/
theorem delivered_of_along (L : SendLayout) (send : Send) (ops : List XferOp)
    (hsend : ∀ sent frag, send sent frag = true)
    (hops : Along (xferStep L send) (OpOk L) (CallRep.start L) ops) :
    ∃ rep, Delivered L send ops rep := by
  obtain ⟨rep, hrun, hS⟩ := exec_sending hsend (sending_start L) hops
  obtain ⟨rep', hfinish, S, hstub, hperm⟩ := finish_spec hsend hS
  refine ⟨rep', ?_, hstub, S.fragOk, S.first, hperm, ?_⟩
  · rw [hrun]
    exact hfinish
  · intro pre hpre repPre hexec
    obtain ⟨suf, rfl⟩ := hpre
    obtain ⟨rep₁, hrun₁, h, stubs, k, B, -⟩ :=
      exec_sending hsend (sending_start L) (along_append hops).1
    rw [hexec] at hrun₁
    obtain rfl := Option.some.inj hrun₁
    have hnum := B.numElt
    have hle := B.numElt_le
    rw [B.elt, List.length_cons]
    omega

/-- A header and a trailer of 24 bytes, and segments of 512 bytes. -/
def securedLayout : SendLayout where
  protHeader := List.replicate 24 5
  protTlr := some (List.replicate 24 10)
  maxSegSize := 512
  maxIovecLen := 20
  protHeader_le := by decide
  hdr_lt := by decide
  eight_dvd := by decide
  maxSegSize_lt := by decide
  three_le := by decide

/-- A copy, a buffer that is chained behind it, and one that is sent in two fragments after
the second copy. -/
def deliveredOps : List XferOp :=
  [.copy { buff := some 1, data := List.replicate 100 1 },
    .add { buff := some 2, data := List.replicate 300 2 },
    .copy { buff := some 3, data := List.replicate 100 3 },
    .add { buff := some 4, data := List.replicate 600 4 }]

theorem delivered_of_along_secured :
    (∀ sent frag, (fun _ _ => true : Send) sent frag = true) ∧
      Along (xferStep securedLayout fun _ _ => true) (OpOk securedLayout)
        (CallRep.start securedLayout) deliveredOps ∧
      ∃ rep, Delivered securedLayout (fun _ _ => true) deliveredOps rep :=
  ⟨fun _ _ => rfl, by decide +kernel,
    delivered_of_along securedLayout (fun _ _ => true) deliveredOps (fun _ _ => rfl)
      (by decide +kernel)⟩

/-- Two chained buffers, the second of which reaches the segment size. -/
def forgottenOps : List XferOp :=
  [.add { buff := some 1, data := List.replicate 300 1 },
    .add { buff := some 2, data := List.replicate 1000 2 }]

/-- The first one is never deallocated. -/
theorem first_buffer_forgotten :
    ¬ ∃ rep, Delivered securedLayout (fun _ _ => true) forgottenOps rep := by
  rintro ⟨rep, D⟩
  have hrun : ((exec (xferStep securedLayout fun _ _ => true) (CallRep.start securedLayout)
      forgottenOps).bind (finish securedLayout fun _ _ => true)).map
        (fun rep => rep.dealloced.filterMap Buff.input?) = some [2] := by
    decide +kernel
  rw [D.finished, Option.map_some] at hrun
  have hlen := D.dealloced.length_eq
  rw [Option.some.inj hrun] at hlen
  exact absurd hlen (by decide)

end Cn
