/-
Sending stub data on a connection (cnxfer.c).

A call collects stub data in an I/O vector whose first element is the protocol
header, and sends what it has as one fragment when the vector is full or the
segment size is reached.  Small buffers are copied behind the header or into
fragment buffers of the runtime, large ones are chained into the vector; with
security, the last slot of the vector belongs to the authentication trailer.

The elements in use are a list, so `cur_iov_index` is the index of its last one.
`none` is a copy past the end of the buffer that is copied to.
-/
import FreeDce.Cn.Receive

namespace Cn

/-! ### Data -/

def flagsFirstFrag : BitVec 8 := 0x01
def flagsLastFrag : BitVec 8 := 0x02

/-- A buffer with a deallocation routine: one that the stub passed in, or a fragment
buffer of the runtime. -/
inductive Buff
  | input (n : ℕ)
  | fragbuf
deriving DecidableEq, Repr

def Buff.input? : Buff → Option ℕ
  | .input n => some n
  | .fragbuf => none

/-- `rpc_iovector_elt_t`.  `bytes` is the memory from `data_addr` on, as far as it
has been written. -/
structure IovElt where
  buff : Option Buff := none
  buffLen : ℕ
  bytes : List UInt8
  dataLen : ℕ

/-- What goes out for an element.  Padding may reach past what was written. -/
def IovElt.shown (e : IovElt) : List UInt8 :=
  (e.bytes ++ List.replicate e.dataLen 0).take e.dataLen

/-- A buffer of the stub. -/
structure StubElt where
  buff : Option ℕ := none
  data : List UInt8

/-- The parts of the call rep that do not change while it sends: the protocol header,
the authentication trailer if there is a security context, the segment size of the
association, and the length of the vector. -/
structure SendLayout where
  protHeader : List UInt8
  protTlr : Option (List UInt8)
  maxSegSize : ℕ
  maxIovecLen : ℕ
  protHeader_le : protHeader.length ≤ smallFragSize
  hdr_lt : protHeader.length + (protTlr.elim 0 fun tlr => (tlr.length + 7) / 8 * 8) < maxSegSize
  eight_dvd : 8 ∣ maxSegSize
  maxSegSize_lt : maxSegSize < 2 ^ 16
  three_le : 3 ≤ maxIovecLen

variable (L : SendLayout)

/-- The size of the trailer, rounded up to a multiple of eight. -/
def SendLayout.tlrSize : ℕ := L.protTlr.elim 0 fun tlr => (tlr.length + 7) / 8 * 8

/-- `RPC_CN_CREP_SIZEOF_TLR_PAD`. -/
def SendLayout.tlrPad : ℕ := L.tlrSize - L.protTlr.elim 0 List.length

/-- `RPC_CN_CREP_SIZEOF_HDR` counts the trailer. -/
def SendLayout.sizeofHdr : ℕ := L.protHeader.length + L.tlrSize

/-- The slots of the vector that the trailer takes. -/
def SendLayout.tlrSlots : ℕ := if L.protTlr.isSome then 1 else 0

/-- A fragment as it goes out.  The header fields that change are listed beside it. -/
structure Fragment where
  flags : BitVec 8
  fragLen : BitVec 16
  stubPadLength : ℕ
  iov : List (List UInt8)

/-- The buffered output of a call; `sent` and `dealloced` are its history. -/
structure CallRep where
  elt : List IovElt
  numElt : ℕ
  accBytcnt : ℕ
  freeBytes : BitVec 32
  /-- `free_byte_ptr`, as an offset into the last element. -/
  freeOff : ℕ
  flags : BitVec 8 := flagsFirstFrag
  sent : List Fragment := []
  dealloced : List Buff := []

/-- Whether a fragment can be sent, after those that were. -/
abbrev Send := List Fragment → Fragment → Bool

/-! ### Fragments -/

/-- `RPC_CN_FREE_ALL_EXCEPT_PROT_HDR`. -/
def freeAllExceptProtHdr (rep : CallRep) : CallRep :=
  { rep with
    elt := (rep.elt.take 1).map fun e => { e with dataLen := L.sizeofHdr }
    numElt := 1 + L.tlrSlots
    accBytcnt := L.sizeofHdr
    freeBytes := BitVec.ofNat 32 smallFragSize - BitVec.ofNat 32 L.sizeofHdr
    freeOff := L.protHeader.length }

/-- The call rep when the call starts, with `RPC_CN_CREP_ADJ_IOV_FOR_TLR` done. -/
def CallRep.start : CallRep :=
  freeAllExceptProtHdr L
    { elt := [{ buffLen := smallFragSize, bytes := L.protHeader, dataLen := 0 }]
      numElt := 0, accBytcnt := 0, freeBytes := 0, freeOff := 0 }

/-- `rpc__cn_dealloc_buffered_data`.  The last slot is skipped if it is the trailer's. -/
def deallocBufferedData (rep : CallRep) : CallRep :=
  let n := rep.numElt - L.tlrSlots
  { rep with
    elt := rep.elt.mapIdx fun i e => if 1 ≤ i ∧ i < n then { e with buff := none } else e
    dealloced := rep.dealloced ++ ((rep.elt.take n).drop 1).filterMap IovElt.buff }

/-- The padding before the trailer. -/
def stubPadLength (rep : CallRep) : ℕ :=
  if L.protTlr.isSome then (4 - (rep.accBytcnt - L.tlrSize) % 4) % 4 else 0

/-- The trailer is attached: the header element no longer counts it, and the last stub
element is padded. -/
def attachTlr (rep : CallRep) : List IovElt :=
  if L.protTlr.isSome then
    (rep.elt.modify 0 fun e => { e with dataLen := e.dataLen - L.tlrSize }).modify
      (rep.numElt - 2) fun e => { e with dataLen := e.dataLen + stubPadLength L rep }
  else rep.elt

/-- The fragment that `rpc__cn_transmit_buffers` sends. -/
def nextFragment (rep : CallRep) : Fragment where
  flags := rep.flags
  fragLen := BitVec.ofNat 16 rep.accBytcnt +
    (BitVec.ofNat 16 (stubPadLength L rep) - BitVec.ofNat 16 L.tlrPad)
  stubPadLength := stubPadLength L rep
  iov := ((attachTlr L rep).take (rep.numElt - L.tlrSlots)).map IovElt.shown ++
    L.protTlr.toList

/-- `rpc__cn_transmit_buffers`. -/
def transmitBuffers (send : Send) (rep : CallRep) : CallRep × Bool :=
  let frag := nextFragment L rep
  let ok := send rep.sent frag
  ({ rep with
      elt := attachTlr L rep
      flags := rep.flags &&& ~~~flagsFirstFrag
      sent := if ok then rep.sent ++ [frag] else rep.sent }, ok)

/-- Send what there is, and begin again with the header. -/
def flush (send : Send) (rep : CallRep) : CallRep × Bool :=
  let (rep, ok) := transmitBuffers L send rep
  (freeAllExceptProtHdr L (deallocBufferedData L rep), ok)

/-! ### Copying -/

/-- `rpc__cn_prep_next_iovector_elmt`. -/
def prepNextIovectorElmt (rep : CallRep) : CallRep :=
  { rep with
    elt := rep.elt ++ [{ buff := some .fragbuf, buffLen := largeFragSize, bytes := [], dataLen := 0 }]
    numElt := rep.numElt + 1
    freeBytes := BitVec.ofNat 32 largeFragSize
    freeOff := 0 }

/-- Before bytes are copied: send if the segment size is reached, or take a new element
if the current one is full. -/
def makeRoom (send : Send) (rep : CallRep) (bytesToSegmentSize : ℕ) : CallRep × Bool :=
  if bytesToSegmentSize = 0 then flush L send rep
  else if rep.freeBytes = 0 then
    if L.maxIovecLen ≤ rep.numElt then flush L send rep
    else (prepNextIovectorElmt rep, true)
  else (rep, true)

/-- How many of `left` bytes are copied at once. -/
def xferSize (rep : CallRep) (left : ℕ) : ℕ :=
  min (min rep.freeBytes.toNat (L.maxSegSize - rep.accBytcnt)) left

/-- The copy stays within the buffer of the current element. -/
def memcpyFits (rep : CallRep) (size : ℕ) : Bool :=
  rep.elt.getLast?.any fun e => rep.freeOff + size ≤ e.buffLen

/-- The copy, and what it moves on. -/
def memcpyFree (rep : CallRep) (src : List UInt8) : CallRep :=
  { rep with
    elt := rep.elt.modify (rep.elt.length - 1) fun e => { e with
      bytes := e.bytes.take rep.freeOff ++ src ++ e.bytes.drop (rep.freeOff + src.length)
      dataLen := e.dataLen + src.length }
    accBytcnt := rep.accBytcnt + src.length
    freeBytes := rep.freeBytes - BitVec.ofNat 32 src.length
    freeOff := rep.freeOff + src.length }

/-- The loop of `rpc__cn_copy_buffer`. -/
def copyLoop (send : Send) : ℕ → CallRep → ℕ → List UInt8 → Option (CallRep × Bool)
  | 0, rep, _, _ => some (rep, true)
  | n + 1, rep, bytesToSegmentSize, src =>
    if src = [] then some (rep, true)
    else
      match makeRoom L send rep bytesToSegmentSize with
      | (rep, false) => some (rep, false)
      | (rep, true) =>
        let size := xferSize L rep src.length
        if memcpyFits rep size then
          copyLoop send n (memcpyFree rep (src.take size)) (L.maxSegSize - rep.accBytcnt)
            (src.drop size)
        else none

/-- Three passes of the loop copy at least one byte, so the number of passes is bounded. -/
def copyFuel (src : List UInt8) : ℕ := 3 * src.length + 2

/-- `rpc__cn_copy_buffer`. -/
def copyBuffer (send : Send) (rep : CallRep) (src : List UInt8) : Option (CallRep × Bool) :=
  copyLoop L send (copyFuel src) rep 1 src

/-! ### Chaining -/

/-- Inside the loop, after a send: only the header and the current element stay. -/
def keepCurrent (rep : CallRep) : CallRep :=
  -- the slot of the trailer is taken away while the vector is adjusted
  let rep := { rep with numElt := rep.numElt - L.tlrSlots }
  let rep :=
    if 2 < rep.numElt then
      -- all but the first and the last are to be freed
      { deallocBufferedData L { rep with numElt := rep.numElt - 1 } with numElt := 2 }
    else rep
  { rep with numElt := rep.numElt + L.tlrSlots }

/-- The header, and the current element with the data that is left. -/
def restart (rep : CallRep) (buff : Option ℕ) (data : List UInt8) : CallRep :=
  { rep with
    elt := (rep.elt.take 1).map (fun e => { e with dataLen := L.sizeofHdr }) ++
      [{ buff := buff.map Buff.input, buffLen := data.length, bytes := data, dataLen := data.length }]
    accBytcnt := L.sizeofHdr }

/-- The loop of `rpc__cn_add_new_iovector_elmt`, for the data of the last element. -/
def addLoop (send : Send) (buff : Option ℕ) : ℕ → CallRep → List UInt8 →
    CallRep × Bool × List UInt8
  | 0, rep, data => (rep, true, data)
  | n + 1, rep, data =>
    let bytesToSegmentSize := L.maxSegSize - rep.accBytcnt
    if data.length ≤ bytesToSegmentSize then (rep, true, data)
    else
      let rep := { rep with
        elt := rep.elt.modify (rep.elt.length - 1) fun e =>
          { e with dataLen := bytesToSegmentSize }
        accBytcnt := rep.accBytcnt + bytesToSegmentSize }
      match transmitBuffers L send rep with
      | (rep, false) => (freeAllExceptProtHdr L (deallocBufferedData L rep), false, data)
      | (rep, true) =>
        let data := data.drop bytesToSegmentSize
        addLoop send buff n (restart L (keepCurrent L rep) buff data) data

/-- The part of `rpc__cn_add_new_iovector_elmt` with a free slot in the vector. -/
def addElmt (send : Send) (rep : CallRep) (e : StubElt) : CallRep × Bool :=
  let rep := { rep with
    elt := rep.elt ++ [{
      buff := e.buff.map Buff.input, buffLen := e.data.length, bytes := e.data
      dataLen := e.data.length }]
    numElt := rep.numElt + 1
    freeBytes := 0 }
  match addLoop L send e.buff (e.data.length + 1) rep e.data with
  | (rep, false, _) => (rep, false)
  | (rep, true, data) =>
    if data = [] then
      ({ rep with
          elt := rep.elt.dropLast
          numElt := rep.numElt - 1
          dealloced := rep.dealloced ++ (e.buff.map Buff.input).toList }, true)
    else ({ rep with accBytcnt := rep.accBytcnt + data.length, freeBytes := 0 }, true)

/-- `rpc__cn_add_new_iovector_elmt`. -/
def addNewIovectorElmt (send : Send) (rep : CallRep) (e : StubElt) : CallRep × Bool :=
  if L.maxIovecLen ≤ rep.numElt then
    match flush L send rep with
    | (rep, false) => (rep, false)
    | (rep, true) => addElmt L send rep e
  else addElmt L send rep e

/-! ### A call -/

/-- How a caller hands a buffer over: it copies it and deallocates it itself, or it
chains it. -/
inductive XferOp
  | copy (e : StubElt)
  | add (e : StubElt)

def XferOp.elt : XferOp → StubElt
  | .copy e => e
  | .add e => e

/-- One buffer; `none` if the copy overruns, or if a fragment could not be sent. -/
def xferStep (send : Send) (rep : CallRep) : XferOp → Option CallRep
  | .copy e => do
    let (rep, ok) ← copyBuffer L send rep e.data
    let rep := { rep with dealloced := rep.dealloced ++ (e.buff.map Buff.input).toList }
    if ok then some rep else none
  | .add e =>
    let (rep, ok) := addNewIovectorElmt L send rep e
    if ok then some rep else none

/-- The last fragment, as `send_last_frag_action_rtn` sends it. -/
def finish (send : Send) (rep : CallRep) : Option CallRep :=
  let (rep, ok) := transmitBuffers L send { rep with flags := rep.flags ||| flagsLastFrag }
  if ok then some (deallocBufferedData L rep) else none

end Cn
