/-
The datagram receive queue (dgrq.c, `rpc__dg_call_recvq_insert` in dgcall.c,
`rpc__dg_call_receive_int` in dg.c).

Fragments are kept in fragment number order.  `lastInorder` is the position of
the element that the C pointer `last_inorder` points to: everything up to it
can be handed to the stub, behind it there is a gap.  Fragment numbers are 16
bits, the two lengths are 8 bits, as in `rpc_dg_recvq_t`.
-/
import FreeDce.Dg.Packet

namespace Dg

def mustRecvFragSize : ℕ := 1464
def maxRecvqLen : ℕ := 96
def initialMaxPktSize : ℕ := 1024
def defaultWakeThreadQsize : ℕ := 6 * 1024

/-- `rpc_dg_recvq_t`. -/
structure Recvq where
  queue : List RecvqElt
  lastInorder : Option ℕ
  highRcvFragSize : ℕ
  nextFragnum : BitVec 16
  highFragnum : BitVec 16
  highSerialNum : BitVec 16
  headFragnum : BitVec 16
  headSerialNum : BitVec 16
  wakeThreadQsize : ℕ
  maxQueueLen : BitVec 16
  queueLen : BitVec 8
  inorderLen : BitVec 8
  recvingFrags : Bool
  allPktsRecvd : Bool
  isWayValidated : Bool

/-- `rpc__dg_recvq_init`. -/
def recvqInit : Recvq where
  queue := []
  lastInorder := none
  highRcvFragSize := initialMaxPktSize
  nextFragnum := 0
  highFragnum := -1
  highSerialNum := -1
  headFragnum := -1
  headSerialNum := -1
  wakeThreadQsize := defaultWakeThreadQsize
  maxQueueLen := BitVec.ofNat 16 maxRecvqLen
  queueLen := 0
  inorderLen := 0
  recvingFrags := false
  allPktsRecvd := false
  isWayValidated := false

/-- `rpc__dg_recvq_free` empties the list and leaves the other fields as they are. -/
def recvqFree (rq : Recvq) : Recvq := { rq with queue := [] }

/-- What the insertion reads outside the queue: the call's packet reservations,
whether the packet pool is rationing, whether the socket is private. -/
structure CallEnv where
  isServer : Bool := true
  nResvs : ℕ := 1
  maxResvs : ℕ := 1
  isPrivate : Bool := false
  rationing : Bool := false

/-! ### Insertion -/

/-- The limit a queue of multi-buffer fragments is cut down to. -/
def reducedQueueLen (env : CallEnv) : ℕ := maxRecvqLen / min env.nResvs env.maxResvs

/-- A larger fragment than ever before arrives on a call that may be sent
multi-buffer fragments, and the limit has not been adjusted yet. -/
def limitDue (env : CallEnv) (rq : Recvq) (fragLen : ℕ) : Bool :=
  0 < env.nResvs ∧ mustRecvFragSize < fragLen ∧ rq.maxQueueLen.toNat = maxRecvqLen

/-- The limit is cut down on this arrival. -/
def cutsLimit (env : CallEnv) (rq : Recvq) (fragLen : ℕ) : Bool :=
  rq.highRcvFragSize < fragLen ∧ limitDue env rq fragLen ∧
    rq.queueLen.toNat ≤ reducedQueueLen env ∧ 0 < rq.inorderLen.toNat

/-- Keep track of the largest fragment size, and cut `max_queue_len` down. -/
def noteFragLen (env : CallEnv) (rq : Recvq) (fragLen : ℕ) : Recvq :=
  { rq with
    highRcvFragSize := if rq.highRcvFragSize < fragLen then fragLen else rq.highRcvFragSize
    maxQueueLen :=
      if cutsLimit env rq fragLen then BitVec.ofNat 16 (reducedQueueLen env)
      else rq.maxQueueLen }

/-- The bookkeeping done for every packet, accepted or not. -/
def noteArrival (env : CallEnv) (rq : Recvq) (pkt : Pkt) : Recvq :=
  let rq := { rq with recvingFrags := rq.recvingFrags || pkt.hdr.flagIsSet pfFrag }
  let rq := if Serial.Lt rq.highSerialNum pkt.hdr.serial then
      { rq with highSerialNum := pkt.hdr.serial } else rq
  noteFragLen env rq pkt.fragLen

/-- How many elements at the front carry the numbers `next`, `next + 1`, … -/
def scanInorder (next : BitVec 16) : List RecvqElt → ℕ
  | [] => 0
  | rqe :: rest =>
    if rqe.hdrp.map PktHdr.fragnum = some next then scanInorder (next + 1) rest + 1 else 0

/-- How many elements at the front are numbered below `fragnum`. -/
def scanBelow (fragnum : BitVec 16) : List RecvqElt → ℕ
  | [] => 0
  | rqe :: rest =>
    match rqe.hdrp with
    | some hdr => if Serial.Lt hdr.fragnum fragnum then scanBelow fragnum rest + 1 else 0
    | none => 0

/-- The number of elements up to and including `last_inorder`. -/
def Recvq.inorderPos (rq : Recvq) : ℕ :=
  match rq.lastInorder with
  | none => 0
  | some k => k + 1

/-- The fast path: the awaited fragment goes behind `last_inorder`, which then
moves on over the fragments that have become in order. -/
def insertInorder (rq : Recvq) (pkt : Pkt) : Recvq :=
  let pos := rq.inorderPos
  let more := scanInorder (rq.nextFragnum + 1) (rq.queue.drop pos)
  { rq with
    queue := rq.queue.take pos ++ pkt.elt :: rq.queue.drop pos
    headFragnum := if rq.lastInorder = none then pkt.hdr.fragnum else rq.headFragnum
    lastInorder := some (pos + more)
    nextFragnum := rq.nextFragnum + 1 + BitVec.ofNat 16 more
    inorderLen := rq.inorderLen + 1 + BitVec.ofNat 8 more }

/-- The window test for a fragment that is not the awaited one. -/
def beyondWindow (rq : Recvq) (fragnum : BitVec 16) : Bool :=
  (rq.queue ≠ [] ∧ Serial.Lt rq.headFragnum rq.nextFragnum ∧
    Serial.Le (rq.headFragnum + rq.maxQueueLen) fragnum) ∨
  Serial.Le (rq.nextFragnum + rq.maxQueueLen) fragnum

/-- An out of order fragment is sorted in behind `last_inorder`; `none` if it is
already there. -/
def insertOutOfOrder (rq : Recvq) (pkt : Pkt) : Option Recvq :=
  if rq.queue = [] then
    some { rq with queue := [pkt.elt], headFragnum := pkt.hdr.fragnum }
  else
    let pos := rq.inorderPos + scanBelow pkt.hdr.fragnum (rq.queue.drop rq.inorderPos)
    let scanned := rq.queue.drop pos
    if scanned.head?.bind (fun rqe => rqe.hdrp.map PktHdr.fragnum) = some pkt.hdr.fragnum then
      none
    else
      some { rq with
        queue := rq.queue.take pos ++ pkt.elt :: scanned
        headFragnum := if pos = 0 then pkt.hdr.fragnum else rq.headFragnum }

/-- Decide whether the packet goes onto the queue; `none` if it does not. -/
def enqueue (env : CallEnv) (rq : Recvq) (pkt : Pkt) : Option Recvq :=
  if env.isServer ∧ env.nResvs = 0 then
    none
  else if pkt.hdr.fragnum = rq.nextFragnum then
    if rq.queueLen.toNat = rq.maxQueueLen.toNat then
      none
    else if env.rationing ∧
        (rq.lastInorder ≠ none ∨ (rq.isWayValidated = false ∧ pkt.hdr.fragnum ≠ 0)) then
      none
    else
      some (insertInorder rq pkt)
  else if Serial.Lt pkt.hdr.fragnum rq.nextFragnum then
    none
  else if env.rationing then
    none
  else if beyondWindow rq pkt.hdr.fragnum then
    none
  else
    insertOutOfOrder rq pkt

/-- The header of the element `last_inorder` points to has the last-fragment flag. -/
def Recvq.lastInorderIsLast (rq : Recvq) : Bool :=
  match rq.lastInorder with
  | none => false
  | some k =>
    match rq.queue[k]?.bind RecvqElt.hdrp with
    | some hdr => hdr.flagIsSet pfLastFrag
    | none => false

/-- The bookkeeping for an accepted packet. -/
def noteAccepted (rq : Recvq) (pkt : Pkt) : Recvq :=
  let rq := { rq with queueLen := rq.queueLen + 1 }
  let rq := if Serial.Lt rq.highFragnum pkt.hdr.fragnum then
      { rq with highFragnum := pkt.hdr.fragnum } else rq
  if rq.lastInorder ≠ none ∧ (rq.recvingFrags = false ∨ rq.lastInorderIsLast) then
    { rq with allPktsRecvd := true }
  else rq

/-- What the insertion reports: whether the packet was queued, whether a fack is
sent, whether the receiver is to be woken. -/
structure InsertResult where
  rq : Recvq
  added : Bool
  fack : Bool
  wakeThread : Bool

/-- The end of the insertion, common to accepted and dropped packets. -/
def insertReport (env : CallEnv) (pkt : Pkt) (rq : Recvq) (added : Bool) : InsertResult where
  rq := rq
  added := added
  fack := rq.recvingFrags ∧ rq.allPktsRecvd = false ∧
    (rq.queueLen.toNat = rq.maxQueueLen.toNat ∨ pkt.hdr.flagIsSet pfNoFack = false)
  wakeThread := env.isPrivate = false ∧
    (rq.allPktsRecvd ∨ rq.queueLen.toNat = rq.maxQueueLen.toNat ∨
      rq.wakeThreadQsize ≤ rq.highRcvFragSize * rq.inorderLen.toNat % 2 ^ 32 ∨
      (env.rationing ∧ 0 < rq.inorderLen.toNat))

/-- `rpc__dg_call_recvq_insert`. -/
def callRecvqInsert (env : CallEnv) (rq : Recvq) (pkt : Pkt) : InsertResult :=
  let rq := noteArrival env rq pkt
  match enqueue env rq pkt with
  | some rq' => insertReport env pkt (noteAccepted rq' pkt) true
  | none => insertReport env pkt rq false

/-! ### Removal -/

/-- What checking the authenticity of the head fragment came to.  A call without
key information, and a buffer that continues a fragment, always pass. -/
inductive AuthCheck
  | passed
  | needWayAuth
  | failed (st : Status)
deriving DecidableEq, Repr

/-- What one pass through `rpc__dg_call_receive_int` returns. -/
inductive Receive
  /-- A status other than `ok`; nothing was taken off the queue. -/
  | failed (st : Status)
  /-- `ok` and no data: the stream is complete and all of it was handed out. -/
  | endOfData
  /-- The routine waits: the awaited fragment is not there. -/
  | wait
  /-- The head fragment is shown to the caller but stays on the queue. -/
  | needWayAuth (iove : Iove)
  /-- The buffer that was taken off the queue, and whether a fack is sent. -/
  | data (iove : Iove) (fack : Bool)
deriving DecidableEq, Repr

/-- The serial number of the head, kept for facks. -/
def noteHeadSerial (rq : Recvq) (rqe : RecvqElt) : Recvq :=
  { rq with
    headSerialNum := match rqe.hdrp with
      | some hdr => hdr.serial
      | none => rq.headSerialNum }

/-- Take the first buffer off the queue. -/
def dequeue (rq : Recvq) (rqe : RecvqElt) (rest : List RecvqElt) : Recvq :=
  let rq := noteHeadSerial rq rqe
  match rqe.moreData with
  | body :: more =>
    -- the rest of the fragment becomes the head, without a header
    { rq with queue := { hdrp := none, body := body, moreData := more } :: rest }
  | [] =>
    { rq with
      queue := rest
      headFragnum := match rest.head?.bind RecvqElt.hdrp with
        | some hdr => hdr.fragnum
        | none => rq.headFragnum
      lastInorder := match rq.lastInorder with
        | some (k + 1) => some k
        | _ => none
      inorderLen := rq.inorderLen - 1
      queueLen := rq.queueLen - 1 }

/-- `rpc__dg_call_receive_int`. -/
def callReceiveInt (status : Status) (state : CallState) (auth : AuthCheck) (rq : Recvq) :
    Recvq × Receive :=
  if status ≠ .ok then
    (rq, .failed status)
  else if state = .orphan then
    (recvqFree rq, .failed .callOrphaned)
  else if rq.allPktsRecvd ∧ rq.queue = [] then
    (rq, .endOfData)
  else if rq.lastInorder = none then
    (rq, .wait)
  else
    match rq.queue with
    | [] => (rq, .wait)
    | rqe :: rest =>
      match (if rqe.hdrp.isSome then auth else .passed) with
      | .needWayAuth => (rq, .needWayAuth (recvqIovectorSetup rqe))
      | .failed st => (rq, .failed st)
      | .passed =>
        let rq' := dequeue rq rqe rest
        (rq', .data (recvqIovectorSetup rqe)
          (rq'.queueLen.toNat + 1 = rq'.maxQueueLen.toNat))

end Dg
