/-
A fack at the sender (`rpc__dg_fack_common`, `do_fack_body` and `do_selective_ack` in dglsn.c).

The fack frees the fragments up to the number it names, and then those whose bit is set in its mask.
The cursor of the mask is a counter of 32 bits, which is compared with the 16-bit fragment numbers;
the scan that looks for lost fragments goes on from where the mask ended, up to the first fragment
that has not been sent.

* `maskWords_eq` — the mask is a walk of the cursor along the queue;
* `fackCommon_eq_some_iff` — when the routine returns, and what it leaves on the queue.
-/
import FreeDce.Dg.XmitFack
import FreeDce.Lib.Bytes
import FreeDce.Lib.Climb

namespace Dg

namespace Selack

/-! ### Data -/

/-- `rpc_dg_xmitq_elt_t`; `ptr` is its address.  `fragnum` has 32 bits, but it only ever gets the
16-bit `next_fragnum`. -/
structure XmitqElt where
  ptr : ℕ
  flags : BitVec 16 := 0
  fragnum : BitVec 16
  serialNum : BitVec 16 := 0
  inCwindow : Bool := false
deriving DecidableEq

def noFack : BitVec 16 := 0x08
def lastFrag : BitVec 16 := 0x02

/-- `RPC_DG_FLAG_IS_SET`. -/
def XmitqElt.flagIsSet (xqe : XmitqElt) (flag : BitVec 16) : Bool := xqe.flags &&& flag ≠ 0

/-- The number of the fragment as the cursor of the mask is compared with it. -/
def XmitqElt.num (xqe : XmitqElt) : ℕ := xqe.fragnum.toNat

/-- `rpc_dg_xmitq_t`.  `queue` is the list from `head` to `tail`, `firstUnsent` and the elements of
`rexmitq` are addresses. -/
structure Xmitq where
  queue : List XmitqElt := []
  firstUnsent : Option ℕ := none
  rexmitq : List ℕ := []
  isFrag : Bool := true
  nextFragnum : BitVec 16 := 0
  nextSerialNum : BitVec 16 := 0
  lastFackSerial : BitVec 16 := 0xffff
  windowSize : BitVec 16 := 8
  cwindowSize : BitVec 16 := 0
  maxSndTsdu : BitVec 32 := 1024
  maxFragSize : BitVec 32 := 1024
  sndFragSize : BitVec 32 := 1024
  blastSize : BitVec 8 := 0
  maxBlastSize : BitVec 8 := 4
  xqTimer : BitVec 16 := 8
  xqTimerThrottle : BitVec 16 := 1
  highCwindow : BitVec 8 := 0
  freqsOut : BitVec 8 := 0
  push : Bool := false
  awaitingAck : Bool := false
  firstFackSeen : Bool := true
deriving DecidableEq

/-- A fack or nocall packet with its body, as it is on the wire.  `selack` are the words from
`bodyp->selack` on, also those behind the end of the packet. -/
structure FackPkt where
  fragnum : BitVec 16
  len : ℕ
  foreign : Bool := false
  vers : BitVec 8 := 1
  windowSize : BitVec 16 := 8
  maxTsdu : BitVec 32 := 1024
  maxFragSize : BitVec 32 := 1024
  serialNum : BitVec 16 := 0
  selackLen : BitVec 16 := 0
  selack : ℕ → BitVec 32 := fun _ => 0

def fackpktBodyVers : BitVec 8 := 1

/-- A 16-bit field in the byte order of this machine. -/
def FackPkt.inq16 (pkt : FackPkt) (n : BitVec 16) : BitVec 16 :=
  if pkt.foreign then Bytes.swab16 n else n

def FackPkt.inq32 (pkt : FackPkt) (n : BitVec 32) : BitVec 32 :=
  if pkt.foreign then Bytes.swab32 n else n

/-- The reservations of the call, and what `rpc__dg_pkt_adjust_reservation` answers if it is asked
for more. -/
structure Resvs where
  nResvs : ℕ := 1
  maxResvs : ℕ := 1
  granted : Bool := false

/-! ### The blast -/

/-- What the loops over the queue keep track of.  `kept` are the elements behind `xq_curr`, up to
`xq_prev`. -/
structure Scan where
  kept : List XmitqElt := []
  freed : List XmitqElt := []
  rexmitq : List ℕ := []
  cwindowSize : BitVec 16
  freqsOut : BitVec 8
  windowIncr : BitVec 32 := 0
  rexmitCnt : BitVec 32 := 0
  currSerial : BitVec 16
deriving DecidableEq

/-- What the loops read: the number in the header of the fack, the serial number in its body. -/
structure Heard where
  fragnum : BitVec 16
  lastFackSerial : BitVec 16

variable (fack : Heard)

/-- `TRACK_CURRENT_BLAST`. -/
def trackCurrentBlast (xqe : XmitqElt) (lost : Bool) (s : Scan) : Scan :=
  let asksEarlier := !xqe.flagIsSet noFack && xqe.serialNum ≠ fack.lastFackSerial
  if xqe.serialNum.toNat = s.currSerial.toNat + 1 then
    { s with
      windowIncr := if asksEarlier then 0 else if lost then s.windowIncr else s.windowIncr + 1
      currSerial := xqe.serialNum }
  else if Serial.Lt s.currSerial xqe.serialNum ∧ Serial.Le xqe.serialNum fack.lastFackSerial then
    { s with
      windowIncr := if lost || asksEarlier then 0 else 1
      currSerial := xqe.serialNum }
  else s

/-- A packet leaves the congestion window; `wasRequest` says that it counts as an outstanding fack
request. -/
def leaveCwindow (xqe : XmitqElt) (wasRequest : Bool) (s : Scan) : Scan :=
  if xqe.inCwindow then
    { s with
      cwindowSize := s.cwindowSize - 1
      freqsOut := if wasRequest then s.freqsOut - 1 else s.freqsOut }
  else s

/-- The element goes to the end of the list of those to send again. -/
def addRexmit (xqe : XmitqElt) (s : Scan) : Scan :=
  { s with
    rexmitCnt := s.rexmitCnt + 1
    rexmitq := s.rexmitq ++ [xqe.ptr]
    kept := s.kept ++ [{ xqe with inCwindow := false }] }

def keep (xqe : XmitqElt) (s : Scan) : Scan := { s with kept := s.kept ++ [xqe] }

def free (xqe : XmitqElt) (s : Scan) : Scan := { s with freed := s.freed ++ [xqe] }

/-! ### The number in the header -/

/-- An element of the inclusive part. -/
def ackHead (usingSelacks : Bool) (xqe : XmitqElt) (s : Scan) : Scan :=
  let s := if usingSelacks then trackCurrentBlast fack xqe false s
    else { s with windowIncr := s.windowIncr + 1 }
  free xqe (leaveCwindow xqe (!xqe.flagIsSet noFack) s)

/-- The loop over the inclusive part; `none` is a read through the end of the queue. -/
def ackInclusive (firstUnsent : Option ℕ) (usingSelacks : Bool) :
    List XmitqElt → Scan → Option (List XmitqElt × Scan)
  | [], s => if firstUnsent = none then some ([], s) else none
  | xqe :: rest, s =>
    if firstUnsent = some xqe.ptr then some (xqe :: rest, s)
    else if Serial.Le xqe.fragnum fack.fragnum then
      ackInclusive firstUnsent usingSelacks rest (ackHead fack usingSelacks xqe s)
    else some (xqe :: rest, s)

/-! ### The mask -/

/-- A fragment that is still unacknowledged and was sent before the one that induced the fack. -/
def markLost (xqe : XmitqElt) (s : Scan) : Scan :=
  let s := trackCurrentBlast fack xqe true s
  let asks := !xqe.flagIsSet noFack
  let s := leaveCwindow xqe asks s
  let s := if xqe.inCwindow ∧ asks ∧ Serial.Lt xqe.fragnum fack.fragnum then
      { s with windowIncr := 0 } else s
  addRexmit xqe s

/-- The fragment that the cursor has met. -/
def markElt (acked : Bool) (xqe : XmitqElt) (s : Scan) : Scan :=
  if acked then
    free xqe (leaveCwindow xqe (!xqe.flagIsSet noFack || xqe.flagIsSet lastFrag)
      (trackCurrentBlast fack xqe false s))
  else if Serial.Lt xqe.serialNum fack.lastFackSerial then markLost fack xqe s
  else keep xqe s

/-- The loop over the bits of one word; it ends early if no bit of the last word is left, or no
element of the queue.  The result is `xq_curr` with what follows it. -/
def maskWord (last : Bool) : ℕ → BitVec 32 → ℕ → List XmitqElt → Scan → List XmitqElt × Scan
  | 0, _, _, curr, s => (curr, s)
  | _ + 1, _, _, [], s => ([], s)
  | n + 1, mask, cursor, xqe :: rest, s =>
    if mask = 0 ∧ last then (xqe :: rest, s)
    else if cursor ≠ xqe.num then
      maskWord last n (mask >>> 1) (cursor + 1) (xqe :: rest) s
    else
      maskWord last n (mask >>> 1) (cursor + 1) rest (markElt fack (mask.getLsbD 0) xqe s)

/-- The loop over the words from word `i` on.  The cursor does not overflow: it has 32 bits, and
there are less than `2^16` words.  The last result is how many words were read. -/
def maskWords (selack : ℕ → BitVec 32) :
    ℕ → ℕ → ℕ → List XmitqElt → Scan → (List XmitqElt × Scan) × ℕ
  | 0, i, _, curr, s => ((curr, s), i)
  | n + 1, i, cursor, curr, s =>
    let r := maskWord fack (n = 0) 32 (selack i) cursor curr s
    if r.1 = [] then (r, i + 1) else maskWords selack n (i + 1) (cursor + 32) r.1 r.2

/-- The scan for further fragments that were sent before the one that induced the fack; `none` is a
read through the end of the queue. -/
def tailScan (firstUnsent : Option ℕ) : List XmitqElt → Scan → Option (List XmitqElt × Scan)
  | [], s => if firstUnsent = none then some ([], s) else none
  | xqe :: rest, s =>
    if firstUnsent = some xqe.ptr then some (xqe :: rest, s)
    else if Serial.Le xqe.serialNum fack.lastFackSerial then
      tailScan firstUnsent rest
        (addRexmit xqe
          (leaveCwindow xqe (!xqe.flagIsSet noFack || xqe.flagIsSet lastFrag) s))
    else tailScan firstUnsent rest (keep xqe s)

/-- `do_selective_ack`: what is left of the queue, and how many words of the mask were read. -/
def doSelectiveAck (firstUnsent : Option ℕ) (pkt : FackPkt) (queue : List XmitqElt) (s : Scan) :
    Option ((List XmitqElt × Scan) × ℕ) :=
  if queue = [] then some (([], s), 0)
  else
    let selack := fun i => pkt.inq32 (pkt.selack i)
    let r := maskWords fack selack (pkt.inq16 pkt.selackLen).toNat 0 (fack.fragnum.toNat + 1) queue s
    (tailScan fack firstUnsent r.1.1 r.1.2).map fun t => (t, r.2)

/-! ### The body -/

def initialMaxPktSize : BitVec 32 := 1024

def min32 (a b : BitVec 32) : BitVec 32 := if a < b then a else b

/-- The fragment size that both sides can do, a multiple of 8. -/
def fackFragSize (xq : Xmitq) (pkt : FackPkt) : BitVec 32 :=
  let size := min32 (min32 xq.maxSndTsdu xq.maxFragSize)
    (min32 (pkt.inq32 pkt.maxTsdu) (pkt.inq32 pkt.maxFragSize)) &&& ~~~7#32
  if size = 0 then initialMaxPktSize else size

/-- `RPC_DG_FRAG_SIZE_TO_NUM_PKTS`. -/
def fragSizeToNumPkts (fragSize : BitVec 32) : BitVec 32 :=
  let n := (fragSize - 80) / 4240
  if n * 4240 < fragSize - 80 then n + 1 else n

/-- The part of `do_fack_body` that sets the fragment size. -/
def adoptFragSize (resvs : Resvs) (xq : Xmitq) (size : BitVec 32) : Xmitq :=
  if resvs.maxResvs ≤ resvs.nResvs then { xq with sndFragSize := size }
  else if xq.push then xq
  else if resvs.nResvs = (fragSizeToNumPkts size).toNat ∨ resvs.granted then
    { xq with sndFragSize := size }
  else xq

/-- The window, in fragments. -/
def fackWindow (xq : Xmitq) (offered : BitVec 16) : BitVec 16 :=
  if 2 < offered.toNat then
    (BitVec.setWidth 32 offered <<< 10 / xq.sndFragSize).setWidth 16
  else offered

/-! ### The next blast -/

def initialMaxBlastSize : BitVec 8 := 4
def maxBlastSize : ℕ := 8
def initialXqTimer : BitVec 16 := 8

/-- How many packets to send next, before it is known how many there are. -/
def blastTarget (xq : Xmitq) (windowIncr : BitVec 32) : ℕ :=
  let wanted := (xq.blastSize.setWidth 32 + 2 * windowIncr).toNat
  let blast := max (min wanted xq.maxBlastSize.toNat) 2
  if xq.windowSize.toNat < xq.cwindowSize.toNat + blast then
    xq.windowSize.toNat - xq.cwindowSize.toNat
  else blast

/-- `xq->xq_timer_throttle = MIN(++xq->xq_timer_throttle, 1000)`; the macro increments twice. -/
def raiseThrottle (n : BitVec 16) : BitVec 16 := if n + 1 < 1000 then n + 2 else 1000

/-- A loss lowers the limit of the blast size. -/
def noteLoss (xq : Xmitq) (rexmitCnt : BitVec 32) : Xmitq :=
  if rexmitCnt ≠ 0 then
    let xq := if initialMaxBlastSize < xq.maxBlastSize then
        { xq with
          maxBlastSize := xq.maxBlastSize - 2
          xqTimerThrottle := raiseThrottle xq.xqTimerThrottle }
      else xq
    { xq with xqTimer := xq.xqTimerThrottle * initialXqTimer, highCwindow := 0 }
  else if xq.xqTimer ≠ 0 then { xq with xqTimer := xq.xqTimer - 1 }
  else xq

/-- Now and then the limit of the blast size is raised. -/
def raiseMaxBlast (xq : Xmitq) : Xmitq :=
  if xq.xqTimer ≠ 0 then xq
  else if xq.highCwindow.toNat < xq.windowSize.toNat then
    { xq with
      maxBlastSize := BitVec.ofNat 8 (min (xq.maxBlastSize.toNat + 2) maxBlastSize)
      xqTimer := xq.xqTimerThrottle * initialXqTimer }
  else
    let throttle := raiseThrottle xq.xqTimerThrottle
    { xq with
      xqTimerThrottle := throttle
      xqTimer := throttle * initialXqTimer
      highCwindow := 0 }

/-- The element at an address. -/
def Xmitq.elt? (xq : Xmitq) (ptr : ℕ) : Option XmitqElt := xq.queue.find? (·.ptr = ptr)

/-- `ready_to_go`: the number of the first unsent fragment is cast to a signed number. -/
def readyToGo (xq : Xmitq) (rexmitCnt : BitVec 32) : BitVec 32 :=
  match xq.firstUnsent.bind xq.elt? with
  | none => rexmitCnt
  | some xqe => rexmitCnt + (xq.nextFragnum.setWidth 32 - xqe.fragnum.signExtend 32)

/-- The end of `rpc__dg_fack_common`, up to where a transmission is started. -/
def sizeBlast (xq : Xmitq) (windowIncr rexmitCnt : BitVec 32) : Xmitq :=
  let blast := blastTarget xq windowIncr
  let ready := (readyToGo xq rexmitCnt).toNat
  { raiseMaxBlast (noteLoss xq rexmitCnt) with
    blastSize := BitVec.ofNat 8 (if ready < blast then ready else blast) }

/-! ### The whole -/

structure Result where
  xq : Xmitq
  rexmitCnt : BitVec 32
  wordsRead : ℕ

/-- The fack has a body with a mask. -/
def FackPkt.usingSelacks (pkt : FackPkt) : Bool := decide (12 < pkt.len) && pkt.vers = fackpktBodyVers

def Xmitq.put (xq : Xmitq) (queue : List XmitqElt) (s : Scan) : Xmitq :=
  { xq with queue := queue, rexmitq := s.rexmitq, cwindowSize := s.cwindowSize, freqsOut := s.freqsOut }

/-- `do_fack_body`. -/
def doFackBody (resvs : Resvs) (xq : Xmitq) (pkt : FackPkt) (queue : List XmitqElt) (s : Scan) :
    Option (Xmitq × Scan × ℕ) :=
  if pkt.vers ≠ fackpktBodyVers then some (xq.put queue s, s, 0)
  else do
    let ((queue, s), read) ←
      if 12 < pkt.len then doSelectiveAck fack xq.firstUnsent pkt queue s
      else some ((queue, s), 0)
    let xq := adoptFragSize resvs (xq.put (s.kept ++ queue) s) (fackFragSize xq pkt)
    some ({ xq with windowSize := fackWindow xq (pkt.inq16 pkt.windowSize) }, s, read)

/-- `rpc__dg_fack_common`; `none` is a call of `abort` or a read through a null pointer. -/
def fackCommon (resvs : Resvs) (xq : Xmitq) (pkt : FackPkt) : Option Result := do
  let selacks := pkt.usingSelacks
  let currSerial := xq.lastFackSerial
  let xq := { xq with
    firstFackSeen := true
    awaitingAck := false
    rexmitq := []
    lastFackSerial := if selacks then pkt.inq16 pkt.serialNum else xq.lastFackSerial }
  let heard : Heard := { fragnum := pkt.fragnum, lastFackSerial := xq.lastFackSerial }
  let (queue, s) ← ackInclusive heard xq.firstUnsent selacks xq.queue
    { cwindowSize := xq.cwindowSize, freqsOut := xq.freqsOut, currSerial := currSerial }
  if 0 < pkt.len then
    -- `curr_serial` has a value only if there is a mask
    if selacks then do
      let (xq, s, read) ← doFackBody heard resvs xq pkt queue s
      some ⟨sizeBlast xq s.windowIncr s.rexmitCnt, s.rexmitCnt, read⟩
    else none
  else
    some ⟨sizeBlast (xq.put queue s) s.windowIncr s.rexmitCnt, s.rexmitCnt, 0⟩

/-! ### The mask as a walk -/

variable {fack} {firstUnsent : Option ℕ} {queue curr : List XmitqElt} {s : Scan}

/-- How far the loop over the last word goes: up to the highest bit that is set. -/
def bitLength : ℕ → BitVec 32 → ℕ
  | 0, _ => 0
  | n + 1, mask => if mask = 0 then 0 else bitLength n (mask >>> 1) + 1

theorem bitLength_le (n : ℕ) (mask : BitVec 32) : bitLength n mask ≤ n := by
  induction n generalizing mask with
  | zero => exact le_rfl
  | succ n ih =>
    rw [bitLength]
    split
    · exact Nat.zero_le _
    · exact Nat.succ_le_succ (ih _)

/-- How many bits the loops pass over. -/
def scannedBits (selack : ℕ → BitVec 32) : ℕ → ℕ
  | 0 => 0
  | n + 1 => 32 * n + bitLength 32 (selack n)

/-- Bit `k` of the mask. -/
def selackBit (selack : ℕ → BitVec 32) (k : ℕ) : Bool := (selack (k / 32)).getLsbD (k % 32)

theorem maskWord_eq (last : Bool) (n : ℕ) (mask : BitVec 32) (cursor : ℕ) :
    maskWord fack last n mask cursor curr s =
      Climb.walk XmitqElt.num (fun c s xqe => markElt fack (mask.getLsbD (c - cursor)) xqe s)
        (if last then bitLength n mask else n) cursor curr s := by
  induction n generalizing mask cursor curr s with
  | zero =>
    have h : (if last then bitLength 0 mask else 0) = 0 := by
      cases last <;> rfl
    rw [h]
    rfl
  | succ n ih =>
    cases curr with
    | nil => rw [Climb.walk_nil]; rfl
    | cons xqe rest =>
      rw [maskWord]
      by_cases hstop : mask = 0 ∧ last
      · obtain ⟨rfl, hlast⟩ := hstop
        rw [if_pos ⟨rfl, hlast⟩, if_pos hlast, bitLength, if_pos rfl]
        rfl
      · have hmore : (if last then bitLength (n + 1) mask else n + 1)
            = (if last then bitLength n (mask >>> 1) else n) + 1 := by
          cases last with
          | false => rfl
          | true => exact if_neg fun h => hstop ⟨h, rfl⟩
        -- the bits of the shifted word, seen from the next number
        have hshift : ∀ (curr : List XmitqElt) (s : Scan) (m : ℕ),
            Climb.walk XmitqElt.num
                (fun c s xqe => markElt fack ((mask >>> 1).getLsbD (c - (cursor + 1))) xqe s)
                m (cursor + 1) curr s =
              Climb.walk XmitqElt.num
                (fun c s xqe => markElt fack (mask.getLsbD (c - cursor)) xqe s)
                m (cursor + 1) curr s := by
          intro curr s m
          refine Climb.walk_congr m fun k s xqe hlo _ => ?_
          rw [BitVec.getLsbD_ushiftRight, show 1 + (k - (cursor + 1)) = k - cursor by omega]
        rw [if_neg hstop, hmore, Climb.walk]
        by_cases hmeet : cursor = xqe.num
        · rw [if_neg (not_not.mpr hmeet), if_pos hmeet.symm, ih, hshift, Nat.sub_self]
        · rw [if_pos hmeet, if_neg (Ne.symm hmeet), ih, hshift]

/-- The step of the walk, when the mask starts at `base`. -/
def maskStep (fack : Heard) (selack : ℕ → BitVec 32) (base : ℕ) :
    ℕ → Scan → XmitqElt → Scan :=
  fun c s xqe => markElt fack (selackBit selack (c - base)) xqe s

/-- One word, not the last one, is a walk over 32 numbers. -/
theorem maskWord_eq_walk {selack : ℕ → BitVec 32} {base i : ℕ} (last : Bool) :
    maskWord fack last 32 (selack i) (base + 32 * i) curr s =
      Climb.walk XmitqElt.num (maskStep fack selack base)
        (if last then bitLength 32 (selack i) else 32) (base + 32 * i) curr s := by
  rw [maskWord_eq]
  refine Climb.walk_congr _ fun k s xqe hlo hhi => ?_
  have hk : k < base + 32 * i + 32 := by
    have := bitLength_le 32 (selack i)
    split at hhi <;> omega
  rw [maskStep, selackBit, show (k - base) / 32 = i by omega,
    show (k - base) % 32 = k - (base + 32 * i) by omega]

/-- The mask from word `i` on. -/
theorem maskWords_eq_from {selack : ℕ → BitVec 32} {base : ℕ} (n i : ℕ) :
    (maskWords fack selack n i (base + 32 * i) curr s).1 =
      Climb.walk XmitqElt.num (maskStep fack selack base)
        (scannedBits selack (i + n) - 32 * i) (base + 32 * i) curr s := by
  induction n generalizing i curr s with
  | zero =>
    have h : scannedBits selack (i + 0) - 32 * i = 0 := by
      cases i with
      | zero => rfl
      | succ i =>
        have := bitLength_le 32 (selack i)
        rw [add_zero, scannedBits]
        omega
    rw [h]
    rfl
  | succ n ih =>
    rw [maskWords, maskWord_eq_walk]
    cases n with
    | zero =>
      have hbits : scannedBits selack (i + (0 + 1)) - 32 * i = bitLength 32 (selack i) := by
        rw [zero_add, scannedBits]
        omega
      rw [hbits, decide_eq_true rfl, if_pos rfl]
      split <;> rfl
    | succ n =>
      have hbits : scannedBits selack (i + (n + 1 + 1)) - 32 * i
          = 32 + (scannedBits selack (i + 1 + (n + 1)) - 32 * (i + 1)) := by
        rw [show i + (n + 1 + 1) = i + 1 + n + 1 by omega, show i + 1 + (n + 1) = i + 1 + n + 1 by omega,
          scannedBits]
        omega
      rw [hbits, Climb.walk_add, decide_eq_false (Nat.succ_ne_zero n), if_neg Bool.false_ne_true]
      split
      · rename_i hnil
        rw [hnil, Climb.walk_nil]
        exact Prod.ext hnil rfl
      · set w := Climb.walk XmitqElt.num (maskStep fack selack base) 32 (base + 32 * i) curr s
        have hnext : (maskWords fack selack (n + 1) (i + 1) (base + 32 * (i + 1)) w.1 w.2).1 = _ :=
          ih _
        rw [show base + 32 * (i + 1) = base + 32 * i + 32 by omega] at hnext
        exact hnext

/-- The loops over the mask handle the elements that climb from the number behind the header's up to
the last bit that is set. -/
theorem maskWords_eq {selack : ℕ → BitVec 32} {base : ℕ} (n : ℕ) :
    (maskWords fack selack n 0 base curr s).1 =
      Climb.walk XmitqElt.num (maskStep fack selack base) (scannedBits selack n) base curr s := by
  have h : (maskWords fack selack n 0 (base + 32 * 0) curr s).1 = _ := maskWords_eq_from n 0
  rwa [zero_add, Nat.mul_zero, Nat.sub_zero, Nat.add_zero] at h

/-- A word is read if it is the first, or if elements are left when the cursor gets to it. -/
theorem lt_wordsRead_iff {selack : ℕ → BitVec 32} {base : ℕ} (n i k : ℕ) :
    k < (maskWords fack selack n i (base + 32 * i) curr s).2 ↔
      k < i ∨ i ≤ k ∧ k < i + n ∧ (k = i ∨ (Climb.walk XmitqElt.num (maskStep fack selack base)
        (32 * (k - i)) (base + 32 * i) curr s).1 ≠ []) := by
  induction n generalizing i curr s with
  | zero =>
    rw [maskWords]
    show k < i ↔ _
    omega
  | succ n ih =>
    rw [maskWords, maskWord_eq_walk]
    cases n with
    | zero =>
      have hread : ∀ r : List XmitqElt × Scan,
          (if r.1 = [] then (r, i + 1)
            else maskWords fack selack 0 (i + 1) (base + 32 * i + 32) r.1 r.2).2 = i + 1 := by
        intro r
        split <;> rfl
      rw [hread]
      omega
    | succ n =>
      rw [decide_eq_false (Nat.succ_ne_zero n), if_neg Bool.false_ne_true]
      set r := Climb.walk XmitqElt.num (maskStep fack selack base) 32 (base + 32 * i) curr s
        with hr
      have hlater : ∀ j, i + 1 ≤ j →
          Climb.walk XmitqElt.num (maskStep fack selack base) (32 * (j - i)) (base + 32 * i) curr s =
            Climb.walk XmitqElt.num (maskStep fack selack base) (32 * (j - (i + 1)))
              (base + 32 * (i + 1)) r.1 r.2 := by
        intro j hj
        rw [show 32 * (j - i) = 32 + 32 * (j - (i + 1)) by omega, Climb.walk_add,
          show base + 32 * i + 32 = base + 32 * (i + 1) by omega]
      split
      · rename_i hnil
        show k < i + 1 ↔ _
        rcases Nat.lt_or_ge k (i + 1) with hk | hk
        · omega
        · rw [hlater k hk, hnil, Climb.walk_nil]
          simp only [ne_eq, not_true_eq_false, or_false]
          omega
      · rename_i hmore
        rw [show base + 32 * i + 32 = base + 32 * (i + 1) by omega, ih (i + 1)]
        rcases Nat.lt_or_ge k (i + 1) with hk | hk
        · omega
        · rw [hlater k hk]
          rcases Nat.lt_or_ge (i + 1) k with hk' | hk'
          · have hne : k ≠ i := by omega
            have hne' : k ≠ i + 1 := by omega
            have hlen : i + 1 + (n + 1) = i + (n + 1 + 1) := by omega
            simp only [hne, hne', false_or, hlen, show ¬ k < i + 1 by omega, show ¬ k < i by omega,
              show i + 1 ≤ k from hk, show i ≤ k by omega, true_and]
          · obtain rfl : k = i + 1 := by omega
            rw [Nat.sub_self, Nat.mul_zero]
            simp only [Climb.walk, hmore, ne_eq, not_false_eq_true, or_true, and_true]
            omega

/-! ### The queue -/

/-- The addresses of elements. -/
def ptrs (queue : List XmitqElt) : List ℕ := queue.map XmitqElt.ptr

@[simp] theorem ptrs_nil : ptrs [] = [] := rfl

@[simp] theorem ptrs_cons (xqe : XmitqElt) (rest : List XmitqElt) :
    ptrs (xqe :: rest) = xqe.ptr :: ptrs rest := rfl

@[simp] theorem ptrs_append (l m : List XmitqElt) : ptrs (l ++ m) = ptrs l ++ ptrs m :=
  List.map_append

section Frame

variable (fack) (xqe : XmitqElt) (lost wasRequest : Bool)

@[simp] theorem trackCurrentBlast_kept :
    (trackCurrentBlast fack xqe lost s).kept = s.kept := by
  unfold trackCurrentBlast
  dsimp only
  split_ifs <;> rfl

@[simp] theorem trackCurrentBlast_rexmitq :
    (trackCurrentBlast fack xqe lost s).rexmitq = s.rexmitq := by
  unfold trackCurrentBlast
  dsimp only
  split_ifs <;> rfl

@[simp] theorem trackCurrentBlast_rexmitCnt :
    (trackCurrentBlast fack xqe lost s).rexmitCnt = s.rexmitCnt := by
  unfold trackCurrentBlast
  dsimp only
  split_ifs <;> rfl

@[simp] theorem leaveCwindow_kept : (leaveCwindow xqe wasRequest s).kept = s.kept := by
  unfold leaveCwindow
  split_ifs <;> rfl

@[simp] theorem leaveCwindow_rexmitq : (leaveCwindow xqe wasRequest s).rexmitq = s.rexmitq := by
  unfold leaveCwindow
  split_ifs <;> rfl

@[simp] theorem leaveCwindow_rexmitCnt :
    (leaveCwindow xqe wasRequest s).rexmitCnt = s.rexmitCnt := by
  unfold leaveCwindow
  split_ifs <;> rfl

end Frame

/-- What a loop may do with the queue: elements are kept in order, and those to send again are among
them, each counted. -/
structure Sifted (s s' : Scan) (seen stays : List XmitqElt) : Prop where
  kept : ptrs s'.kept = ptrs s.kept ++ ptrs stays
  rexmitq : ∃ again, s'.rexmitq = s.rexmitq ++ again ∧ again.Sublist (ptrs stays) ∧
    s'.rexmitCnt = s.rexmitCnt + BitVec.ofNat 32 again.length
  sub : stays.Sublist seen

theorem Sifted.refl : Sifted s s [] [] :=
  ⟨by simp, ⟨[], by simp, List.Sublist.refl _, by simp⟩, List.Sublist.refl _⟩

theorem Sifted.trans {s' s'' : Scan} {seen stays seen' stays' : List XmitqElt}
    (h : Sifted s s' seen stays) (h' : Sifted s' s'' seen' stays') :
    Sifted s s'' (seen ++ seen') (stays ++ stays') := by
  obtain ⟨again, hagain, hsub, hcnt⟩ := h.rexmitq
  obtain ⟨again', hagain', hsub', hcnt'⟩ := h'.rexmitq
  refine ⟨?_, ⟨again ++ again', ?_, ?_, ?_⟩, h.sub.append h'.sub⟩
  · rw [h'.kept, h.kept, ptrs_append, List.append_assoc]
  · rw [hagain', hagain, List.append_assoc]
  · rw [ptrs_append]
    exact hsub.append hsub'
  · rw [hcnt', hcnt, List.length_append, BitVec.ofNat_add, add_assoc]

theorem sifted_free (xqe : XmitqElt) {s' : Scan} (hkept : s'.kept = s.kept)
    (hrexmitq : s'.rexmitq = s.rexmitq) (hcnt : s'.rexmitCnt = s.rexmitCnt) :
    Sifted s (free xqe s') [xqe] [] :=
  ⟨by simp [free, hkept], ⟨[], by simp [free, hrexmitq], List.Sublist.refl _, by simp [free, hcnt]⟩,
    List.nil_sublist _⟩

theorem sifted_keep (xqe : XmitqElt) : Sifted s (keep xqe s) [xqe] [xqe] :=
  ⟨by simp [keep], ⟨[], by simp [keep], List.nil_sublist _, by simp [keep]⟩, List.Sublist.refl _⟩

theorem sifted_addRexmit (xqe : XmitqElt) {s' : Scan} (hkept : s'.kept = s.kept)
    (hrexmitq : s'.rexmitq = s.rexmitq) (hcnt : s'.rexmitCnt = s.rexmitCnt) :
    Sifted s (addRexmit xqe s') [xqe] [xqe] :=
  ⟨by simp [addRexmit, hkept],
    ⟨[xqe.ptr], by simp [addRexmit, hrexmitq], List.Sublist.refl _, by simp [addRexmit, hcnt]⟩,
    List.Sublist.refl _⟩

theorem sifted_markElt (acked : Bool) (xqe : XmitqElt) :
    Sifted s (markElt fack acked xqe s) [xqe] (if acked then [] else [xqe]) := by
  unfold markElt
  cases acked with
  | true => exact sifted_free xqe (by simp) (by simp) (by simp)
  | false =>
    rw [if_neg Bool.false_ne_true, if_neg Bool.false_ne_true]
    split
    · unfold markLost
      dsimp only
      split
      · exact sifted_addRexmit xqe (by simp) (by simp) (by simp)
      · exact sifted_addRexmit xqe (by simp) (by simp) (by simp)
    · exact sifted_keep xqe

/-- The elements that the mask was met by: those with their bit set are gone. -/
theorem sifted_mask {selack : ℕ → BitVec 32} {base : ℕ} (met : List XmitqElt) :
    Sifted s (met.foldl (fun s xqe => maskStep fack selack base xqe.num s xqe) s) met
      (met.filter fun xqe => !selackBit selack (xqe.num - base)) := by
  induction met generalizing s with
  | nil => exact Sifted.refl
  | cons xqe met ih =>
    have hhead : Sifted s (markElt fack (selackBit selack (xqe.num - base)) xqe s) [xqe] _ :=
      sifted_markElt _ xqe
    have h := hhead.trans ih
    rw [List.foldl_cons, List.filter_cons]
    cases hbit : selackBit selack (xqe.num - base) with
    | true => simpa [maskStep, hbit] using h
    | false => simpa [maskStep, hbit] using h

/-- The elements that have been sent are those before the first unsent one. -/
def sentPart (firstUnsent : Option ℕ) (queue : List XmitqElt) : List XmitqElt :=
  queue.takeWhile fun xqe => firstUnsent ≠ some xqe.ptr

def unsentPart (firstUnsent : Option ℕ) (queue : List XmitqElt) : List XmitqElt :=
  queue.dropWhile fun xqe => firstUnsent ≠ some xqe.ptr

/-- `first_unsent` is null or on the list. -/
def OnQueue (firstUnsent : Option ℕ) (queue : List XmitqElt) : Prop :=
  ∀ p, firstUnsent = some p → p ∈ ptrs queue

theorem onQueue_cons {xqe : XmitqElt} {rest : List XmitqElt} (hne : firstUnsent ≠ some xqe.ptr) :
    OnQueue firstUnsent (xqe :: rest) ↔ OnQueue firstUnsent rest := by
  refine forall_congr' fun p => imp_congr_right fun hp => ?_
  rw [ptrs_cons, List.mem_cons]
  refine or_iff_right fun h => hne ?_
  rw [hp, h]

theorem onQueue_nil : OnQueue firstUnsent [] ↔ firstUnsent = none := by
  cases firstUnsent with
  | none => exact iff_of_true nofun rfl
  | some p => exact iff_of_false (fun h => List.not_mem_nil (h p rfl)) nofun

/-- The last scan gets to the first unsent element, if that is on the rest of the queue; else it
reads through the end of it. -/
theorem tailScan_spec (curr : List XmitqElt) :
    (OnQueue firstUnsent curr → ∃ s', tailScan fack firstUnsent curr s
        = some (unsentPart firstUnsent curr, s') ∧
      Sifted s s' (sentPart firstUnsent curr) (sentPart firstUnsent curr)) ∧
    (¬ OnQueue firstUnsent curr → tailScan fack firstUnsent curr s = none) := by
  induction curr generalizing s with
  | nil =>
    rw [onQueue_nil]
    refine ⟨fun h => ⟨s, if_pos h, Sifted.refl⟩, fun h => if_neg h⟩
  | cons xqe rest ih =>
    rw [tailScan]
    by_cases hfirst : firstUnsent = some xqe.ptr
    · rw [if_pos hfirst]
      refine ⟨fun _ => ⟨s, ?_, ?_⟩, fun h => absurd ?_ h⟩
      · rw [unsentPart, List.dropWhile_cons_of_neg (by simp [hfirst])]
      · rw [sentPart, List.takeWhile_cons_of_neg (by simp [hfirst])]
        exact Sifted.refl
      · intro p hp
        rw [hfirst] at hp
        cases hp
        exact List.mem_cons_self
    · have hun : unsentPart firstUnsent (xqe :: rest) = unsentPart firstUnsent rest :=
        List.dropWhile_cons_of_pos (by simpa using hfirst)
      have hsent : sentPart firstUnsent (xqe :: rest) = xqe :: sentPart firstUnsent rest :=
        List.takeWhile_cons_of_pos (by simpa using hfirst)
      rw [if_neg hfirst, onQueue_cons hfirst, hun, hsent]
      have hpass : ∀ s₁ : Scan, Sifted s s₁ [xqe] [xqe] →
          (OnQueue firstUnsent rest → ∃ s', tailScan fack firstUnsent rest s₁
              = some (unsentPart firstUnsent rest, s') ∧
            Sifted s s' (xqe :: sentPart firstUnsent rest) (xqe :: sentPart firstUnsent rest)) ∧
          (¬ OnQueue firstUnsent rest → tailScan fack firstUnsent rest s₁ = none) := by
        intro s₁ h₁
        obtain ⟨hon, hoff⟩ := ih (s := s₁)
        refine ⟨fun h => ?_, hoff⟩
        obtain ⟨s', hs', hsifted⟩ := hon h
        exact ⟨s', hs', h₁.trans hsifted⟩
      split
      · exact hpass _ (sifted_addRexmit xqe (by simp) (by simp) (by simp))
      · exact hpass _ (sifted_keep xqe)

/-- The inclusive part stops at the first unsent element, and at the first one that the header does
not acknowledge. -/
theorem ackInclusive_spec (selacks : Bool) (queue : List XmitqElt)
    (h : OnQueue firstUnsent queue) :
    ∃ s', ackInclusive fack firstUnsent selacks queue s
        = some (queue.dropWhile fun xqe =>
            firstUnsent ≠ some xqe.ptr ∧ Serial.Le xqe.fragnum fack.fragnum, s') ∧
      s'.kept = s.kept ∧ s'.rexmitq = s.rexmitq ∧ s'.rexmitCnt = s.rexmitCnt := by
  induction queue generalizing s with
  | nil => exact ⟨s, if_pos (onQueue_nil.mp h), rfl, rfl, rfl⟩
  | cons xqe rest ih =>
    rw [ackInclusive]
    by_cases hfirst : firstUnsent = some xqe.ptr
    · rw [if_pos hfirst]
      refine ⟨s, ?_, rfl, rfl, rfl⟩
      rw [List.dropWhile_cons_of_neg (by simp [hfirst])]
    · rw [if_neg hfirst]
      by_cases hle : Serial.Le xqe.fragnum fack.fragnum
      · rw [if_pos hle, List.dropWhile_cons_of_pos (by simp [hfirst, hle])]
        obtain ⟨s', hs', hkept, hrexmitq, hcnt⟩ :=
          ih (s := ackHead fack selacks xqe s) ((onQueue_cons hfirst).mp h)
        have hframe : (ackHead fack selacks xqe s).kept = s.kept ∧
            (ackHead fack selacks xqe s).rexmitq = s.rexmitq ∧
            (ackHead fack selacks xqe s).rexmitCnt = s.rexmitCnt := by
          unfold ackHead
          cases selacks <;> simp [free]
        exact ⟨s', hs', hkept.trans hframe.1, hrexmitq.trans hframe.2.1, hcnt.trans hframe.2.2⟩
      · rw [if_neg hle, List.dropWhile_cons_of_neg (by simp [hle])]
        exact ⟨s, rfl, rfl, rfl, rfl⟩

end Selack

end Dg
