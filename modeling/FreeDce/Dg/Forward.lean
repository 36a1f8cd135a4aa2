/-
Requests that are forwarded to a server of the same machine (dgfwd.c, with `recv_pkt` in dglsn.c and
the two-packet forwards of `rpc__dg_do_common_request` in dgslsn.c).

The forwarder marks the header it has received and sends it on with the address of the sender: in
front of the body, or in a packet of its own if both would be too long.  The server undoes this.  A
packet may also be delayed until it is known where it goes.

* `run_one`, `run_two` — what the server has after one datagram and after two;
* `transparent_iff` — when it is what the forwarder had; `transparent_of_recvPkt` is this for a
  request as it was received;
* `step_spec` — the packets that are delayed;
* `forwarding_transparent` — both, for runs in which no two packets of an activity are delayed.
-/
import FreeDce.Dg.RecvPkt
import FreeDce.Lib.Bytes
import FreeDce.Lib.Runs

namespace Dg

namespace Forward

open RecvPkt (rawPktHdrSize maxPktBodySize rawPktSize fpktHdrSize subU clearsForwarded)

/-! ### Headers -/

/-- `rpc_dg_raw_pkt_hdr_t`. -/
abbrev RawHdr := Fin 80 → UInt8

/-- `RPC_C_DG_RPHO_FLAGS` and the others. -/
def rphoRpcVers : Fin 80 := 0
def rphoPtype : Fin 80 := 1
def rphoFlags : Fin 80 := 2
def rphoFlags2 : Fin 80 := 3
def rphoLen : Fin 80 := 74
def rphoLen1 : Fin 80 := 75

def pfForwarded : UInt8 := 1
def pf2Forwarded2 : UInt8 := 1
def ptypeMask : UInt8 := 0x1f
def versMask : UInt8 := 0x0f
def protoVers : UInt8 := 4
def ptMaxType : ℕ := 10
def initialMaxPktSize : ℕ := 1024

/-- `NDR_DREP_INT_REP`. -/
def intRep (raw : RawHdr) : UInt8 := raw 4 >>> 4

/-- A number in memory, on a machine whose integers are represented by `rep`: 1 is little endian. -/
def hostNum (rep : UInt8) (bytes : List UInt8) : ℕ :=
  Bytes.ofLE (if rep = 1 then bytes else bytes.reverse)

def hostBytes (rep : UInt8) (n v : ℕ) : List UInt8 :=
  if rep = 1 then Bytes.toLE n v else (Bytes.toLE n v).reverse

/-- A field of the header, its bytes swapped if the header was made by a machine of the other kind.
-/
def field (rep : UInt8) (raw : RawHdr) (at' : List (Fin 80)) : ℕ :=
  hostNum rep (if intRep raw = rep then at'.map raw else (at'.map raw).reverse)

/-- The fields of `rpc_dg_pkt_hdr_t` that are looked at. -/
structure Hdr where
  ptype : ℕ
  flags : UInt8
  flags2 : UInt8
  drep : List UInt8
  /-- The three numbers of the UUID and the bytes behind them. -/
  actuid : ℕ × ℕ × ℕ × List UInt8
  seq : ℕ
  len : ℕ
  fragnum : ℕ
deriving DecidableEq

/-- The header in usable form; `swab_hdr` if need be. -/
def readHdr (rep : UInt8) (raw : RawHdr) : Hdr where
  ptype := (raw rphoPtype &&& ptypeMask).toNat
  flags := raw rphoFlags
  flags2 := raw rphoFlags2
  drep := [raw 4, raw 5, raw 6]
  actuid := (field rep raw [40, 41, 42, 43], field rep raw [44, 45], field rep raw [46, 47],
    [raw 48, raw 49, raw 50, raw 51, raw 52, raw 53, raw 54, raw 55])
  seq := field rep raw [64, 65, 66, 67]
  len := field rep raw [rphoLen, rphoLen1]
  fragnum := field rep raw [76, 77]

def Hdr.isForwarded (hdr : Hdr) : Bool := hdr.flags &&& pfForwarded ≠ 0

def Hdr.isForwarded2 (hdr : Hdr) : Bool := hdr.flags2 &&& pf2Forwarded2 ≠ 0

/-! ### Packets -/

/-- A datagram with a header. -/
structure Datagram where
  raw : RawHdr
  rest : List UInt8
deriving DecidableEq

/-- `rpc_dg_recvq_elt_t`: `args` is what the first buffer holds behind the header, `moreData` what
the others hold.  `copy` is the header that `hdrp` points to, if it is not the received one. -/
structure Rqe where
  fromLen : ℕ
  sa : List UInt8
  raw : RawHdr
  copy : Option Hdr := none
  args : List UInt8
  moreData : List UInt8 := []
  pktLen : ℕ
  fragLen : ℕ
deriving DecidableEq

def Rqe.hdrp (rqe : Rqe) (rep : UInt8) : Hdr := rqe.copy.getD (readHdr rep rqe.raw)

/-- The body of a fragment. -/
def Rqe.body (rqe : Rqe) : List UInt8 :=
  rqe.args.take (rqe.pktLen - rawPktHdrSize) ++ rqe.moreData

/-- `rpc_dg_fpkt_hdr_t`, as it stands in memory. -/
def fpktHdr (rep : UInt8) (len : ℕ) (addr drep : List UInt8) : List UInt8 :=
  hostBytes rep 4 len ++ (addr ++ (drep ++ [0]))

def setDrep (raw : RawHdr) (drep : List UInt8) : RawHdr :=
  Function.update (Function.update (Function.update raw 4 (drep.getD 0 0)) 5 (drep.getD 1 0))
    6 (drep.getD 2 0)

/-- The address and the drep of a forwarded packet go to their places. -/
def Rqe.takeFpktHdr (rqe : Rqe) (rep : UInt8) (fhdr : List UInt8) : Rqe :=
  let drep := (fhdr.drop 20).take 3
  { rqe with
    fromLen := hostNum rep (fhdr.take 4)
    sa := (fhdr.drop 4).take 16
    copy := rqe.copy.map fun hdr => { hdr with drep := drep }
    raw := if rqe.copy.isSome then rqe.raw else setDrep rqe.raw drep }

/-- The loop that slides the body up. -/
def slideLoop : List UInt8 → ℕ → ℕ → List UInt8
  | args, _, 0 => args
  | args, i, j + 1 => slideLoop (args.set i (args.getD (fpktHdrSize + i) 0)) (i + 1) j

/-! ### Receiving -/

def unmarkForwarded (raw : RawHdr) : RawHdr :=
  Function.update raw rphoFlags (raw rphoFlags &&& ~~~pfForwarded)

def unmarkForwarded2 (raw : RawHdr) : RawHdr :=
  Function.update raw rphoFlags2 (raw rphoFlags2 &&& ~~~pf2Forwarded2)

/-- What `recv_pkt` does with a packet that is forwarded in one piece. -/
def Rqe.slide (rqe : Rqe) (rep : UInt8) : Rqe :=
  let rqe := rqe.takeFpktHdr rep (rqe.args.take fpktHdrSize)
  { rqe with
    fragLen := subU 32 rqe.fragLen fpktHdrSize
    pktLen := subU 16 rqe.pktLen fpktHdrSize
    args := slideLoop rqe.args 0 (subU 16 rqe.pktLen (rawPktHdrSize + fpktHdrSize))
    raw := unmarkForwarded rqe.raw }

/-- The forwarding bits of a packet that should not have them. -/
def Rqe.clearBits (rqe : Rqe) : Rqe :=
  match rqe.copy with
  | some hdr =>
    { rqe with
      copy := some { hdr with
        flags := hdr.flags &&& ~~~pfForwarded
        flags2 := hdr.flags2 &&& ~~~pf2Forwarded2 } }
  | none => { rqe with raw := unmarkForwarded2 (unmarkForwarded rqe.raw) }

/-- A receiver: the representation of integers on its machine, the buffers behind the first one, and
the address that the datagrams come from. -/
structure Receiver where
  rep : UInt8
  moreBufs : ℕ
  fromLen : ℕ
  sa : List UInt8

/-- What `recv_pkt` takes a datagram for, before it looks at the forwarding bits. -/
def Receiver.rqe (R : Receiver) (d : Datagram) : Rqe where
  fromLen := R.fromLen
  sa := R.sa
  raw := d.raw
  copy :=
    if intRep d.raw ≠ R.rep ∨ field R.rep d.raw [56, 57, 58, 59] = 0 then some (readHdr R.rep d.raw)
    else none
  args := d.rest.take maxPktBodySize
  moreData := d.rest.drop maxPktBodySize
  pktLen := rawPktHdrSize + min d.rest.length maxPktBodySize
  fragLen := rawPktHdrSize + d.rest.length

/-- `recv_pkt`; `none` is the count 0. -/
def Receiver.recvPkt (R : Receiver) (d : Datagram) : Option Rqe :=
  let rqe := R.rqe d
  if rawPktSize + maxPktBodySize * R.moreBufs < rqe.fragLen then none
  else if R.fromLen = 0 ∨ 16 < R.fromLen then none
  else if d.raw rphoRpcVers &&& versMask ≠ protoVers then none
  else if ptMaxType < (rqe.hdrp R.rep).ptype then none
  else if (rqe.hdrp R.rep).isForwarded && !clearsForwarded (rqe.hdrp R.rep).ptype then
    if (rqe.hdrp R.rep).isForwarded2 then some rqe else some (rqe.slide R.rep)
  else
    let rqe := if (rqe.hdrp R.rep).isForwarded then rqe.clearBits else rqe
    if rqe.fragLen < (rqe.hdrp R.rep).len + rawPktHdrSize then none else some rqe

/-- The first half of a two-packet forward that a call has, and the packets it has accepted. -/
structure Scall where
  fwd2Rqe : Option Rqe := none
  accepted : List Rqe := []

/-- The two halves belong together. -/
def secondHalf (rep : UInt8) (first rqe : Rqe) : Bool :=
  !(rqe.hdrp rep).isForwarded && (rqe.hdrp rep).actuid == (first.hdrp rep).actuid &&
    (rqe.hdrp rep).seq == (first.hdrp rep).seq && (rqe.hdrp rep).fragnum == (first.hdrp rep).fragnum

/-- The part of `rpc__dg_do_common_request` that joins the two halves. -/
def Scall.request (scall : Scall) (rep : UInt8) (rqe : Rqe) : Scall :=
  let joined : Scall × Rqe :=
    match scall.fwd2Rqe with
    | some first =>
      if secondHalf rep first rqe then
        ({ scall with fwd2Rqe := none }, rqe.takeFpktHdr rep (first.args.take fpktHdrSize))
      else (scall, rqe)
    | none => (scall, rqe)
  if (rqe.hdrp rep).isForwarded2 then { joined.1 with fwd2Rqe := some joined.2 }
  else { joined.1 with accepted := joined.1.accepted ++ [joined.2] }

def Scall.receive (R : Receiver) (scall : Scall) (d : Datagram) : Scall :=
  match R.recvPkt d with
  | some rqe => scall.request R.rep rqe
  | none => scall

/-! ### Forwarding -/

/-- `fhdr`: the address in it is as long as the sender's, what stands behind it is from before. -/
def Rqe.fhdr (rqe : Rqe) (rep : UInt8) (before : List UInt8) : List UInt8 :=
  fpktHdr rep rqe.fromLen (rqe.sa.take rqe.fromLen ++ before.drop rqe.fromLen) (rqe.hdrp rep).drep

def markForwarded (raw : RawHdr) : RawHdr :=
  Function.update raw rphoFlags (raw rphoFlags ||| pfForwarded)

/-- The header of the first piece. -/
def markForwarded2 (raw : RawHdr) : RawHdr :=
  Function.update (Function.update (Function.update raw
    rphoFlags2 (raw rphoFlags2 ||| pf2Forwarded2)) rphoLen 0) rphoLen1 0

/-- The header of the second piece: the bits are taken back, and the length `len`, `len1`. -/
def unmark (raw : RawHdr) (len len1 : UInt8) : RawHdr :=
  Function.update (Function.update (unmarkForwarded2 (unmarkForwarded raw)) rphoLen len)
    rphoLen1 len1

/-- `fwd_forward`, if what it sends can be sent: the datagrams. -/
def fwdForward (rep : UInt8) (before : List UInt8) (rqe : Rqe) : List Datagram :=
  let fhdr := rqe.fhdr rep before
  let raw := markForwarded rqe.raw
  let rest := rqe.args.take (rqe.pktLen - rawPktHdrSize)
  if rqe.pktLen + fpktHdrSize ≤ initialMaxPktSize then [⟨raw, fhdr ++ rest⟩]
  else
    let raw2 := markForwarded2 raw
    [⟨raw2, fhdr⟩, ⟨unmark raw2 (raw rphoLen) (raw rphoLen1), rest⟩]

/-- What the call has that the datagrams are for, if it had no first half. -/
def forwarded (R : Receiver) (before : List UInt8) (accepted : List Rqe) (rqe : Rqe) : Scall :=
  (fwdForward R.rep before rqe).foldl (Scall.receive R) { accepted := accepted }

/-- The same header, body, length and data representation, from the same address. -/
structure Same (rep : UInt8) (rqe rqe' : Rqe) : Prop where
  raw : rqe'.raw = rqe.raw
  body : rqe'.body = rqe.body
  fragLen : rqe'.fragLen = rqe.fragLen
  drep : (rqe'.hdrp rep).drep = (rqe.hdrp rep).drep
  fromLen : rqe'.fromLen = rqe.fromLen
  sa : rqe'.sa.take rqe.fromLen = rqe.sa.take rqe.fromLen

/-- The server has accepted what the forwarder had, and nothing else. -/
def Transparent (R : Receiver) (before : List UInt8) (accepted : List Rqe) (rqe : Rqe) : Prop :=
  ∃ rqe', (forwarded R before accepted rqe).accepted = accepted ++ [rqe'] ∧ Same R.rep rqe rqe'

/-- A request as `recv_pkt` leaves it. -/
structure Held (rep : UInt8) (rqe : Rqe) : Prop where
  vers : rqe.raw rphoRpcVers &&& versMask = protoVers
  ptype : rqe.raw rphoPtype &&& ptypeMask = 0
  drep : (rqe.hdrp rep).drep = [rqe.raw 4, rqe.raw 5, rqe.raw 6]
  fromLen : rqe.fromLen ≤ 16
  sa : rqe.sa.length = 16
  header : rawPktHdrSize ≤ rqe.pktLen
  args : rqe.pktLen ≤ rawPktHdrSize + rqe.args.length
  pktLen : rqe.pktLen ≤ rawPktSize
  moreData : rqe.moreData ≠ [] → rqe.pktLen = rawPktSize
  fragLen : rqe.fragLen = rqe.pktLen + rqe.moreData.length

/-- The server can receive: there is an address. -/
structure Receiver.Ready (R : Receiver) (before : List UInt8) : Prop where
  fromLen : 0 < R.fromLen ∧ R.fromLen ≤ 16
  before : before.length = 16

/-- No forwarding bit is set, the packet is in one buffer, and in two pieces it must be as long as
its header says. -/
structure Plain (rep : UInt8) (rqe : Rqe) : Prop where
  flags : rqe.raw rphoFlags &&& pfForwarded = 0
  flags2 : rqe.raw rphoFlags2 &&& pf2Forwarded2 = 0
  moreData : rqe.moreData = []
  len : initialMaxPktSize < rqe.pktLen + fpktHdrSize →
    (readHdr rep rqe.raw).len + rawPktHdrSize ≤ rqe.pktLen

variable {R : Receiver} {rep : UInt8} {before : List UInt8} {accepted : List Rqe}
  {rqe r : Rqe} {raw raw' : RawHdr} {d : Datagram}

/-! ### Bits and bytes -/

theorem or_and_distrib (a b c : UInt8) : (a ||| b) &&& c = (a &&& c) ||| (b &&& c) :=
  UInt8.toBitVec_inj.mp BitVec.and_or_distrib_right

theorem or_one_and_one (b : UInt8) : (b ||| 1) &&& 1 ≠ 0 := by
  rw [or_and_distrib]
  exact fun h => absurd (UInt8.or_eq_zero_iff.mp h).2 (by decide)

theorem and_not_one_and_one (b : UInt8) : b &&& ~~~1 &&& 1 = 0 := by
  rw [UInt8.and_assoc, UInt8.not_and_self, UInt8.and_zero]

theorem or_one_and_not_one (b : UInt8) : (b ||| 1) &&& ~~~1 = b &&& ~~~1 := by
  rw [or_and_distrib, UInt8.and_not_self, UInt8.or_zero]

theorem and_not_one_eq_iff (b : UInt8) : b &&& ~~~1 = b ↔ b &&& 1 = 0 := by
  refine ⟨fun h => ?_, fun h => ?_⟩
  · rw [← h]
    exact and_not_one_and_one b
  · calc b &&& ~~~1 = b &&& 1 ||| b &&& ~~~1 := by rw [h, UInt8.zero_or]
      _ = b &&& (1 ||| ~~~1) := by
        rw [UInt8.and_comm b, UInt8.and_comm b, ← or_and_distrib, UInt8.and_comm]
      _ = b := by rw [UInt8.or_not_self, UInt8.and_neg_one]

theorem or_one_and_not_one_eq_iff (b : UInt8) : (b ||| 1) &&& ~~~1 = b ↔ b &&& 1 = 0 := by
  rw [or_one_and_not_one, and_not_one_eq_iff]

theorem length_hostBytes (rep : UInt8) (n v : ℕ) : (hostBytes rep n v).length = n := by
  rw [hostBytes]
  split <;> simp

theorem hostNum_hostBytes {n v : ℕ} (h : v < 256 ^ n) : hostNum rep (hostBytes rep n v) = v := by
  rw [hostNum, hostBytes]
  split
  · exact Bytes.ofLE_toLE h
  · rw [List.reverse_reverse]
    exact Bytes.ofLE_toLE h

/-- The headers differ in the flags and the length at most. -/
def Agree (raw raw' : RawHdr) : Prop :=
  ∀ i, i ≠ rphoFlags → i ≠ rphoFlags2 → i ≠ rphoLen → i ≠ rphoLen1 → raw' i = raw i

/-- The bytes of the header that forwarding leaves alone. -/
theorem Agree.map_eq (h : Agree raw raw') {l : List (Fin 80)}
    (hl : ∀ i ∈ l, i ≠ rphoFlags ∧ i ≠ rphoFlags2 ∧ i ≠ rphoLen ∧ i ≠ rphoLen1) :
    l.map raw' = l.map raw :=
  List.map_congr_left fun i hi => h i (hl i hi).1 (hl i hi).2.1 (hl i hi).2.2.1 (hl i hi).2.2.2

theorem Agree.readHdr (h : Agree raw raw') : readHdr rep raw' =
    { readHdr rep raw with
      flags := raw' rphoFlags
      flags2 := raw' rphoFlags2
      len := field rep raw' [rphoLen, rphoLen1] } := by
  have hrep : intRep raw' = intRep raw := by rw [intRep, intRep, h 4] <;> decide
  have hptype : raw' rphoPtype = raw rphoPtype :=
    h 1 (by decide) (by decide) (by decide) (by decide)
  have hdrep : [4, 5, 6].map raw' = [4, 5, 6].map raw :=
    h.map_eq (by simp [rphoFlags, rphoFlags2, rphoLen, rphoLen1])
  have hnode : [48, 49, 50, 51, 52, 53, 54, 55].map raw' =
      [48, 49, 50, 51, 52, 53, 54, 55].map raw :=
    h.map_eq (by simp [rphoFlags, rphoFlags2, rphoLen, rphoLen1])
  have hfield : ∀ l : List (Fin 80),
      (∀ i ∈ l, i ≠ rphoFlags ∧ i ≠ rphoFlags2 ∧ i ≠ rphoLen ∧ i ≠ rphoLen1) →
      field rep raw' l = field rep raw l := by
    intro l hl
    rw [field, field, hrep, h.map_eq hl]
  have htime := hfield [40, 41, 42, 43] (by simp [rphoFlags, rphoFlags2, rphoLen, rphoLen1])
  have htime' := hfield [44, 45] (by simp [rphoFlags, rphoFlags2, rphoLen, rphoLen1])
  have htime'' := hfield [46, 47] (by simp [rphoFlags, rphoFlags2, rphoLen, rphoLen1])
  have hseq := hfield [64, 65, 66, 67] (by simp [rphoFlags, rphoFlags2, rphoLen, rphoLen1])
  have hfragnum := hfield [76, 77] (by simp [rphoFlags, rphoFlags2, rphoLen, rphoLen1])
  simp only [List.map_cons, List.map_nil] at hdrep hnode
  rw [Forward.readHdr, hptype, hdrep, hnode, htime, htime', htime'', hseq, hfragnum,
    Forward.readHdr]

theorem agree_markForwarded (raw : RawHdr) : Agree raw (markForwarded raw) := by
  intro i h2 _ _ _
  exact Function.update_of_ne h2 _ _

theorem Agree.markForwarded2 (h : Agree raw raw') : Agree raw (markForwarded2 raw') := by
  intro i h2 h3 h74 h75
  rw [Forward.markForwarded2, Function.update_of_ne h75, Function.update_of_ne h74,
    Function.update_of_ne h3, h i h2 h3 h74 h75]

theorem Agree.unmark (h : Agree raw raw') (len len1 : UInt8) :
    Agree raw (unmark raw' len len1) := by
  intro i h2 h3 h74 h75
  rw [Forward.unmark, Function.update_of_ne h75, Function.update_of_ne h74, unmarkForwarded2,
    Function.update_of_ne h3, unmarkForwarded, Function.update_of_ne h2, h i h2 h3 h74 h75]

theorem hdrp_rqe (R : Receiver) (d : Datagram) : (R.rqe d).hdrp R.rep = readHdr R.rep d.raw := by
  rw [Rqe.hdrp, Receiver.rqe]
  split <;> rfl

theorem length_fhdr (h : Held rep rqe) (hbefore : before.length = 16) :
    (rqe.fhdr rep before).length = fpktHdrSize := by
  rw [Rqe.fhdr, fpktHdr, h.drep, List.length_append, length_hostBytes, List.length_append,
    List.length_append, List.length_append, List.length_take, List.length_drop, h.sa, hbefore,
    Nat.min_eq_left h.fromLen, Nat.add_sub_cancel' h.fromLen]
  rfl

/-- The address and the drep are read as they were written; the drep is there already. -/
theorem takeFpktHdr_fhdr (h : Held rep rqe) (hbefore : before.length = 16)
    (hraw : ∀ i ∈ [4, 5, 6], r.raw i = rqe.raw i) (hcopy : ∀ hdr, r.copy = some hdr →
      hdr.drep = [rqe.raw 4, rqe.raw 5, rqe.raw 6]) :
    r.takeFpktHdr rep (rqe.fhdr rep before) = { r with
      fromLen := rqe.fromLen
      sa := rqe.sa.take rqe.fromLen ++ before.drop rqe.fromLen } := by
  have haddr : (rqe.sa.take rqe.fromLen ++ before.drop rqe.fromLen).length = 16 := by
    rw [List.length_append, List.length_take, List.length_drop, h.sa, hbefore,
      Nat.min_eq_left h.fromLen, Nat.add_sub_cancel' h.fromLen]
  have hlen := length_hostBytes rep 4 rqe.fromLen
  have htake : (rqe.fhdr rep before).take 4 = hostBytes rep 4 rqe.fromLen :=
    List.take_left' hlen
  have hdrop : (rqe.fhdr rep before).drop 4 =
      (rqe.sa.take rqe.fromLen ++ before.drop rqe.fromLen) ++
        ([rqe.raw 4, rqe.raw 5, rqe.raw 6] ++ [0]) := by
    rw [Rqe.fhdr, fpktHdr, h.drep]
    exact List.drop_left' hlen
  have hdrep : ((rqe.fhdr rep before).drop 20).take 3 = [rqe.raw 4, rqe.raw 5, rqe.raw 6] := by
    rw [show 20 = 4 + 16 from rfl, ← List.drop_drop, hdrop, List.drop_left' haddr]
    rfl
  have hset : setDrep r.raw [rqe.raw 4, rqe.raw 5, rqe.raw 6] = r.raw := by
    have h4 := hraw 4 (by decide)
    have h5 := hraw 5 (by decide)
    have h6 := hraw 6 (by decide)
    simp [setDrep, ← h4, ← h5, ← h6]
  have hnum : rqe.fromLen < 256 ^ 4 := lt_of_le_of_lt h.fromLen (by decide)
  have hmap : (r.copy.map fun hdr => { hdr with drep := [rqe.raw 4, rqe.raw 5, rqe.raw 6] }) =
      r.copy := by
    cases hc : r.copy with
    | none => rfl
    | some hdr =>
      rw [← hcopy hdr hc]
      rfl
  rw [Rqe.takeFpktHdr, hdrep, htake, hostNum_hostBytes hnum, hdrop, List.take_left' haddr, hset,
    hmap, ite_self]

/-! ### The body -/

theorem getElem?_slideLoop (args : List UInt8) (i j : ℕ) (h : fpktHdrSize + i + j ≤ args.length)
    (m : ℕ) : (slideLoop args i j)[m]? =
      if i ≤ m ∧ m < i + j then args[fpktHdrSize + m]? else args[m]? := by
  induction j generalizing args i with
  | zero => rw [slideLoop, if_neg (by omega)]
  | succ j ih =>
    rw [slideLoop, ih _ _ (by rw [List.length_set]; omega)]
    have hpos : 0 < fpktHdrSize := by decide
    -- the byte that is copied stands behind all that are written later
    by_cases hm : i = m
    · subst hm
      have hlt : fpktHdrSize + i < args.length := by omega
      rw [if_neg (by omega), if_pos (by omega), List.getElem?_set_self (by omega),
        List.getElem?_eq_getElem hlt, List.getD_eq_getElem _ _ hlt]
    · by_cases hc : i + 1 ≤ m ∧ m < i + 1 + j
      · rw [if_pos hc, if_pos (by omega), List.getElem?_set_ne (by omega)]
      · rw [if_neg hc, if_neg (by omega), List.getElem?_set_ne hm]

/-- What stood behind the address is the body. -/
theorem take_slideLoop (fhdr rest : List UInt8) (hlen : fhdr.length = fpktHdrSize) :
    (slideLoop (fhdr ++ rest) 0 rest.length).take rest.length = rest := by
  refine List.ext_getElem? fun m => ?_
  rw [List.getElem?_take]
  split
  · rw [getElem?_slideLoop _ _ _ (by rw [List.length_append]; omega), if_pos (by omega),
      List.getElem?_append_right (by omega), hlen, Nat.add_sub_cancel_left]
  · rw [List.getElem?_eq_none (by omega)]

/-! ### What arrives -/

/-- A packet as it is sent on, with the header `raw'`. -/
structure Arrived (rep : UInt8) (rqe : Rqe) (raw' : RawHdr) (r : Rqe) : Prop where
  raw : r.raw = raw'
  body : r.body = rqe.args.take (rqe.pktLen - rawPktHdrSize)
  fragLen : r.fragLen = rqe.pktLen
  drep : (r.hdrp rep).drep = (rqe.hdrp rep).drep
  fromLen : r.fromLen = rqe.fromLen
  sa : r.sa.take rqe.fromLen = rqe.sa.take rqe.fromLen

theorem Arrived.same_iff (h : Held rep rqe) (hr : Arrived rep rqe raw' r) :
    Same rep rqe r ↔ raw' = rqe.raw ∧ rqe.moreData = [] := by
  constructor
  · intro hsame
    refine ⟨hr.raw.symm.trans hsame.raw, List.eq_nil_of_length_eq_zero ?_⟩
    have hlen := hr.fragLen.symm.trans (hsame.fragLen.trans h.fragLen)
    omega
  · rintro ⟨hraw, hmore⟩
    refine ⟨hr.raw.trans hraw, ?_, ?_, hr.drep, hr.fromLen, hr.sa⟩
    · rw [hr.body, Rqe.body, hmore, List.append_nil]
    · rw [hr.fragLen, h.fragLen, hmore, List.length_nil, Nat.add_zero]

theorem take_sa (h : Held rep rqe) (before : List UInt8) :
    (rqe.sa.take rqe.fromLen ++ before.drop rqe.fromLen).take rqe.fromLen =
      rqe.sa.take rqe.fromLen := by
  refine List.take_left' ?_
  rw [List.length_take, h.sa, Nat.min_eq_left h.fromLen]

/-- Whether the header that is sent has the bits, the version and the type of a request. -/
theorem recvPkt_of_agree (h : Held R.rep rqe) (hR : R.Ready before) (hagree : Agree rqe.raw d.raw)
    (hlen : d.rest.length ≤ maxPktBodySize) :
    R.recvPkt d =
      if d.raw rphoFlags &&& pfForwarded ≠ 0 then
        if d.raw rphoFlags2 &&& pf2Forwarded2 ≠ 0 then some (R.rqe d)
        else some ((R.rqe d).slide R.rep)
      else if (R.rqe d).fragLen < field R.rep d.raw [rphoLen, rphoLen1] + rawPktHdrSize then none
      else some (R.rqe d) := by
  have hvers : d.raw rphoRpcVers = rqe.raw rphoRpcVers :=
    hagree _ (by decide) (by decide) (by decide) (by decide)
  have hptype : (readHdr R.rep d.raw).ptype = 0 := by
    rw [hagree.readHdr]
    exact congrArg UInt8.toNat h.ptype
  have hfrag : (R.rqe d).fragLen = rawPktHdrSize + d.rest.length := rfl
  rw [Receiver.recvPkt]
  dsimp only
  rw [if_neg (by rw [hfrag, rawPktSize]; omega), if_neg (by have := hR.fromLen; omega), hvers,
    h.vers, if_neg (not_not_intro rfl), hdrp_rqe, hptype, if_neg (Nat.not_lt_zero _)]
  by_cases hfwd : d.raw rphoFlags &&& pfForwarded = 0
  · have hoff : (readHdr R.rep d.raw).isForwarded = false := by
      rw [Hdr.isForwarded]
      exact decide_eq_false (not_not_intro hfwd)
    rw [hoff, if_neg (not_not_intro hfwd), Bool.false_and, if_neg Bool.false_ne_true,
      if_neg Bool.false_ne_true, hdrp_rqe]
    rfl
  · have hon : (readHdr R.rep d.raw).isForwarded = true := decide_eq_true hfwd
    rw [hon, if_pos hfwd]
    by_cases hfwd2 : d.raw rphoFlags2 &&& pf2Forwarded2 = 0
    · have hoff : (readHdr R.rep d.raw).isForwarded2 = false :=
        decide_eq_false (not_not_intro hfwd2)
      rw [hoff, if_neg (not_not_intro hfwd2)]
      rfl
    · have hon2 : (readHdr R.rep d.raw).isForwarded2 = true := decide_eq_true hfwd2
      rw [hon2, if_pos hfwd2]
      rfl

theorem isForwarded2_eq (hdr : Hdr) :
    hdr.isForwarded2 = decide (hdr.flags2 &&& pf2Forwarded2 ≠ 0) :=
  rfl

theorem length_sent (h : Held rep rqe) :
    (rqe.args.take (rqe.pktLen - rawPktHdrSize)).length = rqe.pktLen - rawPktHdrSize := by
  rw [List.length_take, Nat.min_eq_left]
  have := h.args
  omega

/-- The headers of the pieces that are sent. -/
def raw₁ (rqe : Rqe) : RawHdr := markForwarded rqe.raw

def raw₂ (rqe : Rqe) : RawHdr := markForwarded2 (raw₁ rqe)

def raw₃ (rqe : Rqe) : RawHdr := unmark (raw₂ rqe) (raw₁ rqe rphoLen) (raw₁ rqe rphoLen1)

theorem raw₁_flags (rqe : Rqe) : raw₁ rqe rphoFlags = rqe.raw rphoFlags ||| pfForwarded := by
  rw [raw₁, markForwarded, Function.update_self]

theorem raw₁_of_ne (rqe : Rqe) {i : Fin 80} (hi : i ≠ rphoFlags) : raw₁ rqe i = rqe.raw i := by
  rw [raw₁, markForwarded, Function.update_of_ne hi]

theorem raw₁_flags2 (rqe : Rqe) : raw₁ rqe rphoFlags2 = rqe.raw rphoFlags2 :=
  raw₁_of_ne rqe (by decide)

theorem agree_raw₁ (rqe : Rqe) : Agree rqe.raw (raw₁ rqe) := agree_markForwarded _

theorem copy_rqe {hdr : Hdr} (h : (R.rqe d).copy = some hdr) : hdr = readHdr R.rep d.raw := by
  rw [Receiver.rqe] at h
  split at h
  · exact (Option.some_inj.mp h).symm
  · cases h

theorem Agree.raw_drep (h : Agree raw raw') : ∀ i ∈ [4, 5, 6], raw' i = raw i := by
  intro i hi
  fin_cases hi <;> exact h _ (by decide) (by decide) (by decide) (by decide)

/-- The address in front of the body of what is received. -/
theorem takeFpktHdr_rqe (h : Held R.rep rqe) (hR : R.Ready before) (hagree : Agree rqe.raw d.raw) :
    (R.rqe d).takeFpktHdr R.rep (rqe.fhdr R.rep before) = { R.rqe d with
      fromLen := rqe.fromLen
      sa := rqe.sa.take rqe.fromLen ++ before.drop rqe.fromLen } := by
  have hdrep := hagree.raw_drep
  refine takeFpktHdr_fhdr h hR.before hdrep fun hdr hcopy => ?_
  rw [copy_rqe hcopy, ← hdrep 4 (by decide), ← hdrep 5 (by decide), ← hdrep 6 (by decide)]
  rfl

theorem subU_add {w a b : ℕ} (h : a + b < 2 ^ w) : subU w (a + b) b = a := by
  rw [RecvPkt.subU_of_le (Nat.le_add_left b a) h, Nat.add_sub_cancel]

/-- The packet whose body was slid up. -/
theorem arrived_slide (h : Held R.rep rqe) (hR : R.Ready before)
    (hlen : rqe.pktLen + fpktHdrSize ≤ initialMaxPktSize)
    (hd : d = ⟨raw₁ rqe, rqe.fhdr R.rep before ++ rqe.args.take (rqe.pktLen - rawPktHdrSize)⟩) :
    Arrived R.rep rqe (unmarkForwarded (raw₁ rqe)) ((R.rqe d).slide R.rep) ∧
      (((R.rqe d).slide R.rep).hdrp R.rep).flags2 = rqe.raw rphoFlags2 := by
  have hsizes : rawPktHdrSize = 80 ∧ fpktHdrSize = 24 ∧ maxPktBodySize = 4240 ∧
      initialMaxPktSize = 1024 := ⟨rfl, rfl, rfl, rfl⟩
  have hpkt := h.header
  have hsent := length_sent h
  have hfhdr := length_fhdr h hR.before
  have hrest : d.rest.length = rqe.pktLen - rawPktHdrSize + fpktHdrSize := by
    rw [hd, List.length_append, hfhdr, hsent, Nat.add_comm]
  have hargs : (R.rqe d).args =
      rqe.fhdr R.rep before ++ rqe.args.take (rqe.pktLen - rawPktHdrSize) := by
    have htake : (R.rqe d).args = d.rest := List.take_of_length_le (by omega)
    rw [htake, hd]
  have hpktLen : (R.rqe d).pktLen = rqe.pktLen + fpktHdrSize := by
    show rawPktHdrSize + min d.rest.length maxPktBodySize = _
    omega
  have hfragLen : (R.rqe d).fragLen = rqe.pktLen + fpktHdrSize := by
    show rawPktHdrSize + d.rest.length = _
    omega
  have hagree : Agree rqe.raw d.raw := hd ▸ agree_raw₁ rqe
  have hraw : (R.rqe d).raw = raw₁ rqe := by rw [Receiver.rqe, hd]
  have hmore : (R.rqe d).moreData = [] := List.drop_eq_nil_of_le (by omega)
  have hfwdLen : subU 16 (rqe.pktLen + fpktHdrSize) (rawPktHdrSize + fpktHdrSize) =
      rqe.pktLen - rawPktHdrSize := by
    rw [show rqe.pktLen + fpktHdrSize =
      rqe.pktLen - rawPktHdrSize + (rawPktHdrSize + fpktHdrSize) by omega]
    exact subU_add (by omega)
  -- the address and the drep are in their places, the body where it belongs, the bit is clear
  have hslide : (R.rqe d).slide R.rep = { R.rqe d with
      fromLen := rqe.fromLen
      sa := rqe.sa.take rqe.fromLen ++ before.drop rqe.fromLen
      fragLen := rqe.pktLen
      pktLen := rqe.pktLen
      args := slideLoop (rqe.fhdr R.rep before ++ rqe.args.take (rqe.pktLen - rawPktHdrSize)) 0
        (rqe.pktLen - rawPktHdrSize)
      raw := unmarkForwarded (raw₁ rqe) } := by
    rw [Rqe.slide, hargs, List.take_left' hfhdr, takeFpktHdr_rqe h hR hagree]
    dsimp only
    rw [hargs, hfragLen, hpktLen, hfwdLen, subU_add (by omega), subU_add (by omega), hraw]
  have hhdr : (((R.rqe d).slide R.rep).hdrp R.rep).drep = (rqe.hdrp R.rep).drep ∧
      (((R.rqe d).slide R.rep).hdrp R.rep).flags2 = rqe.raw rphoFlags2 := by
    rw [hslide, h.drep, Rqe.hdrp]
    dsimp only
    cases hcopy : (R.rqe d).copy with
    | none =>
      have hunmark : Agree rqe.raw (unmarkForwarded (raw₁ rqe)) := by
        intro i h2 h3 h74 h75
        rw [unmarkForwarded, Function.update_of_ne h2]
        exact agree_raw₁ rqe i h2 h3 h74 h75
      rw [Option.getD_none, hunmark.readHdr]
      refine ⟨rfl, ?_⟩
      show unmarkForwarded (raw₁ rqe) rphoFlags2 = _
      rw [unmarkForwarded, Function.update_of_ne (show rphoFlags2 ≠ rphoFlags by decide),
        raw₁_flags2]
    | some hdr =>
      rw [Option.getD_some, copy_rqe hcopy, hagree.readHdr]
      refine ⟨rfl, ?_⟩
      rw [hd]
      exact raw₁_flags2 rqe
  refine ⟨⟨?_, ?_, ?_, hhdr.1, ?_, ?_⟩, hhdr.2⟩
  · rw [hslide]
  · rw [hslide, Rqe.body]
    dsimp only
    have htake := take_slideLoop (rqe.fhdr R.rep before)
      (rqe.args.take (rqe.pktLen - rawPktHdrSize)) hfhdr
    rw [hsent] at htake
    rw [htake, hmore, List.append_nil]
  · rw [hslide]
  · rw [hslide]
  · rw [hslide]
    exact take_sa h before

/-- What the server has after one datagram. -/
theorem run_one (accepted : List Rqe) (h : Held R.rep rqe) (hR : R.Ready before)
    (hlen : rqe.pktLen + fpktHdrSize ≤ initialMaxPktSize) :
    if rqe.raw rphoFlags2 &&& pf2Forwarded2 ≠ 0 then
      (forwarded R before accepted rqe).accepted = accepted
    else ∃ r, (forwarded R before accepted rqe).accepted = accepted ++ [r] ∧
      Arrived R.rep rqe (unmarkForwarded (raw₁ rqe)) r := by
  obtain ⟨d, hd⟩ : ∃ d : Datagram, d =
      ⟨raw₁ rqe, rqe.fhdr R.rep before ++ rqe.args.take (rqe.pktLen - rawPktHdrSize)⟩ := ⟨_, rfl⟩
  have hrun : forwarded R before accepted rqe = Scall.receive R { accepted := accepted } d := by
    rw [forwarded, fwdForward]
    dsimp only
    rw [if_pos hlen, hd]
    rfl
  have hagree : Agree rqe.raw d.raw := hd ▸ agree_raw₁ rqe
  have hflags : d.raw rphoFlags &&& pfForwarded ≠ 0 := by
    rw [hd]
    dsimp only
    rw [raw₁_flags]
    exact or_one_and_one _
  have hflags2 : d.raw rphoFlags2 = rqe.raw rphoFlags2 := by
    rw [hd]
    exact raw₁_flags2 rqe
  have hsizes : rawPktHdrSize = 80 ∧ fpktHdrSize = 24 ∧ maxPktBodySize = 4240 ∧
      initialMaxPktSize = 1024 := ⟨rfl, rfl, rfl, rfl⟩
  have hrest : d.rest.length ≤ maxPktBodySize := by
    rw [hd, List.length_append, length_fhdr h hR.before, length_sent h]
    omega
  have hrecv := recvPkt_of_agree h hR hagree hrest
  rw [if_pos hflags, hflags2] at hrecv
  rw [hrun, Scall.receive, hrecv]
  by_cases hfwd2 : rqe.raw rphoFlags2 &&& pf2Forwarded2 = 0
  · obtain ⟨harrived, hslid⟩ := arrived_slide h hR hlen hd
    rw [if_neg (not_not_intro hfwd2), if_neg (not_not_intro hfwd2)]
    refine ⟨_, ?_, harrived⟩
    dsimp only
    rw [Scall.request]
    dsimp only
    rw [isForwarded2_eq, hslid, if_neg (by simpa using hfwd2)]
  · have hhdr2 : ((R.rqe d).hdrp R.rep).flags2 = rqe.raw rphoFlags2 := by
      rw [hdrp_rqe, hagree.readHdr]
      exact hflags2
    rw [if_pos hfwd2, if_pos hfwd2]
    dsimp only
    rw [Scall.request]
    dsimp only
    rw [isForwarded2_eq, hhdr2, if_pos (decide_eq_true hfwd2)]

theorem raw₂_flags (rqe : Rqe) : raw₂ rqe rphoFlags = raw₁ rqe rphoFlags := by
  rw [raw₂, markForwarded2, Function.update_of_ne (show rphoFlags ≠ rphoLen1 by decide),
    Function.update_of_ne (show rphoFlags ≠ rphoLen by decide),
    Function.update_of_ne (show rphoFlags ≠ rphoFlags2 by decide)]

theorem raw₂_flags2 (rqe : Rqe) :
    raw₂ rqe rphoFlags2 = raw₁ rqe rphoFlags2 ||| pf2Forwarded2 := by
  rw [raw₂, markForwarded2, Function.update_of_ne (show rphoFlags2 ≠ rphoLen1 by decide),
    Function.update_of_ne (show rphoFlags2 ≠ rphoLen by decide), Function.update_self]

theorem field_len (h : Agree raw raw') (hlen : raw' rphoLen = raw rphoLen)
    (hlen1 : raw' rphoLen1 = raw rphoLen1) :
    field rep raw' [rphoLen, rphoLen1] = (readHdr rep raw).len := by
  have hrep : intRep raw' = intRep raw := by rw [intRep, intRep, h 4] <;> decide
  rw [readHdr, field, field, hrep, List.map_cons, List.map_cons, hlen, hlen1]
  rfl

theorem agree_raw₃ (rqe : Rqe) : Agree rqe.raw (raw₃ rqe) :=
  (agree_raw₁ rqe).markForwarded2.unmark _ _

/-- The second header is the one received, without the bits. -/
theorem raw₃_eq (rqe : Rqe) : raw₃ rqe = unmarkForwarded2 (unmarkForwarded (raw₁ rqe)) := by
  funext i
  have hlen : rphoLen ≠ rphoFlags ∧ rphoLen ≠ rphoFlags2 ∧ rphoLen ≠ rphoLen1 := by decide
  have hlen1 : rphoLen1 ≠ rphoFlags ∧ rphoLen1 ≠ rphoFlags2 := by decide
  have hflags : rphoFlags ≠ rphoFlags2 ∧ rphoFlags ≠ rphoLen ∧ rphoFlags ≠ rphoLen1 := by decide
  have hflags2 : rphoFlags2 ≠ rphoFlags ∧ rphoFlags2 ≠ rphoLen ∧ rphoFlags2 ≠ rphoLen1 := by decide
  rw [raw₃, unmark, raw₂, markForwarded2, unmarkForwarded2, unmarkForwarded, unmarkForwarded2,
    unmarkForwarded]
  simp only [Function.update_apply]
  by_cases h1 : i = rphoLen1
  · simp [h1, hlen1]
  by_cases h0 : i = rphoLen
  · simp [h0, hlen]
  by_cases h2 : i = rphoFlags2
  · simp only [h2, hflags2, if_false, if_true]
    exact or_one_and_not_one _
  · simp [h0, h1, h2, hflags]

theorem raw₃_flags (rqe : Rqe) : raw₃ rqe rphoFlags = raw₁ rqe rphoFlags &&& ~~~pfForwarded := by
  rw [raw₃_eq, unmarkForwarded2, Function.update_of_ne (show rphoFlags ≠ rphoFlags2 by decide),
    unmarkForwarded, Function.update_self]

theorem raw₃_flags2 (rqe : Rqe) :
    raw₃ rqe rphoFlags2 = rqe.raw rphoFlags2 &&& ~~~pf2Forwarded2 := by
  rw [raw₃_eq, unmarkForwarded2, Function.update_self, unmarkForwarded,
    Function.update_of_ne (show rphoFlags2 ≠ rphoFlags by decide), raw₁_flags2]

theorem raw₃_of_ne (rqe : Rqe) {i : Fin 80} (h : i ≠ rphoFlags) (h2 : i ≠ rphoFlags2) :
    raw₃ rqe i = rqe.raw i := by
  rw [raw₃_eq, unmarkForwarded2, Function.update_of_ne h2, unmarkForwarded,
    Function.update_of_ne h, raw₁_of_ne rqe h]

theorem raw₃_len (rqe : Rqe) : raw₃ rqe rphoLen = rqe.raw rphoLen :=
  raw₃_of_ne rqe (by decide) (by decide)

theorem raw₃_len1 (rqe : Rqe) : raw₃ rqe rphoLen1 = rqe.raw rphoLen1 :=
  raw₃_of_ne rqe (by decide) (by decide)

/-- What the server has after two datagrams. -/
theorem run_two (accepted : List Rqe) (h : Held R.rep rqe) (hR : R.Ready before)
    (hlen : ¬ rqe.pktLen + fpktHdrSize ≤ initialMaxPktSize) :
    if rqe.pktLen < (readHdr R.rep rqe.raw).len + rawPktHdrSize then
      (forwarded R before accepted rqe).accepted = accepted
    else ∃ r, (forwarded R before accepted rqe).accepted = accepted ++ [r] ∧
      Arrived R.rep rqe (raw₃ rqe) r := by
  have hsizes : rawPktHdrSize = 80 ∧ fpktHdrSize = 24 ∧ maxPktBodySize = 4240 ∧
      rawPktSize = 4320 := ⟨rfl, rfl, rfl, rfl⟩
  have hpkt := h.header
  have hpktLen := h.pktLen
  have hsent := length_sent h
  have hfhdr := length_fhdr h hR.before
  obtain ⟨d₁, hd₁⟩ : ∃ d : Datagram, d = ⟨raw₂ rqe, rqe.fhdr R.rep before⟩ := ⟨_, rfl⟩
  obtain ⟨d₂, hd₂⟩ : ∃ d : Datagram, d =
      ⟨raw₃ rqe, rqe.args.take (rqe.pktLen - rawPktHdrSize)⟩ := ⟨_, rfl⟩
  have hrun : forwarded R before accepted rqe =
      Scall.receive R (Scall.receive R { accepted := accepted } d₁) d₂ := by
    rw [forwarded, fwdForward]
    dsimp only
    rw [if_neg hlen, hd₁, hd₂]
    rfl
  have hagree₁ : Agree rqe.raw d₁.raw := hd₁ ▸ (agree_raw₁ rqe).markForwarded2
  have hagree₂ : Agree rqe.raw d₂.raw := hd₂ ▸ agree_raw₃ rqe
  have hrest₁ : d₁.rest = rqe.fhdr R.rep before := by rw [hd₁]
  have hrest₂ : d₂.rest = rqe.args.take (rqe.pktLen - rawPktHdrSize) := by rw [hd₂]
  have hflags₁ : d₁.raw rphoFlags &&& pfForwarded ≠ 0 := by
    rw [hd₁]
    show raw₂ rqe rphoFlags &&& pfForwarded ≠ 0
    rw [raw₂_flags, raw₁_flags]
    exact or_one_and_one _
  have hflags2₁ : d₁.raw rphoFlags2 &&& pf2Forwarded2 ≠ 0 := by
    rw [hd₁]
    show raw₂ rqe rphoFlags2 &&& pf2Forwarded2 ≠ 0
    rw [raw₂_flags2]
    exact or_one_and_one _
  have hflags₂ : d₂.raw rphoFlags &&& pfForwarded = 0 := by
    rw [hd₂]
    show raw₃ rqe rphoFlags &&& pfForwarded = 0
    rw [raw₃_flags]
    exact and_not_one_and_one _
  have hflags2₂ : d₂.raw rphoFlags2 &&& pf2Forwarded2 = 0 := by
    rw [hd₂]
    show raw₃ rqe rphoFlags2 &&& pf2Forwarded2 = 0
    rw [raw₃_flags2]
    exact and_not_one_and_one _
  have hargs₁ : (R.rqe d₁).args.take fpktHdrSize = rqe.fhdr R.rep before := by
    have htake : (R.rqe d₁).args = d₁.rest := List.take_of_length_le (by rw [hrest₁]; omega)
    rw [htake, hrest₁, List.take_of_length_le hfhdr.le]
  -- the first piece is kept
  have hfirst : Scall.receive R { accepted := accepted } d₁ =
      { fwd2Rqe := some (R.rqe d₁), accepted := accepted } := by
    have hrecv := recvPkt_of_agree h hR hagree₁ (by rw [hrest₁]; omega)
    rw [if_pos hflags₁, if_pos hflags2₁] at hrecv
    have hkept : ((R.rqe d₁).hdrp R.rep).isForwarded2 = true := by
      rw [hdrp_rqe]
      exact decide_eq_true hflags2₁
    rw [Scall.receive, hrecv]
    dsimp only
    rw [Scall.request]
    dsimp only
    rw [if_pos hkept]
  have hrecv := recvPkt_of_agree h hR hagree₂ (by rw [hrest₂]; omega)
  have hfragLen : (R.rqe d₂).fragLen = rqe.pktLen := by
    show rawPktHdrSize + d₂.rest.length = _
    rw [hrest₂]
    omega
  have hlen₂ : field R.rep d₂.raw [rphoLen, rphoLen1] = (readHdr R.rep rqe.raw).len := by
    refine field_len hagree₂ ?_ ?_
    · rw [hd₂]
      exact raw₃_len rqe
    · rw [hd₂]
      exact raw₃_len1 rqe
  rw [if_neg (not_not_intro hflags₂), hfragLen, hlen₂] at hrecv
  rw [hrun, hfirst, Scall.receive, hrecv]
  by_cases hshort : rqe.pktLen < (readHdr R.rep rqe.raw).len + rawPktHdrSize
  · rw [if_pos hshort, if_pos hshort]
  · rw [if_neg hshort, if_neg hshort]
    have hjoin : secondHalf R.rep (R.rqe d₁) (R.rqe d₂) = true := by
      have hoff : (readHdr R.rep d₂.raw).isForwarded = false :=
        decide_eq_false (not_not_intro hflags₂)
      rw [secondHalf, hdrp_rqe, hdrp_rqe, hoff, hagree₁.readHdr, hagree₂.readHdr]
      simp
    have hoff2 : ((R.rqe d₂).hdrp R.rep).isForwarded2 = false := by
      rw [hdrp_rqe]
      exact decide_eq_false (not_not_intro hflags2₂)
    refine ⟨(R.rqe d₂).takeFpktHdr R.rep (rqe.fhdr R.rep before), ?_, ?_⟩
    · dsimp only
      rw [Scall.request]
      dsimp only
      rw [if_pos hjoin, hoff2, hargs₁, if_neg Bool.false_ne_true]
    · have hargs : (R.rqe d₂).args = d₂.rest := List.take_of_length_le (by rw [hrest₂]; omega)
      have hmore : (R.rqe d₂).moreData = [] := List.drop_eq_nil_of_le (by rw [hrest₂]; omega)
      have hpkt₂ : (R.rqe d₂).pktLen = rqe.pktLen := by
        show rawPktHdrSize + min d₂.rest.length maxPktBodySize = _
        rw [hrest₂]
        omega
      rw [takeFpktHdr_rqe h hR hagree₂]
      refine ⟨?_, ?_, hfragLen, ?_, rfl, take_sa h before⟩
      · rw [Receiver.rqe, hd₂]
      · rw [Rqe.body]
        dsimp only
        rw [hargs, hmore, hpkt₂, hrest₂, List.append_nil, List.take_of_length_le hsent.le]
      · have hhdr := hdrp_rqe R d₂
        rw [hagree₂.readHdr] at hhdr
        rw [h.drep]
        exact congrArg Hdr.drep hhdr

theorem unmarkForwarded_raw₁_iff (rqe : Rqe) :
    unmarkForwarded (raw₁ rqe) = rqe.raw ↔ rqe.raw rphoFlags &&& pfForwarded = 0 := by
  have hflags : unmarkForwarded (raw₁ rqe) rphoFlags =
      (rqe.raw rphoFlags ||| pfForwarded) &&& ~~~pfForwarded := by
    rw [unmarkForwarded, Function.update_self, raw₁_flags]
  constructor
  · intro h
    exact (or_one_and_not_one_eq_iff _).mp (hflags.symm.trans (congrFun h rphoFlags))
  · intro h
    funext i
    by_cases hi : i = rphoFlags
    · rw [hi, hflags]
      exact (or_one_and_not_one_eq_iff _).mpr h
    · rw [unmarkForwarded, Function.update_of_ne hi, raw₁_of_ne rqe hi]

theorem raw₃_iff (rqe : Rqe) : raw₃ rqe = rqe.raw ↔
    rqe.raw rphoFlags &&& pfForwarded = 0 ∧ rqe.raw rphoFlags2 &&& pf2Forwarded2 = 0 := by
  have hflags : raw₃ rqe rphoFlags = (rqe.raw rphoFlags ||| pfForwarded) &&& ~~~pfForwarded := by
    rw [raw₃_flags, raw₁_flags]
  constructor
  · intro h
    exact ⟨(or_one_and_not_one_eq_iff _).mp (hflags.symm.trans (congrFun h rphoFlags)),
      (and_not_one_eq_iff _).mp ((raw₃_flags2 rqe).symm.trans (congrFun h rphoFlags2))⟩
  · rintro ⟨h, h2⟩
    funext i
    by_cases hi : i = rphoFlags
    · rw [hi, hflags]
      exact (or_one_and_not_one_eq_iff _).mpr h
    by_cases hi2 : i = rphoFlags2
    · rw [hi2, raw₃_flags2]
      exact (and_not_one_eq_iff _).mpr h2
    · exact raw₃_of_ne rqe hi hi2

theorem transparent_iff_same (hr : (forwarded R before accepted rqe).accepted = accepted ++ [r]) :
    Transparent R before accepted rqe ↔ Same R.rep rqe r := by
  constructor
  · rintro ⟨r', hr', hsame⟩
    have heq : [r] = [r'] := List.append_cancel_left (hr.symm.trans hr')
    exact (List.singleton_inj.mp heq) ▸ hsame
  · exact fun hsame => ⟨r, hr, hsame⟩

theorem not_transparent_of_nothing (hr : (forwarded R before accepted rqe).accepted = accepted) :
    ¬ Transparent R before accepted rqe := by
  rintro ⟨r', hr', -⟩
  have hlen := congrArg List.length (hr.symm.trans hr')
  simp at hlen

/-- **Forwarding is transparent** for a packet in one buffer without forwarding bits, as long as its
header says if it goes in two pieces; and for no other. -/
theorem transparent_iff (h : Held R.rep rqe) (hR : R.Ready before) :
    Transparent R before accepted rqe ↔ Plain R.rep rqe := by
  by_cases hlen : rqe.pktLen + fpktHdrSize ≤ initialMaxPktSize
  · -- one datagram: the packet is short, so it is in one buffer
    have hmore : rqe.moreData = [] := by
      by_contra hne
      rw [h.moreData hne] at hlen
      exact absurd hlen (by decide)
    have hrun := run_one accepted h hR hlen
    by_cases hfwd2 : rqe.raw rphoFlags2 &&& pf2Forwarded2 = 0
    · rw [if_neg (not_not_intro hfwd2)] at hrun
      obtain ⟨r, haccepted, harrived⟩ := hrun
      rw [transparent_iff_same haccepted, harrived.same_iff h, unmarkForwarded_raw₁_iff]
      exact ⟨fun hc => ⟨hc.1, hfwd2, hmore, fun hlt => absurd hlen (Nat.not_le_of_lt hlt)⟩,
        fun hp => ⟨hp.flags, hmore⟩⟩
    · rw [if_pos hfwd2] at hrun
      exact iff_of_false (not_transparent_of_nothing hrun) fun hp => hfwd2 hp.flags2
  · have hrun := run_two accepted h hR hlen
    by_cases hshort : rqe.pktLen < (readHdr R.rep rqe.raw).len + rawPktHdrSize
    · rw [if_pos hshort] at hrun
      exact iff_of_false (not_transparent_of_nothing hrun) fun hp =>
        absurd (hp.len (Nat.lt_of_not_le hlen)) (Nat.not_le_of_lt hshort)
    · rw [if_neg hshort] at hrun
      obtain ⟨r, haccepted, harrived⟩ := hrun
      rw [transparent_iff_same haccepted, harrived.same_iff h, raw₃_iff]
      exact ⟨fun hc => ⟨hc.1.1, hc.1.2, hc.2, fun _ => Nat.le_of_not_lt hshort⟩,
        fun hp => ⟨⟨hp.flags, hp.flags2⟩, hp.moreData⟩⟩

/-- A request that is received without forwarding bits. -/
theorem held_of_recvPkt (hrecv : R.recvPkt d = some r) (hsa : R.sa.length = 16)
    (hptype : d.raw rphoPtype &&& ptypeMask = 0) (hflags : d.raw rphoFlags &&& pfForwarded = 0) :
    r = R.rqe d ∧ Held R.rep r ∧ (readHdr R.rep r.raw).len + rawPktHdrSize ≤ r.fragLen := by
  have hoff : ((R.rqe d).hdrp R.rep).isForwarded = false := by
    rw [hdrp_rqe]
    exact decide_eq_false (not_not_intro hflags)
  rw [Receiver.recvPkt] at hrecv
  dsimp only at hrecv
  split at hrecv
  · cases hrecv
  split at hrecv
  · cases hrecv
  rename_i hfrom
  split at hrecv
  · cases hrecv
  rename_i hvers
  split at hrecv
  · cases hrecv
  rw [hoff, Bool.false_and, if_neg Bool.false_ne_true, if_neg Bool.false_ne_true] at hrecv
  split at hrecv
  · cases hrecv
  rename_i hlen
  cases hrecv
  refine ⟨rfl, ?_, ?_⟩
  · constructor
    · exact not_not.mp hvers
    · exact hptype
    · rw [hdrp_rqe]
      rfl
    · exact Nat.le_of_not_lt fun hlt => hfrom (.inr hlt)
    · exact hsa
    · exact Nat.le_add_right _ _
    · refine Nat.add_le_add_left ?_ _
      rw [Receiver.rqe, List.length_take, Nat.min_comm]
    · exact Nat.add_le_add_left (Nat.min_le_right _ _) _
    · intro hmore
      have hlt : maxPktBodySize < d.rest.length := by
        by_contra hle
        exact hmore (List.drop_eq_nil_of_le (Nat.le_of_not_lt hle))
      rw [Receiver.rqe, rawPktSize, Nat.min_eq_right hlt.le]
    · rw [Receiver.rqe]
      dsimp only
      rw [List.length_drop]
      omega
  · rw [hdrp_rqe] at hlen
    exact Nat.le_of_not_lt hlen

/-- It is forwarded as it was received, if it is in one buffer. -/
theorem transparent_of_recvPkt {D : Receiver} (hrecv : D.recvPkt d = some r)
    (hrep : D.rep = R.rep) (hsa : D.sa.length = 16) (hR : R.Ready before)
    (hptype : d.raw rphoPtype &&& ptypeMask = 0) (hflags : d.raw rphoFlags &&& pfForwarded = 0)
    (hflags2 : d.raw rphoFlags2 &&& pf2Forwarded2 = 0) (hrest : d.rest.length ≤ maxPktBodySize) :
    Transparent R before accepted r := by
  obtain ⟨rfl, hheld, hlen⟩ := held_of_recvPkt hrecv hsa hptype hflags
  have hmore : (D.rqe d).moreData = [] := List.drop_eq_nil_of_le hrest
  rw [hrep] at hheld hlen
  refine (transparent_iff hheld hR).mpr ⟨hflags, hflags2, hmore, fun _ => ?_⟩
  rwa [hheld.fragLen, hmore, List.length_nil, Nat.add_zero] at hlen

/-! ### Delayed packets -/

/-- `rpc_fwd_action_t`. -/
inductive FwdAction
  | drop
  | reject
  | forward
  | delayed
deriving DecidableEq

/-- `pkt_list_element_t`, with the number of the packet; `actuid` is the activity in its header. -/
structure PktListElement (A S : Type) where
  num : ℕ
  actuid : A
  sp : S
deriving DecidableEq

/-- The list, and what has happened: how many packets were delayed, what was done with them, whose
references were released and which were freed, each newest first; and the references of the sockets.
-/
structure DelayedPkts (A S : Type) where
  delayed : List (PktListElement A S) := []
  arrived : ℕ := 0
  handled : List (ℕ × A × FwdAction) := []
  refs : S → ℕ := fun _ => 0
  released : List ℕ := []
  freed : List ℕ := []

variable {A S : Type} [DecidableEq A] [DecidableEq S] {valid : A → Bool}

/-- `uuid_equal`, which tells nothing about UUIDs that are not valid. -/
def isOf (valid : A → Bool) (actuid : A) (e : PktListElement A S) : Bool :=
  valid e.actuid && valid actuid && decide (e.actuid = actuid)

/-- The loop that looks for a packet and takes it out of the list. -/
def takeOut (p : PktListElement A S → Bool) :
    List (PktListElement A S) → Option (PktListElement A S × List (PktListElement A S))
  | [] => none
  | e :: l => if p e then some (e, l) else (takeOut p l).map fun r => (r.1, e :: r.2)

def fwdDelayed (s : DelayedPkts A S) (actuid : A) (sp : S) : DelayedPkts A S :=
  { s with
    refs := Function.update s.refs sp (s.refs sp + 1)
    delayed := ⟨s.arrived, actuid, sp⟩ :: s.delayed
    arrived := s.arrived + 1 }

/-- `rpc__server_fwd_resolve_delayed`; another action than the three is not supported. -/
def serverFwdResolveDelayed (valid : A → Bool) (s : DelayedPkts A S) (actuid : A)
    (fwdAction : FwdAction) : DelayedPkts A S :=
  match takeOut (isOf valid actuid) s.delayed with
  | none => s
  | some (e, delayed) =>
    { s with
      delayed := delayed
      handled :=
        if fwdAction = .delayed then s.handled else (e.num, e.actuid, fwdAction) :: s.handled
      refs := Function.update s.refs e.sp (s.refs e.sp - 1)
      released := e.num :: s.released
      freed := e.num :: s.freed }

inductive Event (A S : Type)
  | delay (actuid : A) (sp : S)
  | resolve (actuid : A) (fwdAction : FwdAction)

def step (valid : A → Bool) (s : DelayedPkts A S) : Event A S → Option (DelayedPkts A S)
  | .delay actuid sp => some (fwdDelayed s actuid sp)
  | .resolve actuid fwdAction => some (serverFwdResolveDelayed valid s actuid fwdAction)

/-- An activity is resolved when no two of its packets are delayed. -/
def Single (valid : A → Bool) (s : DelayedPkts A S) : Event A S → Prop
  | .delay _ _ => True
  | .resolve actuid _ => s.delayed.countP (isOf valid actuid) ≤ 1

/-- Each packet is delayed or was freed, once, and its reference released with it; what was done
with packets was done once, and in the order in which those of an activity arrived. -/
structure Kept (s : DelayedPkts A S) : Prop where
  once : (s.freed ++ s.delayed.map PktListElement.num).Perm (List.range s.arrived)
  released : s.released = s.freed
  refs : ∀ sp, s.refs sp = s.delayed.countP fun e => e.sp = sp
  handled : (s.handled.map Prod.fst).Sublist s.freed
  inOrder : s.handled.Pairwise fun x y => x.2.1 = y.2.1 → y.1 < x.1
  older : ∀ x ∈ s.handled, ∀ e ∈ s.delayed, x.2.1 = e.actuid → x.1 < e.num

omit [DecidableEq A] [DecidableEq S] in
theorem takeOut_eq_some {p : PktListElement A S → Bool} {l l' : List (PktListElement A S)}
    {e : PktListElement A S} (h : takeOut p l = some (e, l')) :
    ∃ u v, l = u ++ e :: v ∧ l' = u ++ v ∧ p e = true := by
  induction l generalizing l' with
  | nil => cases h
  | cons a l ih =>
    rw [takeOut] at h
    split at h
    · cases h
      exact ⟨[], l, rfl, rfl, ‹_›⟩
    · obtain ⟨⟨e', l₁⟩, hl, heq⟩ := Option.map_eq_some_iff.mp h
      cases heq
      obtain ⟨u, v, rfl, rfl, hp⟩ := ih hl
      exact ⟨a :: u, v, rfl, rfl, hp⟩

omit [DecidableEq A] in
theorem Kept.lt_arrived {s : DelayedPkts A S} (h : Kept s) {x : ℕ × A × FwdAction}
    (hx : x ∈ s.handled) : x.1 < s.arrived := by
  have hfreed : x.1 ∈ s.freed := h.handled.subset (List.mem_map_of_mem hx)
  exact List.mem_range.mp (h.once.subset (List.mem_append_left _ hfreed))

omit [DecidableEq A] in
theorem Kept.delay {s : DelayedPkts A S} (h : Kept s) (actuid : A) (sp : S) :
    Kept (fwdDelayed s actuid sp) := by
  refine ⟨?_, h.released, ?_, h.handled, h.inOrder, ?_⟩
  · show (s.freed ++ s.arrived :: s.delayed.map PktListElement.num).Perm
      (List.range (s.arrived + 1))
    rw [List.range_succ]
    exact List.perm_middle.trans ((h.once.cons _).trans (List.perm_append_singleton _ _).symm)
  · intro sp'
    show Function.update s.refs sp (s.refs sp + 1) sp' = _
    rw [fwdDelayed, List.countP_cons]
    by_cases hsp : sp' = sp
    · subst hsp
      rw [Function.update_self, h.refs]
      simp
    · rw [Function.update_of_ne hsp, h.refs]
      simp [Ne.symm hsp]
  · intro x hx e he hact
    rcases List.mem_cons.mp he with rfl | he
    · exact h.lt_arrived hx
    · exact h.older x hx e he hact

theorem Kept.resolve {s : DelayedPkts A S} (h : Kept s) {actuid : A} (fwdAction : FwdAction)
    (hsingle : s.delayed.countP (isOf valid actuid) ≤ 1) :
    Kept (serverFwdResolveDelayed valid s actuid fwdAction) := by
  rw [serverFwdResolveDelayed]
  cases htake : takeOut (isOf valid actuid) s.delayed with
  | none => exact h
  | some r =>
    obtain ⟨e, delayed⟩ := r
    obtain ⟨u, v, hdelayed, rfl, he⟩ := takeOut_eq_some htake
    dsimp only
    have hmem : ∀ y ∈ u ++ v, y ∈ s.delayed := by
      intro y hy
      rw [hdelayed]
      exact (List.perm_middle.symm.subset (List.mem_cons_of_mem _ hy))
    -- no other packet of the activity is delayed
    have hother : ∀ y ∈ u ++ v, e.actuid ≠ y.actuid := by
      intro y hy hact
      have hyp : isOf valid actuid y = true := by
        rw [isOf, ← hact]
        exact he
      have hpos : 0 < (u ++ v).countP (isOf valid actuid) := List.countP_pos_iff.mpr ⟨y, hy, hyp⟩
      rw [hdelayed, List.perm_middle.countP_eq, List.countP_cons_of_pos he] at hsingle
      omega
    have honce : (e.num :: s.freed ++ (u ++ v).map PktListElement.num).Perm
        (List.range s.arrived) := by
      refine List.Perm.trans ?_ h.once
      rw [hdelayed, List.map_append, List.map_append, List.map_cons, List.cons_append,
        ← List.append_assoc, ← List.append_assoc]
      exact List.perm_middle.symm
    have hrefs : ∀ sp, Function.update s.refs e.sp (s.refs e.sp - 1) sp =
        (u ++ v).countP fun e => e.sp = sp := by
      intro sp
      have hcount := h.refs sp
      rw [hdelayed, List.perm_middle.countP_eq, List.countP_cons] at hcount
      by_cases hsp : sp = e.sp
      · subst hsp
        rw [Function.update_self, hcount]
        simp
      · rw [Function.update_of_ne hsp, hcount]
        simp [Ne.symm hsp]
    by_cases haction : fwdAction = .delayed
    · rw [if_pos haction]
      refine ⟨honce, congrArg _ h.released, hrefs, h.handled.cons _, h.inOrder, ?_⟩
      exact fun x hx y hy hact => h.older x hx y (hmem y hy) hact
    · rw [if_neg haction]
      refine ⟨honce, congrArg _ h.released, hrefs, h.handled.cons_cons _, ?_, ?_⟩
      · refine List.pairwise_cons.mpr ⟨fun x hx hact => ?_, h.inOrder⟩
        have hin : e ∈ s.delayed := by
          rw [hdelayed]
          exact List.mem_append_right _ List.mem_cons_self
        exact h.older x hx e hin hact.symm
      · intro x hx y hy hact
        rcases List.mem_cons.mp hx with rfl | hx
        · exact absurd hact (hother y hy)
        · exact h.older x hx y (hmem y hy) hact

theorem step_spec (s : DelayedPkts A S) (e : Event A S) (h : Kept s) (he : Single valid s e) :
    ∃ s', step valid s e = some s' ∧ Kept s' := by
  cases e with
  | delay actuid sp => exact ⟨_, rfl, h.delay actuid sp⟩
  | resolve actuid fwdAction => exact ⟨_, rfl, h.resolve fwdAction he⟩

/-- **Packets that are forwarded arrive as they were** if and only if they are plain; and **packets
that are delayed are kept in order** in runs that resolve an activity when no two of its packets are
delayed. -/
theorem forwarding_transparent (hR : R.Ready before) (h : Held R.rep rqe) (accepted : List Rqe)
    {es : List (Event A S)} (hes : Runs.Along (step valid) (Single valid) {} es) :
    (Transparent R before accepted rqe ↔ Plain R.rep rqe) ∧
      ∃ s, Runs.exec (step valid) {} es = some s ∧ Kept s := by
  have hinit : Kept ({} : DelayedPkts A S) :=
    ⟨.refl _, rfl, fun _ => rfl, .slnil, .nil, fun _ hx => by cases hx⟩
  exact ⟨transparent_iff h hR, Runs.exec_of_along step_spec hinit hes⟩

instance (s : DelayedPkts A S) : ∀ e, Decidable (Single valid s e)
  | .delay _ _ => inferInstanceAs (Decidable True)
  | .resolve actuid _ => inferInstanceAs (Decidable (s.delayed.countP (isOf valid actuid) ≤ 1))

/-- A request of a little-endian machine. -/
def requestHdr : RawHdr := fun i => if i = 0 then 4 else if i = 4 then 0x10 else 0

/-- A request that is received from the address of 16 sevens, with `args` in the first buffer. -/
def request (args moreData : List UInt8) : Rqe where
  fromLen := 16
  sa := List.replicate 16 7
  raw := requestHdr
  args := args
  moreData := moreData
  pktLen := rawPktHdrSize + args.length
  fragLen := rawPktHdrSize + args.length + moreData.length

theorem held_request {args moreData : List UInt8} (hargs : args.length ≤ maxPktBodySize)
    (hmore : moreData ≠ [] → args.length = maxPktBodySize) : Held 1 (request args moreData) where
  vers := show requestHdr rphoRpcVers &&& versMask = protoVers by decide
  ptype := show requestHdr rphoPtype &&& ptypeMask = 0 by decide
  drep := rfl
  fromLen := le_rfl
  sa := List.length_replicate
  header := Nat.le_add_right _ _
  args := le_rfl
  pktLen := Nat.add_le_add_left hargs _
  moreData := fun h => congrArg (rawPktHdrSize + ·) (hmore h)
  fragLen := rfl

/-- The server, that receives from the address of 16 eights. -/
def server : Receiver := ⟨1, 1, 16, List.replicate 16 8⟩

theorem ready_server : server.Ready (List.replicate 16 0) :=
  ⟨⟨by decide, by decide⟩, List.length_replicate⟩

theorem forwarding_transparent_two :
    (Transparent server (List.replicate 16 0) [] (request [65, 66] []) ↔
      Plain 1 (request [65, 66] [])) ∧
    ∃ s, Runs.exec (step (A := ℕ) (S := ℕ) fun _ => true) {}
      [.delay 5 0, .delay 6 0, .resolve 6 .forward, .resolve 5 .reject] = some s ∧ Kept s :=
  forwarding_transparent ready_server (held_request (by decide) (fun h => absurd rfl h)) []
    (by decide)

/-- What is in the second buffer is not sent; and of two packets of an activity the second one is
sent first. -/
theorem second_buffer_is_lost :
    (Held 1 (request (List.replicate maxPktBodySize 0) [0]) ∧
      ¬ Transparent server (List.replicate 16 0) []
        (request (List.replicate maxPktBodySize 0) [0])) ∧
    ∃ s, Runs.exec (step (A := ℕ) (S := ℕ) fun _ => true) {}
      [.delay 5 0, .delay 5 0, .resolve 5 .forward, .resolve 5 .forward] = some s ∧
        s.handled.reverse = [(1, 5, .forward), (0, 5, .forward)] := by
  have hlen : (List.replicate maxPktBodySize (0 : UInt8)).length = maxPktBodySize :=
    List.length_replicate
  have hheld := held_request hlen.le fun (_ : [(0 : UInt8)] ≠ []) => hlen
  refine ⟨⟨hheld, fun ht => ?_⟩, _, rfl, rfl⟩
  have hmore := ((transparent_iff (R := server) hheld ready_server).mp ht).moreData
  cases hmore

end Forward

end Dg
