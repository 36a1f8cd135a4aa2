/-
Datagram packets (dg.h).

The packet header fields that the receive queue and the server's request
filter read, the flag bits with the values the wire format gives them, the
element of a receive queue, and the states of a call handle.  Fields of the
header that none of the modelled routines looks at are left out.
-/
import FreeDce.Lib.Serial

namespace Dg

/-! ### Header -/

/-- The part of `rpc_dg_pkt_hdr_t` that the modelled routines read. -/
structure PktHdr where
  flags : BitVec 8 := 0
  flags2 : BitVec 8 := 0
  /-- `actuid`, the activity (client thread) the call belongs to. -/
  actuid : ℕ := 0
  serverBoot : BitVec 32 := 0
  seq : BitVec 32 := 0
  ahint : BitVec 16 := 0xffff
  len : ℕ := 0
  fragnum : BitVec 16 := 0
  serialHi : BitVec 8 := 0
  serialLo : BitVec 8 := 0
deriving DecidableEq, Repr

def pfLastFrag : BitVec 8 := 0x02
def pfFrag : BitVec 8 := 0x04
def pfNoFack : BitVec 8 := 0x08
def pfMaybe : BitVec 8 := 0x10
def pfIdempotent : BitVec 8 := 0x20
def pf2Forwarded2 : BitVec 8 := 0x01
def pfForwarded : BitVec 8 := 0x01

/-- `RPC_DG_HDR_FLAG_IS_SET`. -/
def PktHdr.flagIsSet (hdr : PktHdr) (flag : BitVec 8) : Bool := hdr.flags &&& flag ≠ 0

/-- `RPC_DG_HDR_FLAG2_IS_SET`. -/
def PktHdr.flag2IsSet (hdr : PktHdr) (flag : BitVec 8) : Bool := hdr.flags2 &&& flag ≠ 0

/-- The serial number is sent as two separate bytes. -/
def PktHdr.serial (hdr : PktHdr) : BitVec 16 := hdr.serialHi ++ hdr.serialLo

/-! ### Receive queue elements -/

/-- `rpc_dg_recvq_elt_t`: one fragment on a receive queue.  The first buffer has
a header; a fragment that did not fit into one buffer continues in `moreData`,
and the buffers there have `hdrp == NULL`. -/
structure RecvqElt where
  hdrp : Option PktHdr
  body : List UInt8 := []
  moreData : List (List UInt8) := []
  fragLen : ℕ := 0
deriving DecidableEq, Repr

/-- A fragment as it arrives: its first buffer always has a header. -/
structure Pkt where
  hdr : PktHdr
  body : List UInt8 := []
  moreData : List (List UInt8) := []
  fragLen : ℕ := 0
deriving DecidableEq, Repr

def Pkt.elt (pkt : Pkt) : RecvqElt :=
  { hdrp := some pkt.hdr, body := pkt.body, moreData := pkt.moreData, fragLen := pkt.fragLen }

/-- The I/O vector element a receiver gets: the buffer's header, if it is the
first buffer of a fragment, and the data. -/
structure Iove where
  hdrp : Option PktHdr
  data : List UInt8
deriving DecidableEq, Repr

/-- `RPC_DG_RECVQ_IOVECTOR_SETUP`. -/
def recvqIovectorSetup (rqe : RecvqElt) : Iove :=
  { hdrp := rqe.hdrp
    data := match rqe.hdrp with
      | some hdr => rqe.body.take (min hdr.len rqe.body.length)
      | none => rqe.body }

/-! ### Calls -/

/-- `rpc_dg_call_state_t`. -/
inductive CallState
  | init | xmit | recv | final | idle | orphan
deriving DecidableEq, Repr

/-- The status values that decide a branch of the modelled routines. -/
inductive Status
  | ok | callOrphaned | callCancelled | dgNeedWayAuth | whoAreYouFailed | protoError | other
deriving DecidableEq, Repr

end Dg
