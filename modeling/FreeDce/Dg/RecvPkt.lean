/-
The lengths of a received packet (`recv_pkt` in dglsn.c, `RPC_DG_RECVQ_IOVECTOR_SETUP` in dgrq.h).

A datagram is read into a chain of buffers.  How long it is stands in three places: the fragment's
length, the lengths of the buffers, and the length in the header.  A packet that the local forwarder
passed on has the address of its sender in front of the body; the body is moved up over it.

* `sum_splitLens` — the buffers hold what was received;
* `lengthsCovered_iff` — the length in the header is covered, and is what a receiver is handed out, if
  and only if the packet is dropped, or it is as long as the header says and what is longer fits in one
  buffer; `not_lengthsCovered` is a forwarded packet that is shorter than the address.
-/
import FreeDce.Dg.Packet

namespace Dg

namespace RecvPkt

/-! ### Data -/

def rawPktHdrSize : ℕ := 80
def maxPktBodySize : ℕ := 4240

/-- `sizeof(rpc_dg_raw_pkt_t)`. -/
def rawPktSize : ℕ := rawPktHdrSize + maxPktBodySize

/-- `sizeof(rpc_dg_fpkt_hdr_t)`: a length, a `struct sockaddr`, a drep. -/
def fpktHdrSize : ℕ := 24

def protoVers : BitVec 8 := 4
def versMask : BitVec 8 := 0x0f
def ptMaxType : ℕ := 10

/-- The fields of the header that `recv_pkt` looks at, in the byte order of this machine.  They are
what stands in the first buffer, also if less than a header was received. -/
structure RecvHdr where
  vers : BitVec 8 := 4
  ptype : ℕ := 0
  flags : BitVec 8 := 0
  flags2 : BitVec 8 := 0
  len : BitVec 16 := 0
deriving DecidableEq

def RecvHdr.flagIsSet (hdr : RecvHdr) (flag : BitVec 8) : Bool := hdr.flags &&& flag ≠ 0

def RecvHdr.flag2IsSet (hdr : RecvHdr) (flag : BitVec 8) : Bool := hdr.flags2 &&& flag ≠ 0

/-- The packet types for which `FORWARDED` means nothing: those of a server to a client, and facks. -/
def clearsForwarded (ptype : ℕ) : Bool := ptype ∈ [2, 3, 4, 5, 6, 10, 9]

/-- What a call of `recvmsg` comes to: with `moreBufs` buffers behind the first one, it fails, or it
receives `recvLen` bytes, which is an `int`. -/
structure Datagram where
  moreBufs : ℕ := 1
  failed : Bool := false
  recvLen : ℕ
  recvLen_lt : recvLen < 2 ^ 31 := by decide
  fromOk : Bool := true
  hdr : RecvHdr
deriving DecidableEq

/-- The lengths that are left in the queue elements.  `underflow` is that one of the subtractions for a
forwarded packet went below zero. -/
structure Received where
  hdrLen : ℕ
  fragLen : ℕ
  pktLens : List ℕ
  underflow : Bool := false
deriving DecidableEq

/-! ### Receiving -/

/-- The lengths of the I/O vector: the first buffer has room for the header. -/
def iovLens (moreBufs : ℕ) : List ℕ := rawPktSize :: List.replicate moreBufs maxPktBodySize

/-- The loop that sets the length of each buffer, and what is left at the end of the chain. -/
def splitLens : List ℕ → ℕ → List ℕ × ℕ
  | [], cc => ([], cc)
  | _ :: _, 0 => ([], 0)
  | n :: ns, cc =>
    if cc ≤ n then ([cc], 0)
    else
      let r := splitLens ns (cc - n)
      (n :: r.1, r.2)

/-- A subtraction of unsigned numbers of `w` bits. -/
def subU (w a b : ℕ) : ℕ := (a + 2 ^ w - b) % 2 ^ w

/-- The packet keeps its forwarding bits. -/
def RecvHdr.isFwd (hdr : RecvHdr) : Bool := hdr.flagIsSet pfForwarded && !clearsForwarded hdr.ptype

/-- A forwarded packet that comes in one piece: the address in front of the body goes away. -/
def slideBody (r : Received) : Received :=
  let first := r.pktLens.headD 0
  { r with
    fragLen := subU 32 r.fragLen fpktHdrSize
    pktLens := match r.pktLens with
      | [] => []
      | n :: rest => subU 16 n fpktHdrSize :: rest
    underflow := decide (first < rawPktHdrSize + fpktHdrSize) || decide (r.fragLen < fpktHdrSize) }

/-- `recv_pkt`; `none` is the count 0. -/
def recvPkt (d : Datagram) : Option Received :=
  if d.failed then none
  else
    let (lens, cc) := splitLens (iovLens d.moreBufs) d.recvLen
    if cc ≠ 0 then none
    else if d.fromOk = false then none
    else if d.hdr.vers &&& versMask ≠ protoVers then none
    else if ptMaxType < d.hdr.ptype then none
    else
      let r : Received := { hdrLen := d.hdr.len.toNat, fragLen := d.recvLen, pktLens := lens }
      if d.hdr.isFwd = false ∧ d.recvLen < d.hdr.len.toNat + rawPktHdrSize then none
      else
        let r := if d.hdr.isFwd && !d.hdr.flag2IsSet pf2Forwarded2 then slideBody r else r
        if lens = [] then none else some r

/-! ### Handing out -/

/-- `RPC_DG_RECVQ_IOVECTOR_SETUP` for each buffer of the fragment, as `rpc__dg_call_receive_int` takes
one after the other off the queue of a call without a key. -/
def handedOut (r : Received) : List ℕ :=
  match r.pktLens with
  | [] => []
  | n :: rest => min r.hdrLen (subU 64 n rawPktHdrSize) :: rest

/-- The header was received, the length in it is covered by what the buffers hold, no subtraction went
below zero, and a receiver is handed out as much as the header says. -/
structure Covered (d : Datagram) (r : Received) : Prop where
  header : rawPktHdrSize ≤ d.recvLen
  covered : r.hdrLen + rawPktHdrSize ≤ r.fragLen
  buffers : r.fragLen = r.pktLens.sum
  noUnderflow : r.underflow = false
  handed : (handedOut r).sum = r.hdrLen

def LengthsCovered (d : Datagram) : Prop := ∀ r, recvPkt d = some r → Covered d r

/-! ### The buffers -/

/-- The first buffer is filled before the next one is used. -/
theorem splitLens_cons {n cc : ℕ} (ns : List ℕ) (hcc : 0 < cc) :
    splitLens (n :: ns) cc = if cc ≤ n then ([cc], 0)
      else (n :: (splitLens ns (cc - n)).1, (splitLens ns (cc - n)).2) := by
  obtain ⟨cc, rfl⟩ := Nat.exists_eq_succ_of_ne_zero hcc.ne'
  rfl

theorem sum_splitLens (ns : List ℕ) (cc : ℕ) :
    (splitLens ns cc).1.sum + (splitLens ns cc).2 = cc := by
  induction ns generalizing cc with
  | nil => simp [splitLens]
  | cons n ns ih =>
    rcases Nat.eq_zero_or_pos cc with rfl | hcc
    · rfl
    · rw [splitLens_cons ns hcc]
      split
      · simp
      · have := ih (cc - n)
        rw [List.sum_cons]
        omega

/-! ### When the lengths agree -/

/-- The bytes in front of the body that are taken out. -/
def moved (hdr : RecvHdr) : ℕ :=
  if hdr.isFwd && !hdr.flag2IsSet pf2Forwarded2 then fpktHdrSize else 0

/-- The packet is dropped: it could not be received, it has no sender, it is not of this protocol, or
it is shorter than its header says and was not forwarded. -/
def Dropped (d : Datagram) : Prop :=
  d.failed = true ∨ d.recvLen = 0 ∨ (splitLens (iovLens d.moreBufs) d.recvLen).2 ≠ 0 ∨
    d.fromOk = false ∨ d.hdr.vers &&& versMask ≠ protoVers ∨ ptMaxType < d.hdr.ptype ∨
    (d.hdr.isFwd = false ∧ d.recvLen < d.hdr.len.toNat + rawPktHdrSize)

/-- The packet is as long as its header says, with the address if it has one; and if it needs more than
one buffer it is not longer. -/
def AsLongAsItSays (d : Datagram) : Prop :=
  d.hdr.len.toNat + rawPktHdrSize + moved d.hdr ≤ d.recvLen ∧
    (d.recvLen ≤ rawPktSize ∨ d.recvLen = d.hdr.len.toNat + rawPktHdrSize + moved d.hdr)

theorem recvPkt_of_dropped {d : Datagram} (h : Dropped d) : recvPkt d = none := by
  unfold recvPkt
  dsimp only
  by_cases hfailed : d.failed = true
  · rw [if_pos hfailed]
  rw [if_neg hfailed]
  by_cases hcc : (splitLens (iovLens d.moreBufs) d.recvLen).2 ≠ 0
  · rw [if_pos hcc]
  rw [if_neg hcc]
  by_cases hfrom : d.fromOk = false
  · rw [if_pos hfrom]
  rw [if_neg hfrom]
  by_cases hvers : d.hdr.vers &&& versMask ≠ protoVers
  · rw [if_pos hvers]
  rw [if_neg hvers]
  by_cases hptype : ptMaxType < d.hdr.ptype
  · rw [if_pos hptype]
  rw [if_neg hptype]
  by_cases hshort : d.hdr.isFwd = false ∧ d.recvLen < d.hdr.len.toNat + rawPktHdrSize
  · rw [if_pos hshort]
  rw [if_neg hshort]
  have hzero : d.recvLen = 0 := by
    rcases h with h | h | h | h | h | h | h
    · exact absurd h hfailed
    · exact h
    · exact absurd h hcc
    · exact absurd h hfrom
    · exact absurd h hvers
    · exact absurd h hptype
    · exact absurd h hshort
  rw [if_pos (by rw [hzero]; rfl)]

/-- What is not dropped: the lengths of the buffers are those of the datagram, less the address. -/
theorem recvPkt_of_not_dropped {d : Datagram} (h : ¬ Dropped d) :
    ∃ lens, lens = (splitLens (iovLens d.moreBufs) d.recvLen).1 ∧ lens.sum = d.recvLen ∧
      0 < d.recvLen ∧
      recvPkt d = some (if d.hdr.isFwd && !d.hdr.flag2IsSet pf2Forwarded2 then
        slideBody { hdrLen := d.hdr.len.toNat, fragLen := d.recvLen, pktLens := lens }
        else { hdrLen := d.hdr.len.toNat, fragLen := d.recvLen, pktLens := lens }) ∧
      (d.hdr.isFwd = false → d.hdr.len.toNat + rawPktHdrSize ≤ d.recvLen) := by
  unfold Dropped at h
  push Not at h
  obtain ⟨hfailed, hzero, hcc, hfrom, hvers, hptype, hshort⟩ := h
  have hsum := sum_splitLens (iovLens d.moreBufs) d.recvLen
  rw [hcc, Nat.add_zero] at hsum
  have hne : (splitLens (iovLens d.moreBufs) d.recvLen).1 ≠ [] := by
    intro hnil
    rw [hnil] at hsum
    exact hzero hsum.symm
  refine ⟨_, rfl, hsum, Nat.pos_of_ne_zero hzero, ?_, hshort⟩
  unfold recvPkt
  dsimp only
  rw [if_neg hfailed, if_neg (not_not.mpr hcc), if_neg hfrom, if_neg (not_not.mpr hvers),
    if_neg (by omega), if_neg (fun hs => by have := hshort hs.1; omega), if_neg hne]

theorem subU_of_le {w a b : ℕ} (hle : b ≤ a) (hlt : a < 2 ^ w) : subU w a b = a - b := by
  rw [subU, show a + 2 ^ w - b = a - b + 2 ^ w by omega, Nat.add_mod_right,
    Nat.mod_eq_of_lt (by omega)]

/-- One buffer holds the datagram, or the first one is full. -/
theorem lens_cases (moreBufs : ℕ) {recvLen : ℕ} (hpos : 0 < recvLen) :
    (recvLen ≤ rawPktSize ∧ (splitLens (iovLens moreBufs) recvLen).1 = [recvLen]) ∨
      (rawPktSize < recvLen ∧ ∃ rest, (splitLens (iovLens moreBufs) recvLen).1
        = rawPktSize :: rest) := by
  rw [iovLens, splitLens_cons _ hpos]
  by_cases hle : recvLen ≤ rawPktSize
  · exact .inl ⟨hle, by rw [if_pos hle]⟩
  · exact .inr ⟨by omega, _, by rw [if_neg hle]⟩

/-- A packet that is not forwarded in one piece. -/
theorem covered_plain_iff {d : Datagram} {lens : List ℕ} {r : Received}
    (hr : r = { hdrLen := d.hdr.len.toNat, fragLen := d.recvLen, pktLens := lens })
    (hsum : lens.sum = d.recvLen)
    (hlens : (d.recvLen ≤ rawPktSize ∧ lens = [d.recvLen]) ∨
      (rawPktSize < d.recvLen ∧ ∃ rest, lens = rawPktSize :: rest)) :
    Covered d r ↔ d.hdr.len.toNat + rawPktHdrSize ≤ d.recvLen ∧
      (d.recvLen ≤ rawPktSize ∨ d.recvLen = d.hdr.len.toNat + rawPktHdrSize) := by
  subst hr
  have hlen := d.hdr.len.isLt
  rcases hlens with ⟨hle, rfl⟩ | ⟨hgt, rest, rfl⟩
  · have hhanded : rawPktHdrSize ≤ d.recvLen →
        subU 64 d.recvLen rawPktHdrSize = d.recvLen - rawPktHdrSize := by
      intro h
      exact subU_of_le h (by have := d.recvLen_lt; omega)
    constructor
    · exact fun h => ⟨h.covered, .inl hle⟩
    · rintro ⟨hcov, -⟩
      have hh : rawPktHdrSize ≤ d.recvLen := by omega
      refine ⟨hh, hcov, hsum.symm, rfl, ?_⟩
      show (min d.hdr.len.toNat (subU 64 d.recvLen rawPktHdrSize) :: ([] : List ℕ)).sum
        = d.hdr.len.toNat
      rw [hhanded hh, List.sum_singleton]
      omega
  · rw [List.sum_cons] at hsum
    have hfirst : subU 64 rawPktSize rawPktHdrSize = maxPktBodySize := by decide
    have hsize : rawPktSize = 4320 := rfl
    have hbody : maxPktBodySize = 4240 := rfl
    have hhdr : rawPktHdrSize = 80 := rfl
    have hhanded : (handedOut ⟨d.hdr.len.toNat, d.recvLen, rawPktSize :: rest, false⟩).sum
        = min d.hdr.len.toNat maxPktBodySize + rest.sum := by
      rw [handedOut, List.sum_cons, hfirst]
    constructor
    · intro h
      have hcov : d.hdr.len.toNat + rawPktHdrSize ≤ d.recvLen := h.covered
      have hh : _ = d.hdr.len.toNat := h.handed
      rw [hhanded] at hh
      omega
    · rintro ⟨hcov, hone | heq⟩
      · omega
      · refine ⟨by omega, hcov, by rw [List.sum_cons]; exact hsum.symm, rfl, ?_⟩
        rw [hhanded]
        show _ = d.hdr.len.toNat
        omega

theorem fragLen_slide {d : Datagram} (h : fpktHdrSize ≤ d.recvLen) :
    subU 32 d.recvLen fpktHdrSize = d.recvLen - fpktHdrSize :=
  subU_of_le h (d.recvLen_lt.trans (by decide))

/-- A packet that the forwarder passed on in one piece, and that fits into one buffer. -/
theorem covered_slide_one {d : Datagram} (hle : d.recvLen ≤ rawPktSize) :
    Covered d (slideBody ⟨d.hdr.len.toNat, d.recvLen, [d.recvLen], false⟩) ↔
      d.hdr.len.toNat + rawPktHdrSize + fpktHdrSize ≤ d.recvLen := by
  have hsize : rawPktSize = 4320 := rfl
  have hhdr : rawPktHdrSize = 80 := rfl
  have hfpkt : fpktHdrSize = 24 := rfl
  have hpkt : fpktHdrSize ≤ d.recvLen →
      subU 16 d.recvLen fpktHdrSize = d.recvLen - fpktHdrSize :=
    fun h => subU_of_le h (by omega)
  constructor
  · intro h
    have hno : (decide (d.recvLen < rawPktHdrSize + fpktHdrSize)
        || decide (d.recvLen < fpktHdrSize)) = false := h.noUnderflow
    rw [Bool.or_eq_false_iff, decide_eq_false_iff_not, decide_eq_false_iff_not] at hno
    have hcov : d.hdr.len.toNat + rawPktHdrSize ≤ subU 32 d.recvLen fpktHdrSize := h.covered
    rw [fragLen_slide (by omega)] at hcov
    omega
  · intro hcov
    refine ⟨by omega, ?_, ?_, ?_, ?_⟩
    · show d.hdr.len.toNat + rawPktHdrSize ≤ subU 32 d.recvLen fpktHdrSize
      rw [fragLen_slide (by omega)]
      omega
    · show subU 32 d.recvLen fpktHdrSize = (subU 16 d.recvLen fpktHdrSize :: ([] : List ℕ)).sum
      rw [fragLen_slide (by omega), hpkt (by omega), List.sum_singleton]
    · show (decide (d.recvLen < rawPktHdrSize + fpktHdrSize)
        || decide (d.recvLen < fpktHdrSize)) = false
      rw [Bool.or_eq_false_iff, decide_eq_false_iff_not, decide_eq_false_iff_not]
      omega
    · show (min d.hdr.len.toNat (subU 64 (subU 16 d.recvLen fpktHdrSize) rawPktHdrSize)
        :: ([] : List ℕ)).sum = d.hdr.len.toNat
      rw [hpkt (by omega), subU_of_le (by omega) (by omega), List.sum_singleton]
      omega

/-- Such a packet in several buffers: those behind the first are handed out whole, so that its length
has to be exact. -/
theorem covered_slide_more {d : Datagram} {rest : List ℕ} (hgt : rawPktSize < d.recvLen)
    (hsum : (rawPktSize :: rest).sum = d.recvLen) :
    Covered d (slideBody ⟨d.hdr.len.toNat, d.recvLen, rawPktSize :: rest, false⟩) ↔
      d.recvLen = d.hdr.len.toNat + rawPktHdrSize + fpktHdrSize := by
  have hlen := d.hdr.len.isLt
  have hsize : rawPktSize = 4320 := rfl
  have hhdr : rawPktHdrSize = 80 := rfl
  have hfpkt : fpktHdrSize = 24 := rfl
  rw [List.sum_cons] at hsum
  have hfirst : subU 16 rawPktSize fpktHdrSize = 4296 := by decide
  have hhanded : (handedOut
      (slideBody ⟨d.hdr.len.toNat, d.recvLen, rawPktSize :: rest, false⟩)).sum
      = min d.hdr.len.toNat 4216 + rest.sum := by
    show (min d.hdr.len.toNat (subU 64 (subU 16 rawPktSize fpktHdrSize) rawPktHdrSize)
        :: rest).sum = _
    rw [List.sum_cons, hfirst, subU_of_le (by omega) (by omega)]
    rfl
  constructor
  · intro h
    have hcov : d.hdr.len.toNat + rawPktHdrSize ≤ subU 32 d.recvLen fpktHdrSize := h.covered
    have hh : _ = d.hdr.len.toNat := h.handed
    rw [fragLen_slide (by omega)] at hcov
    rw [hhanded] at hh
    omega
  · intro heq
    refine ⟨by omega, ?_, ?_, ?_, ?_⟩
    · show d.hdr.len.toNat + rawPktHdrSize ≤ subU 32 d.recvLen fpktHdrSize
      rw [fragLen_slide (by omega)]
      omega
    · show subU 32 d.recvLen fpktHdrSize = (subU 16 rawPktSize fpktHdrSize :: rest).sum
      rw [fragLen_slide (by omega), hfirst, List.sum_cons]
      omega
    · show (decide (rawPktSize < rawPktHdrSize + fpktHdrSize)
        || decide (d.recvLen < fpktHdrSize)) = false
      rw [Bool.or_eq_false_iff, decide_eq_false_iff_not, decide_eq_false_iff_not]
      omega
    · rw [hhanded]
      show _ = d.hdr.len.toNat
      omega

/-- A packet that the forwarder passed on in one piece. -/
theorem covered_slide_iff {d : Datagram} {lens : List ℕ} (hsum : lens.sum = d.recvLen)
    (hlens : (d.recvLen ≤ rawPktSize ∧ lens = [d.recvLen]) ∨
      (rawPktSize < d.recvLen ∧ ∃ rest, lens = rawPktSize :: rest)) :
    Covered d (slideBody ⟨d.hdr.len.toNat, d.recvLen, lens, false⟩) ↔
      d.hdr.len.toNat + rawPktHdrSize + fpktHdrSize ≤ d.recvLen ∧
      (d.recvLen ≤ rawPktSize ∨ d.recvLen = d.hdr.len.toNat + rawPktHdrSize + fpktHdrSize) := by
  rcases hlens with ⟨hle, rfl⟩ | ⟨hgt, rest, rfl⟩
  · rw [covered_slide_one hle]
    exact (and_iff_left (.inl hle)).symm
  · rw [covered_slide_more hgt hsum]
    omega

/-- **The length in the header is covered by what was received**, in the header's buffer and behind it,
and is what a receiver gets, if and only if the packet is dropped or is as long as it says. -/
theorem lengthsCovered_iff (d : Datagram) : LengthsCovered d ↔ Dropped d ∨ AsLongAsItSays d := by
  by_cases hdrop : Dropped d
  · refine iff_of_true (fun r hr => ?_) (.inl hdrop)
    rw [recvPkt_of_dropped hdrop] at hr
    cases hr
  · rw [or_iff_right hdrop]
    obtain ⟨lens, hlens, hsum, hpos, hrecv, -⟩ := recvPkt_of_not_dropped hdrop
    have hcases := lens_cases d.moreBufs hpos
    rw [← hlens] at hcases
    have hall : LengthsCovered d ↔ Covered d (if d.hdr.isFwd && !d.hdr.flag2IsSet pf2Forwarded2 then
        slideBody { hdrLen := d.hdr.len.toNat, fragLen := d.recvLen, pktLens := lens }
        else { hdrLen := d.hdr.len.toNat, fragLen := d.recvLen, pktLens := lens }) := by
      refine ⟨fun h => h _ hrecv, fun h r hr => ?_⟩
      rw [hrecv] at hr
      cases hr
      exact h
    rw [hall, AsLongAsItSays, moved]
    by_cases hslide : (d.hdr.isFwd && !d.hdr.flag2IsSet pf2Forwarded2) = true
    · rw [if_pos hslide, if_pos hslide]
      exact covered_slide_iff hsum hcases
    · rw [if_neg hslide, if_neg hslide]
      exact covered_plain_iff rfl hsum hcases

/-- A forwarded request of 90 bytes: the address alone would need 104. -/
theorem not_lengthsCovered : ¬ LengthsCovered { recvLen := 90, hdr := { flags := pfForwarded } } := by
  intro h
  exact absurd (h _ rfl).noUnderflow (by decide)

end RecvPkt

end Dg
