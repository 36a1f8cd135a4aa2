/-
Receiving packets on a connection (`receive_packet` in cnrcvr.c).

A connection carries one packet after the other.  `receivePacket` reads the
socket into a fragment buffer until it holds at least one packet; what it has
read too much goes into an overflow buffer, with which the next call begins.
`Framed` says what is carried over: the bytes in the overflow buffer and those
not yet read are the packets still to come.

* `receivePacket_spec` — one call returns the next packet and carries the rest over;
* `receivePackets_framed` — successive calls return the packets of the stream,
  however the socket splits it.
-/
import Mathlib

namespace Cn

/-! ### Fragment buffers -/

/-- `rpc_g_cn_large_frag_size`. -/
def largeFragSize : ℕ := 4096
def smallFragSize : ℕ := 256

/-- The bytes from which the length of a packet can be told. -/
def fraglenHeaderBytes : ℕ := 10

/-- `rpc_cn_fragbuf_t`; `data` is the first `data_size` bytes at `data_p`. -/
structure Fragbuf where
  maxDataSize : ℕ
  data : List UInt8 := []
deriving DecidableEq, Repr

/-- `rpc__cn_fragbuf_alloc`. -/
def fragbufAlloc (allocLargeBuf : Bool) : Fragbuf :=
  { maxDataSize := if allocLargeBuf then largeFragSize else smallFragSize }

/-! ### The length of a packet -/

/-- Integer representations. -/
inductive IntRep
  | bigEndian | littleEndian
deriving DecidableEq, Repr

def IntRep.code : IntRep → ℕ
  | .bigEndian => 0
  | .littleEndian => 1

/-- `NDR_DREP_INT_REP` of the packet's data representation. -/
def drepIntRep (data : List UInt8) : ℕ := (data.getD 4 0).toNat / 16

/-- The field `frag_len` as a machine of the given representation reads it. -/
def pktFragLen (rep : IntRep) (data : List UInt8) : ℕ :=
  let b := (data.getD 8 0).toNat
  let b' := (data.getD 9 0).toNat
  match rep with
  | .bigEndian => 256 * b + b'
  | .littleEndian => b + 256 * b'

/-- `SWAB_INPLACE_16`. -/
def swab16 (n : ℕ) : ℕ := n / 256 + 256 * (n % 256)

/-- The fragment length, with its bytes swapped if the formats are different. -/
def fragLength (localRep : IntRep) (data : List UInt8) : ℕ :=
  if drepIntRep data ≠ localRep.code then swab16 (pktFragLen localRep data)
  else pktFragLen localRep data

/-! ### The socket -/

/-- A stream socket.  `pending` is what the peer has sent and nobody has read, and
`splits i` is how much the `i`-th read from now on is ready to return. -/
structure Socket where
  pending : List UInt8
  splits : ℕ → ℕ

/-- A read of at most `len` bytes returns at least one, if there are any. -/
def Socket.recvmsg (sock : Socket) (len : ℕ) : List UInt8 × Socket :=
  let bytesRcvd := min len (max 1 (sock.splits 0))
  (sock.pending.take bytesRcvd,
    { pending := sock.pending.drop bytesRcvd, splits := fun i => sock.splits (i + 1) })

/-! ### Receiving -/

/-- How many bytes are needed; with the length unknown, as many as the buffer holds. -/
def needBytes (fbp : Fragbuf) (fragLen : ℕ) : ℤ :=
  if fragLen = 0 then (fbp.maxDataSize : ℤ) - fbp.data.length
  else (fragLen : ℤ) - fbp.data.length

/-- The loop of `receive_packet`, which leaves off with bytes still needed if the connection was
closed.  Each read takes a byte at least, so the bytes that are pending bound the iterations. -/
def receiveLoop (localRep : IntRep) : ℕ → Fragbuf → ℕ → ℤ → Socket →
    Fragbuf × ℕ × ℤ × Socket
  | 0, fbp, fragLen, need, sock => (fbp, fragLen, need, sock)
  | n + 1, fbp, fragLen, need, sock =>
    if need ≤ 0 then (fbp, fragLen, need, sock)
    else
      let (bytes, sock) := sock.recvmsg need.toNat
      if bytes = [] then (fbp, fragLen, need, sock)
      else
        let fbp := { fbp with data := fbp.data ++ bytes }
        let fragLen :=
          if fragLen = 0 ∧ fraglenHeaderBytes ≤ fbp.data.length then fragLength localRep fbp.data
          else fragLen
        receiveLoop localRep n fbp fragLen (needBytes fbp fragLen) sock

/-- The length as far as it is known before the first read, and how many bytes are needed. -/
def startReading (localRep : IntRep) (fbp : Fragbuf) : ℕ × ℤ :=
  if fraglenHeaderBytes ≤ fbp.data.length then
    let fragLen := fragLength localRep fbp.data
    (fragLen, (fragLen : ℤ) - fbp.data.length)
  else (0, (fbp.maxDataSize : ℤ) - fbp.data.length)

/-- The fragment buffer, and what goes with it, when `receive_packet` has done its reads. -/
def readPacket (localRep : IntRep) (ovf : Option Fragbuf) (sock : Socket) :
    Fragbuf × ℕ × ℤ × Socket :=
  let fbp := ovf.getD (fragbufAlloc true)
  let (fragLen, need) := startReading localRep fbp
  receiveLoop localRep sock.pending.length fbp fragLen need sock

/-- `receive_packet` returns the packet, and the overflow buffer for the next call; `none` means
that the connection was closed. -/
def receivePacket (localRep : IntRep) (ovf : Option Fragbuf) (sock : Socket) :
    Option (Fragbuf × Option Fragbuf × Socket) :=
  let (fbp, fragLen, need, sock) := readPacket localRep ovf sock
  if 0 < need then none
  -- we have read into the next packet
  else if need < 0 then
    let excess := { fragbufAlloc true with data := fbp.data.drop fragLen }
    some ({ fbp with data := fbp.data.take fragLen }, some excess, sock)
  else some (fbp, none, sock)

/-- What `n` successive calls return, up to the close of the connection. -/
def receivePackets (localRep : IntRep) : ℕ → Option Fragbuf → Socket → List Fragbuf
  | 0, _, _ => []
  | n + 1, ovf, sock =>
    match receivePacket localRep ovf sock with
    | some (fbp, ovf, sock) => fbp :: receivePackets localRep n ovf sock
    | none => []

/-! ### Packets -/

/-- The length of the packet in the representation that the packet declares. -/
def declaredFragLength (pdu : List UInt8) : Option ℕ :=
  if drepIntRep pdu = IntRep.bigEndian.code then some (pktFragLen .bigEndian pdu)
  else if drepIntRep pdu = IntRep.littleEndian.code then some (pktFragLen .littleEndian pdu)
  else none

/-- A packet that says how long it is. -/
structure WellFormed (pdu : List UInt8) : Prop where
  le_length : 16 ≤ pdu.length
  length_le : pdu.length ≤ largeFragSize
  fragLen : declaredFragLength pdu = some pdu.length

variable {localRep : IntRep} {pdu rest data : List UInt8} {fbp : Fragbuf} {sock : Socket}

theorem swab16_pktFragLen (data : List UInt8) :
    swab16 (pktFragLen .bigEndian data) = pktFragLen .littleEndian data ∧
      swab16 (pktFragLen .littleEndian data) = pktFragLen .bigEndian data := by
  have hb := (data.getD 8 0).toNat_lt
  have hb' := (data.getD 9 0).toNat_lt
  simp only [swab16, pktFragLen]
  omega

/-- Whatever the local representation is, the length is the declared one. -/
theorem fragLength_eq {n : ℕ} (h : declaredFragLength data = some n) :
    fragLength localRep data = n := by
  obtain ⟨hbig, hlittle⟩ := swab16_pktFragLen data
  unfold declaredFragLength at h
  unfold fragLength
  cases localRep with
  | bigEndian =>
    split_ifs at h with h0 h1
    · rw [if_neg (not_not.mpr h0)]
      exact Option.some_inj.mp h
    · rw [if_pos h0, hbig]
      exact Option.some_inj.mp h
  | littleEndian =>
    split_ifs at h with h0 h1
    · rw [if_pos (by rw [h0]; decide), hlittle]
      exact Option.some_inj.mp h
    · rw [if_neg (not_not.mpr h1)]
      exact Option.some_inj.mp h

/-- The length can be told from the first ten bytes. -/
theorem fragLength_of_append {pending : List UInt8} (h : data ++ pending = pdu ++ rest)
    (hdata : fraglenHeaderBytes ≤ data.length) (hpdu : fraglenHeaderBytes ≤ pdu.length) :
    fragLength localRep data = fragLength localRep pdu := by
  have hget : ∀ i, i < fraglenHeaderBytes → data.getD i 0 = pdu.getD i 0 := by
    intro i hi
    rw [← List.getD_append data pending 0 i (hi.trans_le hdata), h,
      List.getD_append pdu rest 0 i (hi.trans_le hpdu)]
  unfold fragLength drepIntRep pktFragLen
  rw [hget 4 (by decide), hget 8 (by decide), hget 9 (by decide)]

theorem WellFormed.fragLength_eq (hpdu : WellFormed pdu) {pending : List UInt8}
    (h : data ++ pending = pdu ++ rest) (hdata : fraglenHeaderBytes ≤ data.length) :
    fragLength localRep data = pdu.length := by
  have hmin := hpdu.le_length
  rw [fragLength_of_append h hdata (by rw [fraglenHeaderBytes]; omega)]
  exact Cn.fragLength_eq hpdu.fragLen

/-! ### The loop -/

theorem recvmsg_append (sock : Socket) (len : ℕ) :
    (sock.recvmsg len).1 ++ (sock.recvmsg len).2.pending = sock.pending :=
  List.take_append_drop _ _

theorem recvmsg_length_le (sock : Socket) (len : ℕ) : (sock.recvmsg len).1.length ≤ len := by
  rw [Socket.recvmsg, List.length_take]
  omega

theorem recvmsg_ne_nil (len : ℕ) (hlen : 0 < len) (hpending : sock.pending ≠ []) :
    (sock.recvmsg len).1 ≠ [] := by
  have hpos := List.length_pos_iff.mpr hpending
  rw [Socket.recvmsg, ← List.length_pos_iff, List.length_take]
  omega

/-- Where the loop is while it reads packet `pdu`: the buffer is not overrun, and the
length is known as soon as it can be told. -/
structure Reading (pdu rest : List UInt8) (fbp : Fragbuf) (fragLen : ℕ) (sock : Socket) :
    Prop where
  stream : fbp.data ++ sock.pending = pdu ++ rest
  maxDataSize : fbp.maxDataSize = largeFragSize
  length_le : fbp.data.length ≤ largeFragSize
  fragLen : fragLen = if fraglenHeaderBytes ≤ fbp.data.length then pdu.length else 0

/-- As long as bytes are needed, some are pending. -/
theorem Reading.pending_ne_nil {fragLen : ℕ} (h : Reading pdu rest fbp fragLen sock)
    (hpdu : WellFormed pdu) (hneed : 0 < needBytes fbp fragLen) : sock.pending ≠ [] := by
  intro hnil
  have hlen := congrArg List.length h.stream
  rw [hnil, List.append_nil, List.length_append] at hlen
  have hmin := hpdu.le_length
  rw [needBytes, h.fragLen, fraglenHeaderBytes] at hneed
  split_ifs at hneed <;> omega

theorem reading_recv (localRep : IntRep) (hpdu : WellFormed pdu) {fragLen : ℕ}
    (h : Reading pdu rest fbp fragLen sock) (len : ℕ)
    (hlen : (len : ℤ) ≤ needBytes fbp fragLen) :
    Reading pdu rest { fbp with data := fbp.data ++ (sock.recvmsg len).1 }
      (if fragLen = 0 ∧ fraglenHeaderBytes ≤ (fbp.data ++ (sock.recvmsg len).1).length then
        fragLength localRep (fbp.data ++ (sock.recvmsg len).1) else fragLen)
      (sock.recvmsg len).2 := by
  have hstream : (fbp.data ++ (sock.recvmsg len).1) ++ (sock.recvmsg len).2.pending
      = pdu ++ rest := by
    rw [List.append_assoc, recvmsg_append, h.stream]
  have hread := recvmsg_length_le sock len
  have hmin := hpdu.le_length
  have hmax := hpdu.length_le
  have hold := h.length_le
  rw [needBytes, h.maxDataSize] at hlen
  refine ⟨hstream, h.maxDataSize, ?_, ?_⟩
  · rw [List.length_append]
    have hfrag : fragLen ≤ largeFragSize := by
      rw [h.fragLen]
      split <;> omega
    split_ifs at hlen <;> omega
  · dsimp only
    have hfrag := h.fragLen
    by_cases hknown : fraglenHeaderBytes ≤ fbp.data.length
    · rw [if_pos hknown] at hfrag
      rw [if_neg (by omega), if_pos (by rw [List.length_append]; omega), hfrag]
    · rw [if_neg hknown] at hfrag
      by_cases hnow : fraglenHeaderBytes ≤ (fbp.data ++ (sock.recvmsg len).1).length
      · rw [if_pos ⟨hfrag, hnow⟩, if_pos hnow, hpdu.fragLength_eq hstream hnow]
      · rw [if_neg (fun hboth => hnow hboth.2), if_neg hnow, hfrag]

/-- When nothing more is needed the whole packet is there. -/
theorem Reading.done {fragLen : ℕ} (h : Reading pdu rest fbp fragLen sock)
    (hpdu : WellFormed pdu) (hneed : needBytes fbp fragLen ≤ 0) :
    fragLen = pdu.length ∧ pdu.length ≤ fbp.data.length := by
  have hmin := hpdu.le_length
  have hfrag := h.fragLen
  rw [needBytes, h.maxDataSize, largeFragSize] at hneed
  by_cases hknown : fraglenHeaderBytes ≤ fbp.data.length
  · rw [if_pos hknown] at hfrag
    rw [if_neg (by omega)] at hneed
    omega
  · rw [if_neg hknown] at hfrag
    rw [fraglenHeaderBytes] at hknown
    rw [if_pos hfrag] at hneed
    omega

/-- The loop ends with the packet in the buffer. -/
theorem receiveLoop_spec (localRep : IntRep) (hpdu : WellFormed pdu) : ∀ {n fragLen : ℕ} {fbp : Fragbuf}
    {sock : Socket}, Reading pdu rest fbp fragLen sock → sock.pending.length ≤ n →
    ∃ fbp' sock', receiveLoop localRep n fbp fragLen (needBytes fbp fragLen) sock
        = (fbp', pdu.length, needBytes fbp' pdu.length, sock') ∧
      Reading pdu rest fbp' pdu.length sock' ∧ pdu.length ≤ fbp'.data.length := by
  intro n
  induction n with
  | zero =>
    intro fragLen fbp sock h hn
    have hnil : sock.pending = [] := List.length_eq_zero_iff.mp (Nat.le_zero.mp hn)
    have hneed : needBytes fbp fragLen ≤ 0 := by
      by_contra hpos
      exact h.pending_ne_nil hpdu (not_le.mp hpos) hnil
    obtain ⟨rfl, hle⟩ := h.done hpdu hneed
    exact ⟨fbp, sock, rfl, h, hle⟩
  | succ n ih =>
    intro fragLen fbp sock h hn
    by_cases hneed : needBytes fbp fragLen ≤ 0
    · obtain ⟨rfl, hle⟩ := h.done hpdu hneed
      exact ⟨fbp, sock, if_pos hneed, h, hle⟩
    · have hpos := not_le.mp hneed
      have hbytes := recvmsg_ne_nil (needBytes fbp fragLen).toNat (by omega)
        (h.pending_ne_nil hpdu hpos)
      have hnext := reading_recv localRep hpdu h (needBytes fbp fragLen).toNat (by omega)
      have hshorter := congrArg List.length
        (recvmsg_append sock (needBytes fbp fragLen).toNat)
      rw [List.length_append] at hshorter
      have hbytespos := List.length_pos_iff.mpr hbytes
      obtain ⟨fbp', sock', hloop, hrest⟩ := ih hnext (by omega)
      refine ⟨fbp', sock', ?_, hrest⟩
      rw [receiveLoop, if_neg hneed]
      dsimp only
      rw [if_neg hbytes]
      exact hloop

/-! ### One packet -/

/-- The overflow buffer and the pending bytes are the stream that is to come. -/
structure Framed (stream : List UInt8) (ovf : Option Fragbuf) (sock : Socket) : Prop where
  stream : (ovf.getD (fragbufAlloc true)).data ++ sock.pending = stream
  maxDataSize : (ovf.getD (fragbufAlloc true)).maxDataSize = largeFragSize
  length_le : (ovf.getD (fragbufAlloc true)).data.length ≤ largeFragSize

theorem framed_start (stream : List UInt8) (splits : ℕ → ℕ) :
    Framed stream none { pending := stream, splits := splits } :=
  ⟨rfl, rfl, Nat.zero_le _⟩

/-- The fragment buffer that holds exactly one packet. -/
def packetBuf (pdu : List UInt8) : Fragbuf := { maxDataSize := largeFragSize, data := pdu }

/-- One call returns the next packet and carries the rest of the stream over. -/
theorem receivePacket_spec (localRep : IntRep) {ovf : Option Fragbuf} (hpdu : WellFormed pdu)
    (h : Framed (pdu ++ rest) ovf sock) :
    ∃ ovf' sock', receivePacket localRep ovf sock = some (packetBuf pdu, ovf', sock') ∧
      Framed rest ovf' sock' := by
  set fbp := ovf.getD (fragbufAlloc true) with hfbp
  set fragLen := if fraglenHeaderBytes ≤ fbp.data.length then pdu.length else 0 with hfrag
  have hreading : Reading pdu rest fbp fragLen sock := ⟨h.stream, h.maxDataSize, h.length_le, rfl⟩
  obtain ⟨fbp', sock', hloop, hend, hle⟩ :=
    receiveLoop_spec localRep hpdu hreading le_rfl
  have hmin := hpdu.le_length
  -- the two ways of starting the loop agree with `needBytes`
  have hstart : startReading localRep fbp = (fragLen, needBytes fbp fragLen) := by
    rw [startReading]
    by_cases hknown : fraglenHeaderBytes ≤ fbp.data.length
    · rw [if_pos hknown] at hfrag
      rw [if_pos hknown, hpdu.fragLength_eq h.stream hknown, needBytes, if_neg (by omega), hfrag]
    · rw [if_neg hknown] at hfrag
      rw [if_neg hknown, needBytes, if_pos hfrag, hfrag]
  have hread : readPacket localRep ovf sock
      = (fbp', pdu.length, needBytes fbp' pdu.length, sock') := by
    rw [readPacket, ← hfbp, hstart]
    exact hloop
  have hneed : needBytes fbp' pdu.length = (pdu.length : ℤ) - fbp'.data.length :=
    if_neg (by omega)
  have hdata : fbp'.data.take pdu.length = pdu := by
    have htake := congrArg (List.take pdu.length) hend.stream
    rwa [List.take_append_of_le_length hle, List.take_left] at htake
  have hrest : fbp'.data.drop pdu.length ++ sock'.pending = rest := by
    have hdrop := congrArg (List.drop pdu.length) hend.stream
    rwa [List.drop_append_of_le_length hle, List.drop_left] at hdrop
  have hmaxData := hend.length_le
  by_cases hexcess : pdu.length < fbp'.data.length
  · refine ⟨some { fragbufAlloc true with data := fbp'.data.drop pdu.length }, sock', ?_,
      hrest, rfl, ?_⟩
    · rw [receivePacket, hread]
      dsimp only
      rw [hneed, if_neg (by omega), if_pos (by omega), hdata, hend.maxDataSize]
      rfl
    · rw [Option.getD_some, List.length_drop]
      omega
  · have hexact : fbp'.data = pdu := by
      rw [← hdata, List.take_of_length_le (not_lt.mp hexcess)]
    refine ⟨none, sock', ?_, ?_, rfl, Nat.zero_le _⟩
    · rw [receivePacket, hread]
      dsimp only
      rw [hneed, if_neg (by omega), if_neg (by omega), packetBuf, ← hexact, ← hend.maxDataSize]
    · rw [hexact, List.drop_length] at hrest
      exact hrest

/-- At the end of the stream the next call reports the close. -/
theorem receivePacket_nil {ovf : Option Fragbuf} (h : Framed [] ovf sock) :
    receivePacket localRep ovf sock = none := by
  obtain ⟨hdata, hpending⟩ := List.append_eq_nil_iff.mp h.stream
  have hmax := h.maxDataSize
  rw [receivePacket, readPacket, hpending]
  simp [startReading, hdata, hmax, fraglenHeaderBytes, receiveLoop, largeFragSize]

/-! ### The stream -/

theorem receivePackets_framed {pdus : List (List UInt8)} (hpdus : ∀ pdu ∈ pdus, WellFormed pdu) :
    ∀ {n : ℕ} {ovf : Option Fragbuf} {sock : Socket}, Framed pdus.flatten ovf sock →
      receivePackets localRep n ovf sock = (pdus.take n).map packetBuf := by
  induction pdus with
  | nil =>
    intro n ovf sock h
    cases n with
    | zero => rfl
    | succ n => simp [receivePackets, receivePacket_nil h]
  | cons pdu pdus ih =>
    intro n ovf sock h
    cases n with
    | zero => rfl
    | succ n =>
      obtain ⟨ovf', sock', hpacket, hrest⟩ :=
        receivePacket_spec localRep (hpdus pdu List.mem_cons_self) h
      have hnext := ih (fun p hp => hpdus p (List.mem_cons_of_mem pdu hp)) (n := n) hrest
      rw [receivePackets, hpacket]
      dsimp only
      rw [hnext, List.take_succ_cons, List.map_cons]

/-- **Framing.**  Whatever the local representation is, and however the socket splits a
stream of packets, successive calls return the packets in order, each in a buffer
of just its length, and then report the close of the connection. -/
theorem receivePackets_stream (localRep : IntRep) {pdus : List (List UInt8)}
    (hpdus : ∀ pdu ∈ pdus, WellFormed pdu) (splits : ℕ → ℕ) (n : ℕ) :
    receivePackets localRep n none { pending := pdus.flatten, splits := splits }
        = (pdus.take n).map packetBuf ∧
      ∀ pdu ∈ pdus, fragLength localRep (packetBuf pdu).data = (packetBuf pdu).data.length := by
  refine ⟨receivePackets_framed hpdus (framed_start _ splits), fun pdu hpdu => ?_⟩
  exact fragLength_eq (hpdus pdu hpdu).fragLen

/-- A packet of 16 bytes that says so in big-endian order. -/
def shortPdu : List UInt8 := [5, 0, 11, 3, 0, 0, 0, 0, 0, 16, 0, 0, 0, 0, 0, 1]

/-- A packet of 18 bytes that says so in little-endian order. -/
def littlePdu : List UInt8 := [5, 0, 0, 3, 0x10, 0, 0, 0, 18, 0, 0, 0, 2, 0, 0, 0, 7, 7]

/-- Three packets, read seven bytes at a time. -/
theorem receivePackets_stream_sevens :
    receivePackets .littleEndian 4 none
        { pending := [shortPdu, littlePdu, shortPdu].flatten, splits := fun _ => 7 }
      = [shortPdu, littlePdu, shortPdu].map packetBuf := by
  have hshort : WellFormed shortPdu := ⟨by decide, by decide, by decide⟩
  have hlittle : WellFormed littlePdu := ⟨by decide, by decide, by decide⟩
  have hpdus : ∀ pdu ∈ [shortPdu, littlePdu, shortPdu], WellFormed pdu := by
    intro pdu hpdu
    simp only [List.mem_cons, List.not_mem_nil, or_false] at hpdu
    rcases hpdu with rfl | rfl | rfl
    · exact hshort
    · exact hlittle
    · exact hshort
  exact (receivePackets_stream .littleEndian hpdus (fun _ => 7) 4).1

end Cn
