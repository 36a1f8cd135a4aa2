/-
Signing and sealing with NTLMSSP (ntlmssp_api.c, parse_ntlmssp.c, ntlmsspauthcn.c).

Each end of an association keeps one RC4 generator and one sequence number, for what it sends and
for what it receives.  A packet that is sent is sealed in place and gets a verifier of 16 bytes,
with a checksum and the sequence number, of which the last 12 are encrypted.

The sender counts before it puts the number into the verifier, and the receiver counts after it has
compared the number with its own, so that the receiver is one behind.

* `unsign_sign_unsigned` — without signatures a packet is accepted, and the ends stay in step;
* `unsign_sign_signed` — with them no packet of the other end is accepted;
* `ends_in_step_iff` — the ends stay in step exactly when nothing is signed.
-/
import FreeDce.Lib.Bytes
import FreeDce.Lib.Keystream

namespace Cn
namespace Ntlmssp

/-! ### The generator -/

/-- `ntlmssp_hash`: a permutation of the bytes, and the two indices behind it. -/
structure Rc4 where
  hash : UInt8 → UInt8
  indexI : UInt8
  indexJ : UInt8

/-- One turn of the loop of `NTLMSSPcalc_p`. -/
def Rc4.next (a : Rc4) : UInt8 × Rc4 :=
  let indexI := a.indexI + 1
  let indexJ := a.indexJ + a.hash indexI
  let tc := a.hash indexI
  let hash := Function.update (Function.update a.hash indexI (a.hash indexJ)) indexJ tc
  let t := hash indexI + hash indexJ
  (hash t, ⟨hash, indexI, indexJ⟩)

/-- `NTLMSSPcalc_p`. -/
def ntlmsspCalcP (a : Rc4) (data : List UInt8) : Rc4 × List UInt8 :=
  Keystream.crypt Rc4.next a data

/-! ### Sign and seal -/

def negotiateSign : BitVec 32 := 0x00000010
def negotiateSeal : BitVec 32 := 0x00000020
def signVersion : BitVec 32 := 1

/-- `ntlmssp_sec_state_t`, as far as it is used here. -/
structure SecState where
  rc4 : Rc4
  seqNum : BitVec 32
  negFlags : BitVec 32

def SecState.signs (s : SecState) : Bool := s.negFlags &&& negotiateSign == negotiateSign

def SecState.seals (s : SecState) : Bool := s.negFlags &&& negotiateSeal == negotiateSeal

/-- `RPC_AUTH_NTLMSSP_CHK`. -/
structure Chk where
  ver : BitVec 32
  reserved : BitVec 32
  crc32 : BitVec 32
  seqNum : BitVec 32

/-- `smb_io_rpc_auth_ntlmssp_chk`, writing. -/
def Chk.encode (c : Chk) : List UInt8 :=
  Bytes.toLE 4 c.ver.toNat ++ (Bytes.toLE 4 c.reserved.toNat ++
    (Bytes.toLE 4 c.crc32.toNat ++ Bytes.toLE 4 c.seqNum.toNat))

def uint32At (bytes : List UInt8) (off : ℕ) : BitVec 32 :=
  BitVec.ofNat 32 (Bytes.ofLE ((bytes.drop off).take 4))

/-- `smb_io_rpc_auth_ntlmssp_chk`, reading. -/
def Chk.decode (bytes : List UInt8) : Chk :=
  ⟨uint32At bytes 0, uint32At bytes 4, uint32At bytes 8, uint32At bytes 12⟩

/-- `rpc_auth_ntlmssp_chk`. -/
def rpcAuthNtlmsspChk (c : Chk) (crc32 seqNum : BitVec 32) : Bool :=
  !(c.crc32 != crc32 || c.ver != signVersion || c.seqNum != seqNum)

variable (crc32CalcBuffer : List UInt8 → BitVec 32)

/-- `ntlmssp_sign_seal`: the state, the data and the verifier after it. -/
def ntlmsspSignSeal (s : SecState) (data : List UInt8) : SecState × List UInt8 × List UInt8 :=
  let crc32 := if s.signs then crc32CalcBuffer data else 0
  let s₁ : SecState := if s.signs then { s with seqNum := s.seqNum + 1 } else s
  let (s₂, data') : SecState × List UInt8 :=
    if s₁.seals then ({ s₁ with rc4 := (ntlmsspCalcP s₁.rc4 data).1 }, (ntlmsspCalcP s₁.rc4 data).2)
    else (s₁, data)
  let verf := Chk.encode ⟨signVersion, 0, crc32, s₂.seqNum⟩
  if s₂.signs then
    let (rc4, tail) := ntlmsspCalcP s₂.rc4 (verf.drop 4)
    ({ s₂ with rc4 := rc4 }, data', verf.take 4 ++ tail)
  else (s₂, data', verf)

/-- `ntlmssp_unsign_unseal`: the state and the data after it, and whether they are accepted. -/
def ntlmsspUnsignUnseal (s : SecState) (data authData : List UInt8) :
    SecState × List UInt8 × Bool :=
  if (s.signs || s.seals) && authData.length != 16 then (s, data, false)
  else
    let (s₁, data') : SecState × List UInt8 :=
      if s.seals then ({ s with rc4 := (ntlmsspCalcP s.rc4 data).1 }, (ntlmsspCalcP s.rc4 data).2)
      else (s, data)
    if s₁.signs then
      let (rc4, tail) := ntlmsspCalcP s₁.rc4 (authData.drop 4)
      let s₂ : SecState := { s₁ with rc4 := rc4 }
      let chk := Chk.decode (authData.take 4 ++ tail)
      if !rpcAuthNtlmsspChk chk (crc32CalcBuffer data') s₂.seqNum then (s₂, data', false)
      else ({ s₂ with seqNum := s₂.seqNum + 1 }, data', true)
    else (s₁, data', true)

/-! ### Packets -/

def sizeofRqstHdr : ℕ := 24
def sizeofComAuthTlr : ℕ := 8

/-- `rpc__ntlmsspauth_cn_pre_send` of a request or a response: the iovector is copied into one
buffer, in which the body and the verifier are worked on. -/
def preSend (s : SecState) (iov : List (List UInt8)) (authLen : ℕ) : SecState × List UInt8 :=
  let pdu := iov.flatten
  let fragLen := pdu.length
  let dataLen := fragLen - sizeofRqstHdr - sizeofComAuthTlr - authLen
  let (s', data, auth) := ntlmsspSignSeal crc32CalcBuffer s ((pdu.drop sizeofRqstHdr).take dataLen)
  (s', pdu.take sizeofRqstHdr ++ (data ++
    (((pdu.drop (sizeofRqstHdr + dataLen)).take sizeofComAuthTlr) ++ auth)))

/-- `rpc__ntlmsspauth_cn_recv_check` of a request or a response. -/
def recvCheck (s : SecState) (pdu : List UInt8) (authLen : ℕ) : SecState × List UInt8 × Bool :=
  let pduLen := pdu.length
  let dataLen := pduLen - (if authLen ≠ 0 then sizeofComAuthTlr else 0) - authLen - sizeofRqstHdr
  let (s', data, ok) := ntlmsspUnsignUnseal crc32CalcBuffer s
    ((pdu.drop sizeofRqstHdr).take dataLen) (pdu.drop (pduLen - authLen))
  (s', pdu.take sizeofRqstHdr ++ (data ++ pdu.drop (sizeofRqstHdr + dataLen)), ok)

/-- A request or a response with room for a verifier. -/
structure Packet where
  hdr : List UInt8
  data : List UInt8
  tlr : List UInt8
  auth : List UInt8
  hdr_length : hdr.length = sizeofRqstHdr
  tlr_length : tlr.length = sizeofComAuthTlr
  auth_length : auth.length = 16

def Packet.bytes (P : Packet) : List UInt8 := P.hdr ++ (P.data ++ (P.tlr ++ P.auth))

/-- The body of a received packet. -/
def bodyOf (pdu : List UInt8) : List UInt8 :=
  (pdu.drop sizeofRqstHdr).take (pdu.length - sizeofRqstHdr - sizeofComAuthTlr - 16)

/-! ### Runs -/

inductive Direction
  | toServer
  | toClient

/-- A packet that one end sends, in the pieces it has there. -/
structure Message where
  direction : Direction
  packet : Packet
  iov : List (List UInt8)
  iov_flatten : iov.flatten = packet.bytes

structure Ends where
  client : SecState
  server : SecState

def Ends.sender (E : Ends) : Direction → SecState
  | .toServer => E.client
  | .toClient => E.server

def Ends.receiver (E : Ends) : Direction → SecState
  | .toServer => E.server
  | .toClient => E.client

/-- The ends when these are the states of the sender and the receiver. -/
def Ends.mk' : Direction → SecState → SecState → Ends
  | .toServer, snd, rcv => ⟨snd, rcv⟩
  | .toClient, snd, rcv => ⟨rcv, snd⟩

/-- What the sender of a message puts on the wire. -/
def sent (E : Ends) (m : Message) : SecState × List UInt8 :=
  preSend crc32CalcBuffer (E.sender m.direction) m.iov 16

/-- A message is sent and received: the ends after that, what the receiver has, and whether it has
accepted it. -/
def exchange (E : Ends) (m : Message) : Ends × List UInt8 × Bool :=
  let (snd, pdu) := sent crc32CalcBuffer E m
  let (rcv, pdu', ok) := recvCheck crc32CalcBuffer (E.receiver m.direction) pdu 16
  (Ends.mk' m.direction snd rcv, pdu', ok)

def afterAll (E : Ends) (ms : List Message) : Ends :=
  ms.foldl (fun E m => (exchange crc32CalcBuffer E m).1) E

/-- Each message is accepted and gives its plaintext, and both ends are in the same state then. -/
def StaysInStep : Ends → List Message → Prop
  | E, [] => E.client = E.server
  | E, m :: ms =>
    (exchange crc32CalcBuffer E m).2.2 = true ∧
    bodyOf (exchange crc32CalcBuffer E m).2.1 = m.packet.data ∧
    (exchange crc32CalcBuffer E m).1.client = (exchange crc32CalcBuffer E m).1.server ∧
    StaysInStep (exchange crc32CalcBuffer E m).1 ms

/-- With signatures, a message that is received again is rejected, and so is one that comes before
the one that was sent first. -/
def ReplaysRejected (E : Ends) (msgs : List Message) : Prop :=
  E.client.signs = true →
    (∀ before m mid after, msgs = before ++ (m :: (mid ++ after)) →
      (recvCheck crc32CalcBuffer
        ((afterAll crc32CalcBuffer E (before ++ (m :: mid))).receiver m.direction)
        (sent crc32CalcBuffer (afterAll crc32CalcBuffer E before) m).2 16).2.2 = false) ∧
    (∀ before m m' after, msgs = before ++ (m :: m' :: after) → m.direction = m'.direction →
      let E' := afterAll crc32CalcBuffer E before
      let snd := (sent crc32CalcBuffer E' m).1
      (recvCheck crc32CalcBuffer (E'.receiver m.direction)
        (preSend crc32CalcBuffer snd m'.iov 16).2 16).2.2 = false)

/-! ### The two ends -/

@[simp] theorem length_encode (c : Chk) : c.encode.length = 16 := by
  rw [Chk.encode]
  simp only [List.length_append, Bytes.length_toLE]

theorem ofLE_take_toLE (v : BitVec 32) (rest : List UInt8) :
    BitVec.ofNat 32 (Bytes.ofLE ((Bytes.toLE 4 v.toNat ++ rest).take 4)) = v := by
  have htake : (Bytes.toLE 4 v.toNat ++ rest).take 4 = Bytes.toLE 4 v.toNat :=
    List.take_left' (Bytes.length_toLE _ _)
  rw [htake, Bytes.ofLE_toLE (v.isLt.trans_le (by norm_num)), BitVec.ofNat_toNat,
    BitVec.setWidth_eq]

/-- The decoder undoes the encoder. -/
theorem decode_encode (c : Chk) : Chk.decode c.encode = c := by
  have hdrop : ∀ (v : BitVec 32) (n : ℕ) (rest : List UInt8),
      (Bytes.toLE 4 v.toNat ++ rest).drop (n + 4) = rest.drop n := by
    intro v n rest
    rw [List.drop_append, List.drop_eq_nil_of_le (by rw [Bytes.length_toLE]; omega),
      Bytes.length_toLE, List.nil_append, Nat.add_sub_cancel]
  have hlast : Bytes.toLE 4 c.seqNum.toNat = Bytes.toLE 4 c.seqNum.toNat ++ [] :=
    (List.append_nil _).symm
  rw [Chk.decode, uint32At, uint32At, uint32At, uint32At, Chk.encode, hdrop _ 0, hdrop _ 4,
    hdrop _ 0, hdrop _ 8, hdrop _ 4, hdrop _ 0, List.drop_zero, List.drop_zero, List.drop_zero,
    List.drop_zero, ofLE_take_toLE, ofLE_take_toLE, ofLE_take_toLE, hlast, ofLE_take_toLE]

@[simp] theorem length_calcP (a : Rc4) (data : List UInt8) :
    (ntlmsspCalcP a data).2.length = data.length := Keystream.length_crypt _ a data

theorem calcP_calcP (a : Rc4) (data : List UInt8) :
    ntlmsspCalcP a (ntlmsspCalcP a data).2 = ((ntlmsspCalcP a data).1, data) :=
  Keystream.crypt_crypt _ a data

@[simp] theorem signs_with (s : SecState) (r : Rc4) (n : BitVec 32) :
    (⟨r, n, s.negFlags⟩ : SecState).signs = s.signs := rfl

@[simp] theorem seals_with (s : SecState) (r : Rc4) (n : BitVec 32) :
    (⟨r, n, s.negFlags⟩ : SecState).seals = s.seals := rfl

/-- The generator after the data, which are encrypted with seals only. -/
def sealed (s : SecState) (data : List UInt8) : Rc4 × List UInt8 :=
  if s.seals then ntlmsspCalcP s.rc4 data else (s.rc4, data)

theorem sealed_sealed (s : SecState) (data : List UInt8) :
    sealed s (sealed s data).2 = ((sealed s data).1, data) := by
  rw [sealed]
  split
  · rename_i h
    rw [sealed, if_pos h]
    exact calcP_calcP s.rc4 data
  · rename_i h
    rw [sealed, if_neg h]

theorem length_sealed (s : SecState) (data : List UInt8) :
    (sealed s data).2.length = data.length := by
  rw [sealed]
  split
  · exact length_calcP _ _
  · rfl

/-- What is sent without a signature. -/
theorem signSeal_unsigned {s : SecState} (h : s.signs = false) (data : List UInt8) :
    ntlmsspSignSeal crc32CalcBuffer s data =
      ({ s with rc4 := (sealed s data).1 }, (sealed s data).2,
        Chk.encode ⟨signVersion, 0, 0, s.seqNum⟩) := by
  simp only [ntlmsspSignSeal, h, sealed, Bool.false_eq_true, if_false]
  split
  · simp only [signs_with, h, Bool.false_eq_true, if_false]
  · simp only [h, Bool.false_eq_true, if_false]

/-- What is sent with a signature. -/
theorem signSeal_signed {s : SecState} (h : s.signs = true) (data : List UInt8) :
    let verf := Chk.encode ⟨signVersion, 0, crc32CalcBuffer data, s.seqNum + 1⟩
    let tail := ntlmsspCalcP (sealed s data).1 (verf.drop 4)
    ntlmsspSignSeal crc32CalcBuffer s data =
      ({ s with rc4 := tail.1, seqNum := s.seqNum + 1 }, (sealed s data).2,
        verf.take 4 ++ tail.2) := by
  intro verf tail
  simp only [ntlmsspSignSeal, h, if_true, seals_with]
  by_cases hseal : s.seals
  · have hs : sealed s data = ntlmsspCalcP s.rc4 data := if_pos hseal
    simp only [hseal, if_true, signs_with, h, tail, verf, hs]
  · have hs : sealed s data = (s.rc4, data) := if_neg hseal
    simp only [hseal, if_false, signs_with, h, if_true, tail, verf, hs, Bool.false_eq_true]

theorem length_signSeal (s : SecState) (data : List UInt8) :
    (ntlmsspSignSeal crc32CalcBuffer s data).2.1.length = data.length ∧
    (ntlmsspSignSeal crc32CalcBuffer s data).2.2.length = 16 := by
  cases h : s.signs with
  | false =>
    rw [signSeal_unsigned _ h]
    exact ⟨length_sealed s data, length_encode _⟩
  | true =>
    rw [signSeal_signed _ h]
    refine ⟨length_sealed s data, ?_⟩
    simp only [List.length_append, List.length_take, length_calcP, List.length_drop, length_encode]
    omega

/-- Without a signature the other end, in the same state, gets the plaintext back, and both go on
to the same state. -/
theorem unsign_sign_unsigned {s : SecState} (h : s.signs = false) (data : List UInt8) :
    ntlmsspUnsignUnseal crc32CalcBuffer s (ntlmsspSignSeal crc32CalcBuffer s data).2.1
        (ntlmsspSignSeal crc32CalcBuffer s data).2.2 =
      ((ntlmsspSignSeal crc32CalcBuffer s data).1, data, true) := by
  have hback := sealed_sealed s data
  rw [signSeal_unsigned _ h, ntlmsspUnsignUnseal, if_neg (by simp)]
  by_cases hseal : s.seals
  · have hs : ∀ d, sealed s d = ntlmsspCalcP s.rc4 d := fun d => if_pos hseal
    rw [hs, hs] at hback
    simp only [hs, hback, hseal, if_true, signs_with, h, Bool.false_eq_true, if_false]
  · have hs : ∀ d, sealed s d = (s.rc4, d) := fun d => if_neg hseal
    simp only [hs, hseal, Bool.false_eq_true, if_false, h]

theorem add_one_ne (n : BitVec 32) : n + 1 ≠ n := by
  intro h
  have hnat := congrArg BitVec.toNat h
  rw [BitVec.toNat_add] at hnat
  have hlt := n.isLt
  have hone : (1 : BitVec 32).toNat = 1 := rfl
  omega

theorem rpcAuthNtlmsspChk_next (crc32 crc32' n : BitVec 32) :
    rpcAuthNtlmsspChk ⟨signVersion, 0, crc32, n + 1⟩ crc32' n = false := by
  have hne : (n + 1 != n) = true := bne_iff_ne.mpr (add_one_ne n)
  rw [rpcAuthNtlmsspChk, hne, Bool.or_true, Bool.not_true]

/-- With a signature the other end, in the same state, meets a number it does not expect. -/
theorem unsign_sign_signed {s : SecState} (h : s.signs = true) (data : List UInt8) :
    (ntlmsspUnsignUnseal crc32CalcBuffer s (ntlmsspSignSeal crc32CalcBuffer s data).2.1
      (ntlmsspSignSeal crc32CalcBuffer s data).2.2).2.2 = false := by
  have hback := sealed_sealed s data
  have hlen := (length_signSeal crc32CalcBuffer s data).2
  rw [ntlmsspUnsignUnseal, if_neg (by simp [hlen]), signSeal_signed _ h]
  generalize hverf : Chk.encode ⟨signVersion, 0, crc32CalcBuffer data, s.seqNum + 1⟩ = verf
  have hvlen : verf.length = 16 := by rw [← hverf, length_encode]
  have hdec : Chk.decode verf = ⟨signVersion, 0, crc32CalcBuffer data, s.seqNum + 1⟩ := by
    rw [← hverf, decode_encode]
  -- the receiver decrypts the verifier with the generator the sender has encrypted it with
  have htail : ∀ r : Rc4, (verf.take 4 ++ (ntlmsspCalcP r (verf.drop 4)).2).take 4 ++
      (ntlmsspCalcP r ((verf.take 4 ++ (ntlmsspCalcP r (verf.drop 4)).2).drop 4)).2 = verf := by
    intro r
    have h4 : (verf.take 4).length = 4 := by rw [List.length_take, hvlen]; rfl
    rw [List.take_left' h4, List.drop_left' h4, calcP_calcP, List.take_append_drop]
  by_cases hseal : s.seals
  · have hs : ∀ d, sealed s d = ntlmsspCalcP s.rc4 d := fun d => if_pos hseal
    rw [hs, hs] at hback
    simp only [hs, hback, hseal, if_true, signs_with, h, htail, hdec, rpcAuthNtlmsspChk_next,
      Bool.not_false]
  · have hs : ∀ d, sealed s d = (s.rc4, d) := fun d => if_neg hseal
    simp only [hs, hseal, Bool.false_eq_true, if_false, h, if_true, htail, hdec,
      rpcAuthNtlmsspChk_next, Bool.not_false]

/-! ### Packets on the wire -/

theorem Packet.length_bytes (P : Packet) : P.bytes.length = 48 + P.data.length := by
  rw [Packet.bytes]
  simp only [List.length_append, P.hdr_length, P.tlr_length, P.auth_length, sizeofRqstHdr,
    sizeofComAuthTlr]
  omega

theorem Packet.drop_hdr (P : Packet) :
    P.bytes.drop sizeofRqstHdr = P.data ++ (P.tlr ++ P.auth) :=
  List.drop_left' P.hdr_length

theorem Packet.take_hdr (P : Packet) : P.bytes.take sizeofRqstHdr = P.hdr :=
  List.take_left' P.hdr_length

theorem Packet.take_data (P : Packet) :
    (P.bytes.drop sizeofRqstHdr).take P.data.length = P.data := by
  rw [P.drop_hdr]
  exact List.take_left' rfl

theorem Packet.drop_data (P : Packet) :
    P.bytes.drop (sizeofRqstHdr + P.data.length) = P.tlr ++ P.auth := by
  rw [← List.drop_drop, P.drop_hdr]
  exact List.drop_left' rfl

theorem Packet.drop_tlr (P : Packet) : P.bytes.drop (P.bytes.length - 16) = P.auth := by
  have hplace : P.bytes.length - 16 = sizeofRqstHdr + P.data.length + sizeofComAuthTlr := by
    rw [P.length_bytes, sizeofRqstHdr, sizeofComAuthTlr]
    omega
  rw [hplace, ← List.drop_drop, P.drop_data]
  exact List.drop_left' P.tlr_length

theorem bodyOf_bytes (P : Packet) : bodyOf P.bytes = P.data := by
  have hlen : P.bytes.length - sizeofRqstHdr - sizeofComAuthTlr - 16 = P.data.length := by
    rw [P.length_bytes, sizeofRqstHdr, sizeofComAuthTlr]
    omega
  rw [bodyOf, hlen, P.take_data]

/-- The packet with its body and verifier as they go out. -/
def Packet.protect (crc32CalcBuffer : List UInt8 → BitVec 32) (s : SecState) (P : Packet) :
    Packet where
  hdr := P.hdr
  data := (ntlmsspSignSeal crc32CalcBuffer s P.data).2.1
  tlr := P.tlr
  auth := (ntlmsspSignSeal crc32CalcBuffer s P.data).2.2
  hdr_length := P.hdr_length
  tlr_length := P.tlr_length
  auth_length := (length_signSeal _ s P.data).2

theorem preSend_packet (s : SecState) (P : Packet) {iov : List (List UInt8)}
    (h : iov.flatten = P.bytes) :
    preSend crc32CalcBuffer s iov 16 =
      ((ntlmsspSignSeal crc32CalcBuffer s P.data).1, (P.protect crc32CalcBuffer s).bytes) := by
  have hlen : P.bytes.length - sizeofRqstHdr - sizeofComAuthTlr - 16 = P.data.length := by
    rw [P.length_bytes, sizeofRqstHdr, sizeofComAuthTlr]
    omega
  have htlr : (P.tlr ++ P.auth).take sizeofComAuthTlr = P.tlr := List.take_left' P.tlr_length
  simp only [preSend, h, hlen, P.take_data, P.take_hdr, P.drop_data, htlr]
  rfl

theorem recvCheck_packet (s : SecState) (P : Packet) :
    recvCheck crc32CalcBuffer s P.bytes 16 =
      let r := ntlmsspUnsignUnseal crc32CalcBuffer s P.data P.auth
      (r.1, P.hdr ++ (r.2.1 ++ (P.tlr ++ P.auth)), r.2.2) := by
  have hlen : P.bytes.length - sizeofComAuthTlr - 16 - sizeofRqstHdr = P.data.length := by
    rw [P.length_bytes, sizeofRqstHdr, sizeofComAuthTlr]
    omega
  have hauth : (16 : ℕ) ≠ 0 := by decide
  simp only [recvCheck, hauth, ne_eq, not_false_eq_true, if_true, hlen, P.take_data, P.take_hdr,
    P.drop_data, P.drop_tlr]

/-! ### Runs of messages -/

/-- Both ends in this state. -/
def both (s : SecState) : Ends := ⟨s, s⟩

theorem sender_both (s : SecState) (d : Direction) : (both s).sender d = s := by
  cases d <;> rfl

theorem receiver_both (s : SecState) (d : Direction) : (both s).receiver d = s := by
  cases d <;> rfl

theorem mk'_same (s : SecState) (d : Direction) : Ends.mk' d s s = both s := by
  cases d <;> rfl

/-- A message between ends in the same state, without signatures. -/
theorem exchange_unsigned {s : SecState} (h : s.signs = false) (m : Message) :
    ∃ s' pdu, exchange crc32CalcBuffer (both s) m = (both s', pdu, true) ∧
      bodyOf pdu = m.packet.data ∧ s'.signs = false := by
  have hround := unsign_sign_unsigned crc32CalcBuffer h m.packet.data
  have hsent := preSend_packet crc32CalcBuffer s m.packet m.iov_flatten
  have hrecv := recvCheck_packet crc32CalcBuffer s
    (m.packet.protect crc32CalcBuffer s)
  refine ⟨(ntlmsspSignSeal crc32CalcBuffer s m.packet.data).1,
    m.packet.hdr ++ (m.packet.data ++ (m.packet.tlr ++
      (m.packet.protect crc32CalcBuffer s).auth)), ?_, ?_, ?_⟩
  · rw [exchange, sent, sender_both, receiver_both, hsent]
    simp only [hrecv]
    rw [Packet.protect] at *
    simp only [hround, mk'_same]
  · exact bodyOf_bytes ⟨m.packet.hdr, m.packet.data, m.packet.tlr, _, m.packet.hdr_length,
      m.packet.tlr_length, (m.packet.protect crc32CalcBuffer s).auth_length⟩
  · rw [signSeal_unsigned _ h]
    exact h

/-- A message between ends in the same state, with signatures. -/
theorem exchange_signed {s : SecState} (h : s.signs = true) (m : Message) :
    (exchange crc32CalcBuffer (both s) m).2.2 = false := by
  have hround := unsign_sign_signed crc32CalcBuffer h m.packet.data
  have hsent := preSend_packet crc32CalcBuffer s m.packet m.iov_flatten
  have hrecv := recvCheck_packet crc32CalcBuffer s
    (m.packet.protect crc32CalcBuffer s)
  rw [exchange, sent, sender_both, receiver_both, hsent]
  simp only [hrecv]
  exact hround

theorem staysInStep_unsigned (ms : List Message) : ∀ {s : SecState}, s.signs = false →
    StaysInStep crc32CalcBuffer (both s) ms := by
  induction ms with
  | nil =>
    intro s _
    rfl
  | cons m ms ih =>
    -- both ends go to one state, which signs no more than the one before
    intro s h
    obtain ⟨s', pdu, hex, hbody, hs'⟩ :=
      exchange_unsigned crc32CalcBuffer h m
    rw [StaysInStep, hex]
    exact ⟨rfl, hbody, rfl, ih hs'⟩

/-- **The ends stay in step exactly when nothing is signed.** -/
theorem ends_in_step_iff (crc32CalcBuffer : List UInt8 → BitVec 32) (s : SecState)
    (msgs : List Message) :
    (StaysInStep crc32CalcBuffer (both s) msgs ∧
      ReplaysRejected crc32CalcBuffer (both s) msgs) ↔
    (s.signs = false ∨ msgs = []) := by
  constructor
  · rintro ⟨hstep, -⟩
    cases msgs with
    | nil => exact .inr rfl
    | cons m ms =>
      left
      -- the first signed message carries a number one ahead of the receiver's
      cases hsign : s.signs with
      | false => rfl
      | true =>
        have hno := exchange_signed crc32CalcBuffer hsign m
        rw [StaysInStep] at hstep
        rw [hstep.1] at hno
        cases hno
  · rintro (hsign | rfl)
    · -- replays are looked for with signatures only
      refine ⟨staysInStep_unsigned _ msgs hsign, fun hyes => ?_⟩
      have hsame : (both s).client.signs = s.signs := rfl
      rw [hsame, hsign] at hyes
      cases hyes
    · refine ⟨rfl, fun _ => ⟨?_, ?_⟩⟩
      · intro before m mid after hmsgs
        exact absurd hmsgs.symm (by simp)
      · intro before m m' after hmsgs
        exact absurd hmsgs.symm (by simp)

/-- The generator as it is before any key, at the first message, with signatures and no seals. -/
def signingOnly : SecState := ⟨⟨id, 0, 0⟩, 0, negotiateSign⟩

/-- A packet without a body. -/
def emptyPacket : Packet :=
  ⟨List.replicate 24 0, [], List.replicate 8 0, List.replicate 16 0, rfl, rfl, rfl⟩

/-- The first signed message is not accepted. -/
theorem first_signed_rejected :
    ¬ StaysInStep (fun _ => 0) (both signingOnly)
      [⟨.toServer, emptyPacket, [emptyPacket.bytes], List.append_nil _⟩] := by
  rintro ⟨hok, -⟩
  rw [exchange_signed _ (by decide)] at hok
  cases hok

end Ntlmssp
end Cn
