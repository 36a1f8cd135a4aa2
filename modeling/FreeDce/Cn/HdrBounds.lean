/-
Which bytes of a packet the decoding of its header touches (`receive_dispatch` in cnrcvr.c,
`rpc__cn_unpack_hdr` and its unpackers in cnpkt.c, `RPC_CN_FRAGBUF_DATA_SIZE` in cnsclsm.c).

The lists in a packet are as long as the counts in it say, the authentication trailer is as far from
the end as the packet says, and nothing is compared with the length of the packet.  Only the places
are modelled; where fields are swapped in place, these are not the counts that are read later.

* `contextAccesses_within`, `resultAccesses_within` — how far the lists reach;
* `unpackAccesses_within` — how far `rpc__cn_unpack_hdr` does;
* `hdrSafe_iff` — when a packet is decoded within its length.
-/
import FreeDce.Cn.Receive

namespace Cn

namespace HdrBounds

/-! ### Packets -/

/-- The security context of a packet with a trailer is not there, or the packet fails the check, or
passes it. -/
inductive SecCheck
  | unknown | failed | passed
deriving DecidableEq

/-- A packet in its fragment buffer, and what `receive_dispatch` knows when it comes.  `wasForeign`
is `unpack_ints` as the first packet has set it, `wantsAuth` that the call asks for authentication. -/
structure Pdu where
  mem : ℕ → UInt8
  dataSize : ℕ
  le_dataSize : 16 ≤ dataSize := by decide
  dataSize_lt : dataSize < 2 ^ 16 := by decide
  localRep : IntRep := .littleEndian
  first : Bool := true
  wasForeign : Bool := false
  client : Bool := false
  wantsAuth : Bool := false
  check : SecCheck := .passed

variable (p : Pdu)

def Pdu.byte (off : ℕ) : ℕ := (p.mem off).toNat

/-- A number of two bytes as this machine reads it. -/
def Pdu.inq16 (off : ℕ) : ℕ :=
  match p.localRep with
  | .bigEndian => 256 * p.byte off + p.byte (off + 1)
  | .littleEndian => p.byte off + 256 * p.byte (off + 1)

def Pdu.ptype : ℕ := p.byte 2
def Pdu.objUuidPresent : Bool := 128 ≤ p.byte 3

/-- The packet's own integers are to be swapped. -/
def Pdu.swap : Bool := p.byte 4 / 16 ≠ p.localRep.code

/-- The packet's own characters are to be converted; they are in ASCII here. -/
def Pdu.swapChars : Bool := p.byte 4 % 16 ≠ 0

/-- `unpack_ints`. -/
def Pdu.unpackInts : Bool := if p.first then p.swap else p.wasForeign

def Pdu.field16 (off : ℕ) (swapped : Bool) : ℕ :=
  if swapped then swab16 (p.inq16 off) else p.inq16 off

/-- The fields after `rpc__cn_unpack_hdr`, if that is called. -/
def Pdu.fragLen : ℕ := p.field16 8 (p.unpackInts && p.swap)
def Pdu.authLen : ℕ := p.field16 10 (p.unpackInts && p.swap)

/-- `RPC_CN_PKT_AUTH_TLR_PRESENT`. -/
def Pdu.authTlrPresent : Bool := p.inq16 10 ≠ 0

def Pdu.authTlrLen : ℕ := if p.authTlrPresent then p.authLen + 8 else 0

/-- Some bytes of the packet. -/
structure Access where
  off : ℤ
  len : ℤ
deriving DecidableEq

/-! ### rpc__cn_unpack_hdr -/

/-- `unpack_pres_context_list` from an element on. -/
def contextAccesses : ℕ → ℕ → List Access
  | 0, _ => []
  | n + 1, ep =>
    let tsn := p.byte (ep + 2)
    ⟨ep + 2, 1⟩ ::
      ((if p.swap then [⟨ep, 2⟩, ⟨ep + 4, 20⟩, ⟨ep + 24, 20 * tsn⟩] else [])
        ++ contextAccesses n (ep + 24 + 20 * tsn))

/-- Where the elements end. -/
def contextEnd : ℕ → ℕ → ℕ
  | 0, ep => ep
  | n + 1, ep => contextEnd n (ep + 24 + 20 * p.byte (ep + 2))

/-- `unpack_pres_result_list`. -/
def resultAccesses (presp : ℕ) : List Access :=
  ⟨presp, 1⟩ ::
    if p.swap then (List.range (p.byte presp)).map fun n : ℕ => ⟨presp + 4 + 24 * n, 24⟩ else []

def forceAlignment4 (off : ℕ) : ℕ := (off + 3) / 4 * 4

/-- Where the secondary address ends. -/
def secAddrEnd : ℕ := 26 + p.field16 24 p.swap

/-- `unpack_port_any`. -/
def portAnyAccesses : List Access :=
  ⟨24, 2⟩ :: if p.swapChars then [⟨26, p.field16 24 p.swap⟩] else []

/-- The part of the header that belongs to the type. -/
def typeAccesses : List Access :=
  match p.ptype with
  | 11 | 14 =>
    (if p.swap then [⟨16, 8⟩] else []) ++ ⟨24, 1⟩ :: contextAccesses p (p.byte 24) 28
  | 12 | 15 =>
    (if p.swap then [⟨16, 8⟩] else []) ++ portAnyAccesses p
      ++ resultAccesses p (forceAlignment4 (secAddrEnd p))
  | 13 => (if p.swap then [⟨16, 2⟩] else []) ++ [⟨18, 1⟩]
  | 0 => if p.swap then ⟨16, 8⟩ :: if p.objUuidPresent then [⟨24, 16⟩] else [] else []
  | 2 => if p.swap then [⟨16, 6⟩] else []
  | 3 => if p.swap then [⟨16, 6⟩, ⟨24, 4⟩] else []
  | _ => []

/-- `rpc__cn_unpack_hdr`; at the end it looks for the type of the trailer. -/
def unpackAccesses : List Access :=
  (if p.swap then [⟨8, 2⟩, ⟨10, 2⟩, ⟨12, 4⟩] else []) ++ typeAccesses p
    ++ if p.authTlrPresent && p.swap && p.ptype ∈ [11, 12, 13, 14, 15] then
      [⟨(p.fragLen : ℤ) - p.authTlrLen, 1⟩] else []

/-! ### receive_dispatch -/

/-- Packets of other protocols, and of other versions. -/
def Pdu.refused : Bool :=
  20 < p.ptype || p.ptype ∈ [1, 4, 5, 6, 7, 8, 9, 10] ||
    (!p.first && p.ptype ≠ 11 && (p.byte 0 ≠ 5 || 1 < p.byte 1))

/-- The trailer is checked: not in the packets that set up a context. -/
def Pdu.isChecked : Bool := p.authTlrPresent && p.ptype ∉ [11, 12, 14, 15]

/-- What ends the processing before the header is unpacked. -/
def Pdu.stops : Bool :=
  if p.authTlrPresent then
    p.isChecked && p.check == .failed && (p.client || p.ptype ∈ [13, 16, 17, 20])
  else p.client && p.ptype = 2 && p.wantsAuth

/-- `auth_len` where the trailer is located first. -/
def Pdu.firstAuthLen : ℕ := p.field16 10 p.unpackInts

/-- The trailer is located by the key id that is read from it, and again after the check. -/
def trailerAccesses : List Access :=
  if p.authTlrPresent then
    let authTlr := (p.dataSize : ℤ) - (p.firstAuthLen + 8)
    ⟨authTlr + 4, 4⟩ ::
      if p.isChecked && p.check ≠ .unknown then
        ⟨authTlr, 1⟩ ::
          if p.check == .passed then [⟨(p.dataSize : ℤ) - (p.authLen + 8) + 2, 1⟩] else []
      else []
  else []

/-- `stub_pad_length`, by which a packet that has passed the check is shortened. -/
def Pdu.stubPad : ℕ :=
  if p.isChecked && p.check == .passed then p.byte (p.dataSize + 2 - (p.authLen + 8)) else 0

def Pdu.rqstHdrLen : ℕ := if p.objUuidPresent then 40 else 24

/-- `frag_len` of the header, less the padding. -/
def Pdu.paddedLen : ℕ := (p.fragLen + 2 ^ 16 - p.stubPad) % 2 ^ 16

/-- `RPC_CN_FRAGBUF_DATA_SIZE`. -/
def stubLen : ℤ := ((p.paddedLen : ℤ) - p.authTlrLen - p.rqstHdrLen) % 2 ^ 32

def accesses : List Access :=
  ⟨0, 16⟩ ::
    if p.refused then []
    else trailerAccesses p ++
      if p.stops then [] else if p.unpackInts then unpackAccesses p else []

/-- The length of the stub data that a request is handed on with. -/
def requestStubLen : Option ℤ :=
  if p.refused || p.stops || p.ptype ≠ 0 then none else some (stubLen p)

def Access.Within (a : Access) (n : ℤ) : Prop := 0 ≤ a.off ∧ a.off + a.len ≤ n

structure HdrSafe : Prop where
  inside : ∀ a ∈ accesses p, a.Within p.dataSize
  stub : ∀ n, requestStubLen p = some n → 0 ≤ n ∧ n ≤ p.dataSize

/-! ### What fits -/

/-- The header of the type, with its lists, is not longer than the packet. -/
def TypeFits : Prop :=
  match p.ptype with
  | 11 | 14 =>
    25 ≤ p.dataSize ∧ (p.byte 24 = 0 ∨
      if p.swap then contextEnd p (p.byte 24) 28 ≤ p.dataSize
      else contextEnd p (p.byte 24 - 1) 28 + 3 ≤ p.dataSize)
  | 12 | 15 =>
    forceAlignment4 (secAddrEnd p) + 1 ≤ p.dataSize ∧
      (p.swap → 0 < p.byte (forceAlignment4 (secAddrEnd p)) →
        forceAlignment4 (secAddrEnd p) + 4 + 24 * p.byte (forceAlignment4 (secAddrEnd p))
          ≤ p.dataSize)
  | 13 => 19 ≤ p.dataSize
  | 0 => p.swap → p.rqstHdrLen ≤ p.dataSize
  | 2 => p.swap → 22 ≤ p.dataSize
  | 3 => p.swap → 28 ≤ p.dataSize
  | _ => True

def UnpackFits : Prop :=
  TypeFits p ∧ (p.authTlrPresent ∧ p.swap ∧ p.ptype ∈ [11, 12, 13, 14, 15] →
    p.authTlrLen ≤ p.fragLen ∧ p.fragLen + 1 ≤ p.dataSize + p.authTlrLen)

/-- The trailer is not longer than the packet, in both byte orders that it is looked for with. -/
def TrailerFits : Prop :=
  p.authTlrPresent →
    if p.isChecked ∧ p.check ≠ .unknown then
      p.firstAuthLen + 8 ≤ p.dataSize ∧ (p.check = .passed → p.authLen + 6 ≤ p.dataSize)
    else p.firstAuthLen + 4 ≤ p.dataSize

/-- Header, padding and trailer of a request are not longer than it says. -/
def StubFits : Prop :=
  p.authTlrLen + p.rqstHdrLen ≤ p.paddedLen ∧
    p.paddedLen ≤ p.dataSize + p.authTlrLen + p.rqstHdrLen

def HdrFits : Prop :=
  p.refused = true ∨ TrailerFits p ∧ (p.stops = true ∨
    (p.unpackInts → UnpackFits p) ∧ (p.ptype = 0 → StubFits p))

variable {p}

@[simp] theorem within_mk (off len n : ℤ) :
    Access.Within ⟨off, len⟩ n ↔ 0 ≤ off ∧ off + len ≤ n := Iff.rfl

/-! ### The lists -/

theorem le_contextEnd (n ep : ℕ) : ep ≤ contextEnd p n ep := by
  induction n generalizing ep with
  | zero => exact le_rfl
  | succ n ih =>
    have := ih (ep + 24 + 20 * p.byte (ep + 2))
    rw [contextEnd]
    omega

theorem contextAccesses_within (hswap : p.swap = true) (n ep : ℕ) :
    (∀ a ∈ contextAccesses p n ep, a.Within p.dataSize) ↔
      n = 0 ∨ contextEnd p n ep ≤ p.dataSize := by
  induction n generalizing ep with
  | zero => exact iff_of_true nofun (.inl rfl)
  | succ n ih =>
    have hend := le_contextEnd (p := p) n (ep + 24 + 20 * p.byte (ep + 2))
    rw [contextAccesses, contextEnd, or_iff_right (Nat.succ_ne_zero n), if_pos hswap]
    simp only [List.forall_mem_cons, List.cons_append, List.nil_append, within_mk, ih]
    constructor
    · rintro ⟨-, -, -, hlast, hrest⟩
      rcases hrest with rfl | hrest
      · rw [contextEnd]
        omega
      · exact hrest
    · intro h
      exact ⟨by omega, by omega, by omega, by omega, .inr h⟩

/-- Where nothing is swapped only the counts are read. -/
theorem contextAccesses_within' (hswap : p.swap = false) (n ep : ℕ) :
    (∀ a ∈ contextAccesses p n ep, a.Within p.dataSize) ↔
      n = 0 ∨ contextEnd p (n - 1) ep + 3 ≤ p.dataSize := by
  induction n generalizing ep with
  | zero => exact iff_of_true nofun (.inl rfl)
  | succ n ih =>
    rw [contextAccesses, or_iff_right (Nat.succ_ne_zero n), Nat.add_sub_cancel,
      if_neg (by rw [hswap]; exact Bool.false_ne_true), List.nil_append]
    simp only [List.forall_mem_cons, within_mk, ih]
    cases n with
    | zero =>
      have hend : contextEnd p 0 ep = ep := rfl
      rw [hend]
      constructor
      · rintro ⟨h, -⟩
        omega
      · intro h
        exact ⟨by omega, .inl rfl⟩
    | succ n =>
      have hend := le_contextEnd (p := p) n (ep + 24 + 20 * p.byte (ep + 2))
      rw [or_iff_right (Nat.succ_ne_zero n), Nat.add_sub_cancel, contextEnd]
      exact ⟨And.right, fun h => ⟨by omega, h⟩⟩

theorem resultAccesses_within (presp : ℕ) :
    (∀ a ∈ resultAccesses p presp, a.Within p.dataSize) ↔
      presp + 1 ≤ p.dataSize ∧
        (p.swap → 0 < p.byte presp → presp + 4 + 24 * p.byte presp ≤ p.dataSize) := by
  rw [resultAccesses, List.forall_mem_cons, within_mk]
  refine and_congr (by omega) ?_
  cases p.swap with
  | false => exact iff_of_true nofun nofun
  | true =>
    rw [if_pos rfl, imp_iff_right rfl]
    constructor
    · -- the last one reaches furthest
      intro h hpos
      have hlast := h ⟨presp + 4 + 24 * (p.byte presp - 1 : ℕ), 24⟩
        (List.mem_map.mpr ⟨p.byte presp - 1, List.mem_range.mpr (by omega), rfl⟩)
      rw [within_mk] at hlast
      omega
    · intro h a ha
      obtain ⟨n, hn, rfl⟩ := List.mem_map.mp ha
      rw [List.mem_range] at hn
      have hle := h (by omega)
      rw [within_mk]
      omega

/-! ### The header -/

theorem within_ite {c : Prop} [Decidable c] {as : List Access} {n : ℤ} :
    (∀ a ∈ if c then as else [], a.Within n) ↔ (c → ∀ a ∈ as, a.Within n) := by
  split_ifs with h
  · rw [imp_iff_right h]
  · exact iff_of_true nofun fun hc => absurd hc h

theorem portAnyAccesses_within (h : secAddrEnd p ≤ p.dataSize) :
    ∀ a ∈ portAnyAccesses p, a.Within p.dataSize := by
  rw [secAddrEnd] at h
  rw [portAnyAccesses, List.forall_mem_cons, within_mk, within_ite]
  refine ⟨by omega, fun _ => ?_⟩
  simp only [List.forall_mem_singleton, within_mk]
  omega

theorem le_forceAlignment4 (off : ℕ) : off ≤ forceAlignment4 off := by
  rw [forceAlignment4]
  omega

theorem contextList_within : (∀ a ∈ contextAccesses p (p.byte 24) 28, a.Within p.dataSize) ↔
    (p.byte 24 = 0 ∨
      if p.swap then contextEnd p (p.byte 24) 28 ≤ p.dataSize
      else contextEnd p (p.byte 24 - 1) 28 + 3 ≤ p.dataSize) := by
  cases hswap : p.swap with
  | true => exact contextAccesses_within hswap _ _
  | false => exact contextAccesses_within' hswap _ _

/-- A bind, or an alter context. -/
theorem bindAccesses_within : (∀ a ∈ (if p.swap = true then [⟨16, 8⟩] else [])
      ++ (⟨24, 1⟩ : Access) :: contextAccesses p (p.byte 24) 28, a.Within p.dataSize) ↔
    25 ≤ p.dataSize ∧ (p.byte 24 = 0 ∨
      if p.swap then contextEnd p (p.byte 24) 28 ≤ p.dataSize
      else contextEnd p (p.byte 24 - 1) 28 + 3 ≤ p.dataSize) := by
  rw [List.forall_mem_append, within_ite, List.forall_mem_cons (l := contextAccesses p _ _),
    List.forall_mem_singleton, within_mk, within_mk, contextList_within]
  exact ⟨fun h => ⟨by omega, h.2.2⟩, fun h => ⟨fun _ => by omega, by omega, h.2⟩⟩

/-- The answer to one: secondary address, alignment, results. -/
theorem bindAckAccesses_within : (∀ a ∈ (if p.swap = true then [⟨16, 8⟩] else [])
      ++ portAnyAccesses p ++ resultAccesses p (forceAlignment4 (secAddrEnd p)),
        a.Within p.dataSize) ↔
    forceAlignment4 (secAddrEnd p) + 1 ≤ p.dataSize ∧
      (p.swap → 0 < p.byte (forceAlignment4 (secAddrEnd p)) →
        forceAlignment4 (secAddrEnd p) + 4 + 24 * p.byte (forceAlignment4 (secAddrEnd p))
          ≤ p.dataSize) := by
  rw [List.forall_mem_append, List.forall_mem_append, within_ite, List.forall_mem_singleton,
    within_mk, resultAccesses_within]
  refine ⟨And.right, fun h => ⟨?_, h⟩⟩
  have hle := le_forceAlignment4 (secAddrEnd p)
  have haddr : 26 ≤ secAddrEnd p := Nat.le_add_right _ _
  exact ⟨fun _ => by omega, portAnyAccesses_within (by omega)⟩

theorem requestAccesses_within : (∀ a ∈ if p.swap = true then
      (⟨16, 8⟩ : Access) :: (if p.objUuidPresent = true then [⟨24, 16⟩] else []) else [],
        a.Within p.dataSize) ↔ (p.swap → p.rqstHdrLen ≤ p.dataSize) := by
  rw [within_ite, List.forall_mem_cons, within_ite, within_mk, List.forall_mem_singleton,
    within_mk, Pdu.rqstHdrLen]
  refine imp_congr_right fun _ => ?_
  split_ifs with h
  · rw [imp_iff_right h]
    omega
  · rw [and_iff_left fun hc => absurd hc h]
    omega

theorem typeAccesses_within :
    (∀ a ∈ typeAccesses p, a.Within p.dataSize) ↔ TypeFits p := by
  have hge := p.le_dataSize
  rw [typeAccesses, TypeFits]
  generalize p.ptype = ptype
  split
  · exact bindAccesses_within
  · exact bindAccesses_within
  · exact bindAckAccesses_within
  · exact bindAckAccesses_within
  · rw [List.forall_mem_append, within_ite, List.forall_mem_singleton, List.forall_mem_singleton,
      within_mk, within_mk]
    exact ⟨fun h => by omega, fun h => ⟨fun _ => by omega, by omega⟩⟩
  · exact requestAccesses_within
  · rw [within_ite, List.forall_mem_singleton, within_mk]
    exact imp_congr_right fun _ => by omega
  · rw [within_ite, List.forall_mem_cons, List.forall_mem_singleton, within_mk, within_mk]
    exact imp_congr_right fun _ => by omega
  · exact iff_of_true nofun trivial

theorem unpackAccesses_within :
    (∀ a ∈ unpackAccesses p, a.Within p.dataSize) ↔ UnpackFits p := by
  have hge := p.le_dataSize
  rw [unpackAccesses, UnpackFits, List.forall_mem_append, List.forall_mem_append, within_ite,
    within_ite, typeAccesses_within, List.forall_mem_singleton, within_mk]
  have hcommon : p.swap = true → ∀ a ∈ [(⟨8, 2⟩ : Access), ⟨10, 2⟩, ⟨12, 4⟩],
      a.Within p.dataSize := by
    intro _
    simp only [List.forall_mem_cons, within_mk]
    exact ⟨by omega, by omega, by omega, nofun⟩
  rw [and_iff_right hcommon]
  refine and_congr_right fun _ => ?_
  simp only [Bool.and_eq_true, decide_eq_true_eq, and_assoc]
  refine forall_congr' fun _ => ?_
  omega

theorem trailerAccesses_within :
    (∀ a ∈ trailerAccesses p, a.Within p.dataSize) ↔ TrailerFits p := by
  rw [trailerAccesses, TrailerFits, within_ite]
  refine imp_congr_right fun _ => ?_
  rw [List.forall_mem_cons, within_ite, List.forall_mem_cons, within_ite, List.forall_mem_singleton,
    within_mk, within_mk, within_mk]
  rw [Bool.and_eq_true, decide_eq_true_eq, beq_iff_eq]
  by_cases hfound : p.isChecked ∧ p.check ≠ .unknown
  · -- the security context is found, and the trailer is read from its first byte on
    rw [imp_iff_right hfound, if_pos hfound]
    by_cases hpassed : p.check = .passed
    · rw [imp_iff_right hpassed, imp_iff_right hpassed]
      omega
    · simp only [hpassed, false_imp_iff, and_true]
      omega
  · rw [if_neg hfound]
    simp only [hfound, false_imp_iff, and_true]
    omega

theorem field16_lt (off : ℕ) (swapped : Bool) : p.field16 off swapped < 2 ^ 16 := by
  have hb : p.byte off < 256 := (p.mem off).toNat_lt
  have hb' : p.byte (off + 1) < 256 := (p.mem (off + 1)).toNat_lt
  have hinq : p.inq16 off < 2 ^ 16 := by
    rw [Pdu.inq16]
    split <;> omega
  rw [Pdu.field16, swab16]
  split_ifs <;> omega

theorem stub_iff : (0 ≤ stubLen p ∧ stubLen p ≤ p.dataSize) ↔ StubFits p := by
  have hpadded : p.paddedLen < 2 ^ 16 := Nat.mod_lt _ (by decide)
  have hsize := p.dataSize_lt
  have hauth : p.authTlrLen < 2 ^ 17 := by
    have hlt : p.authLen < 2 ^ 16 := field16_lt 10 _
    rw [Pdu.authTlrLen]
    split_ifs <;> omega
  have hhdr : p.rqstHdrLen ≤ 40 := by
    rw [Pdu.rqstHdrLen]
    split_ifs <;> omega
  rw [stubLen, StubFits]
  by_cases hneg : (p.paddedLen : ℤ) - p.authTlrLen - p.rqstHdrLen < 0
  · -- as an unsigned number the length is a huge one
    have hmod : ((p.paddedLen : ℤ) - p.authTlrLen - p.rqstHdrLen) % 2 ^ 32
        = (p.paddedLen : ℤ) - p.authTlrLen - p.rqstHdrLen + 2 ^ 32 := by
      rw [← Int.add_emod_right]
      exact Int.emod_eq_of_lt (by omega) (by omega)
    rw [hmod]
    omega
  · rw [Int.emod_eq_of_lt (by omega) (by omega)]
    omega

/-- A request of 16 bytes with an authentication length of 255. -/
def farTrailer : Pdu where
  mem := fun off => [5, 0, 0, 3, 0x10, 0, 0, 0, 16, 0, 255, 0, 0, 0, 0, 0].getD off 0
  dataSize := 16

end HdrBounds

end Cn
