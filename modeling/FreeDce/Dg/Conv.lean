/-
Requests of the conversation manager (`handle_conv_int` and its stubs in dglsn.c,
`conv_who_are_you_auth` and `conv_who_are_you_auth_more` in conv.c).

A server that does not know a client calls it back, and the client answers without a call: stubs
written by hand read the arguments out of the packet and marshal the results over them.  The model
keeps which bytes of the body are read and written, and how long the response is said to be.

* `stubWhoAreYouAuth_bounds`, `stubWhoAreYouAuthMore_bounds` — when the two stubs with arguments of
  their own stay in the packet;
* `convSafe_iff` — when a request does.
-/
import FreeDce.Lib.Bytes

namespace Dg

namespace Conv

def maxPktBodySize : ℤ := 4240
def convMinRequestLen : ℕ := 20

/-- A request on the conv interface.  `word` gives the numbers of four bytes in the body as they
are in the packet, by offset. -/
structure Request where
  ifVers : BitVec 32 := 3
  opnum : BitVec 16
  len : BitVec 16
  foreign : Bool := false
  word : ℕ → BitVec 32

def Request.inq32 (req : Request) (off : ℕ) : BitVec 32 :=
  if req.foreign then Bytes.swab32 (req.word off) else req.word off

/-- The client's call with the activity in the request.  `credentials` is the length that the WAY
handler gives, if the call is authenticated. -/
structure ClientCall where
  credentials : Option ℕ := none
  authWayInfoLen : BitVec 32 := 0

/-- A piece of the packet body. -/
structure Access where
  off : ℤ
  len : ℤ

def Access.stop (a : Access) : ℤ := a.off + a.len

/-- What a request does to the body, and the length in the header of the response. -/
structure Handled where
  reads : List Access := []
  writes : List Access := []
  respLen : Option (BitVec 16) := none

/-- A signed number where a `size_t` is wanted. -/
def sizeT (n : ℤ) : ℤ := n % 2 ^ 64

/-- `(n + 3) & ~3`. -/
def roundUp4 (n : ℤ) : ℤ := (n + 3) / 4 * 4

/-! ### The stubs -/

def stubWhoAreYou (_ : Request) (_ : Option ClientCall) : Handled :=
  { writes := [⟨0, 4⟩, ⟨4, 4⟩], respLen := some 8 }

def stubWhoAreYou2 (_ : Request) (_ : Option ClientCall) : Handled :=
  { writes := [⟨0, 4⟩, ⟨4, 16⟩, ⟨20, 4⟩], respLen := some 24 }

def stubAreYouThere (_ : Request) (_ : Option ClientCall) : Handled :=
  { writes := [⟨0, 4⟩], respLen := some 4 }

/-- `conv_who_are_you_auth`: `out_len`, and what is written to `out_data`.  The handler writes there
itself if the credentials fit. -/
def convWhoAreYouAuth (call : Option ClientCall) (outMaxLen : ℤ) : ℤ × List Access :=
  match call.bind ClientCall.credentials with
  | none => (0, [])
  | some n => if outMaxLen < n then (outMaxLen, [⟨32, sizeT outMaxLen⟩]) else (n, [⟨32, n⟩])

/-- `out_max_len` as the stub passes it on. -/
def clampOutMaxLen (outMaxLen : ℤ) : ℤ := if 4200 < outMaxLen then 4200 else outMaxLen

def stubWhoAreYouAuth (req : Request) (call : Option ClientCall) : Handled :=
  let inLen := (req.inq32 20).toInt
  if inLen + 32 ≠ req.len.toNat ∨ inLen < 0 then
    -- the header of the response is a copy of the request's
    { reads := [⟨20, 4⟩], respLen := some req.len }
  else
    let outMaxLen := clampOutMaxLen (req.inq32 (28 + inLen.toNat)).toInt
    let (outLen, copied) := convWhoAreYouAuth call outMaxLen
    let outRoundLen := roundUp4 outLen
    { reads := [⟨20, 4⟩, ⟨24, inLen⟩, ⟨28 + inLen, 4⟩]
      writes := copied ++ [⟨0, 4⟩, ⟨4, 16⟩, ⟨20, 4⟩, ⟨24, 4⟩, ⟨28, 4⟩, ⟨32 + outRoundLen, 4⟩,
        ⟨36 + outRoundLen, 4⟩]
      respLen := some (BitVec.ofInt 16 (40 + outRoundLen)) }

/-- `out_len` of `conv_who_are_you_auth_more` for a call that there is. -/
def moreOutLen (c : ClientCall) (index outMaxLen : BitVec 32) : ℤ :=
  if c.authWayInfoLen ≤ index + outMaxLen then (c.authWayInfoLen - index).toInt
  else outMaxLen.toInt

def convWhoAreYouAuthMore (call : Option ClientCall) (index outMaxLen : BitVec 32) :
    ℤ × List Access :=
  match call with
  | none => (0, [])
  | some c =>
    let outLen := moreOutLen c index outMaxLen
    (outLen, [⟨12, sizeT outLen⟩])

def stubWhoAreYouAuthMore (req : Request) (call : Option ClientCall) : Handled :=
  let (outLen, copied) := convWhoAreYouAuthMore call (req.inq32 20) (req.inq32 24)
  let outRoundLen := roundUp4 outLen
  { reads := [⟨20, 4⟩, ⟨24, 4⟩]
    writes := copied ++ [⟨0, 4⟩, ⟨4, 4⟩, ⟨8, 4⟩, ⟨12 + outRoundLen, 4⟩, ⟨16 + outRoundLen, 4⟩]
    respLen := some (BitVec.ofInt 16 (20 + outRoundLen)) }

def convStubs : List (Request → Option ClientCall → Handled) :=
  [stubWhoAreYou, stubWhoAreYou2, stubAreYouThere, stubWhoAreYouAuth, stubWhoAreYouAuthMore]

/-- `handle_conv_int`; `none` is a failed assertion or a call through what is behind the table. -/
def handleConvInt (req : Request) (call : Option ClientCall) : Option Handled :=
  if req.ifVers ≠ 3 then none
  else if 5 < req.opnum.toNat ∨ req.len.toNat < convMinRequestLen then some {}
  else
    convStubs[req.opnum.toNat]?.map fun stub =>
      let r := stub req call
      { r with reads := ⟨0, 16⟩ :: ⟨16, 4⟩ :: r.reads }

/-! ### Bounds -/

/-- The bytes of the body that were received into the first buffer. -/
def received (req : Request) : ℤ := min req.len.toNat maxPktBodySize

def marshalledSize (writes : List Access) : ℤ := writes.foldr (fun a n => max a.stop n) 0

def Access.Within (a : Access) (n : ℤ) : Prop := 0 ≤ a.off ∧ a.stop ≤ n

structure InBounds (req : Request) (r : Handled) : Prop where
  reads : ∀ a ∈ r.reads, a.Within (received req)
  writes : ∀ a ∈ r.writes, a.Within maxPktBodySize
  respLen : ∀ n, r.respLen = some n → (n.toNat : ℤ) = marshalledSize r.writes

/-- What a request has to do. -/
def ConvSafe (req : Request) (call : Option ClientCall) : Prop :=
  ∃ r, handleConvInt req call = some r ∧ InBounds req r

/-- The lengths in a request for credentials agree, and there is room to ask for. -/
def AuthFits (req : Request) (call : Option ClientCall) : Prop :=
  let inLen := (req.inq32 20).toInt
  0 ≤ inLen ∧ inLen + 32 = req.len.toNat ∧ (req.len.toNat : ℤ) ≤ maxPktBodySize ∧
    ((call.bind ClientCall.credentials).isSome → 0 ≤ (req.inq32 (28 + inLen.toNat)).toInt)

/-- A request for more credentials has its arguments.  If they select the end of the credentials,
that is not before the index and fits the body; otherwise the length that is asked for does. -/
def MoreFits (req : Request) (call : Option ClientCall) : Prop :=
  let index := req.inq32 20
  let outMaxLen := req.inq32 24
  28 ≤ req.len.toNat ∧ ∀ c, call = some c →
    if c.authWayInfoLen ≤ index + outMaxLen then
      0 ≤ (c.authWayInfoLen - index).toInt ∧ (c.authWayInfoLen - index).toInt ≤ 4220
    else 0 ≤ outMaxLen.toInt ∧ outMaxLen.toInt ≤ 4220

def ConvFits (req : Request) (call : Option ClientCall) : Prop :=
  req.ifVers = 3 ∧ (5 < req.opnum.toNat ∨ req.len.toNat < convMinRequestLen ∨
    req.opnum.toNat ≤ 2 ∨ req.opnum.toNat = 3 ∧ AuthFits req call ∨
      req.opnum.toNat = 4 ∧ MoreFits req call)

variable {req : Request} {call : Option ClientCall}

theorem sizeT_of_nonneg {n : ℤ} (h : 0 ≤ n) (hmax : n < 2 ^ 64) : sizeT n = n :=
  Int.emod_eq_of_lt h hmax

/-- A negative length is a huge one. -/
theorem lt_sizeT_of_neg {n : ℤ} (h : n < 0) (hmin : -2 ^ 32 ≤ n) : 2 ^ 63 < sizeT n := by
  have hmod : sizeT n = n + 2 ^ 64 := by
    rw [sizeT, ← Int.add_emod_right]
    exact Int.emod_eq_of_lt (by omega) (by omega)
  omega

theorem toNat_ofInt_of_lt {n : ℤ} (h : 0 ≤ n) (hmax : n < 2 ^ 16) :
    ((BitVec.ofInt 16 n).toNat : ℤ) = n := by
  rw [BitVec.toNat_ofInt]
  omega

theorem le_roundUp4 (n : ℤ) : n ≤ roundUp4 n ∧ roundUp4 n ≤ n + 3 := by
  rw [roundUp4]
  omega

theorem roundUp4_le {n k : ℤ} (h : n ≤ 4 * k) : roundUp4 n ≤ 4 * k := by
  rw [roundUp4]
  omega

@[simp] theorem within_mk (off len n : ℤ) :
    Access.Within ⟨off, len⟩ n ↔ 0 ≤ off ∧ off + len ≤ n := Iff.rfl

@[simp] theorem marshalledSize_nil : marshalledSize [] = 0 := rfl

@[simp] theorem marshalledSize_cons (off len : ℤ) (writes : List Access) :
    marshalledSize (⟨off, len⟩ :: writes) = max (off + len) (marshalledSize writes) := rfl

/-- The arguments that all stubs have in common. -/
theorem inBounds_cons {r : Handled} (hlen : convMinRequestLen ≤ req.len.toNat) :
    InBounds req { r with reads := ⟨0, 16⟩ :: ⟨16, 4⟩ :: r.reads } ↔ InBounds req r := by
  have hrec : 20 ≤ received req := by
    rw [convMinRequestLen] at hlen
    rw [received, maxPktBodySize]
    omega
  constructor
  · intro h
    refine ⟨fun a ha => h.reads a ?_, h.writes, h.respLen⟩
    exact List.mem_cons_of_mem _ (List.mem_cons_of_mem _ ha)
  · intro h
    refine ⟨?_, h.writes, h.respLen⟩
    simp only [List.forall_mem_cons, within_mk]
    exact ⟨by omega, by omega, h.reads⟩

/-- The stubs that have no arguments of their own. -/
theorem inBounds_whoAreYou : InBounds req (stubWhoAreYou req call) := by
  refine ⟨nofun, ?_, ?_⟩
  · simp only [stubWhoAreYou, List.forall_mem_cons, within_mk, maxPktBodySize]
    exact ⟨by omega, by omega, nofun⟩
  · rintro n ⟨⟩
    rfl

theorem inBounds_whoAreYou2 : InBounds req (stubWhoAreYou2 req call) := by
  refine ⟨nofun, ?_, ?_⟩
  · simp only [stubWhoAreYou2, List.forall_mem_cons, within_mk, maxPktBodySize]
    exact ⟨by omega, by omega, by omega, nofun⟩
  · rintro n ⟨⟩
    rfl

theorem inBounds_areYouThere : InBounds req (stubAreYouThere req call) := by
  refine ⟨nofun, ?_, ?_⟩
  · simp only [stubAreYouThere, List.forall_mem_cons, within_mk, maxPktBodySize]
    exact ⟨by omega, nofun⟩
  · rintro n ⟨⟩
    rfl

/-- What the handler gives, and where it is put. -/
theorem convWhoAreYouAuth_bounds {outMaxLen : ℤ} (hmax : outMaxLen ≤ 4200)
    (hmin : -2 ^ 32 ≤ outMaxLen) (hroom : (call.bind ClientCall.credentials).isSome → 0 ≤ outMaxLen) :
    ∃ n, 0 ≤ n ∧ n ≤ 4200 ∧ (convWhoAreYouAuth call outMaxLen).1 = n ∧
      ((convWhoAreYouAuth call outMaxLen).2 = [] ∨
        (convWhoAreYouAuth call outMaxLen).2 = [⟨32, n⟩]) := by
  rw [convWhoAreYouAuth]
  cases hcred : call.bind ClientCall.credentials with
  | none => exact ⟨0, le_rfl, by omega, rfl, .inl rfl⟩
  | some k =>
    have hpos := hroom (by rw [hcred]; rfl)
    dsimp only
    split_ifs with hlt
    · refine ⟨outMaxLen, hpos, hmax, rfl, .inr ?_⟩
      rw [sizeT_of_nonneg hpos (by omega)]
    · exact ⟨k, by omega, by omega, rfl, .inr rfl⟩

/-- A negative length of the output is a huge one for `memcpy`. -/
theorem copied_of_negative {outMaxLen : ℤ} (hcred : (call.bind ClientCall.credentials).isSome)
    (hneg : outMaxLen < 0) : (convWhoAreYouAuth call outMaxLen).2 = [⟨32, sizeT outMaxLen⟩] := by
  obtain ⟨k, hk⟩ := Option.isSome_iff_exists.mp hcred
  rw [convWhoAreYouAuth, hk]
  dsimp only
  rw [if_pos (by omega)]

theorem clampOutMaxLen_le (raw : ℤ) : clampOutMaxLen raw ≤ 4200 := by
  rw [clampOutMaxLen]
  split_ifs <;> omega

theorem clampOutMaxLen_nonneg_iff (raw : ℤ) : 0 ≤ clampOutMaxLen raw ↔ 0 ≤ raw := by
  rw [clampOutMaxLen]
  split_ifs <;> omega

theorem le_clampOutMaxLen (word : BitVec 32) : -2 ^ 32 ≤ clampOutMaxLen word.toInt := by
  have := BitVec.le_toInt word
  rw [clampOutMaxLen]
  split_ifs <;> omega

/-- A response with room for `m` bytes, of which `n` were copied if any were. -/
theorem authResponse_bounds {n m : ℤ} {copied : List Access} (hpos : 0 ≤ n) (hle : n ≤ m)
    (hmax : m ≤ 4200) (hcopied : copied = [] ∨ copied = [⟨32, n⟩]) :
    (∀ a ∈ copied ++ [⟨0, 4⟩, ⟨4, 16⟩, ⟨20, 4⟩, ⟨24, 4⟩, ⟨28, 4⟩, ⟨32 + m, 4⟩, ⟨36 + m, 4⟩],
      a.Within maxPktBodySize) ∧
      marshalledSize (copied ++ [⟨0, 4⟩, ⟨4, 16⟩, ⟨20, 4⟩, ⟨24, 4⟩, ⟨28, 4⟩, ⟨32 + m, 4⟩,
        ⟨36 + m, 4⟩]) = 40 + m := by
  have hfixed : ∀ a ∈ ([⟨0, 4⟩, ⟨4, 16⟩, ⟨20, 4⟩, ⟨24, 4⟩, ⟨28, 4⟩, ⟨32 + m, 4⟩, ⟨36 + m, 4⟩] :
      List Access), a.Within maxPktBodySize := by
    simp only [List.forall_mem_cons, within_mk, maxPktBodySize]
    exact ⟨by omega, by omega, by omega, by omega, by omega, by omega, by omega, nofun⟩
  have hsize : marshalledSize [⟨0, 4⟩, ⟨4, 16⟩, ⟨20, 4⟩, ⟨24, 4⟩, ⟨28, 4⟩, ⟨32 + m, 4⟩,
      ⟨36 + m, 4⟩] = 40 + m := by
    simp only [marshalledSize_cons, marshalledSize_nil]
    omega
  rcases hcopied with rfl | rfl
  · exact ⟨hfixed, hsize⟩
  · rw [List.singleton_append]
    refine ⟨?_, ?_⟩
    · rw [List.forall_mem_cons, within_mk, maxPktBodySize]
      exact ⟨by omega, hfixed⟩
    · rw [marshalledSize_cons, hsize]
      exact max_eq_right (by omega)

theorem stubWhoAreYouAuth_bounds (hlen : convMinRequestLen ≤ req.len.toNat) :
    InBounds req (stubWhoAreYouAuth req call) ↔ AuthFits req call := by
  rw [convMinRequestLen] at hlen
  rw [stubWhoAreYouAuth, AuthFits]
  set inLen := (req.inq32 20).toInt with hin
  dsimp only
  by_cases hbad : inLen + 32 ≠ req.len.toNat ∨ inLen < 0
  · rw [if_pos hbad]
    refine iff_of_false (fun h => ?_) (by omega)
    -- the response is as long as the request, and nothing was marshalled
    have hresp := h.respLen req.len rfl
    rw [marshalledSize_nil] at hresp
    omega
  · rw [if_neg hbad]
    set raw := (req.inq32 (28 + inLen.toNat)).toInt with hraw
    have hmin := le_clampOutMaxLen (req.inq32 (28 + inLen.toNat))
    rw [← hraw] at hmin
    by_cases hroom : (call.bind ClientCall.credentials).isSome → 0 ≤ raw
    · obtain ⟨n, hpos, hle, hout, hcopied⟩ := @convWhoAreYouAuth_bounds call _ (clampOutMaxLen_le raw)
        hmin fun h => (clampOutMaxLen_nonneg_iff raw).mpr (hroom h)
      have hround := le_roundUp4 n
      have hroundMax : roundUp4 n ≤ 4 * 1050 := roundUp4_le (by omega)
      have hresp := toNat_ofInt_of_lt (n := 40 + roundUp4 n) (by omega) (by omega)
      rw [hout]
      constructor
      · intro h
        have hreads := h.reads
        simp only [List.forall_mem_cons, within_mk, received, maxPktBodySize] at hreads
        refine ⟨by omega, by omega, ?_, hroom⟩
        rw [maxPktBodySize]
        omega
      · rintro ⟨-, -, hfit, -⟩
        rw [maxPktBodySize] at hfit
        obtain ⟨hwrites, hsize⟩ := authResponse_bounds hpos hround.1 hroundMax hcopied
        refine ⟨?_, hwrites, ?_⟩
        · simp only [List.forall_mem_cons, within_mk, received, maxPktBodySize]
          exact ⟨by omega, by omega, by omega, nofun⟩
        · rintro _ ⟨⟩
          exact hresp.trans hsize.symm
    · -- the copy does not fit, whatever the length is
      refine iff_of_false (fun h => ?_) fun h => hroom h.2.2.2
      rw [Classical.not_imp] at hroom
      obtain ⟨hcred, hneg⟩ := hroom
      have hclampneg : clampOutMaxLen raw < 0 :=
        not_le.mp ((clampOutMaxLen_nonneg_iff raw).not.mpr hneg)
      have hcopied := copied_of_negative hcred hclampneg
      have hwrites := h.writes ⟨32, sizeT (clampOutMaxLen raw)⟩ (by rw [hcopied]; simp)
      have hbig := lt_sizeT_of_neg hclampneg hmin
      rw [within_mk, maxPktBodySize] at hwrites
      omega

theorem moreFits_iff : MoreFits req call ↔ 28 ≤ req.len.toNat ∧ ∀ c, call = some c →
    0 ≤ moreOutLen c (req.inq32 20) (req.inq32 24) ∧
      moreOutLen c (req.inq32 20) (req.inq32 24) ≤ 4220 := by
  refine and_congr_right fun _ => forall_congr' fun c => imp_congr_right fun _ => ?_
  rw [moreOutLen]
  split_ifs <;> rfl

theorem stubWhoAreYouAuthMore_bounds :
    InBounds req (stubWhoAreYouAuthMore req call) ↔ MoreFits req call := by
  rw [stubWhoAreYouAuthMore, moreFits_iff]
  dsimp only
  have hreads : (∀ a ∈ [(⟨20, 4⟩ : Access), ⟨24, 4⟩], a.Within (received req)) ↔
      28 ≤ req.len.toNat := by
    simp only [List.forall_mem_cons, within_mk, received, maxPktBodySize, List.not_mem_nil,
      false_imp_iff, implies_true, and_true]
    omega
  cases call with
  | none =>
    refine ⟨fun h => ⟨hreads.mp h.reads, nofun⟩, fun h => ⟨hreads.mpr h.1, ?_, ?_⟩⟩
    · simp only [convWhoAreYouAuthMore, List.nil_append, List.forall_mem_cons, within_mk,
        maxPktBodySize, roundUp4]
      exact ⟨by omega, by omega, by omega, by omega, by omega, nofun⟩
    · rintro _ ⟨⟩
      rfl
  | some c =>
    rw [convWhoAreYouAuthMore]
    dsimp only
    set n := moreOutLen c (req.inq32 20) (req.inq32 24) with hn
    have hround := le_roundUp4 n
    rw [List.singleton_append]
    constructor
    · intro h
      refine ⟨hreads.mp h.reads, ?_⟩
      rintro _ ⟨⟩
      have hwrites := h.writes
      simp only [List.forall_mem_cons, within_mk, maxPktBodySize] at hwrites
      rw [← hn]
      refine ⟨?_, by omega⟩
      -- a negative length is a huge one for memcpy
      by_contra hneg
      have hmin : -2 ^ 32 ≤ n := by
        have hleft := BitVec.le_toInt (c.authWayInfoLen - req.inq32 20)
        have hright := BitVec.le_toInt (req.inq32 24)
        rw [hn, moreOutLen]
        split_ifs <;> omega
      have hbig := lt_sizeT_of_neg (not_le.mp hneg) hmin
      omega
    · rintro ⟨hlen, hfit⟩
      obtain ⟨hpos, hle⟩ := hfit c rfl
      rw [← hn] at hpos hle
      have hroundMax : roundUp4 n ≤ 4 * 1055 := roundUp4_le (by omega)
      have hresp := toNat_ofInt_of_lt (n := 20 + roundUp4 n) (by omega) (by omega)
      rw [sizeT_of_nonneg hpos (by omega)]
      refine ⟨hreads.mpr hlen, ?_, ?_⟩
      · simp only [List.forall_mem_cons, within_mk, maxPktBodySize]
        exact ⟨by omega, by omega, by omega, by omega, by omega, by omega, nofun⟩
      · rintro _ ⟨⟩
        rw [hresp]
        simp only [marshalledSize_cons, marshalledSize_nil]
        omega

/-! ### All requests -/

/-- **Requests of the conversation manager.** -/
theorem convSafe_iff (req : Request) (call : Option ClientCall) :
    ConvSafe req call ↔ ConvFits req call := by
  rw [ConvSafe, ConvFits, handleConvInt]
  by_cases hvers : req.ifVers = 3
  · rw [if_neg (not_not.mpr hvers), and_iff_right hvers]
    by_cases hcurious : 5 < req.opnum.toNat ∨ req.len.toNat < convMinRequestLen
    · rw [if_pos hcurious]
      refine iff_of_true ⟨_, rfl, nofun, nofun, nofun⟩ ?_
      exact hcurious.imp_right .inl
    · rw [if_neg hcurious]
      rw [not_or, not_lt, not_lt] at hcurious
      obtain ⟨hop, hlen⟩ := hcurious
      have hstub : ∀ stub, convStubs[req.opnum.toNat]? = some stub →
          ((∃ r, (convStubs[req.opnum.toNat]?.map fun stub =>
              let r := stub req call
              { r with reads := ⟨0, 16⟩ :: ⟨16, 4⟩ :: r.reads }) = some r ∧ InBounds req r) ↔
            InBounds req (stub req call)) := by
        intro stub hget
        rw [hget, Option.map_some]
        refine ⟨?_, fun h => ⟨_, rfl, (inBounds_cons hlen).mpr h⟩⟩
        rintro ⟨_, ⟨⟩, h⟩
        exact (inBounds_cons hlen).mp h
      rw [or_iff_right (not_lt.mpr hop), or_iff_right (not_lt.mpr hlen)]
      generalize req.opnum.toNat = opnum at hop hstub ⊢
      interval_cases opnum
      · rw [hstub _ rfl]
        exact iff_of_true inBounds_whoAreYou (.inl (by decide))
      · rw [hstub _ rfl]
        exact iff_of_true inBounds_whoAreYou2 (.inl (by decide))
      · rw [hstub _ rfl]
        exact iff_of_true inBounds_areYouThere (.inl (by decide))
      · rw [hstub _ rfl, stubWhoAreYouAuth_bounds hlen]
        simp
      · rw [hstub _ rfl, stubWhoAreYouAuthMore_bounds]
        simp
      · -- there is no sixth stub
        refine iff_of_false ?_ (by simp)
        rintro ⟨r, hr, -⟩
        cases hr
  · rw [if_pos hvers]
    refine iff_of_false ?_ fun h => hvers h.1
    rintro ⟨r, hr, -⟩
    cases hr

/-- A request for operation 5, which the check lets pass. -/
theorem not_convSafe : ¬ ConvSafe { opnum := 5, len := 20, word := fun _ => 0 } none := by
  rintro ⟨r, hr, -⟩
  cases hr

end Conv

end Dg
