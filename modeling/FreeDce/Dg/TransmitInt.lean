/-
Fragmentation of the data that a call sends (`rpc__dg_call_transmit_int` in dg.c,
`rpc__dg_xmitq_append_pp` in dgxq.c, `rpc__dg_call_xmitq_push` in dgcall.c).

The data is copied into a partial packet, a chain of buffers.  A packet that is as long as the
fragment size goes onto the transmit queue, unless there is no more data: then it is kept, for the
next call or for the push.  The transmit queue of the model keeps what was put there; the sending of
it, and the waits for the window, are left out.

* `fill_spec` — one pass copies into the room that is left;
* `transmitLoop_spec` — a call keeps the order of the bytes, whatever the ends of elements, buffers
  and fragments;
* `transmitAll_spec` — the fragments of a sequence of calls.
-/
import Mathlib

namespace Dg

namespace Xmit

/-- `rpc_iovector_elt_t`.  `buff` is the buffer that its dealloc routine, if there is one, frees. -/
structure Iove where
  data : List UInt8
  buffDealloc : Bool
  buff : ℕ

def maxPktBodySize : ℕ := 4240
def rawPktHdrSize : ℕ := 80

/-- What `append_pp` does with a data packet of a call with a key: it pads the packet with what lies
behind the data in its last buffer, and has it encrypted. -/
structure Key where
  blocksize : ℕ
  stale : List UInt8 → ℕ → UInt8
  encrypt : List (List UInt8) → List (List UInt8)

/-- The fragment size, which is constant, and the authentication of the call; `overhead` is 0
without it. -/
structure Config where
  sndFragSize : BitVec 32
  overhead : ℕ
  key : Option Key

/-- The partial packet: its buffers, the last one apart. -/
structure Part where
  earlier : List (List UInt8)
  last : List UInt8

def Part.chain (p : Part) : List (List UInt8) := p.earlier ++ [p.last]

def Part.bytes (p : Part) : List UInt8 := p.chain.flatten

structure Frag where
  fragnum : BitVec 16
  chain : List (List UInt8)
  fragLen : ℕ

/-- The transmit queue; `dealloc` are the buffers that were freed, in order. -/
structure Xmitq where
  part : Option Part := none
  nextFragnum : BitVec 16 := 0
  queue : List Frag := []
  dealloc : List ℕ := []

variable (cfg : Config)

/-! ### The partial packet goes onto the queue -/

/-- The buffers as they are sent, and their length; `none` is the failed assertion that the padded
packet is not longer than a fragment. -/
def sealPart (p : Part) : Option (List (List UInt8) × ℕ) :=
  let fragLength := p.bytes.length
  match cfg.key with
  | none => some (p.chain, fragLength)
  | some key =>
    let rounded := (fragLength + key.blocksize - 1) / key.blocksize * key.blocksize
    if rawPktHdrSize + rounded + cfg.overhead ≤ cfg.sndFragSize.toNat then
      let last := p.last ++ (List.range (rounded - fragLength)).map (key.stale p.last)
      -- the trailer gets a buffer of its own if the last one has no room for it
      let more := if maxPktBodySize < last.length + cfg.overhead then [[]] else []
      some (key.encrypt (p.earlier ++ last :: more), rounded)
    else none

/-- `rpc__dg_xmitq_append_pp`. -/
def appendPp (xq : Xmitq) : Option Xmitq :=
  match xq.part with
  | none => some xq
  | some p => do
    let (chain, fragLen) ← sealPart cfg p
    some { xq with
      part := none
      nextFragnum := xq.nextFragnum + 1
      queue := xq.queue ++ [⟨xq.nextFragnum, chain, fragLen⟩] }

/-! ### The data is copied -/

def bodySize : ℕ := min cfg.sndFragSize.toNat maxPktBodySize

/-- `frag_length`, which has 16 bits. -/
def fragLength (p : Part) : ℕ := (rawPktHdrSize + cfg.overhead + p.bytes.length) % 2 ^ 16

/-- What the loop over the elements leaves: the last buffer, the elements that are not done with,
how much of the first of these is used, and whether it met the end of the data. -/
structure Filled where
  last : List UInt8
  elts : List Iove
  used : ℕ
  endOfData : Bool
  dealloc : List ℕ

def Iove.freed (e : Iove) : List ℕ := if e.buffDealloc then [e.buff] else []

/-- The loop over the elements: copy into the last buffer until there is no room left. -/
def fill (last : List UInt8) : ℕ → ℕ → List Iove → Filled
  | _, used, [] => ⟨last, [], used, true, []⟩
  | room, used, e :: rest =>
    let dataLeft := e.data.length - used
    if room ≤ dataLeft then
      let endOfData := decide (used + room = e.data.length) && rest.isEmpty
      ⟨last ++ (e.data.drop used).take room, e :: rest, used + room, endOfData,
        if endOfData then e.freed else []⟩
    else
      let filled := fill (last ++ e.data.drop used) (room - dataLeft) 0 rest
      { filled with dealloc := e.freed ++ filled.dealloc }

/-- The packet to copy into: a new one, one with a new buffer, or the one that there is. -/
def openPart (xq : Xmitq) : Part :=
  match xq.part with
  | none => ⟨[], []⟩
  | some p =>
    if p.last.length = bodySize cfg ∧ fragLength cfg p < cfg.sndFragSize.toNat then ⟨p.chain, []⟩
    else p

def roomLeft (p : Part) : ℕ :=
  min (bodySize cfg - p.last.length) (cfg.sndFragSize.toNat - fragLength cfg p)

/-- The outer loop of `rpc__dg_call_transmit_int`; the first argument bounds it. -/
def transmitLoop : ℕ → Xmitq → ℕ → List Iove → Option Xmitq
  | 0, _, _, _ => none
  | fuel + 1, xq, used, elts =>
    let p := openPart cfg xq
    let filled := fill p.last (roomLeft cfg p) used elts
    let p := { p with last := filled.last }
    let xq := { xq with part := some p, dealloc := xq.dealloc ++ filled.dealloc }
    if filled.endOfData then some xq
    else if fragLength cfg p = cfg.sndFragSize.toNat then do
      let xq ← appendPp cfg xq
      transmitLoop fuel xq filled.used filled.elts
    else transmitLoop fuel xq filled.used filled.elts

def dataBytes (data : List Iove) : List UInt8 := (data.map Iove.data).flatten

/-- `rpc__dg_call_transmit_int`. -/
def callTransmitInt (xq : Xmitq) (data : List Iove) : Option Xmitq :=
  transmitLoop cfg ((dataBytes data).length + 2) xq 0 data

/-- A sequence of calls and `rpc__dg_call_xmitq_push`. -/
def transmitAll (xq : Xmitq) : List (List Iove) → Option Xmitq
  | [] => appendPp cfg xq
  | data :: rest => do
    let xq ← callTransmitInt cfg xq data
    transmitAll xq rest

variable {cfg} {xq : Xmitq} {p : Part} {elts : List Iove} {used room : ℕ}

/-! ### The loop over the elements -/

/-- The bytes of the elements from `used` on. -/
def remaining (used : ℕ) : List Iove → List UInt8
  | [] => []
  | e :: rest => e.data.drop used ++ dataBytes rest

/-- The buffers of the elements that have a dealloc routine. -/
def freedBuffers (data : List Iove) : List ℕ := (data.map Iove.freed).flatten

theorem remaining_zero (data : List Iove) : remaining 0 data = dataBytes data := by
  cases data with
  | nil => rfl
  | cons e rest => rfl

/-- The pass ends with the data, or when there is no room left. -/
theorem fill_spec (last : List UInt8) (room used : ℕ)
    (hused : ∀ e ∈ elts.head?, used ≤ e.data.length) :
    ∃ copied, (fill last room used elts).last = last ++ copied ∧ copied.length ≤ room ∧
      ((fill last room used elts).endOfData = true →
        copied = remaining used elts ∧ (fill last room used elts).dealloc = freedBuffers elts) ∧
      ((fill last room used elts).endOfData = false →
        copied.length = room ∧
        remaining used elts
          = copied ++ remaining (fill last room used elts).used (fill last room used elts).elts ∧
        (∀ e ∈ (fill last room used elts).elts.head?,
          (fill last room used elts).used ≤ e.data.length) ∧
        freedBuffers elts
          = (fill last room used elts).dealloc ++ freedBuffers (fill last room used elts).elts) := by
  induction elts generalizing last room used with
  | nil => exact ⟨[], (List.append_nil _).symm, Nat.zero_le _, fun _ => ⟨rfl, rfl⟩, nofun⟩
  | cons e rest ih =>
    have hle : used ≤ e.data.length := hused e rfl
    rw [fill]
    dsimp only
    by_cases hroom : room ≤ e.data.length - used
    · rw [if_pos hroom]
      have hlength : ((e.data.drop used).take room).length = room := by
        rw [List.length_take, List.length_drop]
        omega
      refine ⟨(e.data.drop used).take room, rfl, hlength.le, fun hend => ?_, fun hend => ?_⟩
      · have hend' : (decide (used + room = e.data.length) && rest.isEmpty) = true := hend
        rw [Bool.and_eq_true, decide_eq_true_eq, List.isEmpty_iff] at hend'
        obtain ⟨hall, rfl⟩ := hend'
        rw [if_pos hend]
        refine ⟨?_, ?_⟩
        · rw [remaining, dataBytes, List.map_nil, List.flatten_nil, List.append_nil]
          refine List.take_of_length_le ?_
          rw [List.length_drop]
          omega
        · rw [freedBuffers, List.map_singleton, List.flatten_singleton]
      · have hend' : (decide (used + room = e.data.length) && rest.isEmpty) = false := hend
        rw [hend', if_neg Bool.false_ne_true]
        refine ⟨hlength, ?_, fun e' he' => ?_, rfl⟩
        · rw [remaining, remaining, ← List.append_assoc, ← List.drop_drop, List.take_append_drop]
        · obtain rfl : e = e' := Option.some_inj.mp he'
          show used + room ≤ e.data.length
          omega
    · rw [if_neg hroom]
      obtain ⟨copied, hlast, hcopied, hend, hmore⟩ :=
        ih (last ++ e.data.drop used) (room - (e.data.length - used)) 0
          fun e _ => Nat.zero_le _
      have hdrop : (e.data.drop used).length = e.data.length - used := List.length_drop
      refine ⟨e.data.drop used ++ copied, ?_, ?_, fun h => ?_, fun h => ?_⟩
      · rw [hlast, List.append_assoc]
      · rw [List.length_append, hdrop]
        omega
      · obtain ⟨hall, hfreed⟩ := hend h
        refine ⟨?_, ?_⟩
        · rw [hall, remaining_zero, remaining]
        · rw [hfreed]
          rfl
      · obtain ⟨hlength, hrest, hused', hfreed⟩ := hmore h
        refine ⟨?_, ?_, hused', ?_⟩
        · rw [List.length_append, hdrop, hlength]
          omega
        · rw [remaining, ← remaining_zero rest, hrest, List.append_assoc]
        · show e.freed ++ freedBuffers rest = e.freed ++ _ ++ _
          rw [hfreed, List.append_assoc]

/-! ### The partial packet -/

/-- The buffers are not overfull, nor is the packet. -/
structure PartOk (cfg : Config) (p : Part) : Prop where
  body : ∀ b ∈ p.chain, b.length ≤ bodySize cfg
  length : cfg.sndFragSize.toNat < 2 ^ 16 →
    rawPktHdrSize + cfg.overhead + p.bytes.length ≤ cfg.sndFragSize.toNat

/-- The fragment size is greater than the header and the trailer. -/
def RoomForData (cfg : Config) : Prop := rawPktHdrSize + cfg.overhead < cfg.sndFragSize.toNat

/-- The padding of a fragment does not make it too long. -/
def Sealable (cfg : Config) : Prop :=
  ∀ key, cfg.key = some key → 0 < key.blocksize ∧ cfg.sndFragSize.toNat < 2 ^ 16 ∧
    key.blocksize ∣ cfg.sndFragSize.toNat - (rawPktHdrSize + cfg.overhead)

theorem Part.bytes_eq (p : Part) : p.bytes = p.earlier.flatten ++ p.last := by
  rw [Part.bytes, Part.chain, List.flatten_append, List.flatten_singleton]

theorem fragLength_le (hp : PartOk cfg p) : fragLength cfg p ≤ cfg.sndFragSize.toNat := by
  rw [fragLength]
  by_cases h16 : cfg.sndFragSize.toNat < 2 ^ 16
  · exact (Nat.mod_le _ _).trans (hp.length h16)
  · have := Nat.mod_lt (rawPktHdrSize + cfg.overhead + p.bytes.length) (show 0 < 2 ^ 16 by decide)
    omega

theorem fragLength_eq (hp : PartOk cfg p) (h16 : cfg.sndFragSize.toNat < 2 ^ 16) :
    fragLength cfg p = rawPktHdrSize + cfg.overhead + p.bytes.length :=
  Nat.mod_eq_of_lt ((hp.length h16).trans_lt h16)

/-- A packet is put on the queue when it is as long as a fragment. -/
theorem full_of_fragLength (hp : PartOk cfg p) (h : fragLength cfg p = cfg.sndFragSize.toNat) :
    rawPktHdrSize + cfg.overhead + p.bytes.length = cfg.sndFragSize.toNat := by
  have hlt : fragLength cfg p < 2 ^ 16 := Nat.mod_lt _ (by decide)
  rw [← fragLength_eq hp (h ▸ hlt)]
  exact h

theorem bodySize_pos (hcfg : RoomForData cfg) : 0 < bodySize cfg := by
  rw [RoomForData] at hcfg
  exact lt_min (by omega) (by decide)

theorem PartOk.nil (hcfg : RoomForData cfg) : PartOk cfg ⟨[], []⟩ where
  body b hb := by
    obtain rfl : b = [] := by simpa [Part.chain] using hb
    exact Nat.zero_le _
  length _ := hcfg.le

/-- The packet to copy into has the bytes of the partial packet, and room, unless it is full. -/
theorem openPart_spec (hcfg : RoomForData cfg) (hpart : ∀ p, xq.part = some p → PartOk cfg p) :
    PartOk cfg (openPart cfg xq) ∧ (openPart cfg xq).bytes = (xq.part.map Part.bytes).getD [] ∧
      (roomLeft cfg (openPart cfg xq) = 0 →
        xq.part = some (openPart cfg xq) ∧
          fragLength cfg (openPart cfg xq) = cfg.sndFragSize.toNat) := by
  have hpos := bodySize_pos hcfg
  rw [openPart]
  cases hcase : xq.part with
  | none =>
    refine ⟨PartOk.nil hcfg, rfl, fun hroom => ?_⟩
    have hlt : fragLength cfg ⟨[], []⟩ < cfg.sndFragSize.toNat :=
      (Nat.mod_le _ _).trans_lt hcfg
    rw [roomLeft] at hroom
    simp only [List.length_nil] at hroom
    omega
  | some p =>
    have hp := hpart p hcase
    dsimp only
    by_cases hfull : p.last.length = bodySize cfg ∧ fragLength cfg p < cfg.sndFragSize.toNat
    · rw [if_pos hfull]
      have hbytes : Part.bytes ⟨p.chain, []⟩ = p.bytes := by
        rw [Part.bytes_eq, List.append_nil]
        rfl
      have hfrag : fragLength cfg ⟨p.chain, []⟩ = fragLength cfg p := by
        rw [fragLength, fragLength, hbytes]
      refine ⟨⟨fun b hb => ?_, fun h16 => ?_⟩, hbytes, fun hroom => ?_⟩
      · rcases List.mem_append.mp hb with hb | hb
        · exact hp.body b hb
        · obtain rfl := List.mem_singleton.mp hb
          exact Nat.zero_le _
      · rw [hbytes]
        exact hp.length h16
      · rw [roomLeft, hfrag] at hroom
        simp only [List.length_nil] at hroom
        omega
    · rw [if_neg hfull]
      refine ⟨hp, rfl, fun hroom => ⟨rfl, ?_⟩⟩
      have hlast := hp.body p.last (List.mem_append_right _ List.mem_cons_self)
      have hle := fragLength_le hp
      rw [roomLeft] at hroom
      omega

/-- The data of a pass fits into the packet. -/
theorem PartOk.copy (hp : PartOk cfg p) {copied : List UInt8}
    (hcopied : copied.length ≤ roomLeft cfg p) :
    PartOk cfg { p with last := p.last ++ copied } ∧
      Part.bytes { p with last := p.last ++ copied } = p.bytes ++ copied := by
  have hbytes : Part.bytes { p with last := p.last ++ copied } = p.bytes ++ copied := by
    rw [Part.bytes_eq, Part.bytes_eq, List.append_assoc]
  have hlast := hp.body p.last (List.mem_append_right _ List.mem_cons_self)
  rw [roomLeft] at hcopied
  refine ⟨⟨fun b hb => ?_, fun h16 => ?_⟩, hbytes⟩
  · rcases List.mem_append.mp hb with hb | hb
    · exact hp.body b (List.mem_append_left _ hb)
    · obtain rfl := List.mem_singleton.mp hb
      rw [List.length_append]
      omega
  · have hlength := hp.length h16
    have heq := fragLength_eq hp h16
    rw [hbytes, List.length_append]
    omega

theorem sealPart_isSome (hkey : Sealable cfg) (hp : PartOk cfg p) :
    ∃ chain fragLen, sealPart cfg p = some (chain, fragLen) := by
  rw [sealPart]
  dsimp only
  cases hcase : cfg.key with
  | none => exact ⟨_, _, rfl⟩
  | some key =>
    obtain ⟨hpos, h16, hdvd⟩ := hkey key hcase
    have hlength := hp.length h16
    obtain ⟨m, hm⟩ := hdvd
    -- the room for data is a multiple of the block size
    have hrounded : (p.bytes.length + key.blocksize - 1) / key.blocksize * key.blocksize
        ≤ key.blocksize * m := by
      rw [Nat.mul_comm key.blocksize m]
      refine Nat.mul_le_mul_right _ ?_
      refine Nat.lt_succ_iff.mp ((Nat.div_lt_iff_lt_mul hpos).mpr ?_)
      rw [Nat.succ_mul, Nat.mul_comm m, ← hm]
      omega
    dsimp only
    rw [if_pos (by omega)]
    exact ⟨_, _, rfl⟩

/-! ### The queue -/

/-- The queue has the packets `parts`, and the bytes so far are theirs and those of the partial
packet. -/
structure Sent (cfg : Config) (xq : Xmitq) (bytes : List UInt8) (parts : List Part) : Prop where
  queue : List.Forall₂ (fun p f => sealPart cfg p = some (f.chain, f.fragLen)) parts xq.queue
  fragnum : xq.queue.map Frag.fragnum = (List.range parts.length).map (BitVec.ofNat 16)
  next : xq.nextFragnum = BitVec.ofNat 16 parts.length
  full : ∀ p ∈ parts, rawPktHdrSize + cfg.overhead + p.bytes.length = cfg.sndFragSize.toNat
  body : ∀ p ∈ parts, ∀ b ∈ p.chain, b.length ≤ maxPktBodySize
  part : ∀ p, xq.part = some p → PartOk cfg p
  bytes : (parts.map Part.bytes).flatten ++ (xq.part.map Part.bytes).getD [] = bytes

variable {bytes : List UInt8} {parts : List Part}

theorem Sent.init : Sent cfg {} [] [] where
  queue := List.Forall₂.nil
  fragnum := rfl
  next := rfl
  full _ h := absurd h List.not_mem_nil
  body _ h := absurd h List.not_mem_nil
  part _ h := nomatch h
  bytes := rfl

/-- The partial packet goes onto the queue. -/
theorem Sent.append (h : Sent cfg xq bytes parts) (hkey : Sealable cfg) (hpart : xq.part = some p) :
    ∃ xq', appendPp cfg xq = some xq' ∧ xq'.part = none ∧ xq'.dealloc = xq.dealloc ∧
      List.Forall₂ (fun p f => sealPart cfg p = some (f.chain, f.fragLen)) (parts ++ [p])
        xq'.queue ∧
      xq'.queue.map Frag.fragnum = (List.range (parts ++ [p]).length).map (BitVec.ofNat 16) ∧
      xq'.nextFragnum = BitVec.ofNat 16 (parts ++ [p]).length ∧
      ((parts ++ [p]).map Part.bytes).flatten = bytes := by
  obtain ⟨chain, fragLen, hseal⟩ := sealPart_isSome hkey (h.part p hpart)
  rw [appendPp, hpart]
  dsimp only
  rw [hseal]
  refine ⟨_, rfl, rfl, rfl, ?_, ?_, ?_, ?_⟩
  · exact List.rel_append h.queue (List.Forall₂.cons hseal List.Forall₂.nil)
  · show (xq.queue ++ [_]).map Frag.fragnum = _
    rw [List.map_append, h.fragnum, List.length_append, List.length_singleton, List.range_succ,
      List.map_append]
    show _ ++ [xq.nextFragnum] = _
    rw [h.next]
    rfl
  · show xq.nextFragnum + 1 = _
    rw [h.next, List.length_append, List.length_singleton, BitVec.ofNat_add]
    rfl
  · have hbytes := h.bytes
    rw [hpart] at hbytes
    rw [List.map_append, List.flatten_append, List.map_singleton, List.flatten_singleton]
    exact hbytes

/-- A full packet goes onto the queue. -/
theorem Sent.append_full (h : Sent cfg xq bytes parts) (hkey : Sealable cfg)
    (hpart : xq.part = some p) (hfull : fragLength cfg p = cfg.sndFragSize.toNat) :
    ∃ xq', appendPp cfg xq = some xq' ∧ xq'.part = none ∧ xq'.dealloc = xq.dealloc ∧
      Sent cfg xq' bytes (parts ++ [p]) := by
  obtain ⟨xq', hrun, hnone, hdealloc, hqueue, hfragnum, hnext, hbytes⟩ := h.append hkey hpart
  have hp := h.part p hpart
  refine ⟨xq', hrun, hnone, hdealloc, hqueue, hfragnum, hnext, fun q hq => ?_, fun q hq b hb => ?_,
    fun q hq => ?_, ?_⟩
  · rcases List.mem_append.mp hq with hq | hq
    · exact h.full q hq
    · rw [List.mem_singleton.mp hq]
      exact full_of_fragLength hp hfull
  · rcases List.mem_append.mp hq with hq | hq
    · exact h.body q hq b hb
    · rw [List.mem_singleton.mp hq] at hb
      exact (hp.body b hb).trans (min_le_right _ _)
  · rw [hnone] at hq
    cases hq
  · rw [hbytes, hnone]
    exact List.append_nil bytes

/-- One for a partial packet that is full but was kept. -/
def kept (cfg : Config) (xq : Xmitq) : ℕ :=
  if (xq.part.map (fragLength cfg)) = some cfg.sndFragSize.toNat then 1 else 0

theorem transmitLoop_spec (hcfg : RoomForData cfg) (hkey : Sealable cfg) (fuel : ℕ)
    (h : Sent cfg xq bytes parts) (hused : ∀ e ∈ elts.head?, used ≤ e.data.length)
    (hfuel : (remaining used elts).length + kept cfg xq < fuel) :
    ∃ xq' parts', transmitLoop cfg fuel xq used elts = some xq' ∧
      Sent cfg xq' (bytes ++ remaining used elts) parts' ∧
      xq'.dealloc = xq.dealloc ++ freedBuffers elts := by
  induction fuel generalizing xq bytes parts used elts with
  | zero => omega
  | succ fuel ih =>
    obtain ⟨hp, hbytes, hroom⟩ := openPart_spec hcfg h.part
    rw [transmitLoop]
    set p := openPart cfg xq with hpdef
    obtain ⟨copied, hlast, hcopied, hend, hmore⟩ :=
      fill_spec p.last (roomLeft cfg p) used hused
    set filled := fill p.last (roomLeft cfg p) used elts with hfilled
    obtain ⟨hp', hbytes'⟩ := hp.copy hcopied
    rw [hlast]
    set p' : Part := { p with last := p.last ++ copied } with hp'def
    set xq₁ : Xmitq := { xq with part := some p', dealloc := xq.dealloc ++ filled.dealloc } with hxq₁
    have h₁ : Sent cfg xq₁ (bytes ++ copied) parts := by
      refine ⟨h.queue, h.fragnum, h.next, h.full, h.body, fun q hq => ?_, ?_⟩
      · obtain rfl := Option.some_inj.mp hq
        exact hp'
      · show _ ++ p'.bytes = _
        rw [hbytes', ← List.append_assoc, hbytes, h.bytes]
    cases hcase : filled.endOfData with
    | true =>
      obtain ⟨hall, hfreed⟩ := hend hcase
      rw [if_pos rfl]
      refine ⟨xq₁, parts, rfl, hall ▸ h₁, ?_⟩
      show xq.dealloc ++ filled.dealloc = _
      rw [hfreed]
    | false =>
      obtain ⟨hlength, hrest, hused', hfreed⟩ := hmore hcase
      rw [if_neg Bool.false_ne_true]
      have hremaining : (remaining used elts).length
          = roomLeft cfg p + (remaining filled.used filled.elts).length := by
        rw [hrest, List.length_append, hlength]
      have hdone : ∀ xq₂ parts₂, Sent cfg xq₂ (bytes ++ copied) parts₂ →
          xq₂.dealloc = xq₁.dealloc → kept cfg xq₂ = 0 →
          0 < roomLeft cfg p + kept cfg xq →
          ∃ xq' parts', transmitLoop cfg fuel xq₂ filled.used filled.elts = some xq' ∧
            Sent cfg xq' (bytes ++ remaining used elts) parts' ∧
            xq'.dealloc = xq.dealloc ++ freedBuffers elts := by
        intro xq₂ parts₂ h₂ hdealloc hkept hprogress
        obtain ⟨xq', parts', hrun, h', hdealloc'⟩ := ih h₂ hused' (by omega)
        refine ⟨xq', parts', hrun, ?_, ?_⟩
        · rw [hrest, ← List.append_assoc]
          exact h'
        · rw [hdealloc', hdealloc, hfreed, ← List.append_assoc]
      -- a pass without room is one over a full packet that was kept
      have hprogress : 0 < roomLeft cfg p + kept cfg xq := by
        by_contra hzero
        obtain ⟨hpart, hfull⟩ := hroom (by omega)
        have hkept : kept cfg xq = 1 := by
          rw [kept, hpart, Option.map_some, hfull, if_pos rfl]
        omega
      by_cases hfull : fragLength cfg p' = cfg.sndFragSize.toNat
      · rw [if_pos hfull]
        obtain ⟨xq₂, hrun, hnone, hdealloc, h₂⟩ := h₁.append_full hkey rfl hfull
        rw [hrun]
        refine hdone xq₂ _ h₂ hdealloc ?_ hprogress
        rw [kept, hnone]
        exact if_neg nofun
      · rw [if_neg hfull]
        refine hdone xq₁ parts h₁ rfl ?_ hprogress
        rw [kept]
        exact if_neg fun heq => hfull (Option.some_inj.mp heq)

theorem callTransmitInt_spec (hcfg : RoomForData cfg) (hkey : Sealable cfg)
    (h : Sent cfg xq bytes parts) (data : List Iove) :
    ∃ xq' parts', callTransmitInt cfg xq data = some xq' ∧
      Sent cfg xq' (bytes ++ dataBytes data) parts' ∧
      xq'.dealloc = xq.dealloc ++ freedBuffers data := by
  have hkept : kept cfg xq ≤ 1 := by
    rw [kept]
    split <;> omega
  rw [callTransmitInt, ← remaining_zero]
  exact transmitLoop_spec hcfg hkey _ h (fun _ _ => Nat.zero_le _) (by omega)

/-- The fragments of a sequence of calls that is pushed: the data is cut into packets, which are as
long as the fragment size but for the last one, and each of which is sent as it is, or padded and
encrypted.  Each buffer is freed once. -/
structure Fragments (cfg : Config) (data : List (List Iove)) (xq : Xmitq) (parts : List Part) :
    Prop where
  queue : List.Forall₂ (fun p f => sealPart cfg p = some (f.chain, f.fragLen)) parts xq.queue
  bytes : (parts.map Part.bytes).flatten = (data.map dataBytes).flatten
  full : ∀ p ∈ parts.dropLast, rawPktHdrSize + p.bytes.length + cfg.overhead = cfg.sndFragSize.toNat
  body : ∀ p ∈ parts, ∀ b ∈ p.chain, b.length ≤ maxPktBodySize
  fragnum : xq.queue.map Frag.fragnum = (List.range parts.length).map (BitVec.ofNat 16)
  dealloc : xq.dealloc = (data.map freedBuffers).flatten

theorem transmitAll_spec (hcfg : RoomForData cfg) (hkey : Sealable cfg) (done : List (List Iove))
    (h : Sent cfg xq (done.map dataBytes).flatten parts)
    (hdealloc : xq.dealloc = (done.map freedBuffers).flatten) (data : List (List Iove)) :
    ∃ xq' parts', transmitAll cfg xq data = some xq' ∧ Fragments cfg (done ++ data) xq' parts' := by
  induction data generalizing xq parts done with
  | nil =>
    rw [transmitAll, List.append_nil]
    cases hcase : xq.part with
    | none =>
      refine ⟨xq, parts, ?_, h.queue, ?_, fun p hp => ?_, h.body, h.fragnum, hdealloc⟩
      · rw [appendPp, hcase]
      · have hbytes := h.bytes
        rw [hcase] at hbytes
        exact (List.append_nil _).symm.trans hbytes
      · rw [Nat.add_right_comm]
        exact h.full p (List.mem_of_mem_dropLast hp)
    | some p =>
      obtain ⟨xq', hrun, -, hdealloc', hqueue, hfragnum, -, hbytes⟩ := h.append hkey hcase
      refine ⟨xq', parts ++ [p], hrun, hqueue, hbytes, fun q hq => ?_, fun q hq b hb => ?_, hfragnum,
        hdealloc'.trans hdealloc⟩
      · rw [List.dropLast_concat] at hq
        rw [Nat.add_right_comm]
        exact h.full q hq
      · rcases List.mem_append.mp hq with hq | hq
        · exact h.body q hq b hb
        · rw [List.mem_singleton.mp hq] at hb
          exact ((h.part p hcase).body b hb).trans (min_le_right _ _)
  | cons vector data ih =>
    obtain ⟨xq₁, parts₁, hrun, h₁, hdealloc₁⟩ := callTransmitInt_spec hcfg hkey h vector
    obtain ⟨xq', parts', hrun', hfragments⟩ := ih (done ++ [vector])
      (by rwa [List.map_append, List.flatten_append, List.map_singleton, List.flatten_singleton])
      (by rw [hdealloc₁, hdealloc, List.map_append, List.flatten_append, List.map_singleton,
        List.flatten_singleton])
    refine ⟨xq', parts', ?_, ?_⟩
    · rw [transmitAll, hrun]
      exact hrun'
    · rwa [List.append_assoc] at hfragments

/-- Without a key the bodies of the fragments are the data. -/
theorem Fragments.bodies {data : List (List Iove)} (h : Fragments cfg data xq parts)
    (hkey : cfg.key = none) :
    (xq.queue.map fun f => f.chain.flatten).flatten = (data.map dataBytes).flatten := by
  rw [← h.bytes]
  have hqueue := h.queue
  generalize xq.queue = queue at hqueue
  clear h
  congr 1
  induction hqueue with
  | nil => rfl
  | @cons p f parts queue hseal _ ih =>
    rw [List.map_cons, List.map_cons, ih]
    rw [sealPart] at hseal
    simp only [hkey, Option.some_inj, Prod.mk.injEq] at hseal
    rw [← hseal.1]
    rfl

/-- The data of any sequence of calls is sent in order: in the packets that the calls fill, which go
onto the queue as they are on a call without a key, and else padded and encrypted. -/
theorem fragments_of_data (cfg : Config) (hcfg : RoomForData cfg) (hkey : Sealable cfg)
    (data : List (List Iove)) :
    ∃ xq parts, transmitAll cfg {} data = some xq ∧ Fragments cfg data xq parts ∧
      (cfg.key = none →
        (xq.queue.map fun f => f.chain.flatten).flatten = (data.map dataBytes).flatten) := by
  obtain ⟨xq, parts, hrun, hfragments⟩ := transmitAll_spec hcfg hkey [] Sent.init rfl data
  exact ⟨xq, parts, hrun, hfragments, hfragments.bodies⟩

/-- The authentication module that only counts bytes: 16 for its trailer, in blocks of 8. -/
def noauthConfig : Config := ⟨128, 16, some ⟨8, fun _ _ => 0, id⟩⟩

theorem fragments_of_data_noauth :
    ∃ xq parts, transmitAll noauthConfig {} [[⟨List.replicate 40 7, true, 0⟩]] = some xq ∧
      Fragments noauthConfig [[⟨List.replicate 40 7, true, 0⟩]] xq parts ∧
      (noauthConfig.key = none → (xq.queue.map fun f => f.chain.flatten).flatten
        = (([[⟨List.replicate 40 7, true, 0⟩]] : List (List Iove)).map dataBytes).flatten) := by
  refine fragments_of_data noauthConfig (show 80 + 16 < 128 by decide) ?_ _
  intro key hkey
  obtain rfl := Option.some_inj.mp hkey
  exact ⟨by decide, by decide, by decide⟩

/-- A single byte is sent as a block of eight. -/
theorem not_bodies_eq_data :
    ¬ ∀ (cfg : Config) (data : List (List Iove)) (xq : Xmitq), 8 ∣ cfg.sndFragSize.toNat →
      RoomForData cfg → transmitAll cfg {} data = some xq →
        (xq.queue.map fun f => f.chain.flatten).flatten = (data.map dataBytes).flatten := by
  intro h
  have hrun : transmitAll noauthConfig {} [[⟨[7], true, 0⟩]]
      = some ⟨none, 1, [⟨0, [[7, 0, 0, 0, 0, 0, 0, 0]], 8⟩], [0]⟩ := by rfl
  have hroom : RoomForData noauthConfig := show 80 + 16 < 128 by decide
  exact absurd (h noauthConfig _ _ (by decide) hroom hrun) (by decide)

end Xmit

end Dg
