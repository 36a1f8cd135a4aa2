/-
The marshalled stream does not depend on the buffers (ndrmi.h, ndrmi.c).

Alignment is computed from addresses, so it agrees with the offset in the stream as
long as the two are congruent mod 8; `Opened.residue` and `Closed.offset` say that they
are, for a current buffer and between two buffers.

* `marshInitBuffer_spec`, `marshCheckBuffer_spec`, `marshAlignMp_spec`, `put_spec`,
  `marshByPointing_spec` — what each routine adds to the stream;
* `marshalled_of_along` — the stream of a run is the reference stream of its data, if no
  string in an array begins where just four bytes of the buffer are left.
-/
import FreeDce.Idl.Marsh

namespace Idl

open Runs Memory

variable {E : Env} {s : Msp} {bytes : List UInt8}

/-! ### The reference stream -/

/-- Bytes that belong at a multiple of an alignment. -/
structure Datum where
  align : ℕ
  bytes : List UInt8

/-- A datum is placed at the next offset that is a multiple of its alignment.  The bytes
of the padding are not determined. -/
def refAdd (ref : List (Option UInt8)) (d : Datum) : List (Option UInt8) :=
  ref ++ List.replicate (alignUp ref.length d.align - ref.length) none ++ d.bytes.map some

def refStream (ds : List Datum) : List (Option UInt8) := ds.foldl refAdd []

/-- The data of a step. -/
def MarshOp.data : MarshOp → List Datum
  | .scalar size data _ => [⟨size.bytes, data⟩]
  | .align size => [⟨size.bytes, []⟩]
  | .string count data => [⟨4, ulongInt 0⟩, ⟨4, ulongInt count⟩, ⟨1, data⟩]
  | .copy data => [⟨1, data⟩]
  | .point data _ => [⟨1, data⟩]

/-- The stream agrees with the reference wherever that is determined. -/
def Agrees : List (Option UInt8) → List UInt8 → Prop :=
  List.Forall₂ fun o b => o.all (· == b) = true

instance : DecidableRel Agrees := fun _ _ => inferInstanceAs (Decidable (List.Forall₂ _ _ _))

theorem agrees_none (pad : List UInt8) : Agrees (List.replicate pad.length none) pad := by
  induction pad with
  | nil => exact List.Forall₂.nil
  | cons b pad ih => exact List.Forall₂.cons rfl ih

theorem agrees_some (bytes : List UInt8) : Agrees (bytes.map some) bytes := by
  induction bytes with
  | nil => exact List.Forall₂.nil
  | cons b bytes ih => exact List.Forall₂.cons (by simp) ih

/-- Padding up to the alignment and the bytes keep the agreement. -/
theorem Agrees.refAdd {ref : List (Option UInt8)} {stream pad : List UInt8} (h : Agrees ref stream)
    (d : Datum) (hpad : stream.length + pad.length = alignUp stream.length d.align) :
    Agrees (refAdd ref d) (stream ++ pad ++ d.bytes) := by
  have hlen : ref.length = stream.length := h.length_eq
  have hcount : alignUp ref.length d.align - ref.length = pad.length := by
    rw [hlen]
    omega
  rw [Idl.refAdd, hcount]
  exact List.rel_append (List.rel_append h (agrees_none pad)) (agrees_some d.bytes)

theorem alignUp_one (n : ℕ) : alignUp n 1 = n := by
  rw [alignUp]
  omega

/-! ### The stream of a state -/

/-- The data in the current buffer. -/
def openBytes (s : Msp) : List UInt8 :=
  if s.buffAddr.isSome then read s.mem s.dataAddr (s.mp.off - s.dataAddr.off) else []

/-- Everything marshalled so far. -/
def stream (s : Msp) : List UInt8 := handed s ++ openBytes s

theorem handed_marshFinish (s : Msp) : handed (marshFinish s) = stream s := by
  unfold marshFinish stream openBytes
  split
  · rw [attachBuffToIovec, handed, iovecBytes, handed, iovecBytes]
    dsimp only
    rw [List.map_append, List.flatten_append, List.map_singleton, List.flatten_singleton,
      IovElt.bytes, List.append_assoc]
  · rw [List.append_nil]

/-- The buffers that the vector points into are no longer written: blocks of the heap that
are not current, or the stack packet below `p`. -/
def Settled (s : Msp) (p : Ptr) : Prop :=
  ∀ q n, IovElt.buff q n ∈ s.iovec → (q.block = p.block → q.off + n ≤ p.off) ∧
    ∀ m, q.block = .heap m → m < s.heapBlocks

/-- A buffer is open. -/
structure Opened (E : Env) (s : Msp) : Prop where
  isSome : s.buffAddr.isSome
  block : s.dataAddr.block = s.mp.block
  le : s.dataAddr.off ≤ s.mp.off
  beyond : addr E.base s.mp + s.leftInBuff = beyondUsable E s.mp.block
  settled : Settled s s.dataAddr
  use : s.mp.block = .stackPacket ∧ s.stackPacketStatus = .inUse ∨
    ∃ n, s.mp.block = .heap n ∧ n < s.heapBlocks ∧ s.stackPacketStatus = .used
  residue : addr E.base s.mp % 8 = (stream s).length % 8

/-- No buffer is open. -/
structure Closed (E : Env) (s : Msp) : Prop where
  isNone : s.buffAddr = none
  status : s.stackPacketStatus ≠ .inUse
  stackPacket : ∀ q n, IovElt.buff q n ∈ s.iovec → q.block = .stackPacket →
    s.stackPacketStatus = .used ∨ s.stackPacketStatus = .partUsed ∧ q.off + n ≤ s.mp.off
  heap : ∀ q n, IovElt.buff q n ∈ s.iovec → ∀ m, q.block = .heap m → m < s.heapBlocks
  partUsed : s.stackPacketStatus = .partUsed →
    s.mp.block = .stackPacket ∧ addr E.base s.mp + 8 ≤ beyondUsable E .stackPacket
  offset : s.mpStartOffset = (stream s).length % 8

/-- What holds of every state: the vector has a free slot, and every buffer that was opened
starts at an address congruent to its place in the stream. -/
structure Good (s : Msp) : Prop where
  iovec : s.iovec.length < iovectorSize
  opened : ∀ o ∈ s.opened, o.1 % 8 = o.2

/-- Between two steps. -/
structure Between (E : Env) (s : Msp) : Prop extends Good s where
  buffer : Opened E s ∨ Closed E s ∧ s.leftInBuff = 0

/-! ### Opening a buffer -/

theorem stream_of_none (h : s.buffAddr = none) : stream s = handed s := by
  rw [stream, openBytes, h, Option.isSome_none, if_neg Bool.false_ne_true, List.append_nil]

theorem addr_startOfData (E : Env) (buff : Ptr) (n : ℕ) :
    addr E.base (startOfData E buff n) = alignUp (addr E.base buff) 8 + n ∧
      buff.off ≤ (startOfData E buff n).off := by
  simp only [addr, startOfData, alignUp]
  omega

theorem beyondUsable_le (E : Env) (b : Block) :
    beyondUsable E b ≤ E.base b + b.size ∧ E.base b + b.size < beyondUsable E b + 8 ∧
      8 ∣ beyondUsable E b := by
  rw [beyondUsable, alignDown]
  omega

theorem Opened.room (O : Opened E s) : s.mp.off + s.leftInBuff ≤ s.mp.block.size := by
  have hbeyond := O.beyond
  have hle := (beyondUsable_le E s.mp.block).1
  rw [addr] at hbeyond
  omega

theorem Opened.ne_none (O : Opened E s) : s.buffAddr ≠ none :=
  Option.isSome_iff_ne_none.mp O.isSome

/-- The buffer that is opened next has room, below it nothing is written any more, and the
stack packet is accounted for. -/
theorem nextBuff_spec (C : Closed E s) : ∃ buff use n, nextBuff s = (buff, use, n) ∧
    s.heapBlocks ≤ n ∧ addr E.base buff + 8 ≤ beyondUsable E buff.block ∧
    (∀ q m, IovElt.buff q m ∈ s.iovec → (q.block = buff.block → q.off + m ≤ buff.off) ∧
      ∀ i, q.block = .heap i → i < n) ∧
    (buff.block = .stackPacket ∧ use = .inUse ∨
      ∃ i, buff.block = .heap i ∧ i < n ∧ use = .used) ∧
    (s.stackPacketStatus ≠ .partUsed → addr E.base buff + 249 ≤ beyondUsable E buff.block) ∧
    (s.stackPacketStatus = .partUsed → buff = s.mp) := by
  cases hstatus : s.stackPacketStatus with
  | unused =>
    have hbeyond := beyondUsable_le E .stackPacket
    have hsize : Block.size .stackPacket = 256 := rfl
    refine ⟨⟨.stackPacket, 0⟩, .inUse, s.heapBlocks, by rw [nextBuff, hstatus], le_rfl, ?_, ?_,
      .inl ⟨rfl, rfl⟩, ?_, ?_⟩
    · rw [addr]
      dsimp only
      omega
    · intro q m hmem
      refine ⟨fun hblock => ?_, C.heap q m hmem⟩
      have hpacket := C.stackPacket q m hmem hblock
      rw [hstatus] at hpacket
      simp at hpacket
    · intro _
      rw [addr]
      dsimp only
      omega
    · intro hpart
      cases hpart
  | inUse => exact absurd hstatus C.status
  | used =>
    have hbeyond := beyondUsable_le E (.heap s.heapBlocks)
    have hsize : Block.size (.heap s.heapBlocks) = 2048 := rfl
    refine ⟨⟨.heap s.heapBlocks, 0⟩, .used, s.heapBlocks + 1, by rw [nextBuff, hstatus],
      Nat.le_succ _, ?_, ?_, .inr ⟨_, rfl, Nat.lt_succ_self _, rfl⟩, ?_, ?_⟩
    · rw [addr]
      dsimp only
      omega
    · intro q m hmem
      refine ⟨fun hblock => ?_, fun i hi => Nat.lt_succ_of_lt (C.heap q m hmem i hi)⟩
      exact absurd (C.heap q m hmem _ hblock) (lt_irrefl _)
    · intro _
      rw [addr]
      dsimp only
      omega
    · intro hpart
      cases hpart
  | partUsed =>
    obtain ⟨hblock, hroom⟩ := C.partUsed hstatus
    refine ⟨s.mp, .inUse, s.heapBlocks, by rw [nextBuff, hstatus], le_rfl, ?_, ?_,
      .inl ⟨hblock, rfl⟩, ?_, fun _ => rfl⟩
    · rw [hblock]
      exact hroom
    · intro q m hmem
      refine ⟨fun hq => ?_, C.heap q m hmem⟩
      have hpacket := C.stackPacket q m hmem (hq.trans hblock)
      rw [hstatus] at hpacket
      simpa using hpacket
    · intro hne
      exact absurd rfl hne

/-- A new buffer continues the stream. -/
theorem marshInitBuffer_spec (C : Closed E s) (G : Good s) :
    Opened E (marshInitBuffer E s) ∧ Good (marshInitBuffer E s) ∧
      stream (marshInitBuffer E s) = stream s ∧ 1 ≤ (marshInitBuffer E s).leftInBuff ∧
      (s.stackPacketStatus ≠ .partUsed → 235 ≤ (marshInitBuffer E s).leftInBuff) ∧
      (s.stackPacketStatus = .partUsed → (marshInitBuffer E s).leftInBuff =
        beyondUsable E .stackPacket - alignUp (addr E.base s.mp) 8 - s.mpStartOffset) := by
  obtain ⟨buff, use, n, hnext, hn, hroom, hsettled, huse, hlarge, hpart⟩ := nextBuff_spec C
  obtain ⟨haddr, hoff⟩ := addr_startOfData E buff s.mpStartOffset
  set start := startOfData E buff s.mpStartOffset with hstart
  have hinit : marshInitBuffer E s = { s with
      heapBlocks := n
      stackPacketStatus := use
      buffAddr := some buff
      dataAddr := start
      mp := start
      leftInBuff := beyondUsable E buff.block - addr E.base start
      opened := s.opened ++ [((s.transmitted ++ iovecBytes s).length, addr E.base start % 8)] } := by
    rw [marshInitBuffer, hnext]
  have hstream : stream (marshInitBuffer E s) = stream s := by
    rw [hinit, stream_of_none C.isNone, stream, openBytes]
    dsimp only
    rw [Option.isSome_some, if_pos rfl, Nat.sub_self, read_zero, List.append_nil]
    rfl
  have hoffset := C.offset
  rw [stream_of_none C.isNone] at hoffset
  obtain ⟨-, -, hdvd⟩ := beyondUsable_le E buff.block
  have hup : alignUp (addr E.base buff) 8 ≤ addr E.base buff + 7 ∧
      8 ∣ alignUp (addr E.base buff) 8 := by
    rw [alignUp]
    omega
  have hres : addr E.base start % 8 = (handed s).length % 8 := by omega
  have hle : addr E.base start + 1 ≤ beyondUsable E buff.block := by omega
  refine ⟨?_, ⟨?_, ?_⟩, hstream, ?_, ?_, ?_⟩
  · refine ⟨?_, ?_, ?_, ?_, ?_, ?_, ?_⟩
    · rw [hinit]
      rfl
    · rw [hinit]
    · rw [hinit]
    · rw [hinit]
      show addr E.base start + (beyondUsable E buff.block - addr E.base start)
        = beyondUsable E buff.block
      omega
    · rw [hinit]
      intro q m hmem
      obtain ⟨hbelow, hheap⟩ := hsettled q m hmem
      exact ⟨fun hblock => (hbelow hblock).trans hoff, hheap⟩
    · rw [hinit]
      exact huse
    · rw [hstream, hinit, stream_of_none C.isNone]
      exact hres
  · rw [hinit]
    exact G.iovec
  · rw [hinit]
    intro o ho
    rcases List.mem_append.mp ho with ho | ho
    · exact G.opened o ho
    · rw [List.mem_singleton.mp ho]
      exact hres.symm
  · rw [hinit]
    show 1 ≤ beyondUsable E buff.block - addr E.base start
    omega
  · intro hne
    have hsize := hlarge hne
    rw [hinit]
    show 235 ≤ beyondUsable E buff.block - addr E.base start
    omega
  · intro hpartUsed
    rw [hinit, ← (C.partUsed hpartUsed).1, ← hpart hpartUsed]
    show beyondUsable E buff.block - addr E.base start = _
    omega

/-! ### Closing a buffer -/

theorem handed_xmitIovecIfNecess (atOnce : Bool) (s : Msp) :
    handed (xmitIovecIfNecess E atOnce s) = handed s := by
  unfold xmitIovecIfNecess
  split
  · rw [handed, handed]
    exact List.append_nil _
  · rfl

/-- The vector has a free slot again, or it is as it was. -/
theorem xmitIovecIfNecess_spec (atOnce : Bool) (s : Msp) (hlen : s.iovec.length ≤ iovectorSize) :
    (xmitIovecIfNecess E atOnce s).iovec.length < iovectorSize ∧
      ∀ e ∈ (xmitIovecIfNecess E atOnce s).iovec, e ∈ s.iovec ∧
        (xmitIovecIfNecess E atOnce s).stackPacketStatus = s.stackPacketStatus := by
  unfold xmitIovecIfNecess
  split
  · refine ⟨show 0 < iovectorSize by decide, fun e he => ?_⟩
    cases he
  · next hno =>
    rw [not_or] at hno
    exact ⟨lt_of_le_of_ne hlen hno.1, fun e he => ⟨he, rfl⟩⟩

theorem status_xmitIovecIfNecess (atOnce : Bool) (s : Msp) :
    (xmitIovecIfNecess E atOnce s).stackPacketStatus = s.stackPacketStatus ∨
      (xmitIovecIfNecess E atOnce s).stackPacketStatus = .unused := by
  unfold xmitIovecIfNecess
  split
  · dsimp only
    split
    · exact .inr rfl
    · exact .inl rfl
  · exact .inl rfl

@[simp] theorem mp_xmitIovecIfNecess (atOnce : Bool) (s : Msp) :
    (xmitIovecIfNecess E atOnce s).mp = s.mp := by
  unfold xmitIovecIfNecess
  split <;> rfl

@[simp] theorem buffAddr_xmitIovecIfNecess (atOnce : Bool) (s : Msp) :
    (xmitIovecIfNecess E atOnce s).buffAddr = s.buffAddr := by
  unfold xmitIovecIfNecess
  split <;> rfl

@[simp] theorem heapBlocks_xmitIovecIfNecess (atOnce : Bool) (s : Msp) :
    (xmitIovecIfNecess E atOnce s).heapBlocks = s.heapBlocks := by
  unfold xmitIovecIfNecess
  split <;> rfl

@[simp] theorem opened_xmitIovecIfNecess (atOnce : Bool) (s : Msp) :
    (xmitIovecIfNecess E atOnce s).opened = s.opened := by
  unfold xmitIovecIfNecess
  split <;> rfl

/-- The current buffer becomes an element of the vector. -/
def closeBuffer (E : Env) (use : StackPacketUse) (s : Msp) (left startOffset : ℕ) : Msp :=
  { xmitIovecIfNecess E false (attachBuffToIovec { s with stackPacketStatus := use }) with
    leftInBuff := left
    mpStartOffset := startOffset }

/-- How `closeBuffer` may leave the stack packet: as it is, or for later use. -/
def MayBecome (s : Msp) (use : StackPacketUse) : Prop :=
  use = s.stackPacketStatus ∨
    use = .partUsed ∧ s.stackPacketStatus = .inUse ∧ 8 ≤ s.leftInBuff

theorem stream_closeBuffer (O : Opened E s) (use : StackPacketUse) (left startOffset : ℕ) :
    stream (closeBuffer E use s left startOffset) = stream s := by
  have hnone : (closeBuffer E use s left startOffset).buffAddr = none :=
    buffAddr_xmitIovecIfNecess _ _
  have hfinish : attachBuffToIovec { s with stackPacketStatus := use }
      = marshFinish { s with stackPacketStatus := use } := (if_pos O.isSome).symm
  calc stream (closeBuffer E use s left startOffset)
      = handed (xmitIovecIfNecess E false
          (attachBuffToIovec { s with stackPacketStatus := use })) := stream_of_none hnone
    _ = handed (marshFinish { s with stackPacketStatus := use }) := by
      rw [handed_xmitIovecIfNecess, hfinish]
    _ = stream s := handed_marshFinish _

theorem closeBuffer_spec (O : Opened E s) (G : Good s) (use : StackPacketUse)
    (huse : MayBecome s use) (left : ℕ) {startOffset : ℕ}
    (hoffset : startOffset = (stream s).length % 8) :
    Closed E (closeBuffer E use s left startOffset) ∧ Good (closeBuffer E use s left startOffset) ∧
      (use ≠ .partUsed → (closeBuffer E use s left startOffset).stackPacketStatus ≠ .partUsed) := by
  set attached := attachBuffToIovec { s with stackPacketStatus := use } with hattached
  have hstatus : attached.stackPacketStatus = if use = .inUse then .used else use := rfl
  have hvec : attached.iovec = s.iovec ++ [.buff s.dataAddr (s.mp.off - s.dataAddr.off)] := rfl
  have hlen : attached.iovec.length ≤ iovectorSize := by
    rw [hvec, List.length_append, List.length_singleton]
    exact G.iovec
  obtain ⟨hfree, hkept⟩ := xmitIovecIfNecess_spec (E := E) false attached hlen
  have hnot : (closeBuffer E use s left startOffset).stackPacketStatus
      = (xmitIovecIfNecess E false attached).stackPacketStatus := rfl
  have hafter := status_xmitIovecIfNecess (E := E) false attached
  -- every element lies below the pointer, if it is in the block of the pointer
  have hbelow : ∀ q n, IovElt.buff q n ∈ attached.iovec →
      (q.block = s.mp.block → q.off + n ≤ s.mp.off) ∧ ∀ m, q.block = .heap m → m < s.heapBlocks := by
    intro q n hmem
    rw [hvec, List.mem_append, List.mem_singleton] at hmem
    rcases hmem with hmem | heq
    · obtain ⟨hoff, hheap⟩ := O.settled q n hmem
      exact ⟨fun hblock => (hoff (hblock.trans O.block.symm)).trans O.le, hheap⟩
    · obtain ⟨rfl, rfl⟩ := IovElt.buff.inj heq
      refine ⟨fun _ => by have := O.le; omega, fun m hm => ?_⟩
      rcases O.use with ⟨hpacket, -⟩ | ⟨i, hi, hlt, -⟩
      · rw [O.block, hpacket] at hm
        cases hm
      · rw [O.block, hi] at hm
        cases hm
        exact hlt
  refine ⟨?_, ⟨hfree, ?_⟩, ?_⟩
  · refine ⟨buffAddr_xmitIovecIfNecess _ _, ?_, ?_, ?_, ?_, ?_⟩
    · rw [hnot]
      rcases hafter with hsame | hunused
      · rw [hsame, hstatus]
        split
        · decide
        · assumption
      · rw [hunused]
        decide
    · intro q n hmem hblock
      obtain ⟨hin, hsame⟩ := hkept _ hmem
      rw [hnot, hsame, hstatus]
      show _ ∨ _ ∧ q.off + n ≤ (xmitIovecIfNecess E false attached).mp.off
      rw [mp_xmitIovecIfNecess]
      rcases O.use with ⟨hpacket, hinUse⟩ | ⟨i, -, -, hused⟩
      · rcases huse with rfl | ⟨rfl, -, -⟩
        · left
          rw [hinUse]
          rfl
        · exact .inr ⟨rfl, (hbelow q n hin).1 (hblock.trans hpacket.symm)⟩
      · rcases huse with rfl | ⟨-, hinUse, -⟩
        · left
          rw [hused]
          rfl
        · rw [hused] at hinUse
          cases hinUse
    · intro q n hmem m hm
      show m < (xmitIovecIfNecess E false attached).heapBlocks
      rw [heapBlocks_xmitIovecIfNecess]
      exact (hbelow q n (hkept _ hmem).1).2 m hm
    · intro hpart
      have hpartUsed : use = .partUsed := by
        rw [hnot] at hpart
        rcases hafter with hsame | hunused
        · rw [hsame, hstatus] at hpart
          split at hpart
          · cases hpart
          · exact hpart
        · rw [hunused] at hpart
          cases hpart
      show (xmitIovecIfNecess E false attached).mp.block = .stackPacket ∧
        addr E.base (xmitIovecIfNecess E false attached).mp + 8 ≤ _
      rw [mp_xmitIovecIfNecess]
      rcases O.use with ⟨hpacket, hinUse⟩ | ⟨i, -, -, hused⟩
      · rcases huse with rfl | ⟨-, -, hleft⟩
        · rw [hinUse] at hpartUsed
          cases hpartUsed
        · have hbeyond := O.beyond
          refine ⟨hpacket, ?_⟩
          rw [hpacket] at hbeyond
          show addr E.base s.mp + 8 ≤ _
          omega
      · rcases huse with rfl | ⟨-, hinUse, -⟩
        · rw [hused] at hpartUsed
          cases hpartUsed
        · rw [hused] at hinUse
          cases hinUse
    · rw [stream_closeBuffer O]
      exact hoffset
  · show ∀ o ∈ (xmitIovecIfNecess E false attached).opened, o.1 % 8 = o.2
    rw [opened_xmitIovecIfNecess]
    exact G.opened
  · intro hne
    rw [hnot]
    rcases hafter with hsame | hunused
    · rw [hsame, hstatus]
      split
      · decide
      · exact hne
    · rw [hunused]
      decide

/-! ### The routines -/

/-- A buffer with room for `size` bytes, if a buffer that is left has been filled up to an
address that is 0 mod 8. -/
theorem marshCheckBuffer_spec (B : Between E s) (size : ℕ) (hsize : size ≤ 8)
    (hnone : s.buffAddr = none → size = 1) (hfull : s.leftInBuff < size → 8 ∣ s.leftInBuff) :
    Opened E (marshCheckBuffer E size s) ∧ Good (marshCheckBuffer E size s) ∧
      stream (marshCheckBuffer E size s) = stream s ∧
      size ≤ (marshCheckBuffer E size s).leftInBuff := by
  unfold marshCheckBuffer
  rcases B.buffer with O | ⟨C, hzero⟩
  · split
    · next hlt =>
      rw [if_pos O.isSome]
      have hoffset : 0 = (stream s).length % 8 := by
        have hres := O.residue
        have hbeyond := O.beyond
        have hdvd := (beyondUsable_le E s.mp.block).2.2
        have hleft := hfull hlt
        omega
      have hclose := closeBuffer_spec O B.toGood s.stackPacketStatus (.inl rfl)
        (xmitIovecIfNecess E false (attachBuffToIovec s)).leftInBuff hoffset
      obtain ⟨C, G, hpart⟩ := hclose
      have hne : s.stackPacketStatus ≠ .partUsed := by
        rcases O.use with ⟨-, huse⟩ | ⟨i, -, -, huse⟩ <;> rw [huse] <;> decide
      obtain ⟨hO, hG, hstream, -, hlarge, -⟩ := marshInitBuffer_spec C G
      refine ⟨hO, hG, ?_, ?_⟩
      · rw [stream_closeBuffer O] at hstream
        exact hstream
      · exact le_trans (by omega) (hlarge (hpart hne))
    · next hge => exact ⟨O, B.toGood, rfl, not_lt.mp hge⟩
  · have hone := hnone C.isNone
    rw [if_pos (by omega), if_neg (by rw [C.isNone]; exact Bool.false_ne_true)]
    obtain ⟨hO, hG, hstream, hleft, -, -⟩ := marshInitBuffer_spec C B.toGood
    exact ⟨hO, hG, hstream, hone ▸ hleft⟩

/-- The buffer that an item is aligned in. -/
def currentBuffer (E : Env) (s : Msp) : Msp := if s.buffAddr.isNone then marshInitBuffer E s else s

theorem currentBuffer_spec (B : Between E s) :
    Opened E (currentBuffer E s) ∧ Good (currentBuffer E s) ∧
      stream (currentBuffer E s) = stream s := by
  unfold currentBuffer
  rcases B.buffer with O | ⟨C, hzero⟩
  · rw [if_neg (by rw [Option.isNone_iff_eq_none]; exact O.ne_none)]
    exact ⟨O, B.toGood, rfl⟩
  · rw [if_pos (by rw [C.isNone]; rfl)]
    obtain ⟨hO, hG, hstream, -⟩ := marshInitBuffer_spec C B.toGood
    exact ⟨hO, hG, hstream⟩

/-- Moving the pointer on adds what is there to the stream. -/
theorem Opened.move (O : Opened E s) {n : ℕ} (hle : n ≤ s.leftInBuff) :
    Opened E { s with mp := s.mp.move n, leftInBuff := s.leftInBuff - n } ∧
      stream { s with mp := s.mp.move n, leftInBuff := s.leftInBuff - n }
        = stream s ++ read s.mem s.mp n := by
  have hoff := O.le
  have hstream : stream { s with mp := s.mp.move n, leftInBuff := s.leftInBuff - n }
      = stream s ++ read s.mem s.mp n := by
    have hmove : s.dataAddr.move (s.mp.off - s.dataAddr.off) = s.mp := by
      rw [Ptr.move, O.block, Nat.add_sub_cancel' hoff]
    have hlen : (s.mp.move n).off - s.dataAddr.off = (s.mp.off - s.dataAddr.off) + n := by
      rw [Ptr.move]
      dsimp only
      omega
    rw [stream, stream, openBytes, openBytes, if_pos O.isSome, if_pos O.isSome, hlen, read_add,
      hmove, List.append_assoc]
    rfl
  refine ⟨⟨O.isSome, O.block, ?_, ?_, O.settled, O.use, ?_⟩, hstream⟩
  · exact hoff.trans (Nat.le_add_right _ _)
  · have hbeyond := O.beyond
    rw [addr] at hbeyond ⊢
    rw [Ptr.move]
    dsimp only
    omega
  · have hres := O.residue
    rw [hstream, List.length_append, length_read]
    rw [addr] at hres ⊢
    rw [Ptr.move]
    dsimp only
    omega

theorem alignUp_eq_add {x r b : ℕ} (hr : r < b) (hdvd : b ∣ x + r) : alignUp x b = x + r := by
  obtain ⟨m, hm⟩ := hdvd
  have hdiv : (x + (b - 1)) / b = m := by
    refine Nat.div_eq_of_lt_le ?_ ?_
    · rw [Nat.mul_comm]
      omega
    · rw [Nat.succ_mul, Nat.mul_comm]
      omega
  rw [alignUp, hdiv, hm, Nat.mul_comm]

/-- An address that is congruent to a place in the stream needs the same padding, and what is left
up to a multiple of 8 shrinks by as much. -/
theorem exists_padding (size : ScalarSize) {a len left : ℕ} (hres : a % 8 = len % 8)
    (hdvd : 8 ∣ a + left) :
    ∃ n, alignUp a size.bytes = a + n ∧ alignDown left size.bytes = left - n ∧ n ≤ left ∧
      len + n = alignUp len size.bytes := by
  have hpos : 0 < size.bytes := by cases size <;> decide
  have height : size.bytes ∣ 8 := by cases size <;> decide
  have hup : (a + left % size.bytes) % size.bytes = 0 := by
    rw [Nat.add_mod_mod]
    exact Nat.mod_eq_zero_of_dvd (height.trans hdvd)
  have hlen : (len + left % size.bytes) % size.bytes = 0 := by
    rw [Nat.add_mod, ← Nat.mod_mod_of_dvd len height, ← hres, Nat.mod_mod_of_dvd a height,
      ← Nat.add_mod]
    exact hup
  have hlt := Nat.mod_lt left hpos
  exact ⟨left % size.bytes, alignUp_eq_add hlt (Nat.dvd_of_mod_eq_zero hup),
    Nat.div_mul_self_eq_mod_sub_self, Nat.mod_le _ _,
    (alignUp_eq_add hlt (Nat.dvd_of_mod_eq_zero hlen)).symm⟩

/-- Aligning the pointer aligns the stream. -/
theorem marshAlignMp_spec (B : Between E s) (size : ScalarSize) :
    Opened E (marshAlignMp E size.bytes s) ∧ Good (marshAlignMp E size.bytes s) ∧
      (∃ pad, stream (marshAlignMp E size.bytes s) = stream s ++ pad ∧
        (stream s).length + pad.length = alignUp (stream s).length size.bytes) ∧
      (marshAlignMp E size.bytes s).leftInBuff
        = alignDown (currentBuffer E s).leftInBuff size.bytes := by
  obtain ⟨O, G, hstream⟩ := currentBuffer_spec B
  have hdef : marshAlignMp E size.bytes s = { currentBuffer E s with
      mp := { (currentBuffer E s).mp with
        off := alignUp (addr E.base (currentBuffer E s).mp) size.bytes -
          E.base (currentBuffer E s).mp.block }
      leftInBuff := alignDown (currentBuffer E s).leftInBuff size.bytes } := rfl
  rw [← hstream, hdef]
  generalize currentBuffer E s = s at *
  have hdvd : 8 ∣ addr E.base s.mp + s.leftInBuff := by
    rw [O.beyond]
    exact (beyondUsable_le E s.mp.block).2.2
  obtain ⟨n, hup, hdown, hle, hlen⟩ := exists_padding size O.residue hdvd
  have hmove : ({ s with
      mp := { s.mp with off := alignUp (addr E.base s.mp) size.bytes - E.base s.mp.block }
      leftInBuff := alignDown s.leftInBuff size.bytes } : Msp)
      = { s with mp := s.mp.move n, leftInBuff := s.leftInBuff - n } := by
    rw [hup, hdown, Ptr.move, addr, Nat.add_assoc, Nat.add_sub_cancel_left]
  rw [hmove]
  obtain ⟨hO, hread⟩ := O.move hle
  refine ⟨hO, ⟨G.iovec, G.opened⟩, ⟨_, hread, ?_⟩, hdown.symm⟩
  rw [length_read]
  exact hlen

/-- Writing at the pointer changes nothing that is in the stream. -/
theorem Opened.writeAt (O : Opened E s) (bytes : List UInt8) :
    Opened E { s with mem := write s.mem s.mp bytes } ∧
      stream { s with mem := write s.mem s.mp bytes } = stream s := by
  have hstream : stream { s with mem := write s.mem s.mp bytes } = stream s := by
    have hopen : openBytes { s with mem := write s.mem s.mp bytes } = openBytes s := by
      rw [openBytes, openBytes, if_pos O.isSome, if_pos O.isSome]
      refine read_write_of_above fun _ => ?_
      show s.dataAddr.off + (s.mp.off - s.dataAddr.off) ≤ s.mp.off
      rw [Nat.add_sub_cancel' O.le]
    have hvec : iovecBytes { s with mem := write s.mem s.mp bytes } = iovecBytes s := by
      rw [iovecBytes, iovecBytes]
      congr 1
      refine List.map_congr_left fun e he => ?_
      cases e with
      | user data => rfl
      | buff q n =>
        refine read_write_of_above fun hblock => ?_
        exact ((O.settled q n he).1 (hblock.trans O.block.symm)).trans O.le
    rw [stream, stream, hopen, handed, handed, hvec]
  exact ⟨⟨O.isSome, O.block, O.le, O.beyond, O.settled, O.use, hstream ▸ O.residue⟩, hstream⟩

/-- Bytes that fit are added to the stream. -/
theorem put_spec (bytes : List UInt8) (O : Opened E s) (G : Good s) (hle : bytes.length ≤ s.leftInBuff) :
    ∃ s', put bytes s = some s' ∧ Opened E s' ∧ Good s' ∧ stream s' = stream s ++ bytes ∧
      s'.leftInBuff = s.leftInBuff - bytes.length := by
  have hroom := O.room
  obtain ⟨hO, hwrite⟩ := O.writeAt bytes
  obtain ⟨hO', hmove⟩ := hO.move hle
  refine ⟨_, if_pos (by omega), hO', ⟨G.iovec, G.opened⟩, ?_, rfl⟩
  rw [read_write, hwrite] at hmove
  exact hmove

/-! ### Steps -/

/-- What a routine leaves behind, when it has marshalled a datum. -/
def Marshalled (E : Env) (s : Msp) (d : Datum) (s' : Msp) : Prop :=
  Between E s' ∧ ∃ pad, stream s' = stream s ++ pad ++ d.bytes ∧
    (stream s).length + pad.length = alignUp (stream s).length d.align

theorem marshScalar_spec (B : Between E s) (size : ScalarSize) (hbytes : bytes.length = size.bytes) :
    ∃ s', marshScalar E size bytes s = some s' ∧ Marshalled E s ⟨size.bytes, bytes⟩ s' := by
  by_cases hone : size = .one
  · subst hone
    obtain ⟨O, G, hstream, hleft⟩ := marshCheckBuffer_spec B 1 (by decide) (fun _ => rfl)
      (by omega)
    obtain ⟨s', hput, O', G', hadd, -⟩ := put_spec bytes O G (hbytes.le.trans hleft)
    refine ⟨s', hput, ⟨G', .inl O'⟩, [], ?_, (alignUp_one _).symm⟩
    rw [hadd, hstream, List.append_nil]
  · obtain ⟨O, G, ⟨pad, halign, hpad⟩, hdown⟩ := marshAlignMp_spec B size
    have hmod : (marshAlignMp E size.bytes s).leftInBuff < size.bytes →
        8 ∣ (marshAlignMp E size.bytes s).leftInBuff := by
      rw [hdown, alignDown]
      cases size <;> simp only [ScalarSize.bytes] <;> omega
    have hle : size.bytes ≤ 8 := by cases size <;> decide
    obtain ⟨O₁, G₁, hsame, hleft⟩ := marshCheckBuffer_spec ⟨G, .inl O⟩ size.bytes hle
      (fun hnone => absurd hnone O.ne_none) hmod
    obtain ⟨s', hput, O', G', hadd, -⟩ := put_spec bytes O₁ G₁ (hbytes.le.trans hleft)
    refine ⟨s', ?_, ⟨G', .inl O'⟩, pad, ?_, hpad⟩
    · rw [← hput]
      cases size <;> first | rfl | exact absurd rfl hone
    · rw [hadd, hsame, halign]

theorem copyLoop_spec (n : ℕ) (bytes : List UInt8) (B : Between E s) (hn : bytes.length ≤ n) :
    ∃ s', copyLoop E n bytes s = some s' ∧ Between E s' ∧ stream s' = stream s ++ bytes := by
  induction n generalizing s bytes with
  | zero =>
    have hnil : bytes = [] := List.length_eq_zero_iff.mp (by omega)
    exact ⟨s, if_pos hnil, B, by rw [hnil, List.append_nil]⟩
  | succ n ih =>
    by_cases hnil : bytes = []
    · exact ⟨s, if_pos hnil, B, by rw [hnil, List.append_nil]⟩
    · obtain ⟨O, G, hstream, hleft⟩ := marshCheckBuffer_spec B 1 (by decide)
        (fun _ => rfl) (by omega)
      set size := min (marshCheckBuffer E 1 s).leftInBuff bytes.length with hsize
      have hpos : 0 < bytes.length := List.length_pos_iff.mpr hnil
      have htake : (bytes.take size).length ≤ (marshCheckBuffer E 1 s).leftInBuff := by
        rw [List.length_take]
        omega
      obtain ⟨s₁, hput, O₁, G₁, hadd, -⟩ := put_spec (bytes.take size) O G htake
      obtain ⟨s', hloop, B', hrest⟩ := ih (bytes.drop size) ⟨G₁, .inl O₁⟩ (by
        rw [List.length_drop]
        omega)
      refine ⟨s', ?_, B', ?_⟩
      · rw [copyLoop, if_neg hnil]
        dsimp only
        rw [← hsize, hput]
        exact hloop
      · rw [hrest, hadd, hstream, List.append_assoc, List.take_append_drop]

theorem marshByCopying_spec (B : Between E s) (bytes : List UInt8) :
    ∃ s', marshByCopying E bytes s = some s' ∧ Marshalled E s ⟨1, bytes⟩ s' := by
  obtain ⟨s', hloop, B', hstream⟩ := copyLoop_spec bytes.length bytes B le_rfl
  refine ⟨s', hloop, B', [], ?_, (alignUp_one _).symm⟩
  rw [hstream, List.append_nil]

@[simp] theorem mpStartOffset_xmitIovecIfNecess (atOnce : Bool) (s : Msp) :
    (xmitIovecIfNecess E atOnce s).mpStartOffset = s.mpStartOffset := by
  unfold xmitIovecIfNecess
  split <;> rfl

@[simp] theorem leftInBuff_xmitIovecIfNecess (atOnce : Bool) (s : Msp) :
    (xmitIovecIfNecess E atOnce s).leftInBuff = s.leftInBuff := by
  unfold xmitIovecIfNecess
  split <;> rfl

/-- An element that points at the user's data, and what follows it. -/
def pointAt (E : Env) (bytes : List UInt8) (atOnce : Bool) (s : Msp) : Msp :=
  { xmitIovecIfNecess E atOnce { s with iovec := s.iovec ++ [.user bytes] } with
    mpStartOffset := (s.mpStartOffset + bytes.length) % 8 }

theorem pointAt_spec (C : Closed E s) (G : Good s) (bytes : List UInt8) (atOnce : Bool) :
    Closed E (pointAt E bytes atOnce s) ∧ Good (pointAt E bytes atOnce s) ∧
      stream (pointAt E bytes atOnce s) = stream s ++ bytes := by
  set added : Msp := { s with iovec := s.iovec ++ [.user bytes] } with hadded
  have hlen : added.iovec.length ≤ iovectorSize := by
    rw [hadded, List.length_append, List.length_singleton]
    exact G.iovec
  obtain ⟨hfree, hkept⟩ := xmitIovecIfNecess_spec (E := E) atOnce added hlen
  have hnone : (pointAt E bytes atOnce s).buffAddr = none :=
    (buffAddr_xmitIovecIfNecess atOnce added).trans C.isNone
  have hstatus : (pointAt E bytes atOnce s).stackPacketStatus
      = (xmitIovecIfNecess E atOnce added).stackPacketStatus := rfl
  have hafter := status_xmitIovecIfNecess (E := E) atOnce added
  have hmp : (pointAt E bytes atOnce s).mp = s.mp := mp_xmitIovecIfNecess atOnce added
  have helts : ∀ q n, IovElt.buff q n ∈ (pointAt E bytes atOnce s).iovec →
      IovElt.buff q n ∈ s.iovec ∧
        (pointAt E bytes atOnce s).stackPacketStatus = s.stackPacketStatus := by
    intro q n hmem
    obtain ⟨hin, hsame⟩ := hkept _ hmem
    refine ⟨?_, hsame⟩
    rcases List.mem_append.mp hin with hin | hin
    · exact hin
    · cases List.mem_singleton.mp hin
  have hstream : stream (pointAt E bytes atOnce s) = stream s ++ bytes := by
    have hhanded : handed (pointAt E bytes atOnce s) = handed added :=
      handed_xmitIovecIfNecess atOnce added
    rw [stream_of_none hnone, stream_of_none C.isNone, hhanded, handed, handed, iovecBytes,
      iovecBytes, hadded]
    dsimp only
    rw [List.map_append, List.flatten_append, List.map_singleton, List.flatten_singleton,
      IovElt.bytes, List.append_assoc]
  refine ⟨⟨hnone, ?_, ?_, ?_, ?_, ?_⟩, ⟨hfree, ?_⟩, hstream⟩
  · rw [hstatus]
    rcases hafter with hsame | hunused
    · rw [hsame]
      exact C.status
    · rw [hunused]
      decide
  · intro q n hmem hblock
    obtain ⟨hin, hsame⟩ := helts q n hmem
    rw [hsame, hmp]
    exact C.stackPacket q n hin hblock
  · intro q n hmem m hm
    show m < (xmitIovecIfNecess E atOnce added).heapBlocks
    rw [heapBlocks_xmitIovecIfNecess]
    exact C.heap q n (helts q n hmem).1 m hm
  · intro hpart
    rw [hmp]
    rw [hstatus] at hpart
    rcases hafter with hsame | hunused
    · exact C.partUsed (hsame ▸ hpart)
    · rw [hunused] at hpart
      cases hpart
  · have hoffset := C.offset
    rw [hstream, List.length_append]
    show (s.mpStartOffset + bytes.length) % 8 = _
    omega
  · show ∀ o ∈ (xmitIovecIfNecess E atOnce added).opened, o.1 % 8 = o.2
    rw [opened_xmitIovecIfNecess]
    exact G.opened

theorem marshByPointing_spec (B : Between E s) (bytes : List UInt8) (atOnce : Bool) :
    Marshalled E s ⟨1, bytes⟩ (marshByPointing E bytes atOnce s) := by
  -- a current buffer is closed first
  obtain ⟨s₁, C, G, hzero, hsame, hrun⟩ : ∃ s₁, Closed E s₁ ∧ Good s₁ ∧ s₁.leftInBuff = 0 ∧
      stream s₁ = stream s ∧ marshByPointing E bytes atOnce s = pointAt E bytes atOnce s₁ := by
    have hpoint : ∀ s₁, ({ xmitIovecIfNecess E atOnce { s₁ with iovec := s₁.iovec ++ [.user bytes] }
        with mpStartOffset := ((xmitIovecIfNecess E atOnce
          { s₁ with iovec := s₁.iovec ++ [.user bytes] }).mpStartOffset + bytes.length) % 8 } : Msp)
        = pointAt E bytes atOnce s₁ := by
      intro s₁
      rw [mpStartOffset_xmitIovecIfNecess, pointAt]
    rcases B.buffer with O | ⟨C, hzero⟩
    · set use := if s.stackPacketStatus = .inUse ∧ 8 ≤ s.leftInBuff then .partUsed
        else s.stackPacketStatus with huse
      have hmay : MayBecome s use := by
        rw [huse]
        split
        · next hand => exact .inr ⟨rfl, hand⟩
        · exact .inl rfl
      have hset : (if s.stackPacketStatus = .inUse ∧ 8 ≤ s.leftInBuff then
          { s with stackPacketStatus := .partUsed } else s) = { s with stackPacketStatus := use } := by
        rw [huse]
        split <;> rfl
      obtain ⟨C, G, -⟩ := closeBuffer_spec O B.toGood use hmay 0 O.residue
      refine ⟨_, C, G, rfl, stream_closeBuffer O use 0 _, ?_⟩
      have hmp : (xmitIovecIfNecess E false
          (attachBuffToIovec { s with stackPacketStatus := use })).mp = s.mp :=
        mp_xmitIovecIfNecess _ _
      have hoff : addr E.base (xmitIovecIfNecess E false
          (attachBuffToIovec { s with stackPacketStatus := use })).mp % 8 = addr E.base s.mp % 8 := by
        rw [hmp]
      rw [marshByPointing, if_pos O.isSome, hset]
      dsimp only
      rw [hoff]
      exact hpoint (closeBuffer E use s 0 (addr E.base s.mp % 8))
    · refine ⟨s, C, B.toGood, hzero, rfl, ?_⟩
      rw [marshByPointing, if_neg (by rw [C.isNone]; exact Bool.false_ne_true)]
      exact hpoint s
  rw [hrun]
  obtain ⟨C', G', hadd⟩ := pointAt_spec C G bytes atOnce
  refine ⟨⟨G', .inr ⟨C', ?_⟩⟩, [], ?_, (alignUp_one _).symm⟩
  · show (xmitIovecIfNecess E atOnce { s₁ with iovec := s₁.iovec ++ [.user bytes] }).leftInBuff = 0
    rw [leftInBuff_xmitIovecIfNecess]
    exact hzero
  · rw [hadd, hsame, List.append_nil]

/-! ### Strings in arrays -/

/-- The count of a string does not begin where just four bytes of the buffer are left: in
the current buffer, or in the rest of the stack packet that is opened for it. -/
def StringFits (E : Env) (s : Msp) : Prop :=
  if s.buffAddr.isSome then ¬ (4 ≤ s.leftInBuff ∧ s.leftInBuff < 8)
  else ¬ (s.stackPacketStatus = .partUsed ∧
    beyondUsable E .stackPacket = alignUp (addr E.base s.mp) 8 + 8 ∧
    1 ≤ s.mpStartOffset ∧ s.mpStartOffset ≤ 4)

instance : DecidablePred (StringFits E) := fun _ => by
  unfold StringFits
  infer_instance

/-- Then a buffer that has no room for the count is full. -/
theorem StringFits.eight_dvd (B : Between E s) (hfits : StringFits E s)
    (hlt : (marshAlignMp E 4 s).leftInBuff < 8) : 8 ∣ (marshAlignMp E 4 s).leftInBuff := by
  have hdown := (marshAlignMp_spec B .four).2.2.2
  rw [show ScalarSize.bytes .four = 4 from rfl] at hdown
  rw [hdown, alignDown] at hlt ⊢
  unfold StringFits at hfits
  rcases B.buffer with O | ⟨C, hzero⟩
  · have hcur : currentBuffer E s = s := by
      rw [currentBuffer, if_neg]
      rw [Option.isNone_iff_eq_none]
      exact O.ne_none
    rw [if_pos O.isSome] at hfits
    rw [hcur] at hlt ⊢
    omega
  · have hcur : currentBuffer E s = marshInitBuffer E s := by
      rw [currentBuffer, if_pos (by rw [C.isNone]; rfl)]
    rw [if_neg (by rw [C.isNone]; exact Bool.false_ne_true)] at hfits
    obtain ⟨-, -, -, -, hlarge, hpart⟩ := marshInitBuffer_spec C B.toGood
    rw [hcur] at hlt ⊢
    by_cases hstatus : s.stackPacketStatus = .partUsed
    · have hleft := hpart hstatus
      have hroom := (C.partUsed hstatus).2
      have hoffset := C.offset
      have hbeyond := (beyondUsable_le E .stackPacket).2.2
      have hup : alignUp (addr E.base s.mp) 8 ≤ addr E.base s.mp + 7 ∧
          addr E.base s.mp ≤ alignUp (addr E.base s.mp) 8 ∧ 8 ∣ alignUp (addr E.base s.mp) 8 := by
        rw [alignUp]
        omega
      rw [hleft] at hlt ⊢
      by_cases hlast : beyondUsable E .stackPacket = alignUp (addr E.base s.mp) 8 + 8
      · have hout : ¬ (1 ≤ s.mpStartOffset ∧ s.mpStartOffset ≤ 4) := fun hand =>
          hfits ⟨hstatus, hlast, hand⟩
        omega
      · omega
    · have hleft := hlarge hstatus
      omega

theorem length_ulongInt (n : ℕ) : (ulongInt n).length = 4 := by
  rw [ulongInt, List.length_map, List.length_range]

theorem marshString_spec (B : Between E s) (hfits : StringFits E s) (count : ℕ)
    (bytes : List UInt8) : ∃ s₁ s₂ s', marshString E count bytes s = some s' ∧
      Marshalled E s ⟨4, ulongInt 0⟩ s₁ ∧ Marshalled E s₁ ⟨4, ulongInt count⟩ s₂ ∧
      Marshalled E s₂ ⟨1, bytes⟩ s' := by
  obtain ⟨O, G, ⟨pad, halign, hpad⟩, -⟩ := marshAlignMp_spec B .four
  rw [show ScalarSize.bytes .four = 4 from rfl] at O G halign hpad
  obtain ⟨O₁, G₁, hsame, hleft⟩ := marshCheckBuffer_spec ⟨G, .inl O⟩ 8 le_rfl
    (fun hnone => absurd hnone O.ne_none)
    (hfits.eight_dvd B)
  have hzero := length_ulongInt 0
  have hcount := length_ulongInt count
  obtain ⟨s₁, hput₁, O₂, G₂, hadd₁, hleft₁⟩ := put_spec (ulongInt 0) O₁ G₁ (by omega)
  obtain ⟨s₂, hput₂, O₃, G₃, hadd₂, -⟩ := put_spec (ulongInt count) O₂ G₂ (by omega)
  obtain ⟨s', hcopy, hmarshalled⟩ := marshByCopying_spec ⟨G₃, .inl O₃⟩ bytes
  refine ⟨s₁, s₂, s', ?_, ⟨⟨G₂, .inl O₂⟩, pad, ?_, hpad⟩, ⟨⟨G₃, .inl O₃⟩, [], ?_, ?_⟩, hmarshalled⟩
  · rw [marshString, hput₁]
    exact (congrArg (fun o => o.bind fun s => marshByCopying E bytes s) hput₂).trans hcopy
  · rw [hadd₁, hsame, halign]
  · rw [hadd₂, List.append_nil]
  · -- the count follows at once, since the zero before it is aligned and four bytes long
    rw [hadd₁, hsame, halign, List.length_append, List.length_append, hzero, hpad, alignUp, alignUp]
    simp only [List.length_nil]
    omega

/-! ### Runs -/

/-- The condition on a step. -/
def MarshOk (E : Env) (s : Msp) : MarshOp → Prop
  | .string _ _ => StringFits E s
  | _ => True

instance : DecidablePred (MarshOk E s) := fun op => by
  cases op <;> unfold MarshOk <;> infer_instance

/-- The stream agrees with the reference stream of the data. -/
def MarshInv (E : Env) (ds : List Datum) (s : Msp) : Prop :=
  Between E s ∧ Agrees (refStream ds) (stream s)

theorem MarshInv.add {ds : List Datum} {d : Datum} {s' : Msp} (I : MarshInv E ds s)
    (hd : Marshalled E s d s') : MarshInv E (ds ++ [d]) s' := by
  obtain ⟨B, pad, hstream, hpad⟩ := hd
  refine ⟨B, ?_⟩
  rw [hstream, refStream, List.foldl_append]
  exact I.2.refAdd d hpad

theorem marshStep_spec {ds : List Datum} {op : MarshOp} (I : MarshInv E ds s)
    (hok : MarshOk E s op) :
    ∃ s', marshStep E s op = some s' ∧ MarshInv E (ds ++ op.data) s' := by
  cases op with
  | scalar size data h =>
    obtain ⟨s', hrun, hd⟩ := marshScalar_spec I.1 size h
    exact ⟨s', hrun, I.add hd⟩
  | align size =>
    obtain ⟨O, G, ⟨pad, hstream, hpad⟩, -⟩ := marshAlignMp_spec I.1 size
    refine ⟨_, rfl, I.add ⟨⟨G, .inl O⟩, pad, ?_, hpad⟩⟩
    rw [hstream, List.append_nil]
  | string count data =>
    obtain ⟨s₁, s₂, s', hrun, hd₁, hd₂, hd₃⟩ := marshString_spec I.1 hok count data
    have hall := ((I.add hd₁).add hd₂).add hd₃
    rw [List.append_assoc, List.append_assoc] at hall
    exact ⟨s', hrun, hall⟩
  | copy data =>
    obtain ⟨s', hrun, hd⟩ := marshByCopying_spec I.1 data
    exact ⟨s', hrun, I.add hd⟩
  | point data atOnce => exact ⟨_, rfl, I.add (marshByPointing_spec I.1 data atOnce)⟩

theorem marshInv_start (E : Env) (mem : Mem) : MarshInv E [] (Msp.start E mem) := by
  refine ⟨⟨⟨show 0 < iovectorSize by decide, ?_⟩, .inr ⟨⟨rfl, ?_, ?_, ?_, ?_, rfl⟩, rfl⟩⟩,
    List.Forall₂.nil⟩
  · intro o ho
    cases ho
  · rw [Msp.start]
    dsimp only
    split <;> decide
  · intro q n hmem
    cases hmem
  · intro q n hmem
    cases hmem
  · intro hpart
    rw [Msp.start] at hpart
    dsimp only at hpart
    split at hpart <;> cases hpart

theorem exec_marshInv {ds : List Datum} {ops : List MarshOp} (I : MarshInv E ds s)
    (hops : Along (marshStep E) (MarshOk E) s ops) :
    ∃ s', exec (marshStep E) s ops = some s' ∧ MarshInv E (ds ++ ops.flatMap MarshOp.data) s' := by
  induction ops generalizing s ds with
  | nil => exact ⟨s, rfl, by rw [List.flatMap_nil, List.append_nil]; exact I⟩
  | cons op ops ih =>
    obtain ⟨s₁, hstep, I₁⟩ := marshStep_spec I hops.1
    obtain ⟨s', hrun, I'⟩ := ih I₁ (hops.2 s₁ hstep)
    refine ⟨s', exec_cons_eq_some.mpr ⟨s₁, hstep, hrun⟩, ?_⟩
    rw [List.flatMap_cons, ← List.append_assoc]
    exact I'

/-- The run stays inside its buffers, the bytes handed to the transport are the reference
stream, and each buffer starts at an address congruent mod 8 to its place in the stream. -/
structure WellMarshalled (E : Env) (mem : Mem) (ops : List MarshOp) (s : Msp) : Prop where
  run : exec (marshStep E) (Msp.start E mem) ops = some s
  agrees : Agrees (refStream (ops.flatMap MarshOp.data)) (handed (marshFinish s))
  opened : ∀ o ∈ s.opened, o.1 % 8 = o.2

theorem marshalled_of_along (E : Env) (mem : Mem) (ops : List MarshOp)
    (hops : Along (marshStep E) (MarshOk E) (Msp.start E mem) ops) :
    ∃ s, WellMarshalled E mem ops s := by
  obtain ⟨s, hrun, B, hagrees⟩ := exec_marshInv (marshInv_start E mem) hops
  refine ⟨s, hrun, ?_, B.opened⟩
  rw [handed_marshFinish]
  exact hagrees

/-- A stub with a stack packet, at an address that is 0 mod 8. -/
def packetEnv : Env where
  base
    | .stackPacket => 1024
    | .heap n => 4096 * (n + 1)
  hasStackPacket := true

/-- A string where there is room for its count, user data, and a scalar in the rest of the
stack packet. -/
def fittingOps : List MarshOp :=
  [.copy (List.replicate 101 1), .string 3 [65, 66, 0], .point (List.replicate 300 2) false,
    .scalar .eight (List.replicate 8 3) rfl, .string 1 [0]]

theorem marshalled_of_along_fitting :
    Along (marshStep packetEnv) (MarshOk packetEnv) (Msp.start packetEnv fun _ _ => 0) fittingOps ∧
      ∃ s, WellMarshalled packetEnv (fun _ _ => 0) fittingOps s :=
  ⟨by decide +kernel, marshalled_of_along packetEnv (fun _ _ => 0) fittingOps (by decide +kernel)⟩

/-- A string that begins where four bytes are left, and a scalar of eight bytes. -/
def cutOps : List MarshOp :=
  [.copy (List.replicate 252 1), .string 1 [0], .scalar .eight (List.replicate 8 3) rfl]

/-- The scalar is placed at offset 268 of the stream. -/
theorem scalar_misplaced : ¬ ∃ s, WellMarshalled packetEnv (fun _ _ => 0) cutOps s := by
  rintro ⟨s, W⟩
  have hrun : (exec (marshStep packetEnv) (Msp.start packetEnv fun _ _ => 0) cutOps).map
      (fun s => (handed (marshFinish s)).length) = some 276 := by
    decide +kernel
  have href : (refStream (cutOps.flatMap MarshOp.data)).length = 272 := by decide +kernel
  rw [W.run, Option.map_some] at hrun
  have hlen := W.agrees.length_eq
  rw [href, Option.some.inj hrun] at hlen
  exact absurd hlen (by decide)

end Idl
