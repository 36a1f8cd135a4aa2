/-
Marshalling into buffers (ndrmi.h, ndrmi.c, idlddefs.h).

The marshalling interpreter writes data items into the current buffer, which is the
stack packet of the stub or a heap block; a buffer that is full, or that an array
marshalled by pointing cuts off, becomes an element of the I/O vector, and the vector
is handed to the transport when it has no free slot.  Items are aligned by the address
they are written to.

Memory is a block and an offset; `base` gives the address of a block.  `none` is a
write past the end of a block.
-/
import FreeDce.Lib.Memory
import FreeDce.Lib.Runs

namespace Idl

/-! ### Data -/

def buffSize : ℕ := 2048
def stackPacketSize : ℕ := 256
def iovectorSize : ℕ := 10

inductive Block
  | stackPacket
  | heap (n : ℕ)
deriving DecidableEq

def Block.size : Block → ℕ
  | .stackPacket => stackPacketSize
  | .heap _ => buffSize

abbrev Ptr := Memory.Ptr Block
abbrev Mem := Memory.Mem Block UInt8

/-- An element of the I/O vector: part of a buffer, or data of the user. -/
inductive IovElt
  | buff (dataAddr : Ptr) (dataLen : ℕ)
  | user (data : List UInt8)

/-- `IDL_stack_packet_use_k_t`. -/
inductive StackPacketUse
  | unused
  | inUse
  | used
  | partUsed
deriving DecidableEq

/-- `IDL_ms_t`, as far as buffers are concerned.  `heapBlocks` counts the blocks that have
been allocated.  `transmitted` and `opened` are history: the bytes handed to the transport, and
for each buffer where in the stream it starts, and at which address (mod 8). -/
structure Msp where
  mem : Mem
  heapBlocks : ℕ := 0
  iovec : List IovElt := []
  buffAddr : Option Ptr := none
  dataAddr : Ptr := ⟨.stackPacket, 0⟩
  mp : Ptr := ⟨.stackPacket, 0⟩
  leftInBuff : ℕ := 0
  mpStartOffset : ℕ := 0
  stackPacketStatus : StackPacketUse
  transmitted : List UInt8 := []
  opened : List (ℕ × ℕ) := []

/-! ### Memory -/

def IovElt.bytes (mem : Mem) : IovElt → List UInt8
  | .buff dataAddr dataLen => Memory.read mem dataAddr dataLen
  | .user data => data

def iovecBytes (s : Msp) : List UInt8 := (s.iovec.map (IovElt.bytes s.mem)).flatten

def addr (base : Block → ℕ) (p : Ptr) : ℕ := base p.block + p.off

/-- `(n + (a - 1)) & ~(a - 1)`, for a power of two. -/
def alignUp (n a : ℕ) : ℕ := (n + (a - 1)) / a * a

/-- `n & ~(a - 1)`. -/
def alignDown (n a : ℕ) : ℕ := n / a * a

/-! ### Buffers -/

/-- What stays the same during a call: the addresses, and whether the stub has a stack packet. -/
structure Env where
  base : Block → ℕ
  hasStackPacket : Bool

variable (E : Env)

/-- `rpc_ss_attach_buff_to_iovec`. -/
def attachBuffToIovec (s : Msp) : Msp :=
  { s with
    stackPacketStatus := if s.stackPacketStatus = .inUse then .used else s.stackPacketStatus
    iovec := s.iovec ++ [.buff s.dataAddr (s.mp.off - s.dataAddr.off)]
    buffAddr := none }

/-- `rpc_ss_xmit_iovec_if_necess`.  `atOnce` says that user data was attached for a pipe or a
`[transmit_as]` type. -/
def xmitIovecIfNecess (atOnce : Bool) (s : Msp) : Msp :=
  if s.iovec.length = iovectorSize ∨ atOnce = true then
    { s with
      transmitted := s.transmitted ++ iovecBytes s
      iovec := []
      stackPacketStatus := if E.hasStackPacket then .unused else s.stackPacketStatus }
  else s

/-- The address behind the usable part of the block: it is 0 mod 8. -/
def beyondUsable (b : Block) : ℕ := alignDown (E.base b + b.size) 8

/-- The buffer that is opened next, and what becomes of the stack packet. -/
def nextBuff (s : Msp) : Ptr × StackPacketUse × ℕ :=
  match s.stackPacketStatus with
  | .unused => (⟨.stackPacket, 0⟩, .inUse, s.heapBlocks)
  -- the first free location of the stack packet
  | .partUsed => (s.mp, .inUse, s.heapBlocks)
  | use => (⟨.heap s.heapBlocks, 0⟩, use, s.heapBlocks + 1)

/-- `IDL_data_addr` of a new buffer. -/
def startOfData (buff : Ptr) (startOffset : ℕ) : Ptr :=
  { buff with off := alignUp (addr E.base buff) 8 - E.base buff.block + startOffset }

/-- `rpc_ss_ndr_marsh_init_buffer`. -/
def marshInitBuffer (s : Msp) : Msp :=
  let (buff, use, heapBlocks) := nextBuff s
  let data := startOfData E buff s.mpStartOffset
  { s with
    heapBlocks
    stackPacketStatus := use
    buffAddr := some buff
    dataAddr := data
    mp := data
    leftInBuff := beyondUsable E buff.block - addr E.base data
    opened := s.opened ++ [((s.transmitted ++ iovecBytes s).length, addr E.base data % 8)] }

/-- `rpc_ss_ndr_marsh_check_buffer`. -/
def marshCheckBuffer (size : ℕ) (s : Msp) : Msp :=
  if s.leftInBuff < size then
    if s.buffAddr.isSome then
      marshInitBuffer E { xmitIovecIfNecess E false (attachBuffToIovec s) with mpStartOffset := 0 }
    else marshInitBuffer E s
  else s

/-- `IDL_MARSH_ALIGN_MP`. -/
def marshAlignMp (alignment : ℕ) (s : Msp) : Msp :=
  let s := if s.buffAddr.isNone then marshInitBuffer E s else s
  { s with
    mp := { s.mp with off := alignUp (addr E.base s.mp) alignment - E.base s.mp.block }
    leftInBuff := alignDown s.leftInBuff alignment }

/-- Bytes are written and the pointer is moved on. -/
def put (data : List UInt8) (s : Msp) : Option Msp :=
  if s.mp.off + data.length ≤ s.mp.block.size then
    some { s with
      mem := Memory.write s.mem s.mp data
      mp := s.mp.move data.length
      leftInBuff := s.leftInBuff - data.length }
  else none

/-! ### Data items -/

/-- The sizes of scalars. -/
inductive ScalarSize
  | one
  | two
  | four
  | eight
deriving DecidableEq

def ScalarSize.bytes : ScalarSize → ℕ
  | .one => 1
  | .two => 2
  | .four => 4
  | .eight => 8

/-- `IDL_MARSH_1_BYTE_SCALAR` and `IDL_MARSH_ALIGNED_SCALAR`. -/
def marshScalar (size : ScalarSize) (data : List UInt8) (s : Msp) : Option Msp :=
  match size with
  | .one => put data (marshCheckBuffer E 1 s)
  | size => put data (marshCheckBuffer E size.bytes (marshAlignMp E size.bytes s))

/-- The loop of `rpc_ss_ndr_marsh_by_copying`. -/
def copyLoop : ℕ → List UInt8 → Msp → Option Msp
  | 0, data, s => if data = [] then some s else none
  | n + 1, data, s =>
    if data = [] then some s
    else
      let s := marshCheckBuffer E 1 s
      let bytesToCopy := min s.leftInBuff data.length
      (put (data.take bytesToCopy) s).bind (copyLoop n (data.drop bytesToCopy))

/-- `rpc_ss_ndr_marsh_by_copying`.  Each pass of its loop copies a byte at least. -/
def marshByCopying (data : List UInt8) (s : Msp) : Option Msp := copyLoop E data.length data s

/-- `rpc_marshall_ulong_int`. -/
def ulongInt (n : ℕ) : List UInt8 := (List.range 4).map fun i => UInt8.ofNat (n / 256 ^ i)

/-- A string in an array, as `rpc_ss_ndr_marsh_by_looping` marshals it: `count` elements
with the bytes `data`. -/
def marshString (count : ℕ) (data : List UInt8) (s : Msp) : Option Msp := do
  let s := marshCheckBuffer E 8 (marshAlignMp E 4 s)
  let s ← put (ulongInt 0) s
  let s ← put (ulongInt count) s
  marshByCopying E data s

/-- `rpc_ss_ndr_marsh_by_pointing`. -/
def marshByPointing (data : List UInt8) (atOnce : Bool) (s : Msp) : Msp :=
  let s :=
    if s.buffAddr.isSome then
      let s :=
        if s.stackPacketStatus = .inUse ∧ 8 ≤ s.leftInBuff then
          { s with stackPacketStatus := .partUsed }
        else s
      let s := xmitIovecIfNecess E false (attachBuffToIovec s)
      { s with leftInBuff := 0, mpStartOffset := addr E.base s.mp % 8 }
    else s
  let s := xmitIovecIfNecess E atOnce { s with iovec := s.iovec ++ [.user data] }
  { s with mpStartOffset := (s.mpStartOffset + data.length) % 8 }

/-- A marshalling step. -/
inductive MarshOp
  | scalar (size : ScalarSize) (data : List UInt8) (h : data.length = size.bytes)
  | align (size : ScalarSize)
  | string (count : ℕ) (data : List UInt8)
  | copy (data : List UInt8)
  | point (data : List UInt8) (atOnce : Bool)

def marshStep (s : Msp) : MarshOp → Option Msp
  | .scalar size data _ => marshScalar E size data s
  | .align size => some (marshAlignMp E size.bytes s)
  | .string count data => marshString E count data s
  | .copy data => marshByCopying E data s
  | .point data atOnce => some (marshByPointing E data atOnce s)

/-- The state after `rpc_ss_init_marsh_state`, and the stub's own settings. -/
def Msp.start (mem : Mem) : Msp :=
  { mem, stackPacketStatus := if E.hasStackPacket then .unused else .used }

/-- The end of `rpc_ss_ndr_marsh_interp`. -/
def marshFinish (s : Msp) : Msp := if s.buffAddr.isSome then attachBuffToIovec s else s

/-- The bytes that the transport is handed: those transmitted, and those of the vector. -/
def handed (s : Msp) : List UInt8 := s.transmitted ++ iovecBytes s

end Idl
