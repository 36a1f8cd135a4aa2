/-
The data storage manager (dsm.c, dsm_p.h).

A data store is a list of chunks, each full of blocks: a preheader and user data.  In memory
a chunk is a piece of storage of its own, in the file it lies at its location.  A pointer to
a block is a chunk and an offset.

`mem` holds the preheaders, `data` the user data.  All that is written to the file is put
down in `log`, one entry for each write.  Memory is never short, and no I/O fails.
-/
import Mathlib

namespace Dsm

/-! ### Storage -/

def pageSize : ℕ := 1024
def preheader : ℕ := 24
/-- `UNIT`: the first so many bytes of a block are within a page. -/
def unitSize : ℕ := 64
def minblock : ℕ := preheader + 8
def growPages : ℕ := 5
def hdrCookie : UInt8 := 0xA5
def dsmHdrSize : ℕ := 48

/-- Arithmetic on `unsigned int`. -/
def u32 (n : ℕ) : ℕ := n % 2 ^ 32

def sub32 (n m : ℕ) : ℕ := u32 (n + 2 ^ 32 - m)

def roundUp (n po2 : ℕ) : ℕ := u32 (n + (po2 - 1)) / po2 * po2

def roundDown (n po2 : ℕ) : ℕ := n / po2 * po2

structure Ptr where
  chunk : ℕ
  off : ℕ
deriving DecidableEq

def Ptr.add (p : Ptr) (n : ℕ) : Ptr := { p with off := p.off + n }

/-- `block_t`, without the link of the free list and the data. -/
structure Block where
  size : ℕ := 0
  loc : ℕ := 0
  isfree : Bool := false
  cookie : UInt8 := 0

/-- `file_map_t`; the first block of the chunk with number `c` is at `⟨c, 0⟩`. -/
structure FileMap where
  loc : ℕ
  size : ℕ

/-- A write to the file: a block with its first bytes of data, or the page count in the
file header. -/
inductive IoWrite
  | block (loc : ℕ) (hdr : Block) (data : List UInt8)
  | fileHeader (pages : ℕ)

/-- `dsm_db_t`; `fd` says whether there is a file. -/
structure Store where
  fd : Bool
  freelist : List Ptr
  map : List FileMap
  pages : ℕ
  pending : ℕ
  mem : Ptr → Block
  data : Ptr → UInt8
  log : List IoWrite

/-- `dsm_create`. -/
def Store.create (fd : Bool) : Store where
  fd := fd
  freelist := []
  map := []
  pages := 0
  pending := 0
  mem := fun _ => {}
  data := fun _ => 0
  log := if fd then [.fileHeader 0] else []

variable (s : Store)

def Store.set (p : Ptr) (f : Block → Block) : Store :=
  { s with mem := Function.update s.mem p (f (s.mem p)) }

/-- User data behind a preheader. -/
def Store.userData (p : Ptr) (n : ℕ) : List UInt8 :=
  (List.range n).map fun i => s.data (p.add (preheader + i))

/-- A write, if there is a file. -/
def Store.write (io : IoWrite) : Store := if s.fd then { s with log := s.log ++ [io] } else s

def writeHeader (p : Ptr) : Store := s.write (.block (s.mem p).loc (s.mem p) [])

/-- `write_block`, with the number of bytes behind the preheader. -/
def writeBlock (p : Ptr) (n : ℕ) : Store :=
  s.write (.block (s.mem p).loc (s.mem p) (s.userData p n))

def updateFileHeader : Store := s.write (.fileHeader s.pages)

/-! ### The free list -/

/-- `get_free_block`: the first block that is large enough, taken off the list. -/
def getFreeBlock (minSize : ℕ) : Option (Ptr × Store) :=
  match s.freelist.find? fun p => minSize ≤ (s.mem p).size with
  | none => none
  | some p =>
    some (p, { s with freelist := s.freelist.eraseP fun p => minSize ≤ (s.mem p).size })

/-- `free_block`: in front of the first block that is not smaller. -/
def freeBlock (p : Ptr) : Store :=
  { s with freelist := s.freelist.orderedInsert (fun p q => (s.mem p).size ≤ (s.mem q).size) p }

def makeFree (p : Ptr) : Store :=
  freeBlock (writeHeader (s.set p fun b => { b with isfree := true, cookie := 0 }) p) p

/-! ### Growth -/

/-- The pages and the bytes by which the store grows. -/
def pagesFor (minSize : ℕ) : ℕ := max (roundUp minSize pageSize / pageSize) growPages

def growBytes (minSize : ℕ) : ℕ := u32 (pagesFor minSize * pageSize)

/-- `grow_file`. -/
def growFile (minSize : ℕ) : Store × Ptr :=
  let bytes := growBytes minSize
  let flen := (s.pages + 1) * pageSize
  let c := s.map.length
  let hdr : Block := { size := sub32 bytes preheader, loc := flen, isfree := true }
  let s := { s with
    mem := fun p => if p.chunk = c then if p.off = 0 then hdr else {} else s.mem p
    data := fun p => if p.chunk = c then 0 else s.data p
    map := s.map ++ [FileMap.mk flen bytes] }
  let s := s.write (.block flen hdr (List.replicate (bytes - preheader) 0))
  (updateFileHeader { s with pages := s.pages + pagesFor minSize }, ⟨c, 0⟩)

/-! ### Coalescing -/

/-- The loop of `coalesce` through a chunk of `mapSize` bytes, from a block on. -/
def coalesceChunk (mapSize : ℕ) : ℕ → Store → Ptr → Store
  | 0, s, _ => s
  | n + 1, s, this =>
    let next := this.add ((s.mem this).size + preheader)
    if mapSize ≤ u32 next.off then if (s.mem this).isfree then freeBlock s this else s
    else if (s.mem this).isfree && (s.mem next).isfree then
      let s := s.set this fun b => { b with size := u32 (b.size + (s.mem next).size + preheader) }
      coalesceChunk mapSize n (writeHeader s this) this
    else coalesceChunk mapSize n (if (s.mem this).isfree then freeBlock s this else s) next

/-- The loop over the chunks, from the one with number `c` on. -/
def coalesceMaps : ℕ → List FileMap → Store → Store
  | _, [], s => s
  | c, map :: maps, s => coalesceMaps (c + 1) maps (coalesceChunk map.size map.size s ⟨c, 0⟩)

def coalesce : Store :=
  if 0 < s.pending then s else coalesceMaps 0 s.map { s with freelist := [] }

/-! ### Operations on blocks -/

inductive Status
  | ok
  | invalidPointer
  | duplicateWrite
  | headerTooLong
deriving DecidableEq

/-- The block that `dsm_allocate` starts from: a free one, one after coalescing, or a new
chunk. -/
def findBlock (usrSize : ℕ) : Store × Ptr :=
  match getFreeBlock s usrSize with
  | some (p, s) => (s, p)
  | none =>
    let s := coalesce s
    match getFreeBlock s usrSize with
    | some (p, s) => (s, p)
    | none => growFile s usrSize

/-- What is left of a block that is much too large becomes a free block. -/
def splitBlock (p : Ptr) (usrSize : ℕ) : Store :=
  if minblock ≤ sub32 (s.mem p).size usrSize then
    let fp := p.add (preheader + usrSize)
    let loc := u32 ((s.mem p).loc + preheader + usrSize)
    let size := sub32 (s.mem p).size (preheader + usrSize)
    let s := s.set fp fun b => { b with loc := loc }
    if unitSize ≤ sub32 (roundUp loc pageSize) loc then
      let s := makeFree (s.set fp fun b => { b with size := size }) fp
      writeHeader (s.set p fun b => { b with size := usrSize }) p
    else s
  else s

/-- `dsm_allocate`. -/
def dsmAllocate (usrSize : ℕ) : Store × Ptr :=
  let usrSize := roundUp usrSize 8
  let (s, p) := findBlock s usrSize
  let s := (splitBlock s p usrSize).set p fun b => { b with cookie := hdrCookie }
  (if s.fd then { s with pending := s.pending + 1 } else s.set p fun b => { b with isfree := false }, p)

/-- `block_from_ptr`. -/
def blockFromPtr (p : Ptr) : Bool := (s.mem p).cookie = hdrCookie

/-- The count of pending blocks goes down; `none` if the assertion fails. -/
def lessPending : Option Store :=
  if 0 < s.pending then some { s with pending := s.pending - 1 } else none

/-- `dsm_free`; `none` here and below if an assertion fails. -/
def dsmFree (p : Ptr) : Option (Store × Status) :=
  if ¬ blockFromPtr s p then some (s, .invalidPointer)
  else do
    let s ← if (s.mem p).isfree then lessPending s else some s
    some (makeFree s p, .ok)

/-- `dsm_detach`. -/
def dsmDetach (p : Ptr) : Option (Store × Status) :=
  if ¬ blockFromPtr s p then some (s, .invalidPointer)
  else if ¬ (s.mem p).isfree then
    let s := writeHeader (s.set p fun b => { b with isfree := true }) p
    some ({ s with pending := s.pending + 1 }, .ok)
  else some (s, .ok)

/-- The pages of the first and of the last byte of a block are the same. -/
def onOnePage (b : Block) : Bool :=
  roundDown b.loc pageSize = roundDown (u32 (b.loc + b.size + preheader - 1)) pageSize

/-- `dsm_write`. -/
def dsmWrite (p : Ptr) : Option (Store × Status) :=
  if ¬ blockFromPtr s p then some (s, .invalidPointer)
  else if ¬ (s.mem p).isfree then some (s, .duplicateWrite)
  else do
    let size := (s.mem p).size
    let written :=
      if s.fd then
        if onOnePage (s.mem p) then writeBlock (s.set p fun b => { b with isfree := false }) p size
        else writeHeader ((writeBlock s p size).set p fun b => { b with isfree := false }) p
      else s
    some (← lessPending written, .ok)

/-- `dsm_write_hdr`. -/
def dsmWriteHdr (p : Ptr) (size : ℕ) : Option (Store × Status) :=
  if ¬ blockFromPtr s p then some (s, .invalidPointer)
  else if dsmHdrSize < size then some (s, .headerTooLong)
  else do
    let s ← if (s.mem p).isfree then lessPending s else some s
    some (writeBlock (s.set p fun b => { b with isfree := false }) p size, .ok)

/-! ### Opening -/

/-- The loop of `build_freelist` through a chunk. -/
def buildFreelistChunk (mapSize : ℕ) : ℕ → Store → Ptr → Store
  | 0, s, _ => s
  | n + 1, s, this =>
    let s := if (s.mem this).isfree then freeBlock s this else s
    let next := this.add ((s.mem this).size + preheader)
    if mapSize ≤ u32 next.off then s else buildFreelistChunk mapSize n s next

/-- The contents of a file: the page count, the preheaders and the user data, by location. -/
structure File where
  pages : ℕ
  hdr : ℕ → Block
  byte : ℕ → UInt8

/-- `dsm_open`: all pages become one chunk. -/
def dsmOpen (file : File) : Store :=
  let s : Store := {
    fd := true
    freelist := []
    map := if 0 < file.pages then [⟨pageSize, file.pages * pageSize⟩] else []
    pages := file.pages
    pending := 0
    mem := fun p => file.hdr (pageSize + p.off)
    data := fun p => file.byte (pageSize + p.off)
    log := [] }
  if 0 < file.pages then
    buildFreelistChunk (file.pages * pageSize) (file.pages * pageSize) s ⟨0, 0⟩
  else s

end Dsm
