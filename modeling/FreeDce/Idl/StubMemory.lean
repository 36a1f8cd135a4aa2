/-
Memory that stubs allocate (allocate.c).

Each handle has a doubly linked list of blocks.  A block is a header, a gap whose last bytes hold
the address of the block, and the data.  Only the first block of a list names its handle.

* `enter_spec`, `unlink_spec`, `first_spec`, `memFreeLoop_spec` — the operations on the lists;
* `memory_lists_kept` — runs in which no size wraps.
-/
import FreeDce.Lib.DoublyLinked
import FreeDce.Lib.Runs

namespace Idl

namespace StubMem

open Pointers

/-! ### Blocks -/

/-- The sizes of the types are those of a 32 or of a 64 bit machine. -/
inductive Target
  | ilp32
  | lp64
deriving DecidableEq

def Target.pointer : Target → ℕ
  | .ilp32 => 4
  | .lp64 => 8

/-- One more than the greatest `size_t`. -/
def Target.wordSize : Target → ℕ
  | .ilp32 => 2 ^ 32
  | .lp64 => 2 ^ 64

/-- `sizeof(header)`. -/
def Target.header (t : Target) : ℕ := 3 * t.pointer

/-- `GAP`; behind the pointer of `ptr_and_long` the number is padded to the size of another one. -/
def Target.gap (t : Target) : ℕ := (2 * t.pointer + 7) / 8 * 8

/-- `sizeof(header) + GAP + 7 + bytes`. -/
def Target.mallocSize (t : Target) (bytes : ℕ) : ℕ := (t.header + t.gap + 7 + bytes) % t.wordSize

def Target.dataAddr (t : Target) (new : ℕ) : ℕ := (new + t.header + t.gap + 7) % t.wordSize / 8 * 8

structure Header where
  head : ℕ
  next : Option ℕ
  prev : Option ℕ

/-- What `malloc` has given and `free` has not taken back. -/
structure Chunk where
  base : ℕ
  size : ℕ
deriving DecidableEq

/-- The `memory` of the handles, the headers by their addresses, and the addresses of blocks stored
in front of the data. -/
structure Heap where
  memory : ℕ → Option ℕ
  header : ℕ → Header
  buffer : ℕ → ℕ
  chunks : List Chunk

/-- So many bytes are in a chunk. -/
def Heap.Inside (s : Heap) (a n : ℕ) : Prop :=
  ∃ c ∈ s.chunks, c.base ≤ a ∧ a + n ≤ c.base + c.size

instance (s : Heap) (a n : ℕ) : Decidable (s.Inside a n) :=
  inferInstanceAs (Decidable (∃ c ∈ s.chunks, _))

def Heap.readHeader (t : Target) (s : Heap) (b : ℕ) : Option Header :=
  if s.Inside b t.header then some (s.header b) else none

def Heap.setHeader (t : Target) (s : Heap) (b : ℕ) (f : Header → Header) : Option Heap :=
  if s.Inside b t.header then
    some { s with header := Function.update s.header b (f (s.header b)) }
  else none

/-- The header is written if there is one. -/
def Heap.setIf (t : Target) (s : Heap) (o : Option ℕ) (f : Header → Header) : Option Heap :=
  match o with
  | some b => s.setHeader t b f
  | none => some s

def Heap.readBuffer (t : Target) (s : Heap) (a : ℕ) : Option ℕ :=
  if s.Inside a t.pointer then some (s.buffer a) else none

def Heap.setBuffer (t : Target) (s : Heap) (a b : ℕ) : Option Heap :=
  if s.Inside a t.pointer then some { s with buffer := Function.update s.buffer a b } else none

def Heap.free (s : Heap) (b : ℕ) : Option Heap :=
  if ∃ c ∈ s.chunks, c.base = b then
    some { s with chunks := s.chunks.filter fun c => c.base ≠ b }
  else none

def Heap.next (s : Heap) (b : ℕ) : Option ℕ := (s.header b).next

def Heap.prev (s : Heap) (b : ℕ) : Option ℕ := (s.header b).prev

/-! ### The routines -/

/-- A block from `malloc` comes first on the list of the handle. -/
def Heap.enter (t : Target) (s : Heap) (handle bytes new : ℕ) : Option (Heap × ℕ) := do
  let s := { s with chunks := ⟨new, t.mallocSize bytes⟩ :: s.chunks }
  let s ← s.setIf t (s.memory handle) fun x => { x with prev := some new }
  let s ← s.setHeader t new fun _ => ⟨handle, s.memory handle, none⟩
  let s := { s with memory := Function.update s.memory handle (some new) }
  let s ← s.setBuffer t (t.dataAddr new - t.gap) new
  some (s, t.dataAddr new)

inductive Exn
  | noMemory
deriving DecidableEq

/-- `rpc_ss_mem_alloc`, with the answer of `malloc`. -/
def rpcSsMemAlloc (t : Target) (s : Heap) (handle bytes : ℕ) (malloc : Option ℕ) :
    Option (Heap × Except Exn ℕ) :=
  match malloc with
  | none => some (s, .error .noMemory)
  | some new => (s.enter t handle bytes new).map fun r => (r.1, .ok r.2)

inductive Status
  | ok
  | noMemory
deriving DecidableEq

/-- `rpc_sm_mem_alloc`, with the answer of `malloc`. -/
def rpcSmMemAlloc (t : Target) (s : Heap) (handle bytes : ℕ) (malloc : Option ℕ) :
    Option (Heap × Option ℕ × Status) :=
  match malloc with
  | none => some (s, none, .noMemory)
  | some new => (s.enter t handle bytes new).map fun r => (r.1, some r.2, .ok)

/-- The loop of `rpc_ss_mem_free`, with so many turns at most. -/
def memFreeLoop (t : Target) (handle : ℕ) : ℕ → Heap → Option Heap
  | 0, _ => none
  | n + 1, s =>
    match s.memory handle with
    | none => some s
    | some tmp => do
      let x ← s.readHeader t tmp
      let s ← ({ s with memory := Function.update s.memory handle x.next } : Heap).free tmp
      memFreeLoop t handle n s

def rpcSsMemFree (t : Target) (s : Heap) (handle : ℕ) : Option Heap :=
  memFreeLoop t handle (s.chunks.length + 1) s

/-- A block is taken from its list.  The new first block is given the handle. -/
def Heap.unlink (t : Target) (s : Heap) (handle this : ℕ) : Option Heap := do
  let x ← s.readHeader t this
  let s ← s.setIf t x.next fun y => { y with prev := x.prev }
  match x.prev with
  | some p => s.setHeader t p fun y => { y with next := x.next }
  | none =>
    let s := { s with memory := Function.update s.memory handle x.next }
    s.setIf t x.next fun y => { y with head := handle }

def rpcSsMemRelease (t : Target) (s : Heap) (handle data : ℕ) (freeit : Bool) : Option Heap := do
  let this ← s.readBuffer t (data - t.gap)
  let s ← s.unlink t handle this
  if freeit then s.free this else some s

def rpcSsMemItemFree (t : Target) (s : Heap) (handle data : ℕ) : Option Heap := do
  let this ← s.readBuffer t (data - t.gap)
  let s ← s.unlink t handle this
  s.free this

/-- The first block of a list, found with so many steps at most. -/
def Heap.first (t : Target) (s : Heap) : ℕ → ℕ → Option ℕ
  | 0, _ => none
  | n + 1, b => do
    let x ← s.readHeader t b
    match x.prev with
    | some p => s.first t n p
    | none => some b

def rpcSsMemDealloc (t : Target) (s : Heap) (data : ℕ) : Option Heap := do
  let tmp ← s.readBuffer t (data - t.gap)
  let first ← s.first t (s.chunks.length + 1) tmp
  let x ← s.readHeader t first
  rpcSsMemRelease t s x.head data true

/-! ### Blocks that are held -/

/-- A block for a handle, with the data address that was returned. -/
structure Block where
  handle : ℕ
  base : ℕ
  bytes : ℕ
  data : ℕ
deriving DecidableEq

/-- The heap, the blocks allocated and not released, the newest first, and those released without
freeing. -/
structure State where
  heap : Heap
  held : List Block
  kept : List Block

def State.start : State := ⟨⟨fun _ => none, fun _ => ⟨0, none, none⟩, fun _ => 0, []⟩, [], []⟩

def State.listOf (s : State) (handle : ℕ) : List ℕ :=
  (s.held.filter fun x => x.handle = handle).map Block.base

inductive Event
  | ssAlloc (handle : ℕ) (bytes : UInt32) (malloc : Option ℕ)
  | smAlloc (handle : ℕ) (bytes : UInt32) (malloc : Option ℕ)
  | release (handle data : ℕ) (freeit : Bool)
  | itemFree (handle data : ℕ)
  | dealloc (data : ℕ)
  | free (handle : ℕ)

/-- A data address has been returned, or none. -/
def State.allocated (s : State) (heap : Heap) (handle bytes : ℕ) (malloc data : Option ℕ) : State :=
  match malloc, data with
  | some new, some d => { s with heap := heap, held := ⟨handle, new, bytes, d⟩ :: s.held }
  | _, _ => { s with heap := heap }

/-- The block with this data is no longer held. -/
def State.released (s : State) (heap : Heap) (data : ℕ) (freed : Bool) : State where
  heap := heap
  held := s.held.filter fun x => x.data ≠ data
  kept := if freed then s.kept else (s.held.filter fun x => x.data = data) ++ s.kept

def step (t : Target) (s : State) : Event → Option State
  | .ssAlloc handle bytes malloc =>
    (rpcSsMemAlloc t s.heap handle bytes.toNat malloc).map fun r =>
      s.allocated r.1 handle bytes.toNat malloc r.2.toOption
  | .smAlloc handle bytes malloc =>
    (rpcSmMemAlloc t s.heap handle bytes.toNat malloc).map fun r =>
      s.allocated r.1 handle bytes.toNat malloc r.2.1
  | .release handle data freeit =>
    (rpcSsMemRelease t s.heap handle data freeit).map fun heap => s.released heap data freeit
  | .itemFree handle data =>
    (rpcSsMemItemFree t s.heap handle data).map fun heap => s.released heap data true
  | .dealloc data => (rpcSsMemDealloc t s.heap data).map fun heap => s.released heap data true
  | .free handle =>
    (rpcSsMemFree t s.heap handle).map fun heap =>
      { s with heap := heap, held := s.held.filter fun x => x.handle ≠ handle }

/-- `malloc` gives a chunk apart from the others, or nothing. -/
def MallocOk (t : Target) (s : Heap) (bytes : ℕ) (malloc : Option ℕ) : Prop :=
  ∀ new ∈ malloc, 0 < new ∧ new + t.mallocSize bytes < t.wordSize ∧
    ∀ c ∈ s.chunks, new + t.mallocSize bytes ≤ c.base ∨ c.base + c.size ≤ new

/-- The size does not wrap. -/
def Fits (t : Target) (bytes : ℕ) : Prop := t.header + t.gap + 7 + bytes < t.wordSize

instance (t : Target) (s : Heap) (bytes : ℕ) (malloc : Option ℕ) :
    Decidable (MallocOk t s bytes malloc) :=
  inferInstanceAs (Decidable (∀ new ∈ malloc, _))

instance (t : Target) (bytes : ℕ) : Decidable (Fits t bytes) :=
  inferInstanceAs (Decidable (_ < _))

/-- Sizes do not wrap, and only what is held is released. -/
def Allowed (t : Target) (s : State) : Event → Prop
  | .ssAlloc _ bytes malloc | .smAlloc _ bytes malloc =>
    Fits t bytes.toNat ∧ MallocOk t s.heap bytes.toNat malloc
  | .release handle data _ | .itemFree handle data =>
    ∃ x ∈ s.held, x.handle = handle ∧ x.data = data
  | .dealloc data => ∃ x ∈ s.held, x.data = data
  | .free _ => True

instance (t : Target) (s : State) : ∀ e, Decidable (Allowed t s e)
  | .ssAlloc _ _ _ | .smAlloc _ _ _ => inferInstanceAs (Decidable (_ ∧ _))
  | .release _ _ _ | .itemFree _ _ | .dealloc _ => inferInstanceAs (Decidable (∃ x ∈ s.held, _))
  | .free _ => isTrue trivial

/-- Header, back pointer and data follow each other in the chunk. -/
structure Layout (t : Target) (x : Block) : Prop where
  aligned : 8 ∣ x.data
  header : x.base + t.header ≤ x.data - t.gap
  buffer : x.data - t.gap + t.pointer ≤ x.data
  data : x.data + x.bytes ≤ x.base + t.mallocSize x.bytes
  space : x.base + t.mallocSize x.bytes < t.wordSize

/-- The chunks of two blocks. -/
def Apart (t : Target) (x y : Block) : Prop :=
  x.base + t.mallocSize x.bytes ≤ y.base ∨ y.base + t.mallocSize y.bytes ≤ x.base

structure Shape (t : Target) (s : State) : Prop where
  linked : ∀ h, Linked s.heap.next s.heap.prev none (s.listOf h) none
  memory : ∀ h, s.heap.memory h = (s.listOf h).head?
  owner : ∀ h b, (s.listOf h).head? = some b → (s.heap.header b).head = h
  buffer : ∀ x ∈ s.held, s.heap.buffer (x.data - t.gap) = x.base
  chunks : ∀ c, c ∈ s.heap.chunks ↔
    ∃ x ∈ s.held ++ s.kept, c = ⟨x.base, t.mallocSize x.bytes⟩
  layout : ∀ x ∈ s.held ++ s.kept, Layout t x
  apart : (s.held ++ s.kept).Pairwise (Apart t)

/-! ### The operations -/

variable {t : Target} {s s' : Heap} {handle bytes new b z : ℕ} {l l₁ l₂ : List ℕ}
  {g : ℕ → Header} {f : Header → Header} {o : Option ℕ}

/-- The headers with one of them changed. -/
def changeAt (g : ℕ → Header) (o : Option ℕ) (f : Header → Header) (z : ℕ) : Header :=
  if o = some z then f (g z) else g z

theorem changeAt_pos (h : o = some z) : changeAt g o f z = f (g z) := if_pos h

theorem changeAt_neg (h : o ≠ some z) : changeAt g o f z = g z := if_neg h

theorem changeAt_proj {α : Type} (π : Header → α) (hf : ∀ x, π (f x) = π x) :
    π (changeAt g o f z) = π (g z) := by
  rw [changeAt]
  split
  · exact hf (g z)
  · rfl

theorem setHeader_eq (h : s.Inside b t.header) :
    s.setHeader t b f = some { s with header := changeAt s.header (some b) f } := by
  have hupdate : Function.update s.header b (f (s.header b)) = changeAt s.header (some b) f := by
    funext z
    rw [Function.update_apply]
    by_cases hz : z = b
    · rw [if_pos hz, changeAt_pos (congrArg some hz.symm), hz]
    · rw [if_neg hz, changeAt_neg fun hs => hz (Option.some_inj.mp hs).symm]
  rw [Heap.setHeader, if_pos h, hupdate]

theorem setIf_eq (h : ∀ b, o = some b → s.Inside b t.header) :
    s.setIf t o f = some { s with header := changeAt s.header o f } := by
  cases o with
  | none => rfl
  | some b => exact setHeader_eq (h b rfl)

/-- The list of the handle with a new first block. -/
theorem enter_spec (hlinked : Linked s.next s.prev none l none)
    (hmemory : s.memory handle = l.head?) (hlive : ∀ z ∈ l, s.Inside z t.header) (hnew : new ∉ l)
    (hnodup : l.Nodup) (hheader : t.header ≤ t.mallocSize bytes)
    (hbuffer : new ≤ t.dataAddr new - t.gap ∧
      t.dataAddr new - t.gap + t.pointer ≤ new + t.mallocSize bytes) :
    ∃ s', s.enter t handle bytes new = some (s', t.dataAddr new) ∧
      s'.chunks = ⟨new, t.mallocSize bytes⟩ :: s.chunks ∧
      s'.buffer = Function.update s.buffer (t.dataAddr new - t.gap) new ∧
      s'.memory = Function.update s.memory handle (some new) ∧
      (∀ z, z ≠ new → l.head? ≠ some z → s'.header z = s.header z) ∧
      Linked s'.next s'.prev none (new :: l) none ∧ (s'.header new).head = handle := by
  -- the heap after each of the writes
  let s₁ : Heap := { s with chunks := ⟨new, t.mallocSize bytes⟩ :: s.chunks }
  have hself : ∀ a n, new ≤ a → a + n ≤ new + t.mallocSize bytes → s₁.Inside a n :=
    fun a n h₁ h₂ => ⟨_, List.mem_cons_self, h₁, h₂⟩
  have hfirst : ∀ z, s₁.memory handle = some z → s₁.Inside z t.header := by
    intro z hz
    obtain ⟨c, hc, hin⟩ := hlive z (List.mem_of_mem_head? (hmemory ▸ hz))
    exact ⟨c, List.mem_cons_of_mem _ hc, hin⟩
  let s₂ : Heap := { s₁ with
    header := changeAt s.header (s.memory handle) fun x => { x with prev := some new } }
  have hset₁ : s₁.setIf t (s.memory handle) _ = some s₂ := setIf_eq hfirst
  let s₃ : Heap := { s₂ with
    header := changeAt s₂.header (some new) fun _ => ⟨handle, s.memory handle, none⟩ }
  have hset₂ : s₂.setHeader t new _ = some s₃ := setHeader_eq (hself new t.header le_rfl (by omega))
  let s₄ : Heap := { s₃ with
    memory := Function.update s.memory handle (some new)
    buffer := Function.update s.buffer (t.dataAddr new - t.gap) new }
  have hset₃ : ({ s₃ with memory := Function.update s.memory handle (some new) } : Heap).setBuffer t
      (t.dataAddr new - t.gap) new = some s₄ := if_pos (hself _ _ hbuffer.1 hbuffer.2)
  have hrun : s.enter t handle bytes new = some (s₄, t.dataAddr new) := by
    show (s₁.setIf t (s.memory handle) _).bind _ = _
    rw [hset₁, Option.bind_some]
    show (s₂.setHeader t new _).bind _ = _
    rw [hset₂, Option.bind_some]
    show (Heap.setBuffer t _ _ _).bind _ = _
    rw [hset₃, Option.bind_some]
  have hheader₄ : s₄.header =
      changeAt s₂.header (some new) fun _ => ⟨handle, s.memory handle, none⟩ := rfl
  have hne : ∀ z, z ≠ new → s₄.header z =
      changeAt s.header (s.memory handle) (fun x => { x with prev := some new }) z := by
    intro z hz
    rw [hheader₄, changeAt_neg fun h => hz (Option.some_inj.mp h).symm]
  have heq : s₄.header new = ⟨handle, s.memory handle, none⟩ := by
    rw [hheader₄, changeAt_pos rfl]
  have hmem : ∀ z ∈ l, z ≠ new := fun z hz h => hnew (h ▸ hz)
  refine ⟨s₄, hrun, rfl, rfl, rfl, ?_, ⟨⟨?_, ?_⟩, ?_⟩, ?_⟩
  · intro z hz hne'
    rw [hne z hz, hmemory, changeAt_neg hne']
  · exact congrArg Header.prev heq
  · rw [Heap.next, heq, hmemory, Option.or_none]
  · -- behind the new block only the predecessor of the first one changes
    refine hlinked.setPrev ?_ ?_ ?_
    · intro z hz
      rw [Heap.next, hne z (hmem z hz)]
      exact changeAt_proj Header.next fun _ => rfl
    · intro z hz
      rw [Heap.prev, hne z (hmem z (List.mem_of_mem_tail hz)), hmemory, changeAt_neg]
      · rfl
      · intro hz'
        cases l with
        | nil => cases hz'
        | cons f l =>
          obtain rfl := Option.some_inj.mp hz'
          exact (List.nodup_cons.mp hnodup).1 hz
    · intro z hz
      rw [Heap.prev, hne z (hmem z (List.mem_of_mem_head? hz)), changeAt_pos (hmemory.trans hz)]
  · exact congrArg Header.head heq

/-- A block leaves the list of its handle. -/
theorem unlink_spec (hlinked : Linked s.next s.prev none (l₁ ++ b :: l₂) none)
    (hlive : ∀ z ∈ l₁ ++ b :: l₂, s.Inside z t.header) (hnodup : (l₁ ++ b :: l₂).Nodup)
    (hmemory : s.memory handle = (l₁ ++ b :: l₂).head?)
    (howner : ∀ z, (l₁ ++ b :: l₂).head? = some z → (s.header z).head = handle) :
    ∃ s', s.unlink t handle b = some s' ∧ s'.chunks = s.chunks ∧ s'.buffer = s.buffer ∧
      s'.memory = Function.update s.memory handle (l₁ ++ l₂).head? ∧
      (∀ z, l₁.getLast? ≠ some z → l₂.head? ≠ some z → s'.header z = s.header z) ∧
      Linked s'.next s'.prev none (l₁ ++ l₂) none ∧
      ∀ z, (l₁ ++ l₂).head? = some z → (s'.header z).head = handle := by
  obtain ⟨hprev, hnext, -, -⟩ := hlinked.middle
  have hprev' : (s.header b).prev = l₁.getLast? := hprev
  have hnext' : (s.header b).next = l₂.head? := hnext
  have hread : s.readHeader t b = some (s.header b) :=
    if_pos (hlive b (List.mem_append_right _ List.mem_cons_self))
  have hlive₂ : ∀ z, l₂.head? = some z → s.Inside z t.header := fun z hz =>
    hlive z (List.mem_append_right _ (List.mem_cons_of_mem _ (List.mem_of_mem_head? hz)))
  let s₁ : Heap := { s with
    header := changeAt s.header l₂.head? fun y => { y with prev := l₁.getLast? } }
  have hset₁ : s.setIf t l₂.head? _ = some s₁ := setIf_eq hlive₂
  have hheader₁ : s₁.header = changeAt s.header l₂.head? fun y => { y with prev := l₁.getLast? } :=
    rfl
  have hprev₁ : ∀ z, l₂.head? = some z → (s₁.header z).prev = l₁.getLast? := fun z hz =>
    congrArg Header.prev (changeAt_pos hz)
  have hother₁ : ∀ z, l₂.head? ≠ some z → s₁.header z = s.header z := by
    intro z hz
    rw [hheader₁, changeAt_neg hz]
  have hnext₁ : ∀ z, (s₁.header z).next = s.next z := fun z =>
    changeAt_proj Header.next fun _ => rfl
  have hhead₁ : ∀ z, (s₁.header z).head = (s.header z).head := fun z =>
    changeAt_proj Header.head fun _ => rfl
  have hrun : s.unlink t handle b = match l₁.getLast? with
      | some p => s₁.setHeader t p fun y => { y with next := l₂.head? }
      | none => ({ s₁ with memory := Function.update s.memory handle l₂.head? } : Heap).setIf t
          l₂.head? fun y => { y with head := handle } := by
    rw [Heap.unlink, hread, Option.bind_eq_bind, Option.bind_some, hprev', hnext', hset₁]
    rfl
  rcases List.eq_nil_or_concat' l₁ with rfl | ⟨l, p, rfl⟩
  · -- the first block of the list
    let s₂ : Heap := { s₁ with
      memory := Function.update s.memory handle l₂.head?
      header := changeAt s₁.header l₂.head? fun y => { y with head := handle } }
    have hset₂ : s.unlink t handle b = some s₂ := hrun.trans (setIf_eq hlive₂)
    have hheader₂ :
        s₂.header = changeAt s₁.header l₂.head? fun y => { y with head := handle } := rfl
    have hprev₂ : ∀ z, (s₂.header z).prev = (s₁.header z).prev := fun z =>
      changeAt_proj Header.prev fun _ => rfl
    have hnext₂ : ∀ z, (s₂.header z).next = (s₁.header z).next := fun z =>
      changeAt_proj Header.next fun _ => rfl
    refine ⟨s₂, hset₂, rfl, rfl, rfl, ?_, ?_, ?_⟩
    · intro z _ hz
      rw [hheader₂, changeAt_neg hz, hother₁ z hz]
    · refine hlinked.erase hnodup ?_ ?_ ?_ ?_
      · exact fun z hz => by cases hz
      · exact fun z hz => (hprev₂ z).trans (hprev₁ z hz)
      · exact fun z _ => (hnext₂ z).trans (hnext₁ z)
      · exact fun z hz => (hprev₂ z).trans (congrArg Header.prev (hother₁ z hz))
    · exact fun z hz => congrArg Header.head (changeAt_pos hz)
  · -- a block in front of it is led past it
    have hp : s₁.Inside p t.header :=
      hlive p (List.mem_append_left _ (List.mem_append_right _ List.mem_cons_self))
    let s₂ : Heap := { s₁ with
      header := changeAt s₁.header (some p) fun y => { y with next := l₂.head? } }
    rw [List.getLast?_concat] at hrun
    have hset₂ : s.unlink t handle b = some s₂ := hrun.trans (setHeader_eq hp)
    have hheader₂ : s₂.header = changeAt s₁.header (some p) fun y => { y with next := l₂.head? } :=
      rfl
    have hhead : (l ++ [p] ++ l₂).head? = (l ++ [p] ++ b :: l₂).head? := by
      cases l with
      | nil => rfl
      | cons a l => rfl
    have hprev₂ : ∀ z, (s₂.header z).prev = (s₁.header z).prev := fun z =>
      changeAt_proj Header.prev fun _ => rfl
    refine ⟨s₂, hset₂, rfl, rfl, ?_, ?_, ?_, ?_⟩
    · rw [hhead, ← hmemory, Function.update_eq_self]
    · intro z hz hz₂
      rw [List.getLast?_concat] at hz
      rw [hheader₂, changeAt_neg hz, hother₁ z hz₂]
    · refine hlinked.erase hnodup ?_ ?_ ?_ ?_
      · intro z hz
        rw [List.getLast?_concat] at hz
        exact congrArg Header.next (changeAt_pos hz)
      · exact fun z hz => (hprev₂ z).trans (hprev₁ z hz)
      · intro z hz
        rw [List.getLast?_concat] at hz
        exact (congrArg Header.next (changeAt_neg hz)).trans (hnext₁ z)
      · exact fun z hz => (hprev₂ z).trans (congrArg Header.prev (hother₁ z hz))
    · intro z hz
      rw [hhead] at hz
      have hhead₂ : (s₂.header z).head = (s₁.header z).head :=
        changeAt_proj Header.head fun _ => rfl
      rw [hhead₂, hhead₁]
      exact howner z hz

/-- From a block the way back leads to the first one. -/
theorem first_spec : ∀ (n : ℕ) (l₁ : List ℕ) (b : ℕ) (l₂ : List ℕ),
    Linked s.next s.prev none (l₁ ++ b :: l₂) none →
    (∀ z ∈ l₁ ++ b :: l₂, s.Inside z t.header) → l₁.length < n →
    s.first t n b = (l₁ ++ b :: l₂).head? := by
  intro n
  induction n with
  | zero => exact fun _ _ _ _ _ h => absurd h (Nat.not_lt_zero _)
  | succ n ih =>
    intro l₁ b l₂ hlinked hlive hn
    obtain ⟨hprev, -, -, -⟩ := hlinked.middle
    have hprev' : (s.header b).prev = l₁.getLast? := hprev
    have hread : s.readHeader t b = some (s.header b) :=
      if_pos (hlive b (List.mem_append_right _ List.mem_cons_self))
    rw [Heap.first, hread, Option.bind_eq_bind, Option.bind_some, hprev']
    rcases List.eq_nil_or_concat' l₁ with rfl | ⟨l, p, rfl⟩
    · rfl
    · have hsplit : l ++ [p] ++ b :: l₂ = l ++ p :: b :: l₂ := by
        rw [List.append_assoc]
        rfl
      rw [hsplit] at hlinked hlive ⊢
      rw [List.length_append, List.length_singleton] at hn
      rw [List.getLast?_concat]
      exact ih l p (b :: l₂) hlinked hlive (by omega)

/-- All blocks of the list are freed. -/
theorem memFreeLoop_spec : ∀ (n : ℕ) (l : List ℕ) (s : Heap) (before : Option ℕ), l.length < n →
    s.memory handle = l.head? → Linked s.next s.prev before l none → l.Nodup →
    (∀ z ∈ l, ∃ c ∈ s.chunks, c.base = z ∧ t.header ≤ c.size) →
    ∃ s', memFreeLoop t handle n s = some s' ∧ s'.header = s.header ∧ s'.buffer = s.buffer ∧
      s'.memory = Function.update s.memory handle none ∧
      ∀ c, c ∈ s'.chunks ↔ c ∈ s.chunks ∧ c.base ∉ l := by
  intro n
  induction n with
  | zero => exact fun _ _ _ h => absurd h (Nat.not_lt_zero _)
  | succ n ih =>
    intro l s before hn hmemory hlinked hnodup hlive
    rw [memFreeLoop, hmemory]
    cases l with
    | nil =>
      refine ⟨s, rfl, rfl, rfl, ?_, fun c => ?_⟩
      · have hnone : s.memory handle = none := hmemory
        rw [← hnone, Function.update_eq_self]
      · rw [and_iff_left (List.not_mem_nil (a := c.base))]
    | cons b l =>
      obtain ⟨⟨-, hnext⟩, hlinked⟩ := hlinked
      obtain ⟨hb, hnodup⟩ := List.nodup_cons.mp hnodup
      obtain ⟨c, hc, hbase, hsize⟩ := hlive b List.mem_cons_self
      have hread : s.readHeader t b = some (s.header b) :=
        if_pos ⟨c, hc, hbase.le, by omega⟩
      have hnext' : (s.header b).next = l.head? := by
        rw [Option.or_none] at hnext
        exact hnext
      let s₁ : Heap := { s with
        memory := Function.update s.memory handle l.head?
        chunks := s.chunks.filter fun c => c.base ≠ b }
      have hfree : ({ s with memory := Function.update s.memory handle l.head? } : Heap).free b =
          some s₁ := if_pos ⟨c, hc, hbase⟩
      have hlive₁ : ∀ z ∈ l, ∃ c ∈ s₁.chunks, c.base = z ∧ t.header ≤ c.size := by
        intro z hz
        obtain ⟨c, hc, hbase, hsize⟩ := hlive z (List.mem_cons_of_mem _ hz)
        refine ⟨c, List.mem_filter.mpr ⟨hc, ?_⟩, hbase, hsize⟩
        rw [decide_eq_true_eq, hbase]
        exact fun h => hb (h ▸ hz)
      rw [List.length_cons] at hn
      obtain ⟨s', hrun, hheader, hbuffer, hmemory', hchunks⟩ := ih l s₁ (some b) (by omega)
        (Function.update_self _ _ _) hlinked hnodup hlive₁
      refine ⟨s', ?_, hheader, hbuffer, ?_, fun c => ?_⟩
      · rw [List.head?_cons]
        show (s.readHeader t b).bind _ = _
        rw [hread, Option.bind_some, hnext', hfree]
        exact hrun
      · rw [hmemory']
        exact Function.update_idem _ _ _
      · rw [hchunks, List.mem_filter, decide_eq_true_eq, List.mem_cons, not_or, and_assoc]

/-! ### The blocks that are held -/

variable {S : State} {x y : Block} {u v : List Block}

theorem Target.sizes (t : Target) : 0 < t.header ∧ t.pointer ≤ t.gap ∧ 0 < t.pointer := by
  cases t
  · decide
  · decide

theorem layout_of_fits (handle : ℕ) (hfits : Fits t bytes)
    (hspace : new + t.mallocSize bytes < t.wordSize) :
    Layout t ⟨handle, new, bytes, t.dataAddr new⟩ := by
  have hsize : t.mallocSize bytes = t.header + t.gap + 7 + bytes := Nat.mod_eq_of_lt hfits
  rw [hsize] at hspace
  have hdata : t.dataAddr new = (new + t.header + t.gap + 7) / 8 * 8 := by
    rw [Target.dataAddr, Nat.mod_eq_of_lt (by omega)]
  obtain ⟨-, hpointer, -⟩ := t.sizes
  constructor
  · exact ⟨_, (hdata.trans (Nat.mul_comm _ _))⟩
  all_goals
    simp only [hsize, hdata]
    omega

/-- The chunk of a block has room for its header and its back pointer. -/
theorem Layout.room (h : Layout t x) : t.header ≤ t.mallocSize x.bytes ∧
    x.base ≤ x.data - t.gap ∧ x.data - t.gap + t.pointer ≤ x.base + t.mallocSize x.bytes := by
  obtain ⟨-, hheader, hbuffer, hdata, -⟩ := h
  omega

theorem Apart.ne (h : Apart t x y) (hx : Layout t x) (hy : Layout t y) :
    x.base ≠ y.base ∧ x.data ≠ y.data ∧ x.data - t.gap ≠ y.data - t.gap := by
  obtain ⟨-, hheader, hbuffer, hdata, -⟩ := hx
  obtain ⟨-, hheader', hbuffer', hdata', -⟩ := hy
  obtain ⟨hpos, -, hpos'⟩ := t.sizes
  rcases h with h | h
  · omega
  · omega

theorem Apart.symm (h : Apart t x y) : Apart t y x := Or.symm h

theorem Shape.pairwise_ne (h : Shape t S) : (S.held ++ S.kept).Pairwise fun x y =>
    x.base ≠ y.base ∧ x.data ≠ y.data ∧ x.data - t.gap ≠ y.data - t.gap :=
  h.apart.imp_of_mem fun hx hy hxy => hxy.ne (h.layout _ hx) (h.layout _ hy)

theorem Shape.nodup_base (h : Shape t S) : (S.held.map Block.base).Nodup :=
  List.pairwise_map.mpr
    ((List.pairwise_append.mp h.pairwise_ne).1.imp fun hxy => hxy.1)

theorem mem_listOf : z ∈ S.listOf handle ↔ ∃ x ∈ S.held, x.handle = handle ∧ x.base = z := by
  rw [State.listOf, List.mem_map]
  refine exists_congr fun x => ?_
  rw [List.mem_filter, decide_eq_true_eq, and_assoc]

theorem Shape.nodup (h : Shape t S) (handle : ℕ) : (S.listOf handle).Nodup :=
  h.nodup_base.sublist (List.filter_sublist.map _)

/-- No block is on two lists. -/
theorem Shape.handle_eq (h : Shape t S) {handle' : ℕ} (hz : z ∈ S.listOf handle)
    (hz' : z ∈ S.listOf handle') : handle = handle' := by
  obtain ⟨x, hx, rfl, hbase⟩ := mem_listOf.mp hz
  obtain ⟨y, hy, rfl, hbase'⟩ := mem_listOf.mp hz'
  rw [List.inj_on_of_nodup_map h.nodup_base hx hy (hbase.trans hbase'.symm)]

theorem Shape.chunk (h : Shape t S) (hz : z ∈ S.listOf handle) :
    ∃ c ∈ S.heap.chunks, c.base = z ∧ t.header ≤ c.size := by
  obtain ⟨x, hx, -, rfl⟩ := mem_listOf.mp hz
  have hx' : x ∈ S.held ++ S.kept := List.mem_append_left _ hx
  exact ⟨_, (h.chunks _).mpr ⟨x, hx', rfl⟩, rfl, (h.layout x hx').room.1⟩

theorem Shape.inside (h : Shape t S) (hz : z ∈ S.listOf handle) : S.heap.Inside z t.header := by
  obtain ⟨c, hc, rfl, hsize⟩ := h.chunk hz
  exact ⟨c, hc, le_rfl, by omega⟩

theorem Shape.length_le (h : Shape t S) (handle : ℕ) :
    (S.listOf handle).length ≤ S.heap.chunks.length := by
  have hsub : S.listOf handle ⊆ S.heap.chunks.map Chunk.base := by
    intro z hz
    obtain ⟨c, hc, hbase, -⟩ := h.chunk hz
    exact List.mem_map.mpr ⟨c, hc, hbase⟩
  have hlen := ((h.nodup handle).subperm hsub).length_le
  rwa [List.length_map] at hlen

/-- The address of a block is found in front of its data. -/
theorem Shape.readBuffer (h : Shape t S) (hx : x ∈ S.held) :
    S.heap.readBuffer t (x.data - t.gap) = some x.base := by
  have hx' : x ∈ S.held ++ S.kept := List.mem_append_left _ hx
  obtain ⟨-, hfrom, hto⟩ := (h.layout x hx').room
  rw [Heap.readBuffer, if_pos ⟨_, (h.chunks _).mpr ⟨x, hx', rfl⟩, hfrom, hto⟩, h.buffer x hx]

def basesOf (handle : ℕ) (l : List Block) : List ℕ :=
  (l.filter fun x => x.handle = handle).map Block.base

theorem listOf_split (hsplit : S.held = u ++ x :: v) :
    S.listOf x.handle = basesOf x.handle u ++ x.base :: basesOf x.handle v := by
  rw [State.listOf, hsplit, List.filter_append, List.filter_cons_of_pos (by rw [decide_eq_true_eq]),
    List.map_append, List.map_cons]
  rfl

theorem Shape.filter_data (h : Shape t S) (hsplit : S.held = u ++ x :: v) :
    S.held.filter (fun y => y.data ≠ x.data) = u ++ v ∧
      S.held.filter (fun y => y.data = x.data) = [x] := by
  have hne := (List.pairwise_append.mp h.pairwise_ne).1
  rw [hsplit] at hne ⊢
  obtain ⟨-, hv, hu⟩ := List.pairwise_append.mp hne
  have hu' : ∀ y ∈ u, y.data ≠ x.data := fun y hy => (hu y hy x List.mem_cons_self).2.1
  have hv' : ∀ y ∈ v, y.data ≠ x.data := fun y hy =>
    ((List.pairwise_cons.mp hv).1 y hy).2.1.symm
  constructor
  · rw [List.filter_append, List.filter_cons_of_neg (by simp), List.filter_eq_self.mpr,
      List.filter_eq_self.mpr]
    · intro y hy
      rw [decide_eq_true_eq]
      exact hv' y hy
    · intro y hy
      rw [decide_eq_true_eq]
      exact hu' y hy
  · rw [List.filter_append, List.filter_cons_of_pos (by simp), List.filter_eq_nil_iff.mpr,
      List.filter_eq_nil_iff.mpr, List.nil_append]
    · intro y hy
      rw [decide_eq_true_eq]
      exact hv' y hy
    · intro y hy
      rw [decide_eq_true_eq]
      exact hu' y hy

/-- A block is released, and freed or kept. -/
theorem Shape.released (h : Shape t S) (hx : x ∈ S.held) (freeit : Bool) :
    ∃ heap, rpcSsMemRelease t S.heap x.handle x.data freeit = some heap ∧
      Shape t (S.released heap x.data freeit) := by
  obtain ⟨u, v, hsplit⟩ := List.append_of_mem hx
  have hlist := listOf_split hsplit
  have hlive : ∀ z ∈ S.listOf x.handle, S.heap.Inside z t.header := fun z hz => h.inside hz
  have hlinked := h.linked x.handle
  have hnodup := h.nodup x.handle
  have hmemory := h.memory x.handle
  have howner := h.owner x.handle
  rw [hlist] at hlive hlinked hnodup hmemory howner
  obtain ⟨s', hunlink, hchunks, hbuffer, hmemory', hother, hlinked', howner'⟩ :=
    unlink_spec hlinked hlive hnodup hmemory howner
  obtain ⟨hheld, hkept⟩ := h.filter_data hsplit
  have hxchunk : (⟨x.base, t.mallocSize x.bytes⟩ : Chunk) ∈ S.heap.chunks :=
    (h.chunks _).mpr ⟨x, List.mem_append_left _ hx, rfl⟩
  -- freeing changes the chunks only
  obtain ⟨heap, hheap, hnext, hprev, hheader, hbuf, hmem, hchunk⟩ :
      ∃ heap, (if freeit then s'.free x.base else some s') = some heap ∧ heap.next = s'.next ∧
        heap.prev = s'.prev ∧ heap.header = s'.header ∧ heap.buffer = s'.buffer ∧
        heap.memory = s'.memory ∧
        ∀ c, c ∈ heap.chunks ↔ c ∈ S.heap.chunks ∧ (freeit = true → c.base ≠ x.base) := by
    cases freeit with
    | true =>
      have hfreed : ∃ c ∈ s'.chunks, c.base = x.base := ⟨_, hchunks ▸ hxchunk, rfl⟩
      refine ⟨_, if_pos hfreed, rfl, rfl, rfl, rfl, rfl, fun c => ?_⟩
      rw [List.mem_filter, decide_eq_true_eq, hchunks]
      exact and_congr_right fun _ => ⟨fun hc _ => hc, fun hc => hc rfl⟩
    | false =>
      refine ⟨s', rfl, rfl, rfl, rfl, rfl, rfl, fun c => ?_⟩
      rw [hchunks]
      exact ⟨fun hc => ⟨hc, fun hf => by cases hf⟩, fun hc => hc.1⟩
  have hrun : rpcSsMemRelease t S.heap x.handle x.data freeit = some heap := by
    rw [rpcSsMemRelease, h.readBuffer hx]
    show (S.heap.unlink t x.handle x.base).bind _ = _
    rw [hunlink]
    exact hheap
  have hsub : (u ++ v).Sublist S.held := by
    rw [hsplit]
    exact (List.Sublist.refl u).append (List.sublist_cons_self x v)
  have hlistOf : ∀ handle,
      (S.released heap x.data freeit).listOf handle = basesOf handle (u ++ v) := by
    intro handle
    show basesOf handle (S.held.filter _) = _
    rw [hheld]
  have hself : basesOf x.handle (u ++ v) = basesOf x.handle u ++ basesOf x.handle v := by
    rw [basesOf, List.filter_append, List.map_append]
    rfl
  have hsame : ∀ handle, handle ≠ x.handle → basesOf handle (u ++ v) = S.listOf handle := by
    intro handle hne
    have hneg : ¬ decide (x.handle = handle) = true := by
      rw [decide_eq_true_eq]
      exact fun heq => hne heq.symm
    rw [State.listOf, hsplit, basesOf, List.filter_append, List.filter_append, List.filter_cons,
      if_neg hneg]
  -- the blocks of other handles are no neighbours
  have hkeep : ∀ handle, handle ≠ x.handle → ∀ z ∈ S.listOf handle,
      heap.header z = S.heap.header z := by
    intro handle hne z hz
    rw [hheader]
    refine hother z ?_ ?_
    · intro hlast
      refine hne (h.handle_eq hz ?_)
      rw [hlist]
      exact List.mem_append_left _ (List.mem_of_getLast? hlast)
    · intro hhead
      refine hne (h.handle_eq hz ?_)
      rw [hlist]
      exact List.mem_append_right _ (List.mem_cons_of_mem _ (List.mem_of_mem_head? hhead))
  have hperm : (u ++ v ++ (x :: S.kept)).Perm (S.held ++ S.kept) := by
    rw [hsplit]
    refine List.perm_middle.trans ?_
    exact (List.perm_middle (a := x)).symm.append_right S.kept
  have hpairwise : (u ++ v ++ (x :: S.kept)).Pairwise (Apart t) :=
    (hperm.pairwise_iff fun hxy => hxy.symm).mpr h.apart
  have hblocks : (S.released heap x.data freeit).held ++ (S.released heap x.data freeit).kept =
      u ++ v ++ if freeit then S.kept else x :: S.kept := by
    show S.held.filter _ ++ (if freeit = true then _ else _) = _
    rw [hheld, hkept]
    rfl
  have hsub' : (u ++ v ++ if freeit then S.kept else x :: S.kept).Sublist
      (u ++ v ++ (x :: S.kept)) := by
    refine (List.Sublist.refl _).append ?_
    split
    · exact List.sublist_cons_self _ _
    · exact List.Sublist.refl _
  have hlayout : ∀ y ∈ u ++ v ++ (x :: S.kept), Layout t y := fun y hy =>
    h.layout y (hperm.mem_iff.mp hy)
  refine ⟨heap, hrun, ?_⟩
  constructor
  · intro handle
    rw [hlistOf]
    show Linked heap.next heap.prev none _ none
    by_cases hh : handle = x.handle
    · rw [hh, hself, hnext, hprev]
      exact hlinked'
    · rw [hsame handle hh]
      refine (h.linked handle).congr ?_ ?_
      · exact fun z hz => congrArg Header.next (hkeep handle hh z hz)
      · exact fun z hz => congrArg Header.prev (hkeep handle hh z hz)
  · intro handle
    rw [hlistOf]
    show heap.memory handle = _
    rw [hmem, hmemory', Function.update_apply]
    by_cases hh : handle = x.handle
    · rw [if_pos hh, hh, hself]
    · rw [if_neg hh, hsame handle hh]
      exact h.memory handle
  · intro handle z
    rw [hlistOf]
    show _ → (heap.header z).head = _
    by_cases hh : handle = x.handle
    · rw [hh, hself, hheader]
      exact howner' z
    · rw [hsame handle hh]
      intro hz
      rw [hkeep handle hh z (List.mem_of_mem_head? hz)]
      exact h.owner handle z hz
  · intro y hy
    have hy' : y ∈ S.held := hsub.subset (hheld ▸ hy)
    show heap.buffer _ = _
    rw [hbuf, hbuffer]
    exact h.buffer y hy'
  · intro c
    rw [hblocks]
    show c ∈ heap.chunks ↔ _
    rw [hchunk, h.chunks]
    constructor
    · rintro ⟨⟨y, hy, rfl⟩, hne⟩
      refine ⟨y, ?_, rfl⟩
      rcases List.mem_append.mp (hperm.mem_iff.mpr hy) with hy | hy
      · exact List.mem_append_left _ hy
      · refine List.mem_append_right _ ?_
        cases freeit with
        | false => exact hy
        | true =>
          rcases List.mem_cons.mp hy with rfl | hy
          · exact absurd rfl (hne rfl)
          · exact hy
    · rintro ⟨y, hy, rfl⟩
      refine ⟨⟨y, hperm.mem_iff.mp (hsub'.subset hy), rfl⟩, ?_⟩
      -- the other blocks that are left are apart from it
      intro hfree
      rw [hfree, if_pos rfl] at hy
      have hapart : Apart t x y := by
        have hcons := (List.perm_middle.pairwise_iff fun hxy => Apart.symm hxy).mp hpairwise
        exact (List.pairwise_cons.mp hcons).1 y hy
      have hy' : y ∈ u ++ v ++ (x :: S.kept) := by
        rcases List.mem_append.mp hy with hy | hy
        · exact List.mem_append_left _ hy
        · exact List.mem_append_right _ (List.mem_cons_of_mem _ hy)
      exact (hapart.ne (h.layout x (List.mem_append_left _ hx)) (hlayout y hy')).1.symm
  · rw [hblocks]
    exact fun y hy => hlayout y (hsub'.subset hy)
  · rw [hblocks]
    exact hpairwise.sublist hsub'

/-- The first block of the list names the handle. -/
theorem Shape.deallocated (h : Shape t S) (hx : x ∈ S.held) :
    ∃ heap, rpcSsMemDealloc t S.heap x.data = some heap ∧
      Shape t (S.released heap x.data true) := by
  obtain ⟨heap, hrun, hshape⟩ := h.released hx true
  refine ⟨heap, ?_, hshape⟩
  obtain ⟨u, v, hsplit⟩ := List.append_of_mem hx
  have hlist := listOf_split hsplit
  have hlinked := h.linked x.handle
  have hlive : ∀ z ∈ S.listOf x.handle, S.heap.Inside z t.header := fun z hz => h.inside hz
  have howner := h.owner x.handle
  have hlen := h.length_le x.handle
  rw [hlist] at hlinked hlive howner hlen
  rw [List.length_append, List.length_cons] at hlen
  have hfirst := first_spec (S.heap.chunks.length + 1) _ _ _ hlinked hlive (by omega)
  obtain ⟨z, hz⟩ : ∃ z, (basesOf x.handle u ++ x.base :: basesOf x.handle v).head? = some z :=
    Option.isSome_iff_exists.mp (by simp)
  have hread : S.heap.readHeader t z = some (S.heap.header z) :=
    if_pos (hlive z (List.mem_of_mem_head? hz))
  rw [rpcSsMemDealloc, h.readBuffer hx, Option.bind_eq_bind, Option.bind_some, hfirst, hz]
  show (S.heap.readHeader t z).bind _ = _
  rw [hread, Option.bind_some, howner z hz]
  exact hrun

/-- All blocks of a handle are freed. -/
theorem Shape.freed (h : Shape t S) (handle : ℕ) :
    ∃ heap, rpcSsMemFree t S.heap handle = some heap ∧
      Shape t { S with heap := heap, held := S.held.filter fun x => x.handle ≠ handle } := by
  have hlen := h.length_le handle
  obtain ⟨heap, hrun, hheader, hbuffer, hmemory, hchunks⟩ :=
    memFreeLoop_spec (t := t) (S.heap.chunks.length + 1) (S.listOf handle) S.heap none (by omega)
      (h.memory handle) (h.linked handle) (h.nodup handle) fun z hz => h.chunk hz
  have hnext : heap.next = S.heap.next := by
    funext z
    rw [Heap.next, hheader, Heap.next]
  have hprev : heap.prev = S.heap.prev := by
    funext z
    rw [Heap.prev, hheader, Heap.prev]
  have hsub : (S.held.filter (fun x => x.handle ≠ handle) ++ S.kept).Sublist (S.held ++ S.kept) :=
    List.filter_sublist.append (List.Sublist.refl _)
  have hlistOf : ∀ k, ({ S with
      heap := heap, held := S.held.filter fun x => x.handle ≠ handle } : State).listOf k =
        if k = handle then [] else S.listOf k := by
    intro k
    rw [State.listOf, List.filter_filter]
    split
    · rename_i hk
      rw [List.filter_eq_nil_iff.mpr, List.map_nil]
      intro x _
      simp [hk]
    · rename_i hk
      rw [State.listOf]
      refine congrArg _ (List.filter_congr fun x _ => ?_)
      by_cases hx : x.handle = k
      · simp [hx, hk]
      · simp [hx]
  refine ⟨heap, hrun, ?_⟩
  constructor
  · intro k
    rw [hlistOf]
    show Linked heap.next heap.prev none _ none
    rw [hnext, hprev]
    split
    · exact linked_nil
    · exact h.linked k
  · intro k
    rw [hlistOf]
    show heap.memory k = _
    rw [hmemory, Function.update_apply]
    split
    · rfl
    · exact h.memory k
  · intro k z
    rw [hlistOf]
    show _ → (heap.header z).head = k
    rw [hheader]
    split
    · exact fun hz => by cases hz
    · exact h.owner k z
  · intro x hx
    show heap.buffer _ = _
    rw [hbuffer]
    exact h.buffer x (List.mem_filter.mp hx).1
  · intro c
    show c ∈ heap.chunks ↔ _
    rw [hchunks, h.chunks]
    constructor
    · rintro ⟨⟨x, hx, rfl⟩, hne⟩
      refine ⟨x, ?_, rfl⟩
      rcases List.mem_append.mp hx with hx | hx
      · refine List.mem_append_left _ (List.mem_filter.mpr ⟨hx, ?_⟩)
        rw [decide_eq_true_eq]
        exact fun hh => hne (mem_listOf.mpr ⟨x, hx, hh, rfl⟩)
      · exact List.mem_append_right _ hx
    · rintro ⟨x, hx, rfl⟩
      refine ⟨⟨x, hsub.subset hx, rfl⟩, fun hmem => ?_⟩
      obtain ⟨y, hy, hh, hbase⟩ := mem_listOf.mp hmem
      -- a block with the base of a freed one would be the freed one
      rcases List.mem_append.mp hx with hx | hx
      · obtain ⟨hx, hne⟩ := List.mem_filter.mp hx
        rw [decide_eq_true_eq] at hne
        rw [List.inj_on_of_nodup_map h.nodup_base hy hx hbase] at hh
        exact hne hh
      · exact ((List.pairwise_append.mp h.pairwise_ne).2.2 y hy x hx).1 hbase
  · exact fun x hx => h.layout x (hsub.subset hx)
  · exact h.apart.sublist hsub

/-- A block is allocated, or there is no memory. -/
theorem Shape.entered (h : Shape t S) (handle : ℕ) (hfits : Fits t bytes)
    (hmalloc : MallocOk t S.heap bytes (some new)) :
    ∃ heap, S.heap.enter t handle bytes new = some (heap, t.dataAddr new) ∧
      Shape t { S with
        heap := heap, held := ⟨handle, new, bytes, t.dataAddr new⟩ :: S.held } := by
  obtain ⟨-, hspace, hfresh⟩ := hmalloc new rfl
  have hlayout := layout_of_fits handle hfits hspace
  have happ : ∀ y ∈ S.held ++ S.kept, Apart t ⟨handle, new, bytes, t.dataAddr new⟩ y := fun y hy =>
    hfresh _ ((h.chunks _).mpr ⟨y, hy, rfl⟩)
  have hne : ∀ y ∈ S.held ++ S.kept, new ≠ y.base ∧ t.dataAddr new ≠ y.data ∧
      t.dataAddr new - t.gap ≠ y.data - t.gap := fun y hy => (happ y hy).ne hlayout (h.layout y hy)
  have hnew : ∀ k, new ∉ S.listOf k := by
    intro k hmem
    obtain ⟨y, hy, -, hbase⟩ := mem_listOf.mp hmem
    exact (hne y (List.mem_append_left _ hy)).1 hbase.symm
  obtain ⟨heap, hrun, hchunks, hbuffer, hmemory, hother, hlinked, howner⟩ :=
    enter_spec (h.linked handle) (h.memory handle) (fun z hz => h.inside hz) (hnew handle)
      (h.nodup handle) hlayout.room.1 hlayout.room.2
  have hlistOf : ∀ k, ({ S with
      heap := heap, held := ⟨handle, new, bytes, t.dataAddr new⟩ :: S.held } : State).listOf k =
        if handle = k then new :: S.listOf k else S.listOf k := by
    intro k
    rw [State.listOf, List.filter_cons]
    by_cases hk : handle = k
    · rw [if_pos hk, if_pos (by rwa [decide_eq_true_eq]), List.map_cons]
      rfl
    · rw [if_neg hk, if_neg (by rwa [decide_eq_true_eq])]
      rfl
  -- a block of another list is not the first of this one, and keeps its header
  have hkeep : ∀ k, handle ≠ k → ∀ z ∈ S.listOf k, heap.header z = S.heap.header z := by
    intro k hk z hz
    refine hother z (fun heq => hnew k (heq ▸ hz)) fun hhead => ?_
    exact hk (h.handle_eq (List.mem_of_mem_head? hhead) hz)
  refine ⟨heap, hrun, ?_⟩
  constructor
  · intro k
    rw [hlistOf]
    show Linked heap.next heap.prev none _ none
    by_cases hk : handle = k
    · rw [if_pos hk, ← hk]
      exact hlinked
    · rw [if_neg hk]
      refine (h.linked k).congr ?_ ?_
      · exact fun z hz => congrArg Header.next (hkeep k hk z hz)
      · exact fun z hz => congrArg Header.prev (hkeep k hk z hz)
  · intro k
    rw [hlistOf]
    show heap.memory k = _
    rw [hmemory, Function.update_apply]
    by_cases hk : handle = k
    · rw [if_pos hk, if_pos hk.symm]
      rfl
    · rw [if_neg hk, if_neg (Ne.symm hk)]
      exact h.memory k
  · intro k z
    rw [hlistOf]
    show _ → (heap.header z).head = k
    by_cases hk : handle = k
    · rw [if_pos hk]
      intro hz
      rw [← Option.some_inj.mp hz, howner, hk]
    · rw [if_neg hk]
      intro hz
      rw [hkeep k hk z (List.mem_of_mem_head? hz)]
      exact h.owner k z hz
  · intro y hy
    show heap.buffer _ = _
    rw [hbuffer, Function.update_apply]
    rcases List.mem_cons.mp hy with rfl | hy
    · rw [if_pos rfl]
    · rw [if_neg (hne y (List.mem_append_left _ hy)).2.2.symm]
      exact h.buffer y hy
  · intro c
    show c ∈ heap.chunks ↔ ∃ y ∈ _ :: (S.held ++ S.kept), _
    rw [hchunks, List.mem_cons, h.chunks, List.exists_mem_cons_iff]
  · exact List.forall_mem_cons.mpr ⟨hlayout, h.layout⟩
  · exact List.pairwise_cons.mpr ⟨happ, h.apart⟩

theorem Shape.start (t : Target) : Shape t .start where
  linked _ := linked_nil
  memory _ := rfl
  owner _ _ h := by cases h
  buffer _ h := by cases h
  chunks c := by
    constructor
    · intro h
      cases h
    · rintro ⟨x, hx, -⟩
      cases hx
  layout _ h := by cases h
  apart := .nil

/-- One operation. -/
theorem step_spec (h : Shape t S) {e : Event} (he : Allowed t S e) :
    ∃ S', step t S e = some S' ∧ Shape t S' := by
  cases e with
  | ssAlloc handle bytes malloc =>
    cases malloc with
    | none => exact ⟨_, rfl, h⟩
    | some new =>
      obtain ⟨heap, hrun, hshape⟩ := h.entered handle he.1 he.2
      refine ⟨_, ?_, hshape⟩
      rw [step, rpcSsMemAlloc, hrun]
      rfl
  | smAlloc handle bytes malloc =>
    cases malloc with
    | none => exact ⟨_, rfl, h⟩
    | some new =>
      obtain ⟨heap, hrun, hshape⟩ := h.entered handle he.1 he.2
      refine ⟨_, ?_, hshape⟩
      rw [step, rpcSmMemAlloc, hrun]
      rfl
  | release handle data freeit =>
    obtain ⟨x, hx, rfl, rfl⟩ := he
    obtain ⟨heap, hrun, hshape⟩ := h.released hx freeit
    refine ⟨_, ?_, hshape⟩
    rw [step, hrun]
    rfl
  | itemFree handle data =>
    obtain ⟨x, hx, rfl, rfl⟩ := he
    obtain ⟨heap, hrun, hshape⟩ := h.released hx true
    -- an item is freed as by a release with the memory
    have hsame : rpcSsMemItemFree t S.heap x.handle x.data = some heap := hrun
    refine ⟨_, ?_, hshape⟩
    rw [step, hsame]
    rfl
  | dealloc data =>
    obtain ⟨x, hx, rfl⟩ := he
    obtain ⟨heap, hrun, hshape⟩ := h.deallocated hx
    refine ⟨_, ?_, hshape⟩
    rw [step, hrun]
    rfl
  | free handle =>
    obtain ⟨heap, hrun, hshape⟩ := h.freed handle
    refine ⟨_, ?_, hshape⟩
    rw [step, hrun]
    rfl

theorem run_spec : ∀ (es : List Event) (S : State), Shape t S →
    Runs.Along (step t) (Allowed t) S es → ∃ S', Runs.exec (step t) S es = some S' ∧ Shape t S' := by
  intro es
  induction es with
  | nil => exact fun S h _ => ⟨S, rfl, h⟩
  | cons e es ih =>
    intro S h hrun
    obtain ⟨S', hstep, hS'⟩ := step_spec h hrun.1
    obtain ⟨T, hT, hshape⟩ := ih S' hS' (hrun.2 S' hstep)
    exact ⟨T, Runs.exec_cons_eq_some.mpr ⟨S', hstep, hT⟩, hshape⟩

/-- **The lists stay well formed** in runs in which no size wraps: each has the blocks of its handle
that are held, its first block names the handle, the chunks that are not freed are those of blocks
held or kept, and a block's header, back pointer and data have room in its chunk. -/
theorem memory_lists_kept (t : Target) (es : List Event)
    (h : Runs.Along (step t) (Allowed t) .start es) :
    ∃ S, Runs.exec (step t) .start es = some S ∧ Shape t S :=
  run_spec es _ (Shape.start t) h

theorem memory_lists_kept_seven :
    let es : List Event := [.ssAlloc 1 5 (some 4096), .smAlloc 1 0 (some 8192),
      .ssAlloc 2 100 (some 12288), .smAlloc 2 7 none, .release 1 8216 false, .dealloc 12312, .free 1]
    ∃ S, Runs.exec (step .ilp32) .start es = some S ∧ Shape .ilp32 S :=
  memory_lists_kept .ilp32 _ (by decide)

/-- The size that `malloc` is asked for is 26; the data would be in a chunk of 26 bytes. -/
theorem wrapped_size_too_small :
    ∃ S, step .ilp32 .start (.ssAlloc 1 0xffffffff (some 4096)) = some S ∧
      MallocOk .ilp32 State.start.heap 0xffffffff (some 4096) ∧
      S.held = [⟨1, 4096, 0xffffffff, 4120⟩] ∧ S.heap.chunks = [⟨4096, 26⟩] ∧
      ¬ 4120 + 0xffffffff ≤ 4096 + 26 :=
  ⟨_, rfl, by decide, rfl, rfl, by decide⟩

end StubMem
end Idl
