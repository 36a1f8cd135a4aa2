/-
The server's tables of context handles (ctxeectx.c, ctxeecli.c).

A context is in a hash table by its UUID and on the doubly linked list of the client that owns it;
the clients are in a hash table of their own.  The first entry of each hash chain lies in its table.
A context there is replaced by the one behind it, a client there is blanked.

The entries behind a home slot are the list of its chain.  The model's functions answer `none` when
they read or write an entry that is not allocated, or a null pointer.
-/
import FreeDce.Lib.Runs
import FreeDce.Lib.DoublyLinked

namespace Idl

namespace Ctx

open Pointers

/-! ### The tables -/

/-- Where an entry lies: in its hash table or on the heap. -/
inductive Ref
  | home (slot : Fin 256)
  | heap (n : ℕ)
deriving DecidableEq

theorem Ref.home_ne_heap (slot : Fin 256) (n : ℕ) : Ref.home slot ≠ .heap n := by
  intro h
  cases h

-- a slot is written as a literal, or as a remainder by the length of its table
local instance neZero_slots : NeZero 256 := ⟨by decide⟩

/-- `callee_context_entry_t`, without its hash link.  The nil UUID is 0. -/
structure ContextEntry where
  uuid : ℕ := 0
  userContext : ℕ := 0
  rundown : Bool := false
  pClientEntry : Ref := .home 0
  prevInClient : Option Ref := none
  nextInClient : Option Ref := none

/-- `callee_client_entry_t`, without its hash links. -/
structure ClientEntry where
  client : ℕ := 0
  count : ℤ := 0
  firstContext : Option Ref := none
  lastContext : Option Ref := none
  refCount : ℤ := 0
  rundownPending : Bool := false

/-- The two tables.  `nextHeap` is the next address that `malloc` returns. -/
structure Tables where
  context : Ref → ContextEntry
  client : Ref → ClientEntry
  contextChain : Fin 256 → List Ref
  clientChain : Fin 256 → List Ref
  contextFreed : Ref → Bool
  clientFreed : Ref → Bool
  nextHeap : ℕ

/-- `rpc_ss_init_callee_ctx_tables`. -/
def Tables.init : Tables where
  context _ := {}
  client _ := {}
  contextChain _ := []
  clientChain _ := []
  contextFreed r := match r with
    | .home _ => false
    | .heap _ => true
  clientFreed r := match r with
    | .home _ => false
    | .heap _ => true
  nextHeap := 0

/-- `HASH_CLIENT_ID`. -/
def hashClientId (id : ℕ) : Fin 256 := Fin.ofNat 256 (id / 2 ^ 4)

namespace Tables

variable (t : Tables)

def readContext (r : Ref) : Option ContextEntry :=
  if t.contextFreed r then none else some (t.context r)

def setContext (r : Ref) (f : ContextEntry → ContextEntry) : Tables :=
  { t with context := Function.update t.context r (f (t.context r)) }

def writeContext (r : Ref) (f : ContextEntry → ContextEntry) : Option Tables :=
  if t.contextFreed r then none else some (t.setContext r f)

def readClient (r : Ref) : Option ClientEntry :=
  if t.clientFreed r then none else some (t.client r)

def setClient (r : Ref) (f : ClientEntry → ClientEntry) : Tables :=
  { t with client := Function.update t.client r (f (t.client r)) }

def writeClient (r : Ref) (f : ClientEntry → ClientEntry) : Option Tables :=
  if t.clientFreed r then none else some (t.setClient r f)

/-- The walk along a chain to the entry of a client. -/
def walkClients (id : ℕ) : List Ref → Option (Option Ref)
  | [] => some none
  | r :: rs => do
    let ce ← t.readClient r
    if ce.client = id then some (some r) else walkClients id rs

def findClient (id : ℕ) : Option (Option Ref) :=
  t.walkClients id (.home (hashClientId id) :: t.clientChain (hashClientId id))

/-- A context is put at the end of its client's list. -/
def linkContext (c x : Ref) : Option Tables := do
  let ce ← t.readClient c
  let t ← t.writeClient c fun ce => { ce with count := ce.count + 1 }
  let t ← t.writeContext x fun e =>
    { e with pClientEntry := c, prevInClient := ce.lastContext, nextInClient := none }
  let t ← (match ce.firstContext with
    | none => t.writeClient c fun ce => { ce with firstContext := some x }
    | some _ => do
      let last ← ce.lastContext
      t.writeContext last fun e => { e with nextInClient := some x })
  t.writeClient c fun ce => { ce with lastContext := some x }

/-- The place of a new client: the home slot if it is free, or a new entry at the chain's end. -/
def newClient (id : ℕ) : Tables × Ref :=
  let slot := hashClientId id
  if (t.client (.home slot)).client = 0 then (t, .home slot)
  else
    let c := .heap t.nextHeap
    ({ t with
      clientChain := Function.update t.clientChain slot (t.clientChain slot ++ [c])
      clientFreed := Function.update t.clientFreed c false
      nextHeap := t.nextHeap + 1 }, c)

/-- `rpc_ss_add_to_callee_client`. -/
def addToCalleeClient (id : ℕ) (pContext : Option Ref) : Option Tables := do
  match ← t.findClient id with
  | some c => do
    let x ← pContext
    t.linkContext c x
  | none =>
    let (t, c) := t.newClient id
    match pContext with
    | none => t.writeClient c fun _ => { client := id, refCount := 1 }
    | some x => do
      let t ← t.writeClient c fun _ =>
        { client := id, count := 1, firstContext := some x, lastContext := some x }
      t.writeContext x fun e =>
        { e with pClientEntry := c, prevInClient := none, nextInClient := none }

/-- `rpc_ss_ctx_remove_client_entry`. -/
def removeClientEntry (c : Ref) : Option Tables := do
  let ce ← t.readClient c
  match c with
  | .home _ => t.writeClient c fun ce => { ce with client := 0 }
  | .heap _ =>
    let slot := hashClientId ce.client
    some { t with
      clientChain := Function.update t.clientChain slot ((t.clientChain slot).erase c)
      clientFreed := Function.update t.clientFreed c true }

/-- A context is taken out of the list of its client. -/
def unlinkContext (c x : Ref) : Option Tables := do
  let e ← t.readContext x
  let ce ← t.readClient c
  let t ← (if ce.firstContext = some x then
      t.writeClient c fun ce => { ce with firstContext := e.nextInClient }
    else do
      let p ← e.prevInClient
      t.writeContext p fun q => { q with nextInClient := e.nextInClient })
  if ce.lastContext = some x then
    t.writeClient c fun ce => { ce with lastContext := e.prevInClient }
  else do
    let n ← e.nextInClient
    t.writeContext n fun q => { q with prevInClient := e.prevInClient }

/-- `rpc_ss_take_from_callee_client`; the second component is the client that is not to be
monitored any more, or 0. -/
def takeFromCalleeClient (x : Ref) : Option (Tables × ℕ) := do
  let e ← t.readContext x
  let c := e.pClientEntry
  let t ← t.writeClient c fun ce => { ce with count := ce.count - 1 }
  let ce ← t.readClient c
  let t ← (if ce.count ≠ 0 ∨ ce.rundownPending = true then t.unlinkContext c x else some t)
  if ce.count ≠ 0 then some (t, 0)
  else if ce.rundownPending then some (t, ce.client)
  else do
    let t ← t.removeClientEntry c
    some (t, ce.client)

/-- The context before one that is moved, or its client, is led to the new place. -/
def leadForward (c h : Ref) : Option Ref → Option Tables
  | none => t.writeClient c fun ce => { ce with firstContext := some h }
  | some p => t.writeContext p fun q => { q with nextInClient := some h }

/-- The context behind it, or its client, is led back to the new place. -/
def leadBack (c h : Ref) : Option Ref → Option Tables
  | none => t.writeClient c fun ce => { ce with lastContext := some h }
  | some p => t.writeContext p fun q => { q with prevInClient := some h }

/-- The second context of a chain is moved to the home slot. -/
def moveToHome (slot : Fin 256) (n : Ref) (rest : List Ref) : Option Tables := do
  let ne ← t.readContext n
  let t ← t.writeContext (.home slot) fun _ => ne
  let t ← t.leadForward ne.pClientEntry (.home slot) ne.prevInClient
  let t ← t.leadBack ne.pClientEntry (.home slot) ne.nextInClient
  some { t with
    contextChain := Function.update t.contextChain slot rest
    contextFreed := Function.update t.contextFreed n true }

/-- The walk along a chain to a context. -/
def walkContexts (uuid : ℕ) : List Ref → Option (Option Ref)
  | [] => some none
  | r :: rs => do
    let e ← t.readContext r
    if e.uuid = uuid then some (some r) else walkContexts uuid rs

/-- `rpc_ss_lkddest_callee_context`; without a second component the context is not in the table
and the exception `rpc_x_ss_context_mismatch` is raised. -/
def lkddestCalleeContext (uuidHash : ℕ → Fin 256) (uuid : ℕ) : Option (Tables × Option ℕ) := do
  let slot := uuidHash uuid
  let home ← t.readContext (.home slot)
  if home.uuid = uuid then do
    let (t, close) ← t.takeFromCalleeClient (.home slot)
    match t.contextChain slot with
    | [] => do
      let t ← t.writeContext (.home slot) fun e => { e with uuid := 0 }
      some (t, some close)
    | n :: rest => do
      let t ← t.moveToHome slot n rest
      some (t, some close)
  else
    match ← t.walkContexts uuid (t.contextChain slot) with
    | none => some (t, none)
    | some x => do
      let (t, close) ← t.takeFromCalleeClient x
      some ({ t with
        contextChain := Function.update t.contextChain slot ((t.contextChain slot).erase x)
        contextFreed := Function.update t.contextFreed x true }, some close)

/-- The place of a new context: the home slot if it is empty, or a new entry behind it. -/
def newContext (slot : Fin 256) : Tables × Ref :=
  if (t.context (.home slot)).uuid = 0 then
    ({ t with contextChain := Function.update t.contextChain slot [] }, .home slot)
  else
    let x := .heap t.nextHeap
    ({ t with
      contextChain := Function.update t.contextChain slot (x :: t.contextChain slot)
      contextFreed := Function.update t.contextFreed x false
      nextHeap := t.nextHeap + 1 }, x)

/-- `rpc_ss_create_callee_context` for the client with an id. -/
def createCalleeContext (uuidHash : ℕ → Fin 256) (uuid userContext : ℕ) (rundown : Bool) (id : ℕ) :
    Option Tables := do
  let (t, x) := t.newContext (uuidHash uuid)
  let t ← t.writeContext x fun e =>
    { e with uuid := uuid, userContext := userContext, rundown := rundown }
  t.addToCalleeClient id (some x)

/-- `rpc_ss_update_callee_context`; the tables stay if the UUID is not in them. -/
def updateCalleeContext (uuidHash : ℕ → Fin 256) (uuid userContext : ℕ) : Option Tables := do
  let slot := uuidHash uuid
  match ← t.walkContexts uuid (.home slot :: t.contextChain slot) with
  | none => some t
  | some x => t.writeContext x fun e => { e with userContext := userContext }

/-- `rpc_ss_ctx_client_ref_count_i_2`. -/
def refCountI2 (id : ℕ) : Option Tables := do
  match ← t.findClient id with
  | some c => t.writeClient c fun ce => { ce with refCount := ce.refCount + 1 }
  | none => t.addToCalleeClient id none

/-- `rpc_ss_ctx_client_ref_count_d_2`.  With a rundown pending the waiting thread is signalled. -/
def refCountD2 (id : ℕ) : Option Tables := do
  match ← t.findClient id with
  | none => some t
  | some c => do
    let t ← t.writeClient c fun ce => { ce with refCount := ce.refCount - 1 }
    let ce ← t.readClient c
    if ce.rundownPending then some t
    else if ce.count = 0 ∧ ce.refCount = 0 then t.removeClientEntry c
    else some t

/-- The inner loop of `rpc_ss_rundown_client`: the contexts of an entry are run down until the
last one is gone.  The first argument bounds the loop. -/
def rundownContexts (uuidHash : ℕ → Fin 256) : ℕ → Tables → Ref → Option (Tables × List ℕ)
  | 0, _, _ => none
  | fuel + 1, t, c => do
    let ce ← t.readClient c
    let x ← ce.firstContext
    let e ← t.readContext x
    let (t, close) ← t.lkddestCalleeContext uuidHash e.uuid
    let close ← close
    if close = 0 then do
      let (t, uuids) ← rundownContexts uuidHash fuel t c
      some (t, e.uuid :: uuids)
    else some (t, [e.uuid])

/-- `rpc_ss_rundown_client` when no manager uses the entry: the contexts that are run down.  The
loop over the chain reads the link of the entry when it is done with it. -/
def rundownEntry (uuidHash : ℕ → Fin 256) (c : Ref) : Option (Tables × List ℕ) := do
  let ce ← t.readClient c
  if ce.count = 0 then do
    let t ← t.removeClientEntry c
    some (t, [])
  else do
    let t ← t.writeClient c fun ce => { ce with rundownPending := false }
    let (t, uuids) ← rundownContexts uuidHash ce.count.toNat t c
    let _ ← t.readClient c
    some (t, uuids)

/-! ### What holds of the tables -/

/-- The entry of a context that is in the table. -/
def Held : Ref → Prop
  | .home slot => (t.context (.home slot)).uuid ≠ 0
  | .heap n => ∃ slot, .heap n ∈ t.contextChain slot

/-- The entry of a client that is in the table. -/
def Known : Ref → Prop
  | .home slot => (t.client (.home slot)).client ≠ 0
  | .heap n => ∃ slot, .heap n ∈ t.clientChain slot

/-- The context table: each UUID is in the chain of its slot, once. -/
structure ContextsOk (uuidHash : ℕ → Fin 256) : Prop where
  home : ∀ slot, t.contextFreed (.home slot) = false
  heap : ∀ slot, ∀ x ∈ t.contextChain slot, t.contextFreed x = false ∧ ∃ n < t.nextHeap, x = .heap n
  empty : ∀ slot, (t.context (.home slot)).uuid = 0 → t.contextChain slot = []
  hash_home : ∀ slot, (t.context (.home slot)).uuid ≠ 0 →
    uuidHash (t.context (.home slot)).uuid = slot
  hash : ∀ slot, ∀ x ∈ t.contextChain slot,
    (t.context x).uuid ≠ 0 ∧ uuidHash (t.context x).uuid = slot
  nodup : ∀ slot, (t.contextChain slot).Nodup
  inj : ∀ x y, t.Held x → t.Held y → (t.context x).uuid = (t.context y).uuid → x = y

/-- The client table: each client is in the chain of its slot, once. -/
structure ClientsOk : Prop where
  home : ∀ slot, t.clientFreed (.home slot) = false
  heap : ∀ slot, ∀ c ∈ t.clientChain slot, t.clientFreed c = false ∧ ∃ n < t.nextHeap, c = .heap n
  hash_home : ∀ slot, (t.client (.home slot)).client ≠ 0 →
    hashClientId (t.client (.home slot)).client = slot
  hash : ∀ slot, ∀ c ∈ t.clientChain slot,
    (t.client c).client ≠ 0 ∧ hashClientId (t.client c).client = slot
  nodup : ∀ slot, (t.clientChain slot).Nodup
  inj : ∀ c d, t.Known c → t.Known d → (t.client c).client = (t.client d).client → c = d

/-- The links of a list of contexts. -/
def nextIn (x : Ref) : Option Ref := (t.context x).nextInClient

def prevIn (x : Ref) : Option Ref := (t.context x).prevInClient

/-- The list of a client's contexts, as its entry and the contexts have it. -/
structure ListOk (c : Ref) (l : List Ref) : Prop where
  linked : Linked t.nextIn t.prevIn none l none
  nodup : l.Nodup
  first : (t.client c).firstContext = l.head?
  last : (t.client c).lastContext = l.getLast?
  count : (t.client c).count = l.length

/-- Each context with `H` is on the list of its client, and on no other. -/
structure ListsOk (lists : Ref → List Ref) (H : Ref → Prop) : Prop where
  list : ∀ c, t.Known c → t.ListOk c (lists c)
  mem : ∀ c, t.Known c → ∀ x, x ∈ lists c ↔ H x ∧ (t.context x).pClientEntry = c
  known : ∀ x, H x → t.Known (t.context x).pClientEntry ∧ t.contextFreed x = false

variable {t} {t' : Tables} {uuidHash : ℕ → Fin 256} {c x : Ref} {l₁ l₂ : List Ref}
  {lists : Ref → List Ref} {H : Ref → Prop}

/-! ### Reading and writing -/

theorem readContext_eq (h : t.contextFreed x = false) : t.readContext x = some (t.context x) := by
  rw [readContext, h]
  rfl

theorem writeContext_eq (h : t.contextFreed x = false) (f : ContextEntry → ContextEntry) :
    t.writeContext x f = some (t.setContext x f) := by
  rw [writeContext, h]
  rfl

theorem readClient_eq (h : t.clientFreed c = false) : t.readClient c = some (t.client c) := by
  rw [readClient, h]
  rfl

theorem writeClient_eq (h : t.clientFreed c = false) (f : ClientEntry → ClientEntry) :
    t.writeClient c f = some (t.setClient c f) := by
  rw [writeClient, h]
  rfl

theorem context_setContext (x y : Ref) (f : ContextEntry → ContextEntry) :
    (t.setContext x f).context y = if y = x then f (t.context x) else t.context y :=
  Function.update_apply _ _ _ _

theorem client_setClient (c d : Ref) (f : ClientEntry → ClientEntry) :
    (t.setClient c f).client d = if d = c then f (t.client c) else t.client d :=
  Function.update_apply _ _ _ _

/-- The links of contexts may differ, and the clients. -/
structure Frame (t t' : Tables) : Prop where
  uuid : ∀ x, (t'.context x).uuid = (t.context x).uuid
  pClientEntry : ∀ x, (t'.context x).pClientEntry = (t.context x).pClientEntry
  contextChain : t'.contextChain = t.contextChain
  contextFreed : t'.contextFreed = t.contextFreed
  clientChain : t'.clientChain = t.clientChain
  clientFreed : t'.clientFreed = t.clientFreed
  nextHeap : t'.nextHeap = t.nextHeap

theorem Frame.refl (t : Tables) : Frame t t :=
  ⟨fun _ => rfl, fun _ => rfl, rfl, rfl, rfl, rfl, rfl⟩

theorem Frame.trans {t'' : Tables} (h : Frame t t') (h' : Frame t' t'') : Frame t t'' where
  uuid x := (h'.uuid x).trans (h.uuid x)
  pClientEntry x := (h'.pClientEntry x).trans (h.pClientEntry x)
  contextChain := h'.contextChain.trans h.contextChain
  contextFreed := h'.contextFreed.trans h.contextFreed
  clientChain := h'.clientChain.trans h.clientChain
  clientFreed := h'.clientFreed.trans h.clientFreed
  nextHeap := h'.nextHeap.trans h.nextHeap

theorem frame_setClient (c : Ref) (f : ClientEntry → ClientEntry) : Frame t (t.setClient c f) :=
  ⟨fun _ => rfl, fun _ => rfl, rfl, rfl, rfl, rfl, rfl⟩

theorem frame_setContext {f : ContextEntry → ContextEntry} (x : Ref)
    (hf : ∀ e, (f e).uuid = e.uuid ∧ (f e).pClientEntry = e.pClientEntry) :
    Frame t (t.setContext x f) where
  uuid y := by
    rw [context_setContext]
    split
    · rename_i h
      rw [h, (hf _).1]
    · rfl
  pClientEntry y := by
    rw [context_setContext]
    split
    · rename_i h
      rw [h, (hf _).2]
    · rfl
  contextChain := rfl
  contextFreed := rfl
  clientChain := rfl
  clientFreed := rfl
  nextHeap := rfl

end Tables

end Ctx

end Idl
