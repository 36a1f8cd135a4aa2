/-
Searching the endpoint map (rpcddb.c, rpcdepdb.c).

The database keeps its entries on three lists: all of them, and hash chains by object
and by interface.  A search returns at most `maxEnts` entries and hands out a context
handle that says where it goes on.  A pointer into a list is the list from there on,
which is faithful as long as the database does not change; the empty list is a null
pointer.  The caller passes a place for the handle, and memory is not exhausted.
-/
import FreeDce.Lib.Paging

namespace EndpointMap

open Paging

/-! ### Entries -/

abbrev Uuid := BitVec 128

def uuidIsNil (u : Uuid) : Bool := u = 0

/-- `rpc_if_id_t`. -/
structure IfId where
  uuid : Uuid
  versMajor : BitVec 16
  versMinor : BitVec 16

/-- `rpc_syntax_id_t`. -/
structure SyntaxId where
  id : Uuid
  version : BitVec 32

/-- `rpc_addr_t`.  Socket addresses compare as the address family has it. -/
structure Addr (α : Type*) where
  rpcProtseqId : ℕ
  sa : α

/-- `db_entry_t`. -/
structure Entry (α : Type*) where
  readNrefs : ℕ
  deleteFlag : Bool
  object : Uuid
  objectNil : Bool
  interface : IfId
  dataRepId : Uuid
  dataRepVersMajor : BitVec 32
  dataRepVersMinor : BitVec 32
  rpcProtocol : ℕ
  rpcProtocolVersMajor : BitVec 32
  addr : Addr α
  objectNil_eq : objectNil = uuidIsNil object

variable {α : Type*} {hash : Uuid → ℕ}

def dbNbucket : ℕ := 64

/-- `db_lists_mgmt_t`: each hash chain holds the entries of its bucket, in the order of the
entry list. -/
structure ListsMgmt (α : Type*) (hash : Uuid → ℕ) where
  entryList : List (Entry α)
  objectTable : ℕ → List (Entry α)
  interfaceTable : ℕ → List (Entry α)
  objectTable_eq : ∀ b, objectTable b = entryList.filter fun e => hash e.object % dbNbucket = b
  interfaceTable_eq :
    ∀ b, interfaceTable b = entryList.filter fun e => hash e.interface.uuid % dbNbucket = b

/-- `db_init_lists`. -/
def dbInitLists (α : Type*) (hash : Uuid → ℕ) : ListsMgmt α hash where
  entryList := []
  objectTable _ := []
  interfaceTable _ := []
  objectTable_eq _ := rfl
  interfaceTable_eq _ := rfl

/-- `list_add` on the list of a bucket. -/
def dbHtableAdd (hash : Uuid → ℕ) (htable : ℕ → List (Entry α)) (id : Uuid) (e : Entry α) :
    ℕ → List (Entry α) :=
  fun b => if hash id % dbNbucket = b then htable b ++ [e] else htable b

/-- `db_lists_add`: the entry goes to the end of its three lists. -/
def dbListsAdd (h : ListsMgmt α hash) (e : Entry α) : ListsMgmt α hash where
  entryList := h.entryList ++ [e]
  objectTable := dbHtableAdd hash h.objectTable e.object e
  interfaceTable := dbHtableAdd hash h.interfaceTable e.interface.uuid e
  objectTable_eq b := by
    rw [dbHtableAdd, h.objectTable_eq, List.filter_append]
    split_ifs with hb <;> simp [hb]
  interfaceTable_eq b := by
    rw [dbHtableAdd, h.interfaceTable_eq, List.filter_append]
    split_ifs with hb <;> simp [hb]

/-- `db_list_type_t`. -/
inductive ListType
  | entry
  | object
  | interface
deriving DecidableEq

/-- `db_list_first`. -/
def dbListFirst (h : ListsMgmt α hash) (listType : ListType) (id : Uuid) : List (Entry α) :=
  match listType with
  | .entry => h.entryList
  | .object => h.objectTable (hash id % dbNbucket)
  | .interface => h.interfaceTable (hash id % dbNbucket)

/-! ### Contexts -/

/-- `db_contexth_t`; `lp` is not null. -/
structure Context (α : Type*) where
  listType : ListType
  lp : List (Entry α)
  pass : ℕ

def dbMaxReadNrefs : ℕ := 0xfff0

/-- `db_save_context`.  The entry has the references that other readers hold.  If there are
too many, the context is given up; one that has just been allocated has nothing in it
then, and `none` stands for what the code does with it. -/
def dbSaveContext (handle : Option (Context α)) (listType : ListType) (lp : List (Entry α))
    (pass : ℕ) : Option (Option (Context α)) :=
  match lp with
  | [] => some none
  | e :: _ =>
    if dbMaxReadNrefs ≤ e.readNrefs + 1 then (if handle.isSome then some none else none)
    else some (some { listType := listType, lp := lp, pass := pass })

inductive Status
  | ok
  | notRegistered
  | invalidEntry
  | invalidContext
  | cantPerformOp
deriving DecidableEq

/-- The output parameters of a search. -/
structure Reply (α : Type*) where
  entries : List (Entry α)
  status : Status
  handle : Option (Context α)

/-- The end of a search: the context is saved, and nothing found is an error. -/
def reply (handle : Option (Context α)) (listType : ListType) (pass : ℕ)
    (found : List (Entry α) × List (Entry α)) : Option (Reply α) := do
  let handle ← dbSaveContext handle listType found.2 pass
  some { entries := found.1
         status := if found.1 = [] then .notRegistered else .ok
         handle := handle }

/-- A search that is refused; its context is deleted. -/
def refuse (status : Status) : Option (Reply α) :=
  some { entries := [], status := status, handle := none }

/-! ### Map -/

/-- What a caller of `epdb_map` looks for. -/
structure MapKey where
  object : Uuid
  interface : IfId
  dataRep : SyntaxId
  rpcProtocol : ℕ
  rpcProtocolVersMajor : BitVec 32
  protseq : ℕ

/-- `RPC_IF_VERS_MAJOR`. -/
def SyntaxId.versMajor (s : SyntaxId) : BitVec 32 := s.version &&& 0xffff

/-- `RPC_IF_VERS_MINOR`. -/
def SyntaxId.versMinor (s : SyntaxId) : BitVec 32 := s.version >>> 16

/-- The part of the conditions that `map_match` and `map_mgmt_match` share. -/
def MapKey.compatible (key : MapKey) (e : Entry α) : Bool :=
  key.protseq = e.addr.rpcProtseqId && key.dataRep.id = e.dataRepId &&
    key.dataRep.versMajor = e.dataRepVersMajor && key.dataRep.versMinor ≤ e.dataRepVersMinor &&
    key.rpcProtocol = e.rpcProtocol && key.rpcProtocolVersMajor = e.rpcProtocolVersMajor

/-- The test in `map_match`. -/
def MapKey.maps (key : MapKey) (object : Uuid) (e : Entry α) : Bool :=
  !e.deleteFlag && ((uuidIsNil object && e.objectNil || object = e.object) &&
    key.interface.uuid = e.interface.uuid && key.interface.versMajor = e.interface.versMajor &&
    key.interface.versMinor ≤ e.interface.versMinor && key.compatible e)

/-- `map_match`. -/
def mapMatch (key : MapKey) (object : Uuid) (maxEnts : ℕ) (entries lp : List (Entry α)) :
    List (Entry α) × List (Entry α) :=
  fillPage (fun _ => key.maps object) maxEnts entries lp

/-- Pass 2 of `map`. -/
def mapPass2 (key : MapKey) (maxEnts : ℕ) (handle : Option (Context α))
    (entries lp : List (Entry α)) : Option (Reply α) :=
  reply handle .interface 2 (mapMatch key 0 maxEnts entries lp)

/-- Pass 1 of `map`. -/
def mapPass1 (h : ListsMgmt α hash) (key : MapKey) (maxEnts : ℕ) (handle : Option (Context α))
    (lp : List (Entry α)) : Option (Reply α) :=
  let (entries, lp) := mapMatch key key.object maxEnts [] lp
  if maxEnts ≤ entries.length ∧ lp ≠ [] then reply handle .object 1 (entries, lp)
  else mapPass2 key maxEnts handle entries (dbListFirst h .interface key.interface.uuid)

/-- `map`. -/
def map (h : ListsMgmt α hash) (key : MapKey) (handle : Option (Context α)) (maxEnts : ℕ) :
    Option (Reply α) :=
  match handle with
  | none =>
    if uuidIsNil key.object then
      mapPass2 key maxEnts none [] (dbListFirst h .interface key.interface.uuid)
    else mapPass1 h key maxEnts none (dbListFirst h .object key.object)
  | some ctx =>
    if ctx.pass = 1 then mapPass1 h key maxEnts handle ctx.lp
    else mapPass2 key maxEnts handle [] ctx.lp

/-- The test in `map_mgmt_match`, but for the endpoint. -/
def MapKey.mapsMgmt (key : MapKey) (e : Entry α) : Bool :=
  !e.deleteFlag && (key.object = e.object && key.compatible e)

/-- `map_mgmt_match`, with `map_mgmt_endpt_unique`. -/
def mapMgmtMatch [DecidableEq α] (key : MapKey) (maxEnts : ℕ) (lp : List (Entry α)) :
    List (Entry α) × List (Entry α) :=
  fillPage (freshKey (fun e : Entry α => e.addr.sa) key.mapsMgmt) maxEnts [] lp

/-- `map_mgmt`. -/
def mapMgmt [DecidableEq α] (h : ListsMgmt α hash) (key : MapKey) (handle : Option (Context α))
    (maxEnts : ℕ) : Option (Reply α) :=
  if uuidIsNil key.object then refuse .invalidEntry
  else
    match handle with
    | none => reply none .object 1 (mapMgmtMatch key maxEnts (dbListFirst h .object key.object))
    | some ctx => reply handle ctx.listType ctx.pass (mapMgmtMatch key maxEnts ctx.lp)

/-- The id of the management interface. -/
def mgmtIfId : Uuid := 0xafa8bd807d8a11c9bef408002b102989

/-- `epdb_chk_map_entry`; `supported` is `RPC_PROTSEQ_INQ_SUPPORTED`. -/
def epdbChkMapEntry (supported : ℕ → Bool) (key : MapKey) : Bool :=
  !(uuidIsNil key.interface.uuid || uuidIsNil key.dataRep.id || !supported key.protseq)

/-- `epdb_map`, for a tower that can be decoded. -/
def epdbMap [DecidableEq α] (h : ListsMgmt α hash) (supported : ℕ → Bool) (key : MapKey)
    (maxEnts : ℕ) (handle : Option (Context α)) : Option (Reply α) :=
  if !epdbChkMapEntry supported key then refuse .invalidEntry
  else if maxEnts = 0 then refuse .cantPerformOp
  else if key.interface.uuid = mgmtIfId then mapMgmt h key handle maxEnts
  else map h key handle maxEnts

/-! ### Lookup -/

inductive InquiryType
  | allElts
  | matchByIf
  | matchByObj
  | matchByBoth
deriving DecidableEq

inductive VersOption
  | all
  | compatible
  | exact
  | majorOnly
  | upto
deriving DecidableEq

/-- What a caller of `epdb_lookup` looks for. -/
structure Filter where
  inquiryType : InquiryType
  object : Uuid
  interface : IfId
  versOption : VersOption

/-- The list that a lookup searches. -/
def Filter.listType (f : Filter) : ListType :=
  match f.inquiryType with
  | .allElts => .entry
  | .matchByIf | .matchByBoth => .interface
  | .matchByObj => .object

def Filter.listId (f : Filter) : Uuid :=
  match f.inquiryType with
  | .allElts => 0
  | .matchByIf | .matchByBoth => f.interface.uuid
  | .matchByObj => f.object

/-- The version check of `lookup_match`. -/
def VersOption.accepts (o : VersOption) (wanted found : IfId) : Bool :=
  match o with
  | .all => true
  | .compatible => wanted.versMajor = found.versMajor && wanted.versMinor ≤ found.versMinor
  | .exact => wanted.versMajor = found.versMajor && wanted.versMinor = found.versMinor
  | .majorOnly => wanted.versMajor = found.versMajor
  | .upto =>
    if wanted.versMajor > found.versMajor then true
    else wanted.versMajor = found.versMajor && wanted.versMinor ≥ found.versMinor

/-- The tests of `lookup_match`. -/
def Filter.matches (f : Filter) (e : Entry α) : Bool :=
  !e.deleteFlag &&
    match f.inquiryType with
    | .allElts => true
    | .matchByIf => f.interface.uuid = e.interface.uuid && f.versOption.accepts f.interface e.interface
    | .matchByObj => f.object = e.object
    | .matchByBoth =>
      f.interface.uuid = e.interface.uuid && f.object = e.object &&
        f.versOption.accepts f.interface e.interface

/-- `lookup_match`. -/
def lookupMatch (f : Filter) (maxEnts : ℕ) (lp : List (Entry α)) :
    List (Entry α) × List (Entry α) :=
  fillPage (fun _ => f.matches) maxEnts [] lp

/-- `epdb_lookup`. -/
def epdbLookup (h : ListsMgmt α hash) (f : Filter) (maxEnts : ℕ) (handle : Option (Context α)) :
    Option (Reply α) :=
  match handle with
  | none => reply none f.listType 1 (lookupMatch f maxEnts (dbListFirst h f.listType f.listId))
  | some ctx =>
    if ctx.listType ≠ f.listType then refuse .invalidContext
    else reply handle ctx.listType ctx.pass (lookupMatch f maxEnts ctx.lp)

/-! ### A client -/

/-- A client calls with the handle it has got until there is none; the pages it gets. -/
def clientPages (call : Option (Context α) → Option (Reply α)) :
    ℕ → Option (Context α) → Option (List (List (Entry α)))
  | 0, _ => none
  | n + 1, handle => do
    let r ← call handle
    match r.handle with
    | none => some [r.entries]
    | some ctx => (clientPages call n (some ctx)).map (r.entries :: ·)

end EndpointMap
