/-
Registration with replace in the endpoint map (`epdb_insert`, rpcdepdb.c).

The entries that agree with the new one in everything but the endpoint are deleted, and then
the new one is stored, or an entry with the very same tower is taken into use again.  An entry
that a reader still points to is not removed but flagged, and stays on its chains.  Storing may
fail, and the deletions are not undone.

* `deleteScan_chain` — what the scan of a chain, with deletions on the way, leaves;
* `epdbInsert_wf` — the database stays well formed;
* `replace_right_iff` — a registration does what it is to do exactly when it is refused, storing
  succeeds, or there was nothing to change;
* `failed_insert_loses_entry` — storing fails, and the entry that was to be replaced is gone.
-/
import FreeDce.Rpcd.EndpointMap

namespace EpReplace

open EndpointMap (Uuid IfId SyntaxId Addr uuidIsNil dbNbucket)

variable {α : Type*}

/-! ### Entries -/

abbrev Tower := List (BitVec 8)

/-- `twr_fields_t`; its protocol sequence is not read here. -/
structure TwrFields where
  interface : IfId
  dataRep : SyntaxId
  rpcProtocol : ℕ
  rpcProtocolVersMajor : BitVec 32
  rpcProtocolVersMinor : BitVec 32

/-- `db_entry_t`; `id` is its address in the store. -/
structure DbEntry (α : Type*) where
  id : ℕ
  readNrefs : ℕ
  ncommFails : ℕ
  deleteFlag : Bool
  objectNil : Bool
  ifNil : Bool
  object : Uuid
  interface : IfId
  dataRepId : Uuid
  dataRepVersMajor : BitVec 32
  dataRepVersMinor : BitVec 32
  rpcProtocol : ℕ
  rpcProtocolVersMajor : BitVec 32
  rpcProtocolVersMinor : BitVec 32
  addr : Addr α
  annotation : List (BitVec 8)
  tower : Tower

/-- `ept_entry_t`. -/
structure EptEntry where
  object : Uuid
  annotation : List (BitVec 8)
  tower : Tower

/-- What reads towers and addresses: `tower_to_fields`, `tower_to_addr`, `tower_to_if_id`,
`rpc_tower_to_binding` (whether it succeeds) and `rpc__naf_addr_inq_netaddr`. -/
structure Naf (α : Type*) where
  towerToFields : Tower → Option TwrFields
  towerToAddr : Tower → Option (Addr α)
  towerToIfId : Tower → IfId
  towerToBinding : Tower → Bool
  addrLen : Addr α → ℕ
  inqNetaddr : Addr α → Option String
  towerToIfId_eq : ∀ {t f}, towerToFields t = some f → towerToIfId t = f.interface

/-- How the calls of the stable store end, and the address that the next one hands out. -/
structure Dsm where
  allocate : Bool
  detach : Bool
  write : Bool
  address : List ℕ → ℕ
  address_fresh : ∀ used, address used ∉ used

/-- `db_to_ept_ecode` makes `cantPerformOp` of every error of the store. -/
inductive Status
  | ok
  | invalidEntry
  | cantPerformOp
deriving DecidableEq

/-- The fields of an entry are those that its tower denotes. -/
def DbEntry.Filled (naf : Naf α) (e : DbEntry α) : Prop :=
  ∃ f, naf.towerToFields e.tower = some f ∧ naf.towerToAddr e.tower = some e.addr ∧
    e.interface = f.interface ∧ e.dataRepId = f.dataRep.id ∧
    e.dataRepVersMajor = f.dataRep.versMajor ∧ e.dataRepVersMinor = f.dataRep.versMinor ∧
    e.rpcProtocol = f.rpcProtocol ∧ e.rpcProtocolVersMajor = f.rpcProtocolVersMajor ∧
    e.rpcProtocolVersMinor = f.rpcProtocolVersMinor

/-- The entry list of a database: each entry at an address of its own, filled from its tower. -/
structure Wf (naf : Naf α) (db : List (DbEntry α)) : Prop where
  nodup : (db.map DbEntry.id).Nodup
  filled : ∀ e ∈ db, e.Filled naf

/-! ### Insertion -/

/-- `db_list_first` and `db_list_next`: the chain of the object, or of the interface if the object
is nil. -/
def chain (hash : Uuid → ℕ) (db : List (DbEntry α)) (object ifUuid : Uuid) : List (DbEntry α) :=
  if uuidIsNil object = false then
    db.filter fun e => hash e.object % dbNbucket = hash object % dbNbucket
  else db.filter fun e => hash e.interface.uuid % dbNbucket = hash ifUuid % dbNbucket

/-- `epdb_is_replace_candidate`. -/
def isReplaceCandidate (e : DbEntry α) (object : Uuid) (tfp : TwrFields) (addr : Addr α) : Bool :=
  object = e.object && tfp.interface.uuid = e.interface.uuid &&
    tfp.interface.versMajor = e.interface.versMajor && addr.rpcProtseqId = e.addr.rpcProtseqId &&
    tfp.dataRep.id = e.dataRepId && tfp.dataRep.versMajor = e.dataRepVersMajor &&
    tfp.dataRep.versMinor = e.dataRepVersMinor && tfp.rpcProtocol = e.rpcProtocol &&
    tfp.rpcProtocolVersMajor = e.rpcProtocolVersMajor &&
    tfp.rpcProtocolVersMinor = e.rpcProtocolVersMinor

/-- `epdb_delete_entry`. -/
def deleteEntry (db : List (DbEntry α)) (e : DbEntry α) : List (DbEntry α) :=
  if e.readNrefs = 0 then db.filter fun d => d.id ≠ e.id
  else db.map fun d => if d.id = e.id then { d with deleteFlag := true } else d

/-- The first scan of `epdb_delete_replaceable_entries`. -/
def greaterMinor (object : Uuid) (tfp : TwrFields) (addr : Addr α) (lp : List (DbEntry α)) : Bool :=
  lp.any fun e => !e.deleteFlag && (isReplaceCandidate e object tfp addr &&
    tfp.interface.versMinor < e.interface.versMinor)

/-- The test of the second scan. -/
def replaceable (naf : Naf α) (object : Uuid) (tfp : TwrFields) (addr : Addr α) (netaddr : String)
    (e : DbEntry α) : Bool :=
  !e.deleteFlag && (isReplaceCandidate e object tfp addr && naf.inqNetaddr e.addr = some netaddr)

/-- The second scan.  The next entry is read before this one is deleted, so the scan is over the
chain as it was; an entry on it is changed by its own turn only. -/
def deleteScan (naf : Naf α) (object : Uuid) (tfp : TwrFields) (addr : Addr α) (netaddr : String) :
    List (DbEntry α) → List (DbEntry α) → List (DbEntry α)
  | [], db => db
  | e :: lpNext, db =>
    deleteScan naf object tfp addr netaddr lpNext
      (if replaceable naf object tfp addr netaddr e then deleteEntry db e else db)

/-- `epdb_delete_replaceable_entries`. -/
def deleteReplaceableEntries (naf : Naf α) (hash : Uuid → ℕ) (db : List (DbEntry α)) (object : Uuid)
    (tfp : TwrFields) (addr : Addr α) : List (DbEntry α) × Status :=
  match naf.inqNetaddr addr with
  | none => (db, .invalidEntry)
  | some netaddr =>
    let lpFirst := chain hash db object tfp.interface.uuid
    if greaterMinor object tfp addr lpFirst then (db, .invalidEntry)
    else (deleteScan naf object tfp addr netaddr lpFirst db, .ok)

/-- `epdb_lookup_entry`: also entries that are marked as deleted. -/
def lookupEntry (naf : Naf α) (hash : Uuid → ℕ) (db : List (DbEntry α)) (x : EptEntry) :
    Option (DbEntry α) :=
  (chain hash db x.object (naf.towerToIfId x.tower).uuid).find? fun e =>
    x.object = e.object && x.tower = e.tower

/-- The entry that `epdb_insert_entry` fills in. -/
def newEntry (id : ℕ) (x : EptEntry) (tfp : TwrFields) (addr : Addr α) : DbEntry α where
  id := id
  readNrefs := 0
  ncommFails := 0
  deleteFlag := false
  objectNil := uuidIsNil x.object
  ifNil := uuidIsNil tfp.interface.uuid
  object := x.object
  interface := tfp.interface
  dataRepId := tfp.dataRep.id
  dataRepVersMajor := tfp.dataRep.versMajor
  dataRepVersMinor := tfp.dataRep.versMinor
  rpcProtocol := tfp.rpcProtocol
  rpcProtocolVersMajor := tfp.rpcProtocolVersMajor
  rpcProtocolVersMinor := tfp.rpcProtocolVersMinor
  addr := addr
  annotation := x.annotation
  tower := x.tower

/-- `epdb_insert_entry`. -/
def insertEntry (dsm : Dsm) (db : List (DbEntry α)) (x : EptEntry) (tfp : TwrFields)
    (addr : Addr α) : List (DbEntry α) × Status :=
  if dsm.allocate = false then (db, .cantPerformOp)
  else if dsm.write = false then (db, .cantPerformOp)
  else (db ++ [newEntry (dsm.address (db.map DbEntry.id)) x tfp addr], .ok)

/-- What `epdb_replace_entry` makes of the entry it is given. -/
def refreshed (x : EptEntry) (e : DbEntry α) : DbEntry α :=
  { e with ncommFails := 0, deleteFlag := false, annotation := x.annotation }

/-- `epdb_replace_entry`; the entry is changed before the store is. -/
def replaceEntry (dsm : Dsm) (db : List (DbEntry α)) (x : EptEntry) (e : DbEntry α) :
    List (DbEntry α) × Status :=
  (db.map fun d => if d.id = e.id then refreshed x d else d,
    if dsm.detach = false then .cantPerformOp
    else if dsm.write = false then .cantPerformOp else .ok)

/-- `epdb_chk_entry`. -/
def chkEntry (naf : Naf α) (x : EptEntry) (tfp : TwrFields) (addr : Addr α) : Bool :=
  !(uuidIsNil tfp.interface.uuid || uuidIsNil tfp.dataRep.id || naf.addrLen addr = 0) &&
    naf.towerToBinding x.tower

/-- The part of `epdb_insert` after the deletions. -/
def store (naf : Naf α) (hash : Uuid → ℕ) (dsm : Dsm) (db : List (DbEntry α)) (x : EptEntry)
    (tfp : TwrFields) (addr : Addr α) : List (DbEntry α) × Status :=
  match lookupEntry naf hash db x with
  | none => insertEntry dsm db x tfp addr
  | some e => replaceEntry dsm db x e

/-- The part of `epdb_insert` that holds the lock. -/
def insertLocked (naf : Naf α) (hash : Uuid → ℕ) (dsm : Dsm) (db : List (DbEntry α)) (x : EptEntry)
    (tfp : TwrFields) (addr : Addr α) (replace : Bool) : List (DbEntry α) × Status :=
  if replace then
    match deleteReplaceableEntries naf hash db x.object tfp addr with
    | (db, .ok) => store naf hash dsm db x tfp addr
    | (db, status) => (db, status)
  else store naf hash dsm db x tfp addr

/-- `epdb_insert`. -/
def epdbInsert (naf : Naf α) (hash : Uuid → ℕ) (dsm : Dsm) (db : List (DbEntry α)) (x : EptEntry)
    (replace : Bool) : List (DbEntry α) × Status :=
  match naf.towerToFields x.tower with
  | none => (db, .invalidEntry)
  | some tfp =>
    match naf.towerToAddr x.tower with
    | none => (db, .invalidEntry)
    | some addr =>
      if chkEntry naf x tfp addr = false then (db, .invalidEntry)
      else insertLocked naf hash dsm db x tfp addr replace

/-! ### What a registration is to do -/

/-- The entry agrees with the new one in everything but the endpoint. -/
def agrees (naf : Naf α) (object : Uuid) (tfp : TwrFields) (addr : Addr α) (netaddr : String)
    (e : DbEntry α) : Bool :=
  isReplaceCandidate e object tfp addr && naf.inqNetaddr e.addr = some netaddr

/-- The very entry that is registered. -/
def exact (x : EptEntry) (e : DbEntry α) : Bool := x.object = e.object && x.tower = e.tower

/-- The database `db'` is `db` with the new entry in place of those that agree with it: it is the
only one that is not deleted; what does not agree is as it was; what agrees and was deleted is as it
was, unless it became the new entry; and the rest are replaced entries to which readers point. -/
structure Replaced (naf : Naf α) (x : EptEntry) (tfp : TwrFields) (addr : Addr α) (netaddr : String)
    (db db' : List (DbEntry α)) (new : DbEntry α) : Prop where
  only : db'.filter (replaceable naf x.object tfp addr netaddr) = [new]
  exact : exact x new = true
  annotation : new.annotation = x.annotation
  others : db'.filter (fun e => !agrees naf x.object tfp addr netaddr e) =
    db.filter fun e => !agrees naf x.object tfp addr netaddr e
  deleted : ∀ e ∈ db, e.deleteFlag = true → e ∈ db' ∨ e.id = new.id
  flagged : ∀ e ∈ db', e = new ∨ e ∈ db ∨
    ∃ d ∈ db, replaceable naf x.object tfp addr netaddr d = true ∧
      e = { d with deleteFlag := true }

/-- What a registration with replace is to do. -/
def Right (naf : Naf α) (hash : Uuid → ℕ) (dsm : Dsm) (db : List (DbEntry α)) (x : EptEntry) :
    Prop :=
  match epdbInsert naf hash dsm db x true with
  | (db', .ok) => ∃ tfp addr netaddr new, naf.towerToFields x.tower = some tfp ∧
      naf.towerToAddr x.tower = some addr ∧ naf.inqNetaddr addr = some netaddr ∧
      greaterMinor x.object tfp addr db = false ∧ Replaced naf x tfp addr netaddr db db' new
  | (db', _) => db' = db

/-- The entry that the lookup finds after the deletions. -/
def survives (x : EptEntry) (e : DbEntry α) : Bool :=
  exact x e && (e.deleteFlag || e.readNrefs ≠ 0)

/-- The calls of the stable store that the registration needs succeed. -/
def Stored (dsm : Dsm) (db : List (DbEntry α)) (x : EptEntry) : Prop :=
  (if (db.find? (survives x)).isSome then dsm.detach = true else dsm.allocate = true) ∧
    dsm.write = true

/-- There is nothing to delete, and no entry to refresh. -/
def NothingToChange (naf : Naf α) (db : List (DbEntry α)) (x : EptEntry) (tfp : TwrFields)
    (addr : Addr α) (netaddr : String) : Prop :=
  match db.find? (survives x) with
  | none => ∀ e ∈ db, replaceable naf x.object tfp addr netaddr e = false
  | some e => db.filter (replaceable naf x.object tfp addr netaddr) = [e] ∧ e.ncommFails = 0 ∧
      e.annotation = x.annotation

/-- The new entry is refused before anything is touched. -/
def Refused (naf : Naf α) (db : List (DbEntry α)) (x : EptEntry) : Prop :=
  ∀ tfp addr, naf.towerToFields x.tower = some tfp → naf.towerToAddr x.tower = some addr →
    chkEntry naf x tfp addr = true → (naf.inqNetaddr addr).isSome →
      greaterMinor x.object tfp addr db = true

/-! ### The scans -/

section Scan

variable {naf : Naf α} {hash : Uuid → ℕ} {db : List (DbEntry α)} {object : Uuid} {tfp : TwrFields}
  {addr : Addr α} {netaddr : String}

theorem replaceable_eq (e : DbEntry α) : replaceable naf object tfp addr netaddr e =
    (!e.deleteFlag && agrees naf object tfp addr netaddr e) := rfl

/-- A candidate is on the chain that is scanned. -/
theorem mem_chain_of_candidate {e : DbEntry α} (he : e ∈ db)
    (h : isReplaceCandidate e object tfp addr = true) :
    e ∈ chain hash db object tfp.interface.uuid := by
  simp only [isReplaceCandidate, Bool.and_eq_true, decide_eq_true_eq] at h
  have hobj : object = e.object := by tauto
  have hif : tfp.interface.uuid = e.interface.uuid := by tauto
  rw [chain]
  split_ifs
  · exact List.mem_filter.mpr ⟨he, by simp [hobj]⟩
  · exact List.mem_filter.mpr ⟨he, by simp [hif]⟩

theorem chain_sublist (hash : Uuid → ℕ) (db : List (DbEntry α)) (object ifUuid : Uuid) :
    (chain hash db object ifUuid).Sublist db := by
  rw [chain]
  split_ifs <;> exact List.filter_sublist

/-- The scan of the chain sees every candidate of the database. -/
theorem greaterMinor_chain : greaterMinor object tfp addr (chain hash db object tfp.interface.uuid) =
    greaterMinor object tfp addr db := by
  rw [Bool.eq_iff_iff, greaterMinor, greaterMinor, List.any_eq_true, List.any_eq_true]
  constructor
  · rintro ⟨e, he, h⟩
    exact ⟨e, (chain_sublist ..).subset he, h⟩
  · rintro ⟨e, he, h⟩
    have hcand : isReplaceCandidate e object tfp addr = true := by
      simp only [Bool.and_eq_true] at h
      exact h.2.1
    exact ⟨e, mem_chain_of_candidate he hcand, h⟩

/-- What deletion makes of an entry. -/
def deleted (e : DbEntry α) : Option (DbEntry α) :=
  if e.readNrefs = 0 then none else some { e with deleteFlag := true }

theorem id_of_deleted {e d : DbEntry α} (h : deleted e = some d) : d.id = e.id := by
  rw [deleted] at h
  split_ifs at h
  rw [← Option.some_inj.mp h]

theorem deleteEntry_eq {e : DbEntry α} (hsame : ∀ d ∈ db, d.id = e.id → d = e) :
    deleteEntry db e = db.filterMap fun d => if d.id = e.id then deleted d else some d := by
  rw [deleteEntry]
  split_ifs with hnrefs
  · rw [← List.filterMap_eq_filter]
    refine List.filterMap_congr fun d hd => ?_
    by_cases hid : d.id = e.id
    · simp [Option.guard, deleted, hsame d hd hid, hnrefs]
    · simp [Option.guard, hid]
  · rw [← List.filterMap_eq_map']
    refine List.filterMap_congr fun d hd => ?_
    by_cases hid : d.id = e.id
    · simp [deleted, hsame d hd hid, hnrefs]
    · simp [hid]

/-- The scan deletes those entries of the list that are to be replaced. -/
theorem deleteScan_eq : ∀ (lp db : List (DbEntry α)), (lp.map DbEntry.id).Nodup →
    (∀ e ∈ lp, ∀ d ∈ db, d.id = e.id → d = e) →
    deleteScan naf object tfp addr netaddr lp db = db.filterMap fun d =>
      if d.id ∈ lp.map DbEntry.id ∧ replaceable naf object tfp addr netaddr d = true then deleted d
      else some d := by
  intro lp
  induction lp with
  | nil =>
    intro db _ _
    simp [deleteScan]
  | cons e lp ih =>
    intro db hnodup hsame
    rw [List.map_cons, List.nodup_cons] at hnodup
    have hhead : ∀ d ∈ db, d.id = e.id → d = e := hsame e List.mem_cons_self
    have htail : ∀ e' ∈ lp, ∀ d ∈ db, d.id = e'.id → d = e' :=
      fun e' he' => hsame e' (List.mem_cons_of_mem _ he')
    rw [deleteScan]
    split_ifs with hrep
    · -- the rest of the walk is on what the deletion leaves
      rw [ih _ hnodup.2, deleteEntry_eq hhead, List.filterMap_filterMap]
      · refine List.filterMap_congr fun d hd => ?_
        by_cases hid : d.id = e.id
        · -- the entry itself: what is left of it is not looked at again
          obtain rfl := hhead d hd hid
          simp only [if_true, List.map_cons, List.mem_cons, true_or, hrep, and_self]
          cases hdel : deleted d with
          | none => rfl
          | some d' =>
            have hid' := id_of_deleted hdel
            simp only [Option.bind_some, hid', hnodup.1, false_and, if_false]
        · simp only [hid, if_false, Option.bind_some, List.map_cons, List.mem_cons, false_or]
      · intro e' he' d hd hid
        rw [deleteEntry_eq hhead, List.mem_filterMap] at hd
        obtain ⟨d₀, hd₀, heq⟩ := hd
        have hne : ¬ d₀.id = e.id := by
          intro hid₀
          rw [if_pos hid₀] at heq
          have hsome := id_of_deleted heq
          refine hnodup.1 ?_
          rw [← hid₀, ← hsome, hid]
          exact List.mem_map_of_mem he'
        rw [if_neg hne, Option.some_inj] at heq
        rw [← heq]
        exact htail e' he' d₀ hd₀ (by rw [heq, hid])
    · rw [ih db hnodup.2 htail]
      refine List.filterMap_congr fun d hd => ?_
      by_cases hid : d.id = e.id
      · obtain rfl := hhead d hd hid
        simp [hrep]
      · simp only [List.map_cons, List.mem_cons, hid, false_or]

/-- What the entry becomes that is to be replaced, and what does not agree stays. -/
def afterDelete (naf : Naf α) (object : Uuid) (tfp : TwrFields) (addr : Addr α) (netaddr : String)
    (e : DbEntry α) : Option (DbEntry α) :=
  if replaceable naf object tfp addr netaddr e = true then deleted e else some e

theorem nodup_same (hnodup : (db.map DbEntry.id).Nodup) {e d : DbEntry α} (he : e ∈ db) (hd : d ∈ db)
    (hid : d.id = e.id) : d = e :=
  List.inj_on_of_nodup_map hnodup hd he hid

/-- The scan of the chain deletes all entries that are to be replaced, and no other. -/
theorem deleteScan_chain (hnodup : (db.map DbEntry.id).Nodup) :
    deleteScan naf object tfp addr netaddr (chain hash db object tfp.interface.uuid) db =
      db.filterMap (afterDelete naf object tfp addr netaddr) := by
  have hsub := chain_sublist hash db object tfp.interface.uuid
  rw [deleteScan_eq _ _ (hnodup.sublist (hsub.map _))
    fun e he d hd => nodup_same hnodup (hsub.subset he) hd]
  refine List.filterMap_congr fun d hd => ?_
  rw [afterDelete]
  by_cases hrep : replaceable naf object tfp addr netaddr d = true
  · have hchain : d ∈ chain hash db object tfp.interface.uuid := by
      refine mem_chain_of_candidate hd (?_ : isReplaceCandidate d object tfp addr = true)
      rw [replaceable, Bool.and_eq_true, Bool.and_eq_true] at hrep
      exact hrep.2.1
    rw [if_pos ⟨List.mem_map_of_mem hchain, hrep⟩, if_pos hrep]
  · rw [if_neg fun h => hrep h.2, if_neg hrep]

end Scan

/-! ### The database after the deletions -/

section AfterDelete

variable {naf : Naf α} {hash : Uuid → ℕ} {db : List (DbEntry α)} {object : Uuid} {tfp : TwrFields}
  {addr : Addr α} {netaddr : String}

/-- What the scan leaves of an entry is the entry, or the entry flagged. -/
theorem afterDelete_cases {e d : DbEntry α} (h : afterDelete naf object tfp addr netaddr e = some d) :
    (replaceable naf object tfp addr netaddr e = false ∧ d = e) ∨
      (replaceable naf object tfp addr netaddr e = true ∧ e.readNrefs ≠ 0 ∧
        d = { e with deleteFlag := true }) := by
  rw [afterDelete] at h
  split_ifs at h with hrep
  · rw [deleted] at h
    split_ifs at h with hnrefs
    exact .inr ⟨hrep, hnrefs, (Option.some_inj.mp h).symm⟩
  · exact .inl ⟨by simpa using hrep, (Option.some_inj.mp h).symm⟩

theorem id_of_afterDelete {e d : DbEntry α}
    (h : afterDelete naf object tfp addr netaddr e = some d) : d.id = e.id := by
  rcases afterDelete_cases h with ⟨-, rfl⟩ | ⟨-, -, rfl⟩ <;> rfl

theorem afterDelete_of_not {e : DbEntry α} (h : replaceable naf object tfp addr netaddr e = false) :
    afterDelete naf object tfp addr netaddr e = some e := by
  rw [afterDelete, h]
  rfl

theorem afterDelete_of_referenced {e : DbEntry α}
    (h : replaceable naf object tfp addr netaddr e = true) (hnrefs : e.readNrefs ≠ 0) :
    afterDelete naf object tfp addr netaddr e = some { e with deleteFlag := true } := by
  rw [afterDelete, if_pos h, deleted, if_neg hnrefs]

/-- Flagging an entry changes nothing that agreement looks at. -/
theorem agrees_flag (e : DbEntry α) : agrees naf object tfp addr netaddr
    { e with deleteFlag := true } = agrees naf object tfp addr netaddr e := rfl

theorem not_replaceable_after {e : DbEntry α}
    (he : e ∈ db.filterMap (afterDelete naf object tfp addr netaddr)) :
    replaceable naf object tfp addr netaddr e = false := by
  rw [List.mem_filterMap] at he
  obtain ⟨d, -, hd⟩ := he
  rcases afterDelete_cases hd with ⟨hrep, rfl⟩ | ⟨-, -, rfl⟩
  · exact hrep
  · rfl

theorem filter_replaceable_after :
    (db.filterMap (afterDelete naf object tfp addr netaddr)).filter
      (replaceable naf object tfp addr netaddr) = [] := by
  rw [List.filter_eq_nil_iff]
  intro e he
  rw [not_replaceable_after he]
  exact Bool.false_ne_true

/-- What does not agree is not touched. -/
theorem filter_others_after :
    (db.filterMap (afterDelete naf object tfp addr netaddr)).filter
      (fun e => !agrees naf object tfp addr netaddr e) =
    db.filter fun e => !agrees naf object tfp addr netaddr e := by
  induction db with
  | nil => rfl
  | cons e db ih =>
    rw [List.filterMap_cons]
    cases hafter : afterDelete naf object tfp addr netaddr e with
    | none =>
      have hrep : agrees naf object tfp addr netaddr e = true := by
        by_contra hnot
        rw [afterDelete_of_not (by simp [replaceable_eq, hnot])] at hafter
        exact Option.some_ne_none _ hafter
      rw [List.filter_cons_of_neg (by simp [hrep])]
      exact ih
    | some d =>
      rcases afterDelete_cases hafter with ⟨-, rfl⟩ | ⟨hrep, -, rfl⟩
      · simp only [List.filter_cons, ih]
      · rw [replaceable_eq, Bool.and_eq_true] at hrep
        rw [List.filter_cons_of_neg (by simp [agrees_flag, hrep.2]),
          List.filter_cons_of_neg (by simp [hrep.2])]
        exact ih

theorem map_id_after : ((db.filterMap (afterDelete naf object tfp addr netaddr)).map
    DbEntry.id).Sublist (db.map DbEntry.id) := by
  induction db with
  | nil => exact List.Sublist.refl _
  | cons e db ih =>
    rw [List.filterMap_cons]
    cases hafter : afterDelete naf object tfp addr netaddr e with
    | none => exact ih.cons _
    | some d =>
      rw [List.map_cons, List.map_cons, id_of_afterDelete hafter]
      exact ih.cons_cons _

theorem mem_after {e : DbEntry α}
    (he : e ∈ db.filterMap (afterDelete naf object tfp addr netaddr)) :
    e ∈ db ∨ ∃ d ∈ db, replaceable naf object tfp addr netaddr d = true ∧
      e = { d with deleteFlag := true } := by
  rw [List.mem_filterMap] at he
  obtain ⟨d, hd, hafter⟩ := he
  rcases afterDelete_cases hafter with ⟨-, rfl⟩ | ⟨hrep, -, rfl⟩
  · exact .inl hd
  · exact .inr ⟨d, hd, hrep, rfl⟩

theorem mem_after_of_not {e : DbEntry α} (he : e ∈ db)
    (hrep : replaceable naf object tfp addr netaddr e = false) :
    e ∈ db.filterMap (afterDelete naf object tfp addr netaddr) :=
  List.mem_filterMap.mpr ⟨e, he, afterDelete_of_not hrep⟩

/-- Nothing is changed exactly if nothing is to be replaced. -/
theorem after_eq_self_iff : db.filterMap (afterDelete naf object tfp addr netaddr) = db ↔
    ∀ e ∈ db, replaceable naf object tfp addr netaddr e = false := by
  constructor
  · intro h e he
    rw [← h] at he
    exact not_replaceable_after he
  · intro h
    rw [List.filterMap_congr fun e he => afterDelete_of_not (h e he), List.filterMap_some]

end AfterDelete

/-! ### The lookup -/

section Lookup

variable {naf : Naf α} {hash : Uuid → ℕ} {db : List (DbEntry α)} {x : EptEntry} {tfp : TwrFields}
  {addr : Addr α} {netaddr : String}

theorem exact_flag (e : DbEntry α) :
    exact x { e with deleteFlag := true } = exact x e := rfl

/-- An entry with the very same object and tower agrees with the new one. -/
theorem agrees_of_exact {e : DbEntry α} (hfilled : e.Filled naf)
    (hfields : naf.towerToFields x.tower = some tfp) (haddr : naf.towerToAddr x.tower = some addr)
    (hnet : naf.inqNetaddr addr = some netaddr) (h : exact x e = true) :
    agrees naf x.object tfp addr netaddr e = true := by
  simp only [exact, Bool.and_eq_true, decide_eq_true_eq] at h
  obtain ⟨f, hf, ha, hif, hid, hmaj, hmin, hprot, hpmaj, hpmin⟩ := hfilled
  rw [← h.2, hfields, Option.some_inj] at hf
  rw [← h.2, haddr, Option.some_inj] at ha
  simp [agrees, isReplaceCandidate, h.1, ← hf, ← ha, hif, hid, hmaj, hmin, hprot, hpmaj, hpmin, hnet]

/-- The chain holds the entry that is looked for, if there is one. -/
theorem lookupEntry_eq (hfilled : ∀ e ∈ db, e.Filled naf)
    (hfields : naf.towerToFields x.tower = some tfp) :
    lookupEntry naf hash db x = db.find? (exact x) := by
  rw [lookupEntry, naf.towerToIfId_eq hfields, chain]
  have hon : ∀ e ∈ db, exact x e = true →
      e.object = x.object ∧ e.interface.uuid = tfp.interface.uuid := by
    intro e he h
    simp only [exact, Bool.and_eq_true, decide_eq_true_eq] at h
    obtain ⟨f, hf, -, hif, -⟩ := hfilled e he
    rw [← h.2, hfields, Option.some_inj] at hf
    exact ⟨h.1.symm, by rw [hif, hf]⟩
  split_ifs <;>
  · rw [List.find?_filter]
    refine List.find?_congr fun e he => ?_
    rw [Bool.eq_iff_iff, decide_eq_true_iff]
    exact ⟨fun h => h.2, fun h => ⟨by simp [hon e he h], h⟩⟩

theorem filled_after (hfilled : ∀ e ∈ db, e.Filled naf) :
    ∀ e ∈ db.filterMap (afterDelete naf x.object tfp addr netaddr), e.Filled naf := by
  intro e he
  rcases mem_after he with he | ⟨d, hd, -, rfl⟩
  · exact hfilled e he
  · exact hfilled d hd

/-- After the deletions the lookup finds what survives of the entries before. -/
theorem find_after (hfilled : ∀ e ∈ db, e.Filled naf)
    (hfields : naf.towerToFields x.tower = some tfp) (haddr : naf.towerToAddr x.tower = some addr)
    (hnet : naf.inqNetaddr addr = some netaddr) :
    (db.filterMap (afterDelete naf x.object tfp addr netaddr)).find? (exact x) =
      (db.find? (survives x)).bind (afterDelete naf x.object tfp addr netaddr) := by
  rw [List.find?_filterMap]
  congr 1
  refine List.find?_congr fun e he => ?_
  rw [survives]
  by_cases hex : exact x e = true
  · have hagree := agrees_of_exact (hfilled e he) hfields haddr hnet hex
    by_cases hflag : e.deleteFlag = true
    · rw [afterDelete_of_not (by simp [replaceable_eq, hflag])]
      simp [hex, hflag]
    · have hrep : replaceable naf x.object tfp addr netaddr e = true := by
        simp [replaceable_eq, hagree, hflag]
      by_cases hnrefs : e.readNrefs = 0
      · rw [afterDelete, if_pos hrep, deleted, if_pos hnrefs]
        simp [hflag, hnrefs]
      · rw [afterDelete_of_referenced hrep hnrefs]
        simp [exact_flag, hex, hnrefs]
  · cases hafter : afterDelete naf x.object tfp addr netaddr e with
    | none => simp [hex]
    | some d =>
      rcases afterDelete_cases hafter with ⟨-, rfl⟩ | ⟨-, -, rfl⟩
      · simp [hex]
      · simp [exact_flag, hex]

end Lookup

/-! ### An entry taken into use again -/

section Refresh

variable {db : List (DbEntry α)} {x : EptEntry} {e : DbEntry α}

/-- `db` with the entry at the address of `e` refreshed. -/
def refreshAt (x : EptEntry) (e : DbEntry α) (db : List (DbEntry α)) : List (DbEntry α) :=
  db.map fun d => if d.id = e.id then refreshed x d else d

theorem map_id_refreshAt : (refreshAt x e db).map DbEntry.id = db.map DbEntry.id := by
  rw [refreshAt, List.map_map]
  refine List.map_congr_left fun d _ => ?_
  rw [Function.comp_apply]
  split_ifs <;> rfl

theorem refreshAt_of_not_mem (h : e.id ∉ db.map DbEntry.id) : refreshAt x e db = db := by
  rw [refreshAt]
  conv_rhs => rw [← List.map_id db]
  refine List.map_congr_left fun d hd => ?_
  have hne : ¬ d.id = e.id := fun hid => h (by rw [← hid]; exact List.mem_map_of_mem hd)
  rw [if_neg hne, id]

/-- If no other entry is of a kind, the refreshed entry is the only one. -/
theorem filter_refreshAt {p : DbEntry α → Bool} : ∀ {db : List (DbEntry α)},
    (db.map DbEntry.id).Nodup → e ∈ db → (∀ d ∈ db, p d = false) → p (refreshed x e) = true →
    (refreshAt x e db).filter p = [refreshed x e] := by
  intro db
  induction db with
  | nil =>
    intro _ he
    exact absurd he List.not_mem_nil
  | cons d db ih =>
    intro hnodup he hp hpe
    rw [List.map_cons, List.nodup_cons] at hnodup
    have htail : ∀ d' ∈ db, p d' = false := fun d' hd' => hp d' (List.mem_cons_of_mem _ hd')
    have hcons : refreshAt x e (d :: db) =
        (if d.id = e.id then refreshed x d else d) :: refreshAt x e db := rfl
    rw [hcons]
    rcases List.mem_cons.mp he with rfl | he
    · rw [if_pos rfl, refreshAt_of_not_mem hnodup.1, List.filter_cons_of_pos hpe,
        List.filter_eq_nil_iff.mpr fun d' hd' => by simp [htail d' hd']]
    · have hne : ¬ d.id = e.id := fun hid => hnodup.1 (hid ▸ List.mem_map_of_mem he)
      rw [if_neg hne, List.filter_cons_of_neg (by simp [hp d List.mem_cons_self])]
      exact ih hnodup.2 he htail hpe

/-- Refreshing an entry changes nothing among the entries of a kind that it never is of. -/
theorem filter_refreshAt_of_not {p : DbEntry α → Bool}
    (h : ∀ d ∈ db, d.id = e.id → p d = false ∧ p (refreshed x d) = false) :
    (refreshAt x e db).filter p = db.filter p := by
  induction db with
  | nil => rfl
  | cons d db ih =>
    have hcons : refreshAt x e (d :: db) =
        (if d.id = e.id then refreshed x d else d) :: refreshAt x e db := rfl
    have htail := ih fun d' hd' => h d' (List.mem_cons_of_mem _ hd')
    rw [hcons]
    split_ifs with hid
    · obtain ⟨h₁, h₂⟩ := h d List.mem_cons_self hid
      rw [List.filter_cons_of_neg (by simp [h₂]), List.filter_cons_of_neg (by simp [h₁]), htail]
    · rw [List.filter_cons, List.filter_cons, htail]

theorem mem_refreshAt {d : DbEntry α} (h : d ∈ refreshAt x e db) :
    (d ∈ db ∧ d.id ≠ e.id) ∨ ∃ d' ∈ db, d'.id = e.id ∧ d = refreshed x d' := by
  rw [refreshAt, List.mem_map] at h
  obtain ⟨d', hd', rfl⟩ := h
  split_ifs with hid
  · exact .inr ⟨d', hd', hid, rfl⟩
  · exact .inl ⟨hd', hid⟩

theorem mem_refreshAt_of_ne {d : DbEntry α} (h : d ∈ db) (hid : d.id ≠ e.id) :
    d ∈ refreshAt x e db :=
  List.mem_map.mpr ⟨d, h, if_neg hid⟩

end Refresh

/-! ### The run of a registration -/

/-- The entries of a database, well formed. -/
structure Db (naf : Naf α) where
  entries : List (DbEntry α)
  wf : Wf naf entries

section Run

variable {naf : Naf α} {hash : Uuid → ℕ} {dsm : Dsm} {db : List (DbEntry α)} {x : EptEntry}
  {tfp : TwrFields} {addr : Addr α} {netaddr : String}

theorem newEntry_filled (id : ℕ) (hfields : naf.towerToFields x.tower = some tfp)
    (haddr : naf.towerToAddr x.tower = some addr) : (newEntry id x tfp addr).Filled naf :=
  ⟨tfp, hfields, haddr, rfl, rfl, rfl, rfl, rfl, rfl, rfl⟩

theorem newEntry_agrees (id : ℕ) (hnet : naf.inqNetaddr addr = some netaddr) :
    agrees naf x.object tfp addr netaddr (newEntry id x tfp addr) = true := by
  simp [agrees, isReplaceCandidate, newEntry, hnet]

theorem insertEntry_wf (hwf : Wf naf db) (hfields : naf.towerToFields x.tower = some tfp)
    (haddr : naf.towerToAddr x.tower = some addr) : Wf naf (insertEntry dsm db x tfp addr).1 := by
  rw [insertEntry]
  split_ifs
  · exact hwf
  · exact hwf
  · constructor
    · rw [List.map_append, List.nodup_append]
      refine ⟨hwf.nodup, List.nodup_singleton _, fun a ha b hb hab => ?_⟩
      rw [List.map_singleton, List.mem_singleton] at hb
      refine dsm.address_fresh (db.map DbEntry.id) ?_
      rwa [hab, hb] at ha
    · intro e he
      rcases List.mem_append.mp he with he | he
      · exact hwf.filled e he
      · rw [List.mem_singleton.mp he]
        exact newEntry_filled _ hfields haddr

theorem refreshAt_wf (hwf : Wf naf db) (e : DbEntry α) : Wf naf (refreshAt x e db) := by
  refine ⟨by rw [map_id_refreshAt]; exact hwf.nodup, fun d hd => ?_⟩
  rcases mem_refreshAt hd with ⟨hd, -⟩ | ⟨d', hd', -, rfl⟩
  · exact hwf.filled d hd
  · exact hwf.filled d' hd'

theorem after_wf (hwf : Wf naf db) :
    Wf naf (db.filterMap (afterDelete naf x.object tfp addr netaddr)) :=
  ⟨hwf.nodup.sublist map_id_after, filled_after hwf.filled⟩

theorem store_wf (hwf : Wf naf db) (hfields : naf.towerToFields x.tower = some tfp)
    (haddr : naf.towerToAddr x.tower = some addr) :
    Wf naf (store naf hash dsm db x tfp addr).1 := by
  rw [store]
  cases lookupEntry naf hash db x with
  | none => exact insertEntry_wf hwf hfields haddr
  | some e => exact refreshAt_wf hwf e

theorem deleteReplaceableEntries_eq (hnodup : (db.map DbEntry.id).Nodup) :
    deleteReplaceableEntries naf hash db x.object tfp addr =
      match naf.inqNetaddr addr with
      | none => (db, .invalidEntry)
      | some netaddr => if greaterMinor x.object tfp addr db then (db, .invalidEntry)
        else (db.filterMap (afterDelete naf x.object tfp addr netaddr), .ok) := by
  rw [deleteReplaceableEntries]
  cases naf.inqNetaddr addr with
  | none => rfl
  | some netaddr => simp only [greaterMinor_chain, deleteScan_chain hnodup]

/-- The database stays well formed, whatever comes of the registration. -/
theorem epdbInsert_wf (hwf : Wf naf db) (replace : Bool) :
    Wf naf (epdbInsert naf hash dsm db x replace).1 := by
  rw [epdbInsert]
  split
  · exact hwf
  · rename_i tfp hfields
    split
    · exact hwf
    · rename_i addr haddr
      split_ifs with hchk
      · exact hwf
      · rw [insertLocked]
        split_ifs
        · rw [deleteReplaceableEntries_eq hwf.nodup]
          cases naf.inqNetaddr addr with
          | none => exact hwf
          | some netaddr =>
            by_cases hgreater : greaterMinor x.object tfp addr db = true
            · simp only [hgreater, if_true]
              exact hwf
            · simp only [hgreater]
              exact store_wf (after_wf hwf) hfields haddr
        · exact store_wf hwf hfields haddr

/-- A registration that is not refused: all entries to be replaced are deleted, and then an entry
is taken into use again, or the new one is added. -/
theorem epdbInsert_eq (hwf : Wf naf db) (hfields : naf.towerToFields x.tower = some tfp)
    (haddr : naf.towerToAddr x.tower = some addr) (hchk : chkEntry naf x tfp addr = true)
    (hnet : naf.inqNetaddr addr = some netaddr) (hgreater : greaterMinor x.object tfp addr db = false) :
    epdbInsert naf hash dsm db x true =
      match db.find? (survives x) with
      | none =>
        insertEntry dsm (db.filterMap (afterDelete naf x.object tfp addr netaddr)) x tfp addr
      | some e => replaceEntry dsm (db.filterMap (afterDelete naf x.object tfp addr netaddr)) x e := by
  rw [epdbInsert, hfields]
  simp only [haddr, hchk, Bool.true_eq_false, if_false, insertLocked, if_true,
    deleteReplaceableEntries_eq hwf.nodup, hnet, hgreater, Bool.false_eq_true]
  rw [store, lookupEntry_eq (filled_after hwf.filled) hfields,
    find_after hwf.filled hfields haddr hnet]
  cases hfind : db.find? (survives x) with
  | none => rfl
  | some e =>
    have hsurv := List.find?_some hfind
    rw [Option.bind_some]
    cases hafter : afterDelete naf x.object tfp addr netaddr e with
    | none =>
      -- an entry that survives is not removed
      rw [survives, Bool.and_eq_true] at hsurv
      rw [afterDelete] at hafter
      split_ifs at hafter with hrep
      rw [deleted] at hafter
      split_ifs at hafter with hnrefs
      rw [replaceable_eq, Bool.and_eq_true] at hrep
      simp_all
    | some e' => simp only [replaceEntry, id_of_afterDelete hafter]

/-- The entry that the lookup is to find, before the deletions and after them. -/
theorem survivor_after (tfp : TwrFields) (addr : Addr α) (netaddr : String) (hwf : Wf naf db)
    {e : DbEntry α} (hfind : db.find? (survives x) = some e) :
    e ∈ db ∧ exact x e = true ∧
      ∃ e', afterDelete naf x.object tfp addr netaddr e = some e' ∧
        e' ∈ db.filterMap (afterDelete naf x.object tfp addr netaddr) ∧
        e'.id = e.id ∧ refreshed x e' = refreshed x e ∧ exact x e' = true ∧
        ∀ d ∈ db.filterMap (afterDelete naf x.object tfp addr netaddr), d.id = e.id → d = e' := by
  have he := List.mem_of_find?_eq_some hfind
  have hsurv := List.find?_some hfind
  rw [survives, Bool.and_eq_true] at hsurv
  obtain ⟨e', hafter, hrefresh, hexact⟩ : ∃ e', afterDelete naf x.object tfp addr netaddr e = some e' ∧
      refreshed x e' = refreshed x e ∧ exact x e' = exact x e := by
    by_cases hrep : replaceable naf x.object tfp addr netaddr e = true
    · have hnrefs : e.readNrefs ≠ 0 := by
        have hlive := hrep
        rw [replaceable_eq, Bool.and_eq_true, Bool.not_eq_true'] at hlive
        simpa [hlive.1] using hsurv.2
      exact ⟨_, afterDelete_of_referenced hrep hnrefs, rfl, rfl⟩
    · exact ⟨e, afterDelete_of_not (by simpa using hrep), rfl, rfl⟩
  have hmem := List.mem_filterMap.mpr ⟨e, he, hafter⟩
  have hid := id_of_afterDelete hafter
  refine ⟨he, hsurv.1, e', hafter, hmem, hid, hrefresh, hexact.trans hsurv.1, fun d hd hd' => ?_⟩
  exact nodup_same (after_wf hwf).nodup hmem hd (hd'.trans hid.symm)

/-- The new entry is added. -/
theorem added_replaced (id : ℕ) (hnet : naf.inqNetaddr addr = some netaddr) :
    Replaced naf x tfp addr netaddr db
      (db.filterMap (afterDelete naf x.object tfp addr netaddr) ++ [newEntry id x tfp addr])
      (newEntry id x tfp addr) where
  only := by
    rw [List.filter_append, filter_replaceable_after, List.nil_append,
      List.filter_singleton, replaceable_eq, newEntry_agrees id hnet]
    rfl
  exact := by simp [EpReplace.exact, newEntry]
  annotation := rfl
  others := by
    rw [List.filter_append, filter_others_after, List.filter_singleton, newEntry_agrees id hnet]
    simp
  deleted := by
    intro e he hflag
    refine .inl (List.mem_append_left _ (mem_after_of_not he ?_))
    rw [replaceable_eq, hflag]
    rfl
  flagged := by
    intro e he
    rcases List.mem_append.mp he with he | he
    · exact .inr (mem_after he)
    · exact .inl (List.mem_singleton.mp he)

/-- An entry is taken into use again. -/
theorem refreshed_replaced (hwf : Wf naf db) (hfields : naf.towerToFields x.tower = some tfp)
    (haddr : naf.towerToAddr x.tower = some addr) (hnet : naf.inqNetaddr addr = some netaddr)
    {e : DbEntry α} (hfind : db.find? (survives x) = some e) :
    Replaced naf x tfp addr netaddr db
      (refreshAt x e (db.filterMap (afterDelete naf x.object tfp addr netaddr)))
      (refreshed x e) := by
  obtain ⟨he, hexact, e', hafter, hmem, hid, hrefresh, hexact', hsame⟩ :=
    survivor_after tfp addr netaddr hwf hfind
  have hagree := agrees_of_exact (hwf.filled e he) hfields haddr hnet hexact
  have hagree' := agrees_of_exact ((after_wf hwf).filled e' hmem) hfields haddr hnet hexact'
  have hat : ∀ l, refreshAt x e l = refreshAt x e' l := fun l => by simp only [refreshAt, hid]
  constructor
  case only =>
    rw [hat, ← hrefresh]
    refine filter_refreshAt (after_wf hwf).nodup hmem (fun d hd => not_replaceable_after hd) ?_
    rw [hrefresh]
    exact hagree
  case exact => exact hexact
  case annotation => rfl
  case others =>
    rw [filter_refreshAt_of_not, filter_others_after]
    intro d hd hd'
    rw [hsame d hd hd']
    have hflag : agrees naf x.object tfp addr netaddr (refreshed x e') = true := hagree'
    simp [hagree', hflag]
  case deleted =>
    intro d hd hflag
    by_cases hd' : d.id = e.id
    · exact .inr hd'
    · refine .inl (mem_refreshAt_of_ne (mem_after_of_not hd ?_) hd')
      rw [replaceable_eq, hflag]
      rfl
  case flagged =>
    intro d hd
    rcases mem_refreshAt hd with ⟨hd, -⟩ | ⟨d', hd', hid', rfl⟩
    · exact .inr (mem_after hd)
    · rw [hsame d' hd' hid', hrefresh]
      exact .inl rfl

/-- Refreshing the entry undoes the deletions only if it alone was deleted, and was fresh. -/
theorem refreshAt_after_eq_self_iff (hwf : Wf naf db) (hfields : naf.towerToFields x.tower = some tfp)
    (haddr : naf.towerToAddr x.tower = some addr) (hnet : naf.inqNetaddr addr = some netaddr)
    {e : DbEntry α} (hfind : db.find? (survives x) = some e) :
    refreshAt x e (db.filterMap (afterDelete naf x.object tfp addr netaddr)) = db ↔
      db.filter (replaceable naf x.object tfp addr netaddr) = [e] ∧ e.ncommFails = 0 ∧
        e.annotation = x.annotation := by
  obtain ⟨he, -, e', hafter, -, hid, hrefresh, -, hsame⟩ :=
    survivor_after tfp addr netaddr hwf hfind
  constructor
  · -- the new entry is in the old database, and so is the survivor itself
    intro h
    have honly := (refreshed_replaced hwf hfields haddr hnet hfind).only
    rw [h] at honly
    have hnew : refreshed x e ∈ db := by
      have hmem : refreshed x e ∈ db.filter (replaceable naf x.object tfp addr netaddr) := by
        rw [honly]
        exact List.mem_singleton_self _
      exact (List.mem_filter.mp hmem).1
    have heq : refreshed x e = e := nodup_same hwf.nodup he hnew rfl
    refine ⟨by rw [honly, heq], ?_, ?_⟩
    · rw [← heq]
      rfl
    · rw [← heq]
      rfl
  · rintro ⟨honly, hfails, hannotation⟩
    have hrep : replaceable naf x.object tfp addr netaddr e = true := by
      have hmem : e ∈ db.filter (replaceable naf x.object tfp addr netaddr) := by
        rw [honly]
        exact List.mem_singleton_self _
      exact (List.mem_filter.mp hmem).2
    have hself : refreshed x e = e := by
      rw [replaceable_eq, Bool.and_eq_true, Bool.not_eq_true'] at hrep
      simp only [refreshed, ← hfails, ← hannotation, ← hrep.1]
    -- entry by entry: what is flagged is refreshed, and nothing else is touched
    rw [refreshAt, List.map_filterMap]
    conv_rhs => rw [← List.filterMap_some (l := db)]
    refine List.filterMap_congr fun d hd => ?_
    by_cases hd' : d.id = e.id
    · rw [nodup_same hwf.nodup he hd hd', hafter, Option.map_some, if_pos hid, hrefresh, hself]
    · have hnot : replaceable naf x.object tfp addr netaddr d = false := by
        by_contra hrepd
        have hmem : d ∈ db.filter (replaceable naf x.object tfp addr netaddr) :=
          List.mem_filter.mpr ⟨hd, by simpa using hrepd⟩
        rw [honly, List.mem_singleton] at hmem
        exact hd' (by rw [hmem])
      rw [afterDelete_of_not hnot, Option.map_some, if_neg hd']

/-- How the registration ends, and whether it left the database alone if it failed. -/
theorem run_cases (hash : Uuid → ℕ) (dsm : Dsm) (hwf : Wf naf db)
    (hfields : naf.towerToFields x.tower = some tfp)
    (haddr : naf.towerToAddr x.tower = some addr) (hchk : chkEntry naf x tfp addr = true)
    (hnet : naf.inqNetaddr addr = some netaddr)
    (hgreater : greaterMinor x.object tfp addr db = false) :
    (Stored dsm db x ∧ ∃ db' new, epdbInsert naf hash dsm db x true = (db', .ok) ∧
      Replaced naf x tfp addr netaddr db db' new) ∨
    (¬ Stored dsm db x ∧ ∃ db', epdbInsert naf hash dsm db x true = (db', .cantPerformOp) ∧
      (db' = db ↔ NothingToChange naf db x tfp addr netaddr)) := by
  rw [epdbInsert_eq hwf hfields haddr hchk hnet hgreater, Stored, NothingToChange]
  cases hfind : db.find? (survives x) with
  | none =>
    -- no entry survives: a new one needs storage
    simp only [Option.isSome_none, Bool.false_eq_true, if_false, insertEntry]
    by_cases hstored : dsm.allocate = true ∧ dsm.write = true
    · refine .inl ⟨hstored, _, _, ?_, added_replaced (dsm.address ((db.filterMap
        (afterDelete naf x.object tfp addr netaddr)).map DbEntry.id)) hnet⟩
      simp only [hstored.1, hstored.2, Bool.true_eq_false, if_false]
    · refine .inr ⟨hstored, _, ?_, after_eq_self_iff⟩
      by_cases hallocate : dsm.allocate = true
      · have hwrite : dsm.write = false := by simpa [hallocate] using hstored
        simp [hwrite]
      · simp [hallocate]
  | some e =>
    -- the survivor is written over
    simp only [Option.isSome_some, if_true, replaceEntry]
    by_cases hstored : dsm.detach = true ∧ dsm.write = true
    · refine .inl ⟨hstored, _, _, ?_, refreshed_replaced hwf hfields haddr hnet hfind⟩
      simp only [hstored.1, hstored.2, Bool.true_eq_false, if_false]
      rfl
    · refine .inr ⟨hstored, _, ?_, refreshAt_after_eq_self_iff hwf hfields haddr hnet hfind⟩
      by_cases hdetach : dsm.detach = true
      · have hwrite : dsm.write = false := by simpa [hdetach] using hstored
        simp only [hdetach, hwrite, Bool.true_eq_false, if_false, if_true]
        rfl
      · simp only [hdetach, if_true]
        rfl

/-- What is refused is refused before anything is touched. -/
theorem epdbInsert_refused (hash : Uuid → ℕ) (dsm : Dsm) (hwf : Wf naf db) (h : Refused naf db x) :
    epdbInsert naf hash dsm db x true = (db, .invalidEntry) := by
  rw [epdbInsert]
  cases hfields : naf.towerToFields x.tower with
  | none => rfl
  | some tfp =>
    cases haddr : naf.towerToAddr x.tower with
    | none => rfl
    | some addr =>
      by_cases hchk : chkEntry naf x tfp addr = true
      · simp only [hchk, Bool.true_eq_false, if_false, insertLocked, if_true,
          deleteReplaceableEntries_eq hwf.nodup]
        cases hnet : naf.inqNetaddr addr with
        | none => rfl
        | some netaddr =>
          simp only [h tfp addr hfields haddr hchk (by rw [hnet]; rfl), if_true]
      · simp only [hchk, if_true]

end Run

/-- **Registration with replace**: it returns ok exactly when it is not refused and storing
succeeds; and it does what it is to do exactly when it is refused, or storing succeeds, or there was
nothing to change. -/
theorem replace_right_iff {naf : Naf α} (hash : Uuid → ℕ) (dsm : Dsm) (d : Db naf) (x : EptEntry) :
    ((epdbInsert naf hash dsm d.entries x true).2 = .ok ↔
      ¬ Refused naf d.entries x ∧ Stored dsm d.entries x) ∧
    (Right naf hash dsm d.entries x ↔ Refused naf d.entries x ∨ Stored dsm d.entries x ∨
      ∃ tfp addr netaddr, naf.towerToFields x.tower = some tfp ∧
        naf.towerToAddr x.tower = some addr ∧ naf.inqNetaddr addr = some netaddr ∧
        NothingToChange naf d.entries x tfp addr netaddr) := by
  by_cases hrefused : Refused naf d.entries x
  · have hrun := epdbInsert_refused hash dsm d.wf hrefused
    refine ⟨?_, iff_of_true ?_ (.inl hrefused)⟩
    · rw [hrun]
      simp [hrefused]
    · rw [Right, hrun]
  · have hnot := hrefused
    simp only [Refused, not_forall, Bool.not_eq_true] at hnot
    obtain ⟨tfp, addr, hfields, haddr, hchk, hsome, hgreater⟩ := hnot
    obtain ⟨netaddr, hnet⟩ := Option.isSome_iff_exists.mp hsome
    rcases run_cases hash dsm d.wf hfields haddr hchk hnet hgreater with
      ⟨hstored, db', new, hrun, hreplaced⟩ | ⟨hstored, db', hrun, hsame⟩
    · refine ⟨?_, iff_of_true ?_ (.inr (.inl hstored))⟩
      · rw [hrun]
        exact iff_of_true rfl ⟨hrefused, hstored⟩
      · rw [Right, hrun]
        exact ⟨tfp, addr, netaddr, new, hfields, haddr, hnet, hgreater, hreplaced⟩
    · refine ⟨?_, ?_⟩
      · rw [hrun]
        simp [hstored]
      · rw [Right, hrun]
        simp only [hrefused, hstored, false_or]
        rw [hsame]
        constructor
        · intro h
          exact ⟨tfp, addr, netaddr, hfields, haddr, hnet, h⟩
        · rintro ⟨tfp', addr', netaddr', hfields', haddr', hnet', h⟩
          rw [hfields, Option.some_inj] at hfields'
          rw [haddr, Option.some_inj] at haddr'
          rw [← haddr', hnet, Option.some_inj] at hnet'
          rwa [hfields', haddr', hnet']

/-! ### A replacement that loses an entry -/

/-- A tower of two bytes: the interface's minor version and the endpoint. -/
def smallNaf : Naf ℕ where
  towerToFields
    | [minor, _] => some ⟨⟨1, 1, minor.setWidth 16⟩, ⟨2, 2⟩, 11, 5, 0⟩
    | _ => none
  towerToAddr
    | [_, port] => some ⟨1, port.toNat⟩
    | _ => none
  towerToIfId
    | [minor, _] => ⟨1, 1, minor.setWidth 16⟩
    | _ => ⟨0, 0, 0⟩
  towerToBinding _ := true
  addrLen _ := 16
  inqNetaddr _ := some "127.0.0.1"
  towerToIfId_eq := by
    intro t f h
    match t, h with
    | [minor, _], h => rw [← Option.some_inj.mp h]

/-- A full store. -/
def fullDsm : Dsm where
  allocate := false
  detach := true
  write := true
  address used := used.sum + 1
  address_fresh := by
    intro used h
    have := List.single_le_sum (fun _ _ => Nat.zero_le _) _ h
    omega

/-- One registered entry. -/
def oneEntry : DbEntry ℕ :=
  newEntry 1 ⟨0, [], [0, 7]⟩ ⟨⟨1, 1, 0⟩, ⟨2, 2⟩, 11, 5, 0⟩ ⟨1, 7⟩

/-- A server comes back with another endpoint, and the store is full: the registration fails, and
the old entry is gone. -/
theorem failed_insert_loses_entry :
    Wf smallNaf [oneEntry] ∧
    epdbInsert smallNaf (fun _ => 0) fullDsm [oneEntry] ⟨0, [], [0, 8]⟩ true =
      ([], .cantPerformOp) ∧
    ¬ Right smallNaf (fun _ => 0) fullDsm [oneEntry] ⟨0, [], [0, 8]⟩ := by
  have hrun : epdbInsert smallNaf (fun _ => 0) fullDsm [oneEntry] ⟨0, [], [0, 8]⟩ true =
      ([], .cantPerformOp) := by rfl
  refine ⟨⟨by decide, fun e he => ?_⟩, hrun, ?_⟩
  · rw [List.mem_singleton.mp he]
    exact newEntry_filled 1 rfl rfl
  · rw [Right, hrun]
    exact List.ne_cons_self

end EpReplace
