/-
Registration of interfaces, and their listing, with the memory they take (comif.c).

A registration copies the manager's entry point vector, may make an entry for the interface, and
undoes both if it fails.  Unregistrations remove managers while they walk the lists.  The listing
counts the interfaces under the lock, and copies their identifiers under the lock taken again, so
that other threads may register and unregister in between.

* `register_cases` — a registration that fails changes nothing, and frees what it copied;
* `unregister_table` — an unregistration removes the managers that match, and no others;
* `Sound.run` — each copied vector is in the registry or has been freed, once;
* `atomic_and_listed_iff` — all of this in every run, and when the listing is right.
-/
import FreeDce.Com.IfRegistry

namespace Com
namespace IfRgy

open Uuid Cn

/-! ### The registry -/

/-- `rpc_if_type_info_t`. -/
structure TypeInfo where
  type : UuidT
  mepv : ℕ
  copiedMepv : Bool

/-- `rpc_if_rgy_entry_t`. -/
structure Entry where
  ifSpec : IfSpec
  defaultMepv : Option ℕ
  copiedMepv : Bool
  internal : Bool
  typeInfoList : List TypeInfo

/-- `if_registry`. -/
abbrev Table := ℕ → List Entry

inductive Status
  | ok
  | unknownIfspecVers
  | noMepv
  | noMemory
  | badUuid
  | typeAlreadyRegistered
  | unknownIf
  | unknownMgrType
deriving DecidableEq

/-- What an operation leaves, and the copies of entry point vectors it allocated and freed. -/
structure Outcome where
  table : Table
  status : Status
  allocated : List ℕ
  freed : List ℕ

/-- The parameters of `rpc__server_register_if_int`, what `RPC_IF_VALIDATE` says of the interface,
how each allocation ends, and what stands in the flag of a new entry, which is not initialised. -/
structure Registration where
  valid : Bool
  ifSpec : IfSpec
  mgrType : Option UuidT
  mgrEpv : Bool
  internal : Bool
  mepvMem : Option ℕ
  entryMem : Bool
  typeInfoMem : Bool
  garbage : Bool

/-- The interface UUID and version match. -/
def sameIf (rep : IfRep) (e : Entry) : Bool :=
  uuidEqual e.ifSpec.rep.id rep.id = some true && e.ifSpec.rep.vers = rep.vers

/-- `RPC_MEM_FREE` of an entry point vector that was copied; nothing happens for a null pointer. -/
def freeMepv (copied : Bool) (mepv : Option ℕ) : List ℕ := if copied then mepv.toList else []

/-! ### Registration -/

/-- The vector that is registered, and whether it is a copy. -/
def takeMepv (q : Registration) : Except Status (ℕ × Bool) :=
  if q.mgrEpv = false then
    match q.ifSpec.managerEpv with
    | none => .error .noMepv
    | some mepv => .ok (mepv, false)
  else
    match q.mepvMem with
    | none => .error .noMemory
    | some mepv => .ok (mepv, true)

def newEntry (q : Registration) : Entry where
  ifSpec := q.ifSpec
  defaultMepv := none
  copiedMepv := q.garbage
  internal := q.internal
  typeInfoList := []

/-- The entry of the interface with what stands before and after it on its list; a new one is put
at the end.  The flag is `if_entry_added`. -/
def findEntry (q : Registration) (entries : List Entry) :
    Option (List Entry × Entry × List Entry × Bool) :=
  match entries.dropWhile fun e => !sameIf q.ifSpec.rep e with
  | e :: after => some (entries.takeWhile fun e => !sameIf q.ifSpec.rep e, e, after, false)
  | [] => if q.entryMem = false then none else some (entries, newEntry q, [], true)

/-- The manager is added to the entry.  Nothing can fail after the type information is on the list,
so that it is never taken off again. -/
def addManager (q : Registration) (mepv : ℕ) (copied : Bool) (e : Entry) : Except Status Entry :=
  match givenType q.mgrType with
  | some type =>
    if e.typeInfoList.any fun info => uuidEqual info.type type = some true then
      .error .typeAlreadyRegistered
    else if q.typeInfoMem = false then .error .noMemory
    else .ok { e with typeInfoList := e.typeInfoList ++ [⟨type, mepv, copied⟩] }
  | none =>
    if e.defaultMepv.isSome then .error .typeAlreadyRegistered
    else .ok { e with defaultMepv := some mepv, copiedMepv := copied }

/-- `rpc__server_register_if_int`. -/
def register (table : Table) (q : Registration) : Outcome :=
  if q.valid = false then ⟨table, .unknownIfspecVers, [], []⟩
  else
    match takeMepv q with
    | .error status => ⟨table, status, [], []⟩
    | .ok (mepv, copied) =>
      let copy := freeMepv copied (some mepv)
      match ifIndex q.ifSpec.rep.id with
      | none => ⟨table, .badUuid, copy, copy⟩
      | some index =>
        match findEntry q (table index) with
        | none => ⟨table, .noMemory, copy, copy⟩
        | some (before, e, after, added) =>
          match addManager q mepv copied e with
          | .error status =>
            -- the error exit takes off the list what was put there
            ⟨Function.update table index (before ++ if added then after else e :: after), status,
              copy, copy⟩
          | .ok e => ⟨Function.update table index (before ++ e :: after), .ok, copy, []⟩

/-! ### Unregistration -/

/-- `unregister_if_entry`, with what it frees. -/
def unregisterIfEntry (mgrType : Option UuidT) (e : Entry) : Entry × List ℕ × Status :=
  match mgrType with
  | none =>
    ({ e with defaultMepv := none, typeInfoList := [] },
      freeMepv e.copiedMepv e.defaultMepv ++
        e.typeInfoList.flatMap fun info => freeMepv info.copiedMepv (some info.mepv), .ok)
  | some type =>
    if type = nilUuid then
      match e.defaultMepv with
      | none => (e, [], .unknownMgrType)
      | some mepv => ({ e with defaultMepv := none }, freeMepv e.copiedMepv (some mepv), .ok)
    else
      match e.typeInfoList.find? fun info => uuidEqual info.type type = some true with
      | none => (e, [], .unknownMgrType)
      | some info =>
        ({ e with
            typeInfoList := e.typeInfoList.eraseP fun info => uuidEqual info.type type = some true },
          freeMepv info.copiedMepv (some info.mepv), .ok)

/-- An entry without managers is removed. -/
def keep (e : Entry) : List Entry :=
  if e.typeInfoList.isEmpty && e.defaultMepv.isNone then [] else [e]

/-- The walk through one list for an interface. -/
def unregisterList (rep : IfRep) (mgrType : Option UuidT) :
    List Entry → List Entry × List ℕ × Status
  | [] => ([], [], .unknownIf)
  | e :: entries =>
    if e.internal = false ∧ sameIf rep e = true then
      match unregisterIfEntry mgrType e with
      | (e, freed, .ok) => (keep e ++ entries, freed, .ok)
      | (e, freed, status) => (e :: entries, freed, status)
    else
      match unregisterList rep mgrType entries with
      | (entries, freed, status) => (e :: entries, freed, status)

/-- What the walk through the whole table does with an entry. -/
def unregisterAny (mgrType : Option UuidT) (e : Entry) : Entry × List ℕ × Status :=
  if e.internal then (e, [], .unknownMgrType) else unregisterIfEntry mgrType e

/-- `rpc__server_unregister_if_int`. -/
def unregister (table : Table) (ifRep : Option IfRep) (mgrType : Option UuidT) : Outcome :=
  match ifRep with
  | none =>
    { table := fun i => if i < ifRegistrySize then
          (table i).flatMap fun e => keep (unregisterAny mgrType e).1 else table i
      status := if ((List.range ifRegistrySize).flatMap table).any fun e =>
          (unregisterAny mgrType e).2.2 = .ok then .ok else .unknownMgrType
      allocated := []
      freed := (List.range ifRegistrySize).flatMap fun i =>
        (table i).flatMap fun e => (unregisterAny mgrType e).2.1 }
  | some rep =>
    match ifIndex rep.id with
    | none => ⟨table, .badUuid, [], []⟩
    | some index =>
      match unregisterList rep mgrType (table index) with
      | (entries, freed, status) => ⟨Function.update table index entries, status, [], freed⟩

/-! ### Runs -/

inductive Op
  | register (q : Registration)
  | unregister (ifRep : Option IfRep) (mgrType : Option UuidT)

/-- An operation, which holds the lock. -/
def perform (table : Table) : Op → Outcome
  | .register q => register table q
  | .unregister ifRep mgrType => unregister table ifRep mgrType

/-- The registry with all copies that were allocated and freed so far. -/
structure World where
  table : Table
  allocated : List ℕ
  freed : List ℕ

def World.step (w : World) (op : Op) : World :=
  let out := perform w.table op
  ⟨out.table, w.allocated ++ out.allocated, w.freed ++ out.freed⟩

def World.run (w : World) (ops : List Op) : World := ops.foldl World.step w

def World.init : World := ⟨fun _ => [], [], []⟩

/-! ### Listing -/

/-- `rpc_if_id_t`. -/
structure IfId where
  uuid : UuidT
  versMajor : BitVec 16
  versMinor : BitVec 16
deriving DecidableEq

/-- `rpc_if_inq_id`. -/
def ifInqId (ifSpec : IfSpec) : IfId :=
  ⟨ifSpec.rep.id, ifSpec.rep.vers.setWidth 16, (ifSpec.rep.vers >>> 16).setWidth 16⟩

/-- `rpc__if_mgmt_inq_num_registered`. -/
def inqNumRegistered (table : Table) : ℕ :=
  ((List.range ifRegistrySize).map fun i => (table i).countP fun e => !e.internal).sum

/-- The elements that the second walk writes, from the first one of the vector on. -/
def writtenIds (table : Table) : List IfId :=
  (List.range ifRegistrySize).flatMap fun i =>
    ((table i).filter fun e => !e.internal).map fun e => ifInqId e.ifSpec

/-- `rpc__if_mgmt_inq_if_ids`: the count of the vector, which is its size, and the elements written.
The registry is that of the first lock section, and that of the second; an allocation that fails
ends the process. -/
def inqIfIds (atCount atCopy : Table) : Option (ℕ × List IfId) :=
  if inqNumRegistered atCount = 0 then none
  else some (inqNumRegistered atCount, writtenIds atCopy)

/-! ### The invariant -/

/-- The interface of an entry. -/
def Entry.key (e : Entry) : UuidT × BitVec 32 := (e.ifSpec.rep.id, e.ifSpec.rep.vers)

def Entry.Managed (e : Entry) : Prop := (e.typeInfoList.isEmpty && e.defaultMepv.isNone) = false

/-- Each interface is on the list of its hash value, once, with a manager, and with one for each
type at most. -/
structure Wf (table : Table) : Prop where
  hashed : ∀ i, ∀ e ∈ table i, ifIndex e.ifSpec.rep.id = some i
  unique : ∀ i, ((table i).map Entry.key).Nodup
  managed : ∀ i, ∀ e ∈ table i, e.Managed
  types : ∀ i, ∀ e ∈ table i, (e.typeInfoList.map TypeInfo.type).Nodup

/-- The copies of entry point vectors that an entry holds. -/
def copies (e : Entry) : Multiset ℕ :=
  (freeMepv e.copiedMepv e.defaultMepv : Multiset ℕ) +
    (e.typeInfoList.map fun info => (freeMepv info.copiedMepv (some info.mepv) : Multiset ℕ)).sum

def copiesIn (entries : List Entry) : Multiset ℕ := (entries.map copies).sum

/-- The copies that the registry holds. -/
def totalCopies (table : Table) : Multiset ℕ := ∑ i ∈ Finset.range ifRegistrySize, copiesIn (table i)

/-- The entry is one that an unregistration is about. -/
def matchesIf (ifRep : Option IfRep) (e : Entry) : Bool :=
  !e.internal && match ifRep with
    | none => true
    | some rep => sameIf rep e

/-- The entry without the managers that an unregistration is about. -/
def strip (mgrType : Option UuidT) (e : Entry) : Entry :=
  match mgrType with
  | none => { e with defaultMepv := none, typeInfoList := [] }
  | some type =>
    if type = nilUuid then { e with defaultMepv := none }
    else { e with typeInfoList := e.typeInfoList.filter fun info => info.type ≠ type }

/-- What is to be left of an entry. -/
def prune (ifRep : Option IfRep) (mgrType : Option UuidT) (e : Entry) : List Entry :=
  if matchesIf ifRep e then keep (strip mgrType e) else [e]

/-- The copies that are to be freed of an entry. -/
def freedOf (ifRep : Option IfRep) (mgrType : Option UuidT) (e : Entry) : List ℕ :=
  if matchesIf ifRep e then (unregisterIfEntry mgrType e).2.1 else []

theorem uuidEqual_iff (u v : UuidT) : uuidEqual u v = some true ↔ u = v := by
  rw [uuidEqual_eq, Option.some_inj, decide_eq_true_iff]

theorem sameIf_iff (rep : IfRep) (e : Entry) : sameIf rep e = true ↔ e.key = (rep.id, rep.vers) := by
  simp only [sameIf, uuidEqual_iff, Bool.and_eq_true, decide_eq_true_eq, Entry.key, Prod.mk.injEq]

theorem ifIndex_lt {u : UuidT} {i : ℕ} (h : ifIndex u = some i) : i < ifRegistrySize := by
  rw [ifIndex, Option.map_eq_some_iff] at h
  obtain ⟨hash, -, rfl⟩ := h
  exact Nat.mod_lt _ (by decide)

theorem exists_ifIndex (u : UuidT) : ∃ i, ifIndex u = some i := by
  obtain ⟨hash, hhash⟩ := exists_uuidHash u
  rw [ifIndex, hhash]
  exact ⟨_, rfl⟩

theorem keep_of_managed {e : Entry} (h : e.Managed) : keep e = [e] := by
  rw [keep, h]
  rfl

theorem copiesIn_append (l₁ l₂ : List Entry) : copiesIn (l₁ ++ l₂) = copiesIn l₁ + copiesIn l₂ := by
  rw [copiesIn, List.map_append, List.sum_append]
  rfl

theorem copiesIn_cons (e : Entry) (l : List Entry) : copiesIn (e :: l) = copies e + copiesIn l := by
  rw [copiesIn, List.map_cons, List.sum_cons]
  rfl

/-- An entry that is removed holds no copy. -/
theorem copiesIn_keep (e : Entry) : copiesIn (keep e) = copies e := by
  rw [keep]
  split_ifs with h
  · rw [Bool.and_eq_true, List.isEmpty_iff, Option.isNone_iff_eq_none] at h
    simp [copiesIn, copies, h.1, h.2, freeMepv]
  · simp [copiesIn]

/-! ### What an unregistration does to an entry -/

theorem eraseP_eq_filter {type : UuidT} : ∀ {l : List TypeInfo}, (l.map TypeInfo.type).Nodup →
    (l.eraseP fun info => decide (info.type = type)) = l.filter fun info => info.type ≠ type := by
  intro l
  induction l with
  | nil => simp
  | cons info l ih =>
    intro hnodup
    rw [List.map_cons, List.nodup_cons] at hnodup
    by_cases h : info.type = type
    · -- the first one is the only one of its type
      rw [List.eraseP_cons_of_pos (by simp [h]), List.filter_cons_of_neg (by simp [h]), eq_comm,
        List.filter_eq_self]
      intro info' hinfo'
      rw [decide_eq_true_iff]
      intro h'
      refine hnodup.1 ?_
      rw [h, ← h']
      exact List.mem_map_of_mem hinfo'
    · rw [List.eraseP_cons_of_neg (by simp [h]), List.filter_cons_of_pos (by simp [h]),
        ih hnodup.2]

theorem sum_eraseP {type : UuidT} {info : TypeInfo} {f : TypeInfo → Multiset ℕ} :
    ∀ {l : List TypeInfo}, (l.find? fun info => decide (info.type = type)) = some info →
    f info + ((l.eraseP fun info => decide (info.type = type)).map f).sum = (l.map f).sum := by
  intro l
  induction l with
  | nil =>
    intro h
    rw [List.find?_nil] at h
    exact absurd h.symm (Option.some_ne_none _)
  | cons info' l ih =>
    intro h
    by_cases h' : info'.type = type
    · rw [List.find?_cons_of_pos (by simp [h']), Option.some_inj] at h
      rw [List.eraseP_cons_of_pos (by simp [h']), List.map_cons, List.sum_cons, h]
    · rw [List.find?_cons_of_neg (by simp [h'])] at h
      rw [List.eraseP_cons_of_neg (by simp [h']), List.map_cons, List.sum_cons, List.map_cons,
        List.sum_cons, ← ih h]
      abel

/-- The managers that match are removed and their copies freed; if there is none, nothing is. -/
theorem unregisterIfEntry_eq (mgrType : Option UuidT) {e : Entry}
    (htypes : (e.typeInfoList.map TypeInfo.type).Nodup) :
    (unregisterIfEntry mgrType e).1 = strip mgrType e ∧
    copies (strip mgrType e) + ((unregisterIfEntry mgrType e).2.1 : Multiset ℕ) = copies e ∧
    ((unregisterIfEntry mgrType e).2.2 ≠ .ok → strip mgrType e = e) := by
  cases mgrType with
  | none =>
    -- without a type all managers go
    refine ⟨rfl, ?_, fun h => absurd rfl h⟩
    rw [unregisterIfEntry, strip, copies, copies]
    have hflat : ∀ l : List TypeInfo,
        ((l.flatMap fun info => freeMepv info.copiedMepv (some info.mepv) : List ℕ) : Multiset ℕ) =
          (l.map fun info => (freeMepv info.copiedMepv (some info.mepv) : Multiset ℕ)).sum := by
      intro l
      induction l with
      | nil => rfl
      | cons info l ih =>
        rw [List.flatMap_cons, ← Multiset.coe_add, ih, List.map_cons, List.sum_cons]
    rw [← Multiset.coe_add, hflat]
    simp [freeMepv]
  | some type =>
    rw [unregisterIfEntry, strip]
    split_ifs with hnil
    · -- the nil type is the default manager's
      cases hdefault : e.defaultMepv with
      | none =>
        have hself : ({ e with defaultMepv := none } : Entry) = e := by rw [← hdefault]
        simp [hself]
      | some mepv =>
        refine ⟨rfl, ?_, fun h => absurd rfl h⟩
        simp only [copies, hdefault]
        have hnone : freeMepv e.copiedMepv none = [] := by simp [freeMepv]
        rw [hnone, Multiset.coe_nil, zero_add, add_comm]
    · simp only [uuidEqual_iff]
      cases hfind : e.typeInfoList.find? fun info => decide (info.type = type) with
      | none =>
        rw [List.find?_eq_none] at hfind
        have hself : (e.typeInfoList.filter fun info => decide (info.type ≠ type)) =
            e.typeInfoList := by
          rw [List.filter_eq_self]
          intro info hinfo
          have hne := hfind info hinfo
          rw [decide_eq_true_iff] at hne
          rwa [decide_eq_true_iff]
        rw [hself]
        simp
      | some info =>
        refine ⟨?_, ?_, fun h => absurd rfl h⟩
        · rw [eraseP_eq_filter htypes]
        · rw [← eraseP_eq_filter htypes]
          simp only [copies]
          rw [add_assoc, ← sum_eraseP hfind]
          abel

theorem strip_ifSpec (mgrType : Option UuidT) (e : Entry) : (strip mgrType e).ifSpec = e.ifSpec := by
  cases mgrType with
  | none => rfl
  | some type =>
    rw [strip]
    split_ifs <;> rfl

theorem strip_types (mgrType : Option UuidT) {e : Entry}
    (htypes : (e.typeInfoList.map TypeInfo.type).Nodup) :
    ((strip mgrType e).typeInfoList.map TypeInfo.type).Nodup := by
  cases mgrType with
  | none => exact List.nodup_nil
  | some type =>
    rw [strip]
    split_ifs
    · exact htypes
    · exact htypes.sublist (List.filter_sublist.map _)

theorem copiesIn_prune (ifRep : Option IfRep) (mgrType : Option UuidT) {e : Entry}
    (htypes : (e.typeInfoList.map TypeInfo.type).Nodup) :
    copiesIn (prune ifRep mgrType e) + (freedOf ifRep mgrType e : Multiset ℕ) = copies e := by
  rw [prune, freedOf]
  split_ifs
  · rw [copiesIn_keep]
    exact (unregisterIfEntry_eq mgrType htypes).2.1
  · simp [copiesIn]

/-- What leaves a list has been freed. -/
theorem copiesIn_flatMap_prune (ifRep : Option IfRep) (mgrType : Option UuidT) {entries : List Entry}
    (htypes : ∀ e ∈ entries, (e.typeInfoList.map TypeInfo.type).Nodup) :
    copiesIn (entries.flatMap (prune ifRep mgrType)) +
      (entries.flatMap (freedOf ifRep mgrType) : Multiset ℕ) = copiesIn entries := by
  induction entries with
  | nil => rfl
  | cons e entries ih =>
    have hhead := copiesIn_prune ifRep mgrType (htypes e List.mem_cons_self)
    have htail := ih fun e' he' => htypes e' (List.mem_cons_of_mem _ he')
    rw [List.flatMap_cons, List.flatMap_cons, copiesIn_append, ← Multiset.coe_add, copiesIn_cons,
      ← hhead, ← htail]
    abel

/-! ### What an unregistration does to the registry -/

theorem prune_of_not {ifRep : Option IfRep} {e : Entry} (mgrType : Option UuidT)
    (h : matchesIf ifRep e = false) : prune ifRep mgrType e = [e] := by
  rw [prune, h]
  rfl

theorem freedOf_of_not {ifRep : Option IfRep} {e : Entry} (mgrType : Option UuidT)
    (h : matchesIf ifRep e = false) : freedOf ifRep mgrType e = [] := by
  rw [freedOf, h]
  rfl

/-- A list in which nothing matches is left alone. -/
theorem flatMap_of_no_match (ifRep : Option IfRep) (mgrType : Option UuidT) {entries : List Entry}
    (h : ∀ e ∈ entries, matchesIf ifRep e = false) :
    entries.flatMap (prune ifRep mgrType) = entries ∧
      entries.flatMap (freedOf ifRep mgrType) = [] := by
  induction entries with
  | nil => exact ⟨rfl, rfl⟩
  | cons e entries ih =>
    have hhead := h e List.mem_cons_self
    have htail := ih fun e' he' => h e' (List.mem_cons_of_mem _ he')
    rw [List.flatMap_cons, List.flatMap_cons, prune_of_not mgrType hhead,
      freedOf_of_not mgrType hhead, htail.1, htail.2]
    exact ⟨rfl, rfl⟩

/-- The walk stops at the first entry of the interface, which is the only one. -/
theorem unregisterList_eq (rep : IfRep) (mgrType : Option UuidT) : ∀ {entries : List Entry},
    (entries.map Entry.key).Nodup → (∀ e ∈ entries, e.Managed) →
    (∀ e ∈ entries, (e.typeInfoList.map TypeInfo.type).Nodup) →
    (unregisterList rep mgrType entries).1 = entries.flatMap (prune (some rep) mgrType) ∧
      (unregisterList rep mgrType entries).2.1 = entries.flatMap (freedOf (some rep) mgrType) := by
  intro entries
  induction entries with
  | nil =>
    intro _ _ _
    exact ⟨rfl, rfl⟩
  | cons e entries ih =>
    intro hunique hmanaged htypes
    rw [List.map_cons, List.nodup_cons] at hunique
    rw [unregisterList, List.flatMap_cons, List.flatMap_cons]
    split_ifs with hmatch
    · -- the loop ends here, and no entry behind has the key
      have hmatches : matchesIf (some rep) e = true := by simp [matchesIf, hmatch]
      obtain ⟨hstrip, -, hfail⟩ := unregisterIfEntry_eq mgrType (htypes e List.mem_cons_self)
      have hothers : ∀ e' ∈ entries, matchesIf (some rep) e' = false := by
        intro e' he'
        rw [matchesIf, Bool.and_eq_false_iff]
        refine .inr ?_
        by_contra hsame
        rw [Bool.not_eq_false, sameIf_iff, ← (sameIf_iff rep e).mp hmatch.2] at hsame
        refine hunique.1 ?_
        rw [← hsame]
        exact List.mem_map_of_mem he'
      have hrest := flatMap_of_no_match (some rep) mgrType hothers
      rw [hrest.1, hrest.2, prune, freedOf, if_pos hmatches, if_pos hmatches, List.append_nil]
      rcases hrun : unregisterIfEntry mgrType e with ⟨e₁, freed, status⟩
      rw [hrun] at hstrip hfail
      by_cases hok : status = .ok
      · rw [hok, ← hstrip]
        exact ⟨rfl, rfl⟩
      · -- nothing was removed, and the entry keeps its managers
        have hself := hfail hok
        rw [hself] at hstrip
        simp only at hstrip
        rw [hself, keep_of_managed (hmanaged e List.mem_cons_self), hstrip]
        cases status with
        | ok => exact absurd rfl hok
        | _ => exact ⟨rfl, rfl⟩
    · have hmatches : matchesIf (some rep) e = false := by
        by_contra h
        rw [Bool.not_eq_false, matchesIf, Bool.and_eq_true, Bool.not_eq_true'] at h
        exact hmatch h
      have htail := ih hunique.2 (fun e' he' => hmanaged e' (List.mem_cons_of_mem _ he'))
        fun e' he' => htypes e' (List.mem_cons_of_mem _ he')
      rw [prune_of_not mgrType hmatches, freedOf_of_not mgrType hmatches, ← htail.1, ← htail.2]
      exact ⟨rfl, rfl⟩

section Unregister

variable {table : Table} (ifRep : Option IfRep) (mgrType : Option UuidT)

theorem mem_prune {e e' : Entry} (h : e' ∈ prune ifRep mgrType e) :
    (e' = e ∧ matchesIf ifRep e = false) ∨ (e' = strip mgrType e ∧ e'.Managed) := by
  rw [prune] at h
  split_ifs at h with hmatch
  · rw [keep] at h
    split_ifs at h with hempty
    · exact absurd h List.not_mem_nil
    · rw [List.mem_singleton] at h
      rw [h]
      exact .inr ⟨rfl, by rwa [Bool.not_eq_true] at hempty⟩
  · exact .inl ⟨List.mem_singleton.mp h, by simpa using hmatch⟩

theorem key_of_mem_prune {e e' : Entry} (h : e' ∈ prune ifRep mgrType e) : e'.ifSpec = e.ifSpec := by
  rcases mem_prune ifRep mgrType h with ⟨rfl, -⟩ | ⟨rfl, -⟩
  · rfl
  · exact strip_ifSpec mgrType e

theorem map_key_prune (entries : List Entry) :
    ((entries.flatMap (prune ifRep mgrType)).map Entry.key).Sublist (entries.map Entry.key) := by
  induction entries with
  | nil => exact List.Sublist.refl _
  | cons e entries ih =>
    rw [List.flatMap_cons, List.map_append, List.map_cons]
    have hhead : ((prune ifRep mgrType e).map Entry.key).Sublist [e.key] := by
      rw [prune, keep]
      split_ifs
      · exact List.nil_sublist _
      · rw [List.map_singleton, Entry.key, strip_ifSpec]
        exact List.Sublist.refl _
      · exact List.Sublist.refl _
    exact hhead.append ih

/-- An unregistration leaves a well-formed registry. -/
theorem wf_of_prune (hwf : Wf table) {table' : Table}
    (h : ∀ i, table' i = (table i).flatMap (prune ifRep mgrType)) : Wf table' where
  hashed i e he := by
    rw [h, List.mem_flatMap] at he
    obtain ⟨e₀, he₀, hmem⟩ := he
    rw [key_of_mem_prune ifRep mgrType hmem]
    exact hwf.hashed i e₀ he₀
  unique i := by
    rw [h]
    exact (hwf.unique i).sublist (map_key_prune ifRep mgrType _)
  managed i e he := by
    rw [h, List.mem_flatMap] at he
    obtain ⟨e₀, he₀, hmem⟩ := he
    rcases mem_prune ifRep mgrType hmem with ⟨rfl, -⟩ | ⟨-, hmanaged⟩
    · exact hwf.managed i e he₀
    · exact hmanaged
  types i e he := by
    rw [h, List.mem_flatMap] at he
    obtain ⟨e₀, he₀, hmem⟩ := he
    rcases mem_prune ifRep mgrType hmem with ⟨rfl, -⟩ | ⟨rfl, -⟩
    · exact hwf.types i e he₀
    · exact strip_types mgrType (hwf.types i e₀ he₀)

theorem coe_flatMap_range (f : ℕ → List ℕ) (n : ℕ) :
    (((List.range n).flatMap f : List ℕ) : Multiset ℕ) =
      ∑ i ∈ Finset.range n, (f i : Multiset ℕ) := by
  induction n with
  | zero => rfl
  | succ n ih =>
    rw [List.range_succ, List.flatMap_append, ← Multiset.coe_add, ih, Finset.sum_range_succ,
      List.flatMap_singleton]

theorem empty_of_le (hwf : Wf table) {i : ℕ} (hi : ifRegistrySize ≤ i) : table i = [] := by
  rw [List.eq_nil_iff_forall_not_mem]
  intro e he
  exact absurd (ifIndex_lt (hwf.hashed i e he)) (by omega)

theorem unregisterAny_eq (hwf : Wf table) {i : ℕ} {e : Entry} (he : e ∈ table i) :
    keep (unregisterAny mgrType e).1 = prune none mgrType e ∧
      (unregisterAny mgrType e).2.1 = freedOf none mgrType e := by
  rw [unregisterAny, prune, freedOf, matchesIf]
  by_cases hinternal : e.internal = true
  · simp [hinternal, keep_of_managed (hwf.managed i e he)]
  · simp [hinternal, (unregisterIfEntry_eq mgrType (hwf.types i e he)).1]

/-- **Unregistration**: the managers that match are removed, and the entries that have none left;
and the copies that are freed are those of the managers removed. -/
theorem unregister_table (hwf : Wf table) :
    (∀ i, (unregister table ifRep mgrType).table i = (table i).flatMap (prune ifRep mgrType)) ∧
    ((unregister table ifRep mgrType).freed : Multiset ℕ) =
      ∑ i ∈ Finset.range ifRegistrySize, ((table i).flatMap (freedOf ifRep mgrType) : Multiset ℕ) := by
  cases ifRep with
  | none =>
    constructor
    · intro i
      simp only [unregister]
      split_ifs with hi
      · exact List.flatMap_congr fun e he => (unregisterAny_eq mgrType hwf he).1
      · rw [empty_of_le hwf (by omega)]
        rfl
    · simp only [unregister]
      rw [coe_flatMap_range]
      refine Finset.sum_congr rfl fun i _ => ?_
      rw [List.flatMap_congr fun e he => (unregisterAny_eq mgrType hwf he).2]
  | some rep =>
    obtain ⟨index, hindex⟩ := exists_ifIndex rep.id
    have hlist := unregisterList_eq rep mgrType (hwf.unique index) (hwf.managed index)
      (hwf.types index)
    -- on the other lists there is no entry of the interface
    have hothers : ∀ i, i ≠ index → ∀ e ∈ table i, matchesIf (some rep) e = false := by
      intro i hi e he
      rw [matchesIf, Bool.and_eq_false_iff]
      refine .inr ?_
      by_contra hsame
      rw [Bool.not_eq_false, sameIf_iff, Entry.key, Prod.mk.injEq] at hsame
      have hhash := hwf.hashed i e he
      rw [hsame.1, hindex, Option.some_inj] at hhash
      exact hi hhash.symm
    simp only [unregister, hindex]
    constructor
    · intro i
      by_cases hi : i = index
      · rw [hi, Function.update_self, hlist.1]
      · rw [Function.update_of_ne hi, (flatMap_of_no_match _ mgrType (hothers i hi)).1]
    · rw [Finset.sum_eq_single_of_mem index (Finset.mem_range.mpr (ifIndex_lt hindex)), hlist.2]
      intro i _ hi
      rw [(flatMap_of_no_match _ mgrType (hothers i hi)).2]
      rfl

theorem unregister_copies (hwf : Wf table) :
    totalCopies (unregister table ifRep mgrType).table +
      ((unregister table ifRep mgrType).freed : Multiset ℕ) = totalCopies table := by
  obtain ⟨htable, hfreed⟩ := unregister_table ifRep mgrType hwf
  rw [hfreed, totalCopies, ← Finset.sum_add_distrib]
  refine Finset.sum_congr rfl fun i _ => ?_
  rw [htable]
  exact copiesIn_flatMap_prune ifRep mgrType (hwf.types i)

theorem unregister_allocated : (unregister table ifRep mgrType).allocated = [] := by
  cases ifRep with
  | none => rfl
  | some rep =>
    obtain ⟨index, hindex⟩ := exists_ifIndex rep.id
    simp only [unregister, hindex]

end Unregister

/-! ### What a registration does to the registry -/

section Register

variable {table : Table} {q : Registration}

/-- The entry is found, or it is a new one at the end of the list. -/
theorem findEntry_eq {entries before after : List Entry} {e : Entry} {added : Bool}
    (h : findEntry q entries = some (before, e, after, added)) :
    (added = false ∧ entries = before ++ e :: after ∧ sameIf q.ifSpec.rep e = true) ∨
    (added = true ∧ entries = before ∧ after = [] ∧ e = newEntry q ∧
      ∀ x ∈ before, sameIf q.ifSpec.rep x = false) := by
  rw [findEntry] at h
  split at h
  · rename_i e' after' hdrop
    simp only [Option.some_inj, Prod.mk.injEq] at h
    obtain ⟨rfl, rfl, rfl, rfl⟩ := h
    refine .inl ⟨rfl, ?_, ?_⟩
    · rw [← hdrop, List.takeWhile_append_dropWhile]
    · have hhead := List.head?_dropWhile_not (fun e => !sameIf q.ifSpec.rep e) entries
      rw [hdrop] at hhead
      simpa using hhead
  · rename_i hdrop
    split_ifs at h with hmem
    simp only [Option.some_inj, Prod.mk.injEq] at h
    obtain ⟨rfl, rfl, rfl, rfl⟩ := h
    refine .inr ⟨rfl, rfl, rfl, rfl, ?_⟩
    rw [List.dropWhile_eq_nil_iff] at hdrop
    intro x hx
    simpa using hdrop x hx

/-- The entry has one manager more. -/
theorem addManager_ok {mepv : ℕ} {copied : Bool} {e e' : Entry}
    (htypes : (e.typeInfoList.map TypeInfo.type).Nodup) (h : addManager q mepv copied e = .ok e') :
    e'.ifSpec = e.ifSpec ∧ e'.internal = e.internal ∧ e'.Managed ∧
      (e'.typeInfoList.map TypeInfo.type).Nodup ∧
      copies e' = copies e + (freeMepv copied (some mepv) : Multiset ℕ) := by
  rw [addManager] at h
  split at h
  · rename_i type htype
    split_ifs at h with hany hmem
    rw [Except.ok.injEq] at h
    rw [← h]
    refine ⟨rfl, rfl, ?_, ?_, ?_⟩
    · simp [Entry.Managed]
    · rw [List.map_append, List.nodup_append]
      refine ⟨htypes, List.nodup_singleton _, fun a ha b hb hab => ?_⟩
      obtain ⟨info, hinfo, rfl⟩ := List.mem_map.mp ha
      rw [List.map_singleton, List.mem_singleton] at hb
      refine hany (List.any_eq_true.mpr ⟨info, hinfo, ?_⟩)
      rw [decide_eq_true_iff, uuidEqual_iff, hab, hb]
    · simp only [copies, List.map_append, List.map_cons, List.map_nil, List.sum_append,
        List.sum_cons, List.sum_nil, add_zero, add_assoc]
  · split_ifs at h with hsome
    rw [Except.ok.injEq] at h
    rw [← h]
    refine ⟨rfl, rfl, ?_, htypes, ?_⟩
    · simp [Entry.Managed]
    · rw [Bool.not_eq_true, Option.isSome_eq_false_iff, Option.isNone_iff_eq_none] at hsome
      simp only [copies, hsome]
      have hnone : freeMepv e.copiedMepv none = [] := by simp [freeMepv]
      rw [hnone, Multiset.coe_nil, zero_add, add_comm]

/-- **Registration**: it fails, and nothing is changed and what was copied is freed; or the entry of
the interface, or a new one, gets a manager. -/
theorem register_cases (table : Table) (q : Registration) :
    ((register table q).status ≠ .ok ∧ (register table q).table = table ∧
      (register table q).freed = (register table q).allocated) ∨
    ∃ index before e after added mepv copied e',
      ifIndex q.ifSpec.rep.id = some index ∧
      findEntry q (table index) = some (before, e, after, added) ∧
      addManager q mepv copied e = .ok e' ∧
      register table q = ⟨Function.update table index (before ++ e' :: after), .ok,
        freeMepv copied (some mepv), []⟩ := by
  by_cases hvalid : q.valid = false
  · exact .inl (by simp [register, hvalid])
  rw [Bool.not_eq_false] at hvalid
  cases hmepv : takeMepv q with
  | error status =>
    have hstatus : status ≠ .ok := by
      intro hok
      rw [hok, takeMepv] at hmepv
      split_ifs at hmepv <;> split at hmepv <;> simp at hmepv
    exact .inl (by simp [register, hvalid, hmepv, hstatus])
  | ok found =>
    obtain ⟨mepv, copied⟩ := found
    obtain ⟨index, hindex⟩ := exists_ifIndex q.ifSpec.rep.id
    cases hfind : findEntry q (table index) with
    | none => exact .inl (by simp [register, hvalid, hmepv, hindex, hfind])
    | some place =>
      obtain ⟨before, e, after, added⟩ := place
      cases hadd : addManager q mepv copied e with
      | error status =>
        have hstatus : status ≠ .ok := by
          intro hok
          rw [hok, addManager] at hadd
          split at hadd <;> split_ifs at hadd <;> simp at hadd
        refine .inl ?_
        simp only [register, hvalid, hmepv, hindex, hfind, hadd, Bool.true_eq_false, if_false]
        refine ⟨hstatus, ?_, trivial⟩
        -- the error exit restores the list
        rcases findEntry_eq hfind with ⟨hadded, hlist, -⟩ | ⟨hadded, hlist, hafter, -, -⟩
        · rw [hadded, if_neg Bool.false_ne_true, ← hlist, Function.update_eq_self]
        · rw [hadded, if_pos rfl, hafter, List.append_nil, ← hlist, Function.update_eq_self]
      | ok e' =>
        refine .inr ⟨index, before, e, after, added, mepv, copied, e', hindex, hfind, hadd, ?_⟩
        simp only [register, hvalid, hmepv, hindex, hfind, hadd, Bool.true_eq_false, if_false]

/-- The list that a registration makes, against the one that was there. -/
theorem registered_list {index : ℕ} {before after : List Entry} {e e' : Entry} {added : Bool}
    {mepv : ℕ} {copied : Bool} (hwf : Wf table) (hindex : ifIndex q.ifSpec.rep.id = some index)
    (hfind : findEntry q (table index) = some (before, e, after, added))
    (hadd : addManager q mepv copied e = .ok e') :
    (∀ x ∈ before ++ e' :: after, ifIndex x.ifSpec.rep.id = some index ∧ x.Managed ∧
      (x.typeInfoList.map TypeInfo.type).Nodup) ∧
    ((before ++ e' :: after).map Entry.key).Nodup ∧
    copiesIn (before ++ e' :: after) =
      copiesIn (table index) + (freeMepv copied (some mepv) : Multiset ℕ) := by
  have hold : ∀ x ∈ table index, ifIndex x.ifSpec.rep.id = some index ∧ x.Managed ∧
      (x.typeInfoList.map TypeInfo.type).Nodup :=
    fun x hx => ⟨hwf.hashed index x hx, hwf.managed index x hx, hwf.types index x hx⟩
  rcases findEntry_eq hfind with ⟨-, hlist, -⟩ | ⟨-, hlist, hafter, hnew, hnone⟩
  · -- an entry that was there
    rw [hlist] at hold
    have he := hold e (List.mem_append_right _ List.mem_cons_self)
    obtain ⟨hspec, -, hmanaged, htypes, hcopies⟩ := addManager_ok he.2.2 hadd
    refine ⟨?_, ?_, ?_⟩
    · intro x hx
      rcases List.mem_append.mp hx with hx | hx
      · exact hold x (List.mem_append_left _ hx)
      · rcases List.mem_cons.mp hx with rfl | hx
        · exact ⟨by rw [hspec]; exact he.1, hmanaged, htypes⟩
        · exact hold x (List.mem_append_right _ (List.mem_cons_of_mem _ hx))
    · have hunique := hwf.unique index
      rw [hlist, List.map_append, List.map_cons] at hunique
      rw [List.map_append, List.map_cons, Entry.key, hspec]
      exact hunique
    · rw [hlist, copiesIn_append, copiesIn_append, copiesIn_cons, copiesIn_cons, hcopies]
      abel
  · -- a new one
    have htypes₀ : (e.typeInfoList.map TypeInfo.type).Nodup := by
      rw [hnew]
      exact List.nodup_nil
    obtain ⟨hspec, -, hmanaged, htypes, hcopies⟩ := addManager_ok htypes₀ hadd
    have hkey : e'.key = (q.ifSpec.rep.id, q.ifSpec.rep.vers) := by
      rw [Entry.key, hspec, hnew]
      rfl
    have hzero : copies e = 0 := by
      have hflag : freeMepv q.garbage none = [] := by cases q.garbage <;> rfl
      rw [hnew]
      simp [copies, newEntry, hflag]
    rw [hafter]
    rw [hlist] at hold ⊢
    refine ⟨?_, ?_, ?_⟩
    · intro x hx
      rcases List.mem_append.mp hx with hx | hx
      · exact hold x hx
      · rw [List.mem_singleton.mp hx]
        refine ⟨?_, hmanaged, htypes⟩
        rw [hspec, hnew]
        exact hindex
    · have hunique := hwf.unique index
      rw [hlist] at hunique
      rw [List.map_append, List.map_singleton, List.nodup_append]
      refine ⟨hunique, List.nodup_singleton _, fun a ha b hb hab => ?_⟩
      obtain ⟨x, hx, rfl⟩ := List.mem_map.mp ha
      have hsame := (sameIf_iff q.ifSpec.rep x).mpr (by
        rw [hab, List.mem_singleton.mp hb, hkey])
      rw [hnone x hx] at hsame
      exact Bool.false_ne_true hsame
    · rw [copiesIn_append, copiesIn_cons, hcopies, hzero]
      simp [copiesIn]

theorem totalCopies_update (table : Table) {index : ℕ} (hindex : index < ifRegistrySize)
    {entries : List Entry} {extra : Multiset ℕ}
    (h : copiesIn entries = copiesIn (table index) + extra) :
    totalCopies (Function.update table index entries) = totalCopies table + extra := by
  have hmem := Finset.mem_range.mpr hindex
  rw [totalCopies, totalCopies, ← Finset.add_sum_erase _ _ hmem, ← Finset.add_sum_erase _ _ hmem,
    Function.update_self, h]
  have hrest : ∑ i ∈ (Finset.range ifRegistrySize).erase index,
      copiesIn (Function.update table index entries i) =
        ∑ i ∈ (Finset.range ifRegistrySize).erase index, copiesIn (table i) := by
    refine Finset.sum_congr rfl fun i hi => ?_
    rw [Function.update_of_ne (Finset.ne_of_mem_erase hi)]
  rw [hrest]
  abel

theorem register_wf (hwf : Wf table) : Wf (register table q).table := by
  rcases register_cases table q with
    ⟨-, hsame, -⟩ | ⟨index, before, e, after, added, mepv, copied, e', hindex, hfind, hadd, hrun⟩
  · rw [hsame]
    exact hwf
  · obtain ⟨hall, hunique, -⟩ := registered_list hwf hindex hfind hadd
    rw [hrun]
    have hat : ∀ i, ∀ x ∈ Function.update table index (before ++ e' :: after) i,
        ifIndex x.ifSpec.rep.id = some i ∧ x.Managed ∧
          (x.typeInfoList.map TypeInfo.type).Nodup := by
      intro i x hx
      by_cases hi : i = index
      · rw [hi, Function.update_self] at hx
        rw [hi]
        exact hall x hx
      · rw [Function.update_of_ne hi] at hx
        exact ⟨hwf.hashed i x hx, hwf.managed i x hx, hwf.types i x hx⟩
    refine ⟨fun i x hx => (hat i x hx).1, fun i => ?_, fun i x hx => (hat i x hx).2.1,
      fun i x hx => (hat i x hx).2.2⟩
    by_cases hi : i = index
    · simp only [hi, Function.update_self]
      exact hunique
    · simp only [Function.update_of_ne hi]
      exact hwf.unique i

theorem register_copies (hwf : Wf table) :
    totalCopies (register table q).table + ((register table q).freed : Multiset ℕ) =
      totalCopies table + ((register table q).allocated : Multiset ℕ) := by
  rcases register_cases table q with
    ⟨-, hsame, hfreed⟩ | ⟨index, before, e, after, added, mepv, copied, e', hindex, hfind, hadd, hrun⟩
  · rw [hsame, hfreed]
  · obtain ⟨-, -, hcopies⟩ := registered_list hwf hindex hfind hadd
    rw [hrun, totalCopies_update table (ifIndex_lt hindex) hcopies, Multiset.coe_nil, add_zero]

end Register

/-! ### Runs -/

theorem perform_wf {table : Table} (hwf : Wf table) (op : Op) : Wf (perform table op).table := by
  cases op with
  | register q => exact register_wf hwf
  | unregister ifRep mgrType =>
    exact wf_of_prune ifRep mgrType hwf (unregister_table ifRep mgrType hwf).1

theorem perform_copies {table : Table} (hwf : Wf table) (op : Op) :
    totalCopies (perform table op).table + ((perform table op).freed : Multiset ℕ) =
      totalCopies table + ((perform table op).allocated : Multiset ℕ) := by
  cases op with
  | register q => exact register_copies hwf
  | unregister ifRep mgrType =>
    rw [perform, unregister_copies ifRep mgrType hwf, unregister_allocated, Multiset.coe_nil,
      add_zero]

/-- The registry is well formed, and each copy is in it or has been freed, once. -/
structure Sound (w : World) : Prop where
  wf : Wf w.table
  conserved : totalCopies w.table + (w.freed : Multiset ℕ) = (w.allocated : Multiset ℕ)

theorem sound_init : Sound World.init where
  wf := ⟨fun _ _ he => absurd he List.not_mem_nil, fun _ => List.nodup_nil,
    fun _ _ he => absurd he List.not_mem_nil, fun _ _ he => absurd he List.not_mem_nil⟩
  conserved := by simp [totalCopies, World.init, copiesIn]

theorem Sound.step {w : World} (h : Sound w) (op : Op) : Sound (w.step op) where
  wf := perform_wf h.wf op
  conserved := by
    have hop := perform_copies h.wf op
    simp only [World.step]
    rw [← Multiset.coe_add, ← Multiset.coe_add, ← h.conserved]
    calc totalCopies (perform w.table op).table +
          ((w.freed : Multiset ℕ) + ((perform w.table op).freed : Multiset ℕ))
        = (totalCopies (perform w.table op).table + ((perform w.table op).freed : Multiset ℕ)) +
            (w.freed : Multiset ℕ) := by abel
      _ = totalCopies w.table + (w.freed : Multiset ℕ) +
            ((perform w.table op).allocated : Multiset ℕ) := by
          rw [hop]
          abel

theorem Sound.run {w : World} (h : Sound w) (ops : List Op) : Sound (w.run ops) := by
  induction ops generalizing w with
  | nil => exact h
  | cons op ops ih => exact ih (h.step op)

/-! ### The listing -/

theorem ifInqId_injective {spec₁ spec₂ : IfSpec} (h : ifInqId spec₁ = ifInqId spec₂) :
    (spec₁.rep.id, spec₁.rep.vers) = (spec₂.rep.id, spec₂.rep.vers) := by
  simp only [ifInqId, IfId.mk.injEq] at h
  obtain ⟨hid, hmajor, hminor⟩ := h
  have hvers : spec₁.rep.vers = spec₂.rep.vers := by
    apply BitVec.eq_of_toNat_eq
    have hlow := congrArg BitVec.toNat hmajor
    have hhigh := congrArg BitVec.toNat hminor
    simp only [BitVec.toNat_setWidth, BitVec.toNat_ushiftRight, Nat.shiftRight_eq_div_pow] at hlow hhigh
    have hlt₁ := spec₁.rep.vers.isLt
    have hlt₂ := spec₂.rep.vers.isLt
    omega
  rw [hid, hvers]

/-- An interface that is not internal is registered. -/
def Registered (table : Table) (id : IfId) : Prop :=
  ∃ i, ∃ e ∈ table i, e.internal = false ∧ ifInqId e.ifSpec = id

section Listing

variable {table : Table}

theorem mem_writtenIds (hwf : Wf table) (id : IfId) :
    id ∈ writtenIds table ↔ Registered table id := by
  simp only [writtenIds, List.mem_flatMap, List.mem_range, List.mem_map, List.mem_filter,
    Bool.not_eq_true', Registered]
  constructor
  · rintro ⟨i, -, e, ⟨he, hinternal⟩, rfl⟩
    exact ⟨i, e, he, hinternal, rfl⟩
  · rintro ⟨i, e, he, hinternal, rfl⟩
    exact ⟨i, ifIndex_lt (hwf.hashed i e he), e, ⟨he, hinternal⟩, rfl⟩

theorem length_writtenIds (table : Table) : (writtenIds table).length = inqNumRegistered table := by
  rw [writtenIds, List.length_flatMap, inqNumRegistered]
  congr 1
  refine List.map_congr_left fun i _ => ?_
  rw [List.length_map, List.countP_eq_length_filter]

/-- No interface is written twice. -/
theorem nodup_writtenIds (hwf : Wf table) : (writtenIds table).Nodup := by
  rw [writtenIds, List.nodup_flatMap]
  constructor
  · intro i _
    have hkeys : (((table i).filter fun e => !e.internal).map Entry.key).Nodup :=
      (hwf.unique i).sublist (List.filter_sublist.map _)
    rw [List.Nodup, List.pairwise_map] at hkeys ⊢
    exact hkeys.imp fun hne heq => hne (ifInqId_injective heq)
  · refine List.nodup_range.pairwise_of_forall_ne fun i _ j _ hij => ?_
    -- one identifier has one hash value
    intro id hi hj
    obtain ⟨e, he, rfl⟩ := List.mem_map.mp hi
    obtain ⟨e', he', heq⟩ := List.mem_map.mp hj
    have hhash := hwf.hashed i e (List.mem_filter.mp he).1
    have hhash' := hwf.hashed j e' (List.mem_filter.mp he').1
    have hid : e'.ifSpec.rep.id = e.ifSpec.rep.id := congrArg IfId.uuid heq
    rw [hid, hhash, Option.some_inj] at hhash'
    exact hij hhash'

end Listing

/-- The interface is registered when the listing begins, and after each operation of the other
threads until it ends. -/
def PresentThroughout (w : World) (between : List Op) (id : IfId) : Prop :=
  ∀ done, done <+: between → Registered (w.run done).table id

/-- What a listing is to do, `between` being the operations of other threads after the count and
before the copy: all elements of the vector are initialised and none behind it is written, and each
interface that is there throughout is listed once. -/
def ListsRight (w : World) (between : List Op) : Prop :=
  match inqIfIds w.table (w.run between).table with
  | none => ∀ id, ¬ PresentThroughout w between id
  | some (count, ids) =>
    ids.length = count ∧ ∀ id, PresentThroughout w between id → ids.count id = 1

theorem listsRight_iff {w : World} (h : Sound w) (between : List Op) : ListsRight w between ↔
    inqNumRegistered w.table = 0 ∨
      inqNumRegistered (w.run between).table = inqNumRegistered w.table := by
  rw [ListsRight, inqIfIds]
  split_ifs with hzero
  · refine iff_of_true (fun id hpresent => ?_) (.inl hzero)
    have hmem := (mem_writtenIds h.wf id).mpr (hpresent [] List.nil_prefix)
    rw [← length_writtenIds, List.length_eq_zero_iff] at hzero
    rw [hzero] at hmem
    exact List.not_mem_nil hmem
  · simp only [hzero, false_or, length_writtenIds]
    refine and_iff_left fun id hpresent => ?_
    have hwf := (h.run between).wf
    exact List.count_eq_one_of_mem (nodup_writtenIds hwf)
      ((mem_writtenIds hwf id).mpr (hpresent between (List.prefix_refl _)))

/-- The registry after operations of any threads. -/
def after (ops : List Op) : World := World.init.run ops

theorem sound_after (ops : List Op) : Sound (after ops) := sound_init.run ops

/-- **Registration and listing**, in every state that operations lead to: a registration that fails
changes nothing and frees what it copied; an unregistration removes the managers that match, and the
entries left without any; each copy is in the registry or has been freed, once; and the listing is
right exactly when there was nothing to list, or as many interfaces at the copy as at the count. -/
theorem atomic_and_listed_iff (ops : List Op) (q : Registration) (ifRep : Option IfRep)
    (mgrType : Option UuidT) (between : List Op) :
    ((register (after ops).table q).status ≠ .ok →
      (register (after ops).table q).table = (after ops).table ∧
        (register (after ops).table q).freed = (register (after ops).table q).allocated) ∧
    (∀ i, (unregister (after ops).table ifRep mgrType).table i =
      ((after ops).table i).flatMap (prune ifRep mgrType)) ∧
    totalCopies (after ops).table + ((after ops).freed : Multiset ℕ) =
      ((after ops).allocated : Multiset ℕ) ∧
    (ListsRight (after ops) between ↔ inqNumRegistered (after ops).table = 0 ∨
      inqNumRegistered ((after ops).run between).table = inqNumRegistered (after ops).table) := by
  have hsound := sound_after ops
  refine ⟨fun hfail => ?_, (unregister_table ifRep mgrType hsound.wf).1, hsound.conserved,
    listsRight_iff hsound between⟩
  rcases register_cases (after ops).table q with ⟨-, hsame⟩ | ⟨_, _, _, _, _, _, _, _, _, _, _, hrun⟩
  · exact hsame
  · rw [hrun] at hfail
    exact absurd rfl hfail

/-- A registration of an interface with the manager of its specification. -/
def plain (rep : IfRep) : Registration where
  valid := true
  ifSpec := ⟨rep, 0, some 1⟩
  mgrType := none
  mgrEpv := false
  internal := false
  mepvMem := none
  entryMem := true
  typeInfoMem := true
  garbage := false

/-- One interface is counted, and another is registered, or the one unregistered, before the copy. -/
theorem listing_overrun :
    inqIfIds (after [.register (plain ⟨mgmtId, 1, []⟩)]).table
      ((after [.register (plain ⟨mgmtId, 1, []⟩)]).run
        [.register (plain ⟨mgmtId, 2, []⟩)]).table =
      some (1, [⟨mgmtId, 1, 0⟩, ⟨mgmtId, 2, 0⟩]) ∧
    inqIfIds (after [.register (plain ⟨mgmtId, 1, []⟩)]).table
      ((after [.register (plain ⟨mgmtId, 1, []⟩)]).run
        [.unregister (some ⟨mgmtId, 1, []⟩) none]).table = some (1, []) ∧
    ¬ ListsRight (after [.register (plain ⟨mgmtId, 1, []⟩)])
      [.register (plain ⟨mgmtId, 2, []⟩)] := by
  refine ⟨by decide, by decide, ?_⟩
  rw [listsRight_iff (sound_after _)]
  decide

end IfRgy
end Com
