/-
The interface registry (comif.c).

A hash table of interfaces, each with its managers: a default one and one for each manager
type.  `rpc__if_lookup` takes a hint with a bucket and a place on its list.  Manager entry point
vectors are copied when they are registered; here a vector stands for its contents.
-/
import FreeDce.Cn.SyntaxAnswers

namespace Com

open Uuid Cn

/-! ### Registration -/

/-- `rpc_if_rep_t`, with its entry point vectors. -/
structure IfSpec where
  rep : IfRep
  serverEpv : ℕ
  managerEpv : Option ℕ
deriving DecidableEq

/-- `rpc_if_type_info_t`. -/
structure TypeInfo where
  type : UuidT
  mepv : ℕ
deriving DecidableEq

/-- `rpc_if_rgy_entry_t`. -/
structure RgyEntry where
  ifSpec : IfSpec
  defaultMepv : Option ℕ := none
  internal : Bool
  typeInfoList : List TypeInfo := []
deriving DecidableEq

/-- `if_registry`: each interface is on the list of its hash value. -/
structure Registry where
  chain : ℕ → List RgyEntry
  hashed : ∀ i, ∀ e ∈ chain i, ifIndex e.ifSpec.rep.id = some i

inductive Status
  | ok
  | unknownIf
  | unknownMgrType
  | typeAlreadyRegistered
  | noMepv
  | badVersion
deriving DecidableEq

def Registry.empty : Registry := ⟨fun _ => [], fun _ _ he => absurd he List.not_mem_nil⟩

/-- A list takes the place of the one with a number. -/
def Registry.set (registry : Registry) (index : ℕ) (entries : List RgyEntry)
    (h : ∀ e ∈ entries, ifIndex e.ifSpec.rep.id = some index) : Registry where
  chain := Function.update registry.chain index entries
  hashed i e he := by
    rw [Function.update_apply] at he
    split at he
    · rename_i hi
      rw [hi]
      exact h e he
    · exact registry.hashed i e he

/-- A manager type that is given and not nil. -/
def givenType (mgrType : Option UuidT) : Option UuidT := mgrType.filter (· ≠ nilUuid)

/-- The interface UUID and version match. -/
def sameIf (rep : IfRep) (e : RgyEntry) : Bool :=
  uuidEqual e.ifSpec.rep.id rep.id = some true && e.ifSpec.rep.vers = rep.vers

/-- A manager is added to an entry. -/
def addManager (mgrType : Option UuidT) (mepv : ℕ) (e : RgyEntry) : Except Status RgyEntry :=
  match givenType mgrType with
  | some type =>
    if e.typeInfoList.any fun info => uuidEqual info.type type = some true then
      .error .typeAlreadyRegistered
    else .ok { e with typeInfoList := e.typeInfoList ++ [⟨type, mepv⟩] }
  | none =>
    if e.defaultMepv.isSome then .error .typeAlreadyRegistered
    else .ok { e with defaultMepv := some mepv }

/-- The entry of the interface, or a new one at the end of the list, gets a manager. -/
def registerList (ifSpec : IfSpec) (mgrType : Option UuidT) (mepv : ℕ) (internal : Bool) :
    List RgyEntry → Except Status (List RgyEntry)
  | [] => do
    let e ← addManager mgrType mepv { ifSpec := ifSpec, internal := internal }
    .ok [e]
  | e :: entries =>
    if sameIf ifSpec.rep e then do
      let e ← addManager mgrType mepv e
      .ok (e :: entries)
    else do
      let entries ← registerList ifSpec mgrType mepv internal entries
      .ok (e :: entries)

/-- Managers are taken off an entry: all of them, the default one, or that of a type. -/
def unregisterIfEntry (mgrType : Option UuidT) (e : RgyEntry) : Except Status RgyEntry :=
  match mgrType with
  | none => .ok { e with defaultMepv := none, typeInfoList := [] }
  | some type =>
    if type = nilUuid then
      if e.defaultMepv.isNone then .error .unknownMgrType else .ok { e with defaultMepv := none }
    else if e.typeInfoList.any fun info => uuidEqual info.type type = some true then
      .ok { e with
        typeInfoList := e.typeInfoList.eraseP fun info => uuidEqual info.type type = some true }
    else .error .unknownMgrType

/-- An entry without managers is removed. -/
def keep (e : RgyEntry) : List RgyEntry :=
  if e.typeInfoList.isEmpty && e.defaultMepv.isNone then [] else [e]

/-- The walk of `rpc__server_unregister_if_int` through one list. -/
def unregisterList (rep : IfRep) (mgrType : Option UuidT) :
    List RgyEntry → Except Status (List RgyEntry)
  | [] => .error .unknownIf
  | e :: entries =>
    if !e.internal && sameIf rep e then do
      let e ← unregisterIfEntry mgrType e
      .ok (keep e ++ entries)
    else do
      let entries ← unregisterList rep mgrType entries
      .ok (e :: entries)

/-- What is left of an entry when no interface is named. -/
def unregisterAny (mgrType : Option UuidT) (e : RgyEntry) : RgyEntry :=
  if e.internal then e
  else match unregisterIfEntry mgrType e with
    | .ok e => e
    | .error _ => e

/-! ### The operations keep each interface on its list -/

theorem except_bind_eq_ok {α β : Type} {x : Except Status α} {f : α → Except Status β} {b : β} :
    (x >>= f) = .ok b ↔ ∃ a, x = .ok a ∧ f a = .ok b := by
  cases x with
  | error st =>
    constructor
    · intro h
      cases h
    · rintro ⟨_, h, -⟩
      cases h
  | ok a =>
    constructor
    · exact fun h => ⟨a, rfl, h⟩
    · rintro ⟨_, h, hf⟩
      cases h
      exact hf

theorem addManager_ifSpec {mgrType : Option UuidT} {mepv : ℕ} {e e' : RgyEntry}
    (h : addManager mgrType mepv e = .ok e') : e'.ifSpec = e.ifSpec := by
  rw [addManager] at h
  split at h
  · split at h <;> cases h
    rfl
  · split at h <;> cases h
    rfl

theorem unregisterIfEntry_ifSpec {mgrType : Option UuidT} {e e' : RgyEntry}
    (h : unregisterIfEntry mgrType e = .ok e') : e'.ifSpec = e.ifSpec := by
  cases mgrType with
  | none =>
    cases h
    rfl
  | some type =>
    rw [unregisterIfEntry] at h
    split at h
    · split at h <;> cases h
      rfl
    · split at h <;> cases h
      rfl

theorem registerList_ifSpec {ifSpec : IfSpec} {mgrType : Option UuidT} {mepv : ℕ} {internal : Bool}
    {entries entries' : List RgyEntry}
    (h : registerList ifSpec mgrType mepv internal entries = .ok entries') :
    ∀ e' ∈ entries', e'.ifSpec = ifSpec ∨ ∃ e ∈ entries, e'.ifSpec = e.ifSpec := by
  induction entries generalizing entries' with
  | nil =>
    obtain ⟨e, hadd, h⟩ := except_bind_eq_ok.mp h
    cases h
    intro e' he'
    rw [List.mem_singleton.mp he']
    exact Or.inl (addManager_ifSpec hadd)
  | cons e entries ih =>
    rw [registerList] at h
    split at h
    · obtain ⟨e₁, hadd, h⟩ := except_bind_eq_ok.mp h
      cases h
      intro e' he'
      rcases List.mem_cons.mp he' with rfl | he'
      · exact Or.inr ⟨e, List.mem_cons_self, addManager_ifSpec hadd⟩
      · exact Or.inr ⟨e', List.mem_cons_of_mem _ he', rfl⟩
    · obtain ⟨entries₁, hrest, h⟩ := except_bind_eq_ok.mp h
      cases h
      intro e' he'
      rcases List.mem_cons.mp he' with rfl | he'
      · exact Or.inr ⟨e', List.mem_cons_self, rfl⟩
      · refine (ih hrest e' he').imp_right ?_
        rintro ⟨e₂, he₂, heq⟩
        exact ⟨e₂, List.mem_cons_of_mem _ he₂, heq⟩

theorem mem_keep {e e' : RgyEntry} (h : e' ∈ keep e) : e' = e := by
  rw [keep] at h
  split at h
  · cases h
  · exact List.mem_singleton.mp h

theorem unregisterList_ifSpec {rep : IfRep} {mgrType : Option UuidT}
    {entries entries' : List RgyEntry} (h : unregisterList rep mgrType entries = .ok entries') :
    ∀ e' ∈ entries', ∃ e ∈ entries, e'.ifSpec = e.ifSpec := by
  induction entries generalizing entries' with
  | nil => cases h
  | cons e entries ih =>
    rw [unregisterList] at h
    split at h
    · obtain ⟨e₁, hun, h⟩ := except_bind_eq_ok.mp h
      cases h
      intro e' he'
      rcases List.mem_append.mp he' with he' | he'
      · rw [mem_keep he']
        exact ⟨e, List.mem_cons_self, unregisterIfEntry_ifSpec hun⟩
      · exact ⟨e', List.mem_cons_of_mem _ he', rfl⟩
    · obtain ⟨entries₁, hrest, h⟩ := except_bind_eq_ok.mp h
      cases h
      intro e' he'
      rcases List.mem_cons.mp he' with rfl | he'
      · exact ⟨e', List.mem_cons_self, rfl⟩
      · obtain ⟨e₂, he₂, heq⟩ := ih hrest e' he'
        exact ⟨e₂, List.mem_cons_of_mem _ he₂, heq⟩

theorem unregisterAny_ifSpec (mgrType : Option UuidT) (e : RgyEntry) :
    (unregisterAny mgrType e).ifSpec = e.ifSpec := by
  rw [unregisterAny]
  split
  · rfl
  · split
    · rename_i h
      exact unregisterIfEntry_ifSpec h
    · rfl

/-- `rpc__server_register_if_int`. -/
def Registry.registerIf (registry : Registry) (ifSpec : IfSpec) (mgrType : Option UuidT)
    (mgrEpv : Option ℕ) (internal : Bool) : Registry × Status :=
  match mgrEpv <|> ifSpec.managerEpv with
  | none => (registry, .noMepv)
  | some mepv =>
    match hindex : ifIndex ifSpec.rep.id with
    | none => (registry, .badVersion)
    | some index =>
      match h : registerList ifSpec mgrType mepv internal (registry.chain index) with
      | .error st => (registry, st)
      | .ok entries =>
        (registry.set index entries fun e he => by
          rcases registerList_ifSpec h e he with heq | ⟨e₁, he₁, heq⟩
          · rw [heq]
            exact hindex
          · rw [heq]
            exact registry.hashed index e₁ he₁, .ok)

/-- `rpc__server_unregister_if_int`. -/
def Registry.unregisterIf (registry : Registry) (ifRep : Option IfRep) (mgrType : Option UuidT) :
    Registry × Status :=
  match ifRep with
  | none =>
    ({ chain := fun i => (registry.chain i).flatMap fun e => keep (unregisterAny mgrType e)
       hashed := fun i e he => by
        obtain ⟨e₁, he₁, hkeep⟩ := List.mem_flatMap.mp he
        rw [mem_keep hkeep, unregisterAny_ifSpec]
        exact registry.hashed i e₁ he₁ },
      if ∃ i < ifRegistrySize, ∃ e ∈ registry.chain i,
          e.internal = false ∧ (unregisterIfEntry mgrType e).isOk = true then .ok
      else .unknownMgrType)
  | some rep =>
    match ifIndex rep.id with
    | none => (registry, .badVersion)
    | some index =>
      match h : unregisterList rep mgrType (registry.chain index) with
      | .error st => (registry, st)
      | .ok entries =>
        (registry.set index entries fun e he => by
          obtain ⟨e₁, he₁, heq⟩ := unregisterList_ifSpec h e he
          rw [heq]
          exact registry.hashed index e₁ he₁, .ok)

inductive RegistryOp
  | register (ifSpec : IfSpec) (mgrType : Option UuidT) (mgrEpv : Option ℕ) (internal : Bool)
  | unregister (ifRep : Option IfRep) (mgrType : Option UuidT)

def registryStep (registry : Registry) : RegistryOp → Registry
  | .register ifSpec mgrType mgrEpv internal =>
    (registry.registerIf ifSpec mgrType mgrEpv internal).1
  | .unregister ifRep mgrType => (registry.unregisterIf ifRep mgrType).1

/-- The registry after registrations and unregistrations. -/
def registryAfter (ops : List RegistryOp) : Registry := ops.foldl registryStep .empty

/-! ### Lookup -/

/-- `RPC_C_INVALID_IHINT`. -/
def invalidIhint : BitVec 16 := 0xFFFF

/-- The identifier of the management interface. -/
def mgmtId : UuidT := ⟨0xafa8bd80, 0x7d8a, 0x11c9, 0xbe, 0xf4, 0x08002b102989⟩

/-- What a lookup asks for: an abstract syntax, a manager type, and whether the manager's entry
point vector is wanted. -/
structure Request where
  abstractSyntax : PresSyntaxId
  mgrType : Option UuidT
  wantsMepv : Bool

/-- `outOfTable`: a list behind the end of `if_registry` is read. -/
inductive LookupResult
  | outOfTable
  | failed (status : Status)
  | found (ihint : BitVec 16) (ifSpec : IfSpec) (sepv : ℕ) (mepv : Option ℕ)
deriving DecidableEq

/-- `RPC_IF_IS_COMPATIBLE`. -/
def isCompatible (a : PresSyntaxId) (e : RgyEntry) : Bool := ifIsCompatible a e.ifSpec.rep

/-- The whole list is searched; the entries are counted from 1. -/
def searchList (a : PresSyntaxId) : ℕ → List RgyEntry → Option (ℕ × RgyEntry)
  | _, [] => none
  | entryCount, e :: entries =>
    if isCompatible a e then some (entryCount, e) else searchList a (entryCount + 1) entries

/-- The entry that is found on the list with a number; `RPC_LIST_LOOKUP` takes the first one if
the place is 0. -/
def listEntry (registry : Registry) (a : PresSyntaxId) (index : ℕ) (entryCount : Option ℕ) :
    Option (ℕ × RgyEntry) :=
  let entries := registry.chain index
  let hinted := do
    let n ← entryCount
    let e ← entries[n - 1]?
    if isCompatible a e then some (n, e) else none
  hinted <|> searchList a 1 entries

def hintIndex (ihint : BitVec 16) : ℕ := (ihint &&& 0x00FF).toNat

def hintCount (ihint : BitVec 16) : ℕ := ((ihint &&& 0xFF00) >>> 8).toNat

def makeHint (index entryCount : ℕ) : BitVec 16 :=
  BitVec.ofNat 16 (index ||| ((entryCount &&& 0x00FF) <<< 8))

/-- The part of `rpc__if_lookup` that chooses the entry. -/
def chooseEntry (registry : Registry) (a : PresSyntaxId) (ihint : BitVec 16) :
    Except LookupResult (BitVec 16 × RgyEntry) := do
  let (index, entryCount) ← if ihint ≠ invalidIhint then
      .ok (hintIndex ihint, some (hintCount ihint))
    else match ifIndex a.id with
      | some index => .ok (index, none)
      | none => .error (.failed .badVersion)
  if ifRegistrySize ≤ index then .error .outOfTable
  else match listEntry registry a index entryCount with
    | none => .error (.failed .unknownIf)
    | some (n, e) => .ok (makeHint index n, e)

/-- The default manager of an entry. -/
def answerDefault (wantsMepv : Bool) (ihint : BitVec 16) (e : RgyEntry) : LookupResult :=
  if wantsMepv then
    match e.defaultMepv with
    | none => .failed .unknownMgrType
    | some mepv => .found ihint e.ifSpec e.ifSpec.serverEpv (some mepv)
  else .found ihint e.ifSpec e.ifSpec.serverEpv none

def merge : Except LookupResult LookupResult → LookupResult
  | .ok r => r
  | .error r => r

/-- `rpc__if_lookup`.  For the management interface the default manager is the last resort. -/
def ifLookup (registry : Registry) (req : Request) (ihint : BitVec 16) : LookupResult :=
  merge do
    let (ihint, e) ← chooseEntry registry req.abstractSyntax ihint
    match givenType req.mgrType with
    | none => .ok (answerDefault req.wantsMepv ihint e)
    | some type =>
      match e.typeInfoList.find? fun info => uuidEqual info.type type = some true with
      | some info => .ok (.found ihint e.ifSpec e.ifSpec.serverEpv
          (if req.wantsMepv then some info.mepv else none))
      | none =>
        if uuidEqual mgmtId req.abstractSyntax.id = some true then do
          let (ihint, e) ← chooseEntry registry req.abstractSyntax invalidIhint
          .ok (answerDefault req.wantsMepv ihint e)
        else .ok (.failed .unknownMgrType)

end Com
