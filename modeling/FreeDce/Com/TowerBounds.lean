/-
Towers that come from the network, and what is read and written while they are parsed
(rpcdutil.c, comtwrref.c, comtwrflr.c, comnaf.c, twr_ip.c, twr_uxd.c).

The parsers are given the octets of the tower without their number, walk through the floors by
the counts in them, and copy address information as long as it says it is.  Here each access is
checked: `wild` is a read beyond the octets, a copy beyond the variable or structure it goes to, or
the use of a floor behind the last one.

* `ends_towerToFields` — when `tower_to_fields` makes no such access, and what it accepts then;
* `ends_nafTowerFlrsToAddr` — the same of the address;
* `parsed_in_bounds_iff` — exactly when parsing does what it is to do.
-/
import FreeDce.Com.Tower

namespace Tower
namespace Net

open Bytes Uuid

/-! ### Checked accesses -/

/-- Why parsing ends early: an error status, or an access out of bounds. -/
inductive Stop
  | status
  | wild
deriving DecidableEq

abbrev M := Except Stop

/-- A read. -/
def need {α : Type} : Option α → M α
  | some a => .ok a
  | none => .error .wild

/-- A search, with an error status if nothing is found. -/
def refuse {α : Type} : Option α → M α
  | some a => .ok a
  | none => .error .status

/-! ### The upper floors -/

variable (supported : ℕ → Bool)

/-- The copy of the address information into a 16-bit variable. -/
def addressInt16 (floor : Floor) : M (BitVec 16) := do
  let bytes ← need (readAt floor.octetString floor.addressStart floor.addressCount)
  if floor.addressCount ≤ 2 then .ok (BitVec.ofNat 16 (ofLE bytes)) else .error .wild

/-- `rpc__tower_flr_id_to_uuid`.  The status for a wrong prefix is overwritten. -/
def towerFlrIdToUuid (mem : List UInt8) (start : ℕ) : M (UuidT × BitVec 16) :=
  need (Tower.towerFlrIdToUuid mem start)

/-- `rpc__tower_flr_to_uuid`. -/
def towerFlrToUuid (floor : Floor) : M (UuidT × BitVec 16 × BitVec 16) := do
  let (uuid, versionMajor) ← towerFlrIdToUuid floor.octetString protIdStart
  let versionMinor ← addressInt16 floor
  .ok (uuid, versionMajor, versionMinor)

/-- `rpc__tower_flr_to_if_id`. -/
def towerFlrToIfId (floor : Floor) : M IfId := do
  let (uuid, versionMajor, versionMinor) ← towerFlrToUuid floor
  .ok ⟨uuid, versionMajor, versionMinor⟩

/-- `rpc__tower_flr_to_drep`. -/
def towerFlrToDrep (floor : Floor) : M SyntaxId := do
  let (uuid, versionMajor, versionMinor) ← towerFlrToUuid floor
  .ok ⟨uuid, versionMinor.setWidth 32 <<< 16 ||| versionMajor.setWidth 32⟩

/-- The first byte of a protocol identifier. -/
def firstByte (mem : List UInt8) : M UInt8 := need ((readAt mem protIdStart 1).bind List.head?)

/-- `rpc__tower_flr_to_rpc_prot_id`. -/
def towerFlrToRpcProtId (floor : Floor) : M (ℕ × ℕ × BitVec 16) := do
  let protocolId ← firstByte floor.octetString
  let (rpcProtocolId, versionMajor) ←
    refuse (protIdSearch supported protocolId (List.range protseqIdMax))
  let versionMinor ← addressInt16 floor
  .ok (rpcProtocolId, versionMajor, versionMinor)

/-- `rpc__tower_to_tower_ref` and `rpc__tower_ref_alloc`, which have no status but ok. -/
def towerToTowerRef (octets : List UInt8) : M (List Floor) :=
  need (Tower.towerToTowerRef ⟨octets.length, octets⟩)

/-- The floors that `rpc__tower_ref_inq_protseq_id` searches. -/
def floorsToSearch (towerRef : List Floor) : M (List Floor) :=
  if 5 ≤ towerRef.length then .ok (towerRef.drop 2)
  else if 3 ≤ towerRef.length then do
    let floor ← need towerRef.head?
    let _ ← towerFlrToRpcProtId supported floor
    .ok towerRef
  else .error .status

/-- `rpc__tower_ref_inq_protseq_id`. -/
def towerRefInqProtseqId (towerRef : List Floor) : M ℕ := do
  let floors ← floorsToSearch supported towerRef
  let ids ← floors.mapM fun floor => need (flrProtId floor)
  refuse (protseqSearch ids towerProtIds)

/-! ### The lower floors -/

/-- The loop that skips floors up to one that is accepted, with the number of those behind it. -/
def skipFloors (accepts : UInt8 → Bool) : ℕ → List UInt8 → M (ℕ × List UInt8)
  | 0, _ => .error .status
  | n + 1, mem => do
    let idSize := ofLE (← need (readAt mem 0 2))
    let id ← firstByte mem
    if idSize = 1 ∧ accepts id then .ok (n, mem)
    else
      let addrSize := ofLE (← need (readAt mem (2 + idSize) 2))
      skipFloors accepts n (mem.drop (2 + idSize + 2 + addrSize))

/-- A copy of address information into a structure. -/
def copyAddress (sa : Sockaddr) (off : ℕ) (mem : List UInt8) (start n : ℕ) : M Sockaddr := do
  need (poke sa off (← need (readAt mem start n)))

/-- The floor behind the one that was accepted. -/
def secondFlr (second : UInt8) (off₂ : Option ℕ) (sa : Sockaddr) (mem : List UInt8) :
    M Sockaddr := do
  let idSize := ofLE (← need (readAt mem 0 2))
  let id ← firstByte mem
  if idSize = 1 ∧ id = second then
    let addrSize := ofLE (← need (readAt mem 3 2))
    match off₂ with
    | some off => copyAddress sa off mem 5 addrSize
    | none => .ok sa
  else .error .status

/-- What the `…_lower_flrs_to_sa` routines have in common.  Whether there is a floor behind the
first one is not looked at. -/
def lowerFlrsToSa (accepts : UInt8 → Bool) (second : UInt8) (nafId length off₁ : ℕ)
    (off₂ : Option ℕ) (octets : List UInt8) : M Sockaddr := do
  let floorCount := ofLE (← need (readAt octets 0 2))
  let (left, mem) ← skipFloors accepts floorCount (octets.drop 2)
  let mem := mem.drop 3
  let sa := toLE 2 nafId ++ List.replicate (length - 2) 0
  let addrSize := ofLE (← need (readAt mem 0 2))
  let sa ← copyAddress sa off₁ mem 2 addrSize
  if left = 0 then .error .wild else secondFlr second off₂ sa (mem.drop (2 + addrSize))

/-! ### The parsers -/

/-- `twr_fields_t`. -/
structure TwrFields where
  interface : IfId
  dataRep : SyntaxId
  rpcProtocol : ℕ
  rpcProtocolVersMajor : ℕ
  rpcProtocolVersMinor : BitVec 16
  protseq : ℕ

/-- `tower_to_fields`. -/
def towerToFields (octets : List UInt8) : M TwrFields := do
  let towerRef ← towerToTowerRef octets
  if towerRef.length < 4 then .error .status
  else
    let protseq ← towerRefInqProtseqId supported towerRef
    match towerRef with
    | floor₀ :: floor₁ :: floor₂ :: _ =>
      let interface ← towerFlrToIfId floor₀
      let dataRep ← towerFlrToDrep floor₁
      let (rpcProtocol, major, minor) ← towerFlrToRpcProtId supported floor₂
      .ok ⟨interface, dataRep, rpcProtocol, major, minor, protseq⟩
    | _ => .error .wild

/-- The socket address of a protocol sequence, by its address family. -/
def familyFlrsToSa (nafId : ℕ) (octets : List UInt8) : M Sockaddr :=
  if nafId = nafIdIp then
    lowerFlrsToSa (fun id => id = flrProtIdTcp || id = flrProtIdUdp) flrProtIdIp nafIdIp 16 2
      (some 4) octets
  else if nafId = nafIdUxd then
    lowerFlrsToSa (fun id => id = flrProtIdUxd) flrProtIdUxd nafIdUxd (2 + pathSize) 2 none octets
  else .error .status

/-- `rpc__naf_tower_flrs_to_addr`, which is all of the parsing in `tower_to_addr` and in
`rpc_tower_to_binding`. -/
def nafTowerFlrsToAddr (octets : List UInt8) : M Sockaddr := do
  let towerRef ← towerToTowerRef octets
  let protseq ← towerRefInqProtseqId supported towerRef
  if (protseqId supported protseq).supported then
    familyFlrsToSa (protseqId supported protseq).nafId octets
  else .error .status

/-! ### What lies within the octets -/

/-- The protocol identifier of one byte, or the prefix of a longer one. -/
def idByte (floor : Floor) : UInt8 := floor.octetString.getD protIdStart 0

/-- The byte is that of a supported RPC protocol. -/
def IsProtocol (b : UInt8) : Prop :=
  (protIdSearch supported b (List.range protseqIdMax)).isSome = true

def AddressWithin (floor : Floor) : Prop :=
  floor.addressStart + floor.addressCount ≤ floor.octetString.length

/-- The address information is a version. -/
def VersionWithin (floor : Floor) : Prop := AddressWithin floor ∧ floor.addressCount ≤ 2

/-- A prefix, a UUID and a version begin the floor, and its address information is a version. -/
def FloorWithin (floor : Floor) : Prop :=
  protIdStart + 19 ≤ floor.octetString.length ∧ VersionWithin floor

/-- A protocol identifier of more than one byte has a prefix and a UUID. -/
def UuidWithin (floor : Floor) : Prop :=
  1 < floor.protIdCount → protIdStart + 17 ≤ floor.octetString.length

instance (floor : Floor) : Decidable (UuidWithin floor) := inferInstanceAs (Decidable (_ → _))

/-- The floors that are searched for the protocol sequence. -/
def searchedFloors (fs : List Floor) : List Floor := if 5 ≤ fs.length then fs.drop 2 else fs

def flrId (floor : Floor) : FlrProtId where
  prefix₀ := idByte floor
  uuid := if 1 < floor.protIdCount then
      uuidOfBytes ((floor.octetString.drop (protIdStart + 1)).take 16) else nilUuid

/-- The protocol sequence of the tower. -/
def protseqOf (fs : List Floor) : Option ℕ :=
  protseqSearch ((searchedFloors fs).map flrId) towerProtIds

/-- A full tower, or one that begins with an RPC protocol. -/
def Searched (fs : List Floor) : Prop :=
  5 ≤ fs.length ∨ 3 ≤ fs.length ∧ ∃ f ∈ fs.head?, IsProtocol supported (idByte f)

/-- In a tower without upper floors the version of the RPC protocol is a version, and identifiers
with UUIDs have them. -/
def SearchWithin (fs : List Floor) : Prop :=
  (fs.length < 5 → ∀ f ∈ fs.head?, VersionWithin f) ∧ ∀ f ∈ searchedFloors fs, UuidWithin f

/-- What `tower_to_fields` needs. -/
def FieldsWithin (fs : List Floor) : Prop :=
  match fs with
  | f₀ :: f₁ :: f₂ :: _ :: _ =>
    Searched supported fs → SearchWithin fs ∧ ((protseqOf fs).isSome = true →
      FloorWithin f₀ ∧ FloorWithin f₁ ∧ (IsProtocol supported (idByte f₂) → VersionWithin f₂))
  | _ => True

/-- The towers that it accepts. -/
def FieldsAccepted (fs : List Floor) : Prop :=
  match fs with
  | _ :: _ :: f₂ :: _ :: _ =>
    Searched supported fs ∧ (protseqOf fs).isSome = true ∧ IsProtocol supported (idByte f₂)
  | _ => False

def accepted (accepts : UInt8 → Bool) (floor : Floor) : Bool :=
  floor.protIdCount = 1 && accepts (idByte floor)

/-- What the lower floors need: behind the first one that is accepted there is another, and the
address information of both fits into the structure. -/
def LowerWithin (accepts : UInt8 → Bool) (second : UInt8) (length off₁ : ℕ) (off₂ : Option ℕ)
    (fs : List Floor) : Prop :=
  match fs.dropWhile fun f => !accepted accepts f with
  | [] => True
  | [_] => False
  | f :: g :: _ => AddressWithin f ∧ off₁ + f.addressCount ≤ length ∧
      (g.protIdCount = 1 ∧ idByte g = second →
        ∀ off ∈ off₂, AddressWithin g ∧ off + g.addressCount ≤ length)

def LowerAccepted (accepts : UInt8 → Bool) (second : UInt8) (fs : List Floor) : Prop :=
  match fs.dropWhile fun f => !accepted accepts f with
  | _ :: g :: _ => g.protIdCount = 1 ∧ idByte g = second
  | _ => False

def FamilyWithin (nafId : ℕ) (fs : List Floor) : Prop :=
  if nafId = nafIdIp then
    LowerWithin (fun id => id = flrProtIdTcp || id = flrProtIdUdp) flrProtIdIp 16 2 (some 4) fs
  else if nafId = nafIdUxd then
    LowerWithin (fun id => id = flrProtIdUxd) flrProtIdUxd (2 + pathSize) 2 none fs
  else True

def FamilyAccepted (nafId : ℕ) (fs : List Floor) : Prop :=
  if nafId = nafIdIp then
    LowerAccepted (fun id => id = flrProtIdTcp || id = flrProtIdUdp) flrProtIdIp fs
  else if nafId = nafIdUxd then LowerAccepted (fun id => id = flrProtIdUxd) flrProtIdUxd fs
  else False

/-- What `rpc__naf_tower_flrs_to_addr` needs. -/
def AddrWithin (fs : List Floor) : Prop :=
  Searched supported fs → SearchWithin fs ∧ ∀ p ∈ protseqOf fs,
    (protseqId supported p).supported = true → FamilyWithin (protseqId supported p).nafId fs

/-- The towers that it accepts. -/
def AddrAccepted (fs : List Floor) : Prop :=
  Searched supported fs ∧ ∃ p ∈ protseqOf fs,
    (protseqId supported p).supported = true ∧ FamilyAccepted (protseqId supported p).nafId fs

/-! ### The outcome of a parser -/

section Outcome

variable {α β : Type}

/-- A parser ends without a wild access exactly under `within`, and then with a result exactly under
`accepts`. -/
structure Ends (x : M α) (within accepts : Prop) : Prop where
  wild : ¬ within → x = .error .wild
  status : within → ¬ accepts → x = .error .status
  ok : within → accepts → ∃ a, x = .ok a

theorem Ends.tame_iff {x : M α} {within accepts : Prop} (h : Ends x within accepts) :
    x ≠ .error .wild ↔ within := by
  constructor
  · intro hx
    by_contra hnot
    exact hx (h.wild hnot)
  · intro hwithin hx
    by_cases haccepts : accepts
    · obtain ⟨a, ha⟩ := h.ok hwithin haccepts
      rw [ha] at hx
      cases hx
    · rw [h.status hwithin haccepts] at hx
      cases hx

theorem Ends.ok_iff {x : M α} {within accepts : Prop} (h : Ends x within accepts) (hw : within) :
    (∃ a, x = .ok a) ↔ accepts := by
  constructor
  · rintro ⟨a, ha⟩
    by_contra hnot
    rw [h.status hw hnot] at ha
    cases ha
  · exact h.ok hw

theorem ends_ok (a : α) : Ends (.ok a : M α) True True :=
  ⟨fun h => absurd trivial h, fun _ h => absurd trivial h, fun _ _ => ⟨a, rfl⟩⟩

theorem ends_status : Ends (.error .status : M α) True False :=
  ⟨fun h => absurd trivial h, fun _ _ => rfl, fun _ h => h.elim⟩

theorem ends_wild : Ends (.error .wild : M α) False True :=
  ⟨fun _ => rfl, fun h => h.elim, fun h => h.elim⟩

/-- One parser after another. -/
theorem Ends.bind {x : M α} {f : α → M β} {w a w' a' : Prop} (hx : Ends x w a)
    (hf : ∀ r, x = .ok r → Ends (f r) w' a') : Ends (x >>= f) (w ∧ (a → w')) (a ∧ a') := by
  by_cases hw : w
  · by_cases ha : a
    · obtain ⟨r, hr⟩ := hx.ok hw ha
      have hfr := hf r hr
      rw [hr]
      exact ⟨fun h => hfr.wild fun hw' => h ⟨hw, fun _ => hw'⟩,
        fun h h' => hfr.status (h.2 ha) fun ha' => h' ⟨ha, ha'⟩,
        fun h h' => hfr.ok (h.2 ha) h'.2⟩
    · have hr := hx.status hw ha
      rw [hr]
      exact ⟨fun h => absurd ⟨hw, fun h' => absurd h' ha⟩ h, fun _ _ => rfl, fun _ h' => absurd h'.1 ha⟩
  · have hr := hx.wild hw
    rw [hr]
    exact ⟨fun _ => rfl, fun h => absurd h.1 hw, fun h => absurd h.1 hw⟩

theorem Ends.congr {x : M α} {w a w' a' : Prop} (h : Ends x w a) (hw : w ↔ w') (ha : w → (a ↔ a')) :
    Ends x w' a' :=
  ⟨fun h' => h.wild fun h'' => h' (hw.mp h''),
    fun h' h'' => h.status (hw.mpr h') fun h₃ => h'' ((ha (hw.mpr h')).mp h₃),
    fun h' h'' => h.ok (hw.mpr h') ((ha (hw.mpr h')).mpr h'')⟩

theorem ends_need_readAt (mem : List UInt8) (off n : ℕ) :
    Ends (need (readAt mem off n)) (off + n ≤ mem.length) True := by
  rw [readAt]
  split_ifs with h
  · exact (ends_ok _).congr ⟨fun _ => h, fun _ => trivial⟩ fun _ => Iff.rfl
  · exact ends_wild.congr ⟨fun h' => h'.elim, fun h' => absurd h' h⟩ fun _ => Iff.rfl

theorem ends_refuse (o : Option α) : Ends (refuse o) True (o.isSome = true) := by
  cases o with
  | none => exact ends_status.congr Iff.rfl fun _ => by simp
  | some a => exact (ends_ok a).congr Iff.rfl fun _ => by simp

end Outcome

/-! ### The floors of a tower -/

/-- The counts of a floor lie within the octets, and are those that stand there. -/
structure Counted (f : Floor) : Prop where
  lhs : ∃ b, readAt f.octetString 0 2 = some b ∧ ofLE b = f.protIdCount
  rhs : ∃ b, readAt f.octetString (2 + f.protIdCount) 2 = some b ∧ ofLE b = f.addressCount

/-- The floors stand one behind the other. -/
def Laid : List Floor → Prop
  | [] => True
  | f :: rest => Counted f ∧ (∀ g ∈ rest.head?, g.octetString = f.octetString.drop f.size) ∧ Laid rest

theorem length_of_readAt {mem b : List UInt8} {off n : ℕ} (h : readAt mem off n = some b) :
    off + n ≤ mem.length := by
  rw [readAt] at h
  split_ifs at h with hle
  exact hle

theorem floorsFrom_laid : ∀ {n : ℕ} {mem : List UInt8} {fs : List Floor},
    floorsFrom n mem = some fs →
    fs.length = n ∧ Laid fs ∧ ∀ f ∈ fs.head?, f.octetString = mem := by
  intro n
  induction n with
  | zero =>
    intro mem fs h
    rw [floorsFrom, Option.some_inj] at h
    rw [← h]
    exact ⟨rfl, trivial, fun f hf => by simp at hf⟩
  | succ n ih =>
    intro mem fs h
    simp only [floorsFrom, Option.bind_eq_bind, Option.bind_eq_some_iff] at h
    obtain ⟨lhs, hlhs, rhs, hrhs, rest, hrest, h⟩ := h
    rw [Option.some_inj] at h
    obtain ⟨hlength, hlaid, hhead⟩ := ih hrest
    rw [← h]
    refine ⟨by rw [List.length_cons, hlength], ⟨⟨⟨lhs, hlhs, rfl⟩, ⟨rhs, hrhs, rfl⟩⟩, hhead, hlaid⟩,
      fun f hf => ?_⟩
    rw [List.head?_cons, Option.mem_some_iff] at hf
    rw [← hf]

theorem Laid.counted : ∀ {fs : List Floor}, Laid fs → ∀ f ∈ fs, Counted f := by
  intro fs
  induction fs with
  | nil => exact fun _ f hf => absurd hf List.not_mem_nil
  | cons f' fs ih =>
    intro hlaid f hf
    rcases List.mem_cons.mp hf with rfl | hf
    · exact hlaid.1
    · exact ih hlaid.2.2 f hf

variable {f : Floor} {fs : List Floor}

theorem Counted.start_le (h : Counted f) : f.addressStart ≤ f.octetString.length := by
  obtain ⟨b, hb, -⟩ := h.rhs
  have hle := length_of_readAt hb
  rw [Floor.addressStart, protIdStart]
  omega

theorem Counted.four_le (h : Counted f) : 4 ≤ f.octetString.length := by
  have hle := h.start_le
  rw [Floor.addressStart, protIdStart] at hle
  omega

theorem head_of_readAt {mem : List UInt8} (h : protIdStart + 1 ≤ mem.length) :
    (readAt mem protIdStart 1).bind List.head? = some (mem.getD protIdStart 0) := by
  rw [readAt, if_pos h, Option.bind_some, List.head?_take, if_neg one_ne_zero, List.head?_drop,
    List.getD_eq_getElem?_getD]
  have hlt : protIdStart < mem.length := by omega
  rw [List.getElem?_eq_getElem hlt]
  rfl

theorem Counted.firstByte (h : Counted f) : firstByte f.octetString = .ok (idByte f) := by
  have hle := h.four_le
  rw [Net.firstByte, head_of_readAt (by rw [protIdStart]; omega)]
  rfl

theorem ends_addressInt16 (f : Floor) : Ends (addressInt16 f) (VersionWithin f) True := by
  rw [addressInt16]
  have hcopy : ∀ b : List UInt8, Ends (if f.addressCount ≤ 2 then .ok (BitVec.ofNat 16 (ofLE b))
      else .error .wild : M (BitVec 16)) (f.addressCount ≤ 2) True := by
    intro b
    split_ifs with h
    · exact (ends_ok _).congr ⟨fun _ => h, fun _ => trivial⟩ fun _ => Iff.rfl
    · exact ends_wild.congr ⟨fun h' => h'.elim, fun h' => absurd h' h⟩ fun _ => Iff.rfl
  refine ((ends_need_readAt _ _ _).bind fun b _ => hcopy b).congr ?_ fun _ => ?_
  · rw [VersionWithin, AddressWithin, true_imp_iff]
  · rw [and_self]

theorem ends_towerFlrIdToUuid (mem : List UInt8) (start : ℕ) :
    Ends (towerFlrIdToUuid mem start) (start + 19 ≤ mem.length) True := by
  rw [towerFlrIdToUuid, Tower.towerFlrIdToUuid]
  by_cases h : start + 19 ≤ mem.length
  · have h₁ : start + 1 ≤ mem.length := by omega
    have h₂ : start + 1 + 16 ≤ mem.length := by omega
    have h₃ : start + 17 + 2 ≤ mem.length := by omega
    simp only [readAt, if_pos h₁, if_pos h₂, if_pos h₃]
    exact (ends_ok _).congr ⟨fun _ => h, fun _ => trivial⟩ fun _ => Iff.rfl
  · have h₃ : ¬ start + 17 + 2 ≤ mem.length := by omega
    have hnone : readAt mem (start + 17) 2 = none := by rw [readAt, if_neg h₃]
    rw [hnone]
    have hwild : (do
        let _ ← readAt mem start 1
        let uuid ← readAt mem (start + 1) 16
        let major ← none
        some (uuidOfBytes uuid, BitVec.ofNat 16 (ofLE major)) : Option (UuidT × BitVec 16)) =
        none := by
      cases readAt mem start 1 with
      | none => rfl
      | some b =>
        cases readAt mem (start + 1) 16 <;> rfl
    rw [hwild]
    exact ends_wild.congr ⟨fun h' => h'.elim, fun h' => absurd h' h⟩ fun _ => Iff.rfl

theorem ends_towerFlrToUuid (f : Floor) : Ends (towerFlrToUuid f) (FloorWithin f) True := by
  rw [towerFlrToUuid]
  refine ((ends_towerFlrIdToUuid _ _).bind fun r _ =>
    (ends_addressInt16 f).bind fun v _ => ends_ok _).congr ?_ fun _ => ?_
  · simp only [FloorWithin, imp_true_iff, and_true, true_imp_iff]
  · simp only [and_self]

theorem ends_towerFlrToIfId (f : Floor) : Ends (towerFlrToIfId f) (FloorWithin f) True := by
  rw [towerFlrToIfId]
  refine ((ends_towerFlrToUuid f).bind fun r _ => ends_ok _).congr ?_ fun _ => ?_
  · simp only [imp_true_iff, and_true]
  · simp only [and_self]

theorem ends_towerFlrToDrep (f : Floor) : Ends (towerFlrToDrep f) (FloorWithin f) True := by
  rw [towerFlrToDrep]
  refine ((ends_towerFlrToUuid f).bind fun r _ => ends_ok _).congr ?_ fun _ => ?_
  · simp only [imp_true_iff, and_true]
  · simp only [and_self]

theorem ends_towerFlrToRpcProtId (h : Counted f) : Ends (towerFlrToRpcProtId supported f)
    (IsProtocol supported (idByte f) → VersionWithin f) (IsProtocol supported (idByte f)) := by
  rw [towerFlrToRpcProtId, h.firstByte]
  refine ((ends_refuse (protIdSearch supported (idByte f) (List.range protseqIdMax))).bind
    fun r _ => (ends_addressInt16 f).bind fun v _ => ends_ok _).congr ?_ fun _ => ?_
  · simp only [IsProtocol, imp_true_iff, and_true, true_and]
  · simp only [IsProtocol, and_true]

/-! ### The protocol sequence -/

theorem flrProtId_eq (h : Counted f) :
    need (flrProtId f) = if UuidWithin f then .ok (flrId f) else .error .wild := by
  have hle := h.four_le
  have hone : protIdStart + 1 ≤ f.octetString.length := by
    rw [protIdStart]
    omega
  have hhead := head_of_readAt hone
  rw [Option.bind_eq_some_iff] at hhead
  obtain ⟨b, hb, hbyte⟩ := hhead
  rw [flrProtId, hb]
  simp only [Option.bind_eq_bind, Option.bind_some, hbyte, UuidWithin, flrId]
  by_cases hlong : 1 < f.protIdCount
  · simp only [hlong, if_true, true_imp_iff, readAt]
    by_cases hwithin : protIdStart + 17 ≤ f.octetString.length
    · rw [if_pos (by omega), if_pos hwithin]
      rfl
    · rw [if_neg (by omega), if_neg hwithin]
      rfl
  · simp only [hlong, if_false, false_imp_iff, if_true]
    rfl

theorem mapM_flrProtId : ∀ {fs : List Floor}, (∀ f ∈ fs, Counted f) →
    (fs.mapM fun floor => need (flrProtId floor)) =
      if ∀ f ∈ fs, UuidWithin f then .ok (fs.map flrId) else .error .wild := by
  intro fs
  induction fs with
  | nil =>
    intro _
    rw [if_pos fun f hf => absurd hf List.not_mem_nil]
    rfl
  | cons f fs ih =>
    intro h
    have hhead := flrProtId_eq (h f List.mem_cons_self)
    have htail := ih fun f' hf' => h f' (List.mem_cons_of_mem _ hf')
    rw [List.mapM_cons, hhead]
    by_cases hf : UuidWithin f
    · rw [if_pos hf, htail]
      by_cases hfs : ∀ f' ∈ fs, UuidWithin f'
      · rw [if_pos hfs, if_pos (by simpa using ⟨hf, hfs⟩)]
        rfl
      · rw [if_neg hfs, if_neg fun hall => hfs fun f' hf' => hall f' (List.mem_cons_of_mem _ hf')]
        rfl
    · rw [if_neg hf, if_neg fun hall => hf (hall f List.mem_cons_self)]
      rfl

theorem ends_floorsToSearch (hcounted : ∀ f ∈ fs, Counted f) :
    Ends (floorsToSearch supported fs)
      (Searched supported fs → fs.length < 5 → ∀ f ∈ fs.head?, VersionWithin f)
      (Searched supported fs) ∧
    ∀ r, floorsToSearch supported fs = .ok r → r = searchedFloors fs := by
  rw [floorsToSearch, searchedFloors]
  by_cases hfull : 5 ≤ fs.length
  · -- the first two floors are dropped without a look at them
    rw [if_pos hfull, if_pos hfull]
    refine ⟨(ends_ok _).congr ?_ fun _ => ?_, fun r hr => by cases hr; rfl⟩
    · exact ⟨fun _ _ h => absurd h (by omega), fun _ => trivial⟩
    · exact ⟨fun _ => .inl hfull, fun _ => trivial⟩
  · rw [if_neg hfull, if_neg hfull]
    by_cases hmin : 3 ≤ fs.length
    · rw [if_pos hmin]
      cases fs with
      | nil => simp at hmin
      | cons f rest =>
        have hf := hcounted f List.mem_cons_self
        have hsearched : Searched supported (f :: rest) ↔ IsProtocol supported (idByte f) := by
          constructor
          · rintro (h | ⟨-, f', hf', h⟩)
            · exact absurd h hfull
            · rw [List.head?_cons, Option.mem_some_iff] at hf'
              rwa [hf']
          · exact fun h => .inr ⟨hmin, f, rfl, h⟩
        constructor
        · have hrun := (ends_towerFlrToRpcProtId supported hf).bind fun r _ =>
            ends_ok (f :: rest)
          refine Ends.congr hrun ?_ fun _ => ?_
          · rw [hsearched]
            simp only [imp_true_iff, and_true, List.head?_cons, Option.mem_some_iff, forall_eq']
            exact ⟨fun h h' _ => h h', fun h h' => h h' (by omega)⟩
          · rw [hsearched, and_true]
        · intro r hr
          change (towerFlrToRpcProtId supported f >>= fun _ => .ok (f :: rest)) = .ok r at hr
          cases hp : towerFlrToRpcProtId supported f with
          | error e =>
            rw [hp] at hr
            cases hr
          | ok p =>
            rw [hp] at hr
            cases hr
            rfl
    · rw [if_neg hmin]
      have hnot : ¬ Searched supported fs := by
        rintro (h | ⟨h, -⟩)
        · exact hfull h
        · exact hmin h
      refine ⟨ends_status.congr ?_ fun _ => ?_, fun r hr => by cases hr⟩
      · exact ⟨fun _ h => absurd h hnot, fun _ => trivial⟩
      · exact ⟨fun h => h.elim, fun h => hnot h⟩

/-- The search for the protocol sequence. -/
theorem ends_towerRefInqProtseqId (hcounted : ∀ f ∈ fs, Counted f) :
    Ends (towerRefInqProtseqId supported fs) (Searched supported fs → SearchWithin fs)
      (Searched supported fs ∧ (protseqOf fs).isSome = true) ∧
    ∀ p, towerRefInqProtseqId supported fs = .ok p → protseqOf fs = some p := by
  obtain ⟨hends, hvalue⟩ := ends_floorsToSearch supported hcounted
  have hsub : ∀ f ∈ searchedFloors fs, Counted f := by
    intro f hf
    rw [searchedFloors] at hf
    split_ifs at hf
    · exact hcounted f (List.mem_of_mem_drop hf)
    · exact hcounted f hf
  have hids : Ends ((searchedFloors fs).mapM fun floor => need (flrProtId floor))
      (∀ f ∈ searchedFloors fs, UuidWithin f) True := by
    rw [mapM_flrProtId hsub]
    split_ifs with h
    · exact (ends_ok _).congr ⟨fun _ => h, fun _ => trivial⟩ fun _ => Iff.rfl
    · exact ends_wild.congr ⟨fun h' => h'.elim, fun h' => absurd h' h⟩ fun _ => Iff.rfl
  have hidsValue : ∀ ids, ((searchedFloors fs).mapM fun floor => need (flrProtId floor)) = .ok ids →
      ids = (searchedFloors fs).map flrId := by
    intro ids h
    rw [mapM_flrProtId hsub] at h
    split_ifs at h
    cases h
    rfl
  constructor
  · have hrest : ∀ r, floorsToSearch supported fs = .ok r →
        Ends (do
          let ids ← r.mapM fun floor => need (flrProtId floor)
          refuse (protseqSearch ids towerProtIds))
          ((∀ f ∈ searchedFloors fs, UuidWithin f) ∧ (True → True))
          (True ∧ (protseqOf fs).isSome = true) := by
      intro r hr
      rw [hvalue r hr]
      refine hids.bind fun ids hids => ?_
      rw [hidsValue ids hids]
      exact ends_refuse _
    refine (hends.bind hrest).congr ?_ fun _ => ?_
    · rw [SearchWithin]
      tauto
    · tauto
  · intro p hp
    rw [towerRefInqProtseqId] at hp
    cases hr : floorsToSearch supported fs with
    | error e =>
      rw [hr] at hp
      cases hp
    | ok r =>
      rw [hr] at hp
      change ((r.mapM fun floor => need (flrProtId floor)) >>= fun ids =>
        refuse (protseqSearch ids towerProtIds)) = .ok p at hp
      rw [hvalue r hr] at hp
      cases hi : (searchedFloors fs).mapM fun floor => need (flrProtId floor) with
      | error e =>
        rw [hi] at hp
        cases hp
      | ok ids =>
        rw [hi, hidsValue ids hi] at hp
        change refuse (protseqOf fs) = .ok p at hp
        cases hq : protseqOf fs with
        | none =>
          rw [hq] at hp
          cases hp
        | some q =>
          rw [hq] at hp
          cases hp
          rfl

/-! ### The lower floors of a tower -/

theorem Laid.suffix : ∀ {fs fs' : List Floor}, fs' <:+ fs → Laid fs → Laid fs' := by
  intro fs
  induction fs with
  | nil =>
    intro fs' h hlaid
    rw [List.suffix_nil.mp h]
    exact hlaid
  | cons f fs ih =>
    intro fs' h hlaid
    rcases List.suffix_cons_iff.mp h with rfl | h
    · exact hlaid
    · exact ih h hlaid.2.2

theorem readAt_drop {mem : List UInt8} {k : ℕ} (hk : k ≤ mem.length) (off n : ℕ) :
    readAt (mem.drop k) off n = readAt mem (k + off) n := by
  rw [readAt, readAt, List.length_drop, List.drop_drop]
  by_cases h : k + off + n ≤ mem.length
  · rw [if_pos (by omega), if_pos h]
  · rw [if_neg (by omega), if_neg h]

/-- The loop finds the first floor that is accepted. -/
theorem skipFloors_eq (accepts : UInt8 → Bool) : ∀ {n : ℕ} {mem : List UInt8} {fs : List Floor},
    floorsFrom n mem = some fs → skipFloors accepts n mem =
      match fs.dropWhile fun f => !accepted accepts f with
      | [] => .error .status
      | f :: rest => .ok (rest.length, f.octetString) := by
  intro n
  induction n with
  | zero =>
    intro mem fs h
    rw [floorsFrom, Option.some_inj] at h
    rw [← h]
    rfl
  | succ n ih =>
    intro mem fs h
    obtain ⟨-, hlaid, -⟩ := floorsFrom_laid h
    simp only [floorsFrom, Option.bind_eq_bind, Option.bind_eq_some_iff] at h
    obtain ⟨lhs, hlhs, rhs, hrhs, rest, hrest, h⟩ := h
    rw [Option.some_inj] at h
    rw [← h] at hlaid ⊢
    have hbyte := hlaid.1.firstByte
    simp only at hbyte
    rw [skipFloors, hlhs, hbyte]
    simp only [need, bind, Except.bind, hrhs]
    obtain ⟨hlength, -, -⟩ := floorsFrom_laid hrest
    -- the loop stops at the first floor whose protocol is accepted
    by_cases haccepted : accepted accepts ⟨mem, ofLE lhs, ofLE rhs⟩ = true
    · rw [List.dropWhile_cons_of_neg (by simp [haccepted])]
      rw [accepted, Bool.and_eq_true, decide_eq_true_iff] at haccepted
      rw [if_pos haccepted, ← hlength]
    · rw [List.dropWhile_cons_of_pos (by simpa using haccepted)]
      rw [accepted, Bool.and_eq_true, decide_eq_true_iff] at haccepted
      rw [if_neg haccepted]
      exact ih hrest

theorem ends_poke (sa : Sockaddr) (off : ℕ) (data : List UInt8) :
    Ends (need (poke sa off data)) (off + data.length ≤ sa.length) True ∧
    ∀ sa', need (poke sa off data) = .ok sa' → sa'.length = sa.length := by
  rw [poke]
  split_ifs with h
  · refine ⟨(ends_ok _).congr ⟨fun _ => h, fun _ => trivial⟩ fun _ => Iff.rfl, fun sa' hsa => ?_⟩
    cases hsa
    rw [List.length_append, List.length_append, List.length_take, List.length_drop]
    omega
  · refine ⟨ends_wild.congr ⟨fun h' => h'.elim, fun h' => absurd h' h⟩ fun _ => Iff.rfl,
      fun sa' hsa => ?_⟩
    cases hsa

theorem length_of_need {mem b : List UInt8} {off n : ℕ} (h : need (readAt mem off n) = .ok b) :
    b.length = n := by
  cases hread : readAt mem off n with
  | none =>
    rw [hread] at h
    cases h
  | some b' =>
    have hle := length_of_readAt hread
    rw [hread] at h
    cases h
    rw [readAt, if_pos hle, Option.some_inj] at hread
    rw [← hread, List.length_take, List.length_drop]
    omega

theorem ends_copyAddress (sa : Sockaddr) (off : ℕ) (mem : List UInt8) (start n : ℕ) :
    Ends (copyAddress sa off mem start n) (start + n ≤ mem.length ∧ off + n ≤ sa.length) True ∧
    ∀ sa', copyAddress sa off mem start n = .ok sa' → sa'.length = sa.length := by
  rw [copyAddress]
  constructor
  · have hpoke : ∀ d, need (readAt mem start n) = .ok d →
        Ends (need (poke sa off d)) (off + n ≤ sa.length) True := by
      intro d hd
      rw [← length_of_need hd]
      exact (ends_poke sa off d).1
    refine ((ends_need_readAt mem start n).bind hpoke).congr ?_ fun _ => ?_
    · rw [true_imp_iff]
    · rw [and_self]
  · intro sa' h
    cases hread : need (readAt mem start n) with
    | error e =>
      rw [hread] at h
      cases h
    | ok d =>
      rw [hread] at h
      exact (ends_poke sa off d).2 sa' h

/-- The second of the lower floors. -/
theorem ends_secondFlr {g : Floor} (hg : Counted g) (second : UInt8) (off₂ : Option ℕ)
    (sa : Sockaddr) : Ends (secondFlr second off₂ sa g.octetString)
      (g.protIdCount = 1 ∧ idByte g = second →
        ∀ off ∈ off₂, AddressWithin g ∧ off + g.addressCount ≤ sa.length)
      (g.protIdCount = 1 ∧ idByte g = second) := by
  obtain ⟨lhs, hlhs, hcount⟩ := hg.lhs
  obtain ⟨rhs, hrhs, hsize⟩ := hg.rhs
  rw [secondFlr, hlhs, hg.firstByte]
  simp only [need, bind, Except.bind]
  rw [hcount]
  by_cases hsecond : g.protIdCount = 1 ∧ idByte g = second
  · rw [if_pos hsecond]
    rw [hsecond.1] at hrhs
    rw [hrhs]
    simp only
    rw [hsize]
    cases off₂ with
    | none =>
      refine (ends_ok _).congr ?_ fun _ => ?_
      · simp
      · exact ⟨fun _ => hsecond, fun _ => trivial⟩
    | some off =>
      refine (ends_copyAddress sa off g.octetString 5 g.addressCount).1.congr ?_ fun _ => ?_
      · have hstart : g.addressStart = 5 := by rw [Floor.addressStart, protIdStart, hsecond.1]
        simp only [hsecond, and_self, true_imp_iff, Option.mem_some_iff, forall_eq', AddressWithin,
          hstart]
      · exact ⟨fun _ => hsecond, fun _ => trivial⟩
  · rw [if_neg hsecond]
    refine ends_status.congr ?_ fun _ => ?_
    · simp only [hsecond, false_imp_iff]
    · simp only [hsecond]

/-- The walk through the lower floors. -/
theorem ends_lowerFlrsToSa (accepts : UInt8 → Bool) (second : UInt8) (nafId : ℕ) {length : ℕ}
    (off₁ : ℕ) (off₂ : Option ℕ) {octets : List UInt8} (hlength : 2 ≤ length)
    (h : Tower.towerToTowerRef ⟨octets.length, octets⟩ = some fs) :
    Ends (lowerFlrsToSa accepts second nafId length off₁ off₂ octets)
      (LowerWithin accepts second length off₁ off₂ fs) (LowerAccepted accepts second fs) := by
  simp only [Tower.towerToTowerRef, Option.bind_eq_bind, Option.bind_eq_some_iff] at h
  obtain ⟨count, hcount, hfloors⟩ := h
  obtain ⟨-, hlaid, -⟩ := floorsFrom_laid hfloors
  rw [lowerFlrsToSa, hcount]
  simp only [need]
  have hskip := skipFloors_eq accepts hfloors
  rw [LowerWithin, LowerAccepted]
  have hdropped := hlaid.suffix (List.dropWhile_suffix fun f => !accepted accepts f)
  have hhead : ∀ f ∈ (fs.dropWhile fun f => !accepted accepts f).head?,
      accepted accepts f = true := by
    intro f hf
    have hnot := List.head?_dropWhile_not (fun f => !accepted accepts f) fs
    rw [Option.mem_def.mp hf] at hnot
    simpa using hnot
  generalize fs.dropWhile (fun f => !accepted accepts f) = found at hskip hdropped hhead
  match found with
  | [] =>
    -- no floor is accepted
    change Ends (skipFloors accepts (ofLE count) (octets.drop 2) >>= _) _ _
    rw [hskip]
    exact ends_status
  | f :: rest =>
    have hf := hdropped.1
    have haccepted := hhead f rfl
    rw [accepted, Bool.and_eq_true, decide_eq_true_iff] at haccepted
    obtain ⟨rhs, hrhs, hsize⟩ := hf.rhs
    have hfour := hf.start_le
    rw [Floor.addressStart, protIdStart, haccepted.1] at hfour
    rw [haccepted.1] at hrhs
    -- the floor's identifier is one byte, so its address begins at 5
    have hread : readAt (f.octetString.drop 3) 0 2 = some rhs := by
      rw [readAt_drop (by omega)]
      exact hrhs
    have hstart : f.addressStart = 5 := by rw [Floor.addressStart, protIdStart, haccepted.1]
    change Ends (skipFloors accepts (ofLE count) (octets.drop 2) >>= _) _ _
    rw [hskip]
    change Ends (need (readAt (f.octetString.drop 3) 0 2) >>= _) _ _
    rw [hread]
    change Ends (copyAddress _ off₁ (f.octetString.drop 3) 2 (ofLE rhs) >>= _) _ _
    rw [hsize]
    have hsa : (toLE 2 nafId ++ List.replicate (length - 2) (0 : UInt8)).length = length := by
      rw [List.length_append, length_toLE, List.length_replicate]
      omega
    generalize toLE 2 nafId ++ List.replicate (length - 2) (0 : UInt8) = sa at hsa
    obtain ⟨hcopy, hcopied⟩ := ends_copyAddress sa off₁ (f.octetString.drop 3) 2 f.addressCount
    have hwithin : 2 + f.addressCount ≤ (f.octetString.drop 3).length ↔ AddressWithin f := by
      rw [List.length_drop, AddressWithin, hstart]
      omega
    rw [hwithin, hsa] at hcopy
    match rest with
    | [] =>
      -- there is no floor behind it
      refine (hcopy.bind fun sa' _ => ends_wild).congr ?_ fun h => ?_
      · simp
      · simp at h
    | g :: rest =>
      have hg := hdropped.2.2.1
      have hnext : (f.octetString.drop 3).drop (2 + f.addressCount) = g.octetString := by
        rw [hdropped.2.1 g rfl, List.drop_drop, Floor.size, haccepted.1]
        congr 1
        omega
      have hsecond : ∀ sa',
          copyAddress sa off₁ (f.octetString.drop 3) 2 f.addressCount = .ok sa' →
          Ends (secondFlr second off₂ sa' ((f.octetString.drop 3).drop (2 + f.addressCount)))
            (g.protIdCount = 1 ∧ idByte g = second →
              ∀ off ∈ off₂, AddressWithin g ∧ off + g.addressCount ≤ length)
            (g.protIdCount = 1 ∧ idByte g = second) := by
        intro sa' hsa'
        have hrun := ends_secondFlr hg second off₂ sa'
        rw [hcopied sa' hsa', hsa] at hrun
        rw [hnext]
        exact hrun
      have hne : ¬ (g :: rest).length = 0 := by simp
      simp only [hne, if_false]
      refine (hcopy.bind hsecond).congr ?_ fun _ => ?_
      · simp only [true_imp_iff, and_assoc]
      · simp only [true_and]

/-! ### The parsers, and what they are to do -/

/-- The floors of a tower. -/
def floorsOf (octets : List UInt8) : Option (List Floor) :=
  Tower.towerToTowerRef ⟨octets.length, octets⟩

theorem counted_floorsOf {octets : List UInt8} (h : floorsOf octets = some fs) :
    ∀ f ∈ fs, Counted f := by
  simp only [floorsOf, Tower.towerToTowerRef, Option.bind_eq_bind, Option.bind_eq_some_iff] at h
  obtain ⟨count, -, hfloors⟩ := h
  exact (floorsFrom_laid hfloors).2.1.counted

theorem ends_towerToFields {octets : List UInt8} (h : floorsOf octets = some fs) :
    Ends (towerToFields supported octets) (FieldsWithin supported fs)
      (FieldsAccepted supported fs) := by
  have hcounted := counted_floorsOf h
  rw [floorsOf] at h
  rw [towerToFields, towerToTowerRef, h]
  change Ends (if fs.length < 4 then _ else _) _ _
  match fs with
  | [] | [_] | [_, _] | [_, _, _] => exact ends_status
  | f₀ :: f₁ :: f₂ :: f₃ :: rest =>
    rw [if_neg (by simp)]
    have hf₂ : Counted f₂ := hcounted f₂ (by simp)
    obtain ⟨hsearch, -⟩ := ends_towerRefInqProtseqId supported hcounted
    have hfloors : ∀ p : ℕ, Ends (do
        let interface ← towerFlrToIfId f₀
        let dataRep ← towerFlrToDrep f₁
        let (rpcProtocol, major, minor) ← towerFlrToRpcProtId supported f₂
        .ok (⟨interface, dataRep, rpcProtocol, major, minor, p⟩ : TwrFields))
        (FloorWithin f₀ ∧ FloorWithin f₁ ∧ (IsProtocol supported (idByte f₂) → VersionWithin f₂))
        (IsProtocol supported (idByte f₂)) := by
      intro p
      refine ((ends_towerFlrToIfId f₀).bind fun _ _ => (ends_towerFlrToDrep f₁).bind fun _ _ =>
        (ends_towerFlrToRpcProtId supported hf₂).bind fun _ _ => ends_ok _).congr ?_ fun _ => ?_
      · simp only [true_imp_iff, imp_true_iff, and_true]
      · simp only [true_and, and_true]
    refine (hsearch.bind fun p _ => hfloors p).congr ?_ fun _ => ?_
    · simp only [FieldsWithin]
      tauto
    · simp only [FieldsAccepted, and_assoc]

theorem ends_familyFlrsToSa (nafId : ℕ) {octets : List UInt8} (h : floorsOf octets = some fs) :
    Ends (familyFlrsToSa nafId octets) (FamilyWithin nafId fs) (FamilyAccepted nafId fs) := by
  rw [familyFlrsToSa, FamilyWithin, FamilyAccepted]
  split_ifs
  · exact ends_lowerFlrsToSa _ _ _ _ _ (by decide) h
  · exact ends_lowerFlrsToSa _ _ _ _ _ (by decide) h
  · exact ends_status

theorem ends_nafTowerFlrsToAddr {octets : List UInt8} (h : floorsOf octets = some fs) :
    Ends (nafTowerFlrsToAddr supported octets) (AddrWithin supported fs)
      (AddrAccepted supported fs) := by
  obtain ⟨hsearch, hvalue⟩ :=
    ends_towerRefInqProtseqId supported (counted_floorsOf h)
  have hfloors : need (floorsOf octets) = (.ok fs : M (List Floor)) := by rw [h]; rfl
  rw [nafTowerFlrsToAddr, towerToTowerRef]
  change Ends (need (floorsOf octets) >>= _) _ _
  rw [hfloors]
  change Ends (towerRefInqProtseqId supported fs >>= _) _ _
  have hfamily : ∀ p, towerRefInqProtseqId supported fs = .ok p →
      Ends (if (protseqId supported p).supported then
          familyFlrsToSa (protseqId supported p).nafId octets else .error .status)
        (∀ p ∈ protseqOf fs, (protseqId supported p).supported = true →
          FamilyWithin (protseqId supported p).nafId fs)
        (∃ p ∈ protseqOf fs, (protseqId supported p).supported = true ∧
          FamilyAccepted (protseqId supported p).nafId fs) := by
    intro p hp
    rw [hvalue p hp]
    simp only [Option.mem_some_iff, forall_eq', exists_eq_left']
    split_ifs with hsupported
    · refine (ends_familyFlrsToSa _ h).congr ?_ fun _ => ?_
      · simp [hsupported]
      · simp [hsupported]
    · refine ends_status.congr ?_ fun _ => ?_
      · simp [hsupported]
      · simp [hsupported]
  refine (hsearch.bind hfamily).congr ?_ fun _ => ?_
  · rw [AddrWithin]
    constructor
    · rintro ⟨h₁, h₂⟩ hsearched
      refine ⟨h₁ hsearched, fun p hp => h₂ ⟨hsearched, ?_⟩ p hp⟩
      rw [Option.mem_def.mp hp]
      rfl
    · intro h'
      exact ⟨fun hsearched => (h' hsearched).1, fun hfound => (h' hfound.1).2⟩
  · rw [AddrAccepted]
    constructor
    · rintro ⟨⟨hsearched, -⟩, hex⟩
      exact ⟨hsearched, hex⟩
    · rintro ⟨hsearched, p, hp, hex⟩
      refine ⟨⟨hsearched, ?_⟩, p, hp, hex⟩
      rw [Option.mem_def.mp hp]
      rfl

/-- A tower whose counts go beyond its octets. -/
theorem wild_of_floorsOf {octets : List UInt8} (h : floorsOf octets = none) :
    towerToFields supported octets = .error .wild := by
  rw [floorsOf] at h
  rw [towerToFields, towerToTowerRef, h]
  rfl

/-- The floors lie within the octets. -/
def FitsLength (fs : List Floor) : Prop := ∀ f ∈ fs, f.size ≤ f.octetString.length

/-- The first two floors of a full tower are UUID floors. -/
def UuidFloors (fs : List Floor) : Prop := 5 ≤ fs.length → ∀ f ∈ fs.take 2, idByte f = protIdPrefix

/-- What parsing a tower is to do: no access is wild, and a tower whose floors do not fit, or whose
first two floors are no UUID floors, is refused. -/
def ParsedRight (octets : List UInt8) : Prop :=
  towerToFields supported octets ≠ .error .wild ∧ nafTowerFlrsToAddr supported octets ≠ .error .wild ∧
  ((∃ a, towerToFields supported octets = .ok a) ∨ (∃ a, nafTowerFlrsToAddr supported octets = .ok a) →
    ∃ fs, floorsOf octets = some fs ∧ FitsLength fs ∧ UuidFloors fs)

/-- **Towers from the network**: parsing does what it is to do exactly when the counts of all floors
lie within the octets, what each parser needs lies there too, and fits where it is copied to, and a
tower that has the floors the parsers look for fits and has UUID floors. -/
theorem parsed_in_bounds_iff (supported : ℕ → Bool) (octets : List UInt8) :
    ParsedRight supported octets ↔ ∃ fs, floorsOf octets = some fs ∧
      FieldsWithin supported fs ∧ AddrWithin supported fs ∧
      (FieldsAccepted supported fs ∨ AddrAccepted supported fs → FitsLength fs ∧ UuidFloors fs) := by
  cases hfs : floorsOf octets with
  | none =>
    refine iff_of_false (fun h => h.1 (wild_of_floorsOf supported hfs)) ?_
    rintro ⟨fs, hnone, -⟩
    exact Option.some_ne_none _ hnone.symm
  | some fs =>
    have hfields := ends_towerToFields supported hfs
    have haddr := ends_nafTowerFlrsToAddr supported hfs
    rw [ParsedRight, hfields.tame_iff, haddr.tame_iff]
    simp only [hfs, Option.some_inj, exists_eq_left']
    constructor
    · rintro ⟨hw₁, hw₂, h⟩
      rw [hfields.ok_iff hw₁, haddr.ok_iff hw₂] at h
      exact ⟨hw₁, hw₂, h⟩
    · rintro ⟨hw₁, hw₂, h⟩
      rw [hfields.ok_iff hw₁, haddr.ok_iff hw₂]
      exact ⟨hw₁, hw₂, h⟩

/-- A full tower over TCP whose interface floor begins with `b` and whose third floor has `version`
for its minor version. -/
def sampleTower (b : UInt8) (version : List UInt8) : List UInt8 :=
  [5, 0, 19, 0, b] ++ List.replicate 18 0 ++ [2, 0, 0, 0] ++
    [19, 0, 13] ++ List.replicate 18 0 ++ [2, 0, 0, 0] ++
    [1, 0, 11] ++ toLE 2 version.length ++ version ++
    [1, 0, 7, 2, 0, 0, 135] ++ [1, 0, 9, 4, 0, 127, 0, 0, 1]

/-- A count without floors is read beyond the octets, a minor version of three bytes is copied into
two, and a floor that is no UUID floor is taken for one. -/
theorem towers_out_of_bounds :
    towerToFields (fun _ => true) [5, 0] = .error .wild ∧
    towerToFields (fun _ => true) (sampleTower 13 [0, 0, 0]) = .error .wild ∧
    (∃ fields, towerToFields (fun _ => true) (sampleTower 99 [0, 0]) = .ok fields) ∧
    ¬ ParsedRight (fun _ => true) [5, 0] := by
  have hnone : floorsOf [5, 0] = none := by decide
  exact ⟨wild_of_floorsOf _ hnone, rfl, ⟨_, rfl⟩, fun h => h.1 (wild_of_floorsOf _ hnone)⟩

end Net
end Tower
