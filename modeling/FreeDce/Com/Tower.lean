/-
Protocol towers (comtwr.c, comtwrref.c, comtwrflr.c, twr_ip.c, twr_uxd.c, twr_np.c).

A tower is an octet string of floors, each with a protocol identifier and address
information, both with their counts.  The upper floors are the interface, the transfer
syntax and the RPC protocol, the lower floors come from a socket address.

A floor of a tower reference is a pointer into memory: `octetString` is the memory from
there on.  `none` is an error status, or a read past the end of the memory.
-/
import FreeDce.Uuid.Octets

namespace Tower

open Bytes Uuid

/-! ### Floors -/

structure Floor where
  octetString : List UInt8
  protIdCount : ℕ
  addressCount : ℕ

/-- A floor of its own. -/
def Floor.ofParts (protId address : List UInt8) : Floor where
  octetString := toLE 2 protId.length ++ protId ++ toLE 2 address.length ++ address
  protIdCount := protId.length
  addressCount := address.length

/-- `RPC_PROT_ID_START`, as an offset. -/
def protIdStart : ℕ := 2

/-- `RPC_ADDRESS_START`, as an offset. -/
def Floor.addressStart (floor : Floor) : ℕ := protIdStart + floor.protIdCount + 2

/-- `prot_id_count + address_count`, with the counts themselves. -/
def Floor.size (floor : Floor) : ℕ := 2 + floor.protIdCount + 2 + floor.addressCount

/-! ### Tables -/

def protseqIdNcacnIpTcp : ℕ := 0
def protseqIdNcadgIpUdp : ℕ := 3
def protseqIdNcalrpc : ℕ := 5
def protseqIdMax : ℕ := 16

def protocolIdNcacn : ℕ := 0
def protocolIdNcadg : ℕ := 1

def nafIdUxd : ℕ := 1
def nafIdIp : ℕ := 2
def nafIdMsname : ℕ := 8
def nafIdNp : ℕ := 9

def networkProtocolIdUxd : ℕ := 0
def networkProtocolIdTcp : ℕ := 6
def networkProtocolIdUdp : ℕ := 17

/-- `rpc_protseq_id_elt_t`. -/
structure ProtseqIdElt where
  supported : Bool := false
  rpcProtseqId : ℕ := 0
  rpcProtocolId : ℕ := 0
  nafId : ℕ := 0
  networkProtocolId : ℕ := 0

/-- `rpc_g_protseq_id`, with the modules of the IP and the UXD family loaded.  Which
protocol sequences are supported is found out when the runtime starts. -/
def protseqId (supported : ℕ → Bool) (i : ℕ) : ProtseqIdElt :=
  if i = protseqIdNcacnIpTcp then
    ⟨supported i, i, protocolIdNcacn, nafIdIp, networkProtocolIdTcp⟩
  else if i = protseqIdNcadgIpUdp then
    ⟨supported i, i, protocolIdNcadg, nafIdIp, networkProtocolIdUdp⟩
  else if i = protseqIdNcalrpc then
    ⟨supported i, i, protocolIdNcacn, nafIdUxd, networkProtocolIdUxd⟩
  else {}

/-- `rpc_flr_prot_id_t`. -/
structure FlrProtId where
  prefix₀ : UInt8
  uuid : UuidT
deriving DecidableEq

/-- `rpc_tower_prot_ids_t`, with its significant floors. -/
structure TowerProtIds where
  rpcProtseqId : ℕ
  floorProtIds : List FlrProtId

/-- `rpc_g_tower_prot_ids`, with the same modules loaded. -/
def towerProtIds : List TowerProtIds :=
  [⟨protseqIdNcadgIpUdp, [⟨0x0A, nilUuid⟩, ⟨0x08, nilUuid⟩, ⟨0x09, nilUuid⟩]⟩,
    ⟨protseqIdNcacnIpTcp, [⟨0x0B, nilUuid⟩, ⟨0x07, nilUuid⟩, ⟨0x09, nilUuid⟩]⟩,
    ⟨protseqIdNcalrpc, [⟨0x0B, nilUuid⟩, ⟨0x01, nilUuid⟩, ⟨0x01, nilUuid⟩]⟩]

/-- `network_inq_prot_vers` of the two protocols: the identifier, the major and the minor
version. -/
def networkInqProtVers (rpcProtocolId : ℕ) : UInt8 × ℕ × ℕ :=
  if rpcProtocolId = protocolIdNcadg then (0x0A, 4, 0) else (0x0B, 5, 1)

variable (supported : ℕ → Bool)

/-- `rpc__network_inq_prot_version`; `none` is `rpc_s_protseq_not_supported`. -/
def networkInqProtVersion (rpcProtseqId : ℕ) : Option (UInt8 × ℕ × ℕ) :=
  if (protseqId supported rpcProtseqId).supported then
    some (networkInqProtVers (protseqId supported rpcProtseqId).rpcProtocolId)
  else none

/-! ### The upper floors -/

structure IfId where
  uuid : UuidT
  versMajor : BitVec 16
  versMinor : BitVec 16
deriving DecidableEq

/-- `rpc_syntax_id_t`: the major version is the low half of the version. -/
structure SyntaxId where
  id : UuidT
  version : BitVec 32
deriving DecidableEq

/-- `RPC_C_PROT_ID_PREFIX`. -/
def protIdPrefix : UInt8 := 0x0D

/-- `rpc__tower_flr_id_from_uuid`. -/
def towerFlrIdFromUuid (uuid : UuidT) (versionMajor : ℕ) : List UInt8 :=
  protIdPrefix :: (uuidBytes uuid ++ toLE 2 versionMajor)

/-- `rpc__tower_flr_from_uuid`. -/
def towerFlrFromUuid (uuid : UuidT) (versionMajor versionMinor : ℕ) : Floor :=
  Floor.ofParts (towerFlrIdFromUuid uuid versionMajor) (toLE 2 versionMinor)

/-- `rpc__tower_flr_from_if_id`. -/
def towerFlrFromIfId (ifId : IfId) : Floor :=
  towerFlrFromUuid ifId.uuid ifId.versMajor.toNat ifId.versMinor.toNat

/-- `rpc__tower_flr_from_drep`. -/
def towerFlrFromDrep (transferSyntax : SyntaxId) : Floor :=
  towerFlrFromUuid transferSyntax.id (transferSyntax.version &&& 0x0000FFFF).toNat
    (transferSyntax.version >>> 16).toNat

/-- `rpc__tower_flr_from_rpc_prot_id`. -/
def towerFlrFromRpcProtId (rpcProtseqId : ℕ) (minorVersion : Option ℕ) : Option Floor := do
  let (towerProtocolId, _, versionMinor) ← networkInqProtVersion supported rpcProtseqId
  some (Floor.ofParts [towerProtocolId] (toLE 2 (minorVersion.getD versionMinor)))

/-- A copy of the address information into a 16-bit variable, as far as it fits. -/
def addressInt16 (floor : Floor) : Option (BitVec 16) := do
  let bytes ← readAt floor.octetString floor.addressStart floor.addressCount
  if floor.addressCount ≤ 2 then some (BitVec.ofNat 16 (ofLE bytes)) else none

/-- `rpc__tower_flr_id_to_uuid`.  The status for a wrong prefix is overwritten. -/
def towerFlrIdToUuid (mem : List UInt8) (start : ℕ) : Option (UuidT × BitVec 16) := do
  let _ ← readAt mem start 1
  let uuid ← readAt mem (start + 1) 16
  let major ← readAt mem (start + 17) 2
  some (uuidOfBytes uuid, BitVec.ofNat 16 (ofLE major))

/-- `rpc__tower_flr_to_uuid`. -/
def towerFlrToUuid (floor : Floor) : Option (UuidT × BitVec 16 × BitVec 16) := do
  let (uuid, versionMajor) ← towerFlrIdToUuid floor.octetString protIdStart
  let versionMinor ← addressInt16 floor
  some (uuid, versionMajor, versionMinor)

/-- `rpc__tower_flr_to_if_id`. -/
def towerFlrToIfId (floor : Floor) : Option IfId := do
  let (uuid, versionMajor, versionMinor) ← towerFlrToUuid floor
  some ⟨uuid, versionMajor, versionMinor⟩

/-- `rpc__tower_flr_to_drep`. -/
def towerFlrToDrep (floor : Floor) : Option SyntaxId := do
  let (uuid, versionMajor, versionMinor) ← towerFlrToUuid floor
  some ⟨uuid, versionMinor.setWidth 32 <<< 16 ||| versionMajor.setWidth 32⟩

/-- The loop of `rpc__tower_flr_to_rpc_prot_id`: the first supported protocol sequence whose
protocol has the identifier of the floor. -/
def protIdSearch (protocolId : UInt8) : List ℕ → Option (ℕ × ℕ)
  | [] => none
  | i :: is =>
    match networkInqProtVersion supported (protseqId supported i).rpcProtseqId with
    | none => protIdSearch protocolId is
    | some (networkProtId, versionMajor, _) =>
      if protocolId = networkProtId then some ((protseqId supported i).rpcProtocolId, versionMajor)
      else protIdSearch protocolId is

/-- `rpc__tower_flr_to_rpc_prot_id`: the protocol, the major and the minor version. -/
def towerFlrToRpcProtId (floor : Floor) : Option (ℕ × ℕ × BitVec 16) := do
  let protocolId ← (← readAt floor.octetString protIdStart 1).head?
  let (rpcProtocolId, versionMajor) ← protIdSearch supported protocolId (List.range protseqIdMax)
  let versionMinor ← addressInt16 floor
  some (rpcProtocolId, versionMajor, versionMinor)

/-! ### Tower references -/

/-- `twr_t`. -/
structure Twr where
  towerLength : ℕ
  towerOctetString : List UInt8

/-- The loop of `rpc__tower_ref_alloc`. -/
def floorsFrom : ℕ → List UInt8 → Option (List Floor)
  | 0, _ => some []
  | n + 1, mem => do
    let protIdCount := ofLE (← readAt mem 0 2)
    let addressCount := ofLE (← readAt mem (2 + protIdCount) 2)
    let floors ← floorsFrom n (mem.drop (2 + protIdCount + 2 + addressCount))
    some (⟨mem, protIdCount, addressCount⟩ :: floors)

/-- `rpc__tower_to_tower_ref`. -/
def towerToTowerRef (tower : Twr) : Option (List Floor) := do
  let floorCount := ofLE (← readAt tower.towerOctetString 0 2)
  floorsFrom floorCount (tower.towerOctetString.drop 2)

/-- `rpc__tower_from_tower_ref`. -/
def towerFromTowerRef (towerRef : List Floor) : Option Twr := do
  let floors ← towerRef.mapM fun floor => readAt floor.octetString 0 floor.size
  some {
    towerLength := (towerRef.map Floor.size).sum + 2
    towerOctetString := toLE 2 towerRef.length ++ floors.flatten }

/-- A floor's protocol identifier: its first byte, and the UUID if it is longer. -/
def flrProtId (floor : Floor) : Option FlrProtId := do
  let prefix₀ ← (← readAt floor.octetString protIdStart 1).head?
  if 1 < floor.protIdCount then
    let uuid ← readAt floor.octetString (protIdStart + 1) 16
    some ⟨prefix₀, uuidOfBytes uuid⟩
  else some ⟨prefix₀, nilUuid⟩

/-- Whether the protocol identifier is found among those of the tower.  `none` is an error
of `uuid_equal`. -/
def protIdFound (master : FlrProtId) : List FlrProtId → Option Bool
  | [] => some false
  | id :: ids =>
    if master.prefix₀ = id.prefix₀ then
      match uuidEqual master.uuid id.uuid with
      | none => none
      | some true => some true
      | some false => protIdFound master ids
    else protIdFound master ids

/-- Whether a protocol sequence matches: each of its identifiers is found. -/
def protseqMatch (ids : List FlrProtId) : List FlrProtId → Option Bool
  | [] => some true
  | master :: masters => do
    let found ← protIdFound master ids
    let rest ← protseqMatch ids masters
    some (found && rest)

/-- The search of `rpc__tower_ref_inq_protseq_id` through the table. -/
def protseqSearch (ids : List FlrProtId) : List TowerProtIds → Option ℕ
  | [] => none
  | entry :: entries =>
    if ids.length ≠ entry.floorProtIds.length then protseqSearch ids entries
    else
      match protseqMatch ids entry.floorProtIds with
      | none => none
      | some true => some entry.rpcProtseqId
      | some false => protseqSearch ids entries

/-- The floors that are searched: without the first two in a full tower, all in a tower
that begins with the RPC protocol. -/
def floorsToSearch (towerRef : List Floor) : Option (List Floor) :=
  if 5 ≤ towerRef.length then some (towerRef.drop 2)
  else if 3 ≤ towerRef.length then do
    let _ ← towerFlrToRpcProtId supported (← towerRef.head?)
    some towerRef
  else none

/-- The protocol identifiers that are searched. -/
def searchIds (towerRef : List Floor) : Option (List FlrProtId) := do
  (← floorsToSearch supported towerRef).mapM flrProtId

/-- `rpc__tower_ref_inq_protseq_id`. -/
def towerRefInqProtseqId (towerRef : List Floor) : Option ℕ := do
  protseqSearch (← searchIds supported towerRef) towerProtIds

/-! ### The lower floors -/

/-- A socket address as it lies in memory; the family comes first. -/
abbrev Sockaddr := List UInt8

def family (sa : Sockaddr) : ℕ := ofLE (sa.take 2)

/-- Floors with identifiers of one byte, as the routines below write them. -/
def lowerFlrs (floors : List (UInt8 × List UInt8)) : Twr :=
  let octets := toLE 2 floors.length ++
    floors.flatMap fun floor => toLE 2 1 ++ [floor.1] ++ toLE 2 floor.2.length ++ floor.2
  { towerLength := octets.length, towerOctetString := octets }

def flrProtIdUxd : UInt8 := 0x01
def flrProtIdTcp : UInt8 := 0x07
def flrProtIdUdp : UInt8 := 0x08
def flrProtIdIp : UInt8 := 0x09
def flrProtIdMsname : UInt8 := 0x0a
def flrProtIdNp : UInt8 := 0x0b

/-- The size of `sun_path`. -/
def pathSize : ℕ := 108
def servnameSize : ℕ := 64
def pipenameSize : ℕ := 32

/-- `twr_ip_lower_flrs_from_sa`. -/
def twrIpLowerFlrsFromSa (transProt : ℕ) (sa : Sockaddr) : Option Twr := do
  if family sa = nafIdIp then
    let protocolId ←
      if transProt = networkProtocolIdTcp then some flrProtIdTcp
      else if transProt = networkProtocolIdUdp then some flrProtIdUdp
      else none
    let port ← readAt sa 2 2
    let addr ← readAt sa 4 4
    some (lowerFlrs [(protocolId, port), (flrProtIdIp, addr)])
  else none

/-- `twr_uxd_lower_flrs_from_sa`.  The path ends with its first zero byte. -/
def twrUxdLowerFlrsFromSa (sa : Sockaddr) : Option Twr := do
  if family sa = nafIdUxd then
    let path := (sa.drop 2).takeWhile (· ≠ 0)
    let path ← readAt sa 2 (path.length + 1)
    some (lowerFlrs [(flrProtIdUxd, path), (flrProtIdUxd, [0x2e, 0])])
  else none

/-- `twr_np_lower_flrs_from_sa`. -/
def twrNpLowerFlrsFromSa (sa : Sockaddr) : Option Twr := do
  if family sa = nafIdMsname then
    let servName ← readAt sa 2 servnameSize
    let pipeName ← readAt sa (2 + servnameSize) pipenameSize
    some (lowerFlrs [(flrProtIdMsname, servName), (flrProtIdNp, pipeName)])
  else none

/-- The loop that skips floors up to the first one with an identifier of one byte that is
accepted. -/
def skipFloors (accepts : UInt8 → Bool) : ℕ → List UInt8 → Option (List UInt8)
  | 0, _ => none
  | n + 1, mem => do
    let idSize := ofLE (← readAt mem 0 2)
    let id ← (← readAt mem 2 1).head?
    if idSize = 1 ∧ accepts id then some mem
    else
      let addrSize := ofLE (← readAt mem (2 + idSize) 2)
      skipFloors accepts n (mem.drop (2 + idSize + 2 + addrSize))

/-- A copy into a structure; `none` if it does not fit. -/
def poke (sa : Sockaddr) (off : ℕ) (data : List UInt8) : Option Sockaddr :=
  if off + data.length ≤ sa.length then
    some (sa.take off ++ data ++ sa.drop (off + data.length))
  else none

/-- What the `…_lower_flrs_to_sa` routines have in common: the address of the first floor goes
to `off₁` of the structure, that of the second, which must have the identifier `second`, to
`off₂`, if it is kept. -/
def lowerFlrsToSa (accepts : UInt8 → Bool) (second : UInt8) (nafId length off₁ : ℕ)
    (off₂ : Option ℕ) (octets : List UInt8) : Option Sockaddr := do
  let floorCount := ofLE (← readAt octets 0 2)
  let mem ← skipFloors accepts floorCount (octets.drop 2)
  let mem := mem.drop 3
  let sa := toLE 2 nafId ++ List.replicate (length - 2) 0
  let addrSize := ofLE (← readAt mem 0 2)
  let sa ← poke sa off₁ (← readAt mem 2 addrSize)
  let mem := mem.drop (2 + addrSize)
  let idSize := ofLE (← readAt mem 0 2)
  let id ← (← readAt mem 2 1).head?
  if idSize = 1 ∧ id = second then
    let addrSize := ofLE (← readAt mem 3 2)
    match off₂ with
    | some off => poke sa off (← readAt mem 5 addrSize)
    | none => some sa
  else none

/-- `twr_ip_lower_flrs_to_sa`. -/
def twrIpLowerFlrsToSa : List UInt8 → Option Sockaddr :=
  lowerFlrsToSa (fun id => id = flrProtIdTcp || id = flrProtIdUdp) flrProtIdIp nafIdIp 16 2 (some 4)

/-- `twr_uxd_lower_flrs_to_sa`. -/
def twrUxdLowerFlrsToSa : List UInt8 → Option Sockaddr :=
  lowerFlrsToSa (fun id => id = flrProtIdUxd) flrProtIdUxd nafIdUxd (2 + pathSize) 2 none

/-- `twr_np_lower_flrs_to_sa`. -/
def twrNpLowerFlrsToSa : List UInt8 → Option Sockaddr :=
  lowerFlrsToSa (fun id => id = flrProtIdMsname) flrProtIdNp nafIdNp
    (2 + servnameSize + pipenameSize) 2 (some (2 + servnameSize))

/-- `rpc__naf_tower_flrs_to_addr`: the routine of the address family. -/
def nafTowerFlrsToAddr (nafId : ℕ) (octets : List UInt8) : Option Sockaddr :=
  if nafId = nafIdIp then twrIpLowerFlrsToSa octets
  else if nafId = nafIdUxd then twrUxdLowerFlrsToSa octets
  else none

/-! ### Bindings -/

/-- What a tower takes from an interface specification: its transfer syntaxes are `syntaxId`
and `syntaxIds`. -/
structure IfSpec where
  ifId : IfId
  syntaxId : SyntaxId
  syntaxIds : List SyntaxId

/-- What it takes from a binding handle. -/
structure Binding where
  rpcProtseqId : ℕ
  minorVersion : Option ℕ
  sa : Sockaddr

/-- `rpc__naf_tower_flrs_from_addr`: the routine of the address family. -/
def nafTowerFlrsFromAddr (binding : Binding) : Option Twr :=
  if family binding.sa = nafIdIp then
    twrIpLowerFlrsFromSa (protseqId supported binding.rpcProtseqId).networkProtocolId binding.sa
  else if family binding.sa = nafIdUxd then twrUxdLowerFlrsFromSa binding.sa
  else none

/-- `rpc__tower_ref_vec_from_binding`. -/
def towerRefVecFromBinding (ifSpec : IfSpec) (binding : Binding) : Option (List (List Floor)) := do
  let lowerFloors ← nafTowerFlrsFromAddr supported binding
  let lowerFlrCount := ofLE (← readAt lowerFloors.towerOctetString 0 2)
  let lower ← floorsFrom lowerFlrCount (lowerFloors.towerOctetString.drop 2)
  let floor3 ← towerFlrFromRpcProtId supported binding.rpcProtseqId binding.minorVersion
  some ((ifSpec.syntaxId :: ifSpec.syntaxIds).map fun syntaxId =>
    towerFlrFromIfId ifSpec.ifId :: towerFlrFromDrep syntaxId :: floor3 :: lower)

/-- `rpc_tower_vector_from_binding`. -/
def towerVectorFromBinding (ifSpec : IfSpec) (binding : Binding) : Option (List Twr) := do
  (← towerRefVecFromBinding supported ifSpec binding).mapM towerFromTowerRef

end Tower
