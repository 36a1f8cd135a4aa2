/-
Presentation negotiation (cnassoc.c, cnpkt.c, comif.c).

A bind or alter-context request carries a list of presentation context elements, each with a
list of transfer syntaxes, so that the elements have different sizes: `presContList` walks
them the way the packet is unpacked.  The negotiation takes them from an array.
-/
import FreeDce.Uuid.Octets

namespace Cn

open Bytes Uuid

/-! ### The interface registry -/

/-- `rpc_cn_pres_syntax_id_t`: the major version is the low half of the version. -/
structure PresSyntaxId where
  id : UuidT
  version : BitVec 32
deriving DecidableEq

/-- What the negotiation takes from `rpc_if_rep_t`. -/
structure IfRep where
  id : UuidT
  vers : BitVec 32
  syntaxVector : List PresSyntaxId
deriving DecidableEq

def ifRegistrySize : ℕ := 31

/-- The index of the hash table. -/
def ifIndex (uuid : UuidT) : Option ℕ := (uuidHash uuid).map (· % ifRegistrySize)

/-- `if_registry`: each interface is on the list of its hash value. -/
structure IfRegistry where
  chain : ℕ → List IfRep
  hashed : ∀ i, ∀ ifRep ∈ chain i, ifIndex ifRep.id = some i

/-- `RPC_IF_IS_COMPATIBLE`. -/
def ifIsCompatible (abstractSyntax : PresSyntaxId) (ifRep : IfRep) : Bool :=
  uuidEqual ifRep.id abstractSyntax.id = some true &&
    ifRep.vers &&& 0xffff = abstractSyntax.version &&& 0xffff &&
    abstractSyntax.version >>> 16 ≤ ifRep.vers >>> 16

/-- `rpc__server_register_if_int`. -/
def IfRegistry.registerIf (registry : IfRegistry) (ifRep : IfRep) : IfRegistry where
  chain i :=
    if ifIndex ifRep.id = some i ∧ ¬ (registry.chain i).any fun entry =>
        uuidEqual entry.id ifRep.id = some true && entry.vers = ifRep.vers then
      registry.chain i ++ [ifRep]
    else registry.chain i
  hashed i entry hentry := by
    split at hentry
    · rename_i hnew
      rcases List.mem_append.mp hentry with hentry | hentry
      · exact registry.hashed i entry hentry
      · rw [List.mem_singleton.mp hentry]
        exact hnew.1
    · exact registry.hashed i entry hentry

/-- The search of `rpc__if_lookup` through a list, which counts the entries. -/
def ifSearch (abstractSyntax : PresSyntaxId) : ℕ → List IfRep → Option (ℕ × IfRep)
  | _, [] => none
  | entryCount, ifRep :: entries =>
    if ifIsCompatible abstractSyntax ifRep then some (entryCount, ifRep)
    else ifSearch abstractSyntax (entryCount + 1) entries

/-- `rpc__if_lookup` without a hint and without a manager type: the hint and the interface;
`none` is `rpc_s_unknown_if`. -/
def ifLookup (registry : IfRegistry) (abstractSyntax : PresSyntaxId) : Option (ℕ × IfRep) := do
  let index ← ifIndex abstractSyntax.id
  let (entryCount, ifRep) ← ifSearch abstractSyntax 1 (registry.chain index)
  some (index ||| ((entryCount &&& 0x00FF) <<< 8), ifRep)

/-! ### The presentation context list -/

/-- `rpc_cn_pres_cont_elem_t`. -/
structure PresContElem where
  presContextId : BitVec 16
  abstractSyntax : PresSyntaxId
  transferSyntaxes : List PresSyntaxId

/-- Bytes of the memory in which the list lies. -/
def readMem (mem : ℕ → UInt8) (off n : ℕ) : List UInt8 := (List.range n).map fun i => mem (off + i)

def syntaxIdAt (mem : ℕ → UInt8) (off : ℕ) : PresSyntaxId where
  id := uuidOfBytes (readMem mem off 16)
  version := BitVec.ofNat 32 (ofLE (readMem mem (off + 16) 4))

/-- The element at an address. -/
def presContElemAt (mem : ℕ → UInt8) (off : ℕ) : PresContElem where
  presContextId := BitVec.ofNat 16 (ofLE (readMem mem off 2))
  abstractSyntax := syntaxIdAt mem (off + 4)
  transferSyntaxes := (List.range (mem (off + 2)).toNat).map fun j => syntaxIdAt mem (off + 24 + 20 * j)

/-- The address of the first element of a list. -/
def presContElemStart : ℕ := 4

/-- `sizeof (rpc_cn_pres_cont_elem_t)`, in which `transfer_syntaxes` has one element. -/
def sizeofPresContElem : ℕ := 44

/-- `n_context_elem`. -/
def nContextElem (mem : ℕ → UInt8) : ℕ := (mem 0).toNat

/-- The walk of `unpack_pres_context_list`: the next element is behind the transfer syntaxes. -/
def presContElems (mem : ℕ → UInt8) : ℕ → ℕ → List PresContElem
  | 0, _ => []
  | n + 1, off =>
    let elem := presContElemAt mem off
    elem :: presContElems mem n (off + 24 + 20 * elem.transferSyntaxes.length)

/-- The elements of the list. -/
def presContList (mem : ℕ → UInt8) : List PresContElem :=
  presContElems mem (nContextElem mem) presContElemStart

/-! ### Negotiation -/

/-- What the negotiation fills in of `rpc_cn_syntax_t`. -/
structure CnSyntax where
  syntaxIhint : ℕ
  syntaxPresId : BitVec 16
  syntaxVectorIndex : ℕ
  syntaxAbstractId : PresSyntaxId
  syntaxVector : List PresSyntaxId
deriving DecidableEq

def pcontAcceptance : ℕ := 0
def pcontProviderRejection : ℕ := 2

def pprovAbstractSyntaxNotSupported : ℕ := 1
def pprovProposedTransferSyntaxesNotSupported : ℕ := 2

/-- `rpc_cn_pres_result_t`; the reason is not filled in if the context is accepted. -/
structure PresResult where
  result : ℕ
  reason : Option ℕ
  transferSyntax : PresSyntaxId
deriving DecidableEq

def zeroSyntax : PresSyntaxId := ⟨nilUuid, 0⟩

/-- `RPC_CN_ASSOC_SYNTAX_EQUAL`. -/
def syntaxEqual (s1 s2 : PresSyntaxId) : Bool :=
  s1.id = s2.id && s1.version &&& 0xFFFF = s2.version &&& 0xFFFF &&
    s1.version >>> 16 = s2.version >>> 16

/-- The inner loop, from index `k` of the syntax vector. -/
def matchVector (transferSyntax : PresSyntaxId) : ℕ → List PresSyntaxId → Option ℕ
  | _, [] => none
  | k, syntaxId :: syntaxIds =>
    if syntaxEqual transferSyntax syntaxId then some k
    else matchVector transferSyntax (k + 1) syntaxIds

/-- The loop over the transfer syntaxes of an element. -/
def matchSyntaxes (syntaxVector : List PresSyntaxId) :
    List PresSyntaxId → Option (PresSyntaxId × ℕ)
  | [] => none
  | transferSyntax :: transferSyntaxes =>
    match matchVector transferSyntax 0 syntaxVector with
    | some k => some (transferSyntax, k)
    | none => matchSyntaxes syntaxVector transferSyntaxes

/-- The answer to one element, and the entry for the syntax list of the association. -/
def negotiateElem (registry : IfRegistry) (elem : PresContElem) : PresResult × Option CnSyntax :=
  match ifLookup registry elem.abstractSyntax with
  | none => (⟨pcontProviderRejection, some pprovAbstractSyntaxNotSupported, zeroSyntax⟩, none)
  | some (ihint, ifRep) =>
    match matchSyntaxes ifRep.syntaxVector elem.transferSyntaxes with
    | none =>
      (⟨pcontProviderRejection, some pprovProposedTransferSyntaxesNotSupported, zeroSyntax⟩, none)
    | some (transferSyntax, k) =>
      (⟨pcontAcceptance, none, transferSyntax⟩, some {
        syntaxIhint := ihint
        syntaxPresId := elem.presContextId
        syntaxVectorIndex := k % 2 ^ 16
        syntaxAbstractId := ⟨ifRep.id, ifRep.vers⟩
        syntaxVector := ifRep.syntaxVector })

/-- The result list, its size and the syntax list of the association. -/
structure Negotiation where
  size : ℕ
  nResults : ℕ
  presResults : List PresResult
  syntaxList : List CnSyntax

/-- The loop over the elements, from the `i`-th one on, with the lists so far. -/
def negotiateFrom (registry : IfRegistry) (mem : ℕ → UInt8) :
    ℕ → ℕ → List PresResult × List CnSyntax → List PresResult × List CnSyntax
  | 0, _, lists => lists
  | n + 1, i, (presResults, syntaxList) =>
    let (presResult, added) :=
      negotiateElem registry (presContElemAt mem (presContElemStart + sizeofPresContElem * i))
    negotiateFrom registry mem n (i + 1)
      (presResults ++ [presResult], syntaxList ++ added.toList)

/-- `rpc__cn_assoc_syntax_negotiate`; `none` is `RPC_S_HEADER_FULL`. -/
def syntaxNegotiate (registry : IfRegistry) (syntaxList : List CnSyntax) (mem : ℕ → UInt8)
    (size : ℕ) : Option Negotiation :=
  let needed := 4 + 24 * nContextElem mem
  if size < needed then none
  else
    let (presResults, syntaxList) :=
      negotiateFrom registry mem (nContextElem mem) 0 ([], syntaxList)
    some {
      size := needed
      nResults := nContextElem mem
      presResults := presResults
      syntaxList := syntaxList }

/-- `rpc__cn_assoc_syntax_lkup_by_id`. -/
def syntaxLkupById (contextId : BitVec 16) : List CnSyntax → Option CnSyntax
  | [] => none
  | presContext :: syntaxList =>
    if presContext.syntaxPresId = contextId then some presContext
    else syntaxLkupById contextId syntaxList

end Cn
