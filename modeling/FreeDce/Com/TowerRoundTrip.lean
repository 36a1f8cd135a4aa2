/-
Protocol towers round trip (comtwr.c, comtwrref.c, comtwrflr.c, twr_ip.c, twr_uxd.c, twr_np.c).

`Floor.Is` says what a floor of a tower reference points at; every decoder is a function
of that.

* `towerToTowerRef_octets`, `towerFromTowerRef_eq` — towers and tower references;
* `convertsBack_of_served` — the towers of a binding of the IP or the UXD family convert
  back;
* `protseqSearch_eq_some` — which protocol identifiers a protocol sequence is reported for;
* `roundTrips_iff` — a binding converts back, a named pipe address never does, and the
  protocol sequence of a tower is right unless the tower has a third identifier beside
  those of the local protocol sequence.
-/
import FreeDce.Com.Tower

namespace Tower

open Bytes Uuid

variable {supported : ℕ → Bool} {floor : Floor} {protId address : List UInt8}

/-! ### Floors in memory -/

/-- The octets of a floor. -/
def floorOctets (part : List UInt8 × List UInt8) : List UInt8 :=
  toLE 2 part.1.length ++ part.1 ++ toLE 2 part.2.length ++ part.2

/-- The counts of a floor fit their fields. -/
def Fits (part : List UInt8 × List UInt8) : Prop :=
  part.1.length < 2 ^ 16 ∧ part.2.length < 2 ^ 16

/-- The floor has this protocol identifier and this address information. -/
def Floor.Is (floor : Floor) (part : List UInt8 × List UInt8) : Prop :=
  floor.protIdCount = part.1.length ∧ floor.addressCount = part.2.length ∧
    ∃ rest, floor.octetString = floorOctets part ++ rest

theorem Floor.ofParts_is (protId address : List UInt8) :
    (Floor.ofParts protId address).Is (protId, address) :=
  ⟨rfl, rfl, [], (List.append_nil _).symm⟩

theorem length_floorOctets (part : List UInt8 × List UInt8) :
    (floorOctets part).length = 2 + part.1.length + 2 + part.2.length := by
  simp [floorOctets]
  omega

/-- A part of the protocol identifier. -/
theorem Floor.Is.readProtId (hf : floor.Is (protId, address)) (before bytes after : List UInt8)
    (hsplit : protId = before ++ (bytes ++ after)) {off n : ℕ}
    (hoff : off = protIdStart + before.length) (hn : n = bytes.length) :
    readAt floor.octetString off n = some bytes := by
  obtain ⟨-, -, rest, hoctets⟩ := hf
  have hmem : floor.octetString = (toLE 2 protId.length ++ before) ++
      (bytes ++ (after ++ toLE 2 address.length ++ address ++ rest)) := by
    rw [hoctets, floorOctets, hsplit]
    simp only [List.append_assoc]
  rw [hmem]
  refine readAt_append _ bytes _ ?_ hn
  rw [List.length_append, length_toLE, hoff, protIdStart]

theorem Floor.Is.readAddress (hf : floor.Is (protId, address)) :
    readAt floor.octetString floor.addressStart floor.addressCount = some address := by
  obtain ⟨hcount, haddr, rest, hoctets⟩ := hf
  have hmem : floor.octetString = (toLE 2 protId.length ++ protId ++ toLE 2 address.length) ++
      (address ++ rest) := by
    rw [hoctets, floorOctets]
    simp only [List.append_assoc]
  rw [hmem]
  refine readAt_append _ address _ ?_ haddr
  rw [Floor.addressStart, protIdStart, hcount, List.length_append, List.length_append, length_toLE,
    length_toLE]

theorem Floor.Is.readFloor {part : List UInt8 × List UInt8} (hf : floor.Is part) :
    readAt floor.octetString 0 floor.size = some (floorOctets part) := by
  obtain ⟨hcount, haddr, rest, hoctets⟩ := hf
  rw [hoctets]
  refine readAt_zero _ _ ?_
  rw [Floor.size, hcount, haddr, length_floorOctets]

/-! ### The upper floors -/

theorem addressInt16_eq {v : ℕ} (hf : floor.Is (protId, toLE 2 v)) :
    addressInt16 floor = some (BitVec.ofNat 16 v) := by
  have hcount : floor.addressCount = 2 := by rw [hf.2.1, length_toLE]
  have hval : BitVec.ofNat 16 (ofLE (toLE 2 v)) = BitVec.ofNat 16 v := by
    rw [ofLE_toLE_mod]
    exact BitVec.eq_of_toNat_eq (by simp)
  rw [addressInt16, hf.readAddress]
  simp [hcount, hval]

theorem towerFlrToUuid_eq {uuid : UuidT} {major minor : ℕ}
    (hf : floor.Is (towerFlrIdFromUuid uuid major, toLE 2 minor)) :
    towerFlrToUuid floor = some (uuid, BitVec.ofNat 16 major, BitVec.ofNat 16 minor) := by
  have hfront := hf.readProtId [] [protIdPrefix] (uuidBytes uuid ++ toLE 2 major) rfl rfl rfl
  have huuid := hf.readProtId [protIdPrefix] (uuidBytes uuid) (toLE 2 major) rfl rfl
    (length_uuidBytes uuid).symm
  have hmajor := hf.readProtId (protIdPrefix :: uuidBytes uuid) (toLE 2 major) []
    (by rw [List.append_nil]; rfl) rfl (length_toLE 2 major).symm
  have hval : BitVec.ofNat 16 (ofLE (toLE 2 major)) = BitVec.ofNat 16 major := by
    rw [ofLE_toLE_mod]
    exact BitVec.eq_of_toNat_eq (by simp)
  rw [towerFlrToUuid, towerFlrIdToUuid, addressInt16_eq hf]
  rw [List.length_cons, length_uuidBytes] at hmajor
  simp only [List.length_nil, List.length_singleton, Nat.add_zero] at hfront huuid
  rw [hfront, huuid, hmajor]
  simp [uuidOfBytes_uuidBytes, hval]

theorem towerFlrToIfId_eq {ifId : IfId} (hf : floor.Is
    (towerFlrIdFromUuid ifId.uuid ifId.versMajor.toNat, toLE 2 ifId.versMinor.toNat)) :
    towerFlrToIfId floor = some ifId := by
  rw [towerFlrToIfId, towerFlrToUuid_eq hf]
  simp

theorem getLsbD_low (i : ℕ) (hi : i < 32) :
    (0x0000FFFF : BitVec 32).getLsbD i = decide (i < 16) := by
  have hall : ∀ j : Fin 32, (0x0000FFFF : BitVec 32).getLsbD j = decide ((j : ℕ) < 16) := by decide
  exact hall ⟨i, hi⟩

/-- The two halves of a version make it up. -/
theorem version_eq (v : BitVec 32) : (BitVec.ofNat 16 (v >>> 16).toNat).setWidth 32 <<< 16 |||
    (BitVec.ofNat 16 (v &&& 0x0000FFFF).toNat).setWidth 32 = v := by
  rw [BitVec.ofNat_toNat, BitVec.ofNat_toNat]
  apply BitVec.eq_of_getLsbD_eq
  intro i hi
  rw [BitVec.getLsbD_or, BitVec.getLsbD_shiftLeft, BitVec.getLsbD_setWidth, BitVec.getLsbD_setWidth,
    BitVec.getLsbD_setWidth, BitVec.getLsbD_setWidth, BitVec.getLsbD_ushiftRight, BitVec.getLsbD_and,
    getLsbD_low i hi]
  by_cases hlow : i < 16
  · simp [hlow, hi]
  · have hsub : i - 16 < 16 := by omega
    have hsum : 16 + (i - 16) = i := by omega
    have hsub' : i - 16 < 32 := by omega
    simp [hlow, hi, hsub, hsub', hsum]

theorem towerFlrToDrep_eq {s : SyntaxId} (hf : floor.Is
    (towerFlrIdFromUuid s.id (s.version &&& 0x0000FFFF).toNat, toLE 2 (s.version >>> 16).toNat)) :
    towerFlrToDrep floor = some s := by
  rw [towerFlrToDrep, towerFlrToUuid_eq hf]
  dsimp only [Option.bind_eq_bind, Option.bind_some]
  rw [version_eq]

/-! ### Towers -/

/-- The floors of a tower, as `floorsFrom` finds them. -/
theorem floorsFrom_octets {parts : List (List UInt8 × List UInt8)} (hfits : ∀ p ∈ parts, Fits p)
    (rest : List UInt8) : ∃ floors,
      floorsFrom parts.length (parts.flatMap floorOctets ++ rest) = some floors ∧
      List.Forall₂ Floor.Is floors parts := by
  induction parts with
  | nil => exact ⟨[], rfl, List.Forall₂.nil⟩
  | cons part parts ih =>
    obtain ⟨floors, hfloors, hall⟩ := ih fun p hp => hfits p (List.mem_cons_of_mem _ hp)
    obtain ⟨hid, haddr⟩ := hfits part List.mem_cons_self
    set mem := (part :: parts).flatMap floorOctets ++ rest with hmem
    have hsplit : mem = floorOctets part ++ (parts.flatMap floorOctets ++ rest) := by
      rw [hmem, List.flatMap_cons, List.append_assoc]
    have hfloor : (⟨mem, part.1.length, part.2.length⟩ : Floor).Is part :=
      ⟨rfl, rfl, _, hsplit⟩
    have hread₁ : readAt mem 0 2 = some (toLE 2 part.1.length) := by
      rw [hsplit, floorOctets, List.append_assoc, List.append_assoc, List.append_assoc]
      exact readAt_zero _ _ (length_toLE _ _).symm
    have hread₂ : readAt mem (2 + part.1.length) 2 = some (toLE 2 part.2.length) := by
      have hsplit₂ : mem = (toLE 2 part.1.length ++ part.1) ++ (toLE 2 part.2.length ++
          (part.2 ++ (parts.flatMap floorOctets ++ rest))) := by
        rw [hsplit, floorOctets]
        simp only [List.append_assoc]
      rw [hsplit₂]
      exact readAt_append _ _ _ (by rw [List.length_append, length_toLE]) (length_toLE _ _).symm
    have hdrop : mem.drop (2 + part.1.length + 2 + part.2.length)
        = parts.flatMap floorOctets ++ rest := by
      rw [hsplit, ← length_floorOctets, List.drop_left]
    refine ⟨⟨mem, part.1.length, part.2.length⟩ :: floors, ?_, List.Forall₂.cons hfloor hall⟩
    rw [List.length_cons, floorsFrom, hread₁]
    dsimp only [Option.bind_eq_bind, Option.bind_some]
    rw [ofLE_toLE hid, hread₂]
    dsimp only [Option.bind_eq_bind, Option.bind_some]
    rw [ofLE_toLE haddr, hdrop, hfloors]
    rfl

/-- The octets of a tower. -/
def towerOctets (parts : List (List UInt8 × List UInt8)) : List UInt8 :=
  toLE 2 parts.length ++ parts.flatMap floorOctets

theorem readAt_towerOctets (parts : List (List UInt8 × List UInt8)) :
    readAt (towerOctets parts) 0 2 = some (toLE 2 parts.length) :=
  readAt_zero _ _ (length_toLE _ _).symm

theorem drop_towerOctets (parts : List (List UInt8 × List UInt8)) :
    (towerOctets parts).drop 2 = parts.flatMap floorOctets :=
  List.drop_left' (length_toLE _ _)

theorem towerToTowerRef_octets {parts : List (List UInt8 × List UInt8)}
    (hfits : ∀ p ∈ parts, Fits p) (hlen : parts.length < 2 ^ 16) (n : ℕ) : ∃ floors,
      towerToTowerRef ⟨n, towerOctets parts⟩ = some floors ∧ List.Forall₂ Floor.Is floors parts := by
  obtain ⟨floors, hfloors, hall⟩ := floorsFrom_octets hfits []
  refine ⟨floors, ?_, hall⟩
  rw [towerToTowerRef, readAt_towerOctets]
  dsimp only [Option.bind_eq_bind, Option.bind_some]
  rw [ofLE_toLE hlen, drop_towerOctets, ← List.append_nil (parts.flatMap floorOctets), hfloors]

theorem towerFromTowerRef_eq {floors : List Floor} {parts : List (List UInt8 × List UInt8)}
    (hall : List.Forall₂ Floor.Is floors parts) :
    towerFromTowerRef floors
      = some { towerLength := (towerOctets parts).length, towerOctetString := towerOctets parts } := by
  have hread : floors.mapM (fun floor => readAt floor.octetString 0 floor.size)
      = some (parts.map floorOctets) := by
    induction hall with
    | nil => rfl
    | cons hf _ ih => rw [List.mapM_cons, hf.readFloor, ih]; rfl
  have hsize : (floors.map Floor.size).sum = (parts.flatMap floorOctets).length := by
    clear hread
    induction hall with
    | nil => rfl
    | cons hf _ ih =>
      rw [List.map_cons, List.sum_cons, ih, List.flatMap_cons, List.length_append,
        length_floorOctets, Floor.size, hf.1, hf.2.1]
  rw [towerFromTowerRef, hread, hsize, hall.length_eq]
  dsimp only [Option.bind_eq_bind, Option.bind_some]
  rw [towerOctets, List.length_append, length_toLE, ← List.flatMap_def, Nat.add_comm]

/-! ### The RPC protocol -/

theorem supported_protseqId {i : ℕ} (hi : i ∈ towerProtIds.map TowerProtIds.rpcProtseqId) :
    (protseqId supported i).supported = supported i := by
  rw [towerProtIds, List.map_cons, List.map_cons, List.map_cons, List.map_nil, List.mem_cons,
    List.mem_cons, List.mem_singleton] at hi
  rcases hi with rfl | rfl | rfl <;> rfl

/-- The protocol of a supported protocol sequence is found by its identifier. -/
theorem protIdSearch_eq {i : ℕ} (hi : i ∈ towerProtIds.map TowerProtIds.rpcProtseqId)
    (hsupported : supported i = true) :
    protIdSearch supported (networkInqProtVers (protseqId supported i).rpcProtocolId).1
        (List.range protseqIdMax)
      = some ((protseqId supported i).rpcProtocolId,
          (networkInqProtVers (protseqId supported i).rpcProtocolId).2.1) := by
  have hrange : List.range protseqIdMax = [0, 1, 2, 3, 4, 5, 6, 7, 8, 9, 10, 11, 12, 13, 14, 15] := rfl
  rw [hrange]
  simp only [towerProtIds, List.map_cons, List.map_nil, List.mem_cons, List.not_mem_nil, or_false] at hi
  -- an entry that is not registered names the first protocol sequence
  rcases hi with rfl | rfl | rfl <;> cases h0 : supported 0 <;> cases h3 : supported 3 <;>
    cases h5 : supported 5 <;>
    simp_all [protIdSearch, networkInqProtVersion, protseqId, networkInqProtVers,
      protseqIdNcacnIpTcp, protseqIdNcadgIpUdp, protseqIdNcalrpc, protocolIdNcacn, protocolIdNcadg]

theorem towerFlrToRpcProtId_eq {b : UInt8} {v : ℕ} (hf : floor.Is ([b], toLE 2 v)) {r : ℕ × ℕ}
    (hsearch : protIdSearch supported b (List.range protseqIdMax) = some r) :
    towerFlrToRpcProtId supported floor = some (r.1, r.2, BitVec.ofNat 16 v) := by
  have hread := hf.readProtId [] [b] [] rfl rfl rfl
  rw [List.length_nil, Nat.add_zero, List.length_singleton] at hread
  rw [towerFlrToRpcProtId, hread]
  dsimp only [Option.bind_eq_bind, Option.bind_some, List.head?_cons]
  rw [hsearch, addressInt16_eq hf]
  rfl

theorem flrProtId_eq {b : UInt8} (hf : floor.Is ([b], address)) :
    flrProtId floor = some ⟨b, nilUuid⟩ := by
  have hread := hf.readProtId [] [b] [] rfl rfl rfl
  rw [List.length_nil, Nat.add_zero, List.length_singleton] at hread
  have hcount : ¬ 1 < floor.protIdCount := by
    rw [hf.1, List.length_singleton]
    exact lt_irrefl 1
  rw [flrProtId, hread]
  dsimp only [Option.bind_eq_bind, Option.bind_some, List.head?_cons]
  rw [if_neg hcount]

/-! ### The lower floors -/

/-- A floor that is not looked for is skipped. -/
theorem skipFloors_skip {accepts : UInt8 → Bool} {n : ℕ} {b : UInt8} {id : List UInt8}
    (hfits : Fits (b :: id, address)) (hskip : id = [] → accepts b = false) (rest : List UInt8) :
    skipFloors accepts (n + 1) (floorOctets (b :: id, address) ++ rest)
      = skipFloors accepts n rest := by
  obtain ⟨hid, haddr⟩ := hfits
  have hread₁ : readAt (floorOctets (b :: id, address) ++ rest) 0 2
      = some (toLE 2 (b :: id).length) := by
    rw [floorOctets, List.append_assoc, List.append_assoc, List.append_assoc]
    exact readAt_zero _ _ (length_toLE _ _).symm
  have hread₂ : readAt (floorOctets (b :: id, address) ++ rest) 2 1 = some [b] := by
    have hsplit : floorOctets (b :: id, address) ++ rest = toLE 2 (b :: id).length ++
        ([b] ++ (id ++ toLE 2 address.length ++ address ++ rest)) := by
      rw [floorOctets]
      simp only [List.append_assoc, List.cons_append, List.nil_append]
    rw [hsplit]
    exact readAt_append _ _ _ (length_toLE _ _).symm rfl
  have hread₃ : readAt (floorOctets (b :: id, address) ++ rest) (2 + (b :: id).length) 2
      = some (toLE 2 address.length) := by
    have hsplit : floorOctets (b :: id, address) ++ rest = (toLE 2 (b :: id).length ++ (b :: id)) ++
        (toLE 2 address.length ++ (address ++ rest)) := by
      rw [floorOctets]
      simp only [List.append_assoc]
    rw [hsplit]
    exact readAt_append _ _ _ (by rw [List.length_append, length_toLE]) (length_toLE _ _).symm
  have hdrop : (floorOctets (b :: id, address) ++ rest).drop
      (2 + (b :: id).length + 2 + address.length) = rest :=
    List.drop_left' (length_floorOctets _)
  have hno : ¬ ((b :: id).length = 1 ∧ accepts b = true) := by
    rintro ⟨hone, haccepts⟩
    have hnil : id = [] := List.length_eq_zero_iff.mp (Nat.succ.inj hone)
    rw [hskip hnil] at haccepts
    cases haccepts
  rw [skipFloors, hread₁]
  dsimp only [Option.bind_eq_bind, Option.bind_some]
  rw [hread₂]
  dsimp only [Option.bind_eq_bind, Option.bind_some, List.head?_cons]
  rw [ofLE_toLE hid, if_neg hno, hread₃]
  dsimp only [Option.bind_eq_bind, Option.bind_some]
  rw [ofLE_toLE haddr, hdrop]

/-- The first floor that is looked for is found. -/
theorem skipFloors_found {accepts : UInt8 → Bool} {n : ℕ} {b : UInt8} (haccepts : accepts b = true)
    (rest : List UInt8) : skipFloors accepts (n + 1) (floorOctets ([b], address) ++ rest)
      = some (floorOctets ([b], address) ++ rest) := by
  have hread₁ : readAt (floorOctets ([b], address) ++ rest) 0 2 = some (toLE 2 1) := by
    rw [floorOctets, List.append_assoc, List.append_assoc, List.append_assoc]
    exact readAt_zero _ _ (length_toLE _ _).symm
  have hread₂ : readAt (floorOctets ([b], address) ++ rest) 2 1 = some [b] := by
    rw [floorOctets, List.append_assoc, List.append_assoc, List.append_assoc]
    exact readAt_append _ _ _ (length_toLE _ _).symm rfl
  rw [skipFloors, hread₁]
  dsimp only [Option.bind_eq_bind, Option.bind_some]
  rw [hread₂]
  dsimp only [Option.bind_eq_bind, Option.bind_some, List.head?_cons]
  rw [ofLE_toLE (by decide), if_pos ⟨rfl, haccepts⟩]

/-- The floors of an address family behind other floors, and what the routine that reads them
does with their addresses. -/
theorem lowerFlrsToSa_eq {accepts : UInt8 → Bool} {second b : UInt8} {nafId length off₁ : ℕ}
    {off₂ : Option ℕ} {upper : List (List UInt8 × List UInt8)} {a₁ a₂ : List UInt8}
    (hskip : ∀ n rest, skipFloors accepts (upper.length + n) (upper.flatMap floorOctets ++ rest)
      = skipFloors accepts n rest)
    (hlen : upper.length + 2 < 2 ^ 16) (haccepts : accepts b = true)
    (hfits₁ : a₁.length < 2 ^ 16) (hfits₂ : a₂.length < 2 ^ 16) :
    lowerFlrsToSa accepts second nafId length off₁ off₂
        (towerOctets (upper ++ [([b], a₁), ([second], a₂)]))
      = (poke (toLE 2 nafId ++ List.replicate (length - 2) 0) off₁ a₁).bind fun sa =>
          off₂.elim (some sa) fun off => poke sa off a₂ := by
  have hcount : ofLE (toLE 2 (upper ++ [([b], a₁), ([second], a₂)]).length) = upper.length + 2 := by
    have hlength : (upper ++ [([b], a₁), ([second], a₂)]).length = upper.length + 2 :=
      List.length_append
    rw [hlength]
    exact ofLE_toLE (show upper.length + 2 < 256 ^ 2 by omega)
  have hfound : skipFloors accepts (upper.length + 2)
      ((towerOctets (upper ++ [([b], a₁), ([second], a₂)])).drop 2)
      = some (floorOctets ([b], a₁) ++ floorOctets ([second], a₂)) := by
    rw [drop_towerOctets, List.flatMap_append, hskip]
    simp only [List.flatMap_cons, List.flatMap_nil, List.append_nil]
    exact skipFloors_found haccepts _
  have hdrop₁ : (floorOctets ([b], a₁) ++ floorOctets ([second], a₂)).drop 3
      = toLE 2 a₁.length ++ (a₁ ++ floorOctets ([second], a₂)) := by
    rw [floorOctets, List.append_assoc, List.append_assoc, List.append_assoc, ← List.append_assoc]
    exact List.drop_left' (by rw [List.length_append, length_toLE]; rfl)
  have hread₁ : readAt (toLE 2 a₁.length ++ (a₁ ++ floorOctets ([second], a₂))) 2 a₁.length
      = some a₁ := readAt_append _ _ _ (length_toLE _ _).symm rfl
  have hdrop₂ : (toLE 2 a₁.length ++ (a₁ ++ floorOctets ([second], a₂))).drop (2 + a₁.length)
      = floorOctets ([second], a₂) := by
    rw [← List.append_assoc]
    exact List.drop_left' (by rw [List.length_append, length_toLE])
  have hsecond : floorOctets ([second], a₂) = toLE 2 1 ++ ([second] ++ (toLE 2 a₂.length ++ a₂)) := by
    rw [floorOctets, List.append_assoc, List.append_assoc]
    rfl
  have hread₂ : readAt (floorOctets ([second], a₂)) 2 1 = some [second] := by
    rw [hsecond]
    exact readAt_append _ _ _ (length_toLE _ _).symm rfl
  have hread₃ : readAt (floorOctets ([second], a₂)) 3 2 = some (toLE 2 a₂.length) := by
    rw [hsecond, ← List.append_assoc]
    exact readAt_append _ _ _ (by rw [List.length_append, length_toLE]; rfl) (length_toLE _ _).symm
  have hread₄ : readAt (floorOctets ([second], a₂)) 5 a₂.length = some a₂ := by
    have hall : floorOctets ([second], a₂) = (toLE 2 1 ++ [second] ++ toLE 2 a₂.length) ++ (a₂ ++ []) := by
      rw [hsecond, List.append_nil]
      simp only [List.append_assoc]
    rw [hall]
    exact readAt_append _ _ _ (by simp) rfl
  have hread₀ : readAt (floorOctets ([second], a₂)) 0 2 = some (toLE 2 1) := by
    rw [hsecond]
    exact readAt_zero _ _ (length_toLE _ _).symm
  rw [lowerFlrsToSa, readAt_towerOctets]
  dsimp only [Option.bind_eq_bind, Option.bind_some]
  rw [hcount, hfound]
  dsimp only [Option.bind_eq_bind, Option.bind_some]
  rw [hdrop₁, readAt_zero _ _ (length_toLE _ _).symm]
  dsimp only [Option.bind_eq_bind, Option.bind_some]
  rw [ofLE_toLE hfits₁, hread₁]
  dsimp only [Option.bind_eq_bind, Option.bind_some]
  rw [hdrop₂]
  congr 1
  funext sa
  rw [hread₀]
  dsimp only [Option.bind_eq_bind, Option.bind_some]
  rw [hread₂]
  dsimp only [Option.bind_eq_bind, Option.bind_some, List.head?_cons]
  rw [ofLE_toLE (by decide), if_pos ⟨rfl, rfl⟩, hread₃]
  dsimp only [Option.bind_eq_bind, Option.bind_some]
  rw [ofLE_toLE hfits₂, hread₄]
  cases off₂ <;> rfl

/-! ### Socket addresses -/

/-- An IP address, with `sin_zero`. -/
def inetSa (port addr : List UInt8) : Sockaddr :=
  toLE 2 nafIdIp ++ port ++ addr ++ List.replicate 8 0

def unixSa (path : List UInt8) : Sockaddr :=
  toLE 2 nafIdUxd ++ path ++ List.replicate (pathSize - path.length) 0

def npSa (servName : Vector UInt8 servnameSize) (pipeName : Vector UInt8 pipenameSize) : Sockaddr :=
  toLE 2 nafIdNp ++ servName.toList ++ pipeName.toList

/-- The socket addresses of an address family. -/
inductive SaOf : ℕ → Sockaddr → Prop
  | inet (port addr : List UInt8) (hport : port.length = 2) (haddr : addr.length = 4) :
    SaOf nafIdIp (inetSa port addr)
  | unix (path : List UInt8) (hnul : 0 ∉ path) (hlen : path.length < pathSize) :
    SaOf nafIdUxd (unixSa path)

theorem family_inetSa (port addr : List UInt8) : family (inetSa port addr) = nafIdIp := rfl

theorem family_unixSa (path : List UInt8) : family (unixSa path) = nafIdUxd := rfl

theorem twrIpLowerFlrsFromSa_eq {port addr : List UInt8} (hport : port.length = 2)
    (haddr : addr.length = 4) (transProt : ℕ) :
    twrIpLowerFlrsFromSa transProt (inetSa port addr)
      = (if transProt = networkProtocolIdTcp then some flrProtIdTcp
        else if transProt = networkProtocolIdUdp then some flrProtIdUdp else none).map
          fun id => lowerFlrs [(id, port), (flrProtIdIp, addr)] := by
  have hread₁ : readAt (inetSa port addr) 2 2 = some port := by
    rw [inetSa, List.append_assoc, List.append_assoc]
    exact readAt_append _ _ _ (length_toLE _ _).symm hport.symm
  have hread₂ : readAt (inetSa port addr) 4 4 = some addr := by
    rw [inetSa, List.append_assoc]
    exact readAt_append _ _ _ (by rw [List.length_append, length_toLE, hport]) haddr.symm
  rw [twrIpLowerFlrsFromSa, family_inetSa, if_pos rfl, hread₁, hread₂]
  split_ifs <;> rfl

theorem twrUxdLowerFlrsFromSa_eq {path : List UInt8} (hnul : 0 ∉ path)
    (hlen : path.length < pathSize) : twrUxdLowerFlrsFromSa (unixSa path)
      = some (lowerFlrs [(flrProtIdUxd, path ++ [0]), (flrProtIdUxd, [0x2e, 0])]) := by
  have hzeros : List.replicate (pathSize - path.length) (0 : UInt8)
      = 0 :: List.replicate (pathSize - path.length - 1) 0 := by
    rw [← List.replicate_succ]
    congr 1
    omega
  have hpath : ((unixSa path).drop 2).takeWhile (· ≠ 0) = path := by
    have hdrop : (unixSa path).drop 2 = path ++ List.replicate (pathSize - path.length) 0 := by
      rw [unixSa, List.append_assoc]
      exact List.drop_left' (length_toLE _ _)
    rw [hdrop, hzeros, List.takeWhile_append_of_pos, List.takeWhile_cons_of_neg, List.append_nil]
    · simp
    · intro b hb
      simpa using fun hzero : b = 0 => hnul (hzero ▸ hb)
  have hread : readAt (unixSa path) 2 (path.length + 1) = some (path ++ [0]) := by
    have hmem : unixSa path = toLE 2 nafIdUxd ++ ((path ++ [0]) ++
        List.replicate (pathSize - path.length - 1) 0) := by
      rw [unixSa, hzeros]
      simp only [List.append_assoc, List.cons_append, List.nil_append]
    rw [hmem]
    exact readAt_append _ _ _ (length_toLE _ _).symm (by rw [List.length_append]; rfl)
  rw [twrUxdLowerFlrsFromSa, family_unixSa, if_pos rfl]
  dsimp only
  rw [hpath, hread]
  rfl

theorem lowerFlrs_octets (floors : List (UInt8 × List UInt8)) :
    (lowerFlrs floors).towerOctetString = towerOctets (floors.map fun f => ([f.1], f.2)) := by
  rw [lowerFlrs, towerOctets, List.length_map, List.flatMap_map]
  rfl

/-! ### The towers of a binding -/

/-- The floors of the tower for a transfer syntax. -/
def towerParts (ifId : IfId) (syntaxId : SyntaxId) (protocolId : UInt8) (minor : ℕ)
    (lower : List (UInt8 × List UInt8)) : List (List UInt8 × List UInt8) :=
  (towerFlrIdFromUuid ifId.uuid ifId.versMajor.toNat, toLE 2 ifId.versMinor.toNat) ::
  (towerFlrIdFromUuid syntaxId.id (syntaxId.version &&& 0x0000FFFF).toNat,
    toLE 2 (syntaxId.version >>> 16).toNat) ::
  ([protocolId], toLE 2 minor) :: lower.map fun f => ([f.1], f.2)

theorem length_towerFlrIdFromUuid (uuid : UuidT) (major : ℕ) :
    (towerFlrIdFromUuid uuid major).length = 19 := by
  rw [towerFlrIdFromUuid, List.length_cons, List.length_append, length_uuidBytes, length_toLE]

/-- Floors with an identifier of `n` bytes and a 16-bit number as address fit. -/
theorem fits_of_length {n v : ℕ} (hid : protId.length = n) (hn : n < 2 ^ 16) :
    Fits (protId, toLE 2 v) :=
  ⟨hid.trans_lt hn, (length_toLE 2 v).trans_lt (by decide)⟩

theorem fits_lower {lower : List (UInt8 × List UInt8)} (hlower : ∀ f ∈ lower, f.2.length < 2 ^ 16) :
    ∀ part ∈ lower.map (fun f => ([f.1], f.2)), Fits part := by
  intro part hpart
  obtain ⟨f, hf, rfl⟩ := List.mem_map.mp hpart
  exact ⟨(List.length_singleton).trans_lt (by decide), hlower f hf⟩

theorem fits_towerParts (ifId : IfId) (syntaxId : SyntaxId) (protocolId : UInt8) (minor : ℕ)
    (lower : List (UInt8 × List UInt8)) (hlower : ∀ f ∈ lower, f.2.length < 2 ^ 16) :
    ∀ part ∈ towerParts ifId syntaxId protocolId minor lower, Fits part := by
  intro part hpart
  rw [towerParts, List.mem_cons, List.mem_cons, List.mem_cons] at hpart
  rcases hpart with rfl | rfl | rfl | hpart
  · exact fits_of_length (length_towerFlrIdFromUuid _ _) (by decide)
  · exact fits_of_length (length_towerFlrIdFromUuid _ _) (by decide)
  · exact fits_of_length List.length_singleton (by decide)
  · exact fits_lower hlower part hpart

/-- The canonical towers of a binding, one for each transfer syntax. -/
theorem towerVectorFromBinding_eq {ifSpec : IfSpec} {binding : Binding}
    {lower : List (UInt8 × List UInt8)}
    (haddr : nafTowerFlrsFromAddr supported binding = some (lowerFlrs lower))
    (hlower : ∀ f ∈ lower, f.2.length < 2 ^ 16) (hlen : lower.length < 2 ^ 16)
    (hsupported : (protseqId supported binding.rpcProtseqId).supported = true) :
    towerVectorFromBinding supported ifSpec binding
      = some ((ifSpec.syntaxId :: ifSpec.syntaxIds).map fun syntaxId =>
          let vers := networkInqProtVers (protseqId supported binding.rpcProtseqId).rpcProtocolId
          let parts := towerParts ifSpec.ifId syntaxId vers.1
            (binding.minorVersion.getD vers.2.2) lower
          { towerLength := (towerOctets parts).length, towerOctetString := towerOctets parts }) := by
  obtain ⟨floors, hfloors, hall⟩ := floorsFrom_octets (fits_lower hlower) []
  set vers := networkInqProtVers (protseqId supported binding.rpcProtseqId).rpcProtocolId with hvers
  set minor := binding.minorVersion.getD vers.2.2 with hminor
  have hread : readAt (lowerFlrs lower).towerOctetString 0 2 = some (toLE 2 lower.length) := by
    rw [lowerFlrs_octets, readAt_towerOctets, List.length_map]
  have hlowerFloors : floorsFrom lower.length ((lowerFlrs lower).towerOctetString.drop 2)
      = some floors := by
    rw [lowerFlrs_octets, drop_towerOctets, ← hfloors, List.length_map, List.append_nil]
  have hfloor3 : towerFlrFromRpcProtId supported binding.rpcProtseqId binding.minorVersion
      = some (Floor.ofParts [vers.1] (toLE 2 minor)) := by
    rw [towerFlrFromRpcProtId, networkInqProtVersion, if_pos hsupported]
    rfl
  have hone (syntaxId : SyntaxId) : List.Forall₂ Floor.Is
      (towerFlrFromIfId ifSpec.ifId :: towerFlrFromDrep syntaxId ::
        Floor.ofParts [vers.1] (toLE 2 minor) :: floors)
      (towerParts ifSpec.ifId syntaxId vers.1 minor lower) :=
    .cons (Floor.ofParts_is _ _) <| .cons (Floor.ofParts_is _ _) <|
      .cons (Floor.ofParts_is _ _) hall
  rw [towerVectorFromBinding, towerRefVecFromBinding, haddr]
  dsimp only [Option.bind_eq_bind, Option.bind_some]
  rw [hread]
  dsimp only [Option.bind_eq_bind, Option.bind_some]
  rw [ofLE_toLE hlen, hlowerFloors, hfloor3]
  dsimp only [Option.bind_eq_bind, Option.bind_some]
  generalize ifSpec.syntaxId :: ifSpec.syntaxIds = syntaxIds
  induction syntaxIds with
  | nil => rfl
  | cons syntaxId syntaxIds ih =>
    rw [List.map_cons, List.mapM_cons, towerFromTowerRef_eq (hone syntaxId), ih]
    rfl

/-! ### The protocol sequence of a tower -/

theorem protIdFound_eq (master : FlrProtId) (ids : List FlrProtId) :
    protIdFound master ids = some (decide (master ∈ ids)) := by
  induction ids with
  | nil => rfl
  | cons id ids ih =>
    rw [protIdFound, uuidEqual_eq, ih]
    by_cases hfront : master.prefix₀ = id.prefix₀
    · rw [if_pos hfront]
      by_cases huuid : master.uuid = id.uuid
      · have heq : master = id := by
          cases master
          cases id
          simp_all
        simp [heq]
      · have hne : master ≠ id := fun heq => huuid (heq ▸ rfl)
        simp [huuid, hne]
    · have hne : master ≠ id := fun heq => hfront (heq ▸ rfl)
      simp [hfront, hne]

theorem protseqMatch_eq (ids masters : List FlrProtId) :
    protseqMatch ids masters = some (decide (masters ⊆ ids)) := by
  induction masters with
  | nil => simp [protseqMatch]
  | cons master masters ih =>
    rw [protseqMatch, protIdFound_eq, ih]
    simp [List.cons_subset]

/-- The first entry with as many identifiers, all of them found, is reported. -/
theorem protseqSearch_find (ids : List FlrProtId) (entries : List TowerProtIds) :
    protseqSearch ids entries = (entries.find? fun entry =>
      ids.length = entry.floorProtIds.length ∧ entry.floorProtIds ⊆ ids).map
        TowerProtIds.rpcProtseqId := by
  induction entries with
  | nil => rfl
  | cons entry entries ih =>
    rw [protseqSearch, protseqMatch_eq, ih]
    by_cases hlen : ids.length = entry.floorProtIds.length
    · rw [if_neg (not_not_intro hlen)]
      by_cases hsub : entry.floorProtIds ⊆ ids
      · simp [hlen, hsub]
      · simp [hsub]
    · simp [hlen]

/-- A table entry with exactly these identifiers has the protocol sequence. -/
def EntryOf (ids : List FlrProtId) (rpcProtseqId : ℕ) : Prop :=
  ∃ entry ∈ towerProtIds, entry.rpcProtseqId = rpcProtseqId ∧ entry.floorProtIds.Perm ids

/-- The identifiers of the local protocol sequence, the repeated one replaced in one place. -/
def Confused (ids : List FlrProtId) : Prop :=
  ∃ x, x ≠ ⟨0x01, nilUuid⟩ ∧ [⟨0x0B, nilUuid⟩, ⟨0x01, nilUuid⟩, x].Perm ids

/-- An entry without repetition is only found for its own identifiers. -/
theorem perm_of_subset {ids masters : List FlrProtId} (hnodup : masters.Nodup)
    (hlen : ids.length = masters.length) (hsub : masters ⊆ ids) : masters.Perm ids :=
  (hnodup.subperm hsub).perm_of_length_le hlen.le

theorem protseqSearch_eq_some {ids : List FlrProtId} {i : ℕ}
    (h : protseqSearch ids towerProtIds = some i) :
    EntryOf ids i ∨ i = protseqIdNcalrpc ∧ Confused ids := by
  rw [protseqSearch_find, Option.map_eq_some_iff] at h
  obtain ⟨entry, hfind, rfl⟩ := h
  have hmem := List.mem_of_find?_eq_some hfind
  have hfound := List.find?_some hfind
  rw [decide_eq_true_eq] at hfound
  obtain ⟨hlen, hsub⟩ := hfound
  by_cases hnodup : entry.floorProtIds.Nodup
  · exact .inl ⟨entry, hmem, rfl, perm_of_subset hnodup hlen hsub⟩
  · -- only the local protocol sequence repeats an identifier
    have hentry : entry = ⟨protseqIdNcalrpc, [⟨0x0B, nilUuid⟩, ⟨0x01, nilUuid⟩, ⟨0x01, nilUuid⟩]⟩ := by
      rw [towerProtIds, List.mem_cons, List.mem_cons, List.mem_singleton] at hmem
      rcases hmem with rfl | rfl | rfl
      · exact absurd (by decide) hnodup
      · exact absurd (by decide) hnodup
      · rfl
    subst hentry
    have hsub₂ : [(⟨0x0B, nilUuid⟩ : FlrProtId), ⟨0x01, nilUuid⟩] ⊆ ids := by
      intro m hm
      exact hsub (List.mem_cons.mpr ((List.mem_cons.mp hm).imp_right fun hm =>
        List.mem_cons_of_mem _ hm))
    have htwo : [(⟨0x0B, nilUuid⟩ : FlrProtId), ⟨0x01, nilUuid⟩].Nodup := by decide
    obtain ⟨x, hx⟩ := (htwo.subperm hsub₂).exists_of_length_lt (by rw [hlen]; decide)
    have hperm : [⟨0x0B, nilUuid⟩, ⟨0x01, nilUuid⟩, x].Perm ids :=
      (List.perm_append_comm : List.Perm ([_, _] ++ [x]) ([x] ++ [_, _])).trans (hx.perm_of_length_le hlen.le)
    by_cases hone : x = ⟨0x01, nilUuid⟩
    · exact .inl ⟨_, hmem, rfl, hone ▸ hperm⟩
    · exact .inr ⟨rfl, x, hone, hperm⟩

/-- Such identifiers are always taken for those of the local protocol sequence. -/
theorem protseqSearch_confused {ids : List FlrProtId} (h : Confused ids) :
    protseqSearch ids towerProtIds = some protseqIdNcalrpc ∧ ¬ EntryOf ids protseqIdNcalrpc := by
  obtain ⟨x, hx, hperm⟩ := h
  have hlen : ids.length = 3 := hperm.length_eq.symm
  have hmem (m : FlrProtId) : m ∈ ids ↔ m = ⟨0x0B, nilUuid⟩ ∨ m = ⟨0x01, nilUuid⟩ ∨ m = x := by
    rw [← hperm.mem_iff, List.mem_cons, List.mem_cons, List.mem_singleton]
  have hdg : ¬ [(⟨0x0A, nilUuid⟩ : FlrProtId), ⟨0x08, nilUuid⟩, ⟨0x09, nilUuid⟩] ⊆ ids := by
    intro hsub
    have h₁ := (hmem ⟨0x0A, nilUuid⟩).mp (hsub (by decide))
    have h₂ := (hmem ⟨0x08, nilUuid⟩).mp (hsub (by decide))
    have heq : (⟨0x0A, nilUuid⟩ : FlrProtId) = ⟨0x08, nilUuid⟩ :=
      ((h₁.resolve_left (by decide)).resolve_left (by decide)).trans
        ((h₂.resolve_left (by decide)).resolve_left (by decide)).symm
    exact absurd heq (by decide)
  have hcn : ¬ [(⟨0x0B, nilUuid⟩ : FlrProtId), ⟨0x07, nilUuid⟩, ⟨0x09, nilUuid⟩] ⊆ ids := by
    intro hsub
    have h₁ := (hmem ⟨0x07, nilUuid⟩).mp (hsub (by decide))
    have h₂ := (hmem ⟨0x09, nilUuid⟩).mp (hsub (by decide))
    have heq : (⟨0x07, nilUuid⟩ : FlrProtId) = ⟨0x09, nilUuid⟩ :=
      ((h₁.resolve_left (by decide)).resolve_left (by decide)).trans
        ((h₂.resolve_left (by decide)).resolve_left (by decide)).symm
    exact absurd heq (by decide)
  constructor
  · rw [protseqSearch_find]
    have hlocal : [(⟨0x0B, nilUuid⟩ : FlrProtId), ⟨0x01, nilUuid⟩, ⟨0x01, nilUuid⟩] ⊆ ids := by
      intro m hm
      rw [List.mem_cons, List.mem_cons, List.mem_singleton, or_self] at hm
      exact (hmem m).mpr (hm.imp_right Or.inl)
    simp [towerProtIds, hlen, hdg, hcn, hlocal, List.find?]
  · rintro ⟨entry, hentry, hid, hperm'⟩
    have hlocal : entry.floorProtIds = [⟨0x0B, nilUuid⟩, ⟨0x01, nilUuid⟩, ⟨0x01, nilUuid⟩] := by
      rw [towerProtIds, List.mem_cons, List.mem_cons, List.mem_singleton] at hentry
      rcases hentry with rfl | rfl | rfl
      · cases hid
      · cases hid
      · rfl
    have hboth := hperm'.trans hperm.symm
    rw [hlocal, List.perm_cons, List.perm_cons, List.perm_singleton] at hboth
    exact hx (List.singleton_inj.mp hboth).symm

/-! ### Round trip -/

/-- A supported protocol sequence of the table with an address of its family. -/
structure Served (supported : ℕ → Bool) (binding : Binding) : Prop where
  protseq : binding.rpcProtseqId ∈ towerProtIds.map TowerProtIds.rpcProtseqId
  inUse : supported binding.rpcProtseqId = true
  sa : SaOf (protseqId supported binding.rpcProtseqId).nafId binding.sa

/-- What the decoders make of a tower for one transfer syntax of the interface. -/
structure ConvertsBack (supported : ℕ → Bool) (ifSpec : IfSpec) (binding : Binding) (tower : Twr)
    (syntaxId : SyntaxId) : Prop where
  length : tower.towerLength = tower.towerOctetString.length
  floors : ∃ floor₁ floor₂ floor₃ lower,
    towerToTowerRef tower = some (floor₁ :: floor₂ :: floor₃ :: lower) ∧
      towerRefInqProtseqId supported (floor₁ :: floor₂ :: floor₃ :: lower)
        = some binding.rpcProtseqId ∧
      towerFlrToIfId floor₁ = some ifSpec.ifId ∧
      towerFlrToDrep floor₂ = some syntaxId ∧
      let protocolId := (protseqId supported binding.rpcProtseqId).rpcProtocolId
      let vers := networkInqProtVers protocolId
      towerFlrToRpcProtId supported floor₃
        = some (protocolId, vers.2.1, BitVec.ofNat 16 (binding.minorVersion.getD vers.2.2))
  sa : nafTowerFlrsToAddr (protseqId supported binding.rpcProtseqId).nafId tower.towerOctetString
    = some binding.sa

theorem forall_served {binding : Binding} (hserved : Served supported binding) :
    (binding.rpcProtseqId = protseqIdNcadgIpUdp ∨ binding.rpcProtseqId = protseqIdNcacnIpTcp) ∧
        SaOf nafIdIp binding.sa ∨
      binding.rpcProtseqId = protseqIdNcalrpc ∧ SaOf nafIdUxd binding.sa := by
  obtain ⟨hmem, -, hsa⟩ := hserved
  rw [towerProtIds, List.map_cons, List.map_cons, List.map_cons, List.map_nil, List.mem_cons,
    List.mem_cons, List.mem_singleton] at hmem
  rcases hmem with hdg | hcn | hlocal
  · exact .inl ⟨.inl hdg, by rwa [hdg] at hsa⟩
  · exact .inl ⟨.inr hcn, by rwa [hcn] at hsa⟩
  · exact .inr ⟨hlocal, by rwa [hlocal] at hsa⟩

/-- The floors that are searched in a tower of a binding. -/
theorem searchIds_eq (supported : ℕ → Bool) {floors : List Floor} {ifId : IfId} {syntaxId : SyntaxId} {b b₁ b₂ : UInt8}
    {minor : ℕ} {a₁ a₂ : List UInt8}
    (hall : List.Forall₂ Floor.Is floors (towerParts ifId syntaxId b minor [(b₁, a₁), (b₂, a₂)])) :
    searchIds supported floors = some [⟨b, nilUuid⟩, ⟨b₁, nilUuid⟩, ⟨b₂, nilUuid⟩] := by
  rw [towerParts] at hall
  obtain ⟨_, _, -, hall₁, rfl⟩ := List.forall₂_cons_right_iff.mp hall
  obtain ⟨_, _, -, hall₂, rfl⟩ := List.forall₂_cons_right_iff.mp hall₁
  obtain ⟨_, _, h₃, hall₃, rfl⟩ := List.forall₂_cons_right_iff.mp hall₂
  obtain ⟨_, _, h₄, hall₄, rfl⟩ := List.forall₂_cons_right_iff.mp hall₃
  obtain ⟨_, _, h₅, hall₅, rfl⟩ := List.forall₂_cons_right_iff.mp hall₄
  cases hall₅
  have hfull (floors : List Floor) (hlen : floors.length = 5) :
      floorsToSearch supported floors = some (floors.drop 2) := if_pos hlen.ge
  rw [searchIds, hfull _ rfl]
  simp only [Option.bind_eq_bind, Option.bind_some, List.drop_succ_cons, List.drop_zero,
    List.mapM_cons, List.mapM_nil, flrProtId_eq h₃, flrProtId_eq h₄, flrProtId_eq h₅]
  rfl

/-- The upper floors are never those of a family's lower floors. -/
theorem skipFloors_upper {accepts : UInt8 → Bool} {ifId : IfId} {syntaxId : SyntaxId} {b : UInt8}
    {minor : ℕ} (hskip : accepts b = false) (n : ℕ) (rest : List UInt8) :
    skipFloors accepts ((towerParts ifId syntaxId b minor []).length + n)
        ((towerParts ifId syntaxId b minor []).flatMap floorOctets ++ rest)
      = skipFloors accepts n rest := by
  have hfits := fits_towerParts ifId syntaxId b minor [] (by simp)
  have hlen : (towerParts ifId syntaxId b minor []).length + n = n + 1 + 1 + 1 := by
    rw [towerParts]
    simp
    omega
  rw [hlen]
  simp only [towerParts, List.map_nil, List.flatMap_cons, List.flatMap_nil, List.append_nil,
    List.append_assoc, List.mem_cons, List.not_mem_nil, or_false, forall_eq_or_imp, forall_eq] at hfits ⊢
  obtain ⟨h₁, h₂, h₃⟩ := hfits
  rw [towerFlrIdFromUuid] at h₁ h₂ ⊢
  rw [skipFloors_skip h₁, towerFlrIdFromUuid, skipFloors_skip h₂, skipFloors_skip h₃]
  · exact fun _ => hskip
  · simp [uuidBytes, toLE]
  · simp [uuidBytes, toLE]

/-- What `rpc__naf_tower_flrs_to_addr` reads back for the lower floors of an IP address. -/
theorem ipLowerFlrsToSa_eq {ifId : IfId} {syntaxId : SyntaxId} {b id : UInt8} {minor : ℕ}
    {port addr : List UInt8} (hport : port.length = 2) (haddr : addr.length = 4)
    (hb : (b = flrProtIdTcp || b = flrProtIdUdp) = false)
    (hid : (id = flrProtIdTcp || id = flrProtIdUdp) = true) :
    twrIpLowerFlrsToSa (towerOctets (towerParts ifId syntaxId b minor
      [(id, port), (flrProtIdIp, addr)])) = some (inetSa port addr) := by
  have hsplit : towerParts ifId syntaxId b minor [(id, port), (flrProtIdIp, addr)]
      = towerParts ifId syntaxId b minor [] ++ [([id], port), ([flrProtIdIp], addr)] := rfl
  rw [hsplit, twrIpLowerFlrsToSa, lowerFlrsToSa_eq (skipFloors_upper hb)
    (show 3 + 2 < 2 ^ 16 by decide) hid (hport.trans_lt (by decide)) (haddr.trans_lt (by decide))]
  match port, hport, addr, haddr with
  | [_, _], _, [_, _, _, _], _ => rfl

theorem uxdLowerFlrsToSa_eq {ifId : IfId} {syntaxId : SyntaxId} {b : UInt8} {minor : ℕ}
    {path : List UInt8} (hlen : path.length < pathSize) (hb : b ≠ flrProtIdUxd) :
    twrUxdLowerFlrsToSa (towerOctets (towerParts ifId syntaxId b minor
      [(flrProtIdUxd, path ++ [0]), (flrProtIdUxd, [0x2e, 0])])) = some (unixSa path) := by
  have hsplit : towerParts ifId syntaxId b minor
        [(flrProtIdUxd, path ++ [0]), (flrProtIdUxd, [0x2e, 0])]
      = towerParts ifId syntaxId b minor [] ++
        [([flrProtIdUxd], path ++ [0]), ([flrProtIdUxd], [0x2e, 0])] := rfl
  have hlength : (path ++ [0]).length = path.length + 1 := List.length_append
  rw [pathSize] at hlen
  rw [hsplit, twrUxdLowerFlrsToSa, lowerFlrsToSa_eq (skipFloors_upper (decide_eq_false hb))
    (show 3 + 2 < 2 ^ 16 by decide) (decide_eq_true rfl) (by omega) (by decide)]
  have hpoke : poke (toLE 2 nafIdUxd ++ List.replicate (2 + pathSize - 2) 0) 2 (path ++ [0])
      = some (unixSa path) := by
    rw [poke, if_pos]
    · congr 1
      rw [List.take_left' (length_toLE _ _), unixSa, List.drop_append, length_toLE,
        drop_toLE _ (by omega), List.nil_append, List.drop_replicate, hlength, List.append_assoc,
        List.append_assoc, List.append_assoc]
      congr 2
      rw [show ([0] : List UInt8) = List.replicate 1 0 from rfl, List.replicate_append_replicate]
      congr 1
      rw [pathSize]
      omega
    · simp only [List.length_append, length_toLE, List.length_replicate, List.length_singleton,
        pathSize]
      omega
  rw [hpoke]
  rfl

/-- What is read back from a tower, given the lower floors of the binding. -/
theorem convertsBack_of_lower {ifSpec : IfSpec} {binding : Binding} {b₁ b₂ : UInt8}
    {a₁ a₂ : List UInt8}
    (hmem : binding.rpcProtseqId ∈ towerProtIds.map TowerProtIds.rpcProtseqId)
    (hsupported : supported binding.rpcProtseqId = true)
    (haddr : nafTowerFlrsFromAddr supported binding = some (lowerFlrs [(b₁, a₁), (b₂, a₂)]))
    (h₁ : a₁.length < 2 ^ 16) (h₂ : a₂.length < 2 ^ 16)
    (hids : protseqSearch [⟨(networkInqProtVers
        (protseqId supported binding.rpcProtseqId).rpcProtocolId).1, nilUuid⟩, ⟨b₁, nilUuid⟩,
        ⟨b₂, nilUuid⟩] towerProtIds = some binding.rpcProtseqId)
    (hsa : ∀ syntaxId minor, nafTowerFlrsToAddr (protseqId supported binding.rpcProtseqId).nafId
      (towerOctets (towerParts ifSpec.ifId syntaxId (networkInqProtVers
        (protseqId supported binding.rpcProtseqId).rpcProtocolId).1 minor
        [(b₁, a₁), (b₂, a₂)])) = some binding.sa) :
    ∃ towers, towerVectorFromBinding supported ifSpec binding = some towers ∧
      List.Forall₂ (ConvertsBack supported ifSpec binding) towers
        (ifSpec.syntaxId :: ifSpec.syntaxIds) := by
  have hlower : ∀ f ∈ [(b₁, a₁), (b₂, a₂)], f.2.length < 2 ^ 16 :=
    List.forall_mem_cons.mpr ⟨h₁, List.forall_mem_singleton.mpr h₂⟩
  refine ⟨_, towerVectorFromBinding_eq haddr hlower (show 2 < 2 ^ 16 by decide)
    ((supported_protseqId hmem).trans hsupported), ?_⟩
  rw [List.forall₂_map_left_iff, List.forall₂_same]
  intro syntaxId _
  have hfits := fits_towerParts ifSpec.ifId syntaxId (networkInqProtVers
    (protseqId supported binding.rpcProtseqId).rpcProtocolId).1 (binding.minorVersion.getD
      (networkInqProtVers (protseqId supported binding.rpcProtseqId).rpcProtocolId).2.2) _ hlower
  obtain ⟨floors, hfloors, hall⟩ := towerToTowerRef_octets hfits
    (show (towerParts ifSpec.ifId syntaxId _ _ [(b₁, a₁), (b₂, a₂)]).length < 2 ^ 16 from
      show 5 < 2 ^ 16 by decide) (towerOctets _).length
  refine ⟨rfl, ?_, hsa _ _⟩
  have hsearch := searchIds_eq supported hall
  rw [towerParts] at hall
  obtain ⟨floor₁, _, hf₁, hall₁, rfl⟩ := List.forall₂_cons_right_iff.mp hall
  obtain ⟨floor₂, _, hf₂, hall₂, rfl⟩ := List.forall₂_cons_right_iff.mp hall₁
  obtain ⟨floor₃, lower, hf₃, -, rfl⟩ := List.forall₂_cons_right_iff.mp hall₂
  refine ⟨floor₁, floor₂, floor₃, lower, hfloors, ?_, towerFlrToIfId_eq hf₁, towerFlrToDrep_eq hf₂,
    towerFlrToRpcProtId_eq hf₃ (protIdSearch_eq hmem hsupported)⟩
  rw [towerRefInqProtseqId, hsearch]
  exact hids

theorem exists_inetSa {sa : Sockaddr} (h : SaOf nafIdIp sa) :
    ∃ port addr, port.length = 2 ∧ addr.length = 4 ∧ sa = inetSa port addr := by
  generalize hnaf : nafIdIp = nafId at h
  cases h with
  | inet port addr hport haddr => exact ⟨port, addr, hport, haddr, rfl⟩
  | unix => cases hnaf

theorem exists_unixSa {sa : Sockaddr} (h : SaOf nafIdUxd sa) :
    ∃ path, 0 ∉ path ∧ path.length < pathSize ∧ sa = unixSa path := by
  generalize hnaf : nafIdUxd = nafId at h
  cases h with
  | inet => cases hnaf
  | unix path hnul hlen => exact ⟨path, hnul, hlen, rfl⟩

/-- The towers of a binding convert back. -/
theorem convertsBack_of_served {binding : Binding} (hserved : Served supported binding)
    (ifSpec : IfSpec) :
    ∃ towers, towerVectorFromBinding supported ifSpec binding = some towers ∧
      List.Forall₂ (ConvertsBack supported ifSpec binding) towers
        (ifSpec.syntaxId :: ifSpec.syntaxIds) := by
  obtain ⟨i, minor, sa⟩ := binding
  have hmem := hserved.protseq
  rcases forall_served hserved with ⟨rfl | rfl, hsa⟩ | ⟨rfl, hsa⟩
  · obtain ⟨port, addr, hport, haddr, rfl⟩ := exists_inetSa hsa
    have hids : protseqSearch [⟨0x0A, nilUuid⟩, ⟨flrProtIdUdp, nilUuid⟩, ⟨flrProtIdIp, nilUuid⟩]
        towerProtIds = some protseqIdNcadgIpUdp := by decide
    have hlower : nafTowerFlrsFromAddr supported ⟨protseqIdNcadgIpUdp, minor, inetSa port addr⟩
        = some (lowerFlrs [(flrProtIdUdp, port), (flrProtIdIp, addr)]) := by
      rw [nafTowerFlrsFromAddr, family_inetSa, if_pos rfl, twrIpLowerFlrsFromSa_eq hport haddr]
      rfl
    exact convertsBack_of_lower hmem hserved.inUse hlower (hport.trans_lt (by decide))
      (haddr.trans_lt (by decide)) hids fun _ _ => ipLowerFlrsToSa_eq hport haddr rfl rfl
  · obtain ⟨port, addr, hport, haddr, rfl⟩ := exists_inetSa hsa
    have hids : protseqSearch [⟨0x0B, nilUuid⟩, ⟨flrProtIdTcp, nilUuid⟩, ⟨flrProtIdIp, nilUuid⟩]
        towerProtIds = some protseqIdNcacnIpTcp := by decide
    have hlower : nafTowerFlrsFromAddr supported ⟨protseqIdNcacnIpTcp, minor, inetSa port addr⟩
        = some (lowerFlrs [(flrProtIdTcp, port), (flrProtIdIp, addr)]) := by
      rw [nafTowerFlrsFromAddr, family_inetSa, if_pos rfl, twrIpLowerFlrsFromSa_eq hport haddr]
      rfl
    exact convertsBack_of_lower hmem hserved.inUse hlower (hport.trans_lt (by decide))
      (haddr.trans_lt (by decide)) hids fun _ _ => ipLowerFlrsToSa_eq hport haddr rfl rfl
  · obtain ⟨path, hnul, hlen, rfl⟩ := exists_unixSa hsa
    have hids : protseqSearch [⟨0x0B, nilUuid⟩, ⟨flrProtIdUxd, nilUuid⟩, ⟨flrProtIdUxd, nilUuid⟩]
        towerProtIds = some protseqIdNcalrpc := by decide
    have hlower : nafTowerFlrsFromAddr supported ⟨protseqIdNcalrpc, minor, unixSa path⟩
        = some (lowerFlrs [(flrProtIdUxd, path ++ [0]), (flrProtIdUxd, [0x2e, 0])]) := by
      rw [nafTowerFlrsFromAddr, family_unixSa, if_neg (by decide), if_pos rfl]
      exact twrUxdLowerFlrsFromSa_eq hnul hlen
    have hlength : (path ++ [0]).length < 2 ^ 16 := by
      rw [List.length_append, List.length_singleton]
      rw [pathSize] at hlen
      omega
    exact convertsBack_of_lower hmem hserved.inUse hlower hlength (by decide) hids
      fun _ _ => uxdLowerFlrsToSa_eq hlen (show (0x0B : UInt8) ≠ flrProtIdUxd by decide)

/-! ### Named pipes -/

/-- A copy behind the family leaves the family. -/
theorem family_poke {sa sa' : Sockaddr} {off : ℕ} {data : List UInt8} (hoff : 2 ≤ off)
    (h : poke sa off data = some sa') : family sa' = family sa := by
  rw [poke, Option.ite_none_right_eq_some] at h
  obtain ⟨hlen, h⟩ := h
  obtain rfl := Option.some_inj.mp h
  have hle : 2 ≤ (sa.take off).length := by
    rw [List.length_take]
    omega
  rw [family, family, List.append_assoc, List.take_append_of_le_length hle, List.take_take,
    Nat.min_eq_left hoff]

theorem family_lowerFlrsToSa {accepts : UInt8 → Bool} {second : UInt8} {nafId length off₁ : ℕ}
    {off₂ : Option ℕ} {octets : List UInt8} {sa : Sockaddr} (hnaf : nafId < 2 ^ 16)
    (hoff₁ : 2 ≤ off₁) (hoff₂ : ∀ off ∈ off₂, 2 ≤ off)
    (h : lowerFlrsToSa accepts second nafId length off₁ off₂ octets = some sa) :
    family sa = nafId := by
  have hfamily (rest : List UInt8) : family (toLE 2 nafId ++ rest) = nafId := by
    rw [family, List.take_left' (length_toLE _ _), ofLE_toLE hnaf]
  rw [lowerFlrsToSa] at h
  simp only [Option.bind_eq_bind, Option.bind_eq_some_iff, Option.ite_none_right_eq_some] at h
  obtain ⟨_, _, _, _, _, _, _, _, sa₁, hpoke₁, _, _, _, _, _, _, _, _, _, h⟩ := h
  have hsa₁ := (family_poke hoff₁ hpoke₁).trans (hfamily _)
  cases off₂ with
  | none => exact (Option.some_inj.mp h) ▸ hsa₁
  | some off =>
    obtain ⟨_, _, hpoke₂⟩ := Option.bind_eq_some_iff.mp h
    exact (family_poke (hoff₂ off rfl) hpoke₂).trans hsa₁

/-- The routine from named pipe addresses takes another family than the routine to them
gives. -/
theorem npLowerFlrs_ne (sa : Sockaddr) :
    ((twrNpLowerFlrsFromSa sa).bind fun lower => twrNpLowerFlrsToSa lower.towerOctetString)
      ≠ some sa := by
  intro h
  rw [Option.bind_eq_some_iff] at h
  obtain ⟨lower, hfrom, hto⟩ := h
  have hnp : family sa = nafIdNp :=
    family_lowerFlrsToSa (by decide) (le_refl 2) (by simp [servnameSize]) hto
  have hmsname : family sa = nafIdMsname := by
    by_contra hne
    rw [twrNpLowerFlrsFromSa, if_neg hne] at hfrom
    cases hfrom
  exact absurd (hnp.symm.trans hmsname) (by decide)

/-! ### The round trip of every kind of address, and of towers that come in -/

/-- What goes through the routines: a binding, a named pipe address, or a tower that came
in. -/
inductive TowerInput
  | binding (ifSpec : IfSpec) (binding : Binding)
  | namedPipe (servName : Vector UInt8 servnameSize) (pipeName : Vector UInt8 pipenameSize)
  | towerRef (floors : List Floor)

/-- The round trip: a binding and a named pipe address come back, a protocol sequence is
reported for the identifiers of its entry only. -/
def RoundTrips (supported : ℕ → Bool) : TowerInput → Prop
  | .binding ifSpec binding => Served supported binding →
    ∃ towers, towerVectorFromBinding supported ifSpec binding = some towers ∧
      List.Forall₂ (ConvertsBack supported ifSpec binding) towers
        (ifSpec.syntaxId :: ifSpec.syntaxIds)
  | .namedPipe servName pipeName =>
    ((twrNpLowerFlrsFromSa (npSa servName pipeName)).bind fun lower =>
      twrNpLowerFlrsToSa lower.towerOctetString) = some (npSa servName pipeName)
  | .towerRef floors => ∀ i, towerRefInqProtseqId supported floors = some i →
    ∃ ids, searchIds supported floors = some ids ∧ EntryOf ids i

/-- No named pipe, and no tower with the identifiers of the local protocol sequence but for
one repetition. -/
def InOrder (supported : ℕ → Bool) : TowerInput → Prop
  | .binding _ _ => True
  | .namedPipe _ _ => False
  | .towerRef floors => ∀ ids, searchIds supported floors = some ids → ¬ Confused ids

theorem roundTrips_iff (supported : ℕ → Bool) (input : TowerInput) :
    RoundTrips supported input ↔ InOrder supported input := by
  cases input with
  | binding ifSpec binding => exact iff_of_true (fun h => convertsBack_of_served h ifSpec) trivial
  | namedPipe servName pipeName => exact iff_of_false (npLowerFlrs_ne _) id
  | towerRef floors =>
    constructor
    · rintro hsound ids hids hconfused
      obtain ⟨hsearch, hno⟩ := protseqSearch_confused hconfused
      obtain ⟨ids', hids', hentry⟩ := hsound protseqIdNcalrpc (by
        rw [towerRefInqProtseqId, hids]
        exact hsearch)
      rw [hids, Option.some_inj] at hids'
      exact hno (hids' ▸ hentry)
    · intro horder i hi
      rw [towerRefInqProtseqId] at hi
      obtain ⟨ids, hids, hsearch⟩ := Option.bind_eq_some_iff.mp hi
      rcases protseqSearch_eq_some hsearch with hentry | ⟨-, hconfused⟩
      · exact ⟨ids, hids, hentry⟩
      · exact absurd hconfused (horder ids hids)

/-- The floors of a full tower whose third lower floor is no socket address floor. -/
def localLookalike : List Floor :=
  [towerFlrFromUuid nilUuid 1 0, towerFlrFromUuid nilUuid 2 0, Floor.ofParts [0x0B] [1, 0],
    Floor.ofParts [0x01] [0x2f, 0], Floor.ofParts [0x02] [0x2e, 0]]

/-- A tower with the identifiers 0x0B, 0x01 and 0x02 is taken for a local one, and a named
pipe address does not come back. -/
theorem not_roundTrips :
    ¬ (RoundTrips (fun _ => true) (.towerRef localLookalike)) ∧
    ¬ (RoundTrips (fun _ => true) (.namedPipe (Vector.replicate _ 0x61) (Vector.replicate _ 0x62))) := by
  have hids : searchIds (fun _ => true) localLookalike
      = some [⟨0x0B, nilUuid⟩, ⟨0x01, nilUuid⟩, ⟨0x02, nilUuid⟩] := by decide
  have hsearch : towerRefInqProtseqId (fun _ => true) localLookalike = some protseqIdNcalrpc := by
    decide
  have hconfused : Confused [⟨0x0B, nilUuid⟩, ⟨0x01, nilUuid⟩, ⟨0x02, nilUuid⟩] :=
    ⟨_, by decide, List.Perm.refl _⟩
  constructor
  · intro hsound
    obtain ⟨ids, hids', hentry⟩ := hsound protseqIdNcalrpc hsearch
    rw [hids, Option.some_inj] at hids'
    exact (protseqSearch_confused hconfused).2 (hids' ▸ hentry)
  · exact npLowerFlrs_ne _

end Tower
