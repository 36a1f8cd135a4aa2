/-
UUIDs in memory (uuid.c).

`uuid_equal`, and `uuid_hash`, a checksum over the octets.  `none` is
`uuid_s_bad_version`, which no UUID gives: the variants of `CHECK_STRUCTURE` are all there
are.
-/
import FreeDce.Lib.Bytes
import FreeDce.Uuid.Create

namespace Uuid

open Bytes

/-- A UUID in memory, least significant bytes first. -/
def uuidBytes (u : UuidT) : List UInt8 :=
  toLE 4 u.timeLow.toNat ++ toLE 2 u.timeMid.toNat ++ toLE 2 u.timeHiAndVersion.toNat ++
    toLE 1 u.clockSeqHiAndReserved.toNat ++ toLE 1 u.clockSeqLow.toNat ++
    (toLE 6 u.node.toNat).reverse

def uuidOfBytes (bytes : List UInt8) : UuidT where
  timeLow := BitVec.ofNat 32 (ofLE (bytes.take 4))
  timeMid := BitVec.ofNat 16 (ofLE ((bytes.drop 4).take 2))
  timeHiAndVersion := BitVec.ofNat 16 (ofLE ((bytes.drop 6).take 2))
  clockSeqHiAndReserved := BitVec.ofNat 8 (ofLE ((bytes.drop 8).take 1))
  clockSeqLow := BitVec.ofNat 8 (ofLE ((bytes.drop 9).take 1))
  node := BitVec.ofNat 48 (ofLE ((bytes.drop 10).take 6).reverse)

/-- `uuid_g_nil_uuid`. -/
def nilUuid : UuidT := ⟨0, 0, 0, 0, 0, 0⟩

/-- `CHECK_STRUCTURE`. -/
def checkStructure (u : UuidT) : Bool :=
  u.clockSeqHiAndReserved &&& 0x80 = 0x00 || u.clockSeqHiAndReserved &&& 0xc0 = 0x80 ||
    u.clockSeqHiAndReserved &&& 0xe0 = 0xc0 || u.clockSeqHiAndReserved &&& 0xe0 = 0xe0

/-- `uuid_equal`; `none` is `uuid_s_bad_version`. -/
def uuidEqual (uuid1 uuid2 : UuidT) : Option Bool :=
  if ¬ checkStructure uuid1 then none
  else if ¬ checkStructure uuid2 then none
  else some (uuid1 = uuid2)

/-- The counters of `uuid_hash`, both `short`. -/
def hashCounters (bytes : List UInt8) : BitVec 16 × BitVec 16 :=
  bytes.foldl (fun (c0, c1) b =>
    let c0 := c0 + BitVec.ofNat 16 b.toNat
    (c0, c1 + c0)) (0, 0)

/-- The remainder modulo 255 that `uuid_hash` makes positive. -/
def hashOctet (c : ℤ) : ℕ :=
  let x := c.tmod 255
  (if x < 0 then x + 255 else x).toNat

/-- `uuid_hash`. -/
def uuidHash (uuid : UuidT) : Option ℕ :=
  if ¬ checkStructure uuid then none
  else
    let (c0, c1) := hashCounters (uuidBytes uuid)
    some (hashOctet (c1.toInt - c0.toInt) * 256 + hashOctet (-c1.toInt))

theorem length_uuidBytes (u : UuidT) : (uuidBytes u).length = 16 := by
  simp [uuidBytes]

theorem drop_toLE {n m : ℕ} (v : ℕ) (h : n ≤ m) : (toLE n v).drop m = [] :=
  List.drop_eq_nil_of_le ((length_toLE n v).trans_le h)

theorem ofNat_ofLE_toLE {w n : ℕ} (v : BitVec w) (h : 2 ^ w ≤ 256 ^ n) :
    BitVec.ofNat w (ofLE (toLE n v.toNat)) = v := by
  rw [ofLE_toLE (v.isLt.trans_le h), BitVec.ofNat_toNat, BitVec.setWidth_eq]

theorem uuidOfBytes_uuidBytes (u : UuidT) : uuidOfBytes (uuidBytes u) = u := by
  have hlow := ofNat_ofLE_toLE (n := 4) u.timeLow (by decide)
  have hmid := ofNat_ofLE_toLE (n := 2) u.timeMid (by decide)
  have hhi := ofNat_ofLE_toLE (n := 2) u.timeHiAndVersion (by decide)
  have hseq := ofNat_ofLE_toLE (n := 1) u.clockSeqHiAndReserved (by decide)
  have hseqLow := ofNat_ofLE_toLE (n := 1) u.clockSeqLow (by decide)
  have hnode : BitVec.ofNat 48 (ofLE ((toLE 6 u.node.toNat).reverse.take 6).reverse) = u.node := by
    rw [List.take_of_length_le (by rw [List.length_reverse, length_toLE]), List.reverse_reverse]
    exact ofNat_ofLE_toLE u.node (by decide)
  rw [uuidOfBytes, uuidBytes]
  simp [List.drop_append, drop_toLE, hlow, hmid, hhi, hseq, hseqLow, hnode]

theorem checkStructure_eq (u : UuidT) : checkStructure u = true := by
  have hall : ∀ b : BitVec 8, (b &&& 0x80 = 0x00 || b &&& 0xc0 = 0x80 || b &&& 0xe0 = 0xc0 ||
      b &&& 0xe0 = 0xe0) = true := by decide
  exact hall u.clockSeqHiAndReserved

theorem uuidEqual_eq (u v : UuidT) : uuidEqual u v = some (decide (u = v)) := by
  rw [uuidEqual, if_neg (not_not_intro (checkStructure_eq u)),
    if_neg (not_not_intro (checkStructure_eq v))]

theorem exists_uuidHash (u : UuidT) : ∃ hash, uuidHash u = some hash := by
  rw [uuidHash, if_neg (not_not_intro (checkStructure_eq u))]
  exact ⟨_, rfl⟩

end Uuid
