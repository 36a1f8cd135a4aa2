/-
The table of association groups (cnassoc.c, cnid.c, cnasgsm.h).

A group is named by an identifier of two halves: the index of its entry, and a sequence number that
is new each time the entry is closed.  A client sends the identifier of the group that it wants to
join.

* `Inv`, `inv_step` — the table: every entry carries the identifier that was made for it last;
* `seqOf_eq_iff` — when two of the numbers are the same;
* `grpLookup_iff` — a lookup stays in the table, and finds what the identifier names, for the
  identifiers whose index is in the table; `not_grpLookup` is one that is not.
-/
import FreeDce.Lib.Runs

namespace Cn

namespace GrpTable

open Runs

/-! ### Data -/

/-- `rpc_cn_local_id_t`, by its parts. -/
structure LocalId where
  idSeqnum : BitVec 16
  idIndex : BitVec 16
deriving DecidableEq, Repr

/-- `RPC_CN_LOCAL_ID_VALID`. -/
def LocalId.valid (id : LocalId) : Bool := id.idSeqnum ≠ 0

/-- `RPC_CN_LOCAL_ID_CLEAR`. -/
def LocalId.clear : LocalId := ⟨0, 0⟩

/-- The states of both machines.  A new entry is filled with zeros, which is none of them. -/
inductive GrpState
  | zeroed
  | closed
  | opened
  | active
  | callWait
deriving DecidableEq, Repr

inductive GrpType
  | client
  | server
deriving DecidableEq, Repr

/-- The fields of `rpc_cn_assoc_grp_t` that the lookups read.  `born` is the place of the identifier
among those that were made. -/
structure Grp where
  grpId : LocalId
  grpFlags : Option GrpType := none
  curState : GrpState := .zeroed
  born : ℕ

/-- `rpc_g_cn_assoc_grp_tbl`, and the static sequence number.  `issued` is the history of the
identifiers. -/
structure Tbl where
  assocGrpVector : List Grp := []
  seqnum : BitVec 16
  issued : List LocalId := []

def Tbl.grpCount (t : Tbl) : ℕ := t.assocGrpVector.length

/-- `RPC_C_ASSOC_GRP_ALLOC_SIZE`. -/
def grpAllocSize : ℕ := 10

/-! ### The operations -/

/-- The next sequence number: 0 is left out. -/
def nextSeqnum (seqnum : BitVec 16) : BitVec 16 := if seqnum + 1 = 0 then 1 else seqnum + 1

/-- `rpc__cn_gen_local_id`. -/
def genLocalId (t : Tbl) (index : ℕ) : LocalId × Tbl :=
  let seqnum := nextSeqnum t.seqnum
  let id : LocalId := ⟨seqnum, BitVec.ofNat 16 index⟩
  (id, { t with seqnum := seqnum, issued := t.issued ++ [id] })

/-- `rpc__cn_assoc_grp_init` of the entry behind the last. -/
def grpInit (t : Tbl) : Tbl :=
  let r := genLocalId t t.grpCount
  { r.2 with
    assocGrpVector := t.assocGrpVector ++ [{ grpId := r.1, born := t.issued.length }] }

/-- `rpc__cn_assoc_grp_create`.  The count has 16 bits; `none` is the copy into a table that is
shorter than the old one. -/
def grpCreate (t : Tbl) : Option Tbl :=
  if t.grpCount + grpAllocSize < 2 ^ 16 then some (Nat.iterate grpInit grpAllocSize t) else none

def Tbl.modify (t : Tbl) (i : ℕ) (f : Grp → Grp) : Tbl :=
  { t with assocGrpVector := t.assocGrpVector.modify i f }

/-- `rpc__cn_assoc_grp_alloc`: a closed entry, or the first of the new ones.  The event that is sent
through the machine of its type opens it. -/
def grpAlloc (t : Tbl) (type : GrpType) : Option Tbl :=
  let opened (g : Grp) : Grp := { g with grpFlags := some type, curState := .opened }
  match t.assocGrpVector.findIdx? fun g => g.curState = .closed with
  | some i => some (t.modify i opened)
  | none => (grpCreate t).map fun t' => t'.modify t.grpCount opened

/-- `rpc__cn_assoc_grp_dealloc`. -/
def grpDealloc (t : Tbl) (i : ℕ) : Tbl :=
  let r := genLocalId t i
  { r.2 with
    assocGrpVector := t.assocGrpVector.modify i fun _ =>
      { grpId := r.1, curState := .closed, born := t.issued.length } }

/-- What happens to the table: a group is allocated, an association joins a group or leaves it, the
last call of a group has ended. -/
inductive Event
  | alloc (type : GrpType)
  | addAssoc (i : ℕ)
  | remAssoc (i : ℕ) (next : GrpState)
  | noCalls (i : ℕ)

/-- The states to which the last association's leaving, or another's, can lead. -/
def remNext : Option GrpType → List GrpState
  | some .client => [.active, .closed]
  | some .server => [.active, .closed, .callWait]
  | none => []

/-- `RPC_CN_ASSOC_GRP_EVAL_EVENT` deallocates a group that is closed. -/
def setState (t : Tbl) (i : ℕ) (next : GrpState) : Tbl :=
  if next = .closed then grpDealloc t i else t.modify i fun g => { g with curState := next }

def step (t : Tbl) : Event → Option Tbl
  | .alloc type => grpAlloc t type
  | .addAssoc i => do
    let g ← t.assocGrpVector[i]?
    if g.curState = .opened ∨ g.curState = .active then some (setState t i .active) else none
  | .remAssoc i next => do
    let g ← t.assocGrpVector[i]?
    if g.curState = .active ∧ next ∈ remNext g.grpFlags then some (setState t i next) else none
  | .noCalls i => do
    let g ← t.assocGrpVector[i]?
    if g.curState = .callWait then some (setState t i .closed) else none

/-- `rpc__cn_assoc_grp_tbl_init`, with any sequence number to begin with. -/
def Reachable (t : Tbl) : Prop :=
  ∃ seqnum t₀ es, grpCreate { seqnum := seqnum } = some t₀ ∧ exec step t₀ es = some t

/-- `RPC_CN_ASSOC_GRP`: no group for an identifier that is not valid; `none` is a read behind the
table. -/
def assocGrp (t : Tbl) (id : LocalId) : Option (Option Grp) :=
  if id.valid then (t.assocGrpVector[id.idIndex.toNat]?).map some else some none

/-- `rpc__cn_assoc_grp_lkup_by_id`: the identifier, and whether a group was found. -/
def grpLkupById (t : Tbl) (id : LocalId) (type : GrpType) : Option (LocalId × Bool) :=
  (assocGrp t id).map fun g =>
    match g with
    | some g =>
      if g.grpId = id ∧ g.grpFlags = some type ∧ g.curState = .active then (id, true)
      else (.clear, false)
    | none => (.clear, false)

/-- What `do_assoc_req_action_rtn` does with the identifier of a bind request: the group. -/
def bindGrp (t : Tbl) (id : LocalId) (type : GrpType) : Option (Option Grp) :=
  (grpLkupById t id type).bind fun r => assocGrp t r.1

/-! ### What is wanted -/

/-- The lookup and the use of what it gives stay in the table; a group that is found is not closed,
has the identifier and the type; and an identifier of which another was made since for the same entry
finds nothing before 65535 others were made. -/
structure GrpLookup (t : Tbl) (id : LocalId) (type : GrpType) : Prop where
  inTable : (bindGrp t id type).isSome
  found : grpLkupById t id type = some (id, true) → ∃ g ∈ t.assocGrpVector,
    bindGrp t id type = some (some g) ∧ g.grpId = id ∧ g.grpFlags = some type ∧
      g.curState ≠ .closed
  old : grpLkupById t id type = some (id, true) → ∀ n m id', n < m → t.issued[n]? = some id →
    t.issued[m]? = some id' → id'.idIndex = id.idIndex → n + 65535 < t.issued.length

/-! ### The sequence numbers -/

/-- The number that is made after `n` others. -/
def seqOf (seqnum : BitVec 16) : ℕ → BitVec 16
  | 0 => nextSeqnum seqnum
  | n + 1 => nextSeqnum (seqOf seqnum n)

theorem toNat_nextSeqnum (seqnum : BitVec 16) :
    (nextSeqnum seqnum).toNat = if seqnum.toNat = 65535 then 1 else seqnum.toNat + 1 := by
  have hlt := seqnum.isLt
  have hone : (1 : BitVec 16).toNat = 1 := rfl
  have hsum : (seqnum + 1).toNat = (seqnum.toNat + 1) % 2 ^ 16 := by
    rw [BitVec.toNat_add, hone]
  have hzero : seqnum + 1 = 0 ↔ seqnum.toNat = 65535 := by
    rw [← BitVec.toNat_inj, hsum]
    show (seqnum.toNat + 1) % 2 ^ 16 = 0 ↔ _
    omega
  rw [nextSeqnum]
  by_cases hlast : seqnum.toNat = 65535
  · rw [if_pos (hzero.mpr hlast), if_pos hlast]
    rfl
  · rw [if_neg (mt hzero.mp hlast), if_neg hlast, hsum]
    omega

/-- The numbers go round through 1 to 65535. -/
theorem toNat_seqOf (seqnum : BitVec 16) (n : ℕ) :
    (seqOf seqnum n).toNat = (seqnum.toNat + n) % 65535 + 1 := by
  have hlt := seqnum.isLt
  induction n with
  | zero =>
    rw [seqOf, toNat_nextSeqnum]
    split_ifs <;> omega
  | succ n ih =>
    rw [seqOf, toNat_nextSeqnum, ih]
    split_ifs <;> omega

/-- Two numbers are the same if they are whole rounds apart. -/
theorem add_le_of_seqOf_eq {seqnum : BitVec 16} {n m : ℕ} (h : seqOf seqnum n = seqOf seqnum m)
    (hlt : n < m) : n + 65535 ≤ m := by
  have hnat := congrArg BitVec.toNat h
  rw [toNat_seqOf, toNat_seqOf] at hnat
  omega

/-! ### The invariant -/

/-- The entries carry the identifiers that were made for them last. -/
structure Inv (seqnum : BitVec 16) (t : Tbl) : Prop where
  count : t.grpCount < 2 ^ 16
  issued : ∀ n id, t.issued[n]? = some id → id.idSeqnum = seqOf seqnum n
  next : ∀ n, t.issued.length = n → nextSeqnum t.seqnum = seqOf seqnum n
  born : ∀ i g, t.assocGrpVector[i]? = some g → t.issued[g.born]? = some g.grpId ∧
    g.grpId.idIndex = BitVec.ofNat 16 i
  last : ∀ i g, t.assocGrpVector[i]? = some g → ∀ m id, t.issued[m]? = some id →
    id.idIndex = BitVec.ofNat 16 i → m ≤ g.born

variable {seqnum : BitVec 16} {t t' : Tbl} {i index : ℕ}

/-- The history with one more identifier. -/
theorem Inv.issued_gen (h : Inv seqnum t) (index : ℕ) :
    (∀ n id, (genLocalId t index).2.issued[n]? = some id → id.idSeqnum = seqOf seqnum n) ∧
      ∀ n, (genLocalId t index).2.issued.length = n →
        nextSeqnum (genLocalId t index).2.seqnum = seqOf seqnum n := by
  have hnext := h.next _ rfl
  refine ⟨fun n id hn => ?_, ?_⟩
  · have hn' : (t.issued ++ [(genLocalId t index).1])[n]? = some id := hn
    rcases lt_trichotomy n t.issued.length with hlt | rfl | hgt
    · rw [List.getElem?_append_left hlt] at hn'
      exact h.issued n id hn'
    · rw [List.getElem?_concat_length] at hn'
      obtain rfl := Option.some_inj.mp hn'
      exact hnext
    · rw [List.getElem?_eq_none (by simp; omega)] at hn'
      cases hn'
  · rintro n rfl
    have hlen : (genLocalId t index).2.issued.length = t.issued.length + 1 := by
      simp [genLocalId]
    rw [hlen, seqOf, ← hnext]
    rfl

theorem getElem?_issued_gen {m : ℕ} {id : LocalId}
    (hm : (genLocalId t index).2.issued[m]? = some id) :
    t.issued[m]? = some id ∨ m = t.issued.length ∧ id = (genLocalId t index).1 := by
  have hm' : (t.issued ++ [(genLocalId t index).1])[m]? = some id := hm
  rcases lt_trichotomy m t.issued.length with hlt | rfl | hgt
  · rw [List.getElem?_append_left hlt] at hm'
    exact .inl hm'
  · rw [List.getElem?_concat_length] at hm'
    exact .inr ⟨rfl, (Option.some_inj.mp hm').symm⟩
  · rw [List.getElem?_eq_none (by simp; omega)] at hm'
    cases hm'

theorem getElem?_issued_of_old {m : ℕ} {id : LocalId} (hm : t.issued[m]? = some id) :
    (genLocalId t index).2.issued[m]? = some id := by
  have hlt := (List.getElem?_eq_some_iff.mp hm).1
  show (t.issued ++ [(genLocalId t index).1])[m]? = some id
  rw [List.getElem?_append_left hlt]
  exact hm

theorem getElem?_issued_new :
    (genLocalId t index).2.issued[t.issued.length]? = some (genLocalId t index).1 :=
  List.getElem?_concat_length

theorem ofNat_ne {i j : ℕ} (hi : i < 2 ^ 16) (hj : j < 2 ^ 16) (h : i ≠ j) :
    BitVec.ofNat 16 i ≠ BitVec.ofNat 16 j := by
  intro heq
  have := congrArg BitVec.toNat heq
  rw [BitVec.toNat_ofNat, BitVec.toNat_ofNat] at this
  omega

/-- An identifier is made for entry `i`, and put there; the other entries stay. -/
theorem Inv.of_gen (h : Inv seqnum t) (hi : i < 2 ^ 16) {v : List Grp} (hlen : v.length < 2 ^ 16)
    (hnew : ∀ g, v[i]? = some g → g.grpId = (genLocalId t i).1 ∧ g.born = t.issued.length)
    (hold : ∀ j g, j ≠ i → v[j]? = some g → t.assocGrpVector[j]? = some g) :
    Inv seqnum { (genLocalId t i).2 with assocGrpVector := v } := by
  obtain ⟨hissued, hnext⟩ := h.issued_gen i
  refine ⟨hlen, hissued, hnext, fun j g hj => ?_, fun j g hj m id hm hid => ?_⟩
  · by_cases hji : j = i
    · subst hji
      obtain ⟨hid, hborn⟩ := hnew g hj
      rw [hid, hborn]
      exact ⟨getElem?_issued_new, rfl⟩
    · obtain ⟨hb, hid⟩ := h.born j g (hold j g hji hj)
      exact ⟨getElem?_issued_of_old hb, hid⟩
  · have hjlt : j < 2 ^ 16 := (List.getElem?_eq_some_iff.mp hj).1.trans hlen
    by_cases hji : j = i
    · subst hji
      obtain ⟨-, hborn⟩ := hnew g hj
      rw [hborn]
      rcases getElem?_issued_gen hm with hm | ⟨rfl, -⟩
      · exact (List.getElem?_eq_some_iff.mp hm).1.le
      · exact le_rfl
    · rcases getElem?_issued_gen hm with hm | ⟨-, rfl⟩
      · exact h.last j g (hold j g hji hj) m id hm hid
      · exact absurd hid (ofNat_ne hi hjlt (Ne.symm hji))

/-- A change of the other fields of an entry. -/
theorem Inv.modify (h : Inv seqnum t) (i : ℕ) {f : Grp → Grp}
    (hf : ∀ g, (f g).grpId = g.grpId ∧ (f g).born = g.born) : Inv seqnum (t.modify i f) := by
  have hget : ∀ (j : ℕ) (g : Grp), (t.modify i f).assocGrpVector[j]? = some g →
      ∃ g' : Grp, t.assocGrpVector[j]? = some g' ∧ g.grpId = g'.grpId ∧ g.born = g'.born := by
    intro j g hj
    rw [Tbl.modify, List.getElem?_modify] at hj
    obtain ⟨g', hg', hfg⟩ := Option.map_eq_some_iff.mp hj
    refine ⟨g', hg', ?_⟩
    rw [← hfg]
    split
    · exact hf g'
    · exact ⟨rfl, rfl⟩
  refine ⟨?_, h.issued, h.next, fun j g hj => ?_, fun j g hj m id hm hid => ?_⟩
  · rw [Tbl.grpCount, Tbl.modify, List.length_modify]
    exact h.count
  · obtain ⟨g', hg', hid, hborn⟩ := hget j g hj
    rw [hid, hborn]
    exact h.born j g' hg'
  · obtain ⟨g', hg', -, hborn⟩ := hget j g hj
    rw [hborn]
    exact h.last j g' hg' m id hm hid

theorem grpCount_grpInit (t : Tbl) : (grpInit t).grpCount = t.grpCount + 1 := by
  rw [Tbl.grpCount, grpInit, List.length_append]
  rfl

theorem Inv.grpInit (h : Inv seqnum t) (hcount : t.grpCount + 1 < 2 ^ 16) :
    Inv seqnum (grpInit t) := by
  refine h.of_gen h.count ?_ (fun g hg => ?_) fun j g hne hj => ?_
  · rw [List.length_append]
    exact hcount
  · rw [Tbl.grpCount, List.getElem?_concat_length] at hg
    obtain rfl := Option.some_inj.mp hg
    exact ⟨rfl, rfl⟩
  · rcases lt_trichotomy j t.assocGrpVector.length with hlt | rfl | hgt
    · rwa [List.getElem?_append_left hlt] at hj
    · exact absurd rfl hne
    · rw [List.getElem?_eq_none (by simp; omega)] at hj
      cases hj

theorem Inv.iterate_grpInit (h : Inv seqnum t) (n : ℕ) (hcount : t.grpCount + n < 2 ^ 16) :
    Inv seqnum (Nat.iterate GrpTable.grpInit n t) ∧
      (Nat.iterate GrpTable.grpInit n t).grpCount = t.grpCount + n := by
  induction n with
  | zero => exact ⟨h, rfl⟩
  | succ n ih =>
    obtain ⟨hn, hlen⟩ := ih (by omega)
    rw [Function.iterate_succ_apply', grpCount_grpInit, hlen]
    exact ⟨hn.grpInit (by omega), rfl⟩

theorem Inv.grpCreate (h : Inv seqnum t) (ht : grpCreate t = some t') : Inv seqnum t' := by
  rw [GrpTable.grpCreate] at ht
  split at ht
  · rename_i hcount
    cases ht
    exact (h.iterate_grpInit grpAllocSize hcount).1
  · cases ht

theorem Inv.grpDealloc (h : Inv seqnum t) (hi : i < t.grpCount) : Inv seqnum (grpDealloc t i) := by
  refine h.of_gen (hi.trans h.count) ?_ (fun g hg => ?_) fun j g hne hj => ?_
  · rw [List.length_modify]
    exact h.count
  · rw [List.getElem?_modify_eq] at hg
    obtain ⟨g', -, rfl⟩ := Option.map_eq_some_iff.mp hg
    exact ⟨rfl, rfl⟩
  · rwa [List.getElem?_modify_ne _ _ (Ne.symm hne)] at hj

theorem Inv.setState (h : Inv seqnum t) (hi : i < t.grpCount) (next : GrpState) :
    Inv seqnum (setState t i next) := by
  rw [GrpTable.setState]
  split
  · exact h.grpDealloc hi
  · exact h.modify i fun g => ⟨rfl, rfl⟩

theorem inv_step (h : Inv seqnum t) {e : Event} (ht : step t e = some t') : Inv seqnum t' := by
  have hstate : ∀ i next (p : Grp → Prop) [DecidablePred p], (do
      let g ← t.assocGrpVector[i]?
      if p g then some (setState t i next) else none) = some t' → Inv seqnum t' := by
    intro i next p _ hdo
    obtain ⟨g, hg, hif⟩ := Option.bind_eq_some_iff.mp hdo
    split at hif
    · cases hif
      exact h.setState (List.getElem?_eq_some_iff.mp hg).1 next
    · cases hif
  cases e with
  | alloc type =>
    rw [step, grpAlloc] at ht
    split at ht
    · cases ht
      exact h.modify _ fun g => ⟨rfl, rfl⟩
    · obtain ⟨t₁, ht₁, rfl⟩ := Option.map_eq_some_iff.mp ht
      exact (h.grpCreate ht₁).modify _ fun g => ⟨rfl, rfl⟩
  | addAssoc i => exact hstate i _ _ ht
  | remAssoc i next => exact hstate i next _ ht
  | noCalls i => exact hstate i _ _ ht

theorem inv_of_reachable (h : Reachable t) : ∃ seqnum, Inv seqnum t := by
  obtain ⟨seqnum, t₀, es, ht₀, hes⟩ := h
  refine ⟨seqnum, exec_invariant' (fun _ _ _ h ht => inv_step h ht) ?_ hes⟩
  have hempty : ∀ {α : Type} {n : ℕ} {a : α}, ([] : List α)[n]? ≠ some a := by simp
  have hinv : Inv seqnum { seqnum := seqnum } := by
    refine ⟨Nat.two_pow_pos 16, fun n id hn => absurd hn hempty, ?_,
      fun i g hi => absurd hi hempty, fun i g hi => absurd hi hempty⟩
    rintro n rfl
    rfl
  exact hinv.grpCreate ht₀

/-! ### Lookups -/

/-- What a lookup that finds something has found. -/
theorem grpLkupById_found {id : LocalId} {type : GrpType}
    (h : grpLkupById t id type = some (id, true)) :
    id.valid ∧ ∃ g, t.assocGrpVector[id.idIndex.toNat]? = some g ∧ g.grpId = id ∧
      g.grpFlags = some type ∧ g.curState = .active := by
  obtain ⟨g?, hg?, hres⟩ := Option.map_eq_some_iff.mp h
  rw [assocGrp] at hg?
  split at hg?
  · rename_i hvalid
    obtain ⟨g, hg, rfl⟩ := Option.map_eq_some_iff.mp hg?
    dsimp only at hres
    split at hres
    · rename_i hmatch
      exact ⟨hvalid, g, hg, hmatch⟩
    · cases hres
  · cases hg?
    cases hres

/-- **A lookup by an identifier from a packet** does what it has to if and only if the identifier is
not valid, or its index is in the table. -/
theorem grpLookup_iff (h : Reachable t) (id : LocalId) (type : GrpType) :
    GrpLookup t id type ↔ id.idSeqnum = 0 ∨ id.idIndex.toNat < t.grpCount := by
  obtain ⟨seqnum, hinv⟩ := inv_of_reachable h
  have hvalid : id.valid = true ↔ id.idSeqnum ≠ 0 := decide_eq_true_iff
  constructor
  · intro hlookup
    by_contra hout
    rw [not_or] at hout
    -- the entry is read before it is compared
    have hread : assocGrp t id = none := by
      rw [assocGrp, if_pos (hvalid.mpr hout.1), List.getElem?_eq_none (not_lt.mp hout.2)]
      rfl
    have hin := hlookup.inTable
    rw [bindGrp, grpLkupById, hread] at hin
    cases hin
  · intro hin
    have hclear : assocGrp t .clear = some none := rfl
    refine ⟨?_, fun hfound => ?_, fun hfound n m id' hnm hn hm hindex => ?_⟩
    · by_cases hv : id.valid = true
      · have hlt := hin.resolve_left (hvalid.mp hv)
        have hgrp : assocGrp t id = some (some t.assocGrpVector[id.idIndex.toNat]) := by
          rw [assocGrp, if_pos hv, List.getElem?_eq_getElem hlt]
          rfl
        rw [bindGrp, grpLkupById, hgrp, Option.map_some, Option.bind_some]
        dsimp only
        split
        · rw [hgrp]
          rfl
        · rw [hclear]
          rfl
      · have hgrp : assocGrp t id = some none := if_neg hv
        rw [bindGrp, grpLkupById, hgrp, Option.map_some, Option.bind_some, hclear]
        rfl
    · obtain ⟨hv, g, hg, hid, hflags, hactive⟩ := grpLkupById_found hfound
      refine ⟨g, List.mem_of_getElem? hg, ?_, hid, hflags, ?_⟩
      · rw [bindGrp, hfound, Option.bind_some, assocGrp, if_pos hv, hg]
        rfl
      · rw [hactive]
        decide
    · obtain ⟨-, g, hg, hid, -, -⟩ := grpLkupById_found hfound
      have hofNat : id.idIndex = BitVec.ofNat 16 id.idIndex.toNat := by simp
      have hborn := (hinv.born _ g hg).1
      have hlast := hinv.last _ g hg m id' hm (hindex.trans hofNat)
      rw [hid] at hborn
      -- the identifier was made again, at least a round later
      have hseq := (hinv.issued n id hn).symm.trans (hinv.issued g.born id hborn)
      have hround := add_le_of_seqOf_eq hseq (by omega)
      have hlt := (List.getElem?_eq_some_iff.mp hborn).1
      omega

/-- The table as it is set up. -/
def firstTbl : Tbl := Nat.iterate grpInit grpAllocSize { seqnum := 0 }

theorem reachable_firstTbl : Reachable firstTbl :=
  ⟨0, firstTbl, [], rfl, rfl⟩

theorem grpLookup_first : GrpLookup firstTbl ⟨1, 0⟩ .server :=
  (grpLookup_iff reachable_firstTbl ⟨1, 0⟩ .server).mpr (.inr (by decide))

/-- Ten entries, and a request for the group with index 10. -/
theorem not_grpLookup : Reachable firstTbl ∧ ¬ GrpLookup firstTbl ⟨1, 10⟩ .server := by
  refine ⟨reachable_firstTbl, fun h => ?_⟩
  exact absurd h.inTable (by decide)

end GrpTable

end Cn
