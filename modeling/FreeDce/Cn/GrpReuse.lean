/-
The entries of the table of association groups, used again (cnassoc.c, cncasgsm.c, cnsasgsm.c,
cnnet.c, cnsm.c).

A group is closed by the machine of its type, when its last association has left it and, for a
server's, no call is left; closing clears the entry.  Associations carry the identifier of their
group, and their calls are counted in it without a look at the identifier.

* `Ok`, `ok_step` — an entry that is closed is blank, and an association that has an identifier is
  in the group with it, or was the last one;
* `entries_carry_nothing` — allocations and lookups, in every run.
-/
import FreeDce.Cn.GrpTable

namespace Cn

namespace GrpReuse

open GrpTable Runs

/-! ### Data -/

/-- `RPC_C_CN_ASSOC_GRP_CLIENT` and `RPC_C_CN_ASSOC_GRP_SERVER`. -/
def bits : GrpType → BitVec 16
  | .client => 1
  | .server => 2

/-- The fields of `rpc_cn_assoc_grp_t` beside those of `Grp`.  The flags are bits here; the type in
`Grp` is the one whose machine the group has. -/
structure Data (A : Type) where
  grpFlags : BitVec 16 := 0
  grpRefcnt : BitVec 16 := 0
  grpAddress : Option A := none
  grpSecaddr : Option A := none
  grpCurAssoc : ℕ := 0
  grpAssocList : List ℕ := []
  grpCallcnt : BitVec 16 := 0
  grpLivenessMntr : Option ℕ := none
  grpRemid : BitVec 32 := 0

/-- The table, and the `assoc_grp_id` of the associations. -/
structure Groups (A : Type) where
  tbl : Tbl
  data : ℕ → Data A
  assocGrpId : ℕ → LocalId

variable {A : Type}

def Groups.grp (t : Groups A) (i : ℕ) : Option Grp := t.tbl.assocGrpVector[i]?

def Groups.setData (t : Groups A) (i : ℕ) (f : Data A → Data A) : Groups A :=
  { t with data := Function.update t.data i (f (t.data i)) }

def Groups.setAssoc (t : Groups A) (a : ℕ) (id : LocalId) : Groups A :=
  { t with assocGrpId := Function.update t.assocGrpId a id }

/-! ### The operations -/

/-- The end of `RPC_CN_ASSOC_GRP_EVAL_EVENT`: a group that is closed is deallocated, which clears
all fields. -/
def Groups.setState (t : Groups A) (i : ℕ) (next : GrpState) : Groups A :=
  { t with
    tbl := GrpTable.setState t.tbl i next
    data := if next = .closed then Function.update t.data i {} else t.data }

/-- `rpc__cn_assoc_grp_alloc`, and whether the address can be copied. -/
def grpAlloc (t : Groups A) (rpcAddr : Option A) (copied : Bool) (type : GrpType)
    (remId : BitVec 32) : Option (Groups A × LocalId) := do
  let found := t.tbl.assocGrpVector.findIdx? fun g => g.curState = .closed
  let i := found.getD t.tbl.grpCount
  if rpcAddr.isSome ∧ copied = false then
    let tbl ← if found.isSome then some t.tbl else grpCreate t.tbl
    some (({ t with tbl := tbl } : Groups A).setData i fun d =>
      { d with grpAddress := none, grpSecaddr := none }, .clear)
  else
    let tbl ← GrpTable.grpAlloc t.tbl type
    let g ← tbl.assocGrpVector[i]?
    some (({ t with tbl := tbl } : Groups A).setData i fun d =>
      { d with
        grpAddress := if rpcAddr.isSome then rpcAddr else d.grpAddress
        grpSecaddr := if rpcAddr.isSome then none else d.grpSecaddr
        grpFlags := d.grpFlags ||| bits type
        grpRemid := remId }, g.grpId)

/-- `rpc__cn_assoc_grp_add_assoc`, when an association without a group has been given the identifier
of one.  Other states than these are illegal. -/
def addAssoc (t : Groups A) (a : ℕ) (id : LocalId) : Option (Groups A) := do
  let i := id.idIndex.toNat
  let g ← t.grp i
  if g.grpId = id ∧ (t.assocGrpId a).valid = false ∧
      (g.curState = .opened ∨ g.curState = .active) then
    some (((t.setAssoc a id).setData i fun d => { d with
      grpCurAssoc := d.grpCurAssoc + 1, grpAssocList := a :: d.grpAssocList }).setState i .active)
  else none

/-- `RPC_C_ASSOC_GRP_NO_CALLS_IND`, with the context handles run down if there are any. -/
def noCalls (t : Groups A) (i a : ℕ) : Option (Groups A) := do
  let g ← t.grp i
  if g.curState = .callWait ∧
      ((t.data i).grpRefcnt = 0 ∨ (t.data i).grpLivenessMntr.isSome) then
    some ((t.setAssoc a .clear).setState i .closed)
  else none

/-- The indication is posted to a group of a server that waits for its calls, when there are none.
-/
def postNoCalls (t : Groups A) (i a : ℕ) : Option (Groups A) := do
  let g ← t.grp i
  if (t.data i).grpFlags &&& bits .server ≠ 0 ∧ (t.data i).grpCallcnt = 0 ∧
      g.curState = .callWait then
    noCalls t i a
  else some t

/-- The state behind `decr_assoc_count_action_rtn` of the two machines.  The predicate of the
server's gives 2 for the last association, with or without references. -/
def decrNext : GrpType → ℕ → GrpState
  | .client, n => if n = 1 then .closed else .active
  | .server, n => if n = 1 then .callWait else .active

/-- `rpc__cn_assoc_grp_rem_assoc`. -/
def remAssoc (t : Groups A) (a : ℕ) : Option (Groups A) := do
  let id := t.assocGrpId a
  if id.valid = false then some t
  else
    let i := id.idIndex.toNat
    let g ← t.grp i
    let type ← g.grpFlags
    if g.curState = .active then
      let next := decrNext type (t.data i).grpCurAssoc
      let t := if next = .callWait then t else t.setAssoc a .clear
      let t := t.setData i fun d => { d with
        grpCurAssoc := d.grpCurAssoc - 1, grpAssocList := d.grpAssocList.erase a }
      postNoCalls (t.setState i next) i a
    else none

/-- `rpc__cn_assoc_push_call`. -/
def pushCall (t : Groups A) (a : ℕ) : Groups A :=
  if (t.assocGrpId a).valid then
    t.setData (t.assocGrpId a).idIndex.toNat fun d => { d with grpCallcnt := d.grpCallcnt + 1 }
  else t

/-- `rpc__cn_assoc_pop_call`. -/
def popCall (t : Groups A) (a : ℕ) : Option (Groups A) :=
  if (t.assocGrpId a).valid then
    let i := (t.assocGrpId a).idIndex.toNat
    postNoCalls (t.setData i fun d => { d with grpCallcnt := d.grpCallcnt - 1 }) i a
  else some t

/-- `rpc__cn_assoc_grp_lkup_by_id`; no read is behind the table for the identifiers made here. -/
def grpLkupById (t : Groups A) (id : LocalId) (type : GrpType) : LocalId :=
  match t.grp id.idIndex.toNat with
  | some g =>
    if id.valid ∧ g.grpId = id ∧ (t.data id.idIndex.toNat).grpFlags &&& bits type ≠ 0 ∧
        g.curState = .active then id
    else .clear
  | none => .clear

/-- The first entry that is active, has the type and matches. -/
def Groups.first (t : Groups A) (type : GrpType) (p : Data A → Bool) : LocalId :=
  match (List.range t.tbl.grpCount).find? fun i =>
      (t.grp i).any fun g => (t.data i).grpFlags &&& bits type ≠ 0 ∧ g.curState = .active ∧
        p (t.data i) = true with
  | some i => ((t.grp i).map Grp.grpId).getD .clear
  | none => .clear

/-- `rpc__naf_addr_compare`, with the comparison of the address family. -/
def addrCompare (compare : A → A → Bool) : Option A → Option A → Bool
  | some a, some b => compare a b
  | none, none => true
  | _, _ => false

/-- `rpc__cn_assoc_grp_lkup_by_addr`. -/
def grpLkupByAddr (compare : A → A → Bool) (t : Groups A) (rpcAddr : Option A) (type : GrpType) :
    LocalId :=
  if rpcAddr.isSome then t.first type fun d => addrCompare compare rpcAddr d.grpAddress else .clear

/-- `rpc__cn_assoc_grp_lkup_by_remid`. -/
def grpLkupByRemid (compare : A → A → Bool) (t : Groups A) (remId : BitVec 32) (type : GrpType)
    (rpcAddr : Option A) : LocalId :=
  t.first type fun d => d.grpRemid = remId && addrCompare compare rpcAddr d.grpAddress

/-- A change of the group that a lookup by its identifier finds. -/
def changeFound (t : Groups A) (id : LocalId) (type : GrpType) (f : Data A → Data A) : Groups A :=
  if (grpLkupById t id type).valid then t.setData id.idIndex.toNat f else t

/-- `rpc__cn_network_maint`. -/
def networkMaint (t : Groups A) (id : LocalId) : Groups A :=
  changeFound t id .client fun d => { d with grpRefcnt := d.grpRefcnt + 1 }

/-- `rpc__cn_network_stop_maint`. -/
def networkStopMaint (t : Groups A) (id : LocalId) : Groups A :=
  changeFound t id .client fun d => { d with grpRefcnt := d.grpRefcnt - 1 }

/-- `rpc__cn_network_mon`. -/
def networkMon (t : Groups A) (id : LocalId) (rundown : ℕ) : Groups A :=
  changeFound t id .server fun d =>
    { d with grpLivenessMntr := some rundown, grpRefcnt := d.grpRefcnt + 1 }

/-- `rpc__cn_network_stop_mon`. -/
def networkStopMon (t : Groups A) (id : LocalId) : Groups A :=
  changeFound t id .server fun d => { d with grpRefcnt := d.grpRefcnt - 1 }

/-- The secondary address from the acknowledgement of a bind, for the first association. -/
def secaddr (t : Groups A) (a : ℕ) (addr : Option A) : Groups A :=
  if (t.assocGrpId a).valid then
    t.setData (t.assocGrpId a).idIndex.toNat fun d =>
      { d with grpSecaddr := if d.grpCurAssoc = 1 then addr else d.grpSecaddr }
  else t

inductive Event (A : Type)
  | alloc (rpcAddr : Option A) (copied : Bool) (type : GrpType) (remId : BitVec 32)
  | addAssoc (a : ℕ) (id : LocalId)
  | remAssoc (a : ℕ)
  | pushCall (a : ℕ)
  | popCall (a : ℕ)
  | maint (id : LocalId)
  | stopMaint (id : LocalId)
  | mon (id : LocalId) (rundown : ℕ)
  | stopMon (id : LocalId)
  | secaddr (a : ℕ) (addr : Option A)

def step (t : Groups A) : Event A → Option (Groups A)
  | .alloc rpcAddr copied type remId => (grpAlloc t rpcAddr copied type remId).map Prod.fst
  | .addAssoc a id => addAssoc t a id
  | .remAssoc a => remAssoc t a
  | .pushCall a => some (pushCall t a)
  | .popCall a => popCall t a
  | .maint id => some (networkMaint t id)
  | .stopMaint id => some (networkStopMaint t id)
  | .mon id rundown => some (networkMon t id rundown)
  | .stopMon id => some (networkStopMon t id)
  | .secaddr a addr => some (secaddr t a addr)

/-- `rpc__cn_assoc_grp_tbl_init`, with any sequence number to begin with. -/
def Groups.start (seqnum : BitVec 16) : Groups A where
  tbl := Nat.iterate grpInit grpAllocSize { seqnum := seqnum }
  data _ := {}
  assocGrpId _ := .clear

/-! ### The invariant -/

/-- An entry with the associations that carry its identifier. -/
structure SlotOk (ids : ℕ → LocalId) (g : Grp) (d : Data A) : Prop where
  blank : g.curState = .closed ∨ g.curState = .zeroed → d = {}
  kind : g.curState ≠ .closed → g.curState ≠ .zeroed →
    ∃ type, g.grpFlags = some type ∧ d.grpFlags = bits type
  members : ∀ a ∈ d.grpAssocList, ids a = g.grpId
  count : d.grpCurAssoc = d.grpAssocList.length
  nodup : d.grpAssocList.Nodup
  kept : ∀ a, ids a = g.grpId → a ∈ d.grpAssocList ∧ g.curState = .active ∨
    g.curState = .callWait ∧ d.grpAssocList = [] ∧ ∀ b, ids b = g.grpId → b = a

structure Ok (seqnum : BitVec 16) (t : Groups A) : Prop where
  inv : Inv seqnum t.tbl
  slots : ∀ i g, t.grp i = some g → SlotOk t.assocGrpId g (t.data i)
  beyond : ∀ i, t.grp i = none → t.data i = {}
  known : ∀ a, (t.assocGrpId a).valid →
    ∃ g, t.grp (t.assocGrpId a).idIndex.toNat = some g ∧ g.grpId = t.assocGrpId a

variable {seqnum : BitVec 16} {t t' : Groups A} {i j a : ℕ} {g g' : Grp} {ids ids' : ℕ → LocalId}
  {d d' : Data A} {id : LocalId}

theorem SlotOk.congr (h : SlotOk ids g d) (hids : ∀ a, ids' a = g.grpId ↔ ids a = g.grpId) :
    SlotOk ids' g d := by
  refine ⟨h.blank, h.kind, fun a ha => (hids a).mpr (h.members a ha), h.count, h.nodup, ?_⟩
  intro a ha
  rcases h.kept a ((hids a).mp ha) with hin | ⟨hwait, hnil, hone⟩
  · exact .inl hin
  · exact .inr ⟨hwait, hnil, fun b hb => hone b ((hids b).mp hb)⟩

/-- Fields change that neither the list nor the flags are. -/
theorem SlotOk.fields (h : SlotOk ids g d) (hstate : g.curState = .active ∨ g.curState = .callWait)
    (hflags : d'.grpFlags = d.grpFlags) (hcur : d'.grpCurAssoc = d.grpCurAssoc)
    (hlist : d'.grpAssocList = d.grpAssocList) : SlotOk ids g d' := by
  refine ⟨?_, ?_, ?_, ?_, ?_, ?_⟩
  · intro hblank
    rcases hstate with hs | hs <;> rw [hs] at hblank <;> rcases hblank with hb | hb <;> cases hb
  · rw [hflags]
    exact h.kind
  · rw [hlist]
    exact h.members
  · rw [hcur, hlist]
    exact h.count
  · rw [hlist]
    exact h.nodup
  · rw [hlist]
    exact h.kept

/-- The identifier of an entry names it. -/
theorem names (h : Inv seqnum t.tbl) (hg : t.grp i = some g) :
    g.grpId.valid = true ∧ g.grpId.idIndex.toNat = i := by
  obtain ⟨hborn, hindex⟩ := h.born i g hg
  have hi : i < 2 ^ 16 := (List.getElem?_eq_some_iff.mp hg).1.trans h.count
  have hseq := h.issued _ _ hborn
  refine ⟨decide_eq_true_iff.mpr ?_, ?_⟩
  · rw [hseq]
    intro hzero
    have hnat := congrArg BitVec.toNat hzero
    rw [toNat_seqOf] at hnat
    have hz : (0 : BitVec 16).toNat = 0 := rfl
    omega
  · rw [hindex, BitVec.toNat_ofNat]
    exact Nat.mod_eq_of_lt hi

/-- One entry changes, and with it the identifiers of associations that had it, or have it now. -/
theorem Ok.change (h : Ok seqnum t) (hg : t.grp i = some g) (hinv : Inv seqnum t'.tbl)
    (hother : ∀ j ≠ i, t'.grp j = t.grp j ∧ t'.data j = t.data j) (hg' : t'.grp i = some g')
    (hids : ∀ a, t'.assocGrpId a = t.assocGrpId a ∨
      (t.assocGrpId a = g.grpId ∨ (t.assocGrpId a).valid = false) ∧
        (t'.assocGrpId a = g.grpId ∨ (t'.assocGrpId a).valid = false))
    (hslot : SlotOk t'.assocGrpId g' (t'.data i))
    (hkeep : ∀ a, t'.assocGrpId a = g.grpId → g'.grpId = g.grpId) : Ok seqnum t' := by
  obtain ⟨hvalid, hindex⟩ := names h.inv hg
  refine ⟨hinv, ?_, ?_, ?_⟩
  · intro j gj hj
    by_cases hji : j = i
    · subst hji
      rw [hg'] at hj
      cases hj
      exact hslot
    · obtain ⟨hgrp, hdata⟩ := hother j hji
      rw [hgrp] at hj
      rw [hdata]
      obtain ⟨hvalidj, hindexj⟩ := names h.inv hj
      -- the identifiers that change are not this one's
      have hne : ∀ id : LocalId, id = g.grpId ∨ id.valid = false → id ≠ gj.grpId := by
        intro id hid heq
        rcases hid with hid | hid
        · rw [← hid, heq] at hindex
          exact hji (hindexj.symm.trans hindex)
        · rw [heq, hvalidj] at hid
          cases hid
      refine (h.slots j gj hj).congr fun a => ?_
      rcases hids a with hsame | ⟨hbefore, hafter⟩
      · rw [hsame]
      · exact iff_of_false (hne _ hafter) (hne _ hbefore)
  · intro j hj
    have hji : j ≠ i := by
      rintro rfl
      rw [hg'] at hj
      cases hj
    obtain ⟨hgrp, hdata⟩ := hother j hji
    rw [hdata]
    exact h.beyond j (hgrp ▸ hj)
  · intro a ha
    have hself : t'.assocGrpId a = g.grpId → ∃ g₁,
        t'.grp (t'.assocGrpId a).idIndex.toNat = some g₁ ∧
        g₁.grpId = t'.assocGrpId a := by
      intro heq
      rw [heq, hindex]
      exact ⟨g', hg', hkeep a heq⟩
    rcases hids a with hsame | ⟨-, hafter | hafter⟩
    · rw [hsame] at ha
      obtain ⟨g₁, hg₁, hid₁⟩ := h.known a ha
      by_cases hi : (t.assocGrpId a).idIndex.toNat = i
      · rw [hi, hg] at hg₁
        cases hg₁
        exact hself (hsame.trans hid₁.symm)
      · rw [hsame, (hother _ hi).1]
        exact ⟨g₁, hg₁, hid₁⟩
    · exact hself hafter
    · rw [hafter] at ha
      cases ha

/-- Fields of a group with associations, or with calls, change. -/
theorem Ok.setData (h : Ok seqnum t) (hg : t.grp i = some g)
    (hstate : g.curState = .active ∨ g.curState = .callWait) {f : Data A → Data A}
    (hflags : ∀ d, (f d).grpFlags = d.grpFlags) (hcur : ∀ d, (f d).grpCurAssoc = d.grpCurAssoc)
    (hlist : ∀ d, (f d).grpAssocList = d.grpAssocList) : Ok seqnum (t.setData i f) := by
  refine h.change hg h.inv ?_ hg (fun a => .inl rfl) ?_ fun _ _ => rfl
  · exact fun j hj => ⟨rfl, Function.update_of_ne hj _ _⟩
  · have hself : (t.setData i f).data i = f (t.data i) := Function.update_self _ _ _
    rw [hself]
    exact (h.slots i g hg).fields hstate (hflags _) (hcur _) (hlist _)

/-- An association with an identifier is in an active group, or was the last of one that waits. -/
theorem Ok.ofAssoc (h : Ok seqnum t) (ha : (t.assocGrpId a).valid = true) :
    ∃ g, t.grp (t.assocGrpId a).idIndex.toNat = some g ∧ g.grpId = t.assocGrpId a ∧
      (g.curState = .active ∨ g.curState = .callWait) := by
  obtain ⟨g, hg, hid⟩ := h.known a ha
  refine ⟨g, hg, hid, ?_⟩
  rcases (h.slots _ g hg).kept a hid.symm with ⟨-, hs⟩ | ⟨hs, -⟩
  · exact .inl hs
  · exact .inr hs

/-- What a lookup that finds something has found. -/
theorem grpLkupById_found (t : Groups A) {type : GrpType}
    (hvalid : (grpLkupById t id type).valid = true) : grpLkupById t id type = id ∧
      ∃ g, t.grp id.idIndex.toNat = some g ∧ g.grpId = id ∧
        (t.data id.idIndex.toNat).grpFlags &&& bits type ≠ 0 ∧ g.curState = .active := by
  rw [grpLkupById] at hvalid ⊢
  split at hvalid
  · rename_i g hg
    split at hvalid
    · rename_i hmatch
      rw [if_pos hmatch]
      exact ⟨rfl, g, hg, hmatch.2⟩
    · cases hvalid
  · cases hvalid

theorem Ok.changeFound (h : Ok seqnum t) {type : GrpType} {f : Data A → Data A}
    (hflags : ∀ d, (f d).grpFlags = d.grpFlags) (hcur : ∀ d, (f d).grpCurAssoc = d.grpCurAssoc)
    (hlist : ∀ d, (f d).grpAssocList = d.grpAssocList) : Ok seqnum (changeFound t id type f) := by
  rw [GrpReuse.changeFound]
  split
  · rename_i hfound
    obtain ⟨-, g, hg, -, -, hactive⟩ := grpLkupById_found t hfound
    exact h.setData hg (.inl hactive) hflags hcur hlist
  · exact h

/-! ### States change -/

theorem grp_setState_of_ne (hj : j ≠ i) (next : GrpState) : (t.setState i next).grp j = t.grp j := by
  show (GrpTable.setState t.tbl i next).assocGrpVector[j]? = _
  rw [GrpTable.setState]
  split
  · exact List.getElem?_modify_ne _ _ (Ne.symm hj)
  · exact List.getElem?_modify_ne _ _ (Ne.symm hj)

theorem grp_setState (hg : t.grp i = some g) {next : GrpState} (hnext : next ≠ .closed) :
    (t.setState i next).grp i = some { g with curState := next } := by
  have hg' : t.tbl.assocGrpVector[i]? = some g := hg
  show (GrpTable.setState t.tbl i next).assocGrpVector[i]? = _
  rw [GrpTable.setState, if_neg hnext, Tbl.modify, List.getElem?_modify_eq, hg']
  rfl

theorem grp_setState_closed (hg : t.grp i = some g) :
    (t.setState i .closed).grp i = some
      { grpId := (genLocalId t.tbl i).1, curState := .closed, born := t.tbl.issued.length } := by
  have hg' : t.tbl.assocGrpVector[i]? = some g := hg
  show (grpDealloc t.tbl i).assocGrpVector[i]? = _
  rw [grpDealloc, List.getElem?_modify_eq, hg']
  rfl

theorem inv_setState (h : Inv seqnum t.tbl) (hg : t.grp i = some g) (next : GrpState) :
    Inv seqnum (t.setState i next).tbl :=
  h.setState (List.getElem?_eq_some_iff.mp hg).1 next

/-- The last association that has the identifier gives it up, and the group is closed. -/
theorem Ok.close (h : Ok seqnum t) (hg : t.grp i = some g) (ha : t.assocGrpId a = g.grpId)
    (hone : ∀ b, t.assocGrpId b = g.grpId → b = a) :
    Ok seqnum ((t.setAssoc a .clear).setState i .closed) := by
  have hinv : Inv seqnum ((t.setAssoc a .clear).setState i .closed).tbl :=
    inv_setState (t := t.setAssoc a .clear) h.inv hg .closed
  have hg' := grp_setState_closed (t := t.setAssoc a .clear) hg
  obtain ⟨hvalid, hindex⟩ := names hinv hg'
  have hids : ∀ b, b ≠ a → Function.update t.assocGrpId a .clear b = t.assocGrpId b :=
    fun b hb => Function.update_of_ne hb _ _
  have hself : Function.update t.assocGrpId a .clear a = .clear := Function.update_self _ _ _
  -- the association that leaves was the last one with the identifier
  have hnone : ∀ b, Function.update t.assocGrpId a .clear b ≠ g.grpId := by
    intro b hb
    by_cases hba : b = a
    · rw [hba, hself, ← ha] at hb
      rw [ha] at hb
      have hv := (names h.inv hg).1
      rw [← hb] at hv
      cases hv
    · rw [hids b hba] at hb
      exact hba (hone b hb)
  refine h.change hg hinv ?_ hg' ?_ ?_ fun b hb => absurd hb (hnone b)
  · intro j hj
    refine ⟨grp_setState_of_ne (t := t.setAssoc a .clear) hj _, ?_⟩
    exact Function.update_of_ne hj _ _
  · intro b
    by_cases hb : b = a
    · subst hb
      exact .inr ⟨.inl ha, .inr (congrArg LocalId.valid hself)⟩
    · exact .inl (hids b hb)
  · have hdata : ((t.setAssoc a .clear).setState i .closed).data i = {} := Function.update_self _ _ _
    rw [hdata]
    refine ⟨fun _ => rfl, fun hc => absurd rfl hc, ?_, rfl, List.nodup_nil, ?_⟩
    · intro b hb
      cases hb
    · -- the identifier is new
      intro b hb
      exfalso
      have hb' : Function.update t.assocGrpId a .clear b = (genLocalId t.tbl i).1 := hb
      by_cases hba : b = a
      · have hnew : (genLocalId t.tbl i).1.valid = true := hvalid
        rw [hba, hself] at hb'
        rw [← hb'] at hnew
        cases hnew
      · rw [hids b hba] at hb'
        obtain ⟨g₁, hg₁, hid₁⟩ := h.known b (hb' ▸ hvalid)
        have hi : (t.assocGrpId b).idIndex.toNat = i := hb' ▸ hindex
        rw [hi, hg] at hg₁
        cases hg₁
        exact hba (hone b hid₁.symm)

theorem Ok.addAssoc (h : Ok seqnum t) (hrun : addAssoc t a id = some t') : Ok seqnum t' := by
  obtain ⟨g, hg, hrun⟩ := Option.bind_eq_some_iff.mp hrun
  split at hrun
  · rename_i hguard
    obtain ⟨rfl, hfree, hstate⟩ := hguard
    cases hrun
    let t₁ : Groups A := (t.setAssoc a g.grpId).setData g.grpId.idIndex.toNat fun d => { d with
      grpCurAssoc := d.grpCurAssoc + 1, grpAssocList := a :: d.grpAssocList }
    have hslot := h.slots _ g hg
    have hids : ∀ b, b ≠ a → Function.update t.assocGrpId a g.grpId b = t.assocGrpId b :=
      fun b hb => Function.update_of_ne hb _ _
    have hself : Function.update t.assocGrpId a g.grpId a = g.grpId := Function.update_self _ _ _
    have hnew : ∀ b, t.assocGrpId b = g.grpId → b ≠ a := by
      rintro b hb rfl
      rw [hb, (names h.inv hg).1] at hfree
      cases hfree
    refine h.change hg (inv_setState (t := t₁) h.inv hg .active) ?_
      (grp_setState (t := t₁) hg (by decide)) ?_ ?_ fun _ _ => rfl
    · intro j hj
      refine ⟨grp_setState_of_ne (t := t₁) hj _, ?_⟩
      exact Function.update_of_ne hj _ _
    · intro b
      by_cases hb : b = a
      · subst hb
        exact .inr ⟨.inr hfree, .inl hself⟩
      · exact .inl (hids b hb)
    · have hdata : (t₁.setState g.grpId.idIndex.toNat .active).data g.grpId.idIndex.toNat =
          { t.data g.grpId.idIndex.toNat with
            grpCurAssoc := (t.data g.grpId.idIndex.toNat).grpCurAssoc + 1
            grpAssocList := a :: (t.data g.grpId.idIndex.toNat).grpAssocList } :=
        Function.update_self _ _ _
      rw [hdata]
      refine ⟨?_, ?_, ?_, ?_, ?_, ?_⟩
      · rintro (hs | hs) <;> cases hs
      · intro _ _
        refine hslot.kind ?_ ?_
        · rcases hstate with hs | hs <;> rw [hs] <;> decide
        · rcases hstate with hs | hs <;> rw [hs] <;> decide
      · intro b hb
        show Function.update t.assocGrpId a g.grpId b = g.grpId
        rcases List.mem_cons.mp hb with rfl | hb
        · exact hself
        · have hb' := hslot.members b hb
          rw [hids b (hnew b hb'), hb']
      · exact congrArg (· + 1) hslot.count
      · exact List.nodup_cons.mpr ⟨fun ha => hnew a (hslot.members a ha) rfl, hslot.nodup⟩
      · intro b hb
        by_cases hba : b = a
        · rw [hba]
          exact .inl ⟨List.mem_cons_self, rfl⟩
        · have hb' : Function.update t.assocGrpId a g.grpId b = g.grpId := hb
          rw [hids b hba] at hb'
          -- a group that waits for its calls takes no association
          rcases hslot.kept b hb' with ⟨hin, -⟩ | ⟨hwait, -⟩
          · exact .inl ⟨List.mem_cons_of_mem _ hin, rfl⟩
          · rw [hwait] at hstate
            rcases hstate with hs | hs <;> cases hs
  · cases hrun

theorem Ok.noCalls (h : Ok seqnum t) (hg : t.grp i = some g) (ha : t.assocGrpId a = g.grpId)
    (hrun : noCalls t i a = some t') : Ok seqnum t' := by
  rw [GrpReuse.noCalls, hg] at hrun
  change (if _ then some _ else none) = some t' at hrun
  split at hrun
  · rename_i hguard
    cases hrun
    refine h.close hg ha fun b hb => ?_
    rcases (h.slots i g hg).kept a ha with ⟨-, hs⟩ | ⟨-, -, hone⟩
    · rw [hguard.1] at hs
      cases hs
    · exact hone b hb
  · cases hrun

theorem Ok.postNoCalls (h : Ok seqnum t) (hg : t.grp i = some g)
    (ha : g.curState = .callWait → t.assocGrpId a = g.grpId)
    (hrun : postNoCalls t i a = some t') : Ok seqnum t' := by
  rw [GrpReuse.postNoCalls, hg] at hrun
  change (if _ then _ else _) = some t' at hrun
  split at hrun
  · rename_i hguard
    exact h.noCalls hg (ha hguard.2.2) hrun
  · cases hrun
    exact h

/-- The last association leaves the group of a server, and keeps the identifier. -/
theorem Ok.callWait (h : Ok seqnum t) (hg : t.grp i = some g) (hactive : g.curState = .active)
    (hlist : (t.data i).grpAssocList = [a]) :
    Ok seqnum ((t.setData i fun d => { d with
      grpCurAssoc := d.grpCurAssoc - 1, grpAssocList := d.grpAssocList.erase a }).setState i
        .callWait) := by
  let t₁ : Groups A := t.setData i fun d => { d with
    grpCurAssoc := d.grpCurAssoc - 1, grpAssocList := d.grpAssocList.erase a }
  have hslot := h.slots i g hg
  have hcount := hslot.count
  rw [hlist, List.length_singleton] at hcount
  have hdata : (t₁.setState i .callWait).data i = { t.data i with
      grpCurAssoc := (t.data i).grpCurAssoc - 1
      grpAssocList := (t.data i).grpAssocList.erase a } := Function.update_self _ _ _
  have hnil : (t.data i).grpAssocList.erase a = [] := by rw [hlist, List.erase_cons_head]
  have hone : ∀ b, t.assocGrpId b = g.grpId → b = a := by
    intro b hb
    rcases hslot.kept b hb with ⟨hin, -⟩ | ⟨hs, -⟩
    · rw [hlist] at hin
      exact List.mem_singleton.mp hin
    · rw [hactive] at hs
      cases hs
  refine h.change hg (inv_setState (t := t₁) h.inv hg .callWait) ?_
    (grp_setState (t := t₁) hg (by decide)) (fun b => .inl rfl) ?_ fun _ _ => rfl
  · exact fun j hj => ⟨grp_setState_of_ne (t := t₁) hj _, Function.update_of_ne hj _ _⟩
  · rw [hdata, hcount, hnil]
    refine ⟨?_, fun _ _ => hslot.kind ?_ ?_, ?_, rfl, List.nodup_nil, ?_⟩
    · rintro (hs | hs) <;> cases hs
    · rw [hactive]
      decide
    · rw [hactive]
      decide
    · intro b hb
      cases hb
    · intro b hb
      refine .inr ⟨rfl, rfl, fun c hc => ?_⟩
      rw [hone b hb]
      exact hone c hc

/-- An association leaves, and others stay. -/
theorem Ok.leave (h : Ok seqnum t) (hg : t.grp i = some g) (hactive : g.curState = .active)
    (ha : t.assocGrpId a = g.grpId) (hin : a ∈ (t.data i).grpAssocList) :
    Ok seqnum (((t.setAssoc a .clear).setData i fun d => { d with
      grpCurAssoc := d.grpCurAssoc - 1, grpAssocList := d.grpAssocList.erase a }).setState i
        .active) := by
  let t₁ : Groups A := (t.setAssoc a .clear).setData i fun d => { d with
    grpCurAssoc := d.grpCurAssoc - 1, grpAssocList := d.grpAssocList.erase a }
  have hslot := h.slots i g hg
  have hdata : (t₁.setState i .active).data i = { t.data i with
      grpCurAssoc := (t.data i).grpCurAssoc - 1
      grpAssocList := (t.data i).grpAssocList.erase a } := Function.update_self _ _ _
  have hids : ∀ b, b ≠ a → Function.update t.assocGrpId a .clear b = t.assocGrpId b :=
    fun b hb => Function.update_of_ne hb _ _
  have hself : Function.update t.assocGrpId a .clear a = .clear := Function.update_self _ _ _
  refine h.change hg (inv_setState (t := t₁) h.inv hg .active) ?_
    (grp_setState (t := t₁) hg (by decide)) ?_ ?_ fun _ _ => rfl
  · exact fun j hj => ⟨grp_setState_of_ne (t := t₁) hj _, Function.update_of_ne hj _ _⟩
  · intro b
    by_cases hb : b = a
    · subst hb
      exact .inr ⟨.inl ha, .inr (congrArg LocalId.valid hself)⟩
    · exact .inl (hids b hb)
  · rw [hdata]
    refine ⟨?_, fun _ _ => hslot.kind ?_ ?_, ?_, ?_, hslot.nodup.erase a, ?_⟩
    · rintro (hs | hs) <;> cases hs
    · rw [hactive]
      decide
    · rw [hactive]
      decide
    · intro b hb
      obtain ⟨hba, hb⟩ := (hslot.nodup.mem_erase_iff).mp hb
      exact (hids b hba).trans (hslot.members b hb)
    · show (t.data i).grpCurAssoc - 1 = ((t.data i).grpAssocList.erase a).length
      rw [hslot.count, List.length_erase_of_mem hin]
    · intro b hb
      have hb' : Function.update t.assocGrpId a .clear b = g.grpId := hb
      have hba : b ≠ a := by
        rintro rfl
        have hv := (names h.inv hg).1
        rw [← hb', hself] at hv
        cases hv
      rw [hids b hba] at hb'
      rcases hslot.kept b hb' with ⟨hin, -⟩ | ⟨hs, -⟩
      · exact .inl ⟨hslot.nodup.mem_erase_iff.mpr ⟨hba, hin⟩, rfl⟩
      · rw [hactive] at hs
        cases hs

theorem Ok.remAssoc (h : Ok seqnum t) (hrun : remAssoc t a = some t') : Ok seqnum t' := by
  rw [GrpReuse.remAssoc] at hrun
  split at hrun
  · cases hrun
    exact h
  · rename_i hvalid
    rw [Bool.not_eq_false] at hvalid
    obtain ⟨g, hg, hrun⟩ := Option.bind_eq_some_iff.mp hrun
    obtain ⟨type, htype, hrun⟩ := Option.bind_eq_some_iff.mp hrun
    split at hrun
    · rename_i hactive
      have hslot := h.slots _ g hg
      have ha : t.assocGrpId a = g.grpId := by
        obtain ⟨g₁, hg₁, hid₁⟩ := h.known a hvalid
        rw [hg] at hg₁
        cases hg₁
        exact hid₁.symm
      have hin : a ∈ (t.data (t.assocGrpId a).idIndex.toNat).grpAssocList := by
        rcases hslot.kept a ha with ⟨hin, -⟩ | ⟨hs, -⟩
        · exact hin
        · rw [hactive] at hs
          cases hs
      by_cases hlast : (t.data (t.assocGrpId a).idIndex.toNat).grpCurAssoc = 1
      · have hlist : (t.data (t.assocGrpId a).idIndex.toNat).grpAssocList = [a] := by
          obtain ⟨b, hb⟩ := List.length_eq_one_iff.mp (hslot.count.symm.trans hlast)
          rw [hb, List.mem_singleton] at hin
          rw [hb, hin]
        cases type with
        | client =>
          -- the group is closed, whatever its fields were
          have hnext : decrNext .client (t.data (t.assocGrpId a).idIndex.toNat).grpCurAssoc =
              .closed := if_pos hlast
          rw [hnext] at hrun
          have hclose := h.close hg ha fun b hb => by
            rcases hslot.kept b hb with ⟨hin, -⟩ | ⟨hs, -⟩
            · rw [hlist] at hin
              exact List.mem_singleton.mp hin
            · rw [hactive] at hs
              cases hs
          have hsame : ∀ f : Data A → Data A, ((t.setAssoc a .clear).setData
              (t.assocGrpId a).idIndex.toNat f).setState (t.assocGrpId a).idIndex.toNat .closed =
                (t.setAssoc a .clear).setState (t.assocGrpId a).idIndex.toNat .closed := by
            intro f
            rw [Groups.setState, Groups.setState, if_pos rfl, if_pos rfl]
            simp only [Groups.setData, Function.update_idem]
          have hpost : GrpReuse.postNoCalls ((t.setAssoc a .clear).setState
              (t.assocGrpId a).idIndex.toNat .closed) (t.assocGrpId a).idIndex.toNat a = some t' := by
            rw [← hsame fun d => { d with
              grpCurAssoc := d.grpCurAssoc - 1, grpAssocList := d.grpAssocList.erase a }]
            exact hrun
          exact hclose.postNoCalls (grp_setState_closed (t := t.setAssoc a .clear) hg)
            (fun hs => by cases hs) hpost
        | server =>
          have hnext : decrNext .server (t.data (t.assocGrpId a).idIndex.toNat).grpCurAssoc =
              .callWait := if_pos hlast
          rw [hnext] at hrun
          have hwait := h.callWait hg hactive hlist
          exact hwait.postNoCalls (grp_setState (t := t.setData _ _) hg (by decide)) (fun _ => ha)
            hrun
      · have hnext : decrNext type (t.data (t.assocGrpId a).idIndex.toNat).grpCurAssoc = .active := by
          cases type
          · exact if_neg hlast
          · exact if_neg hlast
        rw [hnext] at hrun
        have hleave := h.leave hg hactive ha hin
        exact hleave.postNoCalls
          (grp_setState (t := (t.setAssoc a .clear).setData _ _) hg (by decide))
          (fun hs => by cases hs) hrun
    · cases hrun

/-! ### Allocation -/

/-- New entries are filled with zeros. -/
theorem iterate_grpInit (tbl : Tbl) (n : ℕ) : ∃ l, (Nat.iterate grpInit n tbl).assocGrpVector =
    tbl.assocGrpVector ++ l ∧ l.length = n ∧ ∀ g ∈ l, g.curState = .zeroed := by
  induction n with
  | zero => exact ⟨[], (List.append_nil _).symm, rfl, fun g hg => by cases hg⟩
  | succ n ih =>
    obtain ⟨l, hvec, hlen, hzero⟩ := ih
    obtain ⟨g, hinit, hg⟩ : ∃ g, (grpInit (Nat.iterate grpInit n tbl)).assocGrpVector =
        (Nat.iterate grpInit n tbl).assocGrpVector ++ [g] ∧ g.curState = .zeroed := ⟨_, rfl, rfl⟩
    rw [Function.iterate_succ_apply']
    refine ⟨l ++ [g], ?_, ?_, ?_⟩
    · rw [hinit, hvec, List.append_assoc]
    · rw [List.length_append, hlen, List.length_singleton]
    · intro g' hg'
      rcases List.mem_append.mp hg' with hg' | hg'
      · exact hzero g' hg'
      · rw [List.mem_singleton.mp hg', hg]

/-- A larger table. -/
theorem Ok.create {tbl : Tbl} (h : Ok seqnum t) (htbl : grpCreate t.tbl = some tbl) :
    Ok seqnum { t with tbl := tbl } ∧ ∃ g, tbl.assocGrpVector[t.tbl.grpCount]? = some g ∧
      g.curState = .zeroed := by
  have hinv : Inv seqnum tbl := h.inv.grpCreate htbl
  rw [grpCreate] at htbl
  split at htbl
  · cases htbl
    obtain ⟨l, hvec, hlen, hzero⟩ := iterate_grpInit t.tbl grpAllocSize
    have hold : ∀ i g, t.grp i = some g →
        (Nat.iterate grpInit grpAllocSize t.tbl).assocGrpVector[i]? = some g := by
      intro i g hg
      have hg' : t.tbl.assocGrpVector[i]? = some g := hg
      rw [hvec, List.getElem?_append_left (List.getElem?_eq_some_iff.mp hg').1]
      exact hg'
    refine ⟨⟨hinv, ?_, ?_, ?_⟩, ?_⟩
    · intro i g hg
      cases hi : t.grp i with
      | some g₁ =>
        have hg' := hold i g₁ hi
        rw [show (Nat.iterate grpInit grpAllocSize t.tbl).assocGrpVector[i]? = some g from hg] at hg'
        cases hg'
        exact h.slots i g hi
      | none =>
        have hlast : g.curState = .zeroed := by
          have hg' : (Nat.iterate grpInit grpAllocSize t.tbl).assocGrpVector[i]? = some g := hg
          have hi' : t.tbl.assocGrpVector[i]? = none := hi
          rw [hvec, List.getElem?_append_right (List.getElem?_eq_none_iff.mp hi')] at hg'
          exact hzero g (List.mem_of_getElem? hg')
        have hdata :
            ({ t with tbl := Nat.iterate grpInit grpAllocSize t.tbl } : Groups A).data i = {} :=
          h.beyond i hi
        rw [hdata]
        refine ⟨fun _ => rfl, fun _ hz => absurd hlast hz, ?_, rfl, List.nodup_nil, ?_⟩
        · intro a ha
          cases ha
        -- no association has the identifier of an entry that was not there
        intro a ha
        exfalso
        have ha' : t.assocGrpId a = g.grpId := ha
        obtain ⟨hvalid, hindex⟩ := names (t := { t with
          tbl := Nat.iterate grpInit grpAllocSize t.tbl }) hinv hg
        obtain ⟨g₁, hg₁, -⟩ := h.known a (ha' ▸ hvalid)
        rw [ha', hindex, hi] at hg₁
        cases hg₁
    · intro i hi
      refine h.beyond i ?_
      cases hi' : t.grp i with
      | none => rfl
      | some g =>
        have hg' := hold i g hi'
        rw [show (Nat.iterate grpInit grpAllocSize t.tbl).assocGrpVector[i]? = none from hi] at hg'
        cases hg'
    · intro a ha
      obtain ⟨g, hg, hid⟩ := h.known a ha
      exact ⟨g, hold _ g hg, hid⟩
    · cases l with
      | nil => cases hlen
      | cons g l =>
        refine ⟨g, ?_, hzero g List.mem_cons_self⟩
        rw [hvec, Tbl.grpCount, List.getElem?_append_right le_rfl, Nat.sub_self]
        rfl
  · cases htbl

/-- A group just allocated: all its fields are those of a new one but for what was given, its
identifier is the last one made, and no association has it. -/
structure NewGroup (t : Groups A) (id : LocalId) (rpcAddr : Option A) (type : GrpType)
    (remId : BitVec 32) : Prop where
  grp : ∃ g, t.grp id.idIndex.toNat = some g ∧ g.grpId = id ∧ g.curState = .opened ∧
    ∀ m, t.tbl.issued[m]? = some id → m = g.born ∨ m + 65535 ≤ g.born
  data : t.data id.idIndex.toNat =
    { grpFlags := bits type, grpAddress := rpcAddr, grpRemid := remId }
  alone : ∀ a, t.assocGrpId a ≠ id

/-- An identifier that was made twice was made a round of the numbers apart. -/
theorem Ok.born (h : Ok seqnum t) (hg : t.grp i = some g) {m : ℕ}
    (hm : t.tbl.issued[m]? = some g.grpId) : m = g.born ∨ m + 65535 ≤ g.born := by
  obtain ⟨hborn, hindex⟩ := h.inv.born i g hg
  have hle := h.inv.last i g hg m g.grpId hm hindex
  rcases Nat.eq_or_lt_of_le hle with heq | hlt
  · exact .inl heq
  · have hseq := (h.inv.issued m _ hm).symm.trans (h.inv.issued g.born _ hborn)
    exact .inr (add_le_of_seqOf_eq hseq hlt)

/-- A blank entry becomes a new group. -/
theorem Ok.open (h : Ok seqnum t) (hg : t.grp i = some g)
    (hblank : g.curState = .closed ∨ g.curState = .zeroed) (rpcAddr : Option A) (type : GrpType)
    (remId : BitVec 32)
    (ht' : t' = ({ t with tbl := t.tbl.modify i fun g =>
      { g with grpFlags := some type, curState := .opened } } : Groups A).setData i fun d =>
        { d with
          grpAddress := if rpcAddr.isSome then rpcAddr else d.grpAddress
          grpSecaddr := if rpcAddr.isSome then none else d.grpSecaddr
          grpFlags := d.grpFlags ||| bits type
          grpRemid := remId }) :
    Ok seqnum t' ∧ t'.grp i = some { g with grpFlags := some type, curState := .opened } ∧
      NewGroup t' g.grpId rpcAddr type remId := by
  have hslot := h.slots i g hg
  have hempty := hslot.blank hblank
  have hg₀ : t.tbl.assocGrpVector[i]? = some g := hg
  have hg' : t'.grp i = some { g with grpFlags := some type, curState := .opened } := by
    rw [ht']
    show (t.tbl.modify i _).assocGrpVector[i]? = _
    rw [Tbl.modify, List.getElem?_modify_eq, hg₀]
    rfl
  have hdata : t'.data i = { grpFlags := bits type, grpAddress := rpcAddr, grpRemid := remId } := by
    have hself : t'.data i = { t.data i with
        grpAddress := if rpcAddr.isSome then rpcAddr else (t.data i).grpAddress
        grpSecaddr := if rpcAddr.isSome then none else (t.data i).grpSecaddr
        grpFlags := (t.data i).grpFlags ||| bits type
        grpRemid := remId } := by
      rw [ht']
      exact Function.update_self _ _ _
    have hflags : ({} : Data A).grpFlags ||| bits type = bits type := BitVec.zero_or
    rw [hself, hempty, hflags]
    cases rpcAddr with
    | none => rfl
    | some addr => rfl
  have hnone : ∀ a, t'.assocGrpId a ≠ g.grpId := by
    intro a ha
    rw [ht'] at ha
    rcases hslot.kept a ha with ⟨-, hs⟩ | ⟨hs, -⟩
    · rw [hs] at hblank
      rcases hblank with hb | hb <;> cases hb
    · rw [hs] at hblank
      rcases hblank with hb | hb <;> cases hb
  have hok : Ok seqnum t' := by
    refine h.change hg ?_ ?_ hg' (fun a => .inl ?_) ?_ fun a _ => rfl
    · rw [ht']
      exact h.inv.modify i fun g => ⟨rfl, rfl⟩
    · intro j hj
      rw [ht']
      exact ⟨List.getElem?_modify_ne _ _ (Ne.symm hj), Function.update_of_ne hj _ _⟩
    · rw [ht']
      rfl
    · rw [hdata]
      refine ⟨?_, fun _ _ => ⟨type, rfl, rfl⟩, ?_, rfl, List.nodup_nil, ?_⟩
      · rintro (hs | hs) <;> cases hs
      · intro a ha
        cases ha
      · exact fun a ha => absurd ha (hnone a)
  obtain ⟨-, hindex⟩ := names h.inv hg
  refine ⟨hok, hg', ?_, ?_, hnone⟩
  · rw [hindex]
    exact ⟨_, hg', rfl, rfl, fun m hm => hok.born hg' hm⟩
  · rw [hindex]
    exact hdata

/-- Allocation fails and changes nothing but the size of the table, or opens a blank entry. -/
theorem Ok.grpAlloc (h : Ok seqnum t) {rpcAddr : Option A} {copied : Bool} {type : GrpType}
    {remId : BitVec 32} (hrun : grpAlloc t rpcAddr copied type remId = some (t', id)) :
    Ok seqnum t' ∧ (id.valid = true → NewGroup t' id rpcAddr type remId) := by
  rw [GrpReuse.grpAlloc] at hrun
  cases hfind : t.tbl.assocGrpVector.findIdx? fun g => g.curState = .closed with
  | some i =>
    obtain ⟨hi, hclosed, -⟩ := List.findIdx?_eq_some_iff_getElem.mp hfind
    rw [decide_eq_true_eq] at hclosed
    have hg : t.grp i = some t.tbl.assocGrpVector[i] := List.getElem?_eq_getElem hi
    rw [hfind] at hrun
    dsimp only [Option.getD_some, Option.isSome_some] at hrun
    split at hrun
    · -- the address cannot be copied
      have hsame : ({ t with tbl := t.tbl } : Groups A).setData i (fun d =>
          { d with grpAddress := none, grpSecaddr := none }) = t := by
        have hempty := (h.slots i _ hg).blank (.inl hclosed)
        have hdata : Function.update t.data i { t.data i with
            grpAddress := none, grpSecaddr := none } = t.data := by
          rw [hempty, Function.update_eq_self_iff, hempty]
        rw [Groups.setData]
        exact congrArg (fun data => ({ t with data := data } : Groups A)) hdata
      rw [if_pos rfl, Option.bind_eq_bind, Option.bind_some, hsame] at hrun
      cases hrun
      exact ⟨h, fun hv => by cases hv⟩
    · have halloc : GrpTable.grpAlloc t.tbl type = some (t.tbl.modify i fun g =>
          { g with grpFlags := some type, curState := .opened }) := by
        rw [GrpTable.grpAlloc, hfind]
      rw [halloc, Option.bind_eq_bind, Option.bind_some] at hrun
      obtain ⟨hok, hg', hnew⟩ := h.open hg (.inl hclosed) rpcAddr type remId rfl
      obtain ⟨g₁, hg₁, hrun⟩ := Option.bind_eq_some_iff.mp hrun
      have hgrp : (t.tbl.modify i fun g => { g with
          grpFlags := some type, curState := .opened }).assocGrpVector[i]? = some
            { t.tbl.assocGrpVector[i] with grpFlags := some type, curState := .opened } := hg'
      rw [hgrp] at hg₁
      cases hg₁
      cases hrun
      exact ⟨hok, fun _ => hnew⟩
  | none =>
    rw [hfind] at hrun
    dsimp only [Option.getD_none, Option.isSome_none] at hrun
    have hbeyond : t.data t.tbl.grpCount = {} := h.beyond _ (List.getElem?_eq_none le_rfl)
    split at hrun
    · rw [if_neg Bool.false_ne_true] at hrun
      obtain ⟨tbl, htbl, hrun⟩ := Option.bind_eq_some_iff.mp hrun
      have hsame : ({ t with tbl := tbl } : Groups A).setData t.tbl.grpCount (fun d =>
          { d with grpAddress := none, grpSecaddr := none }) = { t with tbl := tbl } := by
        have hdata : Function.update t.data t.tbl.grpCount { t.data t.tbl.grpCount with
            grpAddress := none, grpSecaddr := none } = t.data := by
          rw [hbeyond, Function.update_eq_self_iff, hbeyond]
        rw [Groups.setData]
        exact congrArg (fun data => ({ t with tbl := tbl, data := data } : Groups A)) hdata
      rw [hsame] at hrun
      cases hrun
      exact ⟨(h.create htbl).1, fun hv => by cases hv⟩
    · obtain ⟨tbl', halloc, hrun⟩ := Option.bind_eq_some_iff.mp hrun
      rw [GrpTable.grpAlloc, hfind] at halloc
      obtain ⟨tbl, htbl, rfl⟩ := Option.map_eq_some_iff.mp halloc
      -- the first of the new entries
      obtain ⟨hcreate, g, hg, hzero⟩ := h.create htbl
      obtain ⟨hok, hg', hnew⟩ := hcreate.open hg (.inr hzero) rpcAddr type remId rfl
      obtain ⟨g₁, hg₁, hrun⟩ := Option.bind_eq_some_iff.mp hrun
      have hgrp : (tbl.modify t.tbl.grpCount fun g => { g with
          grpFlags := some type, curState := .opened }).assocGrpVector[t.tbl.grpCount]? = some
            { g with grpFlags := some type, curState := .opened } := hg'
      rw [hgrp] at hg₁
      cases hg₁
      cases hrun
      exact ⟨hok, fun _ => hnew⟩

/-! ### Runs -/

theorem Ok.start (seqnum : BitVec 16) : Ok seqnum (Groups.start seqnum : Groups A) := by
  have hempty : ∀ {α : Type} {n : ℕ} {a : α}, ([] : List α)[n]? ≠ some a := by
    intro α n a ha
    cases ha
  have hinv : Inv seqnum { seqnum := seqnum } := by
    refine ⟨Nat.two_pow_pos 16, fun n id hn => absurd hn hempty, ?_,
      fun i g hi => absurd hi hempty, fun i g hi => absurd hi hempty⟩
    rintro n rfl
    rfl
  have hnone : Ok seqnum (⟨{ seqnum := seqnum }, fun _ => {}, fun _ => .clear⟩ : Groups A) := by
    refine ⟨hinv, fun i g hg => absurd hg hempty, fun _ _ => rfl, ?_⟩
    intro a ha
    cases ha
  have hcreate : grpCreate { seqnum := seqnum } =
      some (Nat.iterate grpInit grpAllocSize { seqnum := seqnum }) :=
    if_pos (show 0 + grpAllocSize < 2 ^ 16 by decide)
  exact (hnone.create hcreate).1

theorem ok_step (h : Ok seqnum t) {e : Event A} (hrun : step t e = some t') : Ok seqnum t' := by
  cases e with
  | alloc rpcAddr copied type remId =>
    obtain ⟨⟨t₁, id⟩, halloc, rfl⟩ := Option.map_eq_some_iff.mp hrun
    exact (h.grpAlloc halloc).1
  | addAssoc a id => exact h.addAssoc hrun
  | remAssoc a => exact h.remAssoc hrun
  | pushCall a =>
    cases hrun
    rw [pushCall]
    split
    · rename_i hvalid
      obtain ⟨g, hg, -, hstate⟩ := h.ofAssoc hvalid
      exact h.setData hg hstate (fun _ => rfl) (fun _ => rfl) fun _ => rfl
    · exact h
  | popCall a =>
    change popCall t a = some t' at hrun
    rw [popCall] at hrun
    split at hrun
    · rename_i hvalid
      obtain ⟨g, hg, hid, hstate⟩ := h.ofAssoc hvalid
      have hdata := h.setData (f := fun d => { d with grpCallcnt := d.grpCallcnt - 1 }) hg hstate
        (fun _ => rfl) (fun _ => rfl) fun _ => rfl
      exact hdata.postNoCalls (g := g) hg (fun _ => hid.symm) hrun
    · cases hrun
      exact h
  | maint id =>
    cases hrun
    exact h.changeFound (fun _ => rfl) (fun _ => rfl) fun _ => rfl
  | stopMaint id =>
    cases hrun
    exact h.changeFound (fun _ => rfl) (fun _ => rfl) fun _ => rfl
  | mon id rundown =>
    cases hrun
    exact h.changeFound (fun _ => rfl) (fun _ => rfl) fun _ => rfl
  | stopMon id =>
    cases hrun
    exact h.changeFound (fun _ => rfl) (fun _ => rfl) fun _ => rfl
  | secaddr a addr =>
    cases hrun
    rw [secaddr]
    split
    · rename_i hvalid
      obtain ⟨g, hg, -, hstate⟩ := h.ofAssoc hvalid
      exact h.setData hg hstate (fun _ => rfl) (fun _ => rfl) fun _ => rfl
    · exact h

/-- An open group that has the identifier and the type, and matches; an identifier that was made for
another life of its entry is the same only if the numbers have gone round. -/
def FoundGrp (t : Groups A) (id : LocalId) (type : GrpType) (p : Data A → Prop) : Prop :=
  ∃ g, t.grp id.idIndex.toNat = some g ∧ g.grpId = id ∧ g.curState = .active ∧
    (t.data id.idIndex.toNat).grpFlags = bits type ∧ p (t.data id.idIndex.toNat) ∧
    ∀ m, t.tbl.issued[m]? = some id → m = g.born ∨ m + 65535 ≤ g.born

theorem Ok.found (h : Ok seqnum t) (hg : t.grp i = some g) {type : GrpType} {p : Data A → Prop}
    (hflags : (t.data i).grpFlags &&& bits type ≠ 0) (hactive : g.curState = .active)
    (hp : p (t.data i)) : FoundGrp t g.grpId type p := by
  obtain ⟨-, hindex⟩ := names h.inv hg
  obtain ⟨type', -, hbits⟩ := (h.slots i g hg).kind (by rw [hactive]; decide)
    (by rw [hactive]; decide)
  have htype : bits type' = bits type := by
    rw [hbits] at hflags
    revert hflags
    cases type <;> cases type' <;> decide
  refine ⟨g, ?_, rfl, hactive, ?_, ?_, fun m hm => h.born hg hm⟩
  · rwa [hindex]
  · rw [hindex, hbits, htype]
  · rwa [hindex]

theorem Ok.first (h : Ok seqnum t) {type : GrpType} {p : Data A → Bool}
    (hvalid : (t.first type p).valid = true) :
    FoundGrp t (t.first type p) type fun d => p d = true := by
  rw [Groups.first] at hvalid ⊢
  cases hfind : (List.range t.tbl.grpCount).find? fun i =>
      (t.grp i).any fun g => (t.data i).grpFlags &&& bits type ≠ 0 ∧ g.curState = .active ∧
        p (t.data i) = true with
  | none =>
    rw [hfind] at hvalid
    cases hvalid
  | some i =>
    have hmatch := List.find?_some hfind
    cases hg : t.grp i with
    | none =>
      rw [hg] at hmatch
      cases hmatch
    | some g =>
      rw [hg, Option.any_some, decide_eq_true_eq] at hmatch
      have hres : ((t.grp i).map Grp.grpId).getD .clear = g.grpId := by
        rw [hg]
        rfl
      show FoundGrp t (((t.grp i).map Grp.grpId).getD .clear) type _
      rw [hres]
      exact h.found (p := fun d => p d = true) hg hmatch.1 hmatch.2.1 hmatch.2.2

/-- What allocation gives, and what the lookups find. -/
structure CarriesNothing (compare : A → A → Bool) (t : Groups A) : Prop where
  alloc : ∀ rpcAddr copied type remId t' id, grpAlloc t rpcAddr copied type remId = some (t', id) →
    id.valid = true → NewGroup t' id rpcAddr type remId
  byId : ∀ id type, (grpLkupById t id type).valid = true →
    grpLkupById t id type = id ∧ FoundGrp t id type fun _ => True
  byAddr : ∀ rpcAddr type, (grpLkupByAddr compare t rpcAddr type).valid = true →
    FoundGrp t (grpLkupByAddr compare t rpcAddr type) type fun d =>
      addrCompare compare rpcAddr d.grpAddress = true
  byRemid : ∀ remId type rpcAddr, (grpLkupByRemid compare t remId type rpcAddr).valid = true →
    FoundGrp t (grpLkupByRemid compare t remId type rpcAddr) type fun d =>
      d.grpRemid = remId ∧ addrCompare compare rpcAddr d.grpAddress = true

end GrpReuse

end Cn
