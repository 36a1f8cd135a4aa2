/-
The node table of a call (ernodtbl.c).

A node of the parameters has a number and an address.  A tree of arrays leads from the number
to the address and grows by a new root; a hash table of chained entries leads from the address
to the number and to the marks of what has been marshalled and unmarshalled.  The first entry of
a chain lies in the table itself, and entries are blanked rather than removed.

* `RootArray.lookup_eq`, `RootArray.register_eq` — the two walks down the tree as one map;
* `HashChain.find_modify`, `HashChain.find_insert` — what the changes of a chain do to a search.

The model's functions answer `none` when an array index lies outside of its array.
-/
import FreeDce.Lib.Radix

namespace Idl

open Radix hiding get set

/-! ### From numbers to addresses -/

/-- `rpc_ss_node_array_size`. -/
abbrev nodeArraySize : ℕ := 50

abbrev PtrArray := Tree nodeArraySize ℕ

/-- The root of the tree, `level + 1` arrays deep, with the number of places it maps. -/
structure RootArray where
  level : ℕ
  array : PtrArray level
  currentlyMapped : ℕ
  mapped_eq : currentlyMapped = nodeArraySize ^ (level + 1)

/-- A new root above the old one. -/
def RootArray.grown (root : RootArray) : RootArray where
  level := root.level + 1
  array := grow root.level root.array
  currentlyMapped := root.currentlyMapped * nodeArraySize
  mapped_eq := by rw [root.mapped_eq, pow_succ _ (root.level + 1)]

/-- `rpc_ss_expand_array`; the first argument bounds the recursion. -/
def expandArray : ℕ → (num : ℕ) → RootArray → Option RootArray
  | 0, _, _ => none
  | fuel + 1, num, root =>
    if root.grown.currentlyMapped < num then expandArray fuel num root.grown
    else some root.grown

/-- The loop of `rpc_ss_register_node_num`. -/
def registerWalk : (level : ℕ) → PtrArray level → (mapped num ptr : ℕ) → Option (PtrArray level)
  | 0, array, _, num, ptr => if num = 0 then none else put array (num - 1) ptr
  | level + 1, array, mapped, num, ptr => do
    let mapped := mapped / nodeArraySize
    let index := (num - 1) / mapped
    let child ← sub array index
    let child ← registerWalk level (child.getD (empty 0 level)) mapped (num - index * mapped) ptr
    put array index (some child)

/-- `rpc_ss_register_node_num`. -/
def registerNodeNum (root : RootArray) (num ptr : ℕ) : Option RootArray := do
  let root ← (if root.currentlyMapped < num then expandArray (num.log2 + 1) num root
    else some root)
  let array ← registerWalk root.level root.array root.currentlyMapped num ptr
  some { root with array := array }

/-- The loop of `rpc_ss_lookup_node_by_num`. -/
def lookupWalk : (level : ℕ) → PtrArray level → (mapped num : ℕ) → Option ℕ
  | 0, array, _, num => if num = 0 then none else sub array (num - 1)
  | level + 1, array, mapped, num => do
    let mapped := mapped / nodeArraySize
    let index := (num - 1) / mapped
    match ← sub array index with
    | none => some 0
    | some child => lookupWalk level child mapped (num - index * mapped)

/-- `rpc_ss_lookup_node_by_num` on the tree. -/
def RootArray.lookup (root : RootArray) (num : ℕ) : Option ℕ :=
  if num = 0 then some 0
  else if root.currentlyMapped < num then some 0
  else lookupWalk root.level root.array root.currentlyMapped num

/-- The address in the place of a number, `0` for `NULL`. -/
def RootArray.addr (root : RootArray) (num : ℕ) : ℕ :=
  if num = 0 ∨ root.currentlyMapped < num then 0 else Radix.get 0 root.level root.array (num - 1)

/-! ### The walks down the tree -/

theorem mapped_div (level : ℕ) :
    nodeArraySize ^ (level + 2) / nodeArraySize = nodeArraySize ^ (level + 1) := by
  rw [pow_succ]
  exact Nat.mul_div_cancel _ (by decide)

/-- What is left of a number in the array it lies in. -/
theorem rest_eq {num m : ℕ} (hnum : num ≠ 0) : num - (num - 1) / m * m = (num - 1) % m + 1 := by
  have h := Nat.div_add_mod' (num - 1) m
  have hpos : 0 < num := Nat.pos_of_ne_zero hnum
  omega

theorem index_lt {num level : ℕ} (hnum : num ≠ 0) (hle : num ≤ nodeArraySize ^ (level + 2)) :
    (num - 1) / nodeArraySize ^ (level + 1) < nodeArraySize := by
  refine div_lt ?_
  have hpos : 0 < num := Nat.pos_of_ne_zero hnum
  exact lt_of_lt_of_le (Nat.sub_lt hpos one_pos) hle

theorem lookupWalk_eq {level num : ℕ} (array : PtrArray level) (hnum : num ≠ 0)
    (hle : num ≤ nodeArraySize ^ (level + 1)) :
    lookupWalk level array (nodeArraySize ^ (level + 1)) num = some (Radix.get 0 level array (num - 1)) := by
  induction level generalizing num with
  | zero =>
    rw [lookupWalk, if_neg hnum, sub_eq (by rw [zero_add, pow_one] at hle; omega)]
    rfl
  | succ level ih =>
    show (sub array ((num - 1) / (nodeArraySize ^ (level + 2) / nodeArraySize)) >>= _) = _
    rw [mapped_div, sub_eq (index_lt hnum hle), Option.bind_eq_bind, Option.bind_some, Radix.get]
    cases hchild : array (Fin.ofNat nodeArraySize ((num - 1) / nodeArraySize ^ (level + 1))) with
    | none => rfl
    | some child =>
      show lookupWalk level child (nodeArraySize ^ (level + 1))
        (num - (num - 1) / nodeArraySize ^ (level + 1) * nodeArraySize ^ (level + 1)) = _
      rw [rest_eq hnum, ih child (Nat.succ_ne_zero _) (mod_lt level _)]
      rfl

theorem registerWalk_eq {level num : ℕ} (array : PtrArray level) (ptr : ℕ) (hnum : num ≠ 0)
    (hle : num ≤ nodeArraySize ^ (level + 1)) :
    registerWalk level array (nodeArraySize ^ (level + 1)) num ptr
      = some (Radix.set 0 level array (num - 1) ptr) := by
  induction level generalizing num with
  | zero =>
    rw [registerWalk, if_neg hnum, put_eq (by rw [zero_add, pow_one] at hle; omega)]
    rfl
  | succ level ih =>
    have hindex := index_lt hnum hle
    show (sub array ((num - 1) / (nodeArraySize ^ (level + 2) / nodeArraySize)) >>= _) = _
    rw [mapped_div, sub_eq hindex, Option.bind_eq_bind, Option.bind_some, rest_eq hnum,
      ih _ (Nat.succ_ne_zero _) (mod_lt level _), Option.bind_eq_bind, Option.bind_some,
      put_eq hindex]
    rfl

/-- Looking a number up never leaves an array. -/
theorem RootArray.lookup_eq (root : RootArray) (num : ℕ) : root.lookup num = some (root.addr num) := by
  rw [RootArray.lookup, RootArray.addr]
  by_cases hnum : num = 0
  · rw [if_pos hnum, if_pos (Or.inl hnum)]
  by_cases hlt : root.currentlyMapped < num
  · rw [if_neg hnum, if_pos hlt, if_pos (Or.inr hlt)]
  · rw [if_neg hnum, if_neg hlt, if_neg (not_or.mpr ⟨hnum, hlt⟩)]
    have hle := not_lt.mp hlt
    rw [root.mapped_eq] at hle ⊢
    exact lookupWalk_eq root.array hnum hle

@[simp] theorem RootArray.addr_zero (root : RootArray) : root.addr 0 = 0 := if_pos (Or.inl rfl)

theorem RootArray.addr_grown (root : RootArray) (num : ℕ) : root.grown.addr num = root.addr num := by
  by_cases hnum : num = 0
  · rw [hnum, addr_zero, addr_zero]
  have hpos : 0 < num := Nat.pos_of_ne_zero hnum
  have hmapped := root.mapped_eq
  have hgrown : root.grown.currentlyMapped = nodeArraySize ^ (root.level + 2) := root.grown.mapped_eq
  rw [addr, addr, hgrown, hmapped]
  by_cases hlt : nodeArraySize ^ (root.level + 2) < num
  · have hle : nodeArraySize ^ (root.level + 1) ≤ nodeArraySize ^ (root.level + 2) :=
      Nat.pow_le_pow_right (by decide) (Nat.le_succ _)
    rw [if_pos (Or.inr hlt), if_pos (Or.inr (lt_of_le_of_lt hle hlt))]
  · rw [if_neg (not_or.mpr ⟨hnum, hlt⟩)]
    show Radix.get 0 (root.level + 1) (grow root.level root.array) (num - 1) = _
    rw [get_grow 0 root.array (by omega)]
    by_cases hin : nodeArraySize ^ (root.level + 1) < num
    · rw [if_pos (Or.inr hin), if_neg (by omega)]
    · rw [if_neg (not_or.mpr ⟨hnum, hin⟩), if_pos (by omega)]

/-- Growing ends with a tree that maps the number, and moves no address. -/
theorem expandArray_eq {fuel num : ℕ} {root : RootArray}
    (hfuel : num ≤ root.currentlyMapped * 2 ^ fuel) (hlt : root.currentlyMapped < num) :
    ∃ root', expandArray fuel num root = some root' ∧ num ≤ root'.currentlyMapped ∧
      ∀ num', root'.addr num' = root.addr num' := by
  induction fuel generalizing root with
  | zero =>
    rw [pow_zero, mul_one] at hfuel
    exact absurd hlt (not_lt.mpr hfuel)
  | succ fuel ih =>
    rw [expandArray]
    by_cases hmore : root.grown.currentlyMapped < num
    · have hfuel' : num ≤ root.grown.currentlyMapped * 2 ^ fuel := by
        refine hfuel.trans ?_
        show _ ≤ root.currentlyMapped * nodeArraySize * 2 ^ fuel
        rw [pow_succ', ← mul_assoc]
        exact Nat.mul_le_mul_right _ (Nat.mul_le_mul_left _ (by decide))
      obtain ⟨root', hrun, hle, haddr⟩ := ih hfuel' hmore
      refine ⟨root', by rw [if_pos hmore, hrun], hle, fun num' => ?_⟩
      rw [haddr, RootArray.addr_grown]
    · exact ⟨root.grown, if_neg hmore, not_lt.mp hmore, root.addr_grown⟩

/-- Registering a number never leaves an array; the number gets the address, and no other. -/
theorem RootArray.register_eq (root : RootArray) {num : ℕ} (ptr : ℕ) (hnum : num ≠ 0) :
    ∃ root', registerNodeNum root num ptr = some root' ∧
      ∀ num', root'.addr num' = if num' = num then ptr else root.addr num' := by
  -- first the tree grows far enough
  have hgrow : ∃ r, (if root.currentlyMapped < num then expandArray (num.log2 + 1) num root
      else some root) = some r ∧ num ≤ r.currentlyMapped ∧ ∀ num', r.addr num' = root.addr num' := by
    by_cases hlt : root.currentlyMapped < num
    · have hpos : 1 ≤ root.currentlyMapped := by
        rw [root.mapped_eq]
        exact Nat.pow_pos (by decide)
      have hfuel : num ≤ root.currentlyMapped * 2 ^ (num.log2 + 1) :=
        le_trans Nat.lt_log2_self.le (Nat.le_mul_of_pos_left _ hpos)
      rw [if_pos hlt]
      exact expandArray_eq hfuel hlt
    · exact ⟨root, if_neg hlt, not_lt.mp hlt, fun _ => rfl⟩
  obtain ⟨r, hr, hle, haddr⟩ := hgrow
  have hwalk := registerWalk_eq r.array ptr hnum (by rw [← r.mapped_eq]; exact hle)
  rw [← r.mapped_eq] at hwalk
  refine ⟨{ r with array := Radix.set 0 r.level r.array (num - 1) ptr }, ?_, fun num' => ?_⟩
  · rw [registerNodeNum, hr, Option.bind_eq_bind, Option.bind_some, hwalk]
    rfl
  · rw [← haddr num', addr, addr]
    by_cases hno : num' = 0 ∨ r.currentlyMapped < num'
    · have hne : num' ≠ num := by
        rintro rfl
        rcases hno with h | h
        · exact hnum h
        · exact absurd h (not_lt.mpr hle)
      rw [if_pos hno, if_pos hno, if_neg hne]
    · rw [if_neg hno, if_neg hno]
      rw [not_or, not_lt] at hno
      have hlt : ∀ n, n ≠ 0 → n ≤ r.currentlyMapped → n - 1 < nodeArraySize ^ (r.level + 1) := by
        intro n h0 h
        rw [← r.mapped_eq]
        omega
      rw [get_set 0 ptr r.array (hlt num hnum hle) (hlt num' hno.1 hno.2)]
      have hiff : num' - 1 = num - 1 ↔ num' = num := by omega
      rw [if_congr hiff rfl rfl]

/-! ### From addresses to numbers -/

/-- `rpc_ss_hash_entry_t`. -/
structure HashEntry where
  ptr : ℕ := 0
  node : ℕ := 0
  marshalled : Bool := false
  unmarshalled : Bool := false
deriving DecidableEq

/-- A chain: the entry in the hash table and those behind it. -/
structure HashChain where
  head : HashEntry := {}
  next : List HashEntry := []
deriving DecidableEq

namespace HashChain

variable {chain : HashChain} {ptr ptr' : ℕ} {e new : HashEntry}

def entries (chain : HashChain) : List HashEntry := chain.head :: chain.next

/-- The loop of `rpc_ss_find_hash_entry`: the place of the first entry with the address, or of
the last entry. -/
def place (ptr : ℕ) : HashEntry → List HashEntry → ℕ
  | _, [] => 0
  | e, e' :: next => if e.ptr ≠ ptr then place ptr e' next + 1 else 0

/-- The entry in a place. -/
def entry (chain : HashChain) (n : ℕ) : HashEntry := chain.entries.getD n {}

def modify (chain : HashChain) (n : ℕ) (f : HashEntry → HashEntry) : HashChain :=
  match n with
  | 0 => { chain with head := f chain.head }
  | n + 1 => { chain with next := chain.next.modify n f }

/-- The hash table part of `rpc_ss_register_node_by_num`. -/
def insert (chain : HashChain) (new : HashEntry) : HashChain :=
  if chain.head.node ≠ 0 then { chain with next := new :: chain.next }
  else { chain with head := new }

/-- `rpc_ss_find_hash_entry` in the chain of the address. -/
def findHashEntry (chain : HashChain) (ptr : ℕ) : ℕ := place ptr chain.head chain.next

/-- The entry of an address. -/
def find (chain : HashChain) (ptr : ℕ) : Option HashEntry :=
  chain.entries.find? fun e => e.ptr = ptr

/-- No address has two entries, and an entry that has never been used has no address. -/
structure Ok (chain : HashChain) : Prop where
  unused : ∀ e ∈ chain.entries, e.node = 0 → e.ptr = 0
  pairwise : chain.entries.Pairwise fun e e' => e.ptr ≠ 0 → e.ptr ≠ e'.ptr

theorem entries_modify (chain : HashChain) (n : ℕ) (f : HashEntry → HashEntry) :
    (chain.modify n f).entries = chain.entries.modify n f := by
  cases n with
  | zero => rfl
  | succ n => rfl

theorem find?_cons_of_eq {l : List HashEntry} (h : e.ptr = ptr) :
    (e :: l).find? (fun e => e.ptr = ptr) = some e :=
  List.find?_cons_of_pos (by simpa using h)

theorem find?_cons_of_ne {l : List HashEntry} (h : e.ptr ≠ ptr) :
    (e :: l).find? (fun e => e.ptr = ptr) = l.find? fun e => e.ptr = ptr :=
  List.find?_cons_of_neg (by simpa using h)

theorem place_of_eq {next : List HashEntry} (h : e.ptr = ptr) : place ptr e next = 0 := by
  cases next with
  | nil => rfl
  | cons e' next => exact if_neg (not_not.mpr h)

/-- The place found holds the address's entry, if it has one, and else another address. -/
theorem entry_place (ptr : ℕ) (e : HashEntry) (next : List HashEntry) :
    match (e :: next).find? fun e => e.ptr = ptr with
    | some e' => (e :: next)[place ptr e next]? = some e'
    | none => ∀ e', (e :: next)[place ptr e next]? = some e' → e'.ptr ≠ ptr := by
  induction next generalizing e with
  | nil =>
    by_cases h : e.ptr = ptr
    · rw [find?_cons_of_eq h]
      rfl
    · rw [find?_cons_of_ne h]
      show ∀ e', some e = some e' → _
      rintro e' ⟨⟩
      exact h
  | cons e' next ih =>
    by_cases h : e.ptr = ptr
    · rw [find?_cons_of_eq h, place_of_eq h]
      rfl
    · rw [find?_cons_of_ne h, place, if_pos h]
      exact ih e'

theorem entry_of_find (h : chain.find ptr = some e) : chain.entry (chain.findHashEntry ptr) = e := by
  have hplace := entry_place ptr chain.head chain.next
  rw [find, entries] at h
  rw [h] at hplace
  show (chain.head :: chain.next).getD (place ptr chain.head chain.next) {} = e
  rw [List.getD_eq_getElem?_getD]
  exact congrArg (·.getD {}) hplace

theorem place_lt (ptr : ℕ) (e : HashEntry) (next : List HashEntry) :
    place ptr e next < (e :: next).length := by
  induction next generalizing e with
  | nil => exact Nat.zero_lt_one
  | cons e' next ih =>
    rw [place]
    split
    · exact Nat.succ_lt_succ (ih e')
    · exact Nat.zero_lt_succ _

theorem entry_of_not_find (h : chain.find ptr = none) :
    (chain.entry (chain.findHashEntry ptr)).ptr ≠ ptr := by
  have hplace := entry_place ptr chain.head chain.next
  have hlt := place_lt ptr chain.head chain.next
  rw [find, entries] at h
  rw [h] at hplace
  refine hplace _ ?_
  show _ = some ((chain.head :: chain.next).getD (place ptr chain.head chain.next) {})
  rw [List.getElem?_eq_getElem hlt, List.getD_eq_getElem _ _ hlt]

theorem ptr_of_find (h : chain.find ptr = some e) : e.ptr = ptr := by
  simpa using List.find?_some h

/-- A change of the entry found keeps all others. -/
theorem find_modify_of_ne {f : HashEntry → HashEntry} (h : chain.find ptr = some e)
    (hne : ptr' ≠ ptr) (hf : (f e).ptr ≠ ptr') :
    (chain.modify (chain.findHashEntry ptr) f).find ptr' = chain.find ptr' := by
  rw [find, entries_modify]
  rw [find] at h
  show ((chain.head :: chain.next).modify (place ptr chain.head chain.next) f).find? _
    = (chain.head :: chain.next).find? _
  rw [entries] at h
  revert h
  generalize chain.head = head
  induction chain.next generalizing head with
  | nil =>
    intro h
    have heq : head.ptr = ptr := by
      by_contra hhead
      rw [find?_cons_of_ne hhead] at h
      cases h
    rw [find?_cons_of_eq heq] at h
    cases h
    show [f e].find? _ = _
    rw [find?_cons_of_ne hf, find?_cons_of_ne (heq ▸ hne.symm)]
  | cons e' next ih =>
    intro h
    by_cases heq : head.ptr = ptr
    · rw [find?_cons_of_eq heq] at h
      cases h
      rw [place_of_eq heq]
      show (f e :: e' :: next).find? _ = (e :: e' :: next).find? _
      rw [find?_cons_of_ne hf,
        find?_cons_of_ne (e := e) (heq ▸ hne.symm)]
    · rw [find?_cons_of_ne heq] at h
      rw [place, if_pos heq]
      show (head :: (e' :: next).modify (place ptr e' next) f).find? _ = _
      by_cases hhead : head.ptr = ptr'
      · rw [find?_cons_of_eq hhead, find?_cons_of_eq hhead]
      · rw [find?_cons_of_ne hhead, find?_cons_of_ne hhead]
        exact ih e' h

theorem find_modify_self {f : HashEntry → HashEntry} (h : chain.find ptr = some e)
    (hf : (f e).ptr = ptr) :
    (chain.modify (chain.findHashEntry ptr) f).find ptr = some (f e) := by
  rw [find, entries_modify]
  rw [find, entries] at h
  show ((chain.head :: chain.next).modify (place ptr chain.head chain.next) f).find? _ = _
  revert h
  generalize chain.head = head
  induction chain.next generalizing head with
  | nil =>
    intro h
    have heq : head.ptr = ptr := by
      by_contra hhead
      rw [find?_cons_of_ne hhead] at h
      cases h
    rw [find?_cons_of_eq heq] at h
    cases h
    exact find?_cons_of_eq hf
  | cons e' next ih =>
    intro h
    by_cases heq : head.ptr = ptr
    · rw [find?_cons_of_eq heq] at h
      cases h
      rw [place_of_eq heq]
      exact find?_cons_of_eq hf
    · rw [find?_cons_of_ne heq] at h
      rw [place, if_pos heq]
      show (head :: (e' :: next).modify (place ptr e' next) f).find? _ = _
      rw [find?_cons_of_ne heq]
      exact ih e' h

/-- Entries may be blanked and marked. -/
theorem Ok.modify {f : HashEntry → HashEntry} (h : chain.Ok)
    (hptr : ∀ e, (f e).ptr = e.ptr ∨ (f e).ptr = 0) (hnode : ∀ e, (f e).node = e.node) (n : ℕ) :
    (chain.modify n f).Ok := by
  constructor
  · rw [entries_modify]
    intro e he hunused
    obtain ⟨i, hi, rfl⟩ := List.getElem_of_mem he
    rw [List.length_modify] at hi
    have hold := h.unused _ (List.getElem_mem hi)
    rw [List.getElem_modify] at hunused ⊢
    split at hunused
    · rw [hnode] at hunused
      rcases hptr chain.entries[i] with h' | h'
      · rw [if_pos ‹_›, h', hold hunused]
      · rw [if_pos ‹_›, h']
    · rw [if_neg ‹_›]
      exact hold hunused
  · rw [entries_modify, List.pairwise_iff_getElem]
    intro i j hi hj hij
    rw [List.length_modify] at hi hj
    have hold := List.pairwise_iff_getElem.mp h.pairwise i j hi hj hij
    rw [List.getElem_modify, List.getElem_modify]
    -- a blanked entry differs from every address
    have hcases : ∀ (k : ℕ) (hk : k < chain.entries.length) (c : Prop) [Decidable c],
        (if c then f chain.entries[k] else chain.entries[k]).ptr = chain.entries[k].ptr ∨
          (if c then f chain.entries[k] else chain.entries[k]).ptr = 0 := by
      intro k hk c _
      split
      · exact hptr _
      · exact Or.inl rfl
    intro hi0
    rcases hcases i hi (n = i) with hi' | hi'
    · rcases hcases j hj (n = j) with hj' | hj'
      · rw [hi', hj']
        exact hold (hi' ▸ hi0)
      · rw [hj']
        exact hi0
    · exact absurd hi' hi0

theorem find_blank_self (h : chain.Ok) (hptr : ptr ≠ 0) (he : chain.find ptr = some e) :
    (chain.modify (chain.findHashEntry ptr) fun e => { e with ptr := 0 }).find ptr = none := by
  rw [find, entries_modify, List.find?_eq_none]
  intro e' he'
  obtain ⟨i, hi, rfl⟩ := List.getElem_of_mem he'
  rw [List.length_modify] at hi
  have hplace := entry_place ptr chain.head chain.next
  have hlt := place_lt ptr chain.head chain.next
  have hfound := ptr_of_find he
  rw [find, entries] at he
  rw [he] at hplace
  have hat : (chain.head :: chain.next)[place ptr chain.head chain.next].ptr = ptr := by
    rw [(List.getElem?_eq_some_iff.mp (show _ = some e from hplace)).2]
    exact hfound
  rw [List.getElem_modify]
  split
  · simpa using hptr.symm
  · rename_i hne
    -- another entry with the address would be a second one
    have hpair := List.pairwise_iff_getElem.mp h.pairwise
    simp only [decide_eq_true_eq]
    intro heq
    rcases Nat.lt_or_gt_of_ne hne with hij | hij
    · exact hpair _ i hlt hi hij (hat.trans_ne hptr) (hat.trans heq.symm)
    · exact hpair i _ hi hlt hij (heq.trans_ne hptr) (heq.trans hat.symm)

/-- A new entry takes the unused place in the table or comes behind the one there. -/
theorem find_insert (h : chain.Ok) (hptr : ptr ≠ 0) :
    (chain.insert new).find ptr = if new.ptr = ptr ∧ chain.head.ptr ≠ ptr then some new
      else chain.find ptr := by
  rw [insert]
  split
  · show (chain.head :: new :: chain.next).find? _ = _
    by_cases hhead : chain.head.ptr = ptr
    · rw [if_neg (fun h => h.2 hhead), find, entries, find?_cons_of_eq hhead,
        find?_cons_of_eq hhead]
    · rw [find?_cons_of_ne hhead, find, entries, find?_cons_of_ne hhead]
      by_cases hnew : new.ptr = ptr
      · rw [find?_cons_of_eq hnew, if_pos ⟨hnew, hhead⟩]
      · rw [find?_cons_of_ne hnew, if_neg (fun h => hnew h.1)]
  · rename_i hnode
    have hhead : chain.head.ptr ≠ ptr := by
      rw [h.unused chain.head List.mem_cons_self (not_not.mp hnode)]
      exact hptr.symm
    show (new :: chain.next).find? _ = _
    rw [find, entries, find?_cons_of_ne hhead]
    by_cases hnew : new.ptr = ptr
    · rw [find?_cons_of_eq hnew, if_pos ⟨hnew, hhead⟩]
    · rw [find?_cons_of_ne hnew, if_neg (fun h => hnew h.1)]

theorem ptr_ne_of_not_find (h : chain.find ptr = none) : ∀ e ∈ chain.entries, e.ptr ≠ ptr := by
  intro e he
  simpa using List.find?_eq_none.mp h e he

theorem Ok.insert (h : chain.Ok) (hnode : new.node ≠ 0) (hnew : chain.find new.ptr = none) :
    (chain.insert new).Ok := by
  have hne := ptr_ne_of_not_find hnew
  have hpair := List.pairwise_cons.mp h.pairwise
  rw [HashChain.insert]
  split
  · constructor
    · intro e he h0
      rcases List.mem_cons.mp he with rfl | he
      · exact h.unused _ List.mem_cons_self h0
      rcases List.mem_cons.mp he with rfl | he
      · exact absurd h0 hnode
      · exact h.unused e (List.mem_cons_of_mem _ he) h0
    · show (chain.head :: new :: chain.next).Pairwise _
      refine List.pairwise_cons.mpr ⟨fun e he h0 => ?_, List.pairwise_cons.mpr
        ⟨fun e he _ => (hne e (List.mem_cons_of_mem _ he)).symm, hpair.2⟩⟩
      rcases List.mem_cons.mp he with rfl | he
      · exact hne _ List.mem_cons_self
      · exact hpair.1 e he h0
  · constructor
    · intro e he h0
      rcases List.mem_cons.mp he with rfl | he
      · exact absurd h0 hnode
      · exact h.unused e (List.mem_cons_of_mem _ he) h0
    · exact List.pairwise_cons.mpr
        ⟨fun e he _ => (hne e (List.mem_cons_of_mem _ he)).symm, hpair.2⟩

end HashChain

/-! ### The table and its operations -/

/-- `rpc_ss_deleted_nodes_t`: a block of at most `RPC_SS_DELETED_NODES_SIZE` numbers. -/
structure DeletedNodes where
  nodeNumbers : List ℕ
deriving DecidableEq

def deletedNodesSize : ℕ := 2048

/-- `rpc_ss_pvt_node_table_t`. -/
structure NodeTable where
  root : RootArray
  hashTable : Fin 256 → HashChain
  highNum : ℕ
  deletesList : List DeletedNodes
  deletesReflected : Bool

/-- `rpc_ss_init_node_table`, and `rpc_ss_enable_reflect_deletes` where deletions are reflected. -/
def initNodeTable (reflect : Bool) : NodeTable where
  root := { level := 0, array := empty 0 0, currentlyMapped := 50, mapped_eq := rfl }
  hashTable _ := {}
  highNum := 0
  deletesList := []
  deletesReflected := reflect

/-- `rework_pointer`: the new `max_ptr` and the number in place of the one received; `none` where
the counter, a C `int`, would overflow. -/
def reworkPointer (maxPtr num : ℕ) : Option (ℕ × ℕ) :=
  if num = 0 then some (maxPtr, num)
  else if num > 0xffff0000 then some (maxPtr, num)
  else if num < 0x10000 then some (maxPtr, num)
  else if maxPtr + 1 < 2 ^ 31 then some (maxPtr + 1, maxPtr + 1)
  else none

/-- `rpc_ss_add_delete_to_list`. -/
def addDeleteToList (nodeNumber : ℕ) : List DeletedNodes → List DeletedNodes
  | [] => [⟨[nodeNumber]⟩]
  | block :: blocks =>
    if block.nodeNumbers.length = deletedNodesSize then ⟨[nodeNumber]⟩ :: block :: blocks
    else ⟨block.nodeNumbers ++ [nodeNumber]⟩ :: blocks

/-- `get_hash_chain_head`. -/
def hashSlot (ptr : ℕ) : Fin 256 := Fin.ofNat 256 (ptr / 2 ^ 5)

namespace NodeTable

variable {tab : NodeTable} {ptr num : ℕ}

def chain (tab : NodeTable) (ptr : ℕ) : HashChain := tab.hashTable (hashSlot ptr)

def setChain (tab : NodeTable) (ptr : ℕ) (chain : HashChain) : NodeTable :=
  { tab with hashTable := Function.update tab.hashTable (hashSlot ptr) chain }

/-- The entry that `rpc_ss_find_hash_entry` answers. -/
def hashEntry (tab : NodeTable) (ptr : ℕ) : HashEntry :=
  (tab.chain ptr).entry ((tab.chain ptr).findHashEntry ptr)

/-- A change of that entry. -/
def setHashEntry (tab : NodeTable) (ptr : ℕ) (f : HashEntry → HashEntry) : NodeTable :=
  tab.setChain ptr ((tab.chain ptr).modify ((tab.chain ptr).findHashEntry ptr) f)

/-- `rpc_ss_register_node_by_num`.  The entry keeps the number in 32 bits. -/
def registerNodeByNum (tab : NodeTable) (num ptr : ℕ) : Option NodeTable := do
  let tab := if num > tab.highNum then { tab with highNum := num } else tab
  let tab := tab.setChain ptr ((tab.chain ptr).insert { ptr := ptr, node := num % 2 ^ 32 })
  let root ← registerNodeNum tab.root num ptr
  some { tab with root := root }

/-- `rpc_ss_lookup_node_by_ptr`. -/
def lookupNodeByPtr (tab : NodeTable) (ptr : ℕ) : ℕ :=
  if (tab.hashEntry ptr).ptr = ptr then (tab.hashEntry ptr).node else 0

/-- `rpc_ss_lookup_node_by_num`. -/
def lookupNodeByNum (tab : NodeTable) (num : ℕ) : Option ℕ := tab.root.lookup num

/-- `rpc_ss_register_node`: the number, and `has_been_marshalled` where it is asked for. -/
def registerNode (tab : NodeTable) (ptr : ℕ) (marshalling : Bool) :
    Option (NodeTable × ℕ × Option Bool) := do
  if ptr = 0 then some (tab, 0, none)
  else if tab.lookupNodeByPtr ptr ≠ 0 then
    if marshalling then
      some (tab.setHashEntry ptr fun e => { e with marshalled := true },
        tab.lookupNodeByPtr ptr, some (tab.hashEntry ptr).marshalled)
    else some (tab, tab.lookupNodeByPtr ptr, none)
  else
    let num := tab.highNum + 1
    let tab ← registerNodeByNum { tab with highNum := num } num ptr
    if marshalling then
      some (tab.setHashEntry ptr fun e => { e with marshalled := true }, num, some false)
    else some (tab, num, none)

/-- `rpc_ss_unregister_node`. -/
def unregisterNode (tab : NodeTable) (ptr : ℕ) : NodeTable :=
  if ptr = 0 then tab
  else if (tab.hashEntry ptr).ptr = ptr then
    let deletesList :=
      if tab.deletesReflected then addDeleteToList (tab.hashEntry ptr).node tab.deletesList
      else tab.deletesList
    { tab with deletesList := deletesList }.setHashEntry ptr fun e => { e with ptr := 0 }
  else tab

/-- The numbers in the list of deleted nodes, block by block. -/
def deletedNodes (tab : NodeTable) : List ℕ := tab.deletesList.flatMap DeletedNodes.nodeNumbers

/-- `rpc_ss_ndr_marsh_deletes`: the count and the numbers that follow it. -/
def marshDeletes (tab : NodeTable) : ℕ × List ℕ :=
  let deleteCount := (tab.deletesList.map fun b => b.nodeNumbers.length).sum % 2 ^ 32
  (deleteCount, if deleteCount = 0 then [] else tab.deletedNodes)

/-- What a node number is answered with: the number after `rework_pointer`, the address,
`has_been_unmarshalled` and `new_node`. -/
structure Answer where
  num : ℕ
  ptr : ℕ
  unmarshalled : Bool
  newNode : Bool
deriving DecidableEq

/-- `rpc_ss_return_pointer_to_node`; `alloc` is what the allocator returns if it is called. -/
def returnPointerToNode (maxPtr : ℕ) (tab : NodeTable) (num alloc : ℕ) :
    Option (ℕ × NodeTable × Answer) := do
  let (maxPtr, num) ← reworkPointer maxPtr num
  let found ← tab.lookupNodeByNum num
  let tab ← (if found = 0 then tab.registerNodeByNum num alloc else some tab)
  let ptr := if found = 0 then alloc else found
  some (maxPtr, tab.setHashEntry ptr fun e => { e with unmarshalled := true },
    { num := num, ptr := ptr, unmarshalled := (tab.hashEntry ptr).unmarshalled,
      newNode := found = 0 })

/-- What the next two functions share: an unknown number has no address, and only `mark`
sets the flag. -/
def pointerToNode (mark : Bool) (maxPtr : ℕ) (tab : NodeTable) (num : ℕ) :
    Option (ℕ × NodeTable × Answer) := do
  let (maxPtr, num) ← reworkPointer maxPtr num
  let found ← tab.lookupNodeByNum num
  if found = 0 then
    some (maxPtr, tab, { num := num, ptr := 0, unmarshalled := false, newNode := false })
  else
    let tab' := if mark then tab.setHashEntry found fun e => { e with unmarshalled := true }
      else tab
    let unmarshalled := (tab.hashEntry found).unmarshalled
    some (maxPtr, tab',
      { num := num, ptr := found, unmarshalled := unmarshalled, newNode := false })

/-- `rpc_ss_lookup_pointer_to_node`. -/
def lookupPointerToNode := pointerToNode true

/-- `rpc_ss_inquire_pointer_to_node`. -/
def inquirePointerToNode := pointerToNode false

/-! ### What the operations do -/

/-- The entry of a registered address. -/
def live (tab : NodeTable) (ptr : ℕ) : Option HashEntry := (tab.chain ptr).find ptr

def Ok (tab : NodeTable) : Prop := ∀ i, (tab.hashTable i).Ok

theorem chain_setChain (tab : NodeTable) (ptr ptr' : ℕ) (chain : HashChain) :
    (tab.setChain ptr chain).chain ptr'
      = if hashSlot ptr' = hashSlot ptr then chain else tab.chain ptr' :=
  Function.update_apply _ _ _ _

theorem Ok.setChain {chain : HashChain} (h : tab.Ok) (hc : chain.Ok) : (tab.setChain ptr chain).Ok := by
  intro i
  show (Function.update tab.hashTable (hashSlot ptr) chain i).Ok
  rw [Function.update_apply]
  split
  · exact hc
  · exact h i

theorem Ok.chain (h : tab.Ok) (ptr : ℕ) : (tab.chain ptr).Ok := h (hashSlot ptr)

theorem hashEntry_of_live {e : HashEntry} (h : tab.live ptr = some e) : tab.hashEntry ptr = e :=
  HashChain.entry_of_find h

theorem lookupNodeByPtr_of_live {e : HashEntry} (h : tab.live ptr = some e) :
    tab.lookupNodeByPtr ptr = e.node := by
  rw [lookupNodeByPtr, hashEntry_of_live h, if_pos (HashChain.ptr_of_find h)]

theorem lookupNodeByPtr_of_not_live (h : tab.live ptr = none) : tab.lookupNodeByPtr ptr = 0 :=
  if_neg (HashChain.entry_of_not_find h)

theorem live_setHashEntry {e : HashEntry} {f : HashEntry → HashEntry} (h : tab.live ptr = some e)
    (hf : (f e).ptr = ptr) (ptr' : ℕ) :
    (tab.setHashEntry ptr f).live ptr' = if ptr' = ptr then some (f e) else tab.live ptr' := by
  rw [live, setHashEntry, chain_setChain]
  by_cases heq : ptr' = ptr
  · rw [if_pos heq, if_pos (congrArg hashSlot heq), heq]
    exact HashChain.find_modify_self h hf
  · rw [if_neg heq]
    split
    · rename_i hslot
      rw [HashChain.find_modify_of_ne h heq (hf ▸ Ne.symm heq), live]
      show _ = (tab.hashTable (hashSlot ptr')).find ptr'
      rw [hslot]
      rfl
    · rfl

theorem Ok.setHashEntry {f : HashEntry → HashEntry} (h : tab.Ok)
    (hptr : ∀ e, (f e).ptr = e.ptr ∨ (f e).ptr = 0) (hnode : ∀ e, (f e).node = e.node) :
    (tab.setHashEntry ptr f).Ok :=
  h.setChain ((h (hashSlot ptr)).modify hptr hnode _)

/-- A new node: its address and its number lead to each other, all else stays. -/
structure Registers (tab tab' : NodeTable) (num ptr : ℕ) : Prop where
  ok : tab'.Ok
  addr : ∀ num', tab'.root.addr num' = if num' = num then ptr else tab.root.addr num'
  live : ∀ ptr' ≠ 0, tab'.live ptr'
    = if ptr' = ptr then some { ptr := ptr, node := num } else tab.live ptr'
  highNum : tab'.highNum = max num tab.highNum
  deletesList : tab'.deletesList = tab.deletesList
  deletesReflected : tab'.deletesReflected = tab.deletesReflected

theorem registerNodeByNum_eq (h : tab.Ok) (hnum : 0 < num) (hlt : num < 2 ^ 32) (hptr : ptr ≠ 0)
    (hnew : tab.live ptr = none) :
    ∃ tab', tab.registerNodeByNum num ptr = some tab' ∧ tab.Registers tab' num ptr := by
  obtain ⟨root', hroot, haddr⟩ := tab.root.register_eq ptr hnum.ne'
  have hnode : num % 2 ^ 32 = num := Nat.mod_eq_of_lt hlt
  set chain' := (tab.chain ptr).insert { ptr := ptr, node := num } with hchain'
  refine ⟨{ tab.setChain ptr chain' with root := root', highNum := max num tab.highNum }, ?_, ?_,
    haddr, ?_, rfl, rfl, rfl⟩
  · rw [registerNodeByNum, hnode]
    by_cases hhigh : num > tab.highNum
    · rw [if_pos hhigh, max_eq_left (le_of_lt hhigh)]
      show (registerNodeNum tab.root num ptr).bind _ = _
      rw [hroot]
      rfl
    · rw [if_neg hhigh, max_eq_right (not_lt.mp hhigh)]
      show (registerNodeNum tab.root num ptr).bind _ = _
      rw [hroot]
      rfl
  · show (tab.setChain ptr chain').Ok
    exact h.setChain ((h.chain ptr).insert hnum.ne' hnew)
  · intro ptr' hptr'
    show ((tab.setChain ptr chain').chain ptr').find ptr' = _
    rw [chain_setChain]
    by_cases heq : ptr' = ptr
    · rw [if_pos heq, if_pos (congrArg hashSlot heq), heq, hchain',
        HashChain.find_insert (h.chain ptr) hptr, if_pos
          ⟨rfl, HashChain.ptr_ne_of_not_find hnew _ List.mem_cons_self⟩]
    · rw [if_neg heq]
      split
      · rename_i hslot
        rw [hchain', HashChain.find_insert (h.chain ptr) hptr', if_neg fun h => heq h.1.symm]
        show (tab.hashTable (hashSlot ptr)).find ptr' = _
        rw [← hslot]
        rfl
      · rfl

/-- An unregistered address has no entry any more; its number is listed if deletions are
reflected. -/
theorem unregisterNode_eq {e : HashEntry} (h : tab.Ok) (hptr : ptr ≠ 0)
    (he : tab.live ptr = some e) :
    (tab.unregisterNode ptr).Ok ∧ (tab.unregisterNode ptr).root = tab.root ∧
      (∀ ptr' ≠ 0, (tab.unregisterNode ptr).live ptr'
        = if ptr' = ptr then none else tab.live ptr') ∧
      (tab.unregisterNode ptr).highNum = tab.highNum ∧
      (tab.unregisterNode ptr).deletesReflected = tab.deletesReflected ∧
      (tab.unregisterNode ptr).deletesList = (if tab.deletesReflected then
        addDeleteToList e.node tab.deletesList else tab.deletesList) := by
  have hentry := hashEntry_of_live he
  have hfound := HashChain.ptr_of_find he
  rw [unregisterNode, if_neg hptr, hentry, if_pos hfound]
  refine ⟨?_, rfl, fun ptr' hptr' => ?_, rfl, rfl, rfl⟩
  · exact h.setChain (HashChain.Ok.modify (f := fun e => { e with ptr := 0 }) (h.chain ptr)
      (fun _ => Or.inr rfl) (fun _ => rfl) _)
  · rw [live, setHashEntry, chain_setChain]
    show HashChain.find (if _ then (tab.chain ptr).modify ((tab.chain ptr).findHashEntry ptr) _
      else tab.chain ptr') ptr' = _
    by_cases heq : ptr' = ptr
    · rw [if_pos heq, if_pos (congrArg hashSlot heq), heq]
      exact HashChain.find_blank_self (h (hashSlot ptr)) hptr he
    · rw [if_neg heq]
      split
      · rename_i hslot
        rw [HashChain.find_modify_of_ne he heq hptr'.symm]
        show (tab.hashTable (hashSlot ptr)).find ptr' = _
        rw [← hslot]
        rfl
      · rfl

theorem unregisterNode_of_not_live (he : tab.live ptr = none) : tab.unregisterNode ptr = tab := by
  rw [unregisterNode]
  split
  · rfl
  · exact if_neg (HashChain.entry_of_not_find he)

end NodeTable

end Idl
