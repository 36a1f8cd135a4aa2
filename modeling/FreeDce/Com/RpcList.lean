/-
Lists and lookaside lists (rpclist.h, rpclist.c).

A list head and the first member of an element are an `rpc_list_t` each, so that the head is what
comes before the first element.  In the head, `last` is the last element.

* `listAdd_spec`, `listAddHead_eq`, `listAddTail_eq`, `listRemove_spec`, `listLookup_eq` — the
  macros on a list that is in order;
* `Inv.store`, `step_spec` — what a step keeps, of this list and of the others;
* `lists_represented` — runs; `extract_beyond` has an element extracted that is not asked for.
-/
import FreeDce.Lib.DoublyLinked
import FreeDce.Lib.Runs

namespace Com

namespace RpcList

open Pointers

variable {P H D E : Type*} [DecidableEq P] [DecidableEq H] [DecidableEq D] [DecidableEq E]

/-! ### The macros -/

/-- The fields of the `rpc_list_t` at each place. -/
structure Mem (P : Type*) where
  next : P → Option P
  last : P → Option P

def Mem.setNext (m : Mem P) (p : P) (v : Option P) : Mem P :=
  { m with next := Function.update m.next p v }

def Mem.setLast (m : Mem P) (p : P) (v : Option P) : Mem P :=
  { m with last := Function.update m.last p v }

@[simp] theorem Mem.setNext_next (m : Mem P) (p : P) (v : Option P) :
    (m.setNext p v).next = Function.update m.next p v := rfl

@[simp] theorem Mem.setNext_last (m : Mem P) (p : P) (v : Option P) :
    (m.setNext p v).last = m.last := rfl

@[simp] theorem Mem.setLast_next (m : Mem P) (p : P) (v : Option P) :
    (m.setLast p v).next = m.next := rfl

@[simp] theorem Mem.setLast_last (m : Mem P) (p : P) (v : Option P) :
    (m.setLast p v).last = Function.update m.last p v := rfl

/-- `RPC_LIST_INIT`. -/
def listInit (m : Mem P) (list : P) : Mem P := (m.setNext list none).setLast list none

/-- `RPC_LIST_EMPTY`. -/
def listEmpty (m : Mem P) (list : P) : Bool := m.next list = none

/-- `RPC_LIST_ADD`. -/
def listAdd (m : Mem P) (list elt ins : P) : Mem P :=
  let m := m.setNext ins (m.next elt)
  let m := m.setLast ins (some elt)
  let m := match m.next elt with
    | none => m.setLast list (some ins)
    | some y => m.setLast y (some ins)
  m.setNext elt (some ins)

/-- `RPC_LIST_ADD_HEAD`. -/
def listAddHead (m : Mem P) (list elt : P) : Mem P :=
  match m.next list with
  | none =>
    let m := (m.setLast list (some elt)).setNext list (some elt)
    (m.setNext elt none).setLast elt (some list)
  | some y =>
    let m := (m.setNext elt (some y)).setLast elt (some list)
    (m.setLast y (some elt)).setNext list (some elt)

/-- `RPC_LIST_ADD_TAIL`; `none` is a write through NULL. -/
def listAddTail (m : Mem P) (list elt : P) : Option (Mem P) :=
  let m' : Option (Mem P) :=
    if listEmpty m list then
      some ((m.setNext list (some elt)).setLast elt (some list))
    else
      (m.last list).map fun y => (m.setNext y (some elt)).setLast elt (m.last list)
  m'.map fun m => (m.setLast list (some elt)).setNext elt none

/-- `RPC_LIST_REMOVE`. -/
def listRemove (m : Mem P) (list elt : P) : Option (Mem P) :=
  if m.last list = m.next list then some (listInit m list)
  else
    let m := match m.next elt with
      | none => m.setLast list (m.last elt)
      | some y => m.setLast y (m.last elt)
    (m.last elt).map fun y => m.setNext y (m.next elt)

/-- The element that was found is removed; there is nothing to do for NULL. -/
def removeFound (m : Mem P) (list : P) : Option P → Option (Option P × Mem P)
  | none => some (none, m)
  | some elt => (listRemove m list elt).map fun m => (some elt, m)

/-- `RPC_LIST_REMOVE_HEAD`. -/
def listRemoveHead (m : Mem P) (list : P) : Option (Option P × Mem P) :=
  if listEmpty m list then some (none, m) else removeFound m list (m.next list)

/-- `RPC_LIST_REMOVE_TAIL`. -/
def listRemoveTail (m : Mem P) (list : P) : Option (Option P × Mem P) :=
  if listEmpty m list then some (none, m) else removeFound m list (m.last list)

/-- A number of any type that is converted to an `int`. -/
def asInt (n : ℤ) : ℤ := n.bmod (2 ^ 32)

/-- The loop of `RPC_LIST_LOOKUP`; `k` turns are left. -/
def lookupLoop (next : P → Option P) : ℕ → Option P → Option P
  | 0, elt => elt
  | _ + 1, none => none
  | k + 1, some y => lookupLoop next k (next y)

/-- `RPC_LIST_LOOKUP`: a turn is made while the count is greater than 1. -/
def listLookup (m : Mem P) (list : P) (n : ℤ) : Option P :=
  lookupLoop m.next (asInt n - 1).toNat (m.next list)

/-- `RPC_LIST_EXTRACT`. -/
def listExtract (m : Mem P) (list : P) (n : ℤ) : Option (Option P × Mem P) :=
  removeFound m list (listLookup m list n)

/-! ### Lists in memory -/

/-- The links of the elements and of the head; the head has none before it. -/
def Mem.back (m : Mem P) (list : P) : P → Option P := Function.update m.last list none

/-- The head and what is on the list point to each other. -/
structure Kept (m : Mem P) (list : P) (l : List P) : Prop where
  linked : Linked m.next (m.back list) none (list :: l) none
  last : m.last list = l.getLast?
  nodup : (list :: l).Nodup

/-- The memory differs only in places of `S`. -/
def SameBut (S : List P) (m m' : Mem P) : Prop :=
  ∀ p ∉ S, m'.next p = m.next p ∧ m'.last p = m.last p

variable {m m' : Mem P} {list x y : P} {a b l : List P}

theorem Mem.back_of_ne (h : x ≠ list) : m.back list x = m.last x := Function.update_of_ne h _ _

theorem Mem.back_self : m.back list list = none := Function.update_self ..

theorem Kept.head (h : Kept m list l) : m.next list = l.head? :=
  h.linked.1.2.trans (Option.or_none)

theorem Kept.listEmpty_iff (h : Kept m list l) : listEmpty m list = true ↔ l = [] := by
  rw [listEmpty, h.head, decide_eq_true_eq, List.head?_eq_none_iff]

theorem kept_init : Kept (listInit m list) list [] where
  linked := ⟨⟨Mem.back_self, Function.update_self ..⟩, trivial⟩
  last := Function.update_self ..
  nodup := List.nodup_singleton list

/-- A list is kept where nothing is written. -/
theorem Kept.congr (h : Kept m list l)
    (hsame : ∀ p ∈ list :: l, m'.next p = m.next p ∧ m'.last p = m.last p) : Kept m' list l := by
  refine ⟨h.linked.congr (fun p hp => (hsame p hp).1) fun p hp => ?_, ?_, h.nodup⟩
  · by_cases hlist : p = list
    · rw [hlist, Mem.back_self, Mem.back_self]
    · rw [Mem.back_of_ne hlist, Mem.back_of_ne hlist, (hsame p hp).2]
  · rw [(hsame list List.mem_cons_self).2, h.last]

/-! ### An element is added -/

theorem listAdd_next (m : Mem P) (list : P) (hx : x ≠ y) : (listAdd m list y x).next =
    Function.update (Function.update m.next x (m.next y)) y (some x) := by
  rw [listAdd]
  simp only [Mem.setLast_next, Mem.setNext_next, Function.update_of_ne hx.symm]
  cases m.next y <;> rfl

theorem listAdd_last (m : Mem P) (list : P) (hx : x ≠ y) : (listAdd m list y x).last =
    Function.update (Function.update m.last x (some y)) ((m.next y).getD list) (some x) := by
  rw [listAdd]
  simp only [Mem.setLast_next, Mem.setNext_next, Function.update_of_ne hx.symm]
  cases m.next y <;> rfl

/-- The element before the place leads to the new one, and so does the link back to that place. -/
theorem Kept.insert (hm : Kept m list (a ++ b)) (hy : (list :: a).getLast? = some y)
    (hx : x ∉ list :: (a ++ b))
    (hnext : m'.next = Function.update (Function.update m.next x b.head?) y (some x))
    (hlastx : m'.last x = some y) (hback : ∀ z, b.head? = some z → m'.last z = some x)
    (hlast : m'.last list = (a ++ x :: b).getLast?)
    (hsame : ∀ z, z ≠ x → z ≠ list → b.head? ≠ some z → m'.last z = m.last z) :
    Kept m' list (a ++ x :: b) ∧ SameBut (x :: list :: (a ++ b)) m m' := by
  have hlist : list ∉ a ++ b := (List.nodup_cons.mp hm.nodup).1
  have hymem : y ∈ list :: (a ++ b) :=
    List.cons_append ▸ List.mem_append_left b (List.mem_of_getLast? hy)
  have hb : ∀ z, b.head? = some z → z ∈ a ++ b := fun z hz =>
    List.mem_append_right _ (List.mem_of_mem_head? hz)
  have hxy : x ≠ y := fun h => hx (h ▸ hymem)
  have hxlist : x ≠ list := fun h => hx (h ▸ List.mem_cons_self)
  have hnodup : (list :: (a ++ x :: b)).Nodup := by
    refine (List.perm_middle.cons list).nodup_iff.mpr ?_
    exact ((List.Perm.swap x list _).nodup_iff).mpr (List.nodup_cons.mpr ⟨hx, hm.nodup⟩)
  refine ⟨⟨?_, hlast, hnodup⟩, fun p hp => ?_⟩
  · -- the head counts as the first element, so that the place behind it is like the others
    have hlinked : Linked m.next (m.back list) none ((list :: a) ++ b) none := hm.linked
    refine hlinked.insert hnodup ?_ ?_ ⟨?_, ?_⟩ ?_ ?_
    · intro z hz
      obtain rfl : y = z := Option.some_inj.mp (hy.symm.trans hz)
      rw [hnext, Function.update_self]
    · intro z hz
      have hzlist : z ≠ list := fun h => hlist (h ▸ hb z hz)
      rw [Mem.back_of_ne hzlist, hback z hz]
    · rw [Mem.back_of_ne hxlist, hlastx, hy]
    · rw [hnext, Function.update_of_ne hxy, Function.update_self]
    · intro z hzx hzy
      have hzy' : z ≠ y := fun h => hzy (h ▸ hy)
      rw [hnext, Function.update_of_ne hzy', Function.update_of_ne hzx]
    · intro z hzx hzb
      by_cases hzlist : z = list
      · rw [hzlist, Mem.back_self, Mem.back_self]
      · rw [Mem.back_of_ne hzlist, Mem.back_of_ne hzlist, hsame z hzx hzlist hzb]
  · obtain ⟨hpx, hp⟩ : p ≠ x ∧ p ∉ list :: (a ++ b) :=
      not_or.mp fun h => hp (List.mem_cons.mpr h)
    have hpy : p ≠ y := fun h => hp (h ▸ hymem)
    have hplist : p ≠ list := fun h => hp (h ▸ List.mem_cons_self)
    rw [hnext, Function.update_of_ne hpy, Function.update_of_ne hpx]
    exact ⟨rfl, hsame p hpx hplist fun h => hp (List.mem_cons_of_mem _ (hb p h))⟩

theorem listAdd_spec (hm : Kept m list (a ++ b)) (hy : (list :: a).getLast? = some y)
    (hx : x ∉ list :: (a ++ b)) :
    Kept (listAdd m list y x) list (a ++ x :: b) ∧
      SameBut (x :: list :: (a ++ b)) m (listAdd m list y x) := by
  have hnexty : m.next y = b.head? := by
    obtain ⟨c, hc⟩ := List.getLast?_eq_some_iff.mp hy
    have hlinked := hm.linked
    rw [← List.cons_append, hc, List.append_assoc, List.singleton_append] at hlinked
    exact hlinked.middle.2.1
  have hxy : x ≠ y := fun h => hx (h ▸ List.cons_append ▸
    List.mem_append_left b (List.mem_of_getLast? hy))
  have hxlist : x ≠ list := fun h => hx (h ▸ List.mem_cons_self)
  have hnext := listAdd_next m list hxy
  have hlast := listAdd_last m list hxy
  rw [hnexty] at hnext hlast
  cases b with
  | nil =>
    -- the new element is the last one
    rw [List.head?_nil, Option.getD_none] at hlast
    refine hm.insert hy hx hnext ?_ ?_ ?_ ?_
    · rw [hlast, Function.update_of_ne hxlist, Function.update_self]
    · intro z hz
      cases hz
    · rw [hlast, Function.update_self, List.getLast?_concat]
    · intro z hzx hzlist _
      rw [hlast, Function.update_of_ne hzlist, Function.update_of_ne hzx]
  | cons w b =>
    have hwmem : w ∈ a ++ w :: b := List.mem_append_right _ List.mem_cons_self
    have hxw : x ≠ w := by
      rintro rfl
      exact hx (List.mem_cons_of_mem _ hwmem)
    have hlistw : list ≠ w := fun h => (List.nodup_cons.mp hm.nodup).1 (h ▸ hwmem)
    rw [List.head?_cons, Option.getD_some] at hlast
    refine hm.insert hy hx hnext ?_ ?_ ?_ ?_
    · rw [hlast, Function.update_of_ne hxw, Function.update_self]
    · intro z hz
      obtain rfl : w = z := Option.some_inj.mp hz
      rw [hlast, Function.update_self]
    · rw [hlast, Function.update_of_ne hlistw, Function.update_of_ne hxlist.symm, hm.last,
        List.getLast?_append, List.getLast?_append, List.getLast?_cons_cons]
    · intro z hzx _ hzw
      have hzw' : z ≠ w := fun h => hzw (congrArg some h.symm)
      rw [hlast, Function.update_of_ne hzw', Function.update_of_ne hzx]

theorem listAddHead_eq (hx : x ≠ list) : listAddHead m list x = listAdd m list list x := by
  rw [listAddHead, listAdd]
  simp only [Mem.setLast_next, Mem.setNext_next, Function.update_of_ne hx.symm]
  cases h : m.next list with
  | none =>
    simp only [Mem.setNext, Mem.setLast, Mem.mk.injEq]
    exact ⟨Function.update_comm hx.symm _ _ _, Function.update_comm hx.symm _ _ _⟩
  | some y => rfl

theorem listAddTail_eq (hm : Kept m list l) (hx : x ∉ list :: l)
    (hy : (list :: l).getLast? = some y) : listAddTail m list x = some (listAdd m list y x) := by
  have hynext : m.next y = none := by
    obtain ⟨c, hc⟩ := List.getLast?_eq_some_iff.mp hy
    have hl := hm.linked
    rw [hc] at hl
    exact hl.middle.2.1
  have hxy : x ≠ y := fun h => hx (h ▸ List.mem_of_getLast? hy)
  rw [listAddTail, listAdd]
  simp only [Mem.setLast_next, Mem.setNext_next, Function.update_of_ne hxy.symm, hynext]
  by_cases hl : l = []
  · -- the link to the last element is null, the head itself is the one before
    subst hl
    obtain rfl : list = y := Option.some_inj.mp hy
    rw [if_pos (hm.listEmpty_iff.mpr rfl)]
    simp only [Mem.setNext, Mem.setLast, Option.map_some, Option.some_inj, Mem.mk.injEq]
    exact ⟨Function.update_comm hxy.symm _ _ _, trivial⟩
  · have hlast : m.last list = some y := by
      rw [hm.last, ← hy]
      cases l with
      | nil => exact absurd rfl hl
      | cons z l => exact List.getLast?_cons_cons.symm
    rw [if_neg fun h => hl (hm.listEmpty_iff.mp h), hlast]
    simp only [Mem.setNext, Mem.setLast, Option.map_some, Option.some_inj, Mem.mk.injEq]
    exact ⟨Function.update_comm hxy.symm _ _ _, trivial⟩

/-! ### An element is removed -/

/-- Its neighbours are led past an element. -/
theorem Kept.remove (hm : Kept m list (a ++ x :: b)) (hp : (list :: a).getLast? = some y)
    (hnext : m'.next = Function.update m.next y b.head?)
    (hback : ∀ z, b.head? = some z → m'.last z = some y)
    (hlast : m'.last list = (a ++ b).getLast?)
    (hsame : ∀ z, z ≠ list → b.head? ≠ some z → m'.last z = m.last z) :
    Kept m' list (a ++ b) ∧ SameBut (list :: (a ++ x :: b)) m m' := by
  obtain ⟨hlist, hnodup⟩ := List.nodup_cons.mp hm.nodup
  have hsub : (a ++ b).Sublist (a ++ x :: b) := (List.sublist_cons_self x b).append_left a
  have hb : ∀ z, b.head? = some z → z ∈ a ++ x :: b := fun z hz =>
    List.mem_append_right _ (List.mem_cons_of_mem _ (List.mem_of_mem_head? hz))
  have hy : y ∈ list :: (a ++ x :: b) :=
    List.cons_append ▸ List.mem_append_left _ (List.mem_of_getLast? hp)
  refine ⟨⟨?_, hlast, hm.nodup.sublist (hsub.cons_cons list)⟩, fun p hpS => ⟨?_, ?_⟩⟩
  · have hlinked : Linked m.next (m.back list) none ((list :: a) ++ x :: b) none := hm.linked
    refine hlinked.erase hm.nodup ?_ ?_ ?_ ?_
    · intro z hz
      obtain rfl : y = z := Option.some_inj.mp (hp.symm.trans hz)
      rw [hnext, Function.update_self]
    · intro z hz
      have hzlist : z ≠ list := fun h => hlist (h ▸ hb z hz)
      rw [Mem.back_of_ne hzlist, hback z hz, hp]
    · intro z hz
      have hzy : z ≠ y := fun h => hz (h ▸ hp)
      rw [hnext, Function.update_of_ne hzy]
    · intro z hz
      by_cases hzlist : z = list
      · rw [hzlist, Mem.back_self, Mem.back_self]
      · rw [Mem.back_of_ne hzlist, Mem.back_of_ne hzlist, hsame z hzlist hz]
  · have hpy : p ≠ y := fun h => hpS (h ▸ hy)
    rw [hnext, Function.update_of_ne hpy]
  · have hplist : p ≠ list := fun h => hpS (h ▸ List.mem_cons_self)
    exact hsame p hplist fun h => hpS (List.mem_cons_of_mem _ (hb p h))

/-- The head has the same element at both ends where there is no other. -/
theorem Kept.last_eq_next_iff (hm : Kept m list (a ++ x :: b)) :
    m.last list = m.next list ↔ a = [] ∧ b = [] := by
  have hnodup := (List.nodup_cons.mp hm.nodup).2
  rw [hm.last, hm.head]
  constructor
  · intro h
    cases a with
    | nil =>
      cases b with
      | nil => exact ⟨rfl, rfl⟩
      | cons z b =>
        rw [List.nil_append, List.getLast?_cons_cons] at h
        exact absurd (List.mem_of_getLast? h) (List.nodup_cons.mp hnodup).1
    | cons z a =>
      rw [List.getLast?_append, List.getLast?_cons, Option.some_or] at h
      obtain rfl : _ = z := Option.some_inj.mp h
      refine absurd ?_ (List.nodup_cons.mp hnodup).1
      refine List.mem_append_right _ ?_
      exact List.mem_of_getLast? List.getLast?_cons
  · rintro ⟨rfl, rfl⟩
    rfl

theorem listRemove_spec (hm : Kept m list (a ++ x :: b)) :
    ∃ m', listRemove m list x = some m' ∧ Kept m' list (a ++ b) ∧
      SameBut (list :: (a ++ x :: b)) m m' := by
  obtain ⟨hlist, hnodup⟩ := List.nodup_cons.mp hm.nodup
  obtain ⟨y, hy⟩ : ∃ y, (list :: a).getLast? = some y := ⟨_, List.getLast?_cons⟩
  have hxlist : x ≠ list := fun h =>
    hlist (h ▸ List.mem_append_right _ List.mem_cons_self)
  have hlinked : Linked m.next (m.back list) none ((list :: a) ++ x :: b) none := hm.linked
  obtain ⟨hlastx, hnextx, -⟩ := hlinked.middle
  rw [Mem.back_of_ne hxlist, hy] at hlastx
  rw [listRemove]
  by_cases hone : m.last list = m.next list
  · -- the only element: the head is initialized
    obtain ⟨rfl, rfl⟩ := hm.last_eq_next_iff.mp hone
    obtain rfl : list = y := Option.some_inj.mp hy
    rw [if_pos hone]
    refine ⟨_, rfl, hm.remove hy rfl ?_ (Function.update_self ..) ?_⟩
    · intro z hz
      cases hz
    · exact fun z hz _ => Function.update_of_ne hz _ _
  · rw [if_neg hone, hnextx]
    cases b with
    | nil =>
      -- the last element, but not the first one
      have ha : a ≠ [] := fun ha => hone (hm.last_eq_next_iff.mpr ⟨ha, rfl⟩)
      have hlast : a.getLast? = some y := by
        rw [← hy]
        cases a with
        | nil => exact absurd rfl ha
        | cons z a => exact List.getLast?_cons_cons.symm
      dsimp only [List.head?_nil]
      rw [Mem.setLast_last, Function.update_of_ne hxlist, hlastx]
      refine ⟨_, rfl, hm.remove hy ?_ ?_ ?_ ?_⟩
      · exact congrArg (Function.update m.next y) hnextx
      · intro z hz
        cases hz
      · rw [List.append_nil, hlast]
        exact Function.update_self ..
      · exact fun z hz _ => Function.update_of_ne hz _ _
    | cons z b =>
      -- there is an element behind it, whose link back is set
      have hxz : x ≠ z := fun h =>
        (List.nodup_cons.mp hnodup.of_append_right).1 (h ▸ List.mem_cons_self)
      have hzlist : list ≠ z := fun h => hlist (h ▸
        List.mem_append_right _ (List.mem_cons_of_mem _ List.mem_cons_self))
      dsimp only [List.head?_cons]
      rw [Mem.setLast_last, Function.update_of_ne hxz, hlastx]
      refine ⟨_, rfl, hm.remove hy ?_ ?_ ?_ ?_⟩
      · exact congrArg (Function.update m.next y) hnextx
      · intro w hw
        obtain rfl := Option.some_inj.mp hw
        exact Function.update_self ..
      · refine (Function.update_of_ne hzlist _ _).trans ?_
        rw [hm.last, List.getLast?_append, List.getLast?_append, List.getLast?_cons_cons]
      · intro w _ hw
        have hwz : w ≠ z := fun h => hw (congrArg some h.symm)
        exact Function.update_of_ne hwz _ _

theorem removeFound_spec (hm : Kept m list (a ++ x :: b)) :
    ∃ m', removeFound m list (some x) = some (some x, m') ∧ Kept m' list (a ++ b) ∧
      SameBut (list :: (a ++ x :: b)) m m' := by
  obtain ⟨m', hm', hkept⟩ := listRemove_spec hm
  refine ⟨m', ?_, hkept⟩
  rw [removeFound, hm']
  rfl

/-- The element at a place is removed, if there is one. -/
theorem removeFound_eraseIdx (hm : Kept m list l) (k : ℕ) :
    ∃ m', removeFound m list l[k]? = some (l[k]?, m') ∧ Kept m' list (l.eraseIdx k) ∧
      SameBut (list :: l) m m' := by
  by_cases hk : k < l.length
  · have hsplit : l = l.take k ++ l[k] :: l.drop (k + 1) := by
      rw [← List.drop_eq_getElem_cons hk, List.take_append_drop]
    rw [List.getElem?_eq_getElem hk, List.eraseIdx_eq_take_drop_succ]
    have hkept := hm
    rw [hsplit] at hkept
    obtain ⟨m', h, hm', hsame⟩ := removeFound_spec hkept
    rw [← hsplit] at hsame
    exact ⟨m', h, hm', hsame⟩
  · have hk := Nat.le_of_not_lt hk
    rw [List.getElem?_eq_none hk, List.eraseIdx_of_length_le hk]
    exact ⟨m, rfl, hm, fun _ _ => ⟨rfl, rfl⟩⟩

theorem listRemoveHead_eq (hm : Kept m list l) :
    listRemoveHead m list = removeFound m list l[0]? := by
  rw [listRemoveHead, hm.head, ← List.head?_eq_getElem?]
  by_cases hl : l = []
  · rw [if_pos (hm.listEmpty_iff.mpr hl), hl]
    rfl
  · rw [if_neg fun h => hl (hm.listEmpty_iff.mp h)]

theorem listRemoveTail_eq (hm : Kept m list l) :
    listRemoveTail m list = removeFound m list l[l.length - 1]? := by
  rw [listRemoveTail, hm.last, ← List.getLast?_eq_getElem?]
  by_cases hl : l = []
  · rw [if_pos (hm.listEmpty_iff.mpr hl), hl]
    rfl
  · rw [if_neg fun h => hl (hm.listEmpty_iff.mp h)]

omit [DecidableEq P] in
theorem lookupLoop_eq {next prev : P → Option P} {before : Option P}
    (hl : Linked next prev before l none) (k : ℕ) : lookupLoop next k l.head? = l[k]? := by
  induction k generalizing before l with
  | zero => exact List.head?_eq_getElem?
  | succ k ih =>
    cases l with
    | nil => rfl
    | cons z l =>
      obtain ⟨⟨-, hnext⟩, hl⟩ := hl
      rw [Option.or_none] at hnext
      rw [List.head?_cons, lookupLoop, hnext, ih hl, List.getElem?_cons_succ]

theorem listLookup_eq (hm : Kept m list l) (n : ℤ) :
    listLookup m list n = l[(asInt n - 1).toNat]? := by
  rw [listLookup, hm.head]
  exact lookupLoop_eq hm.linked.2 _

/-! ### The lists of the runtime -/

/-- The head of a list, or of the lookaside list of a descriptor. -/
inductive Head (H D : Type*)
  | list (h : H)
  | desc (d : D)
deriving DecidableEq

/-- The places where there is an `rpc_list_t`. -/
inductive Ptr (H D E : Type*)
  | head (h : Head H D)
  | elt (e : E)
deriving DecidableEq

/-- `returned` are the elements that the operations returned. -/
structure State (H D E : Type*) where
  mem : Mem (Ptr H D E)
  curSize : D → ℕ
  returned : List (Option (Ptr H D E)) := []

/-- What is allocated from the heap, with what the memory has in it. -/
structure Heap (H D E : Type*) where
  elt : E
  next : Option (Ptr H D E)
  last : Option (Ptr H D E)

/-- The operations.  `alloc` is one turn of the loop of `rpc__list_element_alloc`: `heap` is what
the heap has, and `again` says that the caller blocks and has turns left. -/
inductive Op (H D E : Type*)
  | add (h : H) (elt ins : E)
  | addHead (h : H) (elt : E)
  | addTail (h : H) (elt : E)
  | remove (h : H) (elt : E)
  | removeHead (h : H)
  | removeTail (h : H)
  | extract (h : H) (n : ℤ)
  | alloc (d : D) (heap : Option (Heap H D E)) (again : Bool)
  | free (d : D) (elt : E)

/-- What an operation that returns an element leaves. -/
def State.removed (s : State H D E) (r : Option (Option (Ptr H D E) × Mem (Ptr H D E))) :
    Option (State H D E) :=
  r.map fun (elt, mem) => { s with mem := mem, returned := s.returned ++ [elt] }

/-- A turn of the loop of `rpc__list_element_alloc`. -/
def elementAlloc (s : State H D E) (d : D) (heap : Option (Heap H D E)) (again : Bool) :
    Option (State H D E) :=
  if s.curSize d > 0 then
    let s := { s with curSize := Function.update s.curSize d (s.curSize d - 1) }
    s.removed (listRemoveHead s.mem (.head (.desc d)))
  else
    match heap with
    | some b =>
      let mem := (s.mem.setNext (.elt b.elt) b.next).setLast (.elt b.elt) b.last
      some { s with mem := mem, returned := s.returned ++ [some (.elt b.elt)] }
    | none => some (if again then s else { s with returned := s.returned ++ [none] })

/-- `rpc__list_element_free`. -/
def elementFree (maxSize : D → ℕ) (s : State H D E) (d : D) (elt : E) : Option (State H D E) :=
  if s.curSize d < maxSize d then
    let s := { s with curSize := Function.update s.curSize d (s.curSize d + 1) }
    (listAddTail s.mem (.head (.desc d)) (.elt elt)).map fun mem => { s with mem := mem }
  else some s

/-- `none` is a write through NULL. -/
def step (maxSize : D → ℕ) (s : State H D E) : Op H D E → Option (State H D E)
  | .add h elt ins =>
    some { s with mem := listAdd s.mem (.head (.list h)) (.elt elt) (.elt ins) }
  | .addHead h elt => some { s with mem := listAddHead s.mem (.head (.list h)) (.elt elt) }
  | .addTail h elt =>
    (listAddTail s.mem (.head (.list h)) (.elt elt)).map fun mem => { s with mem := mem }
  | .remove h elt =>
    (listRemove s.mem (.head (.list h)) (.elt elt)).map fun mem => { s with mem := mem }
  | .removeHead h => s.removed (listRemoveHead s.mem (.head (.list h)))
  | .removeTail h => s.removed (listRemoveTail s.mem (.head (.list h)))
  | .extract h n => s.removed (listExtract s.mem (.head (.list h)) n)
  | .alloc d heap again => elementAlloc s d heap again
  | .free d elt => elementFree maxSize s d elt

/-- The heads are initialized (`RPC_LIST_INIT`, `rpc__list_desc_init`); the elements have any
links. -/
def start (next last : E → Option (Ptr H D E)) : State H D E where
  mem := { next := fun p => match p with | .head _ => none | .elt e => next e
           last := fun p => match p with | .head _ => none | .elt e => last e }
  curSize _ := 0

/-! ### Lists without links -/

/-- The lists as such, and what was returned. -/
structure Lists (H D E : Type*) where
  of : Head H D → List E := fun _ => []
  returned : List (Option E) := []

/-- An element is put behind another one. -/
def insertAfter (y x : E) : List E → List E
  | [] => []
  | z :: l => if z = y then z :: x :: l else z :: insertAfter y x l

/-- The place of the nth element, which is counted from 1. -/
def place (n : ℤ) (l : List E) : Option ℕ :=
  if 1 ≤ n ∧ n ≤ l.length then some (n - 1).toNat else none

def Lists.put (A : Lists H D E) (h : Head H D) (l : List E) : Lists H D E :=
  { A with of := Function.update A.of h l }

def Lists.give (A : Lists H D E) (r : Option E) : Lists H D E :=
  { A with returned := A.returned ++ [r] }

/-- The same operations. -/
def Lists.step (maxSize : D → ℕ) (A : Lists H D E) : Op H D E → Lists H D E
  | .add h elt ins => A.put (.list h) (insertAfter elt ins (A.of (.list h)))
  | .addHead h elt => A.put (.list h) (elt :: A.of (.list h))
  | .addTail h elt => A.put (.list h) (A.of (.list h) ++ [elt])
  | .remove h elt => A.put (.list h) ((A.of (.list h)).erase elt)
  | .removeHead h =>
    (A.put (.list h) (A.of (.list h)).tail).give (A.of (.list h)).head?
  | .removeTail h =>
    (A.put (.list h) (A.of (.list h)).dropLast).give (A.of (.list h)).getLast?
  | .extract h n =>
    match place n (A.of (.list h)) with
    | some k => (A.put (.list h) ((A.of (.list h)).eraseIdx k)).give (A.of (.list h))[k]?
    | none => A.give none
  | .alloc d heap again =>
    if A.of (.desc d) ≠ [] then
      (A.put (.desc d) (A.of (.desc d)).tail).give (A.of (.desc d)).head?
    else
      match heap with
      | some b => A.give (some b.elt)
      | none => if again then A else A.give none
  | .free d elt =>
    if (A.of (.desc d)).length < maxSize d then A.put (.desc d) (A.of (.desc d) ++ [elt]) else A

/-- An element is on no list. -/
def Lists.Free (A : Lists H D E) (x : E) : Prop := ∀ h, x ∉ A.of h

/-- An element is added when it is on no list, and removed from the list that it is on. -/
def Legal (A : Lists H D E) : Op H D E → Prop
  | .add h elt ins => elt ∈ A.of (.list h) ∧ A.Free ins
  | .addHead _ elt => A.Free elt
  | .addTail _ elt => A.Free elt
  | .remove h elt => elt ∈ A.of (.list h)
  | .alloc d (some b) _ => A.of (.desc d) = [] → A.Free b.elt
  | .free _ elt => A.Free elt
  | _ => True

/-- The number of an element is one for an `int`, or there is no element with this number,
neither before it is converted nor after. -/
def Fits (A : Lists H D E) : Op H D E → Prop
  | .extract h n => (1 ≤ n ∧ n < 2 ^ 31) ∨
      (A.of (.list h) = [] ∨ (A.of (.list h)).length < asInt n) ∧
        (n < 1 ∨ (A.of (.list h)).length < n)
  | _ => True

/-- The links, the sizes and what was returned are those of the lists. -/
structure Represents (maxSize : D → ℕ) (A : Lists H D E) (s : State H D E) : Prop where
  forward : ∀ h, Path s.mem.next (s.mem.next (.head h)) ((A.of h).map .elt) none
  backward : ∀ h, A.of h ≠ [] →
    Path s.mem.last (s.mem.last (.head h)) ((A.of h).map .elt).reverse (some (.head h))
  last : ∀ h, s.mem.last (.head h) = (A.of h).getLast?.map .elt
  empty : ∀ h, A.of h = [] → s.mem.next (.head h) = none ∧ s.mem.last (.head h) = none
  curSize : ∀ d, s.curSize d = (A.of (.desc d)).length
  maxSize : ∀ d, s.curSize d ≤ maxSize d
  returned : s.returned = A.returned.map (Option.map .elt)

/-! ### Steps -/

variable {maxSize : D → ℕ} {A : Lists H D E} {s : State H D E}

/-- What holds after each step: an element is on one list. -/
structure Inv (maxSize : D → ℕ) (A : Lists H D E) (s : State H D E) : Prop where
  kept : ∀ h, Kept s.mem (.head h) ((A.of h).map .elt)
  once : ∀ h h' e, e ∈ A.of h → e ∈ A.of h' → h = h'
  curSize : ∀ d, s.curSize d = (A.of (.desc d)).length
  maxSize : ∀ d, s.curSize d ≤ maxSize d
  returned : s.returned = A.returned.map (Option.map .elt)

theorem inv_start (next last : E → Option (Ptr H D E)) :
    Inv maxSize ({} : Lists H D E) (start next last) where
  kept _ := ⟨⟨⟨Mem.back_self, rfl⟩, trivial⟩, rfl, List.nodup_singleton _⟩
  once _ _ _ h := (List.not_mem_nil h).elim
  curSize _ := rfl
  maxSize _ := Nat.zero_le _
  returned := rfl

theorem Inv.represents (h : Inv maxSize A s) : Represents maxSize A s where
  forward k := by
    have hpath := (h.kept k).linked.2.path
    rw [Option.or_none, ← (h.kept k).head] at hpath
    exact hpath
  backward k hne := by
    have hlinked : Linked s.mem.next s.mem.last (some (.head k)) ((A.of k).map .elt) none := by
      refine (h.kept k).linked.2.congr (fun _ _ => rfl) fun p hp => ?_
      refine (Mem.back_of_ne ?_).symm
      rintro rfl
      exact (List.nodup_cons.mp (h.kept k).nodup).1 hp
    have hpath := hlinked.path_reverse
    obtain ⟨x, hx⟩ : ∃ x, ((A.of k).map (Ptr.elt (H := H) (D := D))).getLast? = some x :=
      ⟨_, List.getLast?_eq_some_getLast (fun hnil => hne (List.map_eq_nil_iff.mp hnil))⟩
    rw [hx, Option.some_or, ← hx, ← (h.kept k).last] at hpath
    exact hpath
  last k := by rw [(h.kept k).last, List.getLast?_map]
  empty k hnil := by rw [(h.kept k).head, (h.kept k).last, hnil]; exact ⟨rfl, rfl⟩
  curSize := h.curSize
  maxSize := h.maxSize
  returned := h.returned

theorem Inv.give (h : Inv maxSize A s) (r : Option E) :
    Inv maxSize (A.give r) { s with returned := s.returned ++ [r.map .elt] } where
  kept := h.kept
  once := h.once
  curSize := h.curSize
  maxSize := h.maxSize
  returned := by
    show s.returned ++ _ = (A.returned ++ [r]).map _
    rw [h.returned, List.map_append]
    rfl

/-- Nothing is written but to a list and to elements that are on no other list. -/
theorem Inv.store (h : Inv maxSize A s) {mem : Mem (Ptr H D E)} {k : Head H D} {l : List E}
    {S : List E} (hkept : Kept mem (.head k) (l.map .elt))
    (hsame : SameBut (.head k :: S.map .elt) s.mem mem) (hS : ∀ e ∈ S, ∀ k', k' ≠ k → e ∉ A.of k')
    (hl : l ⊆ S) {curSize : D → ℕ}
    (hcur : ∀ d, curSize d = (Function.update A.of k l (.desc d)).length)
    (hmax : ∀ d, curSize d ≤ maxSize d) :
    Inv maxSize (A.put k l) { s with mem := mem, curSize := curSize } where
  kept k' := by
    show Kept mem (.head k') ((Function.update A.of k l k').map .elt)
    by_cases hk : k' = k
    · rw [hk, Function.update_self]
      exact hkept
    · rw [Function.update_of_ne hk]
      refine (h.kept k').congr fun p hp => hsame p fun hpS => ?_
      rcases List.mem_cons.mp hp with rfl | hp
      · rcases List.mem_cons.mp hpS with hpk | hpS
        · exact hk (Ptr.head.inj hpk)
        · obtain ⟨e, -, he⟩ := List.mem_map.mp hpS
          cases he
      · obtain ⟨e, he, rfl⟩ := List.mem_map.mp hp
        rcases List.mem_cons.mp hpS with hpk | hpS
        · cases hpk
        · obtain ⟨e', he', hee⟩ := List.mem_map.mp hpS
          obtain rfl := Ptr.elt.inj hee
          exact hS e' he' k' hk he
  once k₁ k₂ e := by
    show e ∈ Function.update A.of k l k₁ → e ∈ Function.update A.of k l k₂ → k₁ = k₂
    by_cases h₁ : k₁ = k
    · by_cases h₂ : k₂ = k
      · exact fun _ _ => h₁.trans h₂.symm
      · rw [h₁, Function.update_self, Function.update_of_ne h₂]
        exact fun he he' => absurd he' (hS e (hl he) k₂ h₂)
    · by_cases h₂ : k₂ = k
      · rw [h₂, Function.update_self, Function.update_of_ne h₁]
        exact fun he he' => absurd he (hS e (hl he') k₁ h₁)
      · rw [Function.update_of_ne h₁, Function.update_of_ne h₂]
        exact h.once k₁ k₂ e
  curSize := hcur
  maxSize := hmax
  returned := h.returned

/-- An element that is on no list is added. -/
theorem Inv.insert (h : Inv maxSize A s) {k : Head H D} {a b : List E} {x : E} {y : Ptr H D E}
    (hx : A.Free x) (hsplit : A.of k = a ++ b) (hy : (.head k :: a.map .elt).getLast? = some y)
    {curSize : D → ℕ}
    (hcur : ∀ d, curSize d = (Function.update A.of k (a ++ x :: b) (.desc d)).length)
    (hmax : ∀ d, curSize d ≤ maxSize d) :
    Inv maxSize (A.put k (a ++ x :: b))
      { s with mem := listAdd s.mem (.head k) y (.elt x), curSize := curSize } := by
  have hkept := h.kept k
  rw [hsplit, List.map_append] at hkept
  have hxnot : Ptr.elt x ∉ .head k :: (a.map .elt ++ b.map .elt) := by
    rw [← List.map_append, ← hsplit, List.mem_cons]
    rintro (hxk | hxk)
    · cases hxk
    · obtain ⟨e, he, hex⟩ := List.mem_map.mp hxk
      obtain rfl := Ptr.elt.inj hex
      exact hx k he
  obtain ⟨hadd, hsame⟩ := listAdd_spec hkept hy hxnot
  refine h.store (S := x :: (a ++ b)) ?_ ?_ ?_ ?_ hcur hmax
  · rw [List.map_append, List.map_cons]
    exact hadd
  · intro p hp
    refine hsame p fun hp' => hp ?_
    rw [← List.map_append] at hp'
    rw [List.map_cons]
    exact (List.Perm.swap _ _ _).mem_iff.mp hp'
  · intro e he k' hk hmem
    rcases List.mem_cons.mp he with rfl | he
    · exact hx k' hmem
    · exact hk (h.once k' k e hmem (hsplit ▸ he))
  · exact fun e he => List.perm_middle.mem_iff.mp he

/-- The element at a place is removed, if there is one. -/
theorem Inv.eraseIdx (h : Inv maxSize A s) (k : Head H D) (i : ℕ) :
    ∃ mem, removeFound s.mem (.head k) ((A.of k)[i]?.map .elt) =
        some ((A.of k)[i]?.map .elt, mem) ∧
      ∀ curSize : D → ℕ,
        (∀ d, curSize d = (Function.update A.of k ((A.of k).eraseIdx i) (.desc d)).length) →
        (∀ d, curSize d ≤ maxSize d) →
        Inv maxSize (A.put k ((A.of k).eraseIdx i)) { s with mem := mem, curSize := curSize } := by
  obtain ⟨mem, hmem, hkept, hsame⟩ := removeFound_eraseIdx (h.kept k) i
  rw [List.getElem?_map] at hmem
  rw [List.eraseIdx_map] at hkept
  refine ⟨mem, hmem, fun curSize hcur hmax => ?_⟩
  refine h.store hkept hsame ?_ (List.eraseIdx_subset) hcur hmax
  exact fun e he k' hk hmem' => hk (h.once k' k e hmem' he)

/-- A list without a descriptor does not change the sizes. -/
theorem Inv.curSize_list (h : Inv maxSize A s) (k : H) (l : List E) (d : D) :
    s.curSize d = (Function.update A.of (.list k) l (.desc d)).length := by
  have hne : (Head.desc d : Head H D) ≠ .list k := fun h => by cases h
  rw [Function.update_of_ne hne]
  exact h.curSize d

theorem Inv.curSize_desc (h : Inv maxSize A s) (d : D) (l : List E) (d' : D) :
    Function.update s.curSize d l.length d' =
      (Function.update A.of (.desc d) l (.desc d')).length := by
  by_cases hd : d' = d
  · rw [hd, Function.update_self, Function.update_self]
  · have hdesc : (Head.desc d' : Head H D) ≠ .desc d := fun h => hd (Head.desc.inj h)
    rw [Function.update_of_ne hd, Function.update_of_ne hdesc]
    exact h.curSize d'

theorem Inv.maxSize_desc (h : Inv maxSize A s) {d : D} {n : ℕ} (hn : n ≤ maxSize d) (d' : D) :
    Function.update s.curSize d n d' ≤ maxSize d' := by
  by_cases hd : d' = d
  · rw [hd, Function.update_self]
    exact hn
  · rw [Function.update_of_ne hd]
    exact h.maxSize d'

theorem mem_insertAfter {y x : E} {l : List E} (hy : y ∈ l) :
    ∃ a b, l = a ++ y :: b ∧ insertAfter y x l = a ++ y :: x :: b := by
  induction l with
  | nil => cases hy
  | cons z l ih =>
    by_cases hz : z = y
    · exact ⟨[], l, by rw [hz]; rfl, by rw [insertAfter, if_pos hz, hz]; rfl⟩
    · obtain ⟨a, b, hl, hins⟩ := ih ((List.mem_cons.mp hy).resolve_left (Ne.symm hz))
      refine ⟨z :: a, b, by rw [hl]; rfl, ?_⟩
      rw [insertAfter, if_neg hz, hins]
      rfl

theorem inv_add (h : Inv maxSize A s) {k : H} {y x : E} (hy : y ∈ A.of (.list k)) (hx : A.Free x) :
    Inv maxSize (A.put (.list k) (insertAfter y x (A.of (.list k))))
      { s with mem := listAdd s.mem (.head (.list k)) (.elt y) (.elt x) } := by
  obtain ⟨a, b, hl, hins⟩ := mem_insertAfter (x := x) hy
  have hsplit : A.of (.list k) = a ++ [y] ++ b := by rw [hl, List.append_assoc]; rfl
  have hput : insertAfter y x (A.of (.list k)) = a ++ [y] ++ x :: b := by
    rw [hins, List.append_assoc]
    rfl
  rw [hput]
  refine h.insert hx hsplit ?_ (h.curSize_list k _) h.maxSize
  rw [List.map_append, ← List.cons_append]
  exact List.getLast?_concat

theorem inv_addHead (h : Inv maxSize A s) {k : H} {x : E} (hx : A.Free x) :
    Inv maxSize (A.put (.list k) (x :: A.of (.list k)))
      { s with mem := listAddHead s.mem (.head (.list k)) (.elt x) } := by
  have hne : (Ptr.elt x : Ptr H D E) ≠ .head (.list k) := fun h => by cases h
  rw [listAddHead_eq hne]
  exact h.insert (a := []) hx rfl rfl (h.curSize_list k _) h.maxSize

/-- What `RPC_LIST_ADD_TAIL` does to a list, or to that of a descriptor. -/
theorem inv_addTail (h : Inv maxSize A s) {k : Head H D} {x : E} (hx : A.Free x) :
    ∃ mem, listAddTail s.mem (.head k) (.elt x) = some mem ∧
      ∀ curSize : D → ℕ,
        (∀ d, curSize d = (Function.update A.of k (A.of k ++ [x]) (.desc d)).length) →
        (∀ d, curSize d ≤ maxSize d) →
        Inv maxSize (A.put k (A.of k ++ [x])) { s with mem := mem, curSize := curSize } := by
  obtain ⟨y, hy⟩ : ∃ y, (Ptr.head k :: (A.of k).map .elt).getLast? = some y :=
    ⟨_, List.getLast?_cons⟩
  have hxnot : Ptr.elt x ∉ .head k :: (A.of k).map .elt := by
    rw [List.mem_cons]
    rintro (hxk | hxk)
    · cases hxk
    · obtain ⟨e, he, hex⟩ := List.mem_map.mp hxk
      obtain rfl := Ptr.elt.inj hex
      exact hx k he
  refine ⟨_, listAddTail_eq (h.kept k) hxnot hy, fun curSize hcur hmax => ?_⟩
  exact h.insert (b := []) hx (List.append_nil _).symm hy hcur hmax

theorem inv_remove (h : Inv maxSize A s) {k : H} {x : E} (hx : x ∈ A.of (.list k)) :
    ∃ mem, listRemove s.mem (.head (.list k)) (.elt x) = some mem ∧
      Inv maxSize (A.put (.list k) ((A.of (.list k)).erase x)) { s with mem := mem } := by
  obtain ⟨mem, hmem, hinv⟩ := h.eraseIdx (.list k) ((A.of (.list k)).idxOf x)
  rw [List.getElem?_idxOf hx] at hmem
  obtain ⟨mem', hmem', heq⟩ := Option.map_eq_some_iff.mp hmem
  obtain rfl : mem' = mem := (Prod.mk.inj heq).2
  refine ⟨mem', hmem', ?_⟩
  rw [List.erase_eq_eraseIdx_of_idxOf rfl]
  exact hinv _ (h.curSize_list k _) h.maxSize

/-- The element at a place is removed from a list and returned. -/
theorem inv_removed (h : Inv maxSize A s) (k : H) (i : ℕ) :
    ∃ s', s.removed (removeFound s.mem (.head (.list k)) ((A.of (.list k))[i]?.map .elt)) =
        some s' ∧ s'.returned = s.returned ++ [(A.of (.list k))[i]?.map .elt] ∧
      Inv maxSize ((A.put (.list k) ((A.of (.list k)).eraseIdx i)).give (A.of (.list k))[i]?)
        s' := by
  obtain ⟨mem, hmem, hinv⟩ := h.eraseIdx (.list k) i
  rw [hmem]
  exact ⟨_, rfl, rfl, (hinv _ (h.curSize_list k _) h.maxSize).give _⟩

/-- A turn of the loop of `rpc__list_element_alloc`. -/
theorem inv_alloc (h : Inv maxSize A s) (d : D) (heap : Option (Heap H D E)) (again : Bool)
    (hlegal : Legal A (.alloc d heap again)) :
    ∃ s', elementAlloc s d heap again = some s' ∧
      Inv maxSize (A.step maxSize (.alloc d heap again)) s' := by
  rw [elementAlloc.eq_def, Lists.step.eq_def]
  dsimp only
  by_cases hempty : A.of (.desc d) = []
  · have hzero : ¬ s.curSize d > 0 := by
      rw [h.curSize d, hempty]
      exact Nat.lt_irrefl 0
    rw [if_neg hzero, if_neg (not_not.mpr hempty)]
    cases heap with
    | none =>
      refine ⟨_, rfl, ?_⟩
      cases again with
      | true => exact h
      | false => exact h.give none
    | some b =>
      -- the element is on no list, so its links concern none
      refine ⟨_, rfl, Inv.give (s := { s with mem := _ }) ?_ (some b.elt)⟩
      refine ⟨fun k => (h.kept k).congr fun p hp => ?_, h.once, h.curSize, h.maxSize, h.returned⟩
      have hne : p ≠ .elt b.elt := by
        rintro rfl
        rcases List.mem_cons.mp hp with hp | hp
        · cases hp
        · obtain ⟨e, he, heb⟩ := List.mem_map.mp hp
          obtain rfl := Ptr.elt.inj heb
          exact hlegal hempty k he
      exact ⟨Function.update_of_ne hne _ _, Function.update_of_ne hne _ _⟩
  · have hpos : s.curSize d > 0 := by
      rw [h.curSize d]
      exact List.length_pos_of_ne_nil hempty
    rw [if_pos hpos, if_pos hempty]
    obtain ⟨mem, hmem, hinv⟩ := h.eraseIdx (.desc d) 0
    have hkept := h.kept (.desc d)
    rw [← List.getElem?_map, ← listRemoveHead_eq hkept, List.getElem?_map] at hmem
    rw [hmem, List.head?_eq_getElem?]
    refine ⟨_, rfl, ?_⟩
    rw [List.eraseIdx_zero] at hinv
    have hlen : s.curSize d - 1 = (A.of (.desc d)).tail.length := by
      rw [h.curSize d, List.length_tail]
    rw [hlen]
    refine (hinv _ (h.curSize_desc d _) (h.maxSize_desc ?_)).give _
    rw [← hlen]
    exact (Nat.sub_le _ _).trans (h.maxSize d)

/-- `rpc__list_element_free`. -/
theorem inv_free (h : Inv maxSize A s) (d : D) {x : E} (hx : A.Free x) :
    ∃ s', elementFree maxSize s d x = some s' ∧ Inv maxSize (A.step maxSize (.free d x)) s' := by
  rw [elementFree, Lists.step, ← h.curSize d]
  by_cases hroom : s.curSize d < maxSize d
  · rw [if_pos hroom, if_pos hroom]
    obtain ⟨mem, hmem, hinv⟩ := inv_addTail h (k := .desc d) hx
    dsimp only
    rw [hmem]
    refine ⟨_, rfl, ?_⟩
    have hlen : s.curSize d + 1 = (A.of (.desc d) ++ [x]).length := by
      rw [h.curSize d, List.length_append]
      rfl
    rw [hlen]
    refine hinv _ (h.curSize_desc d _) (h.maxSize_desc ?_)
    rw [← hlen]
    exact hroom
  · rw [if_neg hroom, if_neg hroom]
    exact ⟨s, rfl, h⟩

/-! ### The nth element -/

theorem asInt_lt (n : ℤ) : asInt n < 2 ^ 31 := Int.bmod_lt (by decide)

theorem asInt_eq {n : ℤ} (h : 1 ≤ n) (hlt : n < 2 ^ 31) : asInt n = n := by
  apply Int.bmod_eq_of_le <;> norm_num <;> omega

omit [DecidableEq H] [DecidableEq D] [DecidableEq E] in
theorem fits_extract_iff {k : H} (n : ℤ) (hnodup : (A.of (.list k)).Nodup) :
    Fits A (.extract k n) ↔ (A.of (.list k))[(asInt n - 1).toNat]? =
      (place n (A.of (.list k))).bind fun i => (A.of (.list k))[i]? := by
  rw [Fits]
  generalize A.of (.list k) = l at hnodup
  have hasInt := asInt_lt n
  rw [place]
  by_cases hplace : 1 ≤ n ∧ n ≤ l.length
  · -- no element is on the list twice, so the element tells its place
    rw [if_pos hplace, Option.bind_some]
    have hi : (n - 1).toNat < l.length := by omega
    constructor
    · rintro (⟨hpos, hlt⟩ | ⟨-, h⟩)
      · rw [asInt_eq hpos hlt]
      · omega
    · intro h
      rw [List.getElem?_eq_getElem hi] at h
      obtain ⟨hk, hget⟩ := List.getElem?_eq_some_iff.mp h
      have heq := (hnodup.getElem_inj_iff).mp hget
      omega
  · rw [if_neg hplace, Option.bind_none, List.getElem?_eq_none_iff, ← List.length_eq_zero_iff]
    constructor
    · rintro (⟨hpos, hlt⟩ | ⟨h, -⟩)
      · rw [asInt_eq hpos hlt]
        omega
      · omega
    · intro h
      by_cases hpos : 1 ≤ n ∧ n < 2 ^ 31
      · exact .inl hpos
      · exact .inr ⟨by omega, by omega⟩

/-- An element is extracted at the place that the converted number has; it is the right one, or
there is none, exactly where the number fits. -/
theorem extract_spec (h : Inv maxSize A s) (k : H) (n : ℤ) :
    ∃ s', s.removed (listExtract s.mem (.head (.list k)) n) = some s' ∧
      (Fits A (.extract k n) → Inv maxSize (A.step maxSize (.extract k n)) s') ∧
      (s'.returned = (A.step maxSize (.extract k n)).returned.map (Option.map .elt) →
        Fits A (.extract k n)) := by
  have hnodup : (A.of (.list k)).Nodup :=
    (List.nodup_cons.mp (h.kept (.list k)).nodup).2.of_map _
  obtain ⟨s', hs', hreturned, hinv⟩ := inv_removed h k (asInt n - 1).toNat
  rw [← List.getElem?_map, ← listLookup_eq (h.kept (.list k))] at hs'
  refine ⟨s', hs', ?_⟩
  rw [fits_extract_iff n hnodup, Lists.step.eq_def]
  dsimp only
  cases hplace : place n (A.of (.list k)) with
  | none =>
    rw [Option.bind_none]
    refine ⟨fun hfits => ?_, fun heq => ?_⟩
    · have hlen := List.getElem?_eq_none_iff.mp hfits
      rw [List.eraseIdx_of_length_le hlen, hfits] at hinv
      have hput : A.put (.list k) (A.of (.list k)) = A := by
        rw [Lists.put, Function.update_eq_self]
      rwa [hput] at hinv
    · rw [hreturned, h.returned, Lists.give, List.map_append] at heq
      exact Option.map_eq_none_iff.mp (List.singleton_inj.mp (List.append_cancel_left heq))
  | some i =>
    rw [Option.bind_some]
    have hi : i < (A.of (.list k)).length := by
      rw [place] at hplace
      split at hplace
      · obtain rfl := Option.some_inj.mp hplace
        omega
      · cases hplace
    refine ⟨fun hfits => ?_, fun heq => ?_⟩
    · rw [List.getElem?_eq_getElem hi] at hfits
      obtain ⟨hk, hget⟩ := List.getElem?_eq_some_iff.mp hfits
      have hsame := hnodup.getElem_inj_iff.mp hget
      rwa [hsame] at hinv
    · rw [hreturned, h.returned] at heq
      change _ = (A.returned ++ [(A.of (.list k))[i]?]).map (Option.map Ptr.elt) at heq
      rw [List.map_append] at heq
      exact Option.map_injective (fun _ _ => Ptr.elt.inj)
        (List.singleton_inj.mp (List.append_cancel_left heq))

/-- What a step does, and to the lists without links. -/
theorem step_spec (h : Inv maxSize A s) (op : Op H D E) (hlegal : Legal A op) :
    ∃ s', step maxSize s op = some s' ∧
      (Fits A op → Inv maxSize (A.step maxSize op) s') ∧
      (s'.returned = (A.step maxSize op).returned.map (Option.map .elt) → Fits A op) := by
  cases op with
  | add k y x => exact ⟨_, rfl, fun _ => inv_add h hlegal.1 hlegal.2, fun _ => trivial⟩
  | addHead k x => exact ⟨_, rfl, fun _ => inv_addHead h hlegal, fun _ => trivial⟩
  | addTail k x =>
    obtain ⟨mem, hmem, hinv⟩ := inv_addTail h (k := .list k) hlegal
    refine ⟨{ s with mem := mem }, ?_, fun _ => ?_, fun _ => trivial⟩
    · rw [step, hmem]
      rfl
    · exact hinv _ (h.curSize_list k _) h.maxSize
  | remove k x =>
    obtain ⟨mem, hmem, hinv⟩ := inv_remove h hlegal
    refine ⟨{ s with mem := mem }, ?_, fun _ => hinv, fun _ => trivial⟩
    rw [step, hmem]
    rfl
  | removeHead k =>
    obtain ⟨s', hs', -, hinv⟩ := inv_removed h k 0
    rw [← List.getElem?_map, ← listRemoveHead_eq (h.kept (.list k))] at hs'
    rw [List.eraseIdx_zero, ← List.head?_eq_getElem?] at hinv
    exact ⟨s', hs', fun _ => hinv, fun _ => trivial⟩
  | removeTail k =>
    obtain ⟨s', hs', -, hinv⟩ := inv_removed h k ((A.of (.list k)).length - 1)
    rw [← List.getElem?_map, ← List.length_map (f := Ptr.elt (H := H) (D := D)),
      ← listRemoveTail_eq (h.kept (.list k))] at hs'
    rw [List.eraseIdx_length_sub_one, ← List.getLast?_eq_getElem?] at hinv
    exact ⟨s', hs', fun _ => hinv, fun _ => trivial⟩
  | extract k n => exact extract_spec h k n
  | alloc d heap again =>
    obtain ⟨s', hs', hinv⟩ := inv_alloc h d heap again hlegal
    exact ⟨s', hs', fun _ => hinv, fun _ => trivial⟩
  | free d x =>
    obtain ⟨s', hs', hinv⟩ := inv_free h d hlegal
    exact ⟨s', hs', fun _ => hinv, fun _ => trivial⟩

/-! ### Runs -/

/-- Along a run of the operations on lists without links. -/
def AlongLists (maxSize : D → ℕ) (Q : Lists H D E → Op H D E → Prop) :
    Lists H D E → List (Op H D E) → Prop :=
  Runs.Along (fun A op => some (A.step maxSize op)) Q

theorem alongLists_cons {Q : Lists H D E → Op H D E → Prop} {op : Op H D E}
    {ops : List (Op H D E)} : AlongLists maxSize Q A (op :: ops) ↔
      Q A op ∧ AlongLists maxSize Q (A.step maxSize op) ops := by
  rw [AlongLists, Runs.along_cons]
  refine and_congr_right fun _ => ⟨fun h => h _ rfl, fun h A' hA' => ?_⟩
  obtain rfl := Option.some_inj.mp hA'
  exact h

theorem represented_iff {ops : List (Op H D E)} (h : Inv maxSize A s)
    (hlegal : AlongLists maxSize Legal A ops) :
    (∀ n, ∃ t, Runs.exec (step maxSize) s (ops.take n) = some t ∧
      Represents maxSize ((ops.take n).foldl (Lists.step maxSize) A) t) ↔
        AlongLists maxSize Fits A ops := by
  induction ops generalizing A s with
  | nil =>
    refine iff_of_true (fun n => ⟨s, ?_, ?_⟩) trivial
    · rw [List.take_nil, Runs.exec_nil]
    · rw [List.take_nil]
      exact h.represents
  | cons op ops ih =>
    obtain ⟨hop, hlegal⟩ := alongLists_cons.mp hlegal
    obtain ⟨s', hs', hinv, hfits⟩ := step_spec h op hop
    rw [alongLists_cons]
    constructor
    · intro hall
      -- the state after one step decides about this one
      have hone : Fits A op := by
        obtain ⟨t, ht, hrep⟩ := hall 1
        rw [List.take_succ_cons, List.take_zero, Runs.exec, hs'] at ht
        obtain rfl : s' = t := Option.some_inj.mp ht
        exact hfits hrep.returned
      refine ⟨hone, (ih (hinv hone) hlegal).mp fun n => ?_⟩
      obtain ⟨t, ht, hrep⟩ := hall (n + 1)
      rw [List.take_succ_cons, Runs.exec, hs', Option.bind_some] at ht
      rw [List.take_succ_cons, List.foldl_cons] at hrep
      exact ⟨t, ht, hrep⟩
    · rintro ⟨hone, hrest⟩ n
      cases n with
      | zero => exact ⟨s, rfl, h.represents⟩
      | succ n =>
        obtain ⟨t, ht, hrep⟩ := (ih (hinv hone) hlegal).mpr hrest n
        refine ⟨t, ?_, hrep⟩
        rw [List.take_succ_cons, Runs.exec, hs', Option.bind_some]
        exact ht

/-- **The links represent the lists** at all times exactly in the runs in which an element is
extracted only at a place that an `int` can have, or where there is none. -/
theorem lists_represented (maxSize : D → ℕ) (next last : E → Option (Ptr H D E))
    {ops : List (Op H D E)} (hlegal : AlongLists maxSize Legal {} ops) :
    (∀ n, ∃ s, Runs.exec (step maxSize) (start next last) (ops.take n) = some s ∧
      Represents maxSize ((ops.take n).foldl (Lists.step maxSize) {}) s) ↔
        AlongLists maxSize Fits {} ops :=
  represented_iff (inv_start next last) hlegal

/-- Two elements are added; the second one is extracted, and comes and goes by a lookaside list. -/
def twoElements : List (Op Unit Unit ℕ) :=
  [.addHead () 0, .addTail () 1, .extract () 2, .free () 1, .alloc () none false]

theorem lists_represented_two : ∃ s,
    Runs.exec (step fun _ => 1) (start (fun _ => none) fun _ => none) twoElements = some s ∧
      Represents (fun _ => 1) (twoElements.foldl (Lists.step fun _ => 1) {}) s := by
  have hlegal : AlongLists (fun _ => 1) Legal {} twoElements := by
    refine alongLists_cons.mpr ⟨fun _ => List.not_mem_nil, ?_⟩
    refine alongLists_cons.mpr ⟨fun h => ?_, ?_⟩
    · rcases h with ⟨⟨⟩⟩ | ⟨⟨⟩⟩ <;> decide
    refine alongLists_cons.mpr ⟨trivial, ?_⟩
    refine alongLists_cons.mpr ⟨fun h => ?_, ?_⟩
    · rcases h with ⟨⟨⟩⟩ | ⟨⟨⟩⟩ <;> decide
    exact alongLists_cons.mpr ⟨trivial, trivial⟩
  have hfits : AlongLists (fun _ => 1) Fits {} twoElements := by
    refine alongLists_cons.mpr ⟨trivial, alongLists_cons.mpr ⟨trivial, ?_⟩⟩
    refine alongLists_cons.mpr ⟨.inl (by decide), alongLists_cons.mpr ⟨trivial, ?_⟩⟩
    exact alongLists_cons.mpr ⟨trivial, trivial⟩
  exact (lists_represented _ _ _ hlegal).mpr hfits 5

/-- A list of one element, of which element 2147483648 is extracted. -/
def beyondInt : List (Op Unit Unit ℕ) := [.addHead () 0, .extract () (2 ^ 31)]

/-- There is no such element, and the only one is taken. -/
theorem extract_beyond : AlongLists (fun _ => 1) Legal {} beyondInt ∧
    ∃ s, Runs.exec (step fun _ => 1) (start (fun _ => none) fun _ => none) beyondInt = some s ∧
      s.returned = [some (.elt 0)] ∧
      ¬ Represents (fun _ => 1) (beyondInt.foldl (Lists.step fun _ => 1) {}) s := by
  refine ⟨alongLists_cons.mpr ⟨fun _ => List.not_mem_nil, alongLists_cons.mpr ⟨trivial, trivial⟩⟩,
    _, rfl, rfl, fun h => ?_⟩
  have hreturned : ([some (.elt 0)] : List (Option (Ptr Unit Unit ℕ))) = [none] := h.returned
  cases hreturned

end RpcList

end Com
