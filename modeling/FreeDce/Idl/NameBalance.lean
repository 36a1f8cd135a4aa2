/-
The rebuilding of the name table of the IDL compiler (nametbl.c).

The names are the nodes of a binary search tree, which is built anew from the same nodes: a walk in
order, which reverses the left links on its way down, hands them to an array, whose element `i + 1`
has the root of a subtree where bit `i` of the number of nodes is set.

* `findFirstSet_eq` — the masks find the lowest bit;
* `descend_spec`, `visit_spec`, `walkLoop_spec` — what the walk has done and what is left to it;
* `balanceTree_spec` — the new tree has the same nodes in the same order, with their parents;
* `balanceTree_lowest` — no tree of so many nodes is lower.
-/
import FreeDce.Lib.LinkedTree

namespace Idl

namespace Nametable

open LinkedTree BinaryTree

/-! ### The routines -/

/-- One line of `find_first_set`: a half of what is left has a bit, or the other half has. -/
def halve (mask width : ℕ) (s : ℕ × ℕ) : ℕ × ℕ :=
  if s.2 &&& mask ≠ 0 then (s.1 - width, s.2 &&& mask) else s

/-- `find_first_set`. -/
def findFirstSet (n : ℕ) : ℕ :=
  (halve 0x55555555 1 (halve 0x33333333 2 (halve 0x0f0f0f0f 4 (halve 0x00ff00ff 8
    (halve 0x0000ffff 16 (31, n)))))).1

def balanceArrSize : ℕ := 33

/-- The back pointer is stored in the left link. -/
def reverseLink (m : Links) (this : ℕ) (back : Option ℕ) : Links :=
  match back with
  | some b => (m.setLeft this back).setParent b (some this)
  | none => m.setLeft this back

/-- The loop down the left links, which are reversed; `none` if it takes more than so many turns. -/
def descend : ℕ → Links → Option ℕ → Option ℕ → Option (Links × Option ℕ)
  | _, m, none, back => some (m, back)
  | 0, _, some _, _ => none
  | n + 1, m, some this, back => descend n (reverseLink m this back) (m.left this) (some this)

/-- The links, the array and the number of nodes that were visited. -/
structure Walk where
  m : Links
  arr : ℕ → Option ℕ := fun _ => none
  n : ℕ := 0

/-- `temp->parent = This`, unless `temp` is NULL. -/
def adopt (m : Links) (temp : Option ℕ) (this : ℕ) : Links :=
  match temp with
  | some t => m.setParent t (some this)
  | none => m

/-- `This` becomes the right son of `temp`, unless that is NULL. -/
def hang (m : Links) (temp : Option ℕ) (this : ℕ) : Links :=
  match temp with
  | some t => (m.setRight t (some this)).setParent this (some t)
  | none => m

/-- The rest of a turn: the node is visited, and the result has `This` and `back` for the next turn.
`none` is an access behind the end of the array. -/
def visit (w : Walk) (this : ℕ) : Option (Walk × Option ℕ × Option ℕ) :=
  let back := w.m.left this
  let n := w.n + 1
  let i := findFirstSet n
  if balanceArrSize ≤ i + 2 then none
  else
    let m := adopt (w.m.setLeft this (w.arr i)) (w.arr i) this
    let m := hang m (w.arr (i + 2)) this
    let arr := fun j =>
      if j = i + 1 then some this
      -- the descendants are cleared out
      else if 1 ≤ j ∧ j ≤ i then none
      else w.arr j
    some ({ m := m.setRight this none, arr := arr, n := n }, m.right this, back)

/-- The loop over the nodes. -/
def walkLoop (size : ℕ) : ℕ → Walk → Option ℕ → Option ℕ → Option Walk
  | 0, _, _, _ => none
  | fuel + 1, w, this, back =>
    (descend size w.m this back).bind fun r =>
      match r.2 with
      | none => some { w with m := r.1 }
      | some this =>
        (visit { w with m := r.1 } this).bind fun v => walkLoop size fuel v.1 v.2.1 v.2.2

/-- The highest element of the array that is in use, among the first so many. -/
def topOf (arr : ℕ → Option ℕ) : ℕ → Option (ℕ × ℕ)
  | 0 => none
  | i + 1 =>
    match arr (i + 1) with
    | some temp => some (i, temp)
    | none => topOf arr i

/-- All the remaining nodes are right sons. -/
def joinLoop (arr : ℕ → Option ℕ) : ℕ → Links → ℕ → Links
  | 0, m, _ => m
  | i + 1, m, this =>
    match arr (i + 1) with
    | some temp => joinLoop arr i ((m.setRight this (some temp)).setParent temp (some this)) temp
    | none => joinLoop arr i m this

/-- `NAMETABLE_balance_tree`, for a tree of at most `size` nodes. -/
def balanceTree (size : ℕ) (m : Links) (root : Option ℕ) : Option (Links × Option ℕ) :=
  (walkLoop size (size + 1) { m := m } root none).bind fun w =>
    (topOf w.arr (balanceArrSize - 1)).map fun top =>
      (joinLoop w.arr top.1 (w.m.setParent top.2 none) top.2, some top.2)

/-! ### The lowest bit -/

theorem findFirstSet_eq {i k : ℕ} (hi : i < 32) : findFirstSet (2 ^ i * (2 * k + 1)) = i := by
  -- a mask with bit `i` finds it, and one below it finds nothing
  have hset : ∀ a, a.testBit i = true → 2 ^ i * (2 * k + 1) &&& a ≠ 0 := by
    intro a ha hzero
    have hbit : (2 ^ i * (2 * k + 1)).testBit i = true := by
      rw [Nat.testBit_two_pow_mul]
      simp
    have hboth : (2 ^ i * (2 * k + 1) &&& a).testBit i = true := by
      rw [Nat.testBit_land, hbit, ha]
      rfl
    rw [hzero, Nat.zero_testBit] at hboth
    exact Bool.false_ne_true hboth
  have hzero : ∀ a, a < 2 ^ i → 2 ^ i * (2 * k + 1) &&& a = 0 := by
    intro a ha
    refine Nat.eq_of_testBit_eq fun j => ?_
    rw [Nat.testBit_land, Nat.zero_testBit, Nat.testBit_two_pow_mul]
    by_cases hj : i ≤ j
    · rw [Nat.testBit_lt_two_pow (ha.trans_le (Nat.pow_le_pow_right two_pos hj)), Bool.and_false]
    · simp [hj]
  generalize 2 ^ i * (2 * k + 1) = n at hset hzero
  interval_cases i
  all_goals
    simp (disch := decide) [findFirstSet, halve, Nat.land_assoc, hset, hzero, -Nat.and_one_is_mod]

/-! ### The way down -/

/-- The reversed links: the nodes that are still to be visited, with what is to the right. -/
def Chain (m : Links) : Option ℕ → List (ℕ × BinaryTree ℕ) → Prop
  | back, [] => back = none
  | back, (b, r) :: cs => back = some b ∧ m.right b = root r ∧ Down m r ∧ Chain m (m.left b) cs

def content (cs : List (ℕ × BinaryTree ℕ)) : List ℕ := cs.flatMap fun c => c.1 :: inorder c.2

@[simp] theorem content_nil : content [] = [] := rfl

@[simp] theorem content_cons (b : ℕ) (r : BinaryTree ℕ) (cs : List (ℕ × BinaryTree ℕ)) :
    content ((b, r) :: cs) = b :: inorder r ++ content cs := rfl

theorem Chain.congr {m m' : Links} {back : Option ℕ} {cs : List (ℕ × BinaryTree ℕ)}
    (h : Chain m back cs) (hleft : ∀ y ∈ content cs, m'.left y = m.left y)
    (hright : ∀ y ∈ content cs, m'.right y = m.right y) : Chain m' back cs := by
  induction cs generalizing back with
  | nil => exact h
  | cons c cs ih =>
    obtain ⟨b, r⟩ := c
    obtain ⟨hback, hr, hdown, hchain⟩ := h
    have hb : b ∈ content ((b, r) :: cs) := List.mem_cons_self
    have hin : ∀ y ∈ inorder r, y ∈ content ((b, r) :: cs) := fun y hy =>
      List.mem_append_left _ (List.mem_cons_of_mem _ hy)
    have hcs : ∀ y ∈ content cs, y ∈ content ((b, r) :: cs) := fun y hy =>
      List.mem_append_right _ hy
    refine ⟨hback, (hright b hb).trans hr, ?_, ?_⟩
    · exact hdown.congr (fun y hy => hleft y (hin y hy)) fun y hy => hright y (hin y hy)
    · rw [hleft b hb]
      exact ih hchain (fun y hy => hleft y (hcs y hy)) fun y hy => hright y (hcs y hy)

theorem reverseLink_left (m : Links) (this : ℕ) (back : Option ℕ) (y : ℕ) :
    (reverseLink m this back).left y = if y = this then back else m.left y := by
  cases back <;> rfl

theorem reverseLink_right (m : Links) (this : ℕ) (back : Option ℕ) :
    (reverseLink m this back).right = m.right := by
  cases back <;> rfl

theorem reverseLink_parent (m : Links) (this : ℕ) {back : Option ℕ} {y : ℕ} (h : back ≠ some y) :
    (reverseLink m this back).parent y = m.parent y := by
  cases back with
  | none => rfl
  | some b => exact if_neg fun heq : y = b => h (heq ▸ rfl)

theorem Chain.back_mem {m : Links} {y : ℕ} {cs : List (ℕ × BinaryTree ℕ)}
    (h : Chain m (some y) cs) : y ∈ content cs := by
  cases cs with
  | nil => cases h
  | cons c cs =>
    obtain rfl := Option.some_inj.mp h.1
    exact List.mem_cons_self

/-- The loop reaches the least node, and what is to the right of the nodes passed waits for it. -/
theorem descend_spec {t : BinaryTree ℕ} {m : Links} {back : Option ℕ}
    {cs : List (ℕ × BinaryTree ℕ)} {n : ℕ} (h : Down m t) (hcs : Chain m back cs)
    (hnodup : (inorder t ++ content cs).Nodup) (hn : (inorder t).length ≤ n) :
    ∃ m' back' cs', descend n m (root t) back = some (m', back') ∧ Chain m' back' cs' ∧
      content cs' = inorder t ++ content cs ∧ m'.right = m.right ∧
      ∀ y ∉ inorder t ++ content cs, m'.left y = m.left y ∧ m'.parent y = m.parent y := by
  induction t generalizing m back cs n with
  | nil => exact ⟨m, back, cs, by cases n <;> rfl, hcs, rfl, rfl, fun _ _ => ⟨rfl, rfl⟩⟩
  | node x l r ihl =>
    obtain ⟨hl, hr, hdl, hdr⟩ := h
    obtain ⟨n, rfl⟩ : ∃ n', n = n' + 1 := by
      refine ⟨n - 1, ?_⟩
      rw [inorder_node, List.length_append, List.length_cons] at hn
      omega
    have hsplit : inorder (.node x l r) ++ content cs = inorder l ++ content ((x, r) :: cs) := by
      rw [inorder_node, content_cons, List.append_assoc]
    rw [hsplit] at hnodup ⊢
    -- the node joins the chain, and the loop goes on in its left subtree
    obtain ⟨-, hxrcs, hdisj⟩ := List.nodup_append.mp hnodup
    rw [content_cons, List.cons_append, List.nodup_cons, List.mem_append, not_or] at hxrcs
    have hleft : ∀ y, y ≠ x → (reverseLink m x back).left y = m.left y := fun y hy => by
      rw [reverseLink_left, if_neg hy]
    have hright : ∀ y, (reverseLink m x back).right y = m.right y := fun y => by
      rw [reverseLink_right]
    have hchain : Chain (reverseLink m x back) (some x) ((x, r) :: cs) := by
      refine ⟨rfl, (hright x).trans hr, hdr.congr (fun y hy => hleft y ?_) fun y _ => hright y, ?_⟩
      · exact fun heq => hxrcs.1.1 (heq ▸ hy)
      · rw [reverseLink_left, if_pos rfl]
        exact hcs.congr (fun y hy => hleft y fun heq => hxrcs.1.2 (heq ▸ hy)) fun y _ => hright y
    have hdown : Down (reverseLink m x back) l := by
      refine hdl.congr (fun y hy => hleft y ?_) fun y _ => hright y
      exact hdisj y hy x List.mem_cons_self
    obtain ⟨m', back', cs', hrun, hchain', hcontent, hright', hframe⟩ :=
      ihl hdown hchain hnodup (n := n) (by
        rw [inorder_node, List.length_append, List.length_cons] at hn
        omega)
    refine ⟨m', back', cs', ?_, hchain', hcontent, hright'.trans (reverseLink_right _ _ _), ?_⟩
    · rw [root_node, descend, hl]
      exact hrun
    · intro y hy
      obtain ⟨hl', hp'⟩ := hframe y hy
      refine ⟨hl'.trans (hleft y fun heq => hy ?_), hp'.trans (reverseLink_parent _ _ ?_)⟩
      · exact heq ▸ List.mem_append_right _ List.mem_cons_self
      · rintro rfl
        exact hy (List.mem_append_right _ (List.mem_append_right _ hcs.back_mem))

/-! ### The array -/

/-- The pointer in an element of the array; the elements count from one. -/
def below (slot : ℕ → Option (ℕ × BinaryTree ℕ)) : ℕ → Option ℕ
  | 0 => none
  | j + 1 => (slot j).map Prod.fst

/-- The elements up to the first empty one, each the right son of the one above it. -/
def runTree (slot : ℕ → Option (ℕ × BinaryTree ℕ)) : ℕ → BinaryTree ℕ
  | 0 => .nil
  | j + 1 =>
    match slot j with
    | some (x, l) => .node x l (runTree slot j)
    | none => .nil

/-- All elements, each the right son of the next one above it. -/
def joinTree (slot : ℕ → Option (ℕ × BinaryTree ℕ)) : ℕ → BinaryTree ℕ
  | 0 => .nil
  | j + 1 =>
    match slot j with
    | some (x, l) => .node x l (joinTree slot j)
    | none => joinTree slot j

/-- The nodes of one element. -/
def part (slot : ℕ → Option (ℕ × BinaryTree ℕ)) (j : ℕ) : List ℕ :=
  (slot j).elim [] fun s => inorder s.2 ++ [s.1]

/-- A new node takes what is below it for its left son. -/
def put (slot : ℕ → Option (ℕ × BinaryTree ℕ)) (i this j : ℕ) : Option (ℕ × BinaryTree ℕ) :=
  if j = i then some (this, runTree slot i) else if j < i then none else slot j

section Slot

variable {slot : ℕ → Option (ℕ × BinaryTree ℕ)} {i j K this x y : ℕ} {l : BinaryTree ℕ}

theorem root_runTree (slot : ℕ → Option (ℕ × BinaryTree ℕ)) (j : ℕ) :
    root (runTree slot j) = below slot j := by
  cases j with
  | zero => rfl
  | succ j =>
    rw [runTree, below]
    cases slot j <;> rfl

theorem inorder_joinTree_succ (slot : ℕ → Option (ℕ × BinaryTree ℕ)) (j : ℕ) :
    inorder (joinTree slot (j + 1)) = part slot j ++ inorder (joinTree slot j) := by
  rw [joinTree, part]
  cases slot j with
  | none => rfl
  | some s => simp

theorem mem_joinTree : y ∈ inorder (joinTree slot K) ↔ ∃ j < K, y ∈ part slot j := by
  induction K with
  | zero => simp [joinTree]
  | succ K ih =>
    rw [inorder_joinTree_succ, List.mem_append, ih]
    constructor
    · rintro (hy | ⟨j, hj, hy⟩)
      · exact ⟨K, K.lt_succ_self, hy⟩
      · exact ⟨j, hj.trans K.lt_succ_self, hy⟩
    · rintro ⟨j, hj, hy⟩
      rcases Nat.lt_succ_iff_lt_or_eq.mp hj with hj | rfl
      · exact .inr ⟨j, hj, hy⟩
      · exact .inl hy

theorem joinTree_eq_runTree (h : ∀ j < K, (slot j).isSome) : joinTree slot K = runTree slot K := by
  induction K with
  | zero => rfl
  | succ K ih =>
    obtain ⟨s, hs⟩ := Option.isSome_iff_exists.mp (h K K.lt_succ_self)
    rw [joinTree, runTree, hs, ih fun j hj => h j (hj.trans K.lt_succ_self)]

theorem joinTree_eq_nil (h : ∀ j < K, slot j = none) : joinTree slot K = .nil := by
  induction K with
  | zero => rfl
  | succ K ih =>
    rw [joinTree, h K K.lt_succ_self]
    exact ih fun j hj => h j (hj.trans K.lt_succ_self)

theorem below_eq_none (h : joinTree slot j = .nil) : below slot j = none := by
  cases j with
  | zero => rfl
  | succ j =>
    rw [joinTree] at h
    rw [below]
    cases hs : slot j with
    | none => rfl
    | some s =>
      rw [hs] at h
      cases h

/-- The elements have no node in common. -/
theorem eq_of_mem_part (hnodup : (inorder (joinTree slot K)).Nodup) {j' : ℕ} (hj : j < K)
    (hj' : j' < K) (hy : y ∈ part slot j) (hy' : y ∈ part slot j') : j = j' := by
  induction K with
  | zero => cases hj
  | succ K ih =>
    rw [inorder_joinTree_succ] at hnodup
    obtain ⟨-, hjoin, hdisj⟩ := List.nodup_append.mp hnodup
    rcases Nat.lt_succ_iff_lt_or_eq.mp hj with hj | rfl
    · rcases Nat.lt_succ_iff_lt_or_eq.mp hj' with hj' | rfl
      · exact ih hjoin hj hj'
      · exact absurd rfl (hdisj y hy' y (mem_joinTree.mpr ⟨j, hj, hy⟩))
    · rcases Nat.lt_succ_iff_lt_or_eq.mp hj' with hj' | rfl
      · exact absurd rfl (hdisj y hy y (mem_joinTree.mpr ⟨j', hj', hy'⟩))
      · rfl

theorem nodup_part (hnodup : (inorder (joinTree slot K)).Nodup) (hj : j < K) :
    (part slot j).Nodup := by
  induction K with
  | zero => cases hj
  | succ K ih =>
    rw [inorder_joinTree_succ] at hnodup
    obtain ⟨hpart, hjoin, -⟩ := List.nodup_append.mp hnodup
    rcases Nat.lt_succ_iff_lt_or_eq.mp hj with hj | rfl
    · exact ih hjoin hj
    · exact hpart

theorem nodup_joinTree (hnodup : (inorder (joinTree slot K)).Nodup) (hj : j ≤ K) :
    (inorder (joinTree slot j)).Nodup := by
  induction K with
  | zero => exact Nat.le_zero.mp hj ▸ hnodup
  | succ K ih =>
    rcases Nat.le_succ_iff.mp hj with hj | rfl
    · rw [inorder_joinTree_succ] at hnodup
      exact ih (List.nodup_append.mp hnodup).2.1 hj
    · exact hnodup

theorem self_mem_part (h : slot j = some (x, l)) : x ∈ part slot j := by
  rw [part, h]
  exact List.mem_append_right _ List.mem_cons_self

theorem mem_part_of_mem (h : slot j = some (x, l)) (hy : y ∈ inorder l) : y ∈ part slot j := by
  rw [part, h]
  exact List.mem_append_left _ hy

/-- The pointers to two subtrees that are not the same element differ. -/
theorem ne_of_below (hnodup : (inorder (joinTree slot K)).Nodup) (hj : j < K) (hi : i ≤ K)
    (hne : i ≠ j + 1) (hy : y ∈ part slot j) : below slot i ≠ some y := by
  intro heq
  cases i with
  | zero => cases heq
  | succ i =>
    obtain ⟨⟨x, l⟩, hs, rfl⟩ := Option.map_eq_some_iff.mp heq
    exact hne (congrArg Nat.succ (eq_of_mem_part hnodup hi hj (self_mem_part hs) hy))

theorem below_put (slot : ℕ → Option (ℕ × BinaryTree ℕ)) (i this j : ℕ) :
    below (put slot i this) j =
      if j = i + 1 then some this else if 1 ≤ j ∧ j ≤ i then none else below slot j := by
  cases j with
  | zero => simp [below]
  | succ j =>
    simp only [below, put, Nat.add_right_cancel_iff, Nat.succ_le_iff, Nat.zero_lt_succ, true_and]
    split
    · rfl
    · split <;> rfl

theorem inorder_joinTree_put (hall : ∀ j < i, (slot j).isSome) (hnone : slot i = none)
    (hi : i < K) :
    inorder (joinTree (put slot i this) K) = inorder (joinTree slot K) ++ [this] := by
  induction K with
  | zero => cases hi
  | succ K ih =>
    rw [inorder_joinTree_succ, inorder_joinTree_succ]
    rcases Nat.lt_succ_iff_lt_or_eq.mp hi with hi | rfl
    · have hpart : part (put slot i this) K = part slot K := by
        rw [part, put, if_neg hi.ne', if_neg hi.not_gt, part]
      rw [hpart, ih hi, List.append_assoc]
    · have hnil : joinTree (put slot i this) i = .nil := by
        refine joinTree_eq_nil fun j hj => ?_
        rw [put, if_neg hj.ne, if_pos hj]
      rw [hnil, part, put, if_pos rfl, part, hnone, joinTree_eq_runTree hall]
      simp

end Slot

/-- What the array and the links are, after `n` nodes. -/
structure Slots (m : Links) (arr : ℕ → Option ℕ) (n : ℕ)
    (slot : ℕ → Option (ℕ × BinaryTree ℕ)) : Prop where
  bits : ∀ j, (slot j).isSome = n.testBit j
  arr : ∀ j, arr j = below slot j
  left : ∀ {j x l}, slot j = some (x, l) → m.left x = root l ∧ Down m l ∧ Up m (some x) l
  right : ∀ {j x l}, slot j = some (x, l) → m.right x = below slot j
  parent : ∀ {j x l y}, slot j = some (x, l) → below slot j = some y → m.parent y = some x
  height : ∀ {j x l}, slot j = some (x, l) → l.height ≤ j

section Slots

variable {m m' : Links} {arr : ℕ → Option ℕ} {n : ℕ} {slot : ℕ → Option (ℕ × BinaryTree ℕ)}
  {i j x y : ℕ} {l : BinaryTree ℕ}

theorem Slots.lt (h : Slots m arr n slot) {K : ℕ} (hn : n < 2 ^ K) (hs : slot j = some (x, l)) :
    j < K := by
  by_contra hj
  have hbit := h.bits j
  have hpow : 2 ^ K ≤ 2 ^ j := Nat.pow_le_pow_right two_pos (not_lt.mp hj)
  rw [hs, Nat.testBit_lt_two_pow (hn.trans_le hpow)] at hbit
  cases hbit

/-- Links of other nodes do not matter. -/
theorem Slots.congr (h : Slots m arr n slot) {K : ℕ} (hn : n < 2 ^ K)
    (hleft : ∀ y ∈ inorder (joinTree slot K), m'.left y = m.left y)
    (hright : ∀ y ∈ inorder (joinTree slot K), m'.right y = m.right y)
    (hparent : ∀ y ∈ inorder (joinTree slot K), m'.parent y = m.parent y) :
    Slots m' arr n slot := by
  have hin : ∀ {j x l}, slot j = some (x, l) → ∀ {y}, y ∈ part slot j →
      y ∈ inorder (joinTree slot K) := fun hs _ hy => mem_joinTree.mpr ⟨_, h.lt hn hs, hy⟩
  refine ⟨h.bits, h.arr, fun hs => ?_, fun hs => ?_, fun {j x l y} hs hy => ?_, h.height⟩
  · obtain ⟨hl, hdown, hup⟩ := h.left hs
    refine ⟨(hleft _ (hin hs (self_mem_part hs))).trans hl, hdown.congr ?_ ?_, hup.congr ?_⟩
    · exact fun y hy => hleft y (hin hs (mem_part_of_mem hs hy))
    · exact fun y hy => hright y (hin hs (mem_part_of_mem hs hy))
    · exact fun y hy => hparent y (hin hs (mem_part_of_mem hs hy))
  · exact (hright _ (hin hs (self_mem_part hs))).trans (h.right hs)
  · cases j with
    | zero => cases hy
    | succ j =>
      obtain ⟨⟨y, l'⟩, hs', rfl⟩ := Option.map_eq_some_iff.mp hy
      exact (hparent y (hin hs' (self_mem_part hs'))).trans (h.parent hs hy)

/-- The elements up to the first empty one are linked already. -/
theorem Slots.run (h : Slots m arr n slot) (j : ℕ) {p : Option ℕ}
    (hp : ∀ y, below slot j = some y → m.parent y = p) :
    Down m (runTree slot j) ∧ Up m p (runTree slot j) ∧ (runTree slot j).height ≤ j := by
  induction j generalizing p with
  | zero => exact ⟨trivial, trivial, le_rfl⟩
  | succ j ih =>
    rw [runTree]
    cases hs : slot j with
    | none => exact ⟨trivial, trivial, Nat.zero_le _⟩
    | some s =>
      obtain ⟨x, l⟩ := s
      obtain ⟨hl, hdl, hul⟩ := h.left hs
      obtain ⟨hdr, hur, hheight⟩ := ih fun y hy => h.parent hs hy
      refine ⟨⟨hl, (h.right hs).trans (root_runTree slot j).symm, hdl, hdr⟩,
        ⟨hp x ?_, hul, hur⟩, ?_⟩
      · rw [below, hs]
        rfl
      · rw [BinaryTree.height]
        exact Nat.succ_le_succ (max_le (h.height hs) hheight)

/-- Counting on by one sets the bit above the ones at the end, and clears these. -/
theorem testBit_succ {n K : ℕ} (hn : n + 1 < 2 ^ K) (hK : K ≤ 32) : ∃ i < K,
    findFirstSet (n + 1) = i ∧ (∀ j < i, n.testBit j = true) ∧ n.testBit i = false ∧
      ∀ j, (n + 1).testBit j = if j = i then true else if j < i then false else n.testBit j := by
  obtain ⟨i, m, ⟨k, rfl⟩, heq⟩ := Nat.exists_eq_two_pow_mul_odd (Nat.add_one_ne_zero n)
  have hpos : 0 < 2 ^ i := Nat.two_pow_pos i
  have hi : i < K := by
    refine (Nat.pow_lt_pow_iff_right one_lt_two).mp (lt_of_le_of_lt ?_ hn)
    rw [heq]
    exact Nat.le_mul_of_pos_right _ (Nat.succ_pos _)
  have hlast : n = 2 ^ i * (2 * k) + (2 ^ i - 1) := by
    have hsum : n + 1 = 2 ^ i * (2 * k) + 2 ^ i := by rw [heq]; ring
    omega
  have hbit : ∀ j, n.testBit j = if j < i then true else (2 * k).testBit (j - i) := fun j => by
    rw [hlast, Nat.testBit_two_pow_mul_add _ (Nat.sub_lt hpos one_pos)]
    by_cases hj : j < i
    · simp [hj]
    · simp [hj]
  refine ⟨i, hi, ?_, fun j hj => ?_, ?_, fun j => ?_⟩
  · rw [heq, findFirstSet_eq (hi.trans_le hK)]
  · rw [hbit, if_pos hj]
  · rw [hbit, if_neg (lt_irrefl i)]
    simp
  · rw [hbit, heq, Nat.testBit_two_pow_mul]
    rcases lt_trichotomy j i with hj | rfl | hj
    · simp [hj, hj.ne]
    · simp
    · obtain ⟨d, rfl⟩ := Nat.exists_eq_add_of_lt hj
      have hsub : i + d + 1 - i = d + 1 := by omega
      have hhalf : (2 * k + 1) / 2 = k := by omega
      rw [if_neg (by omega), if_neg (by omega), if_neg (by omega), hsub, Nat.testBit_succ,
        Nat.testBit_succ, hhalf, Nat.mul_div_cancel_left k two_pos, decide_eq_true (by omega),
        Bool.true_and]

theorem exists_parent (m : Links) (slot : ℕ → Option (ℕ × BinaryTree ℕ)) (j : ℕ) :
    ∃ p, ∀ y, below slot j = some y → m.parent y = p := by
  cases below slot j with
  | none => exact ⟨none, fun y hy => absurd hy.symm (Option.some_ne_none y)⟩
  | some x => exact ⟨m.parent x, fun y hy => Option.some_inj.mp hy ▸ rfl⟩

/-- What a turn of the loop stores. -/
structure Visited (slot : ℕ → Option (ℕ × BinaryTree ℕ)) (i this : ℕ) (m m' : Links) : Prop where
  left : ∀ y, m'.left y = if y = this then below slot i else m.left y
  right : ∀ y, m'.right y = if y = this then none else
    if below slot (i + 2) = some y then some this else m.right y
  parent : ∀ y, m'.parent y = if y = this ∧ below slot (i + 2) ≠ none then below slot (i + 2) else
    if below slot i = some y then some this else m.parent y

theorem visit_eq {w : Walk} {this : ℕ} (harr : ∀ j, w.arr j = below slot j)
    (hfirst : findFirstSet (w.n + 1) = i) (hi : i < 31) (hthis : ∀ j, below slot j ≠ some this) :
    ∃ m', visit w this = some ({ m := m', n := w.n + 1, arr := below (put slot i this) },
      w.m.right this, w.m.left this) ∧ Visited slot i this w.m m' := by
  have hpast : ¬balanceArrSize ≤ i + 2 := by
    rw [balanceArrSize]
    omega
  have harr' : (fun j => if j = i + 1 then some this else if 1 ≤ j ∧ j ≤ i then none else
      below slot j) = below (put slot i this) := funext fun j => (below_put slot i this j).symm
  have hne : ∀ t, below slot (i + 2) = some t → this ≠ t := fun t ht heq =>
    hthis (i + 2) (heq ▸ ht)
  refine ⟨(hang (adopt (w.m.setLeft this (below slot i)) (below slot i) this)
    (below slot (i + 2)) this).setRight this none, ?_, fun y => ?_, fun y => ?_, fun y => ?_⟩
  · have hkept : (hang (adopt (w.m.setLeft this (below slot i)) (below slot i) this)
        (below slot (i + 2)) this).right this = w.m.right this := by
      cases hb : below slot (i + 2) with
      | none => cases below slot i <;> rfl
      | some t => cases below slot i <;> simp [hang, adopt, hne t hb]
    simp only [visit, hfirst, if_neg hpast, harr, hkept, harr']
  · cases below slot (i + 2) <;> cases below slot i <;> rfl
  · cases below slot (i + 2) <;> cases below slot i <;> simp [hang, adopt, eq_comm]
  · cases below slot (i + 2) <;> cases below slot i <;> simp [hang, adopt, eq_comm]

theorem put_cases {this : ℕ} (hs : put slot i this j = some (x, l)) :
    (j = i ∧ x = this ∧ l = runTree slot i) ∨ (i < j ∧ slot j = some (x, l)) := by
  rw [put] at hs
  split at hs
  · obtain ⟨rfl, rfl⟩ := Prod.mk.injEq _ _ _ _ ▸ Option.some_inj.mp hs
    exact .inl ⟨‹_›, rfl, rfl⟩
  · split at hs
    · cases hs
    · exact .inr ⟨by omega, hs⟩

/-- The run of elements becomes the left subtree of the new node. -/
theorem Visited.run {this : ℕ} (h : Slots m arr n slot) (hv : Visited slot i this m m')
    (hi : i < 31) (hall : ∀ j < i, (slot j).isSome)
    (hnodup : (inorder (joinTree slot 32)).Nodup) (hthis : this ∉ inorder (joinTree slot 32)) :
    m'.left this = root (runTree slot i) ∧ Down m' (runTree slot i) ∧
      Up m' (some this) (runTree slot i) := by
  -- all lower elements are there, so the run goes to the end of the array
  obtain ⟨p, hp⟩ := exists_parent m slot i
  obtain ⟨hdown, hup, -⟩ := h.run i hp
  have hroot : root (runTree slot i) = below slot i := root_runTree slot i
  rw [← joinTree_eq_runTree hall] at hdown hup hroot ⊢
  have hmem : ∀ {y}, y ∈ inorder (joinTree slot i) → ∃ j < i, y ∈ part slot j := fun hy =>
    mem_joinTree.mp hy
  have hne : ∀ {y}, y ∈ inorder (joinTree slot i) → y ≠ this := fun hy heq => by
    obtain ⟨j, hj, hy'⟩ := hmem hy
    exact hthis (heq ▸ mem_joinTree.mpr ⟨j, by omega, hy'⟩)
  have hnot : ∀ {y}, y ∈ inorder (joinTree slot i) → below slot (i + 2) ≠ some y := fun hy => by
    obtain ⟨j, hj, hy'⟩ := hmem hy
    exact ne_of_below hnodup (by omega) (by omega) (by omega) hy'
  refine ⟨?_, hdown.congr (fun y hy => ?_) fun y hy => ?_,
    hup.of_root (nodup_joinTree hnodup (by omega)) (fun y hy => ?_) fun y hy hy' => ?_⟩
  · rw [hv.left, if_pos rfl, hroot]
  · rw [hv.left, if_neg (hne hy)]
  · rw [hv.right, if_neg (hne hy), if_neg (hnot hy)]
  · rw [hv.parent, if_neg fun h => hne (mem_of_root hy) h.1, if_pos (hroot ▸ hy)]
  · rw [hv.parent, if_neg fun h => hne hy h.1, if_neg (hroot ▸ hy')]

/-- The array and the links after one more node. -/
theorem Slots.put {this : ℕ} (h : Slots m arr n slot) (hv : Visited slot i this m m') (hi : i < 31)
    (hlt : ∀ {j x l}, slot j = some (x, l) → j < 32) (hall : ∀ j < i, (slot j).isSome)
    (hnext : ∀ j, (n + 1).testBit j = if j = i then true else if j < i then false else n.testBit j)
    (hnodup : (inorder (joinTree slot 32)).Nodup) (hthis : this ∉ inorder (joinTree slot 32)) :
    Slots m' (below (Nametable.put slot i this)) (n + 1) (Nametable.put slot i this) := by
  have hne : ∀ {j x l y}, slot j = some (x, l) → y ∈ part slot j → y ≠ this := fun hs hy heq =>
    hthis (heq ▸ mem_joinTree.mpr ⟨_, hlt hs, hy⟩)
  -- what the elements above keep
  have hold : ∀ {j x l y}, i < j → slot j = some (x, l) → y ∈ part slot j →
      m'.left y = m.left y ∧ m'.parent y = m.parent y := by
    intro j x l y hj hs hy
    rw [hv.left, if_neg (hne hs hy), hv.parent, if_neg fun h => hne hs hy h.1,
      if_neg (ne_of_below hnodup (hlt hs) (by omega) (by omega) hy)]
    exact ⟨rfl, rfl⟩
  have holdRight : ∀ {j x l y}, slot j = some (x, l) → y ∈ part slot j →
      below slot (i + 2) ≠ some y → m'.right y = m.right y := by
    intro j x l y hs hy hnot
    rw [hv.right, if_neg (hne hs hy), if_neg hnot]
  refine ⟨fun j => ?_, fun j => rfl, fun {j x l} hs => ?_, fun {j x l} hs => ?_,
    fun {j x l y} hs hy => ?_, fun {j x l} hs => ?_⟩
  · rw [hnext, Nametable.put, ← h.bits]
    split
    · rfl
    · split <;> rfl
  · rcases put_cases hs with ⟨rfl, rfl, rfl⟩ | ⟨hj, hs⟩
    · exact hv.run h hi hall hnodup hthis
    · obtain ⟨hl, hdown, hup⟩ := h.left hs
      refine ⟨(hold hj hs (self_mem_part hs)).1.trans hl, hdown.congr (fun y hy => ?_)
        fun y hy => ?_, hup.congr fun y hy => ?_⟩
      · exact (hold hj hs (mem_part_of_mem hs hy)).1
      · refine holdRight hs (mem_part_of_mem hs hy) fun heq => ?_
        obtain ⟨⟨x', l'⟩, hs', rfl⟩ := Option.map_eq_some_iff.mp heq
        obtain rfl := eq_of_mem_part hnodup (hlt hs) (hlt hs') (mem_part_of_mem hs hy)
          (self_mem_part hs')
        obtain rfl : l = l' := congrArg Prod.snd (Option.some_inj.mp (hs.symm.trans hs'))
        have hpart := nodup_part hnodup (hlt hs)
        rw [part, hs'] at hpart
        exact (List.nodup_append.mp hpart).2.2 _ hy _ List.mem_cons_self rfl
      · exact (hold hj hs (mem_part_of_mem hs hy)).2
  · rcases put_cases hs with ⟨rfl, rfl, rfl⟩ | ⟨hj, hs⟩
    · rw [hv.right, if_pos rfl, below_put, if_neg (by omega)]
      cases j with
      | zero => rfl
      | succ j => rw [if_pos ⟨by omega, le_rfl⟩]
    · rw [below_put]
      by_cases hj' : j = i + 1
      · subst hj'
        rw [if_pos rfl, hv.right, if_neg (hne hs (self_mem_part hs)), if_pos]
        rw [below, hs]
        rfl
      · rw [if_neg hj', if_neg (by omega), holdRight hs (self_mem_part hs), h.right hs]
        exact ne_of_below hnodup (hlt hs) (by omega) (by omega) (self_mem_part hs)
  · rw [below_put] at hy
    rcases put_cases hs with ⟨rfl, rfl, rfl⟩ | ⟨hj, hs⟩
    · rw [if_neg (by omega)] at hy
      cases j with
      | zero => cases hy
      | succ j =>
        rw [if_pos ⟨by omega, le_rfl⟩] at hy
        cases hy
    · by_cases hj' : j = i + 1
      · subst hj'
        rw [if_pos rfl] at hy
        obtain rfl := Option.some_inj.mp hy
        have hb : below slot (i + 2) = some x := by
          rw [below, hs]
          rfl
        rw [hv.parent, hb, if_pos ⟨rfl, by simp⟩]
      · rw [if_neg hj', if_neg (by omega)] at hy
        cases j with
        | zero => cases hy
        | succ j =>
          obtain ⟨⟨y, l'⟩, hs', rfl⟩ := Option.map_eq_some_iff.mp hy
          rw [(hold (by omega) hs' (self_mem_part hs')).2]
          exact h.parent hs hy
  · rcases put_cases hs with ⟨rfl, rfl, rfl⟩ | ⟨hj, hs⟩
    · obtain ⟨p, hp⟩ := exists_parent m slot j
      exact (h.run j hp).2.2
    · exact h.height hs

/-- One node is visited. -/
theorem visit_spec {w : Walk} {this : ℕ} (h : Slots w.m w.arr w.n slot) (hn : w.n + 1 < 2 ^ 31)
    (hnodup : (inorder (joinTree slot 32) ++ [this]).Nodup) :
    ∃ w' slot', visit w this = some (w', w.m.right this, w.m.left this) ∧ w'.n = w.n + 1 ∧
      Slots w'.m w'.arr w'.n slot' ∧
      inorder (joinTree slot' 32) = inorder (joinTree slot 32) ++ [this] ∧
      ∀ y ∉ inorder (joinTree slot 32) ++ [this],
        w'.m.left y = w.m.left y ∧ w'.m.right y = w.m.right y := by
  obtain ⟨i, hi, hfirst, hones, hzero, hnext⟩ := testBit_succ hn (by decide)
  obtain ⟨hjoin, -, hdisj⟩ := List.nodup_append.mp hnodup
  have hthis : this ∉ inorder (joinTree slot 32) := fun hmem =>
    hdisj this hmem this List.mem_cons_self rfl
  have hlt : ∀ {j x l}, slot j = some (x, l) → j < 32 := fun hs =>
    (h.lt ((Nat.lt_succ_self _).trans hn) hs).trans (by decide)
  have hbelow : ∀ {j y}, below slot j = some y → y ∈ inorder (joinTree slot 32) := by
    intro j y hy
    cases j with
    | zero => cases hy
    | succ j =>
      obtain ⟨⟨y, l⟩, hs, rfl⟩ := Option.map_eq_some_iff.mp hy
      exact mem_joinTree.mpr ⟨j, hlt hs, self_mem_part hs⟩
  have hempty : slot i = none := by
    have hbit := h.bits i
    rw [hzero] at hbit
    exact Option.isNone_iff_eq_none.mp (Option.isSome_eq_false_iff.mp hbit)
  have hall : ∀ j < i, (slot j).isSome := fun j hj => (h.bits j).trans (hones j hj)
  obtain ⟨m', hvisit, hv⟩ := visit_eq h.arr hfirst hi fun j heq => hthis (hbelow heq)
  refine ⟨_, put slot i this, hvisit, rfl, h.put hv hi hlt hall hnext hjoin hthis,
    inorder_joinTree_put hall hempty (hi.trans (by decide)), fun y hy => ?_⟩
  rw [List.mem_append, List.mem_singleton, not_or] at hy
  rw [hv.left, hv.right, if_neg hy.2, if_neg hy.2, if_neg fun heq => hy.1 (hbelow heq)]
  exact ⟨rfl, rfl⟩

/-- The whole walk, from any point of it on. -/
theorem walkLoop_spec (size fuel : ℕ) {w : Walk} {t : BinaryTree ℕ} {back : Option ℕ}
    {cs : List (ℕ × BinaryTree ℕ)} (h : Slots w.m w.arr w.n slot) (hdown : Down w.m t)
    (hcs : Chain w.m back cs)
    (hnodup : (inorder (joinTree slot 32) ++ (inorder t ++ content cs)).Nodup)
    (hfuel : (inorder t ++ content cs).length < fuel)
    (hsize : (inorder t ++ content cs).length ≤ size)
    (hn : w.n + (inorder t ++ content cs).length < 2 ^ 31) :
    ∃ w' slot', walkLoop size fuel w (root t) back = some w' ∧ Slots w'.m w'.arr w'.n slot' ∧
      w'.n = w.n + (inorder t ++ content cs).length ∧
      inorder (joinTree slot' 32) = inorder (joinTree slot 32) ++ (inorder t ++ content cs) := by
  induction fuel generalizing w t back cs slot with
  | zero => cases hfuel
  | succ fuel ih =>
    obtain ⟨-, hrest, hdisj⟩ := List.nodup_append.mp hnodup
    have hlen : (inorder t).length ≤ size := by
      rw [List.length_append] at hsize
      omega
    obtain ⟨m', back', cs', hrun, hchain, hcontent, hright, hframe⟩ :=
      descend_spec hdown hcs hrest hlen
    have hkeep : ∀ y ∈ inorder (joinTree slot 32), y ∉ inorder t ++ content cs :=
      fun y hy hy' => hdisj y hy y hy' rfl
    have hslots : Slots m' w.arr w.n slot := by
      have hn' : w.n < 2 ^ 32 := by omega
      refine h.congr hn' (fun y hy => ?_) (fun y _ => ?_) fun y hy => ?_
      · exact (hframe y (hkeep y hy)).1
      · rw [hright]
      · exact (hframe y (hkeep y hy)).2
    rw [walkLoop, hrun, Option.bind_some]
    -- from here on only the chain is left, and its first node is visited
    rw [← hcontent] at hnodup hfuel hsize hn ⊢
    cases cs' with
    | nil =>
      obtain rfl : back' = none := hchain
      exact ⟨{ w with m := m' }, slot, rfl, hslots, rfl, (List.append_nil _).symm⟩
    | cons c cs' =>
      obtain ⟨b, r⟩ := c
      obtain ⟨rfl, hbr, hdr, hchain⟩ := hchain
      rw [content_cons, List.cons_append, List.append_cons] at hnodup
      obtain ⟨hbefore, hafter, hdisj'⟩ := List.nodup_append.mp hnodup
      rw [content_cons, List.cons_append, List.length_cons] at hfuel hsize hn
      have hnext : w.n + 1 < 2 ^ 31 := by omega
      obtain ⟨w₁, slot₁, hvisit, hn₁, hslots₁, hjoin₁, hframe₁⟩ :=
        visit_spec (w := { w with m := m' }) hslots hnext hbefore
      replace hn₁ : w₁.n = w.n + 1 := hn₁
      have hkeep₁ : ∀ y ∈ inorder r ++ content cs', y ∉ inorder (joinTree slot 32) ++ [b] :=
        fun y hy hy' => hdisj' y hy' y hy rfl
      have hdr₁ : Down w₁.m r := by
        refine hdr.congr (fun y hy => ?_) fun y hy => ?_
        · exact (hframe₁ y (hkeep₁ y (List.mem_append_left _ hy))).1
        · exact (hframe₁ y (hkeep₁ y (List.mem_append_left _ hy))).2
      have hchain₁ : Chain w₁.m (m'.left b) cs' := by
        refine hchain.congr (fun y hy => ?_) fun y hy => ?_
        · exact (hframe₁ y (hkeep₁ y (List.mem_append_right _ hy))).1
        · exact (hframe₁ y (hkeep₁ y (List.mem_append_right _ hy))).2
      obtain ⟨w', slot', hloop, hslots', hn', hjoin'⟩ := ih hslots₁ hdr₁ hchain₁
        (hjoin₁ ▸ hnodup) (by omega) (by omega) (by rw [hn₁]; omega)
      refine ⟨w', slot', ?_, hslots', ?_, ?_⟩
      · simp only [hvisit, Option.bind_some, hbr]
        exact hloop
      · rw [hn', hn₁, content_cons, List.cons_append, List.length_cons]
        omega
      · rw [hjoin', hjoin₁, content_cons, List.cons_append, List.append_assoc,
          List.singleton_append]

/-! ### The end -/

theorem topOf_spec (harr : ∀ j, arr j = below slot j) (K : ℕ) :
    (topOf arr K = none ∧ joinTree slot K = .nil) ∨
      ∃ j < K, ∃ x l, slot j = some (x, l) ∧ topOf arr K = some (j, x) ∧
        joinTree slot K = .node x l (joinTree slot j) := by
  induction K with
  | zero => exact .inl ⟨rfl, rfl⟩
  | succ K ih =>
    rw [topOf, harr, below, joinTree]
    cases hs : slot K with
    | some s => exact .inr ⟨K, K.lt_succ_self, s.1, s.2, hs, rfl, rfl⟩
    | none =>
      rcases ih with ih | ⟨j, hj, x, l, ih⟩
      · exact .inl ih
      · exact .inr ⟨j, hj.trans K.lt_succ_self, x, l, ih⟩

/-- The elements below the `j`th are as the walk leaves them. -/
def PartsOk (slot : ℕ → Option (ℕ × BinaryTree ℕ)) (m : Links) (j : ℕ) : Prop :=
  ∀ j' < j, ∀ x l, slot j' = some (x, l) →
    m.left x = root l ∧ Down m l ∧ Up m (some x) l ∧ m.right x = below slot j'

theorem Slots.partsOk (h : Slots m arr n slot) (j : ℕ) : PartsOk slot m j := by
  intro j' _ x l hs
  obtain ⟨hl, hdl, hul⟩ := h.left hs
  exact ⟨hl, hdl, hul, h.right hs⟩

theorem PartsOk.congr {m' : Links} (h : PartsOk slot m j) (hleft : m'.left = m.left)
    (hright : ∀ y ∈ inorder (joinTree slot j), m'.right y = m.right y)
    (hparent : ∀ y ∈ inorder (joinTree slot j), m'.parent y = m.parent y) :
    PartsOk slot m' j := by
  intro j' hj' x l hs
  obtain ⟨hl, hdl, hul, hr⟩ := h j' hj' x l hs
  have hin : ∀ y ∈ part slot j', y ∈ inorder (joinTree slot j) := fun y hy =>
    mem_joinTree.mpr ⟨j', hj', hy⟩
  refine ⟨?_, hdl.congr (fun y _ => ?_) fun y hy => ?_, hul.congr fun y hy => ?_, ?_⟩
  · rw [hleft]
    exact hl
  · rw [hleft]
  · exact hright y (hin y (mem_part_of_mem hs hy))
  · exact hparent y (hin y (mem_part_of_mem hs hy))
  · exact (hright x (hin x (self_mem_part hs))).trans hr

/-- The remaining elements are linked from the one above them. -/
theorem joinLoop_spec (harr : ∀ j, arr j = below slot j) {this : ℕ}
    (hparts : PartsOk slot m j) (hthis : joinTree slot j = .nil → m.right this = none)
    (hnodup : (this :: inorder (joinTree slot j)).Nodup) :
    (joinLoop arr j m this).left = m.left ∧
      (joinLoop arr j m this).right this = root (joinTree slot j) ∧
      Down (joinLoop arr j m this) (joinTree slot j) ∧
      Up (joinLoop arr j m this) (some this) (joinTree slot j) ∧
      (∀ y ∉ this :: inorder (joinTree slot j), (joinLoop arr j m this).right y = m.right y) ∧
      ∀ y ∉ inorder (joinTree slot j), (joinLoop arr j m this).parent y = m.parent y := by
  induction j generalizing m this with
  | zero => exact ⟨rfl, hthis rfl, trivial, trivial, fun _ _ => rfl, fun _ _ => rfl⟩
  | succ j ih =>
    rw [joinLoop, harr, below]
    rw [joinTree] at hthis hnodup ⊢
    cases hs : slot j with
    | none =>
      -- an empty element is passed over, so what is below hangs from the same node
      rw [hs] at hthis hnodup
      exact ih (fun j' hj' => hparts j' (hj'.trans j.lt_succ_self)) hthis hnodup
    | some s =>
      obtain ⟨x, l⟩ := s
      rw [hs] at hnodup
      simp only [Option.map_some, inorder_node, root_node] at hnodup ⊢
      obtain ⟨hl, hdl, hul, hr⟩ := hparts j j.lt_succ_self x l hs
      obtain ⟨hnot, hnodup'⟩ := List.nodup_cons.mp hnodup
      obtain ⟨-, hxjoin, hdisj⟩ := List.nodup_append.mp hnodup'
      have hxthis : x ≠ this := fun heq =>
        hnot (heq ▸ List.mem_append_right _ List.mem_cons_self)
      have hxl : ∀ y ∈ inorder l, y ≠ x := fun y hy => hdisj y hy x List.mem_cons_self
      have hxj : x ∉ inorder (joinTree slot j) := (List.nodup_cons.mp hxjoin).1
      set m₁ := (m.setRight this (some x)).setParent x (some this) with hm₁
      have hright₁ : ∀ y, y ≠ this → m₁.right y = m.right y := fun y hy => if_neg hy
      have hparent₁ : ∀ y, y ≠ x → m₁.parent y = m.parent y := fun y hy => if_neg hy
      have hparts₁ : PartsOk slot m₁ j := by
        refine PartsOk.congr (fun j' hj' => hparts j' (hj'.trans j.lt_succ_self)) rfl
          (fun y hy => hright₁ y fun heq => hnot ?_) fun y hy => hparent₁ y fun heq => hxj ?_
        · exact heq ▸ List.mem_append_right _ (List.mem_cons_of_mem _ hy)
        · exact heq ▸ hy
      obtain ⟨hleft', hright', hdown', hup', hkeepR, hkeepP⟩ := ih hparts₁
        (fun hnil => (hright₁ x hxthis).trans (hr.trans (below_eq_none hnil))) hxjoin
      have hnotl : ∀ y ∈ inorder l, y ∉ x :: inorder (joinTree slot j) := fun y hy hy' =>
        hdisj y hy y hy' rfl
      refine ⟨hleft', ?_, ⟨?_, hright', hdl.congr (fun y _ => ?_) fun y hy => ?_, hdown'⟩,
        ⟨?_, hul.congr fun y hy => ?_, hup'⟩, fun y hy => ?_, fun y hy => ?_⟩
      · rw [hkeepR this fun hmem => hnot (List.mem_append_right _ hmem)]
        exact if_pos rfl
      · rw [hleft']
        exact hl
      · rw [hleft']
        rfl
      · rw [hkeepR y (hnotl y hy)]
        exact hright₁ y fun heq => hnot (heq ▸ List.mem_append_left _ hy)
      · rw [hkeepP x hxj]
        exact if_pos rfl
      · rw [hkeepP y fun hmem => hnotl y hy (List.mem_cons_of_mem _ hmem)]
        exact hparent₁ y (hxl y hy)
      · rw [List.mem_cons, not_or] at hy
        rw [hkeepR y fun hmem => hy.2 (List.mem_append_right _ hmem)]
        exact hright₁ y hy.1
      · rw [hkeepP y fun hmem => hy (List.mem_append_right _ (List.mem_cons_of_mem _ hmem))]
        exact hparent₁ y fun heq => hy (heq ▸ List.mem_append_right _ List.mem_cons_self)

end Slots

theorem height_joinTree {slot : ℕ → Option (ℕ × BinaryTree ℕ)}
    (h : ∀ {j x l}, slot j = some (x, l) → l.height ≤ j) (K : ℕ) :
    (joinTree slot K).height ≤ K := by
  induction K with
  | zero => exact le_rfl
  | succ K ih =>
    rw [joinTree]
    cases hs : slot K with
    | none => exact ih.trans K.le_succ
    | some s => exact Nat.succ_le_succ (max_le (h hs) ih)

/-- The top element is the highest bit of the number of nodes. -/
theorem Slots.low {slot : ℕ → Option (ℕ × BinaryTree ℕ)} {m : Links} {arr : ℕ → Option ℕ}
    {n j x : ℕ} {l : BinaryTree ℕ} (h : Slots m arr n slot) (hs : slot j = some (x, l))
    (htree : joinTree slot 32 = .node x l (joinTree slot j)) :
    2 ^ (joinTree slot 32).height ≤ 2 * n := by
  have hbit : n.testBit j = true := by
    rw [← h.bits, hs]
    rfl
  have hheight : (joinTree slot 32).height ≤ j + 1 := by
    rw [htree]
    exact Nat.succ_le_succ (max_le (h.height hs) (height_joinTree h.height j))
  calc 2 ^ (joinTree slot 32).height ≤ 2 ^ (j + 1) := Nat.pow_le_pow_right two_pos hheight
    _ = 2 * 2 ^ j := by rw [pow_succ, mul_comm]
    _ ≤ 2 * n := Nat.mul_le_mul_left 2 (Nat.ge_two_pow_of_testBit hbit)

/-- The new tree has the same nodes in the same order, and is as low as so many nodes allow. -/
theorem balanceTree_spec {size : ℕ} {m : Links} {t : BinaryTree ℕ} (h : Down m t) (ht : t ≠ .nil)
    (hnodup : (inorder t).Nodup) (hsize : (inorder t).length ≤ size)
    (hlen : (inorder t).length < 2 ^ 31) :
    ∃ m' t', balanceTree size m (root t) = some (m', root t') ∧ Down m' t' ∧ Up m' none t' ∧
      inorder t' = inorder t ∧ 2 ^ t'.height ≤ 2 * (inorder t).length := by
  have hslots : Slots m (fun _ => none) 0 fun _ => none :=
    ⟨fun j => (Nat.zero_testBit j).symm, fun j => by cases j <;> rfl,
      fun hs => absurd hs.symm (Option.some_ne_none _),
      fun hs => absurd hs.symm (Option.some_ne_none _),
      fun hs => absurd hs.symm (Option.some_ne_none _),
      fun hs => absurd hs.symm (Option.some_ne_none _)⟩
  have hempty : joinTree (fun _ => none) 32 = .nil := joinTree_eq_nil fun _ _ => rfl
  obtain ⟨w, slot, hwalk, hslots', hn, hjoin⟩ :=
    walkLoop_spec size (size + 1) (w := { m := m }) hslots h (show Chain m none [] from rfl)
      (by rw [hempty]; simpa using hnodup) (by simpa using Nat.lt_succ_of_le hsize)
      (by simpa using hsize) (by simpa using hlen)
  simp only [hempty, inorder_nil, content_nil, List.append_nil, List.nil_append, zero_add]
    at hn hjoin
  rcases topOf_spec hslots'.arr 32 with ⟨-, hnil⟩ | ⟨j, hj, x, l, hs, htop, htree⟩
  · rw [hnil, inorder_nil] at hjoin
    cases t with
    | nil => exact absurd rfl ht
    | node y l r => exact absurd hjoin.symm (by simp)
  · have hnodup' : (inorder l ++ x :: inorder (joinTree slot j)).Nodup := by
      rw [← inorder_node, ← htree, hjoin]
      exact hnodup
    obtain ⟨-, hxjoin, hdisj⟩ := List.nodup_append.mp hnodup'
    obtain ⟨hl, hdl, hul⟩ := hslots'.left hs
    set m₁ := w.m.setParent x none with hm₁
    have hparent₁ : ∀ y, y ≠ x → m₁.parent y = w.m.parent y := fun y hy => if_neg hy
    have hbelow : PartsOk slot m₁ j := (hslots'.partsOk j).congr rfl (fun _ _ => rfl)
      fun y hy => hparent₁ y fun heq => (List.nodup_cons.mp hxjoin).1 (heq ▸ hy)
    obtain ⟨hleft', hright', hdown', hup', hkeepR, hkeepP⟩ := joinLoop_spec hslots'.arr hbelow
      (fun hnil => (hslots'.right hs).trans (below_eq_none hnil)) hxjoin
    have hnotl : ∀ y ∈ inorder l, y ∉ x :: inorder (joinTree slot j) := fun y hy hy' =>
      hdisj y hy y hy' rfl
    refine ⟨joinLoop w.arr j m₁ x, joinTree slot 32, ?_, ?_, ?_, hjoin, ?_⟩
    · rw [balanceTree, hwalk, Option.bind_some, balanceArrSize, htop, htree]
      rfl
    · rw [htree]
      refine ⟨?_, hright', hdl.congr (fun y _ => ?_) fun y hy => ?_, hdown'⟩
      · rw [hleft']
        exact hl
      · rw [hleft']
        rfl
      · exact hkeepR y (hnotl y hy)
    · rw [htree]
      refine ⟨?_, hul.congr fun y hy => ?_, hup'⟩
      · rw [hkeepP x (List.nodup_cons.mp hxjoin).1]
        exact if_pos rfl
      · rw [hkeepP y fun hmem => hnotl y hy (List.mem_cons_of_mem _ hmem)]
        exact hparent₁ y (hdisj y hy x List.mem_cons_self)
    · rw [← hn]
      exact hslots'.low hs htree

theorem balanceTree_lowest {size : ℕ} {m : Links} {t : BinaryTree ℕ} (h : Down m t) (ht : t ≠ .nil)
    (hnodup : (inorder t).Nodup) (hsize : (inorder t).length ≤ size)
    (hlen : (inorder t).length < 2 ^ 31) :
    ∃ m' t', balanceTree size m (root t) = some (m', root t') ∧ Down m' t' ∧ Up m' none t' ∧
      inorder t' = inorder t ∧
      ∀ t'' : BinaryTree ℕ, (inorder t'').length = (inorder t).length → t'.height ≤ t''.height := by
  obtain ⟨m', t', hrun, hdown, hup, hinorder, hheight⟩ := balanceTree_spec h ht hnodup hsize hlen
  refine ⟨m', t', hrun, hdown, hup, hinorder, fun t'' hlen'' => ?_⟩
  have hpow : 2 ^ t'.height < 2 ^ (t''.height + 1) := by
    have hlt := length_inorder_lt t''
    rw [pow_succ]
    omega
  exact Nat.lt_succ_iff.mp ((Nat.pow_lt_pow_iff_right one_lt_two).mp hpow)

theorem balanceTree_lowest_three :
    ∃ m' t', balanceTree 3 { right := fun x => if x < 2 then some (x + 1) else none } (some 0) =
        some (m', root t') ∧ Down m' t' ∧ Up m' none t' ∧ inorder t' = [0, 1, 2] ∧
      ∀ t'' : BinaryTree ℕ, (inorder t'').length = 3 → t'.height ≤ t''.height :=
  balanceTree_lowest (t := .node 0 .nil (.node 1 .nil (.node 2 .nil .nil)))
    ⟨rfl, rfl, trivial, rfl, rfl, trivial, rfl, rfl, trivial, trivial⟩ (by simp)
    (by decide) (by decide) (by decide)

end Nametable

end Idl
