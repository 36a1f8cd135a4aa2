/-
Binary search trees in memory.

The nodes are addresses, and the links are three functions on them.  A tree of addresses says what
the links are: `Down` is about the left and right links, `Up` about those to the parents.

* `Down.congr`, `Up.congr` — links of other nodes do not matter;
* `search_spec` — the search by comparison finds the node with the key;
* `insert_spec` — what it finds otherwise is the place for a new leaf, which keeps the order.
-/
import Mathlib

namespace LinkedTree

open BinaryTree

/-! ### Links -/

structure Links where
  left : ℕ → Option ℕ := fun _ => none
  right : ℕ → Option ℕ := fun _ => none
  parent : ℕ → Option ℕ := fun _ => none

def Links.setLeft (m : Links) (x : ℕ) (p : Option ℕ) : Links :=
  { m with left := fun y => if y = x then p else m.left y }

def Links.setRight (m : Links) (x : ℕ) (p : Option ℕ) : Links :=
  { m with right := fun y => if y = x then p else m.right y }

def Links.setParent (m : Links) (x : ℕ) (p : Option ℕ) : Links :=
  { m with parent := fun y => if y = x then p else m.parent y }

section Fields

variable (m : Links) (x y : ℕ) (p : Option ℕ)

@[simp] theorem setLeft_left : (m.setLeft x p).left y = if y = x then p else m.left y := rfl
@[simp] theorem setLeft_right : (m.setLeft x p).right = m.right := rfl
@[simp] theorem setLeft_parent : (m.setLeft x p).parent = m.parent := rfl
@[simp] theorem setRight_left : (m.setRight x p).left = m.left := rfl
@[simp] theorem setRight_right : (m.setRight x p).right y = if y = x then p else m.right y := rfl
@[simp] theorem setRight_parent : (m.setRight x p).parent = m.parent := rfl
@[simp] theorem setParent_left : (m.setParent x p).left = m.left := rfl
@[simp] theorem setParent_right : (m.setParent x p).right = m.right := rfl
@[simp] theorem setParent_parent :
    (m.setParent x p).parent y = if y = x then p else m.parent y := rfl

end Fields

/-! ### Trees of addresses -/

def inorder : BinaryTree ℕ → List ℕ
  | .nil => []
  | .node x l r => inorder l ++ x :: inorder r

/-- The pointer to the tree. -/
def root : BinaryTree ℕ → Option ℕ
  | .nil => none
  | .node x _ _ => some x

/-- The left and right links are those of the tree. -/
def Down (m : Links) : BinaryTree ℕ → Prop
  | .nil => True
  | .node x l r => m.left x = root l ∧ m.right x = root r ∧ Down m l ∧ Down m r

/-- So are the links to the parents; that of the root is `p`. -/
def Up (m : Links) : Option ℕ → BinaryTree ℕ → Prop
  | _, .nil => True
  | p, .node x l r => m.parent x = p ∧ Up m (some x) l ∧ Up m (some x) r

variable {m m' : Links} {t : BinaryTree ℕ} {p : Option ℕ} {x : ℕ}

@[simp] theorem inorder_nil : inorder .nil = [] := rfl

@[simp] theorem inorder_node (l r : BinaryTree ℕ) :
    inorder (.node x l r) = inorder l ++ x :: inorder r := rfl

@[simp] theorem root_nil : root .nil = none := rfl

@[simp] theorem root_node (l r : BinaryTree ℕ) : root (.node x l r) = some x := rfl

theorem mem_of_root (h : root t = some x) : x ∈ inorder t := by
  cases t with
  | nil => cases h
  | node y l r =>
    obtain rfl := Option.some_inj.mp h
    exact List.mem_append_right _ List.mem_cons_self

theorem length_inorder_lt (t : BinaryTree ℕ) : (inorder t).length < 2 ^ t.height := by
  induction t with
  | nil => exact one_pos
  | node x l r ihl ihr =>
    have hl := Nat.pow_le_pow_right two_pos (le_max_left l.height r.height)
    have hr := Nat.pow_le_pow_right two_pos (le_max_right l.height r.height)
    rw [inorder_node, List.length_append, List.length_cons, BinaryTree.height, pow_succ]
    omega

theorem Down.congr (h : Down m t) (hleft : ∀ x ∈ inorder t, m'.left x = m.left x)
    (hright : ∀ x ∈ inorder t, m'.right x = m.right x) : Down m' t := by
  induction t with
  | nil => trivial
  | node x l r ihl ihr =>
    obtain ⟨hl, hr, hdl, hdr⟩ := h
    have hx : x ∈ inorder (.node x l r) := List.mem_append_right _ List.mem_cons_self
    refine ⟨(hleft x hx).trans hl, (hright x hx).trans hr, ihl hdl ?_ ?_, ihr hdr ?_ ?_⟩
    · exact fun y hy => hleft y (List.mem_append_left _ hy)
    · exact fun y hy => hright y (List.mem_append_left _ hy)
    · exact fun y hy => hleft y (List.mem_append_right _ (List.mem_cons_of_mem _ hy))
    · exact fun y hy => hright y (List.mem_append_right _ (List.mem_cons_of_mem _ hy))

theorem Up.congr (h : Up m p t) (hparent : ∀ x ∈ inorder t, m'.parent x = m.parent x) :
    Up m' p t := by
  induction t generalizing p with
  | nil => trivial
  | node x l r ihl ihr =>
    obtain ⟨hx, hl, hr⟩ := h
    refine ⟨(hparent x (List.mem_append_right _ List.mem_cons_self)).trans hx, ihl hl ?_, ihr hr ?_⟩
    · exact fun y hy => hparent y (List.mem_append_left _ hy)
    · exact fun y hy => hparent y (List.mem_append_right _ (List.mem_cons_of_mem _ hy))

/-- Where only the root has another parent. -/
theorem Up.of_root (h : Up m p t) (hnodup : (inorder t).Nodup) {q : Option ℕ}
    (hroot : ∀ x, root t = some x → m'.parent x = q)
    (hparent : ∀ x ∈ inorder t, root t ≠ some x → m'.parent x = m.parent x) : Up m' q t := by
  cases t with
  | nil => trivial
  | node x l r =>
    obtain ⟨-, hl, hr⟩ := h
    rw [inorder_node, List.nodup_append] at hnodup
    obtain ⟨-, hxr, hdisj⟩ := hnodup
    refine ⟨hroot x rfl, hl.congr fun y hy => ?_, hr.congr fun y hy => ?_⟩
    · refine hparent y (List.mem_append_left _ hy) fun heq => ?_
      exact hdisj y hy x List.mem_cons_self (Option.some_inj.mp heq).symm
    · refine hparent y (List.mem_append_right _ (List.mem_cons_of_mem _ hy)) fun heq => ?_
      obtain rfl := Option.some_inj.mp heq
      exact (List.nodup_cons.mp hxr).1 hy

/-! ### Search -/

variable {α : Type*} [LinearOrder α] (key : ℕ → α) (k : α)

/-- What the search comes to: the node with the key, or the one below which it would be. -/
inductive Place
  | found (x : ℕ)
  | leftOf (x : ℕ)
  | rightOf (x : ℕ)
deriving DecidableEq

/-- The search by comparison, from a node on; `none` if it takes more than so many steps. -/
def search (m : Links) : ℕ → ℕ → Option Place
  | 0, _ => none
  | n + 1, x =>
    if k = key x then some (.found x)
    else if key x < k then
      match m.right x with
      | none => some (.rightOf x)
      | some y => search m n y
    else
      match m.left x with
      | none => some (.leftOf x)
      | some y => search m n y

/-- The tree is in the order of the keys. -/
def Sorted (t : BinaryTree ℕ) : Prop := ((inorder t).map key).Pairwise (· < ·)

/-- The new leaf is linked in. -/
def linkAt (m : Links) (new : ℕ) : Place → Links
  | .found _ => m
  | .leftOf x => m.setLeft x (some new)
  | .rightOf x => m.setRight x (some new)

def Place.node : Place → ℕ
  | .found x => x
  | .leftOf x => x
  | .rightOf x => x

variable {key k}

theorem Sorted.congr {key' : ℕ → α} (h : Sorted key t) (hkey : ∀ y ∈ inorder t, key' y = key y) :
    Sorted key' t := by
  rw [Sorted, List.map_congr_left hkey]
  exact h

/-- The search looks at the keys of the tree only. -/
theorem search_congr {key' : ℕ → α} (h : Down m t) (hkey : ∀ y ∈ inorder t, key' y = key y)
    (hx : root t = some x) (n : ℕ) : search key' k m n x = search key k m n x := by
  induction t generalizing n x with
  | nil => cases hx
  | node z l r ihl ihr =>
    obtain rfl := Option.some_inj.mp hx
    obtain ⟨hleft, hright, hdl, hdr⟩ := h
    cases n with
    | zero => rfl
    | succ n =>
      rw [search, search, hkey z (List.mem_append_right _ List.mem_cons_self), hleft, hright]
      congr 2
      · cases hroot : root r with
        | none => rfl
        | some y =>
          refine ihr hdr (fun w hw => hkey w ?_) hroot n
          exact List.mem_append_right _ (List.mem_cons_of_mem _ hw)
      · cases hroot : root l with
        | none => rfl
        | some y => exact ihl hdl (fun w hw => hkey w (List.mem_append_left _ hw)) hroot n

theorem sorted_node {l r : BinaryTree ℕ} : Sorted key (.node x l r) ↔
    Sorted key l ∧ Sorted key r ∧ (∀ y ∈ inorder l, key y < key x) ∧
      (∀ y ∈ inorder r, key x < key y) ∧ ∀ y ∈ inorder l, ∀ z ∈ inorder r, key y < key z := by
  simp only [Sorted, inorder_node, List.map_append, List.map_cons, List.pairwise_append,
    List.pairwise_cons, List.mem_map, List.mem_cons, forall_exists_index, and_imp,
    forall_apply_eq_imp_iff₂, forall_eq_or_imp]
  constructor
  · rintro ⟨hl, ⟨hxr, hr⟩, hlr⟩
    exact ⟨hl, hr, fun y hy => (hlr y hy).1, hxr, fun y hy => (hlr y hy).2⟩
  · rintro ⟨hl, hr, hlx, hxr, hlr⟩
    exact ⟨hl, ⟨hxr, hr⟩, fun y hy => ⟨hlx y hy, hlr y hy⟩⟩

theorem sorted_leaf (key : ℕ → α) (x : ℕ) : Sorted key (.node x .nil .nil) :=
  List.pairwise_singleton _ _

/-- A node more in the right subtree. -/
theorem Sorted.graft_right {l r t' : BinaryTree ℕ} {z new : ℕ} (h : Sorted key (.node z l r))
    (hs : Sorted key t') (hperm : (inorder t').Perm (new :: inorder r)) (hlt : key z < key new) :
    Sorted key (.node z l t') ∧
      (inorder (.node z l t')).Perm (new :: inorder (.node z l r)) := by
  obtain ⟨hl, -, hlz, hrz, hlr⟩ := sorted_node.mp h
  refine ⟨sorted_node.mpr ⟨hl, hs, hlz, fun w hw => ?_, fun w hw v hv => ?_⟩, ?_⟩
  · rcases List.mem_cons.mp (hperm.subset hw) with rfl | hw
    · exact hlt
    · exact hrz w hw
  · rcases List.mem_cons.mp (hperm.subset hv) with rfl | hv
    · exact (hlz w hw).trans hlt
    · exact hlr w hw v hv
  · exact (((hperm.cons z).trans (List.Perm.swap new z _)).append_left _).trans List.perm_middle

/-- A node more in the left subtree. -/
theorem Sorted.graft_left {l r t' : BinaryTree ℕ} {z new : ℕ} (h : Sorted key (.node z l r))
    (hs : Sorted key t') (hperm : (inorder t').Perm (new :: inorder l)) (hgt : key new < key z) :
    Sorted key (.node z t' r) ∧
      (inorder (.node z t' r)).Perm (new :: inorder (.node z l r)) := by
  obtain ⟨-, hr, hlz, hrz, hlr⟩ := sorted_node.mp h
  refine ⟨sorted_node.mpr ⟨hs, hr, fun w hw => ?_, hrz, fun w hw v hv => ?_⟩, ?_⟩
  · rcases List.mem_cons.mp (hperm.subset hw) with rfl | hw
    · exact hgt
    · exact hlz w hw
  · rcases List.mem_cons.mp (hperm.subset hw) with rfl | hw
    · exact hgt.trans (hrz v hv)
    · exact hlr w hw v hv
  · exact hperm.append_right _

/-- The search finds the node with the key, and no other one. -/
theorem search_spec (h : Down m t) (hsorted : Sorted key t) {n : ℕ} (hn : (inorder t).length ≤ n)
    (hx : root t = some x) : ∃ place, search key k m n x = some place ∧
      place.node ∈ inorder t ∧
      ((∃ y ∈ inorder t, key y = k) → ∃ y, place = .found y ∧ key y = k) ∧
      ((∀ y ∈ inorder t, key y ≠ k) → ∀ y, place ≠ .found y) := by
  induction t generalizing n x with
  | nil => cases hx
  | node z l r ihl ihr =>
    obtain rfl := Option.some_inj.mp hx
    obtain ⟨hleft, hright, hdl, hdr⟩ := h
    obtain ⟨hl, hr, hlz, hzr, -⟩ := sorted_node.mp hsorted
    have hlen : (inorder l).length + (inorder r).length + 1 ≤ n := by
      rw [inorder_node, List.length_append, List.length_cons] at hn
      omega
    have hz : z ∈ inorder (.node z l r) := List.mem_append_right _ List.mem_cons_self
    obtain ⟨n, rfl⟩ : ∃ n', n = n' + 1 := ⟨n - 1, by omega⟩
    rw [search]
    by_cases hk : k = key z
    · rw [if_pos hk]
      exact ⟨_, rfl, hz, fun _ => ⟨z, rfl, hk.symm⟩, fun hnone => absurd hk.symm (hnone z hz)⟩
    · rw [if_neg hk]
      by_cases hlt : key z < k
      · -- what is not in the right subtree is nowhere
        have hnl : ∀ y ∈ inorder l, key y ≠ k := fun y hy heq =>
          absurd (hlz y hy) (heq ▸ hlt.not_gt)
        rw [if_pos hlt, hright]
        -- the search ends here where there is no right subtree
        cases hroot : root r with
        | none =>
          cases r with
          | nil =>
            refine ⟨_, rfl, hz, fun ⟨y, hy, heq⟩ => ?_, fun _ _ => Place.noConfusion⟩
            rcases List.mem_append.mp hy with hy | hy
            · exact absurd heq (hnl y hy)
            · exact absurd (List.mem_singleton.mp hy ▸ heq).symm hk
          | node y l' r' => cases hroot
        | some y =>
          obtain ⟨place, hplace, hmem, hsome, hnone⟩ := ihr hdr hr (n := n) (by omega) hroot
          refine ⟨place, hplace, List.mem_append_right _ (List.mem_cons_of_mem _ hmem),
            fun ⟨w, hw, heq⟩ => hsome ⟨w, ?_, heq⟩,
            fun hno => hnone fun w hw =>
              hno w (List.mem_append_right _ (List.mem_cons_of_mem _ hw))⟩
          rcases List.mem_append.mp hw with hw | hw
          · exact absurd heq (hnl w hw)
          · exact (List.mem_cons.mp hw).resolve_left fun h => hk (h ▸ heq).symm
      · have hgt : k < key z := lt_of_le_of_ne (not_lt.mp hlt) hk
        have hnr : ∀ y ∈ inorder r, key y ≠ k := fun y hy heq =>
          absurd (hzr y hy) (heq ▸ hgt.not_gt)
        rw [if_neg hlt, hleft]
        cases hroot : root l with
        | none =>
          cases l with
          | nil =>
            refine ⟨_, rfl, hz, fun ⟨y, hy, heq⟩ => ?_, fun _ _ => Place.noConfusion⟩
            rcases List.mem_cons.mp hy with hy | hy
            · exact absurd (hy ▸ heq).symm hk
            · exact absurd heq (hnr y hy)
          | node y l' r' => cases hroot
        | some y =>
          obtain ⟨place, hplace, hmem, hsome, hnone⟩ := ihl hdl hl (n := n) (by omega) hroot
          refine ⟨place, hplace, List.mem_append_left _ hmem,
            fun ⟨w, hw, heq⟩ => hsome ⟨w, ?_, heq⟩,
            fun hno => hnone fun w hw => hno w (List.mem_append_left _ hw)⟩
          rcases List.mem_append.mp hw with hw | hw
          · exact hw
          · rcases List.mem_cons.mp hw with rfl | hw
            · exact absurd heq.symm hk
            · exact absurd heq (hnr w hw)

theorem linkAt_of_ne {new y : ℕ} {place : Place} (h : y ≠ place.node) :
    (linkAt m new place).left y = m.left y ∧ (linkAt m new place).right y = m.right y := by
  cases place with
  | found x => exact ⟨rfl, rfl⟩
  | leftOf x => exact ⟨if_neg h, rfl⟩
  | rightOf x => exact ⟨rfl, if_neg h⟩

/-- Where the key is missing, the place that is found is the one for a new leaf. -/
theorem insert_spec (m' : Links) {new : ℕ} (h : Down m t) (hup : Up m p t) (hsorted : Sorted key t)
    (hnodup : (inorder t).Nodup) (hnone : ∀ y ∈ inorder t, key y ≠ key new) {n : ℕ}
    {place : Place} (hn : (inorder t).length ≤ n) (hx : root t = some x)
    (hsearch : search key (key new) m n x = some place)
    (hleaf : m'.left new = none ∧ m'.right new = none ∧ m'.parent new = some place.node)
    (hleft : ∀ y ∈ inorder t, m'.left y = (linkAt m new place).left y)
    (hright : ∀ y ∈ inorder t, m'.right y = (linkAt m new place).right y)
    (hparent : ∀ y ∈ inorder t, m'.parent y = m.parent y) :
    ∃ t', root t' = some x ∧ Down m' t' ∧ Up m' p t' ∧ Sorted key t' ∧
      (inorder t').Perm (new :: inorder t) := by
  induction t generalizing n x p with
  | nil => cases hx
  | node z l r ihl ihr =>
    obtain rfl := Option.some_inj.mp hx
    obtain ⟨hzl, hzr, hdl, hdr⟩ := h
    obtain ⟨hpz, hul, hur⟩ := hup
    obtain ⟨hl, hr, -⟩ := sorted_node.mp hsorted
    have hz : z ∈ inorder (.node z l r) := List.mem_append_right _ List.mem_cons_self
    have hinl : ∀ y ∈ inorder l, y ∈ inorder (.node z l r) := fun y => List.mem_append_left _
    have hinr : ∀ y ∈ inorder r, y ∈ inorder (.node z l r) := fun y hy =>
      List.mem_append_right _ (List.mem_cons_of_mem _ hy)
    have hparts := hnodup
    rw [inorder_node, List.nodup_append, List.nodup_cons] at hparts
    obtain ⟨hnl, ⟨hnotr, hnr⟩, hdisj⟩ := hparts
    have hlen : (inorder l).length + (inorder r).length + 1 ≤ n := by
      rw [inorder_node, List.length_append, List.length_cons] at hn
      omega
    -- the subtree that is not gone into stays
    have hkeep : ∀ {s : BinaryTree ℕ} {q : Option ℕ}, (∀ y ∈ inorder s, y ∈ inorder (.node z l r)) →
        (∀ y ∈ inorder s, y ≠ place.node) → Down m s → Up m q s → Down m' s ∧ Up m' q s := by
      intro s q hin hne hd hu
      refine ⟨hd.congr (fun y hy => ?_) fun y hy => ?_, hu.congr fun y hy => hparent y (hin y hy)⟩
      · exact (hleft y (hin y hy)).trans (linkAt_of_ne (hne y hy)).1
      · exact (hright y (hin y hy)).trans (linkAt_of_ne (hne y hy)).2
    obtain ⟨n, rfl⟩ : ∃ n', n = n' + 1 := ⟨n - 1, by omega⟩
    rw [search, if_neg (hnone z hz).symm] at hsearch
    by_cases hlt : key z < key new
    · rw [if_pos hlt, hzr] at hsearch
      cases hroot : root r with
      | none =>
        rw [hroot] at hsearch
        obtain rfl := Option.some_inj.mp hsearch
        obtain ⟨hdl', hul'⟩ := hkeep hinl (fun y hy => hdisj y hy z List.mem_cons_self) hdl hul
        cases r with
        | node y l' r' => cases hroot
        | nil =>
          refine ⟨.node z l (.node new .nil .nil), rfl, ⟨(hleft z hz).trans hzl,
            (hright z hz).trans (if_pos rfl), hdl', hleaf.1, hleaf.2.1, trivial, trivial⟩,
            ⟨(hparent z hz).trans hpz, hul', hleaf.2.2, trivial, trivial⟩, ?_⟩
          exact hsorted.graft_right (sorted_leaf key new) (List.Perm.refl _) hlt
      | some y =>
        rw [hroot] at hsearch
        obtain ⟨_, hplace, hmem, -⟩ := search_spec hdr hr (n := n) (by omega) hroot
        obtain rfl := Option.some_inj.mp (hplace.symm.trans hsearch)
        obtain ⟨t', hroot', hd', hu', hs', hperm⟩ := ihr hdr hur hr hnr
          (fun w hw => hnone w (hinr w hw)) (by omega) hroot hsearch
          (fun w hw => hleft w (hinr w hw)) (fun w hw => hright w (hinr w hw))
          (fun w hw => hparent w (hinr w hw))
        have hzne : z ≠ Place.node _ := fun heq => hnotr (heq ▸ hmem)
        obtain ⟨hdl', hul'⟩ := hkeep hinl
          (fun w hw heq => hdisj w hw _ (List.mem_cons_of_mem _ hmem) heq) hdl hul
        refine ⟨.node z l t', rfl, ⟨?_, ?_, hdl', hd'⟩,
          ⟨(hparent z hz).trans hpz, hul', hu'⟩, hsorted.graft_right hs' hperm hlt⟩
        · exact ((hleft z hz).trans (linkAt_of_ne hzne).1).trans hzl
        · exact ((hright z hz).trans (linkAt_of_ne hzne).2).trans
            (hzr.trans (hroot.trans hroot'.symm))
    · have hgt : key new < key z := lt_of_le_of_ne (not_lt.mp hlt) (hnone z hz).symm
      rw [if_neg hlt, hzl] at hsearch
      cases hroot : root l with
      | none =>
        rw [hroot] at hsearch
        obtain rfl := Option.some_inj.mp hsearch
        obtain ⟨hdr', hur'⟩ := hkeep hinr (fun y hy (heq : y = z) => hnotr (heq ▸ hy)) hdr hur
        cases l with
        | node y l' r' => cases hroot
        | nil =>
          refine ⟨.node z (.node new .nil .nil) r, rfl, ⟨(hleft z hz).trans (if_pos rfl),
            (hright z hz).trans hzr, ⟨hleaf.1, hleaf.2.1, trivial, trivial⟩, hdr'⟩,
            ⟨(hparent z hz).trans hpz, ⟨hleaf.2.2, trivial, trivial⟩, hur'⟩, ?_⟩
          exact hsorted.graft_left (sorted_leaf key new) (List.Perm.refl _) hgt
      | some y =>
        rw [hroot] at hsearch
        obtain ⟨_, hplace, hmem, -⟩ := search_spec hdl hl (n := n) (by omega) hroot
        obtain rfl := Option.some_inj.mp (hplace.symm.trans hsearch)
        obtain ⟨t', hroot', hd', hu', hs', hperm⟩ := ihl hdl hul hl hnl
          (fun w hw => hnone w (hinl w hw)) (by omega) hroot hsearch
          (fun w hw => hleft w (hinl w hw)) (fun w hw => hright w (hinl w hw))
          (fun w hw => hparent w (hinl w hw))
        have hzne : z ≠ Place.node _ := fun heq => hdisj _ hmem z List.mem_cons_self heq.symm
        obtain ⟨hdr', hur'⟩ := hkeep hinr
          (fun w hw heq => hdisj _ hmem w (List.mem_cons_of_mem _ hw) heq.symm) hdr hur
        refine ⟨.node z t' r, rfl, ⟨?_, ?_, hd', hdr'⟩,
          ⟨(hparent z hz).trans hpz, hu', hur'⟩, hsorted.graft_left hs' hperm hgt⟩
        · exact ((hleft z hz).trans (linkAt_of_ne hzne).1).trans
            (hzl.trans (hroot.trans hroot'.symm))
        · exact ((hright z hz).trans (linkAt_of_ne hzne).2).trans hzr

end LinkedTree
