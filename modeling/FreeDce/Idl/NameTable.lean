/-
The name table of the IDL compiler (nametbl.c).

Every name is a node of a binary search tree; its address is the handle for it.  After every
eleventh new name the tree is built anew.

* `insertNode_spec`, `addId_spec` — one name;
* `addIds_run`, `addIds_spec` — in any run each name has one handle, and exactly the names that were
  added are found.
-/
import FreeDce.Idl.NameBalance

namespace Idl

namespace Nametable

open LinkedTree BinaryTree

/-! ### The routines -/

def maxUnbalance : ℕ := 10

/-- The table: the nodes are numbered as they are allocated. -/
structure Table (α : Type*) [Inhabited α] where
  links : Links := {}
  id : ℕ → α := fun _ => default
  root : Option ℕ := none
  allocated : ℕ := 0
  unbalanced : ℕ := 0

variable {α : Type*} [Inhabited α] [LinearOrder α]

/-- The end of `NAMETABLE_add_id`: a new node is linked in. -/
def insertNode (t : Table α) (id : α) (links : Links) (parent root : Option ℕ) :
    Option (Table α × ℕ) :=
  let new := t.allocated
  let links := ((links.setLeft new none).setRight new none).setParent new parent
  let t : Table α := { t with
    links := links
    id := fun x => if x = new then id else t.id x
    root := root
    allocated := new + 1
    unbalanced := t.unbalanced + 1 }
  if maxUnbalance < t.unbalanced then
    (balanceTree t.allocated t.links t.root).map fun r =>
      ({ t with links := r.1, root := r.2, unbalanced := 0 }, new)
  else some (t, new)

/-- `NAMETABLE_add_id`; the order is that of `strcmp`. -/
def addId (t : Table α) (id : α) : Option (Table α × ℕ) :=
  match t.root with
  | none => insertNode t id t.links none (some t.allocated)
  | some r =>
    (search t.id id t.links t.allocated r).bind fun place =>
      match place with
      | .found x => some (t, x)
      | place =>
        insertNode t id (linkAt t.links t.allocated place) (some place.node) (some r)

/-- `NAMETABLE_lookup_id`; the outer `none` stands for a loop that does not end. -/
def lookupId (t : Table α) (id : α) : Option (Option ℕ) :=
  match t.root with
  | none => some none
  | some r =>
    (search t.id id t.links t.allocated r).map fun place =>
      match place with
      | .found x => some x
      | _ => none

/-! ### The tree of the names -/

/-- A tree in memory holds the names that were allocated. -/
structure Ok (t : Table α) (tree : BinaryTree ℕ) : Prop where
  root : t.root = LinkedTree.root tree
  down : Down t.links tree
  up : Up t.links none tree
  sorted : Sorted t.id tree
  perm : (inorder tree).Perm (List.range t.allocated)

section Table

variable {t : Table α} {tree : BinaryTree ℕ} {id : α}

theorem Ok.mem_iff (h : Ok t tree) {x : ℕ} : x ∈ inorder tree ↔ x < t.allocated :=
  h.perm.mem_iff.trans List.mem_range

theorem Ok.length (h : Ok t tree) : (inorder tree).length = t.allocated :=
  h.perm.length_eq.trans List.length_range

theorem Ok.nodup (h : Ok t tree) : (inorder tree).Nodup := h.perm.nodup_iff.mpr List.nodup_range

theorem Ok.empty : Ok ({} : Table α) .nil :=
  ⟨rfl, trivial, trivial, List.Pairwise.nil, List.Perm.refl _⟩

/-- No two nodes have the same name. -/
theorem Ok.id_inj (h : Ok t tree) {x y : ℕ} (hx : x < t.allocated) (hy : y < t.allocated)
    (heq : t.id x = t.id y) : x = y := by
  have hnodup : ((inorder tree).map t.id).Nodup := h.sorted.imp ne_of_lt
  exact List.inj_on_of_nodup_map hnodup (h.mem_iff.mpr hx) (h.mem_iff.mpr hy) heq

theorem Ok.lookup_some (h : Ok t tree) {x : ℕ} (hx : x < t.allocated) :
    lookupId t (t.id x) = some (some x) := by
  have hmem := h.mem_iff.mpr hx
  rw [lookupId, h.root]
  cases hroot : LinkedTree.root tree with
  | none =>
    cases tree with
    | nil => cases hmem
    | node y l r => cases hroot
  | some r =>
    obtain ⟨place, hplace, hin, hfound, -⟩ :=
      search_spec (k := t.id x) h.down h.sorted h.length.le hroot
    obtain ⟨y, rfl, hy⟩ := hfound ⟨x, hmem, rfl⟩
    obtain rfl : y = x := h.id_inj (h.mem_iff.mp hin) hx hy
    simp only [hplace, Option.map_some]

theorem Ok.lookup_none (h : Ok t tree) (hnone : ∀ x < t.allocated, t.id x ≠ id) :
    lookupId t id = some none := by
  rw [lookupId, h.root]
  cases hroot : LinkedTree.root tree with
  | none => rfl
  | some r =>
    obtain ⟨place, hplace, -, -, hnot⟩ :=
      search_spec (k := id) h.down h.sorted h.length.le hroot
    have hne := hnot fun y hy => hnone y (h.mem_iff.mp hy)
    simp only [hplace, Option.map_some]

/-- What is known of the tables before and after a name is added. -/
structure Added (t t' : Table α) (id : α) (handle : ℕ) : Prop where
  lt : handle < t'.allocated
  id_eq : t'.id handle = id
  id_of_lt : ∀ x < t.allocated, t'.id x = t.id x
  le : t.allocated ≤ t'.allocated
  old : ∀ x < t'.allocated, x < t.allocated ∨ x = handle
  bound : t'.allocated ≤ t.allocated + 1

/-- A new leaf, and the tree that is built anew where it is due. -/
theorem insertNode_spec (id : α) (links : Links) (parent : Option ℕ) {r : Option ℕ}
    (tree : BinaryTree ℕ)
    (hlen : t.allocated + 1 < 2 ^ 31)
    (hr : r = LinkedTree.root tree)
    (hdown : Down (((links.setLeft t.allocated none).setRight t.allocated none).setParent
      t.allocated parent) tree)
    (hup : Up (((links.setLeft t.allocated none).setRight t.allocated none).setParent
      t.allocated parent) none tree)
    (hsorted : Sorted (fun x => if x = t.allocated then id else t.id x) tree)
    (hperm : (inorder tree).Perm (List.range (t.allocated + 1))) :
    ∃ t' tree', insertNode t id links parent r = some (t', t.allocated) ∧ Ok t' tree' ∧
      Added t t' id t.allocated := by
  have hadded : ∀ {links' r' n}, Added t
      { links := links', id := fun x => if x = t.allocated then id else t.id x, root := r',
        allocated := t.allocated + 1, unbalanced := n } id t.allocated := fun {_ _ _} =>
    ⟨Nat.lt_succ_self _, if_pos rfl, fun x hx => if_neg hx.ne, Nat.le_succ _,
      fun x hx => Nat.lt_succ_iff_lt_or_eq.mp hx, le_rfl⟩
  have hlength : (inorder tree).length = t.allocated + 1 :=
    hperm.length_eq.trans List.length_range
  -- a rebuilding keeps the nodes in their order, so the tree stays sorted
  rw [insertNode]
  by_cases hbalance : maxUnbalance < t.unbalanced + 1
  · have hne : tree ≠ .nil := fun hnil => by
      rw [hnil] at hlength
      cases hlength
    obtain ⟨m', tree', hrun, hdown', hup', hinorder, -⟩ := balanceTree_spec hdown hne
      (hperm.nodup_iff.mpr List.nodup_range) hlength.le (hlength ▸ hlen)
    simp only [if_pos hbalance, hr, hrun, Option.map_some]
    refine ⟨_, tree', rfl, ⟨rfl, hdown', hup', ?_, hinorder ▸ hperm⟩, hadded⟩
    rw [Sorted, hinorder]
    exact hsorted
  · simp only [if_neg hbalance]
    exact ⟨_, tree, rfl, ⟨hr, hdown, hup, hsorted, hperm⟩, hadded⟩

/-- A name that is there keeps its node; another one gets a node. -/
theorem addId_spec (h : Ok t tree) (hlen : t.allocated + 1 < 2 ^ 31) (id : α) :
    ∃ t' tree' handle, addId t id = some (t', handle) ∧ Ok t' tree' ∧ Added t t' id handle := by
  have hnew : ∀ y ∈ inorder tree, y ≠ t.allocated := fun y hy => (h.mem_iff.mp hy).ne
  rw [addId, h.root]
  cases hroot : LinkedTree.root tree with
  | none =>
    have hzero : t.allocated = 0 := by
      cases tree with
      | nil => exact h.length.symm
      | node y l r => cases hroot
    obtain ⟨t', tree', hrun, hok, hadded⟩ := insertNode_spec id t.links none
      (.node t.allocated .nil .nil) hlen rfl
      ⟨if_pos rfl, if_pos rfl, trivial, trivial⟩ ⟨if_pos rfl, trivial, trivial⟩
      (List.pairwise_singleton _ _) (by rw [hzero]; exact List.Perm.refl _)
    exact ⟨t', tree', t.allocated, hrun, hok, hadded⟩
  | some r =>
    obtain ⟨place, hplace, hin, hfound, hnot⟩ :=
      search_spec (k := id) h.down h.sorted h.length.le hroot
    simp only [hplace, Option.bind_some]
    by_cases hex : ∃ y ∈ inorder tree, t.id y = id
    · obtain ⟨y, rfl, hy⟩ := hfound hex
      exact ⟨t, tree, y, rfl, h, h.mem_iff.mp hin, hy, fun _ _ => rfl, le_rfl,
        fun _ hx => .inl hx, Nat.le_succ _⟩
    · have hno : ∀ y ∈ inorder tree, t.id y ≠ id := fun y hy heq => hex ⟨y, hy, heq⟩
      have hne := hnot hno
      -- the search has not looked at the new node's name
      let key' : ℕ → α := fun x => if x = t.allocated then id else t.id x
      have hkey : ∀ y ∈ inorder tree, key' y = t.id y := fun y hy => if_neg (hnew y hy)
      have hself : key' t.allocated = id := if_pos rfl
      have hsearch : search key' (key' t.allocated) t.links t.allocated r = some place := by
        rw [search_congr h.down hkey hroot, hself]
        exact hplace
      obtain ⟨tree', hroot', hdown', hup', hsorted', hperm'⟩ :=
        insert_spec ((((linkAt t.links t.allocated place).setLeft t.allocated none).setRight
          t.allocated none).setParent t.allocated (some place.node)) h.down h.up
          (h.sorted.congr hkey) h.nodup
          (fun y hy => by rw [hkey y hy, hself]; exact hno y hy) h.length.le hroot hsearch
          ⟨if_pos rfl, if_pos rfl, if_pos rfl⟩ (fun y hy => if_neg (hnew y hy))
          (fun y hy => if_neg (hnew y hy))
          (fun y hy => (if_neg (hnew y hy)).trans (by cases place <;> rfl))
      have hrange : (inorder tree').Perm (List.range (t.allocated + 1)) := by
        rw [List.range_succ]
        exact (hperm'.trans (h.perm.cons _)).trans (List.perm_append_singleton _ _).symm
      obtain ⟨t', tree'', hrun, hok, hadded⟩ := insertNode_spec id _ _ tree' hlen hroot'.symm
        hdown' hup' hsorted' hrange
      refine ⟨t', tree'', t.allocated, ?_, hok, hadded⟩
      cases place with
      | found y => exact absurd rfl (hne y)
      | leftOf y => exact hrun
      | rightOf y => exact hrun

end Table

/-! ### Runs -/

/-- Names are added one after the other; the result has their handles. -/
def addIds (t : Table α) : List α → Option (Table α × List ℕ)
  | [] => some (t, [])
  | id :: ids =>
    (addId t id).bind fun r => (addIds r.1 ids).map fun s => (s.1, r.2 :: s.2)

theorem addIds_run {t : Table α} {tree : BinaryTree ℕ} (h : Ok t tree) (ids : List α)
    (hlen : t.allocated + ids.length < 2 ^ 31) :
    ∃ t' tree' handles, addIds t ids = some (t', handles) ∧ Ok t' tree' ∧
      handles.length = ids.length ∧ t.allocated ≤ t'.allocated ∧
      (∀ x < t.allocated, t'.id x = t.id x) ∧
      (∀ q ∈ ids.zip handles, q.2 < t'.allocated ∧ t'.id q.2 = q.1) ∧
      ∀ x < t'.allocated, x < t.allocated ∨ t'.id x ∈ ids := by
  induction ids generalizing t tree with
  | nil =>
    exact ⟨t, tree, [], rfl, h, rfl, le_rfl, fun _ _ => rfl, fun _ hq => absurd hq List.not_mem_nil,
      fun _ hx => .inl hx⟩
  | cons id ids ih =>
    rw [List.length_cons] at hlen
    obtain ⟨t₁, tree₁, handle, hadd, hok₁, hadded⟩ := addId_spec h (by omega) id
    obtain ⟨t', tree', handles, hrun, hok, hlength, hle, hid, hzip, hold⟩ :=
      ih hok₁ (by have := hadded.bound; omega)
    have hhandle : t'.id handle = id := (hid handle hadded.lt).trans hadded.id_eq
    refine ⟨t', tree', handle :: handles, ?_, hok, by simp [hlength], hadded.le.trans hle,
      fun x hx => ?_, fun q hq => ?_, fun x hx => ?_⟩
    · rw [addIds, hadd, Option.bind_some, hrun]
      rfl
    · exact (hid x (hx.trans_le hadded.le)).trans (hadded.id_of_lt x hx)
    · rcases List.mem_cons.mp hq with rfl | hq
      · exact ⟨hadded.lt.trans_le hle, hhandle⟩
      · exact hzip q hq
    · rcases hold x hx with hx | hx
      · rcases hadded.old x hx with hx | rfl
        · exact .inl hx
        · exact .inr (hhandle ▸ List.mem_cons_self)
      · exact .inr (List.mem_cons_of_mem _ hx)

/-- Names that are added to the empty table are found under their handles, by which they can be
told apart, and no other name is found. -/
theorem addIds_spec (ids : List α) (hlen : ids.length < 2 ^ 31) :
    ∃ t tree handles, addIds {} ids = some (t, handles) ∧ Ok t tree ∧
      handles.length = ids.length ∧
      (∀ q ∈ ids.zip handles, t.id q.2 = q.1 ∧ lookupId t q.1 = some (some q.2)) ∧
      ∀ id ∉ ids, lookupId t id = some none := by
  obtain ⟨t, tree, handles, hrun, hok, hlength, -, -, hzip, hold⟩ :=
    addIds_run (Ok.empty (α := α)) ids (by simpa using hlen)
  refine ⟨t, tree, handles, hrun, hok, hlength, fun q hq => ?_, fun id hid => ?_⟩
  · obtain ⟨hlt, hq'⟩ := hzip q hq
    exact ⟨hq', hq' ▸ hok.lookup_some hlt⟩
  · refine hok.lookup_none fun x hx heq => hid ?_
    exact (hold x hx).elim (fun h => absurd h (Nat.not_lt_zero _)) fun hmem => heq ▸ hmem

theorem addIds_spec_three : ∃ t tree handles,
    addIds ({} : Table String) ["tower", "floor", "tower"] = some (t, handles) ∧ Ok t tree ∧
      handles.length = 3 ∧
      (∀ q ∈ ["tower", "floor", "tower"].zip handles,
        t.id q.2 = q.1 ∧ lookupId t q.1 = some (some q.2)) ∧
      lookupId t "name" = some none := by
  obtain ⟨t, tree, handles, hrun, hok, hlength, hzip, hnone⟩ :=
    addIds_spec ["tower", "floor", "tower"] (by decide)
  exact ⟨t, tree, handles, hrun, hok, hlength, hzip, hnone "name" (by decide)⟩

end Nametable

end Idl
