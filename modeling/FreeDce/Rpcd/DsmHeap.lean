/-
Blocks and free blocks of a data store (dsm.c).

* `HeapOk`, `FreeIs` — what holds of the chunks and of the free list;
* `coalesceChunk_spec`, `coalesce_spec` — joining free blocks;
* `growFile_spec` — a new chunk.
-/
import FreeDce.Lib.Tiling
import FreeDce.Rpcd.Dsm

namespace Dsm

open Tiling

/-! ### Arithmetic -/

theorem u32_of_lt {n : ℕ} (h : n < 2 ^ 32) : u32 n = n := Nat.mod_eq_of_lt h

theorem sub32_of_le {n m : ℕ} (h : m ≤ n) (hn : n < 2 ^ 32) : sub32 n m = n - m := by
  rw [sub32, u32]
  omega

theorem roundUp_page {n : ℕ} (hn : n < 2 ^ 31 + 8) :
    roundUp n pageSize = (n + 1023) / 1024 * 1024 := by
  rw [roundUp, pageSize, u32_of_lt (by omega)]

theorem roundUp_eight {n : ℕ} (hn : n < 2 ^ 31) :
    8 ∣ roundUp n 8 ∧ n ≤ roundUp n 8 ∧ roundUp n 8 ≤ 2 ^ 31 := by
  rw [roundUp, u32_of_lt (by omega)]
  omega

/-! ### Invariants -/

/-- Chunks and blocks: `tiles c` are the offsets of the blocks of the chunk `c`. -/
structure HeapOk (mem : Ptr → Block) (map : List FileMap) (pages : ℕ) (tiles : ℕ → List ℕ) :
    Prop where
  tiled : ∀ (c : ℕ) (m : FileMap), map[c]? = some m →
    Tiles preheader (fun o => (mem ⟨c, o⟩).size) 0 m.size (tiles c)
  loc : ∀ (c : ℕ) (m : FileMap), map[c]? = some m → ∀ o ∈ tiles c, (mem ⟨c, o⟩).loc = m.loc + o
  aligned : ∀ (c : ℕ) (m : FileMap), map[c]? = some m → ∀ o ∈ tiles c, 8 ∣ (mem ⟨c, o⟩).size
  unit : ∀ (c : ℕ) (m : FileMap), map[c]? = some m → ∀ o ∈ tiles c, (m.loc + o) % pageSize + unitSize ≤ pageSize
  chunk : ∀ (c : ℕ) (m : FileMap), map[c]? = some m → pageSize ∣ m.loc ∧ 0 < m.size ∧ pageSize ∣ m.size ∧
    m.loc + m.size ≤ (pages + 1) * pageSize
  bound : (pages + 1) * pageSize < 2 ^ 31

def IsBlock (map : List FileMap) (tiles : ℕ → List ℕ) (p : Ptr) : Prop :=
  p.chunk < map.length ∧ p.off ∈ tiles p.chunk

/-- The free list: the blocks with `P`, by size. -/
structure FreeIs (mem : Ptr → Block) (freelist : List Ptr) (P : Ptr → Prop) : Prop where
  sorted : freelist.Pairwise fun p q => (mem p).size ≤ (mem q).size
  nodup : freelist.Nodup
  mem_iff : ∀ p, p ∈ freelist ↔ P p

variable {s : Store} {mem mem' : Ptr → Block} {map : List FileMap} {pages : ℕ}
  {tiles : ℕ → List ℕ} {freelist : List Ptr} {P Q : Ptr → Prop} {p q : Ptr}

section Fields

variable (s) (io : IoWrite)

@[simp] theorem write_fd : (s.write io).fd = s.fd := by rw [Store.write]; split <;> rfl
@[simp] theorem write_mem : (s.write io).mem = s.mem := by rw [Store.write]; split <;> rfl
@[simp] theorem write_map : (s.write io).map = s.map := by rw [Store.write]; split <;> rfl
@[simp] theorem write_pages : (s.write io).pages = s.pages := by rw [Store.write]; split <;> rfl
@[simp] theorem write_pending : (s.write io).pending = s.pending := by rw [Store.write]; split <;> rfl
@[simp] theorem write_freelist : (s.write io).freelist = s.freelist := by
  rw [Store.write]; split <;> rfl
@[simp] theorem write_data : (s.write io).data = s.data := by rw [Store.write]; split <;> rfl

end Fields

theorem set_mem (f : Block → Block) :
    (s.set p f).mem q = if q = p then f (s.mem p) else s.mem q := Function.update_apply ..

/-- What `HeapOk` says of one block. -/
theorem HeapOk.isBlock (h : HeapOk mem map pages tiles) (hp : IsBlock map tiles p) :
    ∃ m, map[p.chunk]? = some m ∧ (mem p).loc = m.loc + p.off ∧ 8 ∣ (mem p).size ∧
      p.off + (mem p).size + preheader ≤ m.size ∧ (mem p).size < 2 ^ 31 ∧
      (mem p).loc + (mem p).size + preheader < 2 ^ 31 := by
  obtain ⟨hlt, hoff⟩ := hp
  have hm : map[p.chunk]? = some map[p.chunk] := List.getElem?_eq_getElem hlt
  obtain ⟨-, hle⟩ := (h.tiled _ _ hm).mem_le hoff
  obtain ⟨-, -, -, hend⟩ := h.chunk _ _ hm
  have hloc := h.loc _ _ hm _ hoff
  have hbound := h.bound
  refine ⟨_, hm, hloc, h.aligned _ _ hm _ hoff, hle, ?_, ?_⟩
  · change p.off + (mem p).size + preheader ≤ _ at hle
    omega
  · change p.off + (mem p).size + preheader ≤ _ at hle
    change (mem p).loc = _ at hloc
    omega

/-- Sizes and locations of the blocks are all that `HeapOk` depends on. -/
theorem HeapOk.congr (h : HeapOk mem map pages tiles)
    (hmem : ∀ p, IsBlock map tiles p → (mem' p).size = (mem p).size ∧ (mem' p).loc = (mem p).loc) :
    HeapOk mem' map pages tiles := by
  have hblock : ∀ (c : ℕ) (m : FileMap), map[c]? = some m → ∀ o ∈ tiles c,
      (mem' ⟨c, o⟩).size = (mem ⟨c, o⟩).size ∧ (mem' ⟨c, o⟩).loc = (mem ⟨c, o⟩).loc :=
    fun c m hm o ho => hmem ⟨c, o⟩ ⟨(List.getElem?_eq_some_iff.mp hm).1, ho⟩
  refine ⟨fun c m hm => (h.tiled c m hm).congr fun o ho => (hblock c m hm o ho).1, ?_, ?_, h.unit,
    h.chunk, h.bound⟩
  · intro c m hm o ho
    rw [(hblock c m hm o ho).2]
    exact h.loc c m hm o ho
  · intro c m hm o ho
    rw [(hblock c m hm o ho).1]
    exact h.aligned c m hm o ho

/-! ### The free list -/

theorem FreeIs.congr (h : FreeIs mem freelist P) (hmem : ∀ p, P p → (mem' p).size = (mem p).size) :
    FreeIs mem' freelist P := by
  refine ⟨h.sorted.imp_of_mem fun hp hq hle => ?_, h.nodup, h.mem_iff⟩
  rw [hmem _ ((h.mem_iff _).mp hp), hmem _ ((h.mem_iff _).mp hq)]
  exact hle

theorem FreeIs.iff (h : FreeIs mem freelist P) (hPQ : ∀ p, P p ↔ Q p) : FreeIs mem freelist Q :=
  ⟨h.sorted, h.nodup, fun p => (h.mem_iff p).trans (hPQ p)⟩

theorem FreeIs.insert (h : FreeIs s.mem s.freelist P) (hp : ¬ P p) :
    FreeIs s.mem (freeBlock s p).freelist fun q => P q ∨ q = p := by
  let r : Ptr → Ptr → Prop := fun p q => (s.mem p).size ≤ (s.mem q).size
  have : Std.Total r := ⟨fun p q => le_total _ _⟩
  have : IsTrans Ptr r := ⟨fun _ _ _ => le_trans⟩
  refine ⟨List.Pairwise.orderedInsert (r := r) p _ h.sorted, ?_, fun q => ?_⟩
  · refine (List.perm_orderedInsert r p s.freelist).nodup_iff.mpr ?_
    exact List.nodup_cons.mpr ⟨fun hmem => hp ((h.mem_iff p).mp hmem), h.nodup⟩
  · rw [freeBlock, List.mem_orderedInsert, h.mem_iff, or_comm]

/-- A free block that is taken off the list is large enough. -/
theorem FreeIs.get {n : ℕ} {s' : Store} (h : FreeIs s.mem s.freelist P)
    (hget : getFreeBlock s n = some (p, s')) :
    P p ∧ n ≤ (s.mem p).size ∧ (∃ freelist, s' = { s with freelist := freelist }) ∧
      FreeIs s.mem s'.freelist fun q => P q ∧ q ≠ p := by
  rw [getFreeBlock] at hget
  cases hfind : s.freelist.find? (fun p => n ≤ (s.mem p).size) with
  | none =>
    rw [hfind] at hget
    cases hget
  | some p' =>
    rw [hfind, Option.some_inj, Prod.mk.injEq] at hget
    obtain ⟨rfl, rfl⟩ := hget
    have hmem := List.mem_of_find?_eq_some hfind
    have hsize : n ≤ (s.mem p').size := by simpa using List.find?_some hfind
    refine ⟨(h.mem_iff p').mp hmem, hsize, ⟨_, rfl⟩, h.sorted.eraseP _, h.nodup.eraseP _, ?_⟩
    intro q
    -- the first block that is large enough is the one that is found
    obtain ⟨-, before, after, hlist, hbefore⟩ := List.find?_eq_some_iff_append.mp hfind
    have herase : s.freelist.eraseP (fun p => n ≤ (s.mem p).size) = before ++ after := by
      rw [hlist, List.eraseP_append_right _ fun x hx => by simpa using hbefore x hx,
        List.eraseP_cons_of_pos (by simpa using hsize)]
    have hnodup := h.nodup
    rw [hlist] at hnodup
    have hp' : p' ∉ before ++ after := (List.nodup_middle.mp hnodup).notMem
    rw [herase, ← h.mem_iff, hlist, List.mem_append, List.mem_append, List.mem_cons]
    constructor
    · intro hq
      refine ⟨hq.imp_right Or.inr, ?_⟩
      rintro rfl
      exact hp' (List.mem_append.mpr hq)
    · rintro ⟨hq, hne⟩
      exact hq.imp_right fun hq => hq.resolve_left hne

theorem FreeIs.get_none {n : ℕ} (h : FreeIs s.mem s.freelist P) (hget : getFreeBlock s n = none)
    (hp : P p) : (s.mem p).size < n := by
  rw [getFreeBlock] at hget
  cases hfind : s.freelist.find? (fun p => n ≤ (s.mem p).size) with
  | none => simpa using List.find?_eq_none.mp hfind p ((h.mem_iff p).mpr hp)
  | some p' =>
    rw [hfind] at hget
    cases hget

/-! ### Joining free blocks -/

/-- What joining free blocks keeps: the blocks that are left were there, those in use are as
they were. -/
structure Merged (s : Store) (tiles : ℕ → List ℕ) (s' : Store) (tiles' : ℕ → List ℕ) : Prop where
  fd : s'.fd = s.fd
  map : s'.map = s.map
  pages : s'.pages = s.pages
  pending : s'.pending = s.pending
  data : s'.data = s.data
  old : ∀ p, IsBlock s.map tiles' p → IsBlock s.map tiles p ∧ (s'.mem p).isfree = (s.mem p).isfree
  used : ∀ p, IsBlock s.map tiles p → (s.mem p).isfree = false →
    IsBlock s.map tiles' p ∧ s'.mem p = s.mem p

theorem Merged.trans {s₁ s₂ s₃ : Store} {t₁ t₂ t₃ : ℕ → List ℕ} (h : Merged s₁ t₁ s₂ t₂)
    (h' : Merged s₂ t₂ s₃ t₃) : Merged s₁ t₁ s₃ t₃ where
  fd := h'.fd.trans h.fd
  map := h'.map.trans h.map
  pages := h'.pages.trans h.pages
  pending := h'.pending.trans h.pending
  data := h'.data.trans h.data
  old p hp := by
    obtain ⟨hp₂, hfree₂⟩ := h'.old p (h.map ▸ hp)
    obtain ⟨hp₁, hfree₁⟩ := h.old p (h.map ▸ hp₂)
    exact ⟨hp₁, hfree₂.trans hfree₁⟩
  used p hp hused := by
    obtain ⟨hp₂, hmem₂⟩ := h.used p hp hused
    obtain ⟨hp₃, hmem₃⟩ := h'.used p (h.map.symm ▸ hp₂) (by rw [hmem₂]; exact hused)
    exact ⟨h.map ▸ hp₃, hmem₃.trans hmem₂⟩

/-- Only the free list and the log change. -/
theorem Merged.of_mem {s' : Store} (hfd : s'.fd = s.fd) (hmap : s'.map = s.map)
    (hpages : s'.pages = s.pages) (hpending : s'.pending = s.pending) (hdata : s'.data = s.data)
    (hmem : s'.mem = s.mem) : Merged s tiles s' tiles where
  fd := hfd
  map := hmap
  pages := hpages
  pending := hpending
  data := hdata
  old p hp := ⟨hp, by rw [hmem]⟩
  used p hp _ := ⟨hp, by rw [hmem]⟩

/-- A free block is put on the list. -/
def freeIf (s : Store) (p : Ptr) : Store := if (s.mem p).isfree then freeBlock s p else s

theorem freeIf_mem (s : Store) (p : Ptr) : (freeIf s p).mem = s.mem := by
  rw [freeIf]
  split <;> rfl

theorem freeIf_merged (s : Store) (p : Ptr) : Merged s tiles (freeIf s p) tiles := by
  rw [freeIf]
  split
  · exact .of_mem rfl rfl rfl rfl rfl rfl
  · exact .of_mem rfl rfl rfl rfl rfl rfl

theorem FreeIs.freeIf (h : FreeIs s.mem s.freelist P) (hp : ¬ P p) :
    FreeIs s.mem (freeIf s p).freelist fun q => P q ∨ q = p ∧ (s.mem q).isfree = true := by
  rw [Dsm.freeIf]
  by_cases hfree : (s.mem p).isfree = true
  · rw [if_pos hfree]
    refine (h.insert hp).iff fun q => or_congr_right ⟨?_, And.left⟩
    rintro rfl
    exact ⟨rfl, hfree⟩
  · rw [if_neg hfree]
    refine h.iff fun q => ⟨Or.inl, ?_⟩
    rintro (hq | ⟨rfl, hq⟩)
    · exact hq
    · exact absurd hq hfree

/-- Two free blocks of a chunk are joined. -/
theorem HeapOk.merge {c o o' : ℕ} {m : FileMap} {before after : List ℕ}
    (h : HeapOk s.mem s.map s.pages tiles) (hm : s.map[c]? = some m)
    (htiles : tiles c = before ++ o :: o' :: after) (hfree : (s.mem ⟨c, o⟩).isfree = true)
    (hfree' : (s.mem ⟨c, o'⟩).isfree = true) :
    let s' := s.set ⟨c, o⟩ fun b =>
      { b with size := u32 (b.size + (s.mem ⟨c, o'⟩).size + preheader) }
    let tiles' := Function.update tiles c (before ++ o :: after)
    HeapOk s'.mem s'.map s'.pages tiles' ∧ Merged s tiles s' tiles' := by
  have htiled := h.tiled c m hm
  rw [htiles] at htiled
  have hnodup := htiled.nodup (by decide)
  have hmem' : o' ∈ tiles c := by rw [htiles]; simp
  have hnext : o' = o + (s.mem ⟨c, o⟩).size + preheader := htiled.next_cons
  obtain ⟨m', hm', -, haligned', hle', hsize', -⟩ :=
    h.isBlock (p := ⟨c, o'⟩) ⟨(List.getElem?_eq_some_iff.mp hm).1, hmem'⟩
  have hmm : m' = m := Option.some_inj.mp (hm'.symm.trans hm)
  subst hmm
  obtain ⟨-, -, -, hend⟩ := h.chunk c m' hm
  have hbound := h.bound
  have hsum : u32 ((s.mem ⟨c, o⟩).size + (s.mem ⟨c, o'⟩).size + preheader)
      = (s.mem ⟨c, o⟩).size + (s.mem ⟨c, o'⟩).size + preheader := by
    refine u32_of_lt ?_
    change o' + _ + _ ≤ _ at hle'
    omega
  intro s' tiles'
  have hset (q : Ptr) : s'.mem q = if q = ⟨c, o⟩ then { s.mem ⟨c, o⟩ with
      size := (s.mem ⟨c, o⟩).size + (s.mem ⟨c, o'⟩).size + preheader } else s.mem q := by
    rw [set_mem, hsum]
  have hother (q : Ptr) (hq : q ≠ ⟨c, o⟩) : s'.mem q = s.mem q := by rw [hset, if_neg hq]
  have htiles' (c' : ℕ) : tiles' c' = if c' = c then before ++ o :: after else tiles c' :=
    Function.update_apply ..
  have hsub (c' : ℕ) : tiles' c' ⊆ tiles c' := by
    rw [htiles']
    by_cases hc : c' = c
    · subst hc
      rw [if_pos rfl, htiles]
      intro x hx
      simp only [List.mem_append, List.mem_cons] at hx ⊢
      tauto
    · rw [if_neg hc]
      exact List.Subset.refl _
  refine ⟨⟨?_, ?_, ?_, ?_, h.chunk, h.bound⟩, ⟨rfl, rfl, rfl, rfl, rfl, ?_, ?_⟩⟩
  · intro c' m₁ hm₁
    rw [htiles']
    by_cases hc : c' = c
    · subst hc
      have hm₂ : m₁ = m' := Option.some_inj.mp (hm₁.symm.trans hm)
      subst hm₂
      rw [if_pos rfl]
      refine htiled.merge (by decide) ?_ fun x hx => ?_
      · rw [hset, if_pos rfl]
      · rw [hother _ fun heq => hx (congrArg Ptr.off heq)]
    · rw [if_neg hc]
      exact (h.tiled c' m₁ hm₁).congr fun x _ => by
        rw [hother _ fun heq => hc (congrArg Ptr.chunk heq)]
  · intro c' m₁ hm₁ x hx
    rw [← h.loc c' m₁ hm₁ x (hsub c' hx), hset]
    by_cases hq : (⟨c', x⟩ : Ptr) = ⟨c, o⟩
    · rw [if_pos hq, hq]
    · rw [if_neg hq]
  · intro c' m₁ hm₁ x hx
    rw [hset]
    by_cases hq : (⟨c', x⟩ : Ptr) = ⟨c, o⟩
    · rw [if_pos hq]
      have haligned := h.aligned c m' hm o (by rw [htiles]; simp)
      change 8 ∣ _ + _ + _
      exact Nat.dvd_add (Nat.dvd_add haligned haligned') (by decide)
    · rw [if_neg hq]
      exact h.aligned c' m₁ hm₁ x (hsub c' hx)
  · exact fun c' m₁ hm₁ x hx => h.unit c' m₁ hm₁ x (hsub c' hx)
  · rintro p ⟨hlt, hoff⟩
    refine ⟨⟨hlt, hsub _ hoff⟩, ?_⟩
    rw [hset]
    by_cases hq : p = ⟨c, o⟩
    · rw [if_pos hq, hq]
    · rw [if_neg hq]
  · rintro p ⟨hlt, hoff⟩ hused
    have hpo : p ≠ ⟨c, o⟩ := by
      rintro rfl
      rw [hfree] at hused
      cases hused
    have hpo' : p ≠ ⟨c, o'⟩ := by
      rintro rfl
      rw [hfree'] at hused
      cases hused
    refine ⟨⟨hlt, ?_⟩, hother p hpo⟩
    rw [htiles']
    by_cases hc : p.chunk = c
    · rw [if_pos hc]
      rw [hc, htiles] at hoff
      have hoff' : p.off ≠ o' := fun heq => hpo' (by rw [← hc, ← heq])
      simp only [List.mem_append, List.mem_cons] at hoff ⊢
      tauto
    · rw [if_neg hc]
      exact hoff

theorem writeHeader_merged (s : Store) (p : Ptr) : Merged s tiles (writeHeader s p) tiles :=
  .of_mem (write_fd _ _) (write_map _ _) (write_pages _ _) (write_pending _ _) (write_data _ _)
    (write_mem _ _)

theorem u32_le_iff {n m : ℕ} (hn : n < 2 ^ 32) : m ≤ u32 n ↔ m ≤ n := by rw [u32_of_lt hn]

/-- The loop through a chunk, from one of its blocks on. -/
theorem coalesceChunk_spec {n c o : ℕ} {m : FileMap} (before : List ℕ) {after : List ℕ}
    (h : HeapOk s.mem s.map s.pages tiles) (hm : s.map[c]? = some m)
    (htiles : tiles c = before ++ o :: after) (hn : after.length < n)
    (hfree : FreeIs s.mem s.freelist P) (hP : ∀ p, P p → p.chunk = c → p.off ∈ before) :
    ∃ after', let s' := coalesceChunk m.size n s ⟨c, o⟩
      let tiles' := Function.update tiles c (before ++ o :: after')
      HeapOk s'.mem s'.map s'.pages tiles' ∧ Merged s tiles s' tiles' ∧
        FreeIs s'.mem s'.freelist fun p =>
          P p ∨ p.chunk = c ∧ p.off ∈ o :: after' ∧ (s'.mem p).isfree = true := by
  induction n generalizing s tiles o before after P with
  | zero => exact absurd hn (Nat.not_lt_zero _)
  | succ n ih =>
    have htiled := h.tiled c m hm
    rw [htiles] at htiled
    have hnotMem : o ∉ before := by
      have hnodup := List.nodup_middle.mp (htiled.nodup (by decide))
      exact fun hmem => (List.nodup_cons.mp hnodup).1 (List.mem_append_left _ hmem)
    have hPo : ¬ P ⟨c, o⟩ := fun hp => hnotMem (hP _ hp rfl)
    have hblock : IsBlock s.map tiles ⟨c, o⟩ :=
      ⟨(List.getElem?_eq_some_iff.mp hm).1, by rw [htiles]; simp⟩
    obtain ⟨m', hm', -, -, hle, -, hloc⟩ := h.isBlock hblock
    obtain ⟨-, -, -, hend⟩ := h.chunk c m hm
    have hbound := h.bound
    have hnext : (⟨c, o⟩ : Ptr).add ((s.mem ⟨c, o⟩).size + preheader)
        = ⟨c, o + (s.mem ⟨c, o⟩).size + preheader⟩ := by
      rw [Ptr.add, ← Nat.add_assoc]
    have hlt : o + (s.mem ⟨c, o⟩).size + preheader ≤ m.size :=
      Option.some_inj.mp (hm'.symm.trans hm) ▸ hle
    cases after with
    | nil =>
      have hlast := htiled.next_nil
      have hcoalesce : coalesceChunk m.size (n + 1) s ⟨c, o⟩ = freeIf s ⟨c, o⟩ := by
        rw [coalesceChunk, hnext]
        exact if_pos ((u32_le_iff (by omega)).mpr hlast.ge)
      refine ⟨[], ?_⟩
      rw [hcoalesce, ← htiles, Function.update_eq_self]
      have hmerged : Merged s tiles (freeIf s ⟨c, o⟩) tiles := freeIf_merged s ⟨c, o⟩
      refine ⟨?_, hmerged, ?_⟩
      · rw [freeIf_mem, hmerged.map, hmerged.pages]
        exact h
      · rw [freeIf_mem]
        refine (hfree.freeIf hPo).iff fun q => or_congr_right ?_
        rw [List.mem_singleton]
        exact ⟨fun ⟨hq, hf⟩ => ⟨congrArg Ptr.chunk hq, congrArg Ptr.off hq, hf⟩,
          fun ⟨hc, ho, hf⟩ => ⟨by rw [← hc, ← ho], hf⟩⟩
    | cons o' after =>
      have ho' := htiled.next_cons
      have hin := htiled.mem_le (List.mem_append_right before
        (List.mem_cons_of_mem o List.mem_cons_self))
      have hnot : ¬ m.size ≤ u32 (o + (s.mem ⟨c, o⟩).size + preheader) := by
        rw [u32_le_iff (by omega), ← ho']
        have hgap : 0 < preheader := by decide
        omega
      by_cases hboth : (s.mem ⟨c, o⟩).isfree = true ∧ (s.mem ⟨c, o'⟩).isfree = true
      · -- the next block goes, and the loop stays at this one
        obtain ⟨hok, hmerged⟩ := h.merge hm htiles hboth.1 hboth.2
        set s₁ := s.set ⟨c, o⟩ fun b =>
          { b with size := u32 (b.size + (s.mem ⟨c, o'⟩).size + preheader) } with hs₁
        have hcoalesce : coalesceChunk m.size (n + 1) s ⟨c, o⟩
            = coalesceChunk m.size n (writeHeader s₁ ⟨c, o⟩) ⟨c, o⟩ := by
          rw [coalesceChunk, hnext]
          refine (if_neg hnot).trans ?_
          rw [← ho']
          exact if_pos (by rw [hboth.1, hboth.2]; rfl)
        set tiles₁ := Function.update tiles c (before ++ o :: after) with htiles₁
        have hwrite : Merged s₁ tiles₁ (writeHeader s₁ ⟨c, o⟩) tiles₁ :=
          writeHeader_merged s₁ ⟨c, o⟩
        have hmem₁ : (writeHeader s₁ ⟨c, o⟩).mem = s₁.mem := write_mem _ _
        obtain ⟨after', hok', hmerged', hfree'⟩ := ih (s := writeHeader s₁ ⟨c, o⟩)
          (o := o) before (P := P) (by rw [hwrite.map, hwrite.pages, hmem₁]; exact hok)
          (by rw [hwrite.map]; exact hm) (Function.update_self ..)
          (Nat.lt_of_succ_lt_succ hn)
          (by
            rw [hmem₁, show (writeHeader s₁ ⟨c, o⟩).freelist = s.freelist from write_freelist _ _]
            refine hfree.congr fun p hp => ?_
            rw [hs₁, set_mem, if_neg]
            rintro rfl
            exact hPo hp) hP
        refine ⟨after', ?_⟩
        rw [hcoalesce]
        rw [Function.update_idem] at hok' hmerged'
        exact ⟨hok', (hmerged.trans hwrite).trans hmerged', hfree'⟩
      · -- the loop goes on to the next block
        have hcoalesce : coalesceChunk m.size (n + 1) s ⟨c, o⟩
            = coalesceChunk m.size n (freeIf s ⟨c, o⟩) ⟨c, o'⟩ := by
          rw [coalesceChunk, hnext]
          refine (if_neg hnot).trans ?_
          rw [← ho']
          refine if_neg ?_
          rw [Bool.and_eq_true]
          exact hboth
        have hstep : Merged s tiles (freeIf s ⟨c, o⟩) tiles := freeIf_merged s ⟨c, o⟩
        obtain ⟨after', hok', hmerged', hfree'⟩ := ih (s := freeIf s ⟨c, o⟩) (o := o')
          (before ++ [o]) (P := fun q => P q ∨ q = ⟨c, o⟩ ∧ (s.mem q).isfree = true)
          (by rw [hstep.map, hstep.pages, freeIf_mem]; exact h) (by rw [hstep.map]; exact hm)
          (by rw [htiles, List.append_assoc]; rfl) (Nat.lt_of_succ_lt_succ hn)
          (by rw [freeIf_mem]; exact hfree.freeIf hPo)
          (by
            rintro p (hp | ⟨rfl, -⟩) hc
            · exact List.mem_append_left _ (hP p hp hc)
            · exact List.mem_append_right _ (List.mem_singleton.mpr rfl))
        rw [List.append_assoc, List.singleton_append] at hok' hmerged'
        refine ⟨o' :: after', ?_⟩
        rw [hcoalesce]
        refine ⟨hok', hstep.trans hmerged', hfree'.iff fun q => ?_⟩
        have hsame := ((hstep.trans hmerged').old ⟨c, o⟩ ⟨hblock.1, by
          rw [Function.update_self]
          simp⟩).2
        constructor
        · rintro ((hp | ⟨rfl, hf⟩) | ⟨hc, ho, hf⟩)
          · exact Or.inl hp
          · exact Or.inr ⟨rfl, List.mem_cons_self, hsame.trans hf⟩
          · exact Or.inr ⟨hc, List.mem_cons_of_mem _ ho, hf⟩
        · rintro (hp | ⟨hc, ho, hf⟩)
          · exact Or.inl (Or.inl hp)
          · rcases List.mem_cons.mp ho with ho | ho
            · have hq : q = ⟨c, o⟩ := by rw [← hc, ← ho]
              subst hq
              exact Or.inl (Or.inr ⟨rfl, hsame.symm.trans hf⟩)
            · exact Or.inr ⟨hc, ho, hf⟩

theorem HeapOk.cons {c : ℕ} {m : FileMap} (h : HeapOk mem map pages tiles)
    (hm : map[c]? = some m) : ∃ after, tiles c = 0 :: after ∧ after.length < m.size := by
  have htiled := h.tiled c m hm
  obtain ⟨-, hpos, -, -⟩ := h.chunk c m hm
  cases htiles : tiles c with
  | nil =>
    rw [htiles] at htiled
    exact absurd htiled hpos.ne
  | cons o after =>
    rw [htiles] at htiled
    obtain rfl : o = 0 := htiled.1
    have hle := htiled.length_le (by decide)
    rw [List.length_cons] at hle
    exact ⟨after, rfl, by omega⟩

/-- The loop over the chunks, with `done` behind it. -/
theorem coalesceMaps_spec (done : List FileMap) {maps : List FileMap} (h : HeapOk s.mem s.map s.pages tiles)
    (hmap : s.map = done ++ maps)
    (hfree : FreeIs s.mem s.freelist fun p =>
      IsBlock s.map tiles p ∧ p.chunk < done.length ∧ (s.mem p).isfree = true) :
    ∃ tiles', let s' := coalesceMaps done.length maps s
      HeapOk s'.mem s'.map s'.pages tiles' ∧ Merged s tiles s' tiles' ∧
        FreeIs s'.mem s'.freelist fun p => IsBlock s'.map tiles' p ∧ (s'.mem p).isfree = true := by
  induction maps generalizing s tiles done with
  | nil =>
    refine ⟨tiles, h, .of_mem rfl rfl rfl rfl rfl rfl, hfree.iff fun p => ?_⟩
    refine and_congr_right fun hp => and_iff_right ?_
    rw [hmap, List.append_nil] at hp
    exact hp.1
  | cons m maps ih =>
    have hm : s.map[done.length]? = some m := by rw [hmap]; simp
    obtain ⟨after, htiles, hlen⟩ := h.cons hm
    obtain ⟨after', hok, hmerged, hfree'⟩ := coalesceChunk_spec [] h hm htiles hlen hfree
      fun p hp hc => absurd hc hp.2.1.ne
    rw [List.nil_append] at hok hmerged
    have hmap' := hmerged.map
    set s₁ := coalesceChunk m.size m.size s ⟨done.length, 0⟩
    set tiles₁ := Function.update tiles done.length (0 :: after') with htiles₁
    obtain ⟨tiles₂, hok₂, hmerged₂, hfree₂⟩ := ih (done ++ [m]) hok
      (by rw [hmap', hmap, List.append_assoc]; rfl) (by
        refine hfree'.iff fun p => ?_
        have hother (hc : p.chunk ≠ done.length) : tiles₁ p.chunk = tiles p.chunk :=
          Function.update_of_ne hc _ _
        have hself (hc : p.chunk = done.length) : tiles₁ p.chunk = 0 :: after' := by
          rw [hc, htiles₁, Function.update_self]
        rw [List.length_append, List.length_singleton, hmap']
        constructor
        · rintro (⟨⟨hlt, hoff⟩, hc, hf⟩ | ⟨hc, hoff, hf⟩)
          · have hp : IsBlock s.map tiles₁ p := ⟨hlt, by rw [hother hc.ne]; exact hoff⟩
            exact ⟨hp, by omega, by rw [(hmerged.old p hp).2]; exact hf⟩
          · exact ⟨⟨by rw [hc, hmap]; simp, by rw [hself hc]; exact hoff⟩, by omega, hf⟩
        · rintro ⟨hp, hc, hf⟩
          by_cases heq : p.chunk = done.length
          · exact Or.inr ⟨heq, hself heq ▸ hp.2, hf⟩
          · have hold := hmerged.old p hp
            exact Or.inl ⟨hold.1, by omega, hold.2 ▸ hf⟩)
    rw [List.length_append, List.length_singleton] at hok₂ hmerged₂ hfree₂
    exact ⟨tiles₂, hok₂, hmerged.trans hmerged₂, hfree₂⟩

/-- With no block pending all free blocks are put on the list, joined where they are
neighbours. -/
theorem coalesce_spec (h : HeapOk s.mem s.map s.pages tiles) (hpending : s.pending = 0) :
    ∃ tiles', HeapOk (coalesce s).mem (coalesce s).map (coalesce s).pages tiles' ∧
      Merged s tiles (coalesce s) tiles' ∧
      FreeIs (coalesce s).mem (coalesce s).freelist fun p =>
        IsBlock (coalesce s).map tiles' p ∧ ((coalesce s).mem p).isfree = true := by
  have hcoalesce : coalesce s = coalesceMaps 0 s.map { s with freelist := [] } := by
    rw [coalesce, if_neg (by omega)]
  have hempty : FreeIs s.mem [] fun p =>
      IsBlock s.map tiles p ∧ p.chunk < ([] : List FileMap).length ∧ (s.mem p).isfree = true :=
    ⟨List.Pairwise.nil, List.nodup_nil, fun p =>
      ⟨fun hp => absurd hp List.not_mem_nil, fun hp => absurd hp.2.1 (Nat.not_lt_zero _)⟩⟩
  rw [hcoalesce]
  have hmerged : Merged s tiles { s with freelist := [] } tiles := .of_mem rfl rfl rfl rfl rfl rfl
  obtain ⟨tiles', hok, hmerged', hfree⟩ := coalesceMaps_spec (s := { s with freelist := [] })
    [] h rfl hempty
  exact ⟨tiles', hok, hmerged.trans hmerged', hfree⟩

/-! ### Growth -/

theorem growBytes_eq {n : ℕ} (hn : n < 2 ^ 31 + 8) : growBytes n = pagesFor n * pageSize := by
  refine u32_of_lt ?_
  rw [pagesFor, roundUp_page hn, pageSize, growPages]
  omega

/-- A new chunk is one free block, which is on no list. -/
theorem growFile_spec {n : ℕ} (h : HeapOk s.mem s.map s.pages tiles) (hn : n < 2 ^ 31 + 8)
    (hfit : n + preheader ≤ growBytes n) (hroom : (s.pages + 1) * pageSize + growBytes n < 2 ^ 31) :
    let s' := (growFile s n).1
    let p := (growFile s n).2
    HeapOk s'.mem s'.map s'.pages (Function.update tiles s.map.length [0]) ∧
      p = ⟨s.map.length, 0⟩ ∧ s'.map.length = s.map.length + 1 ∧ s'.fd = s.fd ∧
      s'.pending = s.pending ∧ s'.freelist = s.freelist ∧
      (s'.mem p).isfree = true ∧ n ≤ (s'.mem p).size ∧
      ∀ q : Ptr, q.chunk ≠ s.map.length → s'.mem q = s.mem q := by
  have hbytes := growBytes_eq hn
  have hsub : sub32 (growBytes n) preheader = growBytes n - preheader :=
    sub32_of_le (by omega) (by omega)
  have hpre : preheader = 24 := rfl
  have hpage : pageSize = 1024 := rfl
  intro s' p
  have hmem : s'.mem = fun q => if q.chunk = s.map.length then if q.off = 0 then
      { size := growBytes n - preheader, loc := (s.pages + 1) * pageSize, isfree := true } else {}
      else s.mem q := by
    simp only [s', growFile, updateFileHeader, write_mem, hsub]
  have hmap : s'.map = s.map ++ [⟨(s.pages + 1) * pageSize, growBytes n⟩] := by
    simp only [s', growFile, updateFileHeader, write_map]
  have hpages : s'.pages = s.pages + pagesFor n := by
    simp only [s', growFile, updateFileHeader, write_pages]
  have hnew : s'.mem ⟨s.map.length, 0⟩ =
      { size := growBytes n - preheader, loc := (s.pages + 1) * pageSize, isfree := true } := by
    rw [hmem]
    simp
  have hold (q : Ptr) (hq : q.chunk ≠ s.map.length) : s'.mem q = s.mem q := by
    rw [hmem]
    exact if_neg hq
  have hcases : ∀ (c : ℕ) (m : FileMap), s'.map[c]? = some m →
      (c ≠ s.map.length ∧ s.map[c]? = some m) ∨
        (c = s.map.length ∧ m = ⟨(s.pages + 1) * pageSize, growBytes n⟩) := by
    intro c m hm
    rw [hmap] at hm
    rcases Nat.lt_trichotomy c s.map.length with hc | rfl | hc
    · rw [List.getElem?_append_left hc] at hm
      exact Or.inl ⟨hc.ne, hm⟩
    · rw [List.getElem?_concat_length, Option.some_inj] at hm
      exact Or.inr ⟨rfl, hm.symm⟩
    · rw [List.getElem?_eq_none (by rw [List.length_append, List.length_singleton]; omega)] at hm
      cases hm
  have htiles (c : ℕ) (hc : c ≠ s.map.length) :
      Function.update tiles s.map.length [0] c = tiles c := Function.update_of_ne hc _ _
  refine ⟨⟨?_, ?_, ?_, ?_, ?_, ?_⟩, rfl, ?_, ?_, ?_, ?_, ?_, ?_, hold⟩
  · intro c m hm
    rcases hcases c m hm with ⟨hc, hm⟩ | ⟨rfl, rfl⟩
    · rw [htiles c hc]
      exact (h.tiled c m hm).congr fun o _ => by rw [hold ⟨c, o⟩ hc]
    · rw [Function.update_self]
      refine ⟨rfl, ?_⟩
      show 0 + (s'.mem ⟨s.map.length, 0⟩).size + preheader = growBytes n
      rw [hnew]
      show 0 + (growBytes n - preheader) + preheader = growBytes n
      omega
  · intro c m hm o ho
    rcases hcases c m hm with ⟨hc, hm⟩ | ⟨rfl, rfl⟩
    · rw [htiles c hc] at ho
      rw [hold ⟨c, o⟩ hc]
      exact h.loc c m hm o ho
    · rw [Function.update_self, List.mem_singleton] at ho
      subst ho
      exact (congrArg Block.loc hnew).trans (Nat.add_zero _).symm
  · intro c m hm o ho
    rcases hcases c m hm with ⟨hc, hm⟩ | ⟨rfl, rfl⟩
    · rw [htiles c hc] at ho
      rw [hold ⟨c, o⟩ hc]
      exact h.aligned c m hm o ho
    · rw [Function.update_self, List.mem_singleton] at ho
      subst ho
      rw [hnew]
      show 8 ∣ growBytes n - preheader
      rw [hbytes, hpage, hpre]
      omega
  · intro c m hm o ho
    rcases hcases c m hm with ⟨hc, hm⟩ | ⟨rfl, rfl⟩
    · rw [htiles c hc] at ho
      exact h.unit c m hm o ho
    · rw [Function.update_self, List.mem_singleton] at ho
      subst ho
      show ((s.pages + 1) * pageSize + 0) % pageSize + unitSize ≤ pageSize
      rw [Nat.add_zero, Nat.mul_mod_left]
      decide
  · intro c m hm
    rcases hcases c m hm with ⟨hc, hm⟩ | ⟨rfl, rfl⟩
    · obtain ⟨hloc, hpos, hsize, hend⟩ := h.chunk c m hm
      refine ⟨hloc, hpos, hsize, hend.trans ?_⟩
      rw [hpages]
      exact Nat.mul_le_mul_right _ (by omega)
    · have hsize : pageSize ∣ growBytes n := by
        rw [hbytes]
        exact Nat.dvd_mul_left _ _
      refine ⟨Nat.dvd_mul_left _ _, show 0 < growBytes n by omega, hsize, ?_⟩
      rw [hpages]
      show (s.pages + 1) * pageSize + growBytes n ≤ _
      rw [hbytes, ← Nat.add_mul]
      exact Nat.mul_le_mul_right _ (by omega)
  · rw [hpages]
    have hsplit : (s.pages + pagesFor n + 1) * pageSize = (s.pages + 1) * pageSize + growBytes n := by
      rw [hbytes, ← Nat.add_mul, Nat.add_right_comm]
    rw [hsplit]
    exact hroom
  · rw [hmap, List.length_append, List.length_singleton]
  · simp only [s', growFile, updateFileHeader, write_fd]
  · simp only [s', growFile, updateFileHeader, write_pending]
  · simp only [s', growFile, updateFileHeader, write_freelist]
  · exact congrArg Block.isfree hnew
  · refine le_of_le_of_eq (show n ≤ growBytes n - preheader by omega) ?_
    exact (congrArg Block.size hnew).symm

end Dsm
