/-
Allocation from a data store (dsm.c).

`Inv` is the state of the heap with the blocks that the application holds.

* `findBlock_spec` — the block that an allocation starts from;
* `splitBlock_spec` — cutting off what is too much;
* `dsmAllocate_spec` — both.
-/
import FreeDce.Rpcd.DsmHeap

namespace Dsm

open Tiling

/-- The free list has the free blocks that are not held. -/
structure Inv (s : Store) (tiles : ℕ → List ℕ) (held : List Ptr) : Prop where
  heap : HeapOk s.mem s.map s.pages tiles
  free : FreeIs s.mem s.freelist fun p =>
    IsBlock s.map tiles p ∧ (s.mem p).isfree = true ∧ p ∉ held
  blocks : ∀ p ∈ held, IsBlock s.map tiles p
  nodup : held.Nodup

/-- A step that leaves the held blocks alone. -/
structure Leaves (s s' : Store) (held : List Ptr) : Prop where
  fd : s'.fd = s.fd
  pending : s'.pending = s.pending
  mem : ∀ p ∈ held, s'.mem p = s.mem p

/-- `pending` counts the free blocks that are held. -/
def PendingOk (s : Store) (held : List Ptr) : Prop :=
  s.pending = held.countP fun p => (s.mem p).isfree

/-- A chunk for a block of `n` bytes has room for its preheader too, and the store stays
below 2 ^ 31 bytes. -/
def RoomToGrow (s : Store) (n : ℕ) : Prop :=
  n + preheader ≤ growBytes n ∧ (s.pages + 1) * pageSize + growBytes n < 2 ^ 31

/-- There is a block of `n` bytes, at the latest after coalescing, or room to grow. -/
def Fits (s : Store) (n : ℕ) : Prop :=
  (getFreeBlock s n).isSome ∨ (getFreeBlock (coalesce s) n).isSome ∨ RoomToGrow s n

/-- An allocation that finds nothing on the free list joins free blocks, if none is pending. -/
def Coalesces (s : Store) (n : ℕ) : Bool := (getFreeBlock s n).isNone && s.pending == 0

/-- The chunks stay, and there may be a new one at the end of the file. -/
def Grows (s s' : Store) : Prop :=
  s'.map = s.map ∧ s'.pages = s.pages ∨
    ∃ size, s'.map = s.map ++ [⟨(s.pages + 1) * pageSize, size⟩] ∧
      (s'.pages + 1) * pageSize = (s.pages + 1) * pageSize + size

/-- Where blocks begin they still do. -/
def Persist (s s' : Store) (tiles tiles' : ℕ → List ℕ) : Prop :=
  ∀ q, IsBlock s.map tiles q → IsBlock s'.map tiles' q

variable {s s' s₁ s₂ s₃ : Store} {tiles : ℕ → List ℕ} {held : List Ptr} {p q : Ptr} {n : ℕ}

theorem Leaves.refl (s : Store) (held : List Ptr) : Leaves s s held := ⟨rfl, rfl, fun _ _ => rfl⟩

theorem Leaves.trans (h : Leaves s₁ s₂ held) (h' : Leaves s₂ s₃ held) : Leaves s₁ s₃ held :=
  ⟨h'.fd.trans h.fd, h'.pending.trans h.pending, fun p hp => (h'.mem p hp).trans (h.mem p hp)⟩

/-! ### Finding a block -/

theorem coalesce_pages (h : HeapOk s.mem s.map s.pages tiles) : (coalesce s).pages = s.pages := by
  by_cases hpending : s.pending = 0
  · obtain ⟨_, _, hmerged, _⟩ := coalesce_spec h hpending
    exact hmerged.pages
  · rw [coalesce, if_pos (Nat.pos_of_ne_zero hpending)]

/-- Coalescing does nothing while a held block is free. -/
theorem Inv.coalesce (h : Inv s tiles held) (hp : PendingOk s held) :
    ∃ tiles', Inv (coalesce s) tiles' held ∧ Leaves s (coalesce s) held ∧
      (coalesce s).map = s.map ∧ (s.pending ≠ 0 → tiles' = tiles) := by
  by_cases hpending : s.pending = 0
  · obtain ⟨tiles', hok, hmerged, hfree⟩ := coalesce_spec h.heap hpending
    have hused : ∀ p ∈ held, (s.mem p).isfree = false := by
      intro p hmem
      have hnone := List.countP_eq_zero.mp (hp.symm.trans hpending) p hmem
      exact Bool.eq_false_iff.mpr hnone
    have hkeep (p : Ptr) (hmem : p ∈ held) := hmerged.used p (h.blocks p hmem) (hused p hmem)
    refine ⟨tiles', ⟨hok, hfree.iff fun p => and_congr_right fun _ => ?_, ?_, h.nodup⟩,
      ⟨hmerged.fd, hmerged.pending, fun p hmem => (hkeep p hmem).2⟩, hmerged.map,
      fun hne => absurd hpending hne⟩
    · refine ⟨fun hf => ⟨hf, fun hmem => ?_⟩, And.left⟩
      rw [(hkeep p hmem).2, hused p hmem] at hf
      cases hf
    · intro p hmem
      rw [hmerged.map]
      exact (hkeep p hmem).1
  · have hcoalesce : Dsm.coalesce s = s := by
      rw [Dsm.coalesce, if_pos (Nat.pos_of_ne_zero hpending)]
    rw [hcoalesce]
    exact ⟨tiles, h, .refl s held, rfl, fun _ => rfl⟩

/-- A block from the free list. -/
theorem Inv.get (h : Inv s tiles held) (hget : getFreeBlock s n = some (p, s')) :
    Inv s' tiles (p :: held) ∧ Leaves s s' held ∧ (s'.mem p).isfree = true ∧
      n ≤ (s'.mem p).size := by
  obtain ⟨⟨hblock, hf, hnot⟩, hsize, ⟨freelist, rfl⟩, hfree⟩ := h.free.get hget
  refine ⟨⟨h.heap, hfree.iff fun q => ?_, ?_, List.nodup_cons.mpr ⟨hnot, h.nodup⟩⟩,
    ⟨rfl, rfl, fun _ _ => rfl⟩, hf, hsize⟩
  · rw [List.mem_cons, not_or]
    tauto
  · rintro q hq
    rcases List.mem_cons.mp hq with rfl | hq
    · exact hblock
    · exact h.blocks q hq

theorem getFreeBlock_map (hget : getFreeBlock s n = some (p, s')) :
    s'.map = s.map ∧ s'.pages = s.pages := by
  rw [getFreeBlock] at hget
  split at hget
  · cases hget
  · rw [Option.some_inj, Prod.mk.injEq] at hget
    obtain ⟨-, rfl⟩ := hget
    exact ⟨rfl, rfl⟩

/-- The new chunk begins at the end of the file. -/
theorem growFile_grows (hn : n < 2 ^ 31 + 8) : Grows s (growFile s n).1 := by
  refine .inr ⟨growBytes n, ?_, ?_⟩
  · simp only [growFile, updateFileHeader, write_map]
  · simp only [growFile, updateFileHeader, write_pages]
    rw [growBytes_eq hn, ← Nat.add_mul, Nat.add_right_comm]

theorem findBlock_spec (h : Inv s tiles held) (hp : PendingOk s held) (hn : n < 2 ^ 31 + 8)
    (hfits : Fits s n) :
    ∃ tiles', let s' := (findBlock s n).1
      let p := (findBlock s n).2
      Inv s' tiles' (p :: held) ∧ Leaves s s' held ∧ (s'.mem p).isfree = true ∧
        n ≤ (s'.mem p).size ∧ Grows s s' ∧ (Coalesces s n = false → Persist s s' tiles tiles') := by
  cases hget : getFreeBlock s n with
  | some r =>
    obtain ⟨p, s'⟩ := r
    have hfind : findBlock s n = (s', p) := by rw [findBlock, hget]
    obtain ⟨hinv, hleaves, hf, hsize⟩ := h.get hget
    obtain ⟨hmap, hpages⟩ := getFreeBlock_map hget
    rw [hfind]
    exact ⟨tiles, hinv, hleaves, hf, hsize, .inl ⟨hmap, hpages⟩, fun _ q hq => hmap ▸ hq⟩
  | none =>
    obtain ⟨tiles', h', hleaves, hmap, hkeep⟩ := h.coalesce hp
    have hpages := coalesce_pages h.heap
    have hpending (hno : Coalesces s n = false) : s.pending ≠ 0 := by
      rw [Coalesces, hget] at hno
      simpa using hno
    cases hget' : getFreeBlock (coalesce s) n with
    | some r =>
      obtain ⟨p, s'⟩ := r
      have hfind : findBlock s n = (s', p) := by rw [findBlock, hget]; simp only [hget']
      obtain ⟨hinv, hleaves', hf, hsize⟩ := h'.get hget'
      obtain ⟨hmap', hpages'⟩ := getFreeBlock_map hget'
      rw [hfind]
      refine ⟨tiles', hinv, hleaves.trans hleaves', hf, hsize,
        .inl ⟨hmap'.trans hmap, hpages'.trans hpages⟩, fun hno q hq => ?_⟩
      rw [hkeep (hpending hno)]
      show IsBlock s'.map tiles q
      rw [hmap', hmap]
      exact hq
    | none =>
      have hfind : findBlock s n = growFile (coalesce s) n := by
        rw [findBlock, hget]
        simp only [hget']
      have hroom : RoomToGrow s n := by
        rcases hfits with hsome | hsome | hroom
        · rw [hget] at hsome
          cases hsome
        · rw [hget'] at hsome
          cases hsome
        · exact hroom
      obtain ⟨hok, hptr, hlen, hfd, hpending', hlist, hf, hsize, hold⟩ :=
        growFile_spec h'.heap hn hroom.1 (by rw [coalesce_pages h.heap]; exact hroom.2)
      rw [hfind]
      set t := coalesce s
      set t' := (growFile t n).1
      have hnew (q : Ptr) (hq : q.chunk < t.map.length) : t'.mem q = t.mem q := hold q hq.ne
      have hblock (q : Ptr) :
          IsBlock t'.map (Function.update tiles' t.map.length [0]) q ↔
            IsBlock t.map tiles' q ∨ q = (growFile t n).2 := by
        rw [IsBlock, IsBlock, hlen, hptr]
        by_cases hc : q.chunk = t.map.length
        · rw [hc, Function.update_self, List.mem_singleton]
          constructor
          · rintro ⟨-, ho⟩
            exact Or.inr (by rw [← hc, ← ho])
          · rintro (⟨hlt, -⟩ | heq)
            · exact absurd hlt (lt_irrefl _)
            · exact ⟨Nat.lt_succ_self _, congrArg Ptr.off heq⟩
        · rw [Function.update_of_ne hc]
          constructor
          · rintro ⟨hlt, ho⟩
            exact Or.inl ⟨by omega, ho⟩
          · rintro (⟨hlt, ho⟩ | heq)
            · exact ⟨by omega, ho⟩
            · exact absurd (congrArg Ptr.chunk heq) hc
      have hnot : ¬ IsBlock t.map tiles' (growFile t n).2 := by
        rw [hptr]
        exact fun hb => absurd hb.1 (lt_irrefl _)
      have hgrows : Grows t t' := growFile_grows hn
      refine ⟨_, ⟨hok, ?_, ?_, ?_⟩, hleaves.trans ⟨hfd, hpending', fun q hq => ?_⟩, hf, hsize,
        ?_, fun hno q hq => (hblock q).mpr (.inl ?_)⟩
      · rw [hlist]
        refine (h'.free.congr fun q hq => by rw [hnew q hq.1.1]).iff fun q => ?_
        rw [hblock, List.mem_cons, not_or]
        constructor
        · rintro ⟨hb, hqf, hq⟩
          refine ⟨Or.inl hb, by rw [hnew q hb.1]; exact hqf, ?_, hq⟩
          rintro rfl
          exact hnot hb
        · rintro ⟨hb, hqf, hne, hq⟩
          have hb := hb.resolve_right hne
          exact ⟨hb, by rw [← hnew q hb.1]; exact hqf, hq⟩
      · intro q hq
        rw [hblock]
        rcases List.mem_cons.mp hq with rfl | hq
        · exact Or.inr rfl
        · exact Or.inl (h'.blocks q hq)
      · exact List.nodup_cons.mpr ⟨fun hmem => hnot (h'.blocks _ hmem), h'.nodup⟩
      · exact hnew q (h'.blocks q hq).1
      · rw [Grows, ← hmap, ← hpages]
        exact hgrows
      · rw [hkeep (hpending hno), hmap]
        exact hq

/-! ### Splitting a block -/

/-- The block behind the first `n` bytes of another. -/
def behind (p : Ptr) (n : ℕ) : Ptr := p.add (preheader + n)

theorem behind_ne (p : Ptr) (n : ℕ) : behind p n ≠ p := by
  intro heq
  have hoff : p.off + (preheader + n) = p.off := congrArg Ptr.off heq
  have hpre : preheader = 24 := rfl
  omega

/-- Before the split no block begins there. -/
theorem HeapOk.behind {mem : Ptr → Block} {map : List FileMap} {pages : ℕ}
    (h : HeapOk mem map pages tiles) (hp : IsBlock map tiles p) (hn : n < (mem p).size) :
    ¬ IsBlock map tiles (behind p n) := by
  have hlt := hp.1
  have hm : map[p.chunk]? = some map[p.chunk] := List.getElem?_eq_getElem hp.1
  rintro ⟨-, hoff⟩
  have hpre : preheader = 24 := rfl
  refine (h.tiled _ _ hm).not_mem hp.2 (x := p.off + (preheader + n)) (by omega) ?_ hoff
  show _ < p.off + (mem p).size + preheader
  omega

/-- A block is cut after `n` bytes. -/
theorem HeapOk.split {mem : Ptr → Block} (mem' : Ptr → Block) {map : List FileMap} {pages : ℕ}
    (h : HeapOk mem map pages tiles) (hp : IsBlock map tiles p) (h8 : 8 ∣ n)
    (hunit : ((mem p).loc + preheader + n) % pageSize + unitSize ≤ pageSize)
    (hsize : (mem' p).size = n) (hloc : (mem' p).loc = (mem p).loc)
    (hsize' : n + preheader + (mem' (Dsm.behind p n)).size = (mem p).size)
    (hloc' : (mem' (Dsm.behind p n)).loc = (mem p).loc + preheader + n)
    (hother : ∀ q, q ≠ p → q ≠ Dsm.behind p n → mem' q = mem q) :
    ∃ tiles', HeapOk mem' map pages tiles' ∧
      ∀ q, IsBlock map tiles' q ↔ IsBlock map tiles q ∨ q = Dsm.behind p n := by
  obtain ⟨m, hm, hploc, hpalign, -, -, -⟩ := h.isBlock hp
  obtain ⟨before, after, htiles⟩ := List.append_of_mem hp.2
  have htiled := h.tiled _ m hm
  rw [htiles] at htiled
  set o' := p.off + (preheader + n)
  have hbehind : Dsm.behind p n = ⟨p.chunk, o'⟩ := rfl
  rw [hbehind] at hsize' hloc' hother ⊢
  have htiles' (c : ℕ) : Function.update tiles p.chunk (before ++ p.off :: o' :: after) c
      = if c = p.chunk then before ++ p.off :: o' :: after else tiles c := Function.update_apply ..
  have hblock : ∀ q, IsBlock map (Function.update tiles p.chunk (before ++ p.off :: o' :: after)) q
      ↔ IsBlock map tiles q ∨ q = ⟨p.chunk, o'⟩ := by
    intro q
    rw [IsBlock, IsBlock, htiles']
    by_cases hc : q.chunk = p.chunk
    · rw [if_pos hc, hc, htiles]
      have hlt := hp.1
      simp only [List.mem_append, List.mem_cons]
      constructor
      · rintro ⟨-, ho | ho | ho | ho⟩
        · exact Or.inl ⟨hlt, Or.inl ho⟩
        · exact Or.inl ⟨hlt, Or.inr (Or.inl ho)⟩
        · exact Or.inr (by rw [← hc, ← ho])
        · exact Or.inl ⟨hlt, Or.inr (Or.inr ho)⟩
      · rintro (⟨-, ho | ho | ho⟩ | heq)
        · exact ⟨hlt, Or.inl ho⟩
        · exact ⟨hlt, Or.inr (Or.inl ho)⟩
        · exact ⟨hlt, Or.inr (Or.inr (Or.inr ho))⟩
        · exact ⟨hlt, Or.inr (Or.inr (Or.inl (congrArg Ptr.off heq)))⟩
    · rw [if_neg hc]
      exact ⟨Or.inl, fun hq => hq.resolve_right fun heq => hc (by rw [heq])⟩
  -- what is to be shown of each block of the new tiling
  have hcases : ∀ (c : ℕ) (m' : FileMap), map[c]? = some m' → ∀ o ∈
      Function.update tiles p.chunk (before ++ p.off :: o' :: after) c,
      ((c, o) = (p.chunk, p.off) ∧ m' = m) ∨ ((c, o) = (p.chunk, o') ∧ m' = m) ∨
        (o ∈ tiles c ∧ mem' ⟨c, o⟩ = mem ⟨c, o⟩) := by
    intro c m' hm' o ho
    have hq := (hblock ⟨c, o⟩).mp ⟨(List.getElem?_eq_some_iff.mp hm').1, ho⟩
    by_cases hqp : (⟨c, o⟩ : Ptr) = p
    · subst hqp
      exact Or.inl ⟨rfl, Option.some_inj.mp (hm'.symm.trans hm)⟩
    · by_cases hqo : (⟨c, o⟩ : Ptr) = ⟨p.chunk, o'⟩
      · obtain ⟨rfl, rfl⟩ := Ptr.mk.inj hqo
        exact Or.inr (Or.inl ⟨rfl, Option.some_inj.mp (hm'.symm.trans hm)⟩)
      · exact Or.inr (Or.inr ⟨(hq.resolve_right hqo).2, hother _ hqp hqo⟩)
  refine ⟨_, ⟨?_, ?_, ?_, ?_, h.chunk, h.bound⟩, hblock⟩
  · intro c m' hm'
    rw [htiles']
    by_cases hc : c = p.chunk
    · subst hc
      have hmm : m' = m := Option.some_inj.mp (hm'.symm.trans hm)
      subst hmm
      rw [if_pos rfl]
      refine htiled.split (by decide) ?_ ?_ fun x hx hx' => ?_
      · show o' = p.off + (mem' p).size + preheader
        rw [hsize]
        omega
      · show (mem' p).size + preheader + (mem' ⟨p.chunk, o'⟩).size = (mem p).size
        rw [hsize]
        exact hsize'
      · rw [hother ⟨p.chunk, x⟩ (fun heq => hx (congrArg Ptr.off heq))
          fun heq => hx' (congrArg Ptr.off heq)]
    · rw [if_neg hc]
      exact (h.tiled c m' hm').congr fun x _ => by
        rw [hother ⟨c, x⟩ (fun heq => hc (congrArg Ptr.chunk heq))
          fun heq => hc (congrArg Ptr.chunk heq)]
  · intro c m' hm' o ho
    rcases hcases c m' hm' o ho with ⟨heq, rfl⟩ | ⟨heq, rfl⟩ | ⟨ho, hmem⟩
    · obtain ⟨rfl, rfl⟩ := Prod.mk.inj heq
      exact hloc.trans hploc
    · obtain ⟨rfl, rfl⟩ := Prod.mk.inj heq
      rw [hloc', hploc]
      omega
    · rw [hmem]
      exact h.loc c m' hm' o ho
  · intro c m' hm' o ho
    rcases hcases c m' hm' o ho with ⟨heq, -⟩ | ⟨heq, -⟩ | ⟨ho, hmem⟩
    · obtain ⟨rfl, rfl⟩ := Prod.mk.inj heq
      exact hsize ▸ h8
    · obtain ⟨rfl, rfl⟩ := Prod.mk.inj heq
      have hpre : preheader = 24 := rfl
      omega
    · rw [hmem]
      exact h.aligned c m' hm' o ho
  · intro c m' hm' o ho
    rcases hcases c m' hm' o ho with ⟨heq, rfl⟩ | ⟨heq, rfl⟩ | ⟨ho, -⟩
    · obtain ⟨rfl, rfl⟩ := Prod.mk.inj heq
      exact h.unit _ m' hm _ hp.2
    · obtain ⟨rfl, rfl⟩ := Prod.mk.inj heq
      have hsum : m'.loc + o' = (mem p).loc + preheader + n := by
        rw [hploc]
        omega
      rw [hsum]
      exact hunit
    · exact h.unit c m' hm' o ho

/-- The block keeps its first `n` bytes; what is cut off is free and on the list. -/
theorem splitBlock_spec (h : Inv s tiles (p :: held)) (hf : (s.mem p).isfree = true) (h8 : 8 ∣ n)
    (hn : n ≤ (s.mem p).size) :
    ∃ tiles', let s' := splitBlock s p n
      Inv s' tiles' (p :: held) ∧ Leaves s s' held ∧ (s'.mem p).isfree = true ∧
        n ≤ (s'.mem p).size ∧ s'.map = s.map ∧ s'.pages = s.pages ∧ Persist s s' tiles tiles' := by
  have hp := h.blocks p List.mem_cons_self
  have hnot : p ∉ held := (List.nodup_cons.mp h.nodup).1
  obtain ⟨m, -, -, hpalign, -, hpsize, hpend⟩ := h.heap.isBlock hp
  have hpre : preheader = 24 := rfl
  have hsub : sub32 (s.mem p).size n = (s.mem p).size - n := sub32_of_le hn (by omega)
  by_cases hmin : minblock ≤ (s.mem p).size - n
  · have hlarge : preheader + n + 8 ≤ (s.mem p).size := by
      change preheader + 8 ≤ _ at hmin
      omega
    have hloc : u32 ((s.mem p).loc + preheader + n) = (s.mem p).loc + preheader + n :=
      u32_of_lt (by omega)
    have hsub' : sub32 (s.mem p).size (preheader + n) = (s.mem p).size - (preheader + n) :=
      sub32_of_le (by omega) (by omega)
    set loc := (s.mem p).loc + preheader + n with hlocdef
    have hnew : ¬ IsBlock s.map tiles (behind p n) := h.heap.behind hp (by omega)
    have hheld : ∀ q ∈ p :: held, q ≠ behind p n := by
      rintro q hq rfl
      exact hnew (h.blocks _ hq)
    by_cases hunit : unitSize ≤ sub32 (roundUp loc pageSize) loc
    · -- what is behind the first bytes becomes a block
      let tail : Block :=
        { size := (s.mem p).size - (preheader + n), loc := loc, isfree := true, cookie := 0 }
      have hsplit : splitBlock s p n = writeHeader ((makeFree ((s.set (behind p n) fun b =>
          { b with loc := loc }).set (behind p n) fun b =>
          { b with size := (s.mem p).size - (preheader + n) }) (behind p n)).set p fun b =>
          { b with size := n }) p := by
        rw [splitBlock, hsub, if_pos hmin, hloc, hsub']
        exact if_pos hunit
      rw [hsplit]
      set s₁ := (s.set (behind p n) fun b => { b with loc := loc }).set (behind p n) fun b =>
        { b with size := (s.mem p).size - (preheader + n) } with hs₁
      set s₂ := s₁.set (behind p n) fun b => { b with isfree := true, cookie := 0 } with hs₂
      have hmem₂ (q : Ptr) : s₂.mem q = if q = behind p n then tail else s.mem q := by
        rw [hs₂, hs₁]
        simp only [set_mem]
        by_cases hq : q = behind p n
        · simp only [hq, if_true, tail]
        · simp only [if_neg hq]
      have hmake : (makeFree s₁ (behind p n)).mem = s₂.mem := write_mem _ _
      set s' := writeHeader ((makeFree s₁ (behind p n)).set p fun b => { b with size := n }) p
      have hmem (q : Ptr) : s'.mem q = if q = p then { s.mem p with size := n }
          else if q = behind p n then tail else s.mem q := by
        rw [show s'.mem = _ from write_mem _ _, set_mem, hmake, hmem₂, hmem₂,
          if_neg (behind_ne p n).symm]
      have hmap : s'.map = s.map := (write_map _ _).trans (write_map _ _)
      have hpages : s'.pages = s.pages := (write_pages _ _).trans (write_pages _ _)
      have hself : s'.mem p = { s.mem p with size := n } := by rw [hmem, if_pos rfl]
      have htail : s'.mem (behind p n) = tail := by rw [hmem, if_neg (behind_ne p n), if_pos rfl]
      have hother (q : Ptr) (hq : q ≠ p) (hq' : q ≠ behind p n) : s'.mem q = s.mem q := by
        rw [hmem, if_neg hq, if_neg hq']
      have hlist : s'.freelist = (freeBlock { s with mem := s₂.mem } (behind p n)).freelist := by
        refine (write_freelist _ _).trans ?_
        show (freeBlock (writeHeader s₂ (behind p n)) (behind p n)).freelist = _
        rw [freeBlock, freeBlock, writeHeader, write_mem, write_freelist]
        rfl
      have hfree : FreeIs s₂.mem s'.freelist fun q =>
          (IsBlock s.map tiles q ∧ (s.mem q).isfree = true ∧ q ∉ p :: held) ∨
            q = behind p n := by
        rw [hlist]
        refine FreeIs.insert (s := { s with mem := s₂.mem }) (h.free.congr fun q hq => ?_) fun hq =>
          hnew hq.1
        rw [hmem₂, if_neg]
        rintro rfl
        exact hnew hq.1
      obtain ⟨tiles', hok, hblock⟩ := h.heap.split s'.mem hp h8 (by
          rw [roundUp_page (by omega)] at hunit
          rw [sub32_of_le (by omega) (by omega)] at hunit
          rw [← hlocdef]
          change 64 ≤ _ at hunit
          show loc % 1024 + 64 ≤ 1024
          omega) (by rw [hself]) (by rw [hself]) (by
          rw [htail]
          show n + preheader + ((s.mem p).size - (preheader + n)) = _
          omega) (by rw [htail]) hother
      refine ⟨tiles', ⟨?_, ?_, ?_, h.nodup⟩, ⟨?_, ?_, ?_⟩, ?_, ?_, hmap, hpages, fun q hq => ?_⟩
      · rw [hmap, hpages]
        exact hok
      · refine (hfree.congr fun q hq => ?_).iff fun q => ?_
        · have hqp : q ≠ p := by
            rintro rfl
            rcases hq with hq | hq
            · exact hq.2.2 List.mem_cons_self
            · exact behind_ne q n hq.symm
          rw [hmem, if_neg hqp, hmem₂]
        · rw [hmap, hblock]
          constructor
          · rintro (⟨hb, hqf, hq⟩ | rfl)
            · have hne : q ≠ behind p n := fun heq => hnew (heq ▸ hb)
              refine ⟨Or.inl hb, ?_, hq⟩
              rw [hother q (fun heq => hq (heq ▸ List.mem_cons_self)) hne]
              exact hqf
            · exact ⟨Or.inr rfl, by rw [htail], fun hq => hheld _ hq rfl⟩
          · rintro ⟨hb, hqf, hq⟩
            by_cases hne : q = behind p n
            · exact Or.inr hne
            · rw [hother q (fun heq => hq (heq ▸ List.mem_cons_self)) hne] at hqf
              exact Or.inl ⟨hb.resolve_right hne, hqf, hq⟩
      · intro q hq
        rw [hmap, hblock]
        exact Or.inl (h.blocks q hq)
      · exact (write_fd _ _).trans (write_fd _ _)
      · exact (write_pending _ _).trans (write_pending _ _)
      · exact fun q hq => hother q (fun heq => hnot (heq ▸ hq)) (hheld q (List.mem_cons_of_mem _ hq))
      · rw [hself]
        exact hf
      · rw [hself]
      · rw [hmap, hblock]
        exact Or.inl hq
    · -- too near to the end of the page: only a location is written behind the first bytes
      have hsplit : splitBlock s p n = s.set (behind p n) fun b => { b with loc := loc } := by
        rw [splitBlock, hsub, if_pos hmin, hloc, hsub']
        exact if_neg hunit
      rw [hsplit]
      have hmem (q : Ptr) (hq : q ≠ behind p n) :
          (s.set (behind p n) fun b => { b with loc := loc }).mem q = s.mem q := by
        rw [set_mem, if_neg hq]
      have hblock : ∀ q, IsBlock s.map tiles q → q ≠ behind p n := by
        rintro q hq rfl
        exact hnew hq
      refine ⟨tiles, ⟨h.heap.congr fun q hq => ?_, ?_, h.blocks, h.nodup⟩, ⟨rfl, rfl, ?_⟩, ?_, ?_,
        rfl, rfl, fun q hq => hq⟩
      · rw [hmem q (hblock q hq)]
        exact ⟨rfl, rfl⟩
      · refine (h.free.congr fun q hq => by rw [hmem q (hblock q hq.1)]).iff fun q => ?_
        refine and_congr_right fun hq => ?_
        rw [hmem q (hblock q hq)]
      · exact fun q hq => hmem q (hheld q (List.mem_cons_of_mem _ hq))
      · rw [hmem p (hheld p List.mem_cons_self)]
        exact hf
      · rw [hmem p (hheld p List.mem_cons_self)]
        exact hn
  · have hsplit : splitBlock s p n = s := by
      rw [splitBlock, hsub]
      exact if_neg hmin
    rw [hsplit]
    exact ⟨tiles, h, .refl s held, hf, hn, rfl, rfl, fun q hq => hq⟩

/-! ### Allocation -/

/-- Preheaders change, those of held blocks only in the cookie and in whether they are free. -/
theorem Inv.of_mem (h : Inv s tiles held) (hmap : s'.map = s.map) (hpages : s'.pages = s.pages)
    (hlist : s'.freelist = s.freelist) (hother : ∀ q, q ∉ held → s'.mem q = s.mem q)
    (hheld : ∀ q ∈ held, (s'.mem q).size = (s.mem q).size ∧ (s'.mem q).loc = (s.mem q).loc) :
    Inv s' tiles held := by
  have hsame (q : Ptr) : (s'.mem q).size = (s.mem q).size ∧ (s'.mem q).loc = (s.mem q).loc := by
    by_cases hq : q ∈ held
    · exact hheld q hq
    · rw [hother q hq]
      exact ⟨rfl, rfl⟩
  refine ⟨?_, ?_, ?_, h.nodup⟩
  · rw [hmap, hpages]
    exact h.heap.congr fun q _ => hsame q
  · rw [hlist, hmap]
    refine (h.free.congr fun q _ => (hsame q).1).iff fun q => and_congr_right fun _ => ?_
    by_cases hq : q ∈ held
    · exact ⟨fun hf => absurd hq hf.2, fun hf => absurd hq hf.2⟩
    · rw [hother q hq]
  · rw [hmap]
    exact h.blocks

theorem PendingOk.congr (h : PendingOk s held) (hpending : s'.pending = s.pending)
    (hmem : ∀ q ∈ held, s'.mem q = s.mem q) : PendingOk s' held := by
  rw [PendingOk, hpending, h]
  exact List.countP_congr fun q hq => by rw [hmem q hq]

/-- The end of `dsm_allocate`: the block is the application's. -/
def allocated (s : Store) (p : Ptr) : Store :=
  let s := s.set p fun b => { b with cookie := hdrCookie }
  if s.fd then { s with pending := s.pending + 1 } else s.set p fun b => { b with isfree := false }

theorem dsmAllocate_eq (s : Store) (n : ℕ) : dsmAllocate s n =
    (allocated (splitBlock (findBlock s (roundUp n 8)).1 (findBlock s (roundUp n 8)).2 (roundUp n 8))
      (findBlock s (roundUp n 8)).2, (findBlock s (roundUp n 8)).2) := by
  delta dsmAllocate
  generalize roundUp n 8 = usrSize
  rfl

theorem allocated_mem (s : Store) (p q : Ptr) : (allocated s p).mem q =
    if q = p then { s.mem p with cookie := hdrCookie, isfree := s.fd && (s.mem p).isfree }
    else s.mem q := by
  rw [allocated]
  by_cases hfd : s.fd = true
  · simp only [Store.set, hfd, if_true, Bool.true_and, Function.update_apply]
  · simp only [Store.set, hfd, Bool.false_and, Function.update_apply]
    by_cases hq : q = p
    · simp [hq]
    · simp [hq]

theorem allocated_fields (s : Store) (p : Ptr) : (allocated s p).fd = s.fd ∧
    (allocated s p).map = s.map ∧ (allocated s p).pages = s.pages ∧
    (allocated s p).freelist = s.freelist ∧
    (allocated s p).pending = s.pending + if s.fd then 1 else 0 := by
  rw [allocated]
  by_cases hfd : s.fd = true
  · simp [Store.set, hfd]
  · simp [Store.set, hfd]

/-- In a file the block counts as pending, without a file it is in use at once. -/
theorem allocated_spec (h : Inv s tiles (p :: held)) (hf : (s.mem p).isfree = true)
    (hp : PendingOk s held) :
    Inv (allocated s p) tiles (p :: held) ∧ PendingOk (allocated s p) (p :: held) ∧
      (allocated s p).fd = s.fd ∧ (∀ q ∈ held, (allocated s p).mem q = s.mem q) ∧
      ((allocated s p).mem p).cookie = hdrCookie ∧
      ((allocated s p).mem p).size = (s.mem p).size := by
  obtain ⟨hfd, hmap, hpages, hlist, hpending⟩ := allocated_fields s p
  have hnot : p ∉ held := (List.nodup_cons.mp h.nodup).1
  have hother (q : Ptr) (hq : q ≠ p) : (allocated s p).mem q = s.mem q := by
    rw [allocated_mem, if_neg hq]
  have hheld : ∀ q ∈ held, (allocated s p).mem q = s.mem q :=
    fun q hq => hother q fun heq => hnot (heq ▸ hq)
  refine ⟨h.of_mem hmap hpages hlist (fun q hq => ?_) (fun q _ => ?_), ?_, hfd, hheld, ?_, ?_⟩
  · exact hother q fun heq => hq (heq ▸ List.mem_cons_self)
  · rw [allocated_mem]
    by_cases hq : q = p
    · rw [if_pos hq, hq]
      exact ⟨rfl, rfl⟩
    · rw [if_neg hq]
      exact ⟨rfl, rfl⟩
  · rw [PendingOk, hpending, hp, List.countP_cons, allocated_mem, if_pos rfl, hf, Bool.and_true]
    congr 1
    exact List.countP_congr fun q hq => by rw [hheld q hq]
  · rw [allocated_mem, if_pos rfl]
  · rw [allocated_mem, if_pos rfl]

/-- The block that is handed out is new to the application and as large as it asked for. -/
theorem dsmAllocate_spec (h : Inv s tiles held) (hp : PendingOk s held) (hn : n < 2 ^ 31)
    (hfits : Fits s (roundUp n 8)) :
    ∃ tiles', let s' := (dsmAllocate s n).1
      let p := (dsmAllocate s n).2
      Inv s' tiles' (p :: held) ∧ PendingOk s' (p :: held) ∧ s'.fd = s.fd ∧
        (∀ q ∈ held, s'.mem q = s.mem q) ∧ (s'.mem p).cookie = hdrCookie ∧
        n ≤ (s'.mem p).size ∧ Grows s s' ∧
        (Coalesces s (roundUp n 8) = false → Persist s s' tiles tiles') := by
  obtain ⟨h8, hle, hround⟩ := roundUp_eight hn
  rw [dsmAllocate_eq]
  generalize roundUp n 8 = usrSize at *
  obtain ⟨tiles₁, h₁, hleaves₁, hf₁, hsize₁, hgrows, hpersist₁⟩ := findBlock_spec h hp (by omega) hfits
  obtain ⟨tiles₂, h₂, hleaves₂, hf₂, hsize₂, hmap₂, hpages₂, hpersist₂⟩ :=
    splitBlock_spec h₁ hf₁ h8 hsize₁
  have hleaves := hleaves₁.trans hleaves₂
  obtain ⟨h₃, hp₃, hfd₃, hheld₃, hcookie₃, hsize₃⟩ :=
    allocated_spec h₂ hf₂ (hp.congr hleaves.pending hleaves.mem)
  have hsize := hle.trans hsize₂
  rw [← hsize₃] at hsize
  obtain ⟨-, hmap₃, hpages₃, -, -⟩ := allocated_fields
    (splitBlock (findBlock s usrSize).1 (findBlock s usrSize).2 usrSize) (findBlock s usrSize).2
  refine ⟨tiles₂, h₃, hp₃, hfd₃.trans hleaves.fd,
    fun q hq => (hheld₃ q hq).trans (hleaves.mem q hq), hcookie₃, hsize, ?_, fun hno q hq => ?_⟩
  · rw [Grows, hmap₃, hpages₃, hmap₂, hpages₂]
    exact hgrows
  · rw [hmap₃]
    exact hpersist₂ q (hpersist₁ hno q hq)

end Dsm
