/-
Runs of a data store with the records that an application holds (dsm.c).

* `Sound` — blocks, free list, pending count and held records agree;
* `runStep_spec` — an operation whose condition is met keeps a store sound;
* `sound_of_along` — so does a run.

The conditions: a new chunk has room for the preheader of the block that it is made for, and a
detached record is not written back without a file.
-/
import FreeDce.Lib.Runs
import FreeDce.Rpcd.DsmAllocate

namespace Dsm

open Runs Tiling

/-- A record that the application holds: its pointer, the size asked for, the size of its block,
and whether it was written since it was handed out or detached. -/
structure Record where
  ptr : Ptr
  requested : ℕ
  size : ℕ
  written : Bool

structure Run where
  store : Store
  held : List Record

def Run.ptrs (r : Run) : List Ptr := r.held.map Record.ptr

inductive Op
  | allocate (size : ℕ)
  | write (p : Ptr)
  | writeHdr (p : Ptr) (size : ℕ)
  | detach (p : Ptr)
  | free (p : Ptr)

/-- The block that was allocated for `n` bytes is held. -/
def handOut (r : Run) (n : ℕ) (a : Store × Ptr) : Run :=
  ⟨a.1, ⟨a.2, n, (a.1.mem a.2).size, false⟩ :: r.held⟩

/-- The record at a pointer was written, or detached. -/
def mark (p : Ptr) (written : Bool) (held : List Record) : List Record :=
  held.map fun x => if x.ptr = p then { x with written := written } else x

/-- An operation of the application; `none` if an assertion fails. -/
def runStep (r : Run) : Op → Option Run
  | .allocate n => some (handOut r n (dsmAllocate r.store n))
  | .write p => (dsmWrite r.store p).map fun (s, st) =>
    ⟨s, if st = .ok then mark p true r.held else r.held⟩
  | .writeHdr p size => (dsmWriteHdr r.store p size).map fun (s, st) =>
    ⟨s, if st = .ok then mark p true r.held else r.held⟩
  | .detach p => (dsmDetach r.store p).map fun (s, st) =>
    ⟨s, if st = .ok then mark p false r.held else r.held⟩
  | .free p => (dsmFree r.store p).map fun (s, st) =>
    ⟨s, if st = .ok then r.held.filter fun x => x.ptr ≠ p else r.held⟩

/-- What the application may do: ask for less than 2 ^ 31 bytes, and use pointers it holds. -/
def Allowed (r : Run) : Op → Prop
  | .allocate n => n < 2 ^ 31
  | .write p => p ∈ r.ptrs
  | .writeHdr p _ => p ∈ r.ptrs
  | .detach p => p ∈ r.ptrs
  | .free p => p ∈ r.ptrs

/-- The condition on a step. -/
def OpOk (r : Run) : Op → Prop
  | .allocate n => Fits r.store (roundUp n 8)
  | .write p => r.store.fd = true ∨ (r.store.mem p).isfree = false
  | _ => True

instance (s : Store) (n : ℕ) : Decidable (Fits s n) := by
  unfold Fits RoomToGrow
  infer_instance

instance (r : Run) (op : Op) : Decidable (Allowed r op) := by
  cases op <;> unfold Allowed <;> infer_instance

instance (r : Run) (op : Op) : Decidable (OpOk r op) := by
  cases op <;> unfold OpOk <;> infer_instance

/-- The store with the records held: the free list has the free blocks that are not held,
`pending` counts the free ones that are, and every record has its block for itself, whole and
large enough. -/
structure Sound (r : Run) (tiles : ℕ → List ℕ) : Prop where
  heap : HeapOk r.store.mem r.store.map r.store.pages tiles
  free : FreeIs r.store.mem r.store.freelist fun p =>
    IsBlock r.store.map tiles p ∧ (r.store.mem p).isfree = true ∧ p ∉ r.ptrs
  pending : r.store.pending = r.ptrs.countP fun p => (r.store.mem p).isfree
  nodup : r.ptrs.Nodup
  blocks : ∀ p ∈ r.ptrs, IsBlock r.store.map tiles p
  record : ∀ x ∈ r.held, x.requested ≤ x.size ∧ (r.store.mem x.ptr).size = x.size ∧
    (x.written = true → (r.store.mem x.ptr).isfree = false)

/-- The blocks of a file, as it is read. -/
def FileOk (file : File) (tiles : ℕ → List ℕ) : Prop :=
  HeapOk (dsmOpen file).mem (dsmOpen file).map (dsmOpen file).pages tiles

/-- A store begins new or with a file that consists of blocks, of which the application may
hold any records. -/
inductive Start : Run → Prop
  | create (fd : Bool) : Start ⟨Store.create fd, []⟩
  | opened (file : File) (tiles : ℕ → List ℕ) (held : List Record) (hfile : FileOk file tiles)
      (hnodup : (held.map Record.ptr).Nodup)
      (hheld : ∀ x ∈ held, IsBlock (dsmOpen file).map tiles x.ptr ∧
        ((dsmOpen file).mem x.ptr).cookie = hdrCookie ∧
        ((dsmOpen file).mem x.ptr).isfree = false ∧
        x.requested ≤ x.size ∧ ((dsmOpen file).mem x.ptr).size = x.size) :
      Start ⟨dsmOpen file, held⟩

variable {r : Run} {s s' : Store} {tiles : ℕ → List ℕ} {held : List Ptr} {p q : Ptr} {n : ℕ}
  {P : Ptr → Prop}

/-! ### Opening -/

/-- The loop through a chunk, from one of its blocks on. -/
theorem buildFreelistChunk_spec {n c o : ℕ} {m : FileMap} (before : List ℕ) {after : List ℕ}
    (h : HeapOk s.mem s.map s.pages tiles) (hm : s.map[c]? = some m)
    (htiles : tiles c = before ++ o :: after) (hn : after.length < n)
    (hfree : FreeIs s.mem s.freelist P) (hP : ∀ p, P p → p.chunk = c → p.off ∈ before) :
    ∃ freelist, buildFreelistChunk m.size n s ⟨c, o⟩ = { s with freelist := freelist } ∧
      FreeIs s.mem freelist fun p =>
        P p ∨ p.chunk = c ∧ p.off ∈ o :: after ∧ (s.mem p).isfree = true := by
  induction n generalizing s o before after P with
  | zero => exact absurd hn (Nat.not_lt_zero _)
  | succ n ih =>
    have htiled := h.tiled c m hm
    rw [htiles] at htiled
    have hnotMem : o ∉ before := by
      have hnodup := List.nodup_middle.mp (htiled.nodup (by decide))
      exact fun hmem => (List.nodup_cons.mp hnodup).1 (List.mem_append_left _ hmem)
    have hPo : ¬ P ⟨c, o⟩ := fun hp => hnotMem (hP _ hp rfl)
    obtain ⟨-, -, -, hend⟩ := h.chunk c m hm
    have hbound := h.bound
    have hnext : (⟨c, o⟩ : Ptr).add ((s.mem ⟨c, o⟩).size + preheader)
        = ⟨c, o + (s.mem ⟨c, o⟩).size + preheader⟩ := by
      rw [Ptr.add, ← Nat.add_assoc]
    have hin : o + (s.mem ⟨c, o⟩).size + preheader ≤ m.size :=
      (htiled.mem_le (List.mem_append_right before List.mem_cons_self)).2
    have hif : freeIf s ⟨c, o⟩ = { s with freelist := (freeIf s ⟨c, o⟩).freelist } := by
      rw [freeIf]
      split <;> rfl
    have hfree₁ := hfree.freeIf hPo
    set s₁ := freeIf s ⟨c, o⟩ with hs₁
    have hmem₁ : s₁.mem = s.mem := freeIf_mem s _
    have hunfold : buildFreelistChunk m.size (n + 1) s ⟨c, o⟩ =
        if m.size ≤ u32 (o + (s.mem ⟨c, o⟩).size + preheader) then s₁
        else buildFreelistChunk m.size n s₁ ⟨c, o + (s.mem ⟨c, o⟩).size + preheader⟩ := by
      rw [buildFreelistChunk]
      show (if m.size ≤ u32 ((⟨c, o⟩ : Ptr).add ((s₁.mem ⟨c, o⟩).size + preheader)).off then s₁
        else buildFreelistChunk m.size n s₁
          ((⟨c, o⟩ : Ptr).add ((s₁.mem ⟨c, o⟩).size + preheader))) = _
      rw [hmem₁, hnext]
    cases after with
    | nil =>
      rw [hunfold, if_pos ((u32_le_iff (by omega)).mpr htiled.next_nil.ge)]
      refine ⟨s₁.freelist, hif, hfree₁.iff fun q => or_congr_right ?_⟩
      rw [List.mem_singleton]
      constructor
      · rintro ⟨hq, hf⟩
        exact ⟨congrArg Ptr.chunk hq, congrArg Ptr.off hq, hf⟩
      · rintro ⟨hc, ho, hf⟩
        exact ⟨by rw [← hc, ← ho], hf⟩
    | cons o' after =>
      have ho' := htiled.next_cons
      have hle := htiled.mem_le (List.mem_append_right before
        (List.mem_cons_of_mem o List.mem_cons_self))
      have hnot : ¬ m.size ≤ u32 (o + (s.mem ⟨c, o⟩).size + preheader) := by
        rw [u32_le_iff (by omega), ← ho']
        have hgap : 0 < preheader := by decide
        omega
      rw [hunfold, if_neg hnot, ← ho']
      rw [← hmem₁] at hfree₁
      obtain ⟨freelist, hrun, hlist⟩ := ih (s := s₁) (o := o') (before ++ [o]) (by rw [hif]; exact h) (by rw [hif]; exact hm)
        (by rw [htiles, List.append_assoc]; rfl) (Nat.lt_of_succ_lt_succ hn) hfree₁
        (by
          rintro p (hp | ⟨rfl, -⟩) hc
          · exact List.mem_append_left _ (hP p hp hc)
          · exact List.mem_append_right _ (List.mem_singleton.mpr rfl))
      rw [hmem₁] at hlist
      refine ⟨freelist, hrun.trans (by rw [hif]), hlist.iff fun q => ?_⟩
      constructor
      · rintro ((hp | ⟨rfl, hf⟩) | ⟨hc, ho, hf⟩)
        · exact Or.inl hp
        · exact Or.inr ⟨rfl, List.mem_cons_self, hf⟩
        · exact Or.inr ⟨hc, List.mem_cons_of_mem _ ho, hf⟩
      · rintro (hp | ⟨hc, ho, hf⟩)
        · exact Or.inl (Or.inl hp)
        · rcases List.mem_cons.mp ho with ho | ho
          · exact Or.inl (Or.inr ⟨by rw [← hc, ← ho], hf⟩)
          · exact Or.inr ⟨hc, ho, hf⟩

theorem buildFreelistChunk_freelist (mapSize n : ℕ) (s : Store) (p : Ptr) :
    ∃ freelist, buildFreelistChunk mapSize n s p = { s with freelist := freelist } := by
  induction n generalizing s p with
  | zero => exact ⟨s.freelist, rfl⟩
  | succ n ih =>
    rw [buildFreelistChunk]
    by_cases hf : (s.mem p).isfree = true
    · rw [if_pos hf]
      split
      · exact ⟨_, rfl⟩
      · obtain ⟨freelist, hrun⟩ := ih (freeBlock s p) _
        exact ⟨freelist, hrun⟩
    · rw [if_neg hf]
      split
      · exact ⟨s.freelist, rfl⟩
      · exact ih s _

/-- All free blocks of the file are on the list. -/
theorem dsmOpen_spec {file : File} (hfile : FileOk file tiles) :
    FreeIs (dsmOpen file).mem (dsmOpen file).freelist (fun p =>
      IsBlock (dsmOpen file).map tiles p ∧ ((dsmOpen file).mem p).isfree = true) ∧
      (dsmOpen file).pending = 0 := by
  set s : Store := {
    fd := true
    freelist := []
    map := if 0 < file.pages then [⟨pageSize, file.pages * pageSize⟩] else []
    pages := file.pages
    pending := 0
    mem := fun p => file.hdr (pageSize + p.off)
    data := fun p => file.byte (pageSize + p.off)
    log := [] } with hs
  by_cases hpages : 0 < file.pages
  · have hopen : dsmOpen file =
        buildFreelistChunk (file.pages * pageSize) (file.pages * pageSize) s ⟨0, 0⟩ := by
      rw [dsmOpen]
      exact if_pos hpages
    have hmap : s.map = [⟨pageSize, file.pages * pageSize⟩] := if_pos hpages
    obtain ⟨freelist, hrun⟩ :=
      buildFreelistChunk_freelist (file.pages * pageSize) (file.pages * pageSize) s ⟨0, 0⟩
    rw [FileOk, hopen, hrun] at hfile
    have hok : HeapOk s.mem s.map s.pages tiles := hfile
    have hm : s.map[0]? = some ⟨pageSize, file.pages * pageSize⟩ := by rw [hmap]; rfl
    obtain ⟨after, htiles, hlen⟩ := hok.cons hm
    have hempty : FreeIs s.mem s.freelist fun _ => False :=
      ⟨List.Pairwise.nil, List.nodup_nil, fun p => ⟨fun hp => absurd hp List.not_mem_nil, False.elim⟩⟩
    obtain ⟨freelist', hrun', hfree⟩ := buildFreelistChunk_spec [] hok hm htiles hlen
      hempty fun _ hp _ => hp.elim
    rw [hopen, hrun']
    refine ⟨hfree.iff fun p => ?_, rfl⟩
    show False ∨ _ ↔ IsBlock s.map tiles p ∧ (s.mem p).isfree = true
    rw [false_or, IsBlock, hmap, List.length_singleton, Nat.lt_one_iff, and_assoc]
    refine and_congr_right fun hc => ?_
    rw [hc, htiles]
  · have hopen : dsmOpen file = s := by
      rw [dsmOpen]
      exact if_neg hpages
    have hmap : s.map = [] := if_neg hpages
    rw [hopen]
    refine ⟨⟨List.Pairwise.nil, List.nodup_nil, fun p => ⟨fun hp => absurd hp List.not_mem_nil, ?_⟩⟩,
      rfl⟩
    rintro ⟨⟨hlt, -⟩, -⟩
    rw [hmap] at hlt
    exact absurd hlt (Nat.not_lt_zero _)

/-! ### Steps -/

/-- `Sound`, and the cookies of the records. -/
structure RunInv (r : Run) (tiles : ℕ → List ℕ) : Prop where
  inv : Inv r.store tiles r.ptrs
  pending : PendingOk r.store r.ptrs
  cookie : ∀ p ∈ r.ptrs, (r.store.mem p).cookie = hdrCookie
  record : ∀ x ∈ r.held, x.requested ≤ x.size ∧ (r.store.mem x.ptr).size = x.size ∧
    (x.written = true → (r.store.mem x.ptr).isfree = false)

theorem RunInv.sound (h : RunInv r tiles) : Sound r tiles :=
  ⟨h.inv.heap, h.inv.free, h.pending, h.inv.nodup, h.inv.blocks, h.record⟩

theorem start_runInv (h : Start r) : ∃ tiles, RunInv r tiles := by
  cases h with
  | create fd =>
    refine ⟨fun _ => [], ⟨⟨⟨?_, ?_, ?_, ?_, ?_, ?_⟩, ⟨List.Pairwise.nil, List.nodup_nil, ?_⟩, ?_,
      List.nodup_nil⟩, rfl, ?_, ?_⟩⟩
    · intro c m hm
      cases hm
    · intro c m hm
      cases hm
    · intro c m hm
      cases hm
    · intro c m hm
      cases hm
    · intro c m hm
      cases hm
    · show (0 + 1) * pageSize < 2 ^ 31
      decide
    · exact fun p => ⟨fun hp => absurd hp List.not_mem_nil, fun hp => absurd hp.1.1 (Nat.not_lt_zero _)⟩
    · exact fun p hp => absurd hp List.not_mem_nil
    · exact fun p hp => absurd hp List.not_mem_nil
    · exact fun x hx => absurd hx List.not_mem_nil
  | opened file tiles held hfile hnodup hheld =>
    obtain ⟨hfree, hpending⟩ := dsmOpen_spec hfile
    have hptr : ∀ p ∈ held.map Record.ptr, IsBlock (dsmOpen file).map tiles p ∧
        ((dsmOpen file).mem p).cookie = hdrCookie ∧ ((dsmOpen file).mem p).isfree = false := by
      intro p hp
      obtain ⟨x, hx, rfl⟩ := List.mem_map.mp hp
      obtain ⟨hblock, hcookie, hf, -, -⟩ := hheld x hx
      exact ⟨hblock, hcookie, hf⟩
    refine ⟨tiles, ⟨hfile, hfree.iff fun p => and_congr_right fun _ => ?_, fun p hp => (hptr p hp).1,
      hnodup⟩, ?_, fun p hp => (hptr p hp).2.1, fun x hx => ?_⟩
    · refine ⟨fun hf => ⟨hf, fun hp => ?_⟩, And.left⟩
      rw [(hptr p hp).2.2] at hf
      cases hf
    · refine hpending.trans (List.countP_eq_zero.mpr fun p hp => ?_).symm
      rw [(hptr p hp).2.2]
      exact Bool.false_ne_true
    · obtain ⟨-, -, hf, hreq, hsize⟩ := hheld x hx
      exact ⟨hreq, hsize, fun _ => hf⟩

theorem mark_ptrs (p : Ptr) (written : Bool) (held : List Record) :
    (mark p written held).map Record.ptr = held.map Record.ptr := by
  rw [mark, List.map_map]
  refine List.map_congr_left fun x _ => ?_
  show (if x.ptr = p then _ else _ : Record).ptr = x.ptr
  split <;> rfl

/-- A count in which one element may change. -/
theorem countP_of_eq_off {l : List Ptr} {f g : Ptr → Bool} (hl : l.Nodup) (hp : p ∈ l)
    (hfg : ∀ q, q ≠ p → f q = g q) : l.countP f + (g p).toNat = l.countP g + (f p).toNat := by
  have hperm := List.perm_cons_erase hp
  have hrest : (l.erase p).countP f = (l.erase p).countP g := by
    refine List.countP_congr fun q hq => ?_
    rw [hfg q fun heq => hl.not_mem_erase (heq ▸ hq)]
  rw [hperm.countP_eq f, hperm.countP_eq g, List.countP_cons, List.countP_cons, hrest]
  cases f p <;> cases g p <;> simp

/-- The preheader of a held block changes, but neither its size nor its location. -/
theorem RunInv.touch (h : RunInv r tiles) (hp : p ∈ r.ptrs) (hmap : s'.map = r.store.map)
    (hpages : s'.pages = r.store.pages) (hlist : s'.freelist = r.store.freelist)
    (hmem : ∀ q, q ≠ p → s'.mem q = r.store.mem q)
    (hsize : (s'.mem p).size = (r.store.mem p).size) (hloc : (s'.mem p).loc = (r.store.mem p).loc)
    (hcookie : (s'.mem p).cookie = hdrCookie)
    (hpending : s'.pending + (r.store.mem p).isfree.toNat
      = r.store.pending + (s'.mem p).isfree.toNat)
    {written : Bool} (hwritten : written = true → (s'.mem p).isfree = false) :
    RunInv ⟨s', mark p written r.held⟩ tiles := by
  have hptrs : Run.ptrs ⟨s', mark p written r.held⟩ = r.ptrs := mark_ptrs p written r.held
  refine ⟨?_, ?_, ?_, ?_⟩
  · rw [hptrs]
    refine h.inv.of_mem hmap hpages hlist (fun q hq => hmem q fun heq => hq (heq ▸ hp)) fun q _ => ?_
    by_cases hq : q = p
    · rw [hq]
      exact ⟨hsize, hloc⟩
    · show (s'.mem q).size = _ ∧ (s'.mem q).loc = _
      rw [hmem q hq]
      exact ⟨rfl, rfl⟩
  · rw [hptrs]
    have hcount := countP_of_eq_off h.inv.nodup hp (f := fun q => (s'.mem q).isfree)
      (g := fun q => (r.store.mem q).isfree) fun q hq => by rw [hmem q hq]
    have hold : r.store.pending = r.ptrs.countP fun q => (r.store.mem q).isfree := h.pending
    show s'.pending = r.ptrs.countP fun q => (s'.mem q).isfree
    omega
  · intro q hq
    rw [hptrs] at hq
    by_cases heq : q = p
    · rw [heq]
      exact hcookie
    · show (s'.mem q).cookie = _
      rw [hmem q heq]
      exact h.cookie q hq
  · intro x hx
    obtain ⟨y, hy, rfl⟩ := List.mem_map.mp hx
    obtain ⟨hreq, hold, hused⟩ := h.record y hy
    by_cases heq : y.ptr = p
    · rw [if_pos heq]
      refine ⟨hreq, ?_, fun hw => ?_⟩
      · show (s'.mem y.ptr).size = y.size
        rw [heq, hsize, ← heq]
        exact hold
      · show (s'.mem y.ptr).isfree = false
        rw [heq]
        exact hwritten hw
    · rw [if_neg heq]
      show _ ∧ (s'.mem y.ptr).size = _ ∧ (_ → (s'.mem y.ptr).isfree = _)
      rw [hmem y.ptr heq]
      exact ⟨hreq, hold, hused⟩

/-- A held free block is pending. -/
theorem RunInv.lessPending (h : RunInv r tiles) (hp : p ∈ r.ptrs)
    (hf : (r.store.mem p).isfree = true) (hpending : s.pending = r.store.pending) :
    lessPending s = some { s with pending := s.pending - 1 } ∧ 0 < s.pending := by
  have hpos : 0 < s.pending := by
    rw [hpending, h.pending]
    exact List.countP_pos_iff.mpr ⟨p, hp, hf⟩
  exact ⟨if_pos hpos, hpos⟩

theorem RunInv.blockFromPtr (h : RunInv r tiles) (hp : p ∈ r.ptrs) :
    blockFromPtr r.store p = true := decide_eq_true (h.cookie p hp)

/-- A step that keeps `w` in place of the store, where `p` is no longer free and no longer
pending. -/
theorem RunInv.commit (h : RunInv r tiles) (hp : p ∈ r.ptrs) {w : Store}
    (hmap : w.map = r.store.map) (hpages : w.pages = r.store.pages)
    (hlist : w.freelist = r.store.freelist)
    (hmem : ∀ q, w.mem q = if q = p then { r.store.mem p with isfree := false } else r.store.mem q)
    (hpending : w.pending + (r.store.mem p).isfree.toNat = r.store.pending) :
    RunInv ⟨w, mark p true r.held⟩ tiles := by
  have hself : w.mem p = { r.store.mem p with isfree := false } := by rw [hmem, if_pos rfl]
  refine h.touch hp hmap hpages hlist (fun q hq => by rw [hmem, if_neg hq]) ?_ ?_ ?_ ?_ fun _ => ?_
  · rw [hself]
  · rw [hself]
  · rw [hself]
    exact h.cookie p hp
  · rw [hself]
    exact hpending
  · rw [hself]

theorem write_runInv (h : RunInv r tiles) (hp : p ∈ r.ptrs)
    (hok : r.store.fd = true ∨ (r.store.mem p).isfree = false) :
    ∃ r', runStep r (.write p) = some r' ∧ RunInv r' tiles := by
  have hblock := h.blockFromPtr hp
  by_cases hf : (r.store.mem p).isfree = true
  · have hfd : r.store.fd = true := hok.resolve_right fun hfalse => by
      rw [hf] at hfalse
      cases hfalse
    -- both ways of writing leave the same preheaders
    obtain ⟨w, hw, hmap, hpages, hlist, hpend, hmem⟩ : ∃ w : Store,
        dsmWrite r.store p = (lessPending w).map (fun s => (s, Status.ok)) ∧
        w.map = r.store.map ∧ w.pages = r.store.pages ∧ w.freelist = r.store.freelist ∧
        w.pending = r.store.pending ∧
        ∀ q, w.mem q = if q = p then { r.store.mem p with isfree := false } else r.store.mem q := by
      rw [dsmWrite, hblock, hf, hfd, if_neg (by simp), if_neg (by simp)]
      simp only [if_true]
      by_cases hpage : onOnePage (r.store.mem p) = true
      · rw [if_pos hpage]
        refine ⟨writeBlock (r.store.set p fun b => { b with isfree := false }) p
          (r.store.mem p).size, ?_, write_map _ _, write_pages _ _, write_freelist _ _,
          write_pending _ _, fun q => ?_⟩
        · cases hless : lessPending (writeBlock (r.store.set p fun b => { b with isfree := false }) p
            (r.store.mem p).size) <;> rfl
        · rw [writeBlock, write_mem, set_mem]
      · rw [if_neg hpage]
        refine ⟨writeHeader ((writeBlock r.store p (r.store.mem p).size).set p
          fun b => { b with isfree := false }) p, ?_, (write_map _ _).trans (write_map _ _),
          (write_pages _ _).trans (write_pages _ _), (write_freelist _ _).trans (write_freelist _ _),
          (write_pending _ _).trans (write_pending _ _), fun q => ?_⟩
        · cases hless : lessPending (writeHeader ((writeBlock r.store p (r.store.mem p).size).set p
            fun b => { b with isfree := false }) p) <;> rfl
        · rw [writeHeader, write_mem, set_mem, writeBlock, write_mem]
    obtain ⟨hless, hpos⟩ := h.lessPending hp hf hpend
    refine ⟨⟨{ w with pending := w.pending - 1 }, mark p true r.held⟩, ?_, ?_⟩
    · rw [runStep, hw, hless]
      rfl
    · refine h.commit hp hmap hpages hlist hmem ?_
      show w.pending - 1 + (r.store.mem p).isfree.toNat = _
      rw [hf, Bool.toNat_true]
      omega
  · refine ⟨r, ?_, h⟩
    rw [runStep, dsmWrite, hblock, if_neg (by simp), if_pos (by simpa using hf)]
    rfl

theorem writeHdr_runInv (h : RunInv r tiles) (hp : p ∈ r.ptrs) (size : ℕ) :
    ∃ r', runStep r (.writeHdr p size) = some r' ∧ RunInv r' tiles := by
  have hblock := h.blockFromPtr hp
  by_cases hsize : dsmHdrSize < size
  · refine ⟨r, ?_, h⟩
    rw [runStep, dsmWriteHdr, hblock, if_neg (by simp), if_pos hsize]
    rfl
  · obtain ⟨s₁, hs₁, hmap, hpages, hlist, hmem, hpending⟩ : ∃ s₁ : Store,
        dsmWriteHdr r.store p size =
          some (writeBlock (s₁.set p fun b => { b with isfree := false }) p size, .ok) ∧
        s₁.map = r.store.map ∧ s₁.pages = r.store.pages ∧ s₁.freelist = r.store.freelist ∧
        s₁.mem = r.store.mem ∧ s₁.pending + (r.store.mem p).isfree.toNat = r.store.pending := by
      rw [dsmWriteHdr, hblock, if_neg (by simp), if_neg hsize]
      by_cases hf : (r.store.mem p).isfree = true
      · obtain ⟨hless, hpos⟩ := h.lessPending hp hf rfl
        rw [hf, if_pos rfl, hless]
        refine ⟨_, rfl, rfl, rfl, rfl, rfl, ?_⟩
        show r.store.pending - 1 + 1 = _
        omega
      · rw [if_neg hf]
        refine ⟨_, rfl, rfl, rfl, rfl, rfl, ?_⟩
        rw [Bool.eq_false_iff.mpr hf]
        rfl
    refine ⟨⟨writeBlock (s₁.set p fun b => { b with isfree := false }) p size,
      mark p true r.held⟩, ?_, ?_⟩
    · rw [runStep, hs₁]
      rfl
    · refine h.commit hp ((write_map _ _).trans hmap) ((write_pages _ _).trans hpages)
        ((write_freelist _ _).trans hlist) (fun q => ?_) ?_
      · rw [writeBlock, write_mem, set_mem, hmem]
      · rw [writeBlock, write_pending]
        exact hpending

theorem detach_runInv (h : RunInv r tiles) (hp : p ∈ r.ptrs) :
    ∃ r', runStep r (.detach p) = some r' ∧ RunInv r' tiles := by
  have hblock := h.blockFromPtr hp
  by_cases hf : (r.store.mem p).isfree = true
  · -- the record is detached already
    refine ⟨⟨r.store, mark p false r.held⟩, ?_, ?_⟩
    · rw [runStep, dsmDetach, hblock, if_neg (by simp), if_neg (by simpa using hf)]
      rfl
    · exact h.touch hp rfl rfl rfl (fun _ _ => rfl) rfl rfl (h.cookie p hp) rfl
        fun hw => absurd hw Bool.false_ne_true
  · have hused : (r.store.mem p).isfree = false := Bool.eq_false_iff.mpr hf
    set w := writeHeader (r.store.set p fun b => { b with isfree := true }) p with hw
    have hmem (q : Ptr) : w.mem q =
        if q = p then { r.store.mem p with isfree := true } else r.store.mem q := by
      rw [hw, writeHeader, write_mem, set_mem]
    have hself : w.mem p = { r.store.mem p with isfree := true } := by rw [hmem, if_pos rfl]
    have hpend : w.pending = r.store.pending := write_pending _ _
    let w' : Store := { w with pending := w.pending + 1 }
    have hmap : w'.map = r.store.map := write_map _ _
    have hpages : w'.pages = r.store.pages := write_pages _ _
    have hlist : w'.freelist = r.store.freelist := write_freelist _ _
    refine ⟨⟨w', mark p false r.held⟩, ?_, ?_⟩
    · rw [runStep, dsmDetach, hblock, if_neg (by simp), if_pos (by simpa using hf)]
      rfl
    · refine h.touch hp hmap hpages hlist (fun q hq => ?_) ?_ ?_ ?_ ?_
        fun hw => absurd hw Bool.false_ne_true
      · show w.mem q = _
        rw [hmem, if_neg hq]
      · show (w.mem p).size = _
        rw [hself]
      · show (w.mem p).loc = _
        rw [hself]
      · show (w.mem p).cookie = _
        rw [hself]
        exact h.cookie p hp
      · show w.pending + 1 + (r.store.mem p).isfree.toNat = r.store.pending + (w.mem p).isfree.toNat
        rw [hself, hpend, hused]
        rfl

theorem free_runInv (h : RunInv r tiles) (hp : p ∈ r.ptrs) :
    ∃ r', runStep r (.free p) = some r' ∧ RunInv r' tiles := by
  have hblock := h.blockFromPtr hp
  -- the block counts as pending if it was detached or not yet written
  obtain ⟨s₁, hs₁, hmap, hpages, hlist, hmem, hpending⟩ : ∃ s₁ : Store,
      dsmFree r.store p = some (makeFree s₁ p, .ok) ∧
      s₁.map = r.store.map ∧ s₁.pages = r.store.pages ∧ s₁.freelist = r.store.freelist ∧
      s₁.mem = r.store.mem ∧ s₁.pending + (r.store.mem p).isfree.toNat = r.store.pending := by
    rw [dsmFree, hblock, if_neg (by simp)]
    by_cases hf : (r.store.mem p).isfree = true
    · obtain ⟨hless, hpos⟩ := h.lessPending hp hf rfl
      rw [hf, if_pos rfl, hless]
      refine ⟨_, rfl, rfl, rfl, rfl, rfl, ?_⟩
      show r.store.pending - 1 + 1 = _
      omega
    · rw [if_neg hf]
      refine ⟨_, rfl, rfl, rfl, rfl, rfl, ?_⟩
      rw [Bool.eq_false_iff.mpr hf]
      rfl
  set w := s₁.set p fun b => { b with isfree := true, cookie := 0 } with hw
  have hwmem (q : Ptr) : w.mem q =
      if q = p then { r.store.mem p with isfree := true, cookie := 0 } else r.store.mem q := by
    rw [hw, set_mem, hmem]
  have hself : w.mem p = { r.store.mem p with isfree := true, cookie := 0 } := by
    rw [hwmem, if_pos rfl]
  have hother (q : Ptr) (hq : q ≠ p) : w.mem q = r.store.mem q := by rw [hwmem, if_neg hq]
  have hmake : (makeFree s₁ p).mem = w.mem := write_mem _ _
  have hmake' : (makeFree s₁ p).map = r.store.map := (write_map _ _).trans hmap
  have hsame (q : Ptr) :
      (w.mem q).size = (r.store.mem q).size ∧ (w.mem q).loc = (r.store.mem q).loc := by
    by_cases hq : q = p
    · rw [hq, hself]
      exact ⟨rfl, rfl⟩
    · rw [hother q hq]
      exact ⟨rfl, rfl⟩
  set held := r.held.filter fun x => x.ptr ≠ p with hheld
  have hptrs (q : Ptr) : q ∈ held.map Record.ptr ↔ q ∈ r.ptrs ∧ q ≠ p := by
    rw [hheld, Run.ptrs, List.mem_map, List.mem_map]
    constructor
    · rintro ⟨x, hx, rfl⟩
      obtain ⟨hx, hne⟩ := List.mem_filter.mp hx
      exact ⟨⟨x, hx, rfl⟩, by simpa using hne⟩
    · rintro ⟨⟨x, hx, rfl⟩, hne⟩
      exact ⟨x, List.mem_filter.mpr ⟨hx, by simpa using hne⟩, rfl⟩
  have hnodup : (held.map Record.ptr).Nodup := h.inv.nodup.sublist (List.filter_sublist.map _)
  have hcount : (held.map Record.ptr).countP (fun q => (w.mem q).isfree) +
      (r.store.mem p).isfree.toNat = r.ptrs.countP fun q => (r.store.mem q).isfree := by
    have hperm : r.ptrs.Perm (p :: held.map Record.ptr) :=
      (List.perm_ext_iff_of_nodup h.inv.nodup
        (List.nodup_cons.mpr ⟨fun hmem => ((hptrs p).mp hmem).2 rfl, hnodup⟩)).mpr fun q => by
          rw [List.mem_cons, hptrs]
          by_cases hq : q = p
          · simp [hq, hp]
          · simp [hq]
    rw [hperm.countP_eq, List.countP_cons]
    congr 1
    · exact List.countP_congr fun q hq => by rw [hother q ((hptrs q).mp hq).2]
    · cases (r.store.mem p).isfree <;> rfl
  refine ⟨⟨makeFree s₁ p, held⟩, ?_, ?_⟩
  · rw [runStep, hs₁]
    rfl
  · refine ⟨⟨?_, ?_, ?_, hnodup⟩, ?_, ?_, ?_⟩
    · show HeapOk (makeFree s₁ p).mem (makeFree s₁ p).map (makeFree s₁ p).pages tiles
      rw [hmake, hmake', show (makeFree s₁ p).pages = _ from (write_pages _ _).trans hpages]
      exact h.inv.heap.congr fun q _ => hsame q
    · show FreeIs (makeFree s₁ p).mem (makeFree s₁ p).freelist _
      have hfl : (makeFree s₁ p).freelist
          = (freeBlock { r.store with mem := w.mem } p).freelist := by
        show (freeBlock (writeHeader w p) p).freelist = _
        rw [freeBlock, freeBlock, writeHeader, write_mem, write_freelist, hw]
        show s₁.freelist.orderedInsert _ p = _
        rw [hlist]
      rw [hmake, hfl]
      refine (FreeIs.insert (s := { r.store with mem := w.mem })
        (h.inv.free.congr fun q _ => (hsame q).1) fun hq => hq.2.2 hp).iff fun q => ?_
      show _ ↔ IsBlock (makeFree s₁ p).map tiles q ∧ (w.mem q).isfree = true ∧
        q ∉ held.map Record.ptr
      rw [hmake', hptrs]
      by_cases hq : q = p
      · rw [hq, hself]
        have hin := h.inv.blocks p hp
        simp [hin]
      · rw [hother q hq]
        simp [hq]
    · intro q hq
      rw [show (⟨makeFree s₁ p, held⟩ : Run).store.map = _ from hmake']
      exact h.inv.blocks q ((hptrs q).mp hq).1
    · show (makeFree s₁ p).pending = (held.map Record.ptr).countP _
      have hpend : (makeFree s₁ p).pending = s₁.pending := write_pending _ _
      have hold : r.store.pending = r.ptrs.countP fun q => (r.store.mem q).isfree := h.pending
      show _ = (held.map Record.ptr).countP fun q => ((makeFree s₁ p).mem q).isfree
      rw [hmake, hpend]
      omega
    · intro q hq
      obtain ⟨hq, hne⟩ := (hptrs q).mp hq
      show ((makeFree s₁ p).mem q).cookie = _
      rw [hmake, hother q hne]
      exact h.cookie q hq
    · intro x hx
      obtain ⟨hx, hne⟩ := List.mem_filter.mp hx
      show _ ∧ ((makeFree s₁ p).mem x.ptr).size = _ ∧ (_ → ((makeFree s₁ p).mem x.ptr).isfree = _)
      rw [hmake, hother x.ptr (by simpa using hne)]
      exact h.record x hx

theorem RunInv.handOut {tiles' : ℕ → List ℕ} {a : Store × Ptr} (h : RunInv r tiles)
    (hinv : Inv a.1 tiles' (a.2 :: r.ptrs)) (hpending : PendingOk a.1 (a.2 :: r.ptrs))
    (hheld : ∀ q ∈ r.ptrs, a.1.mem q = r.store.mem q) (hcookie : (a.1.mem a.2).cookie = hdrCookie)
    (hsize : n ≤ (a.1.mem a.2).size) : RunInv (handOut r n a) tiles' := by
  refine ⟨hinv, hpending, ?_, ?_⟩
  · intro p hp
    rcases List.mem_cons.mp hp with rfl | hp
    · exact hcookie
    · show (a.1.mem p).cookie = _
      rw [hheld p hp]
      exact h.cookie p hp
  · intro x hx
    rcases List.mem_cons.mp hx with rfl | hx
    · exact ⟨hsize, rfl, fun hw => absurd hw Bool.false_ne_true⟩
    · show _ ∧ (a.1.mem x.ptr).size = _ ∧ (_ → (a.1.mem x.ptr).isfree = _)
      rw [hheld x.ptr (List.mem_map_of_mem hx)]
      exact h.record x hx

theorem allocate_runInv (h : RunInv r tiles) (hn : n < 2 ^ 31)
    (hok : Fits r.store (roundUp n 8)) :
    ∃ tiles' r', runStep r (.allocate n) = some r' ∧ RunInv r' tiles' := by
  obtain ⟨tiles', hinv, hpending, -, hheld, hcookie, hsize, -, -⟩ :=
    dsmAllocate_spec h.inv h.pending hn hok
  exact ⟨tiles', handOut r n (dsmAllocate r.store n), by rw [runStep],
    h.handOut hinv hpending hheld hcookie hsize⟩

theorem runStep_runInv {op : Op} (h : RunInv r tiles) (ha : Allowed r op) (hok : OpOk r op) :
    ∃ tiles' r', runStep r op = some r' ∧ RunInv r' tiles' := by
  cases op with
  | allocate n => exact allocate_runInv h ha hok
  | write p => exact ⟨tiles, write_runInv h ha hok⟩
  | writeHdr p size => exact ⟨tiles, writeHdr_runInv h ha size⟩
  | detach p => exact ⟨tiles, detach_runInv h ha⟩
  | free p => exact ⟨tiles, free_runInv h ha⟩

/-! ### Runs -/

theorem exec_runInv {ops : List Op} (h : RunInv r tiles)
    (hops : Along runStep (fun r op => Allowed r op ∧ OpOk r op) r ops) :
    ∃ tiles' r', exec runStep r ops = some r' ∧ RunInv r' tiles' := by
  induction ops generalizing r tiles with
  | nil => exact ⟨tiles, r, rfl, h⟩
  | cons op ops ih =>
    obtain ⟨tiles₁, r₁, hstep, h₁⟩ := runStep_runInv h hops.1.1 hops.1.2
    obtain ⟨tiles', r', hrun, h'⟩ := ih h₁ (hops.2 r₁ hstep)
    exact ⟨tiles', r', exec_cons_eq_some.mpr ⟨r₁, hstep, hrun⟩, h'⟩

/-- No assertion fails, and the store is sound, in every state of a run whose steps all meet the
condition. -/
theorem sound_of_along (r : Run) (hstart : Start r) (ops : List Op)
    (hops : Along runStep (fun r op => Allowed r op ∧ OpOk r op) r ops) :
    ∃ r' tiles, exec runStep r ops = some r' ∧ Sound r' tiles := by
  obtain ⟨tiles, h⟩ := start_runInv hstart
  obtain ⟨tiles', r', hrun, h'⟩ := exec_runInv h hops
  exact ⟨r', tiles', hrun, h'.sound⟩

/-- Two records in a file: one is written, detached and freed, the other one stays. -/
def soundOps : List Op :=
  [.allocate 100, .allocate 2000, .write ⟨0, 0⟩, .writeHdr ⟨0, 128⟩ 16, .detach ⟨0, 0⟩,
    .free ⟨0, 0⟩, .allocate 6000]

theorem sound_of_along_soundOps :
    Start ⟨Store.create true, []⟩ ∧
      Along runStep (fun r op => Allowed r op ∧ OpOk r op) ⟨Store.create true, []⟩ soundOps ∧
      ∃ r' tiles, exec runStep ⟨Store.create true, []⟩ soundOps = some r' ∧ Sound r' tiles :=
  ⟨.create true, by decide,
    sound_of_along ⟨Store.create true, []⟩ (.create true) soundOps (by decide)⟩

/-- In a new chunk of 6144 bytes a block for 6144 bytes is larger than the chunk. -/
theorem not_sound_large : ¬ ∃ r' tiles,
    exec runStep ⟨Store.create true, []⟩ [.allocate 6144] = some r' ∧ Sound r' tiles := by
  rintro ⟨r', tiles, hrun, h⟩
  have hstate : (exec runStep ⟨Store.create true, []⟩ [.allocate 6144]).map
      (fun r => (r.ptrs, (r.store.mem ⟨0, 0⟩).size, r.store.map.map FileMap.size))
      = some ([⟨0, 0⟩], 6144, [6144]) := by
    decide
  rw [hrun, Option.map_some, Option.some_inj, Prod.mk.injEq, Prod.mk.injEq] at hstate
  obtain ⟨hptrs, hsize, hmap⟩ := hstate
  have hp : (⟨0, 0⟩ : Ptr) ∈ r'.ptrs := by rw [hptrs]; exact List.mem_singleton.mpr rfl
  obtain ⟨m, hm, -, -, hle, -, -⟩ := h.heap.isBlock (h.blocks _ hp)
  have hmsize : (r'.store.map.map FileMap.size)[0]? = some m.size := by
    rw [List.getElem?_map, hm]
    rfl
  rw [hmap] at hmsize
  have hm6144 : 6144 = m.size := Option.some_inj.mp hmsize
  rw [hsize, ← hm6144] at hle
  exact absurd hle (by decide)

/-- Without a file a detached record that is written stays free, but pending no longer. -/
theorem not_sound_volatile : ¬ ∃ r' tiles,
    exec runStep ⟨Store.create false, []⟩ [.allocate 8, .detach ⟨0, 0⟩, .write ⟨0, 0⟩] = some r' ∧
      Sound r' tiles := by
  rintro ⟨r', tiles, hrun, h⟩
  have hstate : (exec runStep ⟨Store.create false, []⟩
      [.allocate 8, .detach ⟨0, 0⟩, .write ⟨0, 0⟩]).map (fun r => (r.store.pending,
        r.ptrs.countP fun p => (r.store.mem p).isfree)) = some (0, 1) := by
    decide
  rw [hrun, Option.map_some, Option.some_inj, Prod.mk.injEq] at hstate
  have hpending := h.pending
  rw [hstate.1, hstate.2] at hpending
  cases hpending

end Dsm
